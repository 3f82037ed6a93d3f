import Mathlib.Logic.Function.Basic
import Mcpp.Conformance

/-! What a rejected entry leaves in the member. The reader writes as it walks: what stands
in front of the first node that fails is already read, and a vector has the length of its
array. -/
namespace Mcpp.ConfigRejection
open Buffers Documents Config ReadConfig Conformance

variable {F : Floating} {α β γ : Type}

def UnmovedElements (conforms : Node F → Prop) (unmoved : Node F → α → Prop) : List (Node F) → List α → Prop
  | node :: nodes, value :: values =>
    unmoved node value ∧ (conforms node → UnmovedElements conforms unmoved nodes values)
  | _, _ => True

mutual
/- Up to the first node that does not conform, the value is what the node says. -/
def Unmoved : (t : ConfigType) → Node F → t.Value F → Prop
  | .int, node, value => ∀ i, asInteger node = some i → i.truncate 32 = value
  | .string, node, value => ∀ text, asString node = some text → text = value
  | .bool, node, value => ∀ b, asBoolean node = some b → b = value
  | .float, node, value => ∀ x, asFloatingPoint node = some x → F.narrow x = value
  | .double, node, value => ∀ x, asFloatingPoint node = some x → x = value
  | .vector element, .array elements, (values : List (element.Value F)) =>
    values.length = elements.length ∧ UnmovedElements (Conforms element) (Unmoved element) elements values
  | .struct _ members, .table entries, values => UnmovedMembers members entries values
  | .vector _, _, _ | .struct _ _, _, _ => True
def UnmovedMembers : (members : Members) → Entries F → members.Values F → Prop
  | .nil, _, _ => True
  | .cons member type rest, entries, (value, values) =>
    ∀ node, entries member = some node →
      Unmoved type node value ∧ (Conforms type node → UnmovedMembers rest entries values)
end

/-! What is left as it was. -/

theorem leafUnmoved {as : Node F → Option β} {get : β → α} {node : Node F} {prior : α} :
    (readLeaf as get (some node) prior).1 = prior ↔ ∀ found, as node = some found → get found = prior := by
  rw [readLeaf, Option.bind_some]
  cases as node with
  | none =>
    refine iff_of_true rfl ?_
    intro found held
    contradiction
  | some value =>
    constructor
    · intro same found held
      cases held
      exact same
    · intro all
      exact all value rfl

theorem bothUnmoved {join : α → β → γ} (injective : Function.Injective2 join) {first : α × Bool} {second : β × Bool}
    {head : α} {tail : β} :
    (both join tail first second).1 = join head tail ↔ first.1 = head ∧ (first.2 = true → second.1 = tail) := by
  unfold both
  split
  · rename_i ok
    rw [injective.eq_iff]
    simp [ok]
  · rename_i failed
    rw [injective.eq_iff]
    simp [failed]

theorem elementsLength {read : Option (Node F) → α → α × Bool} (nodes : List (Node F)) (values : List α) :
    (readElements read nodes values).1.length = values.length := by
  induction nodes generalizing values with
  | nil => cases values <;> rfl
  | cons node nodes ih =>
    cases values with
    | nil => rfl
    | cons value values =>
      rw [readElements, both]
      split
      · exact congrArg Nat.succ (ih values)
      · rfl

theorem elementsUnmoved {read : Option (Node F) → α → α × Bool} {conforms : Node F → Prop} {unmoved : Node F → α → Prop}
    (accepts : ∀ node value, (read (some node) value).2 = true ↔ conforms node)
    (each : ∀ node value, (read (some node) value).1 = value ↔ unmoved node value) (nodes : List (Node F)) (values : List α) :
    (readElements read nodes values).1 = values ↔ UnmovedElements conforms unmoved nodes values := by
  induction nodes generalizing values with
  | nil => cases values <;> exact iff_of_true rfl trivial
  | cons node nodes ih =>
    cases values with
    | nil => exact iff_of_true rfl trivial
    | cons value values =>
      rw [readElements, bothUnmoved (fun _ _ _ _ => List.cons.inj), accepts, each, ih]
      rfl

theorem vectorUnmoved {read : Option (Node F) → α → α × Bool} (fresh : α) {elements : List (Node F)} {values : List α}
    {unmoved : Prop} (same : (readElements read elements values).1 = values ↔ unmoved) :
    (readElements read elements (resize fresh elements.length values)).1 = values ↔
      values.length = elements.length ∧ unmoved := by
  constructor
  · intro still
    have length : values.length = elements.length := by
      rw [← still, elementsLength, resizeLength]
    rw [← length, resizeSame] at still
    exact ⟨length, same.mp still⟩
  · intro ⟨length, unmoved⟩
    rw [← length, resizeSame]
    exact same.mpr unmoved

theorem acceptsNode (fresh : (t : ConfigType) → t.Value F) (t : ConfigType) (node : Node F) (prior : t.Value F) :
    (readInto fresh t (some node) prior).2 = true ↔ Conforms t node := by
  rw [acceptsConforming fresh]
  constructor
  · intro ⟨found, same, conforms⟩
    cases same
    exact conforms
  · intro conforms
    exact ⟨node, rfl, conforms⟩

mutual
theorem readUnmoved (fresh : (t : ConfigType) → t.Value F) (t : ConfigType) (node : Node F) (prior : t.Value F) :
    (readInto fresh t (some node) prior).1 = prior ↔ Unmoved t node prior := by
  cases t with
  | int => exact leafUnmoved
  | string => exact leafUnmoved
  | bool => exact leafUnmoved
  | float => exact leafUnmoved
  | double => exact leafUnmoved
  | vector element =>
    cases node with
    | array elements =>
      exact vectorUnmoved (fresh element) (elementsUnmoved (acceptsNode fresh element) (readUnmoved fresh element) elements prior)
    | _ => exact iff_of_true rfl trivial
  | struct structName members =>
    cases node with
    | table entries => exact membersUnmoved fresh members entries prior
    | _ => exact iff_of_true rfl trivial
theorem membersUnmoved (fresh : (t : ConfigType) → t.Value F) (members : Members) (entries : Entries F)
    (priors : members.Values F) : (readMembers fresh members entries priors).1 = priors ↔ UnmovedMembers members entries priors := by
  cases members with
  | nil => exact iff_of_true rfl trivial
  | cons member type others =>
    obtain ⟨prior, priors⟩ := priors
    have head : (readMembers fresh (.cons member type others) entries (prior, priors)).1 = (prior, priors) ↔
        (readInto fresh type (entries member) prior).1 = prior ∧
          ((readInto fresh type (entries member) prior).2 = true → (readMembers fresh others entries priors).1 = priors) :=
      bothUnmoved fun _ _ _ _ => Prod.mk.inj
    rw [head, membersUnmoved fresh others entries priors]
    change _ ↔ ∀ node, entries member = some node →
      Unmoved type node prior ∧ (Conforms type node → UnmovedMembers others entries priors)
    cases entries member with
    | none =>
      rw [readNone]
      exact iff_of_true ⟨rfl, nofun⟩ nofun
    | some node =>
      rw [readUnmoved fresh type node prior, acceptsNode]
      constructor
      · intro both found same
        cases same
        exact both
      · intro all
        exact all node rfl
end

theorem rejectedExactly (fresh : (t : ConfigType) → t.Value F) (t : ConfigType) (entries : Entries F) (name : Bytes)
    (prior : t.Value F) : ∃ value r, visit visitor fresh t (some name) prior (.fresh entries) = .ok (value, r) ∧
      ((r.ok = false → value = prior) ↔
        ∀ node, entries name = some node → ¬ Conforms t node → Unmoved t node prior) := by
  obtain ⟨r, run, ok⟩ := readsMember fresh t entries name prior
  refine ⟨_, r, run, ?_⟩
  rw [ok]
  cases entries name with
  | none =>
    rw [readNone]
    exact iff_of_true (fun _ => rfl) nofun
  | some node =>
    rw [readUnmoved, ← Bool.not_eq_true, acceptsNode]
    constructor
    · intro kept found same
      cases same
      exact kept
    · intro unmoved
      exact unmoved node rfl

/- An array of 1 and false in the place of [7]: the reader is not ok and leaves [1, 0]. -/
theorem rejectedWrites : ¬ ∀ (fresh : (t : ConfigType) → t.Value integral) (t : ConfigType) (entries : Entries integral)
    (name : Bytes) (prior value : t.Value integral) (r : CConfigReader integral),
    visit visitor fresh t (some name) prior (.fresh entries) = .ok (value, r) → r.ok = false → value = prior := by
  intro always
  have same := always (zero (0 : Int) (0 : Int)) (.vector .int)
    (fun _ => some (.array [.scalar (.integer 1), .scalar (.boolean false)])) [112] [7#32] [1#32, 0#32] _ rfl rfl
  have short : [1#32, 0#32].length = [7#32].length := congrArg List.length same
  contradiction

end Mcpp.ConfigRejection
