import Mathlib.Algebra.Ring.Int.Defs
import Mathlib.Data.List.Forall2
import Mcpp.ReadConfig

/-! Which nodes are of a type, and what value each of them denotes. The reader is ok with
exactly these nodes, and reads exactly that. -/
namespace Mcpp.Conformance
open Buffers Documents Config ReadConfig

variable {F : Floating}

mutual
def Conforms : ConfigType → Node F → Prop
  | .int, .scalar (.integer _) => True
  | .string, .scalar (.string _) => True
  | .bool, .scalar (.boolean _) => True
  | .float, .scalar (.floating _) => True
  | .double, .scalar (.floating _) => True
  | .vector element, .array elements => ∀ node ∈ elements, Conforms element node
  | .struct _ members, .table entries => ConformsMembers members entries
  | _, _ => False
def ConformsMembers : Members → Entries F → Prop
  | .nil, _ => True
  | .cons member type rest, entries =>
    (∃ node, entries member = some node ∧ Conforms type node) ∧ ConformsMembers rest entries
end

/- An int denotes the integer, not what is left of it in 32 bits. -/
mutual
def Denotes : (t : ConfigType) → Node F → t.Value F → Prop
  | .int, .scalar (.integer i), value => BitVec.toInt value = i.toInt
  | .string, .scalar (.string text), value => value = text
  | .bool, .scalar (.boolean b), value => value = b
  | .float, .scalar (.floating x), value => value = F.narrow x
  | .double, .scalar (.floating x), value => value = x
  | .vector element, .array elements, (values : List (element.Value F)) =>
    List.Forall₂ (Denotes element) elements values
  | .struct _ members, .table entries, values => DenotesMembers members entries values
  | _, _, _ => False
def DenotesMembers : (members : Members) → Entries F → members.Values F → Prop
  | .nil, _, _ => True
  | .cons member type rest, entries, (value, values) =>
    (∃ node, entries member = some node ∧ Denotes type node value) ∧ DenotesMembers rest entries values
end

def FitsInt (i : BitVec 64) : Prop := -2 ^ 31 ≤ i.toInt ∧ i.toInt < 2 ^ 31

theorem fitsDenoted {i : BitVec 64} (fits : FitsInt i) : ∃ v : BitVec 32, v.toInt = i.toInt :=
  ⟨BitVec.ofInt 32 i.toInt, BitVec.toInt_ofInt_eq_self (by decide) fits.1 fits.2⟩

def Fits (node : Node F) : Prop := ∀ path i, node.at path = some (.scalar (.integer i)) → FitsInt i

theorem fitsElement {elements : List (Node F)} {node : Node F} (fits : Fits (.array elements)) (mem : node ∈ elements) :
    Fits node := by
  intro path i found
  obtain ⟨k, held⟩ := List.mem_iff_getElem?.mp mem
  refine fits (.index k :: path) i ?_
  have child : (Document.array elements).child (.index k) = some node := held
  rw [atCons, child]
  exact found

theorem fitsArray {elements : List (Node F)} (all : ∀ node ∈ elements, Fits node) : Fits (.array elements) := by
  intro path i found
  cases path with
  | nil => cases found
  | cons step rest =>
    cases step with
    | key k => contradiction
    | index k =>
      obtain ⟨node, held, inner⟩ := Option.bind_eq_some_iff.mp found
      exact all node (List.mem_of_getElem? held) rest i inner

theorem scalarAt {value other : Scalar F} {path : List (Step Bytes)}
    (found : (Document.scalar value : Node F).at path = some (.scalar other)) : other = value := by
  cases path with
  | nil =>
    cases found
    rfl
  | cons step rest => cases step <;> contradiction

theorem fitsMember {entries : Entries F} {member : Bytes} {node : Node F} (fits : Fits (.table entries))
    (held : entries member = some node) : Fits node := by
  intro path i found
  refine fits (.key member :: path) i ?_
  rw [atTableKey, held]
  exact found

/-! What a node is read as, whatever stood there before: an int keeps the low half of the
integer. -/

def Leaf {α β : Type} (as : Node F → Option β) (get : β → α) (node : Node F) (value : α) : Prop :=
  ∃ found, as node = some found ∧ get found = value

mutual
def Casts : (t : ConfigType) → Node F → t.Value F → Prop
  | .int, node, value => Leaf asInteger (BitVec.truncate 32) node value
  | .string, node, value => Leaf asString id node value
  | .bool, node, value => Leaf asBoolean id node value
  | .float, node, value => Leaf asFloatingPoint F.narrow node value
  | .double, node, value => Leaf asFloatingPoint id node value
  | .vector element, .array elements, (values : List (element.Value F)) =>
    List.Forall₂ (Casts element) elements values
  | .struct _ members, .table entries, values => CastsMembers members entries values
  | _, _, _ => False
def CastsMembers : (members : Members) → Entries F → members.Values F → Prop
  | .nil, _, _ => True
  | .cons member type rest, entries, (value, values) =>
    (∃ node, entries member = some node ∧ Casts type node value) ∧ CastsMembers rest entries values
end

theorem leafRead {α β : Type} {as : Node F → Option β} {get : β → α} {node : Node F} {value : α}
    (leaf : Leaf as get node value) (prior : α) : readLeaf as get (some node) prior = (value, true) := by
  obtain ⟨found, held, rfl⟩ := leaf
  rw [readLeaf, Option.bind_some, held]

theorem elementsCast {α : Type} {read : Option (Node F) → α → α × Bool} {casts : Node F → α → Prop}
    (each : ∀ {node value} prior, casts node value → read (some node) prior = (value, true)) {nodes : List (Node F)}
    {values priors : List α} (all : List.Forall₂ casts nodes values) (same : priors.length = nodes.length) :
    readElements read nodes priors = (values, true) := by
  induction all generalizing priors with
  | nil =>
    obtain rfl := List.eq_nil_of_length_eq_zero same
    rfl
  | cons head _ ih =>
    cases priors with
    | nil => contradiction
    | cons prior priors => rw [readElements, each prior head, ih (Nat.succ.inj same), both, if_pos rfl]

mutual
theorem readCast (fresh : (t : ConfigType) → t.Value F) (t : ConfigType) {node : Node F} {value : t.Value F}
    (prior : t.Value F) (casts : Casts t node value) : readInto fresh t (some node) prior = (value, true) := by
  cases t with
  | int => exact leafRead casts prior
  | string => exact leafRead casts prior
  | bool => exact leafRead casts prior
  | float => exact leafRead casts prior
  | double => exact leafRead casts prior
  | vector element =>
    cases node with
    | array elements =>
      exact elementsCast (fun prior casts => readCast fresh element prior casts) casts (resizeLength ..)
    | _ => exact casts.elim
  | struct structName members =>
    cases node with
    | table entries => exact readMembersCast fresh members prior casts
    | _ => exact casts.elim
theorem readMembersCast (fresh : (t : ConfigType) → t.Value F) (members : Members) {entries : Entries F}
    {values : members.Values F} (priors : members.Values F) (casts : CastsMembers members entries values) :
    readMembers fresh members entries priors = (values, true) := by
  cases members with
  | nil => rfl
  | cons member type others =>
    obtain ⟨value, values⟩ := values
    obtain ⟨prior, priors⟩ := priors
    obtain ⟨⟨node, held, head⟩, tail⟩ := casts
    change both Prod.mk priors (readInto fresh type (entries member) prior) (readMembers fresh others entries priors) = _
    rw [held, readCast fresh type prior head, readMembersCast fresh others priors tail]
    rfl
end

/-! What is read conforms. -/

theorem leafConforms {α β : Type} {as : Node F → Option β} {get : β → α} {node : Option (Node F)} {prior : α}
    {conforms : Node F → Prop} (each : ∀ found, (as found).isSome → conforms found)
    (ok : (readLeaf as get node prior).2 = true) : ∃ found, node = some found ∧ conforms found := by
  cases node with
  | none => contradiction
  | some found =>
    unfold readLeaf at ok
    rw [Option.bind_some] at ok
    cases held : as found with
    | none => simp [held] at ok
    | some value => exact ⟨found, rfl, each found (held ▸ rfl)⟩

theorem integerConforms (node : Node F) (held : (asInteger node).isSome) : Conforms .int node := by
  unfold asInteger at held
  split at held
  · trivial
  · contradiction

theorem stringConforms (node : Node F) (held : (asString node).isSome) : Conforms .string node := by
  unfold asString at held
  split at held
  · trivial
  · contradiction

theorem booleanConforms (node : Node F) (held : (asBoolean node).isSome) : Conforms .bool node := by
  unfold asBoolean at held
  split at held
  · trivial
  · contradiction

theorem floatingConforms (node : Node F) (held : (asFloatingPoint node).isSome) :
    Conforms .float node ∧ Conforms .double node := by
  unfold asFloatingPoint at held
  split at held
  · exact ⟨trivial, trivial⟩
  · contradiction

theorem bothOk {α β γ : Type} {join : α → β → γ} {untouched : β} {first : α × Bool} {second : β × Bool}
    (ok : (both join untouched first second).2 = true) : first.2 = true ∧ second.2 = true := by
  unfold both at ok
  split at ok
  · exact ⟨‹_›, ok⟩
  · contradiction

theorem elementsConform {α : Type} {read : Option (Node F) → α → α × Bool} {conforms : Node F → Prop}
    (each : ∀ {node prior}, (read (some node) prior).2 = true → conforms node) {nodes : List (Node F)}
    {priors : List α} (same : priors.length = nodes.length) (ok : (readElements read nodes priors).2 = true) :
    ∀ node ∈ nodes, conforms node := by
  induction nodes generalizing priors with
  | nil => exact nofun
  | cons head nodes ih =>
    cases priors with
    | nil => contradiction
    | cons prior priors =>
      obtain ⟨first, second⟩ := bothOk ok
      intro node mem
      cases List.mem_cons.mp mem with
      | inl here =>
        subst here
        exact each first
      | inr later => exact ih (Nat.succ.inj same) second node later

mutual
theorem readConforms (fresh : (t : ConfigType) → t.Value F) (t : ConfigType) {node : Option (Node F)} {prior : t.Value F}
    (ok : (readInto fresh t node prior).2 = true) : ∃ found, node = some found ∧ Conforms t found := by
  cases t with
  | vector element =>
    cases node with
    | none => contradiction
    | some found =>
      refine ⟨found, rfl, ?_⟩
      cases found with
      | array elements =>
        refine elementsConform ?_ (resizeLength ..) ok
        intro node prior ok
        obtain ⟨found, here, conforms⟩ := readConforms fresh element ok
        exact Option.some.inj here ▸ conforms
      | _ => contradiction
  | struct structName members =>
    cases node with
    | none => contradiction
    | some found =>
      refine ⟨found, rfl, ?_⟩
      cases found with
      | table entries => exact readMembersConform fresh members ok
      | _ => contradiction
  | int => exact leafConforms integerConforms ok
  | string => exact leafConforms stringConforms ok
  | bool => exact leafConforms booleanConforms ok
  | float => exact leafConforms (fun node held => (floatingConforms node held).1) ok
  | double => exact leafConforms (fun node held => (floatingConforms node held).2) ok
theorem readMembersConform (fresh : (t : ConfigType) → t.Value F) (members : Members) {entries : Entries F}
    {priors : members.Values F} (ok : (readMembers fresh members entries priors).2 = true) :
    ConformsMembers members entries := by
  cases members with
  | nil => trivial
  | cons member type others =>
    obtain ⟨prior, priors⟩ := priors
    obtain ⟨first, second⟩ := bothOk ok
    exact ⟨readConforms fresh type first, readMembersConform fresh others second⟩
end

/-! What conforms is cast. -/

theorem leafCast {α β : Type} {as : Node F → Option β} (get : β → α) {node : Node F} {found : β}
    (held : as node = some found) : ∃ value, Leaf as get node value :=
  ⟨get found, found, held, rfl⟩

theorem elementsConformCast {α : Type} {casts : Node F → α → Prop} {nodes : List (Node F)}
    (all : ∀ node ∈ nodes, ∃ value, casts node value) : ∃ values, List.Forall₂ casts nodes values := by
  induction nodes with
  | nil => exact ⟨[], .nil⟩
  | cons node nodes ih =>
    obtain ⟨value, head⟩ := all node List.mem_cons_self
    obtain ⟨values, tail⟩ := ih fun later mem => all later (List.mem_cons_of_mem _ mem)
    exact ⟨value :: values, .cons head tail⟩

mutual
theorem conformsCast (t : ConfigType) {node : Node F} (conforms : Conforms t node) : ∃ value, Casts t node value := by
  cases t with
  | vector element =>
    cases node with
    | array elements => exact elementsConformCast fun node mem => conformsCast element (conforms node mem)
    | _ => exact conforms.elim
  | struct structName members =>
    cases node with
    | table entries => exact membersCast members conforms
    | _ => exact conforms.elim
  | _ =>
    cases node with
    | scalar s =>
      cases s with
      | _ => first | exact conforms.elim | exact leafCast _ rfl
    | _ => exact conforms.elim
theorem membersCast (members : Members) {entries : Entries F} (conforms : ConformsMembers members entries) :
    ∃ values, CastsMembers members entries values := by
  cases members with
  | nil => exact ⟨(), trivial⟩
  | cons member type others =>
    obtain ⟨⟨node, held, head⟩, tail⟩ := conforms
    obtain ⟨value, head⟩ := conformsCast type head
    obtain ⟨values, tail⟩ := membersCast others tail
    exact ⟨(value, values), ⟨node, held, head⟩, tail⟩
end

/- The reader is ok with what conforms and nothing else, integers out of range included. -/
theorem acceptsConforming (fresh : (t : ConfigType) → t.Value F) {t : ConfigType} {node : Option (Node F)}
    {prior : t.Value F} : (readInto fresh t node prior).2 = true ↔ ∃ found, node = some found ∧ Conforms t found := by
  refine ⟨readConforms fresh t, ?_⟩
  intro ⟨found, here, conforms⟩
  obtain ⟨value, casts⟩ := conformsCast t conforms
  rw [here, readCast fresh t prior casts]

/-! What is read is denoted where the integers fit. -/

mutual
/- Every integer that stands where the type has an int fits one. -/
def FitsAt : ConfigType → Node F → Prop
  | .int, .scalar (.integer i) => FitsInt i
  | .vector element, .array elements => ∀ node ∈ elements, FitsAt element node
  | .struct _ members, .table entries => FitsAtMembers members entries
  | _, _ => True
def FitsAtMembers : Members → Entries F → Prop
  | .nil, _ => True
  | .cons member type rest, entries =>
    (∀ node, entries member = some node → FitsAt type node) ∧ FitsAtMembers rest entries
end

theorem truncateInt {v : BitVec 32} {i : BitVec 64} (same : v.toInt = i.toInt) : i.truncate 32 = v := by
  refine BitVec.eq_of_toInt_eq ?_
  rw [BitVec.truncate_eq_setWidth, ← BitVec.signExtend_eq_setWidth_of_le i (by decide),
    BitVec.toInt_signExtend_eq_toInt_bmod_of_le i (by decide), ← same]
  exact BitVec.toInt_bmod_cancel v

theorem truncateKeeps (i : BitVec 64) : i.toInt = (i.truncate 32).toInt ↔ FitsInt i := by
  constructor
  · intro same
    rw [FitsInt, same]
    exact ⟨BitVec.le_toInt _, BitVec.toInt_lt⟩
  · intro fits
    obtain ⟨v, same⟩ := fitsDenoted fits
    rw [truncateInt same, same]

mutual
theorem fitsAt (t : ConfigType) {node : Node F} (fits : Fits node) : FitsAt t node := by
  cases t with
  | vector element =>
    cases node with
    | array elements => exact fun node mem => fitsAt element (fitsElement fits mem)
    | _ => trivial
  | struct structName members =>
    cases node with
    | table entries => exact fitsAtMembers members fits
    | _ => trivial
  | int =>
    cases node with
    | scalar s =>
      cases s with
      | integer i => exact fits [] i rfl
      | _ => trivial
    | _ => trivial
  | _ => trivial
theorem fitsAtMembers (members : Members) {entries : Entries F} (fits : Fits (.table entries)) :
    FitsAtMembers members entries := by
  cases members with
  | nil => trivial
  | cons member type others => exact ⟨fun node held => fitsAt type (fitsMember fits held), fitsAtMembers others fits⟩
end

theorem leafDenoted {α β : Type} {as : Node F → Option β} (get : β → α) {node : Node F} {found : β} {value : α}
    (held : as node = some found) : value = get found ↔ Leaf as get node value ∧ True := by
  constructor
  · intro same
    exact ⟨⟨found, held, same.symm⟩, trivial⟩
  · intro ⟨⟨other, here, same⟩, _⟩
    obtain rfl : found = other := Option.some.inj (held.symm.trans here)
    exact same.symm

theorem leafOther {α β : Type} {as : Node F → Option β} {get : β → α} {node : Node F} {value : α} {fits : Prop}
    (nothing : as node = none) : False ↔ Leaf as get node value ∧ fits := by
  refine ⟨False.elim, ?_⟩
  intro ⟨⟨found, here, _⟩, _⟩
  rw [nothing] at here
  contradiction

theorem intDenoted {i : BitVec 64} {value : BitVec 32} :
    value.toInt = i.toInt ↔ Leaf (F := F) asInteger (BitVec.truncate 32) (.scalar (.integer i)) value ∧ FitsInt i := by
  constructor
  · intro same
    have truncated := truncateInt same
    exact ⟨⟨i, rfl, truncated⟩, (truncateKeeps i).mp (truncated ▸ same.symm)⟩
  · intro ⟨⟨j, here, truncated⟩, fits⟩
    cases here
    rw [← truncated]
    exact ((truncateKeeps i).mpr fits).symm

theorem elementsDenoted {α : Type} {denotes casts : Node F → α → Prop} {fits : Node F → Prop}
    (each : ∀ node value, denotes node value ↔ casts node value ∧ fits node) (nodes : List (Node F)) (values : List α) :
    List.Forall₂ denotes nodes values ↔ List.Forall₂ casts nodes values ∧ ∀ node ∈ nodes, fits node := by
  induction nodes generalizing values with
  | nil => simp
  | cons node nodes ih =>
    cases values with
    | nil => simp
    | cons value values =>
      rw [List.forall₂_cons, List.forall₂_cons, List.forall_mem_cons, each, ih]
      exact and_and_and_comm

theorem memberDenoted {α : Type} {denotes casts : Node F → α → Prop} {fits : Node F → Prop} {value : α}
    (each : ∀ node, denotes node value ↔ casts node value ∧ fits node) (held : Option (Node F)) :
    (∃ node, held = some node ∧ denotes node value) ↔
      (∃ node, held = some node ∧ casts node value) ∧ ∀ node, held = some node → fits node := by
  cases held with
  | none => simp
  | some node => simp [each]

mutual
theorem denotesExactly (t : ConfigType) (node : Node F) (value : t.Value F) :
    Denotes t node value ↔ Casts t node value ∧ FitsAt t node := by
  cases t with
  | vector element =>
    cases node with
    | array elements => exact elementsDenoted (denotesExactly element) elements value
    | _ => exact iff_of_false id And.left
  | struct structName members =>
    cases node with
    | table entries => exact membersDenoted members entries value
    | _ => exact iff_of_false id And.left
  | int =>
    cases node with
    | scalar s =>
      cases s with
      | integer i => exact intDenoted
      | _ => exact leafOther rfl
    | _ => exact leafOther rfl
  | string =>
    cases node with
    | scalar s =>
      cases s with
      | string text => exact leafDenoted id rfl
      | _ => exact leafOther rfl
    | _ => exact leafOther rfl
  | bool =>
    cases node with
    | scalar s =>
      cases s with
      | boolean b => exact leafDenoted id rfl
      | _ => exact leafOther rfl
    | _ => exact leafOther rfl
  | float =>
    cases node with
    | scalar s =>
      cases s with
      | floating x => exact leafDenoted F.narrow rfl
      | _ => exact leafOther rfl
    | _ => exact leafOther rfl
  | double =>
    cases node with
    | scalar s =>
      cases s with
      | floating x => exact leafDenoted id rfl
      | _ => exact leafOther rfl
    | _ => exact leafOther rfl
theorem membersDenoted (members : Members) (entries : Entries F) (values : members.Values F) :
    DenotesMembers members entries values ↔ CastsMembers members entries values ∧ FitsAtMembers members entries := by
  cases members with
  | nil => exact iff_of_true trivial ⟨trivial, trivial⟩
  | cons member type others =>
    obtain ⟨value, values⟩ := values
    have head := memberDenoted (fun node => denotesExactly type node value) (entries member)
    exact (and_congr head (membersDenoted others entries values)).trans and_and_and_comm
end

theorem readDenoted (fresh : (t : ConfigType) → t.Value F) (t : ConfigType) {node : Node F} {value : t.Value F}
    (prior : t.Value F) (denotes : Denotes t node value) : readInto fresh t (some node) prior = (value, true) :=
  readCast fresh t prior ((denotesExactly t node value).mp denotes).1

theorem conformingDenotes (t : ConfigType) {node : Node F} (fits : Fits node) (conforms : Conforms t node) :
    ∃ value, Denotes t node value := by
  obtain ⟨value, casts⟩ := conformsCast t conforms
  exact ⟨value, (denotesExactly t node value).mpr ⟨casts, fitsAt t fits⟩⟩

/-! A member that is read from a table. -/

theorem readerAccepts (fresh : (t : ConfigType) → t.Value F) (t : ConfigType) (entries : Entries F) (name : Bytes)
    (fits : ∀ node, entries name = some node → Fits node) (prior other : t.Value F) :
    ∃ value r value' r', visit visitor fresh t (some name) prior (.fresh entries) = .ok (value, r) ∧
      visit visitor fresh t (some name) other (.fresh entries) = .ok (value', r') ∧ r'.ok = r.ok ∧
      (r.ok = true ↔ ∃ node, entries name = some node ∧ Conforms t node) ∧
      (r.ok = true → value' = value ∧ ∃ node, entries name = some node ∧ Denotes t node value) := by
  obtain ⟨r, run, ok⟩ := readsMember fresh t entries name prior
  obtain ⟨r', run', ok'⟩ := readsMember fresh t entries name other
  refine ⟨_, r, _, r', run, run', ?_, ?_, ?_⟩
  · rw [ok, ok', Bool.eq_iff_iff, acceptsConforming fresh, acceptsConforming fresh]
  · rw [ok, acceptsConforming fresh]
  · intro accepted
    rw [ok, acceptsConforming fresh] at accepted
    obtain ⟨node, held, conforms⟩ := accepted
    obtain ⟨value, denotes⟩ := conformingDenotes t (fits node held) conforms
    rw [held, readDenoted fresh t prior denotes, readDenoted fresh t other denotes]
    exact ⟨rfl, node, rfl, denotes⟩

theorem readerAcceptsVector :
    ∃ value r, visit (F := integral) visitor (zero (0 : Int) (0 : Int)) (.vector .int) (some [112]) [7#32, 8#32]
      (.fresh fun _ => some (.array [.scalar (.integer 443)])) = .ok (value, r) ∧
        (r.ok = true → Denotes (F := integral) (.vector .int) (.array [.scalar (.integer 443)]) value) := by
  have fits : ∀ node, (some (.array [.scalar (.integer 443)]) : Option (Node integral)) = some node → Fits node := by
    intro node here
    cases here
    refine fitsArray ?_
    intro inner mem path i found
    obtain rfl := List.mem_singleton.mp mem
    cases scalarAt found
    exact ⟨by decide, by decide⟩
  obtain ⟨value, r, _, _, run, _, _, _, denotes⟩ := readerAccepts (F := integral) (zero (0 : Int) (0 : Int)) (.vector .int)
    (fun _ => some (.array [.scalar (.integer 443)])) [112] fits [7#32, 8#32] []
  refine ⟨value, r, run, ?_⟩
  intro ok
  obtain ⟨_, node, here, denotes⟩ := denotes ok
  cases here
  exact denotes

end Mcpp.Conformance
