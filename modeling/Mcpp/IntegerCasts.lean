import Mcpp.Conformance

/-! The ints that are read. Each keeps the low half of its integer, so it is the integer
of the table exactly where the integer fits. -/
namespace Mcpp.IntegerCasts
open Buffers Documents Config ReadConfig Conformance

variable {F : Floating}

mutual
/- Each int is the integer at its place. -/
def IntsKept : (t : ConfigType) → Node F → t.Value F → Prop
  | .int, node, value => Leaf asInteger BitVec.toInt node (BitVec.toInt value)
  | .vector element, .array elements, (values : List (element.Value F)) =>
    List.Forall₂ (IntsKept element) elements values
  | .struct _ members, .table entries, values => IntsKeptMembers members entries values
  | .vector _, _, _ | .struct _ _, _, _ => False
  | .string, _, _ | .bool, _, _ | .float, _, _ | .double, _, _ => True
def IntsKeptMembers : (members : Members) → Entries F → members.Values F → Prop
  | .nil, _, _ => True
  | .cons member type rest, entries, (value, values) =>
    (∃ node, entries member = some node ∧ IntsKept type node value) ∧ IntsKeptMembers rest entries values
end

theorem intKept {node : Node F} {value : BitVec 32} (casts : Leaf asInteger (BitVec.truncate 32) node value) :
    Leaf asInteger BitVec.toInt node (BitVec.toInt value) ↔ FitsAt .int node := by
  obtain ⟨i, held, rfl⟩ := casts
  cases node with
  | scalar s =>
    cases s with
    | integer j =>
      cases held
      rw [FitsAt, ← truncateKeeps]
      constructor
      · intro ⟨k, held, same⟩
        cases held
        exact same
      · intro same
        exact ⟨i, rfl, same⟩
    | _ => contradiction
  | _ => contradiction

theorem elementsKept {α : Type} {casts kept : Node F → α → Prop} {fits : Node F → Prop}
    (each : ∀ node value, casts node value → (kept node value ↔ fits node)) {nodes : List (Node F)} {values : List α}
    (all : List.Forall₂ casts nodes values) : List.Forall₂ kept nodes values ↔ ∀ node ∈ nodes, fits node := by
  induction all with
  | nil => simp
  | cons head tail ih => rw [List.forall₂_cons, List.forall_mem_cons, each _ _ head, ih]

mutual
theorem intsKept (t : ConfigType) {node : Node F} {value : t.Value F} (casts : Casts t node value) :
    IntsKept t node value ↔ FitsAt t node := by
  cases t with
  | int => exact intKept casts
  | vector element =>
    cases node with
    | array elements =>
      have each (node : Node F) (value : element.Value F) (casts : Casts element node value) :
          IntsKept element node value ↔ FitsAt element node := intsKept element casts
      exact elementsKept each casts
    | _ => exact casts.elim
  | struct structName members =>
    cases node with
    | table entries => exact membersKept members casts
    | _ => exact casts.elim
  | _ => exact iff_of_true trivial trivial
theorem membersKept (members : Members) {entries : Entries F} {values : members.Values F}
    (casts : CastsMembers members entries values) :
    IntsKeptMembers members entries values ↔ FitsAtMembers members entries := by
  cases members with
  | nil => exact Iff.rfl
  | cons member type others =>
    obtain ⟨value, values⟩ := values
    obtain ⟨⟨node, held, head⟩, tail⟩ := casts
    have here : (∃ found, entries member = some found ∧ IntsKept type found value) ↔
        ∀ found, entries member = some found → FitsAt type found := by
      rw [held]
      constructor
      · intro ⟨found, same, kept⟩ other same'
        cases same
        cases same'
        exact (intsKept type head).mp kept
      · intro fits
        exact ⟨node, rfl, (intsKept type head).mpr (fits node rfl)⟩
    exact and_congr here (membersKept others tail)
end

/- Accept with a fresh reader on the table of the group. -/
theorem integersKept (fresh : (t : ConfigType) → t.Value F) (t : ConfigType) (entries : Entries F) (name : Bytes)
    (prior : t.Value F) : ∃ value r, visit visitor fresh t (some name) prior (.fresh entries) = .ok (value, r) ∧
      ((r.ok = true → ∃ node, entries name = some node ∧ IntsKept t node value) ↔
        ∀ node, entries name = some node → Conforms t node → FitsAt t node) := by
  obtain ⟨r, run, ok⟩ := readsMember fresh t entries name prior
  refine ⟨_, r, run, ?_⟩
  rw [ok, acceptsConforming fresh]
  constructor
  · intro kept node held conforms
    obtain ⟨found, held', ints⟩ := kept ⟨node, held, conforms⟩
    obtain rfl : node = found := Option.some.inj (held.symm.trans held')
    obtain ⟨value, casts⟩ := conformsCast t conforms
    rw [held, readCast fresh t prior casts] at ints
    exact (intsKept t casts).mp ints
  · intro fits ⟨node, held, conforms⟩
    obtain ⟨value, casts⟩ := conformsCast t conforms
    rw [held, readCast fresh t prior casts]
    exact ⟨node, rfl, (intsKept t casts).mpr (fits node held conforms)⟩

/- A port of 25565 and 2^32 is read as 25565. -/
theorem wrappedPort : ¬ ∀ (fresh : (t : ConfigType) → t.Value integral) (t : ConfigType) (entries : Entries integral)
    (name : Bytes) (prior value : t.Value integral) (r : CConfigReader integral),
    visit visitor fresh t (some name) prior (.fresh entries) = .ok (value, r) → r.ok = true →
    ∃ node, entries name = some node ∧ IntsKept t node value := by
  intro always
  obtain ⟨node, held, i, integer, same⟩ := always (zero (0 : Int) (0 : Int)) .int
    (fun _ => some (.scalar (.integer 4294992861))) [112] 0#32 25565#32 _ rfl rfl
  cases held
  cases integer
  revert same
  decide

end Mcpp.IntegerCasts
