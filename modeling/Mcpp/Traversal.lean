import Mcpp.Config
import Mcpp.Tracing

/-! A traversal and the calls it makes of its visitor, each with the state it finds. With a
visitor that keeps account of its containers every call finds the container it is made in,
and the containers a value is visited in are those it leaves. -/
namespace Mcpp.Traversal
open Buffers Config Tracing

variable {F : Floating} {σ α : Type}

inductive Call where
  | scalar (name : Option Bytes)
  | arrayBegin (name : Option Bytes)
  | arrayEnd
  | structBegin (name : Option Bytes)
  | structEnd
  deriving DecidableEq, Repr

def logged (visitor : IConfigValueVisitor F σ) : IConfigValueVisitor F (σ × Log Call σ) where
  isReading := visitor.isReading
  onInt name value := log (.scalar name) (visitor.onInt name value)
  onString name value := log (.scalar name) (visitor.onString name value)
  onBool name value := log (.scalar name) (visitor.onBool name value)
  onFloat name value := log (.scalar name) (visitor.onFloat name value)
  onDouble name value := log (.scalar name) (visitor.onDouble name value)
  onArrayBegin name size := log (.arrayBegin name) (visitor.onArrayBegin name size)
  onArrayEnd := log .arrayEnd visitor.onArrayEnd
  onStructBegin name := log (.structBegin name) (visitor.onStructBegin name)
  onStructEnd := log .structEnd visitor.onStructEnd

variable (visitor : IConfigValueVisitor F σ) (fresh : (t : ConfigType) → t.Value F)

/-! The log changes nothing. -/

theorem erasesElements {traced : α → Visit (σ × Log Call σ) α} {visit : α → Visit σ α}
    (each : ∀ value, Erases (traced value) (visit value)) (size : Nat) (values : List α) :
    Erases (visitElements traced size values) (visitElements visit size values) := by
  induction size generalizing values with
  | zero => exact erasesPure values
  | succ size ih =>
    cases values with
    | nil => exact fun _ _ => rfl
    | cons value rest =>
      refine erasesBind (each value) fun value => ?_
      exact erasesBind (ih rest) fun rest => erasesPure (value :: rest)

theorem erasesVector {element : ConfigType}
    (each : ∀ value, Erases (visit (logged visitor) fresh element none value) (visit visitor fresh element none value))
    (name : Option Bytes) (value : List (element.Value F)) :
    Erases (visit (logged visitor) fresh (.vector element) name value : Visit _ (List (element.Value F)))
      (visit visitor fresh (.vector element) name value) := by
  rw [visitVector, visitVector]
  refine erasesBind (erasesLog (Call.arrayBegin name) (visitor.onArrayBegin name value.length)) fun size => ?_
  refine erasesBind (erasesElements each size _) fun value => ?_
  exact erasesBind (erasesLog Call.arrayEnd visitor.onArrayEnd) fun _ => erasesPure value

theorem erasesStruct {members : Members} {values : members.Values F}
    (inside : Erases (visitMembers (logged visitor) fresh members values) (visitMembers visitor fresh members values))
    (structName : Bytes) (name : Option Bytes) :
    Erases (visit (logged visitor) fresh (.struct structName members) name values : Visit _ (members.Values F))
      (visit visitor fresh (.struct structName members) name values) := by
  rw [visitStruct, visitStruct]
  refine erasesBind (erasesLog (Call.structBegin name) (visitor.onStructBegin name)) fun _ => ?_
  refine erasesBind inside fun values => ?_
  exact erasesBind (erasesLog Call.structEnd visitor.onStructEnd) fun _ => erasesPure values

mutual
theorem erasesVisit (t : ConfigType) (name : Option Bytes) (value : t.Value F) :
    Erases (visit (logged visitor) fresh t name value) (visit visitor fresh t name value) := by
  cases t with
  | int => exact erasesLog (Call.scalar name) (visitor.onInt name value)
  | string => exact erasesLog (Call.scalar name) (visitor.onString name value)
  | bool => exact erasesLog (Call.scalar name) (visitor.onBool name value)
  | float => exact erasesLog (Call.scalar name) (visitor.onFloat name value)
  | double => exact erasesLog (Call.scalar name) (visitor.onDouble name value)
  | vector element => exact erasesVector visitor fresh (erasesVisit element none) name value
  | struct structName members => exact erasesStruct visitor fresh (erasesMembers members value) structName name
theorem erasesMembers (members : Members) (values : members.Values F) :
    Erases (visitMembers (logged visitor) fresh members values) (visitMembers visitor fresh members values) := by
  cases members with
  | nil => exact erasesPure values
  | cons member type others =>
    obtain ⟨value, values⟩ := values
    refine erasesBind (erasesVisit type (some member) value) fun value => ?_
    exact erasesBind (erasesMembers others values) fun values => erasesPure (value, values)
end

/-! The account of the containers. -/

inductive Container where
  | table
  | array
  deriving DecidableEq, Repr

/- What goes into a table has a name. -/
def Fits (name : Option Bytes) : Container → Prop
  | .table => ∃ k, name = some k
  | .array => True

def Begins (name : Option Bytes) (standing : List Container → σ → Prop) (s : σ) : Prop :=
  ∃ kind kinds, Fits name kind ∧ standing (kind :: kinds) s

def Ends (kind : Container) (standing : List Container → σ → Prop) (s : σ) : Prop :=
  ∃ outer kinds, standing (kind :: outer :: kinds) s

/- The state a call finds. -/
def Finds (standing : List Container → σ → Prop) : Call → σ → Prop
  | .scalar name | .arrayBegin name | .structBegin name => Begins name standing
  | .arrayEnd => Ends .array standing
  | .structEnd => Ends .table standing

/- A value that fits is taken, and the containers stay. -/
def Keeps (standing : List Container → σ → Prop) (name : Option Bytes) (m : Visit σ α) : Prop :=
  ∀ kind kinds, Fits name kind → Total (standing (kind :: kinds)) m fun _ => standing (kind :: kinds)

/- What a visitor does to its containers, the innermost first. -/
structure Disciplined (visitor : IConfigValueVisitor F σ) (standing : List Container → σ → Prop) : Prop where
  onInt : ∀ name value, Keeps standing name (visitor.onInt name value)
  onString : ∀ name value, Keeps standing name (visitor.onString name value)
  onBool : ∀ name value, Keeps standing name (visitor.onBool name value)
  onFloat : ∀ name value, Keeps standing name (visitor.onFloat name value)
  onDouble : ∀ name value, Keeps standing name (visitor.onDouble name value)
  onArrayBegin : ∀ name size kind kinds, Fits name kind →
    Total (standing (kind :: kinds)) (visitor.onArrayBegin name size) fun begun s =>
      standing (.array :: kind :: kinds) s ∧ (visitor.isReading = false → begun = size)
  onArrayEnd : ∀ kind kinds,
    Total (standing (.array :: kind :: kinds)) visitor.onArrayEnd fun _ => standing (kind :: kinds)
  onStructBegin : ∀ name kind kinds, Fits name kind →
    Total (standing (kind :: kinds)) (visitor.onStructBegin name) fun _ => standing (.table :: kind :: kinds)
  onStructEnd : ∀ kind kinds,
    Total (standing (.table :: kind :: kinds)) visitor.onStructEnd fun _ => standing (kind :: kinds)

variable {standing : List Container → σ → Prop} {name : Option Bytes} {kind : Container} {kinds : List Container}

theorem findsStanding {call : Call} {s : σ} (finds : Finds standing call s) : ∃ kinds, standing kinds s := by
  cases call with
  | scalar name | arrayBegin name | structBegin name =>
    obtain ⟨kind, kinds, _, stands⟩ := finds
    exact ⟨kind :: kinds, stands⟩
  | arrayEnd | structEnd =>
    obtain ⟨outer, kinds, stands⟩ := finds
    exact ⟨_ :: outer :: kinds, stands⟩

theorem callBegins {m : Visit σ α} {call : Call} {post : α → σ → Prop}
    (begins : Finds standing call = Begins name standing) (fits : Fits name kind) (total : Total (standing (kind :: kinds)) m post) :
    Triple (standing (kind :: kinds)) (log call m) (Finds standing) post := by
  refine tripleLog ?_ total
  intro s stands
  rw [begins]
  exact ⟨kind, kinds, fits, stands⟩

theorem callEnds {m : Visit σ α} {call : Call} {outer : Container} {post : α → σ → Prop}
    (ends : Finds standing call = Ends kind standing) (total : Total (standing (kind :: outer :: kinds)) m post) :
    Triple (standing (kind :: outer :: kinds)) (log call m) (Finds standing) post := by
  refine tripleLog ?_ total
  intro s stands
  rw [ends]
  exact ⟨outer, kinds, stands⟩

theorem elementsStand {traced : α → Visit (σ × Log Call σ) α} {found : Call → σ → Prop} {pre : σ → Prop}
    (each : ∀ value, Triple pre (traced value) found fun _ => pre) (values : List α) :
    Triple pre (visitElements traced values.length values) found fun _ => pre := by
  induction values with
  | nil => exact triplePure fun _ holds => holds
  | cons value rest ih =>
    refine tripleBind (each value) fun value => ?_
    exact tripleBind ih fun rest => triplePure fun _ holds => holds

variable {visitor}

theorem vectorStands (disciplined : Disciplined visitor standing) {element : ConfigType} (fits : Fits name kind)
    (each : ∀ value, Triple (standing (.array :: kind :: kinds)) (visit (logged visitor) fresh element none value)
      (Finds standing) fun _ => standing (.array :: kind :: kinds)) (value : List (element.Value F)) :
    Triple (standing (kind :: kinds)) (visit (logged visitor) fresh (.vector element) name value : Visit _ (List _))
      (Finds standing) fun _ => standing (kind :: kinds) := by
  rw [visitVector]
  refine tripleBind (callBegins rfl fits (disciplined.onArrayBegin name _ kind kinds fits)) fun size => ?_
  refine tripleKnown fun sized => ?_
  have length : (if visitor.isReading = true then resize (fresh element) size value else value).length = size := by
    cases reading : visitor.isReading with
    | true => exact resizeLength ..
    | false => exact (sized reading).symm
  have inside := elementsStand each (if visitor.isReading = true then resize (fresh element) size value else value)
  rw [length] at inside
  refine tripleBind inside fun value => ?_
  exact tripleBind (callEnds rfl (disciplined.onArrayEnd kind kinds)) fun _ => triplePure fun _ stands => stands

theorem structStands (disciplined : Disciplined visitor standing) {members : Members} {values : members.Values F}
    (fits : Fits name kind)
    (inside : Triple (standing (.table :: kind :: kinds)) (visitMembers (logged visitor) fresh members values)
      (Finds standing) fun _ => standing (.table :: kind :: kinds)) (structName : Bytes) :
    Triple (standing (kind :: kinds))
      (visit (logged visitor) fresh (.struct structName members) name values : Visit _ (members.Values F))
      (Finds standing) fun _ => standing (kind :: kinds) := by
  rw [visitStruct]
  refine tripleBind (callBegins rfl fits (disciplined.onStructBegin name kind kinds fits)) fun _ => ?_
  refine tripleBind inside fun values => ?_
  exact tripleBind (callEnds rfl (disciplined.onStructEnd kind kinds)) fun _ => triplePure fun _ stands => stands

/- The containers around a value are any; of a struct's they are one more, of a vector's too. -/
mutual
theorem visitStands (disciplined : Disciplined visitor standing) (t : ConfigType) {name : Option Bytes} {kind : Container}
    (kinds : List Container) (value : t.Value F) (fits : Fits name kind) :
    Triple (standing (kind :: kinds)) (visit (logged visitor) fresh t name value) (Finds standing)
      fun _ => standing (kind :: kinds) := by
  cases t with
  | int => exact callBegins rfl fits (disciplined.onInt name value kind kinds fits)
  | string => exact callBegins rfl fits (disciplined.onString name value kind kinds fits)
  | bool => exact callBegins rfl fits (disciplined.onBool name value kind kinds fits)
  | float => exact callBegins rfl fits (disciplined.onFloat name value kind kinds fits)
  | double => exact callBegins rfl fits (disciplined.onDouble name value kind kinds fits)
  | vector element =>
    refine vectorStands fresh disciplined fits ?_ value
    exact fun value => visitStands disciplined element (kind :: kinds) value trivial
  | struct structName members =>
    exact structStands fresh disciplined fits (membersStand disciplined members (kind :: kinds) value) structName
theorem membersStand (disciplined : Disciplined visitor standing) (members : Members) (kinds : List Container)
    (values : members.Values F) :
    Triple (standing (.table :: kinds)) (visitMembers (logged visitor) fresh members values) (Finds standing)
      fun _ => standing (.table :: kinds) := by
  cases members with
  | nil => exact triplePure fun _ stands => stands
  | cons member type others =>
    obtain ⟨value, values⟩ := values
    refine tripleBind (visitStands disciplined type kinds value ⟨member, rfl⟩) fun value => ?_
    exact tripleBind (membersStand disciplined others kinds values) fun _ => triplePure fun _ stands => stands
end

end Mcpp.Traversal
