import Mcpp.Buffers
import Mcpp.Documents

/-! What the configuration system visits: the types a member can have, their values and
config_detail::Visit, one traversal for the writer of defaults and for the reader. A
visitor is handed each value by reference, so each call returns what it leaves there. -/
namespace Mcpp.Config
open Buffers Documents

/- The two floating-point types. A float is a double exactly. -/
structure Floating where
  float : Type
  double : Type
  widen : float → double
  narrow : double → float
  exact : ∀ x, narrow (widen x) = x

variable {F : Floating}

/- The leaves of a toml::table; of dates and times nothing is read. -/
inductive Scalar (F : Floating) where
  | string (value : Bytes)
  | integer (value : BitVec 64)
  | floating (value : F.double)
  | boolean (value : Bool)
  | moment (text : Bytes)

abbrev Node (F : Floating) := Document Bytes (Scalar F)
abbrev Entries (F : Floating) := Table Bytes (Scalar F)

/-! The types config_detail::Visit handles, and their values. -/

mutual
/- A struct has a name, as two of them may differ in nothing but their defaults. -/
inductive ConfigType where
  | int
  | string
  | bool
  | float
  | double
  | vector (element : ConfigType)
  | struct (structName : Bytes) (members : Members)
inductive Members where
  | nil
  | cons (member : Bytes) (type : ConfigType) (rest : Members)
end

mutual
def ConfigType.Value (F : Floating) : ConfigType → Type
  | .int => BitVec 32
  | .string => Bytes
  | .bool => Bool
  | .float => F.float
  | .double => F.double
  | .vector element => List (element.Value F)
  | .struct _ members => members.Values F
def Members.Values (F : Floating) : Members → Type
  | .nil => Unit
  | .cons _ type rest => type.Value F × rest.Values F
end

def Members.names : Members → List Bytes
  | .nil => []
  | .cons member _ rest => member :: rest.names

mutual
/- No struct has two members of one name. -/
def ConfigType.Distinct : ConfigType → Prop
  | .int | .string | .bool | .float | .double => True
  | .vector element => element.Distinct
  | .struct _ members => members.Distinct
def Members.Distinct : Members → Prop
  | .nil => True
  | .cons member type rest => member ∉ rest.names ∧ type.Distinct ∧ rest.Distinct
end

mutual
/- Every int 0, every string empty, every bool false. -/
def zero (float : F.float) (double : F.double) : (t : ConfigType) → t.Value F
  | .int => 0#32
  | .string => ([] : Bytes)
  | .bool => false
  | .float => float
  | .double => double
  | .vector _ => []
  | .struct _ members => zeros float double members
def zeros (float : F.float) (double : F.double) : (members : Members) → members.Values F
  | .nil => ()
  | .cons _ type rest => (zero float double type, zeros float double rest)
end

/- Floats without a fraction, to run on. -/
def integral : Floating := { float := Int, double := Int, widen := id, narrow := id, exact := fun _ => rfl }

/-! The traversal. -/

/- What C++ leaves undefined: an empty stack, a null name, a null or dangling node, an
index past the end. -/
inductive Fault where
  | emptyStack
  | nullName
  | nullNode
  | outOfRange
  deriving DecidableEq, Repr

abbrev Visit (σ α : Type) := StateT σ (Except Fault) α

def fault {σ α : Type} (f : Fault) : Visit σ α := fun _ => .error f

theorem stepOk {σ α β : Type} {m : Visit σ α} {f : α → Visit σ β} {s next : σ} {a : α} (step : m s = .ok (a, next)) :
    (m >>= f) s = f a next := by
  change (m s >>= fun (a, s) => f a s) = f a next
  rw [step]
  rfl

/- A name is null for the elements of a vector. -/
structure IConfigValueVisitor (F : Floating) (σ : Type) where
  isReading : Bool
  onInt : Option Bytes → BitVec 32 → Visit σ (BitVec 32)
  onString : Option Bytes → Bytes → Visit σ Bytes
  onBool : Option Bytes → Bool → Visit σ Bool
  onFloat : Option Bytes → F.float → Visit σ F.float
  onDouble : Option Bytes → F.double → Visit σ F.double
  onArrayBegin : Option Bytes → Nat → Visit σ Nat
  onArrayEnd : Visit σ Unit
  onStructBegin : Option Bytes → Visit σ Unit
  onStructEnd : Visit σ Unit

def resize {α : Type} (fresh : α) (size : Nat) (values : List α) : List α :=
  values.take size ++ List.replicate (size - values.length) fresh

theorem resizeLength {α : Type} (fresh : α) (size : Nat) (values : List α) : (resize fresh size values).length = size := by
  simp [resize]
  omega

/- The first `size` elements, each by its index. -/
def visitElements {σ α : Type} (visit : α → Visit σ α) : Nat → List α → Visit σ (List α)
  | 0, values => pure values
  | _ + 1, [] => fault .outOfRange
  | size + 1, value :: rest => do
    let value ← visit value
    let rest ← visitElements visit size rest
    pure (value :: rest)

/- `fresh` is what resize makes of a type. -/
mutual
def visit {σ : Type} (visitor : IConfigValueVisitor F σ) (fresh : (t : ConfigType) → t.Value F) :
    (t : ConfigType) → Option Bytes → t.Value F → Visit σ (t.Value F)
  | .vector element, name, (value : List (element.Value F)) => do
    let size ← visitor.onArrayBegin name value.length
    let value := if visitor.isReading then resize (fresh element) size value else value
    let value ← visitElements (visit visitor fresh element none) size value
    visitor.onArrayEnd
    pure value
  | .struct _ members, name, value => do
    visitor.onStructBegin name
    let value ← visitMembers visitor fresh members value
    visitor.onStructEnd
    pure value
  | .int, name, value => visitor.onInt name value
  | .string, name, value => visitor.onString name value
  | .bool, name, value => visitor.onBool name value
  | .float, name, value => visitor.onFloat name value
  | .double, name, value => visitor.onDouble name value
def visitMembers {σ : Type} (visitor : IConfigValueVisitor F σ) (fresh : (t : ConfigType) → t.Value F) :
    (members : Members) → members.Values F → Visit σ (members.Values F)
  | .nil, values => pure values
  | .cons member type rest, (value, values) => do
    let value ← visit visitor fresh type (some member) value
    let values ← visitMembers visitor fresh rest values
    pure (value, values)
end

variable {σ : Type} (visitor : IConfigValueVisitor F σ) (fresh : (t : ConfigType) → t.Value F)

theorem visitVector (element : ConfigType) (name : Option Bytes) (value : List (element.Value F)) :
    visit visitor fresh (.vector element) name value = (do
      let size ← visitor.onArrayBegin name value.length
      let value ← visitElements (visit visitor fresh element none) size
        (if visitor.isReading then resize (fresh element) size value else value)
      visitor.onArrayEnd
      pure value) := by
  rw [visit]

theorem visitStruct (structName : Bytes) (members : Members) (name : Option Bytes) (values : members.Values F) :
    visit visitor fresh (.struct structName members) name values = (do
      visitor.onStructBegin name
      let values ← visitMembers visitor fresh members values
      visitor.onStructEnd
      pure values) :=
  rfl

end Mcpp.Config
