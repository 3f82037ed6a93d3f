import Mcpp.Config

/-! The visitor that writes defaults. Its stack holds pointers to nodes of the table it
was made with, here the paths to them; a pointer is null where createTable or createArray
found neither a table nor an array. -/
namespace Mcpp.WriteDefaults
open Buffers Documents Config

variable {F : Floating}

abbrev Pointer := Option (List (Step Bytes))

structure DefaultWriter (F : Floating) where
  root : Node F
  stack : List Pointer

def DefaultWriter.fresh (root : Entries F) : DefaultWriter F := { root := .table root, stack := [some []] }

/- The pointer on top and the node it points to. -/
def current : Visit (DefaultWriter F) (List (Step Bytes) × Node F) := fun w =>
  match w.stack with
  | [] => .error .emptyStack
  | none :: _ => .error .nullNode
  | some path :: _ =>
    match w.root.at path with
    | none => .error .nullNode
    | some node => .ok ((path, node), w)

def insertOrAssign (k : Bytes) (node : Node F) : Node F → Node F
  | .table entries => .table (Function.update entries k (some node))
  | parent => parent

def pushBack (node : Node F) : Node F → Node F
  | .array elements => .array (elements ++ [node])
  | parent => parent

def change (path : List (Step Bytes)) (f : Node F → Node F) : Visit (DefaultWriter F) Unit := fun w =>
  .ok ((), { w with root := w.root.modify path f })

def insert (name : Option Bytes) (value : Scalar F) : Visit (DefaultWriter F) Unit := do
  let (path, parent) ← current
  match parent, name with
  | .table _, some k => change path (insertOrAssign k (.scalar value))
  | .table _, none => fault .nullName
  | .array _, _ => change path (pushBack (.scalar value))
  | .scalar _, _ => pure ()

/- createTable and createArray, by the empty node they make. -/
def create (empty : Node F) (name : Option Bytes) : Visit (DefaultWriter F) Pointer := do
  let (path, parent) ← current
  match parent, name with
  | .table _, some k => do
    change path (insertOrAssign k empty)
    pure (some (path ++ [.key k]))
  | .table _, none => fault .nullName
  | .array elements, _ => do
    change path (pushBack empty)
    pure (some (path ++ [.index elements.length]))
  | .scalar _, _ => pure none

def createTable : Option Bytes → Visit (DefaultWriter F) Pointer := create (.table fun _ => none)
def createArray : Option Bytes → Visit (DefaultWriter F) Pointer := create (.array [])

def push (pointer : Pointer) : Visit (DefaultWriter F) Unit := fun w =>
  .ok ((), { w with stack := pointer :: w.stack })

def pop : Visit (DefaultWriter F) Unit := fun w =>
  match w.stack with
  | [] => .error .emptyStack
  | _ :: rest => .ok ((), { w with stack := rest })

def visitor : IConfigValueVisitor F (DefaultWriter F) where
  isReading := false
  onInt name value := do insert name (.integer (value.signExtend 64)); pure value
  onString name value := do insert name (.string value); pure value
  onBool name value := do insert name (.boolean value); pure value
  onFloat name value := do insert name (.floating (F.widen value)); pure value
  onDouble name value := do insert name (.floating value); pure value
  onArrayBegin name size := do push (← createArray name); pure size
  onArrayEnd := pop
  onStructBegin name := do push (← createTable name)
  onStructEnd := pop

/-! What it writes. -/

mutual
def encode : (t : ConfigType) → t.Value F → Node F
  | .int, value => .scalar (.integer (BitVec.signExtend 64 value))
  | .string, value => .scalar (.string value)
  | .bool, value => .scalar (.boolean value)
  | .float, value => .scalar (.floating (F.widen value))
  | .double, value => .scalar (.floating value)
  | .vector element, (values : List (element.Value F)) => .array (values.map (encode element))
  | .struct _ members, values => .table (encodeMembers members values fun _ => none)
def encodeMembers : (members : Members) → members.Values F → Entries F → Entries F
  | .nil, _, entries => entries
  | .cons member type rest, (value, values), entries =>
    encodeMembers rest values (Function.update entries member (some (encode type value)))
end

/- A table takes a node under a name, an array behind its last. -/
def Takes (name : Option Bytes) : Node F → Prop
  | .table _ => ∃ k, name = some k
  | .array _ => True
  | .scalar _ => False

def put (name : Option Bytes) (node : Node F) : Node F → Node F
  | .table entries =>
    match name with
    | some k => .table (Function.update entries k (some node))
    | none => .table entries
  | .array elements => .array (elements ++ [node])
  | .scalar value => .scalar value

def slot (name : Option Bytes) : Node F → Step Bytes
  | .array elements => .index elements.length
  | _ => .key (name.getD [])

theorem putChild {name : Option Bytes} {parent : Node F} (takes : Takes name parent) (node : Node F) :
    (put name node parent).child (slot name parent) = some node := by
  cases parent with
  | scalar value => exact takes.elim
  | array elements => simp [put, slot, Document.child]
  | table entries =>
    obtain ⟨k, rfl⟩ := takes
    simp [put, slot, Document.child]

theorem putModify {name : Option Bytes} {parent : Node F} (takes : Takes name parent) (node : Node F)
    (f : Node F → Node F) : (put name node parent).modify [slot name parent] f = put name (f node) parent := by
  cases parent with
  | scalar value => exact takes.elim
  | array elements => simp [put, slot, Document.modify, List.modify_eq_take_cons_drop]
  | table entries =>
    obtain ⟨k, rfl⟩ := takes
    simp [put, slot, Document.modify]

/-! One operation. -/

variable {w : DefaultWriter F} {path : List (Step Bytes)} {rest : List Pointer} {parent : Node F} {name : Option Bytes}

theorem currentOk (top : w.stack = some path :: rest) (found : w.root.at path = some parent) :
    current w = .ok ((path, parent), w) := by
  simp only [current, top, found]

theorem changeOk {f g : Node F → Node F} (found : w.root.at path = some parent) (same : f parent = g parent) :
    change path f w = .ok ((), { w with root := w.root.modify path g }) := by
  rw [change, modifyCongr found same]

theorem insertOk (top : w.stack = some path :: rest) (found : w.root.at path = some parent) (takes : Takes name parent)
    (value : Scalar F) : insert name value w = .ok ((), { w with root := w.root.modify path (put name (.scalar value)) }) := by
  unfold insert
  rw [stepOk (currentOk top found)]
  cases parent with
  | scalar value => exact takes.elim
  | array elements => exact changeOk found rfl
  | table entries =>
    obtain ⟨k, rfl⟩ := takes
    exact changeOk found rfl

theorem createOk (top : w.stack = some path :: rest) (found : w.root.at path = some parent) (takes : Takes name parent)
    (empty : Node F) : create empty name w =
      .ok (some (path ++ [slot name parent]), { w with root := w.root.modify path (put name empty) }) := by
  unfold create
  rw [stepOk (currentOk top found)]
  cases parent with
  | scalar value => exact takes.elim
  | array elements => exact stepOk (changeOk found rfl)
  | table entries =>
    obtain ⟨k, rfl⟩ := takes
    exact stepOk (changeOk found rfl)

/- A new node is made and pushed. -/
def entered (w : DefaultWriter F) (path : List (Step Bytes)) (name : Option Bytes) (parent empty : Node F) :
    DefaultWriter F where
  root := w.root.modify path (put name empty)
  stack := some (path ++ [slot name parent]) :: w.stack

theorem enteredFound (found : w.root.at path = some parent) (takes : Takes name parent) (empty : Node F) :
    (entered w path name parent empty).root.at (path ++ [slot name parent]) = some empty := by
  unfold entered
  rw [atAppend, atModify, found]
  simp only [Option.map_some, Option.bind_some, atCons, atNil, putChild takes]

/- What is written in the new node stands under its name when it is popped. -/
theorem leaveOk {α : Type} (found : w.root.at path = some parent) (takes : Takes name parent) (empty : Node F)
    (f : Node F → Node F) (value : α) :
    (do pop; pure value : Visit (DefaultWriter F) α)
        { entered w path name parent empty with
          root := (entered w path name parent empty).root.modify (path ++ [slot name parent]) f } =
      .ok (value, { w with root := w.root.modify path (put name (f empty)) }) := by
  have written : (entered w path name parent empty).root.modify (path ++ [slot name parent]) f =
      w.root.modify path (put name (f empty)) := by
    rw [entered, modifyAppend, modifyModify]
    exact modifyCongr found (putModify takes empty f)
  rw [written]
  rfl

/-! The traversal writes the encoding. -/

theorem elementsOk {α : Type} {visit : α → Visit (DefaultWriter F) α} {encode : α → Node F}
    (each : ∀ (value : α) (w : DefaultWriter F) (path : List (Step Bytes)) rest elements, w.stack = some path :: rest →
      w.root.at path = some (.array elements) →
        visit value w = .ok (value, { w with root := w.root.modify path (put none (encode value)) }))
    (values : List α) {w : DefaultWriter F} {elements : List (Node F)} (top : w.stack = some path :: rest)
    (found : w.root.at path = some (.array elements)) :
    visitElements visit values.length values w =
      .ok (values, { w with root := w.root.modify path fun _ => .array (elements ++ values.map encode) }) := by
  induction values generalizing w elements with
  | nil =>
    have same : w.root.modify path (fun _ => .array (elements ++ [].map encode)) = w.root :=
      modifySame found (by simp)
    rw [same]
    rfl
  | cons value values ih =>
    rw [List.length_cons, visitElements, stepOk (each value w path rest elements top found)]
    have next : (w.root.modify path (put none (encode value))).at path = some (.array (elements ++ [encode value])) := by
      rw [atModify, found]
      rfl
    rw [stepOk (ih (w := { w with root := w.root.modify path (put none (encode value)) }) top next), modifyModify]
    simp only [List.append_assoc]
    rfl

mutual
theorem writes (fresh : (t : ConfigType) → t.Value F) (t : ConfigType) {name : Option Bytes} (value : t.Value F)
    {w : DefaultWriter F} {path : List (Step Bytes)} {rest : List Pointer} {parent : Node F}
    (top : w.stack = some path :: rest) (found : w.root.at path = some parent) (takes : Takes name parent) :
    visit visitor fresh t name value w =
      .ok (value, { w with root := w.root.modify path (put name (encode t value)) }) := by
  cases t with
  | int => exact stepOk (insertOk top found takes _)
  | string => exact stepOk (insertOk top found takes _)
  | bool => exact stepOk (insertOk top found takes _)
  | float => exact stepOk (insertOk top found takes _)
  | double => exact stepOk (insertOk top found takes _)
  | vector element =>
    have begun : visitor.onArrayBegin name (List.length value) w =
        .ok (List.length value, entered w path name parent (.array [])) :=
      stepOk (createOk top found takes _)
    have elements := elementsOk
      (fun value w path rest elements top found => writes fresh element value top found trivial)
      value rfl (enteredFound found takes (.array []))
    refine (congrFun (visitVector visitor fresh element name value) w).trans ((stepOk begun).trans ((stepOk elements).trans ?_))
    exact leaveOk found takes _ _ value
  | struct structName members =>
    have begun : visitor.onStructBegin name w = .ok ((), entered w path name parent (.table fun _ => none)) :=
      stepOk (createOk top found takes _)
    have inside := writesMembers fresh members value rfl (enteredFound found takes (.table fun _ => none))
    refine (congrFun (visitStruct visitor fresh structName members name value) w).trans
      ((stepOk begun).trans ((stepOk inside).trans ?_))
    exact leaveOk found takes _ _ value
theorem writesMembers (fresh : (t : ConfigType) → t.Value F) (members : Members) (values : members.Values F)
    {w : DefaultWriter F} {path : List (Step Bytes)} {rest : List Pointer} {entries : Entries F}
    (top : w.stack = some path :: rest) (found : w.root.at path = some (.table entries)) :
    visitMembers visitor fresh members values w =
      .ok (values, { w with root := w.root.modify path fun _ => .table (encodeMembers members values entries) }) := by
  cases members with
  | nil =>
    rw [modifySame found rfl]
    rfl
  | cons member type others =>
    obtain ⟨value, values⟩ := values
    rw [visitMembers, stepOk (writes fresh type value top found ⟨member, rfl⟩)]
    have next : (w.root.modify path (put (some member) (encode type value))).at path =
        some (.table (Function.update entries member (some (encode type value)))) := by
      rw [atModify, found]
      rfl
    rw [stepOk (writesMembers fresh others values
      (w := { w with root := w.root.modify path (put (some member) (encode type value)) }) top next), modifyModify]
    rfl
end

end Mcpp.WriteDefaults
