import Mcpp.Config

/-! The visitor that reads members. It latches on the first node of the wrong type and
leaves what it was handed since then as it was. -/
namespace Mcpp.ReadConfig
open Buffers Documents Config

variable {F : Floating}

structure SCtx (F : Floating) where
  node : Node F
  index : Nat

structure CConfigReader (F : Floating) where
  stack : List (SCtx F)
  ok : Bool

def CConfigReader.fresh (root : Entries F) : CConfigReader F := { stack := [⟨.table root, 0⟩], ok := true }

def fetch (name : Option Bytes) : Visit (CConfigReader F) (Option (Node F)) := fun r =>
  match r.stack with
  | [] => .error .emptyStack
  | ctx :: rest =>
    match ctx.node, name with
    | .table entries, some k => .ok (entries k, r)
    | .table _, none => .error .nullName
    | .array elements, _ =>
      if ctx.index < elements.length then
        .ok (elements[ctx.index]?, { r with stack := { ctx with index := ctx.index + 1 } :: rest })
      else .ok (none, r)
    | .scalar _, _ => .ok (none, r)

def isOk : Visit (CConfigReader F) Bool := fun r => .ok (r.ok, r)

def fail : Visit (CConfigReader F) Unit := fun r => .ok ((), { r with ok := false })

def push (node : Node F) : Visit (CConfigReader F) Unit := fun r =>
  .ok ((), { r with stack := ⟨node, 0⟩ :: r.stack })

def pop : Visit (CConfigReader F) Unit := fun r =>
  match r.stack with
  | [] => .error .emptyStack
  | _ :: rest => .ok ((), { r with stack := rest })

def asInteger : Node F → Option (BitVec 64)
  | .scalar (.integer value) => some value
  | _ => none

def asString : Node F → Option Bytes
  | .scalar (.string value) => some value
  | _ => none

def asBoolean : Node F → Option Bool
  | .scalar (.boolean value) => some value
  | _ => none

def asFloatingPoint : Node F → Option F.double
  | .scalar (.floating value) => some value
  | _ => none

def readScalar {α β : Type} (as : Node F → Option β) (get : β → α) (name : Option Bytes) (out : α) :
    Visit (CConfigReader F) α := do
  if !(← isOk) then
    pure out
  else
    match (← fetch name).bind as with
    | some value => pure (get value)
    | none => do
      fail
      pure out

def onArrayBegin (name : Option Bytes) (size : Nat) : Visit (CConfigReader F) Nat := do
  if !(← isOk) then
    pure size
  else
    match ← fetch name with
    | some (.array elements) => do
      push (.array elements)
      pure elements.length
    | _ => do
      fail
      pure size

def onStructBegin (name : Option Bytes) : Visit (CConfigReader F) Unit := do
  if !(← isOk) then
    pure ()
  else
    match ← fetch name with
    | some (.table entries) => push (.table entries)
    | _ => fail

/- OnArrayEnd and OnStructEnd. -/
def onEnd : Visit (CConfigReader F) Unit := do
  if ← isOk then pop else pure ()

def visitor : IConfigValueVisitor F (CConfigReader F) where
  isReading := true
  onInt := readScalar asInteger (BitVec.truncate 32)
  onString := readScalar asString id
  onBool := readScalar asBoolean id
  onFloat := readScalar asFloatingPoint F.narrow
  onDouble := readScalar asFloatingPoint id
  onArrayBegin := onArrayBegin
  onArrayEnd := onEnd
  onStructBegin := onStructBegin
  onStructEnd := onEnd

/-! What a traversal reads from a node: what it leaves in the value, and whether it is ok. -/

def readLeaf {α β : Type} (as : Node F → Option β) (get : β → α) (node : Option (Node F)) (out : α) : α × Bool :=
  match node.bind as with
  | some value => (get value, true)
  | none => (out, false)

/- What is behind the first that fails is untouched. -/
def both {α β γ : Type} (join : α → β → γ) (untouched : β) (first : α × Bool) (second : β × Bool) : γ × Bool :=
  if first.2 then (join first.1 second.1, second.2) else (join first.1 untouched, false)

def readElements {α : Type} (read : Option (Node F) → α → α × Bool) : List (Node F) → List α → List α × Bool
  | node :: nodes, value :: values =>
    both List.cons values (read (some node) value) (readElements read nodes values)
  | _, values => (values, true)

mutual
def readInto (fresh : (t : ConfigType) → t.Value F) : (t : ConfigType) → Option (Node F) → t.Value F → t.Value F × Bool
  | .int, node, value => readLeaf asInteger (BitVec.truncate 32) node value
  | .string, node, value => readLeaf asString id node value
  | .bool, node, value => readLeaf asBoolean id node value
  | .float, node, value => readLeaf asFloatingPoint F.narrow node value
  | .double, node, value => readLeaf asFloatingPoint id node value
  | .vector element, some (.array elements), (values : List (element.Value F)) =>
    readElements (readInto fresh element) elements (resize (fresh element) elements.length values)
  | .struct _ members, some (.table entries), values => readMembers fresh members entries values
  | .vector _, _, value | .struct _ _, _, value => (value, false)
def readMembers (fresh : (t : ConfigType) → t.Value F) :
    (members : Members) → Entries F → members.Values F → members.Values F × Bool
  | .nil, _, values => (values, true)
  | .cons member type rest, entries, (value, values) =>
    both Prod.mk values (readInto fresh type (entries member) value) (readMembers fresh rest entries values)
end

/- Without a node nothing is read. -/
theorem readNone (fresh : (t : ConfigType) → t.Value F) (t : ConfigType) (prior : t.Value F) :
    readInto fresh t none prior = (prior, false) := by
  cases t <;> rfl

/-! The traversal reads what is specified. -/

variable {α : Type} {r fetched : CConfigReader F} {name : Option Bytes} {node : Option (Node F)}

/- How a traversal ends: at the given state, or latched. -/
def Outcome (result : Except Fault (α × CConfigReader F)) : α × Bool → CConfigReader F → Prop
  | (value, true), done => result = .ok (value, done)
  | (value, false), _ => ∃ r, r.ok = false ∧ result = .ok (value, r)

theorem fetchKeeps (fetches : fetch name r = .ok (node, fetched)) : fetched.ok = r.ok := by
  unfold fetch at fetches
  split at fetches <;> try contradiction
  split at fetches <;> try contradiction
  · cases fetches
    rfl
  · split at fetches <;> cases fetches <;> rfl
  · cases fetches
    rfl

theorem whileOk {f : Bool → Visit (CConfigReader F) α} {ok : Bool} (state : r.ok = ok) : (isOk >>= f) r = f ok r :=
  stepOk (state ▸ rfl)

/- Once latched, nothing is fetched, pushed or popped. -/

theorem scalarLatched {β : Type} {as : Node F → Option β} {get : β → α} (latched : r.ok = false) (value : α) :
    readScalar as get name value r = .ok (value, r) :=
  whileOk latched

theorem elementsLatched {v : α → Visit (CConfigReader F) α} (each : ∀ value, v value r = .ok (value, r))
    (values : List α) : visitElements v values.length values r = .ok (values, r) := by
  induction values with
  | nil => rfl
  | cons value values ih => exact (stepOk (each value)).trans (stepOk ih)

theorem resizeSame (fresh : α) (values : List α) : resize fresh values.length values = values := by
  simp [resize]

/- What begins latched, or latches where it begins, is left as it is. -/

theorem vectorLatched {fresh : (t : ConfigType) → t.Value F} {element : ConfigType} {latch : CConfigReader F}
    (begun : ∀ size, onArrayBegin name size r = .ok (size, latch)) (latched : latch.ok = false)
    (each : ∀ value, visit visitor fresh element none value latch = .ok (value, latch)) (value : List (element.Value F)) :
    visit visitor fresh (.vector element) name value r = .ok (value, latch) := by
  have same : (if (visitor (F := F)).isReading = true then resize (fresh element) value.length value else value) = value :=
    resizeSame (fresh element) value
  have ended : onEnd latch = .ok ((), latch) := whileOk latched
  rw [visitVector]
  refine (stepOk (begun value.length)).trans ?_
  rw [same]
  exact (stepOk (elementsLatched each value)).trans (stepOk ended)

theorem structLatched {fresh : (t : ConfigType) → t.Value F} {structName : Bytes} {members : Members}
    {latch : CConfigReader F} (begun : onStructBegin name r = .ok ((), latch)) (latched : latch.ok = false)
    {values : members.Values F} (inside : visitMembers visitor fresh members values latch = .ok (values, latch)) :
    visit visitor fresh (.struct structName members) name values r = .ok (values, latch) := by
  have ended : onEnd latch = .ok ((), latch) := whileOk latched
  rw [visitStruct]
  exact (stepOk begun).trans ((stepOk inside).trans (stepOk ended))

mutual
theorem latchedVisit (fresh : (t : ConfigType) → t.Value F) (t : ConfigType) {name : Option Bytes} (value : t.Value F)
    {r : CConfigReader F} (latched : r.ok = false) : visit visitor fresh t name value r = .ok (value, r) := by
  cases t with
  | int => exact scalarLatched latched value
  | string => exact scalarLatched latched value
  | bool => exact scalarLatched latched value
  | float => exact scalarLatched latched value
  | double => exact scalarLatched latched value
  | vector element =>
    exact vectorLatched (fun size => whileOk latched) latched (fun value => latchedVisit fresh element value latched) value
  | struct structName members => exact structLatched (whileOk latched) latched (latchedMembers fresh members value latched)
theorem latchedMembers (fresh : (t : ConfigType) → t.Value F) (members : Members) (values : members.Values F)
    {r : CConfigReader F} (latched : r.ok = false) : visitMembers visitor fresh members values r = .ok (values, r) := by
  cases members with
  | nil => rfl
  | cons member type others =>
    obtain ⟨value, values⟩ := values
    exact (stepOk (latchedVisit fresh type value latched)).trans (stepOk (latchedMembers fresh others values latched))
end

/- As long as it is ok, the stack is what was fetched from. -/

theorem scalarReads {β : Type} {as : Node F → Option β} {get : β → α} (going : r.ok = true)
    (fetches : fetch name r = .ok (node, fetched)) (value : α) :
    Outcome (readScalar as get name value r) (readLeaf as get node value) fetched := by
  unfold readScalar readLeaf
  rw [whileOk going]
  simp only [Bool.not_true, Bool.false_eq_true, if_false]
  rw [stepOk fetches]
  cases node.bind as with
  | some found => rfl
  | none => exact ⟨_, rfl, rfl⟩

theorem bothRead {β γ : Type} {m : Visit (CConfigReader F) α} {n : Visit (CConfigReader F) β} {join : α → β → γ}
    {mid done : CConfigReader F} {first : α × Bool} {second : β × Bool} {untouched : β} (head : Outcome (m r) first mid)
    (tail : Outcome (n mid) second done) (stuck : ∀ latch, latch.ok = false → n latch = .ok (untouched, latch)) :
    Outcome ((do let a ← m; let b ← n; pure (join a b)) r) (both join untouched first second) done := by
  obtain ⟨a, okFirst⟩ := first
  obtain ⟨b, okSecond⟩ := second
  cases okFirst with
  | false =>
    obtain ⟨latch, latched, head⟩ := head
    exact ⟨latch, latched, (stepOk head).trans (stepOk (stuck latch latched))⟩
  | true =>
    cases okSecond with
    | true => exact (stepOk head).trans (stepOk tail)
    | false =>
      obtain ⟨latch, latched, tail⟩ := tail
      exact ⟨latch, latched, (stepOk head).trans (stepOk tail)⟩

theorem elementsRead {v : α → Visit (CConfigReader F) α} {read : Option (Node F) → α → α × Bool}
    (each : ∀ {r fetched node} value, r.ok = true → fetch none r = .ok (node, fetched) →
      Outcome (v value r) (read node value) fetched)
    (stuck : ∀ {r} value, r.ok = false → v value r = .ok (value, r)) (done nodes : List (Node F)) (values : List α)
    {rest : List (SCtx F)} (going : r.ok = true) (top : r.stack = ⟨.array (done ++ nodes), done.length⟩ :: rest)
    (same : values.length = nodes.length) :
    Outcome (visitElements v values.length values r) (readElements read nodes values)
      { r with stack := ⟨.array (done ++ nodes), (done ++ nodes).length⟩ :: rest } := by
  induction nodes generalizing done values r with
  | nil =>
    obtain rfl := List.eq_nil_of_length_eq_zero same
    obtain ⟨stack, ok⟩ := r
    cases top
    rw [List.append_nil]
    rfl
  | cons node nodes ih =>
    cases values with
    | nil => contradiction
    | cons value values =>
      have fetches : fetch none r =
          .ok (some node, { r with stack := ⟨.array (done ++ node :: nodes), done.length + 1⟩ :: rest }) := by
        simp [fetch, top]
      have tail := ih (done ++ [node]) values going
        (r := { r with stack := ⟨.array (done ++ node :: nodes), done.length + 1⟩ :: rest }) (by simp) (Nat.succ.inj same)
      rw [List.append_assoc] at tail
      exact bothRead (each value going fetches) tail
        fun latch latched => elementsLatched (fun value => stuck value latched) values

theorem arrayBegins {elements : List (Node F)} (going : r.ok = true)
    (fetches : fetch name r = .ok (some (.array elements), fetched)) (size : Nat) :
    onArrayBegin name size r = .ok (elements.length, { fetched with stack := ⟨.array elements, 0⟩ :: fetched.stack }) := by
  unfold onArrayBegin
  rw [whileOk going]
  exact stepOk fetches

theorem arrayFails (going : r.ok = true) (fetches : fetch name r = .ok (node, fetched))
    (other : ∀ elements, node ≠ some (.array elements)) (size : Nat) :
    onArrayBegin name size r = .ok (size, { fetched with ok := false }) := by
  unfold onArrayBegin
  rw [whileOk going]
  refine (stepOk fetches).trans ?_
  split
  · exact absurd rfl (other _)
  · rfl

theorem structBegins {entries : Entries F} (going : r.ok = true)
    (fetches : fetch name r = .ok (some (.table entries), fetched)) :
    onStructBegin name r = .ok ((), { fetched with stack := ⟨.table entries, 0⟩ :: fetched.stack }) := by
  unfold onStructBegin
  rw [whileOk going]
  exact stepOk fetches

theorem structFails (going : r.ok = true) (fetches : fetch name r = .ok (node, fetched))
    (other : ∀ entries, node ≠ some (.table entries)) : onStructBegin name r = .ok ((), { fetched with ok := false }) := by
  unfold onStructBegin
  rw [whileOk going]
  refine (stepOk fetches).trans ?_
  split
  · exact absurd rfl (other _)
  · rfl

/- What was pushed is popped, unless it latched. -/
theorem endReads {m : Visit (CConfigReader F) α} {pushed : CConfigReader F} {spec : α × Bool} {ctx : SCtx F}
    (inside : Outcome (m pushed) spec { fetched with stack := ctx :: fetched.stack }) (going : fetched.ok = true) :
    Outcome ((do let value ← m; onEnd; pure value) pushed) spec fetched := by
  obtain ⟨value, ok⟩ := spec
  cases ok with
  | true =>
    have ended : onEnd { fetched with stack := ctx :: fetched.stack } = .ok ((), fetched) :=
      whileOk (r := { fetched with stack := ctx :: fetched.stack }) going
    exact (stepOk inside).trans (stepOk ended)
  | false =>
    obtain ⟨latch, latched, inside⟩ := inside
    have ended : onEnd latch = .ok ((), latch) := whileOk latched
    exact ⟨latch, latched, (stepOk inside).trans (stepOk ended)⟩

theorem vectorReads {fresh : (t : ConfigType) → t.Value F} {element : ConfigType} (going : r.ok = true)
    (fetches : fetch name r = .ok (node, fetched)) (value : List (element.Value F))
    (each : ∀ {r fetched node} value, r.ok = true → fetch none r = .ok (node, fetched) →
      Outcome (visit visitor fresh element none value r) (readInto fresh element node value) fetched) :
    Outcome (visit visitor fresh (.vector element) name value r) (readInto fresh (.vector element) node value) fetched := by
  have stuck {r : CConfigReader F} (value : element.Value F) (latched : r.ok = false) :
      visit visitor fresh element none value r = .ok (value, r) := latchedVisit fresh element value latched
  have fails (other : ∀ elements, node ≠ some (.array elements)) :
      Outcome (visit visitor fresh (.vector element) name value r) (value, false) fetched :=
    ⟨{ fetched with ok := false }, rfl,
      vectorLatched (arrayFails going fetches other) rfl (fun value => stuck value rfl) value⟩
  cases node with
  | none => exact fails nofun
  | some d =>
    cases d with
    | scalar v => exact fails nofun
    | table entries => exact fails nofun
    | array elements =>
      have still : fetched.ok = true := (fetchKeeps fetches).trans going
      have inside := elementsRead each stuck [] elements (resize (fresh element) elements.length value)
        (r := { fetched with stack := ⟨.array elements, 0⟩ :: fetched.stack }) still rfl (resizeLength ..)
      rw [resizeLength] at inside
      have begun := stepOk (f := fun size => do
        let value ← visitElements (visit visitor fresh element none) size (resize (fresh element) size value)
        visitor.onArrayEnd
        pure value) (arrayBegins going fetches value.length)
      rw [visitVector]
      exact begun ▸ endReads inside still

theorem structReads {fresh : (t : ConfigType) → t.Value F} {structName : Bytes} {members : Members} (going : r.ok = true)
    (fetches : fetch name r = .ok (node, fetched)) (values : members.Values F)
    (each : ∀ {r : CConfigReader F} {entries rest}, r.ok = true → r.stack = ⟨.table entries, 0⟩ :: rest →
      Outcome (visitMembers visitor fresh members values r) (readMembers fresh members entries values) r) :
    Outcome (visit visitor fresh (.struct structName members) name values r)
      (readInto fresh (.struct structName members) node values) fetched := by
  have fails (other : ∀ entries, node ≠ some (.table entries)) :
      Outcome (visit visitor fresh (.struct structName members) name values r) (values, false) fetched :=
    ⟨{ fetched with ok := false }, rfl,
      structLatched (structFails going fetches other) rfl (latchedMembers fresh members values rfl)⟩
  cases node with
  | none => exact fails nofun
  | some d =>
    cases d with
    | scalar v => exact fails nofun
    | array elements => exact fails nofun
    | table entries =>
      have still : fetched.ok = true := (fetchKeeps fetches).trans going
      have inside := each (r := { fetched with stack := ⟨.table entries, 0⟩ :: fetched.stack }) still rfl
      have begun := stepOk (f := fun _ => do
        let values ← visitMembers visitor fresh members values
        visitor.onStructEnd
        pure values) (structBegins going fetches)
      rw [visitStruct]
      exact begun ▸ endReads inside still

mutual
theorem reads (fresh : (t : ConfigType) → t.Value F) (t : ConfigType) {name : Option Bytes} {node : Option (Node F)}
    {r fetched : CConfigReader F} (value : t.Value F) (going : r.ok = true)
    (fetches : fetch name r = .ok (node, fetched)) :
    Outcome (visit visitor fresh t name value r) (readInto fresh t node value) fetched := by
  cases t with
  | int => exact scalarReads going fetches value
  | string => exact scalarReads going fetches value
  | bool => exact scalarReads going fetches value
  | float => exact scalarReads going fetches value
  | double => exact scalarReads going fetches value
  | vector element => exact vectorReads going fetches value (reads fresh element)
  | struct structName members => exact structReads going fetches value (readsMembers fresh members value)
theorem readsMembers (fresh : (t : ConfigType) → t.Value F) (members : Members) {entries : Entries F}
    {r : CConfigReader F} {rest : List (SCtx F)} (values : members.Values F) (going : r.ok = true)
    (top : r.stack = ⟨.table entries, 0⟩ :: rest) :
    Outcome (visitMembers visitor fresh members values r) (readMembers fresh members entries values) r := by
  cases members with
  | nil => rfl
  | cons member type others =>
    obtain ⟨value, values⟩ := values
    have fetches : fetch (some member) r = .ok (entries member, r) := by
      simp only [fetch, top]
    exact bothRead (reads fresh type value going fetches) (readsMembers fresh others values going top)
      fun latch latched => latchedMembers fresh others values latched
end

theorem outcomeOk {result : Except Fault (α × CConfigReader F)} {spec : α × Bool} {done : CConfigReader F}
    (going : done.ok = true) (outcome : Outcome result spec done) :
    ∃ r, result = .ok (spec.1, r) ∧ r.ok = spec.2 := by
  obtain ⟨value, ok⟩ := spec
  cases ok with
  | true => exact ⟨done, outcome, going⟩
  | false =>
    obtain ⟨latch, latched, ended⟩ := outcome
    exact ⟨latch, ended, latched⟩

/- A member is read from the table of its group. -/
theorem readsMember (fresh : (t : ConfigType) → t.Value F) (t : ConfigType) (entries : Entries F) (name : Bytes)
    (prior : t.Value F) : ∃ r, visit visitor fresh t (some name) prior (.fresh entries) =
      .ok ((readInto fresh t (entries name) prior).1, r) ∧ r.ok = (readInto fresh t (entries name) prior).2 := by
  have fetches : fetch (some name) (.fresh entries) = .ok (entries name, .fresh entries) := rfl
  exact outcomeOk rfl (reads fresh t prior rfl fetches)

end Mcpp.ReadConfig
