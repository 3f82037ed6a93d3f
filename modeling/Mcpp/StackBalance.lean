import Mcpp.ReadConfig
import Mcpp.WriteDefaults
import Mcpp.Traversal

/-! The stacks of the two visitors. Both hold the containers a value is visited in, except
that the reader's is as deep as it was where it latched. -/
namespace Mcpp.StackBalance
open Buffers Documents Config Tracing Traversal

variable {F : Floating}

def container : Node F → Option Container
  | .table _ => some .table
  | .array _ => some .array
  | .scalar _ => none

namespace Reading
open ReadConfig

/- A stack to fetch from and to pop, and no index behind an array's end. -/
structure Sound (r : CConfigReader F) : Prop where
  nonempty : r.stack ≠ []
  indices : ∀ ctx ∈ r.stack, ∀ elements, ctx.node = .array elements → ctx.index ≤ elements.length

/- Latched, the stack is not kept up any more. -/
structure Standing (kinds : List Container) (r : CConfigReader F) : Prop where
  sound : Sound r
  kinds : r.ok = true → r.stack.map (fun ctx => container ctx.node) = kinds.map some

variable {r : CConfigReader F} {name : Option Bytes} {kind : Container} {kinds : List Container}

theorem freshStands (entries : Entries F) : Standing [.table] (.fresh entries) := by
  refine ⟨⟨List.cons_ne_nil _ _, ?_⟩, fun _ => rfl⟩
  intro ctx mem elements array
  rw [List.mem_singleton.mp mem] at array
  contradiction

theorem latchedStands (stands : Standing kinds r) (latched : r.ok = false) (others : List Container) :
    Standing others r := by
  refine ⟨stands.sound, ?_⟩
  intro going
  rw [latched] at going
  contradiction

theorem failStands (stands : Standing kinds r) (others : List Container) :
    Standing others { r with ok := false } := by
  refine ⟨⟨stands.sound.nonempty, stands.sound.indices⟩, ?_⟩
  intro going
  contradiction

theorem pushStands (stands : Standing kinds r) {node : Node F} (holds : container node = some kind) :
    Standing (kind :: kinds) { r with stack := ⟨node, 0⟩ :: r.stack } := by
  refine ⟨⟨List.cons_ne_nil _ _, ?_⟩, ?_⟩
  · intro ctx mem elements array
    rcases List.mem_cons.mp mem with rfl | below
    · exact Nat.zero_le _
    · exact stands.sound.indices ctx below elements array
  · intro going
    rw [List.map_cons, List.map_cons, stands.kinds going, holds]

theorem popStands {outer : Container} (stands : Standing (kind :: outer :: kinds) r) (going : r.ok = true) :
    ∃ popped, pop r = .ok ((), popped) ∧ Standing (outer :: kinds) popped := by
  have held := stands.kinds going
  obtain ⟨stack, ok⟩ := r
  cases stack with
  | nil => contradiction
  | cons top below =>
    refine ⟨⟨below, ok⟩, rfl, ⟨?_, ?_⟩, fun _ => (List.cons.inj held).2⟩
    · rintro rfl
      exact absurd (List.cons.inj held).2 (by simp)
    · exact fun ctx mem => stands.sound.indices ctx (List.mem_cons_of_mem _ mem)

/- The top is a container, and an element of an array is fetched only if there is one left. -/
theorem fetchStands (fits : Fits name kind) (stands : Standing (kind :: kinds) r) (going : r.ok = true) :
    ∃ node fetched, fetch name r = .ok (node, fetched) ∧ Standing (kind :: kinds) fetched := by
  have held := stands.kinds going
  have bounded := stands.sound.indices
  obtain ⟨stack, ok⟩ := r
  cases stack with
  | nil => contradiction
  | cons ctx rest =>
    obtain ⟨node, index⟩ := ctx
    obtain ⟨top, below⟩ := List.cons.inj held
    cases node with
    | scalar value => contradiction
    | table entries =>
      cases top
      obtain ⟨k, rfl⟩ := fits
      exact ⟨entries k, _, rfl, stands⟩
    | array elements =>
      by_cases inside : index < elements.length
      · refine ⟨elements[index]?, ⟨⟨.array elements, index + 1⟩ :: rest, ok⟩, ?_, ?_⟩
        · simp only [fetch, if_pos inside]
        · refine ⟨⟨List.cons_ne_nil _ _, ?_⟩, fun _ => held⟩
          intro ctx mem others array
          rcases List.mem_cons.mp mem with rfl | mem
          · cases array
            exact inside
          · exact bounded ctx (List.mem_cons_of_mem _ mem) others array
      · exact ⟨none, _, by simp only [fetch, if_neg inside], stands⟩

/-! Every call keeps the stack. -/

theorem scalarStands {α β : Type} (as : Node F → Option β) (get : β → α) (name : Option Bytes) (value : α) :
    Keeps Standing name (readScalar as get name value) := by
  intro kind kinds fits r stands
  cases state : r.ok with
  | false => exact ⟨value, r, whileOk state, stands⟩
  | true =>
    obtain ⟨node, fetched, fetches, still⟩ := fetchStands fits stands state
    unfold readScalar
    rw [whileOk state]
    simp only [Bool.not_true, Bool.false_eq_true, if_false]
    rw [stepOk fetches]
    cases node.bind as with
    | some found => exact ⟨get found, fetched, rfl, still⟩
    | none => exact ⟨value, { fetched with ok := false }, rfl, failStands still _⟩

theorem arrayBeginStands (size : Nat) (kinds : List Container) (fits : Fits name kind) :
    Total (Standing (kind :: kinds)) (onArrayBegin name size : Visit (CConfigReader F) Nat)
      fun _ => Standing (.array :: kind :: kinds) := by
  intro r stands
  cases state : r.ok with
  | false => exact ⟨size, r, whileOk state, latchedStands stands state _⟩
  | true =>
    obtain ⟨node, fetched, fetches, still⟩ := fetchStands fits stands state
    by_cases array : ∃ elements, node = some (.array elements)
    · obtain ⟨elements, rfl⟩ := array
      exact ⟨_, _, arrayBegins state fetches size, pushStands still rfl⟩
    · exact ⟨_, _, arrayFails state fetches (not_exists.mp array) size, failStands still _⟩

theorem structBeginStands (kinds : List Container) (fits : Fits name kind) :
    Total (Standing (kind :: kinds)) (onStructBegin name : Visit (CConfigReader F) Unit)
      fun _ => Standing (.table :: kind :: kinds) := by
  intro r stands
  cases state : r.ok with
  | false => exact ⟨(), r, whileOk state, latchedStands stands state _⟩
  | true =>
    obtain ⟨node, fetched, fetches, still⟩ := fetchStands fits stands state
    by_cases table : ∃ entries, node = some (.table entries)
    · obtain ⟨entries, rfl⟩ := table
      exact ⟨_, _, structBegins state fetches, pushStands still rfl⟩
    · exact ⟨_, _, structFails state fetches (not_exists.mp table), failStands still _⟩

/- What was pushed is popped unless the reader latched in between, and then it stays. -/
theorem endStands (kind outer : Container) (kinds : List Container) :
    Total (Standing (kind :: outer :: kinds)) (onEnd : Visit (CConfigReader F) Unit) fun _ => Standing (outer :: kinds) := by
  intro r stands
  cases state : r.ok with
  | false => exact ⟨(), r, whileOk state, latchedStands stands state _⟩
  | true =>
    obtain ⟨popped, pops, still⟩ := popStands stands state
    exact ⟨(), popped, (whileOk state).trans pops, still⟩

theorem disciplined : Disciplined (visitor (F := F)) Standing where
  onInt := scalarStands _ _
  onString := scalarStands _ _
  onBool := scalarStands _ _
  onFloat := scalarStands _ _
  onDouble := scalarStands _ _
  onArrayBegin name size kind kinds fits r stands := by
    obtain ⟨begun, t, ran, still⟩ := arrayBeginStands size kinds fits r stands
    refine ⟨begun, t, ran, still, ?_⟩
    intro writing
    contradiction
  onArrayEnd := endStands .array
  onStructBegin _ _ kinds fits := structBeginStands kinds fits
  onStructEnd := endStands .table

end Reading

namespace Writing
open WriteDefaults

/- The pointers are paths, each under those below it, and lead to these containers. -/
def Standing (kinds : List Container) (w : DefaultWriter F) : Prop :=
  ∃ paths : List (List (Step Bytes)), w.stack = paths.map some ∧ paths.Pairwise (fun upper lower => lower <+: upper) ∧
    paths.map (fun path => (w.root.at path).bind container) = kinds.map some

variable {w : DefaultWriter F} {path : List (Step Bytes)} {rest : List Pointer} {parent : Node F} {name : Option Bytes}
  {kind : Container} {kinds : List Container}

theorem freshStands (entries : Entries F) : Standing [.table] (.fresh entries) :=
  ⟨[[]], rfl, List.pairwise_singleton _ _, rfl⟩

theorem topStands (stands : Standing (kind :: kinds) w) : ∃ path rest parent,
    w.stack = some path :: rest ∧ w.root.at path = some parent ∧ container parent = some kind := by
  obtain ⟨paths, stack, _, leads⟩ := stands
  cases paths with
  | nil => contradiction
  | cons path others =>
    obtain ⟨parent, found, held⟩ := Option.bind_eq_some_iff.mp (List.cons.inj leads).1
    exact ⟨path, others.map some, parent, stack, found, held⟩

theorem topTakes (stands : Standing (kind :: kinds) w) (fits : Fits name kind) : ∃ path rest parent,
    w.stack = some path :: rest ∧ w.root.at path = some parent ∧ Takes name parent := by
  obtain ⟨path, rest, parent, top, found, held⟩ := topStands stands
  refine ⟨path, rest, parent, top, found, ?_⟩
  cases parent with
  | scalar value => contradiction
  | array elements => trivial
  | table entries =>
    cases held
    exact fits

/-! A container is none the less one when something is put in it, or in what it holds. -/

theorem putContainer (name : Option Bytes) (node parent : Node F) :
    container (put name node parent) = container parent := by
  cases parent with
  | scalar value => rfl
  | array elements => rfl
  | table entries => cases name <;> rfl

theorem modifyContainer {f : Node F → Node F} (keeps : ∀ node, container (f node) = container node)
    (more : List (Step Bytes)) (node : Node F) : container (node.modify more f) = container node := by
  cases more with
  | nil => exact keeps node
  | cons step rest => cases step <;> cases node <;> rfl

theorem modifyLeads {f : Node F → Node F} (keeps : ∀ node, container (f node) = container node) (root : Node F)
    {lower : List (Step Bytes)} (below : lower <+: path) :
    ((root.modify path f).at lower).bind container = (root.at lower).bind container := by
  obtain ⟨more, rfl⟩ := below
  rw [modifyAppend, atModify]
  cases root.at lower with
  | none => rfl
  | some node => exact modifyContainer keeps more node

/- The top pointer is under all of them. -/
theorem underAll {others : List (List (Step Bytes))} (nested : (path :: others).Pairwise fun upper lower => lower <+: upper) :
    ∀ lower ∈ path :: others, lower <+: path := by
  intro lower mem
  rcases List.mem_cons.mp mem with rfl | mem
  · exact List.prefix_rfl
  · exact List.rel_of_pairwise_cons nested mem

theorem putStands (stands : Standing kinds w) (top : w.stack = some path :: rest) (name : Option Bytes) (node : Node F) :
    Standing kinds { w with root := w.root.modify path (put name node) } := by
  obtain ⟨paths, stack, nested, leads⟩ := stands
  refine ⟨paths, stack, nested, ?_⟩
  rw [← leads]
  cases paths with
  | nil =>
    rw [top] at stack
    contradiction
  | cons first others =>
    obtain rfl := Option.some.inj (List.cons.inj (top.symm.trans stack)).1
    exact List.map_congr_left fun lower mem => modifyLeads (putContainer name node) w.root (underAll nested lower mem)

theorem enteredStands (stands : Standing kinds w) (top : w.stack = some path :: rest) (found : w.root.at path = some parent)
    (takes : Takes name parent) {empty : Node F} (held : container empty = some kind) :
    Standing (kind :: kinds) (entered w path name parent empty) := by
  obtain ⟨paths, stack, nested, leads⟩ := putStands stands top name empty
  refine ⟨(path ++ [slot name parent]) :: paths, ?_, List.pairwise_cons.mpr ⟨?_, nested⟩, ?_⟩
  · exact congrArg (List.cons _) stack
  · cases paths with
    | nil => exact fun lower mem => absurd mem List.not_mem_nil
    | cons first others =>
      obtain rfl := Option.some.inj (List.cons.inj (top.symm.trans stack)).1
      exact fun lower mem => (underAll nested lower mem).trans (List.prefix_append _ _)
  · rw [List.map_cons, List.map_cons, enteredFound found takes, Option.bind_some, held]
    exact congrArg (List.cons _) leads

theorem popStands {outer : Container} (stands : Standing (kind :: outer :: kinds) w) :
    ∃ popped, pop w = .ok ((), popped) ∧ Standing (outer :: kinds) popped := by
  obtain ⟨paths, stack, nested, leads⟩ := stands
  obtain ⟨root, pointers⟩ := w
  cases paths with
  | nil => contradiction
  | cons path others =>
    cases stack
    exact ⟨⟨root, others.map some⟩, rfl, others, rfl, nested.of_cons, (List.cons.inj leads).2⟩

/-! Every call keeps the stack. -/

theorem scalarStands {α : Type} (name : Option Bytes) (value : Scalar F) (out : α) :
    Keeps Standing name (do insert name value; pure out) := by
  intro kind kinds fits w stands
  obtain ⟨path, rest, parent, top, found, takes⟩ := topTakes stands fits
  exact ⟨out, _, stepOk (insertOk top found takes value), putStands stands top name _⟩

theorem arrayBeginStands (size : Nat) (kinds : List Container) (fits : Fits name kind) :
    Total (Standing (kind :: kinds)) (do push (← createArray name); pure size : Visit (DefaultWriter F) Nat)
      fun begun w => Standing (.array :: kind :: kinds) w ∧ begun = size := by
  intro w stands
  obtain ⟨path, rest, parent, top, found, takes⟩ := topTakes stands fits
  exact ⟨size, _, stepOk (createOk top found takes (.array [])), enteredStands stands top found takes rfl, rfl⟩

theorem structBeginStands (kinds : List Container) (fits : Fits name kind) :
    Total (Standing (kind :: kinds)) (do push (← createTable name) : Visit (DefaultWriter F) Unit)
      fun _ => Standing (.table :: kind :: kinds) := by
  intro w stands
  obtain ⟨path, rest, parent, top, found, takes⟩ := topTakes stands fits
  exact ⟨(), _, stepOk (createOk top found takes (.table fun _ => none)), enteredStands stands top found takes rfl⟩

theorem endStands (kind outer : Container) (kinds : List Container) :
    Total (Standing (kind :: outer :: kinds)) (pop : Visit (DefaultWriter F) Unit) fun _ => Standing (outer :: kinds) := by
  intro w stands
  obtain ⟨popped, pops, still⟩ := popStands stands
  exact ⟨(), popped, pops, still⟩

theorem disciplined : Disciplined (visitor (F := F)) Standing where
  onInt name value := scalarStands name _ value
  onString name value := scalarStands name _ value
  onBool name value := scalarStands name _ value
  onFloat name value := scalarStands name _ value
  onDouble name value := scalarStands name _ value
  onArrayBegin name size kind kinds fits w stands := by
    obtain ⟨begun, t, ran, still, same⟩ := arrayBeginStands size kinds fits w stands
    exact ⟨begun, t, ran, still, fun _ => same⟩
  onArrayEnd := endStands .array
  onStructBegin _ _ kinds fits := structBeginStands kinds fits
  onStructEnd := endStands .table

/- What current() is when a call is made. -/
def CurrentFits (call : Call) (w : DefaultWriter F) : Prop :=
  ∃ path parent, current w = .ok ((path, parent), w) ∧
    match call with
    | .scalar name | .arrayBegin name | .structBegin name => Takes name parent
    | .arrayEnd => container parent = some .array
    | .structEnd => container parent = some .table

theorem beginsFit (begins : Begins name Standing w) :
    ∃ path parent, current w = .ok ((path, parent), w) ∧ Takes name parent := by
  obtain ⟨kind, kinds, fits, stands⟩ := begins
  obtain ⟨path, rest, parent, top, found, takes⟩ := topTakes stands fits
  exact ⟨path, parent, currentOk top found, takes⟩

theorem endsFit (ends : Ends kind Standing w) :
    ∃ path parent, current w = .ok ((path, parent), w) ∧ container parent = some kind := by
  obtain ⟨outer, kinds, stands⟩ := ends
  obtain ⟨path, rest, parent, top, found, held⟩ := topStands stands
  exact ⟨path, parent, currentOk top found, held⟩

theorem findsFit {call : Call} (finds : Finds Standing call w) : CurrentFits call w := by
  cases call with
  | scalar name | arrayBegin name | structBegin name => exact beginsFit finds
  | arrayEnd | structEnd => exact endsFit finds

end Writing

/- What is to hold of both: no call finds its stack or the node on top unfit, and a value leaves
the stack as deep as it was, of the reader's as long as it is ok. -/
theorem stacksBalanced (fresh : (t : ConfigType) → t.Value F) (t : ConfigType) (entries : Entries F) (name : Bytes)
    (value : t.Value F) :
    (∃ read r calls, visit ReadConfig.visitor fresh t (some name) value (.fresh entries) = .ok (read, r) ∧
      visit (logged ReadConfig.visitor) fresh t (some name) value (.fresh entries, []) = .ok (read, r, calls) ∧
      (∀ entry ∈ calls, Reading.Sound entry.2) ∧ Reading.Sound r ∧
      (r.ok = true → r.stack.length = (ReadConfig.CConfigReader.fresh entries).stack.length)) ∧
    ∃ written w calls, visit WriteDefaults.visitor fresh t (some name) value (.fresh entries) = .ok (written, w) ∧
      visit (logged WriteDefaults.visitor) fresh t (some name) value (.fresh entries, []) = .ok (written, w, calls) ∧
      (∀ entry ∈ calls, Writing.CurrentFits entry.1 entry.2) ∧
      w.stack.length = (WriteDefaults.DefaultWriter.fresh entries).stack.length := by
  have fits : Fits (some name) .table := ⟨name, rfl⟩
  constructor
  · obtain ⟨read, r, calls, ran, log, met, stands⟩ := tracedRun (erasesVisit ReadConfig.visitor fresh t (some name) value)
      (visitStands fresh Reading.disciplined t [] value fits) (Reading.freshStands entries)
    refine ⟨read, r, calls, ran, log, ?_, stands.sound, ?_⟩
    · intro entry mem
      obtain ⟨kinds, found⟩ := findsStanding (met entry mem)
      exact found.sound
    · intro going
      have depth := congrArg List.length (stands.kinds going)
      rw [List.length_map, List.length_map] at depth
      exact depth
  · obtain ⟨written, w, calls, ran, log, met, paths, stack, _, leads⟩ :=
      tracedRun (erasesVisit WriteDefaults.visitor fresh t (some name) value)
        (visitStands fresh Writing.disciplined t [] value fits) (Writing.freshStands entries)
    refine ⟨written, w, calls, ran, log, fun entry mem => Writing.findsFit (met entry mem), ?_⟩
    have depth := congrArg List.length leads
    rw [List.length_map, List.length_map] at depth
    rw [stack, List.length_map]
    exact depth

end Mcpp.StackBalance
