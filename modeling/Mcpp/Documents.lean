import Mathlib.Data.List.Basic
import Mathlib.Logic.Function.Basic

/-! Documents: trees of tables and arrays with scalars at the leaves. A table is what it
holds under each key. What is kept under a path of keys can be reached, opened (with
tables made on the way) and changed; two such changes commute when neither is made
where the other looks. -/
namespace Mcpp.Documents

inductive Document (κ α : Type) where
  | scalar (value : α)
  | array (elements : List (Document κ α))
  | table (entries : κ → Option (Document κ α))

abbrev Table (κ α : Type) := κ → Option (Document κ α)

inductive Step (κ : Type) where
  | key (k : κ)
  | index (i : Nat)
  deriving DecidableEq, Repr

variable {κ α : Type}

def Document.child : Document κ α → Step κ → Option (Document κ α)
  | .table entries, .key k => entries k
  | .array elements, .index i => elements[i]?
  | _, _ => none

def Document.at (d : Document κ α) : List (Step κ) → Option (Document κ α)
  | [] => some d
  | step :: rest => (d.child step).bind (fun c => c.at rest)

/- Nothing but tables and arrays. -/
def Bare (d : Document κ α) : Prop := ∀ path value, d.at path ≠ some (.scalar value)

@[simp] theorem atNil (d : Document κ α) : d.at [] = some d := rfl

theorem atCons (d : Document κ α) (step : Step κ) (rest : List (Step κ)) :
    d.at (step :: rest) = (d.child step).bind (fun c => c.at rest) := rfl

@[simp] theorem atTableKey (t : Table κ α) (k : κ) (rest : List (Step κ)) :
    (Document.table t).at (.key k :: rest) = (t k).bind (fun c => c.at rest) := rfl

theorem atAppend (d : Document κ α) (path more : List (Step κ)) :
    d.at (path ++ more) = (d.at path).bind (fun c => c.at more) := by
  induction path generalizing d with
  | nil => rfl
  | cons step rest ih =>
    rw [List.cons_append, atCons, atCons]
    cases d.child step with
    | none => rfl
    | some c => exact ih c

/-! Opening. -/

def subtable (t : Table κ α) (k : κ) : Table κ α :=
  match t k with
  | some (.table entries) => entries
  | _ => fun _ => none

/- The table under a path of keys, empty where there is none. -/
def tableAt : List κ → Table κ α → Table κ α
  | [], t => t
  | k :: rest, t => tableAt rest (subtable t k)

/- Whether tables are all there is on the way. -/
def Open : List κ → Table κ α → Prop
  | [], _ => True
  | k :: rest, t => ∃ entries, t k = some (.table entries) ∧ Open rest entries

variable {p : List κ}

theorem openAppend {t entries : Table κ α} {k : κ} (opened : Open p t) (here : tableAt p t k = some (.table entries)) :
    Open (p ++ [k]) t := by
  induction p generalizing t with
  | nil => exact ⟨entries, here, trivial⟩
  | cons l rest ih =>
    obtain ⟨inner, held, opened⟩ := opened
    rw [tableAt, subtable, held] at here
    exact ⟨inner, held, ih opened here⟩

theorem subtableOpen {t entries : Table κ α} {k : κ} (here : t k = some (.table entries)) : subtable t k = entries := by
  simp [subtable, here]

/-! Keeping. -/

/- No scalar is on the way: what is replaced there has none. -/
def Spared : List κ → Table κ α → Prop
  | [], _ => True
  | k :: rest, t =>
    match t k with
    | none => True
    | some (.table entries) => Spared rest entries
    | some d => Bare d

/- Each scalar of the one table is in the other, at its path. -/
def Kept (t u : Table κ α) : Prop :=
  ∀ path value, (Document.table t).at path = some (.scalar value) → (Document.table u).at path = some (.scalar value)

/- And every path that was open is. -/
structure Grown (t u : Table κ α) : Prop where
  kept : Kept t u
  opened : ∀ p, Open p t → Open p u

theorem grownSelf (t : Table κ α) : Grown t t := ⟨fun _ _ => id, fun _ => id⟩

theorem keptUnder {t u entries inner : Table κ α} {k : κ} (kept : Kept t u) (old : t k = some (.table entries))
    (new : u k = some (.table inner)) : Kept entries inner := by
  intro path value found
  have both := kept (.key k :: path) value
  rw [atTableKey, atTableKey, old, new] at both
  exact both found

theorem grownUnder {t u entries inner : Table κ α} {k : κ} (grown : Grown t u) (old : t k = some (.table entries))
    (new : u k = some (.table inner)) : Grown entries inner := by
  refine ⟨keptUnder grown.kept old new, ?_⟩
  intro p opened
  obtain ⟨inner', new', opened'⟩ := grown.opened (k :: p) ⟨entries, old, opened⟩
  rw [new] at new'
  cases new'
  exact opened'

/- A scalar that is on the way to an open path is gone. -/
theorem lostOpen {t u : Table κ α} (hit : ¬ Spared p t) (opened : Open p u) : ¬ Kept t u := by
  induction p generalizing t u with
  | nil => exact absurd trivial hit
  | cons k rest ih =>
    intro kept
    obtain ⟨inner, new, opened⟩ := opened
    unfold Spared at hit
    cases old : t k with
    | none => simp [old] at hit
    | some d =>
      rw [old] at hit
      have under (path : List (Step κ)) (value : α) (found : d.at path = some (.scalar value)) :
          (Document.table inner).at path = some (.scalar value) := by
        have both := kept (.key k :: path) value
        rw [atTableKey, atTableKey, old, new] at both
        exact both found
      cases d with
      | scalar v => exact absurd (under [] v rfl) (by simp)
      | array elements =>
        refine hit ?_
        intro path value found
        have held := under path value found
        cases path with
        | nil => simp at found
        | cons step more => cases step <;> contradiction
      | table entries => exact ih hit opened under

/-! Paths and the keys under them. -/

/- A change of some keys under the one path, a change of others under the other: neither is
made where the other looks. -/
def Apart : List κ → List κ → List κ → List κ → Prop
  | [], keys, [], others => ∀ k ∈ keys, k ∉ others
  | [], keys, l :: _, _ => l ∉ keys
  | k :: _, _, [], others => k ∉ others
  | k :: p, keys, l :: q, others => k = l → Apart p keys q others

/- Two paths of which neither goes on through a key of the other. -/
theorem apartPaths {q keys others : List κ} (differ : p ≠ q) (first : ∀ k ∈ keys, ¬ p ++ [k] <+: q)
    (second : ∀ k ∈ others, ¬ q ++ [k] <+: p) : Apart p keys q others := by
  induction p generalizing q with
  | nil =>
    cases q with
    | nil => exact absurd rfl differ
    | cons l more => exact fun mem => first l mem ⟨more, rfl⟩
  | cons k rest ih =>
    cases q with
    | nil => exact fun mem => second k mem ⟨rest, rfl⟩
    | cons l more =>
      intro same
      subst same
      refine ih (fun same => differ (same ▸ rfl)) ?_ ?_
      · intro key mem inside
        exact first key mem (List.cons_prefix_cons.mpr ⟨rfl, inside⟩)
      · intro key mem inside
        exact second key mem (List.cons_prefix_cons.mpr ⟨rfl, inside⟩)

/-! Changing. -/

variable [DecidableEq κ] {q : List κ} {change other : Table κ α → Table κ α}

/- Changes the table under a path, with every node on the way that is no table replaced. -/
def along : List κ → (Table κ α → Table κ α) → Table κ α → Table κ α
  | [], change, t => change t
  | k :: rest, change, t => Function.update t k (some (.table (along rest change (subtable t k))))

theorem subtableUpdate (t : Table κ α) (k : κ) (entries : Table κ α) :
    subtable (Function.update t k (some (.table entries))) k = entries := by
  simp [subtable]

theorem alongAppend (p q : List κ) (change : Table κ α → Table κ α) : along (p ++ q) change = along p (along q change) := by
  induction p with
  | nil => rfl
  | cons k rest ih =>
    funext t
    rw [List.cons_append, along, along, ih]

theorem alongAlong (p : List κ) (change other : Table κ α → Table κ α) (t : Table κ α) :
    along p change (along p other t) = along p (fun t => change (other t)) t := by
  induction p generalizing t with
  | nil => rfl
  | cons k rest ih => simp only [along, subtableUpdate, ih, Function.update_idem]

theorem alongCongr {p : List κ} {change other : Table κ α → Table κ α} {t : Table κ α}
    (same : change (tableAt p t) = other (tableAt p t)) : along p change t = along p other t := by
  induction p generalizing t with
  | nil => exact same
  | cons k rest ih =>
    rw [tableAt] at same
    rw [along, along, ih same]

theorem tableAtAlong (p : List κ) (change : Table κ α → Table κ α) (t : Table κ α) :
    tableAt p (along p change t) = change (tableAt p t) := by
  induction p generalizing t with
  | nil => rfl
  | cons k rest ih =>
    rw [along, tableAt, subtableUpdate]
    exact ih _

theorem alongOpen (p : List κ) (change : Table κ α → Table κ α) (t : Table κ α) : Open p (along p change t) := by
  induction p generalizing t with
  | nil => trivial
  | cons k rest ih => exact ⟨_, Function.update_self .., ih _⟩

/- A change that leaves an open table as it is leaves everything as it is. -/
theorem alongSame {t : Table κ α} (opened : Open p t) (same : change (tableAt p t) = tableAt p t) :
    along p change t = t := by
  induction p generalizing t with
  | nil => exact same
  | cons k rest ih =>
    obtain ⟨entries, here, inner⟩ := opened
    rw [tableAt, subtableOpen here] at same
    rw [along, subtableOpen here, ih inner same, ← here]
    exact Function.update_eq_self ..

/-! Changes that look at a few keys only. -/

/- The change is made at these keys, and depends on what is under them. -/
structure Local (keys : List κ) (change : Table κ α → Table κ α) : Prop where
  outside : ∀ t k, k ∉ keys → change t k = t k
  inside : ∀ t u, (∀ k ∈ keys, t k = u k) → ∀ k ∈ keys, change t k = change u k

theorem localThen {keys others : List κ} (first : Local keys change) (second : Local others other) :
    Local (keys ++ others) fun t => other (change t) := by
  refine ⟨?_, ?_⟩
  · intro t k outside
    rw [second.outside _ k fun mem => outside (List.mem_append_right _ mem)]
    exact first.outside t k fun mem => outside (List.mem_append_left _ mem)
  · intro t u agree
    have still (k : κ) (mem : k ∈ keys ++ others) : change t k = change u k := by
      by_cases inKeys : k ∈ keys
      · exact first.inside t u (fun l mem => agree l (List.mem_append_left _ mem)) k inKeys
      · rw [first.outside t k inKeys, first.outside u k inKeys]
        exact agree k mem
    intro k mem
    by_cases inOthers : k ∈ others
    · exact second.inside _ _ (fun l mem => still l (List.mem_append_right _ mem)) k inOthers
    · rw [second.outside _ k inOthers, second.outside _ k inOthers]
      exact still k mem

theorem alongLocal (k : κ) (rest : List κ) (change : Table κ α → Table κ α) : Local [k] (along (k :: rest) change) := by
  refine ⟨?_, ?_⟩
  · intro t l other
    exact Function.update_of_ne (List.ne_of_not_mem_cons other) ..
  · intro t u agree l mem
    obtain rfl := List.mem_singleton.mp mem
    simp only [along, Function.update_self, subtable, agree l mem]

theorem localComm {keys others : List κ} (first : Local keys change) (second : Local others other)
    (apart : ∀ k ∈ keys, k ∉ others) (t : Table κ α) : change (other t) = other (change t) := by
  funext k
  by_cases inKeys : k ∈ keys
  · rw [second.outside _ k (apart k inKeys)]
    exact first.inside _ _ (fun l mem => second.outside _ l (apart l mem)) k inKeys
  · rw [first.outside _ k inKeys]
    by_cases inOthers : k ∈ others
    · exact (second.inside _ _ (fun l mem => first.outside _ l fun inside => apart l inside mem) k inOthers).symm
    · rw [second.outside _ k inOthers, second.outside _ k inOthers, first.outside _ k inKeys]

theorem alongComm {keys others : List κ} (first : Local keys change) (second : Local others other)
    (apart : Apart p keys q others) (t : Table κ α) : along p change (along q other t) = along q other (along p change t) := by
  induction p generalizing q t with
  | nil =>
    cases q with
    | nil => exact localComm first second apart t
    | cons l more =>
      refine localComm first (alongLocal l more other) ?_ t
      intro k mem single
      rw [List.mem_singleton.mp single] at mem
      exact apart mem
  | cons k rest ih =>
    cases q with
    | nil =>
      refine localComm (alongLocal k rest change) second ?_ t
      intro l single
      rw [List.mem_singleton.mp single]
      exact apart
    | cons l more =>
      rcases eq_or_ne k l with rfl | differ
      · simp only [along, subtableUpdate, Function.update_idem, ih (apart rfl)]
      · refine localComm (alongLocal k rest change) (alongLocal l more other) ?_ t
        intro m single
        rw [List.mem_singleton.mp single]
        simpa using differ

/- What one change looks at is not touched by the other. -/
theorem tableAtOther {keys others : List κ} (second : Local others other) (apart : Apart p keys q others)
    (t : Table κ α) {k : κ} (mem : k ∈ keys) : tableAt p (along q other t) k = tableAt p t k := by
  induction p generalizing q t with
  | nil =>
    cases q with
    | nil => exact second.outside _ k (apart k mem)
    | cons l more =>
      refine (alongLocal l more other).outside _ k ?_
      intro single
      rw [List.mem_singleton.mp single] at mem
      exact apart mem
  | cons l rest ih =>
    cases q with
    | nil => simp only [tableAt, along, subtable, second.outside _ l apart]
    | cons m more =>
      rcases eq_or_ne l m with rfl | differ
      · simp only [tableAt, along, subtableUpdate]
        exact ih (apart rfl) _
      · simp only [tableAt, along, subtable, Function.update_of_ne differ]

/-! Changes that only add. -/

def Adds (change : Table κ α → Table κ α) : Prop := ∀ t k d, t k = some d → change t k = some d

/- An open path stays open. -/
theorem openAlong {t : Table κ α} (adds : Adds other) (opened : Open p t) : Open p (along q other t) := by
  induction p generalizing q t with
  | nil => trivial
  | cons k rest ih =>
    obtain ⟨entries, here, inner⟩ := opened
    cases q with
    | nil => exact ⟨entries, adds t k _ here, inner⟩
    | cons l more =>
      rcases eq_or_ne k l with rfl | differ
      · refine ⟨_, Function.update_self .., ?_⟩
        rw [subtableOpen here]
        exact ih inner
      · exact ⟨entries, (Function.update_of_ne differ ..).trans here, inner⟩

/- What has grown from a table that spares the path still has, when the path is changed. -/
theorem grownAlong {t u : Table κ α} (adds : Adds change) (spared : Spared p t) (grown : Grown t u) :
    Grown t (along p change u) := by
  refine ⟨?_, fun path opened => openAlong adds (grown.opened path opened)⟩
  induction p generalizing t u with
  | nil =>
    intro path value found
    cases path with
    | nil => simp at found
    | cons step rest =>
      cases step with
      | index i => contradiction
      | key k =>
        have still := grown.kept _ _ found
        rw [atTableKey] at still ⊢
        obtain ⟨d, here, inner⟩ := Option.bind_eq_some_iff.mp still
        rw [along, adds u k d here]
        exact inner
  | cons k rest ih =>
    intro path value found
    cases path with
    | nil => simp at found
    | cons step more =>
      cases step with
      | index i => contradiction
      | key l =>
        rcases eq_or_ne l k with rfl | differ
        · rw [atTableKey] at found ⊢
          obtain ⟨d, old, inside⟩ := Option.bind_eq_some_iff.mp found
          rw [along, Function.update_self]
          simp only [Spared, old] at spared
          cases d with
          | scalar v => exact absurd inside (spared more value)
          | array elements => exact absurd inside (spared more value)
          | table entries =>
            obtain ⟨inner, new, _⟩ := grown.opened [l] ⟨entries, old, trivial⟩
            have under := ih spared (grownUnder grown old new)
            rw [subtableOpen new]
            exact under more value inside
        · rw [atTableKey, along, Function.update_of_ne differ, ← atTableKey]
          exact grown.kept _ _ found

/-! Nodes that are pointed to by their path. -/

def Document.modify : List (Step κ) → (Document κ α → Document κ α) → Document κ α → Document κ α
  | [], f, d => f d
  | .key k :: rest, f, .table entries => .table (Function.update entries k ((entries k).map (Document.modify rest f)))
  | .index i :: rest, f, .array elements => .array (elements.modify i (Document.modify rest f))
  | _ :: _, _, d => d

theorem modifyAppend (path more : List (Step κ)) (f : Document κ α → Document κ α) (d : Document κ α) :
    d.modify (path ++ more) f = d.modify path (fun c => c.modify more f) := by
  induction path generalizing d with
  | nil => rfl
  | cons step rest ih =>
    have inner : Document.modify (rest ++ more) f = Document.modify rest fun c => c.modify more f := funext ih
    cases step <;> cases d <;> simp only [List.cons_append, Document.modify, inner]

theorem atModify (path : List (Step κ)) (f : Document κ α → Document κ α) (d : Document κ α) :
    (d.modify path f).at path = (d.at path).map f := by
  induction path generalizing d with
  | nil => rfl
  | cons step rest ih =>
    cases step with
    | key k =>
      cases d with
      | table entries =>
        simp only [Document.modify, atTableKey, Function.update_self]
        cases entries k with
        | none => rfl
        | some c => exact ih c
      | scalar value => rfl
      | array elements => rfl
    | index i =>
      cases d with
      | array elements =>
        simp only [Document.modify, atCons, Document.child, List.getElem?_modify_eq]
        cases elements[i]? with
        | none => rfl
        | some c => exact ih c
      | scalar value => rfl
      | table entries => rfl

theorem modifyCongr {path : List (Step κ)} {d c : Document κ α} {f g : Document κ α → Document κ α}
    (found : d.at path = some c) (same : f c = g c) : d.modify path f = d.modify path g := by
  induction path generalizing d with
  | nil =>
    cases found
    exact same
  | cons step rest ih =>
    obtain ⟨inner, child, below⟩ := Option.bind_eq_some_iff.mp found
    cases step <;> cases d <;> try contradiction
    case key.table k entries =>
      have held : entries k = some inner := child
      simp only [Document.modify, held, Option.map_some, ih below]
    case index.array i elements =>
      have held : elements[i]? = some inner := child
      refine congrArg Document.array (List.ext_getElem? fun j => ?_)
      rw [List.getElem?_modify, List.getElem?_modify]
      rcases eq_or_ne i j with rfl | differ
      · simp [held, ih below]
      · simp [differ]

theorem modifyId (path : List (Step κ)) (d : Document κ α) : d.modify path id = d := by
  induction path generalizing d with
  | nil => rfl
  | cons step rest ih =>
    have inner : (Document.modify rest id : Document κ α → Document κ α) = id := funext ih
    cases step <;> cases d <;> simp [Document.modify, inner]

theorem modifySame {path : List (Step κ)} {d c : Document κ α} {f : Document κ α → Document κ α}
    (found : d.at path = some c) (same : f c = c) : d.modify path f = d := by
  have unchanged : d.modify path f = d.modify path id := modifyCongr found same
  rw [unchanged, modifyId]

theorem modifyModify (path : List (Step κ)) (f g : Document κ α → Document κ α) (d : Document κ α) :
    (d.modify path g).modify path f = d.modify path (fun c => f (g c)) := by
  induction path generalizing d with
  | nil => rfl
  | cons step rest ih =>
    have inner : Document.modify rest f ∘ Document.modify rest g = Document.modify rest fun c => f (g c) := funext ih
    cases step <;> cases d <;>
      simp [Document.modify, List.modify_modify_eq, inner]

end Mcpp.Documents
