import Mcpp.Run

/-! Loops that erase from the list they go through, in a machine that does other things in
between. What the loop does is a turn for each element the iterator comes to; a pass
takes the elements that were there when it began, each once and in their order. -/
namespace Mcpp.Iteration
open Run

variable {σ ε ι α : Type}

/- What a step does to a list, its iterator, and whether there is a turn under way. An
element is visited when its turn begins. -/
inductive Turn (Dead : α → Prop) (l : List α) (cursor : Nat) : Bool → Option α → List α → Nat → Bool → Prop where
  | quiet {turning : Bool} : Turn Dead l cursor turning none l cursor turning
  | begun {p : α} (found : l[cursor]? = some p) : Turn Dead l cursor false (some p) l cursor true
  | spared {p : α} {turning : Bool} (found : l[cursor]? = some p) (alive : ¬ Dead p) :
      Turn Dead l cursor turning (if turning then none else some p) l (cursor + 1) false
  | erased {p : α} {turning : Bool} (found : l[cursor]? = some p) (dead : Dead p) :
      Turn Dead l cursor turning (if turning then none else some p) (l.eraseIdx cursor) cursor false

structure Loop (step : ε → σ → Except ι σ) (α : Type) where
  Inv : σ → Prop
  Inside : σ → Prop
  Dead : α → σ → Prop
  list : σ → List α
  cursor : σ → Nat
  turning : σ → Bool
  visit : ε → Option α
  keeps : ∀ e s t, Inv s → step e s = .ok t → Inv t
  dies : ∀ p e s t, step e s = .ok t → Dead p s → Dead p t
  goes : ∀ e s t, Inv s → Inside s → step e s = .ok t →
    Inside t ∧ Turn (Dead · s) (list s) (cursor s) (turning s) (visit e) (list t) (cursor t) (turning t) ∨
    ¬ Inside t ∧ visit e = none ∧ turning s = false ∧ (list s).length ≤ cursor s ∧ list t = list s

variable {step : ε → σ → Except ι σ} {s t u : σ} {events : List ε} {p : α}

namespace Loop
variable (loop : Loop step α)

/- The loop is where it begins. -/
structure Entered (s : σ) : Prop where
  inside : loop.Inside s
  first : loop.cursor s = 0
  between : loop.turning s = false

/- From there to the step that leaves it. -/
structure Pass (s : σ) (events : List ε) (t : σ) : Prop where
  entered : loop.Entered s
  path : Path step s events t
  stays : Always step s (fun _ _ u => loop.Inside u) events
  left : ¬ loop.Inside t

/- What is behind the iterator and the turn under way. -/
def ahead (u : σ) : List α := (loop.list u).drop (if loop.turning u then loop.cursor u + 1 else loop.cursor u)

structure Progress (s : σ) (events : List ε) (u : σ) : Prop where
  visited : events.filterMap loop.visit ++ loop.ahead u = loop.list s
  kept : (loop.list u).Sublist (loop.list s)
  passed : ∀ p, loop.Dead p s → p ∉ (loop.list u).take (loop.cursor u)
  spared : ∀ p ∈ loop.list s, ¬ loop.Dead p u → p ∈ loop.list u

/- A pass visits what it found, erases what was dead before it and spares what is alive behind it. -/
structure Covered (s : σ) (events : List ε) (t : σ) : Prop where
  visited : events.filterMap loop.visit = loop.list s
  kept : (loop.list t).Sublist (loop.list s)
  erased : ∀ p, loop.Dead p s → p ∉ loop.list t
  spared : ∀ p ∈ loop.list s, ¬ loop.Dead p t → p ∈ loop.list t

/- Dead, and no more in the list. -/
structure Out (p : α) (u : σ) : Prop where
  inv : loop.Inv u
  dead : loop.Dead p u
  out : p ∉ loop.list u

/- Somewhere in the run there is a whole pass. -/
def Completes (s : σ) (events : List ε) : Prop :=
  ∃ before inside after u v, events = before ++ (inside ++ after) ∧ Path step s before u ∧ loop.Pass u inside v

end Loop

theorem foundDrop {l : List α} {i : Nat} (found : l[i]? = some p) : l.drop i = p :: l.drop (i + 1) := by
  obtain ⟨inside, rfl⟩ := List.getElem?_eq_some_iff.mp found
  exact List.drop_eq_getElem_cons inside

theorem foundTake {l : List α} {i : Nat} (found : l[i]? = some p) : l.take (i + 1) = l.take i ++ [p] := by
  rw [List.take_add_one, found]
  rfl

theorem erasedDrop {l : List α} {i : Nat} (found : l[i]? = some p) : (l.eraseIdx i).drop i = l.drop (i + 1) := by
  obtain ⟨inside, _⟩ := List.getElem?_eq_some_iff.mp found
  rw [List.eraseIdx_eq_take_drop_succ]
  exact List.drop_left' (List.length_take_of_le (Nat.le_of_lt inside))

theorem erasedTake {l : List α} {i : Nat} (found : l[i]? = some p) : (l.eraseIdx i).take i = l.take i := by
  obtain ⟨inside, _⟩ := List.getElem?_eq_some_iff.mp found
  rw [List.eraseIdx_eq_take_drop_succ]
  exact List.take_left' (List.length_take_of_le (Nat.le_of_lt inside))

theorem erasedKeeps {l : List α} {i : Nat} {q : α} (found : l[i]? = some p) (mem : q ∈ l) (apart : q ≠ p) :
    q ∈ l.eraseIdx i := by
  obtain ⟨inside, here⟩ := List.getElem?_eq_some_iff.mp found
  rw [List.eraseIdx_eq_take_drop_succ]
  have whole : l.take i ++ l.drop i = l := List.take_append_drop i l
  rw [← whole, foundDrop found] at mem
  simp only [List.mem_append, List.mem_cons] at mem ⊢
  rcases mem with front | same | back
  · exact .inl front
  · exact absurd same apart
  · exact .inr back

variable {loop : Loop step α} {e : ε}

theorem deadAfter (path : Path step s events u) (dead : loop.Dead p s) : loop.Dead p u :=
  pathInvariant dead (fun e _ _ dead ok => loop.dies p e _ _ ok dead) path

theorem invAfter (path : Path step s events u) (inv : loop.Inv s) : loop.Inv u :=
  pathInvariant inv (fun e _ _ inv ok => loop.keeps e _ _ inv ok) path

theorem turnProgress (progress : loop.Progress s events u) (dead : ∀ p, loop.Dead p s → loop.Dead p u) (ok : step e u = .ok t)
    (turn : Turn (loop.Dead · u) (loop.list u) (loop.cursor u) (loop.turning u) (loop.visit e) (loop.list t) (loop.cursor t)
      (loop.turning t)) : loop.Progress s (events ++ [e]) t := by
  obtain ⟨visited, kept, passed, spared⟩ := progress
  have still : ∀ p ∈ loop.list s, ¬ loop.Dead p t → p ∈ loop.list u :=
    fun p mem alive => spared p mem fun dead => alive (loop.dies p e u t ok dead)
  have visits : (events ++ [e]).filterMap loop.visit = events.filterMap loop.visit ++ (loop.visit e).toList := by
    rw [List.filterMap_append, List.filterMap_cons]
    cases loop.visit e <;> rfl
  rw [Loop.ahead] at visited
  have goal (all : events.filterMap loop.visit ++ ((loop.visit e).toList ++ loop.ahead t) = loop.list s)
      (kept : (loop.list t).Sublist (loop.list s)) (passed : ∀ p, loop.Dead p s → p ∉ (loop.list t).take (loop.cursor t))
      (spared : ∀ p ∈ loop.list s, ¬ loop.Dead p t → p ∈ loop.list t) : loop.Progress s (events ++ [e]) t :=
    ⟨by rw [visits, List.append_assoc, all], kept, passed, spared⟩
  rw [Loop.ahead] at goal
  generalize loop.visit e = visit at turn goal
  generalize loop.list t = after at turn goal
  generalize loop.cursor t = behind at turn goal
  generalize loop.turning t = turning' at turn goal
  generalize loop.turning u = turning at turn visited
  cases turn with
  | quiet => exact goal visited kept passed still
  | begun found =>
    refine goal ?_ kept passed still
    rw [if_neg (by simp), foundDrop found] at visited
    simpa using visited
  | @spared p _ found alive =>
    refine goal ?_ kept ?_ still
    · cases turning with
      | true => simpa using visited
      | false =>
        rw [if_neg (by simp), foundDrop found] at visited
        simpa using visited
    · intro q was
      rw [foundTake found, List.mem_append, List.mem_singleton, not_or]
      refine ⟨passed q was, ?_⟩
      rintro rfl
      exact alive (dead q was)
  | @erased p _ found gone =>
    refine goal ?_ ((List.eraseIdx_sublist _ _).trans kept) ?_ ?_
    · cases turning with
      | true => simpa [erasedDrop found] using visited
      | false =>
        rw [if_neg (by simp), foundDrop found] at visited
        simpa [erasedDrop found] using visited
    · intro q was
      rw [erasedTake found]
      exact passed q was
    · intro q mem alive
      refine erasedKeeps found (still q mem alive) ?_
      rintro rfl
      exact alive (loop.dies q e u t ok gone)

theorem progress (inv : loop.Inv s) (entered : loop.Entered s)
    (path : Path step s events u) (stays : Always step s (fun _ _ u => loop.Inside u) events) (still : loop.Inside u) :
    loop.Progress s events u := by
  induction path with
  | start =>
    refine ⟨?_, List.Sublist.refl _, ?_, fun p mem _ => mem⟩
    · simp [Loop.ahead, entered.first, entered.between]
    · simp [entered.first]
  | next before ok ih =>
    obtain ⟨stays, here⟩ := (alwaysSnoc before).mp stays
    rcases loop.goes _ _ _ (invAfter before inv) here ok with ⟨_, turn⟩ | ⟨left, _⟩
    · exact turnProgress (ih stays here) (fun p dead => deadAfter before dead) ok turn
    · exact absurd still left

/- The rule: a pass covers its list. -/
theorem passCovered (inv : loop.Inv s) (pass : loop.Pass s events t) : loop.Covered s events t := by
  obtain ⟨entered, path, stays, left⟩ := pass
  cases path with
  | start => exact absurd entered.inside left
  | @next events u e _ before ok =>
    obtain ⟨stays, here⟩ := (alwaysSnoc before).mp stays
    have before' := progress inv entered before stays here
    rcases loop.goes _ _ _ (invAfter before inv) here ok with ⟨still, _⟩ | ⟨_, silent, done, past, same⟩
    · exact absurd still left
    · have all : loop.ahead u = [] := by
        rw [Loop.ahead, done, if_neg (by simp)]
        exact List.drop_eq_nil_of_le past
      have taken : (loop.list u).take (loop.cursor u) = loop.list u := List.take_of_length_le past
      refine ⟨?_, same ▸ before'.kept, ?_, ?_⟩
      · have visited := before'.visited
        rw [all, List.append_nil] at visited
        rw [List.filterMap_append, visited, List.filterMap_cons, silent, List.filterMap_nil, List.append_nil]
      · intro p dead
        rw [same, ← taken]
        exact before'.passed p dead
      · intro p mem alive
        rw [same]
        exact before'.spared p mem fun dead => alive (loop.dies _ _ _ _ ok dead)

/- What is dead before a whole pass is gone behind it, if the list does not take it back. -/
theorem completedGone (stays : ∀ e s t, loop.Inv s → loop.Dead p s → p ∉ loop.list s → step e s = .ok t → p ∉ loop.list t)
    (inv : loop.Inv s) (dead : loop.Dead p s) (path : Path step s events t) (completes : loop.Completes s events) :
    p ∉ loop.list t := by
  obtain ⟨before, inside, after, u, v, rfl, first, pass⟩ := completes
  obtain ⟨u', first', path⟩ := pathSplit path
  obtain rfl := pathUnique first first'
  obtain ⟨v', second, path⟩ := pathSplit path
  obtain rfl := pathUnique pass.path second
  have covered := passCovered (invAfter first inv) pass
  have gone := covered.erased p (deadAfter first dead)
  have behind : loop.Out p v := ⟨invAfter pass.path (invAfter first inv), deadAfter pass.path (deadAfter first dead), gone⟩
  have keep : ∀ e s t, loop.Out p s → step e s = .ok t → loop.Out p t := by
    rintro e s t ⟨inv, dead, out⟩ ok
    exact ⟨loop.keeps e s t inv ok, loop.dies p e s t ok dead, stays e s t inv dead out ok⟩
  exact (pathInvariant behind keep path).out

end Mcpp.Iteration
