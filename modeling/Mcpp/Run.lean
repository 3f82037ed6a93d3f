import Mathlib.Data.List.Basic

/-! Runs of a machine whose steps can fail. A failing step has no successor, so a
path covers the events that came through; every result below speaks of all of them. -/
namespace Mcpp.Run

variable {σ ε ι : Type}

inductive Path (step : ε → σ → Except ι σ) (init : σ) : List ε → σ → Prop where
  | start : Path step init [] init
  | next {events s e t} (before : Path step init events s) (ok : step e s = .ok t) :
      Path step init (events ++ [e]) t

variable {step : ε → σ → Except ι σ} {init : σ}

/- At some event of the run `P` held of the event and the state it met. -/
def Met (step : ε → σ → Except ι σ) (init : σ) (P : ε → σ → Prop) (events : List ε) : Prop :=
  ∃ before e after s, events = before ++ e :: after ∧ Path step init before s ∧ P e s

/- At every event of the run `P` held of the events before, the event and the state it met. -/
def Always (step : ε → σ → Except ι σ) (init : σ) (P : List ε → ε → σ → Prop) (events : List ε) : Prop :=
  ∀ before e after s, events = before ++ e :: after → Path step init before s → P before e s

/- At some event of the run `P` held, and `Q` held at none after it. -/
def Since (step : ε → σ → Except ι σ) (init : σ) (P Q : ε → σ → Prop) (events : List ε) : Prop :=
  ∃ before e after s, events = before ++ e :: after ∧ Path step init before s ∧ P e s ∧
    ∀ front d rest t, after = front ++ d :: rest → Path step init (before ++ e :: front) t → ¬ Q d t

/- `P` held in every state the run went through, its first and its last included. -/
def Throughout (step : ε → σ → Except ι σ) (init : σ) (P : σ → Prop) (events : List ε) : Prop :=
  ∀ before after s, events = before ++ after → Path step init before s → P s

/- The same for a `P` of the events so far and the state behind them. -/
def Along (step : ε → σ → Except ι σ) (init : σ) (P : List ε → σ → Prop) (events : List ε) : Prop :=
  ∀ before after s, events = before ++ after → Path step init before s → P before s

/- A step of a transition system: its guard and the state behind it. -/
def allow (guard : Prop) [Decidable guard] (next : σ) : Except Unit σ :=
  if guard then .ok next else .error ()

theorem allowOk {guard : Prop} [Decidable guard] {next t : σ} :
    allow guard next = .ok t ↔ guard ∧ next = t := by
  unfold allow
  split <;> simp [*]

theorem snocSplit {before after events : List ε} {d e : ε} :
    events ++ [e] = before ++ d :: after ↔
      (after = [] ∧ before = events ∧ d = e) ∨ ∃ rest, after = rest ++ [e] ∧ events = before ++ d :: rest := by
  constructor
  · intro same
    rcases List.eq_nil_or_concat after with rfl | ⟨rest, last, rfl⟩
    · have both := List.append_inj' same rfl
      exact .inl ⟨rfl, both.1.symm, (List.cons.inj both.2).1.symm⟩
    · rw [List.concat_eq_append, ← List.cons_append, ← List.append_assoc] at same
      have both := List.append_inj' same rfl
      obtain rfl := (List.cons.inj both.2).1
      exact .inr ⟨rest, List.concat_eq_append, both.1⟩
  · rintro (⟨rfl, rfl, rfl⟩ | ⟨rest, rfl, rfl⟩)
    · rfl
    · simp

theorem pathSnoc {events : List ε} {e : ε} {t : σ} (path : Path step init (events ++ [e]) t) :
    ∃ s, Path step init events s ∧ step e s = .ok t := by
  generalize whole : events ++ [e] = all at path
  cases path with
  | start => simp at whole
  | next before ok =>
    have both := List.append_inj' whole rfl
    obtain rfl := both.1
    obtain rfl := (List.cons.inj both.2).1
    exact ⟨_, before, ok⟩

theorem pathUnique {events : List ε} {s t : σ} (left : Path step init events s)
    (right : Path step init events t) : s = t := by
  induction left generalizing t with
  | start =>
    generalize none : ([] : List ε) = events at right
    cases right with
    | start => rfl
    | next before ok => simp at none
  | next before ok ih =>
    obtain ⟨s', before', ok'⟩ := pathSnoc right
    obtain rfl := ih before'
    rw [ok] at ok'
    exact Except.ok.inj ok'

/- The invariant rule. -/
theorem pathInvariant {Inv : σ → Prop} (start : Inv init)
    (keep : ∀ e s t, Inv s → step e s = .ok t → Inv t) {events : List ε} {s : σ}
    (path : Path step init events s) : Inv s := by
  induction path with
  | start => exact start
  | next before ok ih => exact keep _ _ _ ih ok

theorem sinceSnoc {P Q : ε → σ → Prop} {events : List ε} {e : ε} {s : σ} (path : Path step init events s) :
    Since step init P Q (events ++ [e]) ↔ P e s ∨ (Since step init P Q events ∧ ¬ Q e s) := by
  constructor
  · rintro ⟨before, d, after, t, split, path', held, quiet⟩
    rcases snocSplit.mp split with ⟨rfl, rfl, rfl⟩ | ⟨rest, rfl, rfl⟩
    · obtain rfl := pathUnique path path'
      exact .inl held
    · refine .inr ⟨⟨before, d, rest, t, rfl, path', held, ?_⟩, quiet rest e [] s rfl path⟩
      rintro front c last u rfl path''
      exact quiet front c (last ++ [e]) u (by simp) path''
  · rintro (held | ⟨⟨before, d, rest, t, rfl, path', held, quiet⟩, last⟩)
    · exact ⟨events, e, [], s, rfl, path, held, by simp⟩
    · refine ⟨before, d, rest ++ [e], t, by simp, path', held, ?_⟩
      intro front c tail u split path''
      rcases snocSplit.mp split with ⟨rfl, rfl, rfl⟩ | ⟨more, rfl, rfl⟩
      · obtain rfl := pathUnique path path''
        exact last
      · exact quiet front c more u rfl path''

theorem metSince {P : ε → σ → Prop} {events : List ε} :
    Met step init P events ↔ Since step init P (fun _ _ => False) events := by
  simp [Met, Since]

theorem alwaysStart {P : List ε → ε → σ → Prop} : Always step init P [] := by
  intro before e after s none
  simp at none

theorem alwaysSnoc {P : List ε → ε → σ → Prop} {events : List ε} {e : ε} {s : σ}
    (path : Path step init events s) :
    Always step init P (events ++ [e]) ↔ Always step init P events ∧ P events e s := by
  constructor
  · intro always
    refine ⟨?_, always events e [] s rfl path⟩
    rintro before d rest t rfl path'
    exact always before d (rest ++ [e]) t (by simp) path'
  · rintro ⟨always, last⟩ before d after t split path'
    rcases snocSplit.mp split with ⟨rfl, rfl, rfl⟩ | ⟨rest, rfl, rfl⟩
    · obtain rfl := pathUnique path path'
      exact last
    · exact always before d rest t rfl path'

/- Along a path every event had a successor, so that much may be used of it. -/
theorem alwaysCongr {P Q : List ε → ε → σ → Prop}
    (same : ∀ before e s t, Path step init before s → step e s = .ok t → (P before e s ↔ Q before e s))
    {events : List ε} {last : σ} (path : Path step init events last) :
    Always step init P events ↔ Always step init Q events := by
  induction path with
  | start => exact iff_of_true alwaysStart alwaysStart
  | next before ok ih => rw [alwaysSnoc before, alwaysSnoc before, ih, same _ _ _ _ before ok]

theorem alongStart {P : List ε → σ → Prop} : Along step init P [] ↔ P [] init := by
  constructor
  · intro all
    exact all [] [] init rfl .start
  · intro first before after s none path
    obtain ⟨rfl, rfl⟩ := List.nil_eq_append_iff.mp none
    obtain rfl := pathUnique path .start
    exact first

theorem alongSnoc {P : List ε → σ → Prop} {events : List ε} {e : ε} {s t : σ} (path : Path step init events s)
    (ok : step e s = .ok t) :
    Along step init P (events ++ [e]) ↔ Along step init P events ∧ P (events ++ [e]) t := by
  have whole : Path step init (events ++ [e]) t := .next path ok
  constructor
  · intro all
    refine ⟨?_, all _ [] t (by simp) whole⟩
    intro before after u split path'
    exact all before (after ++ [e]) u (by simp [split]) path'
  · intro both before after u split path'
    obtain ⟨all, last⟩ := both
    rcases List.eq_nil_or_concat after with rfl | ⟨front, d, rfl⟩
    · rw [List.append_nil] at split
      subst split
      obtain rfl := pathUnique path' whole
      exact last
    · rw [List.concat_eq_append, ← List.append_assoc] at split
      exact all before front u (List.append_inj' split rfl).1 path'

theorem throughoutSnoc {P : σ → Prop} {events : List ε} {e : ε} {s t : σ} (path : Path step init events s)
    (ok : step e s = .ok t) :
    Throughout step init P (events ++ [e]) ↔ Throughout step init P events ∧ P t :=
  alongSnoc (P := fun _ => P) path ok

theorem pathSplit {before after : List ε} {t : σ} (path : Path step init (before ++ after) t) :
    ∃ s, Path step init before s ∧ Path step s after t := by
  generalize whole : before ++ after = events at path
  induction path generalizing after with
  | start =>
    obtain ⟨rfl, rfl⟩ := List.append_eq_nil_iff.mp whole
    exact ⟨init, .start, .start⟩
  | @next events u e t path ok ih =>
    rcases List.eq_nil_or_concat after with rfl | ⟨front, last, rfl⟩
    · rw [List.append_nil] at whole
      subst whole
      exact ⟨t, .next path ok, .start⟩
    · rw [List.concat_eq_append] at whole ⊢
      rw [← List.append_assoc] at whole
      obtain ⟨rfl, same⟩ := List.append_inj' whole rfl
      obtain rfl := (List.cons.inj same).1
      obtain ⟨s, first, second⟩ := ih rfl
      exact ⟨s, first, .next second ok⟩

theorem pathAppend {before after : List ε} {s t : σ} (first : Path step init before s) (second : Path step s after t) :
    Path step init (before ++ after) t := by
  induction second with
  | start => simpa using first
  | next path ok ih =>
    rw [← List.append_assoc]
    exact .next ih ok

theorem pathCons {e : ε} {rest : List ε} {s t : σ} (path : Path step s (e :: rest) t) :
    ∃ u, step e s = .ok u ∧ Path step u rest t := by
  have split : Path step s ([e] ++ rest) t := path
  obtain ⟨u, first, second⟩ := pathSplit split
  have one : Path step s ([] ++ [e]) u := first
  obtain ⟨v, none, ok⟩ := pathSnoc one
  obtain rfl := pathUnique none .start
  exact ⟨u, ok, second⟩

theorem alwaysCons {P : ε → σ → Prop} {e : ε} {rest : List ε} {s u : σ} (ok : step e s = .ok u) :
    Always step s (fun _ => P) (e :: rest) ↔ P e s ∧ Always step u (fun _ => P) rest := by
  have one : Path step s ([] ++ [e]) u := .next .start ok
  constructor
  · intro always
    refine ⟨always [] e rest s rfl .start, ?_⟩
    intro before d after v split path
    exact always (e :: before) d after v (congrArg (List.cons e) split) (pathAppend one path)
  · intro ⟨head, tail⟩ before d after v split path
    cases before with
    | nil =>
      cases split
      obtain rfl := pathUnique path .start
      exact head
    | cons first before =>
      cases split
      obtain ⟨u', ok', path⟩ := pathCons path
      obtain rfl := Except.ok.inj (ok.symm.trans ok')
      exact tail before d after v rfl path

def run (step : ε → σ → Except ι σ) : List ε → σ → Except ι σ
  | [], s => .ok s
  | e :: rest, s => match step e s with
    | .error fault => .error fault
    | .ok t => run step rest t

theorem pathRun {events : List ε} {s t : σ} (ok : run step events s = .ok t) : Path step s events t := by
  induction events generalizing s with
  | nil =>
    cases ok
    exact .start
  | cons e rest ih =>
    unfold run at ok
    cases first : step e s with
    | error fault =>
      rw [first] at ok
      contradiction
    | ok u =>
      rw [first] at ok
      have one : Path step s ([] ++ [e]) u := .next .start first
      exact pathAppend one (ih ok)

/- Whether `P` holds at every event of a run, computed along it. -/
def checks (step : ε → σ → Except ι σ) (P : ε → σ → Bool) : List ε → σ → Bool
  | [], _ => true
  | e :: rest, s => P e s && match step e s with
    | .error _ => true
    | .ok t => checks step P rest t

theorem alwaysChecks {P : ε → σ → Bool} {Q : ε → σ → Prop} (holds : ∀ e s, P e s = true → Q e s) {events : List ε} {s : σ}
    (checked : checks step P events s = true) : Always step s (fun _ => Q) events := by
  induction events generalizing s with
  | nil => exact alwaysStart
  | cons e rest ih =>
    obtain ⟨head, tail⟩ := Bool.and_eq_true_iff.mp checked
    intro before d after t split path
    cases before with
    | nil =>
      cases split
      obtain rfl := pathUnique path .start
      exact holds e _ head
    | cons first before =>
      cases split
      obtain ⟨u, ok, path⟩ := pathCons path
      rw [ok] at tail
      exact ih tail before d after t rfl path

/- The rank rule: events that spend the rank, where `P` holds, are no more than there is of it. -/
theorem rankBound {P : σ → Prop} {rank : σ → Nat} {spends : ε → Bool}
    (drops : ∀ e s t, P s → step e s = .ok t → rank t + (if spends e then 1 else 0) ≤ rank s) {events : List ε} {last : σ}
    (path : Path step init events last) (throughout : Throughout step init P events) :
    (events.filter spends).length + rank last ≤ rank init := by
  induction path with
  | start => simp
  | @next events s e t before ok ih =>
    obtain ⟨held, _⟩ := (throughoutSnoc before ok).mp throughout
    have first := ih held
    have last := drops e s t (held events [] s (by simp) before) ok
    rw [List.filter_append, List.length_append]
    cases spent : spends e with
    | true =>
      simp only [spent, ite_true, List.filter_cons_of_pos, List.filter_nil, List.length_singleton] at last ⊢
      omega
    | false =>
      simp only [spent, Bool.false_eq_true, ite_false, List.filter_cons, List.filter_nil, List.length_nil] at last ⊢
      omega

/- What a step keeps exactly under `C` has held all along exactly when every step met `C`. -/
theorem alongExactly {P : List ε → σ → Prop} {C : List ε → ε → σ → Prop} (start : P [] init)
    (keeps : ∀ before e s t, Path step init before s → step e s = .ok t → P before s →
      (P (before ++ [e]) t ↔ C before e s))
    {events : List ε} {last : σ} (path : Path step init events last) :
    Along step init P events ↔ Always step init C events := by
  induction path with
  | start =>
    exact iff_of_true (alongStart.mpr start) alwaysStart
  | @next events s e t before ok ih =>
    rw [alongSnoc before ok, alwaysSnoc before, ← ih]
    refine and_congr_right ?_
    intro all
    exact keeps _ _ _ _ before ok (all events [] s (by simp) before)

theorem throughoutExactly {P : σ → Prop} {C : List ε → ε → σ → Prop} (start : P init)
    (keeps : ∀ before e s t, Path step init before s → step e s = .ok t → P s → (P t ↔ C before e s))
    {events : List ε} {last : σ} (path : Path step init events last) :
    Throughout step init P events ↔ Always step init C events :=
  alongExactly (P := fun _ => P) start keeps path

/- The flag rule: what a step sets exactly when `P` holds and clears, unless it sets it,
exactly when `Q` does, is set exactly when `P` has held since the last `Q`. -/
theorem flagSince {F : σ → Prop} {P Q : ε → σ → Prop} (clear : ¬ F init)
    (sets : ∀ e s t, step e s = .ok t → (F t ↔ P e s ∨ (F s ∧ ¬ Q e s))) {events : List ε} {s : σ}
    (path : Path step init events s) : F s ↔ Since step init P Q events := by
  induction path with
  | start =>
    refine iff_of_false clear ?_
    rintro ⟨before, e, after, s, none, _⟩
    simp at none
  | next before ok ih => rw [sets _ _ _ ok, ih, sinceSnoc before]

theorem flagMet {F : σ → Prop} {P : ε → σ → Prop} (clear : ¬ F init)
    (sets : ∀ e s t, step e s = .ok t → (F t ↔ F s ∨ P e s)) {events : List ε} {s : σ}
    (path : Path step init events s) : F s ↔ Met step init P events := by
  rw [metSince]
  refine flagSince clear ?_ path
  intro e s t ok
  rw [sets e s t ok, not_false_eq_true, and_true, or_comm]

/- What the events of a run weigh together. -/
def total (step : ε → σ → Except ι σ) (weigh : ε → σ → Nat) : List ε → σ → Nat
  | [], _ => 0
  | e :: rest, s => weigh e s + match step e s with
    | .error _ => 0
    | .ok t => total step weigh rest t

theorem totalSnoc {weigh : ε → σ → Nat} {events : List ε} {e : ε} {s : σ} (path : Path step init events s) :
    total step weigh (events ++ [e]) init = total step weigh events init + weigh e s := by
  induction events generalizing init with
  | nil =>
    obtain rfl := pathUnique path .start
    change weigh e s + _ = 0 + weigh e s
    cases step e s <;> simp [total]
  | cons first rest ih =>
    obtain ⟨u, ok, path⟩ := pathCons path
    simp only [List.cons_append, total, ok]
    rw [ih path, Nat.add_assoc]

end Mcpp.Run
