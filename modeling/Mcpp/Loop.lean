import Mathlib.Logic.Basic

/-! `while (true)` loops over an explicit state. A body either goes round again
or leaves with a result. `run` spends one unit of fuel a turn and is executable;
`Ends` is the meaning of the loop and knows no fuel. A loop that never leaves has
no result, so divergence is a statement about `Ends`, never a missing case. -/
namespace Mcpp.Loop

inductive Next (σ ρ : Type) where
  | again (state : σ)
  | leave (result : ρ)
  deriving DecidableEq, Repr

variable {σ ρ : Type} {body : σ → Next σ ρ}

def run (body : σ → Next σ ρ) : Nat → σ → Option ρ
  | 0, _ => none
  | fuel+1, s => match body s with
    | .again t => run body fuel t
    | .leave r => some r

inductive Ends (body : σ → Next σ ρ) : σ → ρ → Prop where
  | leave {s r} (last : body s = .leave r) : Ends body s r
  | again {s t r} (turn : body s = .again t) (rest : Ends body t r) : Ends body s r

def Diverges (body : σ → Next σ ρ) (s : σ) : Prop := ∀ r, ¬ Ends body s r

theorem runLeave {s r} (last : body s = .leave r) (fuel : Nat) : run body (fuel+1) s = some r := by
  simp only [run, last]

theorem runAgain {s t} (turn : body s = .again t) (fuel : Nat) :
    run body (fuel+1) s = run body fuel t := by
  simp only [run, turn]

theorem runEnds {fuel s r} (ok : run body fuel s = some r) : Ends body s r := by
  induction fuel generalizing s with
  | zero => simp [run] at ok
  | succ fuel ih =>
    cases h : body s with
    | again t =>
      rw [runAgain h] at ok
      exact .again h (ih ok)
    | leave value =>
      rw [runLeave h] at ok
      cases Option.some.inj ok
      exact .leave h

theorem endsUnique {s a b} (left : Ends body s a) (right : Ends body s b) : a = b := by
  induction left with
  | leave last =>
    cases right with
    | leave other => exact Next.leave.inj (last.symm.trans other)
    | again turn rest => rw [last] at turn; contradiction
  | again turn rest ih =>
    cases right with
    | leave other => rw [turn] at other; contradiction
    | again other more =>
      cases Next.again.inj (turn.symm.trans other)
      exact ih more

/- The invariant rule: the turn that leaves starts in a state the invariant still covers. -/
theorem endsInvariant {Inv : σ → Prop} {s r} (keep : ∀ s t, Inv s → body s = .again t → Inv t)
    (ends : Ends body s r) (start : Inv s) : ∃ last, Inv last ∧ body last = .leave r := by
  induction ends with
  | leave last => exact ⟨_, start, last⟩
  | again turn rest ih => exact ih (keep _ _ start turn)

/- The divergence rule: a set of states that no turn leaves. -/
theorem divergesOf {Inv : σ → Prop} (trapped : ∀ s, Inv s → ∃ t, body s = .again t ∧ Inv t)
    {s} (start : Inv s) : Diverges body s := by
  intro r ends
  obtain ⟨last, inv, left⟩ := endsInvariant (fun s t inv turn => by
    obtain ⟨t', turn', inv'⟩ := trapped s inv
    cases Next.again.inj (turn.symm.trans turn')
    exact inv') ends start
  obtain ⟨t, turn, _⟩ := trapped last inv
  rw [left] at turn
  contradiction

theorem divergesRun {s} (never : Diverges body s) (fuel : Nat) : run body fuel s = none := by
  cases h : run body fuel s with
  | none => rfl
  | some r => exact absurd (runEnds h) (never r)

end Mcpp.Loop
