import Mathlib.Data.List.Basic

/-! Computations on a state that can fail, and what they log: events, each with the state
it found. The log changes nothing of a run, and one rule per way of composing shows what
every event of it has found. -/
namespace Mcpp.Tracing

variable {σ ε ν α β : Type}

abbrev Log (ν σ : Type) := List (ν × σ)

abbrev Traced (ν ε σ α : Type) := StateT (σ × Log ν σ) (Except ε) α

def log (event : ν) (m : StateT σ (Except ε) α) : Traced ν ε σ α := fun (s, events) => do
  let (a, t) ← m s
  .ok (a, t, events ++ [(event, s)])

/-! A run without its log. -/

def Erases (traced : Traced ν ε σ α) (m : StateT σ (Except ε) α) : Prop :=
  ∀ s events, (traced (s, events)).map (fun (a, t, _) => (a, t)) = m s

variable {traced : Traced ν ε σ α} {m : StateT σ (Except ε) α}

theorem erasesPure (a : α) : Erases (pure a : Traced ν ε σ α) (pure a) := fun _ _ => rfl

theorem erasesBind {f : α → Traced ν ε σ β} {g : α → StateT σ (Except ε) β} (first : Erases traced m)
    (second : ∀ a, Erases (f a) (g a)) : Erases (traced >>= f) (m >>= g) := by
  intro s events
  change ((traced (s, events) >>= fun (a, t) => f a t).map _ : Except ε (β × σ)) = m s >>= fun (a, t) => g a t
  rw [← first s events]
  cases traced (s, events) with
  | error e => rfl
  | ok out =>
    obtain ⟨a, t, log⟩ := out
    exact second a t log

theorem erasesLog (event : ν) (m : StateT σ (Except ε) α) : Erases (log event m) m := by
  intro s events
  change ((m s >>= fun (a, t) => .ok (a, t, events ++ [(event, s)])).map _ : Except ε (α × σ)) = m s
  cases m s <;> rfl

/-! Triples of total correctness, without a log and with one. -/

def Total (pre : σ → Prop) (m : StateT σ (Except ε) α) (post : α → σ → Prop) : Prop :=
  ∀ s, pre s → ∃ a t, m s = .ok (a, t) ∧ post a t

/- Every event finds a state as `found` says. -/
def Triple (pre : σ → Prop) (traced : Traced ν ε σ α) (found : ν → σ → Prop) (post : α → σ → Prop) : Prop :=
  ∀ s events, pre s → ∃ a t more, traced (s, events) = .ok (a, t, events ++ more) ∧
    (∀ entry ∈ more, found entry.1 entry.2) ∧ post a t

variable {pre : σ → Prop} {found : ν → σ → Prop} {post : α → σ → Prop}

theorem triplePure {a : α} (holds : ∀ s, pre s → post a s) : Triple pre (pure a : Traced ν ε σ α) found post := by
  intro s events init
  refine ⟨a, s, [], ?_, fun entry mem => absurd mem List.not_mem_nil, holds s init⟩
  rw [List.append_nil]
  rfl

theorem tripleBind {f : α → Traced ν ε σ β} {last : β → σ → Prop} (first : Triple pre traced found post)
    (second : ∀ a, Triple (post a) (f a) found last) : Triple pre (traced >>= f) found last := by
  intro s events init
  obtain ⟨a, t, more, ran, met, between⟩ := first s events init
  obtain ⟨b, u, others, runs, meets, done⟩ := second a t (events ++ more) between
  refine ⟨b, u, more ++ others, ?_, ?_, done⟩
  · change (traced (s, events) >>= fun (a, t) => f a t) = _
    rw [ran, ← List.append_assoc]
    exact runs
  · intro entry mem
    rcases List.mem_append.mp mem with mem | mem
    · exact met entry mem
    · exact meets entry mem

theorem tripleLog {event : ν} (meets : ∀ s, pre s → found event s) (total : Total pre m post) :
    Triple pre (log event m) found post := by
  intro s events init
  obtain ⟨a, t, ran, done⟩ := total s init
  refine ⟨a, t, [(event, s)], ?_, ?_, done⟩
  · change (m s >>= fun (a, t) => .ok (a, t, events ++ [(event, s)])) = _
    rw [ran]
    rfl
  · intro entry mem
    rw [List.mem_singleton.mp mem]
    exact meets s init

/- What is known of no state stands before it. -/
theorem tripleKnown {known : Prop} (triple : known → Triple pre traced found post) :
    Triple (fun s => pre s ∧ known) traced found post := by
  intro s events init
  exact triple init.2 s events init.1

/- The run itself, the same with its log, and what the log holds. -/
theorem tracedRun {s : σ} (erases : Erases traced m) (triple : Triple pre traced found post) (init : pre s) :
    ∃ a t events, m s = .ok (a, t) ∧ traced (s, []) = .ok (a, t, events) ∧
      (∀ entry ∈ events, found entry.1 entry.2) ∧ post a t := by
  obtain ⟨a, t, events, ran, met, done⟩ := triple s [] init
  refine ⟨a, t, events, ?_, ran, met, done⟩
  rw [← erases s [], ran]
  rfl

end Mcpp.Tracing
