import Mcpp.Run

/-! Runs of a machine seen from one of its parts. A part takes some of the events, each as
an event of a machine of its own, lets the others go by, and is made by one of them. -/
namespace Mcpp.Component
open Run

variable {ε δ σ τ ι κ : Type}

/- What is picked from the events of a run, each in the state it met. -/
def taken (step : ε → σ → Except ι σ) (pick : ε → σ → Option δ) : List ε → σ → List δ
  | [], _ => []
  | e :: rest, s =>
    (pick e s).toList ++
      match step e s with
      | .error _ => []
      | .ok t => taken step pick rest t

variable {step : ε → σ → Except ι σ} {small : δ → τ → Except κ τ} {init s t : σ} {events : List ε} {e : ε}

theorem takenAppend {pick : ε → σ → Option δ} {before : List ε} (path : Path step init before s) (after : List ε) :
    taken step pick (before ++ after) init = taken step pick before init ++ taken step pick after s := by
  induction before generalizing init with
  | nil =>
    obtain rfl := pathUnique path .start
    rfl
  | cons e rest ih =>
    obtain ⟨u, ok, path⟩ := pathCons path
    simp only [List.cons_append, taken, ok, ih path, List.append_assoc]

theorem takenSnoc {pick : ε → σ → Option δ} (path : Path step init events s) (ok : step e s = .ok t) :
    taken step pick (events ++ [e]) init = taken step pick events init ++ (pick e s).toList := by
  simp [takenAppend path, taken, ok]

theorem takenMem {pick : ε → σ → Option δ} {d : δ} (mem : d ∈ taken step pick events s) :
    ∃ e t, pick e t = some d := by
  induction events generalizing s with
  | nil => simp [taken] at mem
  | cons e rest ih =>
    rcases List.mem_append.mp mem with here | later
    · exact ⟨e, s, Option.mem_toList.mp here⟩
    · split at later
      · simp at later
      · exact ih later

/- A part under an invariant of the whole: before it is made it takes nothing, it is made
in the state that `makes` gives, and from then on it steps on what it takes and on nothing else. -/
structure Part (step : ε → σ → Except ι σ) (init : σ) (small : δ → τ → Except κ τ) where
  Inv : σ → Prop
  There : σ → Prop
  view : σ → τ
  makes : ε → σ → Option τ
  takes : ε → σ → Option δ
  start : Inv init ∧ ¬ There init
  keeps : ∀ e s t, Inv s → step e s = .ok t → Inv t
  unmade : ∀ e s t, Inv s → step e s = .ok t → ¬ There s → takes e s = none ∧
    (makes e s = none ∧ ¬ There t ∨ ∃ first, makes e s = some first ∧ There t ∧ view t = first)
  follows : ∀ e s t, Inv s → step e s = .ok t → There s → makes e s = none ∧ There t ∧
    (takes e s = none ∧ view t = view s ∨ ∃ d, takes e s = some d ∧ small d (view s) = .ok (view t))

namespace Part

variable (part : Part step init small)

/- Where a part is after a run: not made, or behind a run of its own from the state it was made in. -/
inductive Lived (events : List ε) (s : σ) : Prop where
  | unmade (none : ¬ part.There s) (unmade : taken step part.makes events init = [])
      (untaken : taken step part.takes events init = [])
  | made (there : part.There s) (first : τ) (once : taken step part.makes events init = [first])
      (path : Path small first (taken step part.takes events init) (part.view s))

theorem stepLived (path : Path step init events s) (ok : step e s = .ok t) (lived : part.Lived events s) :
    part.Lived (events ++ [e]) t := by
  have inv : part.Inv s := pathInvariant part.start.1 part.keeps path
  cases lived with
  | unmade none unmade untaken =>
    obtain ⟨idle, kinds⟩ := part.unmade e s t inv ok none
    have quiet : taken step part.takes (events ++ [e]) init = [] := by rw [takenSnoc path ok, untaken, idle]; rfl
    rcases kinds with ⟨still, none'⟩ | ⟨first, makes, there, view⟩
    · refine .unmade none' ?_ quiet
      rw [takenSnoc path ok, unmade, still]
      rfl
    · refine .made there first ?_ ?_
      · rw [takenSnoc path ok, unmade, makes]
        rfl
      · rw [quiet, view]
        exact .start
  | made there first once path' =>
    obtain ⟨still, there', kinds⟩ := part.follows e s t inv ok there
    have once' : taken step part.makes (events ++ [e]) init = [first] := by
      rw [takenSnoc path ok, once, still]
      rfl
    refine .made there' first once' ?_
    rw [takenSnoc path ok]
    rcases kinds with ⟨idle, same⟩ | ⟨d, takes, moved⟩
    · rw [idle, same]
      simpa using path'
    · rw [takes]
      exact .next path' moved

/- The projection rule. -/
theorem lived (path : Path step init events s) : part.Lived events s := by
  induction path with
  | start => exact .unmade part.start.2 rfl rfl
  | next before ok ih => exact part.stepLived before ok ih

/- Two parts, of two machines, that were made alike and took the same are in the same state. -/
theorem agree {ε' σ' ι' : Type} {step' : ε' → σ' → Except ι' σ'} {init' s' : σ'} {events' : List ε'}
    (other : Part step' init' small) (path : Path step init events s)
    (path' : Path step' init' events' s') (there : part.There s)
    (makes : taken step part.makes events init = taken step' other.makes events' init')
    (takes : taken step part.takes events init = taken step' other.takes events' init') :
    other.There s' ∧ part.view s = other.view s' := by
  cases part.lived path with
  | unmade none => exact absurd there none
  | made _ first once left =>
    cases other.lived path' with
    | unmade _ unmade =>
      rw [once, unmade] at makes
      contradiction
    | made there' first' once' right =>
      rw [once, once'] at makes
      obtain rfl := (List.cons.inj makes).1
      rw [takes] at left
      exact ⟨there', pathUnique left right⟩

/- What holds along all runs of the part holds of it in all runs of the whole. -/
theorem lift {P : τ → Prop} (every : ∀ e u first ds v, part.makes e u = some first → Path small first ds v → P v)
    (path : Path step init events s) (there : part.There s) : P (part.view s) := by
  cases part.lived path with
  | unmade none => exact absurd there none
  | made _ first once own =>
    obtain ⟨e, u, makes⟩ := takenMem (once ▸ List.mem_singleton_self first)
    exact every e u first _ _ makes own

end Part

end Mcpp.Component
