import Mcpp.Server

/-! The life of a player over the three lists. The sweep and NetworkTick erase what they
find closed, each under its own lock; a pointer in m_packetHandlers expires only with an
entry of m_players, and only the network thread closes a client's socket. -/
namespace Mcpp.Lifecycle
open MCPlayer (IGlobalEnvironment)
open Run Server Custody

variable {env : IGlobalEnvironment} {e : Event} {s t : CSystem} {events : List Event}

/- One entry in each list, with a player behind the pointer, and one connection between ticks. -/
def Kept (s : CSystem) : Prop := ∀ p ∈ s.made, s.closed p = false →
  s.players.count p = 1 ∧ s.handlers.count p = 1 ∧ Alive s p ∧ (s.net = .idle → s.connections.count p = 1)

theorem keptOf (inv : Consistent s) : Kept s := by
  intro p mem isOpen
  obtain ⟨players, handlers, connections⟩ := inv.listed p mem isOpen
  refine ⟨players, handlers, .inl (List.count_pos_iff.mp (by omega)), ?_⟩
  intro idle
  simpa [idle] using connections

/- An entry goes from a list only when its socket has been closed. -/
def Removes (s t : CSystem) (p : Nat) : Prop :=
  t.players.count p < s.players.count p ∨ t.handlers.count p < s.handlers.count p ∨
    t.connections.count p < s.connections.count p

theorem erasedFound {l : List Nat} {i p q : Nat} (found : l[i]? = some p)
    (less : (l.eraseIdx i).count q < l.count q) : p = q := by
  by_contra apart
  have erased := countKept found apart
  omega

theorem changeRemoves (inv : Consistent s) (change : Change env s e t) {p : Nat} (removes : Removes s t p) :
    s.closed p = true := by
  cases change with
  | swept found shut =>
    rcases removes with less | less | less
    · rw [← erasedFound found less]
      exact shut
    · exact absurd less (Nat.lt_irrefl _)
    · exact absurd less (Nat.lt_irrefl _)
  | expired handlers found gone =>
    rcases removes with less | less | less
    · exact absurd less (Nat.lt_irrefl _)
    · obtain rfl := erasedFound found less
      by_contra still
      have made := inv.known.2 _ (List.mem_of_getElem? found)
      have once := (inv.listed _ made (by simpa using still)).1
      exact gone (List.count_pos_iff.mp (by omega))
    · exact absurd less (Nat.lt_irrefl _)
  | dead locked shut =>
    rcases removes with less | less | less
    · exact absurd less (Nat.lt_irrefl _)
    · rw [← erasedFound (inv.holding.1 (.inl locked)) less]
      exact shut
    · exact absurd less (Nat.lt_irrefl _)
  | dropped connections found shut =>
    rcases removes with less | less | less
    · exact absurd less (Nat.lt_irrefl _)
    · exact absurd less (Nat.lt_irrefl _)
    · rw [← erasedFound found less]
      exact shut
  | adopted uninitialised calling registered =>
    simp only [Removes, CSystem.addPlayer, countAdded] at removes
    omega
  | pushed pushing =>
    simp only [Removes, countAdded] at removes
    omega
  | _ =>
    simp only [Removes] at removes
    omega

theorem changeCloses (change : Change env s e t) {p : Nat} (shut : s.closed p = true) : t.closed p = true := by
  cases change with
  | stopped | rejected =>
    rcases eq_or_ne p s.current with rfl | apart
    · exact Function.update_self ..
    · exact (Function.update_of_ne apart ..).trans shut
  | _ => exact shut

/- What is to hold of a run. -/
structure Tracked (env : IGlobalEnvironment) (events : List Event) : Prop where
  kept : Throughout (step env) {} Kept events
  removed : Always (step env) {} (fun _ e s => ∀ t, step env e s = .ok t → ∀ p, Removes s t p → s.closed p = true) events
  closed : Always (step env) {} (fun _ e s => ∀ t, step env e s = .ok t →
    ∀ p, s.closed p = true → t.closed p = true) events
  entered : Throughout (step env) {} (fun s => s.net = .receiving ∨ s.net = .sending → s.closed s.current = false) events

theorem playersTracked (env : IGlobalEnvironment) (events : List Event) : Tracked env events := by
  refine ⟨?_, ?_, ?_, ?_⟩
  · intro before after s _ path
    exact keptOf (consistent path)
  · intro before e after s _ path t ok p removes
    exact changeRemoves (consistent path) (stepChange ok) removes
  · intro before e after s _ path t ok p shut
    exact changeCloses (stepChange ok) shut
  · intro before after s _ path inside
    refine (consistent path).holding.2 ?_
    rcases inside with receiving | sending
    · exact .inl receiving
    · exact .inr (.inr sending)

end Mcpp.Lifecycle
