import Mcpp.Accounting
import Mcpp.Component
import Mcpp.Lifecycle

/-! A player in a run of the whole server. What the network thread hands it from recv and
what curl completes for it is a run of CMCPlayer alone, whatever the other threads and the
other players do in between. -/
namespace Mcpp.PlayerRuns
open Buffers Uuid PacketVisitor Packets Wire MCPlayer Run Custody Server Component

variable {env : IGlobalEnvironment} {e : Server.Event} {s t : CSystem} {events : List Server.Event}

/- The callback makes a player of the connection that Accept has just returned. -/
def makes (p : Nat) : Server.Event → CSystem → Option Session
  | .callbacks uninitialised, s => if s.callback = true ∧ s.current = p then some (.fresh uninitialised) else none
  | _, _ => none

/- The packets and replies that are for a player. -/
def takes (p : Nat) : Server.Event → CSystem → Option MCPlayer.Event
  | .process payload past uninitialised random, s =>
    if s.current = p then some (.packet payload past uninitialised random) else none
  | .complete q index body past, _ => if q = p then some (.completion index body past) else none
  | _, _ => none

/- Of the sessions and the players made, only three kinds of event change any. -/
def Frames : Server.Event → Prop
  | .callbacks _ | .process .. | .complete .. => False
  | _ => True

theorem framed (ok : Server.step env e s = .ok t) (frames : Frames e) :
    t.sessions = s.sessions ∧ t.made = s.made := by
  have change := stepChange ok
  cases e with
  | callbacks | process | complete => exact frames.elim
  | _ => cases change <;> exact ⟨rfl, rfl⟩

theorem processedSession {payload : SPacketPayload} {past : Memory} {uninitialised : CUUID} {random : Nat → Fin 62}
    (ok : Server.step env (.process payload past uninitialised random) s = .ok t) : t.made = s.made ∧
      ∃ session, MCPlayer.step env (.packet payload past uninitialised random) (s.sessions s.current) = .ok session ∧
        t.sessions = Function.update s.sessions s.current session := by
  obtain ⟨_, result, session, handled, rfl⟩ := processOk ok
  have stepped : MCPlayer.step env (.packet payload past uninitialised random) (s.sessions s.current) = .ok session := by
    simp only [MCPlayer.step, handled]
    rfl
  cases result with
  | true => exact ⟨rfl, session, stepped, rfl⟩
  | false => exact ⟨rfl, session, stepped, rfl⟩

theorem stepUnmade (p : Nat) (inv : Consistent s) (ok : Server.step env e s = .ok t) (unmade : p ∉ s.made) :
    takes p e s = none ∧ (makes p e s = none ∧ p ∉ t.made ∨
      ∃ first, makes p e s = some first ∧ p ∈ t.made ∧ t.sessions p = first) := by
  cases e with
  | callbacks uninitialised =>
    obtain ⟨_, rfl⟩ := allowOk.mp ok
    refine ⟨rfl, ?_⟩
    by_cases made : s.callback = true ∧ s.current = p
    · obtain ⟨registered, rfl⟩ := made
      refine .inr ⟨.fresh uninitialised, by simp [makes, registered], ?_, ?_⟩
      · simp [registered, CSystem.addPlayer]
      · simp [registered, CSystem.addPlayer]
    · refine .inl ⟨by simp [makes, made], ?_⟩
      split
      · rename_i registered
        have apart : p ≠ s.current := fun same => made ⟨registered, same.symm⟩
        simp [CSystem.addPlayer, unmade, apart]
      · exact unmade
  | process payload past uninitialised random =>
    obtain ⟨same, _⟩ := processedSession ok
    have here := inv.holding.1 (.inr (.inr (processOk ok).1))
    have current : s.current ∈ s.made := inv.known.2 _ (List.mem_of_getElem? here)
    have apart : s.current ≠ p := fun same => unmade (same ▸ current)
    exact ⟨by simp [takes, apart], .inl ⟨rfl, by rwa [same]⟩⟩
  | complete q index body past =>
    obtain ⟨alive, _, session, _, rfl⟩ := completeOk ok
    have known : q ∈ s.made := by
      rcases alive with player | ⟨inside, rfl⟩
      · exact inv.known.1 q player
      · exact inv.known.2 _ (List.mem_of_getElem? (inv.holding.1 inside))
    have apart : q ≠ p := fun same => unmade (same ▸ known)
    exact ⟨by simp [takes, apart], .inl ⟨rfl, unmade⟩⟩
  | _ =>
    obtain ⟨_, made⟩ := framed ok trivial
    exact ⟨rfl, .inl ⟨rfl, by rwa [made]⟩⟩

theorem stepFollows (p : Nat) (inv : Consistent s) (ok : Server.step env e s = .ok t) (made : p ∈ s.made) :
    makes p e s = none ∧ p ∈ t.made ∧ (takes p e s = none ∧ t.sessions p = s.sessions p ∨
      ∃ d, takes p e s = some d ∧ MCPlayer.step env d (s.sessions p) = .ok (t.sessions p)) := by
  cases e with
  | callbacks uninitialised =>
    obtain ⟨⟨calling, _⟩, rfl⟩ := allowOk.mp ok
    have apart : p ≠ s.current := (inv.numbered.1 p made).2 calling
    refine ⟨by simp [makes, apart.symm], ?_⟩
    split
    · exact ⟨by simp [CSystem.addPlayer, made], .inl ⟨rfl, by simp [CSystem.addPlayer, apart]⟩⟩
    · exact ⟨made, .inl ⟨rfl, rfl⟩⟩
  | process payload past uninitialised random =>
    obtain ⟨same, session, stepped, sessions⟩ := processedSession ok
    refine ⟨rfl, by rwa [same], ?_⟩
    by_cases current : s.current = p
    · subst current
      exact .inr ⟨.packet payload past uninitialised random, by simp [takes], by simpa [sessions] using stepped⟩
    · refine .inl ⟨by simp [takes, current], ?_⟩
      rw [sessions, Function.update_of_ne (Ne.symm current)]
  | complete q index body past =>
    obtain ⟨_, _, session, stepped, rfl⟩ := completeOk ok
    refine ⟨rfl, made, ?_⟩
    by_cases same : q = p
    · subst same
      exact .inr ⟨.completion index body past, by simp [takes], by simpa using stepped⟩
    · refine .inl ⟨by simp [takes, same], ?_⟩
      exact Function.update_of_ne (Ne.symm same) ..
  | _ =>
    obtain ⟨sessions, same⟩ := framed ok trivial
    exact ⟨rfl, by rwa [same], .inl ⟨rfl, by rw [sessions]⟩⟩

/- A player as a part of the server. -/
def player (env : IGlobalEnvironment) (p : Nat) : Part (Server.step env) {} (MCPlayer.step env) where
  Inv := Consistent
  There s := p ∈ s.made
  view s := s.sessions p
  makes := makes p
  takes := takes p
  start :=
    have none : Path (Server.step env) {} [] {} := .start
    ⟨consistent none, by simp⟩
  keeps _ _ _ inv ok := stepConsistent inv ok
  unmade _ _ _ inv ok unmade := stepUnmade p inv ok unmade
  follows _ _ _ inv ok made := stepFollows p inv ok made

theorem makesFresh {p : Nat} {first : Session} (made : makes p e s = some first) :
    ∃ uninitialised, first = .fresh uninitialised := by
  cases e with
  | callbacks uninitialised =>
    simp only [makes, Option.ite_none_right_eq_some, Option.some.injEq] at made
    exact ⟨uninitialised, made.2.symm⟩
  | _ => simp [makes] at made

/- Nothing is received on a closed socket, but a request that is out may still be answered. -/
theorem drained {p : Nat} {d : MCPlayer.Event} (inv : Consistent s) (ok : Server.step env e s = .ok t)
    (shut : s.closed p = true) (takes : takes p e s = some d) :
    ∃ index body past, d = .completion index body past := by
  cases e with
  | process payload past uninitialised random =>
    have isOpen := inv.holding.2 (.inr (.inl (processOk ok).1))
    have apart : s.current ≠ p := (shutApart shut isOpen).symm
    simp [PlayerRuns.takes, apart] at takes
  | complete q index body past =>
    by_cases same : q = p
    · simp only [PlayerRuns.takes, if_pos same] at takes
      exact ⟨index, body, past, (Option.some.inj takes).symm⟩
    · simp [PlayerRuns.takes, same] at takes
  | _ => simp [PlayerRuns.takes] at takes

/- What is to hold of a run: every player lives a run of its own; it takes no packet once its
socket is closed; and players of any two runs that were made alike and took the same are alike. -/
structure Isolated (env : IGlobalEnvironment) (events : List Server.Event) : Prop where
  lived : Along (Server.step env) {} (fun before s => ∀ p, (player env p).Lived before s) events
  drained : Always (Server.step env) {} (fun _ e s => ∀ t, Server.step env e s = .ok t → ∀ p d,
    s.closed p = true → takes p e s = some d → ∃ index body past, d = .completion index body past) events
  alike : ∀ other s t p q, Path (Server.step env) {} events s → Path (Server.step env) {} other t → p ∈ s.made →
    taken (Server.step env) (makes p) events {} = taken (Server.step env) (makes q) other {} →
    taken (Server.step env) (takes p) events {} = taken (Server.step env) (takes q) other {} →
    q ∈ t.made ∧ s.sessions p = t.sessions q

theorem playersIsolated (env : IGlobalEnvironment) (events : List Server.Event) : Isolated env events := by
  refine ⟨?_, ?_, ?_⟩
  · intro before after s _ path p
    exact (player env p).lived path
  · intro before e after s _ path t ok p d shut takes
    exact drained (consistent path) ok shut takes
  · intro other s t p q path path' made same took
    exact (player env p).agree (player env q) path path' made same took

/- Every player of the server, whatever the threads do, is accounted for. -/
theorem playersAccounted (env : IGlobalEnvironment) (events : List Server.Event) :
    Throughout (Server.step env) {} (fun s => ∀ p ∈ s.made, Accounting.Accounted env (s.sessions p)) events := by
  intro before after s _ path p made
  refine (player env p).lift ?_ path made
  intro e u first taken session makes own
  obtain ⟨uninitialised, rfl⟩ := makesFresh makes
  exact Accounting.accounted own

end Mcpp.PlayerRuns
