import Mcpp.MCPlayer

/-! The states of a player: which way a packet moves m_state, what it leaves alone, and
what that says of all the states of a run. -/
namespace Mcpp.PlayerState
open Buffers Uuid PacketVisitor Packets Wire ClientConnection MCPlayer

variable {env : IGlobalEnvironment} {s t : Session} {payload : SPacketPayload} {past : Memory}
  {uninitialised : CUUID} {random : Nat → Fin 62} {accepted : Bool}

inductive Moves : EClientState → EClientState → Prop where
  | stays (state) : Moves state state
  | status : Moves .handshake .status
  | login : Moves .handshake .login
  | configuration : Moves .login .configuration

/- Identity, token, key and encryption flag. -/
structure Untouched (s t : Session) : Prop where
  username : t.player.username = s.player.username
  uuid : t.player.uuid = s.player.uuid
  verifyToken : t.player.verifyToken = s.player.verifyToken
  encryptionEnabled : t.connection.encryptionEnabled = s.connection.encryptionEnabled
  secret : t.connection.secret = s.connection.secret

theorem effectMoves {e : Event} (effect : Effect env e s t) : Moves s.player.state t.player.state := by
  cases effect with
  | entered greeting next =>
    rw [greeting]
    rcases next with rfl | rfl
    · exact .status
    · exact .login
  | acknowledged login id =>
    rw [login]
    exact .configuration
  | idle | answered | requested | offline | mismatched | accepted | absent | joined => exact .stays _

/- Only a player in eCS_Handshake or eCS_Login is changed. -/
theorem effectUntouched {e : Event} (effect : Effect env e s t)
    (settled : s.player.state = .status ∨ s.player.state = .configuration) : Untouched s t := by
  cases effect with
  | idle | entered | answered | mismatched | acknowledged | absent | joined => exact ⟨rfl, rfl, rfl, rfl, rfl⟩
  | requested start login => simp [login] at settled
  | offline start login => simp [login] at settled
  | accepted login => simp [login] at settled

/-! A packet that is rejected. -/

theorem handshakeRejects (ok : handleHandshake payload past s = .ok (false, t)) : t = s := by
  unfold handleHandshake at ok
  obtain ⟨reader, _, ok⟩ := okBind ok
  obtain ⟨⟨handshake, r⟩, _, ok⟩ := okBind ok
  simp only at ok
  split at ok
  · cases ok
    rfl
  · split at ok
    · cases ok
    · split at ok <;> cases ok
      rfl

theorem loginStartAccepts (ok : handleLoginStart env payload past uninitialised random s = .ok (accepted, t)) :
    accepted = true := by
  unfold handleLoginStart at ok
  obtain ⟨reader, _, ok⟩ := okBind ok
  obtain ⟨⟨start, r⟩, _, ok⟩ := okBind ok
  simp only at ok
  split at ok
  · obtain ⟨next, _, last⟩ := okBind ok
    cases last
    rfl
  · obtain ⟨sent, _, last⟩ := okBind ok
    cases last
    rfl

theorem encryptionResponseRejects (ok : handleEncryptionResponse env payload past s = .ok (false, t)) : t = s := by
  unfold handleEncryptionResponse at ok
  obtain ⟨reader, _, ok⟩ := okBind ok
  obtain ⟨⟨response, r⟩, _, ok⟩ := okBind ok
  simp only at ok
  split at ok <;> cases ok
  rfl

theorem loginRejects (ok : handleLogin env payload past uninitialised random s = .ok (false, t)) : t = s := by
  unfold handleLogin at ok
  split at ok
  · exact nomatch loginStartAccepts ok
  · split at ok
    · exact encryptionResponseRejects ok
    · split at ok <;> cases ok

theorem statusAccepts (ok : handleStatus env payload s = .ok (accepted, t)) : accepted = true := by
  unfold handleStatus at ok
  split at ok
  · obtain ⟨sent, _, last⟩ := okBind ok
    cases last
    rfl
  · split at ok <;> cases ok <;> rfl

theorem packetRejects (ok : processPacket env payload past uninitialised random s = .ok (false, t)) : t = s := by
  unfold processPacket at ok
  split at ok
  · exact handshakeRejects ok
  · exact loginRejects ok
  · exact nomatch statusAccepts ok
  · cases ok
  · cases ok

theorem packetEffect (ok : processPacket env payload past uninitialised random s = .ok (accepted, t)) :
    Effect env (.packet payload past uninitialised random) s t := by
  refine stepEffect ?_
  simp only [step, ok]
  rfl

/-! The states of a run. -/

/- What m_state is before each event and behind the last; a failing step ends the server. -/
def states (env : IGlobalEnvironment) : List Event → Session → List EClientState
  | [], s => [s.player.state]
  | e :: rest, s =>
    s.player.state ::
      match step env e s with
      | .ok t => states env rest t
      | .error _ => []

def changes : List EClientState → Nat
  | before :: after :: rest => (if before = after then 0 else 1) + changes (after :: rest)
  | _ => 0

def rank : EClientState → Nat
  | .handshake => 0
  | .status | .login => 1
  | .configuration | .play => 2

/- A state can be left only for one of a higher rank, and none leads to eCS_Play. -/
def Leads (before after : EClientState) : Prop :=
  before = after ∨ rank before < rank after ∧ after ≠ .play

theorem movesLeads {before after : EClientState} (moves : Moves before after) : Leads before after := by
  cases moves with
  | stays => exact .inl rfl
  | status | login | configuration => exact .inr ⟨by decide, nofun⟩

theorem leadsTrans {first second third : EClientState} (one : Leads first second) (two : Leads second third) :
    Leads first third := by
  rcases one with rfl | ⟨up, _⟩
  · exact two
  · rcases two with rfl | ⟨further, unplayed⟩
    · exact .inr ⟨up, by assumption⟩
    · exact .inr ⟨up.trans further, unplayed⟩

theorem statesLead {events : List Event} : ∀ state ∈ states env events s, Leads s.player.state state := by
  induction events generalizing s with
  | nil =>
    intro state mem
    exact .inl (List.mem_singleton.mp mem).symm
  | cons e rest ih =>
    intro state mem
    cases List.mem_cons.mp mem with
    | inl here => exact .inl here.symm
    | inr later =>
      cases ok : step env e s with
      | error fault => simp [ok] at later
      | ok t =>
        rw [ok] at later
        exact leadsTrans (movesLeads (effectMoves (stepEffect ok))) (ih state later)

theorem statesPairwise (events : List Event) : (states env events s).Pairwise Leads := by
  induction events generalizing s with
  | nil => exact List.pairwise_singleton ..
  | cons e rest ih =>
    unfold states
    cases ok : step env e s with
    | error fault => exact List.pairwise_singleton ..
    | ok t =>
      refine List.pairwise_cons.mpr ⟨?_, ih⟩
      intro state mem
      exact leadsTrans (movesLeads (effectMoves (stepEffect ok))) (statesLead state mem)

theorem statesHead (events : List Event) : ∃ more, states env events s = s.player.state :: more := by
  cases events with
  | nil => exact ⟨[], rfl⟩
  | cons e rest => exact ⟨_, rfl⟩

/- Each change goes up a rank. -/
theorem changesBound (events : List Event) : changes (states env events s) + rank s.player.state ≤ 2 := by
  induction events generalizing s with
  | nil =>
    unfold states changes
    cases s.player.state <;> decide
  | cons e rest ih =>
    unfold states
    cases ok : step env e s with
    | error fault =>
      unfold changes
      cases s.player.state <;> decide
    | ok t =>
      have tail := ih (s := t)
      obtain ⟨more, head⟩ : ∃ more, states env rest t = t.player.state :: more := statesHead rest
      simp only [head, changes] at tail ⊢
      rcases movesLeads (effectMoves (stepEffect ok)) with same | ⟨up, _⟩
      · rw [if_pos same, same]
        omega
      · have differ : s.player.state ≠ t.player.state := by
          intro same
          rw [same] at up
          exact Nat.lt_irrefl _ up
        rw [if_neg differ]
        omega

theorem neverReturns {events : List Event} {before between : EClientState}
    (sub : [before, between, before].Sublist (states env events s)) : between = before := by
  have sorted := (statesPairwise events).sublist sub
  rw [List.pairwise_cons, List.pairwise_cons] at sorted
  have there := sorted.1 between List.mem_cons_self
  have back := sorted.2.1 before List.mem_cons_self
  rcases there with same | ⟨up, _⟩
  · exact same.symm
  · rcases back with same | ⟨further, _⟩
    · exact same
    · omega

theorem neverPlays {events : List Event} (unplayed : s.player.state ≠ .play) : .play ∉ states env events s := by
  intro mem
  rcases statesLead .play mem with same | ⟨_, other⟩
  · exact unplayed same
  · exact other rfl

theorem stateMachine (env : IGlobalEnvironment) :
    (∀ payload past uninitialised random s accepted t,
      processPacket env payload past uninitialised random s = .ok (accepted, t) →
        Moves s.player.state t.player.state ∧ (accepted = false → t = s) ∧
        (s.player.state = .status ∨ s.player.state = .configuration → Untouched s t)) ∧
    ∀ events s, changes (states env events s) ≤ 2 ∧
      (∀ before between, [before, between, before].Sublist (states env events s) → between = before) ∧
      (s.player.state ≠ .play → .play ∉ states env events s) := by
  refine ⟨?_, ?_⟩
  · intro payload past uninitialised random s accepted t ok
    have effect := packetEffect ok
    refine ⟨effectMoves effect, ?_, effectUntouched effect⟩
    intro rejected
    subst rejected
    exact packetRejects ok
  · intro events s
    have bound : changes (states env events s) + rank s.player.state ≤ 2 := changesBound events
    exact ⟨by omega, fun before between => neverReturns, neverPlays⟩

/- A login, up to its acknowledgement. -/
theorem stateMachineLogin :
    states (askingServer id) [greeting, steveNamed, steadyAnswered, arrival [1, 3] 3] (.fresh (.ofWords 0 0)) =
      [.handshake, .login, .login, .login, .configuration] ∧
    changes [.handshake, .login, .login, .login, .configuration] ≤ 2 := by
  have run : states (askingServer id) [greeting, steveNamed, steadyAnswered, arrival [1, 3] 3] (.fresh (.ofWords 0 0)) =
      [.handshake, .login, .login, .login, .configuration] := by decide +kernel
  exact ⟨run, run ▸ ((stateMachine (askingServer id)).2 _ _).1⟩

end Mcpp.PlayerState
