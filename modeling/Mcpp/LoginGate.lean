import Mcpp.MCPlayer
import Mcpp.Run

/-! When a player may leave eCS_Login. The branch that takes the acknowledgement
looks at nothing but the packet id, so what a run lets through is decided by the
order in which its events arrive. -/
namespace Mcpp.LoginGate
open Buffers Uuid PacketVisitor Packets ClientConnection MCPlayer Run

variable {env : IGlobalEnvironment} {e : Event} {s t : Session}

def Call.isLoginSuccess : Call → Bool
  | .queuePacket (.loginSuccess _) _ => true
  | _ => false

def HasLoginSuccess (s : Session) : Prop := s.calls.any Call.isLoginSuccess

/- A login acknowledgement. -/
def Acknowledges : Event → Session → Prop
  | .packet payload .., s => s.player.state = .login ∧ payload.packetId = 3
  | .completion .., _ => False

/- The end of a login: the reply to a hasJoined request, or offline a login start. -/
def Finishes (env : IGlobalEnvironment) : Event → Session → Prop
  | .packet payload .., s => s.player.state = .login ∧ payload.packetId = 0 ∧ env.isOnline = false
  | .completion index .., s => index < s.requests.length

theorem hasQueued (s : Session) (origin : Outgoing) (sent : SPacketPayload) :
    HasLoginSuccess (s.queue origin sent) ↔
      HasLoginSuccess s ∨ Call.isLoginSuccess (.queuePacket origin sent) = true := by
  simp [HasLoginSuccess, Session.queue]

theorem hasSecured (s : Session) (response : SEncryptionResponse) :
    HasLoginSuccess (s.secured env response) ↔ HasLoginSuccess s := by
  simp [HasLoginSuccess, Session.secured, Call.isLoginSuccess]

/- A step queues an SLoginSuccess exactly when it finishes a login. -/
theorem stepFinishes (ok : step env e s = .ok t) : HasLoginSuccess t ↔ HasLoginSuccess s ∨ Finishes env e s := by
  cases stepEffect ok with
  | @idle payload past uninitialised random _ others =>
    have unfinished : ¬ Finishes env (.packet payload past uninitialised random) s := by
      rintro ⟨login, id, _⟩
      exact (others login).1 id
    exact (or_iff_left unfinished).symm
  | entered greeting next => simp [Finishes, greeting, HasLoginSuccess, Session.enter]
  | answered status kind =>
    rcases kind with rfl | rfl <;> simp [hasQueued, Finishes, status, Call.isLoginSuccess]
  | requested start login id online drawn token serialized =>
    simp [Session.challenged, hasQueued, Finishes, online, Call.isLoginSuccess]
    rfl
  | offline start login id offline serialized =>
    simp [hasQueued, Finishes, login, id, offline, Call.isLoginSuccess]
  | mismatched login id decodes differ => simp [Finishes, id]
  | accepted login id decodes same => simp [hasSecured, Finishes, id]
  | acknowledged login id => simp [Finishes, id, HasLoginSuccess, Session.enter]
  | absent none =>
    have past := List.getElem?_eq_none_iff.mp none
    simp [Finishes, Nat.not_lt.mpr past]
  | joined some serialized =>
    have inside := (List.getElem?_eq_some_iff.mp some).1
    simp [hasQueued, Finishes, inside, Call.isLoginSuccess]

theorem stepOpens (ok : step env e s = .ok t) (closed : s.player.state ≠ .configuration) :
    t.player.state = .configuration ↔ Acknowledges e s := by
  cases stepEffect ok with
  | @idle payload past uninitialised random _ others =>
    refine iff_of_false closed ?_
    rintro ⟨login, id⟩
    exact (others login).2.2 id
  | entered greeting next => rcases next with rfl | rfl <;> simp [Acknowledges, greeting, Session.enter]
  | answered status kind => simp [Acknowledges, status, Session.queue]
  | requested start login id online drawn token serialized =>
    simp [Acknowledges, login, id, Session.challenged, Session.named, Session.queue]
  | offline start login id offline serialized =>
    simp [Acknowledges, login, id, Session.named, Session.queue]
  | mismatched login id decodes differ => simp [Acknowledges, login, id]
  | accepted login id decodes same => simp [Acknowledges, login, id, Session.secured]
  | acknowledged login id => simp [Acknowledges, login, id, Session.enter]
  | absent none => simp [Acknowledges, closed]
  | joined some serialized => simp [Acknowledges, closed, Session.queue]

/- An acknowledgement is always taken. -/
theorem acknowledges (ack : Acknowledges e s) : step env e s = .ok (s.enter .configuration) := by
  cases e with
  | packet payload past uninitialised random =>
    obtain ⟨login, id⟩ := ack
    have zero : payload.packetId ≠ 0 := by rw [id]; decide
    have one : payload.packetId ≠ 1 := by rw [id]; decide
    simp only [step, processPacket, login, handleLogin, if_neg zero, if_neg one, if_pos id]
    rfl
  | completion index body past => exact ack.elim

/- What is to hold of a run: each step into eCS_Configuration starts where an
SLoginSuccess has been queued. -/
def Gated (env : IGlobalEnvironment) (init : Session) (events : List Event) : Prop :=
  Always (step env) init (fun _ e s => ∀ t, step env e s = .ok t → s.player.state ≠ .configuration →
    t.player.state = .configuration → HasLoginSuccess s) events

/- Every acknowledgement that finds the player in eCS_Login has the end of a login before it. -/
def AcknowledgedLast (env : IGlobalEnvironment) (init : Session) (events : List Event) : Prop :=
  Always (step env) init (fun before e s => Acknowledges e s → Met (step env) init (Finishes env) before) events

theorem finishedBefore {uninitialised : CUUID} {events : List Event}
    (path : Path (step env) (.fresh uninitialised) events s) :
    HasLoginSuccess s ↔ Met (step env) (.fresh uninitialised) (Finishes env) events :=
  flagMet (by simp [HasLoginSuccess, Session.fresh]) (fun _ _ _ ok => stepFinishes ok) path

theorem gatedExactly (env : IGlobalEnvironment) (uninitialised : CUUID) (events : List Event) :
    Gated env (.fresh uninitialised) events ↔ AcknowledgedLast env (.fresh uninitialised) events := by
  constructor
  · intro gated before e after s split path ack
    have closed : s.player.state ≠ .configuration := by
      cases e with
      | packet payload past uninitialised random =>
        rw [ack.1]
        decide
      | completion index body past => exact ack.elim
    rw [← finishedBefore path]
    exact gated before e after s split path _ (acknowledges ack) closed rfl
  · intro last before e after s split path t ok closed opened
    rw [finishedBefore path]
    exact last before e after s split path ((stepOpens ok closed).mp opened)

def acknowledgement : Event := arrival [1, 3] 3

/- A client that greets and acknowledges is in, and nothing was queued for it. -/
theorem acknowledgementOpens : ¬ ∀ (env : IGlobalEnvironment) (uninitialised : CUUID) (events : List Event),
    Gated env (.fresh uninitialised) events := by
  intro always
  have path : Path (step (askingServer id)) (.fresh (.ofWords 0 0)) ([] ++ [greeting])
      ((Session.fresh (.ofWords 0 0)).enter .login) := .next .start rfl
  have queued := always (askingServer id) (.ofWords 0 0) [greeting, acknowledgement] [greeting] acknowledgement [] _ rfl path
    _ rfl (by decide) rfl
  simp [HasLoginSuccess, Session.enter, Session.fresh] at queued

end Mcpp.LoginGate
