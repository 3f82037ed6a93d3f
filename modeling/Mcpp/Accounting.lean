import Mcpp.MCPlayer
import Mcpp.Run

/-! The calls of a player on its connection, counted. Online each response that is accepted
switches encryption on and sends one request, and each SLoginSuccess answers one of those,
so none is queued on a connection that is still in the clear. -/
namespace Mcpp.Accounting
open Buffers Uuid PacketVisitor Packets SharedSecret Wire ClientConnection MCPlayer Run

variable {env : IGlobalEnvironment} {e : Event} {s t : Session} {calls : List Call} {call : Call} {out : Nat}

def Call.isSecure : Call → Bool
  | .secure .. => true
  | .queuePacket .. => false

def Call.isSuccess : Call → Bool
  | .queuePacket (.loginSuccess _) _ => true
  | _ => false

def secured (calls : List Call) : Nat := calls.countP Call.isSecure

def succeeded (calls : List Call) : Nat := calls.countP Call.isSuccess

/- So many requests are out, and no success came before the response it is for. -/
structure Settled (calls : List Call) (out : Nat) : Prop where
  total : succeeded calls + out = secured calls
  order : ∀ before call after, calls = before ++ call :: after → Call.isSuccess call = true →
    succeeded before < secured before

theorem settledSnoc (settled : Settled calls out) (waiting : Call.isSuccess call = true → 0 < out) {next : Nat}
    (total : succeeded (calls ++ [call]) + next = secured (calls ++ [call])) : Settled (calls ++ [call]) next := by
  refine ⟨total, ?_⟩
  intro before other after split success
  rcases snocSplit.mp split with ⟨rfl, rfl, rfl⟩ | ⟨rest, rfl, rfl⟩
  · have least := waiting success
    have whole := settled.total
    omega
  · exact settled.order before other rest rfl success

theorem secureSettled (settled : Settled calls out) (token key : Bytes) :
    Settled (calls ++ [.secure token key]) (out + 1) := by
  refine settledSnoc settled (by simp [Call.isSuccess]) ?_
  have whole := settled.total
  simp only [succeeded, secured, List.countP_append, List.countP_singleton, Call.isSuccess, Call.isSecure] at whole ⊢
  simp only [Bool.false_eq_true, ite_false, ite_true]
  omega

theorem queueSettled (settled : Settled calls out) {origin : Outgoing} (payload : SPacketPayload)
    (other : Call.isSuccess (.queuePacket origin payload) = false) :
    Settled (calls ++ [.queuePacket origin payload]) out := by
  refine settledSnoc settled (by simp [other]) ?_
  have whole := settled.total
  simpa [succeeded, secured, other, Call.isSecure] using whole

theorem successSettled (settled : Settled calls (out + 1)) (packet : SLoginSuccess) (payload : SPacketPayload) :
    Settled (calls ++ [.queuePacket (.loginSuccess packet) payload]) out := by
  refine settledSnoc settled (fun _ => Nat.succ_pos out) ?_
  have whole := settled.total
  simp only [succeeded, secured, List.countP_append, List.countP_singleton, Call.isSuccess, Call.isSecure] at whole ⊢
  simp only [Bool.false_eq_true, ite_false, ite_true]
  omega

def Balanced (s : Session) : Prop := Settled s.calls s.requests.length

theorem stepBalanced (online : env.isOnline = true) (settled : Balanced s) (ok : step env e s = .ok t) :
    Balanced t := by
  cases stepEffect ok with
  | idle | entered | mismatched | acknowledged | absent => exact settled
  | answered status kind =>
    refine queueSettled settled _ ?_
    rcases kind with rfl | rfl <;> rfl
  | requested start login id online' drawn token serialized => exact queueSettled settled _ rfl
  | offline start login id offline serialized =>
    rw [online] at offline
    contradiction
  | accepted login id decodes same =>
    have one := secureSettled settled
    simpa [Balanced, Session.secured] using one _ _
  | @joined index body past _ request packet sent found serialized =>
    obtain ⟨inside, _⟩ := List.getElem?_eq_some_iff.mp found
    have erased : (s.requests.eraseIdx index).length + 1 = s.requests.length := by
      rw [List.length_eraseIdx_of_lt inside, Nat.sub_add_cancel (by omega)]
    rw [Balanced, ← erased] at settled
    exact successSettled settled packet sent

/- The connection against the calls: the flag is set by the first response accepted, and the
key is that of the last. -/
def lastKey (calls : List Call) : Option CSharedSecret :=
  (calls.filterMap fun call => match call with
    | .secure _ key => some ⟨key⟩
    | .queuePacket .. => none).getLast?

theorem lastKeySecure (token key : Bytes) : lastKey (calls ++ [.secure token key]) = some ⟨key⟩ := by
  simp [lastKey]

theorem lastKeyQueue (origin : Outgoing) (payload : SPacketPayload) :
    lastKey (calls ++ [.queuePacket origin payload]) = lastKey calls := by
  simp [lastKey]

def Connected (s : Session) : Prop :=
  s.connection.encryptionEnabled = (lastKey s.calls).isSome ∧ s.connection.secret = lastKey s.calls

theorem stepConnected (connected : Connected s) (ok : step env e s = .ok t) : Connected t := by
  unfold Connected at connected ⊢
  cases stepEffect ok with
  | idle | entered | mismatched | acknowledged | absent => exact connected
  | answered | requested | offline | joined =>
    simp only [Session.queue, Session.challenged, Session.named, lastKeyQueue]
    exact connected
  | accepted login id decodes same =>
    simp [Session.secured, lastKeySecure]

/- What is to hold of a player in every state. -/
structure Accounted (env : IGlobalEnvironment) (s : Session) : Prop where
  balanced : env.isOnline = true → Balanced s
  connected : Connected s

theorem accounted {uninitialised : CUUID} {events : List Event} (path : Path (step env) (.fresh uninitialised) events s) :
    Accounted env s := by
  refine ⟨fun online => ?_, ?_⟩
  · refine pathInvariant ⟨rfl, ?_⟩ (fun _ _ _ balanced ok => stepBalanced online balanced ok) path
    intro before call after none
    simp [Session.fresh] at none
  · exact pathInvariant ⟨rfl, rfl⟩ (fun _ _ _ connected ok => stepConnected connected ok) path

end Mcpp.Accounting
