import Mcpp.Decoding
import Mcpp.LoginGate
import Mcpp.SerializePacket

/-! The size of a queued payload against the buffer it was queued with. SendQueuedPackets
sends as many bytes as the size says. The serializer and the framing agree with their
allocations; the status handler takes the payload of a ping and adds two to its size. -/
namespace Mcpp.QueuedPayload
open Buffers Uuid PacketVisitor Packets Wire ClientConnection MCPlayer Run

variable {env : IGlobalEnvironment} {e : Event} {s t : Session}

/- The entry is these bytes: they are all its buffer has, and its size says so. -/
def Carries (sent : SPacketPayload) (bytes : Bytes) : Prop :=
  sent.payload = some bytes ∧ sent.size.toInt = bytes.length

def Sized (sent : SPacketPayload) : Prop := ∃ bytes, Carries sent bytes

def AllSized (s : Session) : Prop := ∀ origin sent, Call.queuePacket origin sent ∈ s.calls → Sized sent

def Event.frame : Event → Option Bytes
  | .packet payload .. => payload.payload
  | .completion .. => none

/- A payload ReadUnencryptedPacket returned, wherever it was read from. -/
def Produced : Event → Prop
  | .packet payload .. => ∃ memory start maxSize reads,
      readUnencryptedPacket memory start maxSize = .ok (payload, reads)
  | .completion .. => True

/- A ping in the status state. -/
def Pings : Event → Session → Prop
  | .packet payload .., s => s.player.state = .status ∧ payload.packetId = 1
  | .completion .., _ => False

theorem loginSuccessSized {packet : SLoginSuccess} {sent : SPacketPayload}
    (ok : serializePacket packet = .ok sent) : Sized sent :=
  SerializePacket.serializedSize (by simp [Schema.fields, SerializePacket.fieldBound]) ok

theorem encryptionRequestSized {packet : SEncryptionRequest} {sent : SPacketPayload}
    (ok : serializePacket packet = .ok sent) : Sized sent :=
  SerializePacket.serializedSize (by simp [Schema.fields, SerializePacket.fieldBound, maxStringLength]) ok

theorem statusResponseSized {toString : Json → Bytes} {packet : SStatusResponse toString} {sent : SPacketPayload}
    (ok : serializePacket packet = .ok sent) : Sized sent :=
  SerializePacket.serializedSize (by simp [Schema.fields, SerializePacket.fieldBound, maxStringLength]) ok

/- What a step puts on the queue. -/
inductive Queues (e : Event) (s t : Session) : Prop where
  | nothing (kept : ∀ origin sent, Call.queuePacket origin sent ∈ t.calls ↔ Call.queuePacket origin sent ∈ s.calls)
      (unpinged : ¬ Pings e s)
  | serialized {origin sent} (calls : t.calls = s.calls ++ [.queuePacket origin sent]) (sized : Sized sent)
      (unpinged : ¬ Pings e s)
  | echoed {payload} (calls : t.calls = s.calls ++ [.queuePacket .echo { payload with size := payload.size + 2 }])
      (frame : ∃ past uninitialised random, e = .packet payload past uninitialised random) (pinged : Pings e s)

theorem statusQueues {payload : SPacketPayload} {past : Memory} {uninitialised : CUUID} {random : Nat → Fin 62}
    {accepted : Bool} (status : s.player.state = .status) (ok : handleStatus env payload s = .ok (accepted, t)) :
    Queues (.packet payload past uninitialised random) s t := by
  rcases statusCases ok with ⟨zero, sent, serialized, rfl⟩ | ⟨one, rfl⟩ | ⟨_, other, rfl⟩
  · exact .serialized rfl (statusResponseSized serialized) (by simp [Pings, zero])
  · exact .echoed rfl ⟨_, _, _, rfl⟩ ⟨status, one⟩
  · exact .nothing (fun _ _ => Iff.rfl) (fun pings => other pings.2)

theorem stepQueues (ok : step env e s = .ok t) : Queues e s t := by
  cases stepEffect ok with
  | @idle payload past uninitialised random _ others =>
    by_cases status : s.player.state = .status
    · obtain ⟨⟨accepted, next⟩, handled, last⟩ := okBind ok
      cases last
      simp only [processPacket, status] at handled
      exact statusQueues status handled
    · exact .nothing (fun _ _ => Iff.rfl) (by simp [Pings, status])
  | entered greeting next => exact .nothing (fun _ _ => Iff.rfl) (by simp [Pings, greeting])
  | answered status kind =>
    obtain ⟨⟨accepted, next⟩, handled, last⟩ := okBind ok
    cases last
    simp only [processPacket, status] at handled
    exact statusQueues status handled
  | requested start login id online drawn token serialized =>
    exact .serialized rfl (encryptionRequestSized serialized) (by simp [Pings, login])
  | offline start login id offline serialized =>
    exact .serialized rfl (loginSuccessSized serialized) (by simp [Pings, login])
  | mismatched login id decodes differ => exact .nothing (fun _ _ => Iff.rfl) (by simp [Pings, login])
  | accepted login id decodes same =>
    refine .nothing ?_ (by simp [Pings, login])
    intro origin sent
    simp [Session.secured]
  | acknowledged login id => exact .nothing (fun _ _ => Iff.rfl) (by simp [Pings, login])
  | absent none => exact .nothing (fun _ _ => Iff.rfl) (by simp [Pings])
  | joined some serialized => exact .serialized rfl (loginSuccessSized serialized) (by simp [Pings])

/- The frame of a ping has as many bytes as its payload says, so two more are not there. -/
theorem echoUnsized {payload : SPacketPayload} {past : Memory} {uninitialised : CUUID} {random : Nat → Fin 62}
    (produced : Produced (.packet payload past uninitialised random)) :
    ¬ Sized { payload with size := payload.size + 2 } := by
  obtain ⟨memory, start, maxSize, reads, read⟩ := produced
  intro sized
  obtain ⟨bytes, some, size⟩ := sized
  have sum := Decoding.payloadSized read some
  have bound := payload.size.isLt
  have two : (2 : BitVec 32).toNat = 2 := rfl
  simp only [BitVec.toInt_eq_toNat_cond, BitVec.toNat_add, two] at size
  split at size
  · omega
  · omega

theorem sizedQueued {origin : Outgoing} {sent : SPacketPayload}
    (calls : t.calls = s.calls ++ [.queuePacket origin sent]) : AllSized t ↔ AllSized s ∧ Sized sent := by
  constructor
  · intro all
    refine ⟨?_, all origin sent (by simp [calls])⟩
    intro origin' sent' old
    exact all origin' sent' (by simp [calls, old])
  · intro both origin' sent' mem
    obtain ⟨all, last⟩ := both
    rw [calls, List.mem_append, List.mem_singleton] at mem
    rcases mem with old | new
    · exact all origin' sent' old
    · cases new
      exact last

theorem stepSized (produced : Produced e) (ok : step env e s = .ok t) :
    AllSized t ↔ AllSized s ∧ ¬ Pings e s := by
  cases stepQueues ok with
  | nothing kept unpinged => simp [AllSized, kept, unpinged]
  | serialized calls sized unpinged => simp [sizedQueued calls, sized, unpinged]
  | echoed calls frame pinged =>
    obtain ⟨past, uninitialised, random, rfl⟩ := frame
    rw [sizedQueued calls]
    exact iff_of_false (fun both => echoUnsized produced both.2) (fun both => both.2 pinged)

theorem runSized {uninitialised : CUUID} {events : List Event} {last : Session} (produced : ∀ e ∈ events, Produced e)
    (path : Path (step env) (.fresh uninitialised) events last) :
    AllSized last ↔ Always (step env) (.fresh uninitialised) (fun _ e s => ¬ Pings e s) events := by
  induction path with
  | start =>
    exact iff_of_true (by simp [AllSized, Session.fresh]) alwaysStart
  | next before ok ih =>
    rw [alwaysSnoc before, stepSized (produced _ (by simp)) ok, ih (fun e mem => produced e (by simp [mem]))]

/- What is to hold of a run: every queued entry has the size of its buffer, and the
one queued for a ping is the frame that was received. -/
structure QueuedSound (env : IGlobalEnvironment) (init : Session) (events : List Event) (last : Session) : Prop where
  sized : AllSized last
  echoes : Always (step env) init (fun _ e s => Pings e s → ∀ t, step env e s = .ok t →
    ∃ sent frame, t.calls = s.calls ++ [.queuePacket .echo sent] ∧ Event.frame e = some frame ∧ Carries sent frame) events

def Unpinged (env : IGlobalEnvironment) (init : Session) (events : List Event) : Prop :=
  Always (step env) init (fun _ e s => ¬ Pings e s) events

theorem queuedExactly {env : IGlobalEnvironment} {uninitialised : CUUID} {events : List Event} {last : Session}
    (produced : ∀ e ∈ events, Produced e) (path : Path (step env) (.fresh uninitialised) events last) :
    QueuedSound env (.fresh uninitialised) events last ↔ Unpinged env (.fresh uninitialised) events := by
  constructor
  · intro sound
    exact (runSized produced path).mp sound.sized
  · intro unpinged
    refine ⟨(runSized produced path).mpr unpinged, ?_⟩
    intro before e after s split path' pings
    exact absurd pings (unpinged before e after s split path')

/- A handshake of version 772 that asks for the status, a status request and a ping. -/
def inquiry : Event := arrival Decoding.status 0
def statusRequest : Event := arrival [1, 0] 0
def pingRequest : Event := arrival [9, 1, 0, 0, 0, 0, 0, 0, 0, 0] 1

theorem queuedStatus : ∃ last,
    Path (step (askingServer id)) (.fresh (.ofWords 0 0)) [inquiry, statusRequest] last ∧
    QueuedSound (askingServer id) (.fresh (.ofWords 0 0)) [inquiry, statusRequest] last := by
  have inquired : Path (step (askingServer id)) (.fresh (.ofWords 0 0)) ([] ++ [inquiry]) _ := .next .start rfl
  have answered : Path (step (askingServer id)) (.fresh (.ofWords 0 0)) ([inquiry] ++ [statusRequest]) _ :=
    .next inquired rfl
  have produced : ∀ e ∈ [inquiry, statusRequest], Produced e := by
    simp only [List.forall_mem_cons]
    exact ⟨⟨buffer Decoding.status fun _ => 0, 0, 8, _, rfl⟩, ⟨buffer [1, 0] fun _ => 0, 0, 2, _, rfl⟩, by simp⟩
  refine ⟨_, answered, (queuedExactly produced answered).mpr ?_⟩
  refine (alwaysSnoc inquired).mpr ⟨(alwaysSnoc .start).mpr ⟨alwaysStart, ?_⟩, ?_⟩
  · intro pings
    cases pings.1
  · intro pings
    cases pings.2

theorem pingOversized : ¬ ∀ (env : IGlobalEnvironment) (uninitialised : CUUID) (events : List Event) (last : Session),
    (∀ e ∈ events, Produced e) → Path (step env) (.fresh uninitialised) events last →
    QueuedSound env (.fresh uninitialised) events last := by
  intro always
  have path : Path (step (askingServer id)) (.fresh (.ofWords 0 0)) ([] ++ [inquiry] ++ [pingRequest]) _ :=
    .next (.next .start rfl) rfl
  have produced : ∀ e ∈ [inquiry, pingRequest], Produced e := by
    simp only [List.forall_mem_cons]
    exact ⟨⟨buffer Decoding.status fun _ => 0, 0, 8, _, rfl⟩,
      ⟨buffer [9, 1, 0, 0, 0, 0, 0, 0, 0, 0] fun _ => 0, 0, 10, _, rfl⟩, by simp⟩
  obtain ⟨bytes, some, size⟩ := (always _ _ _ _ produced path).sized .echo _ (by
    exact List.mem_singleton.mpr rfl)
  cases some
  revert size
  decide

end Mcpp.QueuedPayload
