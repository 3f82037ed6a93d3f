import Mcpp.Conversation

/-! The server list ping. Each request is answered with the status, each ping with the ping
itself, in the order in which they came; what is sent for a ping goes two bytes past the end
of its buffer. Any other packet is taken without an answer. -/
namespace Mcpp.ServerList
open Buffers Uuid PacketVisitor Packets SharedSecret Wire SerializePacket ClientConnection Frames Sending
open MCPlayer (IGlobalEnvironment Session Call processPacket statusAnswer statusBody)
open Run Boundary Serving Conversation

variable {env : IGlobalEnvironment} {block : BlockFunction} {s : Session}

def pong (f : Frame) : SPacketPayload := { f.payload with size := f.payload.size + 2 }

/- What one frame is answered with. -/
def answers (env : IGlobalEnvironment) (f : Frame) : List Call :=
  if f.payload.packetId = 0 then [.queuePacket (.statusResponse statusBody) (frameOf (statusAnswer env)).payload]
  else if f.payload.packetId = 1 then [.queuePacket .echo (pong f)]
  else []

def Session.answered (s : Session) (calls : List Call) : Session := { s with calls := s.calls ++ calls }

theorem statusSent (fits : (env.toString statusBody).length ≤ 32767) :
    serializePacket (statusAnswer env) = .ok (frameOf (statusAnswer env)).payload := by
  refine serializedFrame (withinLimits (by decide : (0 : BitVec 32).msb = false) ?_ (by simp [Schema.fields, fieldBound, maxStringLength]))
  simp only [Schema.fields, List.forall_mem_cons]
  exact ⟨⟨fits, rfl⟩, by simp⟩

theorem takesStatus (status : s.player.state = .status) (fits : (env.toString statusBody).length ≤ 32767) (f : Frame) :
    Takes env (s = ·) f.payload (Session.answered s (answers env f) = ·) := by
  rintro _ x rfl
  refine ⟨_, ?_, rfl⟩
  simp only [processPacket, status, MCPlayer.handleStatus, answers]
  split
  · change (serializePacket (statusAnswer env) >>= _) = _
    rw [statusSent fits]
    rfl
  · split
    · rfl
    · simp [Session.answered]
      rfl

/- One frame at a time; the session in front of each is one in eCS_Status in the clear. -/
theorem servesStatus (fits : (env.toString statusBody).length ≤ 32767) (frames : List Frame) {s : Session}
    (status : s.player.state = .status) (plain : s.connection = {}) :
    Serves env {} (s = ·) (frames.map Frame.payload) (Session.answered s (frames.flatMap (answers env)) = ·) := by
  induction frames generalizing s with
  | nil =>
    simp only [Session.answered, List.flatMap_nil, List.append_nil]
    exact .nil
  | cons f rest ih =>
    have more := ih (s := Session.answered s (answers env f)) status plain
    simp only [Session.answered, List.append_assoc] at more
    refine .cons ?_ (takesStatus status fits f) ?_
    · rintro _ rfl
      exact plain
    · rw [List.flatMap_cons]
      exact more

theorem bringsSmall {c : CClientConnection} {events : List Boundary.Event} {frames : List Frame}
    (brings : Brings block c events frames) : ∀ f ∈ frames, f.bytes.length ≤ defaultBuflen := by
  induction brings with
  | nil => simp
  | sent alive heap more ih => exact ih
  | @received chunk group events frames arrives stack heap supply more ih =>
    intro f mem
    rcases List.mem_append.mp mem with here | later
    · have length := congrArg List.length arrives
      have fits := chunk.fits
      obtain ⟨front, back, rfl⟩ := List.append_of_mem here
      simp only [onWireLength, List.flatMap_append, List.flatMap_cons, List.length_append] at length
      omega
    · exact ih f later

/- The bytes of the ping and the two that lie behind them. -/
theorem pongBytes {f : Frame} (small : f.bytes.length ≤ defaultBuflen) {d : Dequeued} (same : d.payload = pong f) :
    d.bytes = f.bytes ++ slice d.past f.bytes.length 2 := by
  unfold defaultBuflen at small
  have size : (pong f).size.toNat = f.bytes.length + 2 := by
    have two : (2 : BitVec 32).toNat = 2 := rfl
    simp only [pong, Frame.payload, BitVec.toNat_add, BitVec.toNat_ofNat, two]
    omega
  have stored : (pong f).payload.getD [] = f.bytes := rfl
  rw [Dequeued.bytes, same, size, stored, sliceAppend, Nat.zero_add]
  have front : slice (buffer f.bytes d.past) 0 f.bytes.length = f.bytes := by
    rw [bufferSlice (by omega)]
    simp
  have back : slice (buffer f.bytes d.past) f.bytes.length 2 = slice d.past f.bytes.length 2 := by
    simp [slice, buffer]
  rw [front, back]

theorem statusConversation (fits : (env.toString statusBody).length ≤ 32767) (uninitialised : CUUID) (g : Greeting 1)
    (frames : List Frame) {events : List Boundary.Event} (brings : Brings block {} events (g.frame :: frames)) :
    ∃ s, Path (step env block) { session := .fresh uninitialised } events { session := s } ∧
      s.player = ⟨[], .status, uninitialised, []⟩ ∧ s.connection = {} ∧ s.requests = [] ∧
      s.calls = frames.flatMap (answers env) ∧
      ∀ f ∈ frames, ∀ (d : Dequeued) heap, d.payload = pong f →
        outgoing block s.connection heap d = .ok (f.bytes ++ slice d.past f.bytes.length 2) := by
  have serves : Serves env {} (Session.fresh uninitialised = ·) ((g.frame :: frames).map Frame.payload) _ :=
    .cons (by rintro _ rfl; rfl) (takesHandshake g rfl .status (.inl ⟨rfl, rfl⟩)) (servesStatus fits frames rfl rfl)
  obtain ⟨s, path, rfl⟩ := servesRun (.inl rfl) brings serves rfl
  refine ⟨_, path, rfl, rfl, rfl, List.nil_append _, ?_⟩
  intro f mem d heap same
  have small := bringsSmall brings f (List.mem_cons_of_mem _ mem)
  rw [← pongBytes small same]
  rfl

def listing : Greeting 1 where
  packet := { SHandshake.fresh with protocolVersion := 772, nextState := 1 }
  limits := ⟨⟨rfl, rfl⟩, rfl, Nat.zero_le 32⟩
  version := rfl
  asks := rfl

def ping : Frame := ⟨[1], [0, 1, 2, 3, 4, 5, 6, 7], by decide, by decide⟩

theorem statusConversationPing : ∃ s, Path (step (MCPlayer.askingServer id) (fun _ _ => []))
    { session := .fresh (.ofWords 0 0) } [bring (fun _ _ => []) {} listing.frame (greetingSmall listing),
      bring (fun _ _ => []) {} pingFrame (by decide), bring (fun _ _ => []) {} ping (by decide)] { session := s } ∧
    s.calls = [pingFrame, ping].flatMap (answers (MCPlayer.askingServer id)) := by
  have fits : ((MCPlayer.askingServer id).toString statusBody).length ≤ 32767 := Nat.zero_le _
  obtain ⟨s, path, _, _, _, calls, _⟩ := statusConversation fits (.ofWords 0 0) listing [pingFrame, ping]
    (bringsAlone {} _ _ (bringsAlone {} _ _ (bringsAlone {} _ _ .nil)))
  exact ⟨s, path, calls⟩

end Mcpp.ServerList
