import Mcpp.Framing
import Mcpp.SerializePacket

/-! Well-formed frames, as SerializePacket makes them, and what becomes of a stream
of them. A chunk of whole frames reaches the handler frame by frame; what a chunk
holds of a frame that goes on in the next one is lost. -/
namespace Mcpp.Frames
open Buffers PacketVisitor Packets SharedSecret Base128 VarInt Wire SerializePacket ClientConnection Framing

variable {σ : Type}

/- An id and what follows it; the length in front is the shortest encoding of theirs. -/
structure Frame where
  id : Bytes
  body : Bytes
  complete : Closed id
  short : id.length ≤ 5

namespace Frame

def content (f : Frame) : Bytes := f.id ++ f.body

def bytes (f : Frame) : Bytes := encode f.content.length ++ f.content

def payload (f : Frame) : SPacketPayload where
  payload := some f.bytes
  packetId := BitVec.ofNat 32 (value f.id)
  size := BitVec.ofNat 32 f.bytes.length

end Frame

theorem contentNonempty (f : Frame) : 1 ≤ f.content.length := by
  have positive := List.length_pos_iff.mpr (closedNonempty f.complete)
  rw [Frame.content, List.length_append]
  omega

theorem bytesLength (f : Frame) : f.bytes.length = width f.content.length + f.content.length := by
  rw [Frame.bytes, List.length_append]
  rfl

theorem frameHeld {memory : Memory} {start : Nat} {f : Frame} (held : Holds memory start f.bytes)
    (small : f.bytes.length < 2^31) : prefixSize memory start = BitVec.ofNat 32 f.content.length ∧
      announced memory start = f.bytes.length ∧ frameAt memory start = f.payload := by
  have length := bytesLength f
  obtain ⟨same, positive⟩ := ofNatSmall (show f.content.length < 2^31 by omega)
  have bytes : f.bytes = encode f.content.length ++ (f.id ++ f.body) := rfl
  obtain ⟨front, content⟩ := (holdsAppend ..).mp (bytes ▸ held)
  obtain ⟨id, _⟩ := (holdsAppend ..).mp content
  have short : (encode f.content.length).length ≤ 5 := (widthLe f.content.length 4).mpr (by omega)
  have size : prefixSize memory start = BitVec.ofNat 32 f.content.length := by
    rw [prefixSize, varIntValueHeld 0 (encodeClosed _) short front, valueEncode]
    exact BitVec.zero_or
  have total : announced memory start = f.bytes.length := by
    rw [announced, size, same, length, Nat.add_comm]
  refine ⟨size, total, ?_⟩
  have read : idAt memory start = BitVec.ofNat 32 (value f.id) := by
    rw [idAt, prefixWidth, varIntBytesHeld (encodeClosed _) short front,
      varIntValueHeld 0 f.complete f.short id]
    exact BitVec.zero_or
  rw [frameAt, total, read, held]
  rfl

theorem frameTaken {memory : Memory} {totalSize start : Nat} {f : Frame} (held : Holds memory start f.bytes)
    (room : start + f.bytes.length ≤ totalSize) (small : totalSize < 2^30) :
    Taken memory totalSize start := by
  obtain ⟨size, total, _⟩ := frameHeld held (by omega)
  have length := bytesLength f
  have some := contentNonempty f
  refine ⟨by omega, ?_, by omega⟩
  rw [size]
  exact (ofNatSmall (by omega)).2

/- What a handler makes of a list of payloads: it gets them in order, up to the
first one it does not take, which closes the socket or ends the callback. -/
structure Handled (σ : Type) where
  calls : List SPacketPayload
  outcome : Outcome
  socketOpen : Bool
  world : σ

def dispatch (pHandler : IPacketHandler σ) : List SPacketPayload → σ → Handled σ
  | [], w => ⟨[], .returned, true, w⟩
  | payload :: rest, w => match pHandler.processPacket payload w with
    | .error f => ⟨[payload], .fault f, true, w⟩
    | .ok (false, w') => ⟨[payload], .returned, false, w'⟩
    | .ok (true, w') =>
      let r := dispatch pHandler rest w'
      { r with calls := payload :: r.calls }

theorem walkFrames {pHandler : IPacketHandler σ} {memory : Memory} {totalSize start : Nat} {w last : σ}
    {ds o socketOpen} (small : totalSize < 2^30) {frames : List Frame}
    (held : Holds memory start (frames.flatMap Frame.bytes))
    (whole : start + (frames.flatMap Frame.bytes).length = totalSize)
    (walk : Walk pHandler memory totalSize start w ds o socketOpen last) :
    dispatch pHandler (frames.map Frame.payload) w =
      ⟨ds.map Delivery.payload, o, socketOpen, last⟩ := by
  induction frames generalizing start w ds with
  | nil =>
    have stop : totalSize ≤ start := by simp at whole; omega
    cases walk with
    | done read => rfl
    | hang unread negative => omega
    | tail unread positive tooLong => omega
    | fault taken failed => exact absurd taken.unread (Nat.not_lt.mpr stop)
    | reject taken rejected => exact absurd taken.unread (Nat.not_lt.mpr stop)
    | next taken handled more => exact absurd taken.unread (Nat.not_lt.mpr stop)
  | cons f frames ih =>
    simp only [List.flatMap_cons, List.length_append] at held whole
    obtain ⟨first, rest⟩ := (holdsAppend ..).mp held
    have taken := frameTaken first (by omega) small
    obtain ⟨_, total, same⟩ := frameHeld first (by omega)
    rw [List.map_cons, dispatch, ← same]
    cases walk with
    | done read => exact absurd taken.unread (Nat.not_lt.mpr read)
    | hang unread negative =>
      rw [taken.positive] at negative
      contradiction
    | tail unread positive tooLong => exact absurd taken.bounded (Nat.not_le.mpr tooLong)
    | fault _ failed => simp only [failed]; rfl
    | reject _ rejected => simp only [rejected]; rfl
    | next _ handled more =>
      simp only [handled]
      rw [total] at more
      rw [ih rest (by omega) more]
      rfl

def frameOf {P : Type} [Schema P] (p : P) : Frame where
  id := encode (Packet.base p).packetId.toNat
  body := (Schema.fields p).flatMap Field.bytes
  complete := encodeClosed _
  short := widthInt _

theorem serializedFrame {P : Type} [Schema P] {p : P} (limits : WithinLimits p) :
    serializePacket p = .ok (frameOf p).payload := by
  obtain ⟨c, full, done⟩ := serializationFits limits
  have room : c.getFullSize.toNat = (framed p).length := by rw [full, framedSmall limits]
  have data := (putAllNew (framed p) c.getFullSize room).1
  rw [full] at data
  have bytes : (frameOf p).bytes = framed p := rfl
  have id : BitVec.ofNat 32 (value (frameOf p).id) = (Packet.base p).packetId := by
    rw [frameOf, valueEncode, BitVec.ofNat_toNat, BitVec.setWidth_eq]
  have kept : (Packet.base (sized (BitVec.ofNat 32 (bodyBytes p).length) p)).packetId =
      (Packet.base p).packetId := by rw [sized, Schema.baseSet]
  rw [serializePacket, done, bindOk, Frame.payload, id, bytes]
  simp only [Serialization.payload, data, kept, full]
  rfl

/- What recvPackets made of a chunk, as a handler sees it. -/
def handled (result : Outcome × Receiving σ) : Handled σ :=
  ⟨result.2.deliveries.map Delivery.payload, result.1, result.2.socketOpen, result.2.world⟩

theorem chunkDispatched (block : BlockFunction) (secret : Option CSharedSecret) (pHandler : IPacketHandler σ)
    {chunk : Chunk} {frames : List Frame} (whole : chunk.bytes = frames.flatMap Frame.bytes)
    (stack : Memory) (heap : Behind) (w : σ) :
    handled (recvPackets block { secret := secret } pHandler chunk stack heap w) =
      dispatch pHandler (frames.map Frame.payload) w := by
  have fits := chunk.fits
  unfold defaultBuflen at fits
  obtain ⟨o, t, ran, walk⟩ := startedWalk (startedPlain block secret chunk stack heap) pHandler w
  have held := recvBufferHolds chunk stack
  rw [whole] at held
  rw [ran, walkFrames (by omega) held (by rw [whole]; omega) walk]
  rfl

/- Whole packets of any schema serialize to frames, and a chunk of frames is dispatched
frame by frame. -/
theorem framesDelivered :
    (∀ (P : Type) [Schema P] (p : P), WithinLimits p → serializePacket p = .ok (frameOf p).payload) ∧
    ∀ (block : BlockFunction) (secret : Option CSharedSecret) (pHandler : IPacketHandler σ)
      (frames : List Frame) (chunk : Chunk) (stack : Memory) (heap : Behind) (w : σ),
      chunk.bytes = frames.flatMap Frame.bytes →
      handled (recvPackets block { secret := secret } pHandler chunk stack heap w) =
        dispatch pHandler (frames.map Frame.payload) w := by
  refine ⟨fun P _ p limits => serializedFrame limits, ?_⟩
  intro block secret pHandler frames chunk stack heap w whole
  exact chunkDispatched block secret pHandler whole stack heap w

def steveSuccess : SLoginSuccess := { SLoginSuccess.fresh (.ofWords 1 2) with username := [83, 116, 101, 118, 101] }

def firstFrame : Frame := ⟨[0], [7, 8], by decide, by decide⟩
def secondFrame : Frame := ⟨[4], [9], by decide, by decide⟩
def thirdFrame : Frame := ⟨[0x80, 1], [5], by decide, by decide⟩

theorem firstBytes : firstFrame.bytes = [3, 0, 7, 8] := by
  simp [Frame.bytes, Frame.content, firstFrame, encodeSmall]

theorem secondBytes : secondFrame.bytes = [2, 4, 9] := by
  simp [Frame.bytes, Frame.content, secondFrame, encodeSmall]

theorem thirdBytes : thirdFrame.bytes = [3, 0x80, 1, 5] := by
  simp [Frame.bytes, Frame.content, thirdFrame, encodeSmall]

def threeFrames : Chunk := ⟨[3, 0, 7, 8, 2, 4, 9, 3, 0x80, 1, 5], by decide, by decide⟩

/- A handler that does not take what it is handed second. -/
def stopsSecond : IPacketHandler Nat := returning fun _ calls => (calls == 0, calls + 1)

/- Two of three frames are handed over, each once, and the socket is closed. -/
theorem framesDeliveredSecond :
    serializePacket steveSuccess = .ok (frameOf steveSuccess).payload ∧
    handled (recvPackets (fun _ _ => []) {} stopsSecond threeFrames (fun _ => 9) ⟨fun _ => 9, fun _ => 9⟩ 0) =
      ⟨[firstFrame.payload, secondFrame.payload], .returned, false, 2⟩ := by
  obtain ⟨serialized, delivered⟩ := @framesDelivered Nat
  refine ⟨serialized _ steveSuccess (loginSuccessWithin rfl (by decide)), ?_⟩
  have whole : threeFrames.bytes = [firstFrame, secondFrame, thirdFrame].flatMap Frame.bytes := by
    simp [threeFrames, firstBytes, secondBytes, thirdBytes]
  exact delivered _ none stopsSecond [firstFrame, secondFrame, thirdFrame] threeFrames _ _ 0 whole

/-! A stream over several calls of Recv. -/

/- One Recv: the bytes it got, and what the memory behind its buffers holds. -/
structure Recv where
  chunk : Chunk
  stack : Memory
  heap : Behind

/- The calls of ProcessPacket, until a callback does not come back or closes the socket. -/
def recvAll (block : BlockFunction) (c : CClientConnection) (pHandler : IPacketHandler σ) :
    List Recv → σ → List SPacketPayload
  | [], _ => []
  | r :: rest, w =>
    let h := handled (recvPackets block c pHandler r.chunk r.stack r.heap w)
    if h.outcome = .returned ∧ h.socketOpen then h.calls ++ recvAll block c pHandler rest h.world
    else h.calls

/- Every cut of the stream falls between two frames. -/
def CutBetween (recvs : List Recv) (frames : List Frame) : Prop :=
  ∃ groups : List (List Frame), groups.flatten = frames ∧
    recvs.map (fun r => r.chunk.bytes) = groups.map (fun g => g.flatMap Frame.bytes)

/- A handler that always returns true. -/
def accepting (f : SPacketPayload → σ → σ) : IPacketHandler σ := returning (fun payload w => (true, f payload w))

theorem dispatchAccepting (f : SPacketPayload → σ → σ) (payloads : List SPacketPayload) (w : σ) :
    dispatch (accepting f) payloads w = ⟨payloads, .returned, true, payloads.foldl (fun w p => f p w) w⟩ := by
  induction payloads generalizing w with
  | nil => rfl
  | cons p rest ih => simp only [dispatch, accepting, returning, List.foldl_cons] at ih ⊢; rw [ih]

theorem recvAllFrames (block : BlockFunction) (secret : Option CSharedSecret) (f : SPacketPayload → σ → σ)
    {recvs : List Recv} {frames : List Frame} (cut : CutBetween recvs frames) (w : σ) :
    recvAll block { secret := secret } (accepting f) recvs w = frames.map Frame.payload := by
  obtain ⟨groups, rfl, bytes⟩ := cut
  induction recvs generalizing groups w with
  | nil =>
    cases groups with
    | nil => rfl
    | cons g groups => simp at bytes
  | cons r recvs ih =>
    cases groups with
    | nil => simp at bytes
    | cons g groups =>
      obtain ⟨first, rest⟩ := List.cons.inj bytes
      have calls := chunkDispatched block secret (accepting f) first r.stack r.heap w
      rw [dispatchAccepting] at calls
      rw [recvAll, calls, List.flatten_cons, List.map_append]
      exact congrArg (g.map Frame.payload ++ ·) (ih _ _ rest)

theorem segmentationBetween (block : BlockFunction) (secret : Option CSharedSecret)
    (f : SPacketPayload → σ → σ) (w : σ) {frames : List Frame} {a b : List Recv}
    (cutA : CutBetween a frames) (cutB : CutBetween b frames) :
    recvAll block { secret := secret } (accepting f) a w =
      recvAll block { secret := secret } (accepting f) b w := by
  rw [recvAllFrames block secret f cutA, recvAllFrames block secret f cutB]

def quiet (chunk : Chunk) : Recv := ⟨chunk, fun _ => 0, fun _ => 0, fun _ => 0⟩

def together : List Recv := [⟨threeFrames, fun _ => 1, fun _ => 2, fun _ => 3⟩]

def apart : List Recv := [quiet ⟨[3, 0, 7, 8, 2, 4, 9], by decide, by decide⟩, quiet ⟨[3, 0x80, 1, 5], by decide, by decide⟩]

/- Three frames in one chunk, and two of them in front of the third. -/
theorem segmentationBetweenThree :
    recvAll (fun _ _ => []) {} (accepting fun _ calls => calls + 1) together 0 =
      recvAll (fun _ _ => []) {} (accepting fun _ calls => calls + 1) apart 0 := by
  have one : CutBetween together [firstFrame, secondFrame, thirdFrame] :=
    ⟨[[firstFrame, secondFrame, thirdFrame]], rfl, by simp [together, threeFrames, firstBytes, secondBytes, thirdBytes]⟩
  have two : CutBetween apart [firstFrame, secondFrame, thirdFrame] :=
    ⟨[[firstFrame, secondFrame], [thirdFrame]], rfl, by simp [apart, quiet, firstBytes, secondBytes, thirdBytes]⟩
  exact segmentationBetween _ none (fun _ calls => calls + 1) 0 one two

/- What SerializePacket makes of a packet with the id 0 and no fields. -/
def pingFrame : Frame := ⟨[0], [], by decide, by decide⟩

theorem pingFrameBytes : pingFrame.bytes = [1, 0] := by
  simp [Frame.bytes, Frame.content, pingFrame, encodeSmall]

/- The frame of ping again, one byte a time: the first call drops the length, the
second takes the id for a frame of its own. -/
theorem segmentationInside : ¬ ∀ (frames : List Frame) (a b : List Recv),
    (a.flatMap fun r => r.chunk.bytes) = frames.flatMap Frame.bytes →
    (b.flatMap fun r => r.chunk.bytes) = frames.flatMap Frame.bytes →
    recvAll (fun _ _ => []) {} (accepting fun _ w => w) a () =
      recvAll (fun _ _ => []) {} (accepting fun _ w => w) b () := by
  intro always
  have same := always [pingFrame] [quiet ping]
    [quiet ⟨[1], by decide, by decide⟩, quiet ⟨[0], by decide, by decide⟩]
    (by simp [pingFrameBytes, quiet, ping]) (by simp [pingFrameBytes, quiet])
  revert same
  decide +kernel

end Mcpp.Frames
