import Mcpp.SharedSecret
import Mcpp.Wire

/-! CClientConnection::RecvPackets on what one Recv hands its callback. The loop
keeps every payload it passed to ProcessPacket, with the offset it was read from and
the indices read to build it, also when a call does not return. -/
namespace Mcpp.ClientConnection
open Buffers PacketVisitor Packets SharedSecret Base128 VarInt Wire

def defaultBuflen : Nat := 512

/- What a recv that returned a positive count left in the buffer. -/
structure Chunk where
  bytes : Bytes
  received : 0 < bytes.length
  fits : bytes.length ≤ defaultBuflen

def Chunk.totalSize (c : Chunk) : BitVec 32 := BitVec.ofNat 32 c.bytes.length

/- Recv clears the whole buffer first; what the stack holds behind it is arbitrary. -/
def Chunk.recvBuffer (c : Chunk) (stack : Memory) : Memory :=
  buffer (c.bytes ++ List.replicate (defaultBuflen - c.bytes.length) 0) stack

structure CClientConnection where
  encryptionEnabled : Bool := false
  secret : Option CSharedSecret := none
  deriving DecidableEq, Repr

/- A payload with a null pointer is what `return {}` makes. -/
def readUnencryptedPacket (memory : Memory) (start : Nat) (maxSize : BitVec 32) :
    Except Fault (SPacketPayload × List Nat) := do
  let (payloadSize, reader) ← CPacketReader.onVarInt 0 { memory := memory, current := start }
  let (_, sizeCalc) ← CPacketSizeCalc.onVarInt payloadSize {}
  let (packetId, reader) ← CPacketReader.onVarInt 0 reader
  let finalPayloadSize := payloadSize + sizeCalc.getFullSize
  if finalPayloadSize > maxSize then pure ({}, reader.reads)
  else
    let source := { reader with current := start }
    pure ({ payload := some (source.take finalPayloadSize.toNat), packetId := packetId,
            size := finalPayloadSize }, (source.advance finalPayloadSize.toNat).reads)

structure IPacketHandler (σ : Type) where
  processPacket : SPacketPayload → σ → Except Fault (Bool × σ)

structure Delivery where
  payload : SPacketPayload
  offset : Nat
  reads : List Nat
  deriving DecidableEq, Repr

def Delivery.stop (d : Delivery) : Nat := d.offset + d.payload.size.toNat

structure Receiving (σ : Type) where
  start : Nat := 0
  totalOffset : BitVec 32 := 0
  world : σ
  socketOpen : Bool := true
  deliveries : List Delivery := []

inductive Outcome where
  | returned
  | fault (f : Fault)
  deriving DecidableEq, Repr

variable {σ : Type}

def recvBody (pHandler : IPacketHandler σ) (memory : Memory) (totalSize : BitVec 32) (s : Receiving σ) :
    Loop.Next (Receiving σ) (Outcome × Receiving σ) :=
  if ¬ s.totalOffset < totalSize then .leave (.returned, s)
  else match readUnencryptedPacket memory s.start totalSize with
    | .error f => .leave (.fault f, s)
    | .ok (payload, reads) =>
      if payload.payload = none then .leave (.returned, s)
      else
        let s := { s with
          start := s.start + payload.size.toNat
          totalOffset := s.totalOffset + payload.size
          deliveries := s.deliveries ++ [⟨payload, s.start, reads⟩] }
        match pHandler.processPacket payload s.world with
        | .error f => .leave (.fault f, s)
        | .ok (false, world) => .leave (.returned, { s with world := world, socketOpen := false })
        | .ok (true, world) => .again { s with world := world }

/- A turn takes at least a byte (announcedPositive), so the fuel loses no result: runWalk. -/
def recvLoop (pHandler : IPacketHandler σ) (memory : Memory) (totalSize : BitVec 32) (s : Receiving σ) :
    Outcome × Receiving σ :=
  (Loop.run (recvBody pHandler memory totalSize) (totalSize.toNat + 1) s).getD (.fault .hang, s)

/- What lies behind the string of the secret and behind the decrypted text. -/
structure Behind where
  secret : Memory
  text : Memory

/- The buffer the loop reads: the received one, or its decryption on the heap. -/
def CClientConnection.start (block : BlockFunction) (c : CClientConnection) (bufferStart : Memory) (heap : Behind)
    (totalSize : Nat) : Except Fault Memory :=
  if !c.encryptionEnabled then .ok bufferStart
  else match c.secret with
    | none => .error .nullDereference
    | some secret => .ok (buffer (decryptPacket block secret heap.secret (slice bufferStart 0 totalSize)) heap.text)

def recvPackets (block : BlockFunction) (c : CClientConnection) (pHandler : IPacketHandler σ)
    (chunk : Chunk) (stack : Memory) (heap : Behind) (world : σ) : Outcome × Receiving σ :=
  match c.start block (chunk.recvBuffer stack) heap chunk.bytes.length with
  | .error f => (.fault f, { world := world })
  | .ok memory => recvLoop pHandler memory chunk.totalSize { world := world }

/-! One frame, as its length prefix announces it. -/

def prefixSize (memory : Memory) (start : Nat) : BitVec 32 := varIntValue memory start 0

def prefixWidth (memory : Memory) (start : Nat) : Nat := (varIntBytes memory start).length

def idAt (memory : Memory) (start : Nat) : BitVec 32 := varIntValue memory (start + prefixWidth memory start) 0

def headerWidth (memory : Memory) (start : Nat) : Nat :=
  prefixWidth memory start + prefixWidth memory (start + prefixWidth memory start)

def announced (memory : Memory) (start : Nat) : Nat :=
  (prefixSize memory start).toNat + width (prefixSize memory start).toNat

def frameAt (memory : Memory) (start : Nat) : SPacketPayload where
  payload := some (slice memory start (announced memory start))
  packetId := idAt memory start
  size := BitVec.ofNat 32 (announced memory start)

def readsAt (memory : Memory) (start : Nat) : List Nat :=
  List.range' start (headerWidth memory start) ++ List.range' start (announced memory start)

theorem announcedPositive (memory : Memory) (start : Nat) : 0 < announced memory start := by
  have positive := widthPositive (prefixSize memory start).toNat
  unfold announced
  omega

theorem sizeFresh (v : BitVec 32) : CPacketSizeCalc.onVarInt v {} =
    if v.msb then .error .hang
    else .ok (v, { currentSize := BitVec.ofNat 32 (width v.toNat) }) := by
  simp only [CPacketSizeCalc.onVarInt, Bool.not_true, Bool.false_eq_true, ite_false, sizeRun]
  cases v.msb with
  | true => rfl
  | false => simp

theorem announcedWord {memory : Memory} {start : Nat} (positive : (prefixSize memory start).msb = false) :
    prefixSize memory start + BitVec.ofNat 32 (width (prefixSize memory start).toNat) =
      BitVec.ofNat 32 (announced memory start) ∧
    (BitVec.ofNat 32 (announced memory start)).toNat = announced memory start := by
  have half := BitVec.msb_eq_false_iff_two_mul_lt.mp positive
  have short := widthInt (prefixSize memory start)
  have word : (BitVec.ofNat 32 (announced memory start)).toNat = announced memory start := by
    rw [BitVec.toNat_ofNat, announced]
    omega
  refine ⟨?_, word⟩
  rw [announced, BitVec.ofNat_add, BitVec.ofNat_toNat, BitVec.setWidth_eq]

/- One call: a negative length hangs it, a length past maxSize makes a null payload. -/
theorem readExact (memory : Memory) (start : Nat) (maxSize : BitVec 32) :
    readUnencryptedPacket memory start maxSize =
      if (prefixSize memory start).msb then .error .hang
      else if announced memory start > maxSize.toNat then
        .ok ({}, List.range' start (headerWidth memory start))
      else .ok (frameAt memory start, readsAt memory start) := by
  have size : varIntValue memory start 0 = prefixSize memory start := rfl
  have id : varIntValue memory (start + (varIntBytes memory start).length) 0 = idAt memory start := rfl
  unfold readUnencryptedPacket
  rw [readerLoopLeaves, bindOk]
  simp only [size, sizeFresh]
  cases sign : (prefixSize memory start).msb with
  | true => rfl
  | false =>
    obtain ⟨total, word⟩ := announcedWord sign
    simp only [Bool.false_eq_true, ite_false, bindOk, readerLoopLeaves, CPacketSizeCalc.getFullSize, total,
      advanceTwice]
    simp only [CPacketReader.advance, id, gt_iff_lt, BitVec.lt_def, word, List.nil_append]
    split
    · rfl
    · rfl

/-! The whole loop, frame by frame. -/

/- The loop delivers the frame at `start`. -/
structure Taken (memory : Memory) (totalSize start : Nat) : Prop where
  unread : start < totalSize
  positive : (prefixSize memory start).msb = false
  bounded : announced memory start ≤ totalSize

def deliveryAt (memory : Memory) (start : Nat) : Delivery :=
  ⟨frameAt memory start, start, readsAt memory start⟩

inductive Walk (pHandler : IPacketHandler σ) (memory : Memory) (totalSize : Nat) :
    Nat → σ → List Delivery → Outcome → Bool → σ → Prop where
  | done {start w} (read : totalSize ≤ start) : Walk pHandler memory totalSize start w [] .returned true w
  | hang {start w} (unread : start < totalSize) (negative : (prefixSize memory start).msb = true) :
      Walk pHandler memory totalSize start w [] (.fault .hang) true w
  | tail {start w} (unread : start < totalSize) (positive : (prefixSize memory start).msb = false)
      (tooLong : totalSize < announced memory start) :
      Walk pHandler memory totalSize start w [] .returned true w
  | fault {start w f} (taken : Taken memory totalSize start)
      (failed : pHandler.processPacket (frameAt memory start) w = .error f) :
      Walk pHandler memory totalSize start w [deliveryAt memory start] (.fault f) true w
  | reject {start w w'} (taken : Taken memory totalSize start)
      (rejected : pHandler.processPacket (frameAt memory start) w = .ok (false, w')) :
      Walk pHandler memory totalSize start w [deliveryAt memory start] .returned false w'
  | next {start w w' rest o socketOpen last} (taken : Taken memory totalSize start)
      (handled : pHandler.processPacket (frameAt memory start) w = .ok (true, w'))
      (more : Walk pHandler memory totalSize (start + announced memory start) w' rest o socketOpen last) :
      Walk pHandler memory totalSize start w (deliveryAt memory start :: rest) o socketOpen last

def Receiving.deliver (memory : Memory) (s : Receiving σ) : Receiving σ :=
  { s with
    start := s.start + announced memory s.start
    totalOffset := s.totalOffset + BitVec.ofNat 32 (announced memory s.start)
    deliveries := s.deliveries ++ [deliveryAt memory s.start] }

theorem turnLeaves {pHandler : IPacketHandler σ} {memory : Memory} {totalSize : BitVec 32} {s : Receiving σ}
    (aligned : s.totalOffset.toNat = s.start) (read : totalSize.toNat ≤ s.start) :
    recvBody pHandler memory totalSize s = .leave (.returned, s) := by
  have stop : ¬ s.totalOffset < totalSize := by
    rw [BitVec.lt_def]
    omega
  rw [recvBody, if_pos stop]

theorem turnReads {pHandler : IPacketHandler σ} {memory : Memory} {totalSize : BitVec 32} {s : Receiving σ}
    (aligned : s.totalOffset.toNat = s.start) (unread : s.start < totalSize.toNat) :
    recvBody pHandler memory totalSize s =
      if (prefixSize memory s.start).msb then .leave (.fault .hang, s)
      else if announced memory s.start > totalSize.toNat then .leave (.returned, s)
      else match pHandler.processPacket (frameAt memory s.start) s.world with
        | .error f => .leave (.fault f, s.deliver memory)
        | .ok (false, world) => .leave (.returned, { s.deliver memory with world := world, socketOpen := false })
        | .ok (true, world) => .again { s.deliver memory with world := world } := by
  have go : ¬ ¬ s.totalOffset < totalSize := by
    rw [BitVec.lt_def]
    omega
  rw [recvBody, if_neg go, readExact]
  cases sign : (prefixSize memory s.start).msb with
  | true => rfl
  | false =>
    have word := (announcedWord sign).2
    simp only [Bool.false_eq_true, ite_false]
    rcases Nat.lt_or_ge totalSize.toNat (announced memory s.start) with tooLong | within
    · rw [if_pos tooLong, if_pos tooLong]
      rfl
    · rw [if_neg (Nat.not_lt.mpr within), if_neg (Nat.not_lt.mpr within)]
      simp only [frameAt, reduceCtorEq, ite_false, word, Receiving.deliver, deliveryAt]

/- A delivery moves both cursors by the size of its frame. -/
theorem deliverAligned {memory : Memory} {s : Receiving σ} {totalSize : Nat}
    (aligned : s.totalOffset.toNat = s.start) (taken : Taken memory totalSize s.start) (small : totalSize < 2^30) :
    (s.deliver memory).totalOffset.toNat = (s.deliver memory).start := by
  have word := (announcedWord taken.positive).2
  have unread := taken.unread
  have bounded := taken.bounded
  simp only [Receiving.deliver]
  rw [BitVec.toNat_add, word]
  omega

/- Fuel for every byte that is left runs the loop to its end. -/
theorem runWalk {pHandler : IPacketHandler σ} {memory : Memory} {totalSize : BitVec 32}
    (small : totalSize.toNat < 2^30) {fuel : Nat} {s : Receiving σ} (aligned : s.totalOffset.toNat = s.start)
    (isOpen : s.socketOpen = true) (enough : totalSize.toNat < fuel + s.start) (positive : 0 < fuel) :
    ∃ o t ds, Loop.run (recvBody pHandler memory totalSize) fuel s = some (o, t) ∧
      t.deliveries = s.deliveries ++ ds ∧
      Walk pHandler memory totalSize.toNat s.start s.world ds o t.socketOpen t.world := by
  induction fuel generalizing s with
  | zero => omega
  | succ fuel ih =>
    rcases Nat.lt_or_ge s.start totalSize.toNat with unread | read
    · have turn : recvBody pHandler memory totalSize s = _ := turnReads aligned unread
      cases sign : (prefixSize memory s.start).msb with
      | true =>
        rw [if_pos sign] at turn
        exact ⟨_, s, [], Loop.runLeave turn fuel, by simp, isOpen ▸ .hang unread sign⟩
      | false =>
        rw [if_neg (by simp [sign])] at turn
        rcases Nat.lt_or_ge totalSize.toNat (announced memory s.start) with tooLong | within
        · rw [if_pos tooLong] at turn
          exact ⟨_, s, [], Loop.runLeave turn fuel, by simp, isOpen ▸ .tail unread sign tooLong⟩
        · rw [if_neg (Nat.not_lt.mpr within)] at turn
          have taken : Taken memory totalSize.toNat s.start := ⟨unread, sign, within⟩
          cases answer : pHandler.processPacket (frameAt memory s.start) s.world with
          | error f =>
            simp only [answer] at turn
            exact ⟨_, _, [deliveryAt memory s.start], Loop.runLeave turn fuel, rfl,
              isOpen ▸ .fault taken answer⟩
          | ok result =>
            obtain ⟨accepted, world⟩ := result
            cases accepted with
            | false =>
              simp only [answer] at turn
              exact ⟨_, _, [deliveryAt memory s.start], Loop.runLeave turn fuel, rfl, .reject taken answer⟩
            | true =>
              simp only [answer] at turn
              have more := announcedPositive memory s.start
              obtain ⟨o, t, ds, run, delivered, walk⟩ := ih (s := { s.deliver memory with world := world })
                (deliverAligned aligned taken small) isOpen (by simp only [Receiving.deliver]; omega) (by omega)
              refine ⟨o, t, deliveryAt memory s.start :: ds, (Loop.runAgain turn fuel).trans run, ?_,
                .next taken answer walk⟩
              rw [delivered]
              simp [Receiving.deliver]
    · exact ⟨.returned, s, [], Loop.runLeave (turnLeaves aligned read) fuel, by simp, isOpen ▸ .done read⟩

theorem recvLoopWalk {pHandler : IPacketHandler σ} {memory : Memory} {totalSize : BitVec 32}
    (small : totalSize.toNat < 2^30) (w : σ) : ∃ o t,
      recvLoop pHandler memory totalSize { world := w } = (o, t) ∧
      Walk pHandler memory totalSize.toNat 0 w t.deliveries o t.socketOpen t.world := by
  obtain ⟨o, t, ds, run, delivered, walk⟩ :
      ∃ o t ds, Loop.run (recvBody pHandler memory totalSize) (totalSize.toNat + 1) { world := w } =
        some (o, t) ∧ t.deliveries = [] ++ ds ∧
        Walk pHandler memory totalSize.toNat 0 w ds o t.socketOpen t.world :=
    runWalk small rfl rfl (Nat.lt_succ_self _) (Nat.succ_pos _)
  refine ⟨o, t, ?_, ?_⟩
  · rw [recvLoop, run, Option.getD_some]
  · rw [delivered, List.nil_append]
    exact walk

end Mcpp.ClientConnection
