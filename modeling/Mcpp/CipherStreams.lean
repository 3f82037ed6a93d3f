import Mcpp.Resync
import Mcpp.Serving

/-! What one CFB8 stream loses to a server that starts over. A client of the protocol keeps
one stream in each direction; RecvPackets starts over with every chunk and SendQueuedPackets
with every packet. All but the first of them come out wrong, in their first sixteen bytes at
most. -/
namespace Mcpp.CipherStreams
open Buffers PacketVisitor SharedSecret ShiftCipher Wire ClientConnection Framing Sending Resync Serving

/- Cipher feedback over AES with the key for its IV, as a client runs it. -/
def clientEncrypt (block : BlockFunction) (key plain : Bytes) : Bytes := encrypt xorMask (keystream block key) key plain

def clientDecrypt (block : BlockFunction) (key wire : Bytes) : Bytes := decrypt xorMask (keystream block key) key wire

/- The bytes of a chunk as the loop of RecvPackets reads them. -/
def reads (block : BlockFunction) (c : CClientConnection) (stack : Memory) (heap : Behind) (chunk : Chunk) : Except Fault Bytes := do
  let memory ← c.start block (chunk.recvBuffer stack) heap chunk.bytes.length
  pure (slice memory 0 chunk.bytes.length)

/- What SendQueuedPackets hands to Send for a list of packets, one after the other. -/
def writes (block : BlockFunction) (c : CClientConnection) (heap : Memory) (ds : List Dequeued) : Except Fault Bytes := do
  let wires ← ds.mapM (outgoing block c heap)
  pure wires.flatten

/- What is to hold of an encrypted connection whose client keeps one stream each way. -/
structure Resynchronises (block : BlockFunction) (key : Bytes) : Prop where
  received : ∀ (c : CClientConnection) stack heap (chunks : List Chunk) plain, c.encryptionEnabled = true →
    c.secret = some ⟨key⟩ → (chunks.flatMap Chunk.bytes) = clientEncrypt block key plain →
    List.Forall₂ (fun chunk text => ∃ bytes, reads block c stack heap chunk = .ok bytes ∧ AgreesFrom 16 bytes text) chunks
      (cut (chunks.map fun chunk => chunk.bytes.length) plain) ∧
    ∀ first rest, chunks = first :: rest → reads block c stack heap first = .ok (plain.take first.bytes.length)
  sent : ∀ (c : CClientConnection) heap (ds : List Dequeued), c.encryptionEnabled = true → c.secret = some ⟨key⟩ →
    ∃ wire, writes block c heap ds = .ok wire ∧
    List.Forall₂ (fun text d => AgreesFrom 16 text d.bytes) (cut (ds.map fun d => d.bytes.length) (clientDecrypt block key wire)) ds ∧
    ∀ first rest, ds = first :: rest → (clientDecrypt block key wire).take first.bytes.length = first.bytes

variable {block : BlockFunction} {c : CClientConnection} {key : Bytes}

theorem nonemptyKey (sized : key.length = 16) : key ≠ [] := by
  rintro rfl
  simp at sized

theorem readsExact (on : c.encryptionEnabled = true) (keyed : c.secret = some ⟨key⟩) (sized : key.length = 16)
    (stack : Memory) (heap : Behind) (chunk : Chunk) :
    reads block c stack heap chunk = .ok (clientDecrypt block key chunk.bytes) := by
  have received : slice (chunk.recvBuffer stack) 0 chunk.bytes.length = chunk.bytes := recvBufferHolds chunk stack
  have exact : CSharedSecret.key ⟨key⟩ heap.secret = key := keyExact sized
  have plain : decryptPacket block ⟨key⟩ heap.secret (slice (chunk.recvBuffer stack) 0 chunk.bytes.length) =
      clientDecrypt block key chunk.bytes := by
    rw [received, decryptPacket, exact]
    rfl
  have length : (clientDecrypt block key chunk.bytes).length = chunk.bytes.length := decryptLength ..
  have started : c.start block (chunk.recvBuffer stack) heap chunk.bytes.length =
      .ok (buffer (clientDecrypt block key chunk.bytes) heap.text) := by
    simp only [CClientConnection.start, on, keyed, plain]
    rfl
  have whole : slice (buffer (clientDecrypt block key chunk.bytes) heap.text) 0 chunk.bytes.length =
      clientDecrypt block key chunk.bytes := by
    rw [bufferSlice (by omega), List.drop_zero, List.take_of_length_le (by omega)]
  rw [reads, started, bindOk, whole]
  rfl

theorem writesExact (on : c.encryptionEnabled = true) (keyed : c.secret = some ⟨key⟩) (sized : key.length = 16)
    (heap : Memory) (ds : List Dequeued) : writes block c heap ds =
      .ok (sent xorMask (keystream block key) key (ds.map Dequeued.bytes)) := by
  have each : outgoing block c heap = fun d => .ok (clientEncrypt block key d.bytes) := by
    funext d
    have exact : CSharedSecret.key ⟨key⟩ heap = key := keyExact sized
    simp only [outgoing, on, keyed, encryptPacket, exact]
    rfl
  have all : ds.mapM (outgoing block c heap) = .ok (ds.map fun d => clientEncrypt block key d.bytes) := by
    rw [each]
    exact List.mapM_pure ..
  rw [writes, all, bindOk, sent, List.flatMap_def, List.map_map]
  rfl

theorem receivesLater (on : c.encryptionEnabled = true) (keyed : c.secret = some ⟨key⟩) (sized : key.length = 16)
    (stack : Memory) (heap : Behind) {chunks : List Chunk} {plain : Bytes}
    (whole : (chunks.map Chunk.bytes).flatten = clientEncrypt block key plain) :
    List.Forall₂ (fun chunk text => ∃ bytes, reads block c stack heap chunk = .ok bytes ∧ AgreesFrom 16 bytes text) chunks
      (cut (chunks.map fun chunk => chunk.bytes.length) plain) := by
  have pieces := restartedPieces rfl (nonemptyKey sized) whole
  rw [List.map_map, List.forall₂_map_left_iff] at pieces
  refine pieces.imp ?_
  intro chunk text agrees
  rw [sized] at agrees
  exact ⟨_, readsExact on keyed sized stack heap chunk, agrees⟩

theorem sendsLater (block : BlockFunction) (sized : key.length = 16) (ds : List Dequeued) :
    List.Forall₂ (fun text d => AgreesFrom 16 text d.bytes) (cut (ds.map fun d => d.bytes.length)
      (clientDecrypt block key (sent xorMask (keystream block key) key (ds.map Dequeued.bytes)))) ds := by
  have messages := continuedMessages xorMask (keystream block key) rfl (nonemptyKey sized)
    (ds.map Dequeued.bytes)
  rw [List.map_map, List.forall₂_map_right_iff, sized] at messages
  exact messages

theorem resynchronises (block : BlockFunction) {key : Bytes} (sized : key.length = 16) : Resynchronises block key := by
  refine ⟨?_, ?_⟩
  · intro c stack heap chunks plain on keyed whole
    rw [List.flatMap_def] at whole
    refine ⟨receivesLater on keyed sized stack heap whole, ?_⟩
    rintro first rest rfl
    rw [readsExact on keyed sized, clientDecrypt, firstPiece whole]
  · intro c heap ds on keyed
    refine ⟨_, writesExact on keyed sized heap ds, sendsLater block sized ds, ?_⟩
    rintro first rest rfl
    exact firstMessage ..

theorem resynchronisesZeros : Resynchronises (fun _ _ => []) (List.replicate 16 0) := resynchronises _ rfl

end Mcpp.CipherStreams
