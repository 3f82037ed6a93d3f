import Mcpp.Boundary
import Mcpp.Frames

/-! A connection that is sent whole frames. What a list of payloads does to a session is
put together from what each does; how the frames behind them are cut into chunks, what is
sent in between and what lies in memory make no difference, in the clear and encrypted. -/
namespace Mcpp.Serving
open Buffers Uuid PacketVisitor Packets SharedSecret ShiftCipher Wire ClientConnection Framing Frames Sending
open MCPlayer (IGlobalEnvironment Session processPacket)
open Run Boundary

variable {env : IGlobalEnvironment} {block : BlockFunction} {c : CClientConnection}

/- Every session in `P` takes the payload, whatever the call meets, and is then in `Q`. -/
def Takes (env : IGlobalEnvironment) (P : Session → Prop) (payload : SPacketPayload) (Q : Session → Prop) : Prop :=
  ∀ s (x : Surroundings), P s →
    ∃ t, processPacket env payload x.past x.uninitialised x.random s = .ok (true, t) ∧ Q t

/- Payloads taken one after the other, each by a session whose connection is `c`. -/
inductive Serves (env : IGlobalEnvironment) (c : CClientConnection) :
    (Session → Prop) → List SPacketPayload → (Session → Prop) → Prop where
  | nil {P : Session → Prop} : Serves env c P [] P
  | cons {P Q R : Session → Prop} {payload rest} (same : ∀ s, P s → s.connection = c) (takes : Takes env P payload Q)
      (more : Serves env c Q rest R) : Serves env c P (payload :: rest) R

variable {P Q : Session → Prop}

theorem servesSplit {a b : List SPacketPayload} (serves : Serves env c P (a ++ b) Q) :
    ∃ R, Serves env c P a R ∧ Serves env c R b Q := by
  induction a generalizing P with
  | nil => exact ⟨P, .nil, serves⟩
  | cons payload rest ih =>
    cases serves with
    | cons same takes more =>
      obtain ⟨R, first, second⟩ := ih more
      exact ⟨R, .cons same takes first, second⟩

theorem servesDispatch {payloads : List SPacketPayload} (serves : Serves env c P payloads Q)
    (supply : Nat → Surroundings) {w : World} (start : P w.session) :
    ∃ last, dispatch (handler env supply) payloads w = ⟨payloads, .returned, true, last⟩ ∧ Q last.session := by
  induction serves generalizing w with
  | nil => exact ⟨w, rfl, start⟩
  | cons same takes more ih =>
    obtain ⟨t, answer, held⟩ := takes w.session (supply w.behind.length) start
    obtain ⟨last, rest, done⟩ := ih (w := ⟨t, w.behind ++ [secured w.session]⟩) held
    refine ⟨last, ?_, done⟩
    simp only [dispatch, handler, answer] at rest ⊢
    rw [rest]

/- What the peer puts on the wire: one stream from the IV for a chunk, once there is a key. -/
def onWire (block : BlockFunction) (c : CClientConnection) (bytes : Bytes) : Bytes :=
  match c.encryptionEnabled, c.secret with
  | true, some secret => encryptPacket block secret (fun _ => 0) bytes
  | _, _ => bytes

/- The same undone. -/
def offWire (block : BlockFunction) (c : CClientConnection) (wire : Bytes) : Bytes :=
  match c.encryptionEnabled, c.secret with
  | true, some secret => decryptPacket block secret (fun _ => 0) wire
  | _, _ => wire

/- Encryption is off, or on with a key of sixteen bytes. -/
def Usable (c : CClientConnection) : Prop :=
  c.encryptionEnabled = false ∨ c.encryptionEnabled = true ∧ ∃ secret, c.secret = some secret ∧ secret.secret.length = 16

theorem onWireLength (bytes : Bytes) : (onWire block c bytes).length = bytes.length := by
  unfold onWire
  split
  · exact encryptLength ..
  · rfl

theorem onWireKeyed {secret : CSharedSecret} (on : c.encryptionEnabled = true) (keyed : c.secret = some secret)
    (sized : secret.secret.length = 16) (heap : Memory) (bytes : Bytes) :
    onWire block c bytes = encryptPacket block secret heap bytes := by
  rw [onWire, on, keyed]
  simp only [encryptPacket, keyExact sized]

theorem outgoingExact (usable : Usable c) (d : Dequeued) (heap : Memory) :
    outgoing block c heap d = .ok (onWire block c d.bytes) := by
  rcases usable with off | ⟨on, secret, keyed, sized⟩
  · simp [outgoing, onWire, off]
  · rw [onWireKeyed on keyed sized heap]
    simp [outgoing, on, keyed]

theorem offWireOnWire (bytes : Bytes) : offWire block c (onWire block c bytes) = bytes := by
  unfold offWire onWire
  cases on : c.encryptionEnabled with
  | false => rfl
  | true =>
    cases keyed : c.secret with
    | none => rfl
    | some secret => exact decryptEncrypt ..

/- The loop over the chunk reads what the peer wrote. -/
theorem startHolds (usable : Usable c) {chunk : Chunk} {bytes : Bytes} (arrives : chunk.bytes = onWire block c bytes)
    (stack : Memory) (heap : Behind) : ∃ memory,
      c.start block (chunk.recvBuffer stack) heap chunk.bytes.length = .ok memory ∧ Holds memory 0 bytes := by
  have received := recvBufferHolds chunk stack
  rcases usable with off | ⟨on, secret, keyed, sized⟩
  · refine ⟨chunk.recvBuffer stack, by simp [CClientConnection.start, off], ?_⟩
    rw [arrives, onWire, off] at received
    exact received
  · refine ⟨_, by simp only [CClientConnection.start, on, keyed]; rfl, ?_⟩
    have plain : decryptPacket block secret heap.secret (slice (chunk.recvBuffer stack) 0 chunk.bytes.length) = bytes := by
      rw [received, arrives, onWireKeyed on keyed sized heap.secret]
      exact decryptEncrypt ..
    rw [plain]
    simpa using bufferHolds [] bytes [] heap.text

/- A chunk of whole frames is dispatched frame by frame. -/
theorem wholeDispatched {σ : Type} (usable : Usable c) {group : List Frame} {chunk : Chunk}
    (arrives : chunk.bytes = onWire block c (group.flatMap Frame.bytes)) (pHandler : IPacketHandler σ)
    (stack : Memory) (heap : Behind) (w : σ) :
    handled (recvPackets block c pHandler chunk stack heap w) = dispatch pHandler (group.map Frame.payload) w := by
  have fits := chunk.fits
  unfold defaultBuflen at fits
  have length : chunk.bytes.length = (group.flatMap Frame.bytes).length := by rw [arrives, onWireLength]
  obtain ⟨memory, started, held⟩ := startHolds usable arrives stack heap
  obtain ⟨o, t, ran, walk⟩ := startedWalk started pHandler w
  rw [ran, walkFrames (by omega) held (by omega) walk]
  rfl

theorem receiveServes (usable : Usable c) {group : List Frame} {chunk : Chunk}
    (arrives : chunk.bytes = onWire block c (group.flatMap Frame.bytes)) (stack : Memory) (heap : Behind)
    (supply : Nat → Surroundings) (serves : Serves env c P (group.map Frame.payload) Q) {s : Session} (start : P s) :
    ∃ t, step env block (.receive chunk stack heap supply) { session := s } = .ok { session := t } ∧ Q t := by
  have same : s.connection = c := by
    cases group with
    | nil =>
      have received := chunk.received
      simp [arrives, onWireLength] at received
    | cons f rest =>
      cases serves with
      | cons same takes more => exact same s start
  subst same
  obtain ⟨last, dispatched, done⟩ := servesDispatch serves supply (w := { session := s }) start
  have whole := wholeDispatched usable arrives (handler env supply) stack heap { session := s }
  obtain ⟨_, returned, isOpen, world⟩ := Handled.mk.inj (whole.trans dispatched)
  refine ⟨last.session, ?_, done⟩
  simp only [step, receiving, Bool.not_true, Bool.false_eq_true, ite_false]
  generalize recvPackets block s.connection (handler env supply) chunk stack heap { session := s } = result at *
  obtain ⟨o, t⟩ := result
  obtain rfl : o = .returned := returned
  simp only at isOpen world
  simp only [isOpen, world]

/- Events that bring the frames, each chunk some of them whole, with sends in between. -/
inductive Brings (block : BlockFunction) (c : CClientConnection) : List Boundary.Event → List Frame → Prop where
  | nil : Brings block c [] []
  | sent {d : Dequeued} {events f frames} (alive : d.failed = false) (heap : Memory)
      (more : Brings block c events (f :: frames)) : Brings block c (.send d heap :: events) (f :: frames)
  | received {chunk : Chunk} {group events frames} (arrives : chunk.bytes = onWire block c (group.flatMap Frame.bytes))
      (stack : Memory) (heap : Behind) (supply : Nat → Surroundings) (more : Brings block c events frames) :
      Brings block c (.receive chunk stack heap supply :: events) (group ++ frames)

/- The run rule. -/
theorem servesRun (usable : Usable c) {events : List Boundary.Event} {frames : List Frame}
    (brings : Brings block c events frames) (serves : Serves env c P (frames.map Frame.payload) Q) {s : Session}
    (start : P s) : ∃ t, Path (step env block) { session := s } events { session := t } ∧ Q t := by
  induction brings generalizing P s with
  | nil =>
    cases serves with
    | nil => exact ⟨s, .start, start⟩
  | @sent d events f frames alive heap more ih =>
    obtain ⟨t, path, done⟩ := ih serves start
    have same : s.connection = c := by
      cases serves with
      | cons same takes more => exact same s start
    have quiet : step env block (.send d heap) { session := s } = .ok { session := s } := by
      rcases usable with off | ⟨on, secret, keyed, _⟩
      · simp [step, outgoing, same, off, alive]
      · simp [step, outgoing, same, on, keyed, alive]
    have one : Path (step env block) { session := s } ([] ++ [.send d heap]) { session := s } := .next .start quiet
    exact ⟨t, pathAppend one path, done⟩
  | @received chunk group events frames arrives stack heap supply more ih =>
    rw [List.map_append] at serves
    obtain ⟨R, first, rest⟩ := servesSplit serves
    obtain ⟨u, received, between⟩ := receiveServes usable arrives stack heap supply first start
    obtain ⟨t, path, done⟩ := ih rest between
    have one : Path (step env block) { session := s } ([] ++ [.receive chunk stack heap supply]) { session := u } :=
      .next .start received
    exact ⟨t, pathAppend one path, done⟩

end Mcpp.Serving
