import Mcpp.Conversation

/-! From one end of a connection to the other: packets that are serialized, queued and sent
over any number of ticks, and a peer that reads them with this code. Where each send() takes
everything and no chunk ends inside a frame, the peer handles the packets that were queued, in
their order; with encryption on each chunk has to be one packet. -/
namespace Mcpp.Transport
open Buffers Uuid PacketVisitor Packets SharedSecret ShiftCipher Wire SerializePacket ClientConnection Frames Sending
open Serving Conversation

variable {block : BlockFunction} {c : CClientConnection}

def Codec.frame : Codec → Frame
  | .handshake p => frameOf p
  | .loginStart p => frameOf p
  | .loginSuccess p => frameOf p
  | .encryptionRequest p => frameOf p

def Codec.serialize : Codec → Except Fault SPacketPayload
  | .handshake p => serializePacket p
  | .loginStart p => serializePacket p
  | .loginSuccess p => serializePacket p
  | .encryptionRequest p => serializePacket p

/- A reader of its type finds in the bytes, whatever lies behind them, what the packet carries. -/
def Codec.ReadFrom (bytes : Bytes) : Codec → Prop
  | .handshake p => ∀ past, ∃ size r,
      Packets.serialize CPacketReader.visitor SHandshake.fresh { memory := buffer bytes past } = .ok (sized size p, r) ∧
      r.current = bytes.length
  | .loginStart p => ∀ past uninitialised, ∃ size r,
      Packets.serialize CPacketReader.visitor (SLoginStart.fresh uninitialised) { memory := buffer bytes past } =
        .ok (sized size p, r) ∧ r.current = bytes.length
  | .loginSuccess p => ∀ past uninitialised, ∃ size r,
      Packets.serialize CPacketReader.visitor (SLoginSuccess.fresh uninitialised) { memory := buffer bytes past } =
        .ok ({ sized size p with properties := [] }, r) ∧ r.current = bytes.length
  | .encryptionRequest p => ∀ past, ∃ size r,
      Packets.serialize CPacketReader.visitor SEncryptionRequest.fresh { memory := buffer bytes past } =
        .ok ({ sized size p with publicKeyLength := 0, verifyTokenLength := 0 }, r) ∧ r.current = bytes.length

theorem codecSerialized {p : Codec} (limits : p.InLimits) : Codec.serialize p = .ok (Codec.frame p).payload := by
  cases p with
  | handshake p => exact serializedFrame (handshakeWithin limits)
  | loginStart p => exact serializedFrame (loginStartWithin limits)
  | loginSuccess p => exact serializedFrame (loginSuccessWithin limits.1.1 limits.2)
  | encryptionRequest p => exact serializedFrame (requestWithin limits)

theorem codecRead {p : Codec} (limits : p.InLimits) : Codec.ReadFrom (Codec.frame p).bytes p := by
  cases p with
  | handshake p =>
    intro past
    obtain ⟨size, r, read, stop⟩ := frameReads (handshakeWithin limits) (handshakeRoundTrips limits) past
    exact ⟨size, r, read, stop⟩
  | loginStart p =>
    intro past uninitialised
    obtain ⟨size, r, read, stop⟩ :=
      frameReads (loginStartWithin limits) (loginStartRoundTrips limits uninitialised) past
    exact ⟨size, r, read, stop⟩
  | loginSuccess p =>
    intro past uninitialised
    obtain ⟨size, r, read, stop⟩ :=
      frameReads (loginSuccessWithin limits.1.1 limits.2) (loginSuccessRoundTrips limits uninitialised) past
    exact ⟨size, r, read, stop⟩
  | encryptionRequest p =>
    intro past
    obtain ⟨size, r, read, stop⟩ := frameReads (requestWithin limits) (encryptionRequestRoundTrips limits) past
    exact ⟨size, r, read, stop⟩

theorem codecSized {p : Codec} (limits : p.InLimits) :
    (Codec.frame p).payload.size.toNat = (Codec.frame p).bytes.length := by
  cases p with
  | handshake p => exact framedSmall (handshakeWithin limits)
  | loginStart p => exact framedSmall (loginStartWithin limits)
  | loginSuccess p => exact framedSmall (loginSuccessWithin limits.1.1 limits.2)
  | encryptionRequest p => exact framedSmall (requestWithin limits)

/-! Sending. -/

/- The payload of a packet, and a send() that takes all of it. -/
structure Queued (d : Dequeued) (p : Codec) : Prop where
  limits : p.InLimits
  serialized : Codec.serialize p = .ok d.payload
  whole : d.result = .took d.payload.size.toNat

theorem queuedBytes {d : Dequeued} {p : Codec} (queued : Queued d p) :
    d.payload = (Codec.frame p).payload ∧ d.bytes = (Codec.frame p).bytes := by
  have same : d.payload = (Codec.frame p).payload :=
    Except.ok.inj (queued.serialized.symm.trans (codecSerialized queued.limits))
  exact ⟨same, frameSent (codecSized queued.limits) same⟩

def wire (block : BlockFunction) (c : CClientConnection) (packets : List Codec) : Bytes :=
  packets.flatMap fun p => onWire block c (Codec.frame p).bytes

/- One tick puts its packets on the wire and leaves the socket open. -/
theorem sendsWhole (block : BlockFunction) (heap : Memory) (usable : Usable c) {queue : List Dequeued} {packets : List Codec}
    (queued : List.Forall₂ Queued queue packets) {s : Outbound} (isOpen : s.socketOpen = true) :
    ∃ t, sendQueuedPackets block c heap queue s = .ok (true, t) ∧ t.socketOpen = true ∧
      t.accepted = s.accepted ++ wire block c packets := by
  induction queued generalizing s with
  | nil => exact ⟨s, rfl, isOpen, by simp [wire]⟩
  | @cons d p queue packets first rest ih =>
    obtain ⟨same, bytes⟩ := queuedBytes first
    have all : (onWire block c d.bytes).take d.payload.size.toNat = onWire block c (Codec.frame p).bytes := by
      rw [List.take_of_length_le (by rw [onWireLength, Sending.bytesLength]), bytes]
    obtain ⟨t, sent, still, accepted⟩ := ih (s := { s with
      dequeued := s.dequeued ++ [d], accepted := s.accepted ++ onWire block c (Codec.frame p).bytes }) isOpen
    refine ⟨t, ?_, still, ?_⟩
    · simp only [sendQueuedPackets, outgoingExact usable, bindOk, first.whole, send, all, Bool.not_true,
        Bool.false_eq_true, ite_false]
      exact sent
    · rw [accepted]
      simp [wire]

theorem queuedMem {α β : Type} {R : α → β → Prop} {as : List α} {bs : List β} (related : List.Forall₂ R as bs) {b : β}
    (mem : b ∈ bs) : ∃ a ∈ as, R a b := by
  induction related with
  | nil => simp at mem
  | cons first rest ih =>
    rcases List.mem_cons.mp mem with rfl | later
    · exact ⟨_, List.mem_cons_self .., first⟩
    · obtain ⟨a, inside, held⟩ := ih later
      exact ⟨a, List.mem_cons_of_mem _ inside, held⟩

theorem ticksWhole (block : BlockFunction) (heap : Memory) (usable : Usable c) {ticks : List (List Dequeued)} {groups : List (List Codec)}
    (queued : List.Forall₂ (List.Forall₂ Queued) ticks groups) {s : Outbound} (isOpen : s.socketOpen = true) :
    ∃ t, sendTicks block c heap ticks s = .ok t ∧ t.socketOpen = true ∧
      t.accepted = s.accepted ++ wire block c groups.flatten := by
  induction queued generalizing s with
  | nil => exact ⟨s, rfl, isOpen, by simp [wire]⟩
  | @cons queue group ticks groups first rest ih =>
    obtain ⟨u, sent, still, accepted⟩ := sendsWhole block heap usable first isOpen
    obtain ⟨t, done, last, all⟩ := ih still
    refine ⟨t, ?_, last, ?_⟩
    · simp only [sendTicks, sendTick, isOpen, Bool.not_true, Bool.false_eq_true, ite_false, sent, bindOk]
      exact done
    · rw [all, accepted, List.flatten_cons]
      simp [wire]

/-! Receiving. -/

/- Chunks of these sizes end where packets end; encrypted, each is one packet. -/
structure Aligned (c : CClientConnection) (sizes : List Nat) (frames : List Frame) (groups : List (List Frame)) : Prop where
  whole : groups.flatten = frames
  sizes : sizes = groups.map fun group => (group.flatMap Frame.bytes).length
  single : c.encryptionEnabled = true → ∀ group ∈ groups, ∃ f, group = [f]

theorem groupWire {group : List Frame} (single : c.encryptionEnabled = true → ∃ f, group = [f]) :
    onWire block c (group.flatMap Frame.bytes) = group.flatMap fun f => onWire block c f.bytes := by
  cases on : c.encryptionEnabled with
  | false => simp [onWire, on]
  | true =>
    obtain ⟨f, rfl⟩ := single on
    simp

/- The pieces are what was put on the wire for each group. -/
theorem alignedPieces {sizes : List Nat} {frames : List Frame} {groups : List (List Frame)}
    (aligned : Aligned c sizes frames groups) {pieces : List Bytes} (lengths : pieces.map List.length = sizes)
    (all : pieces.flatten = frames.flatMap fun f => onWire block c f.bytes) :
    pieces = groups.map fun group => onWire block c (group.flatMap Frame.bytes) := by
  have same : pieces.map List.length =
      (groups.map fun group => onWire block c (group.flatMap Frame.bytes)).map List.length := by
    rw [lengths, aligned.sizes, List.map_map]
    refine List.map_congr_left ?_
    intro group mem
    exact (onWireLength _).symm
  have flat : pieces.flatten = (groups.map fun group => onWire block c (group.flatMap Frame.bytes)).flatten := by
    rw [all, ← aligned.whole, List.flatten_eq_flatMap, List.flatMap_assoc, ← List.flatMap_def]
    refine List.flatMap_congr ?_
    intro group mem
    exact (groupWire (fun on => aligned.single on group mem)).symm
  rw [← cutFlatten pieces, same, flat, cutFlatten]

theorem recvAllWhole {σ : Type} (usable : Usable c) (f : SPacketPayload → σ → σ) {recvs : List Recv}
    {groups : List (List Frame)} (pieces : recvs.map (fun r => r.chunk.bytes) =
      groups.map fun group => onWire block c (group.flatMap Frame.bytes)) (w : σ) :
    recvAll block c (accepting f) recvs w = groups.flatten.map Frame.payload := by
  induction recvs generalizing groups w with
  | nil =>
    cases groups with
    | nil => rfl
    | cons group groups => simp at pieces
  | cons r recvs ih =>
    cases groups with
    | nil => simp at pieces
    | cons group groups =>
      obtain ⟨first, rest⟩ := List.cons.inj pieces
      have calls := wholeDispatched usable first (accepting f) r.stack r.heap w
      rw [dispatchAccepting] at calls
      rw [recvAll, calls, List.flatten_cons, List.map_append]
      exact congrArg (group.map Frame.payload ++ ·) (ih rest _)

/- What is to hold of a connection with the same state on both ends: all that was queued is
sent, and a peer whose chunks end where packets end is handed one payload for each packet, in
order, from which a reader of its type gets the packet back. -/
structure Transported (block : BlockFunction) (c : CClientConnection) (ticks : List (List Dequeued)) (packets : List Codec) :
    Prop where
  sent : ∀ heap, ∃ out, sendTicks block c heap ticks {} = .ok out ∧ out.socketOpen = true ∧
    out.accepted = wire block c packets
  received : ∀ (recvs : List Recv) groups, (recvs.flatMap fun r => r.chunk.bytes) = wire block c packets →
    Aligned c (recvs.map fun r => r.chunk.bytes.length) (packets.map Codec.frame) groups →
    ∀ (σ : Type) (f : SPacketPayload → σ → σ) w,
      recvAll block c (accepting f) recvs w = packets.map fun p => (Codec.frame p).payload
  read : ∀ p ∈ packets, Codec.ReadFrom (Codec.frame p).bytes p

theorem packetsTransported (block : BlockFunction) (usable : Usable c) {ticks : List (List Dequeued)}
    {groups : List (List Codec)} (queued : List.Forall₂ (List.Forall₂ Queued) ticks groups) :
    Transported block c ticks groups.flatten := by
  refine ⟨?_, ?_, ?_⟩
  · intro heap
    obtain ⟨out, sent, isOpen, accepted⟩ := ticksWhole block heap usable queued (s := {}) rfl
    exact ⟨out, sent, isOpen, accepted⟩
  · intro recvs chunks whole aligned σ f w
    have lengths : (recvs.map fun r => r.chunk.bytes).map List.length = recvs.map fun r => r.chunk.bytes.length := by simp
    have all : (recvs.map fun r => r.chunk.bytes).flatten =
        (groups.flatten.map Codec.frame).flatMap fun f => onWire block c f.bytes := by
      rw [← List.flatMap_def, whole, wire, List.flatMap_map]
    rw [recvAllWhole usable f (alignedPieces aligned lengths all), aligned.whole, List.map_map]
    rfl
  · intro p mem
    obtain ⟨group, inside, mem⟩ := List.mem_flatten.mp mem
    obtain ⟨queue, _, one⟩ := queuedMem queued inside
    obtain ⟨d, _, first⟩ := queuedMem one mem
    exact codecRead first.limits

/- A packet whose send() takes all of it. -/
def whole (p : Codec) : Dequeued where
  payload := (Codec.frame p).payload
  past _ := 0
  result := .took (Codec.frame p).payload.size.toNat
  legal := ⟨Nat.le_refl _, id⟩

/- A key of sixteen bytes, in use. -/
def encrypted : CClientConnection where
  encryptionEnabled := true
  secret := some ⟨List.replicate 16 7⟩

def adding : BlockFunction := fun key register => List.zipWith (· + ·) key register

/- One packet as it comes from the wire. -/
def arriving (f : Frame) (small : f.content.length ≤ 507) : Recv :=
  ⟨alone adding encrypted f small, fun _ => 0, ⟨fun _ => 0, fun _ => 0⟩⟩

def joined : Codec := .loginSuccess steveSuccess

theorem joinedSmall : (frameOf steveSuccess).content.length ≤ 507 :=
  contentSmall steveSuccess (by simp [Schema.fields, fieldBound])

def arrivals : List Recv :=
  [arriving hello.frame (greetingSmall hello), arriving steve.frame (namingSmall steve),
    arriving (frameOf steveSuccess) joinedSmall]

/- Three packets over two ticks, each handed over once and in order at the other end. -/
theorem packetsTransportedEncrypted :
    Transported adding encrypted
      [[whole (.handshake hello.packet), whole (.loginStart steve.packet)], [whole joined]]
      [.handshake hello.packet, .loginStart steve.packet, joined] ∧
    recvAll adding encrypted (accepting fun payload calls => calls ++ [payload.packetId]) arrivals [] =
      [hello.frame.payload, steve.frame.payload, (frameOf steveSuccess).payload] := by
  have each {p : Codec} (limits : p.InLimits) : Queued (whole p) p := ⟨limits, codecSerialized limits, rfl⟩
  have first : List.Forall₂ Queued [whole (.handshake hello.packet), whole (.loginStart steve.packet)]
      [.handshake hello.packet, .loginStart steve.packet] := .cons (each hello.limits) (.cons (each steve.limits) .nil)
  have second : List.Forall₂ Queued [whole joined] [joined] := .cons (each ⟨⟨rfl, rfl⟩, by decide⟩) .nil
  have usable : Usable encrypted := .inr ⟨rfl, ⟨List.replicate 16 7⟩, rfl, rfl⟩
  have transported := packetsTransported adding usable (.cons first (.cons second .nil))
  have sizes : arrivals.map (fun r => r.chunk.bytes.length) =
      [[hello.frame], [steve.frame], [frameOf steveSuccess]].map fun group => (group.flatMap Frame.bytes).length := by
    simp [arrivals, arriving, alone, onWireLength]
  refine ⟨transported, transported.received arrivals _ ?_ ⟨rfl, sizes, by simp⟩ _ _ []⟩
  rfl

end Mcpp.Transport
