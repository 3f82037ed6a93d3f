import Mcpp.Wire

/-! SerializePacket: sizes a packet, allocates, writes. Within the declared limits
the bytes are a VarInt length followed by exactly that many bytes, and reading them
into a fresh packet gives the packet back. -/
namespace Mcpp.SerializePacket
open Buffers Uuid PacketVisitor Packets Base128 VarInt Wire

variable {P : Type} [Schema P]

def bodyBytes (p : P) : Bytes :=
  encode (Packet.base p).packetId.toNat ++ (Schema.fields p).flatMap Field.bytes

/- The size calculator's pass, from its default state to the end of SERIALIZE_END. -/
def sizing (p : P) : Except Fault CPacketSizeCalc := do
  let c ← effects sizeEffect (.varInt (Packet.base p).packetId :: Schema.fields p) (counting 0)
  sizeVarInt (Packet.base p).packetSize { c with isEnd := true }

def sized (size : BitVec 32) (p : P) : P :=
  Packet.setBase { Packet.base p with packetSize := size } p

theorem serializationOf (p : P) : serialization p = (do
    let c ← sizing p
    .ok ⟨sized c.getPayloadSize p, c,
      putAll (encode c.getPayloadSize.toNat ++ bodyBytes p) (.new c.getFullSize)⟩) := by
  have pass := serializeEnded sizeQuiet rfl p (counting 0)
  simp only [serialization, sizing]
  rw [show ({} : CPacketSizeCalc) = counting 0 from rfl, pass]
  simp only [bind_assoc, CPacketSizeCalc.visitor, bindOk, serializeSized writerQuiet rfl, writerEffects,
    mapOk, header, Schema.baseSet, Schema.fieldsSet]
  simp only [List.flatMap_append, List.flatMap_cons, List.flatMap_nil, List.append_nil, Field.bytes,
    bodyBytes, List.append_assoc, sized]
  rfl

def framed (p : P) : Bytes := encode (bodyBytes p).length ++ bodyBytes p

/- A packet SerializePacket writes in full. -/
structure WithinLimits (p : P) : Prop where
  packetId : (Packet.base p).packetId.msb = false
  fields : ∀ f ∈ Schema.fields p, f.Fits
  size : (bodyBytes p).length < 2^31

/- The most a field can take up, whether it fits or not. -/
def fieldBound : Field → Nat
  | .varInt _ => 5
  | .short _ => 2
  | .uInt8 _ => 1
  | .string _ maxSize => 5 + maxSize.toNat
  | .uuid _ => 16

theorem fieldBounded (f : Field) : f.bytes.length ≤ fieldBound f := by
  cases f with
  | varInt v => exact widthInt v
  | short v => simp [Field.bytes, bigEndian16, fieldBound]
  | uInt8 v => simp [Field.bytes, fieldBound]
  | uuid u => simp [Field.bytes, fieldBound, u.sized]
  | string s maxSize =>
    have limit := maxSize.isLt
    simp only [Field.bytes, fieldBound]
    split
    · simp
    · have header := (widthLe s.length 4).mpr (by omega)
      unfold width at header
      rw [List.length_append]
      omega

theorem fieldsBounded (fields : List Field) :
    (fields.flatMap Field.bytes).length ≤ (fields.map fieldBound).sum := by
  induction fields with
  | nil => simp
  | cons f rest ih =>
    have head := fieldBounded f
    simp only [List.flatMap_cons, List.length_append, List.map_cons, List.sum_cons]
    omega

theorem withinLimits {p : P} (packetId : (Packet.base p).packetId.msb = false)
    (fields : ∀ f ∈ Schema.fields p, f.Fits) (bound : ((Schema.fields p).map fieldBound).sum ≤ 2^30) :
    WithinLimits p := by
  have body := fieldsBounded (Schema.fields p)
  have id := widthInt (Packet.base p).packetId
  unfold width at id
  refine ⟨packetId, fields, ?_⟩
  rw [bodyBytes, List.length_append]
  omega

theorem ofNatSmall {n : Nat} (small : n < 2^31) :
    (BitVec.ofNat 32 n).toNat = n ∧ (BitVec.ofNat 32 n).msb = false := by
  have same : (BitVec.ofNat 32 n).toNat = n := by
    rw [BitVec.toNat_ofNat]
    omega
  refine ⟨same, ?_⟩
  rw [BitVec.msb_eq_false_iff_two_mul_lt, same]
  omega

theorem sizingFits {p : P} (limits : WithinLimits p) : sizing p = .ok
    { currentSize := BitVec.ofNat 32 (framed p).length
      packetLengthSize := BitVec.ofNat 32 (width (bodyBytes p).length)
      isEnd := true } := by
  have fits : ∀ f ∈ Field.varInt (Packet.base p).packetId :: Schema.fields p, f.Fits := by
    intro f mem
    rcases List.mem_cons.mp mem with rfl | rest
    · exact limits.packetId
    · exact limits.fields f rest
  have counted := countFields fits 0
  have length : (List.flatMap Field.bytes
      (Field.varInt (Packet.base p).packetId :: Schema.fields p)).length = (bodyBytes p).length := rfl
  obtain ⟨same, positive⟩ := ofNatSmall limits.size
  rw [sizing, counted, length, Nat.zero_add, bindOk]
  simp [sizeVarInt, counting, positive, same, framed, width, BitVec.ofNat_add, BitVec.add_comm]

theorem serializationFits {p : P} (limits : WithinLimits p) : ∃ c,
    c.getFullSize = BitVec.ofNat 32 (framed p).length ∧
    serialization p = .ok ⟨sized (BitVec.ofNat 32 (bodyBytes p).length) p, c,
      putAll (framed p) (.new c.getFullSize)⟩ := by
  have payload : BitVec.ofNat 32 (framed p).length - BitVec.ofNat 32 (width (bodyBytes p).length) =
      BitVec.ofNat 32 (bodyBytes p).length := by
    rw [framed, List.length_append, BitVec.ofNat_add, width, BitVec.add_comm, BitVec.add_sub_cancel]
  refine ⟨{ currentSize := BitVec.ofNat 32 (framed p).length,
            packetLengthSize := BitVec.ofNat 32 (width (bodyBytes p).length), isEnd := true }, rfl, ?_⟩
  rw [serializationOf, sizingFits limits, bindOk]
  simp only [CPacketSizeCalc.getPayloadSize, CPacketSizeCalc.getFullSize, payload,
    (ofNatSmall limits.size).1]
  rfl

theorem framedSmall {p : P} (limits : WithinLimits p) :
    (BitVec.ofNat 32 (framed p).length).toNat = (framed p).length := by
  have small := limits.size
  have header := (widthLe (bodyBytes p).length 4).mpr (by omega)
  rw [BitVec.toNat_ofNat, framed, List.length_append]
  unfold width at header
  omega

/- A writer that stays inside its allocation leaves the bytes it was given. -/
theorem putAllNew (bytes : Bytes) (size : BitVec 32) (room : size.toNat = bytes.length) :
    (putAll bytes (.new size)).data = bytes ∧
    (putAll bytes (.new size)).stores = (List.range bytes.length).zip bytes := by
  constructor
  · have data := putAllData bytes [] (List.replicate size.toNat 0) (.new size) rfl rfl (by simp [room])
    simpa [room] using data
  · rw [putAllStores, List.range_eq_range']
    rfl

/-! The calculator never counts more than that either, so its size stays positive as an int. -/

theorem addBounded (a b : BitVec 32) : (a + b).toNat ≤ a.toNat + b.toNat := by
  rw [BitVec.toNat_add]
  exact Nat.mod_le ..

theorem sizeVarIntBounded {v : BitVec 32} {c d : CPacketSizeCalc} (ok : sizeVarInt v c = .ok d) :
    d.currentSize.toNat ≤ c.currentSize.toNat + 5 := by
  unfold sizeVarInt at ok
  split at ok
  · cases ok
    omega
  · generalize (if c.isEnd then c.currentSize else v) = finalValue at ok
    simp only at ok
    split at ok
    · contradiction
    · cases ok
      have short := widthInt finalValue
      have sum := addBounded c.currentSize (BitVec.ofNat 32 (width finalValue.toNat))
      have word := Nat.mod_le (width finalValue.toNat) (2^32)
      rw [BitVec.toNat_ofNat] at sum
      simp only
      omega

theorem sizeBounded {f : Field} {c d : CPacketSizeCalc} (ok : sizeEffect f c = .ok d) :
    d.currentSize.toNat ≤ c.currentSize.toNat + fieldBound f := by
  have counted {size : BitVec 32} :
      (if c.success then { c with currentSize := c.currentSize + size } else c).currentSize.toNat ≤
        c.currentSize.toNat + size.toNat := by
    split
    · exact addBounded ..
    · omega
  cases f with
  | varInt v => exact sizeVarIntBounded ok
  | short v =>
    cases ok
    exact counted
  | uInt8 v =>
    cases ok
    exact counted
  | uuid u =>
    cases ok
    exact addBounded ..
  | string s maxSize =>
    simp only [sizeEffect, fieldBound] at ok ⊢
    split at ok
    · cases ok
      omega
    · obtain ⟨middle, header, ok⟩ := okBind ok
      have length := sizeVarIntBounded header
      split at ok
      · cases ok
        simp only
        omega
      · rename_i within
        cases ok
        have fits : (BitVec.ofNat 32 s.length).toNat ≤ maxSize.toNat := by
          rw [gt_iff_lt, BitVec.lt_def] at within
          omega
        have sum := addBounded middle.currentSize (BitVec.ofNat 32 s.length)
        simp only
        omega

theorem sizesBounded {fields : List Field} {c d : CPacketSizeCalc} (ok : effects sizeEffect fields c = .ok d) :
    d.currentSize.toNat ≤ c.currentSize.toNat + (fields.map fieldBound).sum := by
  induction fields generalizing c with
  | nil =>
    cases ok
    simp
  | cons f rest ih =>
    obtain ⟨middle, first, ok⟩ := okBind ok
    have head := sizeBounded first
    have tail := ih ok
    simp only [List.map_cons, List.sum_cons]
    omega

theorem sizingBounded {p : P} {c : CPacketSizeCalc} (ok : sizing p = .ok c) :
    c.getFullSize.toNat ≤ 10 + ((Schema.fields p).map fieldBound).sum := by
  obtain ⟨middle, body, ok⟩ := okBind ok
  have fields := sizesBounded body
  have last := sizeVarIntBounded ok
  have start : (counting 0).currentSize.toNat = 0 := rfl
  simp only [CPacketSizeCalc.getFullSize, List.map_cons, List.sum_cons, fieldBound] at *
  omega

theorem putAllLength (bytes : Bytes) (w : CPacketWriter) : (putAll bytes w).data.length = w.data.length := by
  induction bytes generalizing w with
  | nil => rfl
  | cons b rest ih =>
    have tail := ih (w.put b)
    simp only [putAll, List.foldl_cons] at tail ⊢
    rw [tail]
    simp [CPacketWriter.put, CPacketWriter.store]

/- The payload behind a sizing that came to its end. -/
theorem serializedOf {p : P} {sent : SPacketPayload} (ok : serializePacket p = .ok sent) : ∃ c, sizing p = .ok c ∧
    sent = Serialization.payload ⟨sized c.getPayloadSize p, c,
      putAll (encode c.getPayloadSize.toNat ++ bodyBytes p) (.new c.getFullSize)⟩ := by
  obtain ⟨s, serialized, ok⟩ := okBind ok
  cases ok
  rw [serializationOf] at serialized
  obtain ⟨c, sizing, serialized⟩ := okBind serialized
  cases serialized
  exact ⟨c, sizing, rfl⟩

/- The payload says how many bytes were allocated for it, in full or not. -/
theorem serializedSize {p : P} (bound : ((Schema.fields p).map fieldBound).sum ≤ 2^30) {sent : SPacketPayload}
    (ok : serializePacket p = .ok sent) : ∃ bytes, sent.payload = some bytes ∧ sent.size.toInt = bytes.length := by
  obtain ⟨c, sizing, rfl⟩ := serializedOf ok
  have small := sizingBounded sizing
  refine ⟨_, rfl, ?_⟩
  simp only [Serialization.payload]
  rw [putAllLength, BitVec.toInt_eq_toNat_of_lt (by omega), CPacketWriter.new, List.length_replicate]

/-! Reading a packet back. -/

/- `x` consumes exactly `bytes` and returns `a`. -/
def Reads {α : Type} (x : Visit CPacketReader α) (a : α) (bytes : Bytes) : Prop :=
  ∀ r : CPacketReader, Holds r.memory r.current bytes → x r = .ok (a, r.advance bytes.length)

theorem readsPure {α : Type} (a : α) : Reads (pure a) a [] := by
  intro r _
  simp [visitPure, CPacketReader.advance]

theorem readsBind {α β : Type} {x : Visit CPacketReader α} {f : α → Visit CPacketReader β} {a b first rest}
    (left : Reads x a first) (right : Reads (f a) b rest) : Reads (x >>= f) b (first ++ rest) := by
  intro r held
  obtain ⟨here, after⟩ := (holdsAppend ..).mp held
  rw [visitBind, left r here, bindOk, right _ after, advanceTwice, List.length_append]

theorem readsVarInt {old v : BitVec 32} (kept : old ||| v = v) :
    Reads (CPacketReader.onVarInt old) v (encode v.toNat) := by
  intro r held
  have closed := encodeClosed v.toNat
  have short : (encode v.toNat).length ≤ 5 := widthInt v
  rw [readerLoopLeaves, varIntBytesHeld closed short held, varIntValueHeld old closed short held,
    valueEncode, BitVec.ofNat_toNat, BitVec.setWidth_eq, kept]

theorem forceswap16Nat (v : BitVec 16) :
    (forceswap16 v).toNat = v.toNat % 256 * 256 + v.toNat / 256 := by
  have bound := v.isLt
  have low : v.toNat / 2^8 < 2^8 := by omega
  have disjoint := Nat.shiftLeft_add_eq_or_of_lt low (v.toNat % 2^8)
  rw [Nat.shiftLeft_eq] at disjoint
  simp only [forceswap16, BitVec.toNat_append, BitVec.extractLsb'_toNat, Nat.shiftRight_eq_div_pow,
    Nat.shiftLeft_eq]
  rw [Nat.pow_zero, Nat.div_one, Nat.mod_eq_of_lt low, ← disjoint]
  omega

theorem forceswap16Twice (v : BitVec 16) : forceswap16 (forceswap16 v) = v := by
  have bound := v.isLt
  apply BitVec.eq_of_toNat_eq
  rw [forceswap16Nat, forceswap16Nat]
  omega

theorem takeHeld {r : CPacketReader} {bytes : Bytes} (held : Holds r.memory r.current bytes) :
    r.take bytes.length = bytes := held

theorem readsShort (old v : BitVec 16) : Reads (CPacketReader.onShort old) v (bigEndian16 v) := by
  intro r held
  have taken : r.take 2 = bigEndian16 v := takeHeld held
  have bound := (forceswap16 v).isLt
  have word : BitVec.ofNat 16 (ofLittleEndian (bigEndian16 v)) = forceswap16 v := by
    apply BitVec.eq_of_toNat_eq
    rw [bigEndian16, ofLittleEndianBytes, BitVec.toNat_ofNat]
    omega
  simp only [CPacketReader.onShort, taken, word, forceswap16Twice]
  rfl

theorem readsUInt8 (old v : UInt8) : Reads (CPacketReader.onUInt8 old) v [v] := by
  intro r held
  rw [CPacketReader.onUInt8, ((holdsCons ..).mp held).1]
  rfl

theorem readsString {s : Bytes} {maxSize : BitVec 32} (room : 0 < maxSize.toNat)
    (fits : (Field.string s maxSize).Fits) :
    Reads (CPacketReader.onString [] maxSize) s (Field.string s maxSize).bytes := by
  have half := BitVec.msb_eq_false_iff_two_mul_lt.mp fits.2
  have short := fits.1
  obtain ⟨same, positive⟩ := ofNatSmall (show s.length < 2^31 by omega)
  have written : ¬ s.length > maxSize.toNat := by omega
  have header : Reads (CPacketReader.onVarInt 0) _ _ := readsVarInt (v := BitVec.ofNat 32 s.length) (by simp)
  have body : Reads (CPacketReader.construct (BitVec.ofNat 32 s.length)) s s := by
    intro r held
    simp only [CPacketReader.construct, positive, Bool.false_eq_true, ite_false, same, takeHeld held]
  rw [same] at header
  have fresh : ¬ ([] : Bytes).length ≥ maxSize.toNat := by simp only [List.length_nil]; omega
  rw [CPacketReader.onString, if_neg fresh, Field.bytes, if_neg written]
  exact readsBind header body

theorem readsWord (old : BitVec 64) (bytes : Bytes) (size : bytes.length = 8) :
    Reads (CPacketReader.onULong old) (BitVec.ofNat 64 (ofLittleEndian bytes)) bytes := by
  intro r held
  have taken : r.take 8 = bytes := by rw [← size]; exact takeHeld held
  simp only [CPacketReader.onULong, taken, size]

theorem readsUUID (old u : CUUID) : Reads (CPacketReader.onUUID old) u u.data := by
  have low : (u.data.take 8).length = 8 := by simp [u.sized]
  have high : (u.data.drop 8).length = 8 := by simp [u.sized]
  have words : CUUID.ofWords (BitVec.ofNat 64 (ofLittleEndian (u.data.drop 8)))
      (BitVec.ofNat 64 (ofLittleEndian (u.data.take 8))) = u := by
    cases u
    simp only [CUUID.ofWords, wordBytes _ low, wordBytes _ high, List.take_append_drop]
  have both := readsBind (readsWord 0 _ low) (readsBind (readsWord 0 _ high) (readsPure _))
    (f := fun y => CPacketReader.onULong 0 >>= fun x => pure (CUUID.ofWords x y))
  rw [List.append_nil, List.take_append_drop] at both
  rw [words] at both
  exact both

theorem readsPacket {fresh q : P} {typeId : BitVec 32} (start : Packet.base fresh = ⟨typeId, 0⟩)
    (kept : typeId ||| (Packet.base q).packetId = (Packet.base q).packetId)
    (fields : Reads (Packet.serializeFields CPacketReader.visitor (Packet.setBase (Packet.base q) fresh))
      q ((Schema.fields q).flatMap Field.bytes)) :
    Reads (serialize CPacketReader.visitor fresh) q
      (encode (Packet.base q).packetSize.toNat ++ bodyBytes q) := by
  have size : Reads (CPacketReader.onVarInt 0) _ _ := readsVarInt (v := (Packet.base q).packetSize) (by simp)
  have head : Reads (serializeBegin CPacketReader.visitor (Packet.base fresh)) (Packet.base q)
      (encode (Packet.base q).packetSize.toNat ++ (encode (Packet.base q).packetId.toNat ++ [])) := by
    rw [start]
    exact readsBind size (readsBind (readsVarInt kept) (readsPure (Packet.base q)))
  have tail : Reads (serializeEnd CPacketReader.visitor (Packet.base q) >>= fun base =>
      pure (Packet.setBase base q)) q ([] ++ []) := by
    refine readsBind (readsPure (Packet.base q)) ?_
    rw [Schema.setSame]
    exact readsPure q
  have bytes : encode (Packet.base q).packetSize.toNat ++ bodyBytes q =
      (encode (Packet.base q).packetSize.toNat ++ (encode (Packet.base q).packetId.toNat ++ [])) ++
        ((Schema.fields q).flatMap Field.bytes ++ ([] ++ [])) := by
    simp only [bodyBytes, List.append_nil, List.append_assoc]
  rw [bytes, serialize]
  exact readsBind head (readsBind fields tail)

/- What is to hold of one packet: SerializePacket stores to each index of its
allocation once, in front stands the number of bytes that follow, and reading the
bytes, whatever comes after them, gives the packet back but for what no field carries. -/
def RoundTrips (fresh : P) (carried : P → P) (p : P) : Prop :=
  ∃ s rest, serialization p = .ok s ∧
    s.payload.payload = some (encode rest.length ++ rest) ∧
    s.payload.size.toNat = (encode rest.length ++ rest).length ∧
    s.writer.stores.map Prod.fst = List.range s.payload.size.toNat ∧
    ∀ suffix past, ∃ r,
      serialize CPacketReader.visitor fresh
          { memory := buffer (encode rest.length ++ rest ++ suffix) past } =
        .ok (carried (sized (BitVec.ofNat 32 rest.length) p), r) ∧
      r.current = s.payload.size.toNat

theorem bodyBytesSame {p q : P} (packetId : (Packet.base q).packetId = (Packet.base p).packetId)
    (fields : Schema.fields q = Schema.fields p) : bodyBytes q = bodyBytes p := by
  rw [bodyBytes, packetId, fields, bodyBytes]

theorem roundTripsOf {fresh : P} {carried : P → P} {p : P} {typeId : BitVec 32} (limits : WithinLimits p)
    (start : Packet.base fresh = ⟨typeId, 0⟩)
    (kept : typeId ||| (Packet.base p).packetId = (Packet.base p).packetId)
    (same : ∀ b, Packet.base (carried (Packet.setBase b p)) = b ∧
      Schema.fields (carried (Packet.setBase b p)) = Schema.fields p)
    (reads : ∀ b, Reads (Packet.serializeFields CPacketReader.visitor (Packet.setBase b fresh))
      (carried (Packet.setBase b p)) ((Schema.fields p).flatMap Field.bytes)) :
    RoundTrips fresh carried p := by
  obtain ⟨c, full, done⟩ := serializationFits limits
  have room : c.getFullSize.toNat = (framed p).length := by rw [full, framedSmall limits]
  obtain ⟨data, stores⟩ := putAllNew (framed p) c.getFullSize room
  refine ⟨_, bodyBytes p, done, ?_, room, ?_, ?_⟩
  · simp only [Serialization.payload]
    rw [data]
    rfl
  · simp only [Serialization.payload, stores, room]
    rw [List.map_fst_zip (by simp)]
  · intro suffix past
    have held := bufferHolds [] (framed p) suffix past
    rw [List.nil_append] at held
    obtain ⟨base, fields⟩ :=
      same ⟨(Packet.base p).packetId, BitVec.ofNat 32 (bodyBytes p).length⟩
    have packet := readsPacket start (by rw [base]; exact kept) (by rw [base, fields]; exact reads _)
    have body := bodyBytesSame (by rw [base]) fields
    rw [body, base, (ofNatSmall limits.size).1] at packet
    refine ⟨_, packet { memory := buffer (framed p ++ suffix) past } held, ?_⟩
    simp only [CPacketReader.advance, Serialization.payload, room, Nat.zero_add]
    rfl

inductive Codec where
  | handshake (p : SHandshake)
  | loginStart (p : SLoginStart)
  | loginSuccess (p : SLoginSuccess)
  | encryptionRequest (p : SEncryptionRequest)

/- The id a constructor sets. Nothing else assigns m_packetId, and the reader ORs
the id it reads into it: any id that keeps the constructor's bits comes back. -/
def KeepsTypeId (typeId packetId : BitVec 32) : Prop :=
  packetId.msb = false ∧ typeId ||| packetId = packetId

def Codec.InLimits : Codec → Prop
  | .handshake p => KeepsTypeId 0x00 p.packetId ∧ p.protocolVersion.msb = false ∧ p.address.length ≤ 32
  | .loginStart p => KeepsTypeId 0x00 p.packetId ∧ p.username.length ≤ 16
  | .loginSuccess p => KeepsTypeId 0x02 p.packetId ∧ p.username.length ≤ 16
  | .encryptionRequest p => KeepsTypeId 0x01 p.packetId ∧ p.serverId.length ≤ 20 ∧
      p.publicKey.length ≤ 32767 ∧ p.verifyToken.length ≤ 32767

/- The lengths of the key and the token and the properties are in no field. -/
def Codec.RoundTrips : Codec → Prop
  | .handshake p => SerializePacket.RoundTrips .fresh id p
  | .loginStart p => ∀ uninitialised, SerializePacket.RoundTrips (.fresh uninitialised) id p
  | .loginSuccess p => ∀ uninitialised,
      SerializePacket.RoundTrips (.fresh uninitialised) (fun q => { q with properties := [] }) p
  | .encryptionRequest p => SerializePacket.RoundTrips .fresh
      (fun q => { q with publicKeyLength := 0, verifyTokenLength := 0 }) p

theorem handshakeRoundTrips {p : SHandshake} (limits : Codec.InLimits (.handshake p)) :
    RoundTrips .fresh id p := by
  obtain ⟨⟨positive, kept⟩, version, address⟩ := limits
  have fits : (Field.string p.address 32).Fits := ⟨address, rfl⟩
  have within : WithinLimits p := by
    refine withinLimits positive ?_ (by simp [Schema.fields, fieldBound])
    simp only [Schema.fields, List.forall_mem_cons]
    exact ⟨version, fits, trivial, trivial, by simp⟩
  refine roundTripsOf within rfl kept (fun _ => ⟨rfl, rfl⟩) ?_
  intro b
  have first : Reads (CPacketReader.onVarInt 0) p.protocolVersion _ := readsVarInt (by simp)
  exact readsBind first (readsBind (readsString (by decide) fits)
    (readsBind (readsShort 0 p.port) (readsBind (readsUInt8 0 p.nextState) (readsPure _))))

theorem loginStartRoundTrips {p : SLoginStart} (limits : Codec.InLimits (.loginStart p))
    (uninitialised : CUUID) : RoundTrips (.fresh uninitialised) id p := by
  obtain ⟨⟨positive, kept⟩, username⟩ := limits
  have fits : (Field.string p.username 16).Fits := ⟨username, rfl⟩
  have within : WithinLimits p := by
    refine withinLimits positive ?_ (by simp [Schema.fields, fieldBound])
    simp only [Schema.fields, List.forall_mem_cons]
    exact ⟨fits, trivial, by simp⟩
  refine roundTripsOf within rfl kept (fun _ => ⟨rfl, rfl⟩) ?_
  intro b
  exact readsBind (readsString (by decide) fits) (readsBind (readsUUID uninitialised p.uuid) (readsPure _))

theorem loginSuccessWithin {p : SLoginSuccess} (positive : p.packetId.msb = false) (username : p.username.length ≤ 16) :
    WithinLimits p := by
  have fits : (Field.string p.username 16).Fits := ⟨username, rfl⟩
  refine withinLimits positive ?_ (by simp [Schema.fields, fieldBound])
  simp only [Schema.fields, List.forall_mem_cons]
  exact ⟨trivial, fits, rfl, by simp⟩

theorem loginSuccessRoundTrips {p : SLoginSuccess} (limits : Codec.InLimits (.loginSuccess p))
    (uninitialised : CUUID) :
    RoundTrips (.fresh uninitialised) (fun q => { q with properties := [] }) p := by
  obtain ⟨⟨positive, kept⟩, username⟩ := limits
  have fits : (Field.string p.username 16).Fits := ⟨username, rfl⟩
  refine roundTripsOf (loginSuccessWithin positive username) rfl kept (fun _ => ⟨rfl, rfl⟩) ?_
  intro b
  have zero : Reads (CPacketReader.onVarInt 0) 0 _ := readsVarInt (by simp)
  exact readsBind (readsUUID uninitialised p.id) (readsBind (readsString (by decide) fits)
    (readsBind zero (readsPure _)))

theorem encryptionRequestRoundTrips {p : SEncryptionRequest}
    (limits : Codec.InLimits (.encryptionRequest p)) :
    RoundTrips .fresh (fun q => { q with publicKeyLength := 0, verifyTokenLength := 0 }) p := by
  obtain ⟨⟨positive, kept⟩, serverId, publicKey, verifyToken⟩ := limits
  have server : (Field.string p.serverId 20).Fits := ⟨serverId, rfl⟩
  have key : (Field.string p.publicKey maxStringLength).Fits := ⟨publicKey, rfl⟩
  have token : (Field.string p.verifyToken maxStringLength).Fits := ⟨verifyToken, rfl⟩
  have within : WithinLimits p := by
    refine withinLimits positive ?_ (by simp [Schema.fields, fieldBound, maxStringLength])
    simp only [Schema.fields, List.forall_mem_cons]
    exact ⟨server, key, token, by simp⟩
  refine roundTripsOf within rfl kept (fun _ => ⟨rfl, rfl⟩) ?_
  intro b
  exact readsBind (readsString (by decide) server) (readsBind (readsString (by decide) key)
    (readsBind (readsString (by decide) token) (readsPure _)))

theorem codecRoundTrips (c : Codec) (limits : c.InLimits) : c.RoundTrips := by
  cases c with
  | handshake p => exact handshakeRoundTrips limits
  | loginStart p => exact loginStartRoundTrips limits
  | loginSuccess p => exact loginSuccessRoundTrips limits
  | encryptionRequest p => exact encryptionRequestRoundTrips limits

theorem codecRoundTripsHandshake :
    Codec.RoundTrips (.handshake { SHandshake.fresh with
      protocolVersion := 772, address := [108, 104], port := 25565, nextState := 2 }) :=
  codecRoundTrips _ ⟨⟨rfl, rfl⟩, rfl, by decide⟩

end Mcpp.SerializePacket
