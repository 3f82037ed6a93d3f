import Mcpp.SerializePacket

/-! A string longer than its maximum. The calculator latches m_success and counts
no further field but a UUID; the writer leaves that one string out and goes on.
Whether the allocation still suffices depends on what follows the string. -/
namespace Mcpp.Oversized
open Buffers Uuid PacketVisitor Packets Base128 VarInt Wire SerializePacket

variable {P : Type} [Schema P]

def StaysInside (p : P) : Prop := ∀ s, serialization p = .ok s →
  ∀ store ∈ s.writer.stores, store.1 < s.sizeCalc.getFullSize.toNat

/- The length of a string as the int OnString counts with. -/
def lengthSize (s : Bytes) : Nat := s.length % 2^32

def written (s : Bytes) (maxSize : BitVec 32) : Nat := (Field.string s maxSize).bytes.length

def counted (s : Bytes) : Nat := width (lengthSize s) + lengthSize s

theorem storesInside (bytes : Bytes) (size : BitVec 32) :
    (∀ store ∈ (putAll bytes (.new size)).stores, store.1 < size.toNat) ↔ bytes.length ≤ size.toNat := by
  have stores : (putAll bytes (.new size)).stores = (List.range' 0 bytes.length).zip bytes :=
    putAllStores bytes (.new size)
  rw [stores]
  constructor
  · intro inside
    rcases Nat.eq_zero_or_pos bytes.length with none | some
    · omega
    · have last : bytes.length - 1 < ((List.range' 0 bytes.length).zip bytes).length := by simp; omega
      have mem := List.getElem_mem last
      have less := inside _ mem
      simp only [List.getElem_zip, List.getElem_range'] at less
      omega
  · intro room store mem
    have index := (List.of_mem_zip (a := store.1) (b := store.2) mem).1
    obtain ⟨_, less⟩ := List.mem_range'_1.mp index
    exact Nat.lt_of_lt_of_le less (by omega)

theorem staysInsideIff (p : P) : StaysInside p ↔ ∀ c, sizing p = .ok c →
    width c.getPayloadSize.toNat + (bodyBytes p).length ≤ c.getFullSize.toNat := by
  have total (n : Nat) : (encode n ++ bodyBytes p).length = width n + (bodyBytes p).length :=
    List.length_append
  unfold StaysInside
  rw [serializationOf]
  cases sizing p with
  | error fault =>
    constructor
    · intro _ c none
      contradiction
    · intro _ s none
      contradiction
  | ok c =>
    simp only [bindOk, Except.ok.injEq, forall_eq']
    rw [storesInside, total]

/-! What the calculator makes of one string. -/

theorem lengthSizeOf (s : Bytes) : (BitVec.ofNat 32 s.length).toNat = lengthSize s := by
  rw [BitVec.toNat_ofNat, lengthSize]

theorem stringHangs {s : Bytes} (long : 2^31 ≤ lengthSize s) (maxSize : BitVec 32) (n : Nat) :
    sizeEffect (.string s maxSize) (counting n) = .error .hang := by
  have sign : (BitVec.ofNat 32 s.length).msb = true := by
    rw [BitVec.msb_eq_true_iff_two_mul_ge, lengthSizeOf]
    omega
  rw [countString, if_pos sign]

theorem stringLatches {s : Bytes} {maxSize : BitVec 32} (tooLong : maxSize.toNat < lengthSize s)
    (short : lengthSize s < 2^31) (n : Nat) :
    sizeEffect (.string s maxSize) (counting n) = .ok (latched (n + width (lengthSize s))) := by
  have sign : ¬ (BitVec.ofNat 32 s.length).msb = true := by
    rw [BitVec.msb_eq_true_iff_two_mul_ge, lengthSizeOf]
    omega
  have long : BitVec.ofNat 32 s.length > maxSize := by
    rw [gt_iff_lt, BitVec.lt_def, lengthSizeOf]
    exact tooLong
  rw [countString, if_neg sign, if_pos long, lengthSizeOf]

theorem stringCounts {s : Bytes} {maxSize : BitVec 32} (within : lengthSize s ≤ maxSize.toNat)
    (short : maxSize.toNat < 2^31) (n : Nat) :
    sizeEffect (.string s maxSize) (counting n) = .ok (counting (n + counted s)) := by
  have sign : ¬ (BitVec.ofNat 32 s.length).msb = true := by
    rw [BitVec.msb_eq_true_iff_two_mul_ge, lengthSizeOf]
    omega
  have fits : ¬ BitVec.ofNat 32 s.length > maxSize := by
    rw [gt_iff_lt, BitVec.lt_def, lengthSizeOf]
    omega
  have wrapped : BitVec.ofNat 32 (n + width (lengthSize s) + s.length) =
      BitVec.ofNat 32 (n + counted s) := by
    apply BitVec.eq_of_toNat_eq
    simp only [BitVec.toNat_ofNat, counted, lengthSize]
    omega
  rw [countString, if_neg sign, if_neg fits, lengthSizeOf, counting, wrapped]
  rfl

theorem writtenLe (s : Bytes) (maxSize : BitVec 32) : written s maxSize ≤ counted s := by
  have limit := maxSize.isLt
  simp only [written, Field.bytes, counted, lengthSize]
  split
  · simp
  · rw [Nat.mod_eq_of_lt (by omega), List.length_append, width]

theorem writtenOver {s : Bytes} {maxSize : BitVec 32} (tooLong : maxSize.toNat < lengthSize s) :
    written s maxSize = 0 := by
  have long : s.length > maxSize.toNat := Nat.lt_of_lt_of_le tooLong (Nat.mod_le ..)
  rw [written, Field.bytes, if_pos long]
  rfl

theorem countedLe {s : Bytes} {max : Nat} (within : lengthSize s ≤ max) (short : max < 128^3) :
    counted s ≤ max + 3 := by
  have header := (widthLe (lengthSize s) 2).mpr (by omega)
  unfold counted
  omega

theorem widthWord (s : Bytes) : width (lengthSize s) ≤ 5 := by
  rw [← lengthSizeOf]
  exact widthInt _

/-! What it makes of a list of fields. -/

/- The calculator counts the field in full, by `size`. -/
def Counted : Field → Prop
  | .varInt v => v.msb = false
  | .string s maxSize => lengthSize s ≤ maxSize.toNat ∧ maxSize.toNat < 2^31
  | _ => True

def size : Field → Nat
  | .varInt v => width v.toNat
  | .short _ => 2
  | .uInt8 _ => 1
  | .string s _ => counted s
  | .uuid _ => 16

theorem countsField {f : Field} (counts : Counted f) (n : Nat) :
    sizeEffect f (counting n) = .ok (counting (n + size f)) := by
  cases f with
  | varInt v => exact countVarInt counts n
  | short v => exact countField (f := .short v) trivial n
  | uInt8 v => exact countField (f := .uInt8 v) trivial n
  | uuid u => rw [countField (f := .uuid u) trivial, Field.bytes, u.sized, size]
  | string s maxSize => exact stringCounts counts.1 counts.2 n

theorem bytesLe (f : Field) : f.bytes.length ≤ size f := by
  cases f with
  | varInt v => exact Nat.le_refl _
  | short v => simp [Field.bytes, bigEndian16, size]
  | uInt8 v => simp [Field.bytes, size]
  | uuid u => simp [Field.bytes, size, u.sized]
  | string s maxSize => exact writtenLe s maxSize

theorem bytesSum (fields : List Field) :
    (fields.flatMap Field.bytes).length ≤ (fields.map size).sum := by
  induction fields with
  | nil => exact Nat.le_refl _
  | cons f rest ih =>
    have head := bytesLe f
    simp only [List.flatMap_cons, List.length_append, List.map_cons, List.sum_cons]
    omega

theorem countsFields {fields : List Field} (counts : ∀ f ∈ fields, Counted f) (n : Nat) :
    effects sizeEffect fields (counting n) = .ok (counting (n + (fields.map size).sum)) := by
  induction fields generalizing n with
  | nil => rfl
  | cons f rest ih =>
    rw [effects, countsField (counts f (by simp)), bindOk, ih (fun g mem => counts g (by simp [mem]))]
    simp only [List.map_cons, List.sum_cons, Nat.add_assoc]

/- Once latched it still counts UUIDs. -/
def latchedSize : Field → Nat
  | .uuid _ => 16
  | _ => 0

theorem latchedFields (fields : List Field) (n : Nat) :
    effects sizeEffect fields (latched n) = .ok (latched (n + (fields.map latchedSize).sum)) := by
  induction fields generalizing n with
  | nil => rfl
  | cons f rest ih =>
    have head : sizeEffect f (latched n) = .ok (latched (n + latchedSize f)) := by
      rw [latchedField]
      cases f <;> rfl
    rw [effects, head, bindOk, ih]
    simp only [List.map_cons, List.sum_cons, Nat.add_assoc]

/- The fields of a packet, its id first, around one of its strings. -/
structure Around (p : P) (before : List Field) (s : Bytes) (maxSize : BitVec 32) (after : List Field) :
    Prop where
  fields : .varInt (Packet.base p).packetId :: Schema.fields p = before ++ .string s maxSize :: after
  counts : ∀ f ∈ before, Counted f

theorem hangsInside {p : P} {before s maxSize after} (around : Around p before s maxSize after)
    (long : 2^31 ≤ lengthSize s) : StaysInside p := by
  rw [staysInsideIff]
  intro c ok
  rw [sizing, around.fields, effectsAppend, countsFields around.counts, bindOk, effects,
    stringHangs long] at ok
  contradiction

theorem latchesInside {p : P} {before s maxSize after} (around : Around p before s maxSize after)
    (tooLong : maxSize.toNat < lengthSize s) (short : lengthSize s < 2^31) {n : Nat}
    (total : n = (before.map size).sum + width (lengthSize s) + (after.map latchedSize).sum)
    (small : n < 2^31) : StaysInside p ↔ width n + (bodyBytes p).length ≤ n := by
  have same := (ofNatSmall small).1
  have payload : BitVec.ofNat 32 n - 0 = BitVec.ofNat 32 n := BitVec.sub_zero _
  rw [staysInsideIff, sizing, around.fields, effectsAppend, countsFields around.counts, bindOk, effects,
    stringLatches tooLong short, bindOk, latchedFields, bindOk, Nat.zero_add, ← total]
  simp only [sizeVarInt, latched, Bool.not_false, ite_true, Except.ok.injEq, forall_eq',
    CPacketSizeCalc.getPayloadSize, CPacketSizeCalc.getFullSize, payload, same]

theorem countedInside {p : P}
    (counts : ∀ f ∈ .varInt (Packet.base p).packetId :: Schema.fields p, Counted f)
    (small : ((.varInt (Packet.base p).packetId :: Schema.fields p).map size).sum < 2^31) :
    StaysInside p := by
  have body := bytesSum (.varInt (Packet.base p).packetId :: Schema.fields p)
  rw [show (List.flatMap Field.bytes (.varInt (Packet.base p).packetId :: Schema.fields p)) =
    bodyBytes p from rfl] at body
  rw [staysInsideIff, sizing, countsFields counts, bindOk, Nat.zero_add]
  generalize ((.varInt (Packet.base p).packetId :: Schema.fields p).map size).sum = n at body small
  obtain ⟨same, positive⟩ := ofNatSmall small
  have header := (widthLe n 4).mpr (by omega)
  have payload : BitVec.ofNat 32 n + BitVec.ofNat 32 (width n) - BitVec.ofNat 32 (width n) =
      BitVec.ofNat 32 n := BitVec.add_sub_cancel ..
  have full : (BitVec.ofNat 32 n + BitVec.ofNat 32 (width n)).toNat = n + width n := by
    rw [← BitVec.ofNat_add, BitVec.toNat_ofNat]
    omega
  simp only [sizeVarInt, counting, Bool.not_true, Bool.false_eq_true, ite_false, ite_true, positive, same,
    Except.ok.injEq, forall_eq', CPacketSizeCalc.getPayloadSize, CPacketSizeCalc.getFullSize, payload, full]
  omega

/- A string decides: too long, it latches the calculator unless it hangs it, and
otherwise the rest of the packet decides. -/
theorem decidesInside {p : P} {before s maxSize after} (around : Around p before s maxSize after) {n : Nat}
    (total : n = (before.map size).sum + width (lengthSize s) + (after.map latchedSize).sum)
    (small : n < 2^31) {m : Nat} (limit : maxSize.toNat = m) : StaysInside p ↔
      (m < lengthSize s → lengthSize s < 2^31 → width n + (bodyBytes p).length ≤ n) ∧
      (lengthSize s ≤ m → StaysInside p) := by
  subst limit
  rcases Nat.lt_or_ge maxSize.toNat (lengthSize s) with tooLong | within
  · rcases Nat.lt_or_ge (lengthSize s) (2^31) with short | long
    · have latches := latchesInside around tooLong short total small
      simp only [latches, tooLong, short, Nat.not_le.mpr tooLong, true_implies, false_implies, and_true]
    · have hangs := hangsInside around long
      simp only [hangs, Nat.not_lt.mpr long, false_implies, implies_true, and_true]
  · simp only [within, Nat.not_lt.mpr within, false_implies, true_implies, true_and]

inductive Outbound (toString : Json → Bytes) where
  | handshake (p : SHandshake)
  | loginStart (p : SLoginStart)
  | loginSuccess (p : SLoginSuccess)
  | encryptionRequest (p : SEncryptionRequest)
  | statusResponse (p : SStatusResponse toString)

variable {toString : Json → Bytes}

def Outbound.base : Outbound toString → IPacket
  | .handshake p => p.toIPacket
  | .loginStart p => p.toIPacket
  | .loginSuccess p => p.toIPacket
  | .encryptionRequest p => p.toIPacket
  | .statusResponse p => p.toIPacket

/- No VarInt of the packet is negative. -/
def Outbound.Positive : Outbound toString → Prop
  | .handshake p => p.packetId.msb = false ∧ p.protocolVersion.msb = false
  | p => p.base.packetId.msb = false

def Outbound.StaysInside : Outbound toString → Prop
  | .handshake p => Oversized.StaysInside p
  | .loginStart p => Oversized.StaysInside p
  | .loginSuccess p => Oversized.StaysInside p
  | .encryptionRequest p => Oversized.StaysInside p
  | .statusResponse p => Oversized.StaysInside p

/- A string from 2^31 on hangs the calculator before anything is written. Shorter
ones latch it, and the VarInt counted for the length has to make up for the length
prefix and for all that is still written. -/
def Outbound.Contained : Outbound toString → Prop
  | .handshake p => lengthSize p.address ≤ 32 ∨ 2^21 ≤ lengthSize p.address
  | .loginStart _ => True
  | .loginSuccess p => lengthSize p.username ≤ 16 ∨ 128 ≤ lengthSize p.username
  | .encryptionRequest p =>
      (20 < lengthSize p.serverId → lengthSize p.serverId < 2^31 →
        1 + written p.publicKey maxStringLength + written p.verifyToken maxStringLength ≤
          width (lengthSize p.serverId)) ∧
      (lengthSize p.serverId ≤ 20 → 32767 < lengthSize p.publicKey → lengthSize p.publicKey < 2^31 →
        1 + written p.serverId 20 + written p.verifyToken maxStringLength ≤
          counted p.serverId + width (lengthSize p.publicKey))
  | .statusResponse _ => True

theorem handshakeContained {p : SHandshake} (id : p.packetId.msb = false)
    (version : p.protocolVersion.msb = false) :
    StaysInside p ↔ lengthSize p.address ≤ 32 ∨ 2^21 ≤ lengthSize p.address := by
  have idWidth := widthInt p.packetId
  have versionWidth := widthInt p.protocolVersion
  have addressWidth := widthWord p.address
  have three := widthLe (lengthSize p.address) 2
  have body : (bodyBytes p).length =
      width p.packetId.toNat + width p.protocolVersion.toNat + written p.address 32 + 3 := by
    simp [bodyBytes, Schema.fields, Field.bytes, written, bigEndian16, width, Packet.base, Nat.add_assoc]
  have none : 32 < lengthSize p.address → written p.address 32 = 0 := fun tooLong => writtenOver tooLong
  have within (fits : lengthSize p.address ≤ 32) : StaysInside p := by
    have whole := countedLe fits (by decide)
    refine countedInside ?_ ?_
    · simp only [Schema.fields, List.forall_mem_cons]
      exact ⟨id, version, ⟨fits, by decide⟩, trivial, trivial, by simp⟩
    · simp only [Schema.fields, List.map_cons, List.map_nil, List.sum_cons, List.sum_nil, size, Packet.base]
      omega
  have around : Around p [.varInt p.packetId, .varInt p.protocolVersion] p.address 32
      [.short p.port, .uInt8 p.nextState] :=
    ⟨rfl, by simp only [List.forall_mem_cons]; exact ⟨id, version, by simp⟩⟩
  have decides := decidesInside around
    (n := width p.packetId.toNat + width p.protocolVersion.toNat + width (lengthSize p.address))
    (by simp [size, latchedSize]) (by omega) (m := 32) rfl
  rw [decides, and_iff_left within, widthSmall (by omega), body]
  omega

theorem loginStartContained {p : SLoginStart} (id : p.packetId.msb = false) : StaysInside p := by
  have idWidth := widthInt p.packetId
  have usernameWidth := widthWord p.username
  have positive := widthPositive (lengthSize p.username)
  have body : (bodyBytes p).length = width p.packetId.toNat + written p.username 16 + 16 := by
    simp [bodyBytes, Schema.fields, Field.bytes, written, width, Packet.base, p.uuid.sized, Nat.add_assoc]
  have within (fits : lengthSize p.username ≤ 16) : StaysInside p := by
    have whole := countedLe fits (by decide)
    refine countedInside ?_ ?_
    · simp only [Schema.fields, List.forall_mem_cons]
      exact ⟨id, ⟨fits, by decide⟩, trivial, by simp⟩
    · simp only [Schema.fields, List.map_cons, List.map_nil, List.sum_cons, List.sum_nil, size, Packet.base]
      omega
  have around : Around p [.varInt p.packetId] p.username 16 [.uuid p.uuid] :=
    ⟨rfl, by simp only [List.forall_mem_cons]; exact ⟨id, by simp⟩⟩
  have decides := decidesInside around
    (n := width p.packetId.toNat + width (lengthSize p.username) + 16)
    (by simp [size, latchedSize]) (by omega) (m := 16) rfl
  rw [decides, and_iff_left within, widthSmall (by omega), body]
  intro tooLong _
  have none : written p.username 16 = 0 := writtenOver tooLong
  omega

theorem loginSuccessContained {p : SLoginSuccess} (id : p.packetId.msb = false) :
    StaysInside p ↔ lengthSize p.username ≤ 16 ∨ 128 ≤ lengthSize p.username := by
  have idWidth := widthInt p.packetId
  have usernameWidth := widthWord p.username
  have one := widthLe (lengthSize p.username) 0
  have zero : (encode (BitVec.toNat (0 : BitVec 32))).length = 1 := widthSmall (by decide)
  have body : (bodyBytes p).length = width p.packetId.toNat + 16 + written p.username 16 + 1 := by
    simp only [bodyBytes, Schema.fields, List.flatMap_cons, List.flatMap_nil, List.length_append,
      List.length_nil, written, Packet.base, Field.bytes, zero, p.id.sized, width]
    omega
  have none : 16 < lengthSize p.username → written p.username 16 = 0 := fun tooLong => writtenOver tooLong
  have within (fits : lengthSize p.username ≤ 16) : StaysInside p := by
    have whole := countedLe fits (by decide)
    have last : width (BitVec.toNat (0 : BitVec 32)) = 1 := zero
    refine countedInside ?_ ?_
    · simp only [Schema.fields, List.forall_mem_cons]
      exact ⟨id, trivial, ⟨fits, by decide⟩, rfl, by simp⟩
    · simp only [Schema.fields, List.map_cons, List.map_nil, List.sum_cons, List.sum_nil, size, Packet.base,
        last]
      omega
  have around : Around p [.varInt p.packetId, .uuid p.id] p.username 16 [.varInt 0] :=
    ⟨rfl, by simp only [List.forall_mem_cons]; exact ⟨id, trivial, by simp⟩⟩
  have decides := decidesInside around
    (n := width p.packetId.toNat + 16 + width (lengthSize p.username))
    (by simp [size, latchedSize]) (by omega) (m := 16) rfl
  rw [decides, and_iff_left within, widthSmall (by omega), body]
  omega

theorem statusResponseContained {p : SStatusResponse toString} (id : p.packetId.msb = false) :
    StaysInside p := by
  have idWidth := widthInt p.packetId
  have bodyWidth := widthWord (toString p.body)
  have positive := widthPositive (lengthSize (toString p.body))
  have body : (bodyBytes p).length =
      width p.packetId.toNat + written (toString p.body) maxStringLength := by
    simp [bodyBytes, Schema.fields, written, width, Packet.base]
  have within (fits : lengthSize (toString p.body) ≤ 32767) : StaysInside p := by
    have whole := countedLe fits (by decide)
    refine countedInside ?_ ?_
    · simp only [Schema.fields, List.forall_mem_cons]
      exact ⟨id, ⟨fits, by decide⟩, by simp⟩
    · simp only [Schema.fields, List.map_cons, List.map_nil, List.sum_cons, List.sum_nil, size, Packet.base]
      omega
  have around : Around p [.varInt p.packetId] (toString p.body) maxStringLength [] :=
    ⟨rfl, by simp only [List.forall_mem_cons]; exact ⟨id, by simp⟩⟩
  have decides := decidesInside around
    (n := width p.packetId.toNat + width (lengthSize (toString p.body)))
    (by simp [size]) (by omega) (m := 32767) rfl
  rw [decides, and_iff_left within, widthSmall (by omega), body]
  intro tooLong _
  have none : written (toString p.body) maxStringLength = 0 := writtenOver tooLong
  omega

/-! An encryption request: the first string that is too long decides. -/

theorem requestBody (p : SEncryptionRequest) : (bodyBytes p).length = width p.packetId.toNat +
    written p.serverId 20 + written p.publicKey maxStringLength + written p.verifyToken maxStringLength := by
  simp [bodyBytes, Schema.fields, written, width, Packet.base, Nat.add_assoc]

/- A token that is too long is the last field: nothing behind it is left uncounted. -/
theorem tokenContained {p : SEncryptionRequest} (id : p.packetId.msb = false)
    (serverFits : lengthSize p.serverId ≤ 20) (keyFits : lengthSize p.publicKey ≤ 32767) :
    StaysInside p := by
  have idWidth := widthInt p.packetId
  have tokenWidth := widthWord p.verifyToken
  have serverLe := writtenLe p.serverId 20
  have keyLe := writtenLe p.publicKey maxStringLength
  have serverWhole := countedLe serverFits (by decide)
  have keyWhole := countedLe keyFits (by decide)
  have within (fits : lengthSize p.verifyToken ≤ 32767) : StaysInside p := by
    have tokenWhole := countedLe fits (by decide)
    refine countedInside ?_ ?_
    · simp only [Schema.fields, List.forall_mem_cons]
      exact ⟨id, ⟨serverFits, by decide⟩, ⟨keyFits, by decide⟩, ⟨fits, by decide⟩, by simp⟩
    · simp only [Schema.fields, List.map_cons, List.map_nil, List.sum_cons, List.sum_nil, size, Packet.base]
      omega
  have around : Around p [.varInt p.packetId, .string p.serverId 20, .string p.publicKey maxStringLength]
      p.verifyToken maxStringLength [] :=
    ⟨rfl, by
      simp only [List.forall_mem_cons]
      exact ⟨id, ⟨serverFits, by decide⟩, ⟨keyFits, by decide⟩, by simp⟩⟩
  have decides := decidesInside around
    (n := width p.packetId.toNat + counted p.serverId + counted p.publicKey + width (lengthSize p.verifyToken))
    (by simp [size, Nat.add_assoc]) (by omega) (m := 32767) rfl
  rw [decides, and_iff_left within, requestBody]
  intro tooLong _
  have none : written p.verifyToken maxStringLength = 0 := writtenOver tooLong
  have tokenLong := widthLe (lengthSize p.verifyToken) 1
  have total := (widthLe (width p.packetId.toNat + counted p.serverId + counted p.publicKey +
    width (lengthSize p.verifyToken)) 2).mpr (by omega)
  omega

theorem keyContained {p : SEncryptionRequest} (id : p.packetId.msb = false)
    (serverFits : lengthSize p.serverId ≤ 20) :
    StaysInside p ↔ (32767 < lengthSize p.publicKey → lengthSize p.publicKey < 2^31 →
      1 + written p.serverId 20 + written p.verifyToken maxStringLength ≤
        counted p.serverId + width (lengthSize p.publicKey)) := by
  have idWidth := widthInt p.packetId
  have keyWidth := widthWord p.publicKey
  have serverWhole := countedLe serverFits (by decide)
  have none : 32767 < lengthSize p.publicKey → written p.publicKey maxStringLength = 0 :=
    fun tooLong => writtenOver tooLong
  have around : Around p [.varInt p.packetId, .string p.serverId 20] p.publicKey maxStringLength
      [.string p.verifyToken maxStringLength] :=
    ⟨rfl, by simp only [List.forall_mem_cons]; exact ⟨id, ⟨serverFits, by decide⟩, by simp⟩⟩
  have decides := decidesInside around
    (n := width p.packetId.toNat + counted p.serverId + width (lengthSize p.publicKey))
    (by simp [size, latchedSize]) (by omega) (m := 32767) rfl
  rw [decides, and_iff_left (tokenContained id serverFits), widthSmall (by omega), requestBody]
  omega

theorem encryptionRequestContained {p : SEncryptionRequest} (id : p.packetId.msb = false) :
    StaysInside p ↔ (Outbound.encryptionRequest p : Outbound toString).Contained := by
  have idWidth := widthInt p.packetId
  have serverWidth := widthWord p.serverId
  have none : 20 < lengthSize p.serverId → written p.serverId 20 = 0 := fun tooLong => writtenOver tooLong
  have around : Around p [.varInt p.packetId] p.serverId 20
      [.string p.publicKey maxStringLength, .string p.verifyToken maxStringLength] :=
    ⟨rfl, by simp only [List.forall_mem_cons]; exact ⟨id, by simp⟩⟩
  have decides := decidesInside around (n := width p.packetId.toNat + width (lengthSize p.serverId))
    (by simp [size, latchedSize]) (by omega) (m := 20) rfl
  rw [decides, widthSmall (by omega), requestBody, Outbound.Contained]
  refine and_congr ?_ (imp_congr_right (keyContained id))
  omega

theorem containedExactly (p : Outbound toString) (positive : p.Positive) : p.StaysInside ↔ p.Contained := by
  cases p with
  | handshake p => exact handshakeContained positive.1 positive.2
  | loginStart p => exact iff_of_true (loginStartContained positive) trivial
  | loginSuccess p => exact loginSuccessContained positive
  | encryptionRequest p => exact encryptionRequestContained positive
  | statusResponse p => exact iff_of_true (statusResponseContained positive) trivial

def nobody : CUUID := ⟨List.replicate 16 0, rfl⟩

theorem containedLongLogin : (Outbound.loginStart { SLoginStart.fresh nobody with
    username := List.replicate 17 88 } : Outbound fun _ => []).StaysInside :=
  (containedExactly _ (by rfl)).mpr trivial

/- A username of 17 characters, one more than fits. -/
def longName : SLoginSuccess := { SLoginSuccess.fresh nobody with username := List.replicate 17 88 }

/- 18 bytes are allocated and 19 written. -/
theorem longNameOverflows : longName.packetId.msb = false ∧ longName.username.length > 16 ∧
    ¬ StaysInside longName := by
  refine ⟨rfl, by decide, ?_⟩
  intro inside
  have broken := inside _ rfl (18, 0) (by decide)
  revert broken
  decide

end Mcpp.Oversized
