import Mcpp.Packets
import Mcpp.VarInt

/-! A packet as the list of fields its Serialize names. The size calculator and
the writer leave every field as it is, so over them Serialize is the effect of
its fields in order; what the writer puts is the fields' bytes, end to end. -/
namespace Mcpp.Wire
open Buffers Uuid PacketVisitor Packets Base128 VarInt

inductive Field where
  | varInt (value : BitVec 32)
  | short (value : BitVec 16)
  | uInt8 (value : UInt8)
  | string (value : Bytes) (maxSize : BitVec 32)
  | uuid (value : CUUID)
  deriving DecidableEq

variable {σ : Type}

theorem visitBind {α β : Type} (x : Visit σ α) (f : α → Visit σ β) (s : σ) :
    (x >>= f) s = x s >>= fun r => f r.1 r.2 := rfl
theorem visitPure {α : Type} (a : α) (s : σ) : (pure a : Visit σ α) s = .ok (a, s) := rfl
theorem mapOk {α β : Type} (f : α → β) (a : α) : f <$> (Except.ok a : Except Fault α) = .ok (f a) := rfl
theorem bindOk {α β : Type} (a : α) (f : α → Except Fault β) : (Except.ok a >>= f) = f a := rfl

theorem okBind {α β : Type} {x : Except Fault α} {f : α → Except Fault β} {b : β} (ok : (x >>= f) = .ok b) :
    ∃ a, x = .ok a ∧ f a = .ok b := by
  cases x with
  | error fault => contradiction
  | ok a => exact ⟨a, rfl, ok⟩

/- A visitor that changes only its own state. -/
structure Quiet (visitor : IPacketVisitor σ) (effect : Field → σ → Except Fault σ) : Prop where
  onVarInt : ∀ v s, visitor.onVarInt v s = (v, ·) <$> effect (.varInt v) s
  onShort : ∀ v s, visitor.onShort v s = (v, ·) <$> effect (.short v) s
  onUInt8 : ∀ v s, visitor.onUInt8 v s = (v, ·) <$> effect (.uInt8 v) s
  onString : ∀ v m s, visitor.onString v m s = (v, ·) <$> effect (.string v m) s
  onUUID : ∀ v s, visitor.onUUID v s = (v, ·) <$> effect (.uuid v) s

def effects (effect : Field → σ → Except Fault σ) : List Field → σ → Except Fault σ
  | [], s => .ok s
  | f :: rest, s => effect f s >>= effects effect rest

theorem beginSized {visitor : IPacketVisitor σ} {effect : Field → σ → Except Fault σ}
    (quiet : Quiet visitor effect) (first : visitor.sizeFirst = true) (p : IPacket) (s : σ) :
    serializeBegin visitor p s =
      (p, ·) <$> effects effect [.varInt p.packetSize, .varInt p.packetId] s := by
  simp only [serializeBegin, if_pos first, visitBind, visitPure, quiet.onVarInt, effects, bind_map_left,
    map_bind, mapOk]

theorem beginEnded {visitor : IPacketVisitor σ} {effect : Field → σ → Except Fault σ}
    (quiet : Quiet visitor effect) (last : visitor.sizeFirst = false) (p : IPacket) (s : σ) :
    serializeBegin visitor p s = (p, ·) <$> effects effect [.varInt p.packetId] s := by
  simp only [serializeBegin, last, Bool.false_eq_true, ite_false, visitBind, visitPure, quiet.onVarInt,
    effects, bind_map_left, map_bind, mapOk]

theorem endSized {visitor : IPacketVisitor σ} (first : visitor.sizeFirst = true) (p : IPacket) (s : σ) :
    serializeEnd visitor p s = .ok (p, s) := by
  simp only [serializeEnd, first, Bool.not_true, Bool.false_eq_true, ite_false, visitPure]

theorem endEnded {visitor : IPacketVisitor σ} {effect : Field → σ → Except Fault σ}
    (quiet : Quiet visitor effect) (last : visitor.sizeFirst = false) (p : IPacket) (s : σ) :
    serializeEnd visitor p s =
      visitor.setIsEnd s >>= fun r => (p, ·) <$> effect (.varInt p.packetSize) r.2 := by
  simp only [serializeEnd, last, Bool.not_false, ite_true, visitBind, visitPure, quiet.onVarInt,
    bind_map_left]
  rfl

theorem effectsAppend (effect : Field → σ → Except Fault σ) (a b : List Field) (s : σ) :
    effects effect (a ++ b) s = effects effect a s >>= effects effect b := by
  induction a generalizing s with
  | nil => rfl
  | cons f rest ih =>
    have tail : effects effect (rest ++ b) = fun s => effects effect rest s >>= effects effect b := funext ih
    simp only [List.cons_append, effects, bind_assoc, tail]

/- A packet whose fields are known by name. -/
class Schema (P : Type) extends Packet P where
  fields : P → List Field
  fieldsQuiet {σ : Type} {visitor : IPacketVisitor σ} {effect : Field → σ → Except Fault σ}
    (quiet : Quiet visitor effect) (p : P) (s : σ) :
    serializeFields visitor p s = (p, ·) <$> effects effect (fields p) s
  baseSet (b : IPacket) (p : P) : base (setBase b p) = b
  setSame (p : P) : setBase (base p) p = p
  fieldsSet (b : IPacket) (p : P) : fields (setBase b p) = fields p

instance : Schema SHandshake where
  fields p := [.varInt p.protocolVersion, .string p.address 32, .short p.port, .uInt8 p.nextState]
  fieldsQuiet quiet p s := by
    simp only [Packet.serializeFields, effects, visitBind, visitPure, mapOk, map_bind, bind_map_left,
      quiet.onVarInt, quiet.onString, quiet.onShort, quiet.onUInt8]
  baseSet _ _ := rfl
  setSame _ := rfl
  fieldsSet _ _ := rfl

instance : Schema SLoginStart where
  fields p := [.string p.username 16, .uuid p.uuid]
  fieldsQuiet quiet p s := by
    simp only [Packet.serializeFields, effects, visitBind, visitPure, mapOk, map_bind, bind_map_left,
      quiet.onString, quiet.onUUID]
  baseSet _ _ := rfl
  setSame _ := rfl
  fieldsSet _ _ := rfl

instance : Schema SLoginSuccess where
  fields p := [.uuid p.id, .string p.username 16, .varInt 0]
  fieldsQuiet quiet p s := by
    simp only [Packet.serializeFields, effects, visitBind, visitPure, mapOk, map_bind, bind_map_left,
      quiet.onVarInt, quiet.onString, quiet.onUUID]
  baseSet _ _ := rfl
  setSame _ := rfl
  fieldsSet _ _ := rfl

instance : Schema SEncryptionRequest where
  fields p := [.string p.serverId 20, .string p.publicKey maxStringLength,
    .string p.verifyToken maxStringLength]
  fieldsQuiet quiet p s := by
    simp only [Packet.serializeFields, effects, visitBind, visitPure, mapOk, map_bind, bind_map_left,
      quiet.onString]
  baseSet _ _ := rfl
  setSame _ := rfl
  fieldsSet _ _ := rfl

instance (toString : Json → Bytes) : Schema (SStatusResponse toString) where
  fields p := [.string (toString p.body) maxStringLength]
  fieldsQuiet quiet p s := by
    simp only [Packet.serializeFields, effects, visitBind, visitPure, mapOk, map_bind, bind_map_left,
      quiet.onString]
  baseSet _ _ := rfl
  setSame _ := rfl
  fieldsSet _ _ := rfl

variable {P : Type} [Schema P]

def header (p : P) : List Field := [.varInt (Packet.base p).packetSize, .varInt (Packet.base p).packetId]

theorem serializeSized {visitor : IPacketVisitor σ} {effect : Field → σ → Except Fault σ}
    (quiet : Quiet visitor effect) (first : visitor.sizeFirst = true) (p : P) (s : σ) :
    serialize visitor p s = (p, ·) <$> effects effect (header p ++ Schema.fields p) s := by
  simp only [serialize, visitBind, beginSized quiet first, bind_map_left, Schema.setSame,
    Schema.fieldsQuiet quiet, endSized first, bindOk, visitPure, effectsAppend, map_bind, header]
  rfl

theorem serializeEnded {visitor : IPacketVisitor σ} {effect : Field → σ → Except Fault σ}
    (quiet : Quiet visitor effect) (last : visitor.sizeFirst = false) (p : P) (s : σ) :
    serialize visitor p s = (do
      let s ← effects effect (.varInt (Packet.base p).packetId :: Schema.fields p) s
      let (_, s) ← visitor.setIsEnd s
      let s ← effect (.varInt (Packet.base p).packetSize) s
      .ok (p, s)) := by
  simp only [serialize, visitBind, beginEnded quiet last, bind_map_left, Schema.setSame,
    Schema.fieldsQuiet quiet, endEnded quiet last, bind_assoc, visitPure, effects, bindOk]

/-! The writer. -/

def bigEndian16 (v : BitVec 16) : Bytes := littleEndian 2 (forceswap16 v).toNat

def Field.bytes : Field → Bytes
  | .varInt v => encode v.toNat
  | .short v => bigEndian16 v
  | .uInt8 v => [v]
  | .string s maxSize => if s.length > maxSize.toNat then [] else encode s.length ++ s
  | .uuid u => u.data

def putAll (bytes : Bytes) (w : CPacketWriter) : CPacketWriter := bytes.foldl CPacketWriter.put w

theorem putAllAppend (a b : Bytes) (w : CPacketWriter) : putAll (a ++ b) w = putAll b (putAll a w) := by
  simp only [putAll, List.foldl_append]

theorem putAllStores (bytes : Bytes) (w : CPacketWriter) :
    (putAll bytes w).stores = w.stores ++ (List.range' w.size bytes.length).zip bytes := by
  induction bytes generalizing w with
  | nil => simp [putAll]
  | cons b rest ih =>
    have tail := ih (w.put b)
    simp only [putAll, List.foldl_cons] at tail ⊢
    rw [tail]
    simp [CPacketWriter.put, CPacketWriter.store, List.range'_succ]

theorem putAllData (bytes before after : Bytes) (w : CPacketWriter) (data : w.data = before ++ after)
    (size : w.size = before.length) (room : bytes.length ≤ after.length) :
    (putAll bytes w).data = before ++ bytes ++ after.drop bytes.length := by
  induction bytes generalizing w before after with
  | nil => simp [putAll, data]
  | cons b rest ih =>
    cases after with
    | nil => simp at room
    | cons old after =>
      have next := ih (before ++ [b]) after (w.put b)
        (by simp [CPacketWriter.put, CPacketWriter.store, data, size])
        (by simp [CPacketWriter.put, size]) (by simpa using room)
      simp only [putAll, List.foldl_cons] at next ⊢
      rw [next]
      simp

def writerEffect (f : Field) (w : CPacketWriter) : Except Fault CPacketWriter := .ok (putAll f.bytes w)

theorem stringLength {s : Bytes} {maxSize : BitVec 32} (fits : s.length ≤ maxSize.toNat) :
    (BitVec.ofNat 32 s.length).toNat = s.length := by
  have bound := maxSize.isLt
  simp only [BitVec.toNat_ofNat]
  omega

theorem wordBytes (bytes : Bytes) (size : bytes.length = 8) :
    littleEndian 8 (BitVec.ofNat 64 (ofLittleEndian bytes)).toNat = bytes := by
  have bound := ofLittleEndianBound bytes
  have same := littleEndianOf bytes
  rw [size] at bound same
  rw [BitVec.toNat_ofNat, Nat.mod_eq_of_lt (by omega), same]

theorem writerQuiet : Quiet CPacketWriter.visitor writerEffect where
  onVarInt v w := by
    simp only [CPacketWriter.visitor, writerLoopLeaves, writerEffect, mapOk, Field.bytes, putAll]
  onShort v w := rfl
  onUInt8 v w := rfl
  onString v m w := by
    simp only [CPacketWriter.visitor, CPacketWriter.onString, writerEffect, mapOk, Field.bytes]
    split
    · rfl
    · rename_i fits
      have length := stringLength (show v.length ≤ m.toNat by omega)
      rw [visitBind, writerLoopLeaves, bindOk, length, putAllAppend]
      rfl
  onUUID v w := by
    have high : v.data.drop 8 = (v.data.drop 8).take 8 :=
      (List.take_of_length_le (by simp [v.sized])).symm
    have low := wordBytes (v.data.take 8) (by simp [v.sized])
    have top := wordBytes ((v.data.drop 8).take 8) (by simp [v.sized])
    have whole : v.data = v.data.take 8 ++ (v.data.drop 8).take 8 := by
      rw [← high, List.take_append_drop]
    simp only [CPacketWriter.visitor, CPacketWriter.onUUID, CPacketWriter.onULong, CUUID.bytes, low, top,
      writerEffect, Field.bytes, mapOk]
    conv => rhs; rw [whole, putAllAppend]
    rfl

theorem writerEffects (fields : List Field) (w : CPacketWriter) :
    effects writerEffect fields w = .ok (putAll (fields.flatMap Field.bytes) w) := by
  induction fields generalizing w with
  | nil => rfl
  | cons f rest ih => simp only [effects, writerEffect, bindOk, ih, List.flatMap_cons, putAllAppend]

/-! The size calculator. -/

def sizeVarInt (v : BitVec 32) (c : CPacketSizeCalc) : Except Fault CPacketSizeCalc :=
  if !c.success then .ok c
  else
    let finalValue := if c.isEnd then c.currentSize else v
    if finalValue.msb then .error .hang
    else .ok { c with
      currentSize := c.currentSize + BitVec.ofNat 32 (width finalValue.toNat)
      packetLengthSize := if c.isEnd then BitVec.ofNat 32 (width finalValue.toNat) else c.packetLengthSize }

def sizeEffect : Field → CPacketSizeCalc → Except Fault CPacketSizeCalc
  | .varInt v, c => sizeVarInt v c
  | .short _, c => .ok (if c.success then { c with currentSize := c.currentSize + 2 } else c)
  | .uInt8 _, c => .ok (if c.success then { c with currentSize := c.currentSize + 1 } else c)
  | .uuid _, c => .ok { c with currentSize := c.currentSize + 16 }
  | .string s maxSize, c =>
    if !c.success then .ok c
    else do
      let c ← sizeVarInt (BitVec.ofNat 32 s.length) c
      if BitVec.ofNat 32 s.length > maxSize then .ok { c with success := false }
      else .ok { c with currentSize := c.currentSize + BitVec.ofNat 32 s.length }

theorem sizeVarIntVisit (v : BitVec 32) (c : CPacketSizeCalc) :
    CPacketSizeCalc.onVarInt v c = (v, ·) <$> sizeVarInt v c := by
  unfold CPacketSizeCalc.onVarInt sizeVarInt
  split
  · rfl
  · simp only [sizeRun]
    generalize (if c.isEnd = true then c.currentSize else v) = finalValue
    cases finalValue.msb <;> rfl

theorem sizeQuiet : Quiet CPacketSizeCalc.visitor sizeEffect where
  onVarInt := sizeVarIntVisit
  onShort _ _ := rfl
  onUInt8 _ _ := rfl
  onUUID _ _ := rfl
  onString v m c := by
    simp only [CPacketSizeCalc.visitor, CPacketSizeCalc.onString, sizeEffect, sizeVarIntVisit]
    split
    · rfl
    · simp only [bind_map_left, map_bind]
      congr 1
      funext c
      split <;> rfl

/- The calculator after `n` bytes, still counting, and after a string was too long. -/
def counting (n : Nat) : CPacketSizeCalc := { currentSize := BitVec.ofNat 32 n }
def latched (n : Nat) : CPacketSizeCalc := { currentSize := BitVec.ofNat 32 n, success := false }

theorem countVarInt {v : BitVec 32} (positive : v.msb = false) (n : Nat) :
    sizeVarInt v (counting n) = .ok (counting (n + width v.toNat)) := by
  simp [sizeVarInt, counting, positive, BitVec.ofNat_add]

theorem countString (s : Bytes) (maxSize : BitVec 32) (n : Nat) :
    sizeEffect (.string s maxSize) (counting n) =
      if (BitVec.ofNat 32 s.length).msb then .error .hang
      else if BitVec.ofNat 32 s.length > maxSize then
        .ok (latched (n + width (BitVec.ofNat 32 s.length).toNat))
      else .ok (counting (n + width (BitVec.ofNat 32 s.length).toNat + s.length)) := by
  cases sign : (BitVec.ofNat 32 s.length).msb with
  | true => simp [sizeEffect, sizeVarInt, counting, sign]; rfl
  | false =>
    have counted := countVarInt sign n
    simp only [sizeEffect, counted, bindOk]
    simp only [counting, latched, Bool.not_true, Bool.false_eq_true, ite_false, BitVec.ofNat_add]

/- A field the calculator counts as the writer writes it. -/
def Field.Fits : Field → Prop
  | .varInt v => v.msb = false
  | .string s maxSize => s.length ≤ maxSize.toNat ∧ maxSize.msb = false
  | _ => True

theorem countField {f : Field} (fits : f.Fits) (n : Nat) :
    sizeEffect f (counting n) = .ok (counting (n + f.bytes.length)) := by
  cases f with
  | varInt v => exact countVarInt fits n
  | short v => simp [sizeEffect, counting, Field.bytes, bigEndian16, BitVec.ofNat_add]
  | uInt8 v => simp [sizeEffect, counting, Field.bytes, BitVec.ofNat_add]
  | uuid u => simp [sizeEffect, counting, Field.bytes, u.sized, BitVec.ofNat_add]
  | string s maxSize =>
    obtain ⟨short, positive⟩ := fits
    have length := stringLength short
    have half := BitVec.msb_eq_false_iff_two_mul_lt.mp positive
    have sign : (BitVec.ofNat 32 s.length).msb = false := by
      rw [BitVec.msb_eq_false_iff_two_mul_lt, length]
      omega
    have within : ¬ BitVec.ofNat 32 s.length > maxSize := by
      rw [gt_iff_lt, BitVec.lt_def, length]
      omega
    have written : ¬ s.length > maxSize.toNat := by omega
    simp only [countString, sign, Bool.false_eq_true, ite_false, if_neg within, length, Field.bytes,
      if_neg written, List.length_append, width, Nat.add_assoc]

theorem countFields {fields : List Field} (fits : ∀ f ∈ fields, f.Fits) (n : Nat) :
    effects sizeEffect fields (counting n) = .ok (counting (n + (fields.flatMap Field.bytes).length)) := by
  induction fields generalizing n with
  | nil => simp [effects]
  | cons f rest ih =>
    rw [effects, countField (fits f (by simp)), bindOk, ih (fun g mem => fits g (by simp [mem]))]
    simp [Nat.add_assoc]

theorem latchedField (f : Field) (n : Nat) : sizeEffect f (latched n) =
    .ok (latched (n + match f with | .uuid _ => 16 | _ => 0)) := by
  cases f <;> simp [sizeEffect, sizeVarInt, latched, BitVec.ofNat_add]

end Mcpp.Wire
