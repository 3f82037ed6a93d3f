import Mcpp.SerializePacket

/-! One VarInt through the three visitors. What the writer appends for a value the
reader takes back, whatever follows it, and nothing shorter reads as that value. The
size calculator counts the same bytes where it leaves its loop at all. -/
namespace Mcpp.VarIntCodec
open Buffers PacketVisitor Base128 VarInt Wire SerializePacket

/- The bytes stored, one behind the other from m_size on, and m_size moved past them. -/
structure Appends (w w' : CPacketWriter) (bytes : Bytes) : Prop where
  size : w'.size = w.size + bytes.length
  stores : w'.stores = w.stores ++ (List.range' w.size bytes.length).zip bytes

/- What the writer does for `v`, wherever it stands. -/
def Writes (v : BitVec 32) (bytes : Bytes) : Prop :=
  ∀ w, ∃ w', CPacketWriter.onVarInt v w = .ok (v, w') ∧ Appends w w' bytes

theorem putAllAppends (bytes : Bytes) (w : CPacketWriter) : Appends w (putAll bytes w) bytes where
  size := by
    induction bytes generalizing w with
    | nil => rfl
    | cons b rest ih =>
      have tail : (putAll rest (w.put b)).size = (w.put b).size + rest.length := ih (w.put b)
      have first : (w.put b).size = w.size + 1 := rfl
      rw [putAll, List.foldl_cons, ← putAll, tail, first, List.length_cons]
      omega
  stores := putAllStores bytes w

theorem zipSecond (start : Nat) (bytes : Bytes) :
    ((List.range' start bytes.length).zip bytes).map Prod.snd = bytes :=
  List.map_snd_zip (by rw [List.length_range'])

theorem writesExactly (v : BitVec 32) (bytes : Bytes) : Writes v bytes ↔ bytes = encode v.toNat := by
  have written (w : CPacketWriter) : CPacketWriter.onVarInt v w = .ok (v, putAll (encode v.toNat) w) :=
    writerLoopLeaves v w
  constructor
  · intro writes
    obtain ⟨w', ok, appends⟩ := writes (.new 0)
    rw [written] at ok
    cases ok
    have same := (putAllStores (encode v.toNat) (.new 0)).symm.trans appends.stores
    have bytesSame := congrArg (List.map Prod.snd) (List.append_cancel_left same)
    rw [zipSecond, zipSecond] at bytesSame
    exact bytesSame.symm
  · rintro rfl w
    exact ⟨_, written w, putAllAppends _ w⟩

/-! The size calculator against the writer. -/

/- A fresh calculator leaves its loop, and has counted what the writer appends. -/
def Agrees (v : BitVec 32) : Prop :=
  ∃ c bytes, CPacketSizeCalc.onVarInt v {} = .ok (v, c) ∧
    Loop.Ends CPacketSizeCalc.varIntBody (0, v) c.getFullSize ∧
    Writes v bytes ∧ c.getFullSize.toNat = bytes.length ∧ 1 ≤ bytes.length ∧ bytes.length ≤ 5

theorem countsAppended (v : BitVec 32) : Agrees v ↔ 0 ≤ v.toInt := by
  have sign : 0 ≤ v.toInt ↔ v.msb = false := by
    rw [BitVec.msb_eq_toInt, decide_eq_false_iff_not, Int.not_lt]
  rw [sign]
  constructor
  · intro ⟨c, bytes, ok, ends, rest⟩
    exact ((sizeLoopExact 0 v _).mp ends).1
  · intro positive
    have narrow : width v.toNat ≤ 5 := widthInt v
    have counted : CPacketSizeCalc.onVarInt v {} = .ok (v, counting (width v.toNat)) := by
      have counts := countVarInt positive 0
      rw [Nat.zero_add] at counts
      have start : counting 0 = {} := rfl
      rw [start] at counts
      rw [sizeVarIntVisit, counts, mapOk]
    have full : (counting (width v.toNat)).getFullSize = BitVec.ofNat 32 (width v.toNat) := rfl
    refine ⟨_, encode v.toNat, counted, ?_, (writesExactly v _).mpr rfl, ?_, widthPositive _, narrow⟩
    · exact (sizeLoopExact 0 v _).mpr ⟨positive, by simp [full]⟩
    · rw [full, BitVec.toNat_ofNat]
      exact Nat.mod_eq_of_lt (by omega)

/- Minus one shifts to itself for ever; the writer has five bytes for it. -/
theorem minusOneHangs : ¬ ∀ v : BitVec 32, Agrees v := by
  intro always
  obtain ⟨c, bytes, ok, ends, rest⟩ := always (-1)
  exact sizeLoopDiverges (by decide) 0 c.getFullSize ends

/-! The reader against the writer. -/

theorem widthMono {a b : Nat} (le : a ≤ b) : width a ≤ width b := by
  obtain ⟨k, same⟩ : ∃ k, width b = k+1 := ⟨width b - 1, by have := widthPositive b; omega⟩
  have less : b < 128 ^ (k+1) := (widthLe b k).mp (Nat.le_of_eq same)
  rw [same]
  exact (widthLe a k).mpr (Nat.lt_of_le_of_lt le less)

/- Bytes the reader consumed to the end, which does not go on, are an encoding of the
value it returned, of all its bits but those shifted out. -/
theorem readerConsumed {memory : Memory} {n : Nat} {v : BitVec 32} {r : CPacketReader}
    (read : CPacketReader.onVarInt 0 { memory := memory } = .ok (v, r)) (consumed : r.current = n+1)
    (last : (memory n).toNat < 128) :
    ∃ bytes, Closed bytes ∧ bytes.length = n+1 ∧ v.toNat = value bytes % 2^32 := by
  rw [readerLoopLeaves] at read
  cases read
  have length : (varIntBytes memory 0).length = n+1 := by
    rw [← consumed, CPacketReader.advance, Nat.zero_add]
  have inside : n < turns := by
    have most : (varIntBytes memory 0).length ≤ turns := scanLength memory turns 0
    omega
  have large : ∀ i < n, 128 ≤ (memory (0+i)).toNat := by
    intro i less
    have more : i+1 < (scan memory turns 0).length := by
      rw [← varIntBytes, length]
      omega
    exact scanLarge more
  have closed : Closed (varIntBytes memory 0) := (scanEnds inside large (by rwa [Nat.zero_add])).1
  refine ⟨_, closed, length, ?_⟩
  have value' : varIntValue memory 0 0 = BitVec.ofNat 32 (value (varIntBytes memory 0)) := by
    simp [varIntValue, accumulated, if_pos closed]
  rw [value', BitVec.toNat_ofNat]

theorem readsEncoding (v : BitVec 32) : Reads (CPacketReader.onVarInt 0) v (encode v.toNat) := readsVarInt BitVec.zero_or

/- What is read behind a value is what was put there. -/
theorem readsBack (v : BitVec 32) {suffix : Bytes} {r : CPacketReader}
    (held : Holds r.memory r.current (encode v.toNat ++ suffix)) :
    ∃ r', CPacketReader.onVarInt 0 r = .ok (v, r') ∧ r'.current = r.current + (encode v.toNat).length ∧
      r'.memory = r.memory ∧ Holds r'.memory r'.current suffix := by
  obtain ⟨here, after⟩ := (holdsAppend ..).mp held
  exact ⟨_, readsEncoding v r here, rfl, rfl, after⟩

/- One memory holds both encodings: the reader cannot tell which of them it was given. -/
theorem encodingAlone {v u : BitVec 32} {suffix : Bytes} (whole : encode v.toNat ++ suffix = encode u.toNat) :
    u = v ∧ suffix = [] := by
  obtain ⟨memory, held⟩ : ∃ memory, Holds memory 0 (encode u.toNat) :=
    ⟨_, bufferHolds [] (encode u.toNat) [] fun _ => 0⟩
  have inside : Holds memory 0 (encode v.toNat) := by
    rw [← whole, holdsAppend] at held
    exact held.1
  have one := readsEncoding u { memory := memory } held
  have two := readsEncoding v { memory := memory } inside
  have same : u = v := congrArg Prod.fst (Except.ok.inj (one.symm.trans two))
  rw [same] at whole
  exact ⟨same, List.append_right_eq_self.mp whole⟩

theorem writtenShortest {v : BitVec 32} {bytes : Bytes} {last : UInt8} {past : Memory} {r : CPacketReader}
    (small : last.toNat < 128) (read : CPacketReader.onVarInt 0 { memory := buffer (bytes ++ [last]) past } = .ok (v, r))
    (consumed : r.current = bytes.length + 1) : (encode v.toNat).length ≤ bytes.length + 1 := by
  have final : (buffer (bytes ++ [last]) past bytes.length).toNat < 128 := by
    rw [bufferInside (by simp)]
    simpa using small
  obtain ⟨encoding, closed, length, sum⟩ := readerConsumed read consumed final
  calc (encode v.toNat).length = width (value encoding % 2^32) := by rw [width, sum]
    _ ≤ width (value encoding) := widthMono (Nat.mod_le _ _)
    _ ≤ encoding.length := widthMinimal closed
    _ = bytes.length + 1 := length

theorem codecExact :
    (∀ v, ∃ bytes, Writes v bytes ∧ ∀ suffix (r : CPacketReader), Holds r.memory r.current (bytes ++ suffix) →
      ∃ r', CPacketReader.onVarInt 0 r = .ok (v, r') ∧ r'.current = r.current + bytes.length ∧
        r'.memory = r.memory ∧ Holds r'.memory r'.current suffix) ∧
    (∀ v u bytes suffix, Writes v bytes → Writes u (bytes ++ suffix) → u = v ∧ suffix = []) ∧
    (∀ v written bytes last past r, Writes v written → (bytes ++ [last]).length ≤ 5 → last.toNat < 128 →
      CPacketReader.onVarInt 0 { memory := buffer (bytes ++ [last]) past } = .ok (v, r) →
      r.current = (bytes ++ [last]).length → written.length ≤ (bytes ++ [last]).length) := by
  refine ⟨?_, ?_, ?_⟩
  · intro v
    exact ⟨encode v.toNat, (writesExactly v _).mpr rfl, fun _ _ held => readsBack v held⟩
  · intro v u bytes suffix left right
    obtain rfl := (writesExactly v bytes).mp left
    exact encodingAlone ((writesExactly u _).mp right)
  · intro v written bytes last past r writes short small read consumed
    obtain rfl := (writesExactly v written).mp writes
    rw [List.length_append, List.length_singleton] at consumed ⊢
    exact writtenShortest small read consumed

/- Zero in two bytes reads as zero. -/
example : CPacketReader.onVarInt 0 { memory := buffer [0x80, 0] fun _ => 0 } =
    .ok (0, { memory := buffer [0x80, 0] fun _ => 0, current := 2, reads := [0, 1] }) := rfl

end Mcpp.VarIntCodec
