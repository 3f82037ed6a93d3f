import Mathlib.Data.List.GetD
import Mathlib.Tactic.FinCases
import Mathlib.Tactic.IntervalCases
import Mcpp.AuthHash
import Mcpp.SerializePacket
import Mcpp.VarIntCodec

/-! A UUID through its text and its wire form. Every lane operation on the way works byte
by byte as long as no byte overflows into the next, and every shuffle only says where a
byte comes from; what is left is one table of sixteen digits in each direction. -/
namespace Mcpp.UuidText
open Buffers Uuid PacketVisitor Wire SerializePacket
open AuthHash (LowerHex hexDigit)
open VarIntCodec (Appends putAllAppends)

/-! Lanes. -/

theorem ofLittleEndianByte (bytes : Bytes) (j : Nat) :
    UInt8.ofNat (ofLittleEndian bytes / 256^j) = bytes.getD j 0 := by
  induction j generalizing bytes with
  | zero =>
    cases bytes with
    | nil => rfl
    | cons b rest =>
      apply UInt8.toNat_inj.mp
      have byte := b.toNat_lt
      rw [UInt8.toNat_ofNat', ofLittleEndian, List.getD_cons_zero]
      omega
  | succ j ih =>
    cases bytes with
    | nil => simp [ofLittleEndian]
    | cons b rest =>
      have byte := b.toNat_lt
      have high : (b.toNat + 256 * ofLittleEndian rest) / 256 = ofLittleEndian rest := by omega
      rw [ofLittleEndian, Nat.pow_succ', ← Nat.div_div_eq_div_mul, high, ih, List.getD_cons_succ]

theorem ofLanesByte (width : Nat) (f : Nat → Nat) {i : Nat} {bytes : Bytes} (same : f (i/width) = ofLittleEndian bytes) :
    ofLanes width f i = bytes.getD (i % width) 0 := by
  rw [ofLanes, same, ofLittleEndianByte]

theorem sliceByte (a : Register) (start count : Nat) {j : Nat} (inside : j < count) :
    (slice a start count).getD j 0 = a (start + j) := by
  rw [List.getD_eq_getElem _ _ (by simpa using inside), sliceGet]

theorem ofLittleEndianScaled {bytes : Bytes} {c : Nat} (small : ∀ b ∈ bytes, b.toNat * 2^c < 256) :
    ofLittleEndian bytes * 2^c = ofLittleEndian (bytes.map fun b => UInt8.ofNat (b.toNat * 2^c)) := by
  induction bytes with
  | nil => simp [ofLittleEndian]
  | cons b rest ih =>
    obtain ⟨first, others⟩ := List.forall_mem_cons.mp small
    rw [List.map_cons, ofLittleEndian, ofLittleEndian, ← ih others, UInt8.toNat_ofNat', Nat.mod_eq_of_lt first]
    rw [Nat.add_mul, Nat.mul_assoc]

theorem ofLittleEndianSum {a b : Bytes} (length : a.length = b.length)
    (small : ∀ j, (a.getD j 0).toNat + (b.getD j 0).toNat < 256) :
    ofLittleEndian a + ofLittleEndian b = ofLittleEndian (List.zipWith (· + ·) a b) := by
  induction a generalizing b with
  | nil =>
    cases b with
    | nil => rfl
    | cons y rest => simp at length
  | cons x xs ih =>
    cases b with
    | nil => simp at length
    | cons y ys =>
      have first : x.toNat + y.toNat < 256 := small 0
      have others := ih (by simpa using length) (fun j => small (j+1))
      rw [List.zipWith_cons_cons, ofLittleEndian, ofLittleEndian, ofLittleEndian, ← others, UInt8.toNat_add,
        Nat.mod_eq_of_lt first]
      omega

/- A lane shifted left whose bytes stay bytes. -/
theorem shiftLane {width k c : Nat} {a : Register} (small : ∀ j < width, (a (width*k + j)).toNat * 2^c < 256) :
    (lane width k a <<< c) % 2^(8*width) =
      ofLittleEndian ((slice a (width*k) width).map fun b => UInt8.ofNat (b.toNat * 2^c)) := by
  have each : ∀ b ∈ slice a (width*k) width, b.toNat * 2^c < 256 := by
    intro b mem
    obtain ⟨j, inside, rfl⟩ := List.mem_map.mp mem
    exact small j (List.mem_range.mp inside)
  have bound := ofLittleEndianBound ((slice a (width*k) width).map fun b => UInt8.ofNat (b.toNat * 2^c))
  rw [List.length_map, sliceLength] at bound
  have power : 2^(8*width) = 256^width := by rw [Nat.pow_mul]
  rw [lane, Nat.shiftLeft_eq, ofLittleEndianScaled each, power, Nat.mod_eq_of_lt bound]

theorem laneByte {width : Nat} (positive : 0 < width) (a : Register) (f : UInt8 → UInt8) (i : Nat) :
    ((slice a (width*(i/width)) width).map f).getD (i % width) 0 = f (a i) := by
  have inside : i % width < width := Nat.mod_lt i positive
  have place : width * (i/width) + i % width = i := Nat.div_add_mod i width
  rw [List.getD_eq_getElem _ _ (by simpa using inside), List.getElem_map, sliceGet, place]

theorem slliByte {a : Register} {c i : Nat} (small : ∀ j, (a j).toNat * 2^c < 256) :
    slliEpi64 a c i = UInt8.ofNat ((a i).toNat * 2^c) := by
  rw [slliEpi64, ofLanesByte 8 _ (shiftLane fun j _ => small _), laneByte (by decide)]

theorem sllvByte {a counts : Register} {i : Nat}
    (small : ∀ j < 4, (a (4*(i/4) + j)).toNat * 2^(lane 4 (i/4) counts) < 256) :
    sllvEpi32 a counts i = UInt8.ofNat ((a i).toNat * 2^(lane 4 (i/4) counts)) := by
  rw [sllvEpi32, ofLanesByte 4 _ (shiftLane small), laneByte (by decide)]

theorem laneByteSame {width : Nat} (positive : 0 < width) (a : Register) (i : Nat) :
    (slice a (width*(i/width)) width).getD (i % width) 0 = a i := by
  have same := laneByte positive a id i
  rwa [List.map_id] at same

/- The low nibble of a byte shifted right by four is its high nibble, whatever came in above it. -/
theorem srliNibble (a : Register) (i : Nat) : srliEpi64 a 4 i &&& 0x0F = UInt8.ofNat ((a i).toNat / 16) := by
  have whole : UInt8.ofNat (lane 8 (i/8) a / 256^(i % 8)) = a i := by
    rw [lane, ofLittleEndianByte, laneByteSame (by decide)]
  have number := congrArg UInt8.toNat whole
  rw [UInt8.toNat_ofNat'] at number
  have swap : lane 8 (i/8) a / 2^4 / 256^(i % 8) = lane 8 (i/8) a / 256^(i % 8) / 16 := by
    rw [Nat.div_div_eq_div_mul, Nat.mul_comm, ← Nat.div_div_eq_div_mul]
    rfl
  have byte := (a i).toNat_lt
  apply UInt8.toNat_inj.mp
  rw [srliEpi64, ofLanes, Nat.shiftRight_eq_div_pow, swap, UInt8.toNat_and, UInt8.toNat_ofNat', UInt8.toNat_ofNat']
  have mask := Nat.and_two_pow_sub_one_eq_mod (lane 8 (i/8) a / 256^(i % 8) / 16 % 2^8) 4
  simp only [UInt8.reduceToNat, Nat.reducePow, Nat.reduceSub] at mask number byte ⊢
  omega

theorem haddByte {a : Register} {i p : Nat} (low : i/4 % 4 < 2) (place : p = 4*(i/4/4) + 2*(i/4 % 4))
    (small : ∀ j < 4, (a (4*p + j)).toNat + (a (4*(p+1) + j)).toNat < 256) :
    haddEpi32 a i = a (4*p + i % 4) + a (4*(p+1) + i % 4) := by
  have digit : i % 4 < 4 := Nat.mod_lt i (by decide)
  have each : ∀ j, ((slice a (4*p) 4).getD j 0).toNat + ((slice a (4*(p+1)) 4).getD j 0).toNat < 256 := by
    intro j
    rcases Nat.lt_or_ge j 4 with inside | past
    · rw [sliceByte _ _ _ inside, sliceByte _ _ _ inside]
      exact small j inside
    · rw [List.getD_eq_default _ _ (by simpa using past), List.getD_eq_default _ _ (by simpa using past)]
      decide
  have sum := ofLittleEndianSum (by rw [sliceLength, sliceLength]) each
  have bound := ofLittleEndianBound (List.zipWith (· + ·) (slice a (4*p) 4) (slice a (4*(p+1)) 4))
  rw [List.length_zipWith, sliceLength, sliceLength, Nat.min_self, (by decide : 256^4 = 2^32)] at bound
  have lanes : (if i/4 % 4 < 2 then (lane 4 (4*(i/4/4) + 2*(i/4 % 4)) a + lane 4 (4*(i/4/4) + 2*(i/4 % 4) + 1) a) % 2^32
      else 0) = ofLittleEndian (List.zipWith (· + ·) (slice a (4*p) 4) (slice a (4*(p+1)) 4)) := by
    rw [if_pos low, ← place, lane, lane, sum, Nat.mod_eq_of_lt bound]
  rw [haddEpi32, ofLanesByte 4 _ lanes, List.getD_eq_getElem _ _ (by simpa using digit), List.getElem_zipWith, sliceGet, sliceGet]

theorem permuteByte (a : Register) (control i : Nat) :
    permute4x64Epi64 a control i = a (8*(control / 4^(i/8) % 4) + i % 8) := by
  have moved := ofLanesByte 8 (fun k => lane 8 (control / 4^k % 4) a) (i := i) rfl
  rw [permute4x64Epi64, moved, sliceByte _ _ _ (Nat.mod_lt i (by decide))]

/-! Sixteen digits. -/

/- stom128i on one character, and m128itos on one nibble. -/
def parseDigit (c : UInt8) : UInt8 :=
  let a := c - 0x2F
  a - (if UInt8.ofNat ((a &&& 0x20).toNat * 2^2) &&& 0x80 = 0 then 0x01 else 0x28)

def printDigit (d : UInt8) : UInt8 :=
  d + (if UInt8.ofNat (((d + 0x06) &&& 0x10).toNat * 2^3) &&& 0x80 = 0 then UInt8.ofNat ((0x06 : UInt8).toNat * 2^3) else 0x57)

theorem parsePrint {c : UInt8} (hex : LowerHex c) : (parseDigit c).toNat = hexDigit c ∧ hexDigit c < 16 ∧
    printDigit (UInt8.ofNat (hexDigit c)) = c := by
  have all : ∀ c : Fin 256, 48 ≤ UInt8.ofNat c.val ∧ UInt8.ofNat c.val ≤ 57 ∨ 97 ≤ UInt8.ofNat c.val ∧ UInt8.ofNat c.val ≤ 102 →
      (parseDigit (UInt8.ofNat c.val)).toNat = hexDigit (UInt8.ofNat c.val) ∧ hexDigit (UInt8.ofNat c.val) < 16 ∧
      printDigit (UInt8.ofNat (hexDigit (UInt8.ofNat c.val))) = UInt8.ofNat c.val := by decide +kernel
  have one := all ⟨c.toNat, c.toNat_lt⟩
  rw [UInt8.ofNat_toNat] at one
  exact one hex

/-! From text to bytes. -/

/- Where digit `i` of 32 stands in the text with dashes. -/
def place (i : Nat) : Nat := if i < 8 then i else if i < 12 then i+1 else if i < 16 then i+2 else if i < 20 then i+3 else i+4

theorem packedAt (mem : Memory) (i : Fin 32) :
    insertAt (insertAt (shuffleEpi8 mem dashShuffle) 14 (slice mem 16 2)) 28 (slice mem 32 4) i = mem (place i) := by
  fin_cases i <;> rfl

theorem andSmall (b m : UInt8) : (b &&& m).toNat ≤ m.toNat := by
  rw [UInt8.toNat_and]
  exact Nat.and_le_right

theorem parsedAt (x : Register) (i : Nat) : subEpi8 (subEpi8 x (set1 0x2F)) (blendvEpi8 (set1 0x01) (set1 0x28)
    (slliEpi64 (andSi256 (subEpi8 x (set1 0x2F)) (set1 0x20)) 2)) i = parseDigit (x i) := by
  have small : ∀ j, (andSi256 (subEpi8 x (set1 0x2F)) (set1 0x20) j).toNat * 2^2 < 256 := by
    intro j
    have bit : (andSi256 (subEpi8 x (set1 0x2F)) (set1 0x20) j).toNat ≤ 32 := andSmall _ 0x20
    omega
  simp only [subEpi8, blendvEpi8, slliByte small]
  rfl

theorem unwovenAt (a : Register) (j : Fin 32) :
    shuffleEpi8 a unweave j = a (8*(j.val/8) + 2*(j.val % 4) + j.val/4 % 2) := by
  fin_cases j <;> rfl

theorem shiftAt (k : Fin 8) : lane 4 k shift = if k.val % 2 = 0 then 4 else 0 := by
  revert k
  decide

theorem shiftedAt {b : Register} (small : ∀ j < 32, (b j).toNat < 16) {p j : Nat} (inside : p < 8) (digit : j < 4) :
    (sllvEpi32 b shift (4*p + j)).toNat = (b (4*p + j)).toNat * 2^(if p % 2 = 0 then 4 else 0) := by
  have lane' : lane 4 ((4*p + j)/4) shift = if p % 2 = 0 then 4 else 0 := by
    rw [(by omega : (4*p + j)/4 = p)]
    exact shiftAt ⟨p, inside⟩
  have power : 2^(if p % 2 = 0 then 4 else 0) ≤ 16 := by split <;> decide
  have fits (k : Nat) (less : k < 32) : (b k).toNat * 2^(if p % 2 = 0 then 4 else 0) < 256 := by
    have nibble := small k less
    calc (b k).toNat * 2^(if p % 2 = 0 then 4 else 0) ≤ 15 * 16 := Nat.mul_le_mul (by omega) power
      _ < 256 := by decide
  rw [sllvByte, lane', UInt8.toNat_ofNat', Nat.mod_eq_of_lt (fits _ (by omega))]
  rw [lane']
  intro k less
  exact fits _ (by omega)

/- The control byte takes the third quarter for the second. -/
theorem controlAt {i : Nat} (inside : i < 16) : 0b00001000 / 4^(i/8) % 4 = 2*(i/8) := by
  obtain low | high : i/8 = 0 ∨ i/8 = 1 := by omega
  · rw [low]
    rfl
  · rw [high]
    rfl

theorem mergedAt {a : Register} (small : ∀ j < 32, (a j).toNat < 16) {i : Nat} (inside : i < 16) :
    (permute4x64Epi64 (haddEpi32 (sllvEpi32 (shuffleEpi8 a unweave) shift)) 0b00001000 i).toNat =
      16 * (a (2*i)).toNat + (a (2*i + 1)).toNat := by
  have unwoven {j : Nat} (less : j < 32) : shuffleEpi8 a unweave j = a (8*(j/8) + 2*(j % 4) + j/4 % 2) := unwovenAt a ⟨j, less⟩
  have nibbles : ∀ j < 32, (shuffleEpi8 a unweave j).toNat < 16 := by
    intro j less
    rw [unwoven less]
    exact small _ (by omega)
  obtain ⟨p, pair⟩ : ∃ p, p = 4*(i/8) + 2*(i % 8 / 4) := ⟨_, rfl⟩
  have even : p % 2 = 0 := by omega
  have odd : (p+1) % 2 = 1 := by omega
  have digit : i % 4 < 4 := Nat.mod_lt i (by decide)
  have high (j : Nat) (less : j < 4) : (sllvEpi32 (shuffleEpi8 a unweave) shift (4*p + j)).toNat = (a (4*p + 2*j)).toNat * 16 := by
    rw [shiftedAt nibbles (by omega) less, if_pos even, unwoven (by omega)]
    rw [(by omega : 8*((4*p + j)/8) + 2*((4*p + j) % 4) + (4*p + j)/4 % 2 = 4*p + 2*j)]
    rfl
  have low (j : Nat) (less : j < 4) : (sllvEpi32 (shuffleEpi8 a unweave) shift (4*(p+1) + j)).toNat = (a (4*p + 2*j + 1)).toNat := by
    rw [shiftedAt nibbles (by omega) less, if_neg (by omega), unwoven (by omega), Nat.pow_zero, Nat.mul_one]
    rw [(by omega : 8*((4*(p+1) + j)/8) + 2*((4*(p+1) + j) % 4) + (4*(p+1) + j)/4 % 2 = 4*p + 2*j + 1)]
  have fits : ∀ j < 4, (sllvEpi32 (shuffleEpi8 a unweave) shift (4*p + j)).toNat +
      (sllvEpi32 (shuffleEpi8 a unweave) shift (4*(p+1) + j)).toNat < 256 := by
    intro j less
    have one := small (4*p + 2*j) (by omega)
    have two := small (4*p + 2*j + 1) (by omega)
    rw [high j less, low j less]
    omega
  have sum := fits (i % 4) digit
  rw [permuteByte, controlAt inside, haddByte (p := p) (by omega) (by omega) fits, (by omega : (8*(2*(i/8)) + i % 8) % 4 = i % 4),
    UInt8.toNat_add, Nat.mod_eq_of_lt sum, high _ digit, low _ digit, (by omega : 4*p + 2*(i % 4) = 2*i), Nat.mul_comm]

/-! From bytes to text. -/

theorem spreadAt (s a : Register) {i : Nat} (inside : i < 32) :
    inserti128Si256 (unpackloEpi8 s a) (unpackhiEpi8 s a) 1 i = if i % 2 = 0 then s (i/2) else a (i/2) := by
  rcases Nat.lt_or_ge i 16 with low | high
  · rw [inserti128Si256, if_neg (by omega), unpackloEpi8, (by omega : 16*(i/16) + i % 16 / 2 = i/2)]
  · rw [inserti128Si256, if_pos (by omega), unpackhiEpi8, (by omega : 16*(i % 16 / 16) + 8 + i % 16 % 16 / 2 = i/2),
      (by omega : i % 16 % 2 = i % 2)]

theorem printedAt (d : Register) (i : Nat) : addEpi8 d (blendvEpi8 (slliEpi64 (set1 0x06) 3) (set1 0x57)
    (slliEpi64 (andSi256 (addEpi8 d (set1 0x06)) (set1 0x10)) 3)) i = printDigit (d i) := by
  have six : ∀ j, (set1 0x06 j).toNat * 2^3 < 256 := by
    intro j
    exact (by decide : (0x06 : UInt8).toNat * 2^3 < 256)
  have small : ∀ j, (andSi256 (addEpi8 d (set1 0x06)) (set1 0x10) j).toNat * 2^3 < 256 := by
    intro j
    have bit : (andSi256 (addEpi8 d (set1 0x06)) (set1 0x10) j).toNat ≤ 16 := andSmall _ 0x10
    omega
  simp only [addEpi8, blendvEpi8, slliByte six, slliByte small]
  rfl

def dashed (res : Register) : Register :=
  insertAt (insertAt (orSi256 (shuffleEpi8 res insertDashes) dash) 16 (slice res 14 2)) 32 (slice res 28 4)

theorem dashedAt (res : Register) (i : Fin 32) : dashed res (place i) = res i := by
  fin_cases i <;> first | rfl | exact UInt8.or_zero

/- Where the dashes stand. -/
def dashes : List Nat := [8, 13, 18, 23]

theorem dashedDash (res : Register) {j : Nat} (mem : j ∈ dashes) : dashed res j = 45 := by
  simp only [dashes, List.mem_cons, List.not_mem_nil, or_false] at mem
  have or' : (0 : UInt8) ||| 45 = 45 := by decide
  rcases mem with rfl | rfl | rfl | rfl <;> exact or'

theorem everyPlace {j : Nat} (inside : j < 36) : j ∈ dashes ∨ ∃ i < 32, j = place i := by
  have all : ∀ j : Fin 36, j.val ∈ dashes ∨ ∃ i < 32, j.val = place i := by decide
  exact all ⟨j, inside⟩

/-! The text itself. -/

theorem fullLength {s : Bytes} (length : s.length = 32) : (convertSlimToFullUUID s).length = 36 := by
  simp [convertSlimToFullUUID, length]

theorem fullAt {s : Bytes} (length : s.length = 32) {i : Nat} (inside : i < 32) :
    (convertSlimToFullUUID s).getD (place i) 0 = s.getD i 0 := by
  simp only [convertSlimToFullUUID, length, ne_eq, not_true_eq_false, if_false, List.getD_eq_getElem?_getD]
  unfold place
  interval_cases i <;> simp [length]

theorem fullDash {s : Bytes} (length : s.length = 32) {j : Nat} (mem : j ∈ dashes) :
    (convertSlimToFullUUID s).getD j 0 = 45 := by
  simp only [dashes, List.mem_cons, List.not_mem_nil, or_false] at mem
  simp only [convertSlimToFullUUID, length, ne_eq, not_true_eq_false, if_false, List.getD_eq_getElem?_getD]
  rcases mem with rfl | rfl | rfl | rfl <;> simp [length]

theorem digitsAt {s : Bytes} (length : s.length = 32) (hex : ∀ c ∈ s, LowerHex c) {i : Nat} (inside : i < 32) :
    LowerHex (s.getD i 0) := by
  rw [List.getD_eq_getElem _ _ (by omega)]
  exact hex _ (List.getElem_mem _)

theorem uuidExt {a b : CUUID} (same : ∀ i < 16, a.data.getD i 0 = b.data.getD i 0) : a = b := by
  obtain ⟨x, sized⟩ := a
  obtain ⟨y, sized'⟩ := b
  have bytes : x = y := by
    refine List.ext_getElem (sized.trans sized'.symm) ?_
    intro i left right
    rw [← List.getD_eq_getElem _ 0 left, ← List.getD_eq_getElem _ 0 right]
    exact same i (sized ▸ left)
  subst bytes
  rfl

/- The value of the pair of digits `i` of 16. -/
def pair (s : Bytes) (i : Nat) : Nat := 16 * hexDigit (s.getD (2*i) 0) + hexDigit (s.getD (2*i + 1) 0)

theorem parsedPairs {s : Bytes} (length : s.length = 32) (hex : ∀ c ∈ s, LowerHex c) (past : Memory) {i : Nat}
    (inside : i < 16) : ((fromStrFactory (convertSlimToFullUUID s) past).data.getD i 0).toNat = pair s i := by
  let mem := buffer (convertSlimToFullUUID s ++ [0]) past
  have text {j : Nat} (less : j < 32) : mem (place j) = s.getD j 0 := by
    have within : place j < (convertSlimToFullUUID s).length := by
      rw [fullLength length, place]
      split_ifs <;> omega
    have before : place j < (convertSlimToFullUUID s ++ [0]).length := by
      rw [List.length_append]
      omega
    have byte : mem (place j) = (convertSlimToFullUUID s ++ [0])[place j] := bufferInside before
    rw [← fullAt length less, List.getD_eq_getElem _ _ within, byte, List.getElem_append_left within]
  let x := insertAt (insertAt (shuffleEpi8 mem dashShuffle) 14 (slice mem 16 2)) 28 (slice mem 32 4)
  let a := subEpi8 (subEpi8 x (set1 0x2F)) (blendvEpi8 (set1 0x01) (set1 0x28)
    (slliEpi64 (andSi256 (subEpi8 x (set1 0x2F)) (set1 0x20)) 2))
  have digit {j : Nat} (less : j < 32) : (a j).toNat = hexDigit (s.getD j 0) ∧ (a j).toNat < 16 := by
    obtain ⟨parsed, small, _⟩ := parsePrint (digitsAt length hex less)
    have here : a j = parseDigit (s.getD j 0) := by
      rw [← text less, ← packedAt mem ⟨j, less⟩]
      exact parsedAt x j
    rw [here, parsed]
    exact ⟨rfl, small⟩
  have byte : (fromStrFactory (convertSlimToFullUUID s) past).data.getD i 0 =
      permute4x64Epi64 (haddEpi32 (sllvEpi32 (shuffleEpi8 a unweave) shift)) 0b00001000 i := by
    have whole := sliceByte (permute4x64Epi64 (haddEpi32 (sllvEpi32 (shuffleEpi8 a unweave) shift)) 0b00001000) 0 16 inside
    rwa [Nat.zero_add] at whole
  rw [byte, mergedAt (fun j less => (digit less).2) inside, (digit (by omega)).1, (digit (by omega)).1, pair]

theorem nibbleAt {data : Bytes} (undefined : Register) {i : Nat} (inside : i < 32) :
    andSi256 (inserti128Si256 (unpackloEpi8 (srliEpi64 (castsi128Si256 data undefined) 4) (castsi128Si256 data undefined))
      (unpackhiEpi8 (srliEpi64 (castsi128Si256 data undefined) 4) (castsi128Si256 data undefined)) 1) (set1 0x0F) i =
    UInt8.ofNat (if i % 2 = 0 then (data.getD (i/2) 0).toNat / 16 else (data.getD (i/2) 0).toNat % 16) := by
  have low : castsi128Si256 data undefined (i/2) = data.getD (i/2) 0 := if_pos (by omega)
  rw [andSi256, spreadAt _ _ inside, low]
  split
  · rw [← low]
    exact srliNibble _ _
  · apply UInt8.toNat_inj.mp
    have mask := Nat.and_two_pow_sub_one_eq_mod (data.getD (i/2) 0).toNat 4
    rw [set1, UInt8.toNat_and, UInt8.toNat_ofNat']
    simp only [UInt8.reduceToNat, Nat.reducePow, Nat.reduceSub] at mask ⊢
    omega

/- The nibble of a byte is the digit at its place. -/
theorem nibbleDigit {s : Bytes} (length : s.length = 32) (hex : ∀ c ∈ s, LowerHex c) {data : Bytes}
    (pairs : ∀ i < 16, (data.getD i 0).toNat = pair s i) {i : Nat} (less : i < 32) :
    (if i % 2 = 0 then (data.getD (i/2) 0).toNat / 16 else (data.getD (i/2) 0).toNat % 16) = hexDigit (s.getD i 0) := by
  obtain ⟨_, high, _⟩ := parsePrint (digitsAt length hex (by omega : 2*(i/2) < 32))
  obtain ⟨_, low, _⟩ := parsePrint (digitsAt length hex (by omega : 2*(i/2) + 1 < 32))
  rw [pairs (i/2) (by omega), pair]
  rcases Nat.mod_two_eq_zero_or_one i with even | odd
  · rw [if_pos even, (by omega : 2*(i/2) = i)] at *
    omega
  · rw [if_neg (by omega), (by omega : 2*(i/2) + 1 = i)] at *
    omega

theorem printedText {s : Bytes} (length : s.length = 32) (hex : ∀ c ∈ s, LowerHex c) {uuid : CUUID}
    (pairs : ∀ i < 16, (uuid.data.getD i 0).toNat = pair s i) (undefined : Register) :
    uuid.str undefined = convertSlimToFullUUID s := by
  let d := andSi256 (inserti128Si256 (unpackloEpi8 (srliEpi64 (castsi128Si256 uuid.data undefined) 4)
    (castsi128Si256 uuid.data undefined)) (unpackhiEpi8 (srliEpi64 (castsi128Si256 uuid.data undefined) 4)
    (castsi128Si256 uuid.data undefined)) 1) (set1 0x0F)
  let res := addEpi8 d (blendvEpi8 (slliEpi64 (set1 0x06) 3) (set1 0x57)
    (slliEpi64 (andSi256 (addEpi8 d (set1 0x06)) (set1 0x10)) 3))
  have digit {i : Nat} (less : i < 32) : res i = s.getD i 0 := by
    obtain ⟨_, _, printed⟩ := parsePrint (digitsAt length hex less)
    rw [← printed, ← nibbleDigit length hex pairs less, ← nibbleAt undefined less]
    exact printedAt d i
  refine List.ext_getElem ?_ ?_
  · rw [fullLength length]
    exact sliceLength ..
  · intro j left right
    rw [← List.getD_eq_getElem _ 0 left, ← List.getD_eq_getElem _ 0 right]
    have inside : j < 36 := by rwa [fullLength length] at right
    have stored : (uuid.str undefined).getD j 0 = dashed res j := by
      have whole := sliceByte (dashed res) 0 36 inside
      rwa [Nat.zero_add] at whole
    rw [stored]
    rcases everyPlace inside with dash | ⟨i, less, rfl⟩
    · rw [dashedDash res dash, fullDash length dash]
    · rw [dashedAt res ⟨i, less⟩, fullAt length less, digit less]

/-! The whole way. -/

/- What OnUUID appends is the UUID's own bytes. -/
theorem uuidAppended (uuid : CUUID) (w : CPacketWriter) :
    CPacketWriter.onUUID uuid w = .ok (uuid, putAll uuid.data w) := writerQuiet.onUUID uuid w

theorem uuidPipeline {s : Bytes} (length : s.length = 32) (hex : ∀ c ∈ s, LowerHex c) (past : Memory) :
    ∃ bytes : Bytes, bytes.length = 16 ∧
      (∀ i < 16, (bytes.getD i 0).toNat = 16 * hexDigit (s.getD (2*i) 0) + hexDigit (s.getD (2*i + 1) 0)) ∧
      (∀ w, ∃ w', CPacketWriter.onUUID (fromStrFactory (convertSlimToFullUUID s) past) w =
        .ok (fromStrFactory (convertSlimToFullUUID s) past, w') ∧ Appends w w' bytes) ∧
      ∀ old (r : CPacketReader), Holds r.memory r.current bytes → ∃ uuid r',
        CPacketReader.onUUID old r = .ok (uuid, r') ∧ ∀ undefined, uuid.str undefined = convertSlimToFullUUID s := by
  have pairs (i : Nat) (inside : i < 16) := parsedPairs length hex past inside
  refine ⟨_, (fromStrFactory (convertSlimToFullUUID s) past).sized, pairs, ?_, ?_⟩
  · intro w
    exact ⟨_, uuidAppended _ w, putAllAppends _ w⟩
  · intro old r held
    exact ⟨_, _, readsUUID old _ r held, printedText length hex pairs⟩

/- Every digit, twice. -/
def everyDigit : Bytes := [48, 49, 50, 51, 52, 53, 54, 55, 56, 57, 97, 98, 99, 100, 101, 102,
  102, 101, 100, 99, 98, 97, 57, 56, 55, 54, 53, 52, 51, 50, 49, 48]

theorem uuidPipelineDigits : ∃ bytes : Bytes, bytes.length = 16 ∧ (bytes.getD 5 0).toNat = 0xab ∧
    ∀ old (r : CPacketReader), Holds r.memory r.current bytes → ∃ uuid r',
      CPacketReader.onUUID old r = .ok (uuid, r') ∧ ∀ undefined, uuid.str undefined = convertSlimToFullUUID everyDigit := by
  have hex : ∀ c ∈ everyDigit, LowerHex c := by
    unfold LowerHex
    decide +kernel
  obtain ⟨bytes, length, pairs, _, back⟩ := uuidPipeline rfl hex fun _ => 0
  exact ⟨bytes, length, pairs 5 (by decide), back⟩

end Mcpp.UuidText
