import Mathlib.Data.List.Basic
import Mathlib.Algebra.Ring.Nat

/-! Bytes behind a `char*`. A buffer is followed by whatever the address space
holds there; reading past its end is not an error of the model, so every result
about staying inside a buffer is a statement about the indices that were read. -/
namespace Mcpp.Buffers

abbrev Bytes := List UInt8
abbrev Memory := Nat → UInt8

def buffer (bytes : Bytes) (past : Memory) : Memory :=
  fun i => if h : i < bytes.length then bytes[i] else past i

def slice (memory : Memory) (start count : Nat) : Bytes :=
  (List.range count).map (fun i => memory (start+i))

def Holds (memory : Memory) (start : Nat) (bytes : Bytes) : Prop :=
  slice memory start bytes.length = bytes

@[simp] theorem sliceLength (memory : Memory) (start count : Nat) :
    (slice memory start count).length = count := by
  simp [slice]

@[simp] theorem sliceGet {memory : Memory} {start count i : Nat}
    (inside : i < (slice memory start count).length) :
    (slice memory start count)[i] = memory (start+i) := by
  simp [slice]

theorem sliceAppend (memory : Memory) (start a b : Nat) :
    slice memory start (a+b) = slice memory start a ++ slice memory (start+a) b := by
  simp only [slice, List.range_add, List.map_append, List.map_map, Function.comp_def, Nat.add_assoc]

theorem holdsGet {memory : Memory} {start : Nat} {bytes : Bytes} (held : Holds memory start bytes)
    (i : Nat) (inside : i < bytes.length) : memory (start+i) = bytes[i] := by
  have same : (slice memory start bytes.length)[i]? = bytes[i]? := by rw [held]
  simpa [slice, inside] using same

theorem holdsOfGet {memory : Memory} {start : Nat} {bytes : Bytes}
    (each : ∀ i (h : i < bytes.length), memory (start+i) = bytes[i]) : Holds memory start bytes := by
  refine List.ext_getElem (sliceLength ..) ?_
  intro i _ inside
  rw [sliceGet]
  exact each i inside

theorem holdsAppend (memory : Memory) (start : Nat) (a b : Bytes) :
    Holds memory start (a ++ b) ↔ Holds memory start a ∧ Holds memory (start+a.length) b := by
  simp only [Holds, List.length_append, sliceAppend]
  constructor
  · intro same
    exact List.append_inj same (sliceLength ..)
  · rintro ⟨left, right⟩
    rw [left, right]

theorem holdsCons (memory : Memory) (start : Nat) (b : UInt8) (rest : Bytes) :
    Holds memory start (b :: rest) ↔ memory start = b ∧ Holds memory (start+1) rest := by
  have split := holdsAppend memory start [b] rest
  simpa [Holds, slice, List.range_succ] using split

theorem bufferInside {bytes : Bytes} {past : Memory} {i : Nat} (inside : i < bytes.length) :
    buffer bytes past i = bytes[i] := by
  simp [buffer, inside]

theorem bufferHolds (a b c : Bytes) (past : Memory) :
    Holds (buffer (a ++ b ++ c) past) a.length b := by
  refine holdsOfGet ?_
  intro i inside
  rw [bufferInside (by simp; omega)]
  simp [inside]

theorem bufferSlice {bytes : Bytes} {past : Memory} {start count : Nat}
    (inside : start + count ≤ bytes.length) :
    slice (buffer bytes past) start count = (bytes.drop start).take count := by
  refine List.ext_getElem (by simp; omega) ?_
  intro i left _
  simp only [sliceLength] at left
  rw [sliceGet, bufferInside (by omega)]
  simp

theorem holdsPrefix {memory : Memory} {bytes : Bytes} (held : Holds memory 0 bytes) {start count : Nat}
    (inside : start + count ≤ bytes.length) : slice memory start count = (bytes.drop start).take count := by
  refine List.ext_getElem (by simp; omega) ?_
  intro i left _
  simp only [sliceLength] at left
  have same := holdsGet held (start+i) (by omega)
  rw [Nat.zero_add] at same
  rw [sliceGet, same]
  simp

/-! Integers in memory on a little-endian machine. -/

def littleEndian : Nat → Nat → Bytes
  | 0, _ => []
  | width+1, n => UInt8.ofNat n :: littleEndian width (n / 256)

def ofLittleEndian : Bytes → Nat
  | [] => 0
  | b :: rest => b.toNat + 256 * ofLittleEndian rest

@[simp] theorem littleEndianLength (width n : Nat) : (littleEndian width n).length = width := by
  induction width generalizing n with
  | zero => rfl
  | succ width ih => simp [littleEndian, ih]

theorem ofLittleEndianBytes (width n : Nat) : ofLittleEndian (littleEndian width n) = n % 256 ^ width := by
  induction width generalizing n with
  | zero => simp [littleEndian, ofLittleEndian, Nat.mod_one]
  | succ width ih =>
    have split := Nat.mod_mul (a := 256) (b := 256 ^ width) (x := n)
    simp only [littleEndian, ofLittleEndian, ih, UInt8.toNat_ofNat', Nat.reducePow]
    rw [Nat.pow_succ, Nat.mul_comm (256 ^ width) 256, split]

theorem ofLittleEndianBound (bytes : Bytes) : ofLittleEndian bytes < 256 ^ bytes.length := by
  induction bytes with
  | nil => simp [ofLittleEndian]
  | cons b rest ih =>
    have byte := b.toNat_lt
    simp only [ofLittleEndian, List.length_cons, Nat.pow_succ]
    omega

theorem littleEndianOf (bytes : Bytes) : littleEndian bytes.length (ofLittleEndian bytes) = bytes := by
  induction bytes with
  | nil => rfl
  | cons b rest ih =>
    have byte := b.toNat_lt
    have high : (b.toNat + 256 * ofLittleEndian rest) / 256 = ofLittleEndian rest := by omega
    have low : UInt8.ofNat (b.toNat + 256 * ofLittleEndian rest) = b := by
      apply UInt8.toNat_inj.mp
      rw [UInt8.toNat_ofNat']
      omega
    simp only [List.length_cons, ofLittleEndian, littleEndian, low, high, ih]

end Mcpp.Buffers
