import Mathlib.Data.Nat.Basic
import Mathlib.Tactic.Ring

/-! Base 128 numbers, least significant group first, every byte but the last with
its top bit set. `encode` is the shortest encoding of a number; `Closed` bytes are
any encoding, padded ones included; `scan` is what a bounded reader consumes. -/
namespace Mcpp.Base128

def encode (n : Nat) : List UInt8 :=
  if n < 128 then [UInt8.ofNat n] else UInt8.ofNat (n % 128 + 128) :: encode (n / 128)
termination_by n
decreasing_by omega

def width (n : Nat) : Nat := (encode n).length

def value : List UInt8 → Nat
  | [] => 0
  | b :: rest => b.toNat % 128 + 128 * value rest

def Closed : List UInt8 → Prop
  | [] => False
  | [b] => b.toNat < 128
  | b :: rest => 128 ≤ b.toNat ∧ Closed rest

instance decideClosed : (bytes : List UInt8) → Decidable (Closed bytes)
  | [] => inferInstanceAs (Decidable False)
  | [b] => inferInstanceAs (Decidable (b.toNat < 128))
  | b :: c :: rest =>
    have := decideClosed (c :: rest)
    inferInstanceAs (Decidable (128 ≤ b.toNat ∧ Closed (c :: rest)))

theorem encodeSmall {n : Nat} (small : n < 128) : encode n = [UInt8.ofNat n] := by
  rw [encode, if_pos small]

theorem encodeLarge {n : Nat} (large : 128 ≤ n) :
    encode n = UInt8.ofNat (n % 128 + 128) :: encode (n / 128) := by
  rw [encode, if_neg (by omega)]

theorem encodeNonempty (n : Nat) : encode n ≠ [] := by
  rw [encode]
  split <;> simp

theorem closedCons {b : UInt8} {rest : List UInt8} (more : rest ≠ []) :
    Closed (b :: rest) ↔ 128 ≤ b.toNat ∧ Closed rest := by
  cases rest with
  | nil => exact absurd rfl more
  | cons c tail => rfl

theorem closedNonempty {bytes : List UInt8} (closed : Closed bytes) : bytes ≠ [] := by
  cases bytes with
  | nil => exact closed.elim
  | cons b rest => simp

theorem encodeClosed (n : Nat) : Closed (encode n) := by
  induction n using Nat.strongRecOn with
  | ind n ih =>
    by_cases small : n < 128
    · rw [encodeSmall small]
      simp only [Closed, UInt8.toNat_ofNat']
      omega
    · rw [encodeLarge (by omega), closedCons (encodeNonempty _)]
      refine ⟨?_, ih (n / 128) (by omega)⟩
      rw [UInt8.toNat_ofNat']
      omega

theorem valueEncode (n : Nat) : value (encode n) = n := by
  induction n using Nat.strongRecOn with
  | ind n ih =>
    by_cases small : n < 128
    · rw [encodeSmall small]
      simp only [value, UInt8.toNat_ofNat']
      omega
    · rw [encodeLarge (by omega)]
      simp only [value, UInt8.toNat_ofNat', ih (n / 128) (by omega)]
      omega

theorem valueBound (bytes : List UInt8) : value bytes < 128 ^ bytes.length := by
  induction bytes with
  | nil => simp [value]
  | cons b rest ih =>
    simp only [value, List.length_cons, Nat.pow_succ]
    omega

theorem widthSmall {n : Nat} (small : n < 128) : width n = 1 := by
  simp [width, encodeSmall small]

theorem widthLarge {n : Nat} (large : 128 ≤ n) : width n = width (n / 128) + 1 := by
  simp [width, encodeLarge large]

theorem widthPositive (n : Nat) : 0 < width n :=
  List.length_pos_iff.mpr (encodeNonempty n)

theorem widthLe (n k : Nat) : width n ≤ k+1 ↔ n < 128 ^ (k+1) := by
  induction k generalizing n with
  | zero =>
    by_cases small : n < 128
    · simp [widthSmall small, small]
    · have pos := widthPositive (n / 128)
      rw [widthLarge (by omega)]
      omega
  | succ k ih =>
    by_cases small : n < 128
    · have big : 128 ^ 1 ≤ 128 ^ (k+1+1) := Nat.pow_le_pow_right (by omega) (by omega)
      rw [widthSmall small]
      omega
    · have step := ih (n / 128)
      rw [widthLarge (by omega), Nat.pow_succ]
      omega

/- No encoding of a number is shorter than `encode`. -/
theorem widthMinimal {bytes : List UInt8} (closed : Closed bytes) :
    width (value bytes) ≤ bytes.length := by
  obtain ⟨k, hk⟩ : ∃ k, bytes.length = k+1 :=
    ⟨bytes.length - 1, by have := List.length_pos_iff.mpr (closedNonempty closed); omega⟩
  rw [hk, widthLe, ← hk]
  exact valueBound bytes

/-! What a reader that gives up after `left` bytes takes from a stream. -/

def scan (stream : Nat → UInt8) : Nat → Nat → List UInt8
  | 0, _ => []
  | left+1, start =>
    if (stream start).toNat < 128 then [stream start]
    else stream start :: scan stream left (start+1)

theorem scanLength (stream : Nat → UInt8) (left start : Nat) :
    (scan stream left start).length ≤ left := by
  induction left generalizing start with
  | zero => simp [scan]
  | succ left ih =>
    have tail := ih (start+1)
    simp only [scan]
    split
    · simp
    · simpa using tail

theorem scanNonempty (stream : Nat → UInt8) (left start : Nat) :
    scan stream (left+1) start ≠ [] := by
  simp only [scan]
  split <;> simp

theorem scanPositive (stream : Nat → UInt8) (left start : Nat) :
    0 < (scan stream (left+1) start).length :=
  List.length_pos_iff.mpr (scanNonempty stream left start)

/- Only the last byte of a scan can have its top bit clear. -/
theorem scanLarge {stream : Nat → UInt8} {left start i : Nat}
    (more : i+1 < (scan stream left start).length) : 128 ≤ (stream (start+i)).toNat := by
  induction left generalizing start i with
  | zero => simp [scan] at more
  | succ left ih =>
    rcases Nat.lt_or_ge (stream start).toNat 128 with small | large
    · simp [scan, if_pos small] at more
    · cases i with
      | zero => exact large
      | succ i =>
        simp only [scan, if_neg (Nat.not_lt.mpr large), List.length_cons] at more
        have tail : 128 ≤ (stream (start+1+i)).toNat := ih (by omega)
        rwa [Nat.add_assoc, Nat.add_comm 1 i] at tail

/- A closed encoding of at most `left` bytes is what the scan of it takes. -/
theorem scanClosed {stream : Nat → UInt8} {left start : Nat} {bytes : List UInt8}
    (closed : Closed bytes) (fits : bytes.length ≤ left)
    (held : ∀ i (h : i < bytes.length), stream (start+i) = bytes[i]) :
    scan stream left start = bytes := by
  induction bytes generalizing left start with
  | nil => exact closed.elim
  | cons b rest ih =>
    obtain ⟨left, rfl⟩ : ∃ k, left = k+1 := ⟨left-1, by simp only [List.length_cons] at fits; omega⟩
    have first : stream start = b := held 0 (by simp)
    by_cases last : rest = []
    · subst last
      have small : b.toNat < 128 := closed
      simp only [scan, first, if_pos small]
    · obtain ⟨large, tail⟩ := (closedCons last).mp closed
      have more : ¬ b.toNat < 128 := by omega
      have next : scan stream left (start+1) = rest := by
        refine ih tail (by simpa using fits) ?_
        intro i inside
        have at' := held (i+1) (by simpa using inside)
        simpa [Nat.add_assoc, Nat.add_comm 1 i] using at'
      simp only [scan, first, if_neg more, next]

/- A scan that does not close has used up all its bytes. -/
theorem scanOpen {stream : Nat → UInt8} {left start : Nat}
    (stuck : ¬ Closed (scan stream left start)) : (scan stream left start).length = left := by
  induction left generalizing start with
  | zero => rfl
  | succ left ih =>
    by_cases small : (stream start).toNat < 128
    · simp only [scan, if_pos small] at stuck
      exact absurd small stuck
    · simp only [scan, if_neg small] at stuck ⊢
      cases left with
      | zero => simp [scan]
      | succ left =>
        have rest := scanNonempty stream left (start+1)
        have open' : ¬ Closed (scan stream (left+1) (start+1)) := fun closed =>
          stuck ((closedCons rest).mpr ⟨by omega, closed⟩)
        simp [ih open']

/- A scan that meets its last byte, whose digit stands behind those of the bytes before it. -/
theorem scanEnds {stream : Nat → UInt8} {left start n : Nat} (inside : n < left)
    (large : ∀ i < n, 128 ≤ (stream (start+i)).toNat) (last : (stream (start+n)).toNat < 128) :
    Closed (scan stream left start) ∧ (scan stream left start).length = n+1 ∧
      ∃ low < 128 ^ n, value (scan stream left start) = low + 128 ^ n * (stream (start+n)).toNat := by
  induction n generalizing left start with
  | zero =>
    obtain ⟨left, rfl⟩ : ∃ k, left = k+1 := ⟨left-1, by omega⟩
    have small : (stream start).toNat < 128 := last
    rw [scan, if_pos small]
    refine ⟨small, rfl, 0, by decide, ?_⟩
    simp [value, Nat.mod_eq_of_lt small]
  | succ n ih =>
    obtain ⟨left, rfl⟩ : ∃ k, left = k+1 := ⟨left-1, by omega⟩
    have first : 128 ≤ (stream start).toNat := large 0 (by omega)
    have shift (i : Nat) : start + 1 + i = start + (i+1) := by omega
    have rest : Closed (scan stream left (start+1)) ∧ (scan stream left (start+1)).length = n+1 ∧
        ∃ low < 128 ^ n, value (scan stream left (start+1)) = low + 128 ^ n * (stream (start+1+n)).toNat :=
      ih (by omega) (fun i less => shift i ▸ large (i+1) (by omega)) (shift n ▸ last)
    obtain ⟨closed, length, low, less, sum⟩ := rest
    rw [scan, if_neg (Nat.not_lt.mpr first)]
    refine ⟨(closedCons (closedNonempty closed)).mpr ⟨first, closed⟩, by rw [List.length_cons, length], ?_⟩
    refine ⟨(stream start).toNat % 128 + 128 * low, ?_, ?_⟩
    · rw [Nat.pow_succ]
      omega
    · rw [value, sum, shift n, Nat.pow_succ]
      ring

theorem closedEnds {stream : Nat → UInt8} {left start : Nat} (closed : Closed (scan stream left start)) :
    ∃ n < left, (∀ i < n, 128 ≤ (stream (start+i)).toNat) ∧ (stream (start+n)).toNat < 128 := by
  induction left generalizing start with
  | zero => exact closed.elim
  | succ left ih =>
    rcases Nat.lt_or_ge (stream start).toNat 128 with small | large
    · exact ⟨0, by omega, nofun, small⟩
    · rw [scan, if_neg (Nat.not_lt.mpr large)] at closed
      cases left with
      | zero => exact absurd closed (Nat.not_lt.mpr large)
      | succ left =>
        obtain ⟨n, inside, before, last⟩ := ih ((closedCons (scanNonempty stream left (start+1))).mp closed).2
        refine ⟨n+1, by omega, ?_, ?_⟩
        · intro i less
          cases i with
          | zero => exact large
          | succ i =>
            have byte := before i (by omega)
            rwa [Nat.add_assoc, Nat.add_comm 1 i] at byte
        · rwa [Nat.add_assoc, Nat.add_comm 1 n] at last

/- The last digit tells whether the number is as wide as its digits. -/
theorem widthDigits {n low digit : Nat} (less : low < 128 ^ n) (small : digit < 128) :
    width (low + 128 ^ n * digit) = n+1 ↔ n = 0 ∨ digit ≠ 0 := by
  have most : width (low + 128 ^ n * digit) ≤ n+1 := by
    rw [widthLe, Nat.pow_succ]
    calc low + 128 ^ n * digit < 128 ^ n + 128 ^ n * digit := by omega
      _ = 128 ^ n * (digit + 1) := by ring
      _ ≤ 128 ^ n * 128 := Nat.mul_le_mul_left _ small
  cases n with
  | zero =>
    have positive := widthPositive (low + 128 ^ 0 * digit)
    exact iff_of_true (by omega) (.inl rfl)
  | succ k =>
    have fewer := widthLe (low + 128 ^ (k+1) * digit) k
    rcases Nat.eq_zero_or_pos digit with rfl | positive
    · refine iff_of_false ?_ (by simp)
      have short := fewer.mpr (by simpa using less)
      omega
    · refine iff_of_true ?_ (.inr (by omega))
      have more : 128 ^ (k+1) ≤ 128 ^ (k+1) * digit := Nat.le_mul_of_pos_right _ positive
      omega

end Mcpp.Base128
