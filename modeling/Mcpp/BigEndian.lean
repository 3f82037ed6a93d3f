import Mathlib.Data.Nat.Digits.Lemmas

/-! Numbers written with the most significant digit first, leading zeros allowed. -/
namespace Mcpp.BigEndian

def bigEndian (base : Nat) (digits : List Nat) : Nat := Nat.ofDigits base digits.reverse

variable {base d : Nat} {digits others : List Nat}

theorem bigEndianCons (base d : Nat) (digits : List Nat) :
    bigEndian base (d :: digits) = base ^ digits.length * d + bigEndian base digits := by
  rw [bigEndian, List.reverse_cons, Nat.ofDigits_append, List.length_reverse, Nat.ofDigits_singleton, Nat.add_comm]
  rfl

theorem bigEndianLess (large : 1 < base) (small : ∀ d ∈ digits, d < base) : bigEndian base digits < base ^ digits.length := by
  rw [← List.length_reverse]
  exact Nat.ofDigits_lt_base_pow_length large fun d mem => small d (List.mem_reverse.mp mem)

/- Of one length, the digits are given by the number. -/
theorem bigEndianInj (large : 1 < base) (length : digits.length = others.length) (small : ∀ d ∈ digits, d < base)
    (small' : ∀ d ∈ others, d < base) (same : bigEndian base digits = bigEndian base others) : digits = others := by
  refine List.reverse_injective (Nat.ofDigits_inj_of_len_eq large ?_ ?_ ?_ same)
  · rw [List.length_reverse, List.length_reverse, length]
  · exact fun d mem => small d (List.mem_reverse.mp mem)
  · exact fun d mem => small' d (List.mem_reverse.mp mem)

theorem bigEndianStripped (base : Nat) (digits : List Nat) :
    bigEndian base (digits.dropWhile (· == 0)) = bigEndian base digits := by
  induction digits with
  | nil => rfl
  | cons d rest ih =>
    rw [List.dropWhile_cons]
    split
    · rename_i zero
      rw [ih, bigEndianCons, beq_iff_eq.mp zero, Nat.mul_zero, Nat.zero_add]
    · rfl

/- A number and its complement, digit by digit, are all ones together. -/
theorem bigEndianComplement (small : ∀ d ∈ digits, d < base) :
    bigEndian base (digits.map (base - 1 - ·)) + bigEndian base digits + 1 = base ^ digits.length := by
  induction digits with
  | nil => rfl
  | cons d rest ih =>
    have tail := ih fun e mem => small e (List.mem_cons_of_mem _ mem)
    have head := small d List.mem_cons_self
    rw [List.map_cons, bigEndianCons, bigEndianCons, List.length_map, List.length_cons, Nat.pow_succ]
    calc base ^ rest.length * (base - 1 - d) + bigEndian base (rest.map (base - 1 - ·)) +
          (base ^ rest.length * d + bigEndian base rest) + 1
        = base ^ rest.length * (base - 1 - d + d) +
          (bigEndian base (rest.map (base - 1 - ·)) + bigEndian base rest + 1) := by ring
      _ = base ^ rest.length * (base - 1 - d + d + 1) := by rw [tail, Nat.mul_add_one]
      _ = base ^ rest.length * base := by congr 1; omega

/- The first digit, against what it can be at most. -/
theorem bigEndianHead (d half : Nat) (large : 1 < base) (small : ∀ d ∈ digits, d < base) :
    base ^ digits.length * half ≤ bigEndian base (d :: digits) ↔ half ≤ d := by
  have less := bigEndianLess large small
  rw [bigEndianCons]
  refine ⟨?_, fun most => Nat.le_add_right_of_le (Nat.mul_le_mul_left _ most)⟩
  intro most
  by_contra fewer
  have step : base ^ digits.length * (d + 1) ≤ base ^ digits.length * half := Nat.mul_le_mul_left _ (by omega)
  rw [Nat.mul_add_one] at step
  omega

end Mcpp.BigEndian
