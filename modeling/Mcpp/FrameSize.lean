import Mcpp.Framing

/-! The size of a frame against the bytes of its length prefix. The size is made from the
decoded length alone, so it is right for the shortest encoding of that length only. -/
namespace Mcpp.FrameSize
open Buffers PacketVisitor Packets Base128 VarInt ClientConnection Framing

variable {memory : Memory} {start n : Nat}

/- Byte n of the prefix is the first without the continuation bit. -/
structure Ends (memory : Memory) (start n : Nat) : Prop where
  continued : ∀ i < n, 128 ≤ (memory (start+i)).toNat
  last : (memory (start+n)).toNat < 128

/- What of the last byte is left in 32 bits: of the fifth byte, four. -/
def lastDigit (memory : Memory) (start n : Nat) : Nat :=
  if n = 4 then (memory (start+n)).toNat % 16 else (memory (start+n)).toNat

/- It ends within five bytes, and its last digit is not zero if there is one before it. -/
def Shortest (memory : Memory) (start : Nat) : Prop :=
  ∃ n < 5, Ends memory start n ∧ (n = 0 ∨ lastDigit memory start n ≠ 0)

theorem endsUnique {m : Nat} (one : Ends memory start n) (two : Ends memory start m) : n = m := by
  rcases Nat.lt_trichotomy n m with less | same | more
  · have byte := two.continued n less
    have last := one.last
    omega
  · exact same
  · have byte := one.continued m more
    have last := two.last
    omega

theorem prefixEnds (inside : n < 5) (ends : Ends memory start n) : prefixWidth memory start = n+1 ∧
    ∃ low < 128 ^ n, (prefixSize memory start).toNat = low + 128 ^ n * lastDigit memory start n := by
  have scanned : Closed (varIntBytes memory start) ∧ (varIntBytes memory start).length = n+1 ∧
      ∃ low < 128 ^ n, value (varIntBytes memory start) = low + 128 ^ n * (memory (start+n)).toNat :=
    scanEnds inside ends.continued ends.last
  obtain ⟨closed, length, low, less, sum⟩ := scanned
  refine ⟨length, low, less, ?_⟩
  have bound := valueBound (varIntBytes memory start)
  rw [prefixClosed closed, BitVec.toNat_ofNat, sum, lastDigit]
  rw [sum, length] at bound
  split
  · rename_i fifth
    subst fifth
    omega
  · have most : 128 ^ (n+1) ≤ 128 ^ 4 := Nat.pow_le_pow_right (by decide) (by omega)
    exact Nat.mod_eq_of_lt (by omega)

theorem digitSmall (ends : Ends memory start n) : lastDigit memory start n < 128 := by
  have last := ends.last
  unfold lastDigit
  split <;> omega

/- The width of the decoded length is the number of bytes that were consumed. -/
theorem widthConsumed (memory : Memory) (start : Nat) :
    width (prefixSize memory start).toNat = prefixWidth memory start ↔ Shortest memory start := by
  by_cases closed : Closed (varIntBytes memory start)
  · obtain ⟨n, inside, continued, last⟩ := closedEnds closed
    have ends : Ends memory start n := ⟨continued, last⟩
    obtain ⟨consumed, low, less, sum⟩ := prefixEnds inside ends
    rw [consumed, sum, widthDigits less (digitSmall ends)]
    refine ⟨fun digit => ⟨n, inside, ends, digit⟩, ?_⟩
    intro ⟨m, _, other, digit⟩
    obtain rfl := endsUnique ends other
    exact digit
  · have zero : prefixSize memory start = 0 := if_neg closed
    have all : prefixWidth memory start = 5 := scanOpen closed
    refine iff_of_false ?_ ?_
    · rw [zero, all, widthSmall (by decide)]
      decide
    · intro ⟨n, inside, ends, _⟩
      have closes : Closed (varIntBytes memory start) := (scanEnds inside ends.continued ends.last).1
      exact closed closes

theorem sizedExactly {memory : Memory} {start : Nat} {maxSize length : BitVec 32} {payload : SPacketPayload}
    {reads : List Nat} {r : CPacketReader} (read : readUnencryptedPacket memory start maxSize = .ok (payload, reads))
    (returned : payload.payload ≠ none)
    (decoded : CPacketReader.onVarInt 0 { memory := memory, current := start } = .ok (length, r)) :
    payload.size.toNat = (r.current - start) + length.toNat ↔ Shortest memory start := by
  rw [readerLoopLeaves] at decoded
  cases decoded
  rw [readExact] at read
  split at read
  · contradiction
  · rename_i positive
    split at read
    · cases read
      exact absurd rfl returned
    · cases read
      have size : (frameAt memory start).size.toNat = announced memory start :=
        (announcedWord (Bool.not_eq_true _ ▸ positive)).2
      have consumed : (CPacketReader.advance { memory := memory, current := start }
          (varIntBytes memory start).length).current - start = prefixWidth memory start := Nat.add_sub_cancel_left ..
      have same : varIntValue memory start 0 = prefixSize memory start := rfl
      rw [← widthConsumed, size, consumed, same, announced]
      omega

/- A frame of three bytes behind its length. -/
theorem sizedShortest : ∃ payload reads length r,
    readUnencryptedPacket (buffer [3, 0, 7, 7] fun _ => 0) 0 4 = .ok (payload, reads) ∧
      CPacketReader.onVarInt 0 { memory := buffer [3, 0, 7, 7] fun _ => 0 } = .ok (length, r) ∧
      payload.size.toNat = (r.current - 0) + length.toNat := by
  have shortest : Shortest (buffer [3, 0, 7, 7] fun _ => 0) 0 := ⟨0, by decide, ⟨nofun, by decide⟩, .inl rfl⟩
  have read : readUnencryptedPacket (buffer [3, 0, 7, 7] fun _ => 0) 0 4 =
      .ok (⟨some [3, 0, 7, 7], 0, 4⟩, [0, 1, 0, 1, 2, 3]) := by rfl
  exact ⟨_, _, _, _, read, rfl, (sizedExactly read nofun rfl).mpr shortest⟩

/- A length of one in two bytes, with the id 5 behind it. -/
theorem sizedPadded : ∃ payload reads r,
    readUnencryptedPacket (buffer [129, 0, 5] fun _ => 0) 0 3 = .ok (payload, reads) ∧ payload.payload ≠ none ∧
      CPacketReader.onVarInt 0 { memory := buffer [129, 0, 5] fun _ => 0 } = .ok (1, r) ∧
      payload.size.toNat ≠ (r.current - 0) + (1 : BitVec 32).toNat := by
  refine ⟨⟨some [129, 0], 5, 2⟩, [0, 1, 2, 0, 1], ⟨buffer [129, 0, 5] fun _ => 0, 2, [0, 1]⟩, rfl, nofun, rfl, ?_⟩
  decide

end Mcpp.FrameSize
