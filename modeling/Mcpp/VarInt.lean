import Mcpp.Base128
import Mcpp.PacketVisitor

/-! What the three VarInt loops compute, in base 128. The reader and the writer
always leave; the size calculator shifts a signed int and leaves exactly on the
values that are not negative. -/
namespace Mcpp.VarInt
open Buffers PacketVisitor Base128

theorem andNotZero (x m : BitVec 32) : x &&& ~~~m = 0 ↔ x &&& m = x := by
  constructor
  · intro none
    ext i inside
    have bit := congrArg (fun v : BitVec 32 => v[i]) none
    simpa using bit
  · intro whole
    rw [← whole, BitVec.and_assoc]
    simp

theorem segmentNat (x : BitVec 32) : (x &&& segmentBits).toNat = x.toNat % 128 := by
  rw [BitVec.toNat_and]
  exact Nat.and_two_pow_sub_one_eq_mod x.toNat 7

theorem lastGroup (x : BitVec 32) : x &&& ~~~segmentBits = 0 ↔ x.toNat < 128 := by
  rw [andNotZero, ← BitVec.toNat_inj, segmentNat]
  omega

theorem orContinue {x : BitVec 32} (group : x.toNat < 128) :
    (x ||| continueBit).toNat = x.toNat + 128 := by
  have disjoint := Nat.two_pow_add_eq_or_of_lt (i := 7) group 1
  rw [BitVec.toNat_or, Nat.or_comm]
  simpa [continueBit, Nat.add_comm] using disjoint.symm

theorem shiftGroup (x : BitVec 32) : (x >>> 7).toNat = x.toNat / 128 := by
  rw [BitVec.toNat_ushiftRight, Nat.shiftRight_eq_div_pow]

theorem charNat (b : UInt8) : (char b).toNat = b.toNat := by
  have byte := b.toNat_lt
  simp only [char, BitVec.toNat_ofNat]
  omega

theorem continueClear (b : UInt8) : char b &&& continueBit = 0 ↔ b.toNat < 128 := by
  have bit : ∀ n : Fin 256, (BitVec.ofNat 32 n.val &&& continueBit = 0) ↔ n.val < 128 := by
    decide +kernel
  exact bit ⟨b.toNat, b.toNat_lt⟩

theorem shiftedGroups (b rest : Nat) (position : Nat) :
    BitVec.ofNat 32 (b % 128 + 128*rest) <<< position =
      (BitVec.ofNat 32 (b % 128) <<< position) ||| (BitVec.ofNat 32 rest <<< (position+7)) := by
  have disjoint := Nat.shiftLeft_add_eq_or_of_lt (b := b % 128) (i := 7) (by omega) rest
  have groups : b % 128 + 128*rest = rest <<< 7 ||| b % 128 := by
    rw [← disjoint, Nat.shiftLeft_eq]
    omega
  have high : BitVec.ofNat 32 (rest <<< 7) = BitVec.ofNat 32 rest <<< 7 := by
    apply BitVec.eq_of_toNat_eq
    simp [Nat.shiftLeft_eq, Nat.mod_mul_mod]
  rw [groups, BitVec.ofNat_or, BitVec.shiftLeft_or_distrib, high, Nat.add_comm position 7,
    BitVec.shiftLeft_add, BitVec.or_comm]

theorem segmentChar (b : UInt8) : char b &&& segmentBits = BitVec.ofNat 32 (b.toNat % 128) := by
  apply BitVec.eq_of_toNat_eq
  rw [segmentNat, charNat, BitVec.toNat_ofNat]
  omega

/-! The reader. -/

def varIntBytes (memory : Memory) (start : Nat) : Bytes := scan memory turns start

/- What ORing the groups of `bytes` in from bit `position` leaves in a variable
that held `old`. Bytes that never close make it zero. -/
def accumulated (old : BitVec 32) (position : Nat) (bytes : Bytes) : BitVec 32 :=
  if Closed bytes then old ||| (BitVec.ofNat 32 (value bytes) <<< position) else 0

def varIntValue (memory : Memory) (start : Nat) (old : BitVec 32) : BitVec 32 :=
  accumulated old 0 (varIntBytes memory start)

theorem accumulatedLast (old : BitVec 32) (position : Nat) {b : UInt8} (last : b.toNat < 128) :
    accumulated old position [b] = old ||| (BitVec.ofNat 32 (b.toNat % 128) <<< position) := by
  have closed : Closed [b] := last
  simp only [accumulated, if_pos closed, value, Nat.mul_zero, Nat.add_zero]

theorem accumulatedStuck (old : BitVec 32) (position : Nat) {b : UInt8} (large : ¬ b.toNat < 128) :
    accumulated old position [b] = 0 := by
  have stuck : ¬ Closed [b] := large
  simp only [accumulated, if_neg stuck]

theorem accumulatedMore (old : BitVec 32) (position : Nat) {b : UInt8} {rest : Bytes}
    (large : ¬ b.toNat < 128) (more : rest ≠ []) :
    accumulated old position (b :: rest) =
      accumulated (old ||| (BitVec.ofNat 32 (b.toNat % 128) <<< position)) (position+7) rest := by
  have high : 128 ≤ b.toNat := by omega
  simp only [accumulated, closedCons more, high, true_and, value, shiftedGroups, BitVec.or_assoc]

theorem advanceTwice (r : CPacketReader) (a b : Nat) :
    (r.advance a).advance b = r.advance (a+b) := by
  simp only [CPacketReader.advance, List.append_assoc, Nat.add_assoc]
  rw [← List.range'_append_1]

theorem readerTurn (r : CPacketReader) (old : BitVec 32) (position : Nat) :
    CPacketReader.varIntBody ⟨r, old, position⟩ =
      if (r.memory r.current).toNat < 128 then
        .leave (old ||| (BitVec.ofNat 32 ((r.memory r.current).toNat % 128) <<< position), r.advance 1)
      else if position + 7 ≥ 32 then .leave (0, r.advance 1)
      else .again ⟨r.advance 1,
        old ||| (BitVec.ofNat 32 ((r.memory r.current).toNat % 128) <<< position), position + 7⟩ := by
  simp only [CPacketReader.varIntBody, continueClear, segmentChar]

theorem readerLoop (left : Nat) (r : CPacketReader) (old : BitVec 32) (position : Nat)
    (room : position + 7*left = 28) :
    Loop.run CPacketReader.varIntBody (left+1) ⟨r, old, position⟩ =
      some (accumulated old position (scan r.memory (left+1) r.current),
        r.advance (scan r.memory (left+1) r.current).length) := by
  induction left generalizing r old position with
  | zero =>
    have full : position + 7 ≥ 32 := by omega
    by_cases last : (r.memory r.current).toNat < 128
    · simp only [Loop.run, readerTurn, scan, if_pos last, accumulatedLast old position last]
      rfl
    · simp only [Loop.run, readerTurn, scan, if_neg last, if_pos full,
        accumulatedStuck old position last]
      rfl
  | succ left ih =>
    have room' : ¬ position + 7 ≥ 32 := by omega
    by_cases last : (r.memory r.current).toNat < 128
    · simp only [Loop.run, readerTurn, scan, if_pos last, accumulatedLast old position last]
      rfl
    · have more := scanNonempty r.memory left (r.current+1)
      have turn := readerTurn r old position
      rw [if_neg last, if_neg room'] at turn
      have step : scan r.memory (left+1+1) r.current =
          r.memory r.current :: scan r.memory (left+1) (r.current+1) := by
        rw [scan, if_neg last]
      rw [Loop.runAgain turn, ih _ _ _ (by omega), advanceTwice, step,
        accumulatedMore old position last more, List.length_cons, Nat.add_comm 1]
      rfl

theorem readerLoopLeaves (r : CPacketReader) (old : BitVec 32) :
    CPacketReader.onVarInt old r =
      .ok (varIntValue r.memory r.current old, r.advance (varIntBytes r.memory r.current).length) := by
  simp only [CPacketReader.onVarInt, turns, readerLoop 4 r old 0 rfl, loopResult]
  rfl

theorem varIntBytesLength (memory : Memory) (start : Nat) :
    0 < (varIntBytes memory start).length ∧ (varIntBytes memory start).length ≤ 5 :=
  ⟨scanPositive memory 4 start, scanLength memory turns start⟩

theorem varIntBytesHeld {memory : Memory} {start : Nat} {bytes : Bytes}
    (closed : Closed bytes) (short : bytes.length ≤ 5) (held : Holds memory start bytes) :
    varIntBytes memory start = bytes :=
  scanClosed closed short (holdsGet held)

theorem varIntValueHeld {memory : Memory} {start : Nat} {bytes : Bytes} (old : BitVec 32)
    (closed : Closed bytes) (short : bytes.length ≤ 5) (held : Holds memory start bytes) :
    varIntValue memory start old = old ||| BitVec.ofNat 32 (value bytes) := by
  rw [varIntValue, varIntBytesHeld closed short held, accumulated, if_pos closed, BitVec.shiftLeft_zero]

/-! The size calculator. -/

theorem sizeLoop (k : Nat) (size v : BitVec 32) (positive : v.msb = false)
    (bound : v.toNat < 128 ^ (k+1)) :
    Loop.run CPacketSizeCalc.varIntBody (k+1) (size, v) =
      some (size + BitVec.ofNat 32 (width v.toNat)) := by
  induction k generalizing size v with
  | zero =>
    have last : v.toNat < 128 := by omega
    simp [Loop.run, CPacketSizeCalc.varIntBody, (lastGroup v).mpr last, widthSmall last]
  | succ k ih =>
    by_cases last : v.toNat < 128
    · simp [Loop.run, CPacketSizeCalc.varIntBody, (lastGroup v).mpr last, widthSmall last]
    · have shifted : v.sshiftRight 7 = v >>> 7 := BitVec.sshiftRight_eq_of_msb_false positive
      have turn : CPacketSizeCalc.varIntBody (size, v) = .again (size + 1, v >>> 7) := by
        simp only [CPacketSizeCalc.varIntBody, lastGroup, if_neg last, shifted]
      have less : (v >>> 7).toNat < 128 ^ (k+1) := by
        rw [shiftGroup, Nat.div_lt_iff_lt_mul (by omega)]
        rwa [Nat.pow_succ] at bound
      have sign : (v >>> 7).msb = false := by
        rw [← shifted, BitVec.msb_sshiftRight, positive]
      rw [Loop.runAgain turn, ih (size+1) (v >>> 7) sign less, shiftGroup,
        widthLarge (by omega : 128 ≤ v.toNat)]
      congr 1
      rw [BitVec.add_assoc, Nat.add_comm, BitVec.ofNat_add]
      rfl

theorem sizeLoopDiverges {v : BitVec 32} (negative : v.msb = true) (size : BitVec 32) :
    Loop.Diverges CPacketSizeCalc.varIntBody (size, v) := by
  have trapped : ∀ s : BitVec 32 × BitVec 32, s.2.msb = true →
      ∃ t, CPacketSizeCalc.varIntBody s = .again t ∧ t.2.msb = true := by
    intro s sign
    have high := BitVec.msb_eq_true_iff_two_mul_ge.mp sign
    have large : ¬ s.2.toNat < 128 := by omega
    refine ⟨(s.1 + 1, s.2.sshiftRight 7), ?_, ?_⟩
    · simp only [CPacketSizeCalc.varIntBody, lastGroup, if_neg large]
    · rw [BitVec.msb_sshiftRight, sign]
  exact Loop.divergesOf trapped negative

/- Five turns decide the loop: it ends with a result exactly when they find it. -/
theorem sizeLoopExact (size v result : BitVec 32) :
    Loop.Ends CPacketSizeCalc.varIntBody (size, v) result ↔
      v.msb = false ∧ result = size + BitVec.ofNat 32 (width v.toNat) := by
  have decided : v.msb = false → Loop.Ends CPacketSizeCalc.varIntBody (size, v)
      (size + BitVec.ofNat 32 (width v.toNat)) := fun positive =>
    Loop.runEnds (sizeLoop 4 size v positive (by have := v.isLt; omega))
  constructor
  · intro ends
    cases sign : v.msb with
    | true => exact absurd ends (sizeLoopDiverges sign size result)
    | false => exact ⟨rfl, Loop.endsUnique ends (decided sign)⟩
  · rintro ⟨positive, rfl⟩
    exact decided positive

theorem sizeRun (v : BitVec 32) : Loop.run CPacketSizeCalc.varIntBody turns (0, v) =
    if v.msb then none else some (BitVec.ofNat 32 (width v.toNat)) := by
  cases sign : v.msb with
  | true => exact Loop.divergesRun (sizeLoopDiverges sign 0) turns
  | false =>
    have leaves := sizeLoop 4 0 v sign (by have := v.isLt; omega)
    rw [turns, leaves]
    simp

theorem widthInt (v : BitVec 32) : width v.toNat ≤ 5 :=
  (widthLe v.toNat 4).mpr (by have := v.isLt; omega)

/-! The writer. -/

theorem writerLoop (k : Nat) (w : CPacketWriter) (v : BitVec 32) (bound : v.toNat < 128 ^ (k+1)) :
    Loop.run CPacketWriter.varIntBody (k+1) (w, v) =
      some ((encode v.toNat).foldl CPacketWriter.put w) := by
  induction k generalizing w v with
  | zero =>
    have last : v.toNat < 128 := by omega
    simp [Loop.run, CPacketWriter.varIntBody, (lastGroup v).mpr last, encodeSmall last, CPacketWriter.toChar]
  | succ k ih =>
    by_cases last : v.toNat < 128
    · simp [Loop.run, CPacketWriter.varIntBody, (lastGroup v).mpr last, encodeSmall last,
        CPacketWriter.toChar]
    · have byte : CPacketWriter.toChar ((v &&& segmentBits) ||| continueBit) =
          UInt8.ofNat (v.toNat % 128 + 128) := by
        rw [CPacketWriter.toChar, orContinue (by rw [segmentNat]; omega), segmentNat]
      have turn : CPacketWriter.varIntBody (w, v) =
          .again (w.put (UInt8.ofNat (v.toNat % 128 + 128)), v >>> 7) := by
        simp only [CPacketWriter.varIntBody, lastGroup, if_neg last, byte]
      have less : (v >>> 7).toNat < 128 ^ (k+1) := by
        rw [shiftGroup, Nat.div_lt_iff_lt_mul (by omega)]
        rwa [Nat.pow_succ] at bound
      rw [Loop.runAgain turn, ih _ _ less, shiftGroup, encodeLarge (by omega : 128 ≤ v.toNat)]
      rfl

theorem writerLoopLeaves (v : BitVec 32) (w : CPacketWriter) :
    CPacketWriter.onVarInt v w = .ok (v, (encode v.toNat).foldl CPacketWriter.put w) := by
  have leaves := writerLoop 4 w v (by have := v.isLt; omega)
  simp only [CPacketWriter.onVarInt, turns, leaves, loopResult]
  rfl

end Mcpp.VarInt
