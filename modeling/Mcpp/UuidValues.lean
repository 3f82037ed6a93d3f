import Mcpp.UuidText

/-! CUUID as a value: its text names it, its comparisons are those of one number, and the
generator draws exactly the values of version 4. -/
namespace Mcpp.UuidValues
open Buffers Uuid UuidText
open AuthHash (LowerHex hexDigit)

/-! Text. -/

/- 36 characters, dashes where they belong and lower-case digits elsewhere. -/
structure Canonical (text : Bytes) : Prop where
  length : text.length = 36
  dashed : ∀ j ∈ dashes, text.getD j 0 = 45
  digits : ∀ i < 32, LowerHex (text.getD (place i) 0)

def slim (text : Bytes) : Bytes := (List.range 32).map fun i => text.getD (place i) 0

def digit (data : Bytes) (i : Nat) : UInt8 :=
  UInt8.ofNat (if i % 2 = 0 then (data.getD (i/2) 0).toNat / 16 else (data.getD (i/2) 0).toNat % 16)

/- The 32 digits of 16 bytes. -/
def digits (data : Bytes) : Bytes := (List.range 32).map fun i => printDigit (digit data i)

theorem rangeGetD (f : Nat → UInt8) {i : Nat} (inside : i < 32) : ((List.range 32).map f).getD i 0 = f i := by
  rw [List.getD_eq_getElem _ _ (by simpa using inside), List.getElem_map, List.getElem_range]

theorem slimHex {text : Bytes} (canonical : Canonical text) : ∀ c ∈ slim text, LowerHex c := by
  intro c mem
  obtain ⟨i, inside, rfl⟩ := List.mem_map.mp mem
  exact canonical.digits i (List.mem_range.mp inside)

theorem slimLength (text : Bytes) : (slim text).length = 32 := by simp [slim]

theorem canonicalFull {text : Bytes} (canonical : Canonical text) : convertSlimToFullUUID (slim text) = text := by
  have length := fullLength (slimLength text)
  refine List.ext_getElem (length.trans canonical.length.symm) ?_
  intro j left right
  rw [← List.getD_eq_getElem _ 0 left, ← List.getD_eq_getElem _ 0 right]
  rcases everyPlace (length ▸ left) with dash | ⟨i, less, rfl⟩
  · rw [fullDash (slimLength text) dash, canonical.dashed j dash]
  · rw [fullAt (slimLength text) less]
    exact rangeGetD _ less

theorem fullCanonical {s : Bytes} (length : s.length = 32) (hex : ∀ c ∈ s, LowerHex c) : Canonical (convertSlimToFullUUID s) := by
  refine ⟨fullLength length, fun j dash => fullDash length dash, ?_⟩
  intro i less
  rw [fullAt length less]
  exact digitsAt length hex less

theorem printHex {n : Nat} (small : n < 16) : LowerHex (printDigit (UInt8.ofNat n)) ∧ hexDigit (printDigit (UInt8.ofNat n)) = n := by
  have all : ∀ n : Fin 16, (48 ≤ printDigit (UInt8.ofNat n.val) ∧ printDigit (UInt8.ofNat n.val) ≤ 57 ∨
      97 ≤ printDigit (UInt8.ofNat n.val) ∧ printDigit (UInt8.ofNat n.val) ≤ 102) ∧
      hexDigit (printDigit (UInt8.ofNat n.val)) = n.val := by decide
  exact all ⟨n, small⟩

theorem digitHex (data : Bytes) (i : Nat) : LowerHex (printDigit (digit data i)) ∧
    hexDigit (printDigit (digit data i)) = if i % 2 = 0 then (data.getD (i/2) 0).toNat / 16 else (data.getD (i/2) 0).toNat % 16 := by
  have byte := (data.getD (i/2) 0).toNat_lt
  refine printHex ?_
  split <;> omega

theorem digitsLength (data : Bytes) : (digits data).length = 32 := by simp [digits]

theorem digitsHex (data : Bytes) : ∀ c ∈ digits data, LowerHex c := by
  intro c mem
  obtain ⟨i, _, rfl⟩ := List.mem_map.mp mem
  exact (digitHex data i).1

theorem digitsPair (data : Bytes) {i : Nat} (inside : i < 16) : (data.getD i 0).toNat = pair (digits data) i := by
  have high := (digitHex data (2*i)).2
  have low := (digitHex data (2*i + 1)).2
  rw [if_pos (by omega), (by omega : 2*i/2 = i)] at high
  rw [if_neg (by omega), (by omega : (2*i + 1)/2 = i)] at low
  have first : (digits data).getD (2*i) 0 = printDigit (digit data (2*i)) := rangeGetD _ (by omega)
  have second : (digits data).getD (2*i + 1) 0 = printDigit (digit data (2*i + 1)) := rangeGetD _ (by omega)
  rw [pair, first, second, high, low]
  omega

theorem strDigits (uuid : CUUID) (undefined : Register) : uuid.str undefined = convertSlimToFullUUID (digits uuid.data) :=
  printedText (digitsLength _) (digitsHex _) (fun _ inside => digitsPair uuid.data inside) undefined

/- The text of a UUID is canonical and read back as the UUID, whatever follows it; and
each canonical text is that of the UUID it is read as. -/
theorem textNames (past : Memory) (undefined : Register) :
    (∀ uuid : CUUID, Canonical (uuid.str undefined) ∧ fromStrFactory (uuid.str undefined) past = uuid) ∧
      ∀ text, Canonical text → (fromStrFactory text past).str undefined = text := by
  constructor
  · intro uuid
    rw [strDigits]
    refine ⟨fullCanonical (digitsLength _) (digitsHex _), ?_⟩
    refine uuidExt ?_
    intro i inside
    apply UInt8.toNat_inj.mp
    rw [parsedPairs (digitsLength _) (digitsHex _) past inside, ← digitsPair uuid.data inside]
  · intro text canonical
    have pairs (i : Nat) (inside : i < 16) := parsedPairs (slimLength text) (slimHex canonical) past inside
    have printed := printedText (slimLength text) (slimHex canonical) pairs undefined
    rwa [canonicalFull canonical] at printed

theorem textNamesDigits : (fromStrFactory (convertSlimToFullUUID everyDigit) fun _ => 0).str (fun _ => 0) =
    convertSlimToFullUUID everyDigit := by
  have hex : ∀ c ∈ everyDigit, LowerHex c := by
    unfold LowerHex
    decide +kernel
  exact (textNames _ _).2 _ (fullCanonical rfl hex)

/-! Comparisons. -/

def xorSi128 (a b : Register) : Register := fun i => a i ^^^ b i

/- No bit of the mask is set in the first 16 bytes. -/
def testAllZeros (a mask : Register) : Bool := (List.range 16).all fun i => a i &&& mask i == 0

/- The word at `data` + 8*`k`, as a little-endian machine reads it. -/
def word (uuid : CUUID) (k : Nat) : BitVec 64 := BitVec.ofNat 64 (lane 8 k (set uuid.data))

def equal (lhs rhs : CUUID) : Bool :=
  let neq := xorSi128 (set lhs.data) (set rhs.data)
  testAllZeros neq neq

def lessThan (lhs rhs : CUUID) : Bool :=
  (word lhs 0).ult (word rhs 0) || (word lhs 0 == word rhs 0 && (word lhs 1).ult (word rhs 1))

def notEqual (lhs rhs : CUUID) : Bool := !equal lhs rhs
def greaterThan (lhs rhs : CUUID) : Bool := lessThan rhs lhs
def lessEqual (lhs rhs : CUUID) : Bool := !greaterThan lhs rhs
def greaterEqual (lhs rhs : CUUID) : Bool := !lessThan lhs rhs

def hash (uuid : CUUID) : BitVec 64 :=
  let a := word uuid 0
  let b := word uuid 1
  a ^^^ (b + 0x9e3779b9 + (a <<< 6) + (a >>> 2))

/- The first word counts for more than the second. -/
def rank (uuid : CUUID) : Nat := 2^64 * (word uuid 0).toNat + (word uuid 1).toNat

theorem wordNat (uuid : CUUID) (k : Nat) :
    (word uuid k).toNat = ofLittleEndian (slice (set uuid.data) (8*k) 8) := by
  have bound := ofLittleEndianBound (slice (set uuid.data) (8*k) 8)
  rw [sliceLength] at bound
  rw [word, BitVec.toNat_ofNat, lane]
  exact Nat.mod_eq_of_lt bound

theorem wordBytes {a b : CUUID} {k : Nat} (same : word a k = word b k) :
    slice (set a.data) (8*k) 8 = slice (set b.data) (8*k) 8 := by
  have number : ofLittleEndian (slice (set a.data) (8*k) 8) = ofLittleEndian (slice (set b.data) (8*k) 8) := by
    rw [← wordNat a, ← wordNat b, same]
  have left := littleEndianOf (slice (set a.data) (8*k) 8)
  have right := littleEndianOf (slice (set b.data) (8*k) 8)
  rw [sliceLength] at left right
  rw [← left, ← right, number]

theorem wordsSame {a b : CUUID} (first : word a 0 = word b 0) (second : word a 1 = word b 1) : a = b := by
  have low := wordBytes first
  have high := wordBytes second
  refine uuidExt ?_
  intro i inside
  rcases Nat.lt_or_ge i 8 with below | above
  · have byte := congrArg (fun bytes => bytes.getD i 0) low
    simp only [sliceByte _ _ _ below, Nat.mul_zero, Nat.zero_add] at byte
    exact byte
  · have byte := congrArg (fun bytes => bytes.getD (i - 8) 0) high
    simp only [sliceByte _ _ _ (by omega : i - 8 < 8)] at byte
    rw [(by omega : 8*1 + (i - 8) = i)] at byte
    exact byte

theorem equalSame (lhs rhs : CUUID) : equal lhs rhs = true ↔ lhs = rhs := by
  rw [equal, testAllZeros, List.all_eq_true]
  constructor
  · intro zeros
    refine uuidExt ?_
    intro i inside
    have zero := zeros i (List.mem_range.mpr inside)
    rw [beq_iff_eq, UInt8.and_self] at zero
    exact UInt8.xor_eq_zero_iff.mp zero
  · intro same i _
    subst same
    rw [beq_iff_eq, UInt8.and_self]
    exact UInt8.xor_self

theorem rankSame (lhs rhs : CUUID) : rank lhs = rank rhs ↔ lhs = rhs := by
  constructor
  · intro same
    have low := (word lhs 1).isLt
    have low' := (word rhs 1).isLt
    rw [rank, rank] at same
    refine wordsSame (BitVec.eq_of_toNat_eq ?_) (BitVec.eq_of_toNat_eq ?_) <;> omega
  · intro same
    rw [same]

theorem lessRank (lhs rhs : CUUID) : lessThan lhs rhs = true ↔ rank lhs < rank rhs := by
  have low := (word lhs 1).isLt
  have low' := (word rhs 1).isLt
  rw [lessThan, Bool.or_eq_true, Bool.and_eq_true, BitVec.ult_iff_toNat_lt, BitVec.ult_iff_toNat_lt, beq_iff_eq,
    ← BitVec.toNat_inj, rank, rank]
  omega

theorem comparesByRank (lhs rhs : CUUID) :
    (rank lhs = rank rhs ↔ lhs = rhs) ∧ (equal lhs rhs = true ↔ rank lhs = rank rhs) ∧
      (notEqual lhs rhs = true ↔ rank lhs ≠ rank rhs) ∧ (lessThan lhs rhs = true ↔ rank lhs < rank rhs) ∧
      (greaterThan lhs rhs = true ↔ rank lhs > rank rhs) ∧ (lessEqual lhs rhs = true ↔ rank lhs ≤ rank rhs) ∧
      (greaterEqual lhs rhs = true ↔ rank lhs ≥ rank rhs) ∧ (equal lhs rhs = true → hash lhs = hash rhs) := by
  have same := (equalSame lhs rhs).trans (rankSame lhs rhs).symm
  refine ⟨rankSame lhs rhs, same, ?_, lessRank lhs rhs, lessRank rhs lhs, ?_, ?_, ?_⟩
  · rw [notEqual, Bool.not_eq_true', ← Bool.not_eq_true, same]
  · rw [lessEqual, greaterThan, Bool.not_eq_true', ← Bool.not_eq_true, lessRank]
    exact Nat.not_lt
  · rw [greaterEqual, Bool.not_eq_true', ← Bool.not_eq_true, lessRank]
    exact Nat.not_lt
  · intro equals
    rw [(equalSame lhs rhs).mp equals]

/-! The generator. -/

/- `x` in the high half. -/
def setEpi64x (x y : BitVec 64) : Register := set (littleEndian 8 y.toNat ++ littleEndian 8 x.toNat)

def andMask : Register := setEpi64x 0xFFFFFFFFFFFFFF3F 0xFF0FFFFFFFFFFFFF
def orMask : Register := setEpi64x 0x0000000000000080 0x0040000000000000

/- By what the distribution draws. -/
def getUUID (x y : BitVec 64) : CUUID :=
  ⟨slice (orSi256 (andSi256 (setEpi64x x y) andMask) orMask) 0 16, by simp⟩

/- The two nibbles that say so. -/
structure Versioned (data : Bytes) : Prop where
  version : (data.getD 6 0).toNat / 16 = 4
  variant : (data.getD 8 0).toNat / 64 = 2

theorem maskedByte (x y : BitVec 64) {i : Nat} (inside : i < 16) :
    (getUUID x y).data.getD i 0 = setEpi64x x y i &&& andMask i ||| orMask i := by
  have byte := sliceByte (orSi256 (andSi256 (setEpi64x x y) andMask) orMask) 0 16 inside
  rwa [Nat.zero_add] at byte

theorem byteCases {P : UInt8 → Prop} (all : ∀ b : Fin 256, P (UInt8.ofNat b.val)) (b : UInt8) : P b := by
  have one := all ⟨b.toNat, b.toNat_lt⟩
  rwa [UInt8.ofNat_toNat] at one

theorem versionMask (b : UInt8) : (b &&& 0x0F ||| 0x40).toNat / 16 = 4 ∧ (b.toNat / 16 = 4 → b &&& 0x0F ||| 0x40 = b) :=
  byteCases (P := fun b => (b &&& 0x0F ||| 0x40).toNat / 16 = 4 ∧ (b.toNat / 16 = 4 → b &&& 0x0F ||| 0x40 = b))
    (by decide +kernel) b

theorem variantMask (b : UInt8) : (b &&& 0x3F ||| 0x80).toNat / 64 = 2 ∧ (b.toNat / 64 = 2 → b &&& 0x3F ||| 0x80 = b) :=
  byteCases (P := fun b => (b &&& 0x3F ||| 0x80).toNat / 64 = 2 ∧ (b.toNat / 64 = 2 → b &&& 0x3F ||| 0x80 = b))
    (by decide +kernel) b

theorem otherMask {i : Nat} (inside : i < 16) (version : i ≠ 6) (variant : i ≠ 8) (b : UInt8) :
    b &&& andMask i ||| orMask i = b := by
  have masks : ∀ i : Fin 16, i.val ≠ 6 → i.val ≠ 8 → andMask i = 0xFF ∧ orMask i = 0 := by decide
  obtain ⟨and', or'⟩ := masks ⟨i, inside⟩ version variant
  rw [and', or', UInt8.or_zero]
  exact byteCases (P := fun b => b &&& 0xFF = b) (by decide +kernel) b

theorem drawnVersioned (x y : BitVec 64) : Versioned (getUUID x y).data := by
  constructor
  · rw [maskedByte x y (by decide)]
    exact (versionMask (setEpi64x x y 6)).1
  · rw [maskedByte x y (by decide)]
    exact (variantMask (setEpi64x x y 8)).1

theorem wordsBytes (uuid : CUUID) {i : Nat} (inside : i < 16) :
    setEpi64x (word uuid 1) (word uuid 0) i = uuid.data.getD i 0 := by
  have half (k : Nat) : littleEndian 8 (word uuid k).toNat = slice (set uuid.data) (8*k) 8 := by
    have same := littleEndianOf (slice (set uuid.data) (8*k) 8)
    rw [wordNat]
    rwa [sliceLength] at same
  have whole : slice (set uuid.data) 0 16 = slice (set uuid.data) (8*0) 8 ++ slice (set uuid.data) (8*1) 8 := sliceAppend _ 0 8 8
  have byte := sliceByte (set uuid.data) 0 16 inside
  rw [setEpi64x, half, half, ← whole, Uuid.set, byte, Nat.zero_add, Uuid.set]

/- A UUID that is versioned is what its own words are masked to. -/
theorem versionedDrawn {uuid : CUUID} (versioned : Versioned uuid.data) : getUUID (word uuid 1) (word uuid 0) = uuid := by
  refine uuidExt ?_
  intro i inside
  rw [maskedByte _ _ inside, wordsBytes uuid inside]
  by_cases version : i = 6
  · subst version
    exact (versionMask _).2 versioned.version
  · by_cases variant : i = 8
    · subst variant
      exact (variantMask _).2 versioned.variant
    · exact otherMask inside version variant _

theorem strDigit (uuid : CUUID) (undefined : Register) {i : Nat} (less : i < 32) :
    (uuid.str undefined).getD (place i) 0 = printDigit (digit uuid.data i) := by
  rw [strDigits, fullAt (digitsLength _) less]
  exact rangeGetD _ less

theorem printFour {n : Nat} (small : n < 16) : printDigit (UInt8.ofNat n) = 52 ↔ n = 4 := by
  have all : ∀ n : Fin 16, printDigit (UInt8.ofNat n.val) = 52 ↔ n.val = 4 := by decide
  exact all ⟨n, small⟩

theorem printEight {n : Nat} (small : n < 16) : printDigit (UInt8.ofNat n) ∈ [56, 57, 97, 98] ↔ n / 4 = 2 := by
  have all : ∀ n : Fin 16, printDigit (UInt8.ofNat n.val) ∈ [56, 57, 97, 98] ↔ n.val / 4 = 2 := by decide
  exact all ⟨n, small⟩

theorem versionedText (uuid : CUUID) (undefined : Register) : Versioned uuid.data ↔
    (uuid.str undefined).getD 14 0 = 52 ∧ (uuid.str undefined).getD 19 0 ∈ [56, 57, 97, 98] := by
  have sixth := (uuid.data.getD 6 0).toNat_lt
  have eighth := (uuid.data.getD 8 0).toNat_lt
  have version := strDigit uuid undefined (by decide : 12 < 32)
  have variant := strDigit uuid undefined (by decide : 16 < 32)
  have fourteenth : place 12 = 14 := rfl
  have nineteenth : place 16 = 19 := rfl
  have sixth' : digit uuid.data 12 = UInt8.ofNat ((uuid.data.getD 6 0).toNat / 16) := rfl
  have eighth' : digit uuid.data 16 = UInt8.ofNat ((uuid.data.getD 8 0).toNat / 16) := rfl
  rw [fourteenth, sixth'] at version
  rw [nineteenth, eighth'] at variant
  rw [version, variant, printFour (by omega), printEight (by omega), Nat.div_div_eq_div_mul]
  constructor
  · intro versioned
    exact ⟨versioned.version, versioned.variant⟩
  · intro ⟨version, variant⟩
    exact ⟨version, variant⟩

/- The generator gives what is of version 4 and of the variant of the RFC, and all of it. -/
theorem drawnExactly (uuid : CUUID) (undefined : Register) : (∃ x y, getUUID x y = uuid) ↔
    (uuid.str undefined).getD 14 0 = 52 ∧ (uuid.str undefined).getD 19 0 ∈ [56, 57, 97, 98] := by
  rw [← versionedText uuid undefined]
  constructor
  · intro ⟨x, y, drawn⟩
    rw [← drawn]
    exact drawnVersioned x y
  · intro versioned
    exact ⟨_, _, versionedDrawn versioned⟩

end Mcpp.UuidValues
