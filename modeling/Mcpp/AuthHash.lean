import Mcpp.BigEndian
import Mcpp.Buffers

/-! The digest of the authentication. Of BIGNUM there is what it is documented to do: each
number has a value, and the functions are exact on it. -/
namespace Mcpp.AuthHash
open Buffers BigEndian

def number (bytes : Bytes) : Nat := bigEndian 256 (bytes.map UInt8.toNat)

def upperHex (d : Nat) : UInt8 := UInt8.ofNat (if d < 10 then 48 + d else 55 + d)

structure Bignum where
  BIGNUM : Type
  value : BIGNUM → Nat
  bin2bn : Bytes → BIGNUM
  isBitSet : BIGNUM → Nat → Bool
  -- BN_bn2bin into a vector of BN_num_bytes bytes, which is as short as it can be.
  bn2bin : BIGNUM → Bytes
  addWord : BIGNUM → Nat → BIGNUM
  bn2hex : BIGNUM → Bytes
  bin2bnValue : ∀ bytes, value (bin2bn bytes) = number bytes
  isBitSetValue : ∀ bn i, isBitSet bn i = (value bn).testBit i
  bn2binValue : ∀ bn, number (bn2bin bn) = value bn
  bn2binLength : ∀ bn count, (bn2bin bn).length ≤ count ↔ value bn < 256 ^ count
  addWordValue : ∀ bn word, value (addWord bn word) = value bn + word
  bn2hexValue : ∀ bn, ∃ digits, (∀ d ∈ digits, d < 16) ∧ bn2hex bn = digits.map upperHex ∧
    bigEndian 16 digits = value bn

/- An unsigned char[SHA_DIGEST_LENGTH]. -/
structure Hash where
  bytes : Bytes
  length : bytes.length = 20

/- Of the C locale. -/
def tolower (c : UInt8) : UInt8 := if 65 ≤ c ∧ c ≤ 90 then c + 32 else c

/- '-' is 45 and '0' is 48. -/
def finalise (lib : Bignum) (hash : Hash) : Bytes :=
  let bn := lib.bin2bn hash.bytes
  let (result, bn) :=
    if lib.isBitSet bn 159 then
      let tmp := (lib.bn2bin bn).map fun b => ~~~b
      (([45] : Bytes), lib.addWord (lib.bin2bn tmp) 1)
    else ([], bn)
  let view := (lib.bn2hex bn).dropWhile (· == 48)
  (result ++ view).map tolower

/- `sha1` is what the context made of all that it was updated with. -/
def generateHexDigest (lib : Bignum) (sha1 : Bytes → Hash) (publicKey sharedSecret : Bytes) : Bytes :=
  finalise lib (sha1 (sharedSecret ++ publicKey))

/-! What the text says. -/

def lowerHex (d : Nat) : UInt8 := UInt8.ofNat (if d < 10 then 48 + d else 87 + d)

def hexDigit (c : UInt8) : Nat := if c.toNat < 58 then c.toNat - 48 else c.toNat - 87

/- A number in base 16, behind a '-' if it is negative. -/
def evaluate : Bytes → Int
  | [] => 0
  | c :: rest =>
    if c = 45 then -(bigEndian 16 (rest.map hexDigit) : Int) else (bigEndian 16 ((c :: rest).map hexDigit) : Int)

def Hash.signed (hash : Hash) : Int := (BitVec.ofNat 160 (number hash.bytes)).toInt

def Hash.topBit (hash : Hash) : Bool := 128 ≤ (hash.bytes.headD 0).toNat

/- Digits and the letters a to f. -/
def LowerHex (c : UInt8) : Prop := 48 ≤ c ∧ c ≤ 57 ∨ 97 ≤ c ∧ c ≤ 102

theorem digitCases {P : Nat → Prop} (all : ∀ d : Fin 16, P d) {d : Nat} (small : d < 16) : P d := all ⟨d, small⟩

theorem lowerUpper {d : Nat} (small : d < 16) : tolower (upperHex d) = lowerHex d :=
  digitCases (P := fun d => tolower (upperHex d) = lowerHex d) (by decide) small

theorem hexDigitLower {d : Nat} (small : d < 16) : hexDigit (lowerHex d) = d :=
  digitCases (P := fun d => hexDigit (lowerHex d) = d) (by decide) small

theorem lowerIsHex {d : Nat} (small : d < 16) : LowerHex (lowerHex d) :=
  digitCases (P := fun d => LowerHex (lowerHex d)) (by unfold LowerHex; decide) small

theorem upperZero {d : Nat} (small : d < 16) : (upperHex d == 48) = (d == 0) :=
  digitCases (P := fun d => (upperHex d == 48) = (d == 0)) (by decide) small

theorem bytesSmall (bytes : Bytes) : ∀ d ∈ bytes.map UInt8.toNat, d < 256 := by
  intro d mem
  obtain ⟨b, _, rfl⟩ := List.mem_map.mp mem
  exact b.toNat_lt

theorem numberLess (bytes : Bytes) : number bytes < 256 ^ bytes.length := by
  have less := bigEndianLess (by decide) (bytesSmall bytes)
  rwa [List.length_map] at less

theorem numberComplement (bytes : Bytes) : number (bytes.map fun b => ~~~b) + number bytes + 1 = 256 ^ bytes.length := by
  have all := bigEndianComplement (bytesSmall bytes)
  rw [List.length_map, List.map_map] at all
  rw [← all, number, number, List.map_map]
  simp only [Function.comp_def, UInt8.toNat_not, UInt8.size]

theorem numberInj {bytes other : Bytes} (length : bytes.length = other.length) (same : number bytes = number other) :
    bytes = other := by
  have alike : bytes.map UInt8.toNat = other.map UInt8.toNat :=
    bigEndianInj (by decide) (by rw [List.length_map, List.length_map, length]) (bytesSmall bytes) (bytesSmall other) same
  exact List.map_injective_iff.mpr (fun _ _ => UInt8.toNat_inj.mp) alike

theorem bitHigh {v : Nat} (less : v < 2 ^ 160) : v.testBit 159 = decide (2 ^ 159 ≤ v) := by
  rw [Nat.testBit_eq_decide_div_mod_eq]
  simp only [decide_eq_decide]
  omega

theorem hashNumber (hash : Hash) : number hash.bytes < 2 ^ 160 := by
  have less := numberLess hash.bytes
  rwa [hash.length] at less

theorem topBitNumber (hash : Hash) : hash.topBit = (number hash.bytes).testBit 159 := by
  rw [bitHigh (hashNumber hash)]
  obtain ⟨bytes, length⟩ := hash
  cases bytes with
  | nil => contradiction
  | cons b rest =>
    have head := bigEndianHead b.toNat 128 (by decide) (bytesSmall rest)
    rw [List.length_map, Nat.succ.inj length] at head
    exact decide_eq_decide.mpr head.symm

/-! The text of a number. -/

def hexText (lib : Bignum) (bn : lib.BIGNUM) : Bytes := ((lib.bn2hex bn).dropWhile (· == 48)).map tolower

theorem stripUpper {digits : List Nat} (small : ∀ d ∈ digits, d < 16) :
    (digits.map upperHex).dropWhile (· == 48) = (digits.dropWhile (· == 0)).map upperHex := by
  induction digits with
  | nil => rfl
  | cons d rest ih =>
    rw [List.map_cons, List.dropWhile_cons, List.dropWhile_cons, upperZero (small d List.mem_cons_self)]
    split
    · exact ih fun e mem => small e (List.mem_cons_of_mem _ mem)
    · rfl

/- Lower-case digits, of which the first is not zero, and what they are in base 16. -/
theorem hexTextExact (lib : Bignum) (bn : lib.BIGNUM) : ∃ digits, (∀ d ∈ digits, d < 16) ∧ digits.head? ≠ some 0 ∧
    hexText lib bn = digits.map lowerHex ∧ bigEndian 16 digits = lib.value bn := by
  obtain ⟨digits, small, text, value⟩ := lib.bn2hexValue bn
  have kept : ∀ d ∈ digits.dropWhile (· == 0), d < 16 := fun d mem => small d ((List.dropWhile_sublist _).mem mem)
  refine ⟨digits.dropWhile (· == 0), kept, ?_, ?_, ?_⟩
  · intro zero
    have first := List.head?_dropWhile_not (· == 0) digits
    rw [zero] at first
    contradiction
  · rw [hexText, text, stripUpper small, List.map_map]
    exact List.map_congr_left fun d mem => lowerUpper (kept d mem)
  · rw [bigEndianStripped, value]

theorem evaluateLower {digits : List Nat} (small : ∀ d ∈ digits, d < 16) :
    bigEndian 16 ((digits.map lowerHex).map hexDigit) = bigEndian 16 digits := by
  have same : (digits.map lowerHex).map hexDigit = digits := by
    rw [List.map_map]
    exact (List.map_congr_left fun d mem => hexDigitLower (small d mem)).trans (List.map_id digits)
  rw [same]

theorem lowerNoSign {d : Nat} (small : d < 16) : lowerHex d ≠ 45 :=
  digitCases (P := fun d => lowerHex d ≠ 45) (by decide) small

theorem evaluatePositive {digits : List Nat} (small : ∀ d ∈ digits, d < 16) :
    evaluate (digits.map lowerHex) = (bigEndian 16 digits : Int) := by
  rw [← evaluateLower small]
  cases digits with
  | nil => rfl
  | cons d rest => exact if_neg (lowerNoSign (small d List.mem_cons_self))

theorem evaluateNegative {digits : List Nat} (small : ∀ d ∈ digits, d < 16) :
    evaluate (45 :: digits.map lowerHex) = -(bigEndian 16 digits : Int) := by
  rw [← evaluateLower small, evaluate, if_pos rfl]

/-! The digest. -/

/- The complement plus one is what is missing to 2^160. -/
theorem negated (lib : Bignum) (hash : Hash) (high : 2 ^ 159 ≤ number hash.bytes) :
    lib.value (lib.addWord (lib.bin2bn ((lib.bn2bin (lib.bin2bn hash.bytes)).map fun b => ~~~b)) 1) +
      number hash.bytes = 2 ^ 160 := by
  have value : number (lib.bn2bin (lib.bin2bn hash.bytes)) = number hash.bytes := by
    rw [lib.bn2binValue, lib.bin2bnValue]
  have length : (lib.bn2bin (lib.bin2bn hash.bytes)).length = 20 := by
    have most := (lib.bn2binLength (lib.bin2bn hash.bytes) 20).mpr (lib.bin2bnValue _ ▸ hashNumber hash)
    have least := mt (lib.bn2binLength (lib.bin2bn hash.bytes) 19).mp (by rw [lib.bin2bnValue]; omega)
    omega
  have both := numberComplement (lib.bn2bin (lib.bin2bn hash.bytes))
  rw [length, value] at both
  rw [lib.addWordValue, lib.bin2bnValue]
  omega

theorem signedNumber (hash : Hash) : hash.signed =
    if hash.topBit then (number hash.bytes : Int) - 2 ^ 160 else (number hash.bytes : Int) := by
  have less := hashNumber hash
  rw [topBitNumber, bitHigh less, Hash.signed, BitVec.toInt_eq_toNat_cond, BitVec.toNat_ofNat, Nat.mod_eq_of_lt less]
  by_cases high : 2 ^ 159 ≤ number hash.bytes
  · rw [if_neg (by omega), if_pos (decide_eq_true high)]
    rfl
  · rw [if_pos (by omega), if_neg (by simpa using high)]

def sign (hash : Hash) : Bytes := if hash.topBit then [45] else []

theorem finaliseExact (lib : Bignum) (hash : Hash) : ∃ digits : List Nat, (∀ d ∈ digits, d < 16) ∧
    digits.head? ≠ some 0 ∧ finalise lib hash = sign hash ++ digits.map lowerHex ∧
    evaluate (finalise lib hash) = hash.signed := by
  have bit : lib.isBitSet (lib.bin2bn hash.bytes) 159 = hash.topBit := by
    rw [lib.isBitSetValue, lib.bin2bnValue, topBitNumber]
  cases top : hash.topBit with
  | false =>
    obtain ⟨digits, small, first, text, value⟩ := hexTextExact lib (lib.bin2bn hash.bytes)
    have whole : finalise lib hash = digits.map lowerHex := by
      simp only [finalise, bit, top, Bool.false_eq_true, if_false, List.nil_append, ← text]
      rfl
    refine ⟨digits, small, first, ?_, ?_⟩
    · rw [whole, sign, top]
      rfl
    · rw [whole, evaluatePositive small, value, lib.bin2bnValue, signedNumber, top]
      rfl
  | true =>
    obtain ⟨digits, small, first, text, value⟩ := hexTextExact lib
      (lib.addWord (lib.bin2bn ((lib.bn2bin (lib.bin2bn hash.bytes)).map fun b => ~~~b)) 1)
    have whole : finalise lib hash = 45 :: digits.map lowerHex := by
      simp only [finalise, bit, top, if_true, List.map_append, ← text]
      rfl
    have high : 2 ^ 159 ≤ number hash.bytes := by
      rw [topBitNumber, bitHigh (hashNumber hash)] at top
      exact of_decide_eq_true top
    have both := negated lib hash high
    refine ⟨digits, small, first, ?_, ?_⟩
    · rw [whole, sign, top]
      rfl
    · rw [whole, evaluateNegative small, value, signedNumber, top, if_pos rfl]
      omega

theorem signedInj {hash other : Hash} (same : other.signed = hash.signed) : other = hash := by
  have word := congrArg BitVec.toNat (BitVec.eq_of_toInt_eq same)
  rw [BitVec.toNat_ofNat, BitVec.toNat_ofNat, Nat.mod_eq_of_lt (hashNumber _), Nat.mod_eq_of_lt (hashNumber _)] at word
  have bytes := numberInj (other.length.trans hash.length.symm) word
  cases hash
  cases other
  cases bytes
  rfl

/- '-' is no digit, so it is there exactly for the top bit. -/
theorem signedDigest (lib : Bignum) (hash : Hash) :
    (∃ digits, finalise lib hash = (if hash.topBit then [45] else []) ++ digits ∧ (∀ c ∈ digits, LowerHex c) ∧
      digits.head? ≠ some 48) ∧
    evaluate (finalise lib hash) = hash.signed ∧
    ∀ other, finalise lib other = finalise lib hash → other = hash := by
  obtain ⟨digits, small, first, whole, value⟩ := finaliseExact lib hash
  refine ⟨⟨digits.map lowerHex, whole, ?_, ?_⟩, value, ?_⟩
  · intro c mem
    obtain ⟨d, held, rfl⟩ := List.mem_map.mp mem
    exact lowerIsHex (small d held)
  · intro zero
    rw [List.head?_map] at zero
    obtain ⟨d, here, digit⟩ := Option.map_eq_some_iff.mp zero
    have back := hexDigitLower (small d (List.mem_of_head? here))
    rw [digit] at back
    rw [here, ← back] at first
    exact first rfl
  · intro other same
    obtain ⟨_, _, _, _, value'⟩ := finaliseExact lib other
    rw [same, value] at value'
    exact signedInj value'.symm

/-! Numbers that are their own values. -/

def octets (n : Nat) : List Nat := (Nat.digits 256 n).reverse

def nibbles (octets : List Nat) : List Nat := octets.flatMap fun b => [b / 16, b % 16]

theorem octetsSmall (n : Nat) : ∀ d ∈ octets n, d < 256 := by
  intro d mem
  exact Nat.digits_lt_base (by decide) (List.mem_reverse.mp mem)

theorem octetsValue (n : Nat) : bigEndian 256 (octets n) = n := by
  rw [bigEndian, octets, List.reverse_reverse, Nat.ofDigits_digits]

theorem nibblesSmall {octets : List Nat} (small : ∀ d ∈ octets, d < 256) : ∀ d ∈ nibbles octets, d < 16 := by
  intro d mem
  obtain ⟨b, held, mem⟩ := List.mem_flatMap.mp mem
  have less := small b held
  simp only [List.mem_cons, List.not_mem_nil, or_false] at mem
  omega

theorem nibblesLength (octets : List Nat) : 16 ^ (nibbles octets).length = 256 ^ octets.length := by
  induction octets with
  | nil => rfl
  | cons b rest ih =>
    have step : (nibbles (b :: rest)).length = (nibbles rest).length + 2 := rfl
    rw [step, Nat.pow_add, ih]
    exact (Nat.pow_succ ..).symm

theorem nibblesValue (octets : List Nat) : bigEndian 16 (nibbles octets) = bigEndian 256 octets := by
  induction octets with
  | nil => rfl
  | cons b rest ih =>
    have step : nibbles (b :: rest) = b / 16 :: b % 16 :: nibbles rest := rfl
    rw [step, bigEndianCons, bigEndianCons, bigEndianCons, List.length_cons, Nat.pow_succ, nibblesLength, ih]
    calc 256 ^ rest.length * 16 * (b / 16) + (256 ^ rest.length * (b % 16) + bigEndian 256 rest)
        = 256 ^ rest.length * (16 * (b / 16) + b % 16) + bigEndian 256 rest := by ring
      _ = 256 ^ rest.length * b + bigEndian 256 rest := by rw [Nat.div_add_mod]

theorem bytesOctets (n : Nat) : number ((octets n).map UInt8.ofNat) = n := by
  have same : ((octets n).map UInt8.ofNat).map UInt8.toNat = octets n := by
    rw [List.map_map]
    refine (List.map_congr_left fun d mem => ?_).trans (List.map_id _)
    exact UInt8.toNat_ofNat_of_lt (octetsSmall n d mem)
  rw [number, same, octetsValue]

def natural : Bignum where
  BIGNUM := Nat
  value := id
  bin2bn := number
  isBitSet := Nat.testBit
  bn2bin n := (octets n).map UInt8.ofNat
  addWord := Nat.add
  bn2hex n := if n = 0 then [48] else (nibbles (octets n)).map upperHex
  bin2bnValue _ := rfl
  isBitSetValue _ _ := rfl
  bn2binValue := bytesOctets
  bn2binLength n count := by
    rw [List.length_map, octets, List.length_reverse]
    exact Nat.digits_length_le_iff (by decide) n
  addWordValue _ _ := rfl
  bn2hexValue n := by
    split
    · rename_i zero
      exact ⟨[0], by simp, rfl, zero.symm⟩
    · exact ⟨_, nibblesSmall (octetsSmall n), rfl, (nibblesValue _).trans (octetsValue n)⟩

/- The hash of the smallest value, which is its own complement plus one. -/
theorem signedDigestSmallest : evaluate (finalise natural ⟨128 :: List.replicate 19 0, by decide⟩) = -2 ^ 159 := by
  have smallest : (⟨128 :: List.replicate 19 0, by decide⟩ : Hash).signed = -2 ^ 159 := by decide +kernel
  exact (signedDigest natural ⟨128 :: List.replicate 19 0, by decide⟩).2.1.trans smallest

end Mcpp.AuthHash
