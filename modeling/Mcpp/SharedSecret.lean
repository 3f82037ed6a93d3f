import Mcpp.Buffers
import Mcpp.ShiftCipher

/-! CSharedSecret. Both directions make a fresh AES-128-CFB8 context on every call,
with the key as its IV. EVP_EncryptUpdate and EVP_DecryptUpdate are CFB8 over the
block function; the Final calls of a stream mode put out nothing. -/
namespace Mcpp.SharedSecret
open Buffers ShiftCipher

/- A block cipher: what it makes of a block under a key. -/
abbrev BlockFunction := Bytes → Bytes → Bytes

def xorMask : Mask UInt8 where
  mix x k := x ^^^ k
  undo x k := by rw [UInt8.xor_assoc, UInt8.xor_self, UInt8.xor_zero]
  injective x a b same := by
    have undone := congrArg (x ^^^ ·) same
    simpa only [← UInt8.xor_assoc, UInt8.xor_self, UInt8.zero_xor] using undone

/- CFB8 masks with the first byte of the enciphered register. -/
def keystream (block : BlockFunction) (key register : Bytes) : UInt8 := (block key register).headD 0

structure CSharedSecret where
  secret : Bytes
  deriving DecidableEq, Repr

/- The sixteen bytes OpenSSL reads through c_str(), however long the string is. -/
def CSharedSecret.key (s : CSharedSecret) (past : Memory) : Bytes := slice (buffer (s.secret ++ [0]) past) 0 16

variable (block : BlockFunction) (s : CSharedSecret) (past : Memory)

def decryptPacket (start : Bytes) : Bytes :=
  decrypt xorMask (keystream block (s.key past)) (s.key past) start

def encryptPacket (start : Bytes) : Bytes :=
  encrypt xorMask (keystream block (s.key past)) (s.key past) start

variable {block s past}

theorem keyExact (sized : s.secret.length = 16) : s.key past = s.secret := by
  rw [CSharedSecret.key, bufferSlice (by simp [sized])]
  simp [sized]

theorem spreads : Spreads xorMask := by
  intro x v
  have hit {k : UInt8} (same : x ^^^ k = v) : k = x ^^^ v := by
    rw [← same, ← UInt8.xor_assoc, UInt8.xor_self, UInt8.zero_xor]
  refine ⟨(x ^^^ v) + 1, (x ^^^ v) + 2, ?_, ?_, ?_⟩
  · intro same
    exact absurd same (by simp)
  · intro same
    exact absurd (hit same) (by simp)
  · intro same
    exact absurd (hit same) (by simp)

/- The bytes that arrive in pieces of the given sizes decrypt to what was sent,
whatever the block function. -/
def Recovers (s : CSharedSecret) (packets : List Bytes) (sizes : List Nat) : Prop :=
  ∀ (block : BlockFunction) (past : Memory) (chunks : List Bytes),
    chunks.flatten = packets.flatMap (encryptPacket block s past) → chunks.map List.length = sizes →
    chunks.flatMap (decryptPacket block s past) = packets.flatten

/- Where the packets that are not empty end. -/
def boundaries (packets : List Bytes) : List Nat := (packets.map List.length).filter (· ≠ 0)

theorem boundariesNonempty (packets : List Bytes) :
    boundaries packets = (packets.filter (· ≠ [])).map List.length := by
  rw [boundaries, List.filter_map]
  congr 1
  refine List.filter_congr ?_
  intro p _
  simp

/- Over a cipher on both sides: what OpenSSL makes of the pieces and of the packets. -/
theorem recoversCut (s : CSharedSecret) (packets : List Bytes) (sizes : List Nat)
    (total : sizes.sum = (packets.map List.length).sum) : Recovers s packets sizes ↔
      ∀ (block : BlockFunction) (past : Memory),
        received xorMask (keystream block (s.key past)) (s.key past) (cut sizes
          (sent xorMask (keystream block (s.key past)) (s.key past) packets)) = packets.flatten := by
  constructor
  · intro recovers block past
    have length := total.trans (sentLength xorMask (keystream block (s.key past)) (s.key past) packets).symm
    exact recovers block past _ (flattenCut length) (lengthsCut length)
  · rintro recovers block past chunks whole rfl
    have all : sent xorMask (keystream block (s.key past)) (s.key past) packets = chunks.flatten := whole.symm
    have plain := recovers block past
    rw [all, cutFlatten] at plain
    exact plain

theorem recoversAtBoundaries (s : CSharedSecret) (packets : List Bytes) :
    Recovers s packets (boundaries packets) := by
  have lengths : (boundaries packets).sum = (packets.map List.length).sum := by
    rw [boundariesNonempty, ← List.length_flatten, List.flatten_filter_ne_nil, List.length_flatten]
  rw [recoversCut s packets _ lengths]
  intro block past
  rw [boundariesNonempty, ← sentNonempty, receivedSent, List.flatten_filter_ne_nil]

theorem recoversExactly {s : CSharedSecret} (sized : s.secret.length = 16) {packets : List Bytes}
    {sizes : List Nat} (positive : ∀ size ∈ sizes, 0 < size)
    (total : sizes.sum = (packets.map List.length).sum) :
    Recovers s packets sizes ↔ sizes = boundaries packets := by
  constructor
  · intro recovers
    obtain ⟨v, last⟩ : ∃ v, s.secret.getLast? = some v := by
      cases bytes : s.secret with
      | nil => simp [bytes] at sized
      | cons b rest => exact ⟨_, List.getLast?_cons⟩
    rw [boundariesNonempty]
    refine receivedOnly spreads last (by simp) positive ?_ ?_
    · rw [total, ← List.length_flatten, ← List.length_flatten, List.flatten_filter_ne_nil]
    · intro stream
      have plain := (recoversCut s packets sizes total).mp recovers (fun _ r => [stream r]) (fun _ => 0)
      rw [keyExact sized] at plain
      rw [sentNonempty, List.flatten_filter_ne_nil]
      exact plain
  · rintro rfl
    exact recoversAtBoundaries s packets

theorem recoversExactlyApart : Recovers ⟨List.range 16 |>.map UInt8.ofNat⟩ [[7, 8], [], [9]] [2, 1] :=
  (recoversExactly (by decide) (by decide) (by decide)).mpr (by decide)

/- Two packets that arrive together: the second is decrypted in the register the
first left behind. -/
theorem coalescedLost : ¬ ∀ (s : CSharedSecret) (packets : List Bytes) (sizes : List Nat),
    s.secret.length = 16 → (∀ size ∈ sizes, 0 < size) → sizes.sum = (packets.map List.length).sum →
    Recovers s packets sizes := by
  intro always
  have plain := always ⟨(List.range 16).map UInt8.ofNat⟩ [[0], [0]] [2] (by decide) (by decide) (by decide)
    (fun _ register => register) (fun _ => 0) [[0, 0]] (by decide) (by decide)
  revert plain
  decide

end Mcpp.SharedSecret
