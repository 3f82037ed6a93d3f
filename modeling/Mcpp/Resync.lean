import Mcpp.ShiftCipher
import Mathlib.Data.List.Forall2

/-! Why the cipher is called self-synchronising. The register holds the last ciphertext
symbols and nothing else, so two that are as long are the same once their length has gone
through, and a party that starts over, or fails to, is wrong for no longer than that. -/
namespace Mcpp.Resync
open ShiftCipher

variable {α : Type} {mask : Mask α} {stream : List α → α}

theorem afterDrop {register : List α} (nonempty : register ≠ []) (ciphertext : List α) :
    after register ciphertext = (register ++ ciphertext).drop ciphertext.length := by
  induction ciphertext generalizing register with
  | nil => simp [after]
  | cons c rest ih =>
    obtain ⟨x, tail, rfl⟩ := List.exists_cons_of_ne_nil nonempty
    have shifted : after (x :: tail) (c :: rest) = after (tail ++ [c]) rest := rfl
    rw [shifted, ih (by simp)]
    simp

theorem afterLength {register : List α} (nonempty : register ≠ []) (ciphertext : List α) :
    (after register ciphertext).length = register.length := by
  rw [afterDrop nonempty, List.length_drop, List.length_append, Nat.add_sub_cancel]

theorem sameNonempty {a b : List α} (same : b.length = a.length) (nonempty : a ≠ []) : b ≠ [] := by
  rw [← List.length_pos_iff, same]
  exact List.length_pos_iff.mpr nonempty

/- What was in the register is gone once its length has been shifted in. -/
theorem afterSame {a b : List α} (same : b.length = a.length) (nonempty : a ≠ []) {ciphertext : List α}
    (enough : a.length ≤ ciphertext.length) : after b ciphertext = after a ciphertext := by
  rw [afterDrop nonempty, afterDrop (sameNonempty same nonempty), List.drop_append, List.drop_append,
    List.drop_eq_nil_of_le enough, List.drop_eq_nil_of_le (by omega : b.length ≤ ciphertext.length), same]

theorem decryptLength (register ciphertext : List α) :
    (decrypt mask stream register ciphertext).length = ciphertext.length := by
  induction ciphertext generalizing register with
  | nil => rfl
  | cons c rest ih => simp only [decrypt, List.length_cons, ih]

/- Past the length of the register it makes no difference what was in it. -/
theorem decryptSame {a b : List α} (same : b.length = a.length) (nonempty : a ≠ []) (ciphertext : List α) :
    (decrypt mask stream b ciphertext).drop a.length = (decrypt mask stream a ciphertext).drop a.length := by
  rcases Nat.lt_or_ge ciphertext.length a.length with short | enough
  · have none (register : List α) : (decrypt mask stream register ciphertext).drop a.length = [] := by
      refine List.drop_eq_nil_of_le ?_
      rw [decryptLength]
      exact Nat.le_of_lt short
    rw [none, none]
  · have split (register : List α) : (decrypt mask stream register ciphertext).drop a.length =
        decrypt mask stream (after register (ciphertext.take a.length)) (ciphertext.drop a.length) := by
      have front : (decrypt mask stream register (ciphertext.take a.length)).length = a.length := by
        rw [decryptLength, List.length_take, Nat.min_eq_left enough]
      conv_lhs => rw [← List.take_append_drop a.length ciphertext, decryptAppend]
      exact List.drop_left' front
    rw [split, split, afterSame same nonempty]
    rw [List.length_take, Nat.min_eq_left enough]

/- Two texts that differ in their first symbols at most. -/
def AgreesFrom (n : Nat) (a b : List α) : Prop := a.length = b.length ∧ a.drop n = b.drop n

variable (mask stream) in
theorem decryptsFrom {iv register : List α} (same : register.length = iv.length) (nonempty : iv ≠ []) (plain : List α) :
    AgreesFrom iv.length (decrypt mask stream iv (encrypt mask stream register plain)) plain := by
  refine ⟨by rw [decryptLength, encryptLength], ?_⟩
  rw [← decryptSame same nonempty, decryptEncrypt]

/- One stream of ciphertext, and a receiver that starts over from `iv` with every piece of it. -/
theorem restartedPieces {iv register : List α} (same : register.length = iv.length) (nonempty : iv ≠ [])
    {pieces : List (List α)} {plain : List α} (whole : pieces.flatten = encrypt mask stream register plain) :
    List.Forall₂ (fun piece text => AgreesFrom iv.length (decrypt mask stream iv piece) text) pieces
      (cut (pieces.map List.length) plain) := by
  induction pieces generalizing register plain with
  | nil => exact .nil
  | cons piece rest ih =>
    have enough : piece.length ≤ plain.length := by
      have lengths := congrArg List.length whole
      rw [encryptLength, List.flatten_cons, List.length_append] at lengths
      omega
    have first : piece.length = (encrypt mask stream register (plain.take piece.length)).length := by
      rw [encryptLength, List.length_take, Nat.min_eq_left enough]
    conv_rhs at whole => rw [← List.take_append_drop piece.length plain, encryptAppend]
    obtain ⟨here, later⟩ := List.append_inj (List.flatten_cons.symm.trans whole) first
    refine .cons ?_ (ih ?_ later)
    · conv in decrypt mask stream iv piece => rw [here]
      exact decryptsFrom mask stream same nonempty _
    · rw [afterLength (sameNonempty same nonempty), same]

theorem firstPiece {iv piece : List α} {rest : List (List α)} {plain : List α}
    (whole : (piece :: rest).flatten = encrypt mask stream iv plain) :
    decrypt mask stream iv piece = plain.take piece.length := by
  have text := decryptEncrypt mask stream iv plain
  rw [← whole, List.flatten_cons, decryptAppend] at text
  rw [← text, List.take_left' (decryptLength ..)]

variable (mask stream) in
/- Messages that each start over from `iv`, and a receiver that goes on. -/
theorem continuedMessages {iv register : List α} (same : register.length = iv.length) (nonempty : iv ≠ [])
    (messages : List (List α)) :
    List.Forall₂ (fun text message => AgreesFrom iv.length text message)
      (cut (messages.map List.length) (decrypt mask stream register (sent mask stream iv messages))) messages := by
  induction messages generalizing register with
  | nil => exact .nil
  | cons message rest ih =>
    have front : message.length = (decrypt mask stream register (encrypt mask stream iv message)).length := by
      rw [decryptLength, encryptLength]
    have split : decrypt mask stream register (sent mask stream iv (message :: rest)) =
        decrypt mask stream register (encrypt mask stream iv message) ++
          decrypt mask stream (after register (encrypt mask stream iv message)) (sent mask stream iv rest) := by
      rw [sent, List.flatMap_cons, decryptAppend]
      rfl
    rw [List.map_cons, cut, split, front, List.take_left, List.drop_left]
    refine .cons ?_ (ih ?_)
    · have texts := decryptsFrom mask stream same.symm (sameNonempty same nonempty) message
      rw [same] at texts
      exact texts
    · rw [afterLength (sameNonempty same nonempty), same]

theorem firstMessage (iv message : List α) (rest : List (List α)) :
    (decrypt mask stream iv (sent mask stream iv (message :: rest))).take message.length = message := by
  have front : (decrypt mask stream iv (encrypt mask stream iv message)).length = message.length := by
    rw [decryptLength, encryptLength]
  rw [sent, List.flatMap_cons, decryptAppend, List.take_left' front, decryptEncrypt]

end Mcpp.Resync
