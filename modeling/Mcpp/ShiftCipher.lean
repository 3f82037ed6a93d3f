import Mathlib.Data.List.Basic
import Mathlib.Algebra.Ring.Nat

/-! A self-synchronising stream cipher, such as CFB with feedback as wide as a
symbol. The register is a list of symbols; each turn masks one symbol with what the
keystream makes of the register and shifts the ciphertext symbol in behind. -/
namespace Mcpp.ShiftCipher

/- How a symbol is masked: masking twice with one key gives the symbol back. -/
structure Mask (α : Type) where
  mix : α → α → α
  undo : ∀ x k, mix (mix x k) k = x
  injective : ∀ x a b, mix x a = mix x b → a = b

variable {α : Type} (mask : Mask α) (stream : List α → α)

def shift (register : List α) (c : α) : List α := register.drop 1 ++ [c]

def encrypt : List α → List α → List α
  | _, [] => []
  | register, p :: rest =>
    let c := mask.mix p (stream register)
    c :: encrypt (shift register c) rest

def decrypt : List α → List α → List α
  | _, [] => []
  | register, c :: rest => mask.mix c (stream register) :: decrypt (shift register c) rest

/- The register once the ciphertext has been shifted through it. -/
def after (register ciphertext : List α) : List α := ciphertext.foldl shift register

@[simp] theorem encryptLength (register plain : List α) :
    (encrypt mask stream register plain).length = plain.length := by
  induction plain generalizing register with
  | nil => rfl
  | cons p rest ih => simp only [encrypt, List.length_cons, ih]

theorem decryptEncrypt (register plain : List α) :
    decrypt mask stream register (encrypt mask stream register plain) = plain := by
  induction plain generalizing register with
  | nil => rfl
  | cons p rest ih => simp only [encrypt, decrypt, mask.undo, ih]

theorem encryptAppend (register a b : List α) :
    encrypt mask stream register (a ++ b) = encrypt mask stream register a ++
      encrypt mask stream (after register (encrypt mask stream register a)) b := by
  induction a generalizing register with
  | nil => rfl
  | cons p rest ih => simp only [List.cons_append, encrypt, ih, after, List.foldl_cons]

theorem decryptAppend (register a b : List α) :
    decrypt mask stream register (a ++ b) =
      decrypt mask stream register a ++ decrypt mask stream (after register a) b := by
  induction a generalizing register with
  | nil => rfl
  | cons c rest ih => simp only [List.cons_append, decrypt, ih, after, List.foldl_cons]

/- The last symbol of the register is the last one shifted in. -/
theorem afterLast (register ciphertext : List α) (c : α) :
    (after register (ciphertext ++ [c])).getLast? = some c := by
  simp [after, shift]

/- Symbols masked under one register and unmasked under another do not come back. -/
theorem unmaskedWrong {x : α} {a b : List α} (differ : stream a ≠ stream b) :
    mask.mix (mask.mix x (stream a)) (stream b) ≠ x := by
  intro same
  exact differ (mask.injective _ _ _ ((mask.undo x (stream a)).trans same.symm))

/-! Two parties that both start over from `iv`: one at the start of every message,
the other at the start of every piece it receives. -/

variable (iv : List α)

def sent (messages : List (List α)) : List α := messages.flatMap (encrypt mask stream iv)

def received (pieces : List (List α)) : List α := pieces.flatMap (decrypt mask stream iv)

/- `bytes` cut into pieces of the given sizes. -/
def cut {β : Type} : List Nat → List β → List (List β)
  | [], _ => []
  | size :: sizes, bytes => bytes.take size :: cut sizes (bytes.drop size)

theorem cutFlatten {β : Type} (pieces : List (List β)) :
    cut (pieces.map List.length) pieces.flatten = pieces := by
  induction pieces with
  | nil => rfl
  | cons piece rest ih => simp [cut, ih]

theorem flattenCut {β : Type} {sizes : List Nat} {bytes : List β} (total : sizes.sum = bytes.length) :
    (cut sizes bytes).flatten = bytes := by
  induction sizes generalizing bytes with
  | nil => exact (List.eq_nil_of_length_eq_zero total.symm).symm
  | cons size sizes ih =>
    have rest : sizes.sum = (bytes.drop size).length := by
      rw [List.sum_cons] at total
      rw [List.length_drop]
      omega
    rw [cut, List.flatten_cons, ih rest, List.take_append_drop]

theorem lengthsCut {β : Type} {sizes : List Nat} {bytes : List β} (total : sizes.sum = bytes.length) :
    (cut sizes bytes).map List.length = sizes := by
  induction sizes generalizing bytes with
  | nil => rfl
  | cons size sizes ih =>
    rw [List.sum_cons] at total
    have rest : sizes.sum = (bytes.drop size).length := by
      rw [List.length_drop]
      omega
    have first : (bytes.take size).length = size := by
      rw [List.length_take]
      omega
    rw [cut, List.map_cons, ih rest, first]

theorem cutAppend {β : Type} (piece bytes : List β) (sizes : List Nat) :
    cut (piece.length :: sizes) (piece ++ bytes) = piece :: cut sizes bytes := by
  simp [cut]

theorem sentLength (messages : List (List α)) :
    (sent mask stream iv messages).length = (messages.map List.length).sum := by
  simp [sent, List.length_flatMap]

theorem receivedCons (m : List α) (messages : List (List α)) (sizes : List Nat) :
    received mask stream iv (cut (m.length :: sizes) (sent mask stream iv (m :: messages))) =
      m ++ received mask stream iv (cut sizes (sent mask stream iv messages)) := by
  have length : m.length = (encrypt mask stream iv m).length := (encryptLength ..).symm
  rw [sent, List.flatMap_cons, length, cutAppend, received, List.flatMap_cons, decryptEncrypt]
  rfl

/- Starting over at the same places loses nothing. -/
theorem receivedSent (messages : List (List α)) :
    received mask stream iv (cut (messages.map List.length) (sent mask stream iv messages)) =
      messages.flatten := by
  induction messages with
  | nil => rfl
  | cons m rest ih => rw [List.map_cons, receivedCons, ih, List.flatten_cons]

theorem sentNonempty (messages : List (List α)) :
    sent mask stream iv (messages.filter (· ≠ [])) = sent mask stream iv messages := by
  induction messages with
  | nil => rfl
  | cons m rest ih =>
    cases m with
    | nil => simpa [sent, encrypt] using ih
    | cons p tail => simpa [sent] using ih

/-! Starting over anywhere else loses a symbol under some keystream. -/

variable {mask stream iv}

/- The receiver starts over inside a message. -/
theorem restartedEarly {a b tail rest : List α} {x : α} {size : Nat} {sizes : List Nat}
    (differ : stream (after iv (encrypt mask stream iv a)) ≠ stream iv) :
    received mask stream iv (cut (a.length :: (size+1) :: sizes)
      (encrypt mask stream iv (a ++ x :: b) ++ tail)) ≠ a ++ x :: rest := by
  intro same
  have length : a.length = (encrypt mask stream iv a).length := (encryptLength ..).symm
  rw [encryptAppend, List.append_assoc, length, cutAppend, encrypt, List.cons_append, cut,
    List.take_succ_cons, received, List.flatMap_cons, List.flatMap_cons, decryptEncrypt, decrypt] at same
  have heads := List.append_cancel_left same
  rw [List.cons_append] at heads
  exact unmaskedWrong mask stream differ (List.cons.inj heads).1

/- The receiver goes on where the next message starts. -/
theorem restartedLate {a b tail rest : List α} {x : α} {size : Nat} {sizes : List Nat}
    (differ : stream iv ≠ stream (after iv (encrypt mask stream iv a))) :
    received mask stream iv (cut ((a.length + (size+1)) :: sizes)
      (encrypt mask stream iv a ++ (encrypt mask stream iv (x :: b) ++ tail))) ≠ a ++ x :: rest := by
  intro same
  have length : a.length = (encrypt mask stream iv a).length := (encryptLength ..).symm
  rw [length, cut, List.take_length_add_append, encrypt, List.cons_append, List.take_succ_cons, received,
    List.flatMap_cons, decryptAppend, decryptEncrypt, decrypt, List.append_assoc] at same
  have heads := List.append_cancel_left same
  rw [List.cons_append] at heads
  exact unmaskedWrong mask stream differ (List.cons.inj heads).1

/- Each symbol has two ways of being masked that both miss a given symbol. -/
def Spreads (mask : Mask α) : Prop :=
  ∀ x v, ∃ k l, k ≠ l ∧ mask.mix x k ≠ v ∧ mask.mix x l ≠ v

theorem tellsApart [DecidableEq α] (spreads : Spreads mask) {iv a : List α} {v : α}
    (last : iv.getLast? = some v) (nonempty : a ≠ []) :
    ∃ stream : List α → α, stream iv ≠ stream (after iv (encrypt mask stream iv a)) := by
  obtain ⟨front, y, rfl⟩ := List.eq_nil_or_concat a |>.resolve_left nonempty
  obtain ⟨k, l, apart, missK, missL⟩ := spreads y v
  let stream : List α → α := fun register => if register = iv then k else l
  have misses (register : List α) : mask.mix y (stream register) ≠ v := by
    simp only [stream]
    split
    · exact missK
    · exact missL
  have moved : after iv (encrypt mask stream iv (front ++ [y])) ≠ iv := by
    intro back
    have ends := afterLast iv (encrypt mask stream iv front)
      (mask.mix y (stream (after iv (encrypt mask stream iv front))))
    rw [encryptAppend] at back
    simp only [encrypt] at back
    rw [back, last] at ends
    exact misses _ (Option.some.inj ends).symm
  refine ⟨stream, ?_⟩
  simp only [stream, ite_true, List.concat_eq_append, if_neg moved]
  exact apart

theorem earlyCut [DecidableEq α] (spreads : Spreads mask) {iv : List α} {v : α}
    (last : iv.getLast? = some v) {m : List α} {size next : Nat} (positive : 0 < size) (early : size < m.length)
    (more : 0 < next) (messages : List (List α)) (sizes : List Nat) :
    ∃ stream, received mask stream iv (cut (size :: next :: sizes) (sent mask stream iv (m :: messages))) ≠
      (m :: messages).flatten := by
  obtain ⟨next, rfl⟩ : ∃ k, next = k+1 := ⟨next-1, by omega⟩
  obtain ⟨x, b, tail⟩ := List.exists_cons_of_ne_nil (l := m.drop size) (by simp; omega)
  have whole : m = m.take size ++ x :: b := by rw [← tail, List.take_append_drop]
  have length : (m.take size).length = size := by simp; omega
  generalize m.take size = a at whole length
  subst whole
  obtain ⟨stream, differ⟩ := tellsApart spreads last (show a ≠ [] by
    intro none
    simp [none] at length
    omega)
  refine ⟨stream, ?_⟩
  rw [← length, sent, List.flatMap_cons, List.flatten_cons, List.append_assoc, List.cons_append]
  exact restartedEarly differ.symm

theorem lateCut [DecidableEq α] (spreads : Spreads mask) {iv : List α} {v : α}
    (last : iv.getLast? = some v) {m next : List α} {size : Nat} (nonempty : m ≠ []) (late : m.length < size)
    (more : next ≠ []) (messages : List (List α)) (sizes : List Nat) :
    ∃ stream, received mask stream iv (cut (size :: sizes) (sent mask stream iv (m :: next :: messages))) ≠
      (m :: next :: messages).flatten := by
  obtain ⟨x, b, rfl⟩ := List.exists_cons_of_ne_nil more
  obtain ⟨size, rfl⟩ : ∃ k, size = m.length + (k+1) := ⟨size - m.length - 1, by omega⟩
  obtain ⟨stream, differ⟩ := tellsApart spreads last nonempty
  refine ⟨stream, ?_⟩
  rw [sent, List.flatMap_cons, List.flatMap_cons, List.flatten_cons, List.flatten_cons, List.cons_append]
  exact restartedLate differ

/- Whoever recovers the messages under every keystream starts over exactly where they start. -/
theorem receivedOnly [DecidableEq α] (spreads : Spreads mask) {iv : List α} {v : α}
    (last : iv.getLast? = some v) {messages : List (List α)} {sizes : List Nat}
    (nonempty : ∀ m ∈ messages, m ≠ []) (positive : ∀ size ∈ sizes, 0 < size)
    (total : sizes.sum = (messages.map List.length).sum)
    (recovers : ∀ stream, received mask stream iv (cut sizes (sent mask stream iv messages)) =
      messages.flatten) : sizes = messages.map List.length := by
  induction messages generalizing sizes with
  | nil =>
    cases sizes with
    | nil => rfl
    | cons size sizes =>
      have more := positive size (by simp)
      simp only [List.sum_cons, List.map_nil, List.sum_nil] at total
      omega
  | cons m messages ih =>
    have full := List.length_pos_iff.mpr (nonempty m (by simp))
    cases sizes with
    | nil =>
      simp only [List.map_cons, List.sum_cons, List.sum_nil] at total
      omega
    | cons size sizes =>
      have first := positive size (by simp)
      simp only [List.map_cons, List.sum_cons] at total
      rcases Nat.lt_trichotomy size m.length with early | same | late
      · cases sizes with
        | nil =>
          simp only [List.sum_nil] at total
          omega
        | cons next sizes =>
          obtain ⟨stream, wrong⟩ :=
            earlyCut spreads last first early (positive next (by simp)) messages sizes
          exact absurd (recovers stream) wrong
      · subst same
        have tail (stream : List α → α) :
            received mask stream iv (cut sizes (sent mask stream iv messages)) = messages.flatten := by
          have equal := recovers stream
          rw [receivedCons, List.flatten_cons] at equal
          exact List.append_cancel_left equal
        have rest : sizes = messages.map List.length :=
          ih (fun n mem => nonempty n (by simp [mem])) (fun n mem => positive n (by simp [mem])) (by omega) tail
        rw [rest, List.map_cons]
      · cases messages with
        | nil =>
          simp only [List.map_nil, List.sum_nil] at total
          omega
        | cons next messages =>
          obtain ⟨stream, wrong⟩ :=
            lateCut spreads last (nonempty m (by simp)) late (nonempty next (by simp)) messages sizes
          exact absurd (recovers stream) wrong

end Mcpp.ShiftCipher
