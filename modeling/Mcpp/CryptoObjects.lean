import Mcpp.Custody
import Mcpp.RSAKeyPair
import Mcpp.Run

/-! The objects of OpenSSL and the buffers behind the encryption of the server, over calls in
any order and whatever they are answered: what is held, what callers were given, and what
is lost where a call returns early. -/
namespace Mcpp.CryptoObjects
open Buffers Run Custody Allocation RSAKeyPair

def EVP_MAX_BLOCK_LENGTH : Int := 32

/- What DecryptPacket and EncryptPacket return. A negative length is thrown by new[]. -/
inductive Text where
  | thrown
  | null
  | buffer (b : Nat)
  deriving DecidableEq, Repr

/- Both directions: a context, a buffer that new[] may refuse, and the update. -/
def update (refused fails : Prop) [Decidable refused] [Decidable fails] : Program Text := do
  let ctx ← allocate
  if refused then
    return .thrown
  let text ← allocate
  if fails then
    free ctx
    return .null
  free ctx
  return .buffer text

def decryptPacket (length : BitVec 32) (result : Int) : Program Text := update (length.toInt < 0) (result ≤ 0)

/- An update that fails without an error in the queue goes on. -/
def encryptPacket (length : BitVec 32) (result : Int) (error : Nat) : Program Text :=
  update (length.toInt + EVP_MAX_BLOCK_LENGTH < 0) (result ≤ 0 ∧ error ≠ 0)

/- SAuthHash: what Finalise makes, and the context from its constructor to its destructor. -/
def finalise : Program Unit := do
  let bn ← allocate
  let hex ← allocate
  free hex
  free bn

def generateHexDigest : Program Unit := do
  let m_pCtx ← allocate
  finalise
  free m_pCtx

structure State (lib : OpenSSL) where
  pairs : AList (fun _ : Nat => CRSAKeyPair lib) := ∅
  heap : Heap := {}
  -- What was returned to callers that have not deleted it.
  texts : List Nat := []

inductive Event (lib : OpenSSL) where
  | construct (id : Nat)
  | initialise (id : Nat) (answers : Generation lib)
  | encrypt (id : Nat) (answers : Encryption) (input : Bytes)
  | decrypt (id : Nat) (answers : Decryption) (input : Bytes)
  | destroy (id : Nat)
  | decryptPacket (length : BitVec 32) (result : Int)
  | encryptPacket (length : BitVec 32) (result : Int) (error : Nat)
  | deleteText (b : Nat)
  | generateHexDigest

variable {lib : OpenSSL}

def Text.handed : Text → List Nat
  | .buffer b => [b]
  | _ => []

def State.hand (s : State lib) (result : Text × Heap) : State lib :=
  { s with texts := result.1.handed ++ s.texts, heap := result.2 }

/- The length of what is encrypted with EVP_MAX_BLOCK_LENGTH on top is an int. -/
def step : Event lib → State lib → Except Unit (State lib)
  | .construct id, s => allow (id ∉ s.pairs) { s with pairs := s.pairs.insert id {} }
  | .initialise id answers, s => onEntry id s.pairs fun o =>
    let result := (RSAKeyPair.initialise answers o).run s.heap
    .ok { s with pairs := modify id (fun _ => result.1.2) s.pairs, heap := result.2 }
  | .encrypt id answers input, s => onEntry id s.pairs fun o =>
    .ok { s with heap := ((RSAKeyPair.encrypt answers o input).run s.heap).2 }
  | .decrypt id answers input, s => onEntry id s.pairs fun o =>
    .ok { s with heap := ((RSAKeyPair.decrypt answers o input).run s.heap).2 }
  | .destroy id, s => onEntry id s.pairs fun o =>
    .ok { s with pairs := s.pairs.erase id, heap := ((RSAKeyPair.destroy o).run s.heap).2 }
  | .decryptPacket length result, s => .ok (s.hand ((CryptoObjects.decryptPacket length result).run s.heap))
  | .encryptPacket length result error, s =>
    allow (length.toInt + EVP_MAX_BLOCK_LENGTH ≤ 2147483647) (s.hand ((CryptoObjects.encryptPacket length result error).run s.heap))
  | .deleteText b, s => allow (b ∈ s.texts) { s with texts := s.texts.erase b, heap := ((free b).run s.heap).2 }
  | .generateHexDigest, s => .ok { s with heap := (CryptoObjects.generateHexDigest.run s.heap).2 }

/-! What a call loses. -/

/- Initialise has its number, its context and its buffer when it throws. -/
def Throws (answers : Generation lib) : Prop := answers.Generates ∧ answers.encodes = false

instance (answers : Generation lib) : Decidable (Throws answers) := by
  unfold Throws
  infer_instance

def LosesCypherText (answers : Encryption) (input : Bytes) (o : CRSAKeyPair lib) : Prop :=
  answers.Reaches ∧ o.encrypted answers input = none

instance (answers : Encryption) (input : Bytes) (o : CRSAKeyPair lib) : Decidable (LosesCypherText answers input o) := by
  unfold LosesCypherText
  infer_instance

def lost : Event lib → State lib → Nat
  | .initialise _ answers, _ => if Throws answers then 3 else 0
  | .encrypt id answers input, s =>
    match s.pairs.lookup id with
    | none => 0
    | some o => if LosesCypherText answers input o then 1 else 0
  | .decryptPacket length result, _ => if length.toInt < 0 ∨ result ≤ 0 then 1 else 0
  | .encryptPacket length result error, _ => if length.toInt + EVP_MAX_BLOCK_LENGTH < 0 ∨ result ≤ 0 ∧ error ≠ 0 then 1 else 0
  | _, _ => 0

/- Every object made is live or freed, once; the live ones are the keys, what callers
have, and n that nothing holds. -/
structure Accounted (s : State lib) (n : Nat) : Prop where
  sound : Sound s.heap
  lost : ∃ lost : Multiset Nat, lost.card = n ∧ s.heap.live = ↑(held CRSAKeyPair.object s.pairs) + ↑s.texts + lost

/-! What each call keeps. -/

inductive Handed (loses : Prop) : Text → Multiset Nat → Prop where
  | lost {text : Text} {b : Nat} (yes : loses) (none : text.handed = []) : Handed loses text {b}
  | given {b : Nat} (no : ¬ loses) : Handed loses (.buffer b) {b}

theorem updateTriple (refused fails : Prop) [Decidable refused] [Decidable fails] :
    Triple 0 (update refused fails) (Handed (refused ∨ fails)) := by
  unfold update
  refine allocateThen fun ctx => ?_
  split
  · rename_i refused
    exact tripleReturn (.lost (.inl refused) rfl)
  rename_i taken
  refine allocateThen fun text => ?_
  split
  · rename_i fails
    exact freeThen (tripleReturn (.lost (.inr fails) rfl)) (Multiset.cons_swap _ _ _)
  · rename_i done
    exact freeThen (tripleReturn (.given (not_or.mpr ⟨taken, done⟩))) (Multiset.cons_swap _ _ _)

theorem finaliseTriple : Triple 0 finalise fun _ kept => kept = 0 :=
  allocateThen fun bn => allocateThen fun _ => freeThen (tripleFree bn) rfl

theorem generateHexDigestTriple : Triple 0 generateHexDigest fun _ kept => kept = 0 := by
  refine allocateThen fun m_pCtx => ?_
  refine frameThen finaliseTriple ?_ (zero_add _).symm
  rintro _ _ rfl
  rw [zero_add]
  exact tripleFree m_pCtx

variable {s t : State lib} {e : Event lib} {n : Nat}

/- Behind a call that loses nothing and changes no pair. -/
theorem quietAccounted {α : Type} {p : Program α} (acc : Accounted s n) (triple : Triple 0 p fun _ kept => kept = 0) :
    Accounted { s with heap := (p.run s.heap).2 } n := by
  obtain ⟨sound, gone, card, live⟩ := acc
  obtain ⟨sound, _, rfl, live⟩ := triple s.heap _ sound (live.trans (zero_add _).symm)
  exact ⟨sound, gone, card, live.trans (zero_add _)⟩

theorem handAccounted {p : Program Text} {loses : Prop} [Decidable loses] (acc : Accounted s n)
    (triple : Triple 0 p (Handed loses)) : Accounted (s.hand (p.run s.heap)) (n + if loses then 1 else 0) := by
  obtain ⟨sound, gone, card, live⟩ := acc
  obtain ⟨sound, kept, handed, live⟩ := triple s.heap _ sound (live.trans (zero_add _).symm)
  refine ⟨sound, ?_⟩
  unfold State.hand
  generalize p.run s.heap = result at handed live
  obtain ⟨text, heap⟩ := result
  cases handed with
  | @lost _ b yes none =>
    refine ⟨b ::ₘ gone, by rw [Multiset.card_cons, card, if_pos yes], ?_⟩
    refine live.trans ?_
    simp only [none, List.nil_append, Multiset.singleton_add, Multiset.add_cons]
  | @given b no =>
    refine ⟨gone, by rw [card, if_neg no, Nat.add_zero], ?_⟩
    refine live.trans ?_
    simp only [Text.handed, List.singleton_append, ← Multiset.cons_coe, Multiset.singleton_add, Multiset.add_cons,
      Multiset.cons_add]

/- The key of a pair apart from what else is live. -/
theorem liveSplit {id : Nat} {o : CRSAKeyPair lib} (found : s.pairs.lookup id = some o) {gone : Multiset Nat}
    (live : s.heap.live = ↑(held CRSAKeyPair.object s.pairs) + ↑s.texts + gone) :
    s.heap.live = owned o.object + (↑(held CRSAKeyPair.object (s.pairs.erase id)) + ↑s.texts + gone) := by
  have whole : (↑(held CRSAKeyPair.object s.pairs) : Multiset Nat) = _ := Multiset.coe_eq_coe.mpr (heldSplit found)
  rw [live, whole, ← Multiset.coe_add, add_assoc, add_assoc, add_assoc]
  rfl

theorem initialiseAccounted {id : Nat} {o : CRSAKeyPair lib} (found : s.pairs.lookup id = some o)
    (answers : Generation lib) (acc : Accounted s n) :
    Accounted { s with
      pairs := modify id (fun _ => ((initialise answers o).run s.heap).1.2) s.pairs
      heap := ((initialise answers o).run s.heap).2 } (n + if Throws answers then 3 else 0) := by
  obtain ⟨sound, gone, card, live⟩ := acc
  obtain ⟨sound, kept, initialised, live⟩ := initialiseTriple answers o s.heap _ sound (liveSplit found live)
  refine ⟨sound, ?_⟩
  generalize (initialise answers o).run s.heap = result at initialised live
  obtain ⟨result, heap⟩ := result
  simp only [heldReplaced found, ← Multiset.coe_add]
  cases initialised with
  | failed not =>
    have quiet : ¬ Throws answers := fun throws => not throws.1
    refine ⟨gone, by rw [card, if_neg quiet, Nat.add_zero], live.trans ?_⟩
    simp only [owned, add_assoc]
  | @thrown b lost generates fails three =>
    refine ⟨lost + gone, ?_, live.trans ?_⟩
    · rw [Multiset.card_add, three, card, if_pos ⟨generates, fails⟩, Nat.add_comm]
    · simp only [CRSAKeyPair.object, Option.map_some, Option.toList_some, Multiset.coe_singleton, Multiset.singleton_add,
        Multiset.cons_add, Multiset.add_cons, add_comm lost, add_left_comm, add_assoc]
  | @made b generates encodes =>
    have quiet : ¬ Throws answers := fun throws => by simp [throws.2] at encodes
    refine ⟨gone, by rw [card, if_neg quiet, Nat.add_zero], live.trans ?_⟩
    simp only [CRSAKeyPair.object, Option.map_some, Option.toList_some, Multiset.coe_singleton, add_assoc]

theorem encryptAccounted (o : CRSAKeyPair lib) (answers : Encryption) (input : Bytes) (acc : Accounted s n) :
    Accounted { s with heap := ((encrypt answers o input).run s.heap).2 }
      (n + if LosesCypherText answers input o then 1 else 0) := by
  obtain ⟨sound, gone, card, live⟩ := acc
  obtain ⟨sound, kept, encrypted, live⟩ := encryptTriple answers o input s.heap _ sound (live.trans (zero_add _).symm)
  refine ⟨sound, ?_⟩
  generalize (encrypt answers o input).run s.heap = result at encrypted live
  obtain ⟨text, heap⟩ := result
  cases encrypted with
  | failed not =>
    have quiet : ¬ LosesCypherText answers input o := fun loses => not loses.1
    exact ⟨gone, by rw [card, if_neg quiet, Nat.add_zero], live.trans (zero_add _)⟩
  | @lost cypherText reaches fails =>
    refine ⟨cypherText ::ₘ gone, by rw [Multiset.card_cons, card, if_pos ⟨reaches, fails⟩], live.trans ?_⟩
    rw [Multiset.singleton_add, Multiset.add_cons]
  | done reaches made =>
    have quiet : ¬ LosesCypherText answers input o := fun loses => by simp [loses.2] at made
    exact ⟨gone, by rw [card, if_neg quiet, Nat.add_zero], live.trans (zero_add _)⟩

theorem stepAccounted (ok : step e s = .ok t) (acc : Accounted s n) : Accounted t (n + lost e s) := by
  cases e with
  | construct id =>
    obtain ⟨fresh, rfl⟩ := allowOk.mp ok
    obtain ⟨sound, gone, card, live⟩ := acc
    refine ⟨sound, gone, card, ?_⟩
    rw [live, heldAdded fresh]
    rfl
  | initialise id answers =>
    obtain ⟨o, found, ok⟩ := entryOk ok
    cases ok
    exact initialiseAccounted found answers acc
  | encrypt id answers input =>
    obtain ⟨o, found, ok⟩ := entryOk ok
    cases ok
    simp only [lost, found]
    exact encryptAccounted o answers input acc
  | decrypt id answers input =>
    obtain ⟨o, found, ok⟩ := entryOk ok
    cases ok
    exact quietAccounted acc (tripleWeaken (decryptTriple answers o input) fun _ _ both => both.2)
  | destroy id =>
    obtain ⟨o, found, ok⟩ := entryOk ok
    cases ok
    obtain ⟨sound, gone, card, live⟩ := acc
    obtain ⟨sound, _, rfl, live⟩ := destroyTriple o s.heap _ sound (liveSplit found live)
    exact ⟨sound, gone, card, live.trans (zero_add _)⟩
  | decryptPacket length result =>
    cases ok
    exact handAccounted acc (updateTriple _ _)
  | encryptPacket length result error =>
    obtain ⟨_, rfl⟩ := allowOk.mp ok
    exact handAccounted acc (updateTriple _ _)
  | deleteText b =>
    obtain ⟨mem, rfl⟩ := allowOk.mp ok
    obtain ⟨sound, gone, card, live⟩ := acc
    have split : s.heap.live = {b} + (↑(held CRSAKeyPair.object s.pairs) + ↑(s.texts.erase b) + gone) := by
      rw [live, ← Multiset.coe_erase, Multiset.singleton_add, ← Multiset.cons_add, ← Multiset.add_cons,
        Multiset.cons_erase (Multiset.mem_coe.mpr mem)]
    obtain ⟨sound, _, rfl, live⟩ := tripleFree b s.heap _ sound split
    exact ⟨sound, gone, card, live.trans (zero_add _)⟩
  | generateHexDigest =>
    cases ok
    exact quietAccounted acc generateHexDigestTriple

theorem runAccounted {events : List (Event lib)} (path : Path step {} events s) :
    Accounted s (total step lost events {}) := by
  induction path with
  | start => exact ⟨soundStart, 0, rfl, rfl⟩
  | next before ok ih =>
    rw [totalSnoc before]
    exact stepAccounted ok ih

structure ObjectsAccounted (s : State lib) (n : Nat) : Prop extends Accounted s n where
  apart : (held CRSAKeyPair.object s.pairs ++ s.texts).Nodup
  drained : (∀ id, id ∉ s.pairs) → s.texts = [] → s.heap.live.card = n

theorem objectsAccounted {events : List (Event lib)} (path : Path step {} events s) :
    ObjectsAccounted s (total step lost events {}) := by
  have acc := runAccounted path
  obtain ⟨gone, card, live⟩ := acc.lost
  refine ⟨acc, ?_, ?_⟩
  · have once := (Multiset.nodup_add.mp (soundOnce acc.sound)).1
    rw [live] at once
    exact Multiset.coe_nodup.mp (Multiset.nodup_add.mp once).1
  · intro none returned
    have empty : held CRSAKeyPair.object s.pairs = [] := by
      refine List.eq_nil_iff_forall_not_mem.mpr ?_
      intro b mem
      obtain ⟨id, o, found, _⟩ := memHeld.mp mem
      exact none id (lookupMem found)
    rw [live, empty, returned, Multiset.coe_nil, zero_add, zero_add, card]

/- Text under a byte, and the key in front of its bytes. -/
def bytewise : OpenSSL where
  Key := UInt8
  PublicKey := UInt8
  publicKey key := key
  i2d_PUBKEY key := [48, key]
  d2i_PUBKEY der := if der.head? = some 48 then der[1]? else none
  encrypt key _ text := (text.map (· ^^^ key)).take 128
  decrypt key text := some (text.map (· ^^^ key))
  reads _ := rfl
  empty := rfl
  fits _ _ _ := by simp
  undoes key padding text short := by
    rw [List.take_of_length_le (by rw [List.length_map]; omega), List.map_map]
    have undone : (fun c : UInt8 => c ^^^ key) ∘ (fun c => c ^^^ key) = id := by
      funext c
      rw [Function.comp_apply, UInt8.xor_assoc, UInt8.xor_self, UInt8.xor_zero, id]
    rw [undone, List.map_id]

def generation (key : UInt8) (encodes : Bool) : Generation bytewise := ⟨1, true, 1, 1, 1, 1, key, encodes⟩

/- A text is encrypted up to the last call, and a packet is decrypted. -/
def calls : List (Event bytewise) :=
  [.construct 0, .initialise 0 (generation 7 true), .encrypt 0 ⟨⟨true, 1, 0⟩, 1, []⟩ [1], .decryptPacket 4 1, .deleteText 7,
    .destroy 0]

theorem objectsAccountedOnce : ∃ s, Path step {} calls s ∧ ObjectsAccounted s 1 := by
  have path : Path step {} calls _ := pathRun rfl
  exact ⟨_, path, objectsAccounted path⟩

end Mcpp.CryptoObjects
