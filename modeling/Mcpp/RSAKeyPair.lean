import Mcpp.Allocation
import Mcpp.Packets

/-! CRSAKeyPair over the objects of OpenSSL. Each method is a program that takes what the
calls of OpenSSL answer, in their order, and gives back its objects on the paths the source
gives them back on. Allocations that the source takes to succeed do. -/
namespace Mcpp.RSAKeyPair
open Buffers Allocation

/- RSA as the key pair uses it: 1024 bits, PKCS #1 padding. -/
structure OpenSSL where
  Key : Type
  PublicKey : Type
  publicKey : Key → PublicKey
  i2d_PUBKEY : PublicKey → Bytes
  d2i_PUBKEY : Bytes → Option PublicKey
  encrypt : PublicKey → Bytes → Bytes → Bytes
  decrypt : Key → Bytes → Option Bytes
  reads : ∀ key, d2i_PUBKEY (i2d_PUBKEY key) = some key
  empty : d2i_PUBKEY [] = none
  fits : ∀ key padding text, (encrypt key padding text).length ≤ 128
  undoes : ∀ key padding text, text.length ≤ 117 → decrypt key (encrypt (publicKey key) padding text) = some text

structure EVP_PKEY (lib : OpenSSL) where
  object : Nat
  key : lib.Key

structure CRSAKeyPair (lib : OpenSSL) where
  pKey : Option (EVP_PKEY lib) := none
  asnDerPublicKey : Bytes := []

/- What Initialise is answered. Without `encodes` the length of i2d_PUBKEY is negative. -/
structure Generation (lib : OpenSSL) where
  setWord : Int
  context : Bool
  keygenInit : Int
  keygenBits : Int
  keygenPubexp : Int
  keygen : Int
  key : lib.Key
  encodes : Bool

structure Decryption where
  context : Bool
  init : Int
  result : Int

structure Encryption extends Decryption where
  measure : Int
  padding : Bytes

variable {lib : OpenSSL}

def CRSAKeyPair.object (o : CRSAKeyPair lib) : Option Nat := o.pKey.map EVP_PKEY.object

/- EVP_PKEY_keygen makes an object where m_pKey is null, and otherwise writes to the one that is there. -/
def CRSAKeyPair.keyObject (o : CRSAKeyPair lib) : Program Nat :=
  match o.pKey with
  | none => allocate
  | some p => pure p.object

/- There is no result where Initialise throws: std::string takes no negative length. -/
def initialise (a : Generation lib) (o : CRSAKeyPair lib) : Program (Option Bool × CRSAKeyPair lib) := do
  let bne ← allocate
  if a.setWord ≠ 1 then
    free bne
    return (some false, o)
  if a.context = false then
    free bne
    return (some false, o)
  let ctx ← allocate
  if a.keygenInit ≤ 0 ∨ a.keygenBits ≤ 0 ∨ a.keygenPubexp ≤ 0 then
    free bne
    free ctx
    return (some false, o)
  if a.keygen ≤ 0 then
    free bne
    free ctx
    return (some false, o)
  let pKey ← o.keyObject
  let o := { o with pKey := some ⟨pKey, a.key⟩ }
  let derBuffer ← allocate
  if a.encodes = false then
    return (none, o)
  let o := { o with asnDerPublicKey := lib.i2d_PUBKEY (lib.publicKey a.key) }
  free bne
  free ctx
  free derBuffer
  return (some true, o)

/- Without a key the call fails. -/
def CRSAKeyPair.encrypted (a : Encryption) (o : CRSAKeyPair lib) (input : Bytes) : Option Bytes :=
  if a.result ≤ 0 then none else o.pKey.map fun p => lib.encrypt (lib.publicKey p.key) a.padding input

def CRSAKeyPair.decrypted (a : Decryption) (o : CRSAKeyPair lib) (input : Bytes) : Option Bytes :=
  if a.result ≤ 0 then none else o.pKey.bind fun p => lib.decrypt p.key input

def encrypt (a : Encryption) (o : CRSAKeyPair lib) (input : Bytes) : Program Bytes := do
  if a.context = false then
    return []
  let ctx ← allocate
  if a.init ≤ 0 then
    free ctx
    return []
  if a.measure ≤ 0 then
    free ctx
    return []
  let cypherText ← allocate
  match o.encrypted a input with
  | none =>
    free ctx
    return []
  | some finalString =>
    free ctx
    free cypherText
    return finalString

def decrypt (a : Decryption) (o : CRSAKeyPair lib) (input : Bytes) : Program Bytes := do
  if a.context = false then
    return []
  let ctx ← allocate
  if a.init ≤ 0 then
    free ctx
    return []
  match o.decrypted a input with
  | none =>
    free ctx
    return []
  | some decryptedBuffer =>
    free ctx
    return decryptedBuffer

def destroy (o : CRSAKeyPair lib) : Program Unit := freeSome o.object

/-! What each method returns, and what it owns behind it. -/

def Generation.Generates (a : Generation lib) : Prop :=
  a.setWord = 1 ∧ a.context = true ∧ 0 < a.keygenInit ∧ 0 < a.keygenBits ∧ 0 < a.keygenPubexp ∧ 0 < a.keygen

instance (a : Generation lib) : Decidable a.Generates := by
  unfold Generation.Generates
  infer_instance

/- The call that encrypts is made. -/
def Encryption.Reaches (a : Encryption) : Prop := a.context = true ∧ 0 < a.init ∧ 0 < a.measure

instance (a : Encryption) : Decidable a.Reaches := by
  unfold Encryption.Reaches
  infer_instance

inductive Initialised (a : Generation lib) (o : CRSAKeyPair lib) : Option Bool × CRSAKeyPair lib → Multiset Nat → Prop where
  | failed (not : ¬ a.Generates) : Initialised a o (some false, o) (owned o.object)
  | thrown {b : Nat} {lost : Multiset Nat} (generates : a.Generates) (fails : a.encodes = false) (three : lost.card = 3) :
      Initialised a o (none, { o with pKey := some ⟨b, a.key⟩ }) (b ::ₘ lost)
  | made {b : Nat} (generates : a.Generates) (encodes : a.encodes = true) :
      Initialised a o (some true, ⟨some ⟨b, a.key⟩, lib.i2d_PUBKEY (lib.publicKey a.key)⟩) {b}

inductive Encrypted (a : Encryption) (o : CRSAKeyPair lib) (input : Bytes) : Bytes → Multiset Nat → Prop where
  | failed (not : ¬ a.Reaches) : Encrypted a o input [] 0
  | lost {cypherText : Nat} (reaches : a.Reaches) (fails : o.encrypted a input = none) : Encrypted a o input [] {cypherText}
  | done {text : Bytes} (reaches : a.Reaches) (made : o.encrypted a input = some text) : Encrypted a o input text 0

def Decrypted (a : Decryption) (o : CRSAKeyPair lib) (input text : Bytes) : Prop :=
  text = if a.context = true ∧ 0 < a.init then (o.decrypted a input).getD [] else []

theorem keyObjectTriple (o : CRSAKeyPair lib) : Triple (owned o.object) o.keyObject fun b kept => kept = {b} := by
  unfold CRSAKeyPair.keyObject CRSAKeyPair.object
  cases o.pKey with
  | none => exact tripleAllocate
  | some p => exact tripleReturn rfl

theorem initialiseTriple (a : Generation lib) (o : CRSAKeyPair lib) :
    Triple (owned o.object) (initialise a o) (Initialised a o) := by
  unfold initialise
  refine allocateThen fun bne => ?_
  -- The exits before the key is made free what they hold, and the pair is as it was.
  have alone (not : ¬ a.Generates) : Triple (bne ::ₘ owned o.object) (do free bne; return (some false, o)) (Initialised a o) :=
    freeThen (tripleReturn (.failed not)) rfl
  have both (not : ¬ a.Generates) (ctx : Nat) :
      Triple (ctx ::ₘ bne ::ₘ owned o.object) (do free bne; free ctx; return (some false, o)) (Initialised a o) :=
    freeThen (freeThen (tripleReturn (.failed not)) rfl) (Multiset.cons_swap _ _ _)
  split
  · rename_i word
    exact alone fun all => word all.1
  rename_i word
  split
  · rename_i context
    exact alone fun all => absurd all.2.1 (by simp [context])
  rename_i context
  refine allocateThen fun ctx => ?_
  split
  · rename_i setup
    refine both (fun all => ?_) ctx
    obtain ⟨_, _, init, bits, pubexp, _⟩ := all
    omega
  rename_i setup
  split
  · rename_i keygen
    refine both (fun all => ?_) ctx
    have made := all.2.2.2.2.2
    omega
  rename_i keygen
  have generates : a.Generates := by
    rw [not_or, not_or] at setup
    exact ⟨not_not.mp word, by simpa using context, by omega, by omega, by omega, by omega⟩
  have apart : ctx ::ₘ bne ::ₘ owned o.object = owned o.object + (ctx ::ₘ bne ::ₘ 0) := by
    simp only [Multiset.add_cons, add_zero]
  refine frameThen (keyObjectTriple o) ?_ apart
  rintro pKey _ rfl
  rw [Multiset.singleton_add]
  refine allocateThen fun derBuffer => ?_
  split
  · rename_i fails
    rw [Multiset.cons_swap]
    exact tripleReturn (.thrown generates fails rfl)
  · rename_i encodes
    have last : Triple (pKey ::ₘ 0) (pure (some true, _)) (Initialised a o) :=
      tripleReturn (.made generates (by simpa using encodes))
    refine freeThen (freeThen (freeThen last rfl) rfl) ?_
    simp only [Multiset.cons_swap]

theorem encryptTriple (a : Encryption) (o : CRSAKeyPair lib) (input : Bytes) :
    Triple 0 (encrypt a o input) (Encrypted a o input) := by
  unfold encrypt
  split
  · rename_i context
    exact tripleReturn (.failed fun all => absurd all.1 (by simp [context]))
  rename_i context
  refine allocateThen fun ctx => ?_
  split
  · rename_i init
    refine freeThen (tripleReturn (.failed fun all => ?_)) rfl
    have begun := all.2.1
    omega
  rename_i init
  split
  · rename_i measure
    refine freeThen (tripleReturn (.failed fun all => ?_)) rfl
    have measured := all.2.2
    omega
  rename_i measure
  have reaches : a.Reaches := ⟨by simpa using context, by omega, by omega⟩
  refine allocateThen fun cypherText => ?_
  split
  · rename_i fails
    exact freeThen (tripleReturn (.lost reaches fails)) (Multiset.cons_swap _ _ _)
  · rename_i text made
    exact freeThen (freeThen (tripleReturn (.done reaches made)) rfl) (Multiset.cons_swap _ _ _)

theorem decryptTriple (a : Decryption) (o : CRSAKeyPair lib) (input : Bytes) :
    Triple 0 (decrypt a o input) fun text kept => Decrypted a o input text ∧ kept = 0 := by
  unfold decrypt Decrypted
  split
  · rename_i context
    exact tripleReturn ⟨by simp [context], rfl⟩
  rename_i context
  refine allocateThen fun ctx => ?_
  split
  · rename_i init
    exact freeThen (tripleReturn ⟨by simp [Int.not_lt.mpr init], rfl⟩) rfl
  rename_i init
  have begun : a.context = true ∧ 0 < a.init := ⟨by simpa using context, by omega⟩
  rw [if_pos begun]
  split
  · rename_i fails
    exact freeThen (tripleReturn ⟨by rw [fails]; rfl, rfl⟩) rfl
  · rename_i text made
    exact freeThen (tripleReturn ⟨by rw [made]; rfl, rfl⟩) rfl

theorem destroyTriple (o : CRSAKeyPair lib) : Triple (owned o.object) (destroy o) fun _ kept => kept = 0 :=
  tripleFreeSome o.object

end Mcpp.RSAKeyPair
