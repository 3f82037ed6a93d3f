import Mcpp.Conversation
import Mcpp.CryptoObjects

/-! The key that a pair advertises and the key it decrypts with, in every run of its calls.
A client that encrypts under the advertised key answers as the login asks; only an
Initialise that throws between its two writes may part the two keys. -/
namespace Mcpp.KeyAgreement
open Buffers Run Custody Allocation RSAKeyPair CryptoObjects

variable {lib : OpenSSL} {s t : State lib} {e : Event lib} {events : List (Event lib)} {id : Nat} {o : CRSAKeyPair lib}

/- What the packets see of a pair where OpenSSL refuses nothing but the text. -/
def interface (o : CRSAKeyPair lib) : Packets.IRSAKeyPair where
  decrypt input := ((decrypt ⟨true, 1, 1⟩ o input).run {}).1
  asnDerKey := o.asnDerPublicKey

def Agrees (o : CRSAKeyPair lib) : Prop :=
  o.asnDerPublicKey = (o.pKey.map fun p => lib.i2d_PUBKEY (lib.publicKey p.key)).getD []

/- m_pKey is set and m_asnDerPublicKey is not. -/
def Parts (id : Nat) : Event lib → State lib → Prop
  | .initialise other answers, _ => other = id ∧ Throws answers
  | _, _ => False

/- Both are set. -/
def Renews (id : Nat) : Event lib → State lib → Prop
  | .construct other, _ => other = id
  | .initialise other answers, _ => other = id ∧ answers.Generates ∧ answers.encodes = true
  | _, _ => False

/- What a client that reads the advertised key may rely on. -/
structure Answers (s : State lib) (o : CRSAKeyPair lib) (advertised : lib.PublicKey) : Prop where
  decrypts : ∀ a : Decryption, a.context = true → 0 < a.init → 0 < a.result → ∀ input,
    ((decrypt a o input).run s.heap).1 = (interface o).decrypt input
  undoes : ∀ padding text, text.length ≤ 117 → (interface o).decrypt (lib.encrypt advertised padding text) = text
  own : ∀ a : Encryption, a.Reaches → 0 < a.result → ∀ text, text.length ≤ 117 →
    (interface o).decrypt ((encrypt a o text).run s.heap).1 = text
  login : ∀ env : MCPlayer.IGlobalEnvironment, env.serverKeyPair = interface o → ∀ token secret padding padding',
    secret.length = 16 → token.length ≤ 117 →
    ∃ answer : Conversation.Answer env token, answer.secret = secret ∧
      answer.sharedSecret = lib.encrypt advertised padding secret ∧
      answer.verifyToken = lib.encrypt advertised padding' token

theorem initialiseAgrees {answers : Generation lib} {result : Option Bool × CRSAKeyPair lib} {kept : Multiset Nat}
    (initialised : Initialised answers o result kept) :
    (Throws answers ∧ result.1 = none) ∨ (answers.Generates ∧ answers.encodes = true ∧ Agrees result.2) ∨
      (¬ answers.Generates ∧ result.2 = o) := by
  cases initialised with
  | failed not => exact .inr (.inr ⟨not, rfl⟩)
  | thrown generates fails three => exact .inl ⟨⟨generates, fails⟩, rfl⟩
  | made generates encodes => exact .inr (.inl ⟨generates, encodes, rfl⟩)

theorem decryptResult {heap : Heap} (sound : Sound heap) (a : Decryption) (input : Bytes) :
    ((decrypt a o input).run heap).1 = if a.context = true ∧ 0 < a.init then (o.decrypted a input).getD [] else [] := by
  obtain ⟨_, kept, both, _⟩ := decryptTriple a o input heap heap.live sound (zero_add _).symm
  exact both.1

/- What a step makes of a pair that is there behind it. -/
inductive Pair (id : Nat) (e : Event lib) (s : State lib) (o : CRSAKeyPair lib) : Prop where
  | parted (parts : Parts id e s)
  | renewed (renews : Renews id e s) (agrees : Agrees o)
  | kept (quiet : ¬ Renews id e s) (before : s.pairs.lookup id = some o)

theorem initialisePair {other : Nat} {answers : Generation lib} {before o : CRSAKeyPair lib} (sound : Sound s.heap)
    (owns : ∃ frame, s.heap.live = owned before.object + frame) (here : s.pairs.lookup other = some before)
    (found : (modify other (fun _ => ((initialise answers before).run s.heap).1.2) s.pairs).lookup id = some o) :
    Pair id (.initialise other answers) s o := by
  by_cases same : id = other
  · subst same
    rw [lookupModify here] at found
    obtain rfl := Option.some.inj found
    obtain ⟨frame, live⟩ := owns
    obtain ⟨_, kept, initialised, _⟩ := initialiseTriple answers before s.heap frame sound live
    rcases initialiseAgrees initialised with ⟨throws, _⟩ | ⟨generates, encodes, agrees⟩ | ⟨not, unchanged⟩
    · exact .parted ⟨rfl, throws⟩
    · exact .renewed ⟨rfl, generates, encodes⟩ agrees
    · rw [unchanged]
      exact .kept (fun renews => not renews.2.1) here
  · rw [lookupOther same] at found
    exact .kept (fun renews => same renews.1.symm) found

theorem stepPair {n : Nat} (acc : Accounted s n) (ok : step e s = .ok t) (found : t.pairs.lookup id = some o) :
    Pair id e s o := by
  cases e with
  | construct other =>
    obtain ⟨fresh, rfl⟩ := allowOk.mp ok
    by_cases same : id = other
    · subst same
      rw [AList.lookup_insert] at found
      obtain rfl := Option.some.inj found
      exact .renewed rfl rfl
    · rw [AList.lookup_insert_ne same] at found
      exact .kept (fun renews => same renews.symm) found
  | initialise other answers =>
    obtain ⟨before, here, ok⟩ := entryOk ok
    cases ok
    obtain ⟨gone, _, live⟩ := acc.lost
    exact initialisePair acc.sound ⟨_, liveSplit here live⟩ here found
  | destroy other =>
    obtain ⟨before, here, ok⟩ := entryOk ok
    cases ok
    by_cases same : id = other
    · subst same
      rw [AList.lookup_erase] at found
      contradiction
    · rw [AList.lookup_erase_ne same] at found
      exact .kept not_false found
  | encrypt other answers input =>
    obtain ⟨before, here, ok⟩ := entryOk ok
    cases ok
    exact .kept not_false found
  | decrypt other answers input =>
    obtain ⟨before, here, ok⟩ := entryOk ok
    cases ok
    exact .kept not_false found
  | decryptPacket length result =>
    cases ok
    exact .kept not_false found
  | encryptPacket length result error =>
    obtain ⟨_, rfl⟩ := allowOk.mp ok
    exact .kept not_false found
  | deleteText b =>
    obtain ⟨_, rfl⟩ := allowOk.mp ok
    exact .kept not_false found
  | generateHexDigest =>
    cases ok
    exact .kept not_false found

theorem runAgrees (path : Path step {} events s) (kept : ¬ Since step {} (Parts id) (Renews id) events)
    (found : s.pairs.lookup id = some o) : Agrees o := by
  induction path generalizing o with
  | start => simp at found
  | next before ok ih =>
    rw [sinceSnoc before, not_or, not_and, not_not] at kept
    cases stepPair (runAccounted before) ok found with
    | parted parts => exact absurd parts kept.1
    | renewed _ agrees => exact agrees
    | kept quiet here => exact ih (fun since => quiet (kept.2 since)) here

theorem encryptResult {heap : Heap} (sound : Sound heap) {a : Encryption} (reaches : a.Reaches) {p : EVP_PKEY lib}
    (key : o.pKey = some p) (result : 0 < a.result) {input : Bytes} :
    ((encrypt a o input).run heap).1 = lib.encrypt (lib.publicKey p.key) a.padding input := by
  have cipher : o.encrypted a input = some (lib.encrypt (lib.publicKey p.key) a.padding input) := by
    rw [CRSAKeyPair.encrypted, if_neg (by omega), key]
    rfl
  obtain ⟨_, kept, encrypted, _⟩ := encryptTriple a o input heap heap.live sound (zero_add _).symm
  generalize ((encrypt a o input).run heap).1 = text at encrypted
  cases encrypted with
  | failed not => exact absurd reaches not
  | lost _ fails => simp [fails] at cipher
  | done _ made => exact Option.some.inj (made.symm.trans cipher)

theorem interfaceDecrypts (o : CRSAKeyPair lib) (input : Bytes) :
    (interface o).decrypt input = (o.pKey.bind fun p => lib.decrypt p.key input).getD [] := by
  change ((decrypt ⟨true, 1, 1⟩ o input).run {}).1 = _
  rw [decryptResult soundStart, if_pos ⟨rfl, by decide⟩]
  rfl

/- The key of a pair whose advertised key reads. -/
theorem advertisedKey (agrees : Agrees o) {advertised : lib.PublicKey}
    (seen : lib.d2i_PUBKEY o.asnDerPublicKey = some advertised) : ∃ p, o.pKey = some p ∧ lib.publicKey p.key = advertised := by
  rw [agrees] at seen
  cases key : o.pKey with
  | none =>
    rw [key] at seen
    exact absurd seen (by simp [lib.empty])
  | some p =>
    rw [key] at seen
    refine ⟨p, rfl, ?_⟩
    exact Option.some.inj ((lib.reads (lib.publicKey p.key)).symm.trans seen)

theorem advertisedAnswers (path : Path step {} events s) (found : s.pairs.lookup id = some o)
    (kept : ¬ Since step {} (Parts id) (Renews id) events) {advertised : lib.PublicKey}
    (seen : lib.d2i_PUBKEY o.asnDerPublicKey = some advertised) : Answers s o advertised := by
  obtain ⟨p, key, rfl⟩ := advertisedKey (runAgrees path kept found) seen
  have sound := (runAccounted path).sound
  have undoes : ∀ padding text, text.length ≤ 117 →
      (interface o).decrypt (lib.encrypt (lib.publicKey p.key) padding text) = text := by
    intro padding text short
    rw [interfaceDecrypts, key, Option.bind_some, lib.undoes p.key padding text short]
    rfl
  refine ⟨?_, undoes, ?_, ?_⟩
  · intro a context init result input
    rw [decryptResult sound, if_pos ⟨context, init⟩, interfaceDecrypts, CRSAKeyPair.decrypted, if_neg (by omega)]
  · intro a reaches result text short
    rw [encryptResult sound reaches key result]
    exact undoes a.padding text short
  · intro env same token secret padding padding' sized small
    have fits (padding text : Bytes) : (lib.encrypt (lib.publicKey p.key) padding text).length ≤ 32767 :=
      (lib.fits _ padding text).trans (by decide)
    refine ⟨⟨secret, sized, _, _, fits padding secret, fits padding' token, ?_, ?_⟩, rfl, rfl, rfl⟩
    · rw [same]
      exact undoes padding secret (by omega)
    · rw [same]
      exact undoes padding' token small

/- The key pair of CNetwork. -/
def initialised : List (Event bytewise) := [.construct 0, .initialise 0 (generation 7 true)]

theorem advertisedAnswersInitialised : ∃ s : State bytewise, ∃ o, Path step {} initialised s ∧
    s.pairs.lookup 0 = some o ∧ o.asnDerPublicKey = [48, 7] ∧ Answers s o (7 : UInt8) := by
  have path : Path step {} initialised _ := pathRun rfl
  have kept : ¬ Since step {} (Parts 0) (Renews 0) initialised := by
    rintro ⟨before, e, after, u, split, _, parts, _⟩
    have mem : e ∈ initialised := by simp [split]
    simp only [initialised, List.mem_cons, List.not_mem_nil, or_false] at mem
    rcases mem with rfl | rfl
    · exact parts
    · exact absurd parts.2.2 (by decide)
  exact ⟨_, ⟨some ⟨2, (7 : UInt8)⟩, [48, 7]⟩, path, rfl, rfl, advertisedAnswers path rfl kept rfl⟩

end Mcpp.KeyAgreement
