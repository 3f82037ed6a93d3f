import Mcpp.Challenge
import Mcpp.SharedSecret

/-! The key encryption is switched on with. It is whatever the response decrypts to:
a decryption that fails gives the empty string, nothing asks for sixteen bytes, and
OpenSSL takes sixteen from the pointer it is given. -/
namespace Mcpp.EncryptionKey
open Buffers Uuid PacketVisitor Packets SharedSecret Wire ClientConnection MCPlayer Run

variable {env : IGlobalEnvironment} {e : Event} {s t : Session}

/- The string holds what OpenSSL reads for its key and IV, and nothing else. -/
def Usable (secret : CSharedSecret) : Prop := ∀ past, secret.key past = secret.secret

def Keyed (s : Session) : Prop :=
  s.connection.encryptionEnabled = true → ∃ secret, s.connection.secret = some secret ∧ Usable secret

theorem usableLength (secret : CSharedSecret) : Usable secret ↔ secret.secret.length = 16 := by
  constructor
  · intro usable
    rw [← usable fun _ => 0]
    exact sliceLength ..
  · intro sized past
    exact keyExact sized

/- A response that is accepted, and the shared secret it decrypts to. -/
def Installs (env : IGlobalEnvironment) (key : Bytes) : Event → Session → Prop
  | .packet payload past .., s => s.player.state = .login ∧ payload.packetId = 1 ∧
      ∃ response, Decodes env payload past response ∧ response.verifyTokenValue = s.player.verifyToken ∧
        response.sharedSecret = key
  | .completion .., _ => False

theorem installsUnique {key other : Bytes} (left : Installs env key e s) (right : Installs env other e s) :
    key = other := by
  cases e with
  | packet payload past uninitialised random =>
    obtain ⟨_, _, response, decodes, _, rfl⟩ := left
    obtain ⟨_, _, response', decodes', _, rfl⟩ := right
    rw [decodesUnique decodes decodes']
  | completion index body past => exact left.elim

theorem installsAccepts : (∃ key, Installs env key e s) ↔ Challenge.Accepts env e s := by
  cases e with
  | packet payload past uninitialised random =>
    constructor
    · intro installed
      obtain ⟨key, login, id, response, decodes, same, _⟩ := installed
      exact ⟨login, id, response, decodes, same⟩
    · intro accepted
      obtain ⟨login, id, response, decodes, same⟩ := accepted
      exact ⟨_, login, id, response, decodes, same, rfl⟩
  | completion index body past => exact ⟨fun installed => installed.choose_spec, False.elim⟩

/- What a step does to the connection. -/
inductive Switches (env : IGlobalEnvironment) (e : Event) (s t : Session) : Prop where
  | kept (same : t.connection = s.connection) (uninstalled : ∀ key, ¬ Installs env key e s)
  | installed (key : Bytes) (installs : Installs env key e s)
      (connection : t.connection = { encryptionEnabled := true, secret := some ⟨key⟩ })

theorem stepSwitches (ok : step env e s = .ok t) : Switches env e s t := by
  cases stepEffect ok with
  | @idle payload past uninitialised random _ others =>
    refine .kept rfl ?_
    intro key installs
    obtain ⟨login, id, _⟩ := installs
    exact (others login).2.1 id
  | entered greeting next => exact .kept rfl (by simp [Installs, greeting])
  | answered status kind => exact .kept rfl (by simp [Installs, status])
  | requested start login id online drawn token serialized => exact .kept rfl (by simp [Installs, id])
  | offline start login id offline serialized => exact .kept rfl (by simp [Installs, id])
  | @mismatched payload past uninitialised random _ response login id decodes differ =>
    refine .kept rfl ?_
    intro key installs
    obtain ⟨_, _, response', decodes', same, _⟩ := installs
    obtain rfl := decodesUnique decodes decodes'
    exact differ same
  | accepted login id decodes same => exact .installed _ ⟨login, id, _, decodes, same, rfl⟩ rfl
  | acknowledged login id => exact .kept rfl (by simp [Installs, id])
  | absent none => exact .kept rfl (fun _ => not_false)
  | joined some serialized => exact .kept rfl (fun _ => not_false)

/- An accepted response decrypts to a key of sixteen bytes. -/
def Fitting (env : IGlobalEnvironment) (e : Event) (s : Session) : Prop :=
  ∀ key, Installs env key e s → key.length = 16

theorem stepKeyed (ok : step env e s = .ok t) (keyed : Keyed s) :
    Keyed t ↔ Fitting env e s := by
  cases stepSwitches ok with
  | kept same uninstalled =>
    unfold Keyed at keyed ⊢
    rw [same]
    exact iff_of_true keyed (fun key installs => absurd installs (uninstalled key))
  | installed key installs connection =>
    have here : Keyed t ↔ Usable ⟨key⟩ := by simp [Keyed, connection]
    rw [here, usableLength]
    constructor
    · intro sized other installs'
      rw [← installsUnique installs installs']
      exact sized
    · intro fitting
      exact fitting key installs

theorem keyedExactly {env : IGlobalEnvironment} {uninitialised : CUUID} {events : List Event} {last : Session}
    (path : Path (step env) (.fresh uninitialised) events last) :
    Throughout (step env) (.fresh uninitialised) Keyed events ↔
      Always (step env) (.fresh uninitialised) (fun _ e s => Fitting env e s) events := by
  have start : Keyed (.fresh uninitialised) := by
    intro enabled
    contradiction
  refine throughoutExactly start ?_ path
  intro before e s t _ ok keyed
  exact stepKeyed ok keyed

/- A response with a secret of sixteen bytes and the token, which nothing has drawn yet. -/
def sixteenBytes : Event := arrival ([19, 1, 16] ++ List.replicate 16 7 ++ [0]) 1

theorem keyedSixteen : ∃ last,
    Path (step (askingServer id)) (.fresh (.ofWords 0 0)) [greeting, sixteenBytes] last ∧
    Throughout (step (askingServer id)) (.fresh (.ofWords 0 0)) Keyed [greeting, sixteenBytes] := by
  have greeted : Path (step (askingServer id)) (.fresh (.ofWords 0 0)) ([] ++ [greeting]) _ := .next .start rfl
  have answered : Path (step (askingServer id)) (.fresh (.ofWords 0 0)) ([greeting] ++ [sixteenBytes]) _ :=
    .next greeted rfl
  refine ⟨_, answered, (keyedExactly answered).mpr ?_⟩
  refine (alwaysSnoc greeted).mpr ⟨(alwaysSnoc .start).mpr ⟨alwaysStart, ?_⟩, ?_⟩
  · intro key installs
    cases installs.1
  · intro key installs
    have known : Installs (askingServer id) (List.replicate 16 7) sixteenBytes
        ((Session.fresh (.ofWords 0 0)).enter .login) := ⟨rfl, rfl, _, ⟨_, _, rfl, rfl⟩, rfl, rfl⟩
    rw [installsUnique installs known]
    rfl

/- A decryption that fails, before any challenge. -/
theorem emptyKey : ¬ ∀ (env : IGlobalEnvironment) (uninitialised : CUUID) (events : List Event) (last : Session),
    Path (step env) (.fresh uninitialised) events last →
    Throughout (step env) (.fresh uninitialised) Keyed events := by
  intro always
  have path : Path (step (askingServer fun _ => [])) (.fresh (.ofWords 0 0))
      ([] ++ [greeting] ++ [Challenge.emptyResponse]) _ := .next (.next .start rfl) rfl
  obtain ⟨secret, some, usable⟩ := always _ _ _ _ path _ [] _ (by simp) path rfl
  cases some
  have sized := (usableLength _).mp usable
  contradiction

end Mcpp.EncryptionKey
