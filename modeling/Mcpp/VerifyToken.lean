import Mcpp.Challenge

/-! The token of a challenge over the run that led to it. SendEncryptionRequest appends
to a member that outlives the request, so what is sent is the characters of every
challenge so far; only the first finds the member empty. -/
namespace Mcpp.VerifyToken
open Buffers PacketVisitor Packets Wire ClientConnection MCPlayer Run Challenge

variable {env : IGlobalEnvironment} {e : Event} {s t : Session} {events : List Event}

/- The 64 characters a login start draws. -/
def drawn (random : Nat → Fin 62) : Bytes := (List.range 64).map fun i => characters.getD (random i) 0

def generated : Event → Bytes
  | .packet _ _ _ random => drawn random
  | .completion .. => []

/- The token is empty, or what the latest challenge drew. -/
def Fresh (env : IGlobalEnvironment) (init : Session) (events : List Event) (s : Session) : Prop :=
  s.player.verifyToken = [] ∨
    Since (step env) init (fun e u => Challenges env e u ∧ s.player.verifyToken = generated e) (Challenges env) events

theorem drawnLength (random : Nat → Fin 62) : (drawn random).length = 64 := by
  rw [drawn, List.length_map, List.length_range]

theorem requestDraws {random : Nat → Fin 62} (ok : sendEncryptionRequest env random s = .ok t) :
    t.player.verifyToken = s.player.verifyToken ++ drawn random := by
  unfold sendEncryptionRequest at ok
  obtain ⟨sent, serialized, ok⟩ := okBind ok
  cases ok
  rfl

theorem loginStartDraws {payload : SPacketPayload} {past : Memory} {uninitialised : Uuid.CUUID} {random : Nat → Fin 62}
    {accepted : Bool} (online : env.isOnline = true)
    (ok : handleLoginStart env payload past uninitialised random s = .ok (accepted, t)) :
    t.player.verifyToken = s.player.verifyToken ++ drawn random := by
  unfold handleLoginStart at ok
  obtain ⟨reader, opened, ok⟩ := okBind ok
  obtain ⟨⟨start, r⟩, read, ok⟩ := okBind ok
  simp only [online, ite_true] at ok
  obtain ⟨next, requested, last⟩ := okBind ok
  cases last
  have appended := requestDraws requested
  exact appended

/- A challenge appends what it draws, and nothing else touches the token. -/
theorem stepToken (ok : step env e s = .ok t) :
    (Challenges env e s ∧ t.player.verifyToken = s.player.verifyToken ++ generated e) ∨
      (¬ Challenges env e s ∧ t.player.verifyToken = s.player.verifyToken) := by
  cases stepTurn ok with
  | quiet log token unasked unanswered => exact .inr ⟨unasked, token⟩
  | accepted unasked answered log token => exact .inr ⟨unasked, token⟩
  | requested draws length asked unanswered log token =>
    refine .inl ⟨asked, ?_⟩
    cases e with
    | packet payload past uninitialised random =>
      obtain ⟨login, id, online⟩ := asked
      obtain ⟨accepted, handled⟩ := stepLoginStart login id ok
      exact loginStartDraws online handled
    | completion index body past => exact asked.elim

theorem generatedSome (asked : Challenges env e s) : generated e ≠ [] := by
  cases e with
  | packet payload past uninitialised random =>
    intro none
    have length := drawnLength random
    rw [show drawn random = [] from none] at length
    contradiction
  | completion index body past => exact asked.elim

/- The token is there from the first challenge on. -/
theorem tokenMet {uninitialised : Uuid.CUUID} (path : Path (step env) (.fresh uninitialised) events s) :
    s.player.verifyToken ≠ [] ↔ Met (step env) (.fresh uninitialised) (Challenges env) events := by
  refine flagMet (F := fun s => s.player.verifyToken ≠ []) ?_ ?_ path
  · intro some
    exact some rfl
  · intro e s t ok
    rcases stepToken ok with ⟨asked, token⟩ | ⟨unasked, token⟩
    · refine iff_of_true ?_ (.inr asked)
      rw [token]
      intro none
      exact generatedSome asked (List.append_eq_nil_iff.mp none).2
    · rw [token]
      exact (or_iff_left unasked).symm

theorem stepFresh {init : Session} (path : Path (step env) init events s) (ok : step env e s = .ok t)
    (fresh : Fresh env init events s) :
    Fresh env init (events ++ [e]) t ↔ (Challenges env e s → s.player.verifyToken = []) := by
  rcases stepToken ok with ⟨asked, token⟩ | ⟨unasked, token⟩
  · have some : t.player.verifyToken ≠ [] := by
      rw [token]
      intro none
      exact generatedSome asked (List.append_eq_nil_iff.mp none).2
    rw [Fresh, sinceSnoc path, or_iff_right some]
    constructor
    · intro since _
      rcases since with ⟨_, same⟩ | ⟨_, other⟩
      · exact List.append_left_eq_self.mp (token.symm.trans same)
      · exact absurd asked other
    · intro empty
      refine .inl ⟨asked, ?_⟩
      rw [token, empty asked, List.nil_append]
  · refine iff_of_true ?_ (fun asked => absurd asked unasked)
    unfold Fresh at fresh ⊢
    rw [token, sinceSnoc path]
    exact fresh.imp_right fun since => .inr ⟨since, unasked⟩

theorem freshExactly {uninitialised : Uuid.CUUID} {last : Session}
    (path : Path (step env) (.fresh uninitialised) events last) :
    Along (step env) (.fresh uninitialised) (Fresh env (.fresh uninitialised)) events ↔
      Always (step env) (.fresh uninitialised) (fun before e s => Challenges env e s →
        ¬ Met (step env) (.fresh uninitialised) (Challenges env) before) events := by
  refine alongExactly (.inl rfl) ?_ path
  intro before e s t path ok fresh
  rw [stepFresh path ok fresh, ← tokenMet path, not_not]

/- One login start, answered. -/
theorem freshHonest : ∃ last,
    Path (step (askingServer id)) (.fresh (.ofWords 0 0)) [greeting, nameless, echoedToken] last ∧
    Along (step (askingServer id)) (.fresh (.ofWords 0 0)) (Fresh (askingServer id) (.fresh (.ofWords 0 0)))
      [greeting, nameless, echoedToken] := by
  have greeted : Path (step (askingServer id)) (.fresh (.ofWords 0 0)) ([] ++ [greeting]) _ := .next .start rfl
  have challenged : Path (step (askingServer id)) (.fresh (.ofWords 0 0)) ([greeting] ++ [nameless]) _ :=
    .next greeted rfl
  have answered : Path (step (askingServer id)) (.fresh (.ofWords 0 0)) ([greeting, nameless] ++ [echoedToken]) _ :=
    .next challenged rfl
  refine ⟨_, answered, (freshExactly answered).mpr ?_⟩
  refine (alwaysSnoc challenged).mpr ⟨(alwaysSnoc greeted).mpr ⟨(alwaysSnoc .start).mpr ⟨alwaysStart, ?_⟩, ?_⟩, ?_⟩
  · intro asked
    cases asked.1
  · intro _ met
    exact (tokenMet greeted).mpr met rfl
  · intro asked
    cases asked.2.1

/- A client that starts its login twice: the second request asks for 128 characters. -/
theorem repeatedGrows : ¬ ∀ (env : IGlobalEnvironment) (uninitialised : Uuid.CUUID) (events : List Event) (last : Session),
    env.isOnline = true → Path (step env) (.fresh uninitialised) events last →
    Along (step env) (.fresh uninitialised) (Fresh env (.fresh uninitialised)) events := by
  intro always
  have greeted : Path (step (askingServer id)) (.fresh (.ofWords 0 0)) ([] ++ [greeting]) _ := .next .start rfl
  have once : Path (step (askingServer id)) (.fresh (.ofWords 0 0)) ([greeting] ++ [nameless]) _ := .next greeted rfl
  obtain ⟨s, t, path, ok, asked, some⟩ : ∃ s t,
      Path (step (askingServer id)) (.fresh (.ofWords 0 0)) [greeting, nameless] s ∧
      step (askingServer id) nameless s = .ok t ∧ Challenges (askingServer id) nameless s ∧
      s.player.verifyToken.length = 64 := ⟨_, _, once, rfl, ⟨rfl, rfl, rfl⟩, rfl⟩
  have fresh := always _ _ _ _ rfl (.next path ok)
  have before := fresh [greeting, nameless] [nameless] s rfl path
  have empty := (stepFresh path ok before).mp (fresh _ [] t (List.append_nil _).symm (.next path ok)) asked
  rw [empty] at some
  contradiction

end Mcpp.VerifyToken
