import Mcpp.MCPlayer
import Mcpp.Run

/-! Challenges and the responses that are accepted for them. The token of a player
only grows: each challenge sends all of it, a response is compared with all of it,
and nothing takes it back once it has been answered. -/
namespace Mcpp.Challenge
open Buffers Uuid PacketVisitor Packets Base128 Wire ClientConnection MCPlayer Run

inductive Exchange where
  | requested (token : Bytes)
  | accepted (token : Bytes)
  deriving DecidableEq, Repr

def exchange : Call → Option Exchange
  | .queuePacket (.encryptionRequest request) _ => some (.requested request.verifyToken)
  | .secure token _ => some (.accepted token)
  | _ => none

/- The challenges queued on a connection and the responses accepted on it, in order. -/
def exchanges (s : Session) : List Exchange := s.calls.filterMap exchange

/- The writer puts the whole token into the request; a longer one it leaves out. -/
def Carried (token : Bytes) : Prop :=
  (Field.string token maxStringLength).bytes = encode token.length ++ token

/- Each accepted response answers an earlier request that carried its token, and no
two of them answer the same one. -/
def Corresponds (h : List Exchange) : Prop := ∃ answered : Nat → Nat,
  (∀ i token, h[i]? = some (.accepted token) →
    answered i < i ∧ h[answered i]? = some (.requested token) ∧ Carried token) ∧
  ∀ i j a b, h[i]? = some (.accepted a) → h[j]? = some (.accepted b) → answered i = answered j → i = j

def LastRequested (h : List Exchange) : Prop := ∃ front token, h = front ++ [.requested token]

theorem carriedShort (token : Bytes) : Carried token ↔ token.length ≤ maxStringLength.toNat := by
  rw [Carried, Field.bytes]
  rcases Nat.lt_or_ge maxStringLength.toNat token.length with long | short
  · rw [if_pos long]
    refine iff_of_false ?_ (by omega)
    intro none
    exact encodeNonempty _ (List.append_eq_nil_iff.mp none.symm).1
  · rw [if_neg (by omega)]
    exact iff_of_true rfl short

theorem getSnoc {α : Type} {h : List α} {x y : α} {i : Nat} :
    (h ++ [x])[i]? = some y ↔ h[i]? = some y ∨ (i = h.length ∧ x = y) := by
  rcases Nat.lt_trichotomy i h.length with inside | rfl | past
  · rw [List.getElem?_append_left inside]
    exact (or_iff_left (by omega)).symm
  · simp
  · rw [List.getElem?_eq_none (by simp; omega), List.getElem?_eq_none (by omega)]
    simp only [reduceCtorEq, false_or, false_iff]
    omega

/- The log of a player whose token is `token`. -/
inductive TokenLog : List Exchange → Bytes → Prop where
  | start : TokenLog [] []
  | requested {h token draws} (log : TokenLog h token) (drawn : draws.length = 64) :
      TokenLog (h ++ [.requested (token ++ draws)]) (token ++ draws)
  | accepted {h token} (log : TokenLog h token) : TokenLog (h ++ [.accepted token]) token

theorem requestBound {h : List Exchange} {token sent : Bytes} (log : TokenLog h token) {i : Nat}
    (request : h[i]? = some (.requested sent)) : sent.length ≤ token.length := by
  induction log with
  | start => simp at request
  | requested log drawn ih =>
    rcases getSnoc.mp request with old | ⟨_, new⟩
    · have less := ih old
      rw [List.length_append]
      omega
    · cases new
      exact Nat.le_refl _
  | accepted log ih =>
    rcases getSnoc.mp request with old | ⟨_, new⟩
    · exact ih old
    · contradiction

/- No two challenges send the same token: each is longer than all before it. -/
theorem requestUnique {h : List Exchange} {token sent : Bytes} (log : TokenLog h token) {i j : Nat}
    (first : h[i]? = some (.requested sent)) (second : h[j]? = some (.requested sent)) : i = j := by
  induction log with
  | start => simp at first
  | @requested h token draws log drawn ih =>
    have longer {k : Nat} (old : h[k]? = some (.requested (token ++ draws))) : False := by
      have less := requestBound log old
      rw [List.length_append] at less
      omega
    rcases getSnoc.mp first with oldI | ⟨rfl, newI⟩
    · rcases getSnoc.mp second with oldJ | ⟨rfl, newJ⟩
      · exact ih oldI oldJ
      · cases newJ
        exact (longer oldI).elim
    · rcases getSnoc.mp second with oldJ | ⟨rfl, newJ⟩
      · cases newI
        exact (longer oldJ).elim
      · rfl
  | accepted log ih =>
    rcases getSnoc.mp first with oldI | ⟨_, newI⟩
    · rcases getSnoc.mp second with oldJ | ⟨_, newJ⟩
      · exact ih oldI oldJ
      · contradiction
    · contradiction

theorem requestedToken {h : List Exchange} {sent token : Bytes} (log : TokenLog (h ++ [.requested sent]) token) :
    sent = token := by
  generalize whole : h ++ [Exchange.requested sent] = all at log
  cases log with
  | start => simp at whole
  | requested log drawn =>
    have last := (List.append_inj' whole rfl).2
    exact Exchange.requested.inj (List.cons.inj last).1
  | accepted log =>
    have last := (List.append_inj' whole rfl).2
    simp at last

theorem correspondsFront {h : List Exchange} {x : Exchange} (whole : Corresponds (h ++ [x])) :
    Corresponds h := by
  obtain ⟨answered, answers, apart⟩ := whole
  refine ⟨answered, ?_, ?_⟩
  · intro i token accepted
    obtain ⟨earlier, request, carried⟩ := answers i token (getSnoc.mpr (.inl accepted))
    have inside := (List.getElem?_eq_some_iff.mp accepted).1
    rw [List.getElem?_append_left (by omega)] at request
    exact ⟨earlier, request, carried⟩
  · intro i j a b acceptedI acceptedJ
    exact apart i j a b (getSnoc.mpr (.inl acceptedI)) (getSnoc.mpr (.inl acceptedJ))

theorem acceptedFront {h : List Exchange} {token sent : Bytes} {i : Nat}
    (accepted : (h ++ [.requested sent])[i]? = some (.accepted token)) : h[i]? = some (.accepted token) := by
  rcases getSnoc.mp accepted with old | ⟨_, new⟩
  · exact old
  · contradiction

theorem correspondsRequested {h : List Exchange} {sent : Bytes} :
    Corresponds (h ++ [.requested sent]) ↔ Corresponds h := by
  constructor
  · exact correspondsFront
  · intro whole
    obtain ⟨answered, answers, apart⟩ := whole
    refine ⟨answered, ?_, ?_⟩
    · intro i token accepted
      obtain ⟨earlier, request, carried⟩ := answers i token (acceptedFront accepted)
      exact ⟨earlier, getSnoc.mpr (.inl request), carried⟩
    · intro i j a b acceptedI acceptedJ
      exact apart i j a b (acceptedFront acceptedI) (acceptedFront acceptedJ)

/- Two acceptances in a row have one token, and only one request carried it. -/
theorem lastRequested {h : List Exchange} {token : Bytes} (log : TokenLog h token)
    (whole : Corresponds (h ++ [.accepted token])) : LastRequested h ∧ Carried token := by
  obtain ⟨answered, answers, apart⟩ := whole
  have last : (h ++ [Exchange.accepted token])[h.length]? = some (.accepted token) := getSnoc.mpr (.inr ⟨rfl, rfl⟩)
  obtain ⟨earlier, request, carried⟩ := answers _ _ last
  refine ⟨?_, carried⟩
  rw [List.getElem?_append_left earlier] at request
  cases log with
  | start => simp at earlier
  | @requested front token draws log drawn => exact ⟨front, _, rfl⟩
  | @accepted front _ log =>
    have previous : (front ++ [Exchange.accepted token] ++ [Exchange.accepted token])[front.length]? =
        some (.accepted token) := getSnoc.mpr (.inl (getSnoc.mpr (.inr ⟨rfl, rfl⟩)))
    obtain ⟨before, other, _⟩ := answers _ _ previous
    rw [List.append_assoc, List.getElem?_append_left before] at other
    have first : front[answered (front ++ [Exchange.accepted token]).length]? = some (.requested token) := by
      rcases getSnoc.mp request with old | ⟨_, new⟩
      · exact old
      · contradiction
    have same := apart _ _ _ _ last previous (requestUnique log first other)
    simp at same

/- An acceptance right behind a request answers it, which is too late for any other. -/
theorem correspondsAnswered {h : List Exchange} {token : Bytes} (whole : Corresponds (h ++ [.requested token]))
    (carried : Carried token) : Corresponds (h ++ [.requested token] ++ [.accepted token]) := by
  obtain ⟨answered, answers, apart⟩ := whole
  have request : (h ++ [Exchange.requested token])[h.length]? = some (.requested token) :=
    getSnoc.mpr (.inr ⟨rfl, rfl⟩)
  have length : (h ++ [Exchange.requested token]).length = h.length + 1 := by simp
  have inside {i : Nat} {a : Bytes} (accepted : (h ++ [.requested token])[i]? = some (.accepted a)) :
      i < h.length := (List.getElem?_eq_some_iff.mp (acceptedFront accepted)).1
  refine ⟨Function.update answered (h.length + 1) h.length, ?_, ?_⟩
  · intro i a accepted
    rcases getSnoc.mp accepted with old | ⟨rfl, new⟩
    · obtain ⟨earlier, asked, carried⟩ := answers i a old
      have before := inside old
      rw [Function.update_of_ne (by omega)]
      exact ⟨earlier, getSnoc.mpr (.inl asked), carried⟩
    · cases new
      rw [length, Function.update_self]
      exact ⟨by omega, getSnoc.mpr (.inl request), carried⟩
  · intro i j a b acceptedI acceptedJ same
    rcases getSnoc.mp acceptedI with oldI | ⟨rfl, _⟩
    · have beforeI := inside oldI
      have earlierI := (answers i a oldI).1
      rw [Function.update_of_ne (by omega)] at same
      rcases getSnoc.mp acceptedJ with oldJ | ⟨rfl, _⟩
      · have beforeJ := inside oldJ
        rw [Function.update_of_ne (by omega)] at same
        exact apart i j a b oldI oldJ same
      · rw [length, Function.update_self] at same
        omega
    · rw [length, Function.update_self] at same
      rcases getSnoc.mp acceptedJ with oldJ | ⟨rfl, _⟩
      · have beforeJ := inside oldJ
        have earlierJ := (answers j b oldJ).1
        rw [Function.update_of_ne (by omega)] at same
        omega
      · rfl

theorem correspondsAccepted {h : List Exchange} {token : Bytes} (log : TokenLog h token) :
    Corresponds (h ++ [.accepted token]) ↔ Corresponds h ∧ LastRequested h ∧ Carried token := by
  constructor
  · intro whole
    exact ⟨correspondsFront whole, lastRequested log whole⟩
  · intro both
    obtain ⟨whole, ⟨front, sent, rfl⟩, carried⟩ := both
    obtain rfl := requestedToken log
    exact correspondsAnswered whole carried

variable {env : IGlobalEnvironment} {e : Event} {s t : Session}

/- An online login start, which draws a challenge. -/
def Challenges (env : IGlobalEnvironment) : Event → Session → Prop
  | .packet payload .., s => s.player.state = .login ∧ payload.packetId = 0 ∧ env.isOnline = true
  | .completion .., _ => False

/- A response that decrypts to the token of the player. -/
def Accepts (env : IGlobalEnvironment) : Event → Session → Prop
  | .packet payload past .., s => s.player.state = .login ∧ payload.packetId = 1 ∧
      ∃ response, Decodes env payload past response ∧ response.verifyTokenValue = s.player.verifyToken
  | .completion .., _ => False

theorem exchangesQueued (s : Session) (origin : Outgoing) (sent : SPacketPayload) :
    exchanges (s.queue origin sent) = exchanges s ++ (exchange (.queuePacket origin sent)).toList := by
  simp only [exchanges, Session.queue, List.filterMap_append, List.filterMap_cons, List.filterMap_nil]
  cases exchange (.queuePacket origin sent) <;> rfl

/- What a step does to the log and the token. -/
inductive Turn (env : IGlobalEnvironment) (e : Event) (s t : Session) : Prop where
  | quiet (log : exchanges t = exchanges s) (token : t.player.verifyToken = s.player.verifyToken)
      (unasked : ¬ Challenges env e s) (unanswered : ¬ Accepts env e s)
  | requested (draws : Bytes) (drawn : draws.length = 64) (asked : Challenges env e s) (unanswered : ¬ Accepts env e s)
      (log : exchanges t = exchanges s ++ [.requested (s.player.verifyToken ++ draws)])
      (token : t.player.verifyToken = s.player.verifyToken ++ draws)
  | accepted (unasked : ¬ Challenges env e s) (answered : Accepts env e s)
      (log : exchanges t = exchanges s ++ [.accepted s.player.verifyToken])
      (token : t.player.verifyToken = s.player.verifyToken)

theorem stepTurn (ok : step env e s = .ok t) : Turn env e s t := by
  cases stepEffect ok with
  | @idle payload past uninitialised random _ others =>
    refine .quiet rfl rfl ?_ ?_
    · rintro ⟨login, id, _⟩
      exact (others login).1 id
    · rintro ⟨login, id, _⟩
      exact (others login).2.1 id
  | entered greeting next =>
    exact .quiet rfl rfl (by simp [Challenges, greeting]) (by simp [Accepts, greeting])
  | answered status kind =>
    refine .quiet ?_ rfl (by simp [Challenges, status]) (by simp [Accepts, status])
    rcases kind with rfl | rfl <;> simp [exchangesQueued, exchange]
  | @requested payload past uninitialised random _ request sent draws start login id online drawn token serialized =>
    refine .requested draws drawn ⟨login, id, online⟩ (by simp [Accepts, id]) ?_ ?_
    · rw [Session.challenged, exchangesQueued, ← token]
      rfl
    · exact token
  | offline start login id offline serialized =>
    refine .quiet ?_ rfl (by simp [Challenges, offline]) (by simp [Accepts, id])
    rw [exchangesQueued]
    exact List.append_nil _
  | mismatched login id decodes differ =>
    refine .quiet rfl rfl (by simp [Challenges, id]) ?_
    rintro ⟨_, _, response, decodes', same⟩
    obtain rfl := decodesUnique decodes decodes'
    exact differ same
  | @accepted payload past uninitialised random _ response login id decodes same =>
    refine .accepted (by simp [Challenges, id]) ⟨login, id, _, decodes, same⟩ ?_ rfl
    simp [exchanges, Session.secured, List.filterMap_append, exchange, same]
  | acknowledged login id =>
    exact .quiet rfl rfl (by simp [Challenges, id]) (by simp [Accepts, id])
  | absent none => exact .quiet rfl rfl id id
  | joined some serialized =>
    refine .quiet ?_ rfl id id
    rw [exchangesQueued]
    exact List.append_nil _

/- The log of a session is one of a player with its token. -/
def Logged (s : Session) : Prop := TokenLog (exchanges s) s.player.verifyToken

theorem stepLogged (logged : Logged s) (ok : step env e s = .ok t) : Logged t := by
  unfold Logged
  cases stepTurn ok with
  | quiet log token unasked unanswered =>
    rw [log, token]
    exact logged
  | requested draws drawn asked unanswered log token =>
    rw [log, token]
    exact logged.requested drawn
  | accepted unasked answered log token =>
    rw [log, token]
    exact logged.accepted

theorem logged {uninitialised : CUUID} {events : List Event}
    (path : Path (step env) (.fresh uninitialised) events s) : Logged s :=
  pathInvariant .start (fun _ _ _ logged ok => stepLogged logged ok) path

/- The latest exchange is a request exactly when a login start has been handled since
the last accepted response. -/
theorem stepRequested (ok : step env e s = .ok t) :
    LastRequested (exchanges t) ↔ Challenges env e s ∨ (LastRequested (exchanges s) ∧ ¬ Accepts env e s) := by
  cases stepTurn ok with
  | quiet log token unasked unanswered => simp [log, unasked, unanswered]
  | requested draws drawn asked unanswered log token => exact iff_of_true ⟨_, _, log⟩ (.inl asked)
  | accepted unasked answered log token =>
    refine iff_of_false ?_ (by simp [unasked, answered])
    intro latest
    obtain ⟨front, sent, last⟩ := latest
    simp [log] at last

theorem requestedSince {uninitialised : CUUID} {events : List Event}
    (path : Path (step env) (.fresh uninitialised) events s) :
    LastRequested (exchanges s) ↔
      Since (step env) (.fresh uninitialised) (Challenges env) (Accepts env) events := by
  refine flagSince (F := fun s => LastRequested (exchanges s)) ?_ (fun _ _ _ ok => stepRequested ok) path
  simp [LastRequested, exchanges, Session.fresh]

/- Every accepted response has a login start of its own, with a token the writer sends. -/
def ChallengedLast (env : IGlobalEnvironment) (init : Session) (events : List Event) : Prop :=
  Always (step env) init (fun before e s => Accepts env e s →
    Since (step env) init (Challenges env) (Accepts env) before ∧
    s.player.verifyToken.length ≤ maxStringLength.toNat) events

theorem correspondsExactly {uninitialised : CUUID} {events : List Event} {last : Session}
    (path : Path (step env) (.fresh uninitialised) events last) :
    Corresponds (exchanges last) ↔ ChallengedLast env (.fresh uninitialised) events := by
  unfold ChallengedLast
  induction path with
  | start =>
    exact iff_of_true ⟨id, by simp [exchanges, Session.fresh], by simp [exchanges, Session.fresh]⟩ alwaysStart
  | next before ok ih =>
    rw [alwaysSnoc before, ← ih, ← requestedSince before, ← carriedShort]
    cases stepTurn ok with
    | quiet log token unasked unanswered => simp [log, unanswered]
    | requested draws drawn asked unanswered log token => simp [log, correspondsRequested, unanswered]
    | accepted unasked answered log token => simp [log, correspondsAccepted (logged before), answered]

def nameless : Event := arrival ([18, 0, 0] ++ List.replicate 16 0) 0

def echoedToken : Event := arrival ([67, 1, 0, 64] ++ List.replicate 64 48) 1

/- A client that returns the token it was sent, with a cipher that changes nothing. -/
theorem correspondsHonest : ∃ last,
    Path (step (askingServer id)) (.fresh (.ofWords 0 0)) [greeting, nameless, echoedToken] last ∧
    Corresponds (exchanges last) := by
  have greeted : Path (step (askingServer id)) (.fresh (.ofWords 0 0)) ([] ++ [greeting]) _ := .next .start rfl
  have challenged : Path (step (askingServer id)) (.fresh (.ofWords 0 0)) ([greeting] ++ [nameless]) _ :=
    .next greeted rfl
  have answered : Path (step (askingServer id)) (.fresh (.ofWords 0 0)) ([greeting, nameless] ++ [echoedToken]) _ :=
    .next challenged rfl
  refine ⟨_, answered, (correspondsExactly answered).mpr ?_⟩
  refine (alwaysSnoc challenged).mpr ⟨(alwaysSnoc greeted).mpr ⟨(alwaysSnoc .start).mpr ⟨alwaysStart, ?_⟩, ?_⟩, ?_⟩
  · rintro ⟨login, _⟩
    cases login
  · rintro ⟨_, id, _⟩
    cases id
  · intro accepts
    exact ⟨⟨[greeting], nameless, [], _, rfl, greeted, ⟨rfl, rfl, rfl⟩, by simp⟩, by decide +kernel⟩

def emptyResponse : Event := arrival [3, 1, 0, 0] 1

/- The token is empty until a login start, and so is what a failed decryption returns. -/
theorem unaskedAccepted : ¬ ∀ (env : IGlobalEnvironment) (uninitialised : CUUID) (events : List Event)
    (last : Session), Path (step env) (.fresh uninitialised) events last → Corresponds (exchanges last) := by
  intro always
  have path : Path (step (askingServer (fun _ => []))) (.fresh (.ofWords 0 0))
      ([] ++ [greeting] ++ [emptyResponse]) _ := .next (.next .start rfl) rfl
  obtain ⟨answered, answers, _⟩ := always _ _ _ _ path
  obtain ⟨earlier, _⟩ := answers 0 [] rfl
  exact Nat.not_lt_zero _ earlier

end Mcpp.Challenge
