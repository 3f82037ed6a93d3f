import Mcpp.AuthHash
import Mcpp.Challenge

/-! The query of a hasJoined request. The username stands in it as the client sent it,
so a separator in the username is a separator of the query. The digest has none: it is a
sign and hexadecimal digits. -/
namespace Mcpp.SessionQuery
open Buffers Uuid PacketVisitor Packets ClientConnection MCPlayer Run Challenge
open AuthHash (Bignum Hash LowerHex finalise finaliseExact sign lowerIsHex)

/-! Taking a query apart. -/

/- The text before and behind the first `c`. -/
def cut (c : UInt8) : Bytes → Option (Bytes × Bytes)
  | [] => none
  | b :: rest => if b = c then some ([], rest) else (cut c rest).map fun r => (b :: r.1, r.2)

/- What stands behind the first '?', split at every '&' and each piece at its first '='. -/
def query (url : Bytes) : Option (List (Bytes × Bytes)) := do
  let (_, text) ← cut 63 url
  (text.splitOn 38).mapM (cut 61)

theorem cutFirst {c : UInt8} {before : Bytes} (clean : c ∉ before) (after : Bytes) :
    cut c (before ++ c :: after) = some (before, after) := by
  induction before with
  | nil => rw [List.nil_append, cut, if_pos rfl]
  | cons b rest ih =>
    obtain ⟨other, clean⟩ := not_or.mp (mt List.mem_cons.mpr clean)
    rw [List.cons_append, cut, if_neg (Ne.symm other), ih clean]
    rfl

theorem splitPositive (c : UInt8) (text : Bytes) : 0 < (text.splitOn c).length :=
  List.length_pos_iff.mpr (List.splitOn_ne_nil c text)

theorem splitLength (c : UInt8) (text : Bytes) : (text.splitOn c).length = 1 ↔ c ∉ text := by
  constructor
  · intro one mem
    obtain ⟨before, after, rfl⟩ := List.append_of_mem mem
    rw [List.splitOn_append_cons_self, List.length_append] at one
    have left := splitPositive c before
    have right := splitPositive c after
    omega
  · intro clean
    rw [List.splitOn_eq_singleton clean, List.length_singleton]

theorem mapLength {α β : Type} {f : α → Option β} {xs : List α} {ys : List β} (ok : xs.mapM f = some ys) :
    ys.length = xs.length := by
  induction xs generalizing ys with
  | nil =>
    cases Option.some.inj ok
    rfl
  | cons x rest ih =>
    rw [List.mapM_cons] at ok
    obtain ⟨y, _, ok⟩ := Option.bind_eq_some_iff.mp ok
    obtain ⟨others, tail, ok⟩ := Option.bind_eq_some_iff.mp ok
    cases Option.some.inj ok
    rw [List.length_cons, List.length_cons, ih tail]

/-! The digest. -/

theorem digestClean (lib : Bignum) (hash : Hash) : 38 ∉ finalise lib hash := by
  obtain ⟨digits, small, _, whole, _⟩ := finaliseExact lib hash
  rw [whole]
  intro mem
  rcases List.mem_append.mp mem with minus | digit
  · unfold sign at minus
    split at minus
    · exact absurd (List.mem_singleton.mp minus) (by decide)
    · exact absurd minus List.not_mem_nil
  · obtain ⟨d, held, same⟩ := List.mem_map.mp digit
    have hex : LowerHex 38 := same ▸ lowerIsHex (small d held)
    exact absurd hex (by unfold LowerHex; decide)

/-! The request. -/

theorem urlParts (username digest : Bytes) : hasJoinedUrl username digest =
    ascii "https://sessionserver.mojang.com/session/minecraft/hasJoined" ++
      63 :: (ascii "username" ++ 61 :: username ++ 38 :: (ascii "serverId" ++ 61 :: digest)) := by
  have front : ascii "https://sessionserver.mojang.com/session/minecraft/hasJoined?username=" =
      ascii "https://sessionserver.mojang.com/session/minecraft/hasJoined" ++ 63 :: (ascii "username" ++ [61]) := by
    decide
  have middle : ascii "&serverId=" = 38 :: (ascii "serverId" ++ [61]) := by decide
  simp only [hasJoinedUrl, front, middle, List.append_assoc, List.cons_append, List.nil_append]

theorem queryParts (username : Bytes) {digest : Bytes} (clean : 38 ∉ digest) :
    query (hasJoinedUrl username digest) =
      ((ascii "username" ++ 61 :: username).splitOn 38 ++ [ascii "serverId" ++ 61 :: digest]).mapM (cut 61) := by
  have host : 63 ∉ ascii "https://sessionserver.mojang.com/session/minecraft/hasJoined" := by decide
  have field : 38 ∉ ascii "serverId" ++ 61 :: digest := by
    have key : 38 ∉ ascii "serverId" := by decide
    simp [key, clean]
  rw [query, urlParts, cutFirst host, Option.bind_eq_bind, Option.bind_some]
  simp only [List.splitOn_append_cons_self, List.splitOn_eq_singleton field]

/- Two pairs come out exactly when the username brings no separator, and then the right ones. -/
theorem queryExactly (username : Bytes) {digest : Bytes} (clean : 38 ∉ digest) :
    query (hasJoinedUrl username digest) = some [(ascii "username", username), (ascii "serverId", digest)] ↔
      38 ∉ username := by
  have key : 38 ∉ ascii "username" := by decide
  have whole : 38 ∉ ascii "username" ++ 61 :: username ↔ 38 ∉ username := by simp [key]
  rw [queryParts username clean]
  constructor
  · intro two
    have length := mapLength two
    rw [List.length_append, List.length_singleton] at length
    rw [← whole, ← splitLength]
    simpa using length.symm
  · intro none
    have first : cut 61 (ascii "username" ++ 61 :: username) = some (ascii "username", username) :=
      cutFirst (by decide) username
    have second : cut 61 (ascii "serverId" ++ 61 :: digest) = some (ascii "serverId", digest) :=
      cutFirst (by decide) digest
    rw [List.splitOn_eq_singleton (whole.mpr none)]
    simp only [List.singleton_append, List.mapM_cons, List.mapM_nil, first, second]
    rfl

/-! Runs. -/

/- A server with the digest of its source. -/
def hashing (env : IGlobalEnvironment) (lib : Bignum) (sha1 : Bytes → Hash) : IGlobalEnvironment :=
  { env with generateHexDigest := AuthHash.generateHexDigest lib sha1 }

variable {env : IGlobalEnvironment} {lib : Bignum} {sha1 : Bytes → Hash} {e : Event} {s t : Session}

/- The step accepts the response. -/
def Answers (env : IGlobalEnvironment) (response : SEncryptionResponse) : Event → Session → Prop
  | .packet payload past .., s => s.player.state = .login ∧ payload.packetId = 1 ∧
      Decodes env payload past response ∧ response.verifyTokenValue = s.player.verifyToken
  | .completion .., _ => False

theorem acceptsAnswers : Accepts env e s ↔ ∃ response, Answers env response e s := by
  cases e with
  | packet payload past uninitialised random =>
    constructor
    · intro ⟨login, id, response, decodes, same⟩
      exact ⟨response, login, id, decodes, same⟩
    · intro ⟨response, login, id, decodes, same⟩
      exact ⟨login, id, response, decodes, same⟩
  | completion index body past => exact ⟨False.elim, fun ⟨_, no⟩ => no⟩

theorem answersUnique {response other : SEncryptionResponse} (left : Answers env response e s)
    (right : Answers env other e s) : response = other := by
  cases e with
  | packet payload past uninitialised random => exact decodesUnique left.2.2.1 right.2.2.1
  | completion index body past => exact left.elim

/- A request the step queues asks for the player's name and the digest of the response
the step accepts, and for nothing else. -/
def NamesOnly (env : IGlobalEnvironment) (e : Event) (s : Session) : Prop :=
  ∀ t get, step env e s = .ok t → t.requests = s.requests ++ [get] →
    ∃ response, Answers env response e s ∧ query get.url = some [(ascii "username", t.player.username),
      (ascii "serverId", env.generateHexDigest env.serverKeyPair.asnDerKey response.sharedSecret)]

/- Only an accepted response queues a request. -/
theorem stepRequests (ok : step env e s = .ok t) :
    (∃ response, Answers env response e s ∧ t = s.secured env response) ∨
      (¬ Accepts env e s ∧ t.requests.length ≤ s.requests.length) := by
  have kept (same : t.requests = s.requests) : t.requests.length ≤ s.requests.length := by rw [same]
  cases stepEffect ok with
  | idle others => exact .inr ⟨fun ⟨login, id, _⟩ => (others login).2.1 id, kept rfl⟩
  | entered greeting next => exact .inr ⟨fun ⟨login, _⟩ => by rw [greeting] at login; contradiction, kept rfl⟩
  | answered status kind => exact .inr ⟨fun ⟨login, _⟩ => by rw [status] at login; contradiction, kept rfl⟩
  | requested start login id online drawn token serialized =>
    exact .inr ⟨fun ⟨_, other, _⟩ => by rw [id] at other; contradiction, kept rfl⟩
  | offline start login id offline serialized =>
    exact .inr ⟨fun ⟨_, other, _⟩ => by rw [id] at other; contradiction, kept rfl⟩
  | mismatched login id decodes differ =>
    refine .inr ⟨?_, kept rfl⟩
    intro ⟨_, _, response, decodes', same⟩
    obtain rfl := decodesUnique decodes decodes'
    exact differ same
  | accepted login id decodes same => exact .inl ⟨_, ⟨login, id, decodes, same⟩, rfl⟩
  | acknowledged login id => exact .inr ⟨fun ⟨_, other, _⟩ => by rw [id] at other; contradiction, kept rfl⟩
  | absent none => exact .inr ⟨id, kept rfl⟩
  | joined some serialized => exact .inr ⟨id, List.length_eraseIdx_le ..⟩

theorem stepNames (ok : step (hashing env lib sha1) e s = .ok t) :
    NamesOnly (hashing env lib sha1) e s ↔ (Accepts (hashing env lib sha1) e s → 38 ∉ s.player.username) := by
  have exact' (secret : Bytes) := queryExactly s.player.username
    (digestClean lib (sha1 (secret ++ env.serverKeyPair.asnDerKey)))
  rcases stepRequests ok with ⟨response, answers, rfl⟩ | ⟨unanswered, fewer⟩
  · constructor
    · intro names _
      obtain ⟨other, answers', pairs⟩ := names _ _ ok rfl
      obtain rfl := answersUnique answers answers'
      exact (exact' response.sharedSecret).mp pairs
    · intro clean next get ok' queued
      rw [ok] at ok'
      cases ok'
      obtain rfl := (List.cons.inj (List.append_cancel_left queued)).1
      exact ⟨response, answers, (exact' response.sharedSecret).mpr (clean (acceptsAnswers.mpr ⟨response, answers⟩))⟩
  · refine iff_of_true ?_ (fun accepts => absurd accepts unanswered)
    intro next get ok' queued
    rw [ok] at ok'
    cases ok'
    rw [queued, List.length_append, List.length_singleton] at fewer
    omega

theorem namesExactly {uninitialised : CUUID} {events : List Event} {last : Session}
    (path : Path (step (hashing env lib sha1)) (.fresh uninitialised) events last) :
    Always (step (hashing env lib sha1)) (.fresh uninitialised)
        (fun _ e s => NamesOnly (hashing env lib sha1) e s) events ↔
      Always (step (hashing env lib sha1)) (.fresh uninitialised)
        (fun _ e s => Accepts (hashing env lib sha1) e s → 38 ∉ s.player.username) events := by
  refine alwaysCongr ?_ path
  intro before e s t _ ok
  exact stepNames ok

/- A server that asks for authentication, with a hash of equal bytes. -/
def digesting : IGlobalEnvironment :=
  hashing (askingServer id) AuthHash.natural fun _ => ⟨List.replicate 20 17, by decide⟩

theorem namesHonest : ∃ last,
    Path (step digesting) (.fresh (.ofWords 0 0)) [greeting, steveNamed, steadyAnswered] last ∧
    last.requests.map (fun get => query get.url) =
      [some [(ascii "username", ascii "Steve"), (ascii "serverId", List.replicate 40 49)]] ∧
    Always (step digesting) (.fresh (.ofWords 0 0)) (fun _ e s => NamesOnly digesting e s)
      [greeting, steveNamed, steadyAnswered] := by
  have greeted : Path (step digesting) (.fresh (.ofWords 0 0)) ([] ++ [greeting]) _ := .next .start rfl
  have challenged : Path (step digesting) (.fresh (.ofWords 0 0)) ([greeting] ++ [steveNamed]) _ := .next greeted rfl
  have answered : Path (step digesting) (.fresh (.ofWords 0 0)) ([greeting, steveNamed] ++ [steadyAnswered]) _ :=
    .next challenged rfl
  refine ⟨_, answered, by decide +kernel, (namesExactly answered).mpr ?_⟩
  refine (alwaysSnoc challenged).mpr ⟨(alwaysSnoc greeted).mpr ⟨(alwaysSnoc .start).mpr ⟨alwaysStart, ?_⟩, ?_⟩, ?_⟩
  · intro accepts
    cases accepts.1
  · intro accepts
    cases accepts.2.1
  · intro accepts
    decide +kernel

/- A client called "a&b". -/
def separated : Event := arrival ([21, 0, 3, 97, 38, 98] ++ List.replicate 16 0) 0

theorem separatorSplits : ¬ ∀ (env : IGlobalEnvironment) (lib : Bignum) (sha1 : Bytes → Hash) (uninitialised : CUUID)
    (events : List Event) (last : Session),
    Path (step (hashing env lib sha1)) (.fresh uninitialised) events last →
    Always (step (hashing env lib sha1)) (.fresh uninitialised)
      (fun _ e s => NamesOnly (hashing env lib sha1) e s) events := by
  intro always
  have greeted : Path (step digesting) (.fresh (.ofWords 0 0)) ([] ++ [greeting]) _ := .next .start rfl
  have challenged : Path (step digesting) (.fresh (.ofWords 0 0)) ([greeting] ++ [separated]) _ := .next greeted rfl
  obtain ⟨s, t, path, ok, accepts, separator⟩ : ∃ s t, Path (step digesting) (.fresh (.ofWords 0 0)) [greeting, separated] s ∧
      step digesting echoedToken s = .ok t ∧ Accepts digesting echoedToken s ∧ 38 ∈ s.player.username :=
    ⟨_, _, challenged, rfl, acceptsAnswers.mpr ⟨_, rfl, rfl, ⟨_, _, rfl, rfl⟩, rfl⟩, by decide⟩
  have names := always (askingServer id) AuthHash.natural _ _ _ _ (.next path ok) _ echoedToken [] s rfl path
  exact (stepNames ok).mp names accepts separator

end Mcpp.SessionQuery
