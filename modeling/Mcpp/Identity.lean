import Mcpp.Challenge
import Mcpp.LoginGate
import Mcpp.UuidText

/-! The name and UUID of a player against the SLoginSuccess it was sent. Offline both
come from one login start. Online the reply puts the verified UUID into the packet and
nowhere else, the name is the one the request was made under, and a later login start
names the player again. -/
namespace Mcpp.Identity
open Buffers Uuid PacketVisitor Packets Wire ClientConnection MCPlayer Run LoginGate

variable {env : IGlobalEnvironment} {e : Event} {s t : Session}

def Call.loginSuccess : Call → Option SLoginSuccess
  | .queuePacket (.loginSuccess packet) _ => some packet
  | _ => none

/- The SLoginSuccess queued last. -/
def latest (s : Session) : Option SLoginSuccess := (s.calls.filterMap Call.loginSuccess).getLast?

def Called (player : CMCPlayer) (username : Bytes) (uuid : CUUID) : Prop :=
  player.username = username ∧ player.uuid = uuid

def Agrees (s : Session) : Prop := ∀ packet, latest s = some packet → Called s.player packet.username packet.id

theorem latestQueued (s : Session) (origin : Outgoing) (sent : SPacketPayload) :
    latest (s.queue origin sent) = (Call.loginSuccess (.queuePacket origin sent)).or (latest s) := by
  simp only [latest, Session.queue, List.filterMap_append, List.getLast?_append, List.filterMap_cons,
    List.filterMap_nil]
  cases Call.loginSuccess (.queuePacket origin sent) <;> rfl

theorem hasLatest (s : Session) : HasLoginSuccess s ↔ ∃ packet, latest s = some packet := by
  have each (call : Call) : Call.isLoginSuccess call = true ↔ ∃ packet, Call.loginSuccess call = some packet := by
    cases call with
    | queuePacket origin sent => cases origin <;> simp [Call.isLoginSuccess, Call.loginSuccess]
    | secure token key => simp [Call.isLoginSuccess, Call.loginSuccess]
  rw [HasLoginSuccess, latest, ← Option.isSome_iff_exists, List.getLast?_isSome]
  simp [each, List.filterMap_eq_nil_iff, Option.ne_none_iff_exists']

/- An online login start. -/
def Restarts (env : IGlobalEnvironment) (start : SLoginStart) : Event → Session → Prop
  | .packet payload past uninitialised _, s => s.player.state = .login ∧ payload.packetId = 0 ∧ env.isOnline = true ∧
      DecodesStart payload past uninitialised start
  | .completion .., _ => False

/- The reply to a request, and the UUID in its body. -/
def Replies (env : IGlobalEnvironment) (request : HttpGet) (uuid : CUUID) : Event → Session → Prop
  | .packet .., _ => False
  | .completion index body past, s => s.requests[index]? = some request ∧
      ∃ id, replyId env body = .ok id ∧ uuid = fromStrFactory (convertSlimToFullUUID id) past

/- What a step does to the player's name and to the latest SLoginSuccess. -/
inductive Naming (env : IGlobalEnvironment) (e : Event) (s t : Session) : Prop where
  | kept (player : Called t.player s.player.username s.player.uuid) (same : latest t = latest s)
      (unstarted : ∀ start, ¬ Restarts env start e s) (unreplied : ∀ request uuid, ¬ Replies env request uuid e s)
  | restarted (start : SLoginStart) (restarts : Restarts env start e s)
      (player : Called t.player start.username start.uuid) (same : latest t = latest s)
  | offline (packet : SLoginSuccess) (player : Called t.player packet.username packet.id)
      (last : latest t = some packet) (unstarted : ∀ start, ¬ Restarts env start e s)
      (unreplied : ∀ request uuid, ¬ Replies env request uuid e s)
  | replied (request : HttpGet) (packet : SLoginSuccess) (replies : Replies env request packet.id e s)
      (player : Called t.player s.player.username s.player.uuid) (last : latest t = some packet)
      (username : packet.username = request.username)

theorem startNaming {payload : SPacketPayload} {past : Memory} {uninitialised : CUUID} {random : Nat → Fin 62}
    (login : s.player.state = .login) (id : payload.packetId = 0)
    (ok : step env (.packet payload past uninitialised random) s = .ok t) :
    Naming env (.packet payload past uninitialised random) s t := by
  obtain ⟨accepted, handled⟩ := stepLoginStart login id ok
  obtain ⟨start, decodes, kinds⟩ := loginStartCases handled
  rcases kinds with ⟨online, request, sent, draws, drawn, token, serialized, rfl⟩ | ⟨offline, sent, serialized, rfl⟩
  · refine .restarted start ⟨login, id, online, decodes⟩ ⟨rfl, rfl⟩ ?_
    exact latestQueued _ _ _
  · refine .offline (offlineSuccess start) ⟨rfl, rfl⟩ (latestQueued _ _ _) ?_ (fun _ _ => not_false)
    intro start' restarts
    have online := restarts.2.2.1
    rw [offline] at online
    contradiction

theorem stepNaming (ok : step env e s = .ok t) : Naming env e s t := by
  cases e with
  | packet payload past uninitialised random =>
    by_cases starting : s.player.state = .login ∧ payload.packetId = 0
    · exact startNaming starting.1 starting.2 ok
    · have unstarted (start : SLoginStart) : ¬ Restarts env start (.packet payload past uninitialised random) s :=
        fun restarts => starting ⟨restarts.1, restarts.2.1⟩
      cases stepEffect ok with
      | idle others => exact .kept ⟨rfl, rfl⟩ rfl unstarted (fun _ _ => not_false)
      | entered greeting next => exact .kept ⟨rfl, rfl⟩ rfl unstarted (fun _ _ => not_false)
      | answered status kind =>
        refine .kept ⟨rfl, rfl⟩ ?_ unstarted (fun _ _ => not_false)
        rcases kind with rfl | rfl
        · exact latestQueued _ _ _
        · exact latestQueued _ _ _
      | requested start login id online drawn token serialized => exact absurd ⟨login, id⟩ starting
      | offline start login id offline serialized => exact absurd ⟨login, id⟩ starting
      | mismatched login id decodes differ => exact .kept ⟨rfl, rfl⟩ rfl unstarted (fun _ _ => not_false)
      | accepted login id decodes same =>
        refine .kept ⟨rfl, rfl⟩ ?_ unstarted (fun _ _ => not_false)
        simp [latest, Session.secured, Call.loginSuccess]
      | acknowledged login id => exact .kept ⟨rfl, rfl⟩ rfl unstarted (fun _ _ => not_false)
  | completion index body past =>
    rcases stepCompletion ok with ⟨none, rfl⟩ | ⟨request, found, joined⟩
    · refine .kept ⟨rfl, rfl⟩ rfl (fun _ => not_false) ?_
      intro request uuid replies
      have some := replies.1
      rw [none] at some
      contradiction
    · obtain ⟨id, packet, sent, read, username, uuid, serialized, rfl⟩ := hasJoinedCases joined
      exact .replied request packet ⟨found, id, read, uuid⟩ ⟨rfl, rfl⟩ (latestQueued _ _ _) username

theorem restartsUnique {start other : SLoginStart} (left : Restarts env start e s) (right : Restarts env other e s) :
    start = other := by
  cases e with
  | packet payload past uninitialised random => exact decodesStartUnique left.2.2.2 right.2.2.2
  | completion index body past => exact left.elim

theorem repliesUnique {request other : HttpGet} {uuid uuid' : CUUID} (left : Replies env request uuid e s)
    (right : Replies env other uuid' e s) : request = other ∧ uuid = uuid' := by
  cases e with
  | packet payload past uninitialised random => exact left.elim
  | completion index body past =>
    obtain ⟨found, id, read, rfl⟩ := left
    obtain ⟨found', id', read', rfl⟩ := right
    rw [found] at found'
    rw [read] at read'
    cases found'
    cases read'
    exact ⟨rfl, rfl⟩

/- A login start after the end of a login, and a reply, name the player as it is called. -/
structure Confirms (env : IGlobalEnvironment) (init : Session) (before : List Event) (e : Event) (s : Session) :
    Prop where
  starts : ∀ start, Restarts env start e s → Met (step env) init (Finishes env) before →
    Called s.player start.username start.uuid
  replies : ∀ request uuid, Replies env request uuid e s → Called s.player request.username uuid

theorem restartsUnreplied {start : SLoginStart} (restarts : Restarts env start e s) (request : HttpGet) (uuid : CUUID) :
    ¬ Replies env request uuid e s := by
  cases e with
  | packet payload past uninitialised random => exact not_false
  | completion index body past => exact restarts.elim

theorem restartedAgrees {uninitialised : CUUID} {before : List Event} {start : SLoginStart}
    (path : Path (step env) (.fresh uninitialised) before s) (agrees : Agrees s) (restarts : Restarts env start e s)
    (player : Called t.player start.username start.uuid) (same : latest t = latest s) :
    Agrees t ↔ Confirms env (.fresh uninitialised) before e s := by
  constructor
  · intro agrees'
    refine ⟨?_, fun request uuid replies => absurd replies (restartsUnreplied restarts request uuid)⟩
    intro other restarts' finished
    obtain rfl := restartsUnique restarts restarts'
    rw [← finishedBefore path, hasLatest] at finished
    obtain ⟨packet, last⟩ := finished
    obtain ⟨username, uuid⟩ := agrees packet last
    obtain ⟨username', uuid'⟩ := agrees' packet (same.trans last)
    exact ⟨username.trans (username'.symm.trans player.1), uuid.trans (uuid'.symm.trans player.2)⟩
  · intro confirms packet last
    rw [same] at last
    have finished := (finishedBefore path).mp ((hasLatest s).mpr ⟨packet, last⟩)
    obtain ⟨username, uuid⟩ := confirms.starts start restarts finished
    obtain ⟨username', uuid'⟩ := agrees packet last
    exact ⟨player.1.trans (username.symm.trans username'), player.2.trans (uuid.symm.trans uuid')⟩

theorem repliedAgrees {init : Session} {before : List Event} {request : HttpGet} {packet : SLoginSuccess}
    (replies : Replies env request packet.id e s) (player : Called t.player s.player.username s.player.uuid)
    (last : latest t = some packet) (username : packet.username = request.username) :
    Agrees t ↔ Confirms env init before e s := by
  constructor
  · intro agrees'
    refine ⟨fun start restarts => absurd replies (restartsUnreplied restarts request packet.id), ?_⟩
    intro other uuid replies'
    obtain ⟨rfl, rfl⟩ := repliesUnique replies replies'
    obtain ⟨username', uuid'⟩ := agrees' packet last
    exact ⟨player.1.symm.trans (username'.trans username), player.2.symm.trans uuid'⟩
  · intro confirms other latest
    rw [last] at latest
    cases latest
    obtain ⟨username', uuid'⟩ := confirms.replies request packet.id replies
    exact ⟨player.1.trans (username'.trans username.symm), player.2.trans uuid'⟩

theorem stepAgrees {uninitialised : CUUID} {before : List Event}
    (path : Path (step env) (.fresh uninitialised) before s) (ok : step env e s = .ok t) (agrees : Agrees s) :
    Agrees t ↔ Confirms env (.fresh uninitialised) before e s := by
  cases stepNaming ok with
  | kept player same unstarted unreplied =>
    refine iff_of_true ?_ ⟨fun start restarts => absurd restarts (unstarted start),
      fun request uuid replies => absurd replies (unreplied request uuid)⟩
    intro packet last
    obtain ⟨username, uuid⟩ := agrees packet (same ▸ last)
    exact ⟨player.1.trans username, player.2.trans uuid⟩
  | restarted start restarts player same => exact restartedAgrees path agrees restarts player same
  | offline packet player last unstarted unreplied =>
    refine iff_of_true ?_ ⟨fun start restarts => absurd restarts (unstarted start),
      fun request uuid replies => absurd replies (unreplied request uuid)⟩
    intro other latest
    rw [last] at latest
    cases latest
    exact player
  | replied request packet replies player last username => exact repliedAgrees replies player last username

theorem agreesExactly {env : IGlobalEnvironment} {uninitialised : CUUID} {events : List Event} {last : Session}
    (path : Path (step env) (.fresh uninitialised) events last) :
    Throughout (step env) (.fresh uninitialised) Agrees events ↔
      Always (step env) (.fresh uninitialised) (Confirms env (.fresh uninitialised)) events := by
  refine throughoutExactly ?_ (fun _ _ _ _ before ok agrees => stepAgrees before ok agrees) path
  intro packet none
  simp [latest, Session.fresh] at none

def offlineServer : IGlobalEnvironment := { askingServer id with isOnline := false }

/- Steve's reply from a session server that knows it. -/
def confirmed : Event := .completion 0 profile (fun _ => 0)

theorem confirmedId : replyId knowingServer profile = .ok (List.replicate 32 49) := rfl

theorem confirmedUuid (past : Memory) :
    fromStrFactory (convertSlimToFullUUID (List.replicate 32 49)) past = ⟨List.replicate 16 17, rfl⟩ := by
  have digits : ∀ c ∈ List.replicate 32 (49 : UInt8), AuthHash.LowerHex c := by simp [AuthHash.LowerHex]
  have pairs : ∀ i < 16, UuidText.pair (List.replicate 32 49) i = 17 := by decide
  have bytes : ∀ i < 16, ((List.replicate 16 (17 : UInt8)).getD i 0).toNat = 17 := by decide
  refine UuidText.uuidExt ?_
  intro i inside
  apply UInt8.toNat_inj.mp
  rw [UuidText.parsedPairs rfl digits past inside, pairs i inside, bytes i inside]

theorem repliesConfirmed {request : HttpGet} {uuid : CUUID} (replies : Replies knowingServer request uuid confirmed s) :
    s.requests[0]? = some request ∧ uuid = ⟨List.replicate 16 17, rfl⟩ := by
  obtain ⟨found, id, read, rfl⟩ := replies
  obtain rfl := Except.ok.inj (read.symm.trans confirmedId)
  exact ⟨found, confirmedUuid _⟩

/- Steve is called what its SLoginSuccess says, without authentication and with it. -/
theorem agreesSteve :
    (∃ last, Path (step offlineServer) (.fresh (.ofWords 0 0)) [greeting, steveNamed] last ∧
      (latest last).map SLoginSuccess.username = some (ascii "Steve") ∧
      Throughout (step offlineServer) (.fresh (.ofWords 0 0)) Agrees [greeting, steveNamed]) ∧
    ∃ last, Path (step knowingServer) (.fresh (.ofWords 0 0)) [greeting, steveNamed, steadyAnswered, confirmed] last ∧
      (latest last).map SLoginSuccess.username = some (ascii "Steve") ∧
      Throughout (step knowingServer) (.fresh (.ofWords 0 0)) Agrees [greeting, steveNamed, steadyAnswered, confirmed] := by
  refine ⟨?_, ?_⟩
  · have greeted : Path (step offlineServer) (.fresh (.ofWords 0 0)) ([] ++ [greeting]) _ := .next .start rfl
    have named : Path (step offlineServer) (.fresh (.ofWords 0 0)) ([greeting] ++ [steveNamed]) _ := .next greeted rfl
    refine ⟨_, named, by decide +kernel, (agreesExactly named).mpr ?_⟩
    refine (alwaysSnoc greeted).mpr ⟨(alwaysSnoc .start).mpr ⟨alwaysStart, ?_⟩, ?_⟩
    · refine ⟨?_, fun _ _ => False.elim⟩
      intro start restarts
      cases restarts.1
    · refine ⟨?_, fun _ _ => False.elim⟩
      intro start restarts
      cases restarts.2.2.1
  · have greeted : Path (step knowingServer) (.fresh (.ofWords 0 0)) ([] ++ [greeting]) _ := .next .start rfl
    have named : Path (step knowingServer) (.fresh (.ofWords 0 0)) ([greeting] ++ [steveNamed]) _ := .next greeted rfl
    obtain ⟨s, last, answered, player, requests, ok, success⟩ : ∃ s last,
        Path (step knowingServer) (.fresh (.ofWords 0 0)) ([greeting, steveNamed] ++ [steadyAnswered]) s ∧
        Called s.player (ascii "Steve") ⟨List.replicate 16 17, rfl⟩ ∧
        s.requests.map HttpGet.username = [ascii "Steve"] ∧ step knowingServer confirmed s = .ok last ∧
        (latest last).map SLoginSuccess.username = some (ascii "Steve") :=
      ⟨_, _, .next named rfl, ⟨by decide +kernel, by decide +kernel⟩, by decide +kernel, rfl, by decide +kernel⟩
    have replied := Path.next answered ok
    refine ⟨last, replied, success, (agreesExactly replied).mpr ?_⟩
    refine (alwaysSnoc answered).mpr ⟨(alwaysSnoc named).mpr ⟨(alwaysSnoc greeted).mpr ⟨(alwaysSnoc .start).mpr
      ⟨alwaysStart, ?_⟩, ?_⟩, ?_⟩, ?_⟩
    · refine ⟨?_, fun _ _ => False.elim⟩
      intro start restarts
      cases restarts.1
    · refine ⟨?_, fun _ _ => False.elim⟩
      intro start restarts finished
      obtain ⟨call, ⟨⟩, _⟩ := (finishedBefore greeted).mpr finished
    · refine ⟨?_, fun _ _ => False.elim⟩
      intro start restarts
      have same : (1 : BitVec 32) = 0 := restarts.2.1
      contradiction
    · refine ⟨fun _ => False.elim, ?_⟩
      intro request uuid replies
      obtain ⟨found, rfl⟩ := repliesConfirmed replies
      have steve : (s.requests.map HttpGet.username)[0]? = some request.username := by rw [List.getElem?_map, found]; rfl
      rw [requests] at steve
      refine ⟨player.1.trans (Option.some.inj steve), player.2⟩

/- A session server whose reply is an id of 32 equal digits. -/
def replyingServer : IGlobalEnvironment :=
  { askingServer id with parse := fun body => some (.object [(ascii "id", .string ((body.drop 7).take 32))]) }

def reply (digit : UInt8) : Event :=
  .completion 0 (ascii "\x7b\"id\":\"" ++ List.replicate 32 digit ++ ascii "\"\x7d") (fun _ => 0)

/- A client that logs in under the UUID zero, and is someone else for the session server. -/
theorem replyElsewhere : ¬ ∀ (env : IGlobalEnvironment) (uninitialised : CUUID) (events : List Event) (last : Session),
    Path (step env) (.fresh uninitialised) events last →
    Throughout (step env) (.fresh uninitialised) Agrees events := by
  intro always
  have path : Path (step replyingServer) (.fresh (.ofWords 0 0))
      [greeting, Challenge.nameless, Challenge.echoedToken, reply 49] _ := pathRun rfl
  have first := congrArg (fun uuid => uuid.data.head?) (always _ _ _ _ path _ [] _ (by simp) path _ rfl).2
  revert first
  decide +kernel

end Mcpp.Identity
