import Mcpp.ClientConnection

/-! CMCPlayer. A session is the player with the state of its connection, the calls it
made on that connection and the hasJoined requests whose callback is still to run.
What a handler takes from elsewhere (the key pair, the digest, the JSON library, the
random device, the memory behind a buffer) is a parameter. -/
namespace Mcpp.MCPlayer
open Buffers Uuid PacketVisitor Packets SharedSecret Wire ClientConnection

inductive EClientState where
  | handshake
  | status
  | login
  | configuration
  | play
  deriving DecidableEq, Repr

def protocolVersion : BitVec 32 := 772

def ascii (s : String) : Bytes := s.toList.map (fun c => UInt8.ofNat c.toNat)

def characters : Bytes := ascii "0123456789ABCDEFGHIJKLMNOPQRSTUVWXYZabcdefghijklmnopqrstuvwxyz"

structure IGlobalEnvironment where
  isOnline : Bool
  serverKeyPair : IRSAKeyPair
  generateHexDigest : Bytes → Bytes → Bytes
  -- nlohmann::json::parse, with none where it throws, and nlohmann::to_string.
  parse : Bytes → Option Json
  toString : Json → Bytes

structure CMCPlayer where
  username : Bytes := []
  state : EClientState := .handshake
  uuid : CUUID
  verifyToken : Bytes := []

/- What a queued payload was made from. -/
inductive Outgoing where
  | loginSuccess (packet : SLoginSuccess)
  | encryptionRequest (packet : SEncryptionRequest)
  | statusResponse (body : Json)
  | echo

/- The player's calls on its connection: QueuePacket, and EnableEncryption followed by
SetAESKey, here with the token that let them through. -/
inductive Call where
  | queuePacket (origin : Outgoing) (payload : SPacketPayload)
  | secure (token key : Bytes)

structure HttpGet where
  url : Bytes
  username : Bytes
  deriving DecidableEq, Repr

structure Session where
  player : CMCPlayer
  connection : CClientConnection := {}
  calls : List Call := []
  requests : List HttpGet := []

def Session.fresh (uninitialised : CUUID) : Session := { player := { uuid := uninitialised } }

def Session.queue (s : Session) (origin : Outgoing) (payload : SPacketPayload) : Session :=
  { s with calls := s.calls ++ [.queuePacket origin payload] }

def Session.enter (s : Session) (state : EClientState) : Session :=
  { s with player := { s.player with state := state } }

def openReader (payload : SPacketPayload) (past : Memory) : Except Fault CPacketReader :=
  match payload.payload with
  | none => .error .nullDereference
  | some bytes => .ok { memory := buffer bytes past }

def handleHandshake (payload : SPacketPayload) (past : Memory) (s : Session) : Except Fault (Bool × Session) := do
  let reader ← openReader payload past
  let (handshake, _) ← serialize CPacketReader.visitor SHandshake.fresh reader
  if handshake.protocolVersion ≠ protocolVersion then pure (false, s)
  else if handshake.nextState = 1 then pure (true, s.enter .status)
  else if handshake.nextState = 2 then pure (true, s.enter .login)
  else pure (false, s)

variable (env : IGlobalEnvironment)

/- `random` is what distribution(generator) gives, call by call. -/
def sendEncryptionRequest (random : Nat → Fin 62) (s : Session) : Except Fault Session := do
  let publicKey := env.serverKeyPair.asnDerKey
  let verifyToken := s.player.verifyToken ++ (List.range 64).map (fun i => characters.getD (random i) 0)
  let request : SEncryptionRequest := { SEncryptionRequest.fresh with
    publicKeyLength := BitVec.ofNat 32 publicKey.length
    publicKey := publicKey
    verifyTokenLength := BitVec.ofNat 32 verifyToken.length
    verifyToken := verifyToken }
  let payload ← serializePacket request
  let s := { s with player := { s.player with verifyToken := verifyToken } }
  pure (s.queue (.encryptionRequest request) payload)

def handleLoginStart (payload : SPacketPayload) (past : Memory) (uninitialised : CUUID)
    (random : Nat → Fin 62) (s : Session) : Except Fault (Bool × Session) := do
  let reader ← openReader payload past
  let (loginStart, _) ← serialize CPacketReader.visitor (SLoginStart.fresh uninitialised) reader
  let s := { s with player := { s.player with username := loginStart.username, uuid := loginStart.uuid } }
  if env.isOnline then
    let s ← sendEncryptionRequest env random s
    pure (true, s)
  else
    let loginSuccess := { SLoginSuccess.fresh s.player.uuid with username := s.player.username }
    let payload ← serializePacket loginSuccess
    pure (true, s.queue (.loginSuccess loginSuccess) payload)

def hasJoinedUrl (username digest : Bytes) : Bytes :=
  ascii "https://sessionserver.mojang.com/session/minecraft/hasJoined?username=" ++ username ++
    ascii "&serverId=" ++ digest

def handleEncryptionResponse (payload : SPacketPayload) (past : Memory) (s : Session) :
    Except Fault (Bool × Session) := do
  let key := env.serverKeyPair
  let reader ← openReader payload past
  let (response, _) ← serialize CPacketReader.visitor (SEncryptionResponse.fresh key) reader
  if response.verifyTokenValue ≠ s.player.verifyToken then pure (false, s)
  else
    let digest := env.generateHexDigest key.asnDerKey response.sharedSecret
    pure (true, { s with
      connection := { s.connection with encryptionEnabled := true, secret := some ⟨response.sharedSecret⟩ }
      calls := s.calls ++ [.secure response.verifyTokenValue response.sharedSecret]
      requests := s.requests ++ [⟨hasJoinedUrl s.player.username digest, s.player.username⟩] })

def handleLogin (payload : SPacketPayload) (past : Memory) (uninitialised : CUUID) (random : Nat → Fin 62)
    (s : Session) : Except Fault (Bool × Session) :=
  if payload.packetId = 0 then handleLoginStart env payload past uninitialised random s
  else if payload.packetId = 1 then handleEncryptionResponse env payload past s
  else if payload.packetId = 3 then .ok (true, s.enter .configuration)
  else .ok (true, s)

def statusBody : Json := .object
  [(ascii "version", .object [(ascii "name", .string (ascii "1.21.8")), (ascii "protocol", .number 772)]),
   (ascii "players", .object [(ascii "max", .number 10000), (ascii "online", .number 0)]),
   (ascii "description", .object [(ascii "text", .string (ascii "MCPP Server"))]),
   (ascii "enforceSecureChat", .bool true),
   (ascii "previewsChat", .bool true)]

/- The ping comes back with a size two larger than its buffer. -/
def handleStatus (payload : SPacketPayload) (s : Session) : Except Fault (Bool × Session) := do
  if payload.packetId = 0 then
    let response : SStatusResponse env.toString := { SStatusResponse.fresh env.toString with body := statusBody }
    let sent ← serializePacket response
    pure (true, s.queue (.statusResponse statusBody) sent)
  else if payload.packetId = 1 then
    pure (true, s.queue .echo { payload with size := payload.size + 2 })
  else pure (true, s)

def processPacket (payload : SPacketPayload) (past : Memory) (uninitialised : CUUID) (random : Nat → Fin 62)
    (s : Session) : Except Fault (Bool × Session) :=
  match s.player.state with
  | .handshake => handleHandshake payload past s
  | .login => handleLogin env payload past uninitialised random s
  | .status => handleStatus env payload s
  | .configuration => .ok (true, s)
  | .play => .ok (true, s)

/-! The callback of a hasJoined request. -/

/- operator[] on a json that is not const: a missing member is null, and so is every
member of null. -/
def member (key : Bytes) : Json → Except Fault Json
  | .object members => .ok ((members.lookup key).getD .null)
  | .null => .ok .null
  | _ => .error .typeError

def getString : Json → Except Fault Bytes
  | .string s => .ok s
  | _ => .error .typeError

def contains (key : Bytes) : Json → Bool
  | .object members => (members.lookup key).isSome
  | _ => false

def property (prop : Json) : Except Fault SProperty := do
  let name ← member (ascii "name") prop >>= getString
  let value ← member (ascii "value") prop >>= getString
  if contains (ascii "signature") prop then
    let signature ← member (ascii "signature") prop >>= getString
    pure { name := name, value := value, signed := true, signature := signature }
  else pure { name := name, value := value }

def getProperties : Json → Except Fault (List SProperty)
  | .array items => items.mapM property
  | _ => .ok []

def parse (body : Bytes) : Except Fault Json :=
  match env.parse body with
  | none => .error .parseError
  | some json => .ok json

def hasJoined (username body : Bytes) (past : Memory) (s : Session) : Except Fault Session := do
  let jsonBody ← parse env body
  let id ← member (ascii "id") jsonBody >>= getString
  let properties ← member (ascii "properties") jsonBody >>= getProperties
  let request := { SLoginSuccess.fresh (fromStrFactory (convertSlimToFullUUID id) past) with
    username := username, properties := properties }
  let payload ← serializePacket request
  pure (s.queue (.loginSuccess request) payload)

/-! One event of a run. -/

inductive Event where
  | packet (payload : SPacketPayload) (past : Memory) (uninitialised : CUUID) (random : Nat → Fin 62)
  | completion (index : Nat) (body : Bytes) (past : Memory)

/- A callback runs once; an index no request has is not an event of the program. -/
def step : Event → Session → Except Fault Session
  | .packet payload past uninitialised random, s => do
    let (_, s) ← processPacket env payload past uninitialised random s
    pure s
  | .completion index body past, s => match s.requests[index]? with
    | none => .ok s
    | some request => hasJoined env request.username body past { s with requests := s.requests.eraseIdx index }

/- A server that asks for authentication, and frames as a client sends them. -/
def askingServer (decrypt : Bytes → Bytes) : IGlobalEnvironment where
  isOnline := true
  serverKeyPair := ⟨decrypt, []⟩
  generateHexDigest _ _ := []
  parse _ := none
  toString _ := []

def arrival (bytes : Bytes) (packetId : BitVec 32) : Event :=
  .packet ⟨some bytes, packetId, BitVec.ofNat 32 bytes.length⟩ (fun _ => 0) (.ofWords 0 0) (fun _ => 0)

/- A generator that always draws the first character. -/
def steady : Nat → Fin 62 := fun _ => 0

/- A handshake of version 772 that asks for a login. -/
def greeting : Event := arrival [7, 0, 0x84, 0x06, 0, 0, 0, 2] 0

/- A login start of "Steve" under a UUID of equal bytes, and an answer to a token of steady draws. -/
def steveStart : Bytes := [23, 0, 5, 83, 116, 101, 118, 101] ++ List.replicate 16 17
def steadyAnswer : Bytes := [83, 1, 16] ++ List.replicate 16 7 ++ [64] ++ List.replicate 64 48

def steveNamed : Event := arrival steveStart 0
def steadyAnswered : Event := arrival steadyAnswer 1

/- What the session server says of a player it knows. -/
def profile : Bytes := ascii "\x7b\"id\":\"11111111111111111111111111111111\",\"properties\":[" ++
  ascii "\x7b\"name\":\"textures\",\"value\":\"eyJ9\",\"signature\":\"c2ln\"\x7d]\x7d"

def profileMembers : List (Bytes × Json) :=
  [(ascii "id", .string (List.replicate 32 49)), (ascii "properties", .array
    [.object [(ascii "name", .string (ascii "textures")), (ascii "value", .string (ascii "eyJ9")),
      (ascii "signature", .string (ascii "c2ln"))]])]

def knowingServer : IGlobalEnvironment :=
  { askingServer id with parse := fun body => if body = profile then some (.object profileMembers) else none }

/-! What a step can do. -/

/- The response in a payload, with both of its strings decrypted. -/
def Decodes (payload : SPacketPayload) (past : Memory) (response : SEncryptionResponse) : Prop :=
  ∃ reader r, openReader payload past = .ok reader ∧
    serialize CPacketReader.visitor (SEncryptionResponse.fresh env.serverKeyPair) reader = .ok (response, r)

/- The login start in a payload. -/
def DecodesStart (payload : SPacketPayload) (past : Memory) (uninitialised : CUUID) (start : SLoginStart) : Prop :=
  ∃ reader r, openReader payload past = .ok reader ∧
    serialize CPacketReader.visitor (SLoginStart.fresh uninitialised) reader = .ok (start, r)

/- The id in the body of a reply. -/
def replyId (body : Bytes) : Except Fault Bytes := do
  let jsonBody ← parse env body
  member (ascii "id") jsonBody >>= getString

def Session.named (s : Session) (start : SLoginStart) : Session :=
  { s with player := { s.player with username := start.username, uuid := start.uuid } }

def Session.challenged (s : Session) (request : SEncryptionRequest) (sent : SPacketPayload) : Session :=
  { s with player := { s.player with verifyToken := request.verifyToken } }.queue (.encryptionRequest request) sent

def Session.secured (s : Session) (response : SEncryptionResponse) : Session :=
  let digest := env.generateHexDigest env.serverKeyPair.asnDerKey response.sharedSecret
  { s with
    connection := { s.connection with encryptionEnabled := true, secret := some ⟨response.sharedSecret⟩ }
    calls := s.calls ++ [.secure response.verifyTokenValue response.sharedSecret]
    requests := s.requests ++ [⟨hasJoinedUrl s.player.username digest, s.player.username⟩] }

inductive Effect : Event → Session → Session → Prop where
  | idle {payload past uninitialised random s} (others : s.player.state = .login →
      payload.packetId ≠ 0 ∧ payload.packetId ≠ 1 ∧ payload.packetId ≠ 3) :
      Effect (.packet payload past uninitialised random) s s
  | entered {payload past uninitialised random s state} (greeting : s.player.state = .handshake)
      (next : state = .status ∨ state = .login) :
      Effect (.packet payload past uninitialised random) s (s.enter state)
  | answered {payload past uninitialised random s origin sent} (status : s.player.state = .status)
      (kind : origin = .statusResponse statusBody ∨ origin = .echo) :
      Effect (.packet payload past uninitialised random) s (s.queue origin sent)
  | requested {payload past uninitialised random s request sent draws} (start : SLoginStart)
      (login : s.player.state = .login) (id : payload.packetId = 0) (online : env.isOnline = true)
      (drawn : draws.length = 64) (token : request.verifyToken = s.player.verifyToken ++ draws)
      (serialized : serializePacket request = .ok sent) :
      Effect (.packet payload past uninitialised random) s ((s.named start).challenged request sent)
  | offline {payload past uninitialised random s packet sent} (start : SLoginStart)
      (login : s.player.state = .login) (id : payload.packetId = 0) (offline : env.isOnline = false)
      (serialized : serializePacket packet = .ok sent) :
      Effect (.packet payload past uninitialised random) s ((s.named start).queue (.loginSuccess packet) sent)
  | mismatched {payload past uninitialised random s response}
      (login : s.player.state = .login) (id : payload.packetId = 1) (decodes : Decodes env payload past response)
      (differ : response.verifyTokenValue ≠ s.player.verifyToken) :
      Effect (.packet payload past uninitialised random) s s
  | accepted {payload past uninitialised random s response}
      (login : s.player.state = .login) (id : payload.packetId = 1) (decodes : Decodes env payload past response)
      (same : response.verifyTokenValue = s.player.verifyToken) :
      Effect (.packet payload past uninitialised random) s (s.secured env response)
  | acknowledged {payload past uninitialised random s}
      (login : s.player.state = .login) (id : payload.packetId = 3) :
      Effect (.packet payload past uninitialised random) s (s.enter .configuration)
  | absent {index body past s} (none : s.requests[index]? = none) : Effect (.completion index body past) s s
  | joined {index body past s request packet sent} (some : s.requests[index]? = some request)
      (serialized : serializePacket packet = .ok sent) :
      Effect (.completion index body past) s
        ({ s with requests := s.requests.eraseIdx index }.queue (.loginSuccess packet) sent)

variable {env}
variable {payload : SPacketPayload} {past : Memory} {uninitialised : CUUID} {random : Nat → Fin 62}
variable {s t : Session} {accepted : Bool}

/- A payload is opened and read in one way. -/
theorem readUnique {α : Type} {read : CPacketReader → Except Fault (α × CPacketReader)} {a b : α}
    (left : ∃ reader r, openReader payload past = .ok reader ∧ read reader = .ok (a, r))
    (right : ∃ reader r, openReader payload past = .ok reader ∧ read reader = .ok (b, r)) : a = b := by
  obtain ⟨reader, r, opened, read⟩ := left
  obtain ⟨reader', r', opened', read'⟩ := right
  rw [opened] at opened'
  cases opened'
  rw [read] at read'
  cases read'
  rfl

theorem decodesUnique {response other : SEncryptionResponse}
    (left : Decodes env payload past response) (right : Decodes env payload past other) : response = other :=
  readUnique left right

theorem decodesStartUnique {start other : SLoginStart} (left : DecodesStart payload past uninitialised start)
    (right : DecodesStart payload past uninitialised other) : start = other :=
  readUnique left right

/- The success an offline server makes of a login start. -/
def offlineSuccess (start : SLoginStart) : SLoginSuccess :=
  { SLoginSuccess.fresh start.uuid with username := start.username }

theorem loginStartCases (ok : handleLoginStart env payload past uninitialised random s = .ok (accepted, t)) :
    ∃ start, DecodesStart payload past uninitialised start ∧
      ((env.isOnline = true ∧ ∃ request sent draws, draws.length = 64 ∧
          request.verifyToken = s.player.verifyToken ++ draws ∧ serializePacket request = .ok sent ∧
          t = (s.named start).challenged request sent) ∨
        (env.isOnline = false ∧ ∃ sent, serializePacket (offlineSuccess start) = .ok sent ∧
          t = (s.named start).queue (.loginSuccess (offlineSuccess start)) sent)) := by
  unfold handleLoginStart at ok
  obtain ⟨reader, opened, ok⟩ := okBind ok
  obtain ⟨⟨start, r⟩, read, ok⟩ := okBind ok
  refine ⟨start, ⟨reader, r, opened, read⟩, ?_⟩
  simp only at ok
  split at ok
  · rename_i online
    obtain ⟨next, ok, last⟩ := okBind ok
    unfold sendEncryptionRequest at ok
    obtain ⟨sent, serialized, ok⟩ := okBind ok
    cases ok
    cases last
    exact .inl ⟨online, _, sent, _, by simp, rfl, serialized, rfl⟩
  · rename_i offline
    obtain ⟨sent, serialized, ok⟩ := okBind ok
    cases ok
    exact .inr ⟨by simpa using offline, sent, serialized, rfl⟩

/- What a status request is answered with. -/
def statusAnswer (env : IGlobalEnvironment) : SStatusResponse env.toString :=
  { SStatusResponse.fresh env.toString with body := statusBody }

theorem statusCases (ok : handleStatus env payload s = .ok (accepted, t)) :
    (payload.packetId = 0 ∧ ∃ sent, serializePacket (statusAnswer env) = .ok sent ∧
      t = s.queue (.statusResponse statusBody) sent) ∨
    (payload.packetId = 1 ∧ t = s.queue .echo { payload with size := payload.size + 2 }) ∨
    (payload.packetId ≠ 0 ∧ payload.packetId ≠ 1 ∧ t = s) := by
  unfold handleStatus at ok
  split at ok
  · rename_i zero
    obtain ⟨sent, serialized, ok⟩ := okBind ok
    cases ok
    exact .inl ⟨zero, sent, serialized, rfl⟩
  · rename_i zero
    split at ok
    · rename_i one
      cases ok
      exact .inr (.inl ⟨one, rfl⟩)
    · rename_i one
      cases ok
      exact .inr (.inr ⟨zero, one, rfl⟩)

theorem hasJoinedCases {username body : Bytes} (ok : hasJoined env username body past s = .ok t) :
    ∃ id packet sent, replyId env body = .ok id ∧ packet.username = username ∧
      packet.id = fromStrFactory (convertSlimToFullUUID id) past ∧ serializePacket packet = .ok sent ∧
      t = s.queue (.loginSuccess packet) sent := by
  unfold hasJoined at ok
  obtain ⟨json, parsed, ok⟩ := okBind ok
  obtain ⟨id, found, ok⟩ := okBind ok
  obtain ⟨properties, _, ok⟩ := okBind ok
  obtain ⟨sent, serialized, ok⟩ := okBind ok
  cases ok
  refine ⟨id, _, sent, ?_, rfl, rfl, serialized, rfl⟩
  rw [replyId, parsed]
  exact found

theorem handshakeEffect (greeting : s.player.state = .handshake)
    (ok : handleHandshake payload past s = .ok (accepted, t)) :
    Effect env (.packet payload past uninitialised random) s t := by
  unfold handleHandshake at ok
  obtain ⟨reader, _, ok⟩ := okBind ok
  obtain ⟨⟨handshake, r⟩, _, ok⟩ := okBind ok
  have idle : Effect env (.packet payload past uninitialised random) s s :=
    .idle (fun login => by rw [greeting] at login; contradiction)
  simp only at ok
  split at ok
  · cases ok
    exact idle
  · split at ok
    · cases ok
      exact .entered greeting (.inl rfl)
    · split at ok
      · cases ok
        exact .entered greeting (.inr rfl)
      · cases ok
        exact idle

theorem statusEffect (status : s.player.state = .status)
    (ok : handleStatus env payload s = .ok (accepted, t)) :
    Effect env (.packet payload past uninitialised random) s t := by
  rcases statusCases ok with ⟨_, sent, _, rfl⟩ | ⟨_, rfl⟩ | ⟨_, _, rfl⟩
  · exact .answered status (.inl rfl)
  · exact .answered status (.inr rfl)
  · exact .idle (fun login => by rw [status] at login; contradiction)

theorem loginStartEffect (login : s.player.state = .login) (id : payload.packetId = 0)
    (ok : handleLoginStart env payload past uninitialised random s = .ok (accepted, t)) :
    Effect env (.packet payload past uninitialised random) s t := by
  obtain ⟨start, _, kinds⟩ := loginStartCases ok
  rcases kinds with ⟨online, request, sent, draws, drawn, token, serialized, rfl⟩ | ⟨offline, sent, serialized, rfl⟩
  · exact .requested start login id online drawn token serialized
  · exact .offline start login id offline serialized

theorem encryptionResponseEffect (login : s.player.state = .login) (id : payload.packetId = 1)
    (ok : handleEncryptionResponse env payload past s = .ok (accepted, t)) :
    Effect env (.packet payload past uninitialised random) s t := by
  unfold handleEncryptionResponse at ok
  obtain ⟨reader, opened, ok⟩ := okBind ok
  obtain ⟨⟨response, r⟩, read, ok⟩ := okBind ok
  simp only at ok
  split at ok
  · rename_i differ
    cases ok
    exact .mismatched login id ⟨reader, r, opened, read⟩ differ
  · rename_i same
    cases ok
    exact .accepted login id ⟨reader, r, opened, read⟩ (by simpa using same)

theorem loginEffect (login : s.player.state = .login)
    (ok : handleLogin env payload past uninitialised random s = .ok (accepted, t)) :
    Effect env (.packet payload past uninitialised random) s t := by
  unfold handleLogin at ok
  split at ok
  · exact loginStartEffect login (by assumption) ok
  · split at ok
    · exact encryptionResponseEffect login (by assumption) ok
    · split at ok
      · cases ok
        exact .acknowledged login (by assumption)
      · cases ok
        exact .idle (fun _ => ⟨by assumption, by assumption, by assumption⟩)

theorem stepLoginStart (login : s.player.state = .login) (id : payload.packetId = 0)
    (ok : step env (.packet payload past uninitialised random) s = .ok t) :
    ∃ accepted, handleLoginStart env payload past uninitialised random s = .ok (accepted, t) := by
  obtain ⟨⟨accepted, next⟩, handled, last⟩ := okBind ok
  cases last
  simp only [processPacket, login, handleLogin, if_pos id] at handled
  exact ⟨accepted, handled⟩

theorem stepCompletion {index : Nat} {body : Bytes} (ok : step env (.completion index body past) s = .ok t) :
    (s.requests[index]? = none ∧ t = s) ∨ ∃ request, s.requests[index]? = some request ∧
      hasJoined env request.username body past { s with requests := s.requests.eraseIdx index } = .ok t := by
  unfold step at ok
  cases found : s.requests[index]? with
  | none =>
    simp only [found] at ok
    cases ok
    exact .inl ⟨rfl, rfl⟩
  | some request =>
    simp only [found] at ok
    exact .inr ⟨request, rfl, ok⟩

theorem stepEffect {e : Event} (ok : step env e s = .ok t) : Effect env e s t := by
  cases e with
  | packet payload past uninitialised random =>
    obtain ⟨⟨accepted, next⟩, ok, last⟩ := okBind ok
    cases last
    unfold processPacket at ok
    cases state : s.player.state with
    | handshake =>
      rw [state] at ok
      exact handshakeEffect state ok
    | login =>
      rw [state] at ok
      exact loginEffect state ok
    | status =>
      rw [state] at ok
      exact statusEffect state ok
    | configuration =>
      rw [state] at ok
      cases ok
      exact .idle (fun login => by rw [state] at login; contradiction)
    | play =>
      rw [state] at ok
      cases ok
      exact .idle (fun login => by rw [state] at login; contradiction)
  | completion index body past =>
    rcases stepCompletion ok with ⟨none, rfl⟩ | ⟨request, found, joined⟩
    · exact .absent none
    · obtain ⟨id, packet, sent, _, _, _, serialized, rfl⟩ := hasJoinedCases joined
      exact .joined found serialized

end Mcpp.MCPlayer
