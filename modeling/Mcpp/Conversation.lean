import Mcpp.HasJoined
import Mcpp.Identity
import Mcpp.Serving
import Mcpp.UuidText
import Mcpp.VerifyToken

/-! Whole conversations with a client that keeps to the protocol, from its first byte: a
login without authentication, one with it, and a server list ping. What each handler makes
of an honest frame comes first; the run rule puts them together. -/
namespace Mcpp.Conversation
open Buffers Uuid PacketVisitor Packets SharedSecret Base128 Wire SerializePacket ClientConnection Frames Sending
open MCPlayer (IGlobalEnvironment Session Call CMCPlayer processPacket openReader protocolVersion hasJoinedUrl
  offlineSuccess statusAnswer statusBody)
open Run Boundary Serving VerifyToken

variable {env : IGlobalEnvironment} {block : BlockFunction} {s : Session}

/-! What an honest client sends. -/

structure Greeting (next : UInt8) where
  packet : SHandshake
  limits : Codec.InLimits (.handshake packet)
  version : packet.protocolVersion = protocolVersion
  asks : packet.nextState = next

structure Naming where
  packet : SLoginStart
  limits : Codec.InLimits (.loginStart packet)
  start : packet.packetId = 0

/- The shared secret and the token, each encrypted under the key the server sent. -/
structure Answer (env : IGlobalEnvironment) (token : Bytes) where
  secret : Bytes
  sized : secret.length = 16
  sharedSecret : Bytes
  verifyToken : Bytes
  sharedFits : sharedSecret.length ≤ 32767
  tokenFits : verifyToken.length ≤ 32767
  decryptsSecret : env.serverKeyPair.decrypt sharedSecret = secret
  decryptsToken : env.serverKeyPair.decrypt verifyToken = token

structure Acknowledgement where
  frame : Frame
  three : value frame.id = 3

def Greeting.frame {next : UInt8} (g : Greeting next) : Frame := frameOf g.packet

def Naming.frame (n : Naming) : Frame := frameOf n.packet

def Answer.frame {token : Bytes} (a : Answer env token) : Frame where
  id := encode 1
  body := (Field.string a.sharedSecret maxStringLength).bytes ++ (Field.string a.verifyToken maxStringLength).bytes
  complete := encodeClosed 1
  short := by simp [encodeSmall]

/-! Reading a frame. -/

theorem frameReads {P : Type} [Schema P] {fresh p : P} {carried : P → P} (limits : WithinLimits p)
    (round : RoundTrips fresh carried p) (past : Memory) : ∃ size r,
      serialize CPacketReader.visitor fresh { memory := buffer (frameOf p).bytes past } = .ok (carried (sized size p), r) ∧
      r.current = (frameOf p).bytes.length := by
  obtain ⟨written, rest, done, stored, size, _, reads⟩ := round
  obtain ⟨r, read, stop⟩ := reads [] past
  have sent : serializePacket p = .ok written.payload := by
    rw [serializePacket, done]
    rfl
  have same := Except.ok.inj (sent.symm.trans (serializedFrame limits))
  rw [same] at stored size stop
  have bytes : (frameOf p).bytes = encode rest.length ++ rest := Option.some.inj stored
  rw [List.append_nil, ← bytes] at read
  rw [← bytes] at size
  exact ⟨_, r, read, stop.trans size⟩

theorem handshakeWithin {p : SHandshake} (limits : Codec.InLimits (.handshake p)) : WithinLimits p := by
  obtain ⟨⟨positive, _⟩, version, address⟩ := limits
  refine withinLimits positive ?_ (by simp [Schema.fields, fieldBound])
  simp only [Schema.fields, List.forall_mem_cons]
  exact ⟨version, ⟨address, rfl⟩, trivial, trivial, by simp⟩

theorem loginStartWithin {p : SLoginStart} (limits : Codec.InLimits (.loginStart p)) : WithinLimits p := by
  obtain ⟨⟨positive, _⟩, username⟩ := limits
  refine withinLimits positive ?_ (by simp [Schema.fields, fieldBound])
  simp only [Schema.fields, List.forall_mem_cons]
  exact ⟨⟨username, rfl⟩, trivial, by simp⟩

theorem requestWithin {p : SEncryptionRequest} (limits : Codec.InLimits (.encryptionRequest p)) : WithinLimits p := by
  obtain ⟨⟨positive, _⟩, serverId, publicKey, verifyToken⟩ := limits
  refine withinLimits positive ?_ (by simp [Schema.fields, fieldBound, maxStringLength])
  simp only [Schema.fields, List.forall_mem_cons]
  exact ⟨⟨serverId, rfl⟩, ⟨publicKey, rfl⟩, ⟨verifyToken, rfl⟩, by simp⟩

/- What the response is read as. -/
def Answer.response {token : Bytes} (a : Answer env token) : SEncryptionResponse :=
  { SEncryptionResponse.fresh env.serverKeyPair with sharedSecret := a.secret, verifyTokenValue := token }

theorem answerSmall {token : Bytes} (a : Answer env token) : a.frame.content.length < 2^31 := by
  have shared := fieldBounded (.string a.sharedSecret maxStringLength)
  have token := fieldBounded (.string a.verifyToken maxStringLength)
  have limit : maxStringLength.toNat = 32767 := rfl
  have id : (encode 1).length = 1 := by simp [encodeSmall]
  simp only [fieldBound, limit] at shared token
  simp only [Frame.content, Answer.frame, List.length_append, id]
  omega

theorem answerReads {token : Bytes} (a : Answer env token) (past : Memory) : ∃ size r,
    serialize CPacketReader.visitor (SEncryptionResponse.fresh env.serverKeyPair)
      { memory := buffer a.frame.bytes past } = .ok ({ a.response with packetSize := size }, r) := by
  let base : IPacket := ⟨1, BitVec.ofNat 32 a.frame.content.length⟩
  have size : Reads (CPacketReader.onVarInt 0) base.packetSize _ := readsVarInt (by simp)
  have id : Reads (CPacketReader.onVarInt 1) 1 (encode 1) := readsVarInt (by decide)
  rw [(ofNatSmall (answerSmall a)).1] at size
  have begins : Reads (serializeBegin CPacketReader.visitor (Packet.base (SEncryptionResponse.fresh env.serverKeyPair)))
      base (encode a.frame.content.length ++ (encode 1 ++ [])) := readsBind size (readsBind id (readsPure base))
  have secret := readsString (by decide) (⟨a.sharedFits, rfl⟩ : (Field.string a.sharedSecret maxStringLength).Fits)
  have verify := readsString (by decide) (⟨a.tokenFits, rfl⟩ : (Field.string a.verifyToken maxStringLength).Fits)
  have value : ({ a.response with packetSize := base.packetSize } : SEncryptionResponse) =
      ⟨base, env.serverKeyPair, env.serverKeyPair.decrypt a.sharedSecret, env.serverKeyPair.decrypt a.verifyToken⟩ := by
    rw [a.decryptsSecret, a.decryptsToken]
    rfl
  have fields : Reads (Packet.serializeFields CPacketReader.visitor
      (Packet.setBase base (SEncryptionResponse.fresh env.serverKeyPair)))
      { a.response with packetSize := base.packetSize }
      ((Field.string a.sharedSecret maxStringLength).bytes ++ ((Field.string a.verifyToken maxStringLength).bytes ++ [])) := by
    rw [value]
    exact readsBind secret (readsBind verify (readsPure _))
  have packet : Reads (serialize CPacketReader.visitor (SEncryptionResponse.fresh env.serverKeyPair))
      { a.response with packetSize := base.packetSize } a.frame.bytes := by
    have ends : Reads (serializeEnd CPacketReader.visitor base >>= fun base =>
        pure (Packet.setBase base { a.response with packetSize := base.packetSize }))
        { a.response with packetSize := base.packetSize } ([] ++ []) := readsBind (readsPure base) (readsPure _)
    have bytes : a.frame.bytes = (encode a.frame.content.length ++ (encode 1 ++ [])) ++
        (((Field.string a.sharedSecret maxStringLength).bytes ++ ((Field.string a.verifyToken maxStringLength).bytes ++ [])) ++
          ([] ++ [])) := by
      simp only [Frame.bytes, List.append_nil, List.append_assoc]
      simp only [Frame.content, Answer.frame]
    rw [bytes, serialize]
    exact readsBind begins (readsBind fields ends)
  refine ⟨_, _, packet _ ?_⟩
  have held := bufferHolds [] a.frame.bytes [] past
  rw [List.nil_append, List.append_nil] at held
  exact held

theorem frameId {P : Type} [Schema P] (p : P) : (frameOf p).payload.packetId = (Packet.base p).packetId := by
  simp only [Frame.payload, frameOf, valueEncode, BitVec.ofNat_toNat, BitVec.setWidth_eq]

/-! What the handlers make of it. -/

theorem takesHandshake {next : UInt8} (g : Greeting next) (greeting : s.player.state = .handshake)
    (state : MCPlayer.EClientState) (known : next = 1 ∧ state = .status ∨ next = 2 ∧ state = .login) :
    Takes env (s = ·) g.frame.payload (s.enter state = ·) := by
  rintro _ x rfl
  obtain ⟨size, r, read, _⟩ := frameReads (handshakeWithin g.limits) (handshakeRoundTrips g.limits) x.past
  have version : (sized size g.packet).protocolVersion = protocolVersion := g.version
  have asks : (sized size g.packet).nextState = next := g.asks
  refine ⟨_, ?_, rfl⟩
  simp only [processPacket, greeting, MCPlayer.handleHandshake, openReader, Greeting.frame, Frame.payload, bindOk, read, id_eq,
    version, ne_eq, not_true_eq_false, ite_false, asks]
  rcases known with ⟨rfl, rfl⟩ | ⟨rfl, rfl⟩
  · rfl
  · rfl

theorem loginStartBranch {payload : SPacketPayload} (x : Surroundings) (login : s.player.state = .login)
    (start : payload.packetId = 0) : processPacket env payload x.past x.uninitialised x.random s =
      MCPlayer.handleLoginStart env payload x.past x.uninitialised x.random s := by
  simp only [processPacket, login, MCPlayer.handleLogin, start, ite_true]

theorem namingId (n : Naming) : n.frame.payload.packetId = 0 := (frameId n.packet).trans n.start

theorem successSent {p : SLoginSuccess} (id : p.packetId = 0x02) (username : p.username.length ≤ 16) :
    serializePacket p = .ok (frameOf p).payload := by
  refine serializedFrame (loginSuccessWithin ?_ username)
  rw [id]
  rfl

/- The player goes by the name and the UUID of its login start. -/
theorem takesNaming (n : Naming) (login : s.player.state = .login) (offline : env.isOnline = false) :
    Takes env (s = ·) n.frame.payload ((s.named n.packet).queue (.loginSuccess (offlineSuccess n.packet))
      (frameOf (offlineSuccess n.packet)).payload = ·) := by
  rintro _ x rfl
  obtain ⟨size, r, read, _⟩ := frameReads (loginStartWithin n.limits) (loginStartRoundTrips n.limits x.uninitialised) x.past
  have sent : serializePacket (offlineSuccess n.packet) = .ok (frameOf (offlineSuccess n.packet)).payload :=
    successSent rfl n.limits.2
  refine ⟨_, ?_, rfl⟩
  rw [loginStartBranch x login (namingId n)]
  simp only [MCPlayer.handleLoginStart, openReader, Naming.frame, Frame.payload, bindOk, read, offline,
    Bool.false_eq_true, ite_false]
  change (serializePacket (offlineSuccess n.packet) >>= _) = _
  rw [sent]
  rfl

/- The request that carries a token. -/
def requestOf (env : IGlobalEnvironment) (token : Bytes) : SEncryptionRequest := { SEncryptionRequest.fresh with
  publicKeyLength := BitVec.ofNat 32 env.serverKeyPair.asnDerKey.length
  publicKey := env.serverKeyPair.asnDerKey
  verifyTokenLength := BitVec.ofNat 32 token.length
  verifyToken := token }

theorem requestLimits {token : Bytes} (key : env.serverKeyPair.asnDerKey.length ≤ 32767) (room : token.length ≤ 32767) :
    Codec.InLimits (.encryptionRequest (requestOf env token)) :=
  ⟨⟨(by decide : (1 : BitVec 32).msb = false), (by decide : (1 : BitVec 32) ||| 1 = 1)⟩, Nat.zero_le 20, key, room⟩

theorem requestSent {token : Bytes} (key : env.serverKeyPair.asnDerKey.length ≤ 32767) (room : token.length ≤ 32767) :
    serializePacket (requestOf env token) = .ok (frameOf (requestOf env token)).payload :=
  serializedFrame (requestWithin (requestLimits key room))

/- The session behind an online login start, with the token it drew. -/
def Challenged (env : IGlobalEnvironment) (s : Session) (n : Naming) (t : Session) : Prop := ∃ random,
  t = (s.named n.packet).challenged (requestOf env (s.player.verifyToken ++ drawn random))
    (frameOf (requestOf env (s.player.verifyToken ++ drawn random))).payload

theorem takesNamingOnline (n : Naming) (login : s.player.state = .login) (online : env.isOnline = true)
    (key : env.serverKeyPair.asnDerKey.length ≤ 32767) (room : s.player.verifyToken.length + 64 ≤ 32767) :
    Takes env (s = ·) n.frame.payload (Challenged env s n) := by
  rintro _ x rfl
  obtain ⟨size, r, read, _⟩ := frameReads (loginStartWithin n.limits) (loginStartRoundTrips n.limits x.uninitialised) x.past
  have short : (s.player.verifyToken ++ drawn x.random).length ≤ 32767 := by simpa [drawnLength] using room
  have sent := requestSent key short
  refine ⟨_, ?_, x.random, rfl⟩
  rw [loginStartBranch x login (namingId n)]
  simp only [MCPlayer.handleLoginStart, openReader, Naming.frame, Frame.payload, bindOk, read, online, ite_true,
    MCPlayer.sendEncryptionRequest]
  change (serializePacket (requestOf env (s.player.verifyToken ++ drawn x.random)) >>= _) >>= _ = _
  rw [sent]
  rfl

theorem responseBranch {payload : SPacketPayload} (x : Surroundings) (login : s.player.state = .login)
    (one : payload.packetId = 1) : processPacket env payload x.past x.uninitialised x.random s =
      MCPlayer.handleEncryptionResponse env payload x.past s := by
  have zero : ¬ payload.packetId = 0 := by
    rw [one]
    decide
  simp only [processPacket, login, MCPlayer.handleLogin, if_neg zero, if_pos one]

theorem takesAnswer (login : s.player.state = .login) (a : Answer env s.player.verifyToken) :
    Takes env (s = ·) a.frame.payload (s.secured env a.response = ·) := by
  rintro _ x rfl
  obtain ⟨size, r, read⟩ := answerReads a x.past
  have one : a.frame.payload.packetId = 1 := congrArg (BitVec.ofNat 32) (valueEncode 1)
  refine ⟨_, ?_, rfl⟩
  rw [responseBranch x login one]
  simp only [MCPlayer.handleEncryptionResponse, openReader, Frame.payload, bindOk, read]
  simp only [Answer.response, ne_eq, not_true_eq_false, ite_false]
  rfl

theorem takesAcknowledgement (login : s.player.state = .login) (a : Acknowledgement) :
    Takes env (s = ·) a.frame.payload (s.enter .configuration = ·) := by
  rintro _ x rfl
  have three : a.frame.payload.packetId = 3 := congrArg (BitVec.ofNat 32) a.three
  have zero : ¬ a.frame.payload.packetId = 0 := by
    rw [three]
    decide
  have one : ¬ a.frame.payload.packetId = 1 := by
    rw [three]
    decide
  refine ⟨_, ?_, rfl⟩
  simp only [processPacket, login, MCPlayer.handleLogin, if_neg zero, if_neg one, if_pos three]

/-! What the client makes of what it is sent. -/

/- What is sent for a payload, once the client has undone the encryption, it reads in full
as a packet that is `good`. -/
def Delivers {P : Type} [Packet P] (block : BlockFunction) (c : CClientConnection) (sent : SPacketPayload)
    (fresh : CUUID → P) (good : P → Prop) : Prop :=
  ∀ (d : Dequeued) heap, d.payload = sent → ∃ wire, outgoing block c heap d = .ok wire ∧ ∀ uninitialised past, ∃ p r,
    serialize CPacketReader.visitor (fresh uninitialised) { memory := buffer (offWire block c wire) past } = .ok (p, r) ∧
    r.current = (offWire block c wire).length ∧ good p

theorem frameSent {f : Frame} (small : f.payload.size.toNat = f.bytes.length) {d : Dequeued} (same : d.payload = f.payload) :
    d.bytes = f.bytes := by
  rw [Dequeued.bytes, same, small]
  exact (bufferSlice (by simp [Frame.payload])).trans (by simp [Frame.payload])

theorem delivers {P : Type} [Schema P] {c : CClientConnection} (usable : Usable c) {fresh : CUUID → P} {p : P}
    {carried : P → P} {good : P → Prop} (limits : WithinLimits p)
    (round : ∀ uninitialised, RoundTrips (fresh uninitialised) carried p) (kept : ∀ size, good (carried (sized size p))) :
    Delivers block c (frameOf p).payload fresh good := by
  intro d heap same
  have bytes := frameSent (f := frameOf p) (framedSmall limits) same
  refine ⟨onWire block c d.bytes, outgoingExact usable d heap, ?_⟩
  rw [offWireOnWire, bytes]
  intro uninitialised past
  obtain ⟨size, r, read, stop⟩ := frameReads limits (round uninitialised) past
  exact ⟨_, r, read, stop, kept size⟩

/- A SLoginSuccess with this name and UUID. -/
def Announces (block : BlockFunction) (c : CClientConnection) (sent : SPacketPayload) (username : Bytes) (uuid : CUUID) :
    Prop := Delivers block c sent SLoginSuccess.fresh fun p => p.username = username ∧ p.id = uuid

theorem successAnnounces {c : CClientConnection} (usable : Usable c) {p : SLoginSuccess} (id : p.packetId = 0x02)
    (username : p.username.length ≤ 16) : Announces block c (frameOf p).payload p.username p.id := by
  have limits : Codec.InLimits (.loginSuccess p) := by
    rw [Codec.InLimits, id]
    exact ⟨⟨by decide, by decide⟩, username⟩
  exact delivers usable (loginSuccessWithin limits.1.1 username) (loginSuccessRoundTrips limits) (fun _ => ⟨rfl, rfl⟩)

/-! A login without authentication. -/

/- A chunk that holds one frame. -/
def alone (block : BlockFunction) (c : CClientConnection) (f : Frame) (small : f.content.length ≤ 507) : Chunk where
  bytes := onWire block c f.bytes
  received := by
    have some := contentNonempty f
    rw [onWireLength, Frames.bytesLength]
    omega
  fits := by
    have header := (widthLe f.content.length 4).mpr (by omega)
    rw [onWireLength, Frames.bytesLength, defaultBuflen]
    omega

def still : Nat → Surroundings := fun _ => ⟨fun _ => 0, .ofWords 0 0, MCPlayer.steady⟩

def bring (block : BlockFunction) (c : CClientConnection) (f : Frame) (small : f.content.length ≤ 507) : Boundary.Event :=
  .receive (alone block c f small) (fun _ => 0) ⟨fun _ => 0, fun _ => 0⟩ still

theorem bringsAlone (c : CClientConnection) (f : Frame) (small : f.content.length ≤ 507) {events frames}
    (more : Brings block c events frames) : Brings block c (bring block c f small :: events) (f :: frames) := by
  have arrives : (alone block c f small).bytes = onWire block c ([f].flatMap Frame.bytes) := by simp [alone]
  exact .received arrives _ _ _ more

theorem contentSmall {P : Type} [Schema P] (p : P) (bound : ((Schema.fields p).map fieldBound).sum ≤ 502) :
    (frameOf p).content.length ≤ 507 := by
  have id := (frameOf p).short
  have fields := fieldsBounded (Schema.fields p)
  have body : (frameOf p).body = (Schema.fields p).flatMap Field.bytes := rfl
  rw [Frame.content, List.length_append, body]
  omega

theorem greetingSmall {next : UInt8} (g : Greeting next) : g.frame.content.length ≤ 507 :=
  contentSmall g.packet (by simp [Schema.fields, fieldBound])

theorem namingSmall (n : Naming) : n.frame.content.length ≤ 507 :=
  contentSmall n.packet (by simp [Schema.fields, fieldBound])

/- A client called Steve. -/
def hello : Greeting 2 where
  packet := { SHandshake.fresh with protocolVersion := 772, nextState := 2 }
  limits := ⟨⟨rfl, rfl⟩, rfl, Nat.zero_le 32⟩
  version := rfl
  asks := rfl

def steve : Naming where
  packet := { SLoginStart.fresh (.ofWords 0 0) with username := MCPlayer.ascii "Steve", uuid := .ofWords 1 2 }
  limits := ⟨⟨rfl, rfl⟩, by decide⟩
  start := rfl

def ready : Acknowledgement := ⟨⟨[3], [], by decide, by decide⟩, by decide⟩

theorem offlineLogin (offline : env.isOnline = false) (uninitialised : CUUID) (g : Greeting 2) (n : Naming)
    (a : Acknowledgement) {events : List Boundary.Event} (brings : Brings block {} events [g.frame, n.frame, a.frame]) :
    ∃ s, Path (step env block) { session := .fresh uninitialised } events { session := s } ∧
      s.player = ⟨n.packet.username, .configuration, n.packet.uuid, []⟩ ∧ s.connection = {} ∧ s.requests = [] ∧
      ∃ sent, s.calls = [.queuePacket (.loginSuccess (offlineSuccess n.packet)) sent] ∧
        Announces block {} sent n.packet.username n.packet.uuid := by
  have serves : Serves env {} (Session.fresh uninitialised = ·) ([g.frame, n.frame, a.frame].map Frame.payload) _ :=
    .cons (by rintro _ rfl; rfl) (takesHandshake g rfl .login (.inr ⟨rfl, rfl⟩))
      (.cons (by rintro _ rfl; rfl) (takesNaming n rfl offline)
        (.cons (by rintro _ rfl; rfl) (takesAcknowledgement rfl a) .nil))
  obtain ⟨s, path, rfl⟩ := servesRun (.inl rfl) brings serves rfl
  exact ⟨_, path, rfl, rfl, rfl, _, rfl, successAnnounces (.inl rfl) rfl n.limits.2⟩

theorem offlineLoginSteve : ∃ s, Path (step Identity.offlineServer (fun _ _ => [])) { session := .fresh (.ofWords 0 0) }
    [bring (fun _ _ => []) {} hello.frame (greetingSmall hello), bring (fun _ _ => []) {} steve.frame (namingSmall steve),
      bring (fun _ _ => []) {} ready.frame (by decide)] { session := s } ∧ s.player.username = MCPlayer.ascii "Steve" := by
  have offline : Identity.offlineServer.isOnline = false := rfl
  obtain ⟨s, path, player, _⟩ := offlineLogin offline (.ofWords 0 0) hello steve ready
    (bringsAlone {} _ _ (bringsAlone {} _ _ (bringsAlone {} _ _ .nil)))
  exact ⟨s, path, by rw [player]; rfl⟩

/-! A login with it. -/

/- A reply of the session server that names the player by 32 digits. -/
structure Reply (env : IGlobalEnvironment) (body : Bytes) where
  members : List (Bytes × Json)
  id : Bytes
  parsed : env.parse body = some (.object members)
  found : members.lookup (MCPlayer.ascii "id") = some (.string id)
  length : id.length = 32
  digits : ∀ c ∈ id, AuthHash.LowerHex c
  formed : ∀ items, members.lookup (MCPlayer.ascii "properties") = some (.array items) →
    ∀ prop ∈ items, HasJoined.PropertyFormed false prop

theorem replyJoins {body : Bytes} (r : Reply env body) {username : Bytes} (short : username.length ≤ 16) (past : Memory)
    (s : Session) : ∃ p : SLoginSuccess, p.packetId = 0x02 ∧ p.username = username ∧
      p.id = fromStrFactory (convertSlimToFullUUID r.id) past ∧
      MCPlayer.hasJoined env username body past s = .ok (s.queue (.loginSuccess p) (frameOf p).payload) := by
  have properties : ∃ list, (MCPlayer.member (MCPlayer.ascii "properties") (.object r.members) >>= MCPlayer.getProperties) =
      .ok list := by
    simp only [MCPlayer.member, bindOk]
    cases present : r.members.lookup (MCPlayer.ascii "properties") with
    | none => exact ⟨[], rfl⟩
    | some value =>
      cases value with
      | array items => exact HasJoined.propertiesFound (r.formed items present)
      | _ => exact ⟨[], rfl⟩
  obtain ⟨list, read⟩ := properties
  have named : (MCPlayer.member (MCPlayer.ascii "id") (.object r.members) >>= MCPlayer.getString) = .ok r.id := by
    simp [MCPlayer.member, r.found, bindOk, MCPlayer.getString]
  refine ⟨{ SLoginSuccess.fresh (fromStrFactory (convertSlimToFullUUID r.id) past) with
    username := username, properties := list }, rfl, rfl, rfl, ?_⟩
  simp only [MCPlayer.hasJoined, MCPlayer.parse, r.parsed, bindOk, named, read]
  rw [successSent rfl short]
  rfl

/- The challenge is out: the client reads the server's key and the token that is kept. -/
structure Asked (env : IGlobalEnvironment) (block : BlockFunction) (n : Naming) (s : Session) : Prop where
  login : s.player.state = .login
  named : s.player.username = n.packet.username ∧ s.player.uuid = n.packet.uuid
  length : s.player.verifyToken.length = 64
  connection : s.connection = {}
  requests : s.requests = []
  calls : ∃ request sent, s.calls = [.queuePacket (.encryptionRequest request) sent] ∧
    Delivers block {} sent (fun _ => SEncryptionRequest.fresh) fun p =>
      p.publicKey = env.serverKeyPair.asnDerKey ∧ p.verifyToken = s.player.verifyToken

/- The answer was taken: encryption is on with the client's secret, and one request is out. -/
structure Secured (env : IGlobalEnvironment) (secret : Bytes) (s t : Session) : Prop where
  player : t.player = s.player
  connection : t.connection = { encryptionEnabled := true, secret := some ⟨secret⟩ }
  requests : t.requests = [⟨hasJoinedUrl s.player.username (env.generateHexDigest env.serverKeyPair.asnDerKey secret),
    s.player.username⟩]
  calls : t.calls = s.calls ++ [.secure s.player.verifyToken secret]

/- The reply came: the client reads its name and the UUID the session server gave. -/
structure Joined (block : BlockFunction) (id : Bytes) (t u : Session) : Prop where
  player : u.player = t.player
  connection : u.connection = t.connection
  requests : u.requests = []
  calls : ∃ packet sent uuid, u.calls = t.calls ++ [.queuePacket (.loginSuccess packet) sent] ∧
    Announces block t.connection sent t.player.username uuid ∧ ∀ undefined, uuid.str undefined = convertSlimToFullUUID id

theorem challengedAsked (key : env.serverKeyPair.asnDerKey.length ≤ 32767) {n : Naming} {s t : Session}
    (login : s.player.state = .login) (token : s.player.verifyToken = []) (plain : s.connection = {})
    (none : s.requests = []) (uncalled : s.calls = []) (challenged : Challenged env s n t) : Asked env block n t := by
  obtain ⟨random, rfl⟩ := challenged
  have length : (s.player.verifyToken ++ drawn random).length = 64 := by
    rw [token, List.nil_append, drawnLength]
  let request := requestOf env (s.player.verifyToken ++ drawn random)
  have limits : Codec.InLimits (.encryptionRequest request) := requestLimits key (by omega)
  refine ⟨login, ⟨rfl, rfl⟩, length, plain, none, request, (frameOf request).payload, ?_, ?_⟩
  · simp only [Session.challenged, Session.queue, Session.named, uncalled, List.nil_append]
    rfl
  · exact delivers (.inl rfl) (requestWithin limits) (fun _ => encryptionRequestRoundTrips limits) (fun _ => ⟨rfl, rfl⟩)

theorem repliedJoined (block : BlockFunction) {body : Bytes} (r : Reply env body) {s t : Session} {secret : Bytes}
    (sized : secret.length = 16)
    (short : s.player.username.length ≤ 16) (secured : Secured env secret s t) (past : Memory) :
    ∃ u, step env block (.completion 0 body past) { session := t } = .ok { session := u } ∧ Joined block r.id t u := by
  obtain ⟨p, id, username, uuid, joined⟩ := replyJoins r short past { t with requests := t.requests.eraseIdx 0 }
  refine ⟨{ t with requests := t.requests.eraseIdx 0 }.queue (.loginSuccess p) (frameOf p).payload, ?_, rfl, rfl, ?_, p,
    (frameOf p).payload, p.id, rfl, ?_, ?_⟩
  · simp only [step, MCPlayer.step, secured.requests, List.getElem?_cons_zero]
    rw [secured.requests] at joined
    rw [joined]
    rfl
  · simp [Session.queue, secured.requests]
  · have usable : Usable t.connection := by
      rw [secured.connection]
      exact .inr ⟨rfl, ⟨secret⟩, rfl, sized⟩
    rw [secured.player, ← username]
    exact successAnnounces usable id (by rw [username]; exact short)
  · intro undefined
    rw [uuid]
    exact UuidText.printedText r.length r.digits (fun i inside => UuidText.parsedPairs r.length r.digits past inside) undefined

/- However the frames are cut and whatever is sent in between: the challenge, then for every
answer to it the key and the request, then for every reply the SLoginSuccess, encrypted, and
behind the acknowledgement, encrypted by the client, the player is in. -/
theorem onlineLogin (online : env.isOnline = true) (key : env.serverKeyPair.asnDerKey.length ≤ 32767)
    (uninitialised : CUUID) (g : Greeting 2) (n : Naming) {events : List Boundary.Event}
    (brings : Brings block {} events [g.frame, n.frame]) :
    ∃ s, Path (step env block) { session := .fresh uninitialised } events { session := s } ∧ Asked env block n s ∧
      ∀ (a : Answer env s.player.verifyToken) (more : List Boundary.Event), Brings block {} more [a.frame] →
      ∃ t, Path (step env block) { session := s } more { session := t } ∧ Secured env a.secret s t ∧
        ∀ body past, (r : Reply env body) →
        ∃ u, step env block (.completion 0 body past) { session := t } = .ok { session := u } ∧ Joined block r.id t u ∧
          ∀ (ack : Acknowledgement) (last : List Boundary.Event), Brings block u.connection last [ack.frame] →
            Path (step env block) { session := u } last { session := u.enter .configuration } := by
  have serves : Serves env {} (Session.fresh uninitialised = ·) ([g.frame, n.frame].map Frame.payload) _ :=
    .cons (by rintro _ rfl; rfl) (takesHandshake g rfl .login (.inr ⟨rfl, rfl⟩))
      (.cons (by rintro _ rfl; rfl) (takesNamingOnline n rfl online key (by simp [Session.fresh, Session.enter])) .nil)
  obtain ⟨s, path, challenged⟩ := servesRun (.inl rfl) brings serves rfl
  have asked : Asked env block n s := challengedAsked key rfl rfl rfl rfl rfl challenged
  refine ⟨s, path, asked, ?_⟩
  intro a more brings
  have answers : Serves env {} (s = ·) ([a.frame].map Frame.payload) _ :=
    .cons (by rintro _ rfl; exact asked.connection) (takesAnswer asked.login a) .nil
  obtain ⟨t, path, rfl⟩ := servesRun (.inl rfl) brings answers rfl
  have secured : Secured env a.secret s (s.secured env a.response) := by
    refine ⟨rfl, rfl, ?_, rfl⟩
    simp only [Session.secured, asked.requests, List.nil_append]
    rfl
  refine ⟨_, path, secured, ?_⟩
  intro body past r
  have short : s.player.username.length ≤ 16 := by
    rw [asked.named.1]
    exact n.limits.2
  obtain ⟨u, replied, joined⟩ := repliedJoined block r a.sized short secured past
  refine ⟨u, replied, joined, ?_⟩
  intro ack last brings
  have usable : Usable u.connection := by
    rw [joined.connection, secured.connection]
    exact .inr ⟨rfl, ⟨a.secret⟩, rfl, a.sized⟩
  have login : u.player.state = .login := by rw [joined.player, secured.player, asked.login]
  have enters : Serves env u.connection (u = ·) ([ack.frame].map Frame.payload) _ :=
    .cons (by rintro _ rfl; rfl) (takesAcknowledgement login ack) .nil
  obtain ⟨v, path, rfl⟩ := servesRun usable brings enters rfl
  exact path

def zeros : Bytes := List.replicate 16 0

theorem zerosFit : zeros.length ≤ 32767 := by decide

theorem lengthFits {token : Bytes} (length : token.length = 64) : token.length ≤ 32767 := by omega

/- The answer of a client where nothing is encrypted, and a reply with a property. -/
def openAnswer {token : Bytes} (length : token.length = 64) : Answer MCPlayer.knowingServer token where
  secret := zeros
  sized := rfl
  sharedSecret := zeros
  verifyToken := token
  sharedFits := zerosFit
  tokenFits := lengthFits length
  decryptsSecret := rfl
  decryptsToken := rfl

theorem stringBounded {s : Bytes} {maxSize : BitVec 32} (short : s.length < 2^31) :
    (Field.string s maxSize).bytes.length ≤ 5 + s.length := by
  have header := (widthLe s.length 4).mpr (by omega)
  unfold width at header
  rw [Field.bytes]
  split
  · simp
  · rw [List.length_append]
    omega

theorem openAnswerSmall {token : Bytes} (length : token.length = 64) : (openAnswer length).frame.content.length ≤ 507 := by
  have secret : (Field.string zeros maxStringLength).bytes.length ≤ _ := stringBounded (by decide)
  have verify : (Field.string token maxStringLength).bytes.length ≤ _ := stringBounded (by omega)
  have id : (encode 1).length = 1 := by simp [encodeSmall]
  have sixteen : zeros.length = 16 := rfl
  simp only [Frame.content, Answer.frame, openAnswer, List.length_append, id]
  omega

def known : Reply MCPlayer.knowingServer MCPlayer.profile where
  members := MCPlayer.profileMembers
  id := List.replicate 32 49
  parsed := by simp [MCPlayer.knowingServer]
  found := rfl
  length := rfl
  digits := by simp [AuthHash.LowerHex]
  formed := by
    intro items present prop mem
    cases present
    rw [List.mem_singleton.mp mem]
    exact ⟨_, rfl, ⟨_, rfl⟩, ⟨_, rfl⟩, .inl ⟨_, rfl⟩⟩

theorem onlineLoginSteve : ∃ events s, Path (step MCPlayer.knowingServer (fun _ _ => []))
    { session := .fresh (.ofWords 0 0) } events { session := s } ∧ s.player.state = .configuration ∧
    s.connection.encryptionEnabled = true := by
  have online : MCPlayer.knowingServer.isOnline = true := rfl
  have brings : Brings (fun _ _ => []) {} _ [hello.frame, steve.frame] :=
    bringsAlone {} _ (greetingSmall hello) (bringsAlone {} _ (namingSmall steve) .nil)
  obtain ⟨s, asks, asked, answering⟩ := onlineLogin online (Nat.zero_le _) (.ofWords 0 0) hello steve brings
  obtain ⟨t, answers, secured, replying⟩ := answering (openAnswer asked.length) _ (bringsAlone {} _ (openAnswerSmall _) .nil)
  obtain ⟨u, replies, joined, acknowledging⟩ := replying _ (fun _ => 0) known
  have enters := acknowledging ready _ (bringsAlone u.connection _ (by decide) .nil)
  have one : Path (step MCPlayer.knowingServer fun _ _ => []) { session := t }
    ([] ++ [.completion 0 MCPlayer.profile fun _ => 0]) { session := u } := .next .start replies
  refine ⟨_, _, pathAppend asks (pathAppend answers (pathAppend one enters)), rfl, ?_⟩
  exact (congrArg CClientConnection.encryptionEnabled (joined.connection.trans secured.connection))

end Mcpp.Conversation
