import Mcpp.Callbacks
import Mcpp.Frames
import Mcpp.Oversized

/-! The reply to a hasJoined request, as CCurlProcessor hands it to the callback: the body
that came, and success whatever became of the transfer. The callback parses the body before
it looks at anything, looks at neither the flag nor the form of the id, and reaches its
player through a pointer that keeps nothing alive. -/
namespace Mcpp.HasJoined
open Buffers Uuid PacketVisitor Packets Base128 VarInt Wire SerializePacket Oversized Frames MCPlayer Run
open Server (CSystem Alive completeOk completing)

variable {env : IGlobalEnvironment}

/- How a transfer ended, with the HTTP status of its response and as much of the body as came. -/
structure Transfer where
  succeeded : Bool
  status : Nat
  body : Bytes

/- ThreadUpdate calls the callback of every finished transfer with true. -/
def deliver {α : Type} (transfer : Transfer) (callback : Bool → Bytes → α) : α := callback true transfer.body

/- The callback of a request of player `p`, as a step of the curl thread. -/
def callback (p index : Nat) (past : Memory) (_ : Bool) (body : Bytes) : Server.Event := .complete p index body past

/-! Which replies ask for a SLoginSuccess. -/

def Hexadecimal (c : UInt8) : Prop :=
  (48 ≤ c ∧ c ≤ 57) ∨ (65 ≤ c ∧ c ≤ 70) ∨ (97 ≤ c ∧ c ≤ 102)

def HasString (key : Bytes) (members : List (Bytes × Json)) : Prop :=
  ∃ value, members.lookup key = some (.string value)

/- Where a signature is not demanded, a property may be without one. -/
def PropertyFormed (demanded : Bool) (prop : Json) : Prop := ∃ members, prop = .object members ∧
  HasString (ascii "name") members ∧ HasString (ascii "value") members ∧
    (HasString (ascii "signature") members ∨ (demanded = false ∧ members.lookup (ascii "signature") = none))

def BodyFormed (env : IGlobalEnvironment) (demanded : Bool) (body : Bytes) : Prop :=
  ∃ members id, env.parse body = some (.object members) ∧ members.lookup (ascii "id") = some (.string id) ∧
    id.length = 32 ∧ (∀ c ∈ id, Hexadecimal c) ∧
    ∀ items, members.lookup (ascii "properties") = some (.array items) → ∀ prop ∈ items, PropertyFormed demanded prop

def Confirms (env : IGlobalEnvironment) (demanded : Bool) (transfer : Transfer) : Prop :=
  transfer.succeeded = true ∧ BodyFormed env demanded transfer.body

/- The frame of a SLoginSuccess: its length, its id, the UUID, the name in full and no property. -/
def successBody (packet : SLoginSuccess) : Bytes :=
  [2] ++ packet.id.data ++ (encode packet.username.length ++ packet.username) ++ [0]

/- The payload is that frame, and nothing was stored outside its allocation. -/
def Whole (packet : SLoginSuccess) (sent : SPacketPayload) : Prop :=
  StaysInside packet ∧ sent.payload = some (encode (successBody packet).length ++ successBody packet)

/- The callback of a request of player `p` ends, on a player that is still there, without an
exception; a reply that confirms the player queues one SLoginSuccess, any other queues nothing. -/
def Survives (env : IGlobalEnvironment) (demanded : Bool) (p index : Nat) (request : HttpGet) (transfer : Transfer)
    (past : Memory) (s : CSystem) : Prop :=
  let answered := { s.sessions p with requests := (s.sessions p).requests.eraseIdx index }
  ∃ t, Server.step env (deliver transfer (callback p index past)) s = .ok t ∧
    (Confirms env demanded transfer → ∃ packet sent, packet.username = request.username ∧ Whole packet sent ∧
      t = { s with sessions := Function.update s.sessions p (answered.queue (.loginSuccess packet) sent) }) ∧
    (¬ Confirms env demanded transfer → t = { s with sessions := Function.update s.sessions p answered })

theorem propertyFound {demanded : Bool} {prop : Json} (formed : PropertyFormed demanded prop) :
    ∃ p, property prop = .ok p := by
  obtain ⟨members, rfl, ⟨name, named⟩, ⟨value, valued⟩, signed⟩ := formed
  rcases signed with ⟨signature, signed⟩ | ⟨_, unsigned⟩
  · exact ⟨⟨name, value, true, signature⟩, by simp [property, member, contains, named, valued, signed, getString]; rfl⟩
  · exact ⟨⟨name, value, false, []⟩, by simp [property, member, contains, named, valued, unsigned, getString]; rfl⟩

theorem propertiesFound {demanded : Bool} {items : List Json}
    (formed : ∀ prop ∈ items, PropertyFormed demanded prop) : ∃ properties, items.mapM property = .ok properties := by
  induction items with
  | nil => exact ⟨[], rfl⟩
  | cons prop rest ih =>
    obtain ⟨p, first⟩ := propertyFound (formed prop (by simp))
    obtain ⟨properties, others⟩ := ih (fun prop mem => formed prop (by simp [mem]))
    exact ⟨p :: properties, by rw [List.mapM_cons, first, bindOk, others, bindOk]; rfl⟩

theorem replyRead {demanded : Bool} {body : Bytes} (username : Bytes) (past : Memory) (s : Session)
    (formed : BodyFormed env demanded body) :
    ∃ packet : SLoginSuccess, packet.packetId = 0x02 ∧ packet.username = username ∧
      hasJoined env username body past s =
        (do let payload ← serializePacket packet; pure (s.queue (.loginSuccess packet) payload)) := by
  obtain ⟨members, id, parsed, found, _, _, properties⟩ := formed
  have read : ∃ list, (member (ascii "properties") (.object members) >>= getProperties) = .ok list := by
    simp only [member, bindOk]
    cases present : members.lookup (ascii "properties") with
    | none => exact ⟨[], rfl⟩
    | some value =>
      cases value with
      | array items => exact propertiesFound (properties items present)
      | _ => exact ⟨[], rfl⟩
  obtain ⟨list, read⟩ := read
  refine ⟨{ SLoginSuccess.fresh (fromStrFactory (convertSlimToFullUUID id) past) with
    username := username, properties := list }, rfl, rfl, ?_⟩
  have named : (member (ascii "id") (.object members) >>= getString) = .ok id := by
    simp [member, found, bindOk, getString]
  simp only [hasJoined, parse, parsed, bindOk, named, read]

/-! The frame of a SLoginSuccess is whole exactly up to a name of 16 bytes. -/

theorem wholeFits {p : SLoginSuccess} (id : p.packetId = 0x02) (short : p.username.length ≤ 16) :
    ∃ sent, serializePacket p = .ok sent ∧ Whole p sent := by
  have positive : p.packetId.msb = false := by
    rw [id]
    rfl
  have inside : lengthSize p.username ≤ 16 := Nat.le_trans (Nat.mod_le ..) short
  refine ⟨_, serializedFrame (loginSuccessWithin positive short), (loginSuccessContained positive).mpr (.inl inside), ?_⟩
  have content : (frameOf p).content = successBody p := by
    have long : ¬ p.username.length > BitVec.toNat (16 : BitVec 32) := Nat.not_lt.mpr short
    simp only [Frame.content, frameOf, successBody, Packet.base, Schema.fields, id, List.flatMap_cons, List.flatMap_nil,
      Field.bytes, if_neg long]
    simp [encodeSmall]
  rw [Frame.payload, Frame.bytes, content]

theorem successSized {p : SLoginSuccess} {c : CPacketSizeCalc} (id : p.packetId = 0x02)
    (long : 16 < lengthSize p.username) (ok : sizing p = .ok c) : c.getFullSize.toNat ≤ 22 := by
  have around : (.varInt (Packet.base p).packetId :: Schema.fields p : List Field) =
      [.varInt p.packetId, .uuid p.id] ++ .string p.username 16 :: [.varInt 0] := rfl
  have counts : ∀ f ∈ [Field.varInt p.packetId, Field.uuid p.id], Counted f := by
    simp only [List.forall_mem_cons]
    exact ⟨by rw [Counted, id]; rfl, trivial, by simp⟩
  have idWidth : width p.packetId.toNat = 1 := by
    rw [id]
    exact widthSmall (by decide)
  have nameWidth := widthWord p.username
  have tooLong : BitVec.toNat (16 : BitVec 32) < lengthSize p.username := long
  rw [sizing, around, effectsAppend, countsFields counts, bindOk, effects] at ok
  rcases Nat.lt_or_ge (lengthSize p.username) (2^31) with short | hangs
  · rw [stringLatches tooLong short, bindOk, latchedFields, bindOk] at ok
    cases ok
    simp only [CPacketSizeCalc.getFullSize, latched, List.map_cons, List.map_nil, List.sum_cons, List.sum_nil, size,
      latchedSize, idWidth, BitVec.toNat_ofNat]
    omega
  · rw [stringHangs hangs] at ok
    contradiction

theorem wholeShort {p : SLoginSuccess} {sent : SPacketPayload} (id : p.packetId = 0x02)
    (ok : serializePacket p = .ok sent) (whole : Whole p sent) : p.username.length ≤ 16 := by
  obtain ⟨c, sizing, rfl⟩ := serializedOf ok
  have bytes := congrArg List.length (Option.some.inj whole.2)
  simp only [putAllLength, CPacketWriter.new, List.length_replicate, List.length_append, successBody,
    List.length_singleton, p.id.sized] at bytes
  by_contra long
  have limit := c.getFullSize.isLt
  rcases Nat.lt_or_ge 16 (lengthSize p.username) with counted | wrapped
  · have small := successSized id counted sizing
    omega
  · unfold lengthSize at wrapped
    omega

/-! The callback on a server. -/

theorem completesExactly {p index : Nat} {request : HttpGet} {body : Bytes} {past : Memory} {s t : CSystem}
    (made : (s.sessions p).requests[index]? = some request) :
    Server.step env (.complete p index body past) s = .ok t ↔ Alive s p ∧ ∃ session,
      hasJoined env request.username body past
        { s.sessions p with requests := (s.sessions p).requests.eraseIdx index } = .ok session ∧
      t = { s with sessions := Function.update s.sessions p session } := by
  have inside := (List.getElem?_eq_some_iff.mp made).1
  constructor
  · intro ok
    obtain ⟨alive, _, session, ran, rfl⟩ := completeOk ok
    rcases stepCompletion ran with ⟨none, _⟩ | ⟨other, found, joined⟩
    · rw [none] at made
      contradiction
    · rw [found] at made
      cases made
      exact ⟨alive, session, joined, rfl⟩
  · rintro ⟨alive, session, joined, rfl⟩
    simp only [Server.step, if_pos (And.intro alive inside), completing, MCPlayer.step, made, joined]

theorem queueGrows (s : Session) (origin : Outgoing) (sent : SPacketPayload) : s.queue origin sent ≠ s := by
  intro same
  have length := congrArg (fun s => s.calls.length) same
  simp [Session.queue] at length

theorem survivesOnly {demanded : Bool} {p index : Nat} {request : HttpGet} {transfer : Transfer} {past : Memory}
    {s : CSystem} (made : (s.sessions p).requests[index]? = some request)
    (survives : Survives env demanded p index request transfer past s) :
    Alive s p ∧ request.username.length ≤ 16 ∧ Confirms env demanded transfer := by
  obtain ⟨t, ok, one, none⟩ := survives
  obtain ⟨alive, session, joined, rfl⟩ := (completesExactly made).mp ok
  have here {a b : Session} (same : ({ s with sessions := Function.update s.sessions p a } : CSystem) =
      { s with sessions := Function.update s.sessions p b }) : a = b := by
    have sessions := congrFun (congrArg CSystem.sessions same) p
    simpa using sessions
  have confirms : Confirms env demanded transfer := by
    by_contra otherwise
    obtain ⟨_, packet, sent, _, _, _, _, rfl⟩ := hasJoinedCases joined
    exact queueGrows _ _ _ (here (none otherwise))
  obtain ⟨packet, id, username, read⟩ := replyRead request.username past _ confirms.2
  rw [read] at joined
  obtain ⟨sent, serialized, joined⟩ := okBind joined
  cases joined
  obtain ⟨other, payload, _, whole, same⟩ := one confirms
  have calls := congrArg Session.calls (here same)
  simp only [Session.queue, List.append_cancel_left_eq, List.cons.injEq, Call.queuePacket.injEq, Outgoing.loginSuccess.injEq,
    and_true] at calls
  obtain ⟨rfl, rfl⟩ := calls
  rw [← username]
  exact ⟨alive, wholeShort id serialized whole, confirms⟩

theorem survivesWhen {demanded : Bool} {p index : Nat} {request : HttpGet} {transfer : Transfer} {s : CSystem}
    (made : (s.sessions p).requests[index]? = some request) (alive : Alive s p) (short : request.username.length ≤ 16)
    (confirms : Confirms env demanded transfer) (past : Memory) :
    Survives env demanded p index request transfer past s := by
  obtain ⟨packet, id, username, read⟩ := replyRead request.username past
    { s.sessions p with requests := (s.sessions p).requests.eraseIdx index } confirms.2
  obtain ⟨sent, serialized, whole⟩ := wholeFits id (username ▸ short)
  rw [serialized, bindOk] at read
  exact ⟨_, (completesExactly made).mpr ⟨alive, _, read, rfl⟩, fun _ => ⟨packet, sent, username, whole, rfl⟩,
    fun otherwise => absurd confirms otherwise⟩

/- In every state of every run of the server the reply to any request may arrive. -/
theorem survivesExactly (env : IGlobalEnvironment) (demanded : Bool) (events : List Server.Event) :
    Throughout (Server.step env) {} (fun s => ∀ p index request, (s.sessions p).requests[index]? = some request →
      ∀ transfer past, Survives env demanded p index request transfer past s ↔
        Alive s p ∧ request.username.length ≤ 16 ∧ Confirms env demanded transfer) events := by
  intro before after s _ _ p index request made transfer past
  constructor
  · exact survivesOnly made
  · rintro ⟨alive, short, confirms⟩
    exact survivesWhen made alive short confirms past

/- A player the session server knows, by its id and a signed property. -/
theorem survivesKnown : ∃ last request, Path (Server.step knowingServer) {} (Callbacks.joining ++ Callbacks.login) last ∧
    (last.sessions 0).requests = [request] ∧ request.username = ascii "Steve" ∧
    Survives knowingServer true 0 0 request ⟨true, 200, profile⟩ (fun _ => 0) last := by
  have path : Path (Server.step knowingServer) {} (Callbacks.joining ++ Callbacks.login) _ := pathRun rfl
  refine ⟨_, _, path, rfl, rfl, ?_⟩
  have each := survivesExactly knowingServer true (Callbacks.joining ++ Callbacks.login) _ [] _ (by simp) path 0 0 _ rfl
  refine (each ⟨true, 200, profile⟩ (fun _ => 0)).mpr ⟨by decide +kernel, by decide +kernel, rfl, ?_⟩
  refine ⟨_, List.replicate 32 49, rfl, rfl, rfl, ?_, ?_⟩
  · intro c mem
    rw [List.eq_of_mem_replicate mem]
    exact .inl (by decide)
  · intro items found prop mem
    cases found
    rw [List.mem_singleton.mp mem]
    exact ⟨_, rfl, ⟨_, rfl⟩, ⟨_, rfl⟩, .inl ⟨_, rfl⟩⟩

/- The session server answers a rejected join with an empty body. -/
theorem survivesRejected : ¬ ∃ demanded : Bool, ∀ (env : IGlobalEnvironment) (events : List Server.Event) (s : CSystem)
    (p index : Nat) (request : HttpGet) (transfer : Transfer) (past : Memory),
    Path (Server.step env) {} events s → (s.sessions p).requests[index]? = some request →
    Survives env demanded p index request transfer past s := by
  intro ⟨demanded, always⟩
  have path : Path (Server.step knowingServer) {} (Callbacks.joining ++ Callbacks.login) _ := pathRun rfl
  obtain ⟨t, ok, _⟩ := always _ _ _ 0 0 _ ⟨true, 204, []⟩ (fun _ => 0) path rfl
  obtain ⟨_, _, session, ran, _⟩ := completeOk ok
  contradiction

end Mcpp.HasJoined
