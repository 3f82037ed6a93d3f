import Mcpp.EncryptionKey
import Mcpp.Framing
import Mcpp.Sending

/-! Both sides of the switch to encryption. RecvPackets asks once for a chunk whether to
decrypt it, and the switch is made by a handler inside the loop over that chunk: frames
behind the accepted response are still read from the bytes as they came. A packet is
encrypted or not when it is dequeued. -/
namespace Mcpp.Boundary
open Buffers Uuid PacketVisitor Packets SharedSecret Wire ClientConnection Framing Sending
open MCPlayer (IGlobalEnvironment Session Call processPacket openReader Decodes askingServer arrival greeting)
open Run Challenge

/- HandleLogin has accepted an EncryptionResponse. -/
def secured (s : Session) : Bool := s.calls.any fun
  | .secure .. => true
  | .queuePacket .. => false

/- What a ProcessPacket call meets outside of its payload. -/
structure Surroundings where
  past : Memory
  uninitialised : CUUID
  random : Nat → Fin 62

/- The session with a note for each call, whether it came behind an accepted response. -/
structure World where
  session : Session
  behind : List Bool := []

def handler (env : IGlobalEnvironment) (supply : Nat → Surroundings) : IPacketHandler World where
  processPacket payload w :=
    let x := supply w.behind.length
    match processPacket env payload x.past x.uninitialised x.random w.session with
    | .error f => .error f
    | .ok (accepted, session) => .ok (accepted, { session := session, behind := w.behind ++ [secured w.session] })

structure Link where
  session : Session
  socketOpen : Bool := true

inductive Event where
  | receive (chunk : Chunk) (stack : Memory) (heap : Behind) (supply : Nat → Surroundings)
  | send (d : Dequeued) (heap : Memory)
  | completion (index : Nat) (body : Bytes) (past : Memory)

variable (env : IGlobalEnvironment) (block : BlockFunction)

def receiving (chunk : Chunk) (stack : Memory) (heap : Behind) (supply : Nat → Surroundings) (s : Link) :
    Outcome × Receiving World :=
  recvPackets block s.session.connection (handler env supply) chunk stack heap { session := s.session }

/- Neither RecvPackets nor SendQueuedPackets is entered on a closed socket. -/
def step : Event → Link → Except Fault Link
  | .receive chunk stack heap supply, s =>
    if !s.socketOpen then .ok s
    else match receiving env block chunk stack heap supply s with
      | (.fault f, _) => .error f
      | (.returned, t) => .ok { session := t.world.session, socketOpen := t.socketOpen }
  | .send d heap, s =>
    if !s.socketOpen then .ok s
    else do
      let _ ← outgoing block s.session.connection heap d
      pure { s with socketOpen := !d.failed }
  | .completion index body past, s => do
    let session ← MCPlayer.step env (.completion index body past) s.session
    pure { s with session := session }

/- The payloads a chunk's loop handed to ProcessPacket, each with its note; that of a call
that did not return is what the session says. -/
def handed (result : Outcome × Receiving World) : List (Delivery × Bool) :=
  result.2.deliveries.zip (result.2.world.behind ++ [secured result.2.world.session])

/- Every byte read for the payload is one DecryptPacket put out for the chunk. -/
def Decrypted (s : Link) (chunk : Chunk) (d : Delivery) : Prop :=
  s.session.connection.encryptionEnabled = true ∧ ∀ i ∈ d.reads, i < chunk.bytes.length

/- What Send is given is what EncryptPacket made of the packet with the installed key. -/
def Encrypted (s : Link) (d : Dequeued) (heap : Memory) : Prop :=
  ∃ secret, s.session.connection.secret = some secret ∧
    outgoing block s.session.connection heap d = .ok (encryptPacket block secret heap d.bytes)

/- What is to hold of one event of a run. -/
def Protected : Event → Link → Prop
  | .receive chunk stack heap supply, s => s.socketOpen = true →
      ∀ x ∈ handed (receiving env block chunk stack heap supply s), x.2 = true → Decrypted s chunk x.1
  | .send d heap, s => s.socketOpen = true → secured s.session = true → Encrypted block s d heap
  | .completion .., _ => True

/- The frame at `later` is a response the session accepts. -/
def AcceptsAt (supply : Nat → Surroundings) (memory : Memory) (later : Nat) (w : World) : Prop :=
  let x := supply w.behind.length
  Accepts env (.packet (frameAt memory later) x.past x.uninitialised x.random) w.session

/- No frame the loop would take stands behind a response it accepts. -/
def NothingBehind (supply : Nat → Surroundings) (memory : Memory) (totalSize start : Nat) (w : World) : Prop :=
  ∀ later last, Reached (handler env supply) memory totalSize start w later last → Taken memory totalSize later →
    AcceptsAt env supply memory later last → ¬ Taken memory totalSize (later + announced memory later)

/- A chunk that is received as it came ends with the response that is accepted in it; one
that is decrypted has each frame it hands over in full. -/
def Bounded : Event → Link → Prop
  | .receive chunk stack heap supply, s => s.socketOpen = true →
      ∀ memory, s.session.connection.start block (chunk.recvBuffer stack) heap chunk.bytes.length = .ok memory →
        if secured s.session then
          AllWhole (handler env supply) memory chunk.bytes.length 0 { session := s.session }
        else NothingBehind env supply memory chunk.bytes.length 0 { session := s.session }
  | .send .., _ => True
  | .completion .., _ => True

variable {env block} {supply : Nat → Surroundings}

/-! The session. -/

/- The log of exchanges says the same. -/
theorem securedExchanged (s : Session) : secured s = true ↔ ∃ token, Exchange.accepted token ∈ exchanges s := by
  rw [secured, List.any_eq_true]
  constructor
  · intro noted
    obtain ⟨call, mem, accepted⟩ := noted
    cases call with
    | secure token key => exact ⟨token, List.mem_filterMap.mpr ⟨_, mem, rfl⟩⟩
    | queuePacket origin sent => contradiction
  · intro logged
    obtain ⟨token, mem⟩ := logged
    obtain ⟨call, mem, accepted⟩ := List.mem_filterMap.mp mem
    cases call with
    | secure token' key => exact ⟨_, mem, rfl⟩
    | queuePacket origin sent => cases origin <;> simp [exchange] at accepted

/- A response has been accepted exactly when encryption is on, and then there is a key. -/
structure Sealed (s : Session) : Prop where
  enabled : secured s = s.connection.encryptionEnabled
  keyed : s.connection.encryptionEnabled = true → ∃ secret, s.connection.secret = some secret

theorem stepSecured {e : MCPlayer.Event} {s t : Session} (ok : MCPlayer.step env e s = .ok t) :
    secured t = true ↔ secured s = true ∨ Accepts env e s := by
  rw [securedExchanged, securedExchanged]
  cases stepTurn ok with
  | quiet log token unasked unanswered => simp [log, unanswered]
  | requested draws drawn asked unanswered log token => simp [log, unanswered]
  | accepted unasked answered log token => simp [log, answered]

theorem stepSealed {e : MCPlayer.Event} {s t : Session} (ok : MCPlayer.step env e s = .ok t) (sealed : Sealed s) :
    Sealed t := by
  cases EncryptionKey.stepSwitches ok with
  | kept same uninstalled =>
    have unaccepted : ¬ Accepts env e s := by
      rw [← EncryptionKey.installsAccepts]
      intro installed
      obtain ⟨key, installs⟩ := installed
      exact uninstalled key installs
    have noted : secured t = secured s := Bool.eq_iff_iff.mpr ((stepSecured ok).trans (or_iff_left unaccepted))
    refine ⟨?_, ?_⟩
    · rw [noted, same]
      exact sealed.enabled
    · rw [same]
      exact sealed.keyed
  | installed key installs connection =>
    have accepts := EncryptionKey.installsAccepts.mp ⟨key, installs⟩
    have noted : secured t = true := (stepSecured ok).mpr (.inr accepts)
    exact ⟨by rw [noted, connection], by simp [connection]⟩

/-! The handler, call by call. -/

theorem handledStep {payload : SPacketPayload} {w w' : World} {accepted : Bool}
    (handled : (handler env supply).processPacket payload w = .ok (accepted, w')) :
    MCPlayer.step env (.packet payload (supply w.behind.length).past (supply w.behind.length).uninitialised
        (supply w.behind.length).random) w.session = .ok w'.session ∧
      w'.behind = w.behind ++ [secured w.session] := by
  simp only [handler] at handled
  split at handled
  · contradiction
  · rename_i accepted' session answer
    cases handled
    refine ⟨?_, rfl⟩
    simp only [MCPlayer.step, answer]
    rfl

theorem handledSealed (payload : SPacketPayload) (w : World) (accepted : Bool) (w' : World)
    (handled : (handler env supply).processPacket payload w = .ok (accepted, w')) (sealed : Sealed w.session) :
    Sealed w'.session := stepSealed (handledStep handled).1 sealed

theorem handledSecured (payload : SPacketPayload) (w : World) (accepted : Bool) (w' : World)
    (handled : (handler env supply).processPacket payload w = .ok (accepted, w')) (noted : secured w.session = true) :
    secured w'.session = true := (stepSecured (handledStep handled).1).mpr (.inl noted)

theorem acceptsAnswer {payload : SPacketPayload} {past : Memory} {uninitialised : CUUID} {random : Nat → Fin 62}
    {s : Session} (accepts : Accepts env (.packet payload past uninitialised random) s) :
    ∃ response, processPacket env payload past uninitialised random s = .ok (true, s.secured env response) := by
  obtain ⟨login, id, response, ⟨reader, r, opened, read⟩, same⟩ := accepts
  have zero : payload.packetId ≠ 0 := by
    rw [id]
    decide
  refine ⟨response, ?_⟩
  simp only [processPacket, login, MCPlayer.handleLogin, if_neg zero, if_pos id, MCPlayer.handleEncryptionResponse,
    opened, bindOk, read, ne_eq, same, not_true_eq_false, ite_false]
  rw [← same]
  rfl

/- An accepted response is handled, and the loop goes on behind it. -/
theorem acceptsHandled {memory : Memory} {later : Nat} {w : World} (accepts : AcceptsAt env supply memory later w) :
    ∃ w', (handler env supply).processPacket (frameAt memory later) w = .ok (true, w') ∧ secured w'.session = true := by
  have here : Accepts env (.packet (frameAt memory later) (supply w.behind.length).past
      (supply w.behind.length).uninitialised (supply w.behind.length).random) w.session := accepts
  obtain ⟨response, answer⟩ := acceptsAnswer here
  refine ⟨{ session := w.session.secured env response, behind := w.behind ++ [secured w.session] }, ?_, ?_⟩
  · simp only [handler, answer]
  · simp [secured, Session.secured]

/-! One chunk. -/

/- What holds of every delivery that comes behind an accepted response. -/
def HoldsBehind (env : IGlobalEnvironment) (supply : Nat → Surroundings) (memory : Memory) (totalSize start : Nat)
    (w : World) (P : Delivery → Prop) : Prop :=
  ∀ later last, Reached (handler env supply) memory totalSize start w later last → Taken memory totalSize later →
    secured last.session = true → P (deliveryAt memory later)

theorem behindNone {memory : Memory} {totalSize start : Nat} {w : World} (not : ¬ Taken memory totalSize start)
    (P : Delivery → Prop) : HoldsBehind env supply memory totalSize start w P := by
  intro later last reached taken
  cases reached with
  | here => exact absurd taken not
  | next first handled more => exact absurd first not

theorem behindLast {memory : Memory} {totalSize start : Nat} {w : World} (taken : Taken memory totalSize start)
    (refused : ∀ w', (handler env supply).processPacket (frameAt memory start) w ≠ .ok (true, w'))
    (P : Delivery → Prop) : HoldsBehind env supply memory totalSize start w P ↔
      (secured w.session = true → P (deliveryAt memory start)) := by
  constructor
  · intro all
    exact all _ _ (.here start w) taken
  · intro last later w' reached _
    cases reached with
    | here => exact last
    | next _ handled more => exact absurd handled (refused _)

theorem behindNext {memory : Memory} {totalSize start : Nat} {w w' : World} (taken : Taken memory totalSize start)
    (handled : (handler env supply).processPacket (frameAt memory start) w = .ok (true, w')) (P : Delivery → Prop) :
    HoldsBehind env supply memory totalSize start w P ↔ (secured w.session = true → P (deliveryAt memory start)) ∧
      HoldsBehind env supply memory totalSize (start + announced memory start) w' P := by
  constructor
  · intro all
    exact ⟨all _ _ (.here start w) taken, fun later last reached => all later last (.next taken handled reached)⟩
  · intro both later last reached takenLater
    cases reached with
    | here => exact both.1
    | next _ other more =>
      rw [handled] at other
      cases other
      exact both.2 _ _ more takenLater

/- The notes of a walk say which of its deliveries came behind. -/
theorem walkHanded {memory : Memory} {totalSize start : Nat} {w last : World} {ds : List Delivery} {o : Outcome}
    {socketOpen : Bool} (walk : Walk (handler env supply) memory totalSize start w ds o socketOpen last) :
    ∃ notes, last.behind = w.behind ++ notes ∧ ∀ P : Delivery → Prop,
      (∀ x ∈ ds.zip (notes ++ [secured last.session]), x.2 = true → P x.1) ↔
        HoldsBehind env supply memory totalSize start w P := by
  induction walk with
  | done read =>
    refine ⟨[], by simp, fun P => iff_of_true (by simp) (behindNone (fun taken => ?_) P)⟩
    exact absurd taken.unread (by omega)
  | hang unread negative =>
    refine ⟨[], by simp, fun P => iff_of_true (by simp) (behindNone (fun taken => ?_) P)⟩
    rw [taken.positive] at negative
    contradiction
  | tail unread positive tooLong =>
    refine ⟨[], by simp, fun P => iff_of_true (by simp) (behindNone (fun taken => ?_) P)⟩
    exact absurd taken.bounded (by omega)
  | fault taken failed =>
    refine ⟨[], by simp, fun P => ?_⟩
    rw [behindLast taken (by simp [failed])]
    simp
  | reject taken rejected =>
    refine ⟨_, (handledStep rejected).2, fun P => ?_⟩
    rw [behindLast taken (by simp [rejected])]
    simp
  | @next start w w' rest o socketOpen last taken handled more ih =>
    obtain ⟨notes, behind, each⟩ := ih
    refine ⟨secured w.session :: notes, ?_, fun P => ?_⟩
    · rw [behind, (handledStep handled).2]
      simp
    · rw [behindNext taken handled, ← each P, List.cons_append, List.zip_cons_cons, List.forall_mem_cons]

/- No frame is handed over behind an accepted response, exactly when none stands behind it. -/
theorem behindExactly {memory : Memory} {totalSize start : Nat} {w : World} (unsecured : secured w.session = false) :
    HoldsBehind env supply memory totalSize start w (fun _ => False) ↔
      NothingBehind env supply memory totalSize start w := by
  constructor
  · intro none later last reached taken accepts next
    obtain ⟨w', handled, noted⟩ := acceptsHandled accepts
    exact none _ w' (reachedSnoc reached taken handled) next noted
  · intro nothing later last reached
    induction reached with
    | here =>
      intro _ noted
      rw [unsecured] at noted
      contradiction
    | @next start w w' later last taken handled more ih =>
      intro takenLater noted
      cases switched : secured w'.session with
      | false =>
        have rest : NothingBehind env supply memory totalSize (start + announced memory start) w' :=
          fun later' last' reached' => nothing later' last' (.next taken handled reached')
        exact ih switched rest takenLater noted
      | true =>
        rw [stepSecured (handledStep handled).1, unsecured] at switched
        have accepts : AcceptsAt env supply memory start w := switched.resolve_left (by simp)
        have none := nothing _ _ (.here start w) taken accepts
        cases more with
        | here => exact none takenLater
        | next second _ _ => exact none second

/- What is to hold of a chunk, in terms of the frames the loop comes to. -/
theorem receiveExactly {chunk : Chunk} {stack memory : Memory} {heap : Behind} {s : Link} (sealed : Sealed s.session)
    (started : s.session.connection.start block (chunk.recvBuffer stack) heap chunk.bytes.length = .ok memory) :
    (∀ x ∈ handed (receiving env block chunk stack heap supply s), x.2 = true → Decrypted s chunk x.1) ↔
      if secured s.session then
        AllWhole (handler env supply) memory chunk.bytes.length 0 { session := s.session }
      else NothingBehind env supply memory chunk.bytes.length 0 { session := s.session } := by
  obtain ⟨o, t, ran, walk⟩ := startedWalk started (handler env supply) { session := s.session }
  obtain ⟨notes, behind, each⟩ := walkHanded walk
  rw [List.nil_append] at behind
  rw [receiving, ran, handed, behind, each fun d => Decrypted s chunk d]
  cases noted : secured s.session with
  | true =>
    have on : s.session.connection.encryptionEnabled = true := sealed.enabled.symm.trans noted
    simp only [ite_true]
    constructor
    · intro all later last reached taken
      have still := reachedKeeps handledSecured reached noted
      exact (readsInside memory _ later).mp (all later last reached taken still).2
    · intro whole later last reached taken _
      exact ⟨on, (readsInside memory _ later).mpr (whole later last reached taken)⟩
  | false =>
    have off : s.session.connection.encryptionEnabled = false := sealed.enabled.symm.trans noted
    simp only [Bool.false_eq_true, ite_false]
    rw [← behindExactly noted]
    simp [HoldsBehind, Decrypted, off]

theorem eventExactly {e : Event} {s : Link} (sealed : Sealed s.session) :
    Protected env block e s ↔ Bounded env block e s := by
  cases e with
  | receive chunk stack heap supply =>
    refine imp_congr_right fun _ => ?_
    cases started : s.session.connection.start block (chunk.recvBuffer stack) heap chunk.bytes.length with
    | error f => simp [receiving, recvPackets, started, handed]
    | ok memory =>
      rw [receiveExactly sealed started]
      simp
  | send d heap =>
    refine iff_of_true ?_ trivial
    intro _ noted
    have on : s.session.connection.encryptionEnabled = true := sealed.enabled.symm.trans noted
    obtain ⟨secret, some⟩ := sealed.keyed on
    exact ⟨secret, some, by simp [outgoing, on, some]⟩
  | completion index body past => exact Iff.rfl

/-! The runs. -/

theorem linkSealed {e : Event} {s t : Link} (sealed : Sealed s.session) (ok : step env block e s = .ok t) :
    Sealed t.session := by
  cases e with
  | receive chunk stack heap supply =>
    simp only [step] at ok
    split at ok
    · cases ok
      exact sealed
    · cases started : s.session.connection.start block (chunk.recvBuffer stack) heap chunk.bytes.length with
      | error f => simp [receiving, recvPackets, started] at ok
      | ok memory =>
        obtain ⟨o, r, ran, walk⟩ := startedWalk started (handler env supply) { session := s.session }
        have last : Sealed r.world.session := walkKeeps handledSealed walk sealed
        rw [receiving, ran] at ok
        cases o with
        | returned =>
          cases ok
          exact last
        | fault f => contradiction
  | send d heap =>
    simp only [step] at ok
    split at ok
    · cases ok
      exact sealed
    · obtain ⟨data, _, ok⟩ := okBind ok
      cases ok
      exact sealed
  | completion index body past =>
    obtain ⟨session, stepped, ok⟩ := okBind ok
    cases ok
    exact stepSealed stepped sealed

theorem boundaryExactly (env : IGlobalEnvironment) (block : BlockFunction) (uninitialised : CUUID) (events : List Event) :
    Always (step env block) { session := .fresh uninitialised } (fun _ e s => Protected env block e s) events ↔
      Always (step env block) { session := .fresh uninitialised } (fun _ e s => Bounded env block e s) events := by
  have each (before : List Event) (e : Event) (s : Link)
      (path : Path (step env block) { session := .fresh uninitialised } before s) :
      Protected env block e s ↔ Bounded env block e s := by
    have sealed : Sealed s.session := by
      induction path with
      | start => exact ⟨rfl, by simp [Session.fresh]⟩
      | next before ok ih => exact linkSealed ih ok
    exact eventExactly sealed
  constructor
  · intro all before e after s split path
    exact (each before e s path).mp (all before e after s split path)
  · intro all before e after s split path
    exact (each before e s path).mpr (all before e after s split path)

def unchanging (_ : Nat) : Surroundings := ⟨fun _ => 0, .ofWords 0 0, MCPlayer.steady⟩

/- A handshake and a login start. -/
def arriving : Chunk := ⟨[7, 0, 0x84, 0x06, 0, 0, 0, 2, 18, 0, 0] ++ List.replicate 16 0, by decide, by decide⟩

/- The response to the challenge, with a secret of sixteen bytes, and a frame behind it. -/
def responding : Chunk :=
  ⟨[83, 1, 16] ++ List.replicate 16 7 ++ [64] ++ List.replicate 64 48 ++ [1, 9], by decide, by decide⟩

def unblocked : BlockFunction := fun _ block => block

def received (chunk : Chunk) : Event := .receive chunk (fun _ => 0) ⟨fun _ => 0, fun _ => 0⟩ unchanging

/- A delivery behind the response, with the decryption off. -/
def exposes (env : IGlobalEnvironment) (block : BlockFunction) (chunk : Chunk) : Except Fault Link → Bool
  | .error _ => false
  | .ok s => s.socketOpen && !s.session.connection.encryptionEnabled &&
      (handed (receiving env block chunk (fun _ => 0) ⟨fun _ => 0, fun _ => 0⟩ unchanging s)).any (·.2)

theorem exposesOpen {chunk : Chunk} {result : Except Fault Link} (exposed : exposes env block chunk result = true) :
    ∃ s, result = .ok s ∧ ¬ Protected env block (received chunk) s := by
  cases result with
  | error f => contradiction
  | ok s =>
    refine ⟨s, rfl, ?_⟩
    intro all
    simp only [exposes, Bool.and_eq_true, List.any_eq_true, Bool.not_eq_true'] at exposed
    obtain ⟨⟨isOpen, off⟩, x, member, behind⟩ := exposed
    have on := (all isOpen x member behind).1
    rw [off] at on
    contradiction

/- The frame behind the response is handled as it came. -/
theorem plaintextBehind : ¬ ∀ (env : IGlobalEnvironment) (block : BlockFunction) (uninitialised : CUUID)
    (events : List Event),
    Always (step env block) { session := .fresh uninitialised } (fun _ e s => Protected env block e s) events := by
  intro always
  have exposed : exposes (askingServer id) unblocked responding
      (step (askingServer id) unblocked (received arriving) { session := .fresh (.ofWords 0 0) }) = true := by
    decide +kernel
  obtain ⟨s, ok, leaked⟩ := exposesOpen exposed
  exact leaked (always _ _ _ [received arriving, received responding] [received arriving] _ [] _ rfl (.next .start ok))

end Mcpp.Boundary
