import Mcpp.Custody
import Mcpp.MCPlayer
import Mcpp.Run
import Mathlib.Data.List.Count
import Mathlib.Logic.Function.Basic

/-! The three threads of the server and the lists they share. An event is one step of
one thread: a statement of CSystem::Init, a turn of a sweep over m_players, a part of
NetworkTick up to the next point where another thread matters, a reply that curl has
for a callback. A connection and the player made for it have one number. The flag that
ends the threads is left to the shutdown protocol. -/
namespace Mcpp.Server
open Buffers Uuid PacketVisitor Packets MCPlayer Run Custody

/- How far CSystem::Init has come; then Run, outside a sweep and in one. -/
inductive Main where
  | begun
  | threadStarted
  | keyPairMade
  | keyPairInitialised
  | networkSet
  | curlSet
  | serverMade
  | running
  | sweeping
  deriving DecidableEq, Repr

/- Where the network thread is: behind an Accept that returned a connection, behind the
callbacks for it, in the loop over m_packetHandlers, behind lock() there, in RecvPackets
before recv and in its callback, in the loop over m_activeConnections, in SendQueuedPackets. -/
inductive Net where
  | unstarted
  | idle
  | calling
  | pushing
  | handlers
  | locked
  | receiving
  | processing
  | connections
  | sending
  deriving DecidableEq, Repr

inductive KeyPair where
  | absent
  | made
  | initialised
  deriving DecidableEq, Repr

structure CSystem where
  main : Main := .begun
  net : Net := .unstarted
  networkSet : Bool := false
  curlSet : Bool := false
  keyPair : KeyPair := .absent
  -- The callback is in m_connectionCallbacks.
  callback : Bool := false
  players : List Nat := []
  handlers : List Nat := []
  connections : List Nat := []
  -- The iterators of the sweep and of NetworkTick, and what the latter has in hand.
  sweep : Nat := 0
  cursor : Nat := 0
  current : Nat := 0
  -- How many connections Accept has returned, and the players the callback has made.
  accepted : Nat := 0
  made : List Nat := []
  closed : Nat → Bool := fun _ => false
  sessions : Nat → Session := fun _ => .fresh (.ofWords 0 0)

/- What recv returned: nothing to read, the end or an error, or bytes. -/
inductive Received where
  | wouldBlock
  | lost
  | chunk
  deriving DecidableEq, Repr

inductive Event where
  | startThread
  | makeKeyPair
  | initialiseKeyPair
  | setNetwork
  | setCurl
  | makeServer
  | registerCallback
  | beginSweep
  | sweepPlayer (p : Nat)
  | endSweep
  | accept (connection : Bool)
  | callbacks (uninitialised : CUUID)
  | push
  | lock (p : Nat)
  | endHandlers
  | check
  | recv (outcome : Received)
  | process (payload : SPacketPayload) (past : Memory) (uninitialised : CUUID) (random : Nat → Fin 62)
  | endChunk
  | visit (p : Nat)
  | sent (success : Bool)
  | endTick
  | complete (p index : Nat) (body : Bytes) (past : Memory)

/- The network thread has locked the pointer to a player and not yet let it go. -/
def Held (s : CSystem) (p : Nat) : Prop :=
  (s.net = .locked ∨ s.net = .receiving ∨ s.net = .processing) ∧ s.current = p

def Alive (s : CSystem) (p : Nat) : Prop := p ∈ s.players ∨ Held s p

instance (s : CSystem) (p : Nat) : Decidable (Held s p) :=
  inferInstanceAs (Decidable ((s.net = .locked ∨ s.net = .receiving ∨ s.net = .processing) ∧ s.current = p))

instance (s : CSystem) (p : Nat) : Decidable (Alive s p) := inferInstanceAs (Decidable (p ∈ s.players ∨ Held s p))

def CSystem.stop (s : CSystem) : CSystem := { s with closed := Function.update s.closed s.current true }

def CSystem.nextHandler (s : CSystem) : CSystem := { s with net := .handlers, cursor := s.cursor + 1 }

def CSystem.nextConnection (s : CSystem) : CSystem := { s with net := .connections, cursor := s.cursor + 1 }

/- The callback holds m_playerLock, so it and a sweep exclude each other. -/
def CSystem.addPlayer (s : CSystem) (uninitialised : CUUID) : CSystem :=
  { s with
    players := s.players ++ [s.current]
    handlers := s.handlers ++ [s.current]
    made := s.made ++ [s.current]
    sessions := Function.update s.sessions s.current (.fresh uninitialised) }

variable (env : IGlobalEnvironment)

def processing (payload : SPacketPayload) (past : Memory) (uninitialised : CUUID) (random : Nat → Fin 62)
    (s : CSystem) : Except Unit CSystem :=
  match processPacket env payload past uninitialised random (s.sessions s.current) with
  | .error _ => .error ()
  | .ok (result, session) =>
    let s := { s with sessions := Function.update s.sessions s.current session }
    .ok (if result then s else s.stop.nextHandler)

def completing (p index : Nat) (body : Bytes) (past : Memory) (s : CSystem) : Except Unit CSystem :=
  match MCPlayer.step env (.completion index body past) (s.sessions p) with
  | .error _ => .error ()
  | .ok session => .ok { s with sessions := Function.update s.sessions p session }

/- A callback whose player is gone reads freed memory: there is no step for it. -/
def step : Event → CSystem → Except Unit CSystem
  | .startThread, s => allow (s.main = .begun ∧ s.net = .unstarted) { s with main := .threadStarted, net := .idle }
  | .makeKeyPair, s => allow (s.main = .threadStarted) { s with main := .keyPairMade, keyPair := .made }
  | .initialiseKeyPair, s => allow (s.main = .keyPairMade) { s with main := .keyPairInitialised, keyPair := .initialised }
  | .setNetwork, s => allow (s.main = .keyPairInitialised) { s with main := .networkSet, networkSet := true }
  | .setCurl, s => allow (s.main = .networkSet) { s with main := .curlSet, curlSet := true }
  | .makeServer, s => allow (s.main = .curlSet) { s with main := .serverMade }
  | .registerCallback, s => allow (s.main = .serverMade) { s with main := .running, callback := true }
  | .beginSweep, s => allow (s.main = .running) { s with main := .sweeping, sweep := 0 }
  | .sweepPlayer p, s => allow (s.main = .sweeping ∧ s.players[s.sweep]? = some p)
      (if s.closed p then { s with players := s.players.eraseIdx s.sweep } else { s with sweep := s.sweep + 1 })
  | .endSweep, s => allow (s.main = .sweeping ∧ s.players.length ≤ s.sweep) { s with main := .running }
  | .accept connection, s => allow (s.net = .idle)
      (if connection then { s with net := .calling, current := s.accepted, accepted := s.accepted + 1 }
      else { s with net := .handlers, cursor := 0 })
  | .callbacks uninitialised, s => allow (s.net = .calling ∧ s.main ≠ .sweeping)
      { (if s.callback then s.addPlayer uninitialised else s) with net := .pushing }
  | .push, s => allow (s.net = .pushing)
      { s with net := .handlers, cursor := 0, connections := s.connections ++ [s.current] }
  | .lock p, s => allow (s.net = .handlers ∧ s.handlers[s.cursor]? = some p)
      (if p ∈ s.players then { s with net := .locked, current := p }
      else { s with handlers := s.handlers.eraseIdx s.cursor })
  | .endHandlers, s => allow (s.net = .handlers ∧ s.handlers.length ≤ s.cursor)
      { s with net := .connections, cursor := 0 }
  | .check, s => allow (s.net = .locked)
      (if s.closed s.current then { s with net := .handlers, handlers := s.handlers.eraseIdx s.cursor }
      else { s with net := .receiving })
  | .recv outcome, s => allow (s.net = .receiving) (match outcome with
      | .wouldBlock => s.nextHandler
      | .lost => s.stop.nextHandler
      | .chunk => { s with net := .processing })
  | .process payload past uninitialised random, s =>
    if s.net = .processing then processing env payload past uninitialised random s else .error ()
  | .endChunk, s => allow (s.net = .processing) s.nextHandler
  | .visit p, s => allow (s.net = .connections ∧ s.connections[s.cursor]? = some p)
      (if s.closed p then { s with connections := s.connections.eraseIdx s.cursor }
      else { s with net := .sending, current := p })
  | .sent success, s => allow (s.net = .sending) (if success then s.nextConnection else s.stop.nextConnection)
  | .endTick, s => allow (s.net = .connections ∧ s.connections.length ≤ s.cursor) { s with net := .idle }
  | .complete p index body past, s =>
    if Alive s p ∧ index < (s.sessions p).requests.length then completing env p index body past s else .error ()

variable {env : IGlobalEnvironment} {e : Event} {s t : CSystem}

theorem processOk {payload : SPacketPayload} {past : Memory} {uninitialised : CUUID} {random : Nat → Fin 62}
    (ok : step env (.process payload past uninitialised random) s = .ok t) : s.net = .processing ∧
      ∃ result session,
        processPacket env payload past uninitialised random (s.sessions s.current) = .ok (result, session) ∧
        t = if result then { s with sessions := Function.update s.sessions s.current session }
          else ({ s with sessions := Function.update s.sessions s.current session } : CSystem).stop.nextHandler := by
  simp only [step, processing] at ok
  split at ok
  · rename_i inside
    cases answer : processPacket env payload past uninitialised random (s.sessions s.current) with
    | error fault =>
      simp only [answer] at ok
      contradiction
    | ok handled =>
      obtain ⟨result, session⟩ := handled
      simp only [answer] at ok
      cases ok
      exact ⟨inside, result, session, rfl, rfl⟩
  · contradiction

theorem completeOk {p index : Nat} {body : Bytes} {past : Memory}
    (ok : step env (.complete p index body past) s = .ok t) : Alive s p ∧ index < (s.sessions p).requests.length ∧
      ∃ session, MCPlayer.step env (.completion index body past) (s.sessions p) = .ok session ∧
        t = { s with sessions := Function.update s.sessions p session } := by
  simp only [step, completing] at ok
  split at ok
  · rename_i enabled
    cases answer : MCPlayer.step env (.completion index body past) (s.sessions p) with
    | error fault =>
      simp only [answer] at ok
      contradiction
    | ok session =>
      simp only [answer] at ok
      cases ok
      exact ⟨enabled.1, enabled.2, session, rfl, rfl⟩
  · contradiction

/- A statement of CSystem::Init on what has been set; the one that starts the thread apart. -/
def Initialises : Event → Prop
  | .makeKeyPair | .initialiseKeyPair | .setNetwork | .setCurl | .makeServer | .registerCallback => True
  | _ => False

/- What a step does, by what it does. -/
inductive Change (env : IGlobalEnvironment) (s : CSystem) : Event → CSystem → Prop where
  | started (unstarted : s.net = .unstarted) : Change env s .startThread { s with main := .threadStarted, net := .idle }
  | initialised {e : Event} (main networkSet curlSet keyPair callback) (init : Initialises e) : Change env s e { s with
      main := main, networkSet := networkSet, curlSet := curlSet, keyPair := keyPair, callback := callback }
  | sweeping {e : Event} {main} (sweep) (inside : s.main = .running ∨ s.main = .sweeping)
      (next : main = .running ∨ main = .sweeping) : Change env s e { s with main := main, sweep := sweep }
  | swept {p} (found : s.players[s.sweep]? = some p) (shut : s.closed p = true) :
      Change env s (.sweepPlayer p) { s with players := s.players.eraseIdx s.sweep }
  | turned {e : Event} {net} (cursor) (pushed : s.net ≠ .pushing) (unlocked : s.net ≠ .locked)
      (between : net = .idle ∨ net = .handlers ∨ net = .connections) :
      Change env s e { s with net := net, cursor := cursor }
  | accepted (idle : s.net = .idle) : Change env s (.accept true) { s with
      net := .calling, current := s.accepted, accepted := s.accepted + 1 }
  | adopted (uninitialised) (calling : s.net = .calling) (registered : s.callback = true) :
      Change env s (.callbacks uninitialised) { s.addPlayer uninitialised with net := .pushing }
  | orphaned (uninitialised) (calling : s.net = .calling) (unregistered : s.callback = false) :
      Change env s (.callbacks uninitialised) { s with net := .pushing }
  | pushed (pushing : s.net = .pushing) :
      Change env s .push { s with net := .handlers, cursor := 0, connections := s.connections ++ [s.current] }
  | locked {p} (handlers : s.net = .handlers) (found : s.handlers[s.cursor]? = some p) (mem : p ∈ s.players) :
      Change env s (.lock p) { s with net := .locked, current := p }
  | expired {p} (handlers : s.net = .handlers) (found : s.handlers[s.cursor]? = some p) (gone : p ∉ s.players) :
      Change env s (.lock p) { s with handlers := s.handlers.eraseIdx s.cursor }
  | dead (locked : s.net = .locked) (shut : s.closed s.current = true) :
      Change env s .check { s with net := .handlers, handlers := s.handlers.eraseIdx s.cursor }
  | entered (locked : s.net = .locked) (isOpen : s.closed s.current = false) :
      Change env s .check { s with net := .receiving }
  | began (receiving : s.net = .receiving) : Change env s (.recv .chunk) { s with net := .processing }
  | stopped {e : Event} {net} (inside : s.net = .receiving ∨ s.net = .sending)
      (next : net = .handlers ∨ net = .connections) : Change env s e { s with
        net := net, cursor := s.cursor + 1, closed := Function.update s.closed s.current true }
  | processed (payload past uninitialised random session) (processing : s.net = .processing) :
      Change env s (.process payload past uninitialised random) { s with
        sessions := Function.update s.sessions s.current session }
  | rejected (payload past uninitialised random session) (processing : s.net = .processing) :
      Change env s (.process payload past uninitialised random) { s with
        net := .handlers, cursor := s.cursor + 1, closed := Function.update s.closed s.current true
        sessions := Function.update s.sessions s.current session }
  | dropped {p} (connections : s.net = .connections) (found : s.connections[s.cursor]? = some p)
      (shut : s.closed p = true) : Change env s (.visit p) { s with connections := s.connections.eraseIdx s.cursor }
  | visited {p} (connections : s.net = .connections) (found : s.connections[s.cursor]? = some p)
      (isOpen : s.closed p = false) : Change env s (.visit p) { s with net := .sending, current := p }
  | completed {p index body past session} (alive : Alive s p) (inside : index < (s.sessions p).requests.length)
      (ran : MCPlayer.step env (.completion index body past) (s.sessions p) = .ok session) :
      Change env s (.complete p index body past) { s with sessions := Function.update s.sessions p session }

/-! An event with two outcomes. -/

theorem sweepChange {p : Nat} (ok : step env (.sweepPlayer p) s = .ok t) : Change env s (.sweepPlayer p) t := by
  obtain ⟨⟨sweeping, found⟩, rfl⟩ := allowOk.mp ok
  split
  · exact .swept found (by assumption)
  · exact .sweeping _ (.inr sweeping) (.inr sweeping)

theorem acceptChange {connection : Bool} (ok : step env (.accept connection) s = .ok t) :
    Change env s (.accept connection) t := by
  obtain ⟨idle, rfl⟩ := allowOk.mp ok
  cases connection with
  | true => exact .accepted idle
  | false => exact .turned 0 (by simp [idle]) (by simp [idle]) (.inr (.inl rfl))

theorem callbacksChange {uninitialised : CUUID} (ok : step env (.callbacks uninitialised) s = .ok t) :
    Change env s (.callbacks uninitialised) t := by
  obtain ⟨⟨calling, _⟩, rfl⟩ := allowOk.mp ok
  split
  · exact .adopted uninitialised calling (by assumption)
  · exact .orphaned uninitialised calling (by simpa using ‹¬ s.callback = true›)

theorem lockChange {p : Nat} (ok : step env (.lock p) s = .ok t) : Change env s (.lock p) t := by
  obtain ⟨⟨handlers, found⟩, rfl⟩ := allowOk.mp ok
  split
  · exact .locked handlers found (by assumption)
  · exact .expired handlers found (by assumption)

theorem checkChange (ok : step env .check s = .ok t) : Change env s .check t := by
  obtain ⟨locked, rfl⟩ := allowOk.mp ok
  split
  · exact .dead locked (by assumption)
  · exact .entered locked (by simpa using ‹¬ s.closed s.current = true›)

theorem recvChange {outcome : Received} (ok : step env (.recv outcome) s = .ok t) : Change env s (.recv outcome) t := by
  obtain ⟨receiving, rfl⟩ := allowOk.mp ok
  cases outcome with
  | wouldBlock => exact .turned _ (by simp [receiving]) (by simp [receiving]) (.inr (.inl rfl))
  | lost => exact .stopped (.inl receiving) (.inl rfl)
  | chunk => exact .began receiving

theorem processChange {payload : SPacketPayload} {past : Memory} {uninitialised : CUUID} {random : Nat → Fin 62}
    (ok : step env (.process payload past uninitialised random) s = .ok t) :
    Change env s (.process payload past uninitialised random) t := by
  obtain ⟨processing, result, session, _, rfl⟩ := processOk ok
  cases result with
  | true => exact .processed payload past uninitialised random session processing
  | false => exact .rejected payload past uninitialised random session processing

theorem visitChange {p : Nat} (ok : step env (.visit p) s = .ok t) : Change env s (.visit p) t := by
  obtain ⟨⟨connections, found⟩, rfl⟩ := allowOk.mp ok
  split
  · exact .dropped connections found (by assumption)
  · exact .visited connections found (by simpa using ‹¬ s.closed p = true›)

theorem sentChange {success : Bool} (ok : step env (.sent success) s = .ok t) : Change env s (.sent success) t := by
  obtain ⟨sending, rfl⟩ := allowOk.mp ok
  cases success with
  | true => exact .turned _ (by simp [sending]) (by simp [sending]) (.inr (.inr rfl))
  | false => exact .stopped (.inr sending) (.inr rfl)

theorem stepChange (ok : step env e s = .ok t) : Change env s e t := by
  cases e with
  | startThread =>
    obtain ⟨⟨_, unstarted⟩, rfl⟩ := allowOk.mp ok
    exact .started unstarted
  | makeKeyPair | initialiseKeyPair | setNetwork | setCurl | makeServer | registerCallback =>
    obtain ⟨_, rfl⟩ := allowOk.mp ok
    exact .initialised _ _ _ _ _ trivial
  | beginSweep =>
    obtain ⟨running, rfl⟩ := allowOk.mp ok
    exact .sweeping _ (.inl running) (.inr rfl)
  | sweepPlayer p => exact sweepChange ok
  | endSweep =>
    obtain ⟨⟨sweeping, _⟩, rfl⟩ := allowOk.mp ok
    exact .sweeping _ (.inr sweeping) (.inl rfl)
  | accept connection => exact acceptChange ok
  | callbacks uninitialised => exact callbacksChange ok
  | push =>
    obtain ⟨pushing, rfl⟩ := allowOk.mp ok
    exact .pushed pushing
  | lock p => exact lockChange ok
  | check => exact checkChange ok
  | recv outcome => exact recvChange ok
  | process payload past uninitialised random => exact processChange ok
  | visit p => exact visitChange ok
  | sent success => exact sentChange ok
  | endHandlers | endTick =>
    obtain ⟨⟨inside, _⟩, rfl⟩ := allowOk.mp ok
    exact .turned _ (by simp [inside]) (by simp [inside]) (by simp)
  | endChunk =>
    obtain ⟨processing, rfl⟩ := allowOk.mp ok
    exact .turned _ (by simp [processing]) (by simp [processing]) (.inr (.inl rfl))
  | complete p index body past =>
    obtain ⟨alive, inside, session, ran, rfl⟩ := completeOk ok
    exact .completed alive inside ran

/-! Which numbers are where. -/

/- Every player and every handler is one the callback made. -/
def Known (s : CSystem) : Prop := (∀ p ∈ s.players, p ∈ s.made) ∧ ∀ p ∈ s.handlers, p ∈ s.made

theorem changeKnown (known : Known s) (change : Change env s e t) : Known t := by
  have added {l : List Nat} (inside : ∀ p ∈ l, p ∈ s.made) (q : Nat) :
      ∀ p ∈ l ++ [q], p ∈ s.made ++ [q] := by
    intro p mem
    rcases List.mem_append.mp mem with old | new
    · exact List.mem_append_left _ (inside p old)
    · exact List.mem_append_right _ new
  cases change with
  | swept found shut => exact ⟨fun p mem => known.1 p (List.mem_of_mem_eraseIdx mem), known.2⟩
  | adopted uninitialised calling registered => exact ⟨added known.1 _, added known.2 _⟩
  | expired handlers found gone => exact ⟨known.1, fun p mem => known.2 p (List.mem_of_mem_eraseIdx mem)⟩
  | dead locked shut => exact ⟨known.1, fun p mem => known.2 p (List.mem_of_mem_eraseIdx mem)⟩
  | _ => exact known

/- A connection that Accept has just returned has a number nothing else has. -/
def Numbered (s : CSystem) : Prop :=
  (∀ p ∈ s.made, p < s.accepted ∧ (s.net = .calling → p ≠ s.current)) ∧
  (∀ p ∈ s.connections, p < s.accepted ∧ (s.net = .calling ∨ s.net = .pushing → p ≠ s.current)) ∧
  (s.net = .calling ∨ s.net = .pushing → s.current < s.accepted)

theorem changeNumbered (numbered : Numbered s) (change : Change env s e t) : Numbered t := by
  obtain ⟨made, connections, last⟩ := numbered
  cases change with
  | accepted idle =>
    refine ⟨fun p mem => ?_, fun p mem => ?_, fun _ => Nat.lt_succ_self _⟩
    · have less := (made p mem).1
      exact ⟨Nat.lt_succ_of_lt less, fun _ => Nat.ne_of_lt less⟩
    · have less := (connections p mem).1
      exact ⟨Nat.lt_succ_of_lt less, fun _ => Nat.ne_of_lt less⟩
  | adopted uninitialised calling registered =>
    refine ⟨fun p mem => ?_, fun p mem => ?_, fun _ => last (.inl calling)⟩
    · rcases List.mem_append.mp mem with old | new
      · exact ⟨(made p old).1, nofun⟩
      · rw [List.mem_singleton.mp new]
        exact ⟨last (.inl calling), nofun⟩
    · exact ⟨(connections p mem).1, fun _ => (connections p mem).2 (.inl calling)⟩
  | orphaned uninitialised calling unregistered =>
    exact ⟨fun p mem => ⟨(made p mem).1, nofun⟩, fun p mem => ⟨(connections p mem).1, fun _ =>
      (connections p mem).2 (.inl calling)⟩, fun _ => last (.inl calling)⟩
  | pushed pushing =>
    refine ⟨fun p mem => ⟨(made p mem).1, nofun⟩, fun p mem => ⟨?_, by simp⟩, by simp⟩
    rcases List.mem_append.mp mem with old | new
    · exact (connections p old).1
    · rw [List.mem_singleton.mp new]
      exact last (.inr pushing)
  | dropped connection found shut =>
    exact ⟨made, fun p mem => connections p (List.mem_of_mem_eraseIdx mem), last⟩
  | initialised | sweeping | swept | expired | processed | completed => exact ⟨made, connections, last⟩
  | turned cursor pushed unlocked between =>
    refine ⟨fun p mem => ⟨(made p mem).1, ?_⟩, fun p mem => ⟨(connections p mem).1, ?_⟩, ?_⟩ <;>
      rcases between with rfl | rfl | rfl <;> simp
  | stopped inside next =>
    refine ⟨fun p mem => ⟨(made p mem).1, ?_⟩, fun p mem => ⟨(connections p mem).1, ?_⟩, ?_⟩ <;>
      rcases next with rfl | rfl <;> simp
  | started | locked | dead | entered | began | rejected | visited =>
    exact ⟨fun p mem => ⟨(made p mem).1, nofun⟩, fun p mem => ⟨(connections p mem).1, by simp⟩, by simp⟩

/- The player in hand is the one the iterator is at, and nothing is read from or sent to
a closed socket. -/
def Holding (s : CSystem) : Prop :=
  (s.net = .locked ∨ s.net = .receiving ∨ s.net = .processing → s.handlers[s.cursor]? = some s.current) ∧
  (s.net = .receiving ∨ s.net = .processing ∨ s.net = .sending → s.closed s.current = false)

theorem changeHolding (holding : Holding s) (change : Change env s e t) : Holding t := by
  obtain ⟨found, isOpen⟩ := holding
  cases change with
  | initialised | sweeping | swept | processed | completed => exact ⟨found, isOpen⟩
  | locked handlers here mem => exact ⟨fun _ => here, by simp⟩
  | entered locked here => exact ⟨fun _ => found (.inl locked), fun _ => here⟩
  | began receiving => exact ⟨fun _ => found (.inr (.inl receiving)), fun _ => isOpen (.inl receiving)⟩
  | visited connections here shut => exact ⟨by simp, fun _ => shut⟩
  | expired handlers here gone => exact ⟨by simp [handlers], isOpen⟩
  | dropped connections here shut => exact ⟨found, isOpen⟩
  | turned cursor pushed unlocked between => rcases between with rfl | rfl | rfl <;> simp [Holding]
  | stopped inside next => rcases next with rfl | rfl <;> simp [Holding]
  | started | accepted | adopted | orphaned | pushed | dead | rejected => simp [Holding]

/- A player whose socket is open is once in each of the lists, its connection while it is
not yet pushed apart. -/
def Listed (s : CSystem) : Prop := ∀ p ∈ s.made, s.closed p = false →
  s.players.count p = 1 ∧ s.handlers.count p = 1 ∧
    s.connections.count p + (if s.net = .pushing ∧ s.current = p then 1 else 0) = 1

theorem shutApart {closed : Nat → Bool} {p q : Nat} (shut : closed q = true) (isOpen : closed p = false) : q ≠ p := by
  intro same
  rw [same, isOpen] at shut
  contradiction

theorem stillOpen {closed : Nat → Bool} {current p : Nat} (isOpen : Function.update closed current true p = false) :
    closed p = false := by
  rcases eq_or_ne p current with rfl | apart
  · simp at isOpen
  · simpa [Function.update_of_ne apart] using isOpen

/- What `Listed` says of an open player outside of pushing. -/
def Once (s : CSystem) (p : Nat) : Prop :=
  s.players.count p = 1 ∧ s.handlers.count p = 1 ∧ s.connections.count p = 1

theorem listedOnce (listed : Listed s) (apart : s.net ≠ .pushing) {p : Nat} (mem : p ∈ s.made)
    (isOpen : s.closed p = false) : Once s p := by
  obtain ⟨players, handlers, connections⟩ := listed p mem isOpen
  rw [if_neg (fun both => apart both.1)] at connections
  exact ⟨players, handlers, connections⟩

theorem onceListed (apart : s.net ≠ .pushing) (once : ∀ p ∈ s.made, s.closed p = false → Once s p) : Listed s := by
  intro p mem isOpen
  rw [if_neg (fun both => apart both.1)]
  exact once p mem isOpen

theorem sweptListed (listed : Listed s) {q : Nat} (found : s.players[s.sweep]? = some q) (shut : s.closed q = true) :
    Listed { s with players := s.players.eraseIdx s.sweep } := by
  intro p mem isOpen
  obtain ⟨players, rest⟩ := listed p mem isOpen
  exact ⟨(countKept found (shutApart shut isOpen)).trans players, rest⟩

theorem adoptedListed (known : Known s) (numbered : Numbered s) (listed : Listed s) (uninitialised : CUUID)
    (calling : s.net = .calling) : Listed { s.addPlayer uninitialised with net := .pushing } := by
  intro p mem isOpen
  simp only [CSystem.addPlayer, countAdded, true_and]
  rcases List.mem_append.mp mem with old | new
  · have apart : s.current ≠ p := ((numbered.1 p old).2 calling).symm
    obtain ⟨players, handlers, connections⟩ := listedOnce listed (by simp [calling]) old isOpen
    rw [if_neg apart]
    exact ⟨players, handlers, connections⟩
  · obtain rfl := List.mem_singleton.mp new
    have fresh : s.current ∉ s.made := fun old => (numbered.1 _ old).2 calling rfl
    have unlisted : s.current ∉ s.connections := fun old => (numbered.2.1 _ old).2 (.inl calling) rfl
    rw [List.count_eq_zero_of_not_mem (fun old => fresh (known.1 _ old)),
      List.count_eq_zero_of_not_mem (fun old => fresh (known.2 _ old)), List.count_eq_zero_of_not_mem unlisted]
    simp

theorem orphanedListed (numbered : Numbered s) (listed : Listed s) (calling : s.net = .calling) :
    Listed { s with net := .pushing } := by
  intro p mem isOpen
  have apart : s.current ≠ p := ((numbered.1 p mem).2 calling).symm
  obtain ⟨players, handlers, connections⟩ := listedOnce listed (by simp [calling]) mem isOpen
  rw [if_neg (fun both => apart both.2)]
  exact ⟨players, handlers, connections⟩

theorem pushedListed (listed : Listed s) (pushing : s.net = .pushing) :
    Listed { s with net := .handlers, cursor := 0, connections := s.connections ++ [s.current] } := by
  intro p mem isOpen
  obtain ⟨players, handlers, connections⟩ := listed p mem isOpen
  simp only [pushing, true_and, reduceCtorEq, false_and, ite_false, countAdded] at connections ⊢
  exact ⟨players, handlers, connections⟩

/- A handler whose player is gone or closed. -/
theorem erasedListed (listed : Listed s) (apart : s.net ≠ .pushing) {q : Nat}
    (found : s.handlers[s.cursor]? = some q) (out : q ∉ s.players ∨ s.closed q = true) :
    Listed { s with net := .handlers, handlers := s.handlers.eraseIdx s.cursor } := by
  refine onceListed (by simp) ?_
  intro p mem isOpen
  obtain ⟨players, handlers, connections⟩ := listedOnce listed apart mem isOpen
  have other : q ≠ p := by
    intro same
    rcases out with gone | shut
    · exact gone (same ▸ List.count_pos_iff.mp (by omega))
    · exact shutApart shut isOpen same
  exact ⟨players, (countKept found other).trans handlers, connections⟩

theorem droppedListed (listed : Listed s) (apart : s.net ≠ .pushing) {q : Nat}
    (found : s.connections[s.cursor]? = some q) (shut : s.closed q = true) :
    Listed { s with connections := s.connections.eraseIdx s.cursor } := by
  refine onceListed apart ?_
  intro p mem isOpen
  obtain ⟨players, handlers, connections⟩ := listedOnce listed apart mem isOpen
  exact ⟨players, handlers, (countKept found (shutApart shut isOpen)).trans connections⟩

theorem changeListed (known : Known s) (numbered : Numbered s) (holding : Holding s) (listed : Listed s)
    (change : Change env s e t) : Listed t := by
  cases change with
  | initialised | sweeping | processed | completed => exact listed
  | swept found shut => exact sweptListed listed found shut
  | adopted uninitialised calling registered => exact adoptedListed known numbered listed uninitialised calling
  | orphaned uninitialised calling unregistered => exact orphanedListed numbered listed calling
  | pushed pushing => exact pushedListed listed pushing
  | expired handlers found gone =>
    have erased := erasedListed listed (by simp [handlers]) found (.inl gone)
    rwa [← handlers] at erased
  | dead locked shut => exact erasedListed listed (by simp [locked]) (holding.1 (.inl locked)) (.inr shut)
  | dropped connections found shut => exact droppedListed listed (by simp [connections]) found shut
  | turned cursor pushed unlocked between =>
    exact onceListed (by rcases between with rfl | rfl | rfl <;> simp) fun p => listedOnce listed pushed
  | stopped inside next =>
    refine onceListed (by rcases next with rfl | rfl <;> simp) fun p mem isOpen => ?_
    exact listedOnce listed (by rcases inside with at' | at' <;> simp [at']) mem (stillOpen isOpen)
  | rejected payload past uninitialised' random session processing =>
    exact onceListed (by simp) fun p mem isOpen => listedOnce listed (by simp [processing]) mem (stillOpen isOpen)
  | started here | accepted here | locked here | entered here | began here | visited here =>
    exact onceListed (by simp) fun p => listedOnce listed (by simp [here])

/- The invariant of every run. -/
structure Consistent (s : CSystem) : Prop where
  known : Known s
  numbered : Numbered s
  holding : Holding s
  listed : Listed s

theorem stepConsistent (inv : Consistent s) (ok : step env e s = .ok t) : Consistent t := by
  have change := stepChange ok
  exact ⟨changeKnown inv.known change, changeNumbered inv.numbered change, changeHolding inv.holding change,
    changeListed inv.known inv.numbered inv.holding inv.listed change⟩

theorem consistent {events : List Event} (path : Path (step env) {} events s) : Consistent s := by
  refine pathInvariant ⟨?_, ?_, ?_, ?_⟩ (fun _ _ _ inv ok => stepConsistent inv ok) path
  · simp [Known]
  · simp [Numbered]
  · simp [Holding]
  · simp [Listed]

end Mcpp.Server
