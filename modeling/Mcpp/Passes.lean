import Mcpp.Iteration
import Mcpp.Lifecycle

/-! The three loops of the server that erase while they go: the sweep over m_players, and
those of NetworkTick over m_packetHandlers and m_activeConnections, each under the steps of
the other threads. A pass reaches everyone once, and what was closed before it is gone. -/
namespace Mcpp.Passes
open MCPlayer (IGlobalEnvironment)
open Run Server Custody Lifecycle Iteration

variable {env : IGlobalEnvironment} {e : Event} {s t u : CSystem} {events : List Event} {p : Nat}

/- The connection that is sent to is the one the iterator is at. -/
def Sending (s : CSystem) : Prop := s.net = .sending → s.connections[s.cursor]? = some s.current

/- What is closed has been accepted, and was before the connection that is being adopted. -/
def Earlier (s : CSystem) : Prop := ∀ p, s.closed p = true →
  p < s.accepted ∧ (s.net = .calling ∨ s.net = .pushing → p ≠ s.current)

structure Steady (s : CSystem) : Prop where
  consistent : Consistent s
  sending : Sending s
  earlier : Earlier s

theorem changeSending (sending : Sending s) (change : Change env s e t) : Sending t := by
  cases change with
  | visited connections found isOpen => exact fun _ => found
  | turned cursor pushed unlocked between =>
    rintro rfl
    simp at between
  | stopped inside next =>
    rintro rfl
    simp at next
  | initialised | sweeping | swept | processed | completed => exact sending
  | dropped connections found shut =>
    intro inside
    exact absurd (connections.symm.trans inside) (by simp)
  | expired handlers found gone =>
    intro inside
    exact absurd (handlers.symm.trans inside) (by simp)
  | _ => exact nofun

theorem currentAccepted (consistent : Consistent s) (sending : Sending s)
    (inside : s.net = .receiving ∨ s.net = .processing ∨ s.net = .sending) : s.current < s.accepted := by
  have served (here : s.net = .receiving ∨ s.net = .processing) : s.current < s.accepted :=
    (consistent.numbered.1 _ (consistent.known.2 _ (List.mem_of_getElem? (consistent.holding.1 (.inr here))))).1
  rcases inside with here | here | here
  · exact served (.inl here)
  · exact served (.inr here)
  · exact (consistent.numbered.2.1 _ (List.mem_of_getElem? (sending here))).1

theorem changeEarlier (consistent : Consistent s) (sending : Sending s) (earlier : Earlier s) (change : Change env s e t) :
    Earlier t := by
  have closing {net : Net} (next : net ≠ .calling ∧ net ≠ .pushing) (mine : s.current < s.accepted) (p : Nat)
      (shut : Function.update s.closed s.current true p = true) :
      p < s.accepted ∧ (net = .calling ∨ net = .pushing → p ≠ s.current) := by
    refine ⟨?_, fun which => absurd which (not_or.mpr next)⟩
    rcases eq_or_ne p s.current with rfl | apart
    · exact mine
    · rw [Function.update_of_ne apart] at shut
      exact (earlier p shut).1
  intro p shut
  cases change with
  | stopped inside next =>
    have mine := currentAccepted consistent sending (inside.imp id .inr)
    exact closing (by rcases next with rfl | rfl <;> simp) mine p shut
  | rejected payload past uninitialised random session processing =>
    exact closing (by simp) (currentAccepted consistent sending (.inr (.inl processing))) p shut
  | accepted idle =>
    have less := (earlier p shut).1
    exact ⟨Nat.lt_succ_of_lt less, fun _ => Nat.ne_of_lt less⟩
  | adopted uninitialised calling registered => exact ⟨(earlier p shut).1, fun _ => (earlier p shut).2 (.inl calling)⟩
  | orphaned uninitialised calling unregistered => exact ⟨(earlier p shut).1, fun _ => (earlier p shut).2 (.inl calling)⟩
  | turned cursor pushed unlocked between =>
    refine ⟨(earlier p shut).1, ?_⟩
    rintro (rfl | rfl)
    · simp at between
    · simp at between
  | initialised | sweeping | swept | processed | completed => exact earlier p shut
  | expired | dropped => exact earlier p shut
  | started | pushed | locked | dead | entered | began | visited => exact ⟨(earlier p shut).1, by simp⟩

theorem steadyStep (steady : Steady s) (ok : step env e s = .ok t) : Steady t := by
  obtain ⟨consistent, sending, earlier⟩ := steady
  have change := stepChange ok
  exact ⟨stepConsistent consistent ok, changeSending sending change, changeEarlier consistent sending earlier change⟩

theorem steady (path : Path (step env) {} events s) : Steady s := by
  refine pathInvariant ⟨consistent (.start : Path (step env) {} [] {}), nofun, nofun⟩ ?_ path
  intro e s t steady ok
  exact steadyStep steady ok

def Shut (p : Nat) (s : CSystem) : Prop := s.closed p = true

theorem staysShut (p : Nat) (e : Event) (s t : CSystem) (ok : step env e s = .ok t) (shut : Shut p s) : Shut p t :=
  changeCloses (stepChange ok) shut

/-! What each loop visits. -/

def swept : Event → Option Nat
  | .sweepPlayer p => some p
  | _ => none

def serviced : Event → Option Nat
  | .lock p => some p
  | _ => none

def flushed : Event → Option Nat
  | .visit p => some p
  | _ => none

def InHandlers (s : CSystem) : Prop := s.net = .handlers ∨ s.net = .locked ∨ s.net = .receiving ∨ s.net = .processing

def InConnections (s : CSystem) : Prop := s.net = .connections ∨ s.net = .sending

/- Between lock() and what ends the turn of a handler. -/
def servicing : Net → Bool
  | .locked | .receiving | .processing => true
  | _ => false

/- The steps of the main thread and of curl. -/
def Elsewhere : Event → Prop
  | .makeKeyPair | .initialiseKeyPair | .setNetwork | .setCurl | .makeServer | .registerCallback => True
  | .beginSweep | .sweepPlayer _ | .endSweep | .complete .. => True
  | _ => False

theorem elsewhereKeeps (ok : step env e s = .ok t) (elsewhere : Elsewhere e) :
    t.net = s.net ∧ t.handlers = s.handlers ∧ t.connections = s.connections ∧ t.cursor = s.cursor := by
  cases e with
  | makeKeyPair | initialiseKeyPair | setNetwork | setCurl | makeServer | registerCallback | beginSweep | endSweep =>
    obtain ⟨_, rfl⟩ := allowOk.mp ok
    exact ⟨rfl, rfl, rfl, rfl⟩
  | sweepPlayer p =>
    obtain ⟨_, rfl⟩ := allowOk.mp ok
    split <;> exact ⟨rfl, rfl, rfl, rfl⟩
  | complete p index body past =>
    obtain ⟨_, _, session, _, rfl⟩ := completeOk ok
    exact ⟨rfl, rfl, rfl, rfl⟩
  | _ => exact elsewhere.elim

theorem sweepGoes (inside : s.main = .sweeping) (ok : step env e s = .ok t) :
    t.main = .sweeping ∧ Turn (Shut · s) s.players s.sweep false (swept e) t.players t.sweep false ∨
      ¬ t.main = .sweeping ∧ swept e = none ∧ false = false ∧ s.players.length ≤ s.sweep ∧ t.players = s.players := by
  cases e with
  | sweepPlayer p =>
    obtain ⟨⟨_, found⟩, rfl⟩ := allowOk.mp ok
    refine .inl ?_
    split
    · rename_i shut
      exact ⟨inside, .erased found shut⟩
    · rename_i isOpen
      exact ⟨inside, .spared found isOpen⟩
  | endSweep =>
    obtain ⟨⟨_, past⟩, rfl⟩ := allowOk.mp ok
    exact .inr ⟨nofun, rfl, rfl, past, rfl⟩
  | startThread | makeKeyPair | initialiseKeyPair | setNetwork | setCurl | makeServer | registerCallback | beginSweep =>
    obtain ⟨here, rfl⟩ := allowOk.mp ok
    simp [inside] at here
  | callbacks uninitialised =>
    obtain ⟨⟨_, unlocked⟩, rfl⟩ := allowOk.mp ok
    exact absurd inside unlocked
  | push | endHandlers | endChunk | endTick =>
    obtain ⟨_, rfl⟩ := allowOk.mp ok
    exact .inl ⟨inside, .quiet⟩
  | accept connection =>
    obtain ⟨_, rfl⟩ := allowOk.mp ok
    cases connection <;> exact .inl ⟨inside, .quiet⟩
  | lock p | check | visit p =>
    obtain ⟨_, rfl⟩ := allowOk.mp ok
    split <;> exact .inl ⟨inside, .quiet⟩
  | recv outcome =>
    obtain ⟨_, rfl⟩ := allowOk.mp ok
    cases outcome <;> exact .inl ⟨inside, .quiet⟩
  | sent success =>
    obtain ⟨_, rfl⟩ := allowOk.mp ok
    cases success <;> exact .inl ⟨inside, .quiet⟩
  | process payload past uninitialised random =>
    obtain ⟨_, result, session, _, rfl⟩ := processOk ok
    cases result <;> exact .inl ⟨inside, .quiet⟩
  | complete p index body past =>
    obtain ⟨_, _, session, _, rfl⟩ := completeOk ok
    exact .inl ⟨inside, .quiet⟩

/-! The turn of a handler, by what the network thread does in it. -/

/- One step of the loop over m_packetHandlers that does not leave it. -/
def Serviced (s : CSystem) (visited : Option Nat) (t : CSystem) : Prop :=
  InHandlers t ∧ Turn (Shut · s) s.handlers s.cursor (servicing s.net) visited t.handlers t.cursor (servicing t.net)

theorem lockServiced (steady : Steady s) {p : Nat} (ok : step env (.lock p) s = .ok t) : Serviced s (some p) t := by
  obtain ⟨⟨handlers, found⟩, rfl⟩ := allowOk.mp ok
  rw [Serviced, handlers]
  split
  · exact ⟨.inr (.inl rfl), .begun found⟩
  · rename_i gone
    have fewer := countErased found p
    rw [if_pos rfl] at fewer
    have less : (s.handlers.eraseIdx s.cursor).count p < s.handlers.count p := by omega
    have change : Change env s (.lock p) _ := .expired handlers found gone
    have shut := changeRemoves steady.consistent change (.inr (.inl less))
    exact ⟨.inl rfl, .erased found shut⟩

theorem checkServiced (steady : Steady s) (ok : step env .check s = .ok t) : Serviced s none t := by
  obtain ⟨locked, rfl⟩ := allowOk.mp ok
  rw [Serviced, locked]
  split
  · rename_i shut
    exact ⟨.inl rfl, .erased (steady.consistent.holding.1 (.inl locked)) shut⟩
  · exact ⟨.inr (.inr (.inl rfl)), .quiet⟩

theorem recvServiced (steady : Steady s) {outcome : Received} (ok : step env (.recv outcome) s = .ok t) :
    Serviced s none t := by
  obtain ⟨receiving, rfl⟩ := allowOk.mp ok
  have alive : ¬ Shut s.current s := by simp [Shut, steady.consistent.holding.2 (.inl receiving)]
  have inHand := steady.consistent.holding.1 (.inr (.inl receiving))
  rw [Serviced, receiving]
  cases outcome with
  | wouldBlock | lost => exact ⟨.inl rfl, .spared inHand alive⟩
  | chunk => exact ⟨.inr (.inr (.inr rfl)), .quiet⟩

/- What the turn has in hand while a chunk is processed. -/
theorem processingHeld (steady : Steady s) (processing : s.net = .processing) :
    s.handlers[s.cursor]? = some s.current ∧ ¬ Shut s.current s := by
  obtain ⟨inHand, isOpen⟩ := steady.consistent.holding
  exact ⟨inHand (.inr (.inr processing)), by simp [Shut, isOpen (.inr (.inl processing))]⟩

theorem processServiced (steady : Steady s) {payload : Packets.SPacketPayload} {past : Buffers.Memory} {uninitialised : Uuid.CUUID}
    {random : Nat → Fin 62} (ok : step env (.process payload past uninitialised random) s = .ok t) :
    Serviced s none t := by
  obtain ⟨processing, result, session, _, rfl⟩ := processOk ok
  obtain ⟨inHand, alive⟩ := processingHeld steady processing
  rw [Serviced, processing]
  cases result with
  | true => exact ⟨.inr (.inr (.inr rfl)), .quiet⟩
  | false => exact ⟨.inl rfl, .spared inHand alive⟩

theorem endServiced (steady : Steady s) (ok : step env .endChunk s = .ok t) : Serviced s none t := by
  obtain ⟨processing, rfl⟩ := allowOk.mp ok
  obtain ⟨inHand, alive⟩ := processingHeld steady processing
  rw [Serviced, processing]
  exact ⟨.inl rfl, .spared inHand alive⟩

theorem elsewhereServiced (inside : InHandlers s) (ok : step env e s = .ok t) (elsewhere : Elsewhere e) :
    Serviced s none t := by
  obtain ⟨net, handlers, _, cursor⟩ := elsewhereKeeps ok elsewhere
  rw [Serviced, InHandlers, net, handlers, cursor]
  exact ⟨inside, .quiet⟩

theorem handlersGoes (steady : Steady s) (inside : InHandlers s) (ok : step env e s = .ok t) :
    InHandlers t ∧ Turn (Shut · s) s.handlers s.cursor (servicing s.net) (serviced e) t.handlers t.cursor (servicing t.net) ∨
      ¬ InHandlers t ∧ serviced e = none ∧ servicing s.net = false ∧ s.handlers.length ≤ s.cursor ∧ t.handlers = s.handlers := by
  cases e with
  | lock p => exact .inl (lockServiced steady ok)
  | check => exact .inl (checkServiced steady ok)
  | recv outcome => exact .inl (recvServiced steady ok)
  | process payload past uninitialised random => exact .inl (processServiced steady ok)
  | endChunk => exact .inl (endServiced steady ok)
  | makeKeyPair | initialiseKeyPair | setNetwork | setCurl | makeServer | registerCallback | beginSweep | endSweep
  | sweepPlayer p | complete p index body past => exact .inl (elsewhereServiced inside ok trivial)
  | endHandlers =>
    obtain ⟨⟨handlers, past⟩, rfl⟩ := allowOk.mp ok
    exact .inr ⟨by simp [InHandlers], rfl, by rw [handlers]; rfl, past, rfl⟩
  | startThread =>
    obtain ⟨⟨_, unstarted⟩, rfl⟩ := allowOk.mp ok
    simp [InHandlers, unstarted] at inside
  | callbacks uninitialised =>
    obtain ⟨⟨calling, _⟩, rfl⟩ := allowOk.mp ok
    simp [InHandlers, calling] at inside
  | visit p | endTick =>
    obtain ⟨⟨connections, _⟩, rfl⟩ := allowOk.mp ok
    simp [InHandlers, connections] at inside
  | accept connection | push | sent success =>
    obtain ⟨elsewhere, rfl⟩ := allowOk.mp ok
    simp [InHandlers, elsewhere] at inside

theorem connectionsGoes (steady : Steady s) (inside : InConnections s) (ok : step env e s = .ok t) :
    InConnections t ∧ Turn (Shut · s) s.connections s.cursor (s.net == .sending) (flushed e) t.connections t.cursor
        (t.net == .sending) ∨
      ¬ InConnections t ∧ flushed e = none ∧ (s.net == .sending) = false ∧ s.connections.length ≤ s.cursor ∧
        t.connections = s.connections := by
  have isOpen := steady.consistent.holding.2
  cases e with
  | visit p =>
    obtain ⟨⟨connections, found⟩, rfl⟩ := allowOk.mp ok
    rw [connections]
    refine .inl ?_
    split
    · rename_i shut
      exact ⟨.inl rfl, .erased found shut⟩
    · exact ⟨.inr rfl, .begun found⟩
  | sent success =>
    obtain ⟨sending, rfl⟩ := allowOk.mp ok
    have alive : ¬ Shut s.current s := by simp [Shut, isOpen (.inr (.inr sending))]
    rw [sending]
    cases success <;> exact .inl ⟨.inl rfl, .spared (steady.sending sending) alive⟩
  | endTick =>
    obtain ⟨⟨connections, past⟩, rfl⟩ := allowOk.mp ok
    refine .inr ⟨?_, rfl, by rw [connections]; rfl, past, rfl⟩
    simp [InConnections]
  | startThread =>
    obtain ⟨⟨_, unstarted⟩, rfl⟩ := allowOk.mp ok
    simp [InConnections, unstarted] at inside
  | makeKeyPair | initialiseKeyPair | setNetwork | setCurl | makeServer | registerCallback | beginSweep | endSweep
  | sweepPlayer p | complete p index body past =>
    obtain ⟨net, handlers, connections, cursor⟩ := elsewhereKeeps ok trivial
    rw [InConnections, net, connections, cursor]
    exact .inl ⟨inside, .quiet⟩
  | callbacks uninitialised =>
    obtain ⟨⟨calling, _⟩, rfl⟩ := allowOk.mp ok
    simp [InConnections, calling] at inside
  | lock p | endHandlers =>
    obtain ⟨⟨handlers, _⟩, rfl⟩ := allowOk.mp ok
    simp [InConnections, handlers] at inside
  | accept connection | push | check | recv outcome | endChunk =>
    obtain ⟨elsewhere, rfl⟩ := allowOk.mp ok
    simp [InConnections, elsewhere] at inside
  | process payload past uninitialised random =>
    obtain ⟨processing, _, _, _, rfl⟩ := processOk ok
    simp [InConnections, processing] at inside

/-! The loops. -/

variable (env) in
def sweepLoop : Loop (step env) Nat where
  Inv := Steady
  Inside s := s.main = .sweeping
  Dead := Shut
  list := CSystem.players
  cursor := CSystem.sweep
  turning _ := false
  visit := swept
  keeps _ _ _ := steadyStep
  dies := staysShut
  goes _ _ _ _ := sweepGoes

variable (env) in
def handlersLoop : Loop (step env) Nat where
  Inv := Steady
  Inside := InHandlers
  Dead := Shut
  list := CSystem.handlers
  cursor := CSystem.cursor
  turning s := servicing s.net
  visit := serviced
  keeps _ _ _ := steadyStep
  dies := staysShut
  goes _ _ _ := handlersGoes

variable (env) in
def connectionsLoop : Loop (step env) Nat where
  Inv := Steady
  Inside := InConnections
  Dead := Shut
  list := CSystem.connections
  cursor := CSystem.cursor
  turning s := s.net == .sending
  visit := flushed
  keeps _ _ _ := steadyStep
  dies := staysShut
  goes _ _ _ := connectionsGoes

/- Each pass of the loop that begins in a state covers its list, and visits every player
whose socket is open there once. -/
def Covers (loop : Loop (step env) Nat) (s : CSystem) : Prop :=
  ∀ events t, loop.Pass s events t → loop.Covered s events t ∧
    ∀ p ∈ s.made, s.closed p = false → (events.filterMap loop.visit).count p = 1

theorem coversOf (loop : Loop (step env) Nat) (inv : loop.Inv s)
    (once : loop.Inside s → ∀ p ∈ s.made, s.closed p = false → (loop.list s).count p = 1) : Covers loop s := by
  intro events t pass
  have covered := passCovered inv pass
  refine ⟨covered, ?_⟩
  intro p made isOpen
  rw [covered.visited]
  exact once pass.entered.inside p made isOpen

/- Where a step leads into a loop, the loop begins. -/
structure Begins (env : IGlobalEnvironment) (e : Event) (t : CSystem) : Prop where
  sweep : e = .beginSweep → (sweepLoop env).Entered t
  handlers : e = .push ∨ e = .accept false → (handlersLoop env).Entered t
  connections : e = .endHandlers → (connectionsLoop env).Entered t

theorem stepBegins (ok : step env e s = .ok t) : Begins env e t := by
  refine ⟨?_, ?_, ?_⟩
  · rintro rfl
    obtain ⟨_, rfl⟩ := allowOk.mp ok
    exact ⟨rfl, rfl, rfl⟩
  · rintro (rfl | rfl)
    · obtain ⟨_, rfl⟩ := allowOk.mp ok
      exact ⟨.inl rfl, rfl, rfl⟩
    · obtain ⟨_, rfl⟩ := allowOk.mp ok
      exact ⟨.inl rfl, rfl, rfl⟩
  · rintro rfl
    obtain ⟨_, rfl⟩ := allowOk.mp ok
    exact ⟨.inl rfl, rfl, rfl⟩

structure Served (env : IGlobalEnvironment) (s : CSystem) : Prop where
  begins : ∀ e t, step env e s = .ok t → Begins env e t
  sweep : Covers (sweepLoop env) s
  handlers : Covers (handlersLoop env) s
  connections : Covers (connectionsLoop env) s

theorem passesCover (env : IGlobalEnvironment) (events : List Event) : Throughout (step env) {} (Served env) events := by
  intro before after s _ path
  have inv := steady path
  have listed := inv.consistent.listed
  refine ⟨fun _ _ => stepBegins, coversOf _ inv ?_, coversOf _ inv ?_, coversOf _ inv ?_⟩
  · intro _ p made isOpen
    exact (listed p made isOpen).1
  · intro _ p made isOpen
    exact (listed p made isOpen).2.1
  · intro inside p made isOpen
    have unpushed : ¬ (s.net = .pushing ∧ s.current = p) := by
      rintro ⟨pushing, _⟩
      rcases inside with here | here
      · exact absurd (pushing.symm.trans here) (by simp)
      · exact absurd (pushing.symm.trans here) (by simp)
    have whole := (listed p made isOpen).2.2
    rwa [if_neg unpushed, Nat.add_zero] at whole

/- No list has a player or its connection and no lock keeps it. A hasJoined request of it that
is still on its way keeps nothing: its pointer may be left, and dangles. -/
structure Gone (s : CSystem) (p : Nat) : Prop where
  player : p ∉ s.players
  handler : p ∉ s.handlers
  connection : p ∉ s.connections
  dead : ¬ Alive s p

theorem changeOut (steady : Steady s) (shut : Shut p s) (change : Change env s e t) :
    (p ∉ s.players → p ∉ t.players) ∧ (p ∉ s.handlers → p ∉ t.handlers) ∧ (p ∉ s.connections → p ∉ t.connections) := by
  have other := (steady.earlier p shut).2
  cases change with
  | adopted uninitialised calling registered =>
    have apart := other (.inl calling)
    simp only [CSystem.addPlayer, List.mem_append, List.mem_singleton, not_or]
    exact ⟨fun out => ⟨out, apart⟩, fun out => ⟨out, apart⟩, id⟩
  | pushed pushing =>
    have apart := other (.inr pushing)
    simp only [List.mem_append, List.mem_singleton, not_or]
    exact ⟨id, id, fun out => ⟨out, apart⟩⟩
  | swept found shut => exact ⟨fun out mem => out (List.mem_of_mem_eraseIdx mem), id, id⟩
  | expired | dead => exact ⟨id, fun out mem => out (List.mem_of_mem_eraseIdx mem), id⟩
  | dropped connections found shut => exact ⟨id, id, fun out mem => out (List.mem_of_mem_eraseIdx mem)⟩
  | _ => exact ⟨id, id, id⟩

/- Reclaimed: behind a whole pass of each loop a closed player has no owner. -/
theorem closedReclaimed {before : List Event} (first : Path (step env) {} before s) (shut : s.closed p = true)
    (path : Path (step env) s events t) (sweep : (sweepLoop env).Completes s events)
    (handlers : (handlersLoop env).Completes s events) (connections : (connectionsLoop env).Completes s events) :
    Gone t p := by
  have inv := steady first
  have player : p ∉ t.players := completedGone
    (fun e s t inv shut out ok => (changeOut inv shut (stepChange ok)).1 out) inv shut path sweep
  have handler : p ∉ t.handlers := completedGone
    (fun e s t inv shut out ok => (changeOut inv shut (stepChange ok)).2.1 out) inv shut path handlers
  have connection : p ∉ t.connections := completedGone
    (fun e s t inv shut out ok => (changeOut inv shut (stepChange ok)).2.2 out) inv shut path connections
  refine ⟨player, handler, connection, ?_⟩
  rintro (mem | ⟨inside, rfl⟩)
  · exact player mem
  · have steady := steady (pathAppend first path)
    exact handler (List.mem_of_getElem? (steady.consistent.holding.1 inside))

/- The first connection is lost in its first tick. -/
def losing : List Event :=
  [.startThread, .makeKeyPair, .initialiseKeyPair, .setNetwork, .setCurl, .makeServer, .registerCallback, .accept true,
    .callbacks (.ofWords 0 0), .push, .lock 0, .check, .recv .lost]

def lost : CSystem where
  main := .running
  net := .handlers
  networkSet := true
  curlSet := true
  keyPair := .initialised
  callback := true
  players := [0]
  handlers := [0]
  connections := [0]
  cursor := 1
  accepted := 1
  made := [0]
  closed := Function.update (fun _ => false) 0 true
  sessions := Function.update (fun _ => .fresh (.ofWords 0 0)) 0 (.fresh (.ofWords 0 0))

def reclaiming : List Event :=
  [.endHandlers, .visit 0, .endTick, .accept false, .lock 0, .check, .endHandlers, .endTick, .beginSweep, .sweepPlayer 0, .endSweep]

theorem closedReclaimedLost : Path (step (MCPlayer.askingServer id)) {} losing lost ∧
    ∃ t, Path (step (MCPlayer.askingServer id)) lost reclaiming t ∧ Gone t 0 := by
  have first : Path (step (MCPlayer.askingServer id)) {} losing lost := pathRun rfl
  have path : Path (step (MCPlayer.askingServer id)) lost reclaiming _ := pathRun rfl
  refine ⟨first, _, path, closedReclaimed first rfl path ?_ ?_ ?_⟩
  · refine ⟨reclaiming.take 9, [.sweepPlayer 0, .endSweep], [], _, _, rfl, pathRun rfl, ⟨rfl, rfl, rfl⟩, pathRun rfl, ?_, ?_⟩
    · refine (alwaysCons rfl).mpr ⟨rfl, (alwaysCons rfl).mpr ⟨?_, alwaysStart⟩⟩
      rfl
    · exact nofun
  · refine ⟨reclaiming.take 4, [.lock 0, .check, .endHandlers], reclaiming.drop 7, _, _, rfl, pathRun rfl,
      ⟨.inl rfl, rfl, rfl⟩, pathRun rfl, ?_, ?_⟩
    · refine (alwaysCons rfl).mpr ⟨.inl rfl, (alwaysCons rfl).mpr ⟨?_, (alwaysCons rfl).mpr ⟨?_, alwaysStart⟩⟩⟩
      · exact .inr (.inl rfl)
      · exact .inl rfl
    · rintro (here | here | here | here) <;> cases here
  · refine ⟨reclaiming.take 1, [.visit 0, .endTick], reclaiming.drop 3, _, _, rfl, pathRun rfl,
      ⟨.inl rfl, rfl, rfl⟩, pathRun rfl, ?_, ?_⟩
    · refine (alwaysCons rfl).mpr ⟨.inl rfl, (alwaysCons rfl).mpr ⟨?_, alwaysStart⟩⟩
      exact .inl rfl
    · rintro (here | here) <;> cases here

end Mcpp.Passes
