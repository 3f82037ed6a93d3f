import Mcpp.Challenge
import Mcpp.Server

/-! The callbacks of the hasJoined requests and the players they point to. Each holds a
raw pointer; what keeps a player is an entry of m_players or the network thread's lock,
and neither asks whether a request of the player is still on its way. -/
namespace Mcpp.Callbacks
open Buffers Uuid PacketVisitor Packets
open MCPlayer (IGlobalEnvironment askingServer)
open Run Server Custody

variable {env : IGlobalEnvironment} {e : Event} {s t : CSystem} {events : List Event}

/- A request the player made is queued or running. -/
def Outstanding (s : CSystem) (p : Nat) : Prop := (s.sessions p).requests ≠ []

def Outlived (s : CSystem) : Prop := ∀ p, Outstanding s p → Alive s p

/- The step lets the last owner of a player go. -/
def Releases (p : Nat) : Event → CSystem → Prop
  | .sweepPlayer q, s => q = p ∧ s.closed p = true ∧ ¬ Held s p
  | .check, s => s.current = p ∧ s.closed p = true ∧ p ∉ s.players
  | _, _ => False

/- Each player is in m_players once. -/
def Once (s : CSystem) : Prop := ∀ p, s.players.count p ≤ 1

theorem changeOnce (inv : Consistent s) (once : Once s) (change : Change env s e t) : Once t := by
  intro p
  cases change with
  | swept found shut =>
    have erased := countErased found p
    have most := once p
    simp only
    omega
  | adopted uninitialised calling registered =>
    simp only [CSystem.addPlayer, countAdded]
    have most := once p
    rcases eq_or_ne s.current p with rfl | apart
    · have fresh : s.current ∉ s.players := fun old => (inv.numbered.1 _ (inv.known.1 _ old)).2 calling rfl
      simp [List.count_eq_zero_of_not_mem fresh]
    · rw [if_neg apart]
      exact most
  | _ => exact once p

theorem once (path : Path (step env) {} events s) : Once s := by
  induction path with
  | start => simp [Once]
  | next before ok ih => exact changeOnce (consistent before) ih (stepChange ok)

/- While the network thread reads for it, a player is in m_players. -/
theorem currentKept (inv : Consistent s) (inside : s.net = .receiving ∨ s.net = .processing) :
    s.current ∈ s.players := by
  have found := inv.holding.1 (.inr inside)
  have isOpen := inv.holding.2 (by rcases inside with at' | at' <;> simp [at'])
  have players := (inv.listed _ (inv.known.2 _ (List.mem_of_getElem? found)) isOpen).1
  exact List.count_pos_iff.mp (by omega)

theorem alivePlayers {p : Nat} (alive : Alive s p) (outside : ¬ Held s p) : p ∈ s.players := by
  rcases alive with mem | held
  · exact mem
  · exact absurd held outside

/- A player that is read for is alive without the lock. -/
theorem readPlayers (inv : Consistent s) (inside : s.net = .receiving ∨ s.net = .processing) {p : Nat}
    (alive : Alive s p) : p ∈ s.players := by
  rcases alive with mem | ⟨_, rfl⟩
  · exact mem
  · exact currentKept inv inside

theorem unlockedPlayers (inv : Consistent s) (unlocked : s.net ≠ .locked) {p : Nat} (alive : Alive s p) :
    p ∈ s.players := by
  by_cases inside : s.net = .receiving ∨ s.net = .processing
  · exact readPlayers inv inside alive
  · exact alivePlayers alive (fun held => held.1.elim unlocked inside)

theorem aliveKept (inv : Consistent s) (change : Change env s e t) {p : Nat} (unreleased : ¬ Releases p e s)
    (alive : Alive s p) : Alive t p := by
  have outside {net : Net} (at' : s.net = net) (unheld : net ≠ .locked ∧ net ≠ .receiving ∧ net ≠ .processing) :
      p ∈ s.players := alivePlayers alive (by simp [Held, at', unheld])
  cases change with
  | @swept q found shut =>
    rcases alive with mem | held
    · rcases eq_or_ne q p with rfl | apart
      · exact .inr (by_contra fun unheld => unreleased ⟨rfl, shut, unheld⟩)
      · have erased := countKept found apart
        have some := List.count_pos_iff.mpr mem
        exact .inl (List.count_pos_iff.mp (by simp only; omega))
    · exact .inr held
  | dead locked shut =>
    refine .inl (by_contra fun gone => ?_)
    rcases alive with mem | held
    · exact gone mem
    · obtain rfl := held.2
      exact unreleased ⟨rfl, shut, gone⟩
  | entered locked isOpen => exact alive.imp id fun held => ⟨.inr (.inl rfl), held.2⟩
  | began receiving => exact .inl (readPlayers inv (.inl receiving) alive)
  | rejected payload past uninitialised random session processing => exact .inl (readPlayers inv (.inr processing) alive)
  | turned cursor pushed unlocked between => exact .inl (unlockedPlayers inv unlocked alive)
  | stopped inside next => exact .inl (unlockedPlayers inv (by rcases inside with at' | at' <;> simp [at']) alive)
  | started at' => exact .inl (outside at' (by simp))
  | accepted at' => exact .inl (outside at' (by simp))
  | adopted uninitialised at' registered => exact .inl (List.mem_append_left _ (outside at' (by simp)))
  | orphaned uninitialised at' unregistered => exact .inl (outside at' (by simp))
  | pushed at' => exact .inl (outside at' (by simp))
  | locked at' found mem => exact .inl (outside at' (by simp))
  | expired at' found gone => exact alive
  | dropped at' found shut => exact alive
  | visited at' found isOpen => exact .inl (outside at' (by simp))
  | initialised | sweeping | processed | completed => exact alive

/- Behind the step that releases it a player is gone, and its requests are what they were. -/
theorem releasedGone (players : Once s) (ok : step env e s = .ok t) {p : Nat} (released : Releases p e s) :
    ¬ Alive t p ∧ t.sessions = s.sessions := by
  cases e with
  | sweepPlayer q =>
    obtain ⟨rfl, shut, unheld⟩ := released
    obtain ⟨⟨_, found⟩, rfl⟩ := allowOk.mp ok
    rw [if_pos shut]
    refine ⟨?_, rfl⟩
    intro alive
    rcases alive with mem | held
    · have erased := countErased found q
      rw [if_pos rfl] at erased
      have most := players q
      have some := List.count_pos_iff.mpr mem
      simp only at some
      omega
    · exact unheld held
  | check =>
    obtain ⟨rfl, shut, gone⟩ := released
    obtain ⟨_, rfl⟩ := allowOk.mp ok
    rw [if_pos shut]
    refine ⟨?_, rfl⟩
    intro alive
    rcases alive with mem | held
    · exact gone mem
    · simp [Held] at held
  | _ => exact released.elim

/- A payload is handled. -/
def Processes : Event → Prop
  | .process .. => True
  | _ => False

/- A request that is new is one of the player that is read for. -/
theorem outstandingKept (change : Change env s e t) {p : Nat} (outstanding : Outstanding t p) :
    Outstanding s p ∨ (Processes e ∧ s.net = .processing ∧ s.current = p) := by
  cases change with
  | processed payload past uninitialised random session processing =>
    rcases eq_or_ne p s.current with rfl | apart
    · exact .inr ⟨trivial, processing, rfl⟩
    · exact .inl (by simpa [Outstanding, Function.update_of_ne apart] using outstanding)
  | rejected payload past uninitialised random session processing =>
    rcases eq_or_ne p s.current with rfl | apart
    · exact .inr ⟨trivial, processing, rfl⟩
    · exact .inl (by simpa [Outstanding, Function.update_of_ne apart] using outstanding)
  | @completed q index body past session alive inside ran =>
    left
    rcases eq_or_ne p q with rfl | apart
    · intro none
      rw [none] at inside
      exact absurd inside (Nat.not_lt_zero _)
    · simpa [Outstanding, Function.update_of_ne apart] using outstanding
  | adopted uninitialised calling registered =>
    left
    rcases eq_or_ne p s.current with rfl | apart
    · simp [Outstanding, CSystem.addPlayer, MCPlayer.Session.fresh] at outstanding
    · simpa [Outstanding, CSystem.addPlayer, Function.update_of_ne apart] using outstanding
  | _ => exact .inl outstanding

/- No request of a player is outstanding when its last owner lets it go. -/
def Awaits (e : Event) (s : CSystem) : Prop := ∀ p, Releases p e s → ¬ Outstanding s p

/- The same, computed. -/
def awaits : Event → CSystem → Bool
  | .sweepPlayer p, s => !s.closed p || decide (Held s p) || (s.sessions p).requests.isEmpty
  | .check, s => !s.closed s.current || decide (s.current ∈ s.players) || (s.sessions s.current).requests.isEmpty
  | _, _ => true

theorem awaitsComputed (e : Event) (s : CSystem) (computed : awaits e s = true) : Awaits e s := by
  intro p released outstanding
  cases e with
  | sweepPlayer q =>
    obtain ⟨rfl, shut, unheld⟩ := released
    exact outstanding (by simpa [awaits, shut, unheld] using computed)
  | check =>
    obtain ⟨rfl, shut, gone⟩ := released
    exact outstanding (by simpa [awaits, shut, gone] using computed)
  | _ => exact released.elim

theorem stepOutlived (inv : Consistent s) (players : Once s) (ok : step env e s = .ok t) (outlived : Outlived s) :
    Outlived t ↔ Awaits e s := by
  constructor
  · intro outlived' p released outstanding
    obtain ⟨gone, sessions⟩ := releasedGone players ok released
    refine gone (outlived' p ?_)
    rw [Outstanding, sessions]
    exact outstanding
  · intro awaits p outstanding
    rcases outstandingKept (stepChange ok) outstanding with old | ⟨_, processing, rfl⟩
    · exact aliveKept inv (stepChange ok) (fun released => awaits p released old) (outlived p old)
    · refine aliveKept inv (stepChange ok) ?_ (.inl (currentKept inv (.inr processing)))
      intro released
      cases e with
      | sweepPlayer q =>
        have isOpen := inv.holding.2 (.inr (.inl processing))
        rw [released.2.1] at isOpen
        contradiction
      | check =>
        have isOpen := inv.holding.2 (.inr (.inl processing))
        rw [released.2.1] at isOpen
        contradiction
      | _ => exact released.elim

/- What is to hold of a run: the player of every outstanding request is there, and
so a completion runs the callback of one that is. -/
structure CallbacksSafe (env : IGlobalEnvironment) (events : List Event) : Prop where
  outlived : Throughout (step env) {} Outlived events
  completions : Always (step env) {} (fun _ e s => ∀ p index body past, e = .complete p index body past →
    index < (s.sessions p).requests.length → Alive s p) events

theorem safeExactly (path : Path (step env) {} events s) :
    CallbacksSafe env events ↔ Always (step env) {} (fun _ e s => Awaits e s) events := by
  have start : Outlived {} := by
    intro p outstanding
    simp [Outstanding, MCPlayer.Session.fresh] at outstanding
  have exact' : Throughout (step env) {} Outlived events ↔ Always (step env) {} (fun _ e s => Awaits e s) events := by
    refine throughoutExactly start ?_ path
    intro before e s t path' ok outlived
    exact stepOutlived (consistent path') (once path') ok outlived
  rw [← exact']
  constructor
  · intro safe
    exact safe.outlived
  · intro outlived
    refine ⟨outlived, ?_⟩
    intro before e after s split path' p index body past completes inside
    subst completes
    refine outlived before _ s split path' p ?_
    intro none
    rw [none] at inside
    exact absurd inside (Nat.not_lt_zero _)

/- Start-up, a client's first tick up to the handler's read, and a sweep that takes its player. -/
def joining : List Event := [.startThread, .makeKeyPair, .initialiseKeyPair, .setNetwork, .setCurl, .makeServer,
  .registerCallback, .accept true, .callbacks (.ofWords 0 0), .push, .lock 0, .check]
def sweeping : List Event := [.beginSweep, .sweepPlayer 0]

def frame (bytes : Bytes) (packetId : BitVec 32) : Event :=
  .process ⟨some bytes, packetId, BitVec.ofNat 32 bytes.length⟩ (fun _ => 0) (.ofWords 0 0) MCPlayer.steady

/- A login up to the accepted response. -/
def login : List Event := [.recv .chunk, frame [7, 0, 0x84, 0x06, 0, 0, 0, 2] 0,
  frame MCPlayer.steveStart 0, frame MCPlayer.steadyAnswer 1, .endChunk]

def leaving : List Event := [.endHandlers, .visit 0, .sent true, .endTick, .accept false, .lock 0, .check, .recv .lost]

/- A client that leaves when it has been answered. -/
def visit : List Event :=
  joining ++ login ++ [.complete 0 0 MCPlayer.profile fun _ => 0] ++ leaving ++ sweeping

theorem safeVisit : (∃ last, Path (step MCPlayer.knowingServer) {} visit last ∧ (last.sessions 0).calls.length = 3 ∧
    last.players = []) ∧ CallbacksSafe MCPlayer.knowingServer visit := by
  have path : Path (step MCPlayer.knowingServer) {} visit _ := pathRun rfl
  exact ⟨⟨_, path, rfl, rfl⟩, (safeExactly path).mpr (alwaysChecks awaitsComputed (by decide +kernel))⟩

/- A client that leaves while its request is on its way. -/
theorem replyTooLate : ¬ ∀ (env : IGlobalEnvironment) (events : List Event) (s : CSystem),
    Path (step env) {} events s → CallbacksSafe env events := by
  intro always
  have path : Path (step (askingServer id)) {} (joining ++ login ++ leaving ++ sweeping) _ := pathRun rfl
  have alive := (always _ _ _ path).outlived _ [] _ (by simp) path 0 (List.cons_ne_nil _ _)
  revert alive
  decide +kernel

end Mcpp.Callbacks
