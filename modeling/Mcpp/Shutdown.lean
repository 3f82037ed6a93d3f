import Mcpp.Run

/-! The shutdown flag between the network thread and the main thread. The thread stores
what Start returned into it, the destructor stores true, and each of the two stores
takes no notice of the other; the loop also leaves by a break that stores nothing. -/
namespace Mcpp.Shutdown
open Run

/- Where the network thread is in NetworkTick. -/
inductive Pc where
  | starting
  | storing
  | testing
  | inspecting
  | accepting
  | sleeping
  | returned
  deriving DecidableEq, Repr

/- The main thread: polling HasShutdown, behind the poll that ended Run, in the join of
the destructor, behind it. -/
inductive Main where
  | running
  | left
  | joining
  | joined
  deriving DecidableEq, Repr

structure CNetwork where
  pc : Pc := .starting
  main : Main := .running
  shutdown : Bool := false
  listening : Bool := false
  -- What Start returned, until it is stored.
  started : Bool := false
  deriving DecidableEq, Repr

inductive Accepted where
  | connection
  | wouldBlock
  | error
  deriving DecidableEq, Repr

inductive Event where
  -- Start, which can fail with the socket left open.
  | start (started stillOpen : Bool)
  | store
  | test
  | inspect
  -- The body of one iteration.
  | accept (outcome : Accepted)
  | wake
  | poll
  | destroy
  | join
  deriving DecidableEq, Repr

def step : Event → CNetwork → Except Unit CNetwork
  | .start started stillOpen, s =>
    allow (s.pc = .starting) { s with pc := .storing, started := started, listening := started || stillOpen }
  | .store, s => allow (s.pc = .storing) { s with pc := .testing, shutdown := !s.started }
  | .test, s => allow (s.pc = .testing) { s with pc := if s.shutdown then .returned else .inspecting }
  | .inspect, s => allow (s.pc = .inspecting) { s with pc := if s.listening then .accepting else .returned }
  | .accept outcome, s => allow (s.pc = .accepting)
      { s with pc := .sleeping, listening := if outcome = .error then false else s.listening }
  | .wake, s => allow (s.pc = .sleeping) { s with pc := .testing }
  | .poll, s => allow (s.main = .running) { s with main := if s.shutdown then .left else .running }
  | .destroy, s => allow (s.main = .running ∨ s.main = .left) { s with main := .joining, shutdown := true }
  | .join, s => allow (s.main = .joining ∧ s.pc = .returned) { s with main := .joined }

variable {e : Event} {s t : CNetwork} {events : List Event}

/- The destructor has stored its true. -/
def Destroyed (s : CNetwork) : Prop := s.main = .joining ∨ s.main = .joined

def Flagged (s : CNetwork) : Prop := (Destroyed s → s.shutdown = true) ∧ (s.pc = .returned → s.shutdown = true)

theorem stepDestroyed (ok : step e s = .ok t) : Destroyed t ↔ Destroyed s ∨ e = .destroy := by
  cases e with
  | poll =>
    obtain ⟨running, rfl⟩ := allowOk.mp ok
    cases shutdown : s.shutdown <;> simp [Destroyed, running]
  | destroy =>
    obtain ⟨_, rfl⟩ := allowOk.mp ok
    simp [Destroyed]
  | join =>
    obtain ⟨⟨joining, _⟩, rfl⟩ := allowOk.mp ok
    simp [Destroyed, joining]
  | start | store | test | inspect | accept | wake =>
    obtain ⟨_, rfl⟩ := allowOk.mp ok
    simp [Destroyed]

theorem destroyedBefore (path : Path step {} events s) : Destroyed s ↔ .destroy ∈ events := by
  induction path with
  | start => simp [Destroyed]
  | next before ok ih => simp [stepDestroyed ok, ih, eq_comm]

/- Inside an iteration the flag was found false, so only the destructor has set it. -/
def Clear (s : CNetwork) : Prop :=
  s.shutdown = true → Destroyed s ∨ s.pc = .testing ∨ s.pc = .returned

theorem stepClear (clear : Clear s) (ok : step e s = .ok t) : Clear t := by
  intro shutdown
  cases e with
  | store =>
    obtain ⟨_, rfl⟩ := allowOk.mp ok
    exact .inr (.inl rfl)
  | test =>
    obtain ⟨_, rfl⟩ := allowOk.mp ok
    have set : s.shutdown = true := shutdown
    exact .inr (.inr (by simp [set]))
  | destroy =>
    obtain ⟨_, rfl⟩ := allowOk.mp ok
    exact .inl (.inl rfl)
  | wake =>
    obtain ⟨_, rfl⟩ := allowOk.mp ok
    exact .inr (.inl rfl)
  | start | accept | inspect =>
    obtain ⟨at', rfl⟩ := allowOk.mp ok
    rcases clear shutdown with destroyed | elsewhere
    · exact .inl destroyed
    · simp [at'] at elsewhere
  | poll =>
    have destroyed := stepDestroyed ok
    obtain ⟨_, rfl⟩ := allowOk.mp ok
    rcases clear shutdown with set | elsewhere
    · exact .inl (destroyed.mpr (.inl set))
    · exact .inr elsewhere
  | join =>
    obtain ⟨_, rfl⟩ := allowOk.mp ok
    exact .inl (.inr rfl)

/- Start's success is not stored behind the destructor, and a listen socket is only found
closed behind it. -/
structure InTime (before : List Event) (e : Event) (s : CNetwork) : Prop where
  stores : e = .store → s.started = true → .destroy ∉ before
  inspects : e = .inspect → s.listening = false → .destroy ∈ before

theorem stepFlagged (path : Path step {} events s) (ok : step e s = .ok t) (flagged : Flagged s) :
    Flagged t ↔ InTime events e s := by
  have destroyed := destroyedBefore path
  cases e with
  | store =>
    obtain ⟨at', rfl⟩ := allowOk.mp ok
    have inTime : InTime events .store s ↔ (s.started = true → ¬ Destroyed s) := by
      rw [destroyed]
      exact ⟨fun inTime => inTime.stores rfl, fun early => ⟨fun _ => early, by simp⟩⟩
    rw [inTime]
    cases started : s.started <;> simp [Flagged, Destroyed]
  | inspect =>
    obtain ⟨at', rfl⟩ := allowOk.mp ok
    have clear : Clear s := pathInvariant (by simp [Clear]) (fun _ _ _ clear ok => stepClear clear ok) path
    have set : s.shutdown = true ↔ Destroyed s := by
      refine ⟨?_, flagged.1⟩
      intro shutdown
      rcases clear shutdown with set | elsewhere
      · exact set
      · simp [at'] at elsewhere
    have inTime : InTime events .inspect s ↔ (s.listening = false → Destroyed s) := by
      rw [destroyed]
      exact ⟨fun inTime => inTime.inspects rfl, fun late => ⟨by simp, fun _ => late⟩⟩
    rw [inTime, ← set]
    cases listening : s.listening with
    | false => exact ⟨fun flagged' _ => flagged'.2 rfl, fun late => ⟨flagged.1, fun _ => late rfl⟩⟩
    | true => exact iff_of_true ⟨flagged.1, by simp⟩ (by simp)
  | test =>
    obtain ⟨_, rfl⟩ := allowOk.mp ok
    refine iff_of_true ⟨flagged.1, ?_⟩ ⟨by simp, by simp⟩
    cases shutdown : s.shutdown <;> simp
  | destroy =>
    obtain ⟨_, rfl⟩ := allowOk.mp ok
    exact iff_of_true ⟨fun _ => rfl, fun _ => rfl⟩ ⟨by simp, by simp⟩
  | poll =>
    refine iff_of_true ⟨?_, ?_⟩ ⟨by simp, by simp⟩
    · intro later
      obtain set | same := (stepDestroyed ok).mp later
      · obtain ⟨_, rfl⟩ := allowOk.mp ok
        exact flagged.1 set
      · contradiction
    · obtain ⟨_, rfl⟩ := allowOk.mp ok
      exact flagged.2
  | join =>
    obtain ⟨⟨joining, returned⟩, rfl⟩ := allowOk.mp ok
    exact iff_of_true ⟨fun _ => flagged.1 (.inl joining), flagged.2⟩ ⟨by simp, by simp⟩
  | start | accept | wake =>
    obtain ⟨_, rfl⟩ := allowOk.mp ok
    exact iff_of_true ⟨flagged.1, by simp⟩ ⟨by simp, by simp⟩

theorem flaggedExactly (path : Path step {} events s) :
    Throughout step {} Flagged events ↔ Always step {} InTime events :=
  throughoutExactly (by simp [Flagged, Destroyed]) (fun _ _ _ _ before ok flagged => stepFlagged before ok flagged) path

/-! What the destructor and CSystem::Run wait for. -/

def onThread : Event → Bool
  | .start .. | .store | .test | .inspect | .accept _ | .wake => true
  | .poll | .destroy | .join => false

/- How many steps the thread has left once the flag stays set. -/
def rank (s : CNetwork) : Nat :=
  match s.pc with
  | .inspecting => 4
  | .starting | .accepting => 3
  | .storing | .sleeping => 2
  | .testing => 1
  | .returned => 0

/- Until NetworkTick has returned, the thread can go on. -/
theorem threadMoves (unreturned : s.pc ≠ .returned) : ∃ e t, onThread e = true ∧ step e s = .ok t := by
  cases at' : s.pc with
  | starting => exact ⟨.start false false, _, rfl, allowOk.mpr ⟨at', rfl⟩⟩
  | storing => exact ⟨.store, _, rfl, allowOk.mpr ⟨at', rfl⟩⟩
  | testing => exact ⟨.test, _, rfl, allowOk.mpr ⟨at', rfl⟩⟩
  | inspecting => exact ⟨.inspect, _, rfl, allowOk.mpr ⟨at', rfl⟩⟩
  | accepting => exact ⟨.accept .wouldBlock, _, rfl, allowOk.mpr ⟨at', rfl⟩⟩
  | sleeping => exact ⟨.wake, _, rfl, allowOk.mpr ⟨at', rfl⟩⟩
  | returned => contradiction

theorem rankDrops (shutdown : s.shutdown = true) (ok : step e s = .ok t) :
    rank t + (if onThread e then 1 else 0) ≤ rank s := by
  cases e with
  | inspect =>
    obtain ⟨at', rfl⟩ := allowOk.mp ok
    cases listening : s.listening <;> simp [rank, at', onThread]
  | start | store | test | accept | wake =>
    obtain ⟨at', rfl⟩ := allowOk.mp ok
    simp [rank, at', onThread, shutdown]
  | poll | destroy | join =>
    obtain ⟨_, rfl⟩ := allowOk.mp ok
    exact Nat.le_refl _

/- What is to hold of a run. Behind the destructor's store the thread, which can go
on until it has returned, takes four more steps at the most; and a poll that comes when
it has returned is the last. -/
structure Orderly (events : List Event) : Prop where
  flagged : Throughout step {} Flagged events
  moves : Throughout step {} (fun s => s.pc ≠ .returned → ∃ e t, onThread e = true ∧ step e s = .ok t) events
  joins : ∀ before after, events = before ++ .destroy :: after → (after.filter onThread).length ≤ 4
  leaves : Always step {} (fun _ e s => e = .poll → s.pc = .returned → ∀ t, step e s = .ok t → t.main = .left) events

theorem flaggedJoins (path : Path step {} events s) (flagged : Throughout step {} Flagged events)
    {before after : List Event} (split : events = before ++ .destroy :: after) :
    (after.filter onThread).length ≤ 4 := by
  rw [split, ← List.singleton_append, ← List.append_assoc] at path
  obtain ⟨u, first, second⟩ := pathSplit path
  have set : Throughout step u (fun s => s.shutdown = true) after := by
    intro front rest t whole path'
    have reached := pathAppend first path'
    have destroyed := (destroyedBefore reached).mpr (by simp)
    exact (flagged _ rest t (by simp [split, whole]) reached).1 destroyed
  have drops (e : Event) (s t : CNetwork) (shutdown : s.shutdown = true) (ok : step e s = .ok t) :
      rank t + (if onThread e then 1 else 0) ≤ rank s := rankDrops shutdown ok
  have spent := rankBound drops second set
  have most : rank u ≤ 4 := by
    unfold rank
    split <;> omega
  omega

theorem orderlyExactly (path : Path step {} events s) : Orderly events ↔ Always step {} InTime events := by
  rw [← flaggedExactly path]
  constructor
  · intro orderly
    exact orderly.flagged
  · intro flagged
    refine ⟨flagged, fun _ _ _ _ _ => threadMoves, fun before after => flaggedJoins path flagged, ?_⟩
    intro before e after u split path' polls returned t ok
    subst polls
    obtain ⟨_, rfl⟩ := allowOk.mp ok
    have shutdown := (flagged before _ u split path').2 returned
    simp [shutdown]

/- The destructor comes behind the first store, and the join behind the thread's test. -/
theorem orderlyStop : Orderly [.start true true, .store, .destroy, .test, .join] := by
  have started : Path step {} ([] ++ [.start true true]) _ := .next .start rfl
  have stored : Path step {} ([.start true true] ++ [.store]) _ := .next started rfl
  have destroyed : Path step {} ([.start true true, .store] ++ [.destroy]) _ := .next stored rfl
  have tested : Path step {} ([.start true true, .store, .destroy] ++ [.test]) _ := .next destroyed rfl
  have joined : Path step {} ([.start true true, .store, .destroy, .test] ++ [.join]) _ := .next tested rfl
  have first : Always step {} InTime ([] ++ [.start true true]) :=
    (alwaysSnoc .start).mpr ⟨alwaysStart, ⟨nofun, nofun⟩⟩
  have second : Always step {} InTime ([.start true true] ++ [.store]) :=
    (alwaysSnoc started).mpr ⟨first, ⟨fun _ _ => by decide, nofun⟩⟩
  have third : Always step {} InTime ([.start true true, .store] ++ [.destroy]) :=
    (alwaysSnoc stored).mpr ⟨second, ⟨nofun, nofun⟩⟩
  have fourth : Always step {} InTime ([.start true true, .store, .destroy] ++ [.test]) :=
    (alwaysSnoc destroyed).mpr ⟨third, ⟨nofun, nofun⟩⟩
  exact (orderlyExactly joined).mpr ((alwaysSnoc tested).mpr ⟨fourth, ⟨nofun, nofun⟩⟩)

/- An accept that fails closes the listen socket, and the next iteration leaves the loop
with the flag as it was. -/
theorem failedAcceptUnflagged : ¬ ∀ (events : List Event) (s : CNetwork), Path step {} events s → Orderly events := by
  intro always
  have path : Path step {} [.start true true, .store, .test, .inspect, .accept .error, .wake, .test, .inspect] _ :=
    pathRun rfl
  have flagged := (always _ _ path).flagged _ [] _ (by simp) path
  have shutdown := flagged.2 rfl
  contradiction

end Mcpp.Shutdown
