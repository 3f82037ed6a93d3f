import Mcpp.Server

/-! Start-up against the network thread, which runs from CNetwork's constructor on. The
services a handler uses are set before the callback that makes handlers is registered;
a connection that is accepted before that has no player and gets none. -/
namespace Mcpp.Startup
open Uuid
open MCPlayer (IGlobalEnvironment askingServer)
open Run Server

variable {env : IGlobalEnvironment} {e : Event} {s t : CSystem} {events : List Event}

/-! The services. -/

def Serviced (s : CSystem) : Prop := s.networkSet = true ∧ s.keyPair = .initialised ∧ s.curlSet = true

/- The payload is one CMCPlayer::ProcessPacket hands to HandleLogin. -/
def HandlesLogin : Event → CSystem → Prop
  | .process .., s => s.net = .processing ∧ (s.sessions s.current).player.state = .login
  | _, _ => False

/- What has been set at each place of Init; players are made behind its end. -/
def Staged (s : CSystem) : Prop :=
  match s.main with
  | .begun | .threadStarted | .keyPairMade => s.callback = false ∧ s.made = []
  | .keyPairInitialised => s.callback = false ∧ s.made = [] ∧ s.keyPair = .initialised
  | .networkSet => s.callback = false ∧ s.made = [] ∧ s.keyPair = .initialised ∧ s.networkSet = true
  | .curlSet | .serverMade => s.callback = false ∧ s.made = [] ∧ Serviced s
  | .running | .sweeping => s.callback = true ∧ Serviced s

theorem stagedServiced (staged : Staged s) (registered : s.callback = true) : Serviced s := by
  unfold Staged at staged
  cases at' : s.main with
  | running | sweeping =>
    simp only [at'] at staged
    exact staged.2
  | _ => simp_all

theorem stagedCallback (staged : Staged s) {p : Nat} (mem : p ∈ s.made) : s.callback = true := by
  unfold Staged at staged
  cases at' : s.main with
  | running | sweeping =>
    simp only [at'] at staged
    exact staged.1
  | _ => simp_all

theorem stepStaged (staged : Staged s) (ok : step env e s = .ok t) : Staged t := by
  by_cases init : Initialises e
  · cases e with
    | makeKeyPair | initialiseKeyPair | setNetwork | setCurl | makeServer | registerCallback =>
      obtain ⟨here, rfl⟩ := allowOk.mp ok
      simp_all [Staged, Serviced]
    | _ => exact init.elim
  · cases stepChange ok with
    | initialised main networkSet curlSet keyPair callback init' => exact absurd init' init
    | started unstarted =>
      obtain ⟨⟨here, _⟩, _⟩ := allowOk.mp ok
      simp_all [Staged]
    | sweeping sweep inside next =>
      rcases inside with at' | at' <;> rcases next with rfl | rfl <;> simp_all [Staged, Serviced]
    | adopted uninitialised calling registered =>
      have serviced := stagedServiced staged registered
      cases at' : s.main <;> simp_all [Staged, CSystem.addPlayer, Serviced]
    | _ => exact staged

theorem staged (path : Path (step env) {} events s) : Staged s :=
  pathInvariant (by simp [Staged]) (fun _ _ _ staged ok => stepStaged staged ok) path

/- What is to hold of a run. -/
def LoginServiced (env : IGlobalEnvironment) (events : List Event) : Prop :=
  Always (step env) {} (fun _ e s => HandlesLogin e s → Serviced s) events

theorem loginServiced (env : IGlobalEnvironment) (events : List Event) : LoginServiced env events := by
  intro before e after s _ path handles
  cases e with
  | process payload past uninitialised random =>
    have inv := consistent path
    have found := inv.holding.1 (.inr (.inr handles.1))
    have made := inv.known.2 _ (List.mem_of_getElem? found)
    exact stagedServiced (staged path) (stagedCallback (staged path) made)
  | _ => exact handles.elim

/-! The connections. -/

/- In m_activeConnections, or behind the callbacks and about to be. -/
def Put (s : CSystem) (p : Nat) : Prop := p ∈ s.connections ∨ (s.net = .pushing ∧ s.current = p)

/- A connection that is put has a player, and while it is open a handler. -/
def Adopted (s : CSystem) : Prop := ∀ p, Put s p → p ∈ s.made ∧ (s.closed p = false → p ∈ s.handlers)

/- The loop over m_connectionCallbacks, for a connection Accept returned. -/
def Calls : Event → Prop
  | .callbacks _ => True
  | _ => False

/- Only the step that runs the callbacks brings a connection on its way. -/
theorem changePut (change : Change env s e t) (other : ¬ Calls e) {p : Nat} (put : Put t p) : Put s p := by
  cases change with
  | adopted | orphaned => exact absurd trivial other
  | pushed pushing =>
    rcases put with mem | on
    · rcases List.mem_append.mp mem with old | new
      · exact .inl old
      · exact .inr ⟨pushing, (List.mem_singleton.mp new).symm⟩
    · exact absurd on.1 (by simp)
  | dropped connections found shut =>
    rcases put with mem | on
    · exact .inl (List.mem_of_mem_eraseIdx mem)
    · exact .inr on
  | initialised | sweeping | swept | expired | processed | completed => exact put
  | turned cursor pushed unlocked between => exact .inl (by rcases between with rfl | rfl | rfl <;> simpa [Put] using put)
  | stopped inside next => exact .inl (by rcases next with rfl | rfl <;> simpa [Put] using put)
  | started | accepted | locked | dead | entered | began | rejected | visited => exact .inl (by simpa [Put] using put)

theorem changeMade (change : Change env s e t) {p : Nat} (mem : p ∈ s.made) : p ∈ t.made := by
  cases change with
  | adopted uninitialised calling registered => exact List.mem_append_left _ mem
  | _ => exact mem

/- While its socket is open, a player that was made has its handler. -/
theorem adoptedMade (inv : Consistent s) : Adopted s ↔ ∀ p, Put s p → p ∈ s.made := by
  refine forall_congr' fun p => imp_congr_right fun _ => and_iff_left_of_imp ?_
  intro mem isOpen
  have once := (inv.listed p mem isOpen).2.1
  exact List.count_pos_iff.mp (by omega)

theorem stepRegistered (ok : step env e s = .ok t) : t.callback = true ↔ s.callback = true ∨ e = .registerCallback := by
  by_cases init : Initialises e
  · cases e with
    | makeKeyPair | initialiseKeyPair | setNetwork | setCurl | makeServer | registerCallback =>
      obtain ⟨_, rfl⟩ := allowOk.mp ok
      simp
    | _ => exact init.elim
  · have other : e ≠ .registerCallback := by
      intro same
      subst same
      exact init trivial
    cases stepChange ok with
    | initialised main networkSet curlSet keyPair callback init' => exact absurd init' init
    | _ => exact (or_iff_left other).symm

theorem registeredBefore (path : Path (step env) {} events s) : s.callback = true ↔ .registerCallback ∈ events := by
  induction path with
  | start => simp
  | next before ok ih => simp [stepRegistered ok, ih, eq_comm]

/- The callbacks run for a connection behind the registration. -/
def CalledLate (before : List Event) (e : Event) : Prop := Calls e → .registerCallback ∈ before

theorem stepAdopted (path : Path (step env) {} events s) (ok : step env e s = .ok t) (adopted : Adopted s) :
    Adopted t ↔ CalledLate events e := by
  have inv := consistent path
  have change := stepChange ok
  rw [adoptedMade (stepConsistent inv ok)]
  by_cases calls : Calls e
  · cases e with
    | callbacks uninitialised =>
      obtain ⟨⟨calling, _⟩, rfl⟩ := allowOk.mp ok
      have late : CalledLate events (.callbacks uninitialised) ↔ s.callback = true := by
        rw [registeredBefore path]
        exact ⟨fun late => late trivial, fun late _ => late⟩
      rw [late]
      cases registered : s.callback with
      | true =>
        refine iff_of_true ?_ rfl
        intro p put
        rcases put with mem | ⟨_, rfl⟩
        · exact List.mem_append_left _ (adopted p (.inl mem)).1
        · exact List.mem_append_right _ (List.mem_singleton.mpr rfl)
      | false =>
        refine iff_of_false ?_ (by simp)
        intro all
        have made : s.current ∈ s.made := all s.current (.inr ⟨rfl, rfl⟩)
        exact (inv.numbered.1 _ made).2 calling rfl
    | _ => exact calls.elim
  · refine iff_of_true ?_ (fun called => absurd called calls)
    intro p put
    exact changeMade change (adopted p (changePut change calls put)).1

theorem adoptedExactly (path : Path (step env) {} events s) :
    Throughout (step env) {} Adopted events ↔ Always (step env) {} (fun before e _ => CalledLate before e) events := by
  refine throughoutExactly ?_ (fun _ _ _ _ before ok adopted => stepAdopted before ok adopted) path
  simp [Adopted, Put]

/- Everything CSystem::Init does. -/
def init : List Event :=
  [.startThread, .makeKeyPair, .initialiseKeyPair, .setNetwork, .setCurl, .makeServer, .registerCallback]

theorem initFirst {rest before after : List Event} (split : init ++ rest = before ++ e :: after) :
    CalledLate before e := by
  intro calls
  rcases List.append_eq_append_iff.mp split with ⟨front, rfl, _⟩ | ⟨back, same, other⟩
  · simp [init]
  · cases back with
    | nil =>
      rw [List.append_nil] at same
      simp [← same, init]
    | cons d back =>
      obtain rfl := (List.cons.inj other).1
      have mem : e ∈ init := by simp [same]
      simp only [init, List.mem_cons, List.not_mem_nil, or_false] at mem
      rcases mem with rfl | rfl | rfl | rfl | rfl | rfl | rfl <;> exact calls.elim

/- A connection that comes when start-up is over. -/
def late : List Event := init ++ [.accept true, .callbacks (.ofWords 0 0), .push]

theorem adoptedLate : Throughout (step (askingServer id)) {} Adopted late :=
  (adoptedExactly (pathRun rfl)).mpr fun _ _ _ _ split _ => initFirst split

/- A connection that comes while the key pair is made. -/
def early : List Event := [.startThread, .accept true, .callbacks (.ofWords 0 0), .push]

theorem earlyOrphaned : ¬ ∀ (env : IGlobalEnvironment) (events : List Event) (s : CSystem),
    Path (step env) {} events s → Throughout (step env) {} Adopted events := by
  intro always
  have path : Path (step (askingServer id)) {} early _ := pathRun rfl
  have made := (always _ _ _ path early [] _ (by simp) path 0 (.inl (by simp))).1
  simp at made

end Mcpp.Startup
