import Mcpp.Custody
import Mcpp.Run
import Mathlib.Data.BitVec

/-! CTCPSocket over the descriptors of the system. Objects are known by a number. The
system may answer what it likes, but it gives no descriptor that is open, and answers
a call on INVALID_SOCKET with an error. -/
namespace Mcpp.Sockets
open Run Custody

def eSF_Bind : BitVec 8 := 1 <<< 0
def eSF_Listen : BitVec 8 := 1 <<< 1
def eSF_Connect : BitVec 8 := 1 <<< 3
def eSF_Send : BitVec 8 := 1 <<< 4
def eSF_Recv : BitVec 8 := 1 <<< 5
def eSF_Passive : BitVec 8 := 1 <<< 6

def SOCKET_ERROR : Int := -1
def WOULD_BLOCK : Int := 11

/- No socket is INVALID_SOCKET. -/
structure CTCPSocket where
  flags : BitVec 8
  address : String
  port : BitVec 16
  socket : Option Nat := none
  deriving DecidableEq, Repr

def has (flags flag : BitVec 8) : Bool := flags &&& flag != 0

/- What has been done to a descriptor. -/
structure Descriptor where
  nonblocking : Bool := false
  connected : Bool := false
  bound : Bool := false
  listening : Bool := false
  deriving DecidableEq, Repr

structure State where
  objects : AList (fun _ : Nat => CTCPSocket) := ∅
  opened : AList (fun _ : Nat => Descriptor) := ∅
  -- The lists of getaddrinfo that freeaddrinfo has not freed.
  infos : Nat := 0
  -- Whether close met a descriptor that is not open.
  misused : Bool := false

/- What the calls of Start answer, in their order. -/
structure Calls where
  getaddrinfo : Int := 0
  socket : Option Nat
  getFlags : Int := 0
  setFlags : Int := 0
  connect : Int := 0
  connectError : Int := 0
  bind : Int := 0
  listen : Int := 0
  deriving DecidableEq, Repr

inductive Event where
  | construct (id : Nat) (flags : BitVec 8) (address : String) (port : BitVec 16)
  | start (id : Nat) (calls : Calls)
  | accept (id made : Nat) (socket : Option (Nat × String)) (error : Int)
  | moveConstruct (id other : Nat)
  | moveAssign (id other : Nat)
  | stop (id : Nat)
  | send (id : Nat) (result : Int)
  | recv (id : Nat) (result error : Int)
  | destroy (id : Nat)

def State.close (socket : Option Nat) (s : State) : State :=
  match socket with
  | none => s
  | some fd => if fd ∈ s.opened then { s with opened := s.opened.erase fd } else { s with misused := true }

def CTCPSocket.stopped (o : CTCPSocket) : CTCPSocket := { o with socket := none }

def CTCPSocket.moved (o : CTCPSocket) : CTCPSocket := { o with socket := none, address := "" }

/- The defaulted assignment leaves the handle in its source. -/
def CTCPSocket.movedAssigned (o : CTCPSocket) : CTCPSocket := { o with address := "" }

def stop (id : Nat) (o : CTCPSocket) (s : State) : State :=
  { s.close o.socket with objects := modify id CTCPSocket.stopped s.objects }

/- m_socket is set to a new descriptor. -/
def State.opens (id fd : Nat) (d : Descriptor) (s : State) : State :=
  { s with objects := modify id (fun o => { o with socket := some fd }) s.objects, opened := s.opened.insert fd d }

/- The result of connect is compared with the error code, not with SOCKET_ERROR. -/
def start (id : Nat) (o : CTCPSocket) (calls : Calls) (s : State) : Bool × State :=
  if o.socket ≠ none then (true, s)
  else if calls.getaddrinfo ≠ 0 then (false, s)
  else
    match calls.socket with
    | none => (false, { s with infos := s.infos + 1 })
    | some fd =>
      let made (d : Descriptor) : State := { s.opens id fd d with infos := s.infos + 1 }
      let running := { o with socket := some fd }
      if calls.getFlags = -1 then (false, made {})
      else if calls.setFlags ≠ 0 then (false, stop id running (made {}))
      else
        let d : Descriptor := { nonblocking := true }
        if has o.flags eSF_Connect ∧ calls.connect = calls.connectError then (false, stop id running (made d))
        else
          let d := { d with connected := has o.flags eSF_Connect && calls.connect == 0 }
          if has o.flags eSF_Bind ∧ calls.bind = SOCKET_ERROR then (false, stop id running (made d))
          else
            let d := { d with bound := has o.flags eSF_Bind }
            if has o.flags eSF_Listen ∧ calls.listen = SOCKET_ERROR then (false, stop id running (s.opens id fd d))
            else (true, s.opens id fd { d with listening := has o.flags eSF_Listen })

def connected (fd : Nat) (remote : String) : CTCPSocket :=
  { flags := eSF_Send ||| eSF_Recv, address := remote, port := 0, socket := some fd }

/- The temporary is moved into the socket of the connection, and destroyed. -/
def accept (id made : Nat) (o : CTCPSocket) (socket : Option (Nat × String)) (error : Int) (s : State) : State :=
  match socket with
  | none => if error = WOULD_BLOCK then s else stop id o s
  | some (fd, remote) =>
    let temporary := connected fd remote
    let opened := { s with opened := s.opened.insert fd {}, objects := s.objects.insert made temporary }
    opened.close temporary.moved.socket

def moveConstruct (id other : Nat) (source : CTCPSocket) (s : State) : State :=
  { s with objects := (modify other CTCPSocket.moved s.objects).insert id source }

def moveAssign (id other : Nat) (source : CTCPSocket) (s : State) : State :=
  { s with objects := modify other CTCPSocket.movedAssigned (modify id (fun _ => source) s.objects) }

def send (id : Nat) (o : CTCPSocket) (result : Int) (s : State) : State :=
  if result = SOCKET_ERROR then stop id o s else s

/- What the callback does is later in the run. -/
def recv (id : Nat) (o : CTCPSocket) (result error : Int) (s : State) : State :=
  if 0 < result then s
  else if result = 0 then stop id o s
  else if error = WOULD_BLOCK then s
  else stop id o s

def destroy (id : Nat) (o : CTCPSocket) (s : State) : State :=
  { s.close o.socket with objects := s.objects.erase id }

def step : Event → State → Except Unit State
  | .construct id flags address port, s =>
    allow (id ∉ s.objects) { s with objects := s.objects.insert id { flags, address, port } }
  | .start id calls, s => onEntry id s.objects fun o => allow (∀ fd ∈ calls.socket, fd ∉ s.opened) (start id o calls s).2
  | .accept id made socket error, s => onEntry id s.objects fun o =>
    allow (made ∉ s.objects ∧ (∀ given ∈ socket, given.1 ∉ s.opened) ∧ (o.socket = none → socket = none))
      (accept id made o socket error s)
  | .moveConstruct id other, s => onEntry other s.objects fun source => allow (id ∉ s.objects) (moveConstruct id other source s)
  | .moveAssign id other, s =>
    onEntry id s.objects fun _ => onEntry other s.objects fun source => allow (id ≠ other) (moveAssign id other source s)
  | .stop id, s => onEntry id s.objects fun o => .ok (stop id o s)
  | .send id result, s => onEntry id s.objects fun o => allow (o.socket = none → result = SOCKET_ERROR) (send id o result s)
  | .recv id result error, s => onEntry id s.objects fun o => allow (o.socket = none → result = SOCKET_ERROR) (recv id o result error s)
  | .destroy id, s => onEntry id s.objects fun o => .ok (destroy id o s)

/-! What is to hold of a state. -/

def Holds (s : State) (id fd : Nat) : Prop := ∃ o, s.objects.lookup id = some o ∧ o.socket = some fd

structure Sound (s : State) : Prop where
  owned : ∀ fd ∈ s.opened, ∃! id, Holds s id fd
  alive : ∀ id fd, Holds s id fd → fd ∈ s.opened
  used : s.misused = false
  freed : s.infos = 0

/- Start returns between getaddrinfo and freeaddrinfo. -/
def Leaks (o : CTCPSocket) (calls : Calls) : Prop :=
  o.socket = none ∧ calls.getaddrinfo = 0 ∧
    (calls.socket = none ∨ calls.getFlags = -1 ∨ calls.setFlags ≠ 0 ∨
      (has o.flags eSF_Connect ∧ calls.connect = calls.connectError) ∨ (has o.flags eSF_Bind ∧ calls.bind = SOCKET_ERROR))

/- Neither side of an assignment has a descriptor. -/
def Apart : Event → State → Prop
  | .moveAssign id other, s =>
    ∀ target, s.objects.lookup id = some target → ∀ source, s.objects.lookup other = some source →
      target.socket = none ∧ source.socket = none
  | _, _ => True

def Meets : Event → State → Prop
  | .start id calls, s => ∀ o, s.objects.lookup id = some o → ¬ Leaks o calls
  | e, s => Apart e s

/-! What each event does. -/

/- The event runs Stop. -/
def Stops (id : Nat) : Event → Prop
  | .stop other => other = id
  | .accept other _ socket error => other = id ∧ socket = none ∧ error ≠ WOULD_BLOCK
  | .send other result => other = id ∧ result = SOCKET_ERROR
  | .recv other result error => other = id ∧ result ≤ 0 ∧ (result = 0 ∨ error ≠ WOULD_BLOCK)
  | _ => False

/- There was nothing to accept or to receive, or the call went through. -/
def Quiet : Event → Prop
  | .accept _ _ socket error => socket = none ∧ error = WOULD_BLOCK
  | .send _ result => result ≠ SOCKET_ERROR
  | .recv _ result error => 0 < result ∨ (result ≠ 0 ∧ error = WOULD_BLOCK)
  | _ => False

variable {s t : State} {e : Event}

inductive Change (s : State) : Event → State → Prop where
  | constructed {id flags address port} (fresh : id ∉ s.objects) :
      Change s (.construct id flags address port) { s with objects := s.objects.insert id { flags, address, port } }
  | started {id o calls} (found : s.objects.lookup id = some o) (fresh : ∀ fd ∈ calls.socket, fd ∉ s.opened) :
      Change s (.start id calls) (start id o calls s).2
  | accepted {id made fd remote error} (unused : made ∉ s.objects) (fresh : fd ∉ s.opened) :
      Change s (.accept id made (some (fd, remote)) error)
        { s with opened := s.opened.insert fd {}, objects := s.objects.insert made (connected fd remote) }
  | moveConstructed {id other source} (found : s.objects.lookup other = some source) (fresh : id ∉ s.objects) :
      Change s (.moveConstruct id other) (moveConstruct id other source s)
  | moveAssigned {id other source target} (found : s.objects.lookup other = some source)
      (here : s.objects.lookup id = some target) (apart : id ≠ other) :
      Change s (.moveAssign id other) (moveAssign id other source s)
  | stopped {e : Event} {id o} (stops : Stops id e) (found : s.objects.lookup id = some o) : Change s e (stop id o s)
  | kept {e : Event} (quiet : Quiet e) : Change s e s
  | destroyed {id o} (found : s.objects.lookup id = some o) : Change s (.destroy id) (destroy id o s)

theorem acceptChange {id made : Nat} {socket : Option (Nat × String)} {error : Int}
    (ok : step (.accept id made socket error) s = .ok t) : Change s (.accept id made socket error) t := by
  obtain ⟨o, found, ok⟩ := entryOk ok
  obtain ⟨⟨unused, fresh, _⟩, rfl⟩ := allowOk.mp ok
  cases socket with
  | none =>
    by_cases waits : error = WOULD_BLOCK
    · rw [accept, if_pos waits]
      exact .kept ⟨rfl, waits⟩
    · rw [accept, if_neg waits]
      exact .stopped ⟨rfl, rfl, waits⟩ found
  | some given => exact .accepted unused (fresh given rfl)

theorem sendChange {id : Nat} {result : Int} (ok : step (.send id result) s = .ok t) : Change s (.send id result) t := by
  obtain ⟨o, found, ok⟩ := entryOk ok
  obtain ⟨_, rfl⟩ := allowOk.mp ok
  unfold send
  split
  · exact .stopped ⟨rfl, ‹_›⟩ found
  · exact .kept ‹_›

theorem recvChange {id : Nat} {result error : Int} (ok : step (.recv id result error) s = .ok t) :
    Change s (.recv id result error) t := by
  obtain ⟨o, found, ok⟩ := entryOk ok
  obtain ⟨_, rfl⟩ := allowOk.mp ok
  unfold recv
  split
  · exact .kept (.inl ‹_›)
  · split
    · exact .stopped ⟨rfl, by omega, .inl ‹_›⟩ found
    · split
      · exact .kept (.inr ⟨‹_›, ‹_›⟩)
      · exact .stopped ⟨rfl, by omega, .inr ‹_›⟩ found

theorem stepChange (ok : step e s = .ok t) : Change s e t := by
  cases e with
  | construct id flags address port =>
    obtain ⟨fresh, rfl⟩ := allowOk.mp ok
    exact .constructed fresh
  | start id calls =>
    obtain ⟨o, found, ok⟩ := entryOk ok
    obtain ⟨fresh, rfl⟩ := allowOk.mp ok
    exact .started found fresh
  | accept id made socket error => exact acceptChange ok
  | moveConstruct id other =>
    obtain ⟨source, found, ok⟩ := entryOk ok
    obtain ⟨fresh, rfl⟩ := allowOk.mp ok
    exact .moveConstructed found fresh
  | moveAssign id other =>
    obtain ⟨target, here, ok⟩ := entryOk ok
    obtain ⟨source, found, ok⟩ := entryOk ok
    obtain ⟨apart, rfl⟩ := allowOk.mp ok
    exact .moveAssigned found here apart
  | stop id =>
    obtain ⟨o, found, ok⟩ := entryOk ok
    cases ok
    exact .stopped rfl found
  | send id result => exact sendChange ok
  | recv id result error => exact recvChange ok
  | destroy id =>
    obtain ⟨o, found, ok⟩ := entryOk ok
    cases ok
    exact .destroyed found

/- The ends of Start, and what it gave the descriptor. -/
inductive StartChange (s : State) (id : Nat) (o : CTCPSocket) (calls : Calls) : Bool × State → Prop where
  | running (opened : o.socket ≠ none) : StartChange s id o calls (true, s)
  | unresolved (closed : o.socket = none) : StartChange s id o calls (false, s)
  | unmade (closed : o.socket = none) : StartChange s id o calls (false, { s with infos := s.infos + 1 })
  | half {fd} (closed : o.socket = none) (given : calls.socket = some fd) :
      StartChange s id o calls (false, { s.opens id fd {} with infos := s.infos + 1 })
  | failed {fd d infos} (closed : o.socket = none) (given : calls.socket = some fd) :
      StartChange s id o calls (false, stop id { o with socket := some fd } { s.opens id fd d with infos })
  | done {fd} (closed : o.socket = none) (given : calls.socket = some fd) :
      StartChange s id o calls (true, s.opens id fd
        { nonblocking := true, connected := has o.flags eSF_Connect && calls.connect == 0, bound := has o.flags eSF_Bind,
          listening := has o.flags eSF_Listen })

variable {id other made fd : Nat} {o source target : CTCPSocket} {calls : Calls}

theorem startChange (s : State) (id : Nat) (o : CTCPSocket) (calls : Calls) :
    StartChange s id o calls (start id o calls s) := by
  unfold start
  by_cases closed : o.socket = none
  · rw [if_neg (not_not.mpr closed)]
    split
    · exact .unresolved closed
    · split
      · exact .unmade closed
      · rename_i given
        split
        · exact .half closed given
        · split
          · exact .failed closed given
          · split
            · exact .failed closed given
            · split
              · exact .failed closed given
              · split
                · exact .failed closed given
                · exact .done closed given
  · rw [if_pos closed]
    exact .running closed

/-! Ownership in counts. -/

/- How many of the objects have a descriptor. -/
def holding (objects : AList (fun _ : Nat => CTCPSocket)) (fd : Nat) : Nat := (held CTCPSocket.socket objects).count fd

def one (socket : Option Nat) (fd : Nat) : Nat := if socket = some fd then 1 else 0

/- An open descriptor has one holder, any other has none. -/
structure Balanced (s : State) : Prop where
  held : ∀ fd, holding s.objects fd = if fd ∈ s.opened then 1 else 0
  used : s.misused = false

theorem holdsHeld : fd ∈ held CTCPSocket.socket s.objects ↔ ∃ id, Holds s id fd := by
  rw [memHeld]
  constructor
  · intro ⟨id, o, found, holds⟩
    exact ⟨id, o, found, holds⟩
  · intro ⟨id, o, found, holds⟩
    exact ⟨id, o, found, holds⟩

theorem holdsOpened (balanced : Balanced s) (found : s.objects.lookup id = some o) (holds : o.socket = some fd) :
    fd ∈ s.opened := by
  have some : 0 < holding s.objects fd := List.count_pos_iff.mpr (holdsHeld.mpr ⟨id, o, found, holds⟩)
  rw [balanced.held fd] at some
  by_contra closed
  rw [if_neg closed] at some
  contradiction

theorem holdsOnce (balanced : Balanced s) : (held CTCPSocket.socket s.objects).Nodup := by
  refine List.nodup_iff_count_le_one.mpr ?_
  intro fd
  have each : (held CTCPSocket.socket s.objects).count fd = _ := balanced.held fd
  rw [each]
  split <;> omega

theorem soundBalanced : Sound s ↔ Balanced s ∧ s.infos = 0 := by
  constructor
  · intro sound
    refine ⟨⟨?_, sound.used⟩, sound.freed⟩
    intro fd
    split
    · rename_i opened
      obtain ⟨id, ⟨o, found, holds⟩, only⟩ := sound.owned fd opened
      refine heldSingle found holds ?_
      intro other b found' holds'
      exact only other ⟨b, found', holds'⟩
    · rename_i closed
      refine List.count_eq_zero_of_not_mem ?_
      intro mem
      obtain ⟨id, holds⟩ := holdsHeld.mp mem
      exact closed (sound.alive id fd holds)
  · intro ⟨balanced, freed⟩
    refine ⟨?_, ?_, balanced.used, freed⟩
    · intro fd opened
      have some : 0 < holding s.objects fd := by rw [balanced.held fd, if_pos opened]; exact Nat.one_pos
      obtain ⟨id, holds⟩ := holdsHeld.mp (List.count_pos_iff.mp some)
      refine ⟨id, holds, ?_⟩
      intro other also
      obtain ⟨o, found, points⟩ := holds
      obtain ⟨o', found', points'⟩ := also
      exact heldUnique (holdsOnce balanced) found' points' found points
    · intro id fd holds
      obtain ⟨o, found, points⟩ := holds
      exact holdsOpened balanced found points

/-! What an event does to the counts. -/

variable {objects : AList (fun _ : Nat => CTCPSocket)} {infos : Nat}

@[simp] theorem oneNone (fd : Nat) : one none fd = 0 := rfl

@[simp] theorem oneSome (socket fd : Nat) : one (some socket) fd = if socket = fd then 1 else 0 := by simp [one]

theorem holdingInsert (fresh : id ∉ objects) (o : CTCPSocket) (fd : Nat) :
    holding (objects.insert id o) fd = holding objects fd + one o.socket fd :=
  countInsert fresh fd

theorem holdingErase (found : objects.lookup id = some o) (fd : Nat) :
    holding objects fd = holding (objects.erase id) fd + one o.socket fd :=
  countErase found fd

theorem holdingModify (found : objects.lookup id = some o) (f : CTCPSocket → CTCPSocket) (fd : Nat) :
    holding (modify id f objects) fd + one o.socket fd = holding objects fd + one (f o).socket fd :=
  countModify found f fd

theorem stillBalanced (balanced : Balanced s) (same : ∀ fd, holding objects fd = holding s.objects fd) :
    Balanced { s with objects } :=
  ⟨fun fd => (same fd).trans (balanced.held fd), balanced.used⟩

/- A descriptor is closed, and its holder has it no longer. -/
theorem closeBalanced (balanced : Balanced s) (found : s.objects.lookup id = some o)
    (less : ∀ fd, holding objects fd + one o.socket fd = holding s.objects fd) :
    Balanced { s.close o.socket with objects } := by
  cases here : o.socket with
  | none =>
    refine stillBalanced balanced ?_
    intro fd
    have each := less fd
    rwa [here, oneNone, Nat.add_zero] at each
  | some closed =>
    have opened := holdsOpened balanced found here
    rw [State.close, if_pos opened]
    refine ⟨?_, balanced.used⟩
    intro fd
    have each := less fd
    rw [here, oneSome, balanced.held fd] at each
    change holding objects fd = if fd ∈ s.opened.erase closed then 1 else 0
    simp only [AList.mem_erase]
    grind

/- A descriptor is given, and one object has it. -/
theorem openBalanced (balanced : Balanced s) (fresh : fd ∉ s.opened) (d : Descriptor)
    (more : ∀ b, holding objects b = holding s.objects b + one (some fd) b) :
    Balanced { s with objects, opened := s.opened.insert fd d } := by
  refine ⟨?_, balanced.used⟩
  intro b
  change holding objects b = if b ∈ s.opened.insert fd d then 1 else 0
  rw [more b, balanced.held b, oneSome]
  simp only [AList.mem_insert]
  grind

theorem stopBalanced (balanced : Balanced s) (found : s.objects.lookup id = some o) : Balanced (stop id o s) := by
  refine closeBalanced balanced found ?_
  intro fd
  exact holdingModify found CTCPSocket.stopped fd

theorem opensBalanced (balanced : Balanced s) (found : s.objects.lookup id = some o) (closed : o.socket = none)
    (fresh : fd ∉ s.opened) (d : Descriptor) : Balanced (s.opens id fd d) := by
  refine openBalanced balanced fresh d ?_
  intro b
  have each := holdingModify found (fun o => { o with socket := some fd }) b
  rwa [closed, oneNone, Nat.add_zero] at each

theorem infosBalanced (balanced : Balanced s) (infos : Nat) : Balanced { s with infos } := ⟨balanced.held, balanced.used⟩

theorem startBalanced (balanced : Balanced s) (found : s.objects.lookup id = some o)
    (fresh : ∀ fd ∈ calls.socket, fd ∉ s.opened) : Balanced (start id o calls s).2 := by
  have change := startChange s id o calls
  generalize start id o calls s = ended at change ⊢
  cases change with
  | running | unresolved => exact balanced
  | unmade => exact infosBalanced balanced _
  | half closed given => exact infosBalanced (opensBalanced balanced found closed (fresh _ given) {}) _
  | @failed fd d infos closed given =>
    have opened := infosBalanced (opensBalanced balanced found closed (fresh _ given) d) infos
    exact stopBalanced opened (lookupModify found _)
  | done closed given => exact opensBalanced balanced found closed (fresh _ given) _

theorem moveConstructBalanced (balanced : Balanced s) (found : s.objects.lookup other = some source)
    (fresh : id ∉ s.objects) : Balanced (moveConstruct id other source s) := by
  refine stillBalanced balanced ?_
  intro fd
  exact (heldMoved found rfl fresh).count_eq fd

/- What the target had is lost, and what the source has is had twice. -/
theorem moveAssignHolding (found : s.objects.lookup other = some source) (here : s.objects.lookup id = some target)
    (apart : id ≠ other) (fd : Nat) :
    holding (moveAssign id other source s).objects fd + one target.socket fd =
      holding s.objects fd + one source.socket fd := by
  have assigned := holdingModify here (fun _ => source) fd
  have still : (modify id (fun _ => source) s.objects).lookup other = some source :=
    (lookupOther apart.symm _).trans found
  have moved : holding (moveAssign id other source s).objects fd + one source.socket fd = _ :=
    holdingModify still CTCPSocket.movedAssigned fd
  rw [Nat.add_right_cancel moved]
  exact assigned

theorem moveAssignBalanced (balanced : Balanced s) (found : s.objects.lookup other = some source)
    (here : s.objects.lookup id = some target) (apart : id ≠ other) :
    Balanced (moveAssign id other source s) ↔ target.socket = none ∧ source.socket = none := by
  have counts := moveAssignHolding found here apart
  constructor
  · intro after
    have same (fd : Nat) : one target.socket fd = one source.socket fd := by
      have each : holding (moveAssign id other source s).objects fd = _ := after.held fd
      have before := balanced.held fd
      have both := counts fd
      rw [each, before] at both
      exact Nat.add_left_cancel both
    cases left : target.socket with
    | none =>
      refine ⟨rfl, ?_⟩
      cases right : source.socket with
      | none => rfl
      | some fd =>
        have each := same fd
        simp [left, right] at each
    | some fd =>
      have each := same fd
      rw [left, oneSome, if_pos rfl] at each
      have also : source.socket = some fd := by
        by_contra different
        rw [one, if_neg different] at each
        contradiction
      exact absurd (heldUnique (holdsOnce balanced) here left found also) apart
  · intro ⟨left, right⟩
    refine stillBalanced balanced ?_
    intro fd
    have each := counts fd
    rw [left, right] at each
    exact each

theorem stopsApart (stops : Stops id e) : Apart e s := by
  cases e with
  | moveAssign => exact stops.elim
  | _ => trivial

theorem quietApart (quiet : Quiet e) : Apart e s := by
  cases e with
  | moveAssign => exact quiet.elim
  | _ => trivial

theorem stepBalanced (balanced : Balanced s) (ok : step e s = .ok t) : Balanced t ↔ Apart e s := by
  cases stepChange ok with
  | constructed fresh => exact iff_of_true (stillBalanced balanced fun fd => holdingInsert fresh _ fd) trivial
  | started found fresh => exact iff_of_true (startBalanced balanced found fresh) trivial
  | accepted unused fresh => exact iff_of_true (openBalanced balanced fresh {} fun b => holdingInsert unused _ b) trivial
  | moveConstructed found fresh => exact iff_of_true (moveConstructBalanced balanced found fresh) trivial
  | moveAssigned found here apart =>
    rw [moveAssignBalanced balanced found here apart]
    simp only [Apart, found, here, Option.some.injEq, forall_eq']
  | stopped stops found => exact iff_of_true (stopBalanced balanced found) (stopsApart stops)
  | kept quiet => exact iff_of_true balanced (quietApart quiet)
  | destroyed found => exact iff_of_true (closeBalanced balanced found fun fd => (holdingErase found fd).symm) trivial

/-! The lists of getaddrinfo. -/

@[simp] theorem closeInfos (socket : Option Nat) (s : State) : (s.close socket).infos = s.infos := by
  unfold State.close
  split
  · rfl
  · split <;> rfl

@[simp] theorem stopInfos (id : Nat) (o : CTCPSocket) (s : State) : (stop id o s).infos = s.infos := closeInfos o.socket s

/- A list stays behind exactly when Start returns before it frees it. -/
theorem startInfos (s : State) (id : Nat) (o : CTCPSocket) (calls : Calls) [Decidable (Leaks o calls)] :
    (start id o calls s).2.infos = s.infos + if Leaks o calls then 1 else 0 := by
  unfold start Leaks
  grind [stopInfos, State.opens]

theorem stepInfos (ok : step e s = .ok t) (none : s.infos = 0) :
    t.infos = 0 ↔ ∀ id calls, e = .start id calls → ∀ o, s.objects.lookup id = some o → ¬ Leaks o calls := by
  classical
  cases stepChange ok with
  | @started id o calls found fresh =>
    rw [startInfos, none, Nat.zero_add]
    constructor
    · intro zero _ _ same _ found' leaks
      cases same
      cases found.symm.trans found'
      rw [if_pos leaks] at zero
      contradiction
    · intro never
      rw [if_neg (never id calls rfl o found)]
  | stopped stops found =>
    refine iff_of_true ((stopInfos ..).trans none) ?_
    rintro _ _ rfl
    exact stops.elim
  | kept quiet =>
    refine iff_of_true none ?_
    rintro _ _ rfl
    exact quiet.elim
  | destroyed found => exact iff_of_true ((closeInfos ..).trans none) (fun _ _ other => nomatch other)
  | constructed | accepted | moveConstructed | moveAssigned =>
    exact iff_of_true none (fun _ _ other => nomatch other)

theorem descriptorsOwned {events : List Event} {last : State} (path : Path step {} events last) :
    Throughout step {} Sound events ↔ Always step {} (fun _ e s => Meets e s) events := by
  have start : Sound {} := soundBalanced.mpr ⟨⟨fun _ => rfl, rfl⟩, rfl⟩
  refine throughoutExactly start ?_ path
  intro before e s t _ ok sound
  obtain ⟨balanced, none⟩ := soundBalanced.mp sound
  rw [soundBalanced, stepBalanced balanced ok, stepInfos ok none]
  cases e with
  | start id calls =>
    simp [Meets, Apart]
  | _ => simp [Meets]

/- The listen socket of CNetwork accepts a connection, and both are destroyed. -/
def served : List Event :=
  [.construct 0 (eSF_Passive ||| eSF_Bind ||| eSF_Listen) "" 25565, .start 0 { socket := some 3 },
    .accept 0 1 (some (4, "127.0.0.1")) 0, .destroy 1, .destroy 0]

theorem descriptorsOwnedServed : Path step {} served {} ∧ Throughout step {} Sound served := by
  have path : Path step {} served {} := pathRun rfl
  refine ⟨path, (descriptorsOwned path).mpr ?_⟩
  refine (alwaysCons rfl).mpr ⟨trivial, (alwaysCons rfl).mpr ⟨?_, ?_⟩⟩
  · intro o found leaks
    cases found
    obtain ⟨_, _, stopped⟩ := leaks
    revert stopped
    decide
  · refine (alwaysCons rfl).mpr ⟨trivial, (alwaysCons rfl).mpr ⟨trivial, (alwaysCons rfl).mpr ⟨trivial, ?_⟩⟩⟩
    exact alwaysStart

/-! Open sockets and their flags. -/

def Descriptor.meets (d : Descriptor) (flags : BitVec 8) : Prop :=
  d.nonblocking = true ∧ (has flags eSF_Connect = true → d.connected = true) ∧
    (has flags eSF_Bind = true → d.bound = true) ∧ (has flags eSF_Listen = true → d.listening = true)

/- The descriptor is in an object whose flags it meets. -/
def Ready (fd : Nat) (s : State) : Prop :=
  ∃ id o d, s.objects.lookup id = some o ∧ o.socket = some fd ∧ s.opened.lookup fd = some d ∧ d.meets o.flags

/- Start came to its end with the descriptor, and what connect answered was no error. -/
def Started (fd : Nat) : Event → State → Prop
  | .start id calls, s => ∃ o, s.objects.lookup id = some o ∧ o.socket = none ∧ calls.socket = some fd ∧
      (start id o calls s).1 = true ∧ (has o.flags eSF_Connect = true → calls.connect = 0)
  | _, _ => False

def Stopped (fd : Nat) (e : Event) (s : State) : Prop :=
  ∃ id o, s.objects.lookup id = some o ∧ o.socket = some fd ∧ (Stops id e ∨ e = .destroy id)

def asked (o : CTCPSocket) : Option (BitVec 8 × Nat) := o.socket.map fun fd => (o.flags, fd)

theorem askedSome {p : BitVec 8 × Nat} : asked o = some p ↔ o.flags = p.1 ∧ o.socket = some p.2 := by
  obtain ⟨flags, fd⟩ := p
  unfold asked
  cases o.socket with
  | none => simp
  | some b => simp

theorem readyHeld : Ready fd s ↔
    ∃ flags d, (flags, fd) ∈ held asked s.objects ∧ s.opened.lookup fd = some d ∧ d.meets flags := by
  constructor
  · intro ⟨id, o, d, found, holds, opened, meets⟩
    exact ⟨o.flags, d, memHeld.mpr ⟨id, o, found, askedSome.mpr ⟨rfl, holds⟩⟩, opened, meets⟩
  · intro ⟨flags, d, mem, opened, meets⟩
    obtain ⟨id, o, found, asks⟩ := memHeld.mp mem
    obtain ⟨rfl, holds⟩ := askedSome.mp asks
    exact ⟨id, o, d, found, holds, opened, meets⟩

theorem readyStill
    (same : ∀ flags, (flags, fd) ∈ held asked t.objects ↔ (flags, fd) ∈ held asked s.objects)
    (also : t.opened.lookup fd = s.opened.lookup fd) : Ready fd t ↔ Ready fd s := by
  rw [readyHeld, readyHeld]
  simp only [same, also]

theorem readyOpened (ready : Ready fd s) : fd ∈ s.opened := by
  obtain ⟨_, _, d, _, _, opened, _⟩ := ready
  exact lookupMem opened

/- A descriptor that nothing was done to is not ready. -/
theorem blankUnready (blank : s.opened.lookup fd = some {}) : ¬ Ready fd s := by
  intro ⟨_, _, d, _, _, opened, meets⟩
  cases blank.symm.trans opened
  exact absurd meets.1 (by decide)

theorem otherAsked (apart : o.socket ≠ some fd) (flags : BitVec 8) : asked o ≠ some (flags, fd) :=
  fun asks => apart (askedSome.mp asks).2

/- A change of an object that has the descriptor neither before nor behind it. -/
theorem modifyAsked (found : objects.lookup id = some o) {f : CTCPSocket → CTCPSocket} (before : o.socket ≠ some fd)
    (behind : (f o).socket ≠ some fd) (flags : BitVec 8) :
    (flags, fd) ∈ held asked (modify id f objects) ↔ (flags, fd) ∈ held asked objects :=
  heldModifyOther found (otherAsked before flags) (otherAsked behind flags)

theorem closeLookup {socket : Option Nat} (apart : socket ≠ some fd) : (s.close socket).opened.lookup fd = s.opened.lookup fd := by
  unfold State.close
  split
  · rfl
  · rename_i closed
    have other : fd ≠ closed := fun same => apart (congrArg some same.symm)
    split
    · exact AList.lookup_erase_ne other
    · rfl

/- What is closed is not open. -/
theorem closeGone (balanced : Balanced s) (found : s.objects.lookup id = some o) (holds : o.socket = some fd) :
    fd ∉ (s.close o.socket).opened := by
  rw [holds, State.close, if_pos (holdsOpened balanced found holds)]
  intro mem
  exact (AList.mem_erase.mp mem).1 rfl

theorem stopReady (balanced : Balanced s) (found : s.objects.lookup id = some o) :
    Ready fd (stop id o s) ↔ Ready fd s ∧ o.socket ≠ some fd := by
  by_cases holds : o.socket = some fd
  · refine iff_of_false ?_ (fun both => both.2 holds)
    intro ready
    exact closeGone balanced found holds (readyOpened (s := stop id o s) ready)
  · rw [and_iff_left holds]
    refine readyStill (modifyAsked found holds ?_) (closeLookup holds)
    exact fun none => nomatch none

theorem destroyReady (balanced : Balanced s) (found : s.objects.lookup id = some o) :
    Ready fd (destroy id o s) ↔ Ready fd s ∧ o.socket ≠ some fd := by
  by_cases holds : o.socket = some fd
  · refine iff_of_false ?_ (fun both => both.2 holds)
    intro ready
    exact closeGone balanced found holds (readyOpened (s := destroy id o s) ready)
  · rw [and_iff_left holds]
    exact readyStill (fun flags => heldEraseOther found (otherAsked holds flags)) (closeLookup holds)

/- The others are as they were. -/
theorem opensOther {b : Nat} (found : s.objects.lookup id = some o) (closed : o.socket = none) (apart : b ≠ fd)
    (d : Descriptor) : Ready b (s.opens id fd d) ↔ Ready b s := by
  refine readyStill (modifyAsked found ?_ ?_) (AList.lookup_insert_ne apart)
  · rw [closed]
    exact fun none => nomatch none
  · exact fun same => apart (Option.some.inj same).symm

theorem opensReady (balanced : Balanced s) (found : s.objects.lookup id = some o) (closed : o.socket = none)
    (fresh : fd ∉ s.opened) (d : Descriptor) : Ready fd (s.opens id fd d) ↔ d.meets o.flags := by
  have opened : (s.opens id fd d).opened.lookup fd = some d := AList.lookup_insert _
  have holds : (s.opens id fd d).objects.lookup id = some { o with socket := some fd } := lookupModify found _
  constructor
  · intro ⟨other, o', d', found', holds', opened', meets⟩
    cases opened.symm.trans opened'
    have once := holdsOnce (opensBalanced balanced found closed fresh d)
    obtain rfl := heldUnique once holds rfl found' holds'
    cases holds.symm.trans found'
    exact meets
  · intro meets
    exact ⟨id, _, d, holds, rfl, opened, meets⟩

/- A start that came to its end has no failed step behind it. -/
theorem startReady (balanced : Balanced s) (found : s.objects.lookup id = some o)
    (fresh : ∀ fd ∈ calls.socket, fd ∉ s.opened) (fd : Nat) :
    Ready fd (start id o calls s).2 ↔ Started fd (.start id calls) s ∨ Ready fd s := by
  have unready {b : Nat} (given : calls.socket = some b) : ¬ Ready b s := fun ready => fresh b given (readyOpened ready)
  have never (kept : (start id o calls s).1 = true → o.socket = none → calls.socket ≠ some fd) :
      ¬ Started fd (.start id calls) s := by
    intro ⟨o', found', closed, given, ended, _⟩
    cases found.symm.trans found'
    exact kept ended closed given
  have change := startChange s id o calls
  generalize same : start id o calls s = ended at change never ⊢
  cases change with
  | running opened => exact (or_iff_right (never fun _ closed => absurd closed opened)).symm
  | unresolved => exact (or_iff_right (never fun ended => nomatch ended)).symm
  | unmade => exact (or_iff_right (never fun ended => nomatch ended)).symm
  | @half b closed given =>
    rw [or_iff_right (never fun ended => nomatch ended)]
    by_cases here : fd = b
    · subst here
      exact iff_of_false (blankUnready (AList.lookup_insert _)) (unready given)
    · exact opensOther found closed here {}
  | @failed b d infos closed given =>
    rw [or_iff_right (never fun ended => nomatch ended)]
    have opened := infosBalanced (opensBalanced balanced found closed (fresh _ given) d) infos
    rw [stopReady opened (lookupModify found _)]
    by_cases here : fd = b
    · subst here
      exact iff_of_false (fun both => both.2 rfl) (unready given)
    · rw [and_iff_left fun same => here (Option.some.inj same).symm]
      exact opensOther found closed here d
  | @done b closed given =>
    by_cases here : fd = b
    · subst here
      change Ready fd (s.opens id fd _) ↔ _
      rw [opensReady balanced found closed (fresh _ given), or_iff_left (unready given)]
      constructor
      · intro ⟨_, connects, _⟩
        refine ⟨o, found, closed, given, congrArg Prod.fst same, ?_⟩
        intro flag
        simpa [flag] using connects flag
      · intro ⟨o', found', _, _, _, connects⟩
        cases found.symm.trans found'
        refine ⟨rfl, ?_, fun flag => flag, fun flag => flag⟩
        intro flag
        simp [flag, connects flag]
    · rw [or_iff_right (never fun _ _ given' => here (Option.some.inj (given'.symm.trans given)))]
      exact opensOther found closed here _

theorem stoppedOnly (found : s.objects.lookup id = some o) (only : ∀ other, Stops other e ∨ e = .destroy other → other = id)
    (ends : Stops id e ∨ e = .destroy id) (fd : Nat) : Stopped fd e s ↔ o.socket = some fd := by
  constructor
  · intro ⟨other, o', found', holds, kind⟩
    obtain rfl := only other kind
    cases found.symm.trans found'
    exact holds
  · intro holds
    exact ⟨id, o, found, holds, ends⟩

theorem stopsOnly {other : Nat} (stops : Stops id e) (kind : Stops other e ∨ e = .destroy other) : other = id := by
  cases e with
  | stop | accept | send | recv => simp_all [Stops]
  | _ => exact stops.elim

theorem acceptReady (unused : made ∉ s.objects) {b : Nat} (fresh : b ∉ s.opened) (remote : String) :
    Ready fd { s with opened := s.opened.insert b {}, objects := s.objects.insert made (connected b remote) } ↔ Ready fd s := by
  by_cases here : fd = b
  · subst here
    exact iff_of_false (blankUnready (AList.lookup_insert _)) (fun ready => fresh (readyOpened ready))
  · refine readyStill (fun flags => heldInsertOther unused (otherAsked ?_ flags)) (AList.lookup_insert_ne here)
    exact fun same => here (Option.some.inj same).symm

/- An assignment between two closed sockets. -/
theorem moveAssignReady (found : s.objects.lookup other = some source) (here : s.objects.lookup id = some target)
    (distinct : id ≠ other) (left : target.socket = none) (right : source.socket = none) :
    Ready fd (moveAssign id other source s) ↔ Ready fd s := by
  have empty {o : CTCPSocket} (none : o.socket = none) : o.socket ≠ some fd := by
    rw [none]
    exact fun some => nomatch some
  have assigned : (modify id (fun _ => source) s.objects).lookup other = some source :=
    (lookupOther distinct.symm _).trans found
  refine readyStill (fun flags => ?_) rfl
  exact (modifyAsked assigned (empty right) (empty right) flags).trans (modifyAsked here (empty left) (empty right) flags)

theorem quietStops (quiet : Quiet e) : ¬ (Stops other e ∨ e = .destroy other) := by
  intro kind
  cases e with
  | accept | send | recv =>
    simp only [Quiet] at quiet
    simp only [Stops, reduceCtorEq, or_false] at kind
    grind
  | _ => exact quiet

theorem stepReady (balanced : Balanced s) (apart : Apart e s) (ok : step e s = .ok t) (fd : Nat) :
    Ready fd t ↔ Started fd e s ∨ (Ready fd s ∧ ¬ Stopped fd e s) := by
  have still (unstarted : ¬ Started fd e s) (unstopped : ¬ Stopped fd e s) :
      Started fd e s ∨ (Ready fd s ∧ ¬ Stopped fd e s) ↔ Ready fd s := by
    rw [or_iff_right unstarted, and_iff_left unstopped]
  have unstopped (quiet : ∀ other, ¬ (Stops other e ∨ e = .destroy other)) : ¬ Stopped fd e s := by
    intro ⟨other, _, _, _, kind⟩
    exact quiet other kind
  cases stepChange ok with
  | constructed fresh =>
    rw [still (fun started => started) (unstopped fun _ kind => by simp [Stops] at kind)]
    refine readyStill (fun flags => heldInsertOther fresh (otherAsked ?_ flags)) rfl
    exact fun none => nomatch none
  | started found fresh =>
    rw [startReady balanced found fresh, and_iff_left (unstopped fun _ kind => by simp [Stops] at kind)]
  | accepted unused fresh =>
    rw [still (fun started => started) (unstopped fun _ kind => by simp [Stops] at kind)]
    exact acceptReady unused fresh _
  | moveConstructed found fresh =>
    rw [still (fun started => started) (unstopped fun _ kind => by simp [Stops] at kind)]
    exact readyStill (fun flags => (heldMoved found rfl fresh).mem_iff) rfl
  | @moveAssigned id other source target found here distinct =>
    rw [still (fun started => started) (unstopped fun _ kind => by simp [Stops] at kind)]
    obtain ⟨left, right⟩ := apart target here source found
    exact moveAssignReady found here distinct left right
  | stopped stops found =>
    rw [stopReady balanced found, stoppedOnly found (fun _ => stopsOnly stops) (.inl stops), or_iff_right]
    intro started
    cases e with
    | start => exact stops
    | _ => exact started
  | kept quiet =>
    refine (still ?_ (unstopped fun _ => quietStops quiet)).symm
    intro started
    cases e with
    | start => exact quiet
    | _ => exact started
  | @destroyed id o found =>
    have only (other : Nat) (kind : Stops other (.destroy id) ∨ Event.destroy id = .destroy other) : other = id := by
      simpa [Stops, eq_comm] using kind
    rw [destroyReady balanced found, stoppedOnly found only (.inr rfl)]
    exact (or_iff_right fun started => started).symm

theorem balancedPath {events : List Event} (path : Path step {} events s)
    (apart : Always step {} (fun _ e s => Apart e s) events) : Balanced s := by
  induction path with
  | start => exact ⟨fun _ => rfl, rfl⟩
  | next before ok ih =>
    obtain ⟨front, last⟩ := (alwaysSnoc before).mp apart
    exact (stepBalanced (ih front) ok).mpr last

theorem readySince {events : List Event} (path : Path step {} events s)
    (apart : Always step {} (fun _ e s => Apart e s) events) (fd : Nat) :
    Ready fd s ↔ Since step {} (Started fd) (Stopped fd) events := by
  induction path with
  | start =>
    refine iff_of_false ?_ ?_
    · intro ready
      exact AList.notMem_empty fd (readyOpened ready)
    · intro ⟨_, _, _, _, nothing, _⟩
      simp at nothing
  | next before ok ih =>
    obtain ⟨front, last⟩ := (alwaysSnoc before).mp apart
    rw [stepReady (balancedPath before front) last ok, ih front, sinceSnoc before]

/- The listen socket behind Start. -/
theorem readySinceListen : ∃ s, Path step {} (served.take 2) s ∧ Ready 3 s := by
  have path : Path step {} (served.take 2) _ := pathRun rfl
  refine ⟨_, path, (readySince path ?_ 3).mpr ?_⟩
  · exact (alwaysCons rfl).mpr ⟨trivial, (alwaysCons rfl).mpr ⟨trivial, alwaysStart⟩⟩
  · refine ⟨served.take 1, .start 0 { socket := some 3 }, [], _, rfl, pathRun rfl, ?_, ?_⟩
    · exact ⟨_, rfl, rfl, rfl, by decide, by decide⟩
    · intro front d rest t nothing
      simp at nothing

end Mcpp.Sockets
