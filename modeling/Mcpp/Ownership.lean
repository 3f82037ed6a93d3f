import Mcpp.Custody
import Mcpp.Packets
import Mcpp.Run

/-! The special members of SPacketPayload over the heap. Objects are known by a number, and
a buffer is the number of the new[] that made it. -/
namespace Mcpp.Ownership
open Run Custody

structure SPacketPayload where
  payload : Option Nat := none
  packetId : BitVec 32 := 0
  size : BitVec 32 := 0
  deriving DecidableEq, Repr

structure State where
  objects : AList (fun _ : Nat => SPacketPayload) := ∅
  allocated : Nat := 0
  live : List Nat := []
  deleted : List Nat := []
  -- Whether memcpy read from a null pointer, or delete[] met what is not live.
  undefined : Bool := false

/- `made` is what SerializePacket or ReadUnencryptedPacket return. -/
inductive Operation where
  | construct (id : Nat)
  | produce (id : Nat) (made : Packets.SPacketPayload)
  | moveConstruct (id other : Nat)
  | copyConstruct (id other : Nat)
  | moveAssign (id other : Nat)
  | copyAssign (id other : Nat)
  | destroy (id : Nat)

def State.newBuffer (s : State) : State := { s with live := s.allocated :: s.live, allocated := s.allocated + 1 }

def State.deleteBuffer (payload : Option Nat) (s : State) : State :=
  match payload with
  | none => s
  | some b =>
    if b ∈ s.live then { s with live := s.live.erase b, deleted := s.deleted ++ [b] }
    else { s with undefined := true }

def SPacketPayload.moved (o : SPacketPayload) : SPacketPayload := { o with payload := none }

/- memcpy takes a null pointer for no bytes only. -/
def SPacketPayload.blind (o : SPacketPayload) : Bool := o.payload.isNone && o.size != 0

def produce (id : Nat) (made : Packets.SPacketPayload) (s : State) : State :=
  match made.payload with
  | none => { s with objects := s.objects.insert id { packetId := made.packetId, size := made.size } }
  | some _ =>
    { s.newBuffer with
      objects := s.objects.insert id { payload := some s.allocated, packetId := made.packetId, size := made.size } }

def moveConstruct (id other : Nat) (source : SPacketPayload) (s : State) : State :=
  { s with objects := (modify other SPacketPayload.moved s.objects).insert id source }

/- A negative m_size is thrown by new[], and there is no object. -/
def copyConstruct (id : Nat) (source : SPacketPayload) (s : State) : State :=
  if source.size.msb then s
  else
    { s.newBuffer with
      objects := s.objects.insert id { source with payload := some s.allocated }
      undefined := s.undefined || source.blind }

def moveAssign (id other : Nat) (source : SPacketPayload) (s : State) : State :=
  { s with objects := modify other SPacketPayload.moved (modify id (fun _ => source) s.objects) }

/- A negative m_size is thrown by new[] with the object half assigned. -/
def copyAssign (id : Nat) (source : SPacketPayload) (s : State) : State :=
  let objects := modify id (fun o => { o with packetId := source.packetId, size := source.size }) s.objects
  if source.size.msb then { s with objects }
  else
    { s.newBuffer with
      objects := modify id (fun o => { o with payload := some s.allocated }) objects
      undefined := s.undefined || source.blind }

def destroy (id : Nat) (o : SPacketPayload) (s : State) : State :=
  { s.deleteBuffer o.payload with objects := s.objects.erase id }

def onObject (id : Nat) (s : State) (next : SPacketPayload → Except Unit State) : Except Unit State :=
  match s.objects.lookup id with
  | none => .error ()
  | some o => next o

/- An object is made once, used while it is there, and assigned from another. -/
def step : Operation → State → Except Unit State
  | .construct id, s => allow (id ∉ s.objects) { s with objects := s.objects.insert id {} }
  | .produce id made, s => allow (id ∉ s.objects) (produce id made s)
  | .moveConstruct id other, s => onObject other s fun source => allow (id ∉ s.objects) (moveConstruct id other source s)
  | .copyConstruct id other, s => onObject other s fun source => allow (id ∉ s.objects) (copyConstruct id source s)
  | .moveAssign id other, s =>
    onObject id s fun _ => onObject other s fun source => allow (id ≠ other) (moveAssign id other source s)
  | .copyAssign id other, s =>
    onObject id s fun _ => onObject other s fun source => allow (id ≠ other) (copyAssign id source s)
  | .destroy id, s => onObject id s fun o => .ok (destroy id o s)

/-! What is to hold of a state. -/

def Holds (s : State) (id b : Nat) : Prop := ∃ o, s.objects.lookup id = some o ∧ o.payload = some b

structure Owned (s : State) : Prop where
  defined : s.undefined = false
  held : ∀ b ∈ s.live, ∃! id, Holds s id b
  alive : ∀ id b, Holds s id b → b ∈ s.live

structure Sound (s : State) : Prop where
  owned : Owned s
  freed : (∀ id, id ∉ s.objects) → ∀ b < s.allocated, s.deleted.count b = 1

/- An assignment that overwrites no buffer, a copy that reads from one. Where new[] throws
nothing is lost. -/
def Meets : Operation → State → Prop
  | .copyConstruct _ other, s =>
    ∀ source, s.objects.lookup other = some source → source.size.msb = true ∨ source.blind = false
  | .moveAssign id _, s => ∀ target, s.objects.lookup id = some target → target.payload = none
  | .copyAssign id other, s =>
    ∀ target, s.objects.lookup id = some target → ∀ source, s.objects.lookup other = some source →
      source.size.msb = true ∨ (target.payload = none ∧ source.blind = false)
  | _, _ => True

/-! What an operation does to the buffers. -/

/- How many of the objects hold a buffer. -/
def holding (objects : AList (fun _ : Nat => SPacketPayload)) (b : Nat) : Nat := (held SPacketPayload.payload objects).count b

def one (payload : Option Nat) (b : Nat) : Nat := if payload = some b then 1 else 0

/- One may be lost, one deleted and one made. -/
structure Effect (s t : State) (lost freed made : Option Nat) (blind : Bool) : Prop where
  held : ∀ b, holding t.objects b + one lost b + one freed b = holding s.objects b + one made b
  live : ∀ b, t.live.count b + one freed b = s.live.count b + one made b
  deleted : ∀ b, t.deleted.count b = s.deleted.count b + one freed b
  allocated : ∀ b, (if b < t.allocated then 1 else 0) = (if b < s.allocated then 1 else 0) + one made b
  undefined : t.undefined = (s.undefined || blind)

/- In every run: a buffer is live or deleted once it is made, and no two hold it. -/
structure Counted (s : State) : Prop where
  counted : ∀ b, s.live.count b + s.deleted.count b = if b < s.allocated then 1 else 0
  within : ∀ b, holding s.objects b ≤ s.live.count b

structure Balanced (s : State) : Prop where
  defined : s.undefined = false
  held : ∀ b, holding s.objects b = s.live.count b

variable {s t : State} {lost freed made : Option Nat} {blind : Bool} {e : Operation}

@[simp] theorem oneNone (b : Nat) : one none b = 0 := rfl

@[simp] theorem oneSome (buffer b : Nat) : one (some buffer) b = if buffer = b then 1 else 0 := by simp [one]

theorem effectCounted (counted : Counted s) (effect : Effect s t lost freed made blind) : Counted t := by
  refine ⟨?_, ?_⟩
  · intro b
    have before := counted.counted b
    have live := effect.live b
    have deleted := effect.deleted b
    have allocated := effect.allocated b
    omega
  · intro b
    have before := counted.within b
    have live := effect.live b
    have held := effect.held b
    omega

theorem effectBalanced (balanced : Balanced s) (effect : Effect s t lost freed made blind) :
    Balanced t ↔ lost = none ∧ blind = false := by
  have excess (b : Nat) : t.live.count b = holding t.objects b + one lost b := by
    have before := balanced.held b
    have live := effect.live b
    have held := effect.held b
    omega
  have defined : t.undefined = blind := by
    rw [effect.undefined, balanced.defined, Bool.false_or]
  constructor
  · intro after
    refine ⟨?_, defined.symm.trans after.defined⟩
    cases lost with
    | none => rfl
    | some b =>
      have same := after.held b
      have more := excess b
      rw [oneSome, if_pos rfl] at more
      omega
  · intro ⟨nothing, seeing⟩
    subst nothing
    refine ⟨defined.trans seeing, ?_⟩
    intro b
    rw [excess b, oneNone, Nat.add_zero]

/-! What each operation does. -/

inductive Change (s : State) : Operation → State → Prop where
  | constructed {id} (fresh : id ∉ s.objects) : Change s (.construct id) { s with objects := s.objects.insert id {} }
  | produced {id made} (fresh : id ∉ s.objects) : Change s (.produce id made) (produce id made s)
  | moveConstructed {id other source} (found : s.objects.lookup other = some source) (fresh : id ∉ s.objects) :
      Change s (.moveConstruct id other) (moveConstruct id other source s)
  | copyConstructed {id other source} (found : s.objects.lookup other = some source) (fresh : id ∉ s.objects) :
      Change s (.copyConstruct id other) (copyConstruct id source s)
  | moveAssigned {id other source target} (found : s.objects.lookup other = some source)
      (here : s.objects.lookup id = some target) (apart : id ≠ other) :
      Change s (.moveAssign id other) (moveAssign id other source s)
  | copyAssigned {id other source target} (found : s.objects.lookup other = some source)
      (here : s.objects.lookup id = some target) (apart : id ≠ other) :
      Change s (.copyAssign id other) (copyAssign id source s)
  | destroyed {id o} (found : s.objects.lookup id = some o) : Change s (.destroy id) (destroy id o s)

theorem objectOk {id : Nat} {next : SPacketPayload → Except Unit State} (ok : onObject id s next = .ok t) :
    ∃ o, s.objects.lookup id = some o ∧ next o = .ok t := by
  unfold onObject at ok
  split at ok
  · contradiction
  · exact ⟨_, ‹_›, ok⟩

theorem stepChange (ok : step e s = .ok t) : Change s e t := by
  cases e with
  | construct id =>
    obtain ⟨fresh, rfl⟩ := allowOk.mp ok
    exact .constructed fresh
  | produce id made =>
    obtain ⟨fresh, rfl⟩ := allowOk.mp ok
    exact .produced fresh
  | moveConstruct id other =>
    obtain ⟨source, found, ok⟩ := objectOk ok
    obtain ⟨fresh, rfl⟩ := allowOk.mp ok
    exact .moveConstructed found fresh
  | copyConstruct id other =>
    obtain ⟨source, found, ok⟩ := objectOk ok
    obtain ⟨fresh, rfl⟩ := allowOk.mp ok
    exact .copyConstructed found fresh
  | moveAssign id other =>
    obtain ⟨target, here, ok⟩ := objectOk ok
    obtain ⟨source, found, ok⟩ := objectOk ok
    obtain ⟨apart, rfl⟩ := allowOk.mp ok
    exact .moveAssigned found here apart
  | copyAssign id other =>
    obtain ⟨target, here, ok⟩ := objectOk ok
    obtain ⟨source, found, ok⟩ := objectOk ok
    obtain ⟨apart, rfl⟩ := allowOk.mp ok
    exact .copyAssigned found here apart
  | destroy id =>
    obtain ⟨o, found, ok⟩ := objectOk ok
    cases ok
    exact .destroyed found

variable {objects : AList (fun _ : Nat => SPacketPayload)} {id other : Nat} {o source target : SPacketPayload}

theorem holdingInsert (fresh : id ∉ objects) (o : SPacketPayload) (b : Nat) :
    holding (objects.insert id o) b = holding objects b + one o.payload b :=
  countInsert fresh b

theorem holdingErase (found : objects.lookup id = some o) (b : Nat) :
    holding objects b = holding (objects.erase id) b + one o.payload b :=
  countErase found b

theorem holdingModify (found : objects.lookup id = some o) (f : SPacketPayload → SPacketPayload) (b : Nat) :
    holding (modify id f objects) b + one o.payload b = holding objects b + one (f o).payload b :=
  countModify found f b

/- The buffers stay as they are. -/
theorem effectStill (same : ∀ b, holding objects b + one lost b = holding s.objects b) :
    Effect s { s with objects } lost none none false :=
  ⟨same, fun _ => rfl, fun _ => rfl, fun _ => rfl, (Bool.or_false _).symm⟩

theorem madeCount (s : State) (b : Nat) :
    (if b < s.allocated + 1 then 1 else 0) = (if b < s.allocated then 1 else 0) + one (some s.allocated) b := by
  rw [oneSome]
  grind

/- A buffer is made. -/
theorem effectMade {undefined : Bool} (flag : undefined = (s.undefined || blind))
    (more : ∀ b, holding objects b + one lost b = holding s.objects b + one (some s.allocated) b) :
    Effect s { s.newBuffer with objects, undefined } lost none (some s.allocated) blind := by
  refine ⟨more, ?_, fun _ => rfl, madeCount s, flag⟩
  intro b
  change (s.allocated :: s.live).count b + 0 = _
  simp [List.count_cons]

theorem produceEffect (fresh : id ∉ s.objects) (made : Packets.SPacketPayload) :
    ∃ buffer, Effect s (produce id made s) none none buffer false := by
  unfold produce
  split
  · exact ⟨_, effectStill fun b => holdingInsert fresh _ b⟩
  · exact ⟨_, effectMade (Bool.or_false _).symm fun b => holdingInsert fresh _ b⟩

theorem moveConstructEffect (found : s.objects.lookup other = some source) (fresh : id ∉ s.objects) :
    Effect s (moveConstruct id other source s) none none none false := by
  refine effectStill ?_
  intro b
  have moved := holdingModify found SPacketPayload.moved b
  have unused : id ∉ modify other SPacketPayload.moved s.objects := fun mem => fresh ((memModify _).mp mem)
  rw [oneNone, holdingInsert unused]
  exact moved

theorem copyConstructEffect (source : SPacketPayload) (fresh : id ∉ s.objects) :
    ∃ buffer, Effect s (copyConstruct id source s) none none buffer (!source.size.msb && source.blind) := by
  unfold copyConstruct
  cases source.size.msb with
  | true => exact ⟨none, effectStill fun _ => rfl⟩
  | false => exact ⟨_, effectMade rfl fun b => holdingInsert fresh { source with payload := some s.allocated } b⟩

theorem moveAssignEffect (found : s.objects.lookup other = some source) (here : s.objects.lookup id = some target)
    (apart : id ≠ other) : Effect s (moveAssign id other source s) target.payload none none false := by
  refine effectStill ?_
  intro b
  have assigned := holdingModify here (fun _ => source) b
  have still : (modify id (fun _ => source) s.objects).lookup other = some source :=
    (lookupOther apart.symm _).trans found
  have moved := holdingModify still SPacketPayload.moved b
  rw [SPacketPayload.moved, oneNone] at moved
  omega

theorem copyAssignEffect (source : SPacketPayload) (here : s.objects.lookup id = some target) :
    ∃ buffer, Effect s (copyAssign id source s) (if source.size.msb then none else target.payload) none buffer
      (!source.size.msb && source.blind) := by
  have first (b : Nat) :
      holding (modify id (fun o => { o with packetId := source.packetId, size := source.size }) s.objects) b =
        holding s.objects b := Nat.add_right_cancel (holdingModify here _ b)
  have assigned := lookupModify here fun o => { o with packetId := source.packetId, size := source.size }
  unfold copyAssign
  cases source.size.msb with
  | true => exact ⟨none, effectStill first⟩
  | false =>
    refine ⟨_, effectMade rfl ?_⟩
    intro b
    rw [← first b]
    exact holdingModify assigned (fun o => { o with payload := some s.allocated }) b

theorem liveErase {live : List Nat} {buffer : Nat} (mem : buffer ∈ live) (b : Nat) :
    (live.erase buffer).count b + one (some buffer) b = live.count b := by
  rw [(List.perm_cons_erase mem).count_eq b, List.count_cons]
  simp

theorem destroyEffect (counted : Counted s) (found : s.objects.lookup id = some o) :
    Effect s (destroy id o s) none o.payload none false := by
  have erased := holdingErase found
  unfold destroy State.deleteBuffer
  cases held : o.payload with
  | none =>
    rw [held] at erased
    exact effectStill fun b => (erased b).symm
  | some buffer =>
    have live : buffer ∈ s.live := by
      have within := counted.within buffer
      have more := erased buffer
      rw [held, oneSome, if_pos rfl] at more
      exact List.count_pos_iff.mp (by omega)
    simp only [if_pos live]
    refine ⟨?_, ?_, ?_, fun _ => rfl, (Bool.or_false _).symm⟩
    · intro b
      rw [← held]
      exact (erased b).symm
    · intro b
      exact liveErase live b
    · intro b
      rw [oneSome]
      exact countAdded s.deleted buffer b

/- Nothing is lost and nothing read from null exactly when the operation meets the condition. -/
theorem changeEffect (counted : Counted s) (change : Change s e t) :
    ∃ lost freed made blind, Effect s t lost freed made blind ∧ (Meets e s ↔ lost = none ∧ blind = false) := by
  cases change with
  | constructed fresh =>
    have effect : Effect s { s with objects := _ } none none none false := effectStill fun b => holdingInsert fresh {} b
    exact ⟨_, _, _, _, effect, iff_of_true trivial ⟨rfl, rfl⟩⟩
  | produced fresh =>
    obtain ⟨buffer, effect⟩ := produceEffect fresh _
    exact ⟨_, _, _, _, effect, iff_of_true trivial ⟨rfl, rfl⟩⟩
  | moveConstructed found fresh => exact ⟨_, _, _, _, moveConstructEffect found fresh, iff_of_true trivial ⟨rfl, rfl⟩⟩
  | copyConstructed found fresh =>
    obtain ⟨buffer, effect⟩ := copyConstructEffect _ fresh
    refine ⟨_, _, _, _, effect, ?_⟩
    simp only [Meets, found, Option.some.injEq, forall_eq', Bool.and_eq_false_iff, Bool.not_eq_false', true_and]
  | moveAssigned found here apart =>
    refine ⟨_, _, _, _, moveAssignEffect found here apart, ?_⟩
    simp only [Meets, here, Option.some.injEq, forall_eq', and_true]
  | @copyAssigned id other source target found here apart =>
    obtain ⟨buffer, effect⟩ := copyAssignEffect source here
    refine ⟨_, _, _, _, effect, ?_⟩
    simp only [Meets, found, here, Option.some.injEq, forall_eq']
    cases sign : source.size.msb with
    | true => simp
    | false => simp
  | destroyed found => exact ⟨_, _, _, _, destroyEffect counted found, iff_of_true trivial ⟨rfl, rfl⟩⟩

theorem countedStart : Counted {} := by
  refine ⟨?_, ?_⟩
  · intro b
    rfl
  · intro b
    rfl

theorem countedPath {events : List Operation} (path : Path step {} events s) : Counted s := by
  refine pathInvariant countedStart ?_ path
  intro e s t counted ok
  obtain ⟨lost, freed, made, blind, effect, _⟩ := changeEffect counted (stepChange ok)
  exact effectCounted counted effect

/-! Ownership in counts. -/

theorem liveOnce (counted : Counted s) (b : Nat) : s.live.count b ≤ 1 := by
  have once := counted.counted b
  split at once <;> omega

theorem holdsHeld {b : Nat} : b ∈ held SPacketPayload.payload s.objects ↔ ∃ id, Holds s id b := by
  rw [memHeld]
  constructor
  · intro ⟨id, o, found, holds⟩
    exact ⟨id, o, found, holds⟩
  · intro ⟨id, o, found, holds⟩
    exact ⟨id, o, found, holds⟩

theorem ownedBalanced (counted : Counted s) : Owned s ↔ Balanced s := by
  have once (b : Nat) : (held SPacketPayload.payload s.objects).count b ≤ 1 :=
    Nat.le_trans (counted.within b) (liveOnce counted b)
  constructor
  · intro owned
    refine ⟨owned.defined, ?_⟩
    intro b
    refine Nat.le_antisymm (counted.within b) ?_
    by_cases live : b ∈ s.live
    · obtain ⟨id, holds, _⟩ := owned.held b live
      have some : 0 < holding s.objects b := List.count_pos_iff.mpr (holdsHeld.mpr ⟨id, holds⟩)
      exact Nat.le_trans (liveOnce counted b) some
    · rw [List.count_eq_zero_of_not_mem live]
      exact Nat.zero_le _
  · intro balanced
    refine ⟨balanced.defined, ?_, ?_⟩
    · intro b live
      have some : 0 < holding s.objects b := balanced.held b ▸ List.count_pos_iff.mpr live
      obtain ⟨id, holds⟩ := holdsHeld.mp (List.count_pos_iff.mp some)
      refine ⟨id, holds, ?_⟩
      intro other also
      obtain ⟨o, found, points⟩ := holds
      obtain ⟨o', found', points'⟩ := also
      exact heldUnique (List.nodup_iff_count_le_one.mpr once) found' points' found points
    · intro id b holds
      have some : 0 < holding s.objects b := List.count_pos_iff.mpr (holdsHeld.mpr ⟨id, holds⟩)
      exact List.count_pos_iff.mp (Nat.lt_of_lt_of_le some (counted.within b))

/- When no object is left, each buffer has been deleted. -/
theorem balancedFreed (counted : Counted s) (balanced : Balanced s) (gone : ∀ id, id ∉ s.objects) {b : Nat}
    (made : b < s.allocated) : s.deleted.count b = 1 := by
  have none : holding s.objects b = 0 := by
    refine List.count_eq_zero_of_not_mem ?_
    intro mem
    obtain ⟨id, o, found, _⟩ := memHeld.mp mem
    exact gone id (lookupMem found)
  have each := counted.counted b
  rw [if_pos made, ← balanced.held b, none, Nat.zero_add] at each
  exact each

theorem soundBalanced (counted : Counted s) : Sound s ↔ Balanced s := by
  constructor
  · intro sound
    exact (ownedBalanced counted).mp sound.owned
  · intro balanced
    exact ⟨(ownedBalanced counted).mpr balanced, fun gone _ made => balancedFreed counted balanced gone made⟩

/-! The loop of SendQueuedPackets. -/

/- Each element that try_dequeue finds is moved into the one local and destroyed in the queue. -/
def sendQueuedPackets (payload : Nat) (queued : List Nat) : List Operation :=
  .construct payload :: queued.flatMap (fun el => [.moveAssign payload el, .destroy el]) ++ [.destroy payload]

/- Behind the first turn the local points to the buffer of the first element. -/
theorem firstTurn {payload el : Nat} {u v : State} (constructs : step (.construct payload) s = .ok u)
    (assigns : step (.moveAssign payload el) u = .ok v) (destroys : step (.destroy el) v = .ok t) :
    Meets (.moveAssign payload el) u ∧ ∃ source, s.objects.lookup el = some source ∧ t.objects.lookup payload = some source := by
  cases stepChange constructs with
  | constructed fresh =>
    have made : (s.objects.insert payload {}).lookup payload = some {} := AList.lookup_insert _
    cases stepChange assigns with
    | moveAssigned found here apart =>
      refine ⟨?_, _, (AList.lookup_insert_ne apart.symm).symm.trans found, ?_⟩
      · intro target there
        cases made.symm.trans there
        rfl
      · cases stepChange destroys with
        | destroyed gone =>
          exact (AList.lookup_erase_ne apart).trans ((lookupOther apart _).trans (lookupModify here _))

/- Packets that have a buffer are sent without a loss one at a time only. -/
theorem loopExactly {payload : Nat} {queued : List Nat}
    (full : ∀ el ∈ queued, ∀ o, s.objects.lookup el = some o → o.payload ≠ none)
    (path : Path step s (sendQueuedPackets payload queued) t) :
    Always step s (fun _ e s => Meets e s) (sendQueuedPackets payload queued) ↔ queued.length ≤ 1 := by
  obtain ⟨u, constructs, path⟩ := pathCons path
  rw [sendQueuedPackets, List.cons_append, alwaysCons constructs]
  cases queued with
  | nil =>
    obtain ⟨v, destroys, _⟩ := pathCons path
    exact iff_of_true ⟨trivial, (alwaysCons destroys).mpr ⟨trivial, alwaysStart⟩⟩ (by simp)
  | cons el rest =>
    obtain ⟨v, assigns, path⟩ := pathCons path
    obtain ⟨w, destroys, path⟩ := pathCons path
    obtain ⟨first, source, held, moved⟩ := firstTurn constructs assigns destroys
    have points := full el List.mem_cons_self source held
    have behind : Always step u (fun _ e s => Meets e s)
        (List.flatMap (fun el => [.moveAssign payload el, .destroy el]) (el :: rest) ++ [.destroy payload]) ↔
        Always step w (fun _ e s => Meets e s)
          (List.flatMap (fun el => [.moveAssign payload el, .destroy el]) rest ++ [.destroy payload]) := by
      refine (alwaysCons assigns).trans ?_
      rw [and_iff_right first]
      refine (alwaysCons destroys).trans ?_
      exact and_iff_right trivial
    rw [behind]
    cases rest with
    | nil =>
      obtain ⟨x, last, _⟩ := pathCons path
      exact iff_of_true ⟨trivial, (alwaysCons last).mpr ⟨trivial, alwaysStart⟩⟩ (by simp)
    | cons next more =>
      refine iff_of_false ?_ (by simp)
      intro ⟨_, always⟩
      exact points (always [] _ _ w rfl .start source moved)

theorem ownedExactly {events : List Operation} {last : State} (path : Path step {} events last) :
    Throughout step {} Sound events ↔ Always step {} (fun _ e s => Meets e s) events := by
  have start : Sound {} := (soundBalanced countedStart).mpr ⟨rfl, fun _ => rfl⟩
  refine throughoutExactly start ?_ path
  intro before e s t path ok sound
  have counted := countedPath path
  obtain ⟨lost, freed, made, blind, effect, meets⟩ := changeEffect counted (stepChange ok)
  rw [soundBalanced (effectCounted counted effect), meets]
  exact effectBalanced ((soundBalanced counted).mp sound) effect

/- A frame with nothing behind its id. -/
def framed : Packets.SPacketPayload := { payload := some [1, 0], size := 2 }

/- One packet is queued and sent. -/
theorem ownedSingle : Path step {} ([.produce 0 framed, .moveConstruct 1 0, .destroy 0] ++ sendQueuedPackets 2 [1])
      { allocated := 1, deleted := [0] } ∧
    Throughout step {} Sound ([.produce 0 framed, .moveConstruct 1 0, .destroy 0] ++ sendQueuedPackets 2 [1]) := by
  have path : Path step {} ([.produce 0 framed, .moveConstruct 1 0, .destroy 0] ++ sendQueuedPackets 2 [1])
      { allocated := 1, deleted := [0] } := pathRun rfl
  refine ⟨path, (ownedExactly path).mpr ?_⟩
  refine (alwaysCons rfl).mpr ⟨trivial, (alwaysCons rfl).mpr ⟨trivial, (alwaysCons rfl).mpr ⟨trivial, ?_⟩⟩⟩
  refine (alwaysCons rfl).mpr ⟨trivial, (alwaysCons rfl).mpr ⟨?_, (alwaysCons rfl).mpr ⟨trivial, ?_⟩⟩⟩
  · intro target found
    cases found
    rfl
  · exact (alwaysCons rfl).mpr ⟨trivial, alwaysStart⟩

/- Two packets are sent by one loop: the buffer of the first is never deleted. -/
theorem secondLeaks : ¬ ∀ (events : List Operation) (last : State), Path step {} events last → Throughout step {} Sound events := by
  intro always
  have path : Path step {} ([.produce 0 framed, .produce 1 framed] ++ sendQueuedPackets 2 [0, 1])
      { allocated := 2, live := [0], deleted := [1] } := pathRun rfl
  have sound := always _ _ path _ [] _ (List.append_nil _).symm path
  have freed := sound.freed AList.notMem_empty 0 (by decide)
  contradiction

end Mcpp.Ownership
