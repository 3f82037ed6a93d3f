import Mcpp.ClientConnection

/-! CClientConnection::SendQueuedPackets over any number of ticks. A send() that is not
an error counts as complete: what a short one left over is dropped, and the packet
behind it goes out as if nothing were missing. -/
namespace Mcpp.Sending
open Buffers PacketVisitor Packets SharedSecret Wire ClientConnection

inductive SendResult where
  | error
  | took (count : Nat)
  deriving DecidableEq, Repr

/- At least one of the bytes asked for, and at most all of them. -/
def SendResult.Legal (size : Nat) : SendResult → Prop
  | .error => True
  | .took count => count ≤ size ∧ (0 < size → 0 < count)

/- A payload try_dequeue gave, what lies behind its buffer, and what send() returns for it. -/
structure Dequeued where
  payload : SPacketPayload
  past : Memory
  result : SendResult
  legal : result.Legal payload.size.toNat

/- The bytes the packet is sent from: as many as its size says. -/
def Dequeued.bytes (d : Dequeued) : Bytes :=
  slice (buffer (d.payload.payload.getD []) d.past) 0 d.payload.size.toNat

structure Outbound where
  socketOpen : Bool := true
  dequeued : List Dequeued := []
  -- What the kernel took from all calls so far.
  accepted : Bytes := []

def send (data : Bytes) (result : SendResult) (s : Outbound) : Bool × Outbound :=
  match result with
  | .error => (false, { s with socketOpen := false })
  | .took count => (true, { s with accepted := s.accepted ++ data.take count })

variable (block : BlockFunction) (c : CClientConnection) (heap : Memory)

def outgoing (d : Dequeued) : Except Fault Bytes :=
  if !c.encryptionEnabled then .ok d.bytes
  else match c.secret with
    | none => .error .nullDereference
    | some secret => .ok (encryptPacket block secret heap d.bytes)

/- The list is what try_dequeue would give until it finds the queue empty. -/
def sendQueuedPackets : List Dequeued → Outbound → Except Fault (Bool × Outbound)
  | [], s => .ok (true, s)
  | d :: rest, s => do
    let data ← outgoing block c heap d
    let (success, s) := send data d.result { s with dequeued := s.dequeued ++ [d] }
    if !success then pure (false, s)
    else sendQueuedPackets rest s

/- Part 3 of CNetwork::NetworkTick for one connection; a closed one is erased. -/
def sendTick (queue : List Dequeued) (s : Outbound) : Except Fault Outbound :=
  if !s.socketOpen then .ok s
  else do
    let (_, s) ← sendQueuedPackets block c heap queue s
    pure s

def sendTicks : List (List Dequeued) → Outbound → Except Fault Outbound
  | [], s => .ok s
  | queue :: rest, s => do
    let s ← sendTick block c heap queue s
    sendTicks rest s

/-! What a run of ticks sends. -/

def Dequeued.failed (d : Dequeued) : Bool := d.result = .error

def Dequeued.count (d : Dequeued) : Nat :=
  match d.result with
  | .error => 0
  | .took count => count

/- Nothing is dequeued behind a send() that fails. -/
def reached : List Dequeued → List Dequeued
  | [] => []
  | d :: rest => if d.failed then [d] else d :: reached rest

def Outbound.after (s : Outbound) (ds : List Dequeued) : Outbound where
  socketOpen := !ds.any Dequeued.failed
  dequeued := s.dequeued ++ reached ds
  accepted := s.accepted ++ (reached ds).flatMap (fun d => d.bytes.take d.count)

variable {block heap} {secret : Option CSharedSecret}

theorem outgoingPlain (d : Dequeued) : outgoing block { secret := secret } heap d = .ok d.bytes := rfl

theorem sendsExact (queue : List Dequeued) {s : Outbound} (isOpen : s.socketOpen = true) :
    sendQueuedPackets block { secret := secret } heap queue s =
      .ok (!queue.any Dequeued.failed, s.after queue) := by
  induction queue generalizing s with
  | nil =>
    cases s
    simp_all [sendQueuedPackets, Outbound.after, reached]
  | cons d rest ih =>
    rw [sendQueuedPackets, outgoingPlain, bindOk]
    cases result : d.result with
    | error => simp [send, Outbound.after, reached, Dequeued.failed, Dequeued.count, result]; rfl
    | took count =>
      simp only [send, Bool.not_true, Bool.false_eq_true, ite_false]
      rw [ih (by simp only [isOpen])]
      simp [Outbound.after, reached, Dequeued.failed, Dequeued.count, result]

theorem reachedAppend (a b : List Dequeued) :
    reached (a ++ b) = if a.any Dequeued.failed then reached a else reached a ++ reached b := by
  induction a with
  | nil => rfl
  | cons d rest ih =>
    cases failed : d.failed with
    | true => simp [reached, failed]
    | false =>
      simp only [List.cons_append, reached, failed, ih, List.any_cons, Bool.false_or, Bool.false_eq_true, ite_false]
      split <;> rfl

theorem ticksExact (queues : List (List Dequeued)) {s : Outbound} (isOpen : s.socketOpen = true) :
    sendTicks block { secret := secret } heap queues s = .ok (s.after queues.flatten) := by
  have stopped (queues : List (List Dequeued)) {s : Outbound} (closed : s.socketOpen = false) :
      sendTicks block { secret := secret } heap queues s = .ok s := by
    induction queues with
    | nil => rfl
    | cons queue rest ih => simp only [sendTicks, sendTick, closed, Bool.not_false, ite_true, bindOk, ih]
  induction queues generalizing s with
  | nil =>
    cases s
    simp_all [sendTicks, Outbound.after, reached]
  | cons queue rest ih =>
    simp only [sendTicks, sendTick, isOpen, Bool.not_true, Bool.false_eq_true, ite_false, sendsExact, bindOk]
    rw [show (pure (s.after queue) : Except Fault Outbound) = .ok (s.after queue) from rfl, bindOk]
    cases failed : queue.any Dequeued.failed with
    | true =>
      rw [stopped rest (by simp [Outbound.after, failed])]
      simp [Outbound.after, reachedAppend, failed]
    | false =>
      rw [ih (by simp [Outbound.after, failed])]
      simp [Outbound.after, reachedAppend, failed]

/-! The positions of what was accepted in the stream of everything dequeued. -/

def Dequeued.Short (d : Dequeued) : Prop := d.count < d.payload.size.toNat

def spans : Nat → List Dequeued → List Nat
  | _, [] => []
  | start, d :: rest => List.range' start d.count ++ spans (start + d.payload.size.toNat) rest

/- No send() that was short has another behind it that took anything. -/
def Unbroken (ds : List Dequeued) : Prop := ds.Pairwise (fun d later => d.Short → later.count = 0)

theorem countLe (d : Dequeued) : d.count ≤ d.payload.size.toNat := by
  have legal := d.legal
  unfold Dequeued.count
  cases result : d.result with
  | error => exact Nat.zero_le _
  | took count =>
    rw [result] at legal
    exact legal.1

theorem bytesLength (d : Dequeued) : d.bytes.length = d.payload.size.toNat := sliceLength ..

theorem spansLater {start i : Nat} {ds : List Dequeued} (mem : i ∈ spans start ds) : start ≤ i := by
  induction ds generalizing start with
  | nil => contradiction
  | cons d rest ih =>
    rcases List.mem_append.mp mem with here | later
    · exact (List.mem_range'_1.mp here).1
    · have after := ih later
      omega

theorem spansNone {start : Nat} {ds : List Dequeued} : spans start ds = [] ↔ ∀ d ∈ ds, d.count = 0 := by
  induction ds generalizing start with
  | nil => simp [spans]
  | cons d rest ih => simp [spans, ih]

theorem unbrokenNone {ds : List Dequeued} (none : ∀ d ∈ ds, d.count = 0) : Unbroken ds :=
  List.pairwise_of_forall_mem_list fun _ _ later mem _ => none later mem

/- In order and without a gap, exactly when nothing follows a short send(). -/
theorem spansExactly (start : Nat) (ds : List Dequeued) :
    spans start ds = List.range' start (spans start ds).length ↔ Unbroken ds := by
  induction ds generalizing start with
  | nil => simp [spans, Unbroken]
  | cons d rest ih =>
    have split : List.range' start (d.count + (spans (start + d.payload.size.toNat) rest).length) =
        List.range' start d.count ++
          List.range' (start + d.count) (spans (start + d.payload.size.toNat) rest).length := by
      rw [List.range'_append_1]
    rw [spans, List.length_append, List.length_range', split, List.append_cancel_left_eq, Unbroken,
      List.pairwise_cons]
    rcases Nat.lt_or_ge d.count d.payload.size.toNat with short | whole
    · constructor
      · intro same
        have none : spans (start + d.payload.size.toNat) rest = [] := by
          rcases Nat.eq_zero_or_pos (spans (start + d.payload.size.toNat) rest).length with none | some
          · exact List.length_eq_zero_iff.mp none
          · have first : start + d.count ∈ spans (start + d.payload.size.toNat) rest := by
              rw [same, List.mem_range'_1]
              omega
            have later := spansLater first
            omega
        have all := spansNone.mp none
        exact ⟨fun later mem _ => all later mem, unbrokenNone all⟩
      · intro both
        have none : spans (start + d.payload.size.toNat) rest = [] :=
          spansNone.mpr fun later mem => both.1 later mem short
        simp [none]
    · have equal : d.count = d.payload.size.toNat := Nat.le_antisymm (countLe d) whole
      rw [equal, ih]
      have fits : ¬ d.Short := Nat.not_lt.mpr whole
      exact (and_iff_right (fun _ _ short => absurd short fits)).symm

theorem acceptedPrefix {ds : List Dequeued} (unbroken : Unbroken ds) :
    ds.flatMap (fun d => d.bytes.take d.count) <+: ds.flatMap Dequeued.bytes := by
  induction ds with
  | nil => exact List.prefix_rfl
  | cons d rest ih =>
    obtain ⟨first, tail⟩ := List.pairwise_cons.mp unbroken
    simp only [List.flatMap_cons]
    rcases Nat.lt_or_ge d.count d.payload.size.toNat with short | whole
    · have none : rest.flatMap (fun d => d.bytes.take d.count) = [] := by
        rw [List.flatMap_eq_nil_iff]
        intro later mem
        rw [first later mem short, List.take_zero]
      rw [none, List.append_nil]
      exact (List.take_prefix ..).trans (List.prefix_append ..)
    · rw [List.take_of_length_le (by rw [bytesLength]; exact whole)]
      exact (List.prefix_append_right_inj _).mpr (ih tail)

/- What is to hold of a run: the accepted bytes are a prefix of what was dequeued,
and they are the first of it, none skipped. -/
structure Intact (s : Outbound) : Prop where
  bytes : s.accepted <+: s.dequeued.flatMap Dequeued.bytes
  positions : spans 0 s.dequeued = List.range (spans 0 s.dequeued).length

theorem intactExactly (block : BlockFunction) (secret : Option CSharedSecret) (heap : Memory)
    (queues : List (List Dequeued)) : ∃ s, sendTicks block { secret := secret } heap queues {} = .ok s ∧
      (Intact s ↔ Unbroken (reached queues.flatten)) := by
  refine ⟨_, ticksExact queues rfl, ?_⟩
  rw [← spansExactly 0, ← List.range_eq_range']
  constructor
  · intro intact
    exact intact.positions
  · intro positions
    refine ⟨?_, positions⟩
    rw [List.range_eq_range', spansExactly] at positions
    exact acceptedPrefix positions

/- Two packets; send() takes the first of the two bytes of one, then all of the other. -/
def shortSend : Dequeued := ⟨⟨some [1, 2], 0, 2⟩, fun _ => 0, .took 1, ⟨by decide, by decide⟩⟩
def nextSend : Dequeued := ⟨⟨some [3], 0, 1⟩, fun _ => 0, .took 1, ⟨by decide, by decide⟩⟩

theorem shortSendSkips : ¬ ∀ (block : BlockFunction) (secret : Option CSharedSecret) (heap : Memory)
    (queues : List (List Dequeued)) (s : Outbound),
    sendTicks block { secret := secret } heap queues {} = .ok s → s.accepted <+: s.dequeued.flatMap Dequeued.bytes := by
  intro always
  have skipped : ([1, 3] : Bytes) <+: [1, 2, 3] :=
    always (fun _ _ => []) none (fun _ => 0) [[shortSend], [nextSend]] _ rfl
  revert skipped
  decide

end Mcpp.Sending
