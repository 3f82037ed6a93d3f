import Mcpp.HttpRequests

/-! What the callbacks of CCurlProcessor are given, and what is freed. A body is all the
bytes libcurl handed over for its request; a stream is deleted once its callback has been
called, and a handle lives as long as its entry. -/
namespace Mcpp.HttpBodies
open Buffers Run Custody CurlProcessor HttpEntries HttpRequests

variable {Handle : Type} [DecidableEq Handle] {s t : CCurlProcessor Handle} {e : Event Handle}
variable {events : List (Event Handle)} {k : Nat}

/- The request whose entry is under a handle. -/
def requestAt (s : CCurlProcessor Handle) (h : Handle) : Option Nat := (s.runningRequests.lookup h).bind SActiveRequest.callback

/- What an event hands over for request k. -/
def part (k : Nat) : Event Handle → CCurlProcessor Handle → Bytes
  | .receive h bytes, s => if requestAt s h = some k then bytes else []
  | _, _ => []

/- What a run hands over for request k. -/
def received (k : Nat) : List (Event Handle) → CCurlProcessor Handle → Bytes
  | [], _ => []
  | e :: rest, s => part k e s ++ match step e s with
    | .error _ => []
    | .ok t => received k rest t

theorem receivedSnoc {init : CCurlProcessor Handle} (path : Path step init events s) (k : Nat) (e : Event Handle) :
    received k (events ++ [e]) init = received k events init ++ part k e s := by
  induction events generalizing init with
  | nil =>
    obtain rfl := pathUnique path .start
    change part k e s ++ _ = [] ++ part k e s
    cases step e s <;> simp [received]
  | cons first rest ih =>
    obtain ⟨u, ok, path⟩ := pathCons path
    simp only [List.cons_append, received, ok]
    rw [ih path, List.append_assoc]

/-! What a step does to the streams, the calls and the completed requests. -/

inductive Effect (e : Event Handle) (s t : CCurlProcessor Handle) : Prop where
  | kept (quiet : ∀ k, part k e s = []) (streams : t.streams = s.streams) (calls : t.calls = s.calls)
      (completed : t.completed = s.completed)
  | pushed (k : Nat) (fresh : ∀ stream ∈ s.streams, stream.owner ≠ k) (other : k ∉ s.completed) (quiet : ∀ k, part k e s = [])
      (uncalled : ∀ c ∈ s.calls, c.callback ≠ k)
      (streams : t.streams = s.streams ++ [{ owner := k }]) (calls : t.calls = s.calls) (completed : t.completed = s.completed)
  | received (k i : Nat) (content bytes : Bytes) (stream : s.streams[i]? = some ⟨k, content, false⟩)
      (gets : ∀ j, part j e s = if k = j then bytes else []) (uncalled : ∀ c ∈ s.calls, c.callback ≠ k)
      (streams : t.streams = s.streams.modify i fun stream => { stream with content := stream.content ++ bytes })
      (calls : t.calls = s.calls) (completed : t.completed = s.completed)
  | called (k i : Nat) (content : Bytes) (stream : s.streams[i]? = some ⟨k, content, false⟩) (quiet : ∀ k, part k e s = [])
      (streams : t.streams = s.streams) (calls : t.calls = s.calls ++ [⟨k, true, content⟩]) (completed : t.completed = s.completed)
  | finished (k i : Nat) (content : Bytes) (stream : s.streams[i]? = some ⟨k, content, false⟩) (quiet : ∀ k, part k e s = [])
      (streams : t.streams = s.streams.modify i fun stream => { stream with deleted := true })
      (calls : t.calls = s.calls) (completed : t.completed = s.completed ++ [k])

theorem ownerOnce (inv : Consistent s) (k : Nat) : (s.streams.map Stream.owner).count k ≤ 1 := by
  have owners := inv.owners k
  have all := inv.places k
  split at all <;> omega

/- A request that runs has not been called, outside the statements behind its call. -/
theorem runningUncalled (inv : Consistent s) (outside : finished s.location = none) {h : Handle} {a : SActiveRequest Handle}
    (found : s.runningRequests.lookup h = some a) (callback : a.callback = some k) : ∀ c ∈ s.calls, c.callback ≠ k := by
  intro c mem same
  have done : k ∈ s.completed := by
    rw [← answeredOutside inv outside, ← same]
    exact List.mem_map_of_mem mem
  have none := (runningCount inv found callback).2
  exact absurd (List.count_pos_iff.mpr done) (by omega)

theorem pushEffect (inv : Consistent s) (here : s.location = .dequeue) {i : Nat} {h : Handle} {request : SQueuedRequest}
    (found : s.workQueue[i]? = some request) : Effect (.tryDequeue (some (i, h))) s (s.push i request h) := by
  have waits : request.callback ∈ waiting s := by
    have place : (waiting s)[i]? = some request.callback := by simp [waiting, found]
    exact List.mem_of_getElem? place
  have some := List.count_pos_iff.mpr waits
  have all := inv.places request.callback
  have owners := inv.owners request.callback
  have none : (s.streams.map Stream.owner).count request.callback = 0 ∧ s.completed.count request.callback = 0 := by
    split at all <;> omega
  have other : request.callback ∉ s.completed := List.count_eq_zero.mp none.2
  refine .pushed request.callback ?_ other (fun _ => rfl) ?_ rfl rfl rfl
  · intro stream mem same
    exact List.count_eq_zero.mp none.1 (same ▸ List.mem_map_of_mem mem)
  · intro c mem same
    have answered := answeredOutside inv (by rw [here]; rfl)
    exact other (answered ▸ same ▸ List.mem_map_of_mem mem)

theorem receiveEffect (inv : Consistent s) (here : s.location = .perform) {h : Handle} (mem : h ∈ s.added) (bytes : Bytes) :
    Effect (.receive h bytes) s (s.receive h bytes) := by
  obtain ⟨a, k, easy, found, entry⟩ := entryOf inv (inv.addedKeys h mem).1
  obtain ⟨content, stream⟩ := entry.stream
  have gets (j : Nat) : part j (.receive h bytes) s = if k = j then bytes else [] := by
    rw [part, requestAt, found, Option.bind_some, entry.callback]
    simp only [Option.some.injEq]
  have uncalled := runningUncalled inv (by rw [here]; rfl) found entry.callback
  refine .received k easy.stream content bytes stream gets uncalled ?_ ?_ ?_ <;>
    simp only [CCurlProcessor.receive, entry.alive, strOf stream]

theorem callEffect (inv : Consistent s) {h : Handle} {content : Bytes} (here : s.location = .call h content) :
    Effect .statement s (s.call h content) := by
  obtain ⟨a, k, easy, found, entry, stream⟩ := calledContent inv here
  refine .called k easy.stream content stream (fun _ => rfl) ?_ ?_ ?_ <;>
    simp only [CCurlProcessor.call, found, Option.bind_some, entry.callback]

theorem completeEffect (inv : Consistent s) {h : Handle} (here : s.location = .erase h) :
    Effect .statement s (s.complete h) := by
  obtain ⟨a, k, easy, found, entry⟩ := finishedEntry inv (h := h) (by rw [here]; rfl)
  obtain ⟨content, stream⟩ := entry.stream
  rw [completeOf found entry]
  exact .finished k easy.stream content stream (fun _ => rfl) rfl rfl rfl

theorem statementEffect (inv : Consistent s) (ok : s.statement = .ok t) : Effect .statement s t := by
  unfold CCurlProcessor.statement at ok
  cases here : s.location <;> rw [here] at ok <;> simp only at ok <;> try contradiction
  case lookup h =>
    cases ok
    obtain ⟨a, k, easy, found, entry⟩ := finishedEntry inv (h := h) (by rw [here]; rfl)
    obtain ⟨content, stream⟩ := entry.stream
    have filled : a.easyStream = some ⟨some easy.stream⟩ := entry.easyStream
    refine .kept (fun _ => rfl) ?_ ?_ ?_ <;> simp only [CCurlProcessor.lookup, found, filled, strOf stream] <;> rfl
  case call h content =>
    cases ok
    exact callEffect inv here
  case erase h =>
    cases ok
    exact completeEffect inv here
  case addOptions p =>
    cases ok
    unfold CCurlProcessor.addOptions
    split <;> exact .kept (fun _ => rfl) rfl rfl rfl
  case moveHandler p =>
    cases ok
    unfold CCurlProcessor.moveHandler CCurlProcessor.cleanup
    split
    · exact .kept (fun _ => rfl) rfl rfl rfl
    · split <;> exact .kept (fun _ => rfl) rfl rfl rfl
  all_goals
    cases ok
    exact .kept (fun _ => rfl) rfl rfl rfl

theorem stepEffect (inv : Consistent s) (ok : step e s = .ok t) : Effect e s t := by
  cases e with
  | queueHttpGet uri =>
    cases ok
    exact .kept (fun _ => rfl) rfl rfl rfl
  | shutdown =>
    cases ok
    exact .kept (fun _ => rfl) rfl rfl rfl
  | statement => exact statementEffect inv ok
  | tryDequeue taken =>
    cases taken with
    | none =>
      obtain ⟨_, rfl⟩ := allowOk.mp ok
      exact .kept (fun _ => rfl) rfl rfl rfl
    | some taken =>
      obtain ⟨request, here, _, found, rfl⟩ := dequeueOk ok
      exact pushEffect inv here found
  | receive h bytes =>
    obtain ⟨⟨here, mem⟩, rfl⟩ := allowOk.mp ok
    exact receiveEffect inv here mem bytes
  | performed =>
    obtain ⟨_, rfl⟩ := allowOk.mp ok
    exact .kept (fun _ => rfl) rfl rfl rfl
  | getNextFinished message =>
    cases message with
    | none =>
      obtain ⟨_, rfl⟩ := allowOk.mp ok
      exact .kept (fun _ => rfl) rfl rfl rfl
    | some h =>
      obtain ⟨_, rfl⟩ := allowOk.mp ok
      exact .kept (fun _ => rfl) rfl rfl rfl

/-! The ledger. -/

/- Each stream holds what its request received, until it is deleted; each call was given it. -/
structure Ledger (events : List (Event Handle)) (s : CCurlProcessor Handle) : Prop where
  content : ∀ stream ∈ s.streams, stream.content = received stream.owner events {}
  deleted : ∀ stream ∈ s.streams, stream.deleted = true ↔ stream.owner ∈ s.completed
  bodies : ∀ c ∈ s.calls, c.body = received c.callback events {}
  unpushed : ∀ k, (∀ stream ∈ s.streams, stream.owner ≠ k) → received k events {} = []

theorem sameOwner (inv : Consistent s) {i j : Nat} {x y : Stream} (left : s.streams[i]? = some x)
    (right : s.streams[j]? = some y) (same : x.owner = y.owner) : i = j := by
  have once : (s.streams.map Stream.owner).Nodup := List.nodup_iff_count_le_one.mpr (ownerOnce inv)
  have inside : i < (s.streams.map Stream.owner).length := by
    rw [List.length_map]
    exact (List.getElem?_eq_some_iff.mp left).1
  refine (List.getElem?_inj inside once).mp ?_
  rw [List.getElem?_map, List.getElem?_map, left, right]
  exact congrArg some same

/- A stream of a list that was changed at one place is the changed one or another's. -/
theorem modifiedStream (inv : Consistent s) {i : Nat} {x : Stream} {f : Stream → Stream} (found : s.streams[i]? = some x)
    {stream : Stream} (mem : stream ∈ s.streams.modify i f) :
    stream = f x ∨ (stream ∈ s.streams ∧ stream.owner ≠ x.owner) := by
  obtain ⟨j, there⟩ := List.mem_iff_getElem?.mp mem
  by_cases same : i = j
  · subst same
    rw [List.getElem?_modify_eq, found] at there
    exact .inl (Option.some.inj there).symm
  · rw [List.getElem?_modify_ne _ _ same] at there
    exact .inr ⟨List.mem_of_getElem? there, fun owners => same (sameOwner inv found there owners.symm)⟩

omit [DecidableEq Handle] in
theorem modifiedOwners {i j : Nat} {f : Stream → Stream} (none : ∀ stream ∈ s.streams.modify i f, stream.owner ≠ j)
    (kept : ∀ stream, (f stream).owner = stream.owner) : ∀ stream ∈ s.streams, stream.owner ≠ j := by
  intro stream mem same
  have held : stream.owner ∈ (s.streams.modify i f).map Stream.owner := by
    rw [ownersModified _ _ kept]
    exact List.mem_map_of_mem mem
  obtain ⟨changed, there, owner⟩ := List.mem_map.mp held
  exact none changed there (owner.trans same)

theorem quietReceived (path : Path step {} events s) (quiet : ∀ k, part k e s = []) (k : Nat) :
    received k (events ++ [e]) {} = received k events {} := by
  rw [receivedSnoc path, quiet, List.append_nil]

theorem pushedLedger (path : Path step {} events s) (ledger : Ledger events s) {k : Nat}
    (fresh : ∀ stream ∈ s.streams, stream.owner ≠ k) (other : k ∉ s.completed) (quiet : ∀ j, part j e s = [])
    (streams : t.streams = s.streams ++ [{ owner := k }]) (calls : t.calls = s.calls)
    (completed : t.completed = s.completed) : Ledger (events ++ [e]) t := by
  refine ⟨?_, ?_, ?_, ?_⟩ <;> simp only [quietReceived path quiet, streams, calls, completed]
  · intro stream mem
    rcases List.mem_append.mp mem with old | new
    · exact ledger.content stream old
    · obtain rfl := List.mem_singleton.mp new
      exact (ledger.unpushed k fresh).symm
  · intro stream mem
    rcases List.mem_append.mp mem with old | new
    · exact ledger.deleted stream old
    · obtain rfl := List.mem_singleton.mp new
      exact iff_of_false (by simp) other
  · exact ledger.bodies
  · intro j none
    exact ledger.unpushed j fun stream mem => none stream (List.mem_append_left _ mem)

theorem receivedLedger (inv : Consistent s) (path : Path step {} events s) (ledger : Ledger events s) {k i : Nat}
    {content bytes : Bytes} (stream : s.streams[i]? = some ⟨k, content, false⟩)
    (gets : ∀ j, part j e s = if k = j then bytes else []) (uncalled : ∀ c ∈ s.calls, c.callback ≠ k)
    (streams : t.streams = s.streams.modify i fun stream => { stream with content := stream.content ++ bytes })
    (calls : t.calls = s.calls) (completed : t.completed = s.completed) : Ledger (events ++ [e]) t := by
  have mine := List.mem_of_getElem? stream
  refine ⟨?_, ?_, ?_, ?_⟩ <;> simp only [receivedSnoc path, gets, streams, calls, completed]
  · intro other mem
    rcases modifiedStream inv stream mem with rfl | ⟨old, apart⟩
    · rw [if_pos rfl]
      exact congrArg (· ++ bytes) (ledger.content _ mine)
    · rw [if_neg apart.symm, List.append_nil]
      exact ledger.content other old
  · intro other mem
    rcases modifiedStream inv stream mem with rfl | ⟨old, apart⟩
    · exact ledger.deleted ⟨k, content, false⟩ mine
    · exact ledger.deleted other old
  · intro c mem
    rw [if_neg (uncalled c mem).symm, List.append_nil]
    exact ledger.bodies c mem
  · intro j none
    have before := modifiedOwners none fun _ => rfl
    have apart : k ≠ j := before _ mine
    rw [if_neg apart, List.append_nil]
    exact ledger.unpushed j before

theorem calledLedger (path : Path step {} events s) (ledger : Ledger events s) {k i : Nat} {content : Bytes}
    (stream : s.streams[i]? = some ⟨k, content, false⟩) (quiet : ∀ j, part j e s = []) (streams : t.streams = s.streams)
    (calls : t.calls = s.calls ++ [⟨k, true, content⟩]) (completed : t.completed = s.completed) :
    Ledger (events ++ [e]) t := by
  refine ⟨?_, ?_, ?_, ?_⟩ <;> simp only [quietReceived path quiet, streams, calls, completed]
  · exact ledger.content
  · exact ledger.deleted
  · intro c mem
    rcases List.mem_append.mp mem with old | new
    · exact ledger.bodies c old
    · obtain rfl := List.mem_singleton.mp new
      exact ledger.content _ (List.mem_of_getElem? stream)
  · exact ledger.unpushed

theorem finishedLedger (inv : Consistent s) (path : Path step {} events s) (ledger : Ledger events s) {k i : Nat}
    {content : Bytes} (stream : s.streams[i]? = some ⟨k, content, false⟩) (quiet : ∀ j, part j e s = [])
    (streams : t.streams = s.streams.modify i fun stream => { stream with deleted := true })
    (calls : t.calls = s.calls) (completed : t.completed = s.completed ++ [k]) : Ledger (events ++ [e]) t := by
  have mine := List.mem_of_getElem? stream
  refine ⟨?_, ?_, ?_, ?_⟩ <;> simp only [quietReceived path quiet, streams, calls, completed]
  · intro other mem
    rcases modifiedStream inv stream mem with rfl | ⟨old, apart⟩
    · exact ledger.content ⟨k, content, false⟩ mine
    · exact ledger.content other old
  · intro other mem
    rcases modifiedStream inv stream mem with rfl | ⟨old, apart⟩
    · exact iff_of_true rfl (by simp)
    · rw [ledger.deleted other old, List.mem_append, List.mem_singleton]
      exact (or_iff_left apart).symm
  · exact ledger.bodies
  · intro j none
    exact ledger.unpushed j (modifiedOwners none fun _ => rfl)

theorem effectLedger (inv : Consistent s) (path : Path step {} events s) (ledger : Ledger events s) (effect : Effect e s t) :
    Ledger (events ++ [e]) t := by
  cases effect with
  | kept quiet streams calls completed =>
    refine ⟨?_, ?_, ?_, ?_⟩ <;> simp only [quietReceived path quiet, streams, calls, completed]
    · exact ledger.content
    · exact ledger.deleted
    · exact ledger.bodies
    · exact ledger.unpushed
  | pushed k fresh other quiet uncalled streams calls completed =>
    exact pushedLedger path ledger fresh other quiet streams calls completed
  | received k i content bytes stream gets uncalled streams calls completed =>
    exact receivedLedger inv path ledger stream gets uncalled streams calls completed
  | called k i content stream quiet streams calls completed =>
    exact calledLedger path ledger stream quiet streams calls completed
  | finished k i content stream quiet streams calls completed =>
    exact finishedLedger inv path ledger stream quiet streams calls completed

theorem runLedger (path : Path step {} events s) : Ledger events s := by
  induction path with
  | start => exact ⟨nofun, nofun, nofun, fun _ _ => rfl⟩
  | next before ok ih => exact effectLedger (pathConsistent before) before ih (stepEffect (pathConsistent before) ok)

/- Nothing is handed over but to the callback it was received for, nothing is freed before
its callback has been called, and nothing is left behind it. -/
theorem bodiesExact {Handle : Type} [DecidableEq Handle] {events : List (Event Handle)} {s : CCurlProcessor Handle}
    (path : Path step {} events s) :
    (∀ c ∈ s.calls, c.body = received c.callback events {}) ∧
      (∀ stream ∈ s.streams, stream.deleted = true ↔ stream.owner ∈ s.completed) ∧
      ∀ h, (s.easies h).isSome ↔ h ∈ s.runningRequests := by
  have inv := pathConsistent path
  have ledger := runLedger path
  refine ⟨ledger.bodies, ledger.deleted, ?_⟩
  intro h
  constructor
  · intro live
    obtain ⟨easy, alive⟩ := Option.isSome_iff_exists.mp live
    exact inv.live h easy alive
  · intro key
    obtain ⟨_, _, easy, _, entry⟩ := entryOf inv key
    rw [entry.alive]
    rfl

/- Two requests, one behind the other, under one handle. -/
def reused : List (Event Nat) := [.queueHttpGet [97], .queueHttpGet [98]] ++ frame 7 [1] ++ frame 7 [2]

theorem bodiesExactReused : ∃ last : CCurlProcessor Nat, last.calls = [⟨0, true, [1]⟩, ⟨1, true, [2]⟩] ∧
    ∀ c ∈ last.calls, c.body = received c.callback reused {} := by
  have path : ∃ last, run step reused {} = .ok last ∧ last.calls = [⟨0, true, [1]⟩, ⟨1, true, [2]⟩] := ⟨_, rfl, rfl⟩
  obtain ⟨last, ran, calls⟩ := path
  exact ⟨last, calls, (bodiesExact (pathRun ran)).1⟩

end Mcpp.HttpBodies
