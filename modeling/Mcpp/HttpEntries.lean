import Mcpp.CurlProcessor

/-! The entries of CCurlProcessor and what stands behind them in every state: a live handle,
a stream of the request and the part of the entry its push has filled. Here the steps that
queue a request and push it to the multi handle. -/
namespace Mcpp.HttpEntries
open Buffers Run Custody CurlProcessor

variable {Handle : Type} {s t : CCurlProcessor Handle}

/- The entry of request k under handle h, with n statements of its push left. -/
structure Entry (s : CCurlProcessor Handle) (n : Nat) (h : Handle) (a : SActiveRequest Handle) (k : Nat)
    (easy : CurlEasy) : Prop where
  callback : a.callback = some k
  alive : s.easies h = some easy
  stream : ∃ content, s.streams[easy.stream]? = some ⟨k, content, false⟩
  easyStream : a.easyStream = if 2 ≤ n then none else some ⟨some easy.stream⟩
  handler : a.handler = if 1 ≤ n then none else some h
  requestUri : n ≤ 4 → s.queued[k]? = some a.requestUri
  url : n ≤ 3 → ∃ uri, s.queued[k]? = some uri ∧ easy.url = cString uri

/- What a step leaves of an entry it does not change. -/
theorem entryKeeps {n : Nat} {h : Handle} {a : SActiveRequest Handle} {k : Nat} {easy : CurlEasy}
    (entry : Entry s n h a k easy) (easies : t.easies h = s.easies h)
    (streams : ∀ content, s.streams[easy.stream]? = some ⟨k, content, false⟩ →
      ∃ content, t.streams[easy.stream]? = some ⟨k, content, false⟩)
    (queued : ∀ uri, s.queued[k]? = some uri → t.queued[k]? = some uri) : Entry t n h a k easy := by
  obtain ⟨content, stream⟩ := entry.stream
  refine ⟨entry.callback, by rw [easies, entry.alive], streams content stream, entry.easyStream, entry.handler,
    fun few => queued _ (entry.requestUri few), fun few => ?_⟩
  obtain ⟨uri, asked, url⟩ := entry.url few
  exact ⟨uri, queued uri asked, url⟩

/- The push the worker is in, and how many of its statements are left. -/
def pushing : Location Handle → Option (Push Handle × Nat)
  | .setUri p => some (p, 5)
  | .addOptions p => some (p, 4)
  | .addHandle p => some (p, 3)
  | .moveStream p => some (p, 2)
  | .moveHandler p => some (p, 1)
  | _ => none

/- The handle whose message the worker is at. -/
def finished : Location Handle → Option Handle
  | .lookup h => some h
  | .call h _ => some h
  | .erase h => some h
  | _ => none

theorem entrySame {n : Nat} {h : Handle} {a : SActiveRequest Handle} {k : Nat} {easy : CurlEasy}
    (entry : Entry s n h a k easy) (easies : t.easies h = s.easies h) (streams : t.streams = s.streams)
    (queued : t.queued = s.queued) : Entry t n h a k easy := by
  refine entryKeeps entry easies ?_ ?_
  · intro content stream
    exact ⟨content, by rw [streams, stream]⟩
  · intro uri asked
    rw [queued, asked]

theorem outsideStill {l : Location Handle} (outside : finished l = none) (h : Handle) : l ≠ .erase h := by
  intro erasing
  rw [erasing] at outside
  contradiction

theorem strOf {i k : Nat} {content : Bytes} (stream : s.streams[i]? = some ⟨k, content, false⟩) :
    s.str i = some content := by
  simp [CCurlProcessor.str, stream]

theorem ownersModified (streams : List Stream) (i : Nat) {f : Stream → Stream}
    (kept : ∀ stream, (f stream).owner = stream.owner) :
    (streams.modify i f).map Stream.owner = streams.map Stream.owner := by
  induction streams generalizing i with
  | nil => simp
  | cons stream rest ih =>
    cases i with
    | zero => simp [kept]
    | succ i => simp [ih]

variable [DecidableEq Handle]

def waiting (s : CCurlProcessor Handle) : List Nat := s.workQueue.map SQueuedRequest.callback
def running (s : CCurlProcessor Handle) : List Nat := held SActiveRequest.callback s.runningRequests

def left (l : Location Handle) (h : Handle) : Nat :=
  match pushing l with
  | none => 0
  | some (p, n) => if p.it = h then n else 0

/- The request whose callback has been called and whose entry is still there. -/
def answering (s : CCurlProcessor Handle) : List Nat :=
  match s.location with
  | .erase h => ((s.runningRequests.lookup h).bind SActiveRequest.callback).toList
  | _ => []

/- The locals of a push and the entry it fills are of one request. -/
def Pushing (s : CCurlProcessor Handle) (p : Push Handle) : Prop :=
  ∃ a k easy, s.runningRequests.lookup p.it = some a ∧ a.callback = some k ∧ s.queued[k]? = some p.uri ∧
    s.easies p.it = some easy ∧ easy.stream = p.outputStream

/- The callback got what a stream of its request holds. -/
def Answers (s : CCurlProcessor Handle) (c : Answer) : Prop :=
  c.success = true ∧ ∃ (i : Nat) (stream : Stream), s.streams[i]? = some stream ∧ stream.owner = c.callback ∧
    stream.content = c.body

/- The worker and the message it is at. -/
structure Control (s : CCurlProcessor Handle) : Prop where
  message : ∀ h, finished s.location = some h → h ∈ s.runningRequests ∧ h ∉ s.added
  content : ∀ h content, s.location = .call h content →
    ∃ easy, s.easies h = some easy ∧ s.str easy.stream = some content
  answered : s.calls.map Answer.callback = s.completed ++ answering s
  defined : s.location ≠ .returned ∧ s.location ≠ .undefined

structure Consistent (s : CCurlProcessor Handle) : Prop where
  places : ∀ k, (waiting s).count k + (running s).count k + s.completed.count k =
    if k < s.queued.length then 1 else 0
  queue : ∀ r ∈ s.workQueue, s.queued[r.callback]? = some r.uri
  owners : ∀ k, (s.streams.map Stream.owner).count k = (running s).count k + s.completed.count k
  entries : ∀ h a, s.runningRequests.lookup h = some a → ∃ k easy, Entry s (left s.location h) h a k easy
  live : ∀ h easy, s.easies h = some easy → h ∈ s.runningRequests
  addedOnce : s.added.Nodup
  addedKeys : ∀ h ∈ s.added, h ∈ s.runningRequests ∧ left s.location h ≤ 2
  locals : ∀ p n, pushing s.location = some (p, n) → Pushing s p
  answers : ∀ c ∈ s.calls, Answers s c
  control : Control s

theorem answeringNone (still : ∀ h, s.location ≠ .erase h) : answering s = [] := by
  unfold answering
  split
  · rename_i h erasing
    exact absurd erasing (still h)
  · rfl

theorem controlOutside (outside : finished s.location = none) (answered : s.calls.map Answer.callback = s.completed)
    (defined : s.location ≠ .returned ∧ s.location ≠ .undefined) : Control s := by
  refine ⟨?_, ?_, ?_, defined⟩
  · intro h at_
    rw [outside] at at_
    contradiction
  · intro h content at_
    rw [at_] at outside
    contradiction
  · rw [answered, answeringNone (outsideStill outside), List.append_nil]

theorem answeredOutside (inv : Consistent s) (outside : finished s.location = none) :
    s.calls.map Answer.callback = s.completed := by
  have answered := inv.control.answered
  rw [answeringNone (outsideStill outside), List.append_nil] at answered
  exact answered

theorem consistentStart : Consistent ({} : CCurlProcessor Handle) where
  places := by
    intro k
    rfl
  queue := by simp
  owners := by
    intro k
    rfl
  entries := by
    intro h a found
    simp at found
  live := by
    intro h easy live
    contradiction
  addedOnce := List.nodup_nil
  addedKeys := by simp
  locals := by
    intro p n at_
    contradiction
  answers := by simp
  control := controlOutside rfl rfl (by simp)

theorem entryOf (inv : Consistent s) {h : Handle} (key : h ∈ s.runningRequests) :
    ∃ a k easy, s.runningRequests.lookup h = some a ∧ Entry s (left s.location h) h a k easy := by
  obtain ⟨a, found⟩ := memLookup key
  obtain ⟨k, easy, entry⟩ := inv.entries h a found
  exact ⟨a, k, easy, found, entry⟩

theorem leftNone {l : Location Handle} (none : pushing l = none) (h : Handle) : left l h = 0 := by
  rw [left, none]

theorem leftSome {l : Location Handle} {p : Push Handle} {n : Nat} (some : pushing l = some (p, n)) (h : Handle) :
    left l h = if p.it = h then n else 0 := by
  rw [left, some]

theorem queueKeeps (inv : Consistent s) (uri : Bytes) : Consistent { s with
    workQueue := s.workQueue ++ [⟨uri, s.queued.length⟩]
    queued := s.queued ++ [uri] } := by
  refine { inv with places := ?_, queue := ?_, entries := ?_, locals := ?_, control := ?_ }
  · intro k
    have before := inv.places k
    have grown : List.map SQueuedRequest.callback (s.workQueue ++ [⟨uri, s.queued.length⟩]) =
        waiting s ++ [s.queued.length] := by simp [waiting]
    have total : (s.queued ++ [uri]).length = s.queued.length + 1 := by simp
    change (waiting _).count k + (running s).count k + s.completed.count k = _
    rw [waiting, grown, countAdded, total]
    by_cases new : s.queued.length = k
    · simp only [← new, ite_true, Nat.lt_irrefl, ite_false, Nat.lt_succ_self] at before ⊢
      omega
    · have same : k < s.queued.length + 1 ↔ k < s.queued.length := by omega
      simp only [new, ite_false, same]
      omega
  · intro r mem
    rcases List.mem_append.mp mem with old | new
    · exact foundLonger (inv.queue r old) [uri]
    · obtain rfl := List.mem_singleton.mp new
      simp
  · intro h a found
    obtain ⟨k, easy, entry⟩ := inv.entries h a found
    exact ⟨k, easy, entryKeeps entry rfl (fun content stream => ⟨content, stream⟩) (fun _ asked => foundLonger asked [uri])⟩
  · intro p n at_
    obtain ⟨a, k, easy, found, callback, asked, live, stream⟩ := inv.locals p n at_
    exact ⟨a, k, easy, found, callback, foundLonger asked [uri], live, stream⟩
  · exact ⟨inv.control.message, inv.control.content, inv.control.answered, inv.control.defined⟩

/- The worker moves on, between pushes. -/
theorem movedKeeps (inv : Consistent s) {l : Location Handle} {added : List Handle} {calls : List Answer}
    (between : pushing s.location = none) (next : pushing l = none) (fewer : added.Sublist s.added)
    (answers : ∀ c ∈ calls, Answers s c) (control : Control { s with location := l, added := added, calls := calls }) :
    Consistent { s with location := l, added := added, calls := calls } := by
  have still : ∀ h, left l h = left s.location h := by
    intro h
    rw [leftNone between, leftNone next]
  refine { inv with entries := ?_, addedOnce := inv.addedOnce.sublist fewer, addedKeys := ?_, locals := ?_,
                    answers := answers, control := control }
  · intro h a found
    obtain ⟨k, easy, entry⟩ := inv.entries h a found
    rw [← still h] at entry
    exact ⟨k, easy, entrySame entry rfl rfl rfl⟩
  · intro h mem
    obtain ⟨key, few⟩ := inv.addedKeys h (fewer.subset mem)
    rw [← still h] at few
    exact ⟨key, few⟩
  · intro p n there
    change pushing l = some (p, n) at there
    rw [next] at there
    contradiction

theorem gotoKeeps (inv : Consistent s) {l : Location Handle} (between : pushing s.location = none)
    (outside : finished s.location = none) (next : pushing l = none) (outside' : finished l = none)
    (defined : l ≠ .returned ∧ l ≠ .undefined) : Consistent (s.goto l) := by
  have answered := answeredOutside inv outside
  exact movedKeeps inv between next (List.Sublist.refl _) inv.answers (controlOutside outside' answered defined)

/- The entries behind a change of the one a push fills. -/
theorem updateEntries (inv : Consistent s) {p : Push Handle} {n : Nat} (within : pushing s.location = some (p, n+1))
    {l : Location Handle} {f : SActiveRequest Handle → SActiveRequest Handle} {a : SActiveRequest Handle} {k : Nat}
    {easy : CurlEasy} (found : s.runningRequests.lookup p.it = some a) (callback : a.callback = some k)
    (alive : s.easies p.it = some easy) (filled : Entry s (n+1) p.it a k easy → Entry s n p.it (f a) k easy) {h : Handle}
    {b : SActiveRequest Handle} (found' : ((s.update p.it f).goto l).runningRequests.lookup h = some b) :
    ∃ k easy, Entry ((s.update p.it f).goto l) (if p.it = h then n else 0) h b k easy := by
  by_cases here : p.it = h
  · subst here
    have updated : ((s.update p.it f).goto l).runningRequests.lookup p.it = some (f a) := lookupModify found f
    obtain ⟨k', easy', entry⟩ := inv.entries p.it a found
    rw [leftSome within, if_pos rfl] at entry
    cases callback.symm.trans entry.callback
    cases alive.symm.trans entry.alive
    cases updated.symm.trans found'
    rw [if_pos rfl]
    exact ⟨k, easy, entrySame (filled entry) rfl rfl rfl⟩
  · have unchanged : ((s.update p.it f).goto l).runningRequests.lookup h = s.runningRequests.lookup h :=
      lookupOther (Ne.symm here) f
    rw [unchanged] at found'
    obtain ⟨k', easy', entry⟩ := inv.entries h b found'
    rw [leftSome within, if_neg here] at entry
    rw [if_neg here]
    exact ⟨k', easy', entrySame entry rfl rfl rfl⟩

/- One of the statements that fill the entry of a push. -/
theorem updateKeeps (inv : Consistent s) {p : Push Handle} {n : Nat} (within : pushing s.location = some (p, n+1))
    {l : Location Handle} {f : SActiveRequest Handle → SActiveRequest Handle}
    (next : ∀ h, left l h = if p.it = h then n else 0) (same : ∀ q m, pushing l = some (q, m) → q = p)
    (kept : ∀ a, (f a).callback = a.callback)
    (fills : ∀ a k easy, Entry s (n+1) p.it a k easy → s.queued[k]? = some p.uri → easy.stream = p.outputStream →
      Entry s n p.it (f a) k easy) (control : Control ((s.update p.it f).goto l)) :
    Consistent ((s.update p.it f).goto l) := by
  obtain ⟨a, k, easy, found, callback, asked, alive, stream⟩ := inv.locals p (n+1) within
  have held : ∀ k, (running ((s.update p.it f).goto l)).count k = (running s).count k :=
    (heldModify found (kept a) callback).count_eq
  have keys : ∀ h, h ∈ ((s.update p.it f).goto l).runningRequests ↔ h ∈ s.runningRequests := fun h => memModify f
  refine { inv with places := ?_, owners := ?_, entries := ?_, live := ?_, addedKeys := ?_, locals := ?_,
                    control := control }
  · intro k
    rw [held]
    exact inv.places k
  · intro k
    rw [held]
    exact inv.owners k
  · intro h b found'
    change ∃ k easy, Entry _ (left l h) h b k easy
    rw [next]
    exact updateEntries inv within found callback alive (fun entry => fills a k easy entry asked stream) found'
  · intro h easy live
    exact (keys h).mpr (inv.live h easy live)
  · intro h mem
    obtain ⟨key, few⟩ := inv.addedKeys h mem
    have less : left l h ≤ left s.location h := by
      rw [next, leftSome within]
      split <;> omega
    exact ⟨(keys h).mpr key, Nat.le_trans less few⟩
  · intro q m there
    obtain rfl := same q m there
    refine ⟨f a, k, easy, lookupModify found f, ?_, asked, alive, stream⟩
    rw [kept]
    exact callback

theorem setUriKeeps (inv : Consistent s) {p : Push Handle} (here : s.location = .setUri p) :
    Consistent ((s.update p.it (fun a => { a with requestUri := p.uri })).goto (.addOptions p)) := by
  have within : pushing s.location = some (p, 4+1) := by rw [here]; rfl
  have answered := answeredOutside inv (by rw [here]; rfl)
  refine updateKeeps inv within (fun h => rfl) ?_ (fun a => rfl) ?_
    (controlOutside rfl answered (by simp [CCurlProcessor.goto]))
  · intro q m same
    cases same
    rfl
  · intro a k easy entry asked _
    exact ⟨entry.callback, entry.alive, entry.stream, entry.easyStream, entry.handler, fun _ => asked,
      fun few => absurd few (by decide)⟩

theorem addOptionsKeeps (inv : Consistent s) {p : Push Handle} (here : s.location = .addOptions p) :
    Consistent (s.addOptions p) := by
  have within : pushing s.location = some (p, 4) := by rw [here]; rfl
  have answered := answeredOutside inv (by rw [here]; rfl)
  obtain ⟨a, k, easy, found, callback, asked, alive, stream⟩ := inv.locals p 4 within
  have next : ∀ h, left (.addHandle p) h = if p.it = h then 3 else 0 := fun h => rfl
  simp only [CCurlProcessor.addOptions, found, alive]
  refine { inv with entries := ?_, live := ?_, addedKeys := ?_, locals := ?_,
                    control := controlOutside rfl answered (by simp) }
  · intro h b found'
    change ∃ k easy, Entry _ (left (.addHandle p) h) h b k easy
    obtain ⟨k', easy', entry⟩ := inv.entries h b found'
    rw [leftSome within] at entry
    rw [next]
    by_cases it : p.it = h
    · subst it
      rw [if_pos rfl] at entry ⊢
      rw [found] at found'
      cases found'
      have same := entry.alive
      rw [alive] at same
      cases same
      exact ⟨k', { easy with url := cString a.requestUri }, entry.callback, by simp, entry.stream, entry.easyStream,
        entry.handler, fun _ => entry.requestUri (by decide), fun _ => ⟨_, entry.requestUri (by decide), rfl⟩⟩
    · rw [if_neg it] at entry ⊢
      exact ⟨k', easy', entrySame entry (Function.update_of_ne (Ne.symm it) _ _) rfl rfl⟩
  · intro h easy' live
    by_cases it : h = p.it
    · rw [it]
      exact lookupMem found
    · refine inv.live h easy' ?_
      rw [← live]
      exact (Function.update_of_ne it _ _).symm
  · intro h mem
    obtain ⟨key, few⟩ := inv.addedKeys h mem
    rw [leftSome within] at few
    refine ⟨key, ?_⟩
    change left (.addHandle p) h ≤ 2
    rw [next]
    split at few
    · omega
    · rename_i it
      rw [if_neg it]
      omega
  · intro q m same
    cases same
    exact ⟨a, k, { easy with url := cString a.requestUri }, found, callback, asked, by simp, stream⟩

theorem addHandleKeeps (inv : Consistent s) {p : Push Handle} (here : s.location = .addHandle p) :
    Consistent { s with added := s.added ++ [p.it], location := .moveStream p } := by
  have within : pushing s.location = some (p, 3) := by rw [here]; rfl
  have answered := answeredOutside inv (by rw [here]; rfl)
  obtain ⟨a, k, easy, found, callback, asked, alive, stream⟩ := inv.locals p 3 within
  have next : ∀ h, left (.moveStream p) h = if p.it = h then 2 else 0 := fun h => rfl
  have unadded : p.it ∉ s.added := by
    intro mem
    have few := (inv.addedKeys _ mem).2
    rw [leftSome within, if_pos rfl] at few
    omega
  refine { inv with entries := ?_, addedOnce := ?_, addedKeys := ?_, locals := ?_,
                    control := controlOutside rfl answered (by simp) }
  · intro h b found'
    change ∃ k easy, Entry _ (left (.moveStream p) h) h b k easy
    obtain ⟨k', easy', entry⟩ := inv.entries h b found'
    rw [leftSome within] at entry
    rw [next]
    by_cases it : p.it = h
    · rw [if_pos it] at entry ⊢
      exact ⟨k', easy', entry.callback, entry.alive, entry.stream, entry.easyStream, entry.handler,
        fun _ => entry.requestUri (by decide), fun _ => entry.url (by decide)⟩
    · rw [if_neg it] at entry ⊢
      exact ⟨k', easy', entrySame entry rfl rfl rfl⟩
  · exact List.nodup_append.mpr ⟨inv.addedOnce, List.nodup_singleton _, by
      intro h mem g single same
      rw [List.mem_singleton.mp single] at same
      exact unadded (same ▸ mem)⟩
  · intro h mem
    change h ∈ s.runningRequests ∧ left (.moveStream p) h ≤ 2
    rw [next]
    rcases List.mem_append.mp mem with old | new
    · refine ⟨(inv.addedKeys h old).1, ?_⟩
      split <;> omega
    · rw [List.mem_singleton.mp new, if_pos rfl]
      exact ⟨lookupMem found, Nat.le_refl _⟩
  · intro q m same
    cases same
    exact ⟨a, k, easy, found, callback, asked, alive, stream⟩

theorem moveStreamKeeps (inv : Consistent s) {p : Push Handle} (here : s.location = .moveStream p) :
    Consistent ((s.update p.it (fun a => { a with easyStream := some ⟨some p.outputStream⟩ })).goto
      (.moveHandler p)) := by
  have within : pushing s.location = some (p, 1+1) := by rw [here]; rfl
  have answered := answeredOutside inv (by rw [here]; rfl)
  refine updateKeeps inv within (fun h => rfl) ?_ (fun a => rfl) ?_
    (controlOutside rfl answered (by simp [CCurlProcessor.goto]))
  · intro q m same
    cases same
    rfl
  · intro a k easy entry _ stream
    exact ⟨entry.callback, entry.alive, entry.stream, by simp [stream], entry.handler,
      fun _ => entry.requestUri (by decide), fun _ => entry.url (by decide)⟩

theorem moveHandlerKeeps (inv : Consistent s) {p : Push Handle} (here : s.location = .moveHandler p) :
    Consistent (s.moveHandler p) := by
  have within : pushing s.location = some (p, 0+1) := by rw [here]; rfl
  have answered := answeredOutside inv (by rw [here]; rfl)
  obtain ⟨a, k, easy, found, _⟩ := inv.locals p 1 within
  obtain ⟨k', easy', entry⟩ := inv.entries _ _ found
  have unset : a.handler = none := by
    rw [entry.handler, leftSome within, if_pos rfl]
    rfl
  simp only [CCurlProcessor.moveHandler, found, unset]
  refine updateKeeps inv within ?_ ?_ (fun a => rfl) ?_
    (controlOutside rfl answered (by simp [CCurlProcessor.goto]))
  · intro h
    rw [ite_self]
    rfl
  · intro q m same
    cases same
  · intro b k easy entry _ _
    exact ⟨entry.callback, entry.alive, entry.stream, entry.easyStream, rfl,
      fun _ => entry.requestUri (by decide), fun _ => entry.url (by decide)⟩

theorem freshKey (inv : Consistent s) {h : Handle} (unused : (s.easies h).isNone) : h ∉ s.runningRequests := by
  intro mem
  obtain ⟨a, k, easy, _, entry⟩ := entryOf inv mem
  rw [entry.alive] at unused
  contradiction

/-! The push of a request under a handle that no entry has. -/

section
variable {i : Nat} {request : SQueuedRequest} {h : Handle}

theorem pushTable (fresh : h ∉ s.runningRequests) : (s.push i request h).runningRequests =
    s.runningRequests.insert h { callback := some request.callback } := by
  simp only [CCurlProcessor.push, emplace, if_neg fresh, Custody.modify, AList.lookup_insert, AList.insert_insert]

theorem pushRunning (fresh : h ∉ s.runningRequests) (k : Nat) :
    (running (s.push i request h)).count k = (running s).count k + if request.callback = k then 1 else 0 := by
  have grown : held SActiveRequest.callback (s.runningRequests.insert h { callback := some request.callback }) =
      request.callback :: running s := heldInsert fresh rfl
  rw [running, pushTable fresh, grown, List.count_cons]
  simp only [beq_iff_eq]

theorem pushWaiting (found : s.workQueue[i]? = some request) (k : Nat) :
    (waiting s).count k = (waiting (s.push i request h)).count k + if request.callback = k then 1 else 0 := by
  have place : (waiting s)[i]? = some request.callback := by simp [waiting, found]
  rw [← countErased place k, waiting, List.eraseIdx_map]
  rfl

theorem pushEntry (s : CCurlProcessor Handle) (i : Nat) (request : SQueuedRequest) (h : Handle) :
    Entry (s.push i request h) 5 h { callback := some request.callback } request.callback
      { stream := s.streams.length } := by
  refine ⟨rfl, ?_, ⟨[], ?_⟩, rfl, rfl, ?_, ?_⟩
  · simp [CCurlProcessor.push]
  · simp [CCurlProcessor.push]
  · intro few
    exact absurd few (by decide)
  · intro few
    exact absurd few (by decide)

theorem pushLeft (s : CCurlProcessor Handle) (i : Nat) (request : SQueuedRequest) (h g : Handle) :
    left (s.push i request h).location g = if h = g then 5 else 0 := rfl

theorem pushEntries (inv : Consistent s) (here : s.location = .dequeue) (fresh : h ∉ s.runningRequests) {g : Handle}
    {a : SActiveRequest Handle} (found : (s.push i request h).runningRequests.lookup g = some a) :
    ∃ k easy, Entry (s.push i request h) (left (s.push i request h).location g) g a k easy := by
  have between : pushing s.location = none := by rw [here]; rfl
  rw [pushTable fresh] at found
  rw [pushLeft]
  by_cases same : h = g
  · subst same
    rw [AList.lookup_insert] at found
    cases found
    rw [if_pos rfl]
    exact ⟨_, _, pushEntry s i request h⟩
  · rw [AList.lookup_insert_ne (Ne.symm same)] at found
    obtain ⟨k, easy, old⟩ := inv.entries g a found
    rw [leftNone between] at old
    rw [if_neg same]
    exact ⟨k, easy, entryKeeps old (Function.update_of_ne (Ne.symm same) _ _)
      (fun content stream => ⟨content, foundLonger stream _⟩) (fun _ x => x)⟩

theorem pushLive (inv : Consistent s) (fresh : h ∉ s.runningRequests) {g : Handle} {easy : CurlEasy}
    (live : (s.push i request h).easies g = some easy) : g ∈ (s.push i request h).runningRequests := by
  rw [pushTable fresh, AList.mem_insert]
  by_cases same : g = h
  · exact .inl same
  · refine .inr (inv.live g easy ?_)
    rw [← live]
    exact (Function.update_of_ne same _ _).symm

theorem pushAdded (inv : Consistent s) (fresh : h ∉ s.runningRequests) {g : Handle} (mem : g ∈ s.added) :
    g ∈ (s.push i request h).runningRequests ∧ left (s.push i request h).location g ≤ 2 := by
  have key := (inv.addedKeys g mem).1
  have apart : h ≠ g := by
    intro same
    exact fresh (same ▸ key)
  refine ⟨?_, ?_⟩
  · rw [pushTable fresh, AList.mem_insert]
    exact .inr key
  · rw [pushLeft, if_neg apart]
    omega

theorem pushKeeps (inv : Consistent s) (here : s.location = .dequeue) (found : s.workQueue[i]? = some request)
    (unused : (s.easies h).isNone) : Consistent (s.push i request h) := by
  have fresh := freshKey inv unused
  have answered := answeredOutside inv (by rw [here]; rfl)
  have entry := pushEntry s i request h
  refine { inv with places := ?_, queue := ?_, owners := ?_, entries := fun g b => pushEntries inv here fresh,
                    live := fun g easy => pushLive inv fresh, addedKeys := fun g => pushAdded inv fresh, locals := ?_,
                    answers := ?_, control := controlOutside rfl answered (by simp [CCurlProcessor.push]) }
  · intro k
    have before := inv.places k
    rw [pushWaiting (h := h) found] at before
    change _ + _ + s.completed.count k = if k < s.queued.length then 1 else 0
    rw [pushRunning fresh, ← before]
    omega
  · intro r mem
    exact inv.queue r (List.mem_of_mem_eraseIdx mem)
  · intro k
    have before := inv.owners k
    have owned : (s.push i request h).streams.map Stream.owner = s.streams.map Stream.owner ++ [request.callback] := by
      simp [CCurlProcessor.push]
    rw [owned, countAdded, before, pushRunning fresh]
    change _ = _ + s.completed.count k
    omega
  · intro q m same
    cases same
    refine ⟨{ callback := some request.callback }, request.callback, _, ?_, rfl, ?_, entry.alive, rfl⟩
    · rw [pushTable fresh]
      exact AList.lookup_insert _
    · exact inv.queue request (List.mem_of_getElem? found)
  · intro c mem
    obtain ⟨success, j, stream, old, rest⟩ := inv.answers c mem
    exact ⟨success, j, stream, foundLonger old _, rest⟩

end

end Mcpp.HttpEntries
