import Mcpp.HttpEntries

/-! Every request of CCurlProcessor is in one place. It waits in the queue, runs under the
handle made for it or is completed, and its callback is called once, with what its own
stream holds. -/
namespace Mcpp.HttpRequests
open Buffers Run Custody CurlProcessor HttpEntries

variable {Handle : Type} [DecidableEq Handle] {s t : CCurlProcessor Handle} {e : Event Handle}
variable {events : List (Event Handle)}

/- The entry of the handle whose message the worker is at is there, filled. -/
theorem finishedEntry (inv : Consistent s) {h : Handle} (message : finished s.location = some h) :
    ∃ a k easy, s.runningRequests.lookup h = some a ∧ Entry s 0 h a k easy := by
  have key := (inv.control.message h message).1
  obtain ⟨a, k, easy, found, entry⟩ := entryOf inv key
  have between : pushing s.location = none := by
    cases here : s.location <;> simp_all [finished, pushing]
  rw [leftNone between] at entry
  exact ⟨a, k, easy, found, entry⟩

theorem reportKeeps (inv : Consistent s) (here : s.location = .getNextFinished) {h : Handle} (mem : h ∈ s.added) :
    Consistent { s with added := s.added.erase h, location := .lookup h } := by
  have between : pushing s.location = none := by rw [here]; rfl
  have answered := answeredOutside inv (by rw [here]; rfl)
  refine movedKeeps inv between rfl List.erase_sublist inv.answers ⟨?_, ?_, ?_, by simp⟩
  · intro g same
    cases same
    refine ⟨(inv.addedKeys h mem).1, ?_⟩
    intro again
    exact (List.Nodup.mem_erase_iff inv.addedOnce).mp again |>.1 rfl
  · intro g content there
    contradiction
  · rw [answeringNone (by simp), List.append_nil]
    exact answered

theorem lookupKeeps (inv : Consistent s) {h : Handle} (here : s.location = .lookup h) : Consistent (s.lookup h) := by
  have message : finished s.location = some h := by rw [here]; rfl
  have between : pushing s.location = none := by rw [here]; rfl
  have answered := inv.control.answered
  rw [answeringNone (by simp [here])] at answered
  obtain ⟨a, k, easy, found, entry⟩ := finishedEntry inv message
  obtain ⟨content, stream⟩ := entry.stream
  have filled : a.easyStream = some ⟨some easy.stream⟩ := entry.easyStream
  simp only [CCurlProcessor.lookup, found, filled, strOf stream]
  refine movedKeeps inv between rfl (List.Sublist.refl _) inv.answers ⟨?_, ?_, ?_, by simp⟩
  · intro g same
    cases same
    exact inv.control.message h message
  · intro g content' same
    cases same
    exact ⟨easy, entry.alive, strOf stream⟩
  · rw [answeringNone (by simp)]
    exact answered

/- What is handed to the callback is what the request's own stream holds. -/
theorem calledContent (inv : Consistent s) {h : Handle} {content : Bytes} (here : s.location = .call h content) :
    ∃ a k easy, s.runningRequests.lookup h = some a ∧ Entry s 0 h a k easy ∧
      s.streams[easy.stream]? = some ⟨k, content, false⟩ := by
  obtain ⟨a, k, easy, found, entry⟩ := finishedEntry inv (h := h) (by rw [here]; rfl)
  obtain ⟨easy', alive, held⟩ := inv.control.content h content here
  obtain ⟨content', stream⟩ := entry.stream
  cases entry.alive.symm.trans alive
  cases (strOf stream).symm.trans held
  exact ⟨a, k, easy, found, entry, stream⟩

theorem callKeeps (inv : Consistent s) {h : Handle} {content : Bytes} (here : s.location = .call h content) :
    Consistent (s.call h content) := by
  have message : finished s.location = some h := by rw [here]; rfl
  have between : pushing s.location = none := by rw [here]; rfl
  have answered := inv.control.answered
  rw [answeringNone (by simp [here]), List.append_nil] at answered
  obtain ⟨a, k, easy, found, entry, stream⟩ := calledContent inv here
  have callback : (s.runningRequests.lookup h).bind SActiveRequest.callback = some k := by
    rw [found]
    exact entry.callback
  simp only [CCurlProcessor.call, callback]
  refine movedKeeps inv between rfl (List.Sublist.refl _) ?_ ⟨?_, ?_, ?_, by simp⟩
  · intro c mem
    rcases List.mem_append.mp mem with old | new
    · exact inv.answers c old
    · rw [List.mem_singleton.mp new]
      exact ⟨rfl, easy.stream, _, stream, rfl, rfl⟩
  · intro g same
    cases same
    exact inv.control.message h message
  · intro g content there
    contradiction
  · simp [answering, callback, answered]

theorem runningCount (inv : Consistent s) {h : Handle} {a : SActiveRequest Handle} {k : Nat}
    (found : s.runningRequests.lookup h = some a) (callback : a.callback = some k) :
    (running s).count k = 1 ∧ s.completed.count k = 0 := by
  have mem : k ∈ running s := memHeld.mpr ⟨h, a, found, callback⟩
  have some := List.count_pos_iff.mpr mem
  have all := inv.places k
  split at all <;> omega

theorem runningOnce (inv : Consistent s) : (running s).Nodup := by
  refine List.nodup_iff_count_le_one.mpr ?_
  intro k
  have all := inv.places k
  split at all <;> omega

theorem receiveKeeps (inv : Consistent s) (here : s.location = .perform) {h : Handle} (mem : h ∈ s.added)
    (bytes : Bytes) : Consistent (s.receive h bytes) := by
  have between : pushing s.location = none := by rw [here]; rfl
  have outside : finished s.location = none := by rw [here]; rfl
  have answered := answeredOutside inv outside
  obtain ⟨a, k, easy, found, entry⟩ := entryOf inv (inv.addedKeys h mem).1
  obtain ⟨held, stream⟩ := entry.stream
  simp only [CCurlProcessor.receive, entry.alive, strOf stream]
  refine { inv with owners := ?_, entries := ?_, answers := ?_,
                    control := controlOutside outside answered inv.control.defined }
  · intro j
    rw [ownersModified]
    · exact inv.owners j
    · intro stream
      rfl
  · intro g b found'
    obtain ⟨k', easy', entry'⟩ := inv.entries g b found'
    refine ⟨k', easy', entryKeeps entry' rfl ?_ (fun _ x => x)⟩
    intro content old
    by_cases same : easy.stream = easy'.stream
    · exact ⟨content ++ bytes, by simp [same, old]⟩
    · exact ⟨content, by simp [List.getElem?_modify_ne _ _ same, old]⟩
  · intro c called
    obtain ⟨success, i, other, old, owner, content⟩ := inv.answers c called
    have done : c.callback ∈ s.completed := by
      rw [← answered]
      exact List.mem_map_of_mem called
    have apart : easy.stream ≠ i := by
      intro same
      rw [← same, stream] at old
      cases old
      have none := (runningCount inv found entry.callback).2
      have some := List.count_pos_iff.mpr done
      rw [← owner] at some
      exact absurd some (by rw [none]; exact Nat.lt_irrefl 0)
    exact ⟨success, i, other, by simp [List.getElem?_modify_ne _ _ apart, old], owner, content⟩

theorem completeOf {h : Handle} {a : SActiveRequest Handle} {k : Nat} {easy : CurlEasy}
    (found : s.runningRequests.lookup h = some a) (entry : Entry s 0 h a k easy) :
    s.complete h = { s with
      easies := Function.update s.easies h none
      runningRequests := s.runningRequests.erase h
      streams := s.streams.modify easy.stream fun stream => { stream with deleted := true }
      added := s.added.filter (· ≠ h)
      completed := s.completed ++ [k]
      location := .getNextFinished } := by
  have filled : a.easyStream = some ⟨some easy.stream⟩ := entry.easyStream
  have handler : a.handler = some h := entry.handler
  simp only [CCurlProcessor.complete, CCurlProcessor.eraseRunning, found, CCurlProcessor.destroy, filled, handler,
    CCurlProcessor.cleanup, Option.bind_some, entry.callback, Option.toList_some]

theorem heldErased {h : Handle} {a : SActiveRequest Handle} {k : Nat} (found : s.runningRequests.lookup h = some a)
    (callback : a.callback = some k) (j : Nat) :
    (held SActiveRequest.callback (s.runningRequests.erase h)).count j + (if k = j then 1 else 0) = (running s).count j := by
  rw [running, (heldErase found callback).count_eq j, List.count_cons]
  simp only [beq_iff_eq]

/- The entries that are left do not share the stream that is deleted. -/
theorem completeEntries (inv : Consistent s) (between : pushing s.location = none) {h g : Handle}
    {a b : SActiveRequest Handle} {k : Nat} {easy : CurlEasy} (found : s.runningRequests.lookup h = some a)
    (entry : Entry s 0 h a k easy) (found' : (s.runningRequests.erase h).lookup g = some b) :
    ∃ k easy, Entry (s.complete h) 0 g b k easy := by
  have apart : g ≠ h := by
    intro same
    rw [same, AList.lookup_erase] at found'
    contradiction
  rw [AList.lookup_erase_ne apart] at found'
  obtain ⟨k', easy', entry'⟩ := inv.entries g b found'
  rw [leftNone between] at entry'
  rw [completeOf found entry]
  refine ⟨k', easy', entryKeeps entry' (Function.update_of_ne apart _ _) ?_ (fun _ x => x)⟩
  intro content old
  have other : easy.stream ≠ easy'.stream := by
    intro same
    obtain ⟨content', stream⟩ := entry.stream
    rw [same, old] at stream
    cases stream
    exact apart (heldUnique (runningOnce inv) found' entry'.callback found entry.callback)
  exact ⟨content, by simp [List.getElem?_modify_ne _ _ other, old]⟩

theorem completeLive (inv : Consistent s) {h g : Handle} {easy : CurlEasy}
    (live : Function.update s.easies h none g = some easy) : g ∈ s.runningRequests.erase h := by
  have apart : g ≠ h := by
    intro same
    simp [same] at live
  rw [AList.mem_erase]
  refine ⟨apart, inv.live g easy ?_⟩
  rw [← live]
  exact (Function.update_of_ne apart _ _).symm

theorem completeAdded (inv : Consistent s) {h g : Handle} (mem : g ∈ s.added.filter (· ≠ h)) :
    g ∈ s.runningRequests.erase h := by
  obtain ⟨mem, apart⟩ := List.mem_filter.mp mem
  rw [AList.mem_erase]
  exact ⟨by simpa using apart, (inv.addedKeys g mem).1⟩

theorem completeAnswers (inv : Consistent s) {i : Nat} {c : Answer} (called : c ∈ s.calls) : c.success = true ∧
    ∃ (j : Nat) (stream : Stream), (s.streams.modify i fun stream => { stream with deleted := true })[j]? = some stream ∧
      stream.owner = c.callback ∧ stream.content = c.body := by
  obtain ⟨success, j, stream, old, owner, content⟩ := inv.answers c called
  by_cases same : i = j
  · exact ⟨success, j, { stream with deleted := true }, by simp [same, old], owner, content⟩
  · exact ⟨success, j, stream, by simp [List.getElem?_modify_ne _ _ same, old], owner, content⟩

theorem completeKeeps (inv : Consistent s) {h : Handle} (here : s.location = .erase h) : Consistent (s.complete h) := by
  have between : pushing s.location = none := by rw [here]; rfl
  obtain ⟨a, k, easy, found, entry⟩ := finishedEntry inv (h := h) (by rw [here]; rfl)
  have callback : (s.runningRequests.lookup h).bind SActiveRequest.callback = some k := by
    rw [found]
    exact entry.callback
  have answered := inv.control.answered
  simp only [answering, here, callback, Option.toList_some] at answered
  have entries {g : Handle} {b : SActiveRequest Handle} := completeEntries (g := g) (b := b) inv between found entry
  rw [completeOf found entry] at entries ⊢
  refine { inv with places := ?_, owners := ?_, entries := fun g b => entries, live := fun g easy => completeLive inv,
                    addedOnce := inv.addedOnce.filter _, addedKeys := fun g mem => ⟨completeAdded inv mem, Nat.zero_le _⟩,
                    locals := nofun, answers := fun c => completeAnswers inv,
                    control := controlOutside rfl answered (by simp) }
  · intro j
    have before := inv.places j
    rw [← heldErased found entry.callback] at before
    simp only [running, countAdded]
    rw [← before]
    change (waiting s).count j + _ + _ = _
    omega
  · intro j
    have before := inv.owners j
    rw [← heldErased found entry.callback] at before
    simp only [running, countAdded]
    rw [ownersModified _ _ (by intro stream; rfl), before]
    omega

theorem statementKeeps (inv : Consistent s) (ok : s.statement = .ok t) : Consistent t := by
  unfold CCurlProcessor.statement at ok
  cases here : s.location <;> rw [here] at ok <;> simp only at ok <;> try contradiction
  case head =>
    cases ok
    refine gotoKeeps inv (by rw [here]; rfl) (by rw [here]; rfl) ?_ ?_ ?_ <;> split <;> simp [pushing, finished]
  case setUri p =>
    cases ok
    exact setUriKeeps inv here
  case addOptions p =>
    cases ok
    exact addOptionsKeeps inv here
  case addHandle p =>
    cases ok
    exact addHandleKeeps inv here
  case moveStream p =>
    cases ok
    exact moveStreamKeeps inv here
  case moveHandler p =>
    cases ok
    exact moveHandlerKeeps inv here
  case lookup h =>
    cases ok
    exact lookupKeeps inv here
  case call h content =>
    cases ok
    exact callKeeps inv here
  case erase h =>
    cases ok
    exact completeKeeps inv here
  case sleep =>
    cases ok
    exact gotoKeeps inv (by rw [here]; rfl) (by rw [here]; rfl) rfl rfl (by simp)

theorem shutdownKeeps (inv : Consistent s) : Consistent { s with shutdown := true } := by
  refine { inv with entries := ?_, control := ?_ }
  · intro h a found
    obtain ⟨k, easy, entry⟩ := inv.entries h a found
    exact ⟨k, easy, entrySame entry rfl rfl rfl⟩
  · exact ⟨inv.control.message, inv.control.content, inv.control.answered, inv.control.defined⟩

theorem dequeueOk {i : Nat} {h : Handle} (ok : step (.tryDequeue (some (i, h))) s = .ok t) :
    ∃ request, s.location = .dequeue ∧ (s.easies h).isNone ∧ s.workQueue[i]? = some request ∧ t = s.push i request h := by
  simp only [step] at ok
  cases found : s.workQueue[i]? with
  | none =>
    rw [found] at ok
    contradiction
  | some request =>
    rw [found] at ok
    obtain ⟨⟨here, unused⟩, rfl⟩ := allowOk.mp ok
    exact ⟨request, here, unused, rfl, rfl⟩

theorem stepKeeps (inv : Consistent s) (ok : step e s = .ok t) : Consistent t := by
  cases e with
  | queueHttpGet uri =>
    cases ok
    exact queueKeeps inv uri
  | shutdown =>
    cases ok
    exact shutdownKeeps inv
  | statement => exact statementKeeps inv ok
  | tryDequeue taken =>
    cases taken with
    | none =>
      obtain ⟨here, rfl⟩ := allowOk.mp ok
      exact gotoKeeps inv (by rw [here]; rfl) (by rw [here]; rfl) rfl rfl (by simp)
    | some taken =>
      obtain ⟨request, here, unused, found, rfl⟩ := dequeueOk ok
      exact pushKeeps inv here found unused
  | receive h bytes =>
    obtain ⟨⟨here, mem⟩, rfl⟩ := allowOk.mp ok
    exact receiveKeeps inv here mem bytes
  | performed =>
    obtain ⟨here, rfl⟩ := allowOk.mp ok
    exact gotoKeeps inv (by rw [here]; rfl) (by rw [here]; rfl) rfl rfl (by simp)
  | getNextFinished message =>
    cases message with
    | none =>
      obtain ⟨here, rfl⟩ := allowOk.mp ok
      exact gotoKeeps inv (by rw [here]; rfl) (by rw [here]; rfl) rfl rfl (by simp)
    | some h =>
      obtain ⟨⟨here, mem⟩, rfl⟩ := allowOk.mp ok
      exact reportKeeps inv here mem

theorem pathConsistent (path : Path step {} events s) : Consistent s :=
  pathInvariant consistentStart (fun _ _ _ inv ok => stepKeeps inv ok) path

theorem answeringRunning (inv : Consistent s) (k : Nat) : (answering s).count k ≤ (running s).count k := by
  unfold answering
  split
  · rename_i h here
    obtain ⟨a, j, easy, found, entry⟩ := finishedEntry inv (h := h) (by rw [here]; rfl)
    have one := (runningCount inv found entry.callback).1
    simp only [found, Option.bind_some, entry.callback, Option.toList_some, List.count_singleton, beq_iff_eq]
    split
    · rename_i same
      rw [← same, one]
    · exact Nat.zero_le _
  · simp

/- No request is lost, answered twice or answered with what belongs to another. -/
structure Delivered (s : CCurlProcessor Handle) : Prop where
  oncePlaced : ∀ k < s.queued.length, (waiting s).count k + (running s).count k + s.completed.count k = 1
  onceCalled : ∀ k, (s.calls.map Answer.callback).count k ≤ 1
  ownStream : ∀ k ∈ s.completed, ∃ (i : Nat) (stream : Stream), s.streams[i]? = some stream ∧ stream.owner = k ∧
    (s.streams.map Stream.owner).count k = 1 ∧ s.calls.filter (·.callback = k) = [⟨k, true, stream.content⟩]
  ownUri : ∀ h ∈ s.added, ∃ easy stream uri, s.easies h = some easy ∧ s.streams[easy.stream]? = some stream ∧
    s.queued[stream.owner]? = some uri ∧ easy.url = cString uri
  found : ∀ h, s.location = .lookup h → ∃ a, s.runningRequests.lookup h = some a ∧ a.easyStream.isSome
  stays : s.location ≠ .returned ∧ s.location ≠ .undefined

theorem calledOnce (inv : Consistent s) (k : Nat) : (s.calls.map Answer.callback).count k ≤ 1 := by
  have less := answeringRunning inv k
  have all := inv.places k
  rw [inv.control.answered, List.count_append]
  split at all <;> omega

theorem completedAnswer (inv : Consistent s) {k : Nat} (done : k ∈ s.completed) :
    ∃ c ∈ s.calls, c.callback = k ∧ s.calls.filter (·.callback = k) = [c] := by
  have called : k ∈ s.calls.map Answer.callback := by
    rw [inv.control.answered]
    exact List.mem_append_left _ done
  obtain ⟨c, mem, same⟩ := List.mem_map.mp called
  have found : c ∈ s.calls.filter (·.callback = k) := List.mem_filter.mpr ⟨mem, by simpa using same⟩
  have once : (s.calls.filter (·.callback = k)).length ≤ 1 := by
    have bound := calledOnce inv k
    rw [List.count, List.countP_map, List.countP_eq_length_filter] at bound
    exact bound
  obtain ⟨d, single⟩ := List.length_eq_one_iff.mp (Nat.le_antisymm once (List.length_pos_of_mem found))
  rw [single, List.mem_singleton] at found
  exact ⟨c, mem, same, by rw [single, found]⟩

theorem eachDelivered {Handle : Type} [DecidableEq Handle] {events : List (Event Handle)} {s : CCurlProcessor Handle}
    (path : Path step {} events s) : Delivered s := by
  have inv := pathConsistent path
  refine ⟨?_, calledOnce inv, ?_, ?_, ?_, inv.control.defined⟩
  · intro k asked
    have all := inv.places k
    rw [if_pos asked] at all
    exact all
  · intro k done
    obtain ⟨c, mem, same, single⟩ := completedAnswer inv done
    obtain ⟨success, i, stream, found, owner, content⟩ := inv.answers c mem
    refine ⟨i, stream, found, owner.trans same, ?_, ?_⟩
    · have some := List.count_pos_iff.mpr done
      have all := inv.places k
      have owned := inv.owners k
      split at all <;> omega
    · rw [single, content, ← same, ← success]
  · intro h mem
    obtain ⟨key, few⟩ := inv.addedKeys h mem
    obtain ⟨a, k, easy, found, entry⟩ := entryOf inv key
    obtain ⟨content, stream⟩ := entry.stream
    obtain ⟨uri, asked, url⟩ := entry.url (by omega)
    exact ⟨easy, _, uri, entry.alive, stream, asked, url⟩
  · intro h here
    obtain ⟨a, k, easy, found, entry⟩ := finishedEntry inv (h := h) (by rw [here]; rfl)
    exact ⟨a, found, by rw [entry.easyStream]; rfl⟩

/- A frame that takes the first request, makes its handle and sees it through. -/
def frame (h : Nat) (body : Bytes) : List (Event Nat) :=
  [.statement, .tryDequeue (some (0, h)), .statement, .statement, .statement, .statement, .statement, .receive h body,
   .performed, .getNextFinished (some h), .statement, .statement, .statement, .getNextFinished none, .statement]

/- The second request gets the handle that the first one freed. -/
theorem eachDeliveredReused : ∃ last : CCurlProcessor Nat,
    last.calls = [⟨0, true, [1]⟩, ⟨1, true, [2]⟩] ∧ Delivered last := by
  have path : ∃ last, run step ([.queueHttpGet [97], .queueHttpGet [98]] ++ frame 7 [1] ++ frame 7 [2]) {} = .ok last ∧
      last.calls = [⟨0, true, [1]⟩, ⟨1, true, [2]⟩] := ⟨_, rfl, rfl⟩
  obtain ⟨last, ran, calls⟩ := path
  exact ⟨last, calls, eachDelivered (pathRun ran)⟩

end Mcpp.HttpRequests
