import Mathlib.Data.List.AList
import Mathlib.Data.List.Count
import Mathlib.Data.List.InsertIdx
import Mathlib.Data.List.Perm.Basic

/-! Tokens in lists and in the entries of keyed tables. How often a token is somewhere
follows what is put in, taken out and changed there. -/
namespace Mcpp.Custody

section
variable {τ : Type} [DecidableEq τ] {l : List τ} {i : Nat} {p q : τ}

theorem countErased (found : l[i]? = some p) (q : τ) :
    (l.eraseIdx i).count q + (if p = q then 1 else 0) = l.count q := by
  obtain ⟨inside, same⟩ := List.getElem?_eq_some_iff.mp found
  have whole := (List.getElem_cons_eraseIdx_perm inside).count_eq q
  rw [← whole, same, List.count_cons]
  simp only [beq_iff_eq]

theorem countKept (found : l[i]? = some p) (apart : p ≠ q) : (l.eraseIdx i).count q = l.count q := by
  have erased := countErased found q
  rwa [if_neg apart] at erased

theorem countAdded (l : List τ) (p q : τ) : (l ++ [p]).count q = l.count q + if p = q then 1 else 0 := by
  simp [List.count_append, List.count_singleton]

omit [DecidableEq τ] in
theorem foundLonger (found : l[i]? = some p) (more : List τ) : (l ++ more)[i]? = some p := by
  have inside := (List.getElem?_eq_some_iff.mp found).1
  exact (List.getElem?_append_left inside).trans found

end

variable {κ β τ : Type} {token : β → Option τ} {table : AList (fun _ : κ => β)}
variable {key : κ} {b : β} {t : τ}

def held (token : β → Option τ) (table : AList (fun _ : κ => β)) : List τ :=
  table.entries.filterMap (fun e => token e.2)

theorem heldCons (holds : token b = some t) (rest : List (Sigma fun _ : κ => β)) :
    (⟨key, b⟩ :: rest).filterMap (fun e => token e.2) = t :: rest.filterMap (fun e => token e.2) := by
  rw [List.filterMap_cons]
  simp only [holds]

variable [DecidableEq κ]

theorem lookupMem (found : table.lookup key = some b) : key ∈ table := by
  rw [← AList.lookup_isSome, found]
  rfl

theorem memLookup (present : key ∈ table) : ∃ b, table.lookup key = some b :=
  Option.isSome_iff_exists.mp (AList.lookup_isSome.mpr present)

/- An entry that is there stays as it is. -/
def emplace (key : κ) (b : β) (table : AList (fun _ : κ => β)) : AList (fun _ : κ => β) :=
  if key ∈ table then table else table.insert key b

def modify (key : κ) (f : β → β) (table : AList (fun _ : κ => β)) : AList (fun _ : κ => β) :=
  match table.lookup key with
  | none => table
  | some b => table.insert key (f b)

/- What is done to an entry fails where there is none. -/
def onEntry {σ : Type} (key : κ) (table : AList (fun _ : κ => β)) (next : β → Except Unit σ) : Except Unit σ :=
  match table.lookup key with
  | none => .error ()
  | some b => next b

theorem entryOk {σ : Type} {next : β → Except Unit σ} {t : σ} (ok : onEntry key table next = .ok t) :
    ∃ b, table.lookup key = some b ∧ next b = .ok t := by
  unfold onEntry at ok
  split at ok
  · contradiction
  · exact ⟨_, ‹_›, ok⟩

theorem entriesErase (found : table.lookup key = some b) :
    table.entries.Perm (⟨key, b⟩ :: (table.erase key).entries) := by
  have present : key ∈ table.keys := lookupMem found
  obtain ⟨c, before, after, absent, split, erased⟩ := List.exists_of_kerase present
  have other : table.lookup key = some c := by
    refine AList.mem_lookup_iff.mpr ?_
    rw [split]
    simp
  rw [found] at other
  cases other
  have rest : (table.erase key).entries = before ++ after := erased
  rw [split, rest]
  exact List.perm_middle

theorem heldErase (found : table.lookup key = some b) (holds : token b = some t) :
    (held token table).Perm (t :: held token (table.erase key)) := by
  have whole := (entriesErase found).filterMap (fun e => token e.2)
  rw [heldCons holds] at whole
  exact whole

theorem heldInsert (fresh : key ∉ table) (holds : token b = some t) :
    held token (table.insert key b) = t :: held token table := by
  rw [held, AList.entries_insert_of_notMem fresh, heldCons holds]
  rfl

theorem lookupModify (found : table.lookup key = some b) (f : β → β) :
    (modify key f table).lookup key = some (f b) := by
  rw [modify, found]
  exact AList.lookup_insert table

theorem lookupOther {other : κ} (apart : other ≠ key) (f : β → β) :
    (modify key f table).lookup other = table.lookup other := by
  unfold modify
  split
  · rfl
  · exact AList.lookup_insert_ne apart

theorem memModify {other : κ} (f : β → β) : other ∈ modify key f table ↔ other ∈ table := by
  unfold modify
  split
  · exact Iff.rfl
  · rename_i b found
    rw [AList.mem_insert]
    refine ⟨?_, Or.inr⟩
    intro kinds
    rcases kinds with rfl | mem
    · exact lookupMem found
    · exact mem

theorem heldModify (found : table.lookup key = some b) {f : β → β} (same : token (f b) = token b)
    (holds : token b = some t) : (held token (modify key f table)).Perm (held token table) := by
  have whole := heldErase found holds
  simp only [modify, found, held, AList.entries_insert]
  rw [heldCons (same.trans holds)]
  exact whole.symm

theorem memHeld : t ∈ held token table ↔ ∃ key b, table.lookup key = some b ∧ token b = some t := by
  unfold held
  rw [List.mem_filterMap]
  refine ⟨?_, ?_⟩
  · intro ⟨⟨key, b⟩, mem, holds⟩
    exact ⟨key, b, AList.mem_lookup_iff.mpr mem, holds⟩
  · intro ⟨key, b, found, holds⟩
    exact ⟨⟨key, b⟩, AList.mem_lookup_iff.mp found, holds⟩

/-! The same where an entry may hold none. -/

omit [DecidableEq κ] in
theorem heldEntry (rest : List (Sigma fun _ : κ => β)) :
    (⟨key, b⟩ :: rest).filterMap (fun e => token e.2) = (token b).toList ++ rest.filterMap (fun e => token e.2) := by
  rw [List.filterMap_cons]
  cases token b <;> rfl

theorem heldSplit (found : table.lookup key = some b) :
    (held token table).Perm ((token b).toList ++ held token (table.erase key)) := by
  have whole := (entriesErase found).filterMap (fun e => token e.2)
  rw [heldEntry] at whole
  exact whole

theorem heldAdded (fresh : key ∉ table) : held token (table.insert key b) = (token b).toList ++ held token table := by
  rw [held, AList.entries_insert_of_notMem fresh, heldEntry]
  rfl

theorem heldReplaced (found : table.lookup key = some b) (f : β → β) :
    held token (modify key f table) = (token (f b)).toList ++ held token (table.erase key) := by
  simp only [modify, found, held, AList.entries_insert]
  rw [heldEntry]
  rfl

section
variable [DecidableEq τ]

omit [DecidableEq κ] in
theorem countEntry (rest : List (Sigma fun _ : κ => β)) (t : τ) :
    ((⟨key, b⟩ :: rest).filterMap (fun e => token e.2)).count t =
      (rest.filterMap (fun e => token e.2)).count t + if token b = some t then 1 else 0 := by
  rw [List.filterMap_cons]
  cases here : token b with
  | none => simp
  | some u => simp [List.count_cons]

theorem countInsert (fresh : key ∉ table) (t : τ) :
    (held token (table.insert key b)).count t = (held token table).count t + if token b = some t then 1 else 0 := by
  rw [held, AList.entries_insert_of_notMem fresh, countEntry]
  rfl

theorem countErase (found : table.lookup key = some b) (t : τ) :
    (held token table).count t = (held token (table.erase key)).count t + if token b = some t then 1 else 0 := by
  rw [held, ((entriesErase found).filterMap _).count_eq t, countEntry]
  rfl

theorem countModify (found : table.lookup key = some b) (f : β → β) (t : τ) :
    (held token (modify key f table)).count t + (if token b = some t then 1 else 0) =
      (held token table).count t + if token (f b) = some t then 1 else 0 := by
  have changed : (held token (modify key f table)).count t =
      (held token (table.erase key)).count t + if token (f b) = some t then 1 else 0 := by
    simp only [modify, found, held, AList.entries_insert]
    rw [countEntry]
    rfl
  rw [changed, countErase found]
  omega

/- A token in one entry only is there once. -/
theorem heldSingle (found : table.lookup key = some b) (holds : token b = some t)
    (only : ∀ other c, table.lookup other = some c → token c = some t → other = key) :
    (held token table).count t = 1 := by
  rw [countErase found, if_pos holds, List.count_eq_zero_of_not_mem]
  intro mem
  obtain ⟨other, c, found', holds'⟩ := memHeld.mp mem
  by_cases same : other = key
  · subst same
    rw [AList.lookup_erase] at found'
    contradiction
  · rw [AList.lookup_erase_ne same] at found'
    exact same (only other c found' holds')

end

/- An entry that has the token neither before nor behind. -/
theorem heldModifyOther (found : table.lookup key = some b) {f : β → β} (before : token b ≠ some t)
    (behind : token (f b) ≠ some t) : t ∈ held token (modify key f table) ↔ t ∈ held token table := by
  classical
  have each : (held token (modify key f table)).count t + _ = (held token table).count t + _ := countModify found f t
  rw [if_neg before, if_neg behind, Nat.add_zero, Nat.add_zero] at each
  rw [← List.count_pos_iff, each, List.count_pos_iff]

theorem heldInsertOther (fresh : key ∉ table) (apart : token b ≠ some t) :
    t ∈ held token (table.insert key b) ↔ t ∈ held token table := by
  classical
  have each : (held token (table.insert key b)).count t = (held token table).count t + _ := countInsert fresh t
  rw [if_neg apart, Nat.add_zero] at each
  rw [← List.count_pos_iff, each, List.count_pos_iff]

theorem heldEraseOther (found : table.lookup key = some b) (apart : token b ≠ some t) :
    t ∈ held token (table.erase key) ↔ t ∈ held token table := by
  classical
  have each : (held token table).count t = (held token (table.erase key)).count t + _ := countErase found t
  rw [if_neg apart, Nat.add_zero] at each
  rw [← List.count_pos_iff, ← each, List.count_pos_iff]

/- The token goes from one entry to a new one. -/
theorem heldMoved {other : κ} (found : table.lookup other = some b) {f : β → β} (emptied : token (f b) = none)
    (fresh : key ∉ table) : (held token ((modify other f table).insert key b)).Perm (held token table) := by
  classical
  refine List.perm_iff_count.mpr ?_
  intro t
  have unused : key ∉ modify other f table := fun mem => fresh ((memModify f).mp mem)
  have moved : (held token (modify other f table)).count t + _ = (held token table).count t + _ := countModify found f t
  simp only [emptied, reduceCtorEq, if_false, Nat.add_zero] at moved
  rw [countInsert unused]
  exact moved

/- No token twice: a token is in one entry. -/
theorem heldUnique (once : (held token table).Nodup) {other : κ} {c : β} (found : table.lookup key = some b)
    (holds : token b = some t) (found' : table.lookup other = some c) (holds' : token c = some t) :
    key = other := by
  by_contra apart
  have rest := (heldErase found holds).nodup_iff.mp once
  have still : (table.erase key).lookup other = some c := by
    rw [AList.lookup_erase_ne (Ne.symm apart)]
    exact found'
  exact (List.nodup_cons.mp rest).1 (memHeld.mpr ⟨other, c, still, holds'⟩)

end Mcpp.Custody
