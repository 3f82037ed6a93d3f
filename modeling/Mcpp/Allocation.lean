import Mathlib.Algebra.Order.Group.Multiset
import Mathlib.Data.Multiset.Range

/-! Programs that allocate and free over a heap of numbered objects. A triple says what a
program owns before and behind; what else is live is in its frame and stays as it is, so
that triples compose. -/
namespace Mcpp.Allocation

structure Heap where
  made : Nat := 0
  live : Multiset Nat := 0
  freed : Multiset Nat := 0
  -- Whether something was freed that is not live.
  misused : Bool := false
  deriving DecidableEq

abbrev Program := StateM Heap

def allocate : Program Nat := fun h => (h.made, { h with made := h.made + 1, live := h.made ::ₘ h.live })

def free (b : Nat) : Program Unit := fun h =>
  if b ∈ h.live then ((), { h with live := h.live.erase b, freed := b ::ₘ h.freed })
  else ((), { h with misused := true })

/- What may be null is not freed where it is. -/
def freeSome : Option Nat → Program Unit
  | none => pure ()
  | some b => free b

def owned (b : Option Nat) : Multiset Nat := b.toList

/- Every object made is live or freed, and that once. -/
structure Sound (h : Heap) : Prop where
  once : h.live + h.freed = Multiset.range h.made
  used : h.misused = false

def Triple {α : Type} (pre : Multiset Nat) (p : Program α) (post : α → Multiset Nat → Prop) : Prop :=
  ∀ h frame, Sound h → h.live = pre + frame →
    Sound (p.run h).2 ∧ ∃ kept, post (p.run h).1 kept ∧ (p.run h).2.live = kept + frame

variable {α β : Type} {pre rest : Multiset Nat} {p : Program α} {b : Nat}

theorem soundStart : Sound {} := ⟨rfl, rfl⟩

theorem soundOnce {h : Heap} (sound : Sound h) : (h.live + h.freed).Nodup := by
  rw [sound.once]
  exact Multiset.nodup_range _

theorem tripleReturn {a : α} {post : α → Multiset Nat → Prop} (holds : post a pre) : Triple pre (pure a) post := by
  intro h frame sound live
  exact ⟨sound, pre, holds, live⟩

theorem tripleBind {f : α → Program β} {mid : α → Multiset Nat → Prop} {post : β → Multiset Nat → Prop}
    (first : Triple pre p mid) (next : ∀ a kept, mid a kept → Triple kept (f a) post) : Triple pre (p >>= f) post := by
  intro h frame sound live
  obtain ⟨sound, kept, holds, live⟩ := first h frame sound live
  exact next _ _ holds _ frame sound live

/- The frame rule. -/
theorem tripleFrame {post : α → Multiset Nat → Prop} (triple : Triple pre p post) (rest : Multiset Nat) :
    Triple (pre + rest) p fun a kept => ∃ own, post a own ∧ kept = own + rest := by
  intro h frame sound live
  rw [add_assoc] at live
  obtain ⟨sound, own, holds, live⟩ := triple h (rest + frame) sound live
  exact ⟨sound, own + rest, ⟨own, holds, rfl⟩, by rw [live, add_assoc]⟩

theorem tripleWeaken {post weaker : α → Multiset Nat → Prop} (triple : Triple pre p post)
    (follows : ∀ a kept, post a kept → weaker a kept) : Triple pre p weaker := by
  intro h frame sound live
  obtain ⟨sound, kept, holds, live⟩ := triple h frame sound live
  exact ⟨sound, kept, follows _ _ holds, live⟩

theorem tripleAllocate : Triple 0 allocate fun b kept => kept = {b} := by
  intro h frame sound live
  refine ⟨⟨?_, sound.used⟩, {h.made}, rfl, ?_⟩
  · change h.made ::ₘ h.live + h.freed = Multiset.range (h.made + 1)
    rw [Multiset.cons_add, sound.once, Multiset.range_succ]
  · change h.made ::ₘ h.live = {h.made} + frame
    rw [live, zero_add, Multiset.singleton_add]

theorem tripleFree (b : Nat) : Triple {b} (free b) fun _ kept => kept = 0 := by
  intro h frame sound live
  rw [Multiset.singleton_add] at live
  have mem : b ∈ h.live := by
    rw [live]
    exact Multiset.mem_cons_self b frame
  have after : (free b).run h = ((), { h with live := h.live.erase b, freed := b ::ₘ h.freed }) := if_pos mem
  rw [after]
  refine ⟨⟨?_, sound.used⟩, 0, rfl, ?_⟩
  · change h.live.erase b + b ::ₘ h.freed = Multiset.range h.made
    rw [Multiset.add_cons, ← Multiset.cons_add, Multiset.cons_erase mem, sound.once]
  · change h.live.erase b = 0 + frame
    rw [live, Multiset.erase_cons_head, zero_add]

/-! The rules in the order of a program: each takes its first statement away. -/

theorem frameThen {f : α → Program β} {own : Multiset Nat} {mid : α → Multiset Nat → Prop} {post : β → Multiset Nat → Prop}
    (first : Triple own p mid) (next : ∀ a kept, mid a kept → Triple (kept + rest) (f a) post)
    (holds : pre = own + rest) : Triple pre (p >>= f) post := by
  rw [holds]
  refine tripleBind (tripleFrame first rest) ?_
  rintro a _ ⟨kept, held, rfl⟩
  exact next a kept held

section
variable {f : Nat → Program α} {post : α → Multiset Nat → Prop}

theorem allocateThen (next : ∀ b, Triple (b ::ₘ pre) (f b) post) : Triple pre (allocate >>= f) post := by
  refine frameThen tripleAllocate ?_ (zero_add pre).symm
  rintro b _ rfl
  rw [Multiset.singleton_add]
  exact next b

theorem freeThen {q : Program α} (next : Triple rest q post) (holds : pre = b ::ₘ rest) :
    Triple pre (free b >>= fun _ => q) post := by
  refine frameThen (tripleFree b) ?_ (holds.trans (Multiset.singleton_add b rest).symm)
  rintro _ _ rfl
  rw [zero_add]
  exact next

end

theorem tripleFreeSome (b : Option Nat) : Triple (owned b) (freeSome b) fun _ kept => kept = 0 := by
  cases b with
  | none => exact tripleReturn rfl
  | some b => exact tripleFree b

end Mcpp.Allocation
