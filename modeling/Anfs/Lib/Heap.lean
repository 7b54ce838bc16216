import Mathlib.Data.List.Perm.Basic
import Mathlib.Data.List.Perm.Subperm

/-!
# Blocks of memory

A heap is the list of the blocks that are in use. Which block an allocation returns, if any, is
up to the allocator; it never returns a block that is in use. What a piece of code owns are the
blocks that are in use now and were not in use when it started.
-/
namespace Anfs.Lib
open scoped List

structure Heap where
  live : List Nat
  /-- The number of allocations so far, and what the allocator has to offer for each. -/
  calls : Nat
  pick : Nat → Option Nat

namespace Heap

def alloc (h : Heap) : Option Nat × Heap :=
  match h.pick h.calls with
  | none => (none, { h with calls := h.calls + 1 })
  | some a =>
      if a ∈ h.live then (none, { h with calls := h.calls + 1 })
      else (some a, { h with calls := h.calls + 1, live := a :: h.live })

def free (h : Heap) (a : Nat) : Heap := { h with live := h.live.erase a }

/-- Since `h₀` the blocks `bs` have been allocated and not freed, and no others. -/
def Owns (h₀ h : Heap) (bs : List Nat) : Prop := h.live ~ bs ++ h₀.live

variable {h₀ h h' : Heap} {bs cs : List Nat}

theorem owns_refl (h : Heap) : Owns h h [] := List.Perm.refl _

theorem Owns.perm (ho : Owns h₀ h bs) (hp : bs ~ cs) : Owns h₀ h cs :=
  List.Perm.trans ho (hp.append_right _)

theorem Owns.trans (ho : Owns h₀ h bs) (ho' : Owns h h' cs) : Owns h₀ h' (cs ++ bs) := by
  have hall : h'.live ~ cs ++ (bs ++ h₀.live) := List.Perm.trans ho' (ho.append_left cs)
  rwa [← List.append_assoc] at hall

theorem owns_alloc (h : Heap) : Owns h h.alloc.2 h.alloc.1.toList := by
  unfold Heap.alloc
  cases h.pick h.calls with
  | none => exact List.Perm.refl _
  | some a =>
      dsimp only
      split
      · exact List.Perm.refl _
      · exact List.Perm.refl _

theorem Owns.alloc (ho : Owns h₀ h bs) : Owns h₀ h.alloc.2 (h.alloc.1.toList ++ bs) :=
  ho.trans (owns_alloc h)

theorem Owns.free {a : Nat} (ho : Owns h₀ h (a :: bs)) : Owns h₀ (h.free a) bs := by
  have hall := List.Perm.erase a ho
  rwa [List.cons_append, List.erase_cons_head] at hall

/-- A block that is owned and not given back is a leak. -/
theorem Owns.leak (ho : Owns h₀ h bs) (hbs : bs ≠ []) : ¬ Owns h₀ h [] := by
  intro hnil
  have hlen := (List.Perm.trans (List.Perm.symm ho) hnil).length_eq
  have hpos := List.length_pos_of_ne_nil hbs
  rw [List.length_append, List.nil_append] at hlen
  omega

/-- The blocks `bs` are in use, each as often as it is listed. -/
def Covers (h : Heap) (bs : List Nat) : Prop := bs <+~ h.live

theorem covers_nil (h : Heap) : Covers h [] := List.nil_subperm

theorem Covers.perm (hc : Covers h bs) (hp : bs ~ cs) : Covers h cs := hp.symm.subperm.trans hc

theorem Covers.owns (hc : Covers h bs) (ho : Owns h h' cs) : Covers h' (cs ++ bs) := by
  have hall : cs ++ bs <+~ cs ++ h.live := (List.Subperm.refl cs).append hc
  exact hall.trans (List.Perm.symm ho).subperm

theorem Covers.drop (hc : Covers h (cs ++ bs)) : Covers h bs :=
  (List.sublist_append_right cs bs).subperm.trans hc

theorem Covers.free {a : Nat} (hc : Covers h (a :: bs)) : Covers (h.free a) bs := by
  have hall := List.Subperm.erase a hc
  rwa [List.erase_cons_head] at hall

/-- A new block is none of those in use. -/
theorem notMem_of_alloc {a : Nat} (ha : h.alloc = (some a, h')) : a ∉ h.live := by
  unfold Heap.alloc at ha
  split at ha
  · cases ha
  · split at ha
    · cases ha
    · next hnew =>
      cases ha
      exact hnew

theorem Owns.notMem {a : Nat} (ho : Owns h₀ h bs) (ha : a ∉ h.live) : a ∉ h₀.live :=
  fun hmem => ha (ho.symm.subset (List.mem_append_right bs hmem))

/-- The allocator always offers a block that has not been used yet. -/
structure Ample (h : Heap) : Prop where
  pick : h.pick = some
  fresh : ∀ a ∈ h.live, a < h.calls

theorem ample_new : Ample ⟨[], 0, some⟩ := ⟨rfl, List.forall_mem_nil _⟩

theorem Ample.alloc (ha : h.Ample) : ∃ a h', h.alloc = (some a, h') ∧ h'.Ample := by
  have hnew : h.calls ∉ h.live := fun hmem => Nat.lt_irrefl _ (ha.fresh _ hmem)
  refine ⟨h.calls, { h with calls := h.calls + 1, live := h.calls :: h.live }, ?_, ha.pick, ?_⟩
  · simp [Heap.alloc, ha.pick, hnew]
  · intro a hmem
    rcases List.mem_cons.mp hmem with rfl | hold
    · exact Nat.lt_succ_self _
    · exact Nat.lt_succ_of_lt (ha.fresh a hold)

theorem Ample.free (ha : h.Ample) (a : Nat) : (h.free a).Ample :=
  ⟨ha.pick, fun b hb => ha.fresh b (List.mem_of_mem_erase hb)⟩

end Heap

end Anfs.Lib
