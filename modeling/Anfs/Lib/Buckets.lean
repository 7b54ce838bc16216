import Mathlib.Data.List.GetD
import Mathlib.Data.List.Perm.Basic

/-!
# Buckets

The chains of a hash table, at least one. What an operation takes out of a chain or puts into
it is told by a permutation of the items of all chains.
-/
namespace Anfs.Lib
open scoped List

/-- The chains of a table; there is at least one. -/
structure Buckets (α : Type*) where
  chains : List (List α)
  pos : 0 < chains.length

namespace Buckets
variable {α : Type*}

/-- `n` empty chains. -/
def empty (n : Nat) (h : 0 < n) : Buckets α := ⟨List.replicate n [], by simpa using h⟩

def size (b : Buckets α) : Nat := b.chains.length

def chain (b : Buckets α) (i : Nat) : List α := b.chains.getD i []

/-- Chain `i` becomes `c`. -/
def put (b : Buckets α) (i : Nat) (c : List α) : Buckets α :=
  ⟨b.chains.set i c, by simpa using b.pos⟩

/-- The items of all chains. -/
def all (b : Buckets α) : List α := b.chains.flatten

/-- The items that meet `p` stay. -/
def keep (b : Buckets α) (p : α → Bool) : Buckets α :=
  ⟨b.chains.map (List.filter p), by simpa using b.pos⟩

theorem size_pos (b : Buckets α) : 0 < b.size := b.pos

@[simp] theorem size_put (b : Buckets α) (i : Nat) (c : List α) : (b.put i c).size = b.size := by
  simp [size, put]

@[simp] theorem size_keep (b : Buckets α) (p : α → Bool) : (b.keep p).size = b.size := by
  simp [size, keep]

@[simp] theorem all_empty (n : Nat) (h : 0 < n) : (empty n h : Buckets α).all = [] := by
  simp [all, empty]

@[simp] theorem all_keep (b : Buckets α) (p : α → Bool) : (b.keep p).all = b.all.filter p := by
  simp [all, keep, List.filter_flatten]

theorem chain_of_lt {b : Buckets α} {i : Nat} (hi : i < b.chains.length) :
    b.chain i = b.chains.get ⟨i, hi⟩ := List.getD_eq_getElem _ _ hi

theorem chain_put_self {b : Buckets α} {i : Nat} (hi : i < b.size) (c : List α) :
    (b.put i c).chain i = c := by
  have hput : i < (b.put i c).chains.length := lt_of_lt_of_eq hi (size_put b i c).symm
  rw [chain_of_lt hput]
  simp [put]

theorem chain_put_of_ne (b : Buckets α) {i j : Nat} (hij : i ≠ j) (c : List α) :
    (b.put i c).chain j = b.chain j := by
  simp [chain, put, List.getD_eq_getElem?_getD, List.getElem?_set_ne hij]

theorem put_put (b : Buckets α) (i : Nat) (c c' : List α) : (b.put i c).put i c' = b.put i c' := by
  simp [put]

/-- The items of chain `i`, and those of the others. -/
theorem all_perm_chain {b : Buckets α} {i : Nat} (hi : i < b.size) :
    ∃ others, b.all.Perm (b.chain i ++ others) ∧
      ∀ c, (b.put i c).all.Perm (c ++ others) := by
  refine ⟨(b.chains.take i).flatten ++ (b.chains.drop (i + 1)).flatten, ?_, fun c => ?_⟩
  · have hsplit : b.chains = b.chains.take i ++ b.chain i :: b.chains.drop (i + 1) := by
      rw [chain_of_lt hi, List.get_eq_getElem, List.getElem_cons_drop, List.take_append_drop]
    have hall : b.all = (b.chains.take i).flatten ++
        (b.chain i ++ (b.chains.drop (i + 1)).flatten) := by
      conv_lhs => rw [all, hsplit]
      simp
    rw [hall]
    exact List.perm_append_comm_assoc ..
  · have hset : (b.put i c).all = (b.chains.take i).flatten ++
        (c ++ (b.chains.drop (i + 1)).flatten) := by
      have hi' : i < b.chains.length := hi
      simp [all, put, List.set_eq_take_append_cons_drop, hi']
    rw [hset]
    exact List.perm_append_comm_assoc ..

/-- What a chain loses is what the table loses. -/
theorem all_perm_put {b : Buckets α} {i : Nat} (hi : i < b.size) {out c : List α}
    (hc : (b.chain i).Perm (out ++ c)) : b.all.Perm (out ++ (b.put i c).all) := by
  obtain ⟨others, hall, hput⟩ := all_perm_chain hi
  calc b.all
    _ ~ b.chain i ++ others := hall
    _ ~ out ++ c ++ others := hc.append_right others
    _ = out ++ (c ++ others) := List.append_assoc ..
    _ ~ out ++ (b.put i c).all := (hput c).symm.append_left out

/-- What a chain gains is what the table gains. -/
theorem all_put_perm {b : Buckets α} {i : Nat} (hi : i < b.size) {add c : List α}
    (hc : c.Perm (add ++ b.chain i)) : (b.put i c).all.Perm (add ++ b.all) := by
  obtain ⟨others, hall, hput⟩ := all_perm_chain hi
  calc (b.put i c).all
    _ ~ c ++ others := hput c
    _ ~ add ++ b.chain i ++ others := hc.append_right others
    _ = add ++ (b.chain i ++ others) := List.append_assoc ..
    _ ~ add ++ b.all := hall.symm.append_left add

theorem mem_all_of_mem_chain {b : Buckets α} {i : Nat} {a : α} (h : a ∈ b.chain i) :
    a ∈ b.all := by
  by_cases hi : i < b.size
  · rw [chain_of_lt hi] at h
    exact List.mem_flatten.mpr ⟨_, List.getElem_mem _, h⟩
  · rw [chain, List.getD_eq_default _ _ (Nat.not_lt.mp hi)] at h
    exact absurd h (List.not_mem_nil)

theorem exists_chain_of_mem_all {b : Buckets α} {a : α} (h : a ∈ b.all) :
    ∃ i < b.size, a ∈ b.chain i := by
  obtain ⟨c, hc, ha⟩ := List.mem_flatten.mp h
  obtain ⟨i, hi, rfl⟩ := List.mem_iff_getElem.mp hc
  exact ⟨i, hi, by rwa [chain_of_lt hi]⟩

/-- The first chain that holds an item, from chain `i` on and around; `fuel` chains are looked
at. -/
def nextFull (b : Buckets α) : Nat → Nat → Option Nat
  | 0, _ => none
  | fuel + 1, i =>
      if (b.chain i).isEmpty then nextFull b fuel (if i + 1 = b.size then 0 else i + 1) else some i

theorem nextFull_some {b : Buckets α} {fuel i j : Nat} (hi : i < b.size)
    (h : b.nextFull fuel i = some j) : j < b.size ∧ b.chain j ≠ [] := by
  induction fuel generalizing i with
  | zero => exact absurd h (by simp [nextFull])
  | succ fuel ih =>
      rw [nextFull] at h
      split at h
      · refine ih ?_ h
        have := b.size_pos
        split <;> omega
      · rename_i hfull
        obtain rfl : i = j := Option.some.inj h
        exact ⟨hi, fun hnil => hfull (by simp [hnil])⟩

/-- A search that ends without result met only empty chains. -/
theorem nextFull_none {b : Buckets α} {fuel i : Nat} (hi : i < b.size)
    (h : b.nextFull fuel i = none) : ∀ k < fuel, b.chain ((i + k) % b.size) = [] := by
  induction fuel generalizing i with
  | zero => exact fun k hk => absurd hk (Nat.not_lt_zero k)
  | succ fuel ih =>
      rw [nextFull] at h
      split at h
      · rename_i hnil
        have hpos := b.size_pos
        intro k hk
        cases k with
        | zero => simpa [Nat.mod_eq_of_lt hi] using hnil
        | succ k =>
            have hnext := ih (by split <;> omega) h k (by omega)
            have hmod : (i + (k + 1)) % b.size =
                ((if i + 1 = b.size then 0 else i + 1) + k) % b.size := by
              split
              · rename_i hlast
                rw [show i + (k + 1) = k + b.size by omega, Nat.add_mod_right, Nat.zero_add]
              · rw [show i + (k + 1) = i + 1 + k by omega]
            rw [hmod, hnext]
      · exact absurd h (by simp)

/-- One round over the chains finds an item where there is one. -/
theorem exists_nextFull {b : Buckets α} (hall : b.all ≠ []) {i : Nat} (hi : i < b.size) :
    ∃ j, b.nextFull b.size i = some j := by
  obtain ⟨a, ha⟩ := List.exists_mem_of_ne_nil _ hall
  obtain ⟨m, hm, ham⟩ := exists_chain_of_mem_all ha
  cases hnext : b.nextFull b.size i with
  | some j => exact ⟨j, rfl⟩
  | none =>
      have hround := nextFull_none hi hnext ((m + b.size - i) % b.size) (Nat.mod_lt _ b.size_pos)
      have hmod : (i + (m + b.size - i) % b.size) % b.size = m := by
        rw [Nat.add_mod_mod, show i + (m + b.size - i) = m + b.size by omega, Nat.add_mod_right,
          Nat.mod_eq_of_lt hm]
      rw [hmod] at hround
      exact absurd (hround ▸ ham) (List.not_mem_nil)

/-- Takes at most `n` items from the end of a chain: what was taken, and what is left. -/
def remTail : Nat → List α → List α × List α
  | 0, c => ([], c)
  | n + 1, c =>
      match c.getLast? with
      | none => ([], c)
      | some a => let r := remTail n c.dropLast; (a :: r.1, r.2)

theorem remTail_spec (n : Nat) (c : List α) :
    c.Perm ((remTail n c).1 ++ (remTail n c).2) ∧ (remTail n c).1.length = min n c.length := by
  induction n generalizing c with
  | zero => simp [remTail]
  | succ n ih =>
      rw [remTail]
      cases hlast : c.getLast? with
      | none =>
          obtain rfl : c = [] := by simpa using hlast
          simp
      | some a =>
          have hc : c.dropLast ++ [a] = c := List.dropLast_append_getLast? a hlast
          obtain ⟨hperm, hlen⟩ := ih c.dropLast
          have hlong : c.length = c.dropLast.length + 1 := by
            conv_lhs => rw [← hc, List.length_append, List.length_singleton]
          constructor
          · calc c
              _ = c.dropLast ++ [a] := hc.symm
              _ ~ a :: c.dropLast := List.perm_append_singleton ..
              _ ~ _ := hperm.cons a
          · show ((remTail n c.dropLast).1.length + 1) = _
            omega

/-- Takes `n` items out of the table, chain by chain from chain `i` on and around, each chain
from its end; `fuel` bounds the rounds. -/
def evict : Nat → Nat → Nat → Buckets α → Option (List α × Buckets α)
  | _, 0, _, b => some ([], b)
  | 0, _ + 1, _, _ => none
  | fuel + 1, n + 1, i, b =>
      (b.nextFull b.size i).bind fun j =>
        let r := remTail (n + 1) (b.chain j)
        (evict fuel (n + 1 - r.1.length) j (b.put j r.2)).map fun rest => (r.1 ++ rest.1, rest.2)

/-- The eviction ends, and takes `n` items. -/
theorem evict_spec {fuel n i : Nat} {b : Buckets α} (hfuel : n ≤ fuel) (hn : n ≤ b.all.length)
    (hi : i < b.size) :
    ∃ out b', evict fuel n i b = some (out, b') ∧ b.all.Perm (out ++ b'.all) ∧ out.length = n ∧
      b'.size = b.size := by
  induction fuel generalizing n i b with
  | zero =>
      obtain rfl : n = 0 := Nat.le_zero.mp hfuel
      exact ⟨[], b, by simp [evict], List.Perm.refl _, rfl, rfl⟩
  | succ fuel ih =>
      cases n with
      | zero => exact ⟨[], b, by simp [evict], List.Perm.refl _, rfl, rfl⟩
      | succ n =>
          have hne : b.all ≠ [] := List.ne_nil_of_length_pos (by omega)
          obtain ⟨j, hj⟩ := exists_nextFull hne hi
          obtain ⟨hjlt, hfull⟩ := nextFull_some hi hj
          obtain ⟨htake, hlen⟩ := remTail_spec (n + 1) (b.chain j)
          have hchain : 0 < (b.chain j).length := List.length_pos_iff.mpr hfull
          have hput := all_perm_put hjlt htake
          have hrest := hput.length_eq
          rw [List.length_append] at hrest
          obtain ⟨out, b', hrun, hperm, hout, hsize⟩ :=
            ih (n := n + 1 - (remTail (n + 1) (b.chain j)).1.length) (i := j)
              (b := b.put j (remTail (n + 1) (b.chain j)).2) (by omega) (by omega)
              (by simpa using hjlt)
          refine ⟨(remTail (n + 1) (b.chain j)).1 ++ out, b', ?_, ?_, ?_, ?_⟩
          · simp [evict, hj, hrun]
          · rw [List.append_assoc]
            exact hput.trans (hperm.append_left _)
          · rw [List.length_append, hout]
            omega
          · rw [hsize, size_put]

/-- `b'` has what is left of the chains of `b`, in any order. -/
structure Shrinks (b b' : Buckets α) : Prop where
  size : b'.size = b.size
  chain : ∀ i, b'.chain i ⊆ b.chain i
  all : ∃ out, b.all ~ out ++ b'.all

theorem Shrinks.refl (b : Buckets α) : Shrinks b b :=
  ⟨rfl, fun _ => List.Subset.refl _, [], List.Perm.refl _⟩

theorem Shrinks.trans {b b' b'' : Buckets α} (h : Shrinks b b')
    (h' : Shrinks b' b'') : Shrinks b b'' := by
  obtain ⟨out, hout⟩ := h.all
  obtain ⟨out', hout'⟩ := h'.all
  refine ⟨h'.size.trans h.size, fun i => List.Subset.trans (h'.chain i) (h.chain i), out ++ out',
    ?_⟩
  rw [List.append_assoc]
  exact hout.trans (hout'.append_left out)

theorem shrinks_put {b : Buckets α} {i : Nat} (hi : i < b.size) {out c : List α}
    (hc : (b.chain i).Perm (out ++ c)) : Shrinks b (b.put i c) := by
  refine ⟨size_put b i c, fun j => ?_, out, all_perm_put hi hc⟩
  by_cases hij : i = j
  · subst hij
    rw [chain_put_self hi]
    exact fun a ha => hc.mem_iff.mpr (List.mem_append_right out ha)
  · rw [chain_put_of_ne b hij]
    exact List.Subset.refl _

theorem chain_keep (b : Buckets α) (p : α → Bool) (i : Nat) :
    (b.keep p).chain i = (b.chain i).filter p := by
  by_cases hi : i < b.chains.length
  · have hi' : i < (b.keep p).chains.length := lt_of_lt_of_eq hi (size_keep b p).symm
    rw [chain_of_lt hi, chain_of_lt hi']
    simp [keep]
  · have hi' : ¬ i < (b.keep p).chains.length := fun h => hi (lt_of_lt_of_eq h (size_keep b p))
    rw [chain, chain, List.getD_eq_default _ _ (Nat.not_lt.mp hi),
      List.getD_eq_default _ _ (Nat.not_lt.mp hi')]
    rfl

theorem shrinks_keep (b : Buckets α) (p : α → Bool) : Shrinks b (b.keep p) := by
  refine ⟨size_keep b p, fun i => ?_, b.all.filter fun a => !p a, ?_⟩
  · rw [chain_keep]
    exact List.filter_subset_self _
  · rw [all_keep]
    exact (List.perm_append_comm.trans (List.filter_append_perm p b.all)).symm

theorem shrinks_evict {fuel n i : Nat} {b b' : Buckets α} {out : List α} (hi : i < b.size)
    (h : evict fuel n i b = some (out, b')) : Shrinks b b' := by
  induction fuel generalizing n i b out with
  | zero =>
      cases n with
      | zero =>
          obtain ⟨-, rfl⟩ := Prod.mk.inj (Option.some.inj h)
          exact Shrinks.refl b
      | succ n => exact absurd h (by simp [evict])
  | succ fuel ih =>
      cases n with
      | zero =>
          obtain ⟨-, rfl⟩ := Prod.mk.inj (Option.some.inj h)
          exact Shrinks.refl b
      | succ n =>
          obtain ⟨j, hj, hrest⟩ := Option.bind_eq_some_iff.mp h
          obtain ⟨⟨out', b₁⟩, hrun, hout⟩ := Option.map_eq_some_iff.mp hrest
          obtain ⟨-, rfl⟩ := Prod.mk.inj hout
          have hjlt := (nextFull_some hi hj).1
          have hput := shrinks_put hjlt (remTail_spec (n + 1) (b.chain j)).1
          exact hput.trans (ih (by simpa using hjlt) hrun)

end Buckets

theorem find?_perm_eraseP {α : Type*} {p : α → Bool} {a : α} {l : List α} (h : l.find? p = some a) :
    l.Perm (a :: l.eraseP p) := by
  induction l with
  | nil => exact absurd h (by simp)
  | cons b l ih =>
      by_cases hb : p b
      · rw [List.find?_cons_of_pos hb] at h
        obtain rfl : b = a := Option.some.inj h
        rw [List.eraseP_cons_of_pos hb]
      · rw [List.find?_cons_of_neg hb] at h
        rw [List.eraseP_cons_of_neg hb]
        exact ((ih h).cons b).trans (List.Perm.swap ..)

end Anfs.Lib
