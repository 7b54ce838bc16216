import Anfs.Cache.Hash

/-!
# Entries and values are accounted for

The counter of a table is the number of its entries, a free entry has no value, and a value
that was accepted is held, or was freed, or was handed back.
-/
namespace Anfs.Cache
open Anfs.Lib
open scoped List

section Table
variable {K V : Type}

@[simp] theorem values_nil : values ([] : List (FTHashEntry K V)) = [] := rfl

@[simp] theorem values_append (es fs : List (FTHashEntry K V)) :
    values (es ++ fs) = values es ++ values fs := List.filterMap_append

@[simp] theorem values_cons (e : FTHashEntry K V) (es : List (FTHashEntry K V)) :
    values (e :: es) = e.val.toList ++ values es := by
  cases h : e.val <;> simp [values, h]

theorem values_perm {es fs : List (FTHashEntry K V)} (h : es ~ fs) : values es ~ values fs :=
  h.filterMap _

theorem values_of_unvalued {es : List (FTHashEntry K V)} (h : ∀ e ∈ es, e.val = none) :
    values es = [] := List.filterMap_eq_nil_iff.mpr h

theorem unvalued_map_freeVal (es : List (FTHashEntry K V)) :
    ∀ e ∈ es.map FTHashEntry.freeVal, e.val = none := by
  simp [FTHashEntry.freeVal]

namespace FTHashTable

/-- The values on the chains and on the locked list. -/
def held (t : FTHashTable K V) : List V := values (t.entries.all ++ t.lockedEntries)

/-- The entries on the chains, the free list and the locked list. -/
def places (t : FTHashTable K V) : Nat :=
  t.entries.all.length + t.freeEntries.length + t.lockedEntries.length

/-- The counter is exact, and free entries have no value. -/
structure Counted (t : FTHashTable K V) : Prop where
  counted : t.numEntries = t.places
  addressed : t.numEntries * sizeofEntry ≤ 4294967296
  unvalued : ∀ e ∈ t.freeEntries, e.val = none

/-- The counter is exact and within its limit. -/
structure Sound (t : FTHashTable K V) : Prop extends Counted t where
  limited : t.numEntries ≤ t.maxEntries.toNat + 10

/-- The state behind `fthash_UnLockAll`. -/
structure Settled (t : FTHashTable K V) : Prop where
  limited : t.numEntries ≤ t.maxEntries.toNat
  unlocked : t.lockedEntries = []
  lockCnt : t.lockCnt = 0

/-- A step to `t'` that takes the values `added` in and gives the values `out` away. -/
structure Moved (t t' : FTHashTable K V) (added out : List V) : Prop where
  sound : t'.Sound
  held : added ++ t.held ~ out ++ t'.held

/-- A step that only moves entries between the lists. -/
theorem Sound.moved {t t' : FTHashTable K V} {added out : List V} (h : t.Sound)
    (hnum : t'.numEntries = t.numEntries) (hmax : t'.maxEntries = t.maxEntries)
    (hplaces : t'.places = t.places) (hfree : ∀ e ∈ t'.freeEntries, e.val = none)
    (hheld : added ++ t.held ~ out ++ t'.held) : Moved t t' added out where
  sound := {
    counted := by rw [hnum, hplaces, h.counted]
    limited := by rw [hnum, hmax]; exact h.limited
    addressed := by rw [hnum]; exact h.addressed
    unvalued := hfree }
  held := hheld

/-- A step that leaves the lists and the counter alone. -/
theorem Sound.moved_rfl {t t' : FTHashTable K V} (h : t.Sound)
    (hentries : t'.entries = t.entries) (hfree : t'.freeEntries = t.freeEntries)
    (hlocked : t'.lockedEntries = t.lockedEntries) (hnum : t'.numEntries = t.numEntries)
    (hmax : t.maxEntries ≤ t'.maxEntries) : Moved t t' [] [] where
  sound := {
    counted := by rw [hnum, h.counted, places, places, hentries, hfree, hlocked]
    limited := by
      have := h.limited
      have hle : t.maxEntries.toNat ≤ t'.maxEntries.toNat := hmax
      omega
    addressed := by rw [hnum]; exact h.addressed
    unvalued := by rw [hfree]; exact h.unvalued }
  held := by rw [FTHashTable.held, FTHashTable.held, hentries, hlocked]

theorem Sound.moved_self {t : FTHashTable K V} (h : t.Sound) : Moved t t [] [] :=
  h.moved_rfl rfl rfl rfl rfl (UInt32.le_refl _)

/-- The state between the choice of a free entry and its use: one entry is in no list. -/
structure Taken (t t' : FTHashTable K V) : Prop where
  entries : t'.entries = t.entries
  lockedEntries : t'.lockedEntries = t.lockedEntries
  maxEntries : t'.maxEntries = t.maxEntries
  counted : t'.numEntries = t'.places + 1
  limited : t'.numEntries ≤ t.maxEntries.toNat + 10
  addressed : t'.numEntries * sizeofEntry ≤ 4294967296
  unvalued : ∀ e ∈ t'.freeEntries, e.val = none

theorem getFreeEnt_spec {t t' : FTHashTable K V} (h : t.Sound) {memOk : Bool}
    (hget : t.getFreeEnt memOk = some t') : Taken t t' := by
  have hcounted := h.counted
  unfold getFreeEnt at hget
  cases hfree : t.freeEntries with
  | cons e es =>
      rw [hfree] at hget
      obtain rfl := Option.some.inj hget
      have hunvalued := h.unvalued
      simp only [hfree, places, List.length_cons] at hcounted hunvalued
      exact {
        entries := rfl, lockedEntries := rfl, maxEntries := rfl
        counted := by simp only [places]; omega
        limited := h.limited, addressed := h.addressed
        unvalued := fun e he => hunvalued e (List.mem_cons_of_mem _ he) }
  | nil =>
      rw [hfree] at hget
      dsimp only at hget
      split_ifs at hget with hfull hmem
      obtain rfl := Option.some.inj hget
      have hroom : (t.maxEntries + 10).toNat ≤ t.maxEntries.toNat + 10 := by
        rw [UInt32.toNat_add]
        exact Nat.mod_le ..
      have hsize : (sizeofEntry : Int) ≤ (sizeofEntry + t.keySize.toNat : Nat) := by omega
      have hfits : (t.numEntries + 1) * sizeofEntry ≤
          (t.numEntries + 1) * (sizeofEntry + t.keySize.toNat : Nat) :=
        Int.mul_le_mul_of_nonneg_left hsize (by omega)
      exact {
        entries := rfl, lockedEntries := rfl, maxEntries := rfl
        counted := by
          simp only [places, hfree, List.length_nil] at hcounted ⊢
          omega
        limited := by simp only; omega
        addressed := Int.le_trans hfits hmem.2
        unvalued := List.forall_mem_nil _ }

section Keys
variable {hash : K → Nat} {same : K → K → Bool}

theorem fthashHash_lt (t : FTHashTable K V) (k : K) : t.fthashHash hash k < t.entries.size :=
  Nat.mod_lt _ t.entries.size_pos

@[simp] theorem freeEntries_remove (t : FTHashTable K V) (k : K) :
    (t.remove hash same k).freeEntries = t.freeEntries := rfl

@[simp] theorem lockedEntries_remove (t : FTHashTable K V) (k : K) :
    (t.remove hash same k).lockedEntries = t.lockedEntries := rfl

@[simp] theorem freeEntries_addHead (t : FTHashTable K V) (k : K) (e : FTHashEntry K V) :
    (t.addHead hash k e).freeEntries = t.freeEntries := rfl

@[simp] theorem lockedEntries_addHead (t : FTHashTable K V) (k : K) (e : FTHashEntry K V) :
    (t.addHead hash k e).lockedEntries = t.lockedEntries := rfl

/-- The entry met leaves its chain. -/
theorem all_perm_remove {t : FTHashTable K V} {k : K} {ent : FTHashEntry K V}
    (h : t.met hash same k = some ent) :
    t.entries.all ~ ent :: (t.remove hash same k).entries.all :=
  @Buckets.all_perm_put _ _ _ (t.fthashHash_lt k) [ent] _ (find?_perm_eraseP h)

theorem all_addHead_perm (hash : K → Nat) (t : FTHashTable K V) (k : K) (e : FTHashEntry K V) :
    (t.addHead hash k e).entries.all ~ e :: t.entries.all :=
  @Buckets.all_put_perm _ _ _ (t.fthashHash_lt k) [e] _ (List.Perm.refl _)

theorem length_all_remove {t : FTHashTable K V} {k : K} {ent : FTHashEntry K V}
    (h : t.met hash same k = some ent) :
    t.entries.all.length = (t.remove hash same k).entries.all.length + 1 :=
  (all_perm_remove h).length_eq

theorem held_perm_remove {t : FTHashTable K V} {k : K} {ent : FTHashEntry K V}
    (h : t.met hash same k = some ent) :
    t.held ~ ent.val.toList ++ (values (t.remove hash same k).entries.all ++
      values t.lockedEntries) := by
  have hvals := (values_perm (all_perm_remove h)).append_right (values t.lockedEntries)
  rwa [values_cons, ← values_append, List.append_assoc] at hvals

theorem fthashLookup2_moved {t : FTHashTable K V} (h : t.Sound) (k : K) (now : UInt32) :
    Moved t (t.fthashLookup2 hash same k now).1 [] (t.fthashLookup2 hash same k now).2.1 := by
  unfold fthashLookup2
  cases hmet : t.met hash same k with
  | none => exact h.moved_self
  | some ent =>
      have hlen := length_all_remove hmet
      have hheld := held_perm_remove hmet
      dsimp only
      split_ifs
      · refine h.moved rfl rfl ?_ h.unvalued ?_
        · simp only [places, List.length_cons, freeEntries_remove]
          omega
        · refine hheld.trans ?_
          simp only [held, values_append, values_cons, List.nil_append]
          exact List.perm_append_comm_assoc ..
      · refine h.moved rfl rfl ?_ ?_ ?_
        · simp only [places, List.length_cons, lockedEntries_remove]
          omega
        · exact List.forall_mem_cons.mpr ⟨rfl, h.unvalued⟩
        · simpa only [held, values_append, List.nil_append, lockedEntries_remove] using hheld
      · have hall := (all_addHead_perm hash (t.remove hash same k) k ent).trans
          (all_perm_remove hmet).symm
        refine h.moved rfl rfl ?_ h.unvalued ?_
        · simp only [places, hall.length_eq, freeEntries_addHead, freeEntries_remove,
            lockedEntries_addHead, lockedEntries_remove]
        · simp only [held, values_append, List.nil_append]
          exact (values_perm hall).symm.append_right _

theorem fthashRemove3_moved {t : FTHashTable K V} (h : t.Sound) (k : K) (flags : RemFlags) :
    Moved t (t.fthashRemove3 hash same k flags).1 []
      ((t.fthashRemove3 hash same k flags).2.1 ++
        (t.fthashRemove3 hash same k flags).2.2.toList) := by
  unfold fthashRemove3
  cases hmet : t.met hash same k with
  | none => exact h.moved_self
  | some ent =>
      have hlen := length_all_remove hmet
      have hheld := held_perm_remove hmet
      cases flags with
      | move =>
          refine h.moved rfl rfl ?_ h.unvalued ?_
          · simp only [places, List.length_append, List.length_singleton, freeEntries_remove]
            omega
          · refine hheld.trans ?_
            simp only [held, values_append, values_cons, values_nil, List.append_nil,
              List.nil_append, Option.toList_none]
            exact List.perm_append_comm.trans (by simp)
      | freeVal =>
          refine h.moved rfl rfl ?_ ?_ ?_
          · simp only [places, List.length_append, List.length_singleton, lockedEntries_remove]
            omega
          · exact List.forall_mem_append.mpr ⟨h.unvalued, by simp⟩
          · simpa only [held, values_append, List.nil_append, List.append_nil, Option.toList_none,
              lockedEntries_remove] using hheld
      | none =>
          refine h.moved rfl rfl ?_ ?_ ?_
          · simp only [places, List.length_append, List.length_singleton, lockedEntries_remove]
            omega
          · exact List.forall_mem_append.mpr ⟨h.unvalued, by simp⟩
          · simpa only [held, values_append, List.nil_append, lockedEntries_remove] using hheld

/-- Only `fthash_Remove2` asks for the value. -/
theorem fthashRemove3_handed (t : FTHashTable K V) (k : K) {flags : RemFlags}
    (hflags : flags ≠ .none) :
    (t.fthashRemove3 hash same k flags).2.2 = none := by
  unfold fthashRemove3
  cases t.met hash same k with
  | none => rfl
  | some ent =>
      cases flags with
      | move => rfl
      | freeVal => rfl
      | none => exact absurd rfl hflags

theorem fthashRemove_moved {t : FTHashTable K V} (h : t.Sound) (k : K) :
    Moved t (t.fthashRemove hash same k).1 [] (t.fthashRemove hash same k).2 := by
  have hmoved := @fthashRemove3_moved K V hash same t h k .freeVal
  have hflags : RemFlags.freeVal ≠ .none := nofun
  rwa [fthashRemove3_handed t k hflags, Option.toList_none, List.append_nil] at hmoved

theorem fthashMarkRemoved_moved {t : FTHashTable K V} (h : t.Sound) (k : K) :
    Moved t (t.fthashMarkRemoved hash same k).1 [] (t.fthashMarkRemoved hash same k).2 := by
  have hmoved := @fthashRemove3_moved K V hash same t h k .move
  have hflags : RemFlags.move ≠ .none := nofun
  rwa [fthashRemove3_handed t k hflags, Option.toList_none, List.append_nil] at hmoved

theorem fthashInsert_moved {t : FTHashTable K V} (h : t.Sound) (k : K) (v : Option V)
    (memOk : Bool) (now : UInt32) :
    Moved t (t.fthashInsert hash k v memOk now).1
      (if (t.fthashInsert hash k v memOk now).2 then v.toList else []) [] := by
  unfold fthashInsert
  cases hget : t.getFreeEnt memOk with
  | none => exact h.moved_self
  | some t₁ =>
      have htaken := getFreeEnt_spec h hget
      have hadd := all_addHead_perm hash t₁ k { key := k, birth := now, val := v }
      have hlen := hadd.length_eq
      have hvals := values_perm hadd
      rw [List.length_cons] at hlen
      rw [values_cons, htaken.entries] at hvals
      constructor
      · exact {
          counted := by
            have hcounted := htaken.counted
            simp only [places, freeEntries_addHead, lockedEntries_addHead] at hcounted ⊢
            change t₁.numEntries = _
            omega
          limited := by
            change t₁.numEntries ≤ (t₁.maxEntries.toNat : Int) + 10
            rw [htaken.maxEntries]
            exact htaken.limited
          addressed := htaken.addressed
          unvalued := htaken.unvalued }
      · simp only [held, values_append, List.nil_append, lockedEntries_addHead,
          htaken.lockedEntries, if_true]
        rw [← List.append_assoc]
        exact hvals.symm.append_right _

end Keys

/-- Free entries go from the head of the list, until the limit is met or none is left. -/
theorem trimFree_spec (maxEntries : UInt32) (num : Int) (es : List (FTHashEntry K V)) :
    ∃ gone, es = gone ++ (trimFree maxEntries num es).2.1 ∧
      (trimFree maxEntries num es).1 = num - gone.length ∧
      (trimFree maxEntries num es).2.2 = values gone ∧
      ((maxEntries.toNat : Int) < (trimFree maxEntries num es).1 →
        (trimFree maxEntries num es).2.1 = []) := by
  induction es generalizing num with
  | nil => exact ⟨[], by simp [trimFree]⟩
  | cons e es ih =>
      by_cases hmany : (maxEntries.toNat : Int) < num
      · obtain ⟨gone, hes, hnum, hvals, hrest⟩ := ih (num - 1)
        refine ⟨e :: gone, ?_, ?_, ?_, ?_⟩
        · rw [trimFree, if_pos hmany, List.cons_append, ← hes]
        · rw [trimFree, if_pos hmany, List.length_cons]
          simp only [hnum]
          omega
        · rw [trimFree, if_pos hmany, values_cons, ← hvals]
        · rw [trimFree, if_pos hmany]
          exact hrest
      · refine ⟨[], ?_, ?_, ?_, ?_⟩ <;> rw [trimFree, if_neg hmany]
        · rfl
        · simp
        · rfl
        · exact fun h => absurd h hmany

/-- `fthash_UnLockAll` ends, and leaves the table settled. -/
theorem fthashUnLockAll_spec {t : FTHashTable K V} (h : t.Counted) (now : UInt32) :
    ∃ t' out, t.fthashUnLockAll now = some (t', out) ∧ Moved t t' [] out ∧ t'.Settled := by
  have hcounted := h.counted
  have haddressed := h.addressed
  have hfthl : ∀ e ∈ t.freeEntries ++ t.lockedEntries.map FTHashEntry.freeVal, e.val = none :=
    List.forall_mem_append.mpr ⟨h.unvalued, unvalued_map_freeVal _⟩
  obtain ⟨gone, hsplit, hnum, hvals, hrest⟩ :=
    trimFree_spec t.maxEntries t.numEntries
      (t.freeEntries ++ t.lockedEntries.map FTHashEntry.freeVal)
  unfold fthashUnLockAll
  dsimp only
  generalize trimFree t.maxEntries t.numEntries
    (t.freeEntries ++ t.lockedEntries.map FTHashEntry.freeVal) = r at *
  rw [hsplit, List.forall_mem_append] at hfthl
  obtain ⟨hgone, hfree⟩ := hfthl
  rw [values_of_unvalued hgone] at hvals
  have hlen := congrArg List.length hsplit
  simp only [List.length_append, List.length_map] at hlen
  have hleft : r.1 = t.entries.all.length + r.2.1.length := by
    simp only [places] at hcounted
    omega
  split_ifs with hmany
  · have hnil := hrest hmany
    rw [hnil, List.length_nil] at hleft
    have hi : long (r.1 - t.maxEntries.toNat) = r.1 - t.maxEntries.toNat :=
      long_of_isLong (by simp only [IsLong, sizeofEntry] at haddressed ⊢; omega)
    obtain ⟨out, b, hevict, hperm, hout, -⟩ :=
      Buckets.evict_spec (b := t.entries) (i := now.toNat % t.entries.size)
        (le_refl (long (r.1 - t.maxEntries.toNat)).toNat) (by omega)
        (Nat.mod_lt _ t.entries.size_pos)
    have hall := hperm.length_eq
    rw [List.length_append] at hall
    refine ⟨_, _, by rw [hevict]; rfl, ⟨?_, ?_⟩, ?_⟩
    · exact {
        counted := by
          simp only [places, hnil, List.length_nil]
          omega
        limited := by simp only; omega
        addressed := by simp only [sizeofEntry] at haddressed ⊢; omega
        unvalued := hfree }
    · have hvalsAll := values_perm hperm
      simp only [held, hvals, values_append, List.append_nil, List.nil_append] at hvalsAll ⊢
      rw [List.append_assoc]
      exact List.perm_append_comm.trans (hvalsAll.append_left _)
    · exact { limited := Int.le_refl _, unlocked := rfl, lockCnt := rfl }
  · refine ⟨_, _, rfl, ⟨?_, ?_⟩, ?_⟩
    · exact {
        counted := by
          simp only [places, List.length_nil]
          omega
        limited := by simp only; omega
        addressed := by simp only [sizeofEntry] at haddressed ⊢; omega
        unvalued := hfree }
    · simp only [held, hvals, values_append, List.append_nil, List.nil_append]
      exact List.perm_append_comm
    · exact { limited := Int.not_lt.mp hmany, unlocked := rfl, lockCnt := rfl }

theorem fthashFlush_moved {t : FTHashTable K V} (h : t.Sound) :
    Moved t t.fthashFlush.1 [] t.fthashFlush.2 := by
  have hcounted := h.counted
  have hlimited := h.limited
  have haddressed := h.addressed
  constructor
  · exact {
      counted := by
        simp only [fthashFlush, places, List.length_nil] at hcounted ⊢
        omega
      limited := by
        simp only [fthashFlush]
        omega
      addressed := by
        simp only [fthashFlush, sizeofEntry] at haddressed ⊢
        omega
      unvalued := List.forall_mem_nil _ }
  · simp only [fthashFlush, held, values_of_unvalued h.unvalued, List.nil_append]
    exact List.Perm.refl _

theorem fthashBury_moved {t : FTHashTable K V} (h : t.Sound) (now : UInt32) :
    Moved t (t.fthashBury now).1 [] (t.fthashBury now).2 := by
  unfold fthashBury
  split
  · exact h.moved_self
  · have hperm : t.entries.all ~ t.entries.all.filter (t.isDead now) ++
        (t.entries.keep fun e => !t.isDead now e).all := by
      rw [Buckets.all_keep]
      exact (List.filter_append_perm _ _).symm
    have hlen := hperm.length_eq
    rw [List.length_append] at hlen
    refine h.moved rfl rfl ?_ ?_ ?_
    · simp only [places, List.length_append, List.length_map]
      omega
    · exact List.forall_mem_append.mpr ⟨h.unvalued, unvalued_map_freeVal _⟩
    · have hvals := values_perm hperm
      simp only [held, values_append, List.nil_append] at hvals ⊢
      rw [← List.append_assoc]
      exact hvals.append_right _

theorem fthashSetMaxEntries_spec {t : FTHashTable K V} (h : t.Sound) (n now : UInt32) :
    ∃ t' out, t.fthashSetMaxEntries n now = some (t', out) ∧ Moved t t' [] out := by
  unfold fthashSetMaxEntries
  split_ifs with hraise
  · exact ⟨_, _, rfl, h.moved_rfl rfl rfl rfl rfl hraise⟩
  · have hcounted : Counted { t with maxEntries := n } := {
      counted := h.counted, addressed := h.addressed, unvalued := h.unvalued }
    obtain ⟨t', out, hrun, hmoved, -⟩ := fthashUnLockAll_spec hcounted now
    exact ⟨t', out, hrun, hmoved.sound, hmoved.held⟩

theorem fthashDelete_perm {t : FTHashTable K V} (h : t.Counted) : t.held ~ t.fthashDelete := by
  simp only [fthashDelete, held, values_append, values_of_unvalued h.unvalued, List.nil_append]
  exact List.perm_append_comm

end FTHashTable

end Table

end Anfs.Cache
