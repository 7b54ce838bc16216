import Anfs.Cache.Owned

/-!
# One entry for a key

`fthash_Insert` does not test for duplicate keys. A caller that looks a key up first, and
inserts it only if there is no entry, keeps the keys of a table apart.
-/
namespace Anfs.Cache
open Anfs.Lib
open scoped List

section Keys
variable {K V : Type} {hash : K → Nat} {same : K → K → Bool}

namespace FTHashTable

/-- Each entry is on the chain of its key, and no two entries have one key. -/
structure Keyed (hash : K → Nat) (t : FTHashTable K V) : Prop where
  placed : ∀ i, ∀ e ∈ t.entries.chain i, hash e.key % t.entries.size = i
  unique : (t.entries.all.map FTHashEntry.key).Nodup

theorem Keyed.shrinks {t t' : FTHashTable K V} (h : t.Keyed hash)
    (hs : Buckets.Shrinks t.entries t'.entries) : t'.Keyed hash := by
  constructor
  · intro i e he
    rw [hs.size]
    exact h.placed i e (hs.chain i he)
  · obtain ⟨out, hall⟩ := hs.all
    have hkeys := (hall.map FTHashEntry.key).nodup_iff.mp h.unique
    rw [List.map_append] at hkeys
    exact (List.nodup_append.mp hkeys).2.1

theorem Keyed.congr {t t' : FTHashTable K V} (h : t.Keyed hash)
    (hentries : t'.entries = t.entries) :
    t'.Keyed hash := h.shrinks (hentries ▸ Buckets.Shrinks.refl _)

theorem mem_of_shrinks {t t' : FTHashTable K V} (hs : Buckets.Shrinks t.entries t'.entries)
    {e : FTHashEntry K V} (he : e ∈ t'.entries.all) : e ∈ t.entries.all := by
  obtain ⟨out, hall⟩ := hs.all
  exact hall.mem_iff.mpr (List.mem_append_right out he)

theorem met_some {t : FTHashTable K V} {k : K} {ent : FTHashEntry K V}
    (h : t.met hash same k = some ent) : ent ∈ t.entries.all ∧ same ent.key k = true := by
  unfold met at h
  have hsame := List.find?_some h
  exact ⟨Buckets.mem_all_of_mem_chain (List.mem_of_find?_eq_some h), hsame⟩

theorem met_none (hsame : ∀ a b, same a b = true ↔ a = b) {t : FTHashTable K V} (ht : t.Keyed hash)
    {k : K} (h : t.met hash same k = none) : ∀ e ∈ t.entries.all, e.key ≠ k := by
  intro e he hk
  obtain ⟨i, -, hchain⟩ := Buckets.exists_chain_of_mem_all he
  have hi := ht.placed i e hchain
  rw [hk] at hi
  have hnone := List.find?_eq_none.mp h e (by rwa [chainOf, fthashHash, hi])
  exact hnone ((hsame e.key k).mpr hk)

theorem remove_shrinks {t : FTHashTable K V} {k : K} {ent : FTHashEntry K V}
    (h : t.met hash same k = some ent) :
    Buckets.Shrinks t.entries (t.remove hash same k).entries :=
  @Buckets.shrinks_put _ _ _ (Nat.mod_lt _ t.entries.size_pos) [ent] _ (find?_perm_eraseP h)

/-- The entry that was removed had its key for itself. -/
theorem remove_keys (hsame : ∀ a b, same a b = true ↔ a = b) {t : FTHashTable K V}
    (ht : t.Keyed hash) {k : K} {ent : FTHashEntry K V} (h : t.met hash same k = some ent) :
    ∀ e ∈ (t.remove hash same k).entries.all, e.key ≠ k := by
  have hperm : t.entries.all ~ ent :: (t.remove hash same k).entries.all :=
    @Buckets.all_perm_put _ _ _ (Nat.mod_lt _ t.entries.size_pos) [ent] _ (find?_perm_eraseP h)
  have hkeys := (hperm.map FTHashEntry.key).nodup_iff.mp ht.unique
  intro e he hk
  have hent : ent.key = k := (hsame _ _).mp (met_some h).2
  exact (List.nodup_cons.mp hkeys).1 (List.mem_map.mpr ⟨e, he, hk.trans hent.symm⟩)

theorem fthashLookup2_shrinks (t : FTHashTable K V) (k : K) (now : UInt32) :
    Buckets.Shrinks t.entries (t.fthashLookup2 hash same k now).1.entries := by
  unfold fthashLookup2
  cases hmet : t.met hash same k with
  | none => exact Buckets.Shrinks.refl _
  | some ent =>
      dsimp only
      split_ifs
      · exact remove_shrinks hmet
      · exact remove_shrinks hmet
      · have hlt : t.fthashHash hash k < t.entries.size := Nat.mod_lt _ t.entries.size_pos
        have hplace : (t.remove hash same k).fthashHash hash k = t.fthashHash hash k := by
          simp only [fthashHash, remove, Buckets.size_put]
        have hchain : (t.remove hash same k).chainOf hash k =
            (t.chainOf hash k).eraseP fun e => same e.key k := by
          rw [chainOf, hplace]
          exact Buckets.chain_put_self hlt _
        have hput : ((t.remove hash same k).addHead hash k ent).entries =
            (t.remove hash same k).entries.put (t.fthashHash hash k)
              (ent :: (t.chainOf hash k).eraseP fun e => same e.key k) := by
          simp only [addHead, hchain, hplace]
        have hback : ((t.remove hash same k).addHead hash k ent).entries =
            t.entries.put (t.fthashHash hash k)
              (ent :: (t.chainOf hash k).eraseP fun e => same e.key k) := by
          rw [hput, remove, Buckets.put_put]
        change Buckets.Shrinks t.entries ((t.remove hash same k).addHead hash k ent).entries
        rw [hback]
        exact @Buckets.shrinks_put _ _ _ hlt [] _ (find?_perm_eraseP hmet)

/-- A lookup that fails leaves no entry with the key. -/
theorem fthashLookup2_none (hsame : ∀ a b, same a b = true ↔ a = b) {t : FTHashTable K V}
    (ht : t.Keyed hash) {k : K} {now : UInt32} (h : (t.fthashLookup2 hash same k now).2.2 = none) :
    ∀ e ∈ (t.fthashLookup2 hash same k now).1.entries.all, e.key ≠ k := by
  unfold fthashLookup2 at h ⊢
  cases hmet : t.met hash same k with
  | none => exact met_none hsame ht hmet
  | some ent =>
      rw [hmet] at h
      dsimp only at h ⊢
      split_ifs at h ⊢
      · exact remove_keys hsame ht hmet
      · exact remove_keys hsame ht hmet

theorem fthashLookup2_some {t : FTHashTable K V} {k : K} {now : UInt32} {ent : FTHashEntry K V}
    (h : (t.fthashLookup2 hash same k now).2.2 = some ent) :
    ent ∈ t.entries.all ∧ same ent.key k = true := by
  unfold fthashLookup2 at h
  cases hmet : t.met hash same k with
  | none =>
      rw [hmet] at h
      cases h
  | some e =>
      rw [hmet] at h
      dsimp only at h
      split_ifs at h
      obtain rfl := Option.some.inj h
      exact met_some hmet

theorem fthashRemove3_shrinks (t : FTHashTable K V) (k : K) (flags : RemFlags) :
    Buckets.Shrinks t.entries (t.fthashRemove3 hash same k flags).1.entries := by
  unfold fthashRemove3
  cases hmet : t.met hash same k with
  | none => exact Buckets.Shrinks.refl _
  | some ent => cases flags <;> exact remove_shrinks hmet

theorem fthashBury_shrinks (t : FTHashTable K V) (now : UInt32) :
    Buckets.Shrinks t.entries (t.fthashBury now).1.entries := by
  unfold fthashBury
  split
  · exact Buckets.Shrinks.refl _
  · exact Buckets.shrinks_keep _ _

theorem fthashUnLockAll_shrinks {t t' : FTHashTable K V} {now : UInt32} {out : List V}
    (h : t.fthashUnLockAll now = some (t', out)) : Buckets.Shrinks t.entries t'.entries := by
  unfold fthashUnLockAll at h
  dsimp only at h
  split_ifs at h
  · obtain ⟨⟨gone, b⟩, hrun, heq⟩ := Option.map_eq_some_iff.mp h
    obtain ⟨rfl, -⟩ := Prod.mk.inj heq
    exact Buckets.shrinks_evict (Nat.mod_lt _ t.entries.size_pos) hrun
  · obtain ⟨rfl, -⟩ := Prod.mk.inj (Option.some.inj h)
    exact Buckets.Shrinks.refl _

theorem entries_getFreeEnt {t t' : FTHashTable K V} {memOk : Bool}
    (h : t.getFreeEnt memOk = some t') :
    t'.entries = t.entries := by
  unfold getFreeEnt at h
  cases hfree : t.freeEntries with
  | cons e es =>
      rw [hfree] at h
      obtain rfl := Option.some.inj h
      rfl
  | nil =>
      rw [hfree] at h
      dsimp only at h
      split_ifs at h
      obtain rfl := Option.some.inj h
      rfl

/-- The entries behind an insertion. -/
theorem mem_fthashInsert {t : FTHashTable K V} {k : K} {v : Option V} {memOk : Bool} {now : UInt32}
    {e : FTHashEntry K V} (he : e ∈ (t.fthashInsert hash k v memOk now).1.entries.all) :
    e ∈ t.entries.all ∨
      e = { key := k, birth := now, val := v } ∧ (t.fthashInsert hash k v memOk now).2 = true := by
  unfold fthashInsert at he ⊢
  cases hget : t.getFreeEnt memOk with
  | none =>
      rw [hget] at he
      exact .inl he
  | some t₁ =>
      rw [hget] at he
      have hadd : (t₁.addHead hash k { key := k, birth := now, val := v }).entries.all ~
          { key := k, birth := now, val := v } :: t₁.entries.all :=
        @Buckets.all_put_perm _ _ _ (Nat.mod_lt _ t₁.entries.size_pos) [_] _ (List.Perm.refl _)
      rcases List.mem_cons.mp (hadd.mem_iff.mp he) with hnew | hold
      · exact .inr ⟨hnew, rfl⟩
      · exact .inl (entries_getFreeEnt hget ▸ hold)

/-- An insertion of a key that has no entry. -/
theorem Keyed.fthashInsert {t : FTHashTable K V} (h : t.Keyed hash) {k : K}
    (hk : ∀ e ∈ t.entries.all, e.key ≠ k) (v : Option V) (memOk : Bool) (now : UInt32) :
    (t.fthashInsert hash k v memOk now).1.Keyed hash := by
  unfold FTHashTable.fthashInsert
  cases hget : t.getFreeEnt memOk with
  | none => exact h
  | some t₁ =>
      have hentries := entries_getFreeEnt hget
      have h₁ : t₁.Keyed hash := h.congr hentries
      have hlt : t₁.fthashHash hash k < t₁.entries.size := Nat.mod_lt _ t₁.entries.size_pos
      constructor
      · intro i e he
        simp only [addHead, Buckets.size_put] at he ⊢
        by_cases hi : t₁.fthashHash hash k = i
        · subst hi
          rw [Buckets.chain_put_self hlt] at he
          rcases List.mem_cons.mp he with rfl | hold
          · rfl
          · exact h₁.placed _ e hold
        · rw [Buckets.chain_put_of_ne _ hi] at he
          exact h₁.placed i e he
      · have hadd : (t₁.addHead hash k { key := k, birth := now, val := v }).entries.all ~
            { key := k, birth := now, val := v } :: t₁.entries.all :=
          @Buckets.all_put_perm _ _ _ hlt [_] _ (List.Perm.refl _)
        refine (hadd.map FTHashEntry.key).nodup_iff.mpr (List.nodup_cons.mpr ⟨?_, h₁.unique⟩)
        intro hmem
        obtain ⟨e, he, hke⟩ := List.mem_map.mp hmem
        exact hk e (hentries ▸ he) hke

theorem fthashSetMaxEntries_shrinks {t t' : FTHashTable K V} {n now : UInt32} {out : List V}
    (h : t.fthashSetMaxEntries n now = some (t', out)) : Buckets.Shrinks t.entries t'.entries := by
  unfold fthashSetMaxEntries at h
  split_ifs at h
  · obtain ⟨rfl, -⟩ := Prod.mk.inj (Option.some.inj h)
    exact Buckets.Shrinks.refl _
  · exact @fthashUnLockAll_shrinks _ _ { t with maxEntries := n } _ _ _ h

/-- A sound table with one entry for a key, and values that belong to their keys. -/
structure Indexed (hash : K → Nat) (R : K → V → Prop) (t : FTHashTable K V) : Prop where
  sound : t.Sound
  keyed : t.Keyed hash
  valued : ∀ e ∈ t.entries.all, ∃ v ∈ e.val, R e.key v

variable {R : K → V → Prop} {t : FTHashTable K V}

theorem Indexed.shrinks {t' : FTHashTable K V} (h : t.Indexed hash R) (hsound : t'.Sound)
    (hs : Buckets.Shrinks t.entries t'.entries) : t'.Indexed hash R where
  sound := hsound
  keyed := h.keyed.shrinks hs
  valued e he := h.valued e (mem_of_shrinks hs he)

theorem Indexed.mono {R' : K → V → Prop} (h : t.Indexed hash R) (hR : ∀ k v, R k v → R' k v) :
    t.Indexed hash R' where
  sound := h.sound
  keyed := h.keyed
  valued e he := by
    obtain ⟨v, hv, hkv⟩ := h.valued e he
    exact ⟨v, hv, hR _ _ hkv⟩

theorem Indexed.fthashLookup (h : t.Indexed hash R) (k : K) (now : UInt32) :
    (t.fthashLookup hash same k now).1.Indexed hash R :=
  h.shrinks (fthashLookup2_moved h.sound k now).sound (fthashLookup2_shrinks t k now)

theorem Indexed.fthashLookup_some (hsame : ∀ a b, same a b = true ↔ a = b) (h : t.Indexed hash R)
    {k : K} {now : UInt32} {v : V}
    (hv : (t.fthashLookup hash same k now).2.2 = some v) : R k v := by
  obtain ⟨ent, hent, hval⟩ := Option.bind_eq_some_iff.mp hv
  obtain ⟨hmem, hkey⟩ := fthashLookup2_some hent
  obtain ⟨v', hv', hR⟩ := h.valued ent hmem
  obtain rfl : v' = v := Option.some.inj (hv'.symm.trans hval)
  rwa [(hsame _ _).mp hkey] at hR

theorem Indexed.fthashLookup_none (hsame : ∀ a b, same a b = true ↔ a = b) (h : t.Indexed hash R)
    {k : K} {now : UInt32} (hv : (t.fthashLookup hash same k now).2.2 = none) :
    ∀ e ∈ (t.fthashLookup hash same k now).1.entries.all, e.key ≠ k := by
  apply fthashLookup2_none hsame h.keyed
  cases hfound : (t.fthashLookup2 hash same k now).2.2 with
  | none => rfl
  | some ent =>
      obtain ⟨v, hval, -⟩ := h.valued ent (fthashLookup2_some hfound).1
      rw [FTHashTable.fthashLookup, hfound] at hv
      exact absurd (hval.symm.trans hv) (by simp)

theorem Indexed.fthashMarkRemoved (h : t.Indexed hash R) (k : K) :
    (t.fthashMarkRemoved hash same k).1.Indexed hash R :=
  h.shrinks (fthashRemove3_moved h.sound k .move).sound (fthashRemove3_shrinks t k .move)

theorem Indexed.fthashLock (h : t.Indexed hash R) : t.fthashLock.Indexed hash R := by
  have hmoved : Moved t t.fthashLock [] [] := h.sound.moved_rfl rfl rfl rfl rfl (UInt32.le_refl _)
  exact h.shrinks hmoved.sound (Buckets.Shrinks.refl _)

theorem Indexed.fthashFlush (h : t.Indexed hash R) : t.fthashFlush.1.Indexed hash R :=
  h.shrinks (fthashFlush_moved h.sound).sound (Buckets.Shrinks.refl _)

theorem Indexed.fthashBury (h : t.Indexed hash R) (now : UInt32) :
    (t.fthashBury now).1.Indexed hash R :=
  h.shrinks (fthashBury_moved h.sound now).sound (fthashBury_shrinks t now)

theorem Indexed.fthashSetTimeToLive (h : t.Indexed hash R) (ttl : Int) :
    (t.fthashSetTimeToLive ttl).Indexed hash R := by
  unfold FTHashTable.fthashSetTimeToLive
  split
  · exact h
  · have hmoved : Moved t { t with ttl := UInt32.ofNat ttl.toNat } [] [] :=
      h.sound.moved_rfl rfl rfl rfl rfl (UInt32.le_refl _)
    exact h.shrinks hmoved.sound (Buckets.Shrinks.refl _)

theorem Indexed.fthashUnLockAll (h : t.Indexed hash R) (now : UInt32) :
    ∃ t' out, t.fthashUnLockAll now = some (t', out) ∧ t'.Indexed hash R := by
  obtain ⟨t', out, hrun, hmoved, -⟩ := fthashUnLockAll_spec h.sound.toCounted now
  exact ⟨t', out, hrun, h.shrinks hmoved.sound (fthashUnLockAll_shrinks hrun)⟩

theorem Indexed.fthashSetMaxEntries (h : t.Indexed hash R) (n now : UInt32) :
    ∃ t' out, t.fthashSetMaxEntries n now = some (t', out) ∧ t'.Indexed hash R := by
  obtain ⟨t', out, hrun, hmoved⟩ := fthashSetMaxEntries_spec h.sound n now
  exact ⟨t', out, hrun, h.shrinks hmoved.sound (fthashSetMaxEntries_shrinks hrun)⟩

/-- An insertion of a key that has no entry, with a value that belongs to it. -/
theorem Indexed.fthashInsert (h : t.Indexed hash R) {k : K} (hk : ∀ e ∈ t.entries.all, e.key ≠ k)
    {v : V} (hkv : R k v) (memOk : Bool) (now : UInt32) :
    (t.fthashInsert hash k (some v) memOk now).1.Indexed hash R where
  sound := (fthashInsert_moved h.sound k (some v) memOk now).sound
  keyed := h.keyed.fthashInsert hk (some v) memOk now
  valued e he := by
    rcases mem_fthashInsert he with hold | ⟨rfl, -⟩
    · exact h.valued e hold
    · exact ⟨v, rfl, hkv⟩

theorem indexed_new {size keySize maxEntries ttl : UInt32} {memOk : Bool}
    (h : fthashNew size keySize maxEntries ttl memOk = some t) :
    t.Indexed hash R ∧ t.entries.all = [] := by
  have hsound := (Ledger.kept_start h).sound t rfl
  unfold fthashNew at h
  split_ifs at h with hpos
  obtain rfl := Option.some.inj h
  have hall : (Buckets.empty size.toNat hpos.1 : Buckets (FTHashEntry K V)).all = [] := by
    simp [Buckets.all, Buckets.empty]
  refine ⟨⟨hsound, ⟨fun i e he => ?_, ?_⟩, ?_⟩, hall⟩
  · exact absurd (hall ▸ Buckets.mem_all_of_mem_chain he) (List.not_mem_nil)
  · rw [hall]
    exact List.nodup_nil
  · rw [hall]
    exact List.forall_mem_nil _

end FTHashTable

end Keys

end Anfs.Cache
