import Anfs.Cache.Keys

/-!
# Values in use between two calls of `fthash_UnLockAll`

An action uses the values that it looked up or stored until it calls `fthash_UnLockAll`. What
keeps them is the lock count: while it is positive nothing is freed. A lookup raises it, an
insertion does not.
-/
namespace Anfs.Cache
open Anfs.Lib

/-- What an action does to a table before it calls `fthash_UnLockAll`. -/
inductive Visit (K V : Type)
  | lookup (k : K) (now : UInt32)
  | insert (k : K) (v : Option V) (memOk : Bool) (now : UInt32)
  | markRemoved (k : K)
  | lock
  | bury (now : UInt32)

/-- The clock reading of a visit. -/
def Visit.clock {K V : Type} : Visit K V → Option UInt32
  | .lookup _ now => some now
  | .insert _ _ _ now => some now
  | .markRemoved _ => none
  | .lock => none
  | .bury now => some now

/-- The value that a visit hands over. -/
def Visit.value {K V : Type} : Visit K V → Option V
  | .insert _ v _ _ => v
  | _ => none

/-- A table, the values that were looked up or stored since `fthash_UnLockAll`, and the keys and the
clock readings of the insertions that stored them. -/
structure Session (K V : Type) where
  table : FTHashTable K V
  looked : List V
  stored : List V
  inserted : List (K × UInt32)

section Visits
variable {K V : Type} (hash : K → Nat) (same : K → K → Bool)

namespace Session

/-- The session behind `fthash_UnLockAll`. -/
def start (t : FTHashTable K V) : Session K V :=
  { table := t, looked := [], stored := [], inserted := [] }

/-- The values that a visit frees. -/
def freed (s : Session K V) : Visit K V → List V
  | .lookup k now => (s.table.fthashLookup hash same k now).2.1
  | .insert .. => []
  | .markRemoved k => (s.table.fthashMarkRemoved hash same k).2
  | .lock => []
  | .bury now => (s.table.fthashBury now).2

def step (s : Session K V) : Visit K V → Session K V
  | .lookup k now =>
      let r := s.table.fthashLookup hash same k now
      { s with table := r.1, looked := s.looked ++ r.2.2.toList }
  | .insert k v memOk now =>
      let r := s.table.fthashInsert hash k v memOk now
      { s with
        table := r.1
        stored := if r.2 then s.stored ++ v.toList else s.stored
        inserted := if r.2 then (k, now) :: s.inserted else s.inserted }
  | .markRemoved k => { s with table := (s.table.fthashMarkRemoved hash same k).1 }
  | .lock => { s with table := s.table.fthashLock }
  | .bury now => { s with table := (s.table.fthashBury now).1 }

/-- A visit frees no value that is in use. -/
def Spares (s : Session K V) (v : Visit K V) : Prop :=
  ∀ x ∈ s.freed hash same v, x ∉ s.looked ∧ x ∉ s.stored

/-- The readings at which a value was inserted that a visit may come upon. -/
def births (s : Session K V) : Visit K V → List UInt32
  | .lookup k _ => (s.inserted.filter fun i => same i.1 k).map Prod.snd
  | .bury _ => s.inserted.map Prod.snd
  | _ => []

/-- The lock count stays in its range, an insertion hands over a value of its own, and a visit that
comes before a lookup has found something comes within the time to live of the insertions. -/
structure Timely (s : Session K V) (v : Visit K V) : Prop where
  counts : s.table.lockCnt < 2147483647
  own : ∀ x ∈ v.value, x ∉ values s.table.entries.all
  young : s.table.isLocked = false → ∀ birth ∈ s.births same v, ∀ now ∈ v.clock,
    now - s.table.ttl ≤ birth

instance [DecidableEq V] (s : Session K V) (v : Visit K V) : Decidable (s.Spares hash same v) :=
  inferInstanceAs (Decidable (∀ x ∈ s.freed hash same v, x ∉ s.looked ∧ x ∉ s.stored))

instance [DecidableEq V] (s : Session K V) (v : Visit K V) : Decidable (s.Timely same v) :=
  let _ (birth : UInt32) : Decidable (∀ now ∈ v.clock, now - s.table.ttl ≤ birth) :=
    Option.decidableForallMem _
  let _ : Decidable (∀ birth ∈ s.births same v, ∀ now ∈ v.clock, now - s.table.ttl ≤ birth) :=
    List.decidableBAll _ _
  decidable_of_iff (s.table.lockCnt < 2147483647 ∧
      (∀ x ∈ v.value, x ∉ values s.table.entries.all) ∧ (s.table.isLocked = false →
        ∀ birth ∈ s.births same v, ∀ now ∈ v.clock, now - s.table.ttl ≤ birth))
    ⟨fun h => ⟨h.1, h.2.1, h.2.2⟩, fun h => ⟨h.counts, h.own, h.young⟩⟩

/-- Values that were looked up lock the table. -/
structure Locks (s : Session K V) : Prop where
  nonneg : 0 ≤ s.table.lockCnt
  looked : s.looked ≠ [] → 0 < s.table.lockCnt

/-- A chain holds a stored value in the entry that its insertion made. -/
def Recorded (s : Session K V) : Prop :=
  ∀ e ∈ s.table.entries.all, ∀ x ∈ e.val, x ∈ s.stored → (e.key, e.birth) ∈ s.inserted

variable {hash same}

theorem looked_nil_of_unlocked {s : Session K V} (h : s.Locks) (hlock : s.table.isLocked = false) :
    s.looked = [] := by
  by_contra hne
  have hpos := h.looked hne
  simp only [FTHashTable.isLocked, decide_eq_false_iff_not] at hlock
  exact hlock hpos

/-- What a lookup frees: the value of a dead entry that it meets while the table is unlocked. -/
theorem mem_freed_lookup {s : Session K V} {k : K} {now : UInt32} {x : V}
    (h : x ∈ s.freed hash same (.lookup k now)) :
    s.table.isLocked = false ∧ ∃ e, s.table.met hash same k = some e ∧
      s.table.isDead now e = true ∧ x ∈ e.val := by
  simp only [freed, FTHashTable.fthashLookup, FTHashTable.fthashLookup2] at h
  cases hmet : s.table.met hash same k with
  | none =>
      rw [hmet] at h
      exact absurd h (List.not_mem_nil)
  | some e =>
      rw [hmet] at h
      dsimp only at h
      split_ifs at h with hdead hlock
      · exact absurd h (List.not_mem_nil)
      · exact ⟨by simpa using hlock, e, rfl, hdead, by simpa using h⟩
      · exact absurd h (List.not_mem_nil)

/-- What a burial frees: the values of the dead entries, while the table is unlocked. -/
theorem mem_freed_bury {s : Session K V} {now : UInt32} {x : V}
    (h : x ∈ s.freed hash same (.bury now)) :
    s.table.isLocked = false ∧ ∃ e ∈ s.table.entries.all,
      s.table.isDead now e = true ∧ x ∈ e.val := by
  simp only [freed, FTHashTable.fthashBury] at h
  split_ifs at h with hlock
  · exact absurd h (List.not_mem_nil)
  · obtain ⟨e, he, hx⟩ := List.mem_filterMap.mp h
    obtain ⟨hall, hdead⟩ := List.mem_filter.mp he
    exact ⟨by simpa using hlock, e, hall, hdead, hx⟩

theorem freed_markRemoved (s : Session K V) (k : K) : s.freed hash same (.markRemoved k) = [] := by
  simp only [freed, FTHashTable.fthashMarkRemoved, FTHashTable.fthashRemove3]
  cases s.table.met hash same k <;> rfl

/-- An entry of an unlocked table whose value was stored is not dead at a timely visit. -/
theorem Timely.not_dead {s : Session K V} {v : Visit K V} (ht : s.Timely same v)
    (hlock : s.table.isLocked = false) {now : UInt32} (hnow : now ∈ v.clock) {e : FTHashEntry K V}
    (hbirth : e.birth ∈ s.births same v) : s.table.isDead now e = false :=
  decide_eq_false (UInt32.not_lt.mpr (ht.young hlock _ hbirth now hnow))

/-- A timely visit frees nothing that is in use. -/
theorem Locks.spares {s : Session K V} (h : s.Locks) (hrec : s.Recorded) {v : Visit K V}
    (ht : s.Timely same v) : s.Spares hash same v := by
  intro x hx
  cases v with
  | lookup k now =>
      obtain ⟨hlock, e, hmet, hdead, hval⟩ := mem_freed_lookup hx
      obtain ⟨he, hkey⟩ := FTHashTable.met_some hmet
      refine ⟨by simp [looked_nil_of_unlocked h hlock], fun hstored => ?_⟩
      have hbirth : e.birth ∈ s.births same (.lookup k now) :=
        List.mem_map.mpr ⟨_, List.mem_filter.mpr ⟨hrec e he x hval hstored, hkey⟩, rfl⟩
      rw [ht.not_dead hlock rfl hbirth] at hdead
      cases hdead
  | insert k v memOk now => exact absurd hx (List.not_mem_nil)
  | markRemoved k => exact absurd hx (by simp [freed_markRemoved])
  | lock => exact absurd hx (List.not_mem_nil)
  | bury now =>
      obtain ⟨hlock, e, he, hdead, hval⟩ := mem_freed_bury hx
      refine ⟨by simp [looked_nil_of_unlocked h hlock], fun hstored => ?_⟩
      have hbirth : e.birth ∈ s.births same (.bury now) :=
        List.mem_map.mpr ⟨_, hrec e he x hval hstored, rfl⟩
      rw [ht.not_dead hlock rfl hbirth] at hdead
      cases hdead

theorem Recorded.shrinks {s s' : Session K V} (h : s.Recorded)
    (hs : Buckets.Shrinks s.table.entries s'.table.entries) (hstored : s'.stored = s.stored)
    (hinserted : s'.inserted = s.inserted) : s'.Recorded := by
  intro e he x hx hmem
  rw [hstored] at hmem
  rw [hinserted]
  exact h e (FTHashTable.mem_of_shrinks hs he) x hx hmem

theorem Recorded.step {s : Session K V} (h : s.Recorded) {v : Visit K V} (ht : s.Timely same v) :
    (s.step hash same v).Recorded := by
  cases v with
  | lookup k now => exact h.shrinks (FTHashTable.fthashLookup2_shrinks s.table k now) rfl rfl
  | markRemoved k => exact h.shrinks (FTHashTable.fthashRemove3_shrinks s.table k .move) rfl rfl
  | lock => exact h.shrinks (Buckets.Shrinks.refl _) rfl rfl
  | bury now => exact h.shrinks (FTHashTable.fthashBury_shrinks s.table now) rfl rfl
  | insert k v memOk now =>
      intro e he x hx hmem
      have hcases := FTHashTable.mem_fthashInsert he
      unfold Session.step at hmem ⊢
      dsimp only at hmem ⊢
      split_ifs at hmem ⊢ with hdone
      · rcases hcases with hold | ⟨rfl, -⟩
        · rcases List.mem_append.mp hmem with hstored | hnew
          · exact List.mem_cons_of_mem _ (h e hold x hx hstored)
          · have hheld : x ∈ values s.table.entries.all := List.mem_filterMap.mpr ⟨e, hold, hx⟩
            exact absurd hheld (ht.own x (by simpa [Visit.value] using hnew))
        · exact List.mem_cons_self
      · rcases hcases with hold | ⟨-, hyes⟩
        · exact h e hold x hx hmem
        · exact absurd hyes hdone

theorem Locks.congr {s s' : Session K V} (h : s.Locks)
    (hcnt : s'.table.lockCnt = s.table.lockCnt) (hlooked : s'.looked = s.looked) : s'.Locks where
  nonneg := by rw [hcnt]; exact h.nonneg
  looked := by rw [hcnt, hlooked]; exact h.looked

theorem Locks.raise {s s' : Session K V} (h : s.Locks) (hlt : s.table.lockCnt < 2147483647)
    (hcnt : s'.table.lockCnt = long (s.table.lockCnt + 1)) : s'.Locks := by
  have hnonneg := h.nonneg
  have hsucc : long (s.table.lockCnt + 1) = s.table.lockCnt + 1 :=
    long_of_isLong (by simp only [IsLong]; omega)
  rw [hsucc] at hcnt
  constructor
  · omega
  · intro _
    omega

theorem Locks.step {s : Session K V} (h : s.Locks) {v : Visit K V} (ht : s.Timely same v) :
    (s.step hash same v).Locks := by
  cases v with
  | lookup k now =>
      simp only [Session.step, FTHashTable.fthashLookup, FTHashTable.fthashLookup2]
      cases hmet : s.table.met hash same k with
      | none => exact h.congr rfl (List.append_nil _)
      | some e =>
          dsimp only
          split_ifs with hdead hlock
          · exact h.raise ht.counts rfl
          · exact h.congr rfl (List.append_nil _)
          · exact h.raise ht.counts rfl
  | insert k v memOk now =>
      refine h.congr ?_ rfl
      simp only [Session.step, FTHashTable.fthashInsert, FTHashTable.getFreeEnt]
      cases s.table.freeEntries with
      | cons e es => rfl
      | nil =>
          dsimp only
          split_ifs <;> rfl
  | markRemoved k =>
      refine h.congr ?_ rfl
      simp only [Session.step, FTHashTable.fthashMarkRemoved, FTHashTable.fthashRemove3]
      cases s.table.met hash same k <;> rfl
  | lock => exact h.raise ht.counts rfl
  | bury now =>
      refine h.congr ?_ rfl
      simp only [Session.step, FTHashTable.fthashBury]
      split <;> rfl

theorem lockCnt_of_fthashUnLockAll {t t' : FTHashTable K V} {now : UInt32} {out : List V}
    (h : t.fthashUnLockAll now = some (t', out)) : t'.lockCnt = 0 := by
  unfold FTHashTable.fthashUnLockAll at h
  dsimp only at h
  split_ifs at h
  · obtain ⟨evicted, -, hrun⟩ := Option.map_eq_some_iff.mp h
    obtain ⟨rfl, -⟩ := Prod.mk.inj hrun
    rfl
  · obtain ⟨rfl, -⟩ := Prod.mk.inj (Option.some.inj h)
    rfl

variable (hash same)

/-- Between two calls of `fthash_UnLockAll` timely visits free nothing that is in use. -/
theorem spares_run {t₀ t : FTHashTable K V} {now : UInt32} {out : List V}
    (h : t₀.fthashUnLockAll now = some (t, out)) (visits : List (Visit K V))
    (hvisits : Guarded (step hash same) (Timely same) (start t) visits) :
    Guarded (step hash same) (Spares hash same) (start t) visits := by
  have hcnt := lockCnt_of_fthashUnLockAll h
  have hstart : (start t).Locks := ⟨Int.le_of_eq hcnt.symm, fun hne => absurd rfl hne⟩
  have hrecorded : (start t).Recorded := fun _ _ _ _ hstored => absurd hstored (List.not_mem_nil)
  exact hvisits.of_invariant (P := fun s => s.Locks ∧ s.Recorded)
    (fun s v hs ht => ⟨hs.1.step ht, hs.2.step ht⟩) (fun s v hs ht => hs.1.spares hs.2 ht)
    ⟨hstart, hrecorded⟩

/-- A table with one chain and a lifetime of a minute. -/
def minuteTable : FTHashTable Nat Nat where
  entries := Buckets.empty 1 Nat.one_pos
  freeEntries := []
  lockedEntries := []
  keySize := 4
  maxEntries := 20
  ttl := 60
  numEntries := 0
  lockCnt := 0

/-- Once a lookup succeeded, an entry that died is kept for the action. -/
theorem spares_run_lookup :
    minuteTable.fthashUnLockAll 90 = some (minuteTable, []) ∧
      Guarded (step (fun k => k) (fun a b => a == b)) (Spares (fun k => k) (fun a b => a == b))
        (start minuteTable)
        [.insert 1 (some 7) true 100, .lookup 1 110, .lookup 1 161, .bury 200] :=
  ⟨rfl, spares_run _ _ (show minuteTable.fthashUnLockAll 90 = some (minuteTable, []) from rfl) _
    (by decide +kernel)⟩

/-- A value that was only inserted is freed by the lookup that finds it dead. -/
theorem not_spares_inserted :
    fthashNew 1 4 20 60 true = some minuteTable ∧
      minuteTable.fthashUnLockAll 90 = some (minuteTable, []) ∧
      (([.insert 1 (some 7) true 100, .lookup 1 161] : List (Visit Nat Nat)).filterMap
        Visit.clock).Pairwise (· ≤ ·) ∧
      ¬ Guarded (step (fun k => k) (fun a b => a == b)) (Spares (fun k => k) (fun a b => a == b))
        (start minuteTable) [.insert 1 (some 7) true 100, .lookup 1 161] :=
  ⟨rfl, rfl, by decide +kernel, by decide +kernel⟩

end Session

end Visits

end Anfs.Cache
