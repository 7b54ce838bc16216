import Anfs.Cache.Accounts

/-!
# Runs of a hash table

A ledger is a table with a record of the values that were accepted, freed and handed back since
it was made. A run is any sequence of calls.
-/
namespace Anfs.Cache
open Anfs.Lib
open scoped List

/-- A call on the table, with the clock reading and the memory state that it meets. -/
inductive Call (K V : Type)
  | insert (k : K) (v : Option V) (memOk : Bool) (now : UInt32)
  | lookup (k : K) (now : UInt32)
  | lookup2 (k : K) (now : UInt32)
  | markRemoved (k : K)
  | remove (k : K)
  | remove2 (k : K)
  | lock
  | unLockAll (now : UInt32)
  | flush
  | bury (now : UInt32)
  | setMaxEntries (n now : UInt32)
  | setTimeToLive (ttl : Int)
  | delete

/-- The table, none once it is deleted, and the values that were accepted, freed and handed
back. -/
structure Ledger (K V : Type) where
  table : Option (FTHashTable K V)
  accepted : List V
  freed : List V
  handed : List V

section Runs
variable {K V : Type} (hash : K → Nat) (same : K → K → Bool)

namespace Ledger

/-- A new table. -/
def start (t : FTHashTable K V) : Ledger K V :=
  { table := some t, accepted := [], freed := [], handed := [] }

/-- What a call does to a table; none if it does not return. -/
def perform (t : FTHashTable K V) : Call K V → Option (Ledger K V)
  | .insert k v memOk now =>
      let r := t.fthashInsert hash k v memOk now
      some { table := some r.1, accepted :=
        if r.2 then v.toList else [], freed := [], handed := [] }
  | .lookup k now =>
      let r := t.fthashLookup hash same k now
      some { table := some r.1, accepted := [], freed := r.2.1, handed := [] }
  | .lookup2 k now =>
      let r := t.fthashLookup2 hash same k now
      some { table := some r.1, accepted := [], freed := r.2.1, handed := [] }
  | .markRemoved k =>
      let r := t.fthashMarkRemoved hash same k
      some { table := some r.1, accepted := [], freed := r.2, handed := [] }
  | .remove k =>
      let r := t.fthashRemove hash same k
      some { table := some r.1, accepted := [], freed := r.2, handed := [] }
  | .remove2 k =>
      let r := t.fthashRemove2 hash same k
      some { table := some r.1, accepted := [], freed := r.2.1, handed := r.2.2.toList }
  | .lock => some { table := some t.fthashLock, accepted := [], freed := [], handed := [] }
  | .unLockAll now =>
      (t.fthashUnLockAll now).map fun r =>
        { table := some r.1, accepted := [], freed := r.2, handed := [] }
  | .flush =>
      let r := t.fthashFlush
      some { table := some r.1, accepted := [], freed := r.2, handed := [] }
  | .bury now =>
      let r := t.fthashBury now
      some { table := some r.1, accepted := [], freed := r.2, handed := [] }
  | .setMaxEntries n now =>
      (t.fthashSetMaxEntries n now).map fun r =>
        { table := some r.1, accepted := [], freed := r.2, handed := [] }
  | .setTimeToLive ttl =>
      some { table := some (t.fthashSetTimeToLive ttl), accepted := [], freed := [], handed := [] }
  | .delete => some { table := none, accepted := [], freed := t.fthashDelete, handed := [] }

/-- A call on a deleted table does nothing: only `fthash_Delete` takes it. -/
def step (c : Ledger K V) (call : Call K V) : Option (Ledger K V) :=
  match c.table with
  | none => some c
  | some t =>
      (perform hash same t call).map fun o =>
        { table := o.table, accepted := c.accepted ++ o.accepted, freed := c.freed ++ o.freed
          handed := c.handed ++ o.handed }

def held (c : Ledger K V) : List V := (c.table.map FTHashTable.held).getD []

/-- The table is sound, and every value that was accepted is held by one entry on a chain or the
locked list, or was freed once, or was handed back once, which only `fthash_Remove2` does. -/
structure Kept (c : Ledger K V) : Prop where
  sound : ∀ t ∈ c.table, t.Sound
  owned : c.held ++ (c.freed ++ c.handed) ~ c.accepted

/-- A call on a sound table returns. -/
theorem perform_spec {t : FTHashTable K V} (h : t.Sound) (call : Call K V) :
    ∃ o, perform hash same t call = some o ∧ (∀ t' ∈ o.table, t'.Sound) ∧
      o.accepted ++ t.held ~ o.freed ++ o.handed ++ o.held := by
  have hmoved : ∀ {t' : FTHashTable K V} {added out back : List V},
      FTHashTable.Moved t t' added (out ++ back) →
      (∀ t'' ∈ some t', t''.Sound) ∧ added ++ t.held ~ out ++ back ++ t'.held := by
    intro t' added out back hm
    refine ⟨fun t'' h'' => ?_, hm.held⟩
    obtain rfl : t' = t'' := Option.some.inj h''
    exact hm.sound
  have hfreed : ∀ {t' : FTHashTable K V} {added out : List V}, FTHashTable.Moved t t' added out →
      (∀ t'' ∈ some t', t''.Sound) ∧ added ++ t.held ~ out ++ [] ++ t'.held := by
    intro t' added out hm
    exact hmoved (by rwa [List.append_nil])
  cases call with
  | insert k v memOk now => exact ⟨_, rfl, hfreed (FTHashTable.fthashInsert_moved h k v memOk now)⟩
  | lookup k now => exact ⟨_, rfl, hfreed (FTHashTable.fthashLookup2_moved h k now)⟩
  | lookup2 k now => exact ⟨_, rfl, hfreed (FTHashTable.fthashLookup2_moved h k now)⟩
  | markRemoved k => exact ⟨_, rfl, hfreed (FTHashTable.fthashMarkRemoved_moved h k)⟩
  | remove k => exact ⟨_, rfl, hfreed (FTHashTable.fthashRemove_moved h k)⟩
  | remove2 k => exact ⟨_, rfl, hmoved (FTHashTable.fthashRemove3_moved h k .none)⟩
  | lock => exact ⟨_, rfl, hfreed (h.moved_rfl rfl rfl rfl rfl (UInt32.le_refl _))⟩
  | unLockAll now =>
      obtain ⟨t', out, hrun, hm, -⟩ := FTHashTable.fthashUnLockAll_spec h.toCounted now
      exact ⟨_, by rw [perform, hrun]; rfl, hfreed hm⟩
  | flush => exact ⟨_, rfl, hfreed (FTHashTable.fthashFlush_moved h)⟩
  | bury now => exact ⟨_, rfl, hfreed (FTHashTable.fthashBury_moved h now)⟩
  | setMaxEntries n now =>
      obtain ⟨t', out, hrun, hm⟩ := FTHashTable.fthashSetMaxEntries_spec h n now
      exact ⟨_, by rw [perform, hrun]; rfl, hfreed hm⟩
  | setTimeToLive ttl =>
      refine ⟨_, rfl, hfreed ?_⟩
      unfold FTHashTable.fthashSetTimeToLive
      split
      · exact h.moved_self
      · exact h.moved_rfl rfl rfl rfl rfl (UInt32.le_refl _)
  | delete =>
      have hall := FTHashTable.fthashDelete_perm h.toCounted
      refine ⟨_, rfl, ?_, ?_⟩
      · exact fun t' h' => absurd h' (by simp)
      · simpa [held] using hall

theorem Kept.step {c : Ledger K V} (h : c.Kept) (call : Call K V) :
    ∃ c', c.step hash same call = some c' ∧ c'.Kept := by
  unfold Ledger.step
  cases htable : c.table with
  | none => exact ⟨c, rfl, h⟩
  | some t =>
      obtain ⟨o, hrun, hsound, hheld⟩ := perform_spec hash same (h.sound t htable) call
      refine ⟨_, congrArg (Option.map _) hrun, hsound, ?_⟩
      have howned := h.owned
      rw [held, htable] at howned
      change t.held ++ (c.freed ++ c.handed) ~ c.accepted at howned
      change o.held ++ (c.freed ++ o.freed ++ (c.handed ++ o.handed)) ~ c.accepted ++ o.accepted
      classical
      rw [List.perm_iff_count] at howned hheld ⊢
      intro v
      have hbefore := howned v
      have hnow := hheld v
      simp only [List.count_append] at hbefore hnow ⊢
      omega

theorem kept_start {size keySize maxEntries ttl : UInt32} {memOk : Bool} {t : FTHashTable K V}
    (h : fthashNew size keySize maxEntries ttl memOk = some t) : (start t).Kept := by
  unfold fthashNew at h
  split at h
  · obtain rfl := Option.some.inj h
    constructor
    · rintro t' ht'
      obtain rfl := Option.some.inj ht'
      exact {
        counted := by simp [FTHashTable.places]
        addressed := by simp
        unvalued := List.forall_mem_nil _
        limited := by simp only; omega }
    · simp [held, start, FTHashTable.held]
  · exact absurd h (by simp)

/-- After any calls the entries and the values of a table are accounted for, every call returns,
and `fthash_UnLockAll` brings the table back to its limit. -/
theorem kept_run {size keySize maxEntries ttl : UInt32} {memOk : Bool} {t : FTHashTable K V}
    (h : fthashNew size keySize maxEntries ttl memOk = some t) (calls : List (Call K V)) :
    ∃ c, calls.foldlM (step hash same) (start t) = some c ∧ c.Kept ∧
      ∀ now, ∃ c', c.step hash same (.unLockAll now) = some c' ∧ ∀ t' ∈ c'.table, t'.Settled := by
  obtain ⟨c, hrun, hkept⟩ :=
    foldlM_invariant (fun c call hc => hc.step hash same call) (kept_start h) calls
  refine ⟨c, hrun, hkept, fun now => ?_⟩
  unfold Ledger.step
  cases htable : c.table with
  | none => exact ⟨c, rfl, fun t' ht' => absurd ht' (by simp [htable])⟩
  | some t₁ =>
      obtain ⟨t', out, hunlock, -, hsettled⟩ :=
        FTHashTable.fthashUnLockAll_spec (hkept.sound t₁ htable).toCounted now
      have hperform : perform hash same t₁ (.unLockAll now) =
          some { table := some t', accepted := [], freed := out, handed := [] } := by
        rw [perform, hunlock]
        rfl
      refine ⟨_, congrArg (Option.map _) hperform, fun t'' ht'' => ?_⟩
      obtain rfl : t' = t'' := Option.some.inj ht''
      exact hsettled

/-- Two values are accepted, one is freed at its end of life and one is handed back. -/
theorem kept_run_two :
    ∃ t, fthashNew 2 4 1 60 true = some t ∧
      ∃ c, List.foldlM (step (fun k : Nat => k) (fun a b => a == b)) (start t)
          [.insert 1 (some 11) true 100, .insert 2 (some 12) true 100, .lookup 1 200,
            .remove2 2] = some c ∧
        c.Kept ∧ ∀ now, ∃ c',
          c.step (fun k : Nat => k) (fun a b => a == b) (.unLockAll now) = some c' ∧
            ∀ t' ∈ c'.table, t'.Settled :=
  ⟨_, rfl, kept_run _ _ (show fthashNew 2 4 1 60 true = some _ from rfl) _⟩

end Ledger

end Runs

end Anfs.Cache
