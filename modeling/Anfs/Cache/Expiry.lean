import Anfs.Cache.Keys
import Anfs.Cache.Pinned

/-!
# The lifetime of an entry

`fthash_Lookup2` and `fthash_Bury` compare the birth of an entry with the clock less the time to
live. The difference wraps while the clock is smaller than the time to live, as on a machine
whose clock was never set; every entry is dead then.
-/
namespace Anfs.Cache
open Anfs.Lib
open scoped List

section Expiry
variable {K V : Type} (hash : K → Nat) (same : K → K → Bool)

namespace FTHashTable

/-- At the time `n` a lookup finds the entry, and an unlocked table keeps it, exactly while its
age is not above the time to live. -/
structure Expires (t : FTHashTable K V) (e : FTHashEntry K V) (n : UInt32) : Prop where
  lookup : (t.fthashLookup2 hash same e.key n).2.2 = some e ↔ n - e.birth ≤ t.ttl
  bury : t.isLocked = false → (e ∉ (t.fthashBury n).1.entries.all ↔ t.ttl < n - e.birth)

variable {hash same} {t : FTHashTable K V} {e : FTHashEntry K V} {n : UInt32}

theorem isDead_iff (hn : e.birth ≤ n) : t.isDead n e = true ↔ n < t.ttl ∨ t.ttl < n - e.birth := by
  have hage : (n - e.birth).toNat = n.toNat - e.birth.toNat := UInt32.toNat_sub_of_le n e.birth hn
  have hdead := UInt32.toNat_sub n t.ttl
  have hlt := t.ttl.toNat_lt
  have hnlt := n.toNat_lt
  unfold isDead
  rw [decide_eq_true_iff, UInt32.lt_iff_toNat_lt, UInt32.lt_iff_toNat_lt,
    UInt32.lt_iff_toNat_lt, hage, hdead]
  rw [UInt32.le_iff_toNat_le] at hn
  omega

/-- A lookup finds the first entry of the chain with the key, if it is alive. -/
theorem fthashLookup2_eq_some_iff : (t.fthashLookup2 hash same e.key n).2.2 = some e ↔
    t.met hash same e.key = some e ∧ t.isDead n e = false := by
  unfold fthashLookup2
  cases hmet : t.met hash same e.key with
  | none => simp
  | some ent =>
      dsimp only
      split_ifs with hdead hlocked
      · refine ⟨fun h => absurd h (by simp), fun h => ?_⟩
        obtain rfl := Option.some.inj h.1
        exact absurd h.2 (by simp [hdead])
      · refine ⟨fun h => absurd h (by simp), fun h => ?_⟩
        obtain rfl := Option.some.inj h.1
        exact absurd h.2 (by simp [hdead])
      · refine ⟨fun h => ⟨h, ?_⟩, fun h => h.1⟩
        obtain rfl := Option.some.inj h
        exact Bool.eq_false_iff.mpr hdead

theorem notMem_fthashBury (he : e ∈ t.entries.all) (hlocked : t.isLocked = false) :
    e ∉ (t.fthashBury n).1.entries.all ↔ t.isDead n e = true := by
  unfold fthashBury
  rw [hlocked, if_neg Bool.false_ne_true]
  dsimp only
  rw [Buckets.all_keep, List.mem_filter, not_and]
  exact ⟨fun h => by simpa using h he, fun h _ => by simp [h]⟩

/-- The lifetime of the first entry with its key is exact once the clock has reached the time to
live. An entry behind another one with its key is never found. -/
theorem expires_iff (he : e ∈ t.entries.all) (hn : e.birth ≤ n) : Expires hash same t e n ↔
    (t.met hash same e.key = some e → t.ttl ≤ n) ∧
      (t.met hash same e.key ≠ some e → t.ttl < n - e.birth) := by
  have hdead := isDead_iff (t := t) hn
  have hage : n - e.birth ≤ n := by
    rw [UInt32.le_iff_toNat_le, UInt32.toNat_sub_of_le n e.birth hn]
    exact Nat.sub_le _ _
  have hafter : t.ttl < n - e.birth → ¬ n < t.ttl := fun hlt hsmall =>
    absurd (UInt32.lt_of_lt_of_le (UInt32.lt_trans hsmall hlt) hage) (UInt32.lt_irrefl n)
  have hbury : ¬ n < t.ttl → t.isLocked = false →
      (e ∉ (t.fthashBury n).1.entries.all ↔ t.ttl < n - e.birth) := fun hlate hlocked =>
    (notMem_fthashBury he hlocked).trans (hdead.trans (or_iff_right hlate))
  constructor
  · intro h
    have hlook := fthashLookup2_eq_some_iff.symm.trans h.lookup
    constructor
    · intro hmet
      by_contra hsmall
      have hearly : n < t.ttl := UInt32.not_le.mp hsmall
      have hyoung : n - e.birth ≤ t.ttl := UInt32.le_trans hage (UInt32.le_of_lt hearly)
      exact absurd (hlook.mpr hyoung).2 (by simp [hdead.mpr (.inl hearly)])
    · intro hmet
      by_contra hold
      exact hmet (hlook.mpr (UInt32.not_lt.mp hold)).1
  · rintro ⟨hfirst, hbehind⟩
    by_cases hmet : t.met hash same e.key = some e
    · have hlate : ¬ n < t.ttl := UInt32.not_lt.mpr (hfirst hmet)
      refine ⟨fthashLookup2_eq_some_iff.trans ?_, hbury hlate⟩
      rw [and_iff_right hmet, ← UInt32.not_lt, ← Bool.not_eq_true, hdead, or_iff_right hlate]
    · have hold := hbehind hmet
      refine ⟨fthashLookup2_eq_some_iff.trans ?_, hbury (hafter hold)⟩
      exact ⟨fun h => absurd h.1 hmet, fun h => absurd (UInt32.not_lt.mpr h) (not_not.mpr hold)⟩

end FTHashTable

namespace Ledger

variable {hash : K → Nat} {same : K → K → Bool}

/-- A call leaves entries as they are, or removes them; only an insertion makes one. -/
theorem mem_of_perform {t t' : FTHashTable K V} {call : Call K V} {o : Ledger K V}
    (hrun : perform hash same t call = some o) (ht' : t' ∈ o.table) {e : FTHashEntry K V}
    (he : e ∈ t'.entries.all) :
    e ∈ t.entries.all ∨ ∃ memOk, call = .insert e.key e.val memOk e.birth := by
  cases call with
  | insert k v memOk now =>
      obtain rfl := Option.some.inj hrun
      obtain rfl := Option.some.inj ht'
      refine (FTHashTable.mem_fthashInsert he).imp_right fun hnew => ⟨memOk, ?_⟩
      rw [hnew.1]
  | lookup k now =>
      obtain rfl := Option.some.inj hrun
      obtain rfl := Option.some.inj ht'
      exact .inl (FTHashTable.mem_of_shrinks (FTHashTable.fthashLookup2_shrinks t k now) he)
  | lookup2 k now =>
      obtain rfl := Option.some.inj hrun
      obtain rfl := Option.some.inj ht'
      exact .inl (FTHashTable.mem_of_shrinks (FTHashTable.fthashLookup2_shrinks t k now) he)
  | markRemoved k =>
      obtain rfl := Option.some.inj hrun
      obtain rfl := Option.some.inj ht'
      exact .inl (FTHashTable.mem_of_shrinks (FTHashTable.fthashRemove3_shrinks t k .move) he)
  | remove k =>
      obtain rfl := Option.some.inj hrun
      obtain rfl := Option.some.inj ht'
      exact .inl (FTHashTable.mem_of_shrinks (FTHashTable.fthashRemove3_shrinks t k .freeVal) he)
  | remove2 k =>
      obtain rfl := Option.some.inj hrun
      obtain rfl := Option.some.inj ht'
      exact .inl (FTHashTable.mem_of_shrinks (FTHashTable.fthashRemove3_shrinks t k .none) he)
  | lock =>
      obtain rfl := Option.some.inj hrun
      obtain rfl := Option.some.inj ht'
      exact .inl he
  | unLockAll now =>
      obtain ⟨r, hunlock, rfl⟩ := Option.map_eq_some_iff.mp hrun
      obtain rfl := Option.some.inj ht'
      exact .inl (FTHashTable.mem_of_shrinks (FTHashTable.fthashUnLockAll_shrinks hunlock) he)
  | flush =>
      obtain rfl := Option.some.inj hrun
      obtain rfl := Option.some.inj ht'
      exact .inl he
  | bury now =>
      obtain rfl := Option.some.inj hrun
      obtain rfl := Option.some.inj ht'
      exact .inl (FTHashTable.mem_of_shrinks (FTHashTable.fthashBury_shrinks t now) he)
  | setMaxEntries n now =>
      obtain ⟨r, hset, rfl⟩ := Option.map_eq_some_iff.mp hrun
      obtain rfl := Option.some.inj ht'
      exact .inl (FTHashTable.mem_of_shrinks (FTHashTable.fthashSetMaxEntries_shrinks hset) he)
  | setTimeToLive ttl =>
      obtain rfl := Option.some.inj hrun
      obtain rfl := Option.some.inj ht'
      unfold FTHashTable.fthashSetTimeToLive at he
      split at he
      · exact .inl he
      · exact .inl he
  | delete =>
      obtain rfl := Option.some.inj hrun
      cases ht'

/-- The entries of a run that were not there at its start were inserted at their birth. -/
theorem mem_of_run {calls : List (Call K V)} : ∀ {c c' : Ledger K V},
    calls.foldlM (step hash same) c = some c' → ∀ t' ∈ c'.table, ∀ e ∈ t'.entries.all,
      (∃ t ∈ c.table, e ∈ t.entries.all) ∨ ∃ memOk, .insert e.key e.val memOk e.birth ∈ calls := by
  induction calls with
  | nil =>
      intro c c' hrun t' ht' e he
      obtain rfl : c = c' := Option.some.inj hrun
      exact .inl ⟨t', ht', he⟩
  | cons call calls ih =>
      intro c c' hrun t' ht' e he
      rw [List.foldlM_cons] at hrun
      obtain ⟨c₁, hstep, hrest⟩ := Option.bind_eq_some_iff.mp hrun
      rcases ih hrest t' ht' e he with ⟨t₁, ht₁, he₁⟩ | ⟨memOk, hmem⟩
      · unfold step at hstep
        cases htable : c.table with
        | none =>
            rw [htable] at hstep
            obtain rfl := Option.some.inj hstep
            rw [htable] at ht₁
            cases ht₁
        | some t =>
            rw [htable] at hstep
            obtain ⟨o, hperform, rfl⟩ := Option.map_eq_some_iff.mp hstep
            rcases mem_of_perform hperform ht₁ he₁ with hold | ⟨memOk, rfl⟩
            · exact .inl ⟨t, rfl, hold⟩
            · exact .inr ⟨memOk, List.mem_cons_self⟩
      · exact .inr ⟨memOk, List.mem_cons_of_mem call hmem⟩

/-- In any run of a new table an entry that is still on its chain was inserted at its birth, and
its lifetime is exact while the clock is not below the time to live, unless another entry with
its key stands in front of it. -/
theorem expires_run {size keySize maxEntries ttl : UInt32} {memOk : Bool} {t₀ t : FTHashTable K V}
    (h : fthashNew size keySize maxEntries ttl memOk = some t₀)
    {calls : List (Call K V)} {c : Ledger K V}
    (hrun : calls.foldlM (step hash same) (start t₀) = some c) (ht : c.table = some t)
    {e : FTHashEntry K V} (he : e ∈ t.entries.all) :
    (∃ memOk, .insert e.key e.val memOk e.birth ∈ calls) ∧ ∀ n, e.birth ≤ n →
      (t.Expires hash same e n ↔ (t.met hash same e.key = some e → t.ttl ≤ n) ∧
        (t.met hash same e.key ≠ some e → t.ttl < n - e.birth)) := by
  refine ⟨?_, fun n hn => FTHashTable.expires_iff he hn⟩
  rcases mem_of_run hrun t ht e he with ⟨t₁, ht₁, he₁⟩ | hinserted
  · obtain rfl : t₀ = t₁ := Option.some.inj ht₁
    rw [(@FTHashTable.indexed_new _ _ hash (fun _ _ => True) _ _ _ _ _ _ h).2] at he₁
    cases he₁
  · exact hinserted

/-- An entry with a lifetime of a minute that was inserted at 100. -/
theorem expires_run_minute :
    (∃ memOk, .insert 1 (some 7) memOk 100 ∈
      ([.insert 1 (some 7) true 100] : List (Call Nat Nat))) ∧
      ∀ n, 100 ≤ n → ((Session.minuteTable.fthashInsert (fun k => k) 1 (some 7) true 100).1.Expires
          (fun k => k) (fun a b => a == b) ⟨1, 100, some 7⟩ n ↔
        ((Session.minuteTable.fthashInsert (fun k => k) 1 (some 7) true 100).1.met (fun k => k)
            (fun a b => a == b) 1 = some ⟨1, 100, some 7⟩ → 60 ≤ n) ∧
          ((Session.minuteTable.fthashInsert (fun k => k) 1 (some 7) true 100).1.met (fun k => k)
            (fun a b => a == b) 1 ≠ some ⟨1, 100, some 7⟩ → 60 < n - 100)) := by
  have hnew : fthashNew 1 4 20 60 true = some Session.minuteTable := rfl
  have hmem : ⟨1, 100, some 7⟩ ∈
      (Session.minuteTable.fthashInsert (fun k => k) 1 (some 7) true 100).1.entries.all := by decide
  exact expires_run hnew rfl rfl hmem

/-- On a machine that has been up for twenty seconds without a clock, an entry of ten seconds is
not found. -/
theorem not_expires_early : fthashNew 1 4 20 60 true = some Session.minuteTable ∧
    ⟨1, 10, some 7⟩ ∈
      (Session.minuteTable.fthashInsert (fun k => k) 1 (some 7) true 10).1.entries.all ∧
    ¬ (Session.minuteTable.fthashInsert (fun k => k) 1 (some 7) true 10).1.Expires (fun k => k)
      (fun a b => a == b) ⟨1, 10, some 7⟩ 20 := by
  refine ⟨rfl, by decide, fun h => ?_⟩
  exact absurd (h.lookup.mpr (by decide)) (by decide)

end Ledger

end Expiry

end Anfs.Cache
