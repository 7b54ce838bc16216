import Anfs.Buf.Order
import Anfs.File.Clusters

/-!
# The order of all clusters

`CacheInv` adds to the accounts that every cluster is in order. Cached writes keep it when
they are orderly, whatever else happens in between.
-/
namespace Anfs.File
open Anfs.Lib Anfs.Nfs Anfs.Buf Relation

/-- The cluster of the file `efh` is in order. -/
def InOrder (g : Pool) (efh : EFH) : Prop :=
  ∀ srv, Tidy ⟨g, srv, efh.cluster⟩ (chainOf g efh) ∧
    UsedBut ⟨g, srv, efh.cluster⟩ (chainOf g efh) none

structure CacheInv (g : Pool) (fhs : List EFH) : Prop where
  pool : PoolInv g fhs
  order : ∀ efh ∈ fhs, InOrder g efh

section Keep
variable {g g' : Pool} {fhs fhs' pre post : List EFH} {efh efh' : EFH}

/-- The order of a cluster depends on its headers only. -/
theorem InOrder.congr (h : InOrder g efh) (hchain : chainOf g' efh' = chainOf g efh)
    (hmax : efh'.cluster.wbcWBufsMax = efh.cluster.wbcWBufsMax)
    (hhdr : ∀ p ∈ chainOf g efh, g'.offs p = g.offs p ∧ (g'.blk p).info = (g.blk p).info) :
    InOrder g' efh' := by
  intro srv
  obtain ⟨htidy, hused⟩ := h srv
  rw [hchain]
  refine ⟨⟨htidy.ordered.congr fun p hp => (hhdr p hp).1, fun p hp => ?_, ?_⟩, fun p hp hnil => ?_⟩
  · have := htidy.normal p hp
    rw [← (hhdr p hp).2] at this
    exact this
  · have := htidy.len
    simp only at this ⊢
    omega
  · refine hused p hp ?_
    rw [← hnil]
    exact (hhdr p hp).2.symm

theorem InOrder.empty (hused : efh.cluster.wbcWBufsUsed = 0)
    (hmax : 0 ≤ efh.cluster.wbcWBufsMax) : InOrder g efh := by
  intro srv
  rw [chainOf_empty hused]
  exact ⟨Tidy.nil hmax, UsedBut.nil _ _⟩

theorem inOrder_ofHeaders : OfHeaders InOrder where
  congr h chain max hdr := h.congr chain max hdr
  opened used max := .empty used max
  emptied {g g' efh efh'} h used max := by
    have srv : Server := ⟨fun _ => ⟨fun _ => 0, 0⟩, fun _ => .done 0, 0, []⟩
    have hlen := (h srv).1.len
    simp only at hlen
    exact .empty used (by omega)

theorem orderly_writeKeeps : WriteKeeps InOrder OrderlyWrite := by
  intro s s' buf num r howns hself hok hnum hrun
  obtain ⟨htidy, hused⟩ := hself s.srv
  obtain ⟨l, fr, howns', hmoved, htidy', hused'⟩ :=
    wcWriteCache_tidied howns htidy hused hnum hok hrun
  refine ⟨l, fr, howns', hmoved, fun hchain srv => ?_⟩
  rw [hchain]
  exact ⟨⟨htidy'.ordered, htidy'.normal, htidy'.len⟩, hused'⟩

theorem CacheInv.clusters (h : CacheInv g fhs) : Clusters InOrder g fhs := ⟨h.pool, h.order⟩

theorem cacheInv_of_clusters (h : Clusters InOrder g fhs) : CacheInv g fhs := ⟨h.pool, h.each⟩

/-- A touch keeps the clusters in order. -/
theorem Touch.cacheInv {m : Int} {x y : Pool × List EFH} (ht : Touch OrderlyWrite m x y)
    (hm : 0 ≤ m) (h : CacheInv x.1 x.2) : CacheInv y.1 y.2 :=
  cacheInv_of_clusters (ht.clusters inOrder_ofHeaders orderly_writeKeeps hm h.clusters)

end Keep

/-- The representation of a write cache. -/
def CacheRep (g : Pool) (wbc : WBufCluster) : Prop :=
  ∃ l fr, Linked g.next wbc.wbcFirstData l ∧ wbc.wbcWBufsUsed = l.length ∧
    (wbc.wbcWBufsUsed : Int) ≤ wbc.wbcWBufsMax ∧ (l ≠ [] → wbc.wbcLastData = l.getLast?) ∧
    (∀ p ∈ l, MBUFSIZE ∣ g.offs p) ∧ (l.map g.offs).Pairwise (· < ·) ∧
    Linked g.next g.gFreeWBufHdr fr ∧ (∀ p ∈ l, p ∉ fr) ∧
    ∀ p ∈ l, (g.blk p).info ≠ [] ∧ Normal 0 (MBUFSIZE - 1) (g.blk p).info

/-- `wbc_PosData` when `WBufWrite` is entered: a chained header that covers `wbc_FilePos` or
is the last one lying before it. -/
def EnteredRight (s : WState) : Prop :=
  ∃ l₁ p l₂, Linked s.pool.next s.wbc.wbcFirstData (l₁ ++ p :: l₂) ∧
    s.wbc.wbcPosData = some p ∧
    ((s.pool.offs p ≤ s.wbc.wbcFilePos ∧ s.wbc.wbcFilePos < s.pool.offs p + MBUFSIZE) ∨
      (s.pool.offs p + MBUFSIZE ≤ s.wbc.wbcFilePos ∧
        ∀ q ∈ l₂, s.wbc.wbcFilePos < s.pool.offs q + MBUFSIZE))

/-- The condition on an action: a write that is cached is orderly. -/
def KeepsOrder (g : Global) (a : Action) : Prop :=
  ∀ x ∈ writeCall g a, OrderlyWrite x.1 x.2.1 x.2.2

instance (g : Global) (a : Action) : Decidable (KeepsOrder g a) := by
  unfold KeepsOrder; infer_instance

section Run
variable {g g' : Global} {p : Pool} {fhs : List EFH} {efh : EFH}

theorem rep_of_tidy {s : WState} {l fr : List Ptr} (howns : Owns s ⟨l, [], fr⟩) (htidy : Tidy s l)
    (hused : UsedBut s l none) : CacheRep s.pool s.wbc := by
  have hlen := htidy.len
  have hcount := howns.used
  have hnd := howns.nodup
  simp only [Hold.hdrs, List.append_nil] at hnd
  refine ⟨l, fr, howns.chain, hcount, by simp only at hcount; omega, howns.last, fun p hp => ?_, ?_,
    howns.free, fun p hp hfr => ?_, fun p hp => ⟨fun hnil => ?_, htidy.normal p hp⟩⟩
  · exact Int.dvd_of_emod_eq_zero (htidy.ordered.aligned p hp)
  · exact List.pairwise_map.mpr htidy.ordered.ascending
  · exact (List.nodup_append'.mp hnd).2.2 hp hfr
  · exact absurd (hused p hp hnil) (by simp)

theorem CacheInv.rep (h : CacheInv p fhs) (hmem : efh ∈ fhs) : CacheRep p efh.cluster := by
  obtain ⟨pre, post, rfl⟩ := List.append_of_mem hmem
  have srv : Server := ⟨fun _ => ⟨fun _ => 0, 0⟩, fun _ => .done 0, 0, []⟩
  obtain ⟨htidy, hused⟩ := h.order efh hmem srv
  exact rep_of_tidy (h.pool.owns srv) htidy hused

theorem CacheInv.touches (h : CacheInv g.pool g.gFH) (hsize : 0 ≤ g.gBufSizePerFile)
    (ht : Touches OrderlyWrite g g') : CacheInv g'.pool g'.gFH :=
  cacheInv_of_clusters (h.clusters.touches inOrder_ofHeaders orderly_writeKeeps hsize ht)

/-- The state a packet calls `wc_WriteCache` in. -/
theorem CacheInv.writeCall (h : CacheInv g.pool g.gFH) {a : Action}
    {x : FState × (Nat → UInt8) × Int} (hx : x ∈ writeCall g a) :
    0 < x.2.2 ∧ ∃ l fr, Owns x.1.w ⟨l, [], fr⟩ ∧ Tidy x.1.w l ∧ UsedBut x.1.w l none := by
  obtain ⟨hnum, howns, -, hself⟩ := h.clusters.writeCall inOrder_ofHeaders hx
  obtain ⟨htidy, hused⟩ := hself x.1.srv
  exact ⟨hnum, _, _, howns, htidy, hused⟩

theorem enteredRight_of_between {fh : Fh} {s₀ s : WState} {v₀ : Hold} {num : Int}
    (h : Between fh s₀ v₀ s num) (hnum : num ≠ 0) : EnteredRight s := by
  obtain ⟨l, fr, howns, -, htidy, -, hat⟩ := h.chain
  obtain ⟨p, hat⟩ := hat hnum
  obtain ⟨l₁, l₂, rfl⟩ := List.append_of_mem hat.mem
  refine ⟨l₁, p, l₂, howns.chain, hat.posData, ?_⟩
  by_cases hlt : s.wbc.wbcFilePos < s.pool.offs p + MBUFSIZE
  · exact .inl ⟨hat.le, hlt⟩
  · refine .inr ⟨Int.not_lt.mp hlt, fun q hq => hat.behind q (by simp [hq]) ?_⟩
    have := htidy.ordered.after hq
    simp only [MBUFSIZE] at this
    omega

theorem cacheInv_run (hsize : 0 ≤ g.gBufSizePerFile) (numMBufs numWBufs avail : Nat) (ok : Bool)
    {as : List Action}
    (h : Guarded stepRun (OnOk KeepsOrder) (gInit g numMBufs numWBufs avail ok) as)
    (hrun : run stepRun (gInit g numMBufs numWBufs avail ok) as = .ok g') :
    CacheInv g'.pool g'.gFH ∧ 0 ≤ g'.gBufSizePerFile :=
  have hend := clusters_run inOrder_ofHeaders orderly_writeKeeps
    hsize numMBufs numWBufs avail ok h hrun
  ⟨cacheInv_of_clusters hend.1, hend.2⟩

/-- The write caches are in order in every state that a run of orderly actions reaches, and
so is the position at every call of `WBufWrite`. -/
theorem cacheRep_run (hsize : 0 ≤ g.gBufSizePerFile) (numMBufs numWBufs avail : Nat) (ok : Bool)
    (as : List Action)
    (h : Guarded stepRun (OnOk KeepsOrder) (gInit g numMBufs numWBufs avail ok) as)
    (hrun : run stepRun (gInit g numMBufs numWBufs avail ok) as = .ok g') :
    (∀ efh ∈ g'.gFH, CacheRep g'.pool efh.cluster) ∧
      ∀ a, KeepsOrder g' a → ∀ x ∈ writeCall g' a,
        (∀ y ∈ writeEntries x.1 x.2.1 x.2.2, EnteredRight y.state) ∧
          ∀ r s', wcWriteCache x.1 x.2.1 x.2.2 = .ok (r, s') → CacheRep s'.pool s'.efh.cluster := by
  obtain ⟨hinv, -⟩ := cacheInv_run hsize numMBufs numWBufs avail ok h hrun
  refine ⟨fun efh hmem => hinv.rep hmem, fun a hok x hx => ?_⟩
  obtain ⟨hnum, l, fr, howns, htidy, hused⟩ := hinv.writeCall hx
  refine ⟨fun y hy => ?_, fun r s' hwrite => ?_⟩
  · obtain ⟨hbetween, hne⟩ := writeEntries_between howns htidy hused hnum (hok x hx) y hy
    exact enteredRight_of_between hbetween hne
  · obtain ⟨l', fr', howns', -, htidy', hused'⟩ :=
      wcWriteCache_tidied howns htidy hused hnum (hok x hx) hwrite
    exact rep_of_tidy howns' htidy' hused'

theorem cacheRep_run_writes :
    ∃ g', run stepRun (gInit exGlobal 1 16 1 true) exWrites = .ok g' ∧
      ∀ efh ∈ g'.gFH, CacheRep g'.pool efh.cluster := by
  have hends : (run stepRun (gInit exGlobal 1 16 1 true) exWrites).toOption.isSome = true := by
    decide +kernel
  cases h : run stepRun (gInit exGlobal 1 16 1 true) exWrites with
  | error f => rw [h] at hends; cases hends
  | ok g' =>
      exact ⟨g', rfl, (cacheRep_run (by decide) 1 16 1 true exWrites (by decide +kernel) h).1⟩

/-- A write over two cached blocks that goes on behind them. -/
def exOverlap : List Action :=
  [.openFile MODE_NEWFILE 0 0 1 true true, .write 1 (fun _ => 1) 16384,
    .seek 1 1 OFFSET_BEGINNING, .write 1 (fun _ => 2) 16384]

/-- The block behind the two is chained between them. -/
theorem not_cacheRep_overlap :
    ∃ g', run stepRun (gInit exGlobal 8 16 8 true) exOverlap = .ok g' ∧
      ¬ ∀ efh ∈ g'.gFH, CacheRep g'.pool efh.cluster := by
  have hends : (run stepRun (gInit exGlobal 8 16 8 true) exOverlap).toOption.map (fun g' =>
      g'.gFH.map fun efh => (chainOf g'.pool efh).map g'.pool.offs) = some [[0, 16384, 8192]] := by
    decide +kernel
  cases h : run stepRun (gInit exGlobal 8 16 8 true) exOverlap with
  | error f => rw [h] at hends; cases hends
  | ok g' =>
      refine ⟨g', rfl, fun hall => ?_⟩
      rw [h] at hends
      simp only [Except.toOption, Option.map_some, Option.some.injEq] at hends
      obtain ⟨efh, hfh, hoffs⟩ : ∃ efh, g'.gFH = [efh] ∧
          (chainOf g'.pool efh).map g'.pool.offs = [0, 16384, 8192] := by
        cases hfhs : g'.gFH with
        | nil => rw [hfhs] at hends; cases hends
        | cons efh rest =>
            rw [hfhs] at hends
            cases rest with
            | nil => exact ⟨efh, rfl, by simpa using hends⟩
            | cons e rest => simp at hends
      obtain ⟨l, fr, hl, hused, -, -, -, hsorted, -⟩ := hall efh (by simp [hfh])
      rw [← chainOf_eq hl hused, hoffs] at hsorted
      revert hsorted
      decide

end Run

end Anfs.File
