import Anfs.File.Accounts

/-!
# A property of every cluster

An action touches one cluster at a time, and a cluster only when it flushes it or writes to it. A
property of clusters that is kept by a write, and that an empty cluster has, therefore holds of all
clusters in a whole run.
-/
namespace Anfs.File
open Anfs.Lib Anfs.Nfs Anfs.Buf Relation

/-- `I` speaks of the headers of a cluster, and is kept when the cluster is emptied. -/
structure OfHeaders (I : Pool → EFH → Prop) : Prop where
  congr {g g' : Pool} {efh efh' : EFH} (h : I g efh) (chain : chainOf g' efh' = chainOf g efh)
    (max : efh'.cluster.wbcWBufsMax = efh.cluster.wbcWBufsMax)
    (hdr : ∀ p ∈ chainOf g efh, g'.offs p = g.offs p ∧ (g'.blk p).info = (g.blk p).info) : I g' efh'
  opened {g : Pool} {efh : EFH} (used : efh.cluster.wbcWBufsUsed = 0)
    (max : 0 ≤ efh.cluster.wbcWBufsMax) : I g efh
  emptied {g g' : Pool} {efh efh' : EFH} (h : I g efh) (used : efh'.cluster.wbcWBufsUsed = 0)
    (max : efh'.cluster.wbcWBufsMax = efh.cluster.wbcWBufsMax) : I g' efh'

/-- A cached write of the kind `W` keeps `I`, and the accounts. -/
def WriteKeeps (I : Pool → EFH → Prop) (W : FState → (Nat → UInt8) → Int → Prop) : Prop :=
  ∀ s s' buf num r, Owns s.w ⟨chainOf s.pool s.efh, [], freeHdrs s.pool⟩ → I s.pool s.efh →
    W s buf num → 0 < num → wcWriteCache s buf num = .ok (r, s') →
    ∃ l fr, Owns s'.w ⟨l, [], fr⟩ ∧
      Moved s.efh.efhNFSFh s.w ⟨chainOf s.pool s.efh, [], freeHdrs s.pool⟩ s'.w ⟨l, [], fr⟩ ∧
      (chainOf s'.pool s'.efh = l → I s'.pool s'.efh)

/-- The accounts, and `I` of every cluster. -/
structure Clusters (I : Pool → EFH → Prop) (g : Pool) (fhs : List EFH) : Prop where
  pool : PoolInv g fhs
  each : ∀ efh ∈ fhs, I g efh

section Keep
variable {I : Pool → EFH → Prop} {W : FState → (Nat → UInt8) → Int → Prop} {g g' : Pool}
  {fhs fhs' pre post : List EFH} {efh efh' : EFH}

/-- An action that moves no header. -/
theorem Clusters.reshape (hI : OfHeaders I) (h : Clusters I g fhs) (hinv : PoolInv g' fhs')
    (hwbh : g'.wbh = g.wbh)
    (hfhs : ∀ x ∈ fhs', x.cluster.wbcWBufsUsed = 0 ∧ 0 ≤ x.cluster.wbcWBufsMax ∨
      ∃ y ∈ fhs, x.cluster = y.cluster) : Clusters I g' fhs' := by
  refine ⟨hinv, fun x hx => ?_⟩
  rcases hfhs x hx with ⟨hused, hmax⟩ | ⟨y, hy, heq⟩
  · exact hI.opened hused hmax
  · refine hI.congr (h.each y hy) (chainOf_congr hwbh heq) (by rw [heq]) fun p _ => ?_
    simp only [Pool.offs, Pool.blk, hwbh, and_self]

/-- A call on one open file that keeps `I` of its cluster. -/
theorem Clusters.replace (hI : OfHeaders I) {srv srv' : Server} {l fr : List Ptr}
    (h : Clusters I g (pre ++ efh :: post)) {fh : Fh}
    (howns : Owns ⟨g', srv', efh'.cluster⟩ ⟨l, [], fr⟩)
    (hmoved : Moved fh ⟨g, srv, efh.cluster⟩ ⟨chainOf g efh, [], freeHdrs g⟩
      ⟨g', srv', efh'.cluster⟩ ⟨l, [], fr⟩)
    (hrbuf : efh'.efhRBuf = efh.efhRBuf) (hself : chainOf g' efh' = l → I g' efh') :
    Clusters I g' (pre ++ efh' :: post) := by
  obtain ⟨hinv, hchain, hother⟩ := h.pool.replace efh' howns hmoved hrbuf
  refine ⟨hinv, fun x hx => ?_⟩
  have hcases : x = efh' ∨ x ∈ pre ++ post := by
    simp only [List.mem_append, List.mem_cons] at hx ⊢
    tauto
  rcases hcases with rfl | hx
  · exact hself hchain
  · have hmem : x ∈ pre ++ efh :: post := by
      simp only [List.mem_append, List.mem_cons] at hx ⊢
      tauto
    obtain ⟨hsame, hblk⟩ := hother x hx
    refine hI.congr (h.each x hmem) hsame rfl fun p hp => ?_
    rw [← Pool.blk_fileOffs, ← Pool.blk_fileOffs, hblk p hp]
    exact ⟨rfl, rfl⟩

variable (hI : OfHeaders I) (hkeep : WriteKeeps I W)
include hI hkeep

theorem Touch.clusters {m : Int} {x y : Pool × List EFH} (ht : Touch W m x y) (hm : 0 ≤ m)
    (h : Clusters I x.1 x.2) : Clusters I y.1 y.2 := by
  cases ht with
  | @flush pre post s s' err run =>
      have howns : Owns s.w _ := h.pool.owns s.srv
      obtain ⟨err', s'', hrun, hf, hsame, -⟩ := flushBuffered_spec howns
      rw [run] at hrun
      obtain ⟨rfl, rfl⟩ : err = err' ∧ s' = s'' := by simpa using hrun
      exact h.replace hI hf.owns hf.moved hsame.rbuf fun _ =>
        hI.emptied (h.each s.efh (by simp)) hf.owns.used hf.moved.max
  | @write pre post s s' buf num r ok pos run =>
      have howns : Owns s.w _ := h.pool.owns s.srv
      obtain ⟨l, fr, howns', hmoved, hself⟩ :=
        hkeep s s' buf num r howns (h.each s.efh (by simp)) ok pos run
      exact h.replace hI howns' hmoved (wcWriteCache_dropped run).same.rbuf hself
  | @rbuf pre post s s' moved =>
      have hcl : s'.efh.cluster = s.efh.cluster := congrArg (·.getD noCluster) moved.wbuf
      exact h.reshape hI (PoolInv.rbuf h.pool moved) moved.wbh fun x hx =>
        .inr (cluster_replace hcl x hx)
  | @fields g pre post efh efh' id wbuf rbuf =>
      have hinv := (Touch.fields id wbuf rbuf : Touch RoomyWrite m _ _).poolInv h.pool
      have hcl : efh'.cluster = efh.cluster := congrArg (·.getD noCluster) wbuf
      exact h.reshape hI hinv rfl fun x hx => .inr (cluster_replace hcl x hx)
  | @opened g fhs efh wbuf rbuf =>
      have hinv := (Touch.opened wbuf rbuf : Touch RoomyWrite m _ _).poolInv h.pool
      refine h.reshape hI hinv rfl fun x hx => ?_
      rcases List.mem_cons.mp hx with rfl | hx
      · refine .inl ⟨(cluster_fresh wbuf).2, ?_⟩
        unfold EFH.cluster
        cases hw : x.efhWBuf with
        | none => exact Int.le_refl 0
        | some wbc =>
            rw [wbuf wbc hw]
            exact hm
      · exact .inr ⟨x, hx, rfl⟩
  | @closed g pre post efh wbuf rbuf =>
      have hinv := (Touch.closed wbuf rbuf : Touch RoomyWrite m _ _).poolInv h.pool
      refine h.reshape hI hinv rfl fun x hx => .inr ⟨x, ?_, rfl⟩
      rcases List.mem_append.mp hx with hx | hx
      · exact List.mem_append_left _ hx
      · exact List.mem_append_right _ (List.mem_cons_of_mem _ hx)
  | @freed g g' fhs n pos run =>
      refine h.reshape hI (PoolInv.freed h.pool pos run) ?_ fun x hx => .inr ⟨x, hx, rfl⟩
      unfold mbFreeSomeMBufs at run
      split at run
      · cases run; rfl
      · cases run
  | @alloced g g' fhs n avail ok pos run =>
      refine h.reshape hI (PoolInv.alloced h.pool pos run) ?_ fun x hx => .inr ⟨x, hx, rfl⟩
      cases ok with
      | true => rw [mbAllocMoreMBufs_done run]
      | false => rw [mbAllocMoreMBufs_failed pos run]

theorem Clusters.touches {g g' : Global} (h : Clusters I g.pool g.gFH)
    (hsize : 0 ≤ g.gBufSizePerFile) (ht : Touches W g g') : Clusters I g'.pool g'.gFH := by
  have hm : 0 ≤ g.bufsPerFile := Int.tdiv_nonneg hsize (Int.natCast_nonneg 8192)
  have hall : ∀ {y : Pool × List EFH}, ReflTransGen (Touch W g.bufsPerFile) g.files y →
      Clusters I y.1 y.2 := by
    intro y hy
    induction hy with
    | refl => exact h
    | tail _ hstep ih => exact hstep.clusters hI hkeep hm ih
  exact hall ht.files

/-- The run rule: every cached write of every action is of the kind `W`. -/
theorem clusters_run {g g' : Global} (hsize : 0 ≤ g.gBufSizePerFile)
    (numMBufs numWBufs avail : Nat) (ok : Bool) {as : List Action}
    (h : Guarded stepRun (OnOk fun g a => ∀ x ∈ writeCall g a, W x.1 x.2.1 x.2.2)
      (gInit g numMBufs numWBufs avail ok) as)
    (hrun : run stepRun (gInit g numMBufs numWBufs avail ok) as = .ok g') :
    Clusters I g'.pool g'.gFH ∧ 0 ≤ g'.gBufSizePerFile := by
  refine Guarded.invariant (P := fun r => ∀ g, r = .ok g →
    Clusters I g.pool g.gFH ∧ 0 ≤ g.gBufSizePerFile) ?_ ?_ h g' hrun
  · intro r a hP hok g₂ hstep
    obtain ⟨g₁, rfl, hstep⟩ := ok_of_bind hstep
    obtain ⟨hinv, hsize₁⟩ := hP g₁ rfl
    have hto := step_touches (hok g₁ rfl) hstep
    exact ⟨hinv.touches hI hkeep hsize₁ hto, by rw [hto.size]; exact hsize₁⟩
  · intro g₁ hg₁
    obtain ⟨g₀, hinit, hfhs, hinv⟩ := gInit_poolInv g numMBufs numWBufs avail ok
    rw [hinit] at hg₁
    cases hg₁
    refine ⟨⟨by rw [hfhs]; exact hinv, by simp [hfhs]⟩, ?_⟩
    unfold gInit at hinit
    obtain ⟨x, -, hinit⟩ := ok_of_bind hinit
    cases hinit
    exact hsize

omit hkeep

/-- The state of an open file whose read buffer has been given up. -/
theorem Clusters.released {g : Global} (h : Clusters I g.pool g.gFH) {id : Int} {s : FState}
    (hlook : fhLookup g.gFH id = some efh) (hrel : releaseBuffered (g.state efh) = .ok s) :
    Owns s.w ⟨chainOf s.pool s.efh, [], freeHdrs s.pool⟩ ∧
      (chainOf s.pool s.efh).length ≤ s.pool.gNumWBufHdrs.toNat ∧ I s.pool s.efh := by
  obtain ⟨-, pre, post, hg, -⟩ := fhLookup_split hlook
  have hmoved := (releaseBuffered_moved hrel).1
  rw [hg] at h
  have hcl : s.efh.cluster = efh.cluster := congrArg (·.getD noCluster) hmoved.wbuf
  have hinv : Clusters I s.pool (pre ++ s.efh :: post) :=
    h.reshape hI (PoolInv.rbuf (s := g.state efh) h.pool hmoved) hmoved.wbh
      fun x hx => .inr (cluster_replace hcl x hx)
  exact ⟨hinv.pool.owns s.srv, length_chainOf_le hinv.pool (by simp), hinv.each s.efh (by simp)⟩

/-- The state a packet calls `wc_WriteCache` in. -/
theorem Clusters.writeCall {g : Global} (h : Clusters I g.pool g.gFH) {a : Action}
    {x : FState × (Nat → UInt8) × Int} (hx : x ∈ writeCall g a) :
    0 < x.2.2 ∧ Owns x.1.w ⟨chainOf x.1.pool x.1.efh, [], freeHdrs x.1.pool⟩ ∧
      (chainOf x.1.pool x.1.efh).length ≤ x.1.pool.gNumWBufHdrs.toNat ∧ I x.1.pool x.1.efh := by
  cases a with
  | write id buf num =>
      simp only [File.writeCall] at hx
      cases hlook : fhLookup g.gFH id with
      | none => rw [hlook] at hx; cases hx
      | some efh =>
          rw [hlook] at hx
          simp only at hx
          split at hx
          · cases hx
          · rename_i hno
            cases hrel : releaseBuffered (g.state efh) with
            | error f => rw [hrel] at hx; cases hx
            | ok s =>
                rw [hrel] at hx
                cases hx
                simp only [not_or] at hno
                exact ⟨Int.not_le.mp hno.2.2, h.released hI hlook hrel⟩
  | openFile mode fileLen fh key wbuf rbuf => cases hx
  | read id buf num ans => cases hx
  | seek id offset mode => cases hx
  | setFileSize id offset mode numLocks ans => cases hx
  | flush => cases hx
  | timer => cases hx
  | updateAuth ok => cases hx
  | moreCache num avail => cases hx
  | endFile id => cases hx

end Keep

end Anfs.File
