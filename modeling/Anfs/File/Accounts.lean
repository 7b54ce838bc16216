import Anfs.File.Pool
import Anfs.Lib.Run
import Mathlib.Algebra.GroupWithZero.Nat

/-!
# The accounts of the pools

Every touch of the pools keeps `PoolInv`, as long as the cached writes find room in the
interval tables. What is left to see is what `act_MORE_CACHE` gets when it asks the files
for their buffers: a flush returns those of the write caches, but the read buffers stay.
-/
namespace Anfs.File
open Anfs.Lib Anfs.Nfs Anfs.Buf Relation

/-- The calls of `WBufWrite` a cached write makes find room in the tables. -/
def RoomyWrite (s : FState) (buf : Nat → UInt8) (num : Int) : Prop :=
  ∀ x ∈ writeEntries s buf num, TableRoom x.state x.num

instance (s : FState) (buf : Nat → UInt8) (num : Int) : Decidable (RoomyWrite s buf num) := by
  unfold RoomyWrite; infer_instance

section Touches
variable {g g' : Pool} {fhs fhs' pre post : List EFH} {efh efh' : EFH}

theorem cluster_fresh {max : Int}
    (h : ∀ wbc, efh.efhWBuf = some wbc → wbc = ⟨max, 0, none, none, none, 0⟩) :
    efh.cluster.wbcFirstData = none ∧ efh.cluster.wbcWBufsUsed = 0 := by
  unfold EFH.cluster
  cases hw : efh.efhWBuf with
  | none => exact ⟨rfl, rfl⟩
  | some wbc =>
      rw [h wbc hw]
      exact ⟨rfl, rfl⟩

theorem hasBufferedWData_eq_false (h : hasBufferedWData efh = false) :
    efh.cluster.wbcWBufsUsed = 0 := by
  unfold hasBufferedWData at h
  unfold EFH.cluster
  cases hw : efh.efhWBuf with
  | none => rfl
  | some wbc => simpa [hw] using h

theorem chainOf_empty (h : efh.cluster.wbcWBufsUsed = 0) : chainOf g efh = [] := by
  rw [chainOf, h]
  rfl

theorem chained_empty (h : efh.cluster.wbcWBufsUsed = 0) :
    chained g (pre ++ efh :: post) = chained g (pre ++ post) := by
  simp only [chained, List.flatMap_append, List.flatMap_cons, chainOf_empty h, List.nil_append]

theorem PoolInv.freed (h : PoolInv g fhs) {n : Int} (hn : 0 ≤ n)
    (hrun : mbFreeSomeMBufs g n = .ok g') : PoolInv g' fhs := by
  unfold mbFreeSomeMBufs at hrun
  split at hrun
  · rename_i hle
    cases hrun
    have hall : allMBufs g fhs = ((chained g fhs).map g.data ++ fhs.filterMap rbufData ++
        g.gFreeMBufs) := rfl
    have hsub : (allMBufs { g with
        gNumMBufs := g.gNumMBufs - n
        gNumFreeMBufs := g.gNumFreeMBufs - n
        gFreeMBufs := g.gFreeMBufs.drop n.toNat } fhs).Sublist (allMBufs g fhs) :=
      (List.drop_sublist _ _).append_left _
    have hnum := h.numM
    have hfree := h.numFreeM
    refine h.reshape rfl rfl rfl rfl (fun x hx => .inr ⟨x, hx, rfl⟩) rfl ?_ ?_
      (hsub.nodup h.mnodup) fun b hb => h.fresh b (hsub.subset hb)
    · simp only [List.length_drop]
      omega
    · rw [hall, List.length_append] at hnum
      rw [allMBufs, List.length_append]
      simp only [List.length_drop]
      simp only [List.length_append] at hnum ⊢
      have hsame : (chained { g with
          gNumMBufs := g.gNumMBufs - n
          gNumFreeMBufs := g.gNumFreeMBufs - n
          gFreeMBufs := g.gFreeMBufs.drop n.toNat } fhs).length = (chained g fhs).length := rfl
      simp only [List.length_map] at hnum ⊢
      rw [hsame]
      omega
  · cases hrun

/-- The loop of `mb_AllocMoreMBufs` puts new buffers in front of the free ones. -/
theorem allocLoop_spec (g : Pool) (i avail : Nat) :
    allocLoop g i avail =
      ({ g with
        gFreeMBufs := (List.range' g.newMBuf (min i avail)).reverse ++ g.gFreeMBufs
        newMBuf := g.newMBuf + min i avail }, i - avail) := by
  induction i generalizing g avail with
  | zero => simp [allocLoop]
  | succ i ih =>
      cases avail with
      | zero => simp [allocLoop]
      | succ avail =>
          rw [allocLoop, ih]
          simp only [Nat.add_min_add_right, List.range'_succ, List.reverse_cons,
            List.append_assoc, List.singleton_append]
          rw [Nat.add_right_comm, Nat.add_assoc, Nat.add_sub_add_right]

/-- An allocation that fails leaves the pool as it was. -/
theorem mbAllocMoreMBufs_failed {n : Int} {avail : Nat} (hn : 0 ≤ n)
    (hrun : mbAllocMoreMBufs g n avail = .ok (false, g')) :
    g' = { g with newMBuf := g.newMBuf + min n.toNat avail } := by
  unfold mbAllocMoreMBufs at hrun
  simp only [allocLoop_spec] at hrun
  split at hrun
  · cases hrun
  · rename_i hmissing
    obtain ⟨p, hfree, hrun⟩ := ok_of_bind hrun
    cases hrun
    have hnew : (n - ((n.toNat - avail : Nat) : Int)).toNat = min n.toNat avail := by omega
    unfold mbFreeSomeMBufs at hfree
    simp only [hnew, List.length_append, List.length_reverse, List.length_range'] at hfree
    rw [if_pos (by omega)] at hfree
    cases hfree
    congr 1
    · omega
    · omega
    · exact List.drop_left' (by simp)

theorem mbAllocMoreMBufs_done {n : Int} {avail : Nat}
    (hrun : mbAllocMoreMBufs g n avail = .ok (true, g')) :
    g' = { g with
      gNumMBufs := g.gNumMBufs + n
      gNumFreeMBufs := g.gNumFreeMBufs + n
      gFreeMBufs := (List.range' g.newMBuf n.toNat).reverse ++ g.gFreeMBufs
      newMBuf := g.newMBuf + n.toNat } := by
  unfold mbAllocMoreMBufs at hrun
  simp only [allocLoop_spec] at hrun
  split at hrun
  · rename_i hmissing
    cases hrun
    rw [hmissing, Nat.min_eq_left (by omega)]
    simp
  · obtain ⟨p, hfree, hrun⟩ := ok_of_bind hrun
    cases hrun

theorem mbAllocMoreMBufs_total (g : Pool) {n : Int} (avail : Nat) (hn : 0 ≤ n) :
    ∃ ok g', mbAllocMoreMBufs g n avail = .ok (ok, g') := by
  unfold mbAllocMoreMBufs
  simp only [allocLoop_spec]
  split
  · exact ⟨_, _, rfl⟩
  · unfold mbFreeSomeMBufs
    simp only [List.length_append, List.length_reverse, List.length_range']
    rw [if_pos (by omega)]
    exact ⟨_, _, rfl⟩

theorem PoolInv.alloced (h : PoolInv g fhs) {n : Int} {avail : Nat} {ok : Bool} (hn : 0 ≤ n)
    (hrun : mbAllocMoreMBufs g n avail = .ok (ok, g')) : PoolInv g' fhs := by
  have hnum := h.numM
  have hfree := h.numFreeM
  cases ok with
  | false =>
      rw [mbAllocMoreMBufs_failed hn hrun]
      exact h.reshape rfl rfl rfl rfl (fun x hx => .inr ⟨x, hx, rfl⟩) rfl hfree hnum h.mnodup
        fun b hb => Nat.lt_add_right _ (h.fresh b hb)
  | true =>
      rw [mbAllocMoreMBufs_done hrun]
      set g₁ : Pool := { g with
        gNumMBufs := g.gNumMBufs + n
        gNumFreeMBufs := g.gNumFreeMBufs + n
        gFreeMBufs := (List.range' g.newMBuf n.toNat).reverse ++ g.gFreeMBufs
        newMBuf := g.newMBuf + n.toNat }
      have hall : (allMBufs g₁ fhs).Perm (List.range' g.newMBuf n.toNat ++ allMBufs g fhs) := by
        rw [allMBufs_reshape (show g₁.wbh = g.wbh from rfl) rfl, allMBufs_reshape rfl rfl]
        refine List.perm_iff_count.mpr fun a => ?_
        simp only [g₁, List.count_append, List.count_reverse]
        omega
      refine h.reshape rfl rfl rfl rfl (fun x hx => .inr ⟨x, hx, rfl⟩) rfl ?_ ?_
        (hall.nodup_iff.mpr ?_) fun b hb => ?_
      · simp only [g₁, List.length_append, List.length_reverse, List.length_range']
        omega
      · rw [hall.length_eq, List.length_append, List.length_range']
        simp only [g₁]
        omega
      · rw [List.nodup_append']
        refine ⟨List.nodup_range', h.mnodup, List.disjoint_left.mpr fun b hb hb' => ?_⟩
        exact absurd (h.fresh b hb') (Nat.not_lt.mpr (List.mem_range'_1.mp hb).1)
      · simp only [g₁]
        rcases List.mem_append.mp (hall.mem_iff.mp hb) with hb | hb
        · exact (List.mem_range'_1.mp hb).2
        · exact Nat.lt_add_right _ (h.fresh b hb)

theorem filterMap_rbufData (pre post : List EFH) (efh : EFH) :
    (pre ++ efh :: post).filterMap rbufData =
      pre.filterMap rbufData ++ ((rbufData efh).toList ++ post.filterMap rbufData) := by
  rw [List.filterMap_append, List.filterMap_cons]
  cases rbufData efh with
  | none => rfl
  | some b => rfl

theorem PoolInv.rbuf {s s' : FState} (h : PoolInv s.pool (pre ++ s.efh :: post))
    (hmoved : RbufMoved s s') : PoolInv s'.pool (pre ++ s'.efh :: post) := by
  have hcl : s'.efh.cluster = s.efh.cluster := congrArg (·.getD noCluster) hmoved.wbuf
  refine h.shuffle hmoved.wbh hmoved.freeH hmoved.numFreeH hmoved.numH
    (fun x hx => .inr (cluster_replace hcl x hx)) (chained_replace hcl) hmoved.count hmoved.numM
    hmoved.newM ?_
  rw [filterMap_rbufData, filterMap_rbufData]
  have hperm := hmoved.perm
  refine List.perm_iff_count.mpr fun a => ?_
  have hcount := List.perm_iff_count.mp hperm a
  simp only [List.count_append] at hcount ⊢
  omega

/-- A touch keeps the accounts. -/
theorem Touch.poolInv {m : Int} {x y : Pool × List EFH} (ht : Touch RoomyWrite m x y)
    (h : PoolInv x.1 x.2) : PoolInv y.1 y.2 := by
  cases ht with
  | @flush pre post s s' err run =>
      have howns : Owns s.w _ := PoolInv.owns h s.srv
      obtain ⟨err', s'', hrun, hf, hsame, -⟩ := flushBuffered_spec howns
      rw [run] at hrun
      obtain ⟨rfl, rfl⟩ : err = err' ∧ s' = s'' := by simpa using hrun
      exact (PoolInv.replace _ h hf.owns hf.moved hsame.rbuf).1
  | @write pre post s s' buf num r ok pos run =>
      have howns : Owns s.w _ := PoolInv.owns h s.srv
      obtain ⟨l', fr', howns', hmoved, hsame⟩ := wcWriteCache_owns howns (by omega) ok run
      exact (PoolInv.replace _ h howns' hmoved hsame.rbuf).1
  | rbuf moved => exact PoolInv.rbuf h moved
  | @fields g pre post efh efh' id wbuf rbuf =>
      have hcl : efh'.cluster = efh.cluster := congrArg (·.getD noCluster) wbuf
      refine PoolInv.shuffle h rfl rfl rfl rfl (fun x hx => .inr (cluster_replace hcl x hx))
        (chained_replace hcl) rfl rfl rfl ?_
      simp only [List.filterMap_append, List.filterMap_cons, rbufData, rbuf]
      exact List.Perm.refl _
  | @opened g fhs efh wbuf rbuf =>
      obtain ⟨hfirst, hused⟩ := cluster_fresh wbuf
      have hchained : chained g ([] ++ efh :: fhs) = chained g ([] ++ fhs) := chained_empty hused
      refine PoolInv.shuffle h rfl rfl rfl rfl ?_ hchained rfl rfl rfl ?_
      · intro x hx
        rcases List.mem_cons.mp hx with rfl | hx
        · exact .inl ⟨hfirst, hused⟩
        · exact .inr ⟨x, hx, rfl⟩
      · rw [List.filterMap_cons_none rbuf]
  | @closed g pre post efh wbuf rbuf =>
      have hused := hasBufferedWData_eq_false wbuf
      refine PoolInv.shuffle h rfl rfl rfl rfl (fun x hx => .inr ⟨x, ?_, rfl⟩)
        (chained_empty hused).symm rfl rfl rfl ?_
      · rcases List.mem_append.mp hx with hx | hx
        · exact List.mem_append_left _ hx
        · exact List.mem_append_right _ (List.mem_cons_of_mem _ hx)
      · rw [List.filterMap_append, List.filterMap_append, List.filterMap_cons_none rbuf]
  | freed pos run => exact PoolInv.freed h pos run
  | alloced pos run => exact PoolInv.alloced h pos run

theorem PoolInv.touches {g g' : Global} (h : PoolInv g.pool g.gFH)
    (ht : Touches RoomyWrite g g') : PoolInv g'.pool g'.gFH := by
  have hall : ∀ {y : Pool × List EFH}, ReflTransGen (Touch RoomyWrite g.bufsPerFile) g.files y →
      PoolInv y.1 y.2 := by
    intro y hy
    induction hy with
    | refl => exact h
    | tail _ hstep ih => exact hstep.poolInv ih
  exact hall ht.files

end Touches

section Gather
variable {g g' : Global} {pre fhs : List EFH} {p : Pool} {srv : Server} {res : Int × Int}

/-- What flushing all files leaves of each. -/
theorem flushEach_left {fhs' : List EFH} {p' : Pool} {srv' : Server} {res' : Int × Int}
    (h : flushEach fhs p srv res = .ok (fhs', p', srv', res')) :
    fhs'.map EFH.efhRBuf = fhs.map EFH.efhRBuf ∧ ∀ e ∈ fhs', hasBufferedWData e = false := by
  induction fhs generalizing p srv res fhs' with
  | nil => cases h; simp
  | cons efh rest ih =>
      unfold flushEach at h
      obtain ⟨⟨err, s⟩, hflush, h⟩ := ok_of_bind h
      obtain ⟨-, hsame, hleft, -⟩ := flushBuffered_dropped hflush
      obtain ⟨⟨rest', p₁, srv₁, res₁⟩, hrest, h⟩ := ok_of_bind h
      cases h
      obtain ⟨hrbuf, hall⟩ := ih hrest
      cases err with
      | none => exact ⟨by simp [hrbuf, hsame.rbuf], List.forall_mem_cons.mpr ⟨hleft, hall⟩⟩
      | some res2 => exact ⟨by simp [hrbuf, hsame.rbuf], List.forall_mem_cons.mpr ⟨hleft, hall⟩⟩

/-- Flushing all files does not stop the program. -/
theorem flushEach_total (srv : Server) (res : Int × Int) (h : PoolInv p (pre ++ fhs)) :
    ∃ x, flushEach fhs p srv res = .ok x := by
  induction fhs generalizing pre p srv res with
  | nil => exact ⟨_, rfl⟩
  | cons efh rest ih =>
      have howns : Owns (FState.mk p srv efh).w _ := h.owns srv
      obtain ⟨err, s, hflush, hf, hsame, -⟩ := flushBuffered_spec howns
      have hone : PoolInv s.pool (pre ++ s.efh :: rest) :=
        (Touch.flush (m := 0) (s := ⟨p, srv, efh⟩) hflush).poolInv h
      unfold flushEach
      simp only [hflush, bind, Except.bind]
      cases err with
      | none =>
          have hone' : PoolInv s.pool ((pre ++ [s.efh]) ++ rest) := by simpa using hone
          obtain ⟨x, hx⟩ := ih s.srv res hone'
          simp only [hx]
          exact ⟨_, rfl⟩
      | some res2 =>
          have hmark : Touch RoomyWrite 0 (s.pool, pre ++ s.efh :: rest)
              (s.pool, pre ++ { s.efh with efhRes2 := res2 } :: rest) := .fields rfl rfl rfl
          have hone' : PoolInv s.pool ((pre ++ [{ s.efh with efhRes2 := res2 }]) ++ rest) := by
            simpa using hmark.poolInv hone
          obtain ⟨x, hx⟩ := ih s.srv (DOSFALSE, res2) hone'
          simp only [hx]
          exact ⟨_, rfl⟩

theorem flushAll_total (h : PoolInv g.pool g.gFH) : ∃ g', flushAll g = .ok g' := by
  obtain ⟨⟨fhs, p, srv, res⟩, hx⟩ :=
    flushEach_total g.srv (g.gRes1, g.gRes2) (show PoolInv g.pool ([] ++ g.gFH) from h)
  unfold flushAll
  simp only [hx, bind, Except.bind]
  exact ⟨_, rfl⟩

theorem actFLUSH_total (h : PoolInv g.pool g.gFH) : ∃ g', actFLUSH g = .ok g' := by
  obtain ⟨g', hg'⟩ := flushAll_total h
  unfold actFLUSH
  simp only [hg', bind, Except.bind]
  exact ⟨_, rfl⟩

theorem whenShort_total (mbufs : Int) {f : Global → Except Fault Global}
    (hf : ∃ g', f g = .ok g') : ∃ g', whenShort mbufs f g = .ok g' := by
  unfold whenShort
  split
  · exact hf
  · exact ⟨_, rfl⟩

theorem gatherMBufs_total (h : PoolInv g.pool g.gFH) (mbufs : Int) :
    ∃ g', gatherMBufs g mbufs = .ok g' := by
  obtain ⟨g₁, hg₁⟩ := whenShort_total mbufs (actFLUSH_total h)
  have hto := (whenShort_flushAll (W := RoomyWrite)
    (fun hf => ⟨actFLUSH_touches hf, actFLUSH_numM hf⟩) hg₁).1
  obtain ⟨g₂, hg₂⟩ := whenShort_total mbufs (flushAll_total (h.touches hto))
  unfold gatherMBufs
  simp only [hg₁, bind, Except.bind]
  exact ⟨g₂, hg₂⟩

/-- The number of open files that hold a buffer for reading. -/
def numRBufs (fhs : List EFH) : Nat := fhs.countP hasBufferedRData

theorem hasBufferedRData_eq (efh : EFH) : hasBufferedRData efh = (rbufData efh).isSome := by
  unfold hasBufferedRData rbufData
  cases efh.efhRBuf with
  | none => rfl
  | some rbh => rfl

theorem length_rbufData (fhs : List EFH) : (fhs.filterMap rbufData).length = numRBufs fhs := by
  induction fhs with
  | nil => rfl
  | cons e rest ih =>
      unfold numRBufs at ih ⊢
      rw [List.countP_cons, hasBufferedRData_eq]
      cases he : rbufData e with
      | none => rw [List.filterMap_cons_none he, ih]; rfl
      | some b => rw [List.filterMap_cons_some he, List.length_cons, ih]; rfl

theorem numRBufs_congr {fhs fhs' : List EFH}
    (h : fhs'.map EFH.efhRBuf = fhs.map EFH.efhRBuf) : numRBufs fhs' = numRBufs fhs := by
  have hmap : ∀ l : List EFH, numRBufs l =
      (l.map EFH.efhRBuf).countP fun o => (o.bind RBufHdr.rbhData).isSome := by
    intro l
    unfold numRBufs
    rw [List.countP_map]
    exact List.countP_congr fun e _ => by rw [hasBufferedRData_eq]; rfl
  rw [hmap, hmap, h]

theorem flushAll_left (h : flushAll g = .ok g') :
    numRBufs g'.gFH = numRBufs g.gFH ∧ ∀ e ∈ g'.gFH, hasBufferedWData e = false := by
  unfold flushAll at h
  obtain ⟨⟨fhs, p, srv, res⟩, heach, h⟩ := ok_of_bind h
  cases h
  obtain ⟨hrbuf, hall⟩ := flushEach_left heach
  exact ⟨numRBufs_congr hrbuf, hall⟩

/-- All buffers, when no file has data to write. -/
theorem PoolInv.free_of_flushed (h : PoolInv p fhs)
    (hflushed : ∀ e ∈ fhs, hasBufferedWData e = false) :
    p.gNumMBufs = numRBufs fhs + p.gFreeMBufs.length := by
  have hchained : chained p fhs = [] := List.flatMap_eq_nil_iff.mpr fun e he =>
    chainOf_empty (hasBufferedWData_eq_false (hflushed e he))
  rw [h.numM, allMBufs, hchained]
  simp only [List.map_nil, List.nil_append, List.length_append, length_rbufData]
  omega

theorem PoolInv.free_le (h : PoolInv p fhs) :
    (numRBufs fhs : Int) + p.gFreeMBufs.length ≤ p.gNumMBufs := by
  have hlen := h.numM
  rw [allMBufs] at hlen
  simp only [List.length_append, length_rbufData] at hlen
  omega

theorem whenShort_rbufs {mbufs : Int} {f : Global → Except Fault Global}
    (hf : ∀ {a b : Global}, f a = .ok b → numRBufs b.gFH = numRBufs a.gFH)
    (h : whenShort mbufs f g = .ok g') : numRBufs g'.gFH = numRBufs g.gFH := by
  unfold whenShort at h
  split at h
  · exact hf h
  · cases h; rfl

theorem actFLUSH_left (h : actFLUSH g = .ok g') :
    numRBufs g'.gFH = numRBufs g.gFH ∧ ∀ e ∈ g'.gFH, hasBufferedWData e = false := by
  unfold actFLUSH at h
  obtain ⟨g₁, hall, h⟩ := ok_of_bind h
  cases h
  exact (flushAll_left hall : numRBufs g₁.gFH = _ ∧ _)

/-- What the files give back is enough just when the read buffers fit into the pool that is
to be left. -/
theorem gatherMBufs_free {mbufs : Int} (h : PoolInv g.pool g.gFH)
    (hrun : gatherMBufs g mbufs = .ok g') :
    g'.pool.gNumMBufs - mbufs ≤ g'.pool.gFreeMBufs.length ↔
      (mbufs < g.pool.gNumMBufs → (numRBufs g.gFH : Int) ≤ mbufs) := by
  have hinv' : PoolInv g'.pool g'.gFH := h.touches (gatherMBufs_touches hrun).1
  have hnum' := (gatherMBufs_touches (W := RoomyWrite) hrun).2
  unfold gatherMBufs at hrun
  obtain ⟨g₁, hflush, hrun⟩ := ok_of_bind hrun
  have hrbufs : numRBufs g'.gFH = numRBufs g.gFH :=
    (whenShort_rbufs (fun hf => (flushAll_left hf).1) hrun).trans
      (whenShort_rbufs (fun hf => (actFLUSH_left hf).1) hflush)
  have hle := hinv'.free_le
  constructor
  · intro hfree _
    omega
  · intro hfit
    unfold whenShort at hrun
    split at hrun
    · have hflushed := hinv'.free_of_flushed (flushAll_left hrun).2
      by_cases hlt : mbufs < g.pool.gNumMBufs
      · have := hfit hlt
        omega
      · omega
    · cases hrun
      have hcount := hinv'.numFreeM
      omega

end Gather

/-- What the accounts say: every buffer and header is free or held once. -/
structure PoolAccounts (g : Global) : Prop where
  numFreeM : g.pool.gNumFreeMBufs = g.pool.gFreeMBufs.length
  numM : g.pool.gNumMBufs = g.pool.gNumFreeMBufs +
    (g.gFH.map fun efh => efh.cluster.wbcWBufsUsed).sum + numRBufs g.gFH
  numH : g.pool.gNumWBufHdrs = g.pool.gNumFreeWBufHdrs +
    (g.gFH.map fun efh => efh.cluster.wbcWBufsUsed).sum
  freeH : ∃ fr, Linked g.pool.next g.pool.gFreeWBufHdr fr ∧ g.pool.gNumFreeWBufHdrs = fr.length
  chains : ∀ efh ∈ g.gFH, ∃ l, Linked g.pool.next efh.cluster.wbcFirstData l ∧
    efh.cluster.wbcWBufsUsed = l.length
  nodup : (allMBufs g.pool g.gFH).Nodup

/-- The buffers `act_MORE_CACHE` leaves in the pool. -/
def mbufsLeft (g : Global) (num : Int) : Int := (distributeBuffers g (newNumBufs g num)).1

/-- `act_MORE_CACHE` frees no more buffers than are on the free list. -/
def FreesOnlyFree (g : Global) (num : Int) : Prop :=
  mbufsLeft g num < g.pool.gNumMBufs →
    ∃ g', gatherMBufs g (mbufsLeft g num) = .ok g' ∧
      g'.pool.gNumMBufs - mbufsLeft g num ≤ g'.pool.gFreeMBufs.length

/-- A failing `mb_AllocMoreMBufs` leaves the pool as it was. -/
def AllocAllOrNone (g : Pool) : Prop :=
  ∀ (n : Int) (avail : Nat), 0 ≤ n → ∃ ok g', mbAllocMoreMBufs g n avail = .ok (ok, g') ∧
    (ok = false → g'.gNumMBufs = g.gNumMBufs ∧ g'.gNumFreeMBufs = g.gNumFreeMBufs ∧
      g'.gFreeMBufs = g.gFreeMBufs)

/-- The condition on an action: a cached write finds room in the interval tables, and the
buffers held for reading fit into the pool `act_MORE_CACHE` leaves. -/
def KeepsAccounts (g : Global) (a : Action) : Prop :=
  (∀ x ∈ writeCall g a, RoomyWrite x.1 x.2.1 x.2.2) ∧
    match a with
    | .moreCache num _ =>
        num ≠ 0 → mbufsLeft g num < g.pool.gNumMBufs → (numRBufs g.gFH : Int) ≤ mbufsLeft g num
    | _ => True

/-- The condition on the state a step starts from, if there is one. -/
def OnOk (ok : Global → Action → Prop) (r : Except Fault Global) (a : Action) : Prop :=
  ∀ g, r = .ok g → ok g a

instance (g : Global) (a : Action) : Decidable (KeepsAccounts g a) :=
  match a with
  | .moreCache _ _ => instDecidableAnd
  | .openFile .. | .read .. | .write .. | .seek .. | .setFileSize .. | .flush | .timer
  | .updateAuth _ | .endFile _ => instDecidableAnd

instance {ok : Global → Action → Prop} [∀ g a, Decidable (ok g a)] (r : Except Fault Global)
    (a : Action) : Decidable (OnOk ok r a) :=
  match r with
  | .ok g => decidable_of_iff (ok g a) ⟨fun h _ hg => by cases hg; exact h, fun h => h g rfl⟩
  | .error _ => .isTrue fun _ hg => nomatch hg

section Run
variable {g g' : Global} {fhs : List EFH} {p : Pool}

theorem length_chained (h : PoolInv p fhs) :
    (chained p fhs).length = (fhs.map fun efh => efh.cluster.wbcWBufsUsed).sum := by
  rw [chained, List.length_flatMap]
  congr 1
  exact List.map_congr_left fun e he => (h.used e he).symm

theorem PoolInv.accounts (h : PoolInv g.pool g.gFH) : PoolAccounts g where
  numFreeM := h.numFreeM
  numM := by
    have hlen := h.numM
    have hfree := h.numFreeM
    rw [allMBufs] at hlen
    simp only [List.length_append, List.length_map, length_rbufData, length_chained h] at hlen
    omega
  numH := by
    have hlen := h.numH
    have hfree := h.numFree
    rw [List.length_append, length_chained h] at hlen
    omega
  freeH := ⟨_, h.free, h.numFree⟩
  chains efh he := ⟨_, h.chain efh he, h.used efh he⟩
  nodup := h.mnodup

theorem allocWBufs_spec (n : Nat) {l : List Ptr} (hl : Linked p.next p.gFreeWBufHdr l)
    (hge : ∀ q ∈ l, n ≤ q) :
    Linked (allocWBufs n p).next (allocWBufs n p).gFreeWBufHdr (List.range n ++ l) ∧
      (allocWBufs n p).gNumMBufs = p.gNumMBufs ∧
      (allocWBufs n p).gNumFreeMBufs = p.gNumFreeMBufs ∧
      (allocWBufs n p).gFreeMBufs = p.gFreeMBufs ∧ (allocWBufs n p).newMBuf = p.newMBuf := by
  induction n generalizing p l with
  | zero => exact ⟨by simpa [allocWBufs] using hl, rfl, rfl, rfl, rfl⟩
  | succ n ih =>
      unfold allocWBufs
      have hnext : Pool.next { p with
          wbh := Function.update p.wbh n ⟨p.gFreeWBufHdr, 0, [], 0⟩
          gFreeWBufHdr := some n } = Function.update p.next n p.gFreeWBufHdr :=
        Pool.next_update (h := ⟨p.gFreeWBufHdr, 0, [], 0⟩) rfl
      have hnl : n ∉ l := fun hn => absurd (hge n hn) (by omega)
      obtain ⟨hlinked, h1, h2, h3, h4⟩ := ih (p := { p with
          wbh := Function.update p.wbh n ⟨p.gFreeWBufHdr, 0, [], 0⟩
          gFreeWBufHdr := some n }) (l := n :: l) (by
        rw [hnext]
        exact hl.push hnl) (by
        intro q hq
        rcases List.mem_cons.mp hq with rfl | hq
        · exact Nat.le_refl _
        · exact Nat.le_of_succ_le (hge q hq))
      refine ⟨?_, h1, h2, h3, h4⟩
      rw [List.range_succ, List.append_assoc, List.singleton_append]
      exact hlinked

theorem wcAllocWBufs_poolInv (hcount : p.gNumFreeMBufs = p.gFreeMBufs.length)
    (hnum : p.gNumMBufs = p.gFreeMBufs.length) (hnodup : p.gFreeMBufs.Nodup)
    (hfresh : ∀ b ∈ p.gFreeMBufs, b < p.newMBuf) (numBufs : Nat) (ok : Bool) :
    PoolInv (wcAllocWBufs p numBufs ok) [] := by
  cases ok with
  | false =>
      exact ⟨by simp, by simp, by simp, rfl, rfl, hcount, rfl, hnum, by simp [chained, freeHdrs,
        wcAllocWBufs, follow], hnodup, hfresh⟩
  | true =>
      obtain ⟨hlinked, h1, h2, h3, h4⟩ := allocWBufs_spec (p := { p with gFreeWBufHdr := none })
        numBufs (l := []) rfl (by simp)
      rw [List.append_nil] at hlinked
      simp only at h1 h2 h3 h4
      have hfree : freeHdrs (wcAllocWBufs p numBufs true) = List.range numBufs := by
        have hfollow := hlinked.follow_eq
        rw [List.length_range] at hfollow
        exact hfollow
      have hall : allMBufs (wcAllocWBufs p numBufs true) [] = p.gFreeMBufs := h3
      refine ⟨by simp, by simp, by simp, ?_, ?_, ?_, ?_, ?_, ?_, ?_, ?_⟩
      · rw [hfree]; exact hlinked
      · rw [hfree, List.length_range]; rfl
      · exact (h2.trans hcount).trans (congrArg (fun l => (l.length : Int)) h3.symm)
      · rw [hfree, List.length_append, List.length_range]
        simp [chained, wcAllocWBufs]
      · rw [hall]; exact h1.trans hnum
      · rw [hfree]; simpa [chained] using List.nodup_range
      · rw [hall]; exact hnodup
      · intro b hb
        rw [hall] at hb
        have := hfresh b hb
        rw [← h4] at this
        exact this

/-- The pools the handler starts with. -/
theorem gInit_poolInv (g : Global) (numMBufs numWBufs avail : Nat) (ok : Bool) :
    ∃ g₀, gInit g numMBufs numWBufs avail ok = .ok g₀ ∧ g₀.gFH = [] ∧ PoolInv g₀.pool [] := by
  unfold gInit mbAllocMBufs
  obtain ⟨done, p, hrun⟩ := mbAllocMoreMBufs_total
    { g.pool with gFreeMBufs := [], gNumMBufs := 0, gNumFreeMBufs := 0 } avail
    (Int.natCast_nonneg numMBufs)
  simp only [hrun, bind, Except.bind]
  refine ⟨_, rfl, rfl, ?_⟩
  cases done with
  | false =>
      rw [mbAllocMoreMBufs_failed (Int.natCast_nonneg numMBufs) hrun]
      exact wcAllocWBufs_poolInv rfl rfl (by simp) (by simp) numWBufs ok
  | true =>
      rw [mbAllocMoreMBufs_done hrun]
      refine wcAllocWBufs_poolInv (by simp) (by simp) ?_ ?_ numWBufs ok
      · simpa using List.nodup_range'
      · intro b hb
        simp only [List.append_nil, List.mem_reverse] at hb
        exact (List.mem_range'_1.mp hb).2

/-- The accounts hold in every state that a run of actions meeting the condition reaches. -/
theorem poolInv_run (numMBufs numWBufs avail : Nat) (ok : Bool) {as : List Action}
    (h : Guarded stepRun (OnOk KeepsAccounts) (gInit g numMBufs numWBufs avail ok) as)
    (hrun : run stepRun (gInit g numMBufs numWBufs avail ok) as = .ok g') :
    PoolInv g'.pool g'.gFH := by
  refine Guarded.invariant (P := fun r => ∀ g, r = .ok g → PoolInv g.pool g.gFH) ?_ ?_ h g' hrun
  · intro r a hP hok g₂ hstep
    obtain ⟨g₁, rfl, hstep⟩ := ok_of_bind hstep
    exact (hP g₁ rfl).touches (step_touches (hok g₁ rfl).1 hstep)
  · intro g₁ hg₁
    obtain ⟨g₀, hinit, hfhs, hinv⟩ := gInit_poolInv g numMBufs numWBufs avail ok
    rw [hinit] at hg₁
    cases hg₁
    rw [hfhs]
    exact hinv

/-- The buffer pool accounting, over runs from the start of the handler. -/
theorem poolAccounts_run (numMBufs numWBufs avail : Nat) (ok : Bool) (as : List Action)
    (h : Guarded stepRun (OnOk KeepsAccounts) (gInit g numMBufs numWBufs avail ok) as)
    (hrun : run stepRun (gInit g numMBufs numWBufs avail ok) as = .ok g') :
    PoolAccounts g' ∧ AllocAllOrNone g'.pool ∧
      ∀ num n, num ≠ 0 → KeepsAccounts g' (.moreCache num n) → FreesOnlyFree g' num := by
  have hinv := poolInv_run numMBufs numWBufs avail ok h hrun
  refine ⟨hinv.accounts, ?_, ?_⟩
  · intro n k hn
    obtain ⟨done, p, halloc⟩ := mbAllocMoreMBufs_total g'.pool k hn
    refine ⟨done, p, halloc, ?_⟩
    rintro rfl
    rw [mbAllocMoreMBufs_failed hn halloc]
    exact ⟨rfl, rfl, rfl⟩
  · intro num n hne hok hlt
    obtain ⟨g₁, hgather⟩ := gatherMBufs_total hinv (mbufsLeft g' num)
    refine ⟨g₁, hgather, ?_⟩
    have hfit := hok.2 hne
    exact (gatherMBufs_free hinv hgather).mpr hfit

end Run

/-- A handler with one open file and one buffer per 32 "buffers". -/
def exGlobal : Global where
  pool := ⟨16384, 0, 0, [], 0, 0, none, fun _ => ⟨none, 0, [], 0⟩, fun _ _ => 0, 0⟩
  srv := ⟨fun _ => ⟨fun _ => 0, 10⟩, fun _ => .done 10, 0, []⟩
  gFH := []
  lastId := 0
  gNumBuffers := 32
  gBufSizePerFile := 32768
  gSlowMedium := false
  gAttrCacheTimeout := 30
  gDirCacheTimeout := 60
  gAttrCacheMaxEntries := 32
  gDirCacheMaxEntries := 37
  gRes1 := 0
  gRes2 := 0

/-- A byte read from the middle of a file. -/
def exReads : List Action :=
  [.openFile MODE_OLDFILE 10 0 1 false true, .seek 1 1 OFFSET_BEGINNING,
    .read 1 (fun _ => 0) 1 (.done (fun _ => 0) 9 10)]

/-- Two cached writes, and the pool made smaller. -/
def exWrites : List Action :=
  [.openFile MODE_NEWFILE 0 0 1 true true, .write 1 (fun _ => 7) 3, .write 1 (fun _ => 8) 3,
    .moreCache (-32) 0]

theorem poolAccounts_run_writes :
    ∃ g', run stepRun (gInit exGlobal 1 16 1 true) exWrites = .ok g' ∧ PoolAccounts g' := by
  have hends : (run stepRun (gInit exGlobal 1 16 1 true) exWrites).toOption.isSome = true := by
    decide +kernel
  cases h : run stepRun (gInit exGlobal 1 16 1 true) exWrites with
  | error f => rw [h] at hends; cases hends
  | ok g' => exact ⟨g', rfl, (poolAccounts_run 1 16 1 true exWrites (by decide +kernel) h).1⟩

/-- The buffer of a file that is being read is not given back. -/
theorem not_freesOnlyFree_reads :
    ∃ g', run stepRun (gInit exGlobal 1 16 1 true) exReads = .ok g' ∧ ¬ FreesOnlyFree g' (-32) := by
  refine ⟨_, rfl, fun h => ?_⟩
  obtain ⟨g₁, hgather, hle⟩ := h (by decide)
  cases hgather
  revert hle
  decide

end Anfs.File
