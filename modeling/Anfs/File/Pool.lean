import Anfs.File.Touch

/-!
# The shared pools with all open files

`PoolInv` says who holds the headers and buffers when no function is running: the chains
of the open files, their read buffers and the two free lists share them out. A call on one
file hands headers and buffers around between its cluster and the free lists only, so the
invariant is kept file by file.
-/
namespace Anfs.File
open Anfs.Lib Anfs.Nfs Anfs.Buf

/-- The headers chained in the cluster of an open file. -/
def chainOf (g : Pool) (efh : EFH) : List Ptr :=
  follow g.next efh.cluster.wbcWBufsUsed efh.cluster.wbcFirstData

/-- The headers on the free list. -/
def freeHdrs (g : Pool) : List Ptr := follow g.next g.gNumFreeWBufHdrs.toNat g.gFreeWBufHdr

def chained (g : Pool) (fhs : List EFH) : List Ptr := fhs.flatMap (chainOf g)

/-- All buffers: of chained headers, of read buffers, free. -/
def allMBufs (g : Pool) (fhs : List EFH) : List Ptr :=
  (chained g fhs).map g.data ++ fhs.filterMap rbufData ++ g.gFreeMBufs

structure PoolInv (g : Pool) (fhs : List EFH) : Prop where
  chain : ∀ e ∈ fhs, Linked g.next e.cluster.wbcFirstData (chainOf g e)
  used : ∀ e ∈ fhs, e.cluster.wbcWBufsUsed = (chainOf g e).length
  last : ∀ e ∈ fhs, chainOf g e ≠ [] → e.cluster.wbcLastData = (chainOf g e).getLast?
  free : Linked g.next g.gFreeWBufHdr (freeHdrs g)
  numFree : g.gNumFreeWBufHdrs = (freeHdrs g).length
  numFreeM : g.gNumFreeMBufs = g.gFreeMBufs.length
  numH : g.gNumWBufHdrs = (chained g fhs ++ freeHdrs g).length
  numM : g.gNumMBufs = (allMBufs g fhs).length
  nodup : (chained g fhs ++ freeHdrs g).Nodup
  mnodup : (allMBufs g fhs).Nodup
  fresh : ∀ b ∈ allMBufs g fhs, b < g.newMBuf

section Focus
variable {g g' : Pool} {pre post : List EFH} {e e' : EFH}

theorem chained_split (g : Pool) (pre post : List EFH) (e : EFH) :
    (chained g (pre ++ e :: post) ++ freeHdrs g).Perm
      (chained g pre ++ chained g post ++ (chainOf g e ++ freeHdrs g)) := by
  simp only [chained, List.flatMap_append, List.flatMap_cons]
  refine List.perm_iff_count.mpr fun a => ?_
  simp only [List.count_append]
  omega

theorem allMBufs_split (g : Pool) (pre post : List EFH) (e : EFH) :
    (allMBufs g (pre ++ e :: post)).Perm
      ((chained g pre ++ chained g post).map g.data ++ (pre ++ e :: post).filterMap rbufData ++
        ((chainOf g e).map g.data ++ g.gFreeMBufs)) := by
  simp only [allMBufs, chained, List.flatMap_append, List.flatMap_cons, List.map_append]
  refine List.perm_iff_count.mpr fun a => ?_
  simp only [List.count_append]
  omega

theorem length_chainOf_le {p : Pool} {fhs : List EFH} {efh : EFH} (h : PoolInv p fhs)
    (hmem : efh ∈ fhs) : (chainOf p efh).length ≤ p.gNumWBufHdrs.toNat := by
  obtain ⟨pre, post, rfl⟩ := List.append_of_mem hmem
  have hnum := h.numH
  have hlen := (chained_split p pre post efh).length_eq
  simp only [List.length_append] at hnum hlen
  omega

/-- The view of one open file. -/
theorem PoolInv.owns (h : PoolInv g (pre ++ e :: post)) (srv : Server) :
    Owns ⟨g, srv, e.cluster⟩ ⟨chainOf g e, [], freeHdrs g⟩ where
  chain := h.chain e (by simp)
  used := h.used e (by simp)
  last := h.last e (by simp)
  free := h.free
  numFree := h.numFree
  numFreeM := h.numFreeM
  nodup := by
    have hnd := (chained_split g pre post e).nodup_iff.mp h.nodup
    simpa only [Hold.hdrs, List.append_nil] using (List.nodup_append'.mp hnd).2.1
  mnodup := by
    have hnd := (allMBufs_split g pre post e).nodup_iff.mp h.mnodup
    simpa only [Hold.mbufs, List.append_nil] using (List.nodup_append'.mp hnd).2.1

/-- What a call on one open file does not touch of another. -/
theorem PoolInv.other (h : PoolInv g (pre ++ e :: post)) {o : EFH} (ho : o ∈ pre ++ post)
    {p : Ptr} (hp : p ∈ chainOf g o) : p ∉ chainOf g e ++ [] ++ freeHdrs g ∧
      g.data p ∉ (chainOf g e ++ []).map g.data ++ g.gFreeMBufs := by
  have hmem : p ∈ chained g pre ++ chained g post := by
    rcases List.mem_append.mp ho with ho | ho
    · exact List.mem_append_left _ (List.mem_flatMap.mpr ⟨o, ho, hp⟩)
    · exact List.mem_append_right _ (List.mem_flatMap.mpr ⟨o, ho, hp⟩)
  have hnd := (chained_split g pre post e).nodup_iff.mp h.nodup
  have hmnd := (allMBufs_split g pre post e).nodup_iff.mp h.mnodup
  simp only [List.append_nil]
  refine ⟨List.disjoint_left.mp (List.nodup_append'.mp hnd).2.2 hmem, ?_⟩
  refine List.disjoint_left.mp (List.nodup_append'.mp hmnd).2.2 (List.mem_append_left _ ?_)
  exact List.mem_map.mpr ⟨p, hmem, rfl⟩

theorem chainOf_eq {o : EFH} {l : List Ptr} (hl : Linked g.next o.cluster.wbcFirstData l)
    (hused : o.cluster.wbcWBufsUsed = l.length) : chainOf g o = l := by
  rw [chainOf, hused]
  exact hl.follow_eq

/-- A call on one open file keeps the invariant. -/
theorem PoolInv.replace (e' : EFH) (h : PoolInv g (pre ++ e :: post)) {fh : Fh}
    {srv srv' : Server} {l fr : List Ptr} (howns : Owns ⟨g', srv', e'.cluster⟩ ⟨l, [], fr⟩)
    (hmoved : Moved fh ⟨g, srv, e.cluster⟩ ⟨chainOf g e, [], freeHdrs g⟩ ⟨g', srv', e'.cluster⟩
      ⟨l, [], fr⟩) (hrbuf : e'.efhRBuf = e.efhRBuf) :
    PoolInv g' (pre ++ e' :: post) ∧ chainOf g' e' = l ∧
      ∀ o ∈ pre ++ post, chainOf g' o = chainOf g o ∧
        ∀ p ∈ chainOf g o, g'.blk p = g.blk p := by
  have hself : chainOf g' e' = l := chainOf_eq howns.chain howns.used
  have hfree : freeHdrs g' = fr := by
    have hnum := howns.numFree
    simp only at hnum
    rw [freeHdrs, hnum, Int.toNat_natCast]
    exact howns.free.follow_eq
  have hwbh : ∀ o ∈ pre ++ post, ∀ p ∈ chainOf g o, g'.wbh p = g.wbh p := fun o ho p hp =>
    hmoved.wbh p (h.other ho hp).1
  have hsplit : ∀ {o}, o ∈ pre ++ post → o ∈ pre ++ e :: post := fun ho => by
    rcases List.mem_append.mp ho with ho | ho
    · simp [ho]
    · simp [ho]
  have hother : ∀ o ∈ pre ++ post, Linked g'.next o.cluster.wbcFirstData (chainOf g o) ∧
      chainOf g' o = chainOf g o := fun o ho => by
    have hl : Linked g'.next o.cluster.wbcFirstData (chainOf g o) :=
      (h.chain o (hsplit ho)).congr fun p hp => by
        simp only [Pool.next, hwbh o ho p hp]
    exact ⟨hl, chainOf_eq hl (h.used o (hsplit ho))⟩
  have hch : ∀ fhs : List EFH, (∀ o ∈ fhs, o ∈ pre ++ post) → chained g' fhs = chained g fhs :=
    fun fhs hsub => List.flatMap_congr fun o ho => (hother o (hsub o ho)).2
  have hpre := hch pre fun o ho => List.mem_append_left _ ho
  have hpost := hch post fun o ho => List.mem_append_right _ ho
  have hdata : (chained g pre ++ chained g post).map g'.data =
      (chained g pre ++ chained g post).map g.data := by
    refine List.map_congr_left fun p hp => ?_
    rcases List.mem_append.mp hp with hp | hp
    · obtain ⟨o, ho, hp⟩ := List.mem_flatMap.mp hp
      simp only [Pool.data, hwbh o (List.mem_append_left _ ho) p hp]
    · obtain ⟨o, ho, hp⟩ := List.mem_flatMap.mp hp
      simp only [Pool.data, hwbh o (List.mem_append_right _ ho) p hp]
  have hrdata : (pre ++ e' :: post).filterMap rbufData = (pre ++ e :: post).filterMap rbufData := by
    simp only [List.filterMap_append, List.filterMap_cons, rbufData, hrbuf]
  have hhdrs : (chained g' (pre ++ e' :: post) ++ freeHdrs g').Perm
      (chained g (pre ++ e :: post) ++ freeHdrs g) := by
    refine (chained_split g' pre post e').trans
      (List.Perm.trans ?_ (chained_split g pre post e).symm)
    rw [hpre, hpost, hself, hfree]
    have := hmoved.hdrs
    simp only [Hold.hdrs, List.append_nil] at this
    exact this.append_left _
  have hmbufs : (allMBufs g' (pre ++ e' :: post)).Perm (allMBufs g (pre ++ e :: post)) := by
    refine (allMBufs_split g' pre post e').trans
      (List.Perm.trans ?_ (allMBufs_split g pre post e).symm)
    rw [hpre, hpost, hself, hdata, hrdata]
    have := hmoved.mbufs
    simp only [Hold.mbufs, List.append_nil] at this
    exact this.append_left _
  have hcases : ∀ o ∈ pre ++ e' :: post, o = e' ∨ o ∈ pre ++ post := fun o ho => by
    simp only [List.mem_append, List.mem_cons] at ho ⊢
    tauto
  refine ⟨⟨?_, ?_, ?_, ?_, ?_, howns.numFreeM, ?_, ?_, ?_, ?_, ?_⟩, hself,
    fun o ho => ⟨(hother o ho).2, ?_⟩⟩
  · intro o ho
    rcases hcases o ho with rfl | ho
    · rw [hself]; exact howns.chain
    · rw [(hother o ho).2]; exact (hother o ho).1
  · intro o ho
    rcases hcases o ho with rfl | ho
    · rw [hself]; exact howns.used
    · rw [(hother o ho).2]; exact h.used o (hsplit ho)
  · intro o ho
    rcases hcases o ho with rfl | ho
    · rw [hself]; exact howns.last
    · rw [(hother o ho).2]; exact h.last o (hsplit ho)
  · rw [hfree]; exact howns.free
  · rw [hfree]; exact howns.numFree
  · rw [hhdrs.length_eq, ← h.numH]; exact hmoved.numH
  · rw [hmbufs.length_eq, ← h.numM]; exact hmoved.numM
  · exact hhdrs.nodup_iff.mpr h.nodup
  · exact hmbufs.nodup_iff.mpr h.mnodup
  · intro b hb
    rw [show g'.newMBuf = g.newMBuf from hmoved.newM]
    exact h.fresh b (hmbufs.mem_iff.mp hb)
  · intro p hp
    have hw := hwbh o ho p hp
    simp only [Pool.blk, hw]
    rw [show g'.mem (g.wbh p).wbhData = g.mem (g.wbh p).wbhData from
      hmoved.mem _ (h.other ho hp).2]

end Focus

section Reshape
variable {g g' : Pool} {fhs fhs' : List EFH} {pre post : List EFH} {e e' : EFH}

theorem chainOf_congr (hwbh : g'.wbh = g.wbh) (hcl : e'.cluster = e.cluster) :
    chainOf g' e' = chainOf g e := by
  have hnext : g'.next = g.next := by
    funext p
    simp only [Pool.next, hwbh]
  rw [chainOf, chainOf, hnext, hcl]

theorem chained_congr (hwbh : g'.wbh = g.wbh) : chained g' fhs = chained g fhs :=
  List.flatMap_congr fun _ _ => chainOf_congr hwbh rfl

/-- An action that moves no header keeps the invariant when the buffers still add up. -/
theorem PoolInv.reshape (h : PoolInv g fhs) (hwbh : g'.wbh = g.wbh)
    (hfree : g'.gFreeWBufHdr = g.gFreeWBufHdr) (hnumFree : g'.gNumFreeWBufHdrs = g.gNumFreeWBufHdrs)
    (hnumH : g'.gNumWBufHdrs = g.gNumWBufHdrs)
    (hfhs : ∀ x ∈ fhs', x.cluster.wbcFirstData = none ∧ x.cluster.wbcWBufsUsed = 0 ∨
      ∃ y ∈ fhs, x.cluster = y.cluster)
    (hchained : chained g fhs' = chained g fhs)
    (hnumFreeM : g'.gNumFreeMBufs = g'.gFreeMBufs.length)
    (hnumM : g'.gNumMBufs = (allMBufs g' fhs').length) (hnodup : (allMBufs g' fhs').Nodup)
    (hfresh : ∀ b ∈ allMBufs g' fhs', b < g'.newMBuf) : PoolInv g' fhs' := by
  have hnext : g'.next = g.next := by
    funext p
    simp only [Pool.next, hwbh]
  have hfreeHdrs : freeHdrs g' = freeHdrs g := by
    rw [freeHdrs, freeHdrs, hnext, hnumFree, hfree]
  have hch : chained g' fhs' = chained g fhs := (chained_congr hwbh).trans hchained
  have hempty : ∀ {x : EFH}, x.cluster.wbcFirstData = none → x.cluster.wbcWBufsUsed = 0 →
      chainOf g' x = [] := by
    intro x _ hused
    rw [chainOf, hused]
    rfl
  refine ⟨?_, ?_, ?_, ?_, ?_, hnumFreeM, ?_, hnumM, ?_, hnodup, hfresh⟩
  · intro x hx
    rcases hfhs x hx with ⟨hfirst, hused⟩ | ⟨y, hy, heq⟩
    · rw [hempty hfirst hused, hfirst]
      rfl
    · rw [chainOf_congr hwbh heq, heq, hnext]
      exact h.chain y hy
  · intro x hx
    rcases hfhs x hx with ⟨hfirst, hused⟩ | ⟨y, hy, heq⟩
    · rw [hempty hfirst hused, hused]
      rfl
    · rw [chainOf_congr hwbh heq, heq]
      exact h.used y hy
  · intro x hx hne
    rcases hfhs x hx with ⟨hfirst, hused⟩ | ⟨y, hy, heq⟩
    · exact absurd (hempty hfirst hused) hne
    · rw [chainOf_congr hwbh heq] at hne ⊢
      rw [heq]
      exact h.last y hy hne
  · rw [hfreeHdrs, hnext, hfree]
    exact h.free
  · rw [hfreeHdrs, hnumFree]
    exact h.numFree
  · rw [hch, hfreeHdrs, hnumH]
    exact h.numH
  · rw [hch, hfreeHdrs]
    exact h.nodup

/-- The buffers of the pools when only read buffers and free buffers have changed. -/
theorem allMBufs_reshape (hwbh : g'.wbh = g.wbh) (hchained : chained g fhs' = chained g fhs) :
    allMBufs g' fhs' =
      (chained g fhs).map g.data ++ (fhs'.filterMap rbufData ++ g'.gFreeMBufs) := by
  have hdata : g'.data = g.data := by
    funext p
    simp only [Pool.data, hwbh]
  rw [allMBufs, chained_congr hwbh, hchained, hdata, List.append_assoc]

/-- As `PoolInv.reshape`, when the buffers are the same as before. -/
theorem PoolInv.shuffle (h : PoolInv g fhs) (hwbh : g'.wbh = g.wbh)
    (hfree : g'.gFreeWBufHdr = g.gFreeWBufHdr) (hnumFree : g'.gNumFreeWBufHdrs = g.gNumFreeWBufHdrs)
    (hnumH : g'.gNumWBufHdrs = g.gNumWBufHdrs)
    (hfhs : ∀ x ∈ fhs', x.cluster.wbcFirstData = none ∧ x.cluster.wbcWBufsUsed = 0 ∨
      ∃ y ∈ fhs, x.cluster = y.cluster)
    (hchained : chained g fhs' = chained g fhs)
    (hcount : g'.gNumFreeMBufs - g'.gFreeMBufs.length = g.gNumFreeMBufs - g.gFreeMBufs.length)
    (hnumM : g'.gNumMBufs = g.gNumMBufs) (hnew : g'.newMBuf = g.newMBuf)
    (hperm : (fhs'.filterMap rbufData ++ g'.gFreeMBufs).Perm
      (fhs.filterMap rbufData ++ g.gFreeMBufs)) : PoolInv g' fhs' := by
  have hall : (allMBufs g' fhs').Perm (allMBufs g fhs) := by
    rw [allMBufs_reshape hwbh hchained, allMBufs_reshape rfl rfl]
    exact hperm.append_left _
  have hnum := h.numFreeM
  refine h.reshape hwbh hfree hnumFree hnumH hfhs hchained (by omega) ?_
    (hall.nodup_iff.mpr h.mnodup) ?_
  · rw [hnumM, hall.length_eq]
    exact h.numM
  · intro b hb
    rw [hnew]
    exact h.fresh b (hall.mem_iff.mp hb)

theorem chained_replace (hcl : e'.cluster = e.cluster) :
    chained g (pre ++ e' :: post) = chained g (pre ++ e :: post) := by
  simp only [chained, List.flatMap_append, List.flatMap_cons, chainOf_congr rfl hcl]

theorem cluster_replace (hcl : e'.cluster = e.cluster) :
    ∀ x ∈ pre ++ e' :: post, ∃ y ∈ pre ++ e :: post, x.cluster = y.cluster := by
  intro x hx
  rcases List.mem_append.mp hx with hx | hx
  · exact ⟨x, List.mem_append_left _ hx, rfl⟩
  · rcases List.mem_cons.mp hx with rfl | hx
    · exact ⟨e, by simp, hcl⟩
    · exact ⟨x, by simp [hx], rfl⟩

end Reshape

end Anfs.File
