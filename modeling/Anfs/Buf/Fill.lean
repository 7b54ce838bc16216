import Anfs.Buf.Seek

/-!
# Filling a buffer

Copying into a buffer changes its bytes and its intervals and nothing else. The last step
of `WBufWrite` flushes the cluster when the position's interval table is nearly full.
-/
namespace Anfs.Buf
open Anfs.Lib Anfs.Nfs

/-- The block after `cnt` bytes from `buf` have been copied to `offs`. -/
def Block.put (b : Block) (buf : Nat → UInt8) (offs cnt : Int) : Block where
  fileOffs := b.fileOffs
  info := wBufUpdateInfo b.info offs (offs + cnt - 1)
  bytes := copyMem b.bytes buf offs cnt

/-- Where in the buffer `p` the position lies. -/
def WState.inBuf (s : WState) (p : Ptr) : Int := s.wbc.wbcFilePos - s.pool.offs p

/-- How many of `num` bytes the buffer `p` takes. -/
def WState.fits (s : WState) (p : Ptr) (num : Int) : Int := min (MBUFSIZE - s.inBuf p) num

/-- The state after `cnt` bytes have been copied into the buffer `p`. -/
def WState.filled (s : WState) (p : Ptr) (buf : Nat → UInt8) (cnt : Int) : WState :=
  { s with
    pool := { s.pool with
      mem := Function.update s.pool.mem (s.pool.data p)
        (copyMem (s.pool.mem (s.pool.data p)) buf (s.inBuf p) cnt)
      wbh := Function.update s.pool.wbh p
        { s.pool.wbh p with
          wbhInfo := wBufUpdateInfo (s.pool.wbh p).wbhInfo (s.inBuf p) (s.inBuf p + cnt - 1) } }
    wbc := { s.wbc with wbcFilePos := long (s.wbc.wbcFilePos + cnt) } }

section Fill
variable {efh : EFH} {s : WState} {l fr : List Ptr} {p : Ptr} {buf : Nat → UInt8} {num cnt : Int}

theorem Owns.data_not_free {v : Hold} (h : Owns s v) (hp : p ∈ v.chain) :
    s.pool.data p ∉ s.pool.gFreeMBufs := by
  have hnd := h.mnodup
  simp only [Hold.mbufs, List.nodup_append', List.disjoint_left] at hnd
  exact hnd.2.2 (List.mem_map.mpr ⟨p, by simp [hp], rfl⟩)

theorem Owns.data_ne {v : Hold} (h : Owns s v) {q : Ptr} (hp : p ∈ v.chain) (hq : q ∈ v.chain)
    (hne : q ≠ p) : s.pool.data q ≠ s.pool.data p := by
  have hnd := h.mnodup
  simp only [Hold.mbufs, List.nodup_append'] at hnd
  exact fun heq => hne (List.inj_on_of_nodup_map hnd.1 (by simp [hq]) (by simp [hp]) heq)

theorem wBufFill_eq (h : Owns s ⟨l, [], fr⟩) (hp : p ∈ l) (buf : Nat → UInt8) (num : Int) :
    wBufFill s p buf num =
      if 0 ≤ s.inBuf p ∧ s.inBuf p < MBUFSIZE then
        .ok (s.fits p num, s.filled p buf (s.fits p num))
      else .error .overrun := by
  have hfree : (s.pool.wbh p).wbhData ∉ s.pool.gFreeMBufs := h.data_not_free hp
  simp only [wBufFill, hfree, not_false_eq_true, and_true]
  rfl

theorem filled_wbh (s : WState) (p : Ptr) (buf : Nat → UInt8) (cnt : Int) :
    (s.filled p buf cnt).pool.wbh = Function.update s.pool.wbh p
      { s.pool.wbh p with
        wbhInfo := wBufUpdateInfo (s.pool.wbh p).wbhInfo (s.inBuf p) (s.inBuf p + cnt - 1) } :=
  rfl

@[simp] theorem filled_next (s : WState) (p : Ptr) (buf : Nat → UInt8) (cnt : Int) :
    (s.filled p buf cnt).pool.next = s.pool.next := by
  rw [Pool.next_update (filled_wbh s p buf cnt)]
  exact Function.update_eq_self _ _

@[simp] theorem filled_data (s : WState) (p : Ptr) (buf : Nat → UInt8) (cnt : Int) :
    (s.filled p buf cnt).pool.data = s.pool.data :=
  Pool.data_update_same (filled_wbh s p buf cnt) rfl

theorem Owns.filled (h : Owns s ⟨l, [], fr⟩) (p : Ptr) (buf : Nat → UInt8) (cnt : Int) :
    Owns (s.filled p buf cnt) ⟨l, [], fr⟩ := by
  constructor
  · rw [filled_next]; exact h.chain
  · exact h.used
  · exact h.last
  · rw [filled_next]; exact h.free
  · exact h.numFree
  · exact h.numFreeM
  · exact h.nodup
  · simp only [Hold.mbufs, filled_data]
    exact h.mnodup

theorem moved_filled {fh : Fh} (hp : p ∈ l) :
    Moved fh s ⟨l, [], fr⟩ (s.filled p buf cnt) ⟨l, [], fr⟩ :=
  { Moved.refl fh s _ with
    mbufs := by
      simp only [Hold.mbufs, filled_data]
      exact List.Perm.refl _
    wbh := fun q hq => Pool.wbh_update_ne (filled_wbh s p buf cnt) (by
      rintro rfl
      exact hq (by simp [Hold.hdrs, hp]))
    mem := fun b hb => Function.update_of_ne (by
      rintro rfl
      exact hb (by
        simp only [Hold.mbufs, List.append_nil, List.mem_append, List.mem_map]
        exact .inl ⟨p, hp, rfl⟩)) _ _
    max := rfl }

theorem filled_blk (s : WState) (p : Ptr) (buf : Nat → UInt8) (cnt : Int) :
    (s.filled p buf cnt).pool.blk p = (s.pool.blk p).put buf (s.inBuf p) cnt := by
  simp [WState.filled, Pool.blk, Block.put, Pool.data]

theorem Owns.filled_blk_ne (h : Owns s ⟨l, [], fr⟩) (hp : p ∈ l) {q : Ptr} (hq : q ∈ l)
    (hne : q ≠ p) : (s.filled p buf cnt).pool.blk q = s.pool.blk q := by
  have hd : s.pool.data q ≠ s.pool.data p := h.data_ne hp hq hne
  have hw := Pool.wbh_update_ne (filled_wbh s p buf cnt) hne
  simp only [Pool.blk, hw]
  rw [show (s.filled p buf cnt).pool.mem (s.pool.wbh q).wbhData = s.pool.mem (s.pool.wbh q).wbhData
    from Function.update_of_ne hd _ _]

/-- The header behind one of the chain is in the chain. -/
theorem Owns.next_mem (h : Owns s ⟨l, [], fr⟩) (hp : p ∈ l) {n : Ptr}
    (hn : s.pool.next p = some n) : n ∈ l := by
  obtain ⟨l₁, l₂, rfl⟩ := List.append_of_mem hp
  have hnext := h.chain.next_head
  rw [hn] at hnext
  have := List.mem_of_mem_head? hnext.symm
  simp [this]

theorem coveringNext_eq_some {g : Pool} {pos : Int} {n : Ptr} :
    coveringNext g.wbh (g.wbh p) pos = some n ↔
      g.next p = some n ∧ g.offs n ≤ pos ∧ pos ≤ long (g.offs n + MBUFSIZE - 1) := by
  unfold coveringNext
  rw [Option.filter_eq_some_iff]
  simp [Pool.next, Pool.offs]

/-- Whatever the target, it is in the chain, and so is the position. -/
theorem TargetEnds.owns {l' fr' : List Ptr} {q : Ptr} {s₁ : WState}
    (ht : TargetEnds efh s l fr p (.fill q) s₁ l' fr') (h : Owns s ⟨l, [], fr⟩) (hp : p ∈ l)
    (hpos : s.wbc.wbcPosData = some p) :
    Owns s₁ ⟨l', [], fr'⟩ ∧ Moved efh.efhNFSFh s ⟨l, [], fr⟩ s₁ ⟨l', [], fr'⟩ ∧ q ∈ l' ∧
      s₁.wbc.wbcFilePos = s.wbc.wbcFilePos ∧
      ∃ r ∈ l', s₁.wbc.wbcPosData = some r := by
  cases ht with
  | here inside => exact ⟨h, Moved.refl _ _ _, hp, rfl, p, hp, hpos⟩
  | next past covers =>
      exact ⟨h, Moved.refl _ _ _, h.next_mem hp (coveringNext_eq_some.mp covers).1,
        rfl, p, hp, hpos⟩
  | fresh room past gap split placed new_notMem srv =>
      exact ⟨placed.owns, placed.moved, by simp, placed.filePos, q, by simp, placed.posData⟩
  | flushed placed file =>
      exact ⟨placed.owns, placed.moved, by simp, placed.filePos, q, by simp, placed.posData⟩

/-- How `WBufWrite` ends when the position is the header `p` of the chain, with the chain
and the free headers it leaves. `s₁` is the state in which the buffer `q` gets the bytes,
`r` is the position then. -/
inductive WriteEnds (efh : EFH) (s : WState) (l fr : List Ptr) (p : Ptr) (buf : Nat → UInt8)
    (num : Int) : Ret → WState → List Ptr → List Ptr → Prop
  | failed {res2 : Int} {s' : WState} (flush : Flushed efh s l [] fr (some res2) s') :
      WriteEnds efh s l fr p buf num (.failed res2) s' [] (l.reverse ++ fr)
  | wrote {s₁ : WState} {q r : Ptr} {l' fr' : List Ptr}
      (target : TargetEnds efh s l fr p (.fill q) s₁ l' fr')
      (inBuf : 0 ≤ s₁.inBuf q ∧ s₁.inBuf q < MBUFSIZE)
      (pos : s₁.wbc.wbcPosData = some r)
      (room : ((s₁.filled q buf (s₁.fits q num)).pool.blk r).info.length + 1 < WBUFHDRINFOSIZE) :
      WriteEnds efh s l fr p buf num (.done (s₁.fits q num)) (s₁.filled q buf (s₁.fits q num))
        l' fr'
  | full {s₁ s' : WState} {q r : Ptr} {l' fr' : List Ptr}
      (target : TargetEnds efh s l fr p (.fill q) s₁ l' fr')
      (inBuf : 0 ≤ s₁.inBuf q ∧ s₁.inBuf q < MBUFSIZE)
      (pos : s₁.wbc.wbcPosData = some r)
      (full : WBUFHDRINFOSIZE ≤ ((s₁.filled q buf (s₁.fits q num)).pool.blk r).info.length + 1)
      (flush : Flushed efh (s₁.filled q buf (s₁.fits q num)) l' [] fr' none s') :
      WriteEnds efh s l fr p buf num (.done (s₁.fits q num)) s' [] (l'.reverse ++ fr')
  | fullFailed {s₁ s' : WState} {q r : Ptr} {l' fr' : List Ptr} {res2 : Int}
      (target : TargetEnds efh s l fr p (.fill q) s₁ l' fr')
      (inBuf : 0 ≤ s₁.inBuf q ∧ s₁.inBuf q < MBUFSIZE)
      (pos : s₁.wbc.wbcPosData = some r)
      (full : WBUFHDRINFOSIZE ≤ ((s₁.filled q buf (s₁.fits q num)).pool.blk r).info.length + 1)
      (flush : Flushed efh (s₁.filled q buf (s₁.fits q num)) l' [] fr' (some res2) s') :
      WriteEnds efh s l fr p buf num (.failed res2) s' [] (l'.reverse ++ fr')

theorem wBufWrite_cases (efh : EFH) (h : Owns s ⟨l, [], fr⟩)
    (hpos : s.wbc.wbcPosData = some p) (hp : p ∈ l) (buf : Nat → UInt8) (num : Int) :
    (∃ r s' l' fr', wBufWrite efh s buf num = .ok (r, s') ∧
        WriteEnds efh s l fr p buf num r s' l' fr') ∨
      ∃ q s₁ l' fr', TargetEnds efh s l fr p (.fill q) s₁ l' fr' ∧
        ¬ (0 ≤ s₁.inBuf q ∧ s₁.inBuf q < MBUFSIZE) ∧
        wBufWrite efh s buf num = .error .overrun := by
  obtain ⟨t, s₁, l', fr', hrun, ht⟩ := wBufTarget_cases efh h hpos hp
  unfold wBufWrite
  simp only [hrun, bind, Except.bind]
  cases t with
  | stop r =>
      cases ht with
      | failed flush => exact .inl ⟨_, _, _, _, rfl, .failed flush⟩
  | fill q =>
      obtain ⟨howns, -, hq, -, r, -, hr⟩ := ht.owns h hp hpos
      simp only [wBufFill_eq howns hq]
      by_cases hin : 0 ≤ s₁.inBuf q ∧ s₁.inBuf q < MBUFSIZE
      · rw [if_pos hin]
        have hr' : (s₁.filled q buf (s₁.fits q num)).wbc.wbcPosData = some r := hr
        simp only [hr']
        by_cases hfull : WBUFHDRINFOSIZE ≤
            ((s₁.filled q buf (s₁.fits q num)).pool.wbh r).wbhInfo.length + 1
        · obtain ⟨err, s', hflush, hf⟩ := iwcFlushCache_spec efh
            (howns.filled q buf (s₁.fits q num))
          rw [if_pos hfull]
          simp only [hflush]
          cases err with
          | some res2 => exact .inl ⟨_, _, _, _, rfl, .fullFailed ht hin hr hfull hf⟩
          | none => exact .inl ⟨_, _, _, _, rfl, .full ht hin hr hfull hf⟩
        · rw [if_neg hfull]
          exact .inl ⟨_, _, _, _, rfl, .wrote ht hin hr (Nat.not_le.mp hfull)⟩
      · rw [if_neg hin]
        exact .inr ⟨q, s₁, l', fr', ht, hin, rfl⟩

end Fill

end Anfs.Buf
