import Anfs.Buf.Flush

/-!
# Finding and obtaining the buffer to fill

Every function here is described by the ways it can end. The header it leaves as the
position is one of the chain, old or new.
-/
namespace Anfs.Buf
open Anfs.Lib Anfs.Nfs

section Obtain
variable {efh : EFH} {s : WState} {l fr : List Ptr}

/-- How an attempt to obtain a buffer ends for a cluster with the chain `l`. -/
inductive ObtainEnds (efh : EFH) (s : WState) (l fr : List Ptr) : Obtained → WState → Prop
  | failed {res2 : Int} {s' : WState} (flush : Flushed efh s l [] fr (some res2) s') :
      ObtainEnds efh s l fr (.failed res2) s'
  | noMem (empty : l = []) (none : fr = [] ∨ s.pool.gFreeMBufs = []) :
      ObtainEnds efh s l fr .noMem s
  | fresh {p m : Ptr} {fr' ms : List Ptr} (room : ¬ wBufCacheFull s.wbc) (hdr : fr = p :: fr')
      (mbuf : s.pool.gFreeMBufs = m :: ms) :
      ObtainEnds efh s l fr (.got p false) { s with pool := s.pool.obtained p m ms }
  | flushed {s₁ : WState} {p m : Ptr} {fr' ms : List Ptr}
      (flush : Flushed efh s l [] fr none s₁) (hdr : l.reverse ++ fr = p :: fr')
      (mbuf : s₁.pool.gFreeMBufs = m :: ms) :
      ObtainEnds efh s l fr (.got p true) { s₁ with pool := s₁.pool.obtained p m ms }

theorem obtainWBuf_cases {v : Hold} (h : Owns s v) :
    (∃ p fr' m ms, v.free = p :: fr' ∧ s.pool.gFreeMBufs = m :: ms ∧
        obtainWBuf s.pool = .ok (some p, s.pool.obtained p m ms)) ∨
      ((v.free = [] ∨ s.pool.gFreeMBufs = []) ∧ obtainWBuf s.pool = .ok (none, s.pool)) := by
  obtain ⟨l, hand, fr⟩ := v
  cases fr with
  | nil => exact .inr ⟨.inl rfl, h.obtain_none (.inl rfl)⟩
  | cons p fr' =>
      cases hm : s.pool.gFreeMBufs with
      | nil => exact .inr ⟨.inr rfl, h.obtain_none (.inr hm)⟩
      | cons m ms => exact .inl ⟨p, fr', m, ms, rfl, rfl, h.obtain_some hm⟩

theorem obtainFlushing_cases (efh : EFH) (h : Owns s ⟨l, [], fr⟩) :
    ∃ o s', obtainFlushing efh s = .ok (o, s') ∧ ObtainEnds efh s l fr o s' := by
  obtain ⟨err, s₁, hflush, hf⟩ := iwcFlushCache_spec efh h
  have hempty : l = [] → err = none ∧ s₁ = s := by
    rintro rfl
    simp only [iwcFlushCache, h.used, List.length_nil, flushLoop, Except.ok.injEq,
      Prod.mk.injEq] at hflush
    exact ⟨hflush.1.symm, hflush.2.symm⟩
  have hused : s.wbc.wbcWBufsUsed ≠ 0 ↔ l ≠ [] := by
    rw [h.used, ne_eq, List.length_eq_zero_iff]
  have hused₁ : s₁.wbc.wbcWBufsUsed = 0 := hf.owns.used
  unfold obtainFlushing
  by_cases hfull : wBufCacheFull s.wbc
  · simp only [hfull, if_true, hflush, bind, Except.bind]
    cases err with
    | some res2 => exact ⟨_, _, rfl, .failed hf⟩
    | none =>
        simp only [obtainOrFlush, bind, Except.bind]
        rcases obtainWBuf_cases hf.owns with ⟨p, fr', m, ms, hp, hm, ho⟩ | ⟨hno, ho⟩
        · simp only [ho]
          exact ⟨_, _, rfl, .flushed hf hp hm⟩
        · have hl : l = [] := by
            by_contra hl
            obtain ⟨p, fr', m, ms, hp, hm⟩ := hf.freed hl
            rcases hno with hno | hno
            · simp [hp] at hno
            · simp [hm] at hno
          obtain ⟨-, rfl⟩ := hempty hl
          simp only [ho, hused₁, ne_eq, not_true_eq_false, if_false]
          exact ⟨_, _, rfl, .noMem hl (by simpa [hl] using hno)⟩
  · simp only [hfull, if_false, obtainOrFlush, bind, Except.bind]
    rcases obtainWBuf_cases h with ⟨p, fr', m, ms, hp, hm, ho⟩ | ⟨hno, ho⟩
    · simp only [ho]
      exact ⟨_, _, rfl, .fresh hfull hp hm⟩
    · simp only [ho]
      by_cases hl : l = []
      · rw [if_neg (by simp [hused, hl])]
        exact ⟨_, _, rfl, .noMem hl hno⟩
      · rw [if_pos (hused.mpr hl)]
        simp only [hflush]
        cases err with
        | some res2 => exact ⟨_, _, rfl, .failed hf⟩
        | none =>
            obtain ⟨p, fr', m, ms, hp, hm⟩ := hf.freed hl
            rcases obtainWBuf_cases hf.owns with ⟨p, fr', m, ms, hp, hm, ho⟩ | ⟨hno, ho⟩
            · simp only [ho]
              exact ⟨_, _, rfl, .flushed hf hp hm⟩
            · rcases hno with hno | hno
              · simp [hp] at hno
              · simp [hm] at hno

/-- The state with a new buffer `p` for the block of `pos`, not yet linked in. -/
def WState.started (s : WState) (p m : Ptr) (ms : List Ptr) (pos : Int) : WState :=
  startBuf { s with pool := s.pool.obtained p m ms } p pos

section Started
variable {p m : Ptr} {ms : List Ptr}

theorem Owns.started (h : Owns s ⟨l, [], p :: fr⟩) (hm : s.pool.gFreeMBufs = m :: ms)
    (pos : Int) : Owns (s.started p m ms pos) ⟨l, [p], fr⟩ :=
  ((h.obtained hm).setWbh (p := p) (x := { (s.pool.obtained p m ms).wbh p with
    wbhFileOffs := wBufAlignFileOffs pos, wbhInfo := [] }) rfl rfl).setPos (some p)
    s.wbc.wbcFilePos

theorem Owns.moved_started {fh : Fh} (h : Owns s ⟨l, [], p :: fr⟩)
    (hm : s.pool.gFreeMBufs = m :: ms) (pos : Int) :
    Moved fh s ⟨l, [], p :: fr⟩ (s.started p m ms pos) ⟨l, [p], fr⟩ := by
  refine (h.moved_obtained hm).trans (Moved.trans (moved_setWbh (p := p) (x :=
    { (s.pool.obtained p m ms).wbh p with wbhFileOffs := wBufAlignFileOffs pos, wbhInfo := [] })
    (by simp [Hold.hdrs]) rfl) ?_)
  exact { Moved.refl fh _ _ with max := rfl }

theorem started_blk (pos : Int) {q : Ptr} (hq : q ≠ p) :
    (s.started p m ms pos).pool.blk q = s.pool.blk q := by
  have h1 : (s.started p m ms pos).pool.blk q = (s.pool.obtained p m ms).blk q :=
    Pool.blk_update_ne (Pool.wbh_setWbh _ _ _) rfl hq
  rw [h1, Pool.blk_update_ne (obtained_wbh s.pool p m ms) rfl hq]

theorem started_blk_self (pos : Int) : (s.started p m ms pos).pool.blk p =
    ⟨wBufAlignFileOffs pos, [], s.pool.mem m⟩ := by
  simp [WState.started, startBuf, Pool.blk, Pool.setWbh, Pool.obtained]

end Started

/-- A new buffer `p` for the block of `pos` has been linked in, and is the position. -/
structure Placed (efh : EFH) (s : WState) (l fr : List Ptr) (pos : Int) (s' : WState) (p : Ptr)
    (l' fr' : List Ptr) : Prop where
  owns : Owns s' ⟨l', [], fr'⟩
  moved : Moved efh.efhNFSFh s ⟨l, [], fr⟩ s' ⟨l', [], fr'⟩
  posData : s'.wbc.wbcPosData = some p
  filePos : s'.wbc.wbcFilePos = s.wbc.wbcFilePos
  offs : (s'.pool.blk p).fileOffs = wBufAlignFileOffs pos
  info : (s'.pool.blk p).info = []
  others : ∀ q ∈ l', q ≠ p → s'.pool.blk q = s.pool.blk q

/-- How the case `ADDHEAD` ends, with the chain and the free headers it leaves. -/
inductive HeadEnds (efh : EFH) (s : WState) (l fr : List Ptr) (pos : Int) :
    Ret → WState → List Ptr → List Ptr → Prop
  | failed {res2 : Int} {s' : WState} (flush : Flushed efh s l [] fr (some res2) s') :
      HeadEnds efh s l fr pos (.failed res2) s' [] (l.reverse ++ fr)
  | noMem (empty : l = []) (none : fr = [] ∨ s.pool.gFreeMBufs = []) :
      HeadEnds efh s l fr pos .noMem s l fr
  | fresh {s' : WState} {p : Ptr} {fr' : List Ptr} (room : ¬ wBufCacheFull s.wbc)
      (placed : Placed efh s l fr pos s' p (p :: l) fr') (new : p ∉ l) (srv : s'.srv = s.srv) :
      HeadEnds efh s l fr pos (.done 1) s' (p :: l) fr'
  | flushed {s' : WState} {p : Ptr} {fr' : List Ptr}
      (placed : Placed efh s l fr pos s' p [p] fr')
      (file : s'.srv.file efh.efhNFSFh =
        (s.srv.file efh.efhNFSFh).writeAll (chainWrites s.pool l)) :
      HeadEnds efh s l fr pos (.done 1) s' [p] fr'

theorem wBufAddHead_blk (s : WState) (p : Ptr) : (wBufAddHead s p).pool.blk = s.pool.blk := by
  rw [wBufAddHead_eq]
  exact Pool.blk_setNext _ _ _

theorem prepareHead_cases (efh : EFH) (h : Owns s ⟨l, [], fr⟩) (pos : Int) :
    ∃ r s' l' fr', prepareHead efh s pos = .ok (r, s') ∧
      HeadEnds efh s l fr pos r s' l' fr' := by
  obtain ⟨o, s₁, hrun, hends⟩ := obtainFlushing_cases efh h
  unfold prepareHead
  simp only [hrun, bind, Except.bind]
  cases hends with
  | failed flush => exact ⟨_, _, _, _, rfl, .failed flush⟩
  | noMem empty none => exact ⟨_, _, _, _, rfl, .noMem empty none⟩
  | @fresh p m fr' ms room hdr mbuf =>
      subst hdr
      have howns := h.started mbuf pos
      have hnew := (howns.hand_not_mem (p := p) (by simp)).1
      refine ⟨_, _, _, _, rfl, .fresh room ⟨howns.addHead,
        (h.moved_started mbuf pos).trans moved_addHead, ?_, ?_, ?_, ?_, ?_⟩ hnew ?_⟩
      · rw [wBufAddHead_eq]; rfl
      · rw [wBufAddHead_eq]; rfl
      · rw [wBufAddHead_blk]; exact congrArg Block.fileOffs (started_blk_self pos)
      · rw [wBufAddHead_blk]; exact congrArg Block.info (started_blk_self pos)
      · intro q _ hq
        rw [wBufAddHead_blk]
        exact started_blk pos hq
      · rw [wBufAddHead_eq]; rfl
  | @flushed s₂ p m fr' ms flush hdr mbuf =>
      have hown := flush.owns
      have hmov := flush.moved
      rw [hdr] at hown hmov
      refine ⟨_, _, _, _, rfl, .flushed ⟨(hown.started mbuf pos).addHead,
        hmov.trans ((hown.moved_started mbuf pos).trans moved_addHead), ?_, ?_, ?_, ?_, ?_⟩ ?_⟩
      · rw [wBufAddHead_eq]; rfl
      · rw [wBufAddHead_eq]; exact flush.filePos
      · rw [wBufAddHead_blk]; exact congrArg Block.fileOffs (started_blk_self pos)
      · rw [wBufAddHead_blk]; exact congrArg Block.info (started_blk_self pos)
      · intro q hq hqp
        exact absurd (List.mem_singleton.mp hq) hqp
      · rw [wBufAddHead_eq]; exact flush.file rfl

end Obtain

end Anfs.Buf
