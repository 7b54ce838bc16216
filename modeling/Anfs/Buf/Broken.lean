import Anfs.Buf.Fallback

/-!
# Cached writes that are not unbroken

While the server serves every request, a cached write whose calls of `WBufWrite` are all entered as
its comment requires, and whose loop ends without the fallback, is `Unbroken`: a position in front
of its header makes the copy fail, a full table gives the header of the position back, and the last
call shows where the bytes end.
-/
namespace Anfs.Buf
open Anfs.Lib Anfs.Nfs

/-- The server `srv`, when it serves every request. -/
def Server.serving (srv : Server) : Server := { srv with answers := fun _ => .done 0 }

theorem serving_serves (srv : Server) : Serves srv.serving := fun _ _ _ => nofun

section Turn
variable {efh : EFH} {s s' : WState} {l fr : List Ptr} {p q : Ptr} {buf : Nat → UInt8} {num : Int}

theorem OnTrack.pos {stop : Int} (h : OnTrack stop ⟨s, buf, num⟩) :
    ∃ p, s.wbc.wbcPosData = some p := by
  obtain ⟨-, l, fr, -, p, -, hpos⟩ := h
  exact ⟨p, hpos⟩

/-- A cluster that has been emptied is not entered as required. -/
theorem not_onTrack_of_empty {stop : Int} (h : Owns s ⟨[], [], fr⟩) :
    ¬ OnTrack stop ⟨s, buf, num⟩ := by
  rintro ⟨-, l, fr', howns, p, hp, -⟩
  have hused := howns.used.symm.trans h.used
  rw [List.length_nil, List.length_eq_zero_iff] at hused
  simp only at hused
  rw [hused] at hp
  cases hp

theorem wBufWrite_overrun (h : Owns s ⟨l, [], fr⟩) (hq : q ∈ l)
    (htarget : wBufTarget efh s = .ok (.fill q, s))
    (hin : ¬ (0 ≤ s.inBuf q ∧ s.inBuf q < MBUFSIZE)) :
    wBufWrite efh s buf num = .error .overrun := by
  simp only [wBufWrite, htarget, bind, Except.bind, wBufFill_eq h hq, if_neg hin]

/-- A call that finds the table of the position full empties the cluster. -/
theorem wBufWrite_full (h : Owns s ⟨l, [], fr⟩) (hserves : Serves s.srv) (hq : q ∈ l)
    (htarget : wBufTarget efh s = .ok (.fill q, s)) (hpos : s.wbc.wbcPosData = some p)
    (hin : 0 ≤ s.inBuf q ∧ s.inBuf q < MBUFSIZE)
    (hfull : WBUFHDRINFOSIZE ≤
      ((s.filled q buf (s.fits q num)).pool.wbh p).wbhInfo.length + 1) :
    ∃ s' fr', wBufWrite efh s buf num = .ok (.done (s.fits q num), s') ∧
      Owns s' ⟨[], [], fr'⟩ := by
  obtain ⟨err, s', hflush, hf⟩ := iwcFlushCache_spec efh (h.filled q buf (s.fits q num))
  obtain rfl : err = none := Serves.flushed (s := s.filled q buf (s.fits q num)) hserves hf
  have hpos' : (s.filled q buf (s.fits q num)).wbc.wbcPosData = some p := hpos
  refine ⟨s', _, ?_, hf.owns⟩
  simp only [wBufWrite, htarget, bind, Except.bind, wBufFill_eq h hq, if_pos hin, hpos',
    if_pos hfull, hflush]

/-- The loop does not go on after a full table. -/
theorem not_full_of_onTrack {stop : Int} {n : Nat} (h : Owns s ⟨l, [], fr⟩)
    (hserves : Serves s.srv) (hnum : num ≠ 0) (hleft : num - s.fits q num ≠ 0) (hq : q ∈ l)
    (htarget : wBufTarget efh s = .ok (.fill q, s)) (hpos : s.wbc.wbcPosData = some p)
    (hends : ∃ x, wBufWriteLoop efh (n + 1) s buf num = .ok x)
    (htrack : ∀ x ∈ loopEntries efh (n + 1) s buf num, OnTrack stop x) :
    ¬ WBUFHDRINFOSIZE ≤
      ((s.filled q buf (s.fits q num)).pool.wbh p).wbhInfo.length + 1 := by
  intro hfull
  unfold wBufWriteLoop at hends
  unfold loopEntries at htrack
  rw [if_neg hnum] at hends htrack
  by_cases hin : 0 ≤ s.inBuf q ∧ s.inBuf q < MBUFSIZE
  · obtain ⟨s', fr', hrun, howns⟩ : ∃ s' fr',
        wBufWrite efh s buf num = .ok (.done (s.fits q num), s') ∧ Owns s' ⟨[], [], fr'⟩ :=
      wBufWrite_full h hserves hq htarget hpos hin hfull
    simp only [hrun, List.forall_mem_cons] at htrack
    simp only [hrun, bind, Except.bind] at hends
    cases n with
    | zero =>
        unfold wBufWriteLoop at hends
        rw [if_neg hleft] at hends
        obtain ⟨x, hx⟩ := hends
        cases hx
    | succ n =>
        have hnext := htrack.2
        unfold loopEntries at hnext
        rw [if_neg hleft, List.forall_mem_cons] at hnext
        exact not_onTrack_of_empty howns hnext.1
  · simp only [wBufWrite_overrun h hq htarget hin, bind, Except.bind] at hends
    obtain ⟨x, hx⟩ := hends
    cases hx

/-- The header of the position reaches it, and has room in its table. -/
theorem reached_of_onTrack {stop : Int} {n : Nat} (h : Owns s ⟨l, [], fr⟩)
    (hserves : Serves s.srv) (hnum : num ≠ 0) (hp : p ∈ l) (hpos : s.wbc.wbcPosData = some p)
    (hends : ∃ x, wBufWriteLoop efh (n + 1) s buf num = .ok x)
    (htrack : ∀ x ∈ loopEntries efh (n + 1) s buf num, OnTrack stop x) :
    Reached s p ∧ TableRoom s num := by
  have hhere : s.wbc.wbcFilePos < wBufHdrLastPos (s.pool.wbh p) →
      wBufTarget efh s = .ok (.fill p, s) := fun hinside => by
    unfold wBufTarget
    rw [hpos]
    simp only [if_neg (Int.not_le.mpr hinside)]
  refine ⟨fun hinside => ?_, fun r hr => ?_⟩
  · by_contra hfront
    have hin : ¬ (0 ≤ s.inBuf p ∧ s.inBuf p < MBUFSIZE) := by
      simp only [WState.inBuf]
      omega
    unfold wBufWriteLoop at hends
    simp only [if_neg hnum, wBufWrite_overrun h hp (hhere hinside) hin, bind, Except.bind] at hends
    obtain ⟨x, hx⟩ := hends
    cases hx
  · obtain rfl : p = r := Option.some.inj (hpos.symm.trans hr)
    refine ⟨fun hinside hfull => ?_, fun n' hpast hcov hfull => ?_⟩
    · by_contra hmore
      have hleft : num - s.fits p num ≠ 0 := by
        simp only [WState.fits]
        omega
      refine not_full_of_onTrack h hserves hnum hleft hp (hhere hinside) hpos hends htrack ?_
      rw [filled_wbh, Function.update_self]
      exact hfull
    · by_contra hmore
      have hleft : num - s.fits n' num ≠ 0 := by
        simp only [WState.fits]
        omega
      obtain ⟨hnext, -, -⟩ := coveringNext_eq_some.mp hcov
      have hne : p ≠ n' := by
        obtain ⟨l₁, l₂, rfl⟩ := List.append_of_mem hp
        have hnd := h.nodup
        simp only [Hold.hdrs, List.append_nil] at hnd
        exact Ne.symm (Linked.next_ne h.chain (List.nodup_append'.mp hnd).1 hnext)
      have htarget : wBufTarget efh s = .ok (.fill n', s) := by
        unfold wBufTarget
        rw [hpos]
        simp only [if_pos hpast, hcov]
      refine not_full_of_onTrack h hserves hnum hleft (h.next_mem hp hnext) htarget hpos hends
        htrack ?_
      rw [filled_wbh, Function.update_of_ne hne]
      exact hfull

/-- The loop of a write that the server serves; `stop` is where its bytes end. -/
structure Tracked (stop : Int) (s : WState) (num : Int) : Prop where
  left : 0 ≤ num
  stop : num = 0 → stop ≤ LONGS
  blocks : OnBlocks s.pool s.chain
  long : IsLong s.wbc.wbcFilePos
  serves : Serves s.srv

/-- The bytes of a call end in the block of the buffer it fills. -/
theorem Tracked.turn {stop : Int} (h : Tracked stop s num)
    (htrack : OnTrack stop ⟨s, buf, num⟩) {r : Ret} (hrun : wBufWrite efh s buf num = .ok (r, s')) :
    TurnKeeps (fun s _ num => Tracked stop s num) (fun e _ => e = .done ∧ stop ≤ LONGS)
      buf num r s' := by
  have hleft := h.left
  obtain ⟨hplace, l, fr, howns, p, hp, hpos⟩ := htrack
  have hblocks : OnBlocks s.pool l := howns.chain_eq ▸ h.blocks
  rcases wBufWrite_cases efh howns hpos hp buf num with
    ⟨r', s'', l', fr', hrun', hends⟩ | ⟨q, s₁, l', fr', -, -, hrun'⟩
  · rw [hrun] at hrun'
    obtain ⟨rfl, rfl⟩ : r = r' ∧ s' = s'' := by simpa using hrun'
    obtain ⟨howns', hmoved⟩ := hends.owns howns hpos hp
    have hserves := h.serves.moved hmoved
    have hend : ∀ {s₁ : WState} {q : Ptr} {l₁ fr₁ : List Ptr},
        TargetEnds efh s l fr p (.fill q) s₁ l₁ fr₁ →
        0 ≤ num - s₁.fits q num ∧ (num - s₁.fits q num = 0 → stop ≤ LONGS) := by
      intro s₁ q l₁ fr₁ target
      obtain ⟨-, -, hq, hfile, -⟩ := target.owns howns hp hpos
      obtain ⟨haligned, hoffs⟩ := target.onBlocks hblocks h.long q hq
      simp only [WState.fits, WState.inBuf, hfile, IsLong, LONGS, MBUFSIZE] at *
      omega
    cases hends with
    | failed flush => exact absurd (h.serves.flushed flush) (by simp)
    | fullFailed target inBuf pos full flush =>
        obtain ⟨-, hmoved₁, -⟩ := target.owns howns hp hpos
        exact absurd ((h.serves.moved hmoved₁).flushed (s := WState.filled _ _ _ _) flush)
          (by simp)
    | @wrote s₁ q r l' fr' target inBuf pos room =>
        refine ⟨(hend target).1, (hend target).2, fun t ht => ?_, isLong_long _, hserves⟩
        rw [howns'.chain_eq] at ht
        rw [filled_offs]
        exact target.onBlocks hblocks h.long t ht
    | @full s₁ s' q r l' fr' target inBuf pos full flush =>
        refine ⟨(hend target).1, (hend target).2, ?_, ?_, hserves⟩
        · rw [howns'.chain_eq]
          exact OnBlocks.nil _
        · rw [flush.filePos]
          exact isLong_long _
  · rw [hrun] at hrun'
    cases hrun'

theorem Tracked.loop {stop : Int} {n : Nat} {e : LoopEnd} (h : Tracked stop s num)
    (htrack : ∀ x ∈ loopEntries efh n s buf num, OnTrack stop x)
    (hrun : wBufWriteLoop efh n s buf num = .ok (e, s')) : e = .done ∧ stop ≤ LONGS :=
  wBufWriteLoop_rule (P := fun s _ num => Tracked stop s num)
    (C := fun s buf num => OnTrack stop ⟨s, buf, num⟩) (Q := fun e _ => e = .done ∧ stop ≤ LONGS)
    (fun _ _ hP => ⟨rfl, hP.stop rfl⟩)
    (fun _ _ _ _ _ hP _ hC hrun => hP.turn hC hrun) h htrack hrun

end Turn

section Calls
variable {s : FState} {l fr : List Ptr} {buf : Nat → UInt8} {num : Int}

/-- A new buffer in an empty cluster comes from the pool. -/
theorem Placed.avail {efh : EFH} {w w' : WState} {pos : Int} {p : Ptr} {fr' : List Ptr}
    (h : Placed efh w [] fr pos w' p [p] fr') (howns : Owns w ⟨[], [], fr⟩) :
    1 ≤ wBufsAvail w.pool := by
  have hhdrs := h.moved.hdrs.length_eq
  have hmbufs := h.moved.mbufs.length_eq
  have hfree : w.pool.gNumFreeWBufHdrs = fr.length := howns.numFree
  have hfreeM := howns.numFreeM
  simp only [Hold.hdrs, Hold.mbufs, List.length_append, List.length_map, List.length_cons,
    List.length_nil] at hhdrs hmbufs
  simp only [wBufsAvail]
  omega

/-- A search that finds or obtains a buffer shows that there is one. -/
theorem buffer_of_seek (h : Owns s.w ⟨l, [], fr⟩) {pos k : Int} {w : WState}
    (hrun : wBufSeekAndPrepare s.efh s.w pos = .ok (.done k, w)) :
    l ≠ [] ∨ 1 ≤ wBufsAvail s.pool := by
  have hpos : Owns (s.w.setFilePos pos) ⟨l, [], fr⟩ := h.setPos s.w.wbc.wbcPosData pos
  cases l with
  | cons p l => exact .inl (List.cons_ne_nil p l)
  | nil =>
      obtain ⟨l', fr', -, hends⟩ | ⟨p, hlast, -⟩ | ⟨last, l₁, q, l₂, hlast, -⟩ :=
        wBufSeekAndPrepare_cases s.efh h hrun
      · cases hends with
        | fresh room placed new srv => exact .inr (placed.avail hpos)
        | flushed placed file => exact .inr (placed.avail hpos)
      · cases hlast
      · cases hlast

/-- A search that is served does not fail. -/
theorem seek_served (h : Owns s.w ⟨l, [], fr⟩) (hserves : Serves s.srv) {pos : Int} {r : Ret}
    {w : WState} (hrun : wBufSeekAndPrepare s.efh s.w pos = .ok (r, w)) (hr : r ≠ .noMem) :
    ∃ k, r = .done k := by
  obtain ⟨l', fr', -, hends⟩ | ⟨p, -, -, hdone, -⟩ |
    ⟨last, l₁, q, l₂, -, -, -, -, -, -, hdone, -⟩ :=
    wBufSeekAndPrepare_cases s.efh h hrun
  · cases hends with
    | failed flush =>
        exact absurd (Serves.flushed (s := s.w.setFilePos pos) hserves flush) (by simp)
    | noMem empty none => exact absurd rfl hr
    | fresh room placed new srv => exact ⟨_, rfl⟩
    | flushed placed file => exact ⟨_, rfl⟩
  · exact ⟨_, hdone⟩
  · exact ⟨_, hdone⟩

/-- What the calls of a write that is entered as required and served say of the state before. -/
theorem unbroken_of_served (h : Accounted s.w l fr) (hnum : 0 < num)
    (hpos : IsLong s.efh.efhFilePos) (hserves : Serves s.srv) {k : Int} {w : WState}
    (hseek : wBufSeekAndPrepare s.efh s.w s.efh.efhFilePos = .ok (.done k, w))
    (hends : ∃ x, wBufWriteLoop s.efh num.toNat w buf num = .ok x)
    (htrack : ∀ x ∈ loopEntries s.efh num.toNat w buf num, OnTrack (s.efh.efhFilePos + num) x) :
    Unbroken s l num := by
  have howns := h.owns
  obtain ⟨n, hn⟩ : ∃ n, num.toNat = n + 1 := ⟨num.toNat - 1, by omega⟩
  obtain ⟨l', fr', howns', hblocks⟩ := seek_blocks howns h.blocks hpos hseek
  have hserves' : Serves w.srv := by
    obtain ⟨l₁, fr₁, hends⟩ := wBufSeekAndPrepare_ok s.efh howns hseek
    exact Serves.moved (s := s.w) hserves (hends.owns howns).2.1
  obtain ⟨⟨e, w'⟩, hrun⟩ := hends
  rw [hn] at htrack hrun
  have hfirst : OnTrack (s.efh.efhFilePos + num) ⟨w, buf, num⟩ := by
    unfold loopEntries at htrack
    rw [if_neg (by omega), List.forall_mem_cons] at htrack
    exact htrack.1
  have hplace : w.wbc.wbcFilePos = s.efh.efhFilePos := by
    have := hfirst.1
    simp only at this
    omega
  refine ⟨buffer_of_seek howns hseek, ?_, fun hsearch => ?_⟩
  · have hstart : Tracked (s.efh.efhFilePos + num) w num :=
      ⟨by omega, fun hzero => by omega, howns'.chain_eq.symm ▸ hblocks, hplace ▸ hpos, hserves'⟩
    exact (hstart.loop htrack hrun).2
  · obtain ⟨hhead, hlast⟩ := hsearch
    obtain ⟨p, hpos'⟩ := hfirst.pos
    obtain ⟨l₁, fr₁, hfront, -⟩ | ⟨q, hq, hbehind, -, rfl⟩ |
      ⟨last, l₁, q, l₂, -, -, -, rfl, hbefore, hq, -, rfl⟩ :=
        wBufSeekAndPrepare_cases s.efh howns hseek
    · obtain ⟨q, hq, hle⟩ := hhead
      exact absurd hle (Int.not_le.mpr (hfront q hq))
    · obtain ⟨q', hq', hlt⟩ := hlast
      obtain rfl : q = q' := Option.some.inj (hq.symm.trans hq')
      exact absurd hlt (Int.not_lt.mpr hbehind)
    · have hstop : foundHeader s.pool (l₁ ++ q :: l₂) s.efh.efhFilePos = _ :=
        foundHeader_append hbefore hq
      have hfound : foundHeader s.pool (l₁ ++ q :: l₂) s.efh.efhFilePos = some p :=
        hstop.trans hpos'
      have hmem : p ∈ l₁ ++ q :: l₂ := mem_of_foundHeader hfound
      have hentered : (s.w.setFilePos s.efh.efhFilePos).setPosData
          (if s.efh.efhFilePos < s.w.pool.offs q then l₁.getLast? else some q) =
            s.w.entered s.efh.efhFilePos p := by
        rw [show (if s.efh.efhFilePos < s.w.pool.offs q then l₁.getLast? else some q) = some p
          from hpos']
        rfl
      rw [hentered] at htrack hrun
      exact ⟨p, hfound, reached_of_onTrack (howns.setPos (some p) _) hserves (by omega) hmem rfl
        ⟨_, hrun⟩ htrack⟩

end Calls

end Anfs.Buf
