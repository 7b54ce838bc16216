import Anfs.Buf.Direct
import Anfs.Buf.Room
import Mathlib.Data.List.TakeWhile

/-!
# The fallback of a cached write

`wc_WriteCache` writes directly when a call finds no buffer. The tests at its start leave enough
buffers for this not to happen, and every call of the loop but the first and the last fills a whole
buffer, as long as the position neither passes the last `LONG` nor is left behind by a flush.
-/
namespace Anfs.Buf
open Anfs.Lib Anfs.Nfs

/-- The number of `LONG` positions from 0 on. -/
def LONGS : Int := 2147483648

/-- The headers of `l` are for blocks of the file. -/
def OnBlocks (g : Pool) (l : List Ptr) : Prop :=
  ∀ p ∈ l, g.offs p % MBUFSIZE = 0 ∧ IsLong (g.offs p)

/-- A cluster with the chain `l` whose accounts are right. -/
structure Accounted (s : WState) (l fr : List Ptr) : Prop where
  owns : Owns s ⟨l, [], fr⟩
  blocks : OnBlocks s.pool l
  count : l.length ≤ s.pool.gNumWBufHdrs.toNat

/-- The buffered branch of `wc_WriteCache` never runs out of buffers, and its loop ends soon. -/
structure FallbackUnused (s : FState) (buf : Nat → UInt8) (num : Int) : Prop where
  seek : ∃ r w, wBufSeekAndPrepare s.efh s.w s.efh.efhFilePos = .ok (r, w) ∧ r ≠ .noMem
  turns : ∀ x ∈ writeEntries s buf num, ∀ w, wBufWrite s.efh x.state x.buf x.num ≠ .ok (.noMem, w)
  count : (writeEntries s buf num).length ≤ num / MBUFSIZE + 2
  ends : ∀ n w, wBufSeekAndPrepare s.efh s.w s.efh.efhFilePos = .ok (.done n, w) →
    ∃ e w', wBufWriteLoop s.efh num.toNat w buf num = .ok (e, w') ∧ ∀ b m, e ≠ .noMem b m

/-- A call of `WBufWrite` is entered as its comment requires: the position is a header of the
chain, and the bytes go to their place in front of `stop`. -/
def OnTrack (stop : Int) (x : Entry) : Prop :=
  x.state.wbc.wbcFilePos + x.num = stop ∧
    ∃ l fr, Owns x.state ⟨l, [], fr⟩ ∧ ∃ p ∈ l, x.state.wbc.wbcPosData = some p

/-- The search of `WBufSeekAndPrepare` is made: the position lies neither in front of the chain nor
behind it. -/
def Searches (g : Pool) (l : List Ptr) (pos : Int) : Prop :=
  (∃ p ∈ l.head?, g.offs p ≤ pos) ∧ ∃ p ∈ l.getLast?, pos < wBufHdrLastPos (g.wbh p)

/-- The header that the search finds: the first that reaches the position, or the one in front of it
if that one lies behind the position. -/
def foundHeader (g : Pool) (l : List Ptr) (pos : Int) : Option Ptr :=
  let before := l.takeWhile fun p => g.offs p < long (pos - MBUFSIZE)
  (l.drop before.length).head?.bind fun q => if pos < g.offs q then before.getLast? else some q

/-- The state in which the loop of a write starts with the header `p`. -/
def WState.entered (s : WState) (pos : Int) (p : Ptr) : WState :=
  (s.setFilePos pos).setPosData (some p)

/-- The position lies in front of a header only if it is behind the last byte of the last
block. -/
def Reached (s : WState) (p : Ptr) : Prop :=
  s.wbc.wbcFilePos < long (s.pool.offs p + MBUFSIZE) → s.pool.offs p ≤ s.wbc.wbcFilePos

instance (s : WState) (p : Ptr) : Decidable (Reached s p) := by
  unfold Reached; infer_instance

/-- What a cached write to the chain `l` needs: a buffer, `LONG` positions up to its end, and a
header found by the search that reaches the position and in whose table there is room. -/
structure Unbroken (s : FState) (l : List Ptr) (num : Int) : Prop where
  buffer : l ≠ [] ∨ 1 ≤ wBufsAvail s.pool
  high : s.efh.efhFilePos + num ≤ LONGS
  search : Searches s.pool l s.efh.efhFilePos →
    ∃ p ∈ foundHeader s.pool l s.efh.efhFilePos,
      Reached (s.w.entered s.efh.efhFilePos p) p ∧ TableRoom (s.w.entered s.efh.efhFilePos p) num

instance (g : Pool) (l : List Ptr) (pos : Int) : Decidable (Searches g l pos) := by
  unfold Searches; infer_instance

instance (s : FState) (l : List Ptr) (num : Int) : Decidable (Unbroken s l num) :=
  decidable_of_iff ((l ≠ [] ∨ 1 ≤ wBufsAvail s.pool) ∧ s.efh.efhFilePos + num ≤ LONGS ∧
      (Searches s.pool l s.efh.efhFilePos →
        ∃ p ∈ foundHeader s.pool l s.efh.efhFilePos,
          Reached (s.w.entered s.efh.efhFilePos p) p ∧
            TableRoom (s.w.entered s.efh.efhFilePos p) num))
    ⟨fun h => ⟨h.1, h.2.1, h.2.2⟩, fun h => ⟨h.buffer, h.high, h.search⟩⟩

theorem Unbroken.withServer {s : FState} {l : List Ptr} {num : Int} (h : Unbroken s l num)
    (srv : Server) : Unbroken { s with srv := srv } l num := ⟨h.buffer, h.high, h.search⟩

/-- The buffers that the bytes from `pos` on lie in. -/
def turnsLeft (pos num : Int) : Nat :=
  if num = 0 then 0 else ((pos % MBUFSIZE + num + MBUFSIZE - 1) / MBUFSIZE).toNat

theorem turnsLeft_pos {pos num : Int} (h : 0 < num) : 0 < turnsLeft pos num := by
  unfold turnsLeft
  rw [if_neg (by omega)]
  simp only [MBUFSIZE]
  omega

theorem turnsLeft_le (pos : Int) {num : Int} (h : 0 < num) :
    (turnsLeft pos num : Int) ≤ num / MBUFSIZE + 2 := by
  unfold turnsLeft
  rw [if_neg (by omega)]
  simp only [MBUFSIZE]
  omega

/-- A call that fills its buffer to the end lowers the number by one. -/
theorem turnsLeft_lt {pos pos' num cnt : Int} (hnum : 0 < num)
    (hcnt : cnt = min (MBUFSIZE - pos % MBUFSIZE) num)
    (hpos : num - cnt ≠ 0 → pos' % MBUFSIZE = 0) :
    turnsLeft pos' (num - cnt) < turnsLeft pos num := by
  by_cases hleft : num - cnt = 0
  · rw [hleft]
    exact turnsLeft_pos hnum
  · have hzero := hpos hleft
    unfold turnsLeft
    rw [if_neg hleft, if_neg (by omega), hzero]
    simp only [MBUFSIZE] at *
    omega

section Fallback
variable {efh : EFH} {s s' : WState} {l fr l' fr' : List Ptr} {p q : Ptr}
  {buf : Nat → UInt8} {num : Int}

theorem OnBlocks.nil (g : Pool) : OnBlocks g [] := fun _ hp => absurd hp List.not_mem_nil

theorem onBlocks_align {pos : Int} (h : IsLong pos) : wBufAlignFileOffs pos % MBUFSIZE = 0 ∧
    IsLong (wBufAlignFileOffs pos) ∧ wBufAlignFileOffs pos ≤ pos ∧
    pos < wBufAlignFileOffs pos + MBUFSIZE := by
  simp only [wBufAlignFileOffs, IsLong, MBUFSIZE] at *
  omega

theorem Placed.onBlocks {pos : Int} (h : Placed efh s l fr pos s' p l' fr') (hpos : IsLong pos)
    (hold : ∀ r ∈ l', r ≠ p → r ∈ l) (hblocks : OnBlocks s.pool l) : OnBlocks s'.pool l' := by
  intro r hr
  by_cases hrp : r = p
  · obtain ⟨haligned, hlong, -⟩ := onBlocks_align hpos
    rw [hrp, ← Pool.blk_fileOffs, h.offs]
    exact ⟨haligned, hlong⟩
  · rw [← Pool.blk_fileOffs, h.others r hr hrp]
    exact hblocks r (hold r hr hrp)

theorem TargetEnds.onBlocks {s₁ : WState} (ht : TargetEnds efh s l fr p (.fill q) s₁ l' fr')
    (hblocks : OnBlocks s.pool l) (hlong : IsLong s.wbc.wbcFilePos) : OnBlocks s₁.pool l' := by
  cases ht with
  | here inside => exact hblocks
  | next past covers => exact hblocks
  | fresh room past gap split placed new_notMem srv =>
      subst split
      refine placed.onBlocks hlong (fun r hr hne => ?_) hblocks
      simp only [List.mem_append, List.mem_cons] at hr ⊢
      tauto
  | flushed placed file =>
      exact placed.onBlocks hlong (fun r hr hne => absurd (List.mem_singleton.mp hr) hne) hblocks

/-- Where a call of `WBufWrite` puts its bytes. -/
theorem TargetEnds.covers {s₁ : WState} (ht : TargetEnds efh s l fr p (.fill q) s₁ l' fr')
    (howns : Owns s ⟨l, [], fr⟩) (hp : p ∈ l) (hblocks : OnBlocks s.pool l)
    (hlong : IsLong s.wbc.wbcFilePos) (hat : Reached s p) :
    OnBlocks s₁.pool l' ∧ s₁.pool.offs q ≤ s.wbc.wbcFilePos ∧
      s.wbc.wbcFilePos < s₁.pool.offs q + MBUFSIZE := by
  refine ⟨ht.onBlocks hblocks hlong, ?_⟩
  cases ht with
  | here inside =>
      refine ⟨hat inside, ?_⟩
      obtain ⟨haligned, hoffs⟩ := hblocks p hp
      simp only [long, IsLong, MBUFSIZE] at *
      omega
  | next past covers =>
      obtain ⟨hnext, hle, hlt⟩ := coveringNext_eq_some.mp covers
      obtain ⟨haligned, hoffs⟩ := hblocks q (howns.next_mem hp hnext)
      refine ⟨hle, ?_⟩
      simp only [long, IsLong, MBUFSIZE] at *
      omega
  | fresh room past gap split placed new_notMem srv =>
      obtain ⟨-, -, hle, hlt⟩ := onBlocks_align hlong
      rw [← Pool.blk_fileOffs, placed.offs]
      exact ⟨hle, hlt⟩
  | flushed placed file =>
      obtain ⟨-, -, hle, hlt⟩ := onBlocks_align hlong
      rw [← Pool.blk_fileOffs, placed.offs]
      exact ⟨hle, hlt⟩

/-- The position that a call leaves. -/
theorem TargetEnds.pos_cases {s₁ : WState} {r : Ptr}
    (ht : TargetEnds efh s l fr p (.fill q) s₁ l' fr')
    (hpos : s.wbc.wbcPosData = some p) (hr : s₁.wbc.wbcPosData = some r) :
    r = q ∨ r = p ∧ s₁ = s ∧ long (s.pool.offs p + MBUFSIZE) ≤ s.wbc.wbcFilePos := by
  cases ht with
  | here inside => exact .inl (Option.some.inj (hr.symm.trans hpos))
  | next past covers => exact .inr ⟨Option.some.inj (hr.symm.trans hpos), rfl, past⟩
  | fresh room past gap split placed new_notMem srv =>
      exact .inl (Option.some.inj (hr.symm.trans placed.posData))
  | flushed placed file => exact .inl (Option.some.inj (hr.symm.trans placed.posData))

/-- The loop invariant: `stop` is where the bytes that are left end. -/
structure LoopPlain (stop : Int) (s : WState) (num : Int) : Prop where
  left : 0 ≤ num
  high : stop ≤ LONGS
  chain : ∃ l fr, Owns s ⟨l, [], fr⟩ ∧ OnBlocks s.pool l ∧
    (num ≠ 0 → ∃ p ∈ l, s.wbc.wbcPosData = some p ∧ Reached s p)
  place : num ≠ 0 → IsLong s.wbc.wbcFilePos ∧ s.wbc.wbcFilePos + num = stop
  room : num ≠ 0 → TableRoom s num

/-- What a call on a cluster leaves: headers for blocks of the file. -/
def KeptBlocks (s : WState) : Prop := ∃ l fr, Owns s ⟨l, [], fr⟩ ∧ OnBlocks s.pool l

theorem LoopPlain.kept {stop : Int} (h : LoopPlain stop s num) : KeptBlocks s := by
  obtain ⟨l, fr, howns, hblocks, -⟩ := h.chain
  exact ⟨l, fr, howns, hblocks⟩

theorem LoopPlain.onTrack {stop : Int} (h : LoopPlain stop s num) (hnum : num ≠ 0)
    (buf : Nat → UInt8) : OnTrack stop ⟨s, buf, num⟩ := by
  obtain ⟨l, fr, howns, -, hat⟩ := h.chain
  obtain ⟨p, hp, hposp, -⟩ := hat hnum
  exact ⟨(h.place hnum).2, l, fr, howns, p, hp, hposp⟩

/-- A table that the check has let pass has room for the next call as well. -/
theorem TableRoom.of_checked (hpos : s.wbc.wbcPosData = some p)
    (hpast : wBufHdrLastPos (s.pool.wbh p) ≤ s.wbc.wbcFilePos)
    (hroom : (s.pool.wbh p).wbhInfo.length + 1 < WBUFHDRINFOSIZE) : TableRoom s num := by
  intro r hr
  obtain rfl : p = r := Option.some.inj (hpos.symm.trans hr)
  exact ⟨fun hinside => absurd hinside (Int.not_lt.mpr hpast),
    fun n _ _ hfull => absurd hroom (Nat.not_lt.mpr hfull)⟩

theorem TableRoom.of_new (hpos : s.wbc.wbcPosData = some p) (hinfo : (s.pool.blk p).info = []) :
    TableRoom s num := by
  have hnil : (s.pool.wbh p).wbhInfo = [] := hinfo
  intro r hr
  obtain rfl : p = r := Option.some.inj (hpos.symm.trans hr)
  rw [hnil]
  exact ⟨fun _ hfull => absurd hfull (by simp [wBufUpdateInfo, WBUFHDRINFOSIZE]),
    fun _ _ _ hfull => absurd hfull (by simp [WBUFHDRINFOSIZE])⟩

/-- A position in a block that a header of the cluster has reached. -/
structure AtWork (s : WState) (l fr : List Ptr) (p : Ptr) : Prop where
  owns : Owns s ⟨l, [], fr⟩
  mem : p ∈ l
  posData : s.wbc.wbcPosData = some p
  blocks : OnBlocks s.pool l
  isLong : IsLong s.wbc.wbcFilePos
  reached : Reached s p

section Call
variable {stop : Int} {s₁ : WState}

theorem TargetEnds.inBuf_eq (ht : TargetEnds efh s l fr p (.fill q) s₁ l' fr')
    (h : AtWork s l fr p) : s₁.inBuf q = s.wbc.wbcFilePos % MBUFSIZE := by
  obtain ⟨-, -, hq, hfile, -⟩ := ht.owns h.owns h.mem h.posData
  obtain ⟨hblocks, hle, hlt⟩ := ht.covers h.owns h.mem h.blocks h.isLong h.reached
  obtain ⟨haligned, -⟩ := hblocks q hq
  rw [WState.inBuf, hfile]
  simp only [MBUFSIZE] at *
  omega

theorem TargetEnds.fits_eq (ht : TargetEnds efh s l fr p (.fill q) s₁ l' fr')
    (h : AtWork s l fr p) (num : Int) :
    s₁.fits q num = min (MBUFSIZE - s.wbc.wbcFilePos % MBUFSIZE) num := by
  rw [WState.fits, ht.inBuf_eq h]

theorem TargetEnds.fits_pos (ht : TargetEnds efh s l fr p (.fill q) s₁ l' fr')
    (h : AtWork s l fr p) (hnum : 0 < num) : 0 < s₁.fits q num ∧ s₁.fits q num ≤ num := by
  have hfits := ht.fits_eq h num
  simp only [MBUFSIZE] at hfits
  omega

/-- A call that leaves bytes has filled its buffer to the end. -/
structure FilledUp (s s₁ : WState) (q : Ptr) (buf : Nat → UInt8) (cnt : Int) : Prop where
  filePos : (s₁.filled q buf cnt).wbc.wbcFilePos = s₁.pool.offs q + MBUFSIZE
  isLong : IsLong (s₁.pool.offs q + MBUFSIZE)
  aligned : s₁.pool.offs q % MBUFSIZE = 0
  ends : s₁.pool.offs q + MBUFSIZE = s.wbc.wbcFilePos + cnt

theorem TargetEnds.filledUp (ht : TargetEnds efh s l fr p (.fill q) s₁ l' fr')
    (h : AtWork s l fr p) (hstop : s.wbc.wbcFilePos + num = stop) (hhigh : stop ≤ LONGS)
    (buf : Nat → UInt8) (hleft : num - s₁.fits q num ≠ 0) :
    FilledUp s s₁ q buf (s₁.fits q num) := by
  obtain ⟨-, -, hq, hfile, -⟩ := ht.owns h.owns h.mem h.posData
  obtain ⟨hblocks, hle, hlt⟩ := ht.covers h.owns h.mem h.blocks h.isLong h.reached
  obtain ⟨haligned, hoffs⟩ := hblocks q hq
  have hfits := ht.fits_eq h num
  have hend : s₁.pool.offs q + MBUFSIZE = s.wbc.wbcFilePos + s₁.fits q num := by
    simp only [MBUFSIZE] at *
    omega
  have hlong : IsLong (s₁.pool.offs q + MBUFSIZE) := by
    simp only [IsLong, LONGS, MBUFSIZE] at *
    omega
  refine ⟨?_, hlong, haligned, hend⟩
  change long (s₁.wbc.wbcFilePos + s₁.fits q num) = _
  rw [hfile, ← hend]
  exact long_of_isLong hlong

/-- The headers that a call leaves are those of blocks. -/
theorem WriteEnds.onBlocks {r : Ret} (h : WriteEnds efh s l fr p buf num r s' l' fr')
    (hblocks : OnBlocks s.pool l) (hlong : IsLong s.wbc.wbcFilePos) : OnBlocks s'.pool l' := by
  cases h with
  | wrote target inBuf pos room =>
      intro t ht
      rw [filled_offs]
      exact target.onBlocks hblocks hlong t ht
  | failed flush => exact OnBlocks.nil _
  | full target inBuf pos full flush => exact OnBlocks.nil _
  | fullFailed target inBuf pos full flush => exact OnBlocks.nil _

/-- The header at the position ends before the bytes that are left. -/
theorem TargetEnds.passed (ht : TargetEnds efh s l fr p (.fill q) s₁ l' fr')
    (h : AtWork s l fr p) {r : Ptr} (hr : s₁.wbc.wbcPosData = some r) {cnt : Int}
    (hcnt : 0 < cnt) (hfilled : FilledUp s s₁ q buf cnt) :
    wBufHdrLastPos ((s₁.filled q buf cnt).pool.wbh r) ≤ (s₁.filled q buf cnt).wbc.wbcFilePos := by
  have hends := hfilled.ends
  change long ((s₁.filled q buf cnt).pool.offs r + MBUFSIZE) ≤ _
  rw [filled_offs, hfilled.filePos]
  rcases ht.pos_cases h.posData hr with rfl | ⟨rfl, rfl, hbehind⟩
  · exact Int.le_of_eq (long_of_isLong hfilled.isLong)
  · omega

/-- A call that does not flush goes on behind its buffer. -/
theorem LoopPlain.wrote (hplain : LoopPlain stop s num) (hnum : 0 < num)
    (h : AtWork s l fr p) (buf : Nat → UInt8)
    (ht : TargetEnds efh s l fr p (.fill q) s₁ l' fr') {r : Ptr}
    (hr : s₁.wbc.wbcPosData = some r)
    (hroom : ((s₁.filled q buf (s₁.fits q num)).pool.blk r).info.length + 1 < WBUFHDRINFOSIZE) :
    LoopPlain stop (s₁.filled q buf (s₁.fits q num)) (num - s₁.fits q num) ∧
      turnsLeft (s₁.filled q buf (s₁.fits q num)).wbc.wbcFilePos (num - s₁.fits q num) <
        turnsLeft s.wbc.wbcFilePos num := by
  obtain ⟨-, hstop⟩ := hplain.place (by omega)
  obtain ⟨howns, -, -, -, r', hmem, hr'⟩ := ht.owns h.owns h.mem h.posData
  obtain rfl := Option.some.inj (hr.symm.trans hr')
  obtain ⟨h0, hmax⟩ := ht.fits_pos h hnum
  have hposr : (s₁.filled q buf (s₁.fits q num)).wbc.wbcPosData = some r := hr
  have hfilled := ht.filledUp h hstop hplain.high buf
  have hpast := fun hne => ht.passed h hr h0 (hfilled hne)
  refine ⟨⟨by omega, hplain.high, ⟨l', fr', howns.filled q buf _, fun t hmem' => ?_, fun hne => ?_⟩,
    fun hne => ?_, fun hne => ?_⟩, turnsLeft_lt hnum (ht.fits_eq h num) fun hne => ?_⟩
  · rw [filled_offs]
    exact ht.onBlocks h.blocks h.isLong t hmem'
  · exact ⟨r, hmem, hposr, fun hinside => absurd hinside (Int.not_lt.mpr (hpast hne))⟩
  · rw [(hfilled hne).filePos]
    refine ⟨(hfilled hne).isLong, ?_⟩
    have hends := (hfilled hne).ends
    omega
  · exact TableRoom.of_checked hposr (hpast hne) hroom
  · have haligned := (hfilled hne).aligned
    rw [(hfilled hne).filePos]
    simp only [MBUFSIZE] at *
    omega

/-- A call that has to flush because of the full table was the last one. -/
theorem LoopPlain.flushed (hplain : LoopPlain stop s num) (hnum : 0 < num)
    (h : AtWork s l fr p) (ht : TargetEnds efh s l fr p (.fill q) s₁ l' fr') {r : Ptr}
    (hr : s₁.wbc.wbcPosData = some r)
    (hfull : WBUFHDRINFOSIZE ≤ ((s₁.filled q buf (s₁.fits q num)).pool.blk r).info.length + 1)
    {hs : List Ptr} (howns : Owns s' ⟨[], [], hs⟩) :
    LoopPlain stop s' (num - s₁.fits q num) ∧
      turnsLeft s'.wbc.wbcFilePos (num - s₁.fits q num) < turnsLeft s.wbc.wbcFilePos num := by
  have hall := (hplain.room (by omega)).fits_all h.owns h.posData h.mem ht hr hfull
  have hdone : num - s₁.fits q num = 0 := by
    simp only [WState.fits]
    omega
  refine ⟨⟨by omega, hplain.high, ⟨[], _, howns, OnBlocks.nil _, ?_⟩, ?_, ?_⟩,
    turnsLeft_lt hnum (ht.fits_eq h num) ?_⟩
  · exact fun hne => absurd hdone hne
  · exact fun hne => absurd hdone hne
  · exact fun hne => absurd hdone hne
  · exact fun hne => absurd hdone hne

end Call

/-- A call of the loop writes something, and all it can into the buffer. -/
theorem LoopPlain.turn {stop : Int} (h : LoopPlain stop s num) (hnum : 0 < num) (efh : EFH)
    (buf : Nat → UInt8) :
    ∃ r s', wBufWrite efh s buf num = .ok (r, s') ∧ r ≠ .noMem ∧ KeptBlocks s' ∧
      ∀ cnt, r = .done cnt → 0 < cnt ∧ cnt ≤ num ∧ LoopPlain stop s' (num - cnt) ∧
        turnsLeft s'.wbc.wbcFilePos (num - cnt) < turnsLeft s.wbc.wbcFilePos num := by
  obtain ⟨l, fr, howns, hblocks, hat⟩ := h.chain
  obtain ⟨p, hp, hposp, hreached⟩ := hat (by omega)
  obtain ⟨hlong, -⟩ := h.place (by omega)
  have hwork : AtWork s l fr p := ⟨howns, hp, hposp, hblocks, hlong, hreached⟩
  rcases wBufWrite_cases efh howns hposp hp buf num with
    ⟨r, s', l', fr', hrun, hends⟩ | ⟨q, s₁, l', fr', target, hout, -⟩
  · obtain ⟨howns', -⟩ := hends.owns howns hposp hp
    refine ⟨r, s', hrun, ?_, ⟨l', fr', howns', hends.onBlocks hblocks hlong⟩, fun cnt hr => ?_⟩
    · cases hends <;> simp
    · cases hends with
      | failed flush => cases hr
      | fullFailed target inBuf pos full flush => cases hr
      | wrote target inBuf pos room =>
          cases hr
          obtain ⟨h0, hmax⟩ := target.fits_pos hwork hnum
          exact ⟨h0, hmax, h.wrote hnum hwork buf target pos room⟩
      | full target inBuf pos full flush =>
          cases hr
          obtain ⟨h0, hmax⟩ := target.fits_pos hwork hnum
          exact ⟨h0, hmax, h.flushed hnum hwork target pos full howns'⟩
  · refine absurd ?_ hout
    rw [target.inBuf_eq hwork]
    simp only [MBUFSIZE]
    omega

theorem LoopPlain.done {stop : Int} (h : LoopPlain stop s num) (hnum : num ≠ 0) {cnt : Int}
    (hrun : wBufWrite efh s buf num = .ok (.done cnt, s')) : 0 < cnt ∧ cnt ≤ num ∧
      LoopPlain stop s' (num - cnt) ∧
      turnsLeft s'.wbc.wbcFilePos (num - cnt) < turnsLeft s.wbc.wbcFilePos num := by
  have hleft := h.left
  obtain ⟨r, s'', hrun', -, -, hdone⟩ := h.turn (by omega) efh buf
  rw [hrun] at hrun'
  obtain ⟨rfl, rfl⟩ : .done cnt = r ∧ s' = s'' := by simpa using hrun'
  exact hdone cnt rfl

theorem LoopPlain.not_noMem {stop : Int} (h : LoopPlain stop s num) (hnum : num ≠ 0) :
    wBufWrite efh s buf num ≠ .ok (.noMem, s') := by
  have hleft := h.left
  obtain ⟨r, s'', hrun', hr, -⟩ := h.turn (by omega) efh buf
  intro hrun
  rw [hrun] at hrun'
  obtain ⟨rfl, rfl⟩ : .noMem = r ∧ s' = s'' := by simpa using hrun'
  exact hr rfl

/-- The loop that starts so. -/
theorem LoopPlain.loop {stop : Int} (h : LoopPlain stop s num) (efh : EFH) (buf : Nat → UInt8) :
    (∀ x ∈ loopEntries efh num.toNat s buf num, LoopPlain stop x.state x.num ∧ x.num ≠ 0) ∧
    (loopEntries efh num.toNat s buf num).length ≤ turnsLeft s.wbc.wbcFilePos num ∧
    ∃ e s', wBufWriteLoop efh num.toNat s buf num = .ok (e, s') ∧ ∀ b m, e ≠ .noMem b m := by
  have hall : ∀ x ∈ loopEntries efh num.toNat s buf num, True := fun _ _ => trivial
  refine ⟨?_, ?_, ?_⟩
  · exact loopEntries_rule (P := fun w _ m => LoopPlain stop w m) (C := fun _ _ _ => True)
      (fun _ _ _ _ _ hP hne _ hrun => (hP.done hne hrun).2.2.1) h hall
  · exact loopEntries_length (P := fun w _ m => LoopPlain stop w m) (C := fun _ _ _ => True)
      (V := fun w m => turnsLeft w.wbc.wbcFilePos m)
      (fun _ _ _ _ _ hP hne _ hrun => (hP.done hne hrun).2.2)
      (fun w _ m hP hne => turnsLeft_pos (Int.lt_iff_le_and_ne.mpr ⟨hP.left, Ne.symm hne⟩)) h hall
  · obtain ⟨e, s', hrun⟩ := wBufWriteLoop_total (P := fun w _ m => LoopPlain stop w m)
      (C := fun _ _ _ => True) (fun w buf m hP hm _ => by
        obtain ⟨r, w', hrun, -, -, hdone⟩ := hP.turn hm efh buf
        exact ⟨r, w', hrun, fun cnt hr => ⟨(hdone cnt hr).1, (hdone cnt hr).2.1,
          (hdone cnt hr).2.2.1⟩⟩) h h.left (by omega) hall
    refine ⟨e, s', hrun, ?_⟩
    exact wBufWriteLoop_rule (P := fun w _ m => LoopPlain stop w m) (C := fun _ _ _ => True)
      (Q := fun e _ => ∀ b m, e ≠ .noMem b m) (fun _ _ _ _ _ => by simp)
      (fun w buf m r w' hP hne _ hrun => by
        cases r with
        | failed res2 => exact fun _ _ => by simp
        | noMem => exact absurd hrun (hP.not_noMem hne)
        | done cnt => exact (hP.done hne hrun).2.2.1) h hall hrun

end Fallback

section Search
variable {g : Pool} {l l₁ l₂ : List Ptr} {p q : Ptr} {pos : Int}

theorem foundHeader_append (hbefore : ∀ p ∈ l₁, g.offs p < long (pos - MBUFSIZE))
    (hq : long (pos - MBUFSIZE) ≤ g.offs q) :
    foundHeader g (l₁ ++ q :: l₂) pos = if pos < g.offs q then l₁.getLast? else some q := by
  have htake : (l₁ ++ q :: l₂).takeWhile (fun p => decide (g.offs p < long (pos - MBUFSIZE))) =
      l₁ := by
    rw [List.takeWhile_append_of_pos fun p hp => decide_eq_true (hbefore p hp),
      List.takeWhile_cons_of_neg (by simpa using hq), List.append_nil]
  simp only [foundHeader, htake, List.drop_left, List.head?_cons, Option.bind_some]

theorem mem_of_foundHeader (h : foundHeader g l pos = some p) : p ∈ l := by
  obtain ⟨q, hq, hp⟩ := Option.bind_eq_some_iff.mp h
  split at hp
  · exact (List.takeWhile_sublist _).subset (List.mem_of_getLast? hp)
  · obtain rfl := Option.some.inj hp
    exact List.mem_of_mem_drop (List.mem_of_mem_head? hq)

/-- The search finds a header only if one of the chain stops it. -/
theorem exists_stop_of_foundHeader (h : foundHeader g l pos = some p) :
    ∃ q ∈ l, long (pos - MBUFSIZE) ≤ g.offs q := by
  by_contra hnone
  have htake : l.takeWhile (fun p => decide (g.offs p < long (pos - MBUFSIZE))) = l :=
    List.takeWhile_eq_self_iff.mpr fun q hq =>
      decide_eq_true (Int.not_le.mp fun hle => hnone ⟨q, hq, hle⟩)
  simp only [foundHeader, htake, List.drop_length, List.head?_nil, Option.bind_none] at h
  cases h

end Search

section Calls
variable {s : FState} {l fr : List Ptr} {buf : Nat → UInt8} {num : Int}

/-- The first buffer of the write is obtained. -/
theorem seek_not_noMem (h : Owns s.w ⟨l, [], fr⟩) (hbuf : l ≠ [] ∨ 1 ≤ wBufsAvail s.pool)
    {pos : Int} {w : WState} : wBufSeekAndPrepare s.efh s.w pos ≠ .ok (.noMem, w) := by
  intro hrun
  obtain ⟨l', fr', hends⟩ := wBufSeekAndPrepare_ok s.efh h hrun
  rcases hends with ⟨-, _ | ⟨empty, none⟩⟩
  have hhdrs : s.pool.gNumFreeWBufHdrs = fr.length := h.numFree
  have hmbufs : s.pool.gNumFreeMBufs = s.pool.gFreeMBufs.length := h.numFreeM
  have havail := hbuf.resolve_left (not_not_intro empty)
  simp only [wBufsAvail, hhdrs, hmbufs] at havail
  rcases none with hfr | hfree
  · rw [hfr, List.length_nil] at havail
    omega
  · rw [show s.pool.gFreeMBufs = [] from hfree, List.length_nil] at havail
    omega

/-- The search for the first position ends. -/
theorem seek_total (h : Accounted s.w l fr) (hok : Unbroken s l num) :
    ∃ x, wBufSeekAndPrepare s.efh s.w s.efh.efhFilePos = .ok x := by
  refine wBufSeekAndPrepare_ends s.efh h.owns h.count fun hfirst hlast => ?_
  obtain ⟨p, hp, -⟩ := hok.search ⟨hfirst, hlast⟩
  exact exists_stop_of_foundHeader hp

/-- The search leaves headers for blocks of the file. -/
theorem seek_blocks (h : Owns s.w ⟨l, [], fr⟩) (hblocks : OnBlocks s.w.pool l) {pos : Int}
    (hpos : IsLong pos) {r : Ret} {w : WState}
    (hrun : wBufSeekAndPrepare s.efh s.w pos = .ok (r, w)) : KeptBlocks w := by
  obtain ⟨l', fr', -, hends⟩ | ⟨p, -, -, -, rfl⟩ | ⟨last, l₁, q, l₂, -, -, -, -, -, -, -, rfl⟩ :=
    wBufSeekAndPrepare_cases s.efh h hrun
  · cases hends with
    | failed flush => exact ⟨[], _, flush.owns, OnBlocks.nil _⟩
    | noMem empty none => exact ⟨l, fr, h.setPos _ _, hblocks⟩
    | fresh room placed new srv =>
        exact ⟨_, _, placed.owns, placed.onBlocks hpos
          (fun r hr hne => (List.mem_cons.mp hr).resolve_left hne) hblocks⟩
    | flushed placed file =>
        exact ⟨_, _, placed.owns, placed.onBlocks hpos
          (fun r hr hne => absurd (List.mem_singleton.mp hr) hne) hblocks⟩
  · exact ⟨l, fr, h.setPos _ _, hblocks⟩
  · exact ⟨l, fr, h.setPos _ _, hblocks⟩

/-- The search leaves what the loop starts with. -/
theorem seek_plain (h : Owns s.w ⟨l, [], fr⟩) (hblocks : OnBlocks s.w.pool l) (hnum : 0 < num)
    (hpos : IsLong s.efh.efhFilePos) (hok : Unbroken s l num) {n : Int} {w : WState}
    (hrun : wBufSeekAndPrepare s.efh s.w s.efh.efhFilePos = .ok (.done n, w)) :
    LoopPlain (s.efh.efhFilePos + num) w num := by
  have hset : ∀ {p : Ptr}, p ∈ l → Reached (s.w.entered s.efh.efhFilePos p) p →
      TableRoom (s.w.entered s.efh.efhFilePos p) num →
      LoopPlain (s.efh.efhFilePos + num) (s.w.entered s.efh.efhFilePos p) num :=
    fun hp hreached hroom => ⟨by omega, hok.high, ⟨l, fr, h.setPos _ _, hblocks,
      fun _ => ⟨_, hp, rfl, hreached⟩⟩, fun _ => ⟨hpos, rfl⟩, fun _ => hroom⟩
  have hplaced : ∀ {p : Ptr} {l' fr' : List Ptr},
      Placed s.efh (s.w.setFilePos s.efh.efhFilePos) l fr s.efh.efhFilePos w p l' fr' →
      (∀ r ∈ l', r ≠ p → r ∈ l) → p ∈ l' → LoopPlain (s.efh.efhFilePos + num) w num := by
    intro p l' fr' placed hold hp
    have hfile : w.wbc.wbcFilePos = s.efh.efhFilePos := placed.filePos
    obtain ⟨-, -, hle, -⟩ := onBlocks_align hpos
    refine ⟨by omega, hok.high, ⟨l', fr', placed.owns, placed.onBlocks hpos hold hblocks,
      fun _ => ⟨p, hp, placed.posData, fun _ => ?_⟩⟩, fun _ => by rw [hfile]; exact ⟨hpos, rfl⟩,
      fun _ => TableRoom.of_new placed.posData placed.info⟩
    rw [hfile, ← Pool.blk_fileOffs, placed.offs]
    exact hle
  obtain ⟨l', fr', -, hends⟩ | ⟨p, hlast, hbehind, -, rfl⟩ |
    ⟨last, l₁, q, l₂, hlast, hnot, hfirst, rfl, hbefore, hq, -, rfl⟩ :=
      wBufSeekAndPrepare_cases s.efh h hrun
  · cases hends with
    | fresh room placed new srv =>
        exact hplaced placed (fun r hr hne => (List.mem_cons.mp hr).resolve_left hne) (by simp)
    | flushed placed file =>
        exact hplaced placed (fun r hr hne => absurd (List.mem_singleton.mp hr) hne) (by simp)
  · refine hset (List.mem_of_getLast? hlast) (fun hlt => absurd hlt (Int.not_lt.mpr hbehind))
      fun r hr => ?_
    obtain rfl : p = r := Option.some.inj hr
    exact ⟨fun hinside => absurd hinside (Int.not_lt.mpr hbehind),
      fun n _ hcov => absurd hcov (not_coveringNext_last (h.setPos (some p) _) hlast)⟩
  · have hsearches : Searches s.pool (l₁ ++ q :: l₂) s.efh.efhFilePos := by
      refine ⟨?_, last, hlast, hnot⟩
      cases hhead : (l₁ ++ q :: l₂).head? with
      | none => simp at hhead
      | some p => exact ⟨p, rfl, hfirst p hhead⟩
    obtain ⟨p, hfound, hreached, hroom⟩ := hok.search hsearches
    have hstop : foundHeader s.pool (l₁ ++ q :: l₂) s.efh.efhFilePos = _ :=
      foundHeader_append hbefore hq
    have hmem : p ∈ l₁ ++ q :: l₂ := mem_of_foundHeader hfound
    rw [Option.mem_def, hstop] at hfound
    have hset' : (if s.efh.efhFilePos < s.w.pool.offs q then l₁.getLast? else some q) = some p :=
      hfound
    rw [hset']
    exact hset hmem hreached hroom

theorem writeEntries_eq {wbc : WBufCluster} (hwbuf : s.efh.efhWBuf = some wbc)
    (hgo : ¬ goesPast s.pool wbc num) {n : Int} {w : WState}
    (hseek : wBufSeekAndPrepare s.efh s.w s.efh.efhFilePos = .ok (.done n, w)) :
    writeEntries s buf num = loopEntries s.efh num.toNat w buf num := by
  unfold writeEntries
  simp only [hwbuf, if_neg hgo, ← FState.w_eq hwbuf, hseek]

/-- In the buffered branch of `wc_WriteCache` the fallback is never used. -/
theorem Unbroken.fallbackUnused (h : Accounted s.w l fr) {wbc : WBufCluster}
    (hwbuf : s.efh.efhWBuf = some wbc) (hgo : ¬ goesPast s.pool wbc num) (hnum : 0 < num)
    (hpos : IsLong s.efh.efhFilePos) (hok : Unbroken s l num) :
    FallbackUnused s buf num ∧
      ∀ x ∈ writeEntries s buf num, OnTrack (s.efh.efhFilePos + num) x := by
  have hw := FState.w_eq hwbuf
  obtain ⟨⟨r, w⟩, hseek⟩ := seek_total h hok
  have hr : r ≠ .noMem := fun hr => seek_not_noMem h.owns hok.buffer (hr ▸ hseek)
  cases r with
  | noMem => exact absurd rfl hr
  | failed res2 =>
      have hnone : writeEntries s buf num = [] := by
        unfold writeEntries
        simp only [hwbuf, if_neg hgo, ← hw, hseek]
      refine ⟨⟨⟨_, w, hseek, hr⟩, by simp [hnone], ?_, fun n w' hrun => ?_⟩, by simp [hnone]⟩
      · rw [hnone]
        simp only [List.length_nil, MBUFSIZE]
        omega
      · rw [hseek] at hrun
        cases hrun
  | done n =>
      have hloop : writeEntries s buf num = loopEntries s.efh num.toNat w buf num :=
        writeEntries_eq hwbuf hgo hseek
      obtain ⟨hturns, hcount, hends⟩ :=
        (seek_plain h.owns h.blocks hnum hpos hok hseek).loop s.efh buf
      rw [hloop]
      refine ⟨⟨⟨_, w, hseek, hr⟩, ?_, ?_, fun n w' hrun => ?_⟩, fun x hx => ?_⟩
      · rw [hloop]
        exact fun x hx w' => (hturns x hx).1.not_noMem (hturns x hx).2
      · rw [hloop]
        have := turnsLeft_le w.wbc.wbcFilePos hnum
        omega
      · rw [hseek] at hrun
        cases hrun
        exact hends
      · exact (hturns x hx).1.onTrack (hturns x hx).2 x.buf

/-- A write leaves headers for blocks of the file. -/
theorem wcWriteCache_blocks {s' : FState} (h : Owns s.w ⟨l, [], fr⟩) (hblocks : OnBlocks s.w.pool l)
    (hnum : 0 < num) (hpos : IsLong s.efh.efhFilePos)
    (hok : ∀ wbc, s.efh.efhWBuf = some wbc → ¬ goesPast s.pool wbc num → Unbroken s l num)
    {r : Ret} (hrun : wcWriteCache s buf num = .ok (r, s')) : KeptBlocks s'.w := by
  have hpast : PastKeeps s.efh KeptBlocks := by
    rintro s₁ buf num r s' ⟨l₁, fr₁, howns, -⟩ hsame hrun
    obtain ⟨r', s'', hrun', hends⟩ := flushCacheAndWrite_cases howns buf num
    rw [hrun] at hrun'
    obtain ⟨rfl, rfl⟩ : r = r' ∧ s' = s'' := by simpa using hrun'
    obtain ⟨howns', -, hsame'⟩ := hends.owns
    exact ⟨⟨[], _, howns', OnBlocks.nil _⟩, hsame.trans hsame'⟩
  refine (wcWriteCache_rule (P := fun w _ m => LoopPlain (s.efh.efhFilePos + num) w m)
    (C := fun _ _ _ => True) ⟨l, fr, h, hblocks⟩ hpast ?_ (fun w _ hP => hP.kept) ?_
    (fun _ _ => trivial) hrun).1
  · intro wbc r w hwbuf hgo hseek
    have hkept := seek_blocks h hblocks hpos hseek
    cases r with
    | failed res2 => exact hkept
    | noMem => exact hkept
    | done n => exact seek_plain h hblocks hnum hpos (hok wbc hwbuf hgo) hseek
  · intro w buf m r w' hP hne _ hw
    have hleft := hP.left
    obtain ⟨r', w'', hrun', -, hkept, hdone⟩ := hP.turn (by omega) s.efh buf
    rw [hw] at hrun'
    obtain ⟨rfl, rfl⟩ : r = r' ∧ w' = w'' := by simpa using hrun'
    cases r with
    | failed res2 => exact hkept
    | noMem => exact hkept
    | done cnt => exact (hdone cnt rfl).2.2.1

/-- No call of such a write empties the cluster before the last one. -/
theorem writeEntries_tableRoom (h : Owns s.w ⟨l, [], fr⟩) (hblocks : OnBlocks s.w.pool l)
    (hnum : 0 < num) (hpos : IsLong s.efh.efhFilePos)
    (hok : ∀ wbc, s.efh.efhWBuf = some wbc → ¬ goesPast s.pool wbc num → Unbroken s l num) :
    ∀ x ∈ writeEntries s buf num, TableRoom x.state x.num := by
  have hrule : ∀ x ∈ writeEntries s buf num,
      LoopPlain (s.efh.efhFilePos + num) x.state x.num ∧ x.num ≠ 0 := writeEntries_rule
    (P := fun w _ m => LoopPlain (s.efh.efhFilePos + num) w m) (C := fun _ _ _ => True)
    (Q := KeptBlocks) (fun wbc r w hwbuf hgo hseek => by
      have hkept := seek_blocks h hblocks hpos hseek
      cases r with
      | failed res2 => exact hkept
      | noMem => exact hkept
      | done n => exact seek_plain h hblocks hnum hpos (hok wbc hwbuf hgo) hseek)
    (fun _ _ _ _ _ hP hne _ hrun => (hP.done hne hrun).2.2.1) (fun _ _ => trivial)
  exact fun x hx => (hrule x hx).1.room (hrule x hx).2

end Calls

end Anfs.Buf
