import Anfs.Buf.Cache
import Anfs.Buf.Table

/-!
# Room in the tables of a cluster

Only the table of the position is checked after a write. A header that the write moves on to is
filled from its first byte, so its table gets one entry more than the check allows, and then
starts at that byte: the next write there adds none.
-/
namespace Anfs.Buf
open Anfs.Lib Anfs.Nfs

/-- A header with room for an entry. If that is the last one, the table starts at the first
byte. -/
structure Roomy (b : Block) : Prop where
  aligned : b.fileOffs % MBUFSIZE = 0
  normal : Normal 0 (MBUFSIZE - 1) b.info
  room : b.info.length < WBUFHDRINFOSIZE
  zero : WBUFHDRINFOSIZE ≤ b.info.length + 1 → ∃ wbi rest, b.info = wbi :: rest ∧ wbi.wbiFrom = 0

theorem length_meltEnd (prev : WBufHdrInfo) (rest : List WBufHdrInfo) (last : Int) :
    (meltEnd prev rest last).2.length ≤ rest.length := by
  induction rest generalizing prev with
  | nil => simp [meltEnd]
  | cons nwbi rest ih =>
      unfold meltEnd
      split
      · exact Nat.le_succ_of_le (ih nwbi)
      · split
        · exact Nat.le_refl _
        · exact Nat.le_succ _

/-- After a write at the first byte the table starts there; it has grown by an entry only if it
did not start there before. -/
theorem wBufUpdateInfo_zero {hi last : Int} {info : List WBufHdrInfo} (h : Normal 0 hi info)
    (hlast : 0 ≤ last) :
    ∃ wbi rest, wBufUpdateInfo info 0 last = wbi :: rest ∧ wbi.wbiFrom = 0 ∧
      rest.length ≤ info.length ∧
      ∀ w behind, info = w :: behind → w.wbiFrom = 0 → rest.length ≤ behind.length := by
  cases info with
  | nil => exact ⟨_, _, rfl, rfl, Nat.le_refl _, fun w behind hw => by cases hw⟩
  | cons wbi rest =>
      obtain ⟨hfrom, hto, -, -⟩ := h
      unfold wBufUpdateInfo
      rw [if_pos (by omega)]
      by_cases hfar : last + 1 < wbi.wbiFrom
      · rw [if_pos hfar]
        refine ⟨_, _, rfl, rfl, Nat.le_refl _, fun w behind hw hzero => ?_⟩
        cases hw
        omega
      · rw [if_neg hfar]
        have hmin : min wbi.wbiFrom 0 = 0 := Int.min_eq_right hfrom
        cases rest with
        | nil => exact ⟨_, _, rfl, hmin, Nat.zero_le _, fun _ _ _ _ => Nat.zero_le _⟩
        | cons next rest =>
            dsimp only
            split
            · have hlen := length_meltEnd wbi (next :: rest) last
              refine ⟨_, _, rfl, hmin, Nat.le_succ_of_le hlen, fun w behind hw _ => ?_⟩
              cases hw
              exact hlen
            · refine ⟨_, _, rfl, hmin, Nat.le_succ _, fun w behind hw _ => ?_⟩
              cases hw
              exact Nat.le_refl _

section Header
variable {b : Block} {buf : Nat → UInt8} {offs cnt : Int}

theorem Roomy.new (pos : Int) (bytes : Nat → UInt8) : Roomy ⟨wBufAlignFileOffs pos, [], bytes⟩ where
  aligned := by
    simp only [wBufAlignFileOffs, MBUFSIZE]
    omega
  normal := trivial
  room := show 0 < WBUFHDRINFOSIZE by decide
  zero h := absurd h (show ¬ WBUFHDRINFOSIZE ≤ 0 + 1 by decide)

/-- A write that the check has let pass. -/
theorem Roomy.put (h : Roomy b) (h0 : 0 ≤ offs) (hcnt : 0 < cnt) (hend : offs + cnt ≤ MBUFSIZE)
    (hlen : (b.put buf offs cnt).info.length + 1 < WBUFHDRINFOSIZE) :
    Roomy (b.put buf offs cnt) where
  aligned := h.aligned
  normal := (wBufUpdateInfo_spec h.normal h0 (by omega) (by omega)).1
  room := by omega
  zero hfull := absurd hlen (Nat.not_lt.mpr hfull)

/-- A write from the first byte. -/
theorem Roomy.put_zero (h : Roomy b) (hcnt : 0 < cnt) (hend : cnt ≤ MBUFSIZE) :
    Roomy (b.put buf 0 cnt) := by
  obtain ⟨wbi, rest, hinfo, hfrom, hlen, hstart⟩ :=
    wBufUpdateInfo_zero h.normal (show 0 ≤ 0 + cnt - 1 by omega)
  have hput : (b.put buf 0 cnt).info = wbi :: rest := hinfo
  refine ⟨h.aligned, (wBufUpdateInfo_spec h.normal (Int.le_refl 0) (by omega) (by omega)).1, ?_,
    fun _ => ⟨wbi, rest, hput, hfrom⟩⟩
  rw [hput, List.length_cons]
  have hroom := h.room
  by_cases hfull : WBUFHDRINFOSIZE ≤ b.info.length + 1
  · obtain ⟨w, behind, hb, hw⟩ := h.zero hfull
    have := hstart w behind hb hw
    rw [hb, List.length_cons] at hroom
    omega
  · omega

end Header

/-- Every header of the chain has room. -/
def RoomyChain (g : Pool) (l : List Ptr) : Prop := ∀ p ∈ l, Roomy (g.blk p)

/-- If the next call of `WBufWrite` moves on to another header, it fills it from its first
byte. -/
def Lands (s : WState) : Prop :=
  ∀ p n, s.wbc.wbcPosData = some p → wBufHdrLastPos (s.pool.wbh p) ≤ s.wbc.wbcFilePos →
    coveringNext s.pool.wbh (s.pool.wbh p) s.wbc.wbcFilePos = some n →
      s.wbc.wbcFilePos % MBUFSIZE = 0

section Cluster
variable {efh : EFH} {s s' : WState} {l fr l' fr' : List Ptr} {p q : Ptr}
  {buf : Nat → UInt8} {num : Int}

theorem RoomyChain.nil (g : Pool) : RoomyChain g [] := fun _ hp => absurd hp List.not_mem_nil

theorem Placed.roomy {pos : Int} (h : Placed efh s l fr pos s' p l' fr')
    (hold : ∀ r ∈ l', r ≠ p → Roomy (s.pool.blk r)) : RoomyChain s'.pool l' := by
  intro r hr
  by_cases hrp : r = p
  · rw [hrp, h.blk]
    exact Roomy.new _ _
  · rw [h.others r hr hrp]
    exact hold r hr hrp

theorem TargetEnds.roomy {s₁ : WState} (ht : TargetEnds efh s l fr p (.fill q) s₁ l' fr')
    (h : RoomyChain s.pool l) : RoomyChain s₁.pool l' := by
  cases ht with
  | here inside => exact h
  | next past covers => exact h
  | fresh room past gap split placed new_notMem srv =>
      subst split
      refine placed.roomy fun r hr hne => h r ?_
      simp only [List.mem_append, List.mem_cons] at hr ⊢
      tauto
  | flushed placed file =>
      exact placed.roomy fun r hr hne => absurd (List.mem_singleton.mp hr) hne

theorem Owns.filled_roomy (howns : Owns s ⟨l, [], fr⟩) (h : RoomyChain s.pool l) (hq : q ∈ l)
    {cnt : Int} (hput : Roomy ((s.pool.blk q).put buf (s.inBuf q) cnt)) :
    RoomyChain (s.filled q buf cnt).pool l := by
  intro r hr
  by_cases hrq : r = q
  · rw [hrq, filled_blk]
    exact hput
  · rw [howns.filled_blk_ne hq hr hrq]
    exact h r hr

/-- What a call that finds its buffer leaves of the chain, if the check lets it pass. -/
theorem TargetEnds.filled_roomy {s₁ : WState} {r : Ptr} (howns : Owns s ⟨l, [], fr⟩)
    (hp : p ∈ l) (hpos : s.wbc.wbcPosData = some p) (h : RoomyChain s.pool l) (hlands : Lands s)
    (hnum : 0 < num) (ht : TargetEnds efh s l fr p (.fill q) s₁ l' fr')
    (hin : 0 ≤ s₁.inBuf q ∧ s₁.inBuf q < MBUFSIZE) (hr : s₁.wbc.wbcPosData = some r)
    (hroom : ((s₁.filled q buf (s₁.fits q num)).pool.blk r).info.length + 1 < WBUFHDRINFOSIZE) :
    RoomyChain (s₁.filled q buf (s₁.fits q num)).pool l' := by
  obtain ⟨howns', -, hq, hfile, -⟩ := ht.owns howns hp hpos
  have hchain := ht.roomy h
  have hcnt : 0 < s₁.fits q num := by
    simp only [WState.fits]
    omega
  have hend : s₁.inBuf q + s₁.fits q num ≤ MBUFSIZE := by
    simp only [WState.fits]
    omega
  refine howns'.filled_roomy hchain hq ?_
  have hchecked : r = q → Roomy ((s₁.pool.blk q).put buf (s₁.inBuf q) (s₁.fits q num)) := by
    rintro rfl
    rw [filled_blk] at hroom
    exact (hchain r hq).put hin.1 hcnt hend hroom
  cases ht with
  | here inside => exact hchecked (Option.some.inj (hr.symm.trans hpos))
  | next past covers =>
      have hzero := hlands p q hpos past covers
      have haligned := (hchain q hq).aligned
      have hinBuf : s.inBuf q = 0 := by
        simp only [WState.inBuf, Pool.blk_fileOffs, MBUFSIZE] at hin haligned hzero ⊢
        omega
      rw [hinBuf] at hend ⊢
      exact (hchain q hq).put_zero hcnt (by omega)
  | fresh room past gap split placed new_notMem srv =>
      exact hchecked (Option.some.inj (hr.symm.trans placed.posData))
  | flushed placed file => exact hchecked (Option.some.inj (hr.symm.trans placed.posData))

/-- A call with bytes left ends at the end of a block. -/
theorem filled_lands {s₁ : WState} {cnt : Int} (haligned : s₁.pool.offs q % MBUFSIZE = 0)
    (hcnt : cnt = s₁.fits q num) (hleft : num - cnt ≠ 0) : Lands (s₁.filled q buf cnt) := by
  intro _ _ _ _ _
  have hfits : cnt = MBUFSIZE - s₁.inBuf q := by
    simp only [WState.fits] at hcnt
    omega
  have hpos : (s₁.filled q buf cnt).wbc.wbcFilePos = long (s₁.pool.offs q + MBUFSIZE) := by
    change long (s₁.wbc.wbcFilePos + cnt) = _
    rw [hfits, WState.inBuf]
    congr 1
    omega
  rw [hpos]
  simp only [long, MBUFSIZE] at haligned ⊢
  omega

theorem not_coveringNext_last (h : Owns s ⟨l, [], fr⟩) (hlast : l.getLast? = some p)
    {pos : Int} {n : Ptr} :
    coveringNext s.pool.wbh (s.pool.wbh p) pos ≠ some n := by
  intro hn
  obtain ⟨l₀, rfl⟩ := List.getLast?_eq_some_iff.mp hlast
  have hnext := h.chain.next_head
  rw [(coveringNext_eq_some.mp hn).1] at hnext
  cases hnext

theorem HeadEnds.roomy {pos : Int} {r : Ret} (hh : HeadEnds efh s l fr pos r s' l' fr')
    (h : RoomyChain s.pool l) : RoomyChain s'.pool l' := by
  cases hh with
  | failed flush => exact RoomyChain.nil _
  | noMem empty none => exact h
  | fresh room placed new srv =>
      exact placed.roomy fun r hr hne => h r ((List.mem_cons.mp hr).resolve_left hne)
  | flushed placed file => exact placed.roomy fun r hr hne => absurd (List.mem_singleton.mp hr) hne

/-- In front of the chain lies the new header only. -/
theorem HeadEnds.lands {pos n : Int} (hh : HeadEnds efh s l fr pos (.done n) s' l' fr')
    (hfile : s.wbc.wbcFilePos = pos)
    (hfront : ∀ p, l.head? = some p → pos < s.pool.offs p) : Lands s' := by
  cases hh with
  | @fresh _ p₀ _ room placed new srv =>
      intro p n hpos _ hcov
      obtain rfl : p₀ = p := Option.some.inj (placed.posData.symm.trans hpos)
      obtain ⟨hnext, hle, -⟩ := coveringNext_eq_some.mp hcov
      have hhead : l.head? = some n := by
        rw [← hnext]
        exact (@Linked.next_head _ _ _ [] _ _ placed.owns.chain).symm
      have hmem := List.mem_of_mem_head? hhead
      have hsame := placed.others n (List.mem_cons_of_mem _ hmem) (ne_of_mem_of_not_mem hmem new)
      rw [← Pool.blk_fileOffs, hsame, placed.filePos, hfile, Pool.blk_fileOffs] at hle
      exact absurd (hfront n hhead) (Int.not_lt.mpr hle)
  | flushed placed file =>
      intro p n hpos _ hcov
      obtain rfl := Option.some.inj (placed.posData.symm.trans hpos)
      exact absurd hcov (not_coveringNext_last placed.owns rfl)

/-- The position of a write may lie in the block behind the header that the search finds: then it
is the first byte of that block. -/
theorem search_lands {newPos : Int} {last : Ptr} (haligned : ∀ r ∈ l, s.pool.offs r % MBUFSIZE = 0)
    (hlast : last ∈ l) (hq : q ∈ l) (hnot : newPos < long (s.pool.offs last + MBUFSIZE))
    (hreach : long (newPos - MBUFSIZE) ≤ s.pool.offs q) (hle : s.pool.offs q ≤ newPos)
    (hpast : long (s.pool.offs q + MBUFSIZE) ≤ newPos) : newPos % MBUFSIZE = 0 := by
  have h1 := haligned last hlast
  have h2 := haligned q hq
  simp only [long, MBUFSIZE] at *
  omega

theorem seek_roomy (h : Owns s ⟨l, [], fr⟩) (hroomy : RoomyChain s.pool l) {newPos : Int} {r : Ret}
    (hrun : wBufSeekAndPrepare efh s newPos = .ok (r, s')) : ∃ l' fr',
      Owns s' ⟨l', [], fr'⟩ ∧ Moved efh.efhNFSFh s ⟨l, [], fr⟩ s' ⟨l', [], fr'⟩ ∧
      RoomyChain s'.pool l' ∧
      ∀ n, r = .done n → (∃ p ∈ l', s'.wbc.wbcPosData = some p) ∧ Lands s' := by
  have hset : ∀ o, Owns ((s.setFilePos newPos).setPosData o) ⟨l, [], fr⟩ ∧
      Moved efh.efhNFSFh s ⟨l, [], fr⟩ ((s.setFilePos newPos).setPosData o) ⟨l, [], fr⟩ :=
    fun o => ⟨h.setPos o newPos, { Moved.refl _ s ⟨l, [], fr⟩ with max := rfl }⟩
  obtain ⟨l', fr', hfront, hends⟩ | ⟨p, hlast, -, rfl, rfl⟩ |
    ⟨last, l₁, q, l₂, hlast, hnot, hfirst, rfl, hbefore, hreach, rfl, rfl⟩ :=
      wBufSeekAndPrepare_cases efh h hrun
  · have hpos : Owns (s.setFilePos newPos) ⟨l, [], fr⟩ := h.setPos s.wbc.wbcPosData newPos
    obtain ⟨howns, hmoved, hp⟩ := hends.owns hpos
    have hstart : Moved efh.efhNFSFh s ⟨l, [], fr⟩ (s.setFilePos newPos) ⟨l, [], fr⟩ :=
      { Moved.refl _ s ⟨l, [], fr⟩ with max := rfl }
    refine ⟨l', fr', howns, hstart.trans hmoved, hends.roomy hroomy, fun n hn => ⟨hp n hn, ?_⟩⟩
    subst hn
    exact hends.lands rfl hfront
  · refine ⟨l, fr, (hset _).1, (hset _).2, hroomy, fun n _ =>
      ⟨⟨p, List.mem_of_getLast? hlast, rfl⟩, fun p' n hpos _ hcov => ?_⟩⟩
    obtain rfl : p = p' := Option.some.inj hpos
    exact absurd hcov (not_coveringNext_last (hset (some p)).1 hlast)
  · have hmem : ∀ r ∈ l₁ ++ q :: l₂, (s.pool.blk r).fileOffs % MBUFSIZE = 0 :=
      fun r hr => (hroomy r hr).aligned
    by_cases hlt : newPos < s.pool.offs q
    · rw [if_pos hlt]
      rcases List.eq_nil_or_concat l₁ with rfl | ⟨l₀, p, rfl⟩
      · exact absurd (hfirst q rfl) (Int.not_le.mpr hlt)
      · rw [List.concat_eq_append] at hset hroomy h ⊢
        rw [List.getLast?_concat]
        refine ⟨_, fr, (hset _).1, (hset _).2, hroomy, fun n _ =>
          ⟨⟨p, by simp, rfl⟩, fun p' n hpos _ hcov => ?_⟩⟩
        obtain rfl : p = p' := Option.some.inj hpos
        have hchain : Linked s.pool.next s.wbc.wbcFirstData (l₀ ++ p :: q :: l₂) := by
          have := h.chain
          simpa using this
        obtain ⟨hnext, hle, -⟩ := coveringNext_eq_some.mp hcov
        obtain rfl : q = n := Option.some.inj (hchain.next_head.symm.trans hnext)
        exact absurd hlt (Int.not_lt.mpr hle)
    · rw [if_neg hlt]
      refine ⟨_, fr, (hset _).1, (hset _).2, hroomy, fun n _ =>
        ⟨⟨q, by simp, rfl⟩, fun p' n hpos hpast _ => ?_⟩⟩
      obtain rfl : q = p' := Option.some.inj hpos
      exact search_lands hmem (List.mem_of_getLast? hlast) (by simp) hnot hreach
        (Int.not_lt.mp hlt) hpast

end Cluster

/-- The first entry of the table that an update may write to lies in it. -/
theorem insertPlace_total (a : Cells) (offs : Int) (left i : Nat) (h : i + left ≤ WBUFHDRINFOSIZE) :
    ∃ j, insertPlace a offs left i = .ok j ∧ i ≤ j ∧ j ≤ i + left := by
  induction left generalizing i with
  | zero => exact ⟨i, rfl, Nat.le_refl _, Nat.le_refl _⟩
  | succ left ih =>
      unfold insertPlace Cells.read
      rw [dif_pos (by omega)]
      simp only [bind, Except.bind]
      split
      · exact ⟨i, rfl, Nat.le_refl _, Nat.le_add_right _ _⟩
      · obtain ⟨j, hrun, hle, hj⟩ := ih (i + 1) (by omega)
        exact ⟨j, hrun, by omega, by omega⟩

theorem meltPlace_total (a : Cells) (last : Int) (left i : Nat) (h : i + left < WBUFHDRINFOSIZE) :
    ∃ j, meltPlace a last left i = .ok j ∧ i ≤ j ∧ j ≤ i + left := by
  induction left generalizing i with
  | zero => exact ⟨i, rfl, Nat.le_refl _, Nat.le_refl _⟩
  | succ left ih =>
      unfold meltPlace Cells.read
      rw [dif_pos (by omega)]
      simp only [bind, Except.bind]
      split
      · obtain ⟨j, hrun, hle, hj⟩ := ih (i + 1) (by omega)
        exact ⟨j, hrun, by omega, by omega⟩
      · exact ⟨i, rfl, Nat.le_refl _, Nat.le_add_right _ _⟩

theorem wBufDoMelt_total {wbh : InfoTable} {i : Nat} (hroom : wbh.wbhNumInfo < WBUFHDRINFOSIZE)
    (hi : i + 1 < wbh.wbhNumInfo) (offs last : Int) :
    ∃ wbh', wbh.wBufDoMelt i offs last = .ok wbh' := by
  obtain ⟨found, hrun, hle, hfound⟩ := meltPlace_total wbh.wbhInfo last
    (wbh.wbhNumInfo - 1 - (i + 1)) (i + 1) (by omega)
  have hread : ∀ j, j < wbh.wbhNumInfo → ∃ wbi, wbh.wbhInfo.read j = .ok wbi :=
    fun j hj => ⟨_, dif_pos (by omega)⟩
  obtain ⟨nwbi, hnwbi⟩ := hread found (by omega)
  obtain ⟨n, hn, hin, hlt⟩ : ∃ n, (if last + 1 < nwbi.wbiFrom then found - 1 else found) = n ∧
      i ≤ n ∧ n < wbh.wbhNumInfo := ⟨_, rfl, by split <;> omega, by split <;> omega⟩
  obtain ⟨nwbi', hnwbi'⟩ := hread n hlt
  obtain ⟨wbi, hwbi⟩ := hread i (by omega)
  have hmove : ∀ a : Cells, ∃ a', (if n + 1 < wbh.wbhNumInfo then
      a.memmove (i + 1) (n + 1) (wbh.wbhNumInfo - n - 1) else .ok a) = .ok a' := by
    intro a
    split
    · exact ⟨_, dif_pos ⟨by omega, by omega⟩⟩
    · exact ⟨a, rfl⟩
  unfold InfoTable.wBufDoMelt
  simp only [hrun, hnwbi, hn, hnwbi', hwbi, bind, Except.bind, Cells.write]
  rw [dif_pos (by omega)]
  obtain ⟨a', ha'⟩ := hmove (wbh.wbhInfo.set i ⟨word (min wbi.wbiFrom offs),
    word (max last nwbi'.wbiTo)⟩ (by omega))
  simp only [ha']
  exact ⟨_, rfl⟩

/-- With room for one more entry an update stays in the table, whatever it is asked to add. -/
theorem InfoTable.wBufUpdateInfo_total {wbh : InfoTable} (hroom : wbh.wbhNumInfo < WBUFHDRINFOSIZE)
    (offs len : Int) : ∃ wbh', wbh.wBufUpdateInfo offs len = .ok wbh' := by
  unfold InfoTable.wBufUpdateInfo
  by_cases hzero : wbh.wbhNumInfo = 0
  · rw [if_pos hzero, Cells.write, dif_pos (by decide)]
    exact ⟨_, rfl⟩
  · rw [if_neg hzero]
    obtain ⟨i, hrun, -, hi⟩ := insertPlace_total wbh.wbhInfo offs wbh.wbhNumInfo 0 (by omega)
    simp only [hrun, bind, Except.bind]
    have hin : i < WBUFHDRINFOSIZE := by omega
    by_cases hlt : i < wbh.wbhNumInfo
    · rw [if_pos hlt, Cells.read, dif_pos hin]
      simp only
      split
      · rw [Cells.memmove, dif_pos (by omega)]
        simp only [Cells.write]
        rw [dif_pos hin]
        exact ⟨_, rfl⟩
      · rw [Cells.reachesNext]
        by_cases hnext : i + 1 < wbh.wbhNumInfo
        · rw [if_pos hnext, Cells.read, dif_pos (by omega)]
          simp only [bind, Except.bind]
          split
          · exact wBufDoMelt_total hroom hnext _ _
          · rw [Cells.write, dif_pos hin]
            exact ⟨_, rfl⟩
        · rw [if_neg hnext, Cells.write, dif_pos hin]
          simp
    · rw [if_neg hlt, Cells.write, dif_pos hin]
      exact ⟨_, rfl⟩

/-- Wherever the write goes, `WBufUpdateInfo` finds room for an entry in the table of that buffer
and stays in it. -/
def UpdatesWithRoom (efh : EFH) (s : WState) (num : Int) : Prop :=
  ∀ q s₁, wBufTarget efh s = .ok (.fill q, s₁) →
    (s₁.pool.wbh q).wbhInfo.length < WBUFHDRINFOSIZE ∧
      ∀ wbh : InfoTable, wbh.Filled (s₁.pool.wbh q).wbhInfo →
        ∃ wbh', wbh.wBufUpdateInfo (s₁.inBuf q) (s₁.fits q num) = .ok wbh'

/-- What a call on a cluster leaves: every table has room. -/
def KeptRoomy (fh : Fh) (s₀ : WState) (v₀ : Hold) (s : WState) : Prop :=
  ∃ l fr, Owns s ⟨l, [], fr⟩ ∧ Moved fh s₀ v₀ s ⟨l, [], fr⟩ ∧ RoomyChain s.pool l

/-- The loop invariant: while bytes are left, the position is in the chain and moves on to the
first byte of a block only. -/
def LoopRoomy (fh : Fh) (s₀ : WState) (v₀ : Hold) (s : WState) (num : Int) : Prop :=
  0 ≤ num ∧ ∃ l fr, Owns s ⟨l, [], fr⟩ ∧ Moved fh s₀ v₀ s ⟨l, [], fr⟩ ∧ RoomyChain s.pool l ∧
    (num ≠ 0 → (∃ p ∈ l, s.wbc.wbcPosData = some p) ∧ Lands s)

section Loop
variable {efh : EFH} {s₀ s s' : WState} {v₀ : Hold} {buf : Nat → UInt8} {num : Int}

theorem LoopRoomy.kept {fh : Fh} (h : LoopRoomy fh s₀ v₀ s num) : KeptRoomy fh s₀ v₀ s := by
  obtain ⟨-, l, fr, howns, hmoved, hroomy, -⟩ := h
  exact ⟨l, fr, howns, hmoved, hroomy⟩

theorem LoopRoomy.turn (h : LoopRoomy efh.efhNFSFh s₀ v₀ s num) (hnum : num ≠ 0)
    (hroom : TableRoom s num) {r : Ret} (hw : wBufWrite efh s buf num = .ok (r, s')) :
    TurnKeeps (fun s _ num => LoopRoomy efh.efhNFSFh s₀ v₀ s num)
      (fun _ => KeptRoomy efh.efhNFSFh s₀ v₀) buf num r s' := by
  obtain ⟨hle, l, fr, howns, hmoved, hroomy, hpos⟩ := h
  obtain ⟨⟨p, hp, hposp⟩, hlands⟩ := hpos hnum
  rcases wBufWrite_cases efh howns hposp hp buf num with
    ⟨r', s'', l', fr', hrun, hends⟩ | ⟨q, s₁, l', fr', -, -, hrun⟩
  · rw [hw] at hrun
    obtain ⟨rfl, rfl⟩ : r = r' ∧ s' = s'' := by simpa using hrun
    obtain ⟨howns', hmoved'⟩ := hends.owns howns hposp hp
    have hall := hmoved.trans hmoved'
    cases hends with
    | failed flush => exact ⟨_, _, howns', hall, RoomyChain.nil _⟩
    | fullFailed target inBuf pos full flush => exact ⟨_, _, howns', hall, RoomyChain.nil _⟩
    | @wrote s₁ q r l' fr' target inBuf pos room =>
        obtain ⟨-, -, hq, -, r', hr', hpos'⟩ := target.owns howns hp hposp
        refine ⟨?_, _, _, howns', hall,
          target.filled_roomy howns hp hposp hroomy hlands (by omega) inBuf pos room,
          fun hleft =>
            ⟨⟨r', hr', hpos'⟩, filled_lands (target.roomy hroomy q hq).aligned rfl hleft⟩⟩
        simp only [WState.fits]
        omega
    | @full s₁ s' q r l' fr' target inBuf pos full flush =>
        have hfit := hroom.fits_all howns hposp hp target pos full
        have hcnt : num - s₁.fits q num = 0 := by
          simp only [WState.fits]
          omega
        exact ⟨by omega, _, _, howns', hall, RoomyChain.nil _, fun hleft => absurd hcnt hleft⟩
  · rw [hw] at hrun
    cases hrun

theorem LoopRoomy.updatesWithRoom (h : LoopRoomy efh.efhNFSFh s₀ v₀ s num) (hnum : num ≠ 0) :
    UpdatesWithRoom efh s num := by
  obtain ⟨-, l, fr, howns, -, hroomy, hpos⟩ := h
  obtain ⟨⟨p, hp, hposp⟩, -⟩ := hpos hnum
  intro q s₁ hrun
  obtain ⟨t, s₂, l', fr', hrun', hends⟩ := wBufTarget_cases efh howns hposp hp
  rw [hrun] at hrun'
  obtain ⟨rfl, rfl⟩ : .fill q = t ∧ s₁ = s₂ := by simpa using hrun'
  obtain ⟨-, -, hq, -, -⟩ := hends.owns howns hp hposp
  have hroom : (s₁.pool.wbh q).wbhInfo.length < WBUFHDRINFOSIZE := (hends.roomy hroomy q hq).room
  exact ⟨hroom, fun wbh hfilled =>
    InfoTable.wBufUpdateInfo_total (by rw [hfilled.1]; exact hroom) _ _⟩

end Loop

section Calls
variable {s s' : FState} {l fr : List Ptr} {buf : Nat → UInt8} {num : Int}

theorem seek_startsRoomy (h : Owns s.w ⟨l, [], fr⟩) (hroomy : RoomyChain s.pool l)
    (hnum : 0 ≤ num) :
    SeekStarts s (fun w _ num => LoopRoomy s.efh.efhNFSFh s.w ⟨l, [], fr⟩ w num)
      (KeptRoomy s.efh.efhNFSFh s.w ⟨l, [], fr⟩) buf num := by
  intro wbc r w _ _ hrun
  obtain ⟨l₁, fr₁, howns, hmoved, hroomy₁, hpos⟩ := seek_roomy h hroomy hrun
  cases r with
  | failed res2 => exact ⟨l₁, fr₁, howns, hmoved, hroomy₁⟩
  | noMem => exact ⟨l₁, fr₁, howns, hmoved, hroomy₁⟩
  | done n => exact ⟨hnum, l₁, fr₁, howns, hmoved, hroomy₁, fun _ => hpos n rfl⟩

theorem pastKeeps_roomy (s₀ : WState) (v₀ : Hold) :
    PastKeeps s.efh (KeptRoomy s.efh.efhNFSFh s₀ v₀) := by
  rintro s₁ buf num r s' ⟨l₁, fr₁, howns, hmoved, -⟩ hsame hrun
  obtain ⟨⟨fr', howns', hmoved'⟩, hsame'⟩ := KeptOwned.past ⟨l₁, fr₁, howns, hmoved⟩ hsame hrun
  exact ⟨⟨[], fr', howns', hmoved', RoomyChain.nil _⟩, hsame'⟩

/-- Every call of `WBufWrite` updates a table with room, if no call empties the cluster before the
last one. -/
theorem writeEntries_roomy (h : Owns s.w ⟨l, [], fr⟩) (hroomy : RoomyChain s.pool l)
    (hnum : 0 ≤ num) (hok : ∀ x ∈ writeEntries s buf num, TableRoom x.state x.num) :
    ∀ x ∈ writeEntries s buf num, UpdatesWithRoom s.efh x.state x.num := fun x hx =>
  have hall := writeEntries_rule (C := fun w _ num => TableRoom w num)
    (seek_startsRoomy h hroomy hnum) (fun _ _ _ _ _ hP hne hC hw => hP.turn hne hC hw) hok x hx
  hall.1.updatesWithRoom hall.2

theorem wcWriteCache_roomy (h : Owns s.w ⟨l, [], fr⟩) (hroomy : RoomyChain s.pool l)
    (hnum : 0 ≤ num) (hok : ∀ x ∈ writeEntries s buf num, TableRoom x.state x.num) {r : Ret}
    (hrun : wcWriteCache s buf num = .ok (r, s')) :
    KeptRoomy s.efh.efhNFSFh s.w ⟨l, [], fr⟩ s'.w :=
  (wcWriteCache_rule (C := fun w _ num => TableRoom w num) ⟨l, fr, h, Moved.refl _ _ _, hroomy⟩
    (pastKeeps_roomy _ _) (seek_startsRoomy h hroomy hnum) (fun _ _ hP => hP.kept)
    (fun _ _ _ _ _ hP hne hC hw => hP.turn hne hC hw) hok hrun).1

end Calls

end Anfs.Buf
