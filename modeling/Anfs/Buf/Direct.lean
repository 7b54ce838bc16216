import Anfs.Buf.Content

/-!
# Cached writes as direct writes

While the server serves every request, an orderly cached write ends with the number of
bytes it was given, and changes the file as it will be after a flush by exactly the
request for these bytes at the position of the file.
-/
namespace Anfs.Buf
open Anfs.Lib Anfs.Nfs

/-- The chain of a cluster. -/
def WState.chain (s : WState) : List Ptr :=
  follow s.pool.next s.wbc.wbcWBufsUsed s.wbc.wbcFirstData

/-- The server answers no request with an error. -/
def Serves (srv : Server) : Prop := ∀ k res2 x, srv.answers k ≠ .failed res2 x

/-- The file `fh` will be `file` when the `num` bytes at `buf` have been written. -/
structure Holding (fh : Fh) (file : SrvFile) (s : WState) (buf : Nat → UInt8) (num : Int) :
    Prop where
  serves : Serves s.srv
  nonneg : 0 ≤ s.wbc.wbcFilePos
  offs : ∀ p ∈ s.chain, 0 ≤ s.pool.offs p
  done : num = 0 → s.ideal fh s.chain = file
  left : num ≠ 0 → (s.ideal fh s.chain).write (request s.wbc.wbcFilePos buf num) = file

section Steps
variable {efh : EFH} {s s' : WState} {l fr : List Ptr} {p : Ptr} {buf : Nat → UInt8} {num : Int}

theorem Owns.chain_eq {hand : List Ptr} (h : Owns s ⟨l, hand, fr⟩) : s.chain = l := by
  unfold WState.chain
  rw [h.used]
  exact h.chain.follow_eq

theorem Serves.flushed (h : Serves s.srv) {err : Option Int}
    (hf : Flushed efh s l [] fr err s') : err = none := by
  cases err with
  | none => rfl
  | some res2 =>
      obtain ⟨k, x, hk⟩ := hf.failed res2 rfl
      exact absurd hk (h k res2 x)

theorem Serves.moved {fh : Fh} {v v' : Hold} (h : Serves s.srv) (hm : Moved fh s v s' v') :
    Serves s'.srv := by
  intro k res2 x
  rw [hm.answers]
  exact h k res2 x

theorem Placed.nonneg {pos : Int} {l' fr' : List Ptr} (h : Placed efh s l fr pos s' p l' fr')
    (hpos : 0 ≤ pos) (hsub : ∀ q ∈ l', q ≠ p → q ∈ l) (hoffs : ∀ q ∈ l, 0 ≤ s.pool.offs q) :
    ∀ q ∈ l', 0 ≤ s'.pool.offs q := by
  intro q hq
  by_cases hqp : q = p
  · subst hqp
    rw [h.aligned]
    simp only [wBufAlignFileOffs, MBUFSIZE]
    omega
  · rw [show s'.pool.offs q = s.pool.offs q from congrArg Block.fileOffs (h.others q hq hqp)]
    exact hoffs q (hsub q hq hqp)

theorem TargetEnds.nonneg {q : Ptr} {s₁ : WState} {l' fr' : List Ptr}
    (ht : TargetEnds efh s l fr p (.fill q) s₁ l' fr') (hpos : 0 ≤ s.wbc.wbcFilePos)
    (hoffs : ∀ r ∈ l, 0 ≤ s.pool.offs r) : ∀ r ∈ l', 0 ≤ s₁.pool.offs r := by
  cases ht with
  | here inside => exact hoffs
  | next past covers => exact hoffs
  | fresh room past gap split placed new_notMem srv =>
      refine placed.nonneg hpos (fun r hr hne => ?_) hoffs
      subst split
      simp only [List.mem_append, List.mem_cons] at hr ⊢
      tauto
  | flushed placed file =>
      refine placed.nonneg hpos (fun r hr hne => ?_) hoffs
      exact absurd (List.mem_singleton.mp hr) hne

theorem SeekEnds.nonneg {newPos : Int} {r : Ret} {l' fr' : List Ptr}
    (hs : SeekEnds efh s l fr newPos r s' l' fr') (hpos : 0 ≤ newPos)
    (hoffs : ∀ q ∈ l, 0 ≤ s.pool.offs q) : ∀ q ∈ l', 0 ≤ s'.pool.offs q := by
  cases hs with
  | head front ends =>
      cases ends with
      | failed flush => simp
      | noMem empty none => exact hoffs
      | fresh room placed new srv =>
          refine placed.nonneg hpos (fun q hq hne => ?_) hoffs
          exact (List.mem_cons.mp hq).resolve_left hne
      | flushed placed file =>
          refine placed.nonneg hpos (fun q hq hne => ?_) hoffs
          exact absurd (List.mem_singleton.mp hq) hne
  | tail last behind => exact hoffs
  | inside split le reach => exact hoffs
  | between split before behind => exact hoffs

/-- Filling the buffer aimed at makes part of the request. -/
theorem Aimed.filled_ideal {q : Ptr} {fh : Fh} (h : Aimed s l q) (howns : Owns s ⟨l, [], fr⟩)
    (hpos : 0 ≤ s.wbc.wbcFilePos) (hoffs : ∀ r ∈ l, 0 ≤ s.pool.offs r) (hrange : InRange s num)
    (hnum : 0 < num) (buf : Nat → UInt8) :
    (s.filled q buf (s.fits q num)).ideal fh l =
      (s.ideal fh l).write (request s.wbc.wbcFilePos buf (s.fits q num)) := by
  obtain ⟨htidy, -⟩ := h.filled howns hnum buf
  obtain ⟨hcnt, -, -, -⟩ := h.fits hnum
  have hhigh := hrange.high
  refine ideal_write _ (h.tidy.flushable hoffs) (htidy.flushable fun r hr => ?_) hpos hcnt
    (by omega) (h.filled_patch howns hoffs hnum buf)
  rw [filled_offs]
  exact hoffs r hr

/-- A call of `WBufWrite` makes part of the request and leaves the rest to be made. -/
theorem Between.turn_direct {s₀ : WState} {v₀ : Hold} {file : SrvFile}
    (h : Between efh.efhNFSFh s₀ v₀ s num) (hh : Holding efh.efhNFSFh file s buf num)
    (hnum : 0 < num) (hroom : TableRoom s num) (hlast : NextLast s num) :
    ∃ cnt s', wBufWrite efh s buf num = .ok (.done cnt, s') ∧ 0 < cnt ∧ cnt ≤ num ∧
      Between efh.efhNFSFh s₀ v₀ s' (num - cnt) ∧
      Holding efh.efhNFSFh file s' (fun i => buf (cnt.toNat + i)) (num - cnt) := by
  obtain ⟨l, fr, howns, -, htidy, -, hat⟩ := h.chain
  obtain ⟨p, hat⟩ := hat (by omega)
  have hchain := howns.chain_eq
  have hoffs := hh.offs
  have hgoal := hh.left (by omega)
  rw [hchain] at hoffs hgoal
  have hstep : ∀ {s₁ : WState} {q : Ptr} {l' fr' : List Ptr} {s' : WState},
      TargetEnds efh s l fr p (.fill q) s₁ l' fr' →
      wBufWrite efh s buf num = .ok (.done (s₁.fits q num), s') →
      s'.ideal efh.efhNFSFh s'.chain =
        (s₁.filled q buf (s₁.fits q num)).ideal efh.efhNFSFh l' →
      (∀ r ∈ s'.chain, 0 ≤ s'.pool.offs r) →
      s'.wbc.wbcFilePos = (s₁.filled q buf (s₁.fits q num)).wbc.wbcFilePos →
      ∃ cnt s', wBufWrite efh s buf num = .ok (.done cnt, s') ∧ 0 < cnt ∧ cnt ≤ num ∧
        Between efh.efhNFSFh s₀ v₀ s' (num - cnt) ∧
        Holding efh.efhNFSFh file s' (fun i => buf (cnt.toNat + i)) (num - cnt) := by
    intro s₁ q l' fr' s' target hw hideal hoffs' hfilePos
    have haim := target.aimed howns htidy hat h.range hnum h.max
    obtain ⟨howns₁, hmoved₁, -, hfp, -⟩ := target.owns howns hat.mem hat.posData
    have hrange₁ : InRange s₁ num := ⟨by rw [hfp]; exact h.range.low, by
      rw [hfp]; exact h.range.high⟩
    obtain ⟨hcnt, hle, -, -⟩ := haim.fits hnum
    have hnext := h.turn (by omega) hroom hlast hw
    have hpos₁ : 0 ≤ s₁.wbc.wbcFilePos := by
      rw [hfp]
      exact hh.nonneg
    have hfp' := filled_filePos buf q hrange₁ (Int.le_of_lt hcnt) hle
    have hserves : Serves s'.srv := by
      obtain ⟨l₂, fr₂, -, hmoved₂, -⟩ := hnext.chain
      obtain ⟨l₃, fr₃, -, hmoved₃, -⟩ := h.chain
      intro k res2 x
      rw [hmoved₂.answers, ← hmoved₃.answers]
      exact hh.serves k res2 x
    have hwritten : s'.ideal efh.efhNFSFh s'.chain = (s.ideal efh.efhNFSFh l).write
        (request s.wbc.wbcFilePos buf (s₁.fits q num)) := by
      rw [hideal, haim.filled_ideal howns₁ hpos₁ (target.nonneg hh.nonneg hoffs) hrange₁ hnum buf,
        target.ideal, hfp]
    refine ⟨s₁.fits q num, s', hw, hcnt, hle, hnext, hserves, ?_, hoffs', fun h0 => ?_,
      fun hne => ?_⟩
    · rw [hfilePos, hfp']
      omega
    · rw [hwritten, ← hgoal]
      congr 2
      omega
    · rw [hwritten, hfilePos, hfp', hfp,
        write_split _ buf hh.nonneg hcnt (by omega) h.range.high]
      exact hgoal
  rcases wBufWrite_cases efh howns hat.posData hat.mem buf num with
    ⟨r, s', l', fr', hrun, hends⟩ | ⟨q, s₁, l', fr', target, hout, -⟩
  · obtain ⟨howns', hmoved'⟩ := hends.owns howns hat.posData hat.mem
    have hchain' := howns'.chain_eq
    cases hends with
    | failed flush => exact absurd (hh.serves.flushed flush) (by simp)
    | fullFailed target inBuf pos full flush =>
        obtain ⟨howns₁, hmoved₁, -, -, -⟩ := target.owns howns hat.mem hat.posData
        exact absurd ((hh.serves.moved hmoved₁).flushed (s := WState.filled _ _ _ _) flush)
          (by simp)
    | @wrote s₁ q r l' fr' target inBuf pos room =>
        refine hstep target hrun (by rw [hchain']) (fun r hr => ?_) rfl
        rw [hchain'] at hr
        rw [filled_offs]
        exact target.nonneg hh.nonneg hoffs r hr
    | @full s₁ s' q r l' fr' target inBuf pos full flush =>
        refine hstep target hrun ?_ (fun r hr => ?_) flush.filePos
        · rw [hchain']
          exact flush.ideal
        · rw [hchain'] at hr
          simp at hr
  · exact absurd (target.aimed howns htidy hat h.range hnum h.max).inBuf hout

/-- `WBufSeekAndPrepare` ends. -/
theorem wBufSeekAndPrepare_total (efh : EFH) (h : Owns s ⟨l, [], fr⟩) (hord : Ordered s.pool l)
    (hlen : l.length ≤ s.pool.gNumWBufHdrs.toNat) {newPos : Int} (hlow : -POSMAX ≤ newPos)
    (hhigh : newPos < POSMAX) : ∃ x, wBufSeekAndPrepare efh s newPos = .ok x := by
  refine wBufSeekAndPrepare_ends efh h hlen fun _ ⟨last, hlast, hlt⟩ =>
    ⟨last, List.mem_of_getLast? hlast, ?_⟩
  change newPos < long (s.pool.offs last + MBUFSIZE) at hlt
  have hlong : long (newPos - MBUFSIZE) = newPos - MBUFSIZE := by
    refine long_of_isLong ?_
    simp only [IsLong, POSMAX, MBUFSIZE] at *
    omega
  rw [long_offs hord (List.mem_of_getLast? hlast)] at hlt
  rw [hlong]
  omega

end Steps

section Calls
variable {s s' : FState} {l fr : List Ptr} {buf : Nat → UInt8} {num : Int}

theorem request_write_served {srv srv' : Server} {fh : Fh} {pos fileLen : Int}
    (h : nfsWrite srv fh pos buf num = (.ok fileLen, srv')) :
    srv'.file fh = (srv.file fh).write (request pos buf num) := nfsWrite_ok h

/-- A write past the cache. -/
theorem flushCacheAndWrite_direct (h : Owns s.w ⟨l, [], fr⟩) (hserves : Serves s.srv)
    (buf : Nat → UInt8) (num : Int) :
    ∃ s', flushCacheAndWrite s buf num = .ok (.done num, s') ∧
      s'.w.ideal s.efh.efhNFSFh s'.w.chain =
        (s.w.ideal s.efh.efhNFSFh l).write (request s.efh.efhFilePos buf num) ∧
      s'.w.chain = [] := by
  obtain ⟨r, s', hrun, hends⟩ := flushCacheAndWrite_cases h buf num
  obtain ⟨howns, -, -⟩ := hends.owns
  have hchain := howns.chain_eq
  cases hends with
  | flushFailed flush same =>
      have hw : Serves s.w.srv := hserves
      exact absurd (hw.flushed flush) (by simp)
  | @writeFailed res2 s₁ srv flush same write =>
      obtain ⟨k, x, hk⟩ := nfsWrite_error write
      have hans : s₁.srv.answers = s.srv.answers := flush.moved.answers
      rw [hans] at hk
      exact absurd hk (hserves k res2 x)
  | @done s₁ srv fileLen flush same write =>
      refine ⟨_, hrun, ?_, hchain⟩
      rw [hchain, ← flush.ideal]
      exact request_write_served write

/-- An orderly cached write is a direct write. -/
theorem wcWriteCache_direct (h : Owns s.w ⟨l, [], fr⟩) (htidy : Tidy s.w l)
    (hused : UsedBut s.w l none) (hlen : l.length ≤ s.pool.gNumWBufHdrs.toNat)
    (hoffs : ∀ p ∈ l, 0 ≤ s.pool.offs p) (hserves : Serves s.srv) (hpos : 0 ≤ s.efh.efhFilePos)
    (hnum : 0 < num) (hok : OrderlyWrite s buf num) :
    ∃ s', wcWriteCache s buf num = .ok (.done num, s') ∧
      s'.w.ideal s.efh.efhNFSFh s'.w.chain =
        (s.w.ideal s.efh.efhNFSFh l).write (request s.efh.efhFilePos buf num) ∧
      ∀ p ∈ s'.w.chain, 0 ≤ s'.pool.offs p := by
  have hpast : ∀ (s₁ : FState) {l₁ fr₁ : List Ptr}, Owns s₁.w ⟨l₁, [], fr₁⟩ → Serves s₁.srv →
      SameFile s.efh s₁.efh →
      s₁.w.ideal s.efh.efhNFSFh l₁ = s.w.ideal s.efh.efhNFSFh l →
      ∃ s', flushCacheAndWrite s₁ buf num = .ok (.done num, s') ∧
        s'.w.ideal s.efh.efhNFSFh s'.w.chain =
          (s.w.ideal s.efh.efhNFSFh l).write (request s.efh.efhFilePos buf num) ∧
        ∀ p ∈ s'.w.chain, 0 ≤ s'.pool.offs p := by
    intro s₁ l₁ fr₁ howns hserves₁ hsame hideal
    obtain ⟨s', hrun, hfile, hchain⟩ := flushCacheAndWrite_direct howns hserves₁ buf num
    rw [hsame.fh, hsame.filePos, hideal] at hfile
    exact ⟨s', hrun, hfile, by simp [hchain]⟩
  unfold wcWriteCache
  cases hwbuf : s.efh.efhWBuf with
  | none => exact hpast _ h hserves (SameFile.refl _) rfl
  | some wbc =>
      simp only
      by_cases hgo : goesPast s.pool wbc num
      · rw [if_pos hgo]
        exact hpast _ h hserves (SameFile.refl _) rfl
      · rw [if_neg hgo]
        have hentries := hok.entries
        unfold writeEntries at hentries
        rw [hwbuf] at hentries
        simp only at hentries
        rw [if_neg hgo] at hentries
        obtain ⟨hlow, hhigh, -⟩ := hok.range wbc hwbuf hgo
        have hsome : s.efh.efhWBuf.isSome = true := by rw [hwbuf]; rfl
        have hw := FState.w_eq hwbuf
        have howns := h
        have hord := htidy.ordered
        rw [hw] at howns hord
        obtain ⟨⟨r, w⟩, hseek⟩ := wBufSeekAndPrepare_total s.efh howns hord hlen hlow
          (by omega : s.efh.efhFilePos < POSMAX)
        obtain ⟨l₁, fr₁, hends⟩ := wBufSeekAndPrepare_ok s.efh howns hseek
        obtain ⟨howns₁, hmoved₁, -⟩ := hends.owns howns
        have hserves₁ : Serves w.srv := Serves.moved (s := s.cluster wbc) hserves hmoved₁
        rw [hseek] at hentries
        simp only [hseek, bind, Except.bind]
        cases r with
        | failed res2 =>
            exfalso
            cases hends with
            | head front ends =>
                cases ends with
                | failed flush =>
                    have hs : Serves ((s.cluster wbc).setFilePos s.efh.efhFilePos).srv := hserves
                    exact absurd (hs.flushed flush) (by simp)
        | noMem =>
            refine hpast (s.setCluster w) howns₁ hserves₁ (FState.setCluster_same hsome w) ?_
            rw [hw]
            exact hends.ideal rfl
        | done n =>
            simp only at hentries ⊢
            have hbetween : Between s.efh.efhNFSFh s.w ⟨l, [], fr⟩ w num :=
              seek_starts h htidy hused hnum hok wbc (.done n) w hwbuf hgo (by rw [hw, hseek])
            have hchain₁ := howns₁.chain_eq
            have hposw : w.wbc.wbcFilePos = s.efh.efhFilePos := by
              cases hends with
              | head front ends =>
                  cases ends with
                  | fresh room placed new srv => exact placed.filePos
                  | flushed placed file => exact placed.filePos
              | tail last behind => rfl
              | inside split le reach => rfl
              | between split before behind => rfl
            have hholding : Holding s.efh.efhNFSFh
                ((s.w.ideal s.efh.efhNFSFh l).write (request s.efh.efhFilePos buf num)) w buf
                  num := by
              refine ⟨hserves₁, by omega, ?_, fun h0 => by omega, fun _ => ?_⟩
              · rw [hchain₁]
                exact hends.nonneg hpos hoffs
              · rw [hchain₁, hends.ideal rfl, hposw, hw]
            have hturn : ∀ (w' : WState) (buf' : Nat → UInt8) (num' : Int),
                Between s.efh.efhNFSFh s.w ⟨l, [], fr⟩ w' num' ∧ Holding s.efh.efhNFSFh
                  ((s.w.ideal s.efh.efhNFSFh l).write (request s.efh.efhFilePos buf num)) w' buf'
                    num' → 0 < num' → TableRoom w' num' ∧ NextLast w' num' →
                ∃ cnt w'', wBufWrite s.efh w' buf' num' = .ok (.done cnt, w'') ∧ 0 < cnt ∧
                  cnt ≤ num' ∧ Between s.efh.efhNFSFh s.w ⟨l, [], fr⟩ w'' (num' - cnt) ∧
                  Holding s.efh.efhNFSFh
                    ((s.w.ideal s.efh.efhNFSFh l).write (request s.efh.efhFilePos buf num)) w''
                    (fun i => buf' (cnt.toNat + i)) (num' - cnt) :=
              fun w' buf' num' hP hpos' hC => hP.1.turn_direct hP.2 hpos' hC.1 hC.2
            obtain ⟨e, w', hloop⟩ := wBufWriteLoop_total
              (P := fun w' buf' num' => Between s.efh.efhNFSFh s.w ⟨l, [], fr⟩ w' num' ∧
                Holding s.efh.efhNFSFh
                  ((s.w.ideal s.efh.efhNFSFh l).write (request s.efh.efhFilePos buf num)) w' buf'
                    num')
              (C := fun w' _ num' => TableRoom w' num' ∧ NextLast w' num') (n := num.toNat)
              (fun w' buf' num' hP hpos' hC => by
                obtain ⟨cnt, w'', hrun, h0, hle, hnext⟩ := hturn w' buf' num' hP hpos' hC
                exact ⟨_, _, hrun, fun c hc => by cases hc; exact ⟨h0, hle, hnext⟩⟩)
              ⟨hbetween, hholding⟩ (Int.le_of_lt hnum) (by omega) hentries
            have hend := wBufWriteLoop_rule
              (P := fun w' buf' num' => Between s.efh.efhNFSFh s.w ⟨l, [], fr⟩ w' num' ∧
                Holding s.efh.efhNFSFh
                  ((s.w.ideal s.efh.efhNFSFh l).write (request s.efh.efhFilePos buf num)) w' buf'
                    num')
              (C := fun w' _ num' => TableRoom w' num' ∧ NextLast w' num')
              (Q := fun e w' => e = .done ∧ w'.ideal s.efh.efhNFSFh w'.chain =
                (s.w.ideal s.efh.efhNFSFh l).write (request s.efh.efhFilePos buf num) ∧
                  ∀ p ∈ w'.chain, 0 ≤ w'.pool.offs p)
              (fun w' _ hP => ⟨rfl, hP.2.done rfl, hP.2.offs⟩)
              (fun w' buf' num' r w'' hP hne hC hrun => by
                have := hP.1.nonneg
                obtain ⟨cnt, w₂, hrun', h0, hle, hnext⟩ := hturn w' buf' num' hP (by omega) hC
                rw [hrun] at hrun'
                obtain ⟨rfl, rfl⟩ : r = .done cnt ∧ w'' = w₂ := by simpa using hrun'
                exact hnext)
              ⟨hbetween, hholding⟩ hentries hloop
            obtain ⟨rfl, hideal, hoffs'⟩ := hend
            simp only [hloop]
            exact ⟨_, rfl, hideal, hoffs'⟩

end Calls

end Anfs.Buf
