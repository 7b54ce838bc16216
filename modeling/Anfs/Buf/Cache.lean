import Anfs.Buf.Loop

/-!
# The calls of the cache keep the accounts

An open file without a cache is treated as one with a cluster that stays empty, so that
the statements cover every open file.
-/
namespace Anfs.Buf
open Anfs.Lib Anfs.Nfs

def noCluster : WBufCluster := ⟨0, 0, none, none, none, 0⟩

/-- The cluster of an open file. -/
def EFH.cluster (efh : EFH) : WBufCluster := efh.efhWBuf.getD noCluster

def FState.w (s : FState) : WState := ⟨s.pool, s.srv, s.efh.cluster⟩

/-- What a call of the cache keeps of the open file. -/
structure SameFile (efh efh' : EFH) : Prop where
  id : efh'.efhId = efh.efhId
  filePos : efh'.efhFilePos = efh.efhFilePos
  mode : efh'.efhMode = efh.efhMode
  fh : efh'.efhNFSFh = efh.efhNFSFh
  key : efh'.efhKey = efh.efhKey
  wbuf : efh'.efhWBuf.isSome = efh.efhWBuf.isSome
  rbuf : efh'.efhRBuf = efh.efhRBuf
  res2 : efh'.efhRes2 = efh.efhRes2

theorem SameFile.refl (efh : EFH) : SameFile efh efh := ⟨rfl, rfl, rfl, rfl, rfl, rfl, rfl, rfl⟩

theorem SameFile.trans {e e' e'' : EFH} (h : SameFile e e') (h' : SameFile e' e'') :
    SameFile e e'' :=
  ⟨h'.id.trans h.id, h'.filePos.trans h.filePos, h'.mode.trans h.mode, h'.fh.trans h.fh,
    h'.key.trans h.key, h'.wbuf.trans h.wbuf, h'.rbuf.trans h.rbuf, h'.res2.trans h.res2⟩

/-- The calls of `WBufWrite` a call of `wc_WriteCache` makes. -/
def writeEntries (s : FState) (buf : Nat → UInt8) (num : Int) : List Entry :=
  match s.efh.efhWBuf with
  | none => []
  | some wbc =>
      if goesPast s.pool wbc num then []
      else
        match wBufSeekAndPrepare s.efh (s.cluster wbc) s.efh.efhFilePos with
        | .ok (.done _, w) => loopEntries s.efh num.toNat w buf num
        | _ => []

section Owned
variable {s s' : FState} {l fr : List Ptr} {buf : Nat → UInt8} {num : Int}

theorem FState.w_eq {wbc : WBufCluster} (h : s.efh.efhWBuf = some wbc) :
    s.w = s.cluster wbc := by
  simp [FState.w, FState.cluster, EFH.cluster, h]

@[simp] theorem FState.setCluster_w (s : FState) (w : WState) : (s.setCluster w).w = w := rfl

theorem FState.setCluster_same (h : s.efh.efhWBuf.isSome = true) (w : WState) :
    SameFile s.efh (s.setCluster w).efh := ⟨rfl, rfl, rfl, rfl, rfl, h.symm, rfl, rfl⟩

theorem hasBufferedWData_iff (h : Owns s.w ⟨l, [], fr⟩) :
    hasBufferedWData s.efh = true ↔ l ≠ [] := by
  have hused := h.used
  simp only [FState.w, EFH.cluster] at hused
  unfold hasBufferedWData
  cases hw : s.efh.efhWBuf with
  | none =>
      rw [hw] at hused
      simp [List.length_eq_zero_iff.mp hused.symm]
  | some wbc =>
      rw [hw] at hused
      simp only [Option.getD_some] at hused
      simp [hused]

/-- `wc_FlushCache` is the flush of the cluster. -/
theorem wcFlushCache_spec (h : Owns s.w ⟨l, [], fr⟩) :
    ∃ err s', wcFlushCache s = .ok (err, s') ∧ Flushed s.efh s.w l [] fr err s'.w ∧
      SameFile s.efh s'.efh ∧ s'.efh.efhFileLen = s.efh.efhFileLen := by
  cases hw : s.efh.efhWBuf with
  | none =>
      have hl : l = [] := by
        have hused := h.used
        simp only [FState.w, EFH.cluster, hw] at hused
        exact List.length_eq_zero_iff.mp hused.symm
      subst hl
      refine ⟨none, s, ?_, ⟨h, Moved.refl _ _ _, rfl, rfl, fun _ => rfl, by simp⟩,
        SameFile.refl _, rfl⟩
      unfold wcFlushCache
      rw [hw]
  | some wbc =>
      rw [FState.w_eq hw] at h ⊢
      obtain ⟨err, w, hrun, hf⟩ := iwcFlushCache_spec s.efh h
      refine ⟨err, s.setCluster w, ?_, hf, FState.setCluster_same (by rw [hw]; rfl) w, rfl⟩
      unfold wcFlushCache
      simp only [hw, hrun, bind, Except.bind]

theorem flushBuffered_spec (h : Owns s.w ⟨l, [], fr⟩) :
    ∃ err s', flushBuffered s = .ok (err, s') ∧ Flushed s.efh s.w l [] fr err s'.w ∧
      SameFile s.efh s'.efh ∧ s'.efh.efhFileLen = s.efh.efhFileLen := by
  unfold flushBuffered
  by_cases hb : hasBufferedWData s.efh = true
  · rw [if_pos hb]
    exact wcFlushCache_spec h
  · have hl : l = [] := by
      by_contra hl
      exact hb ((hasBufferedWData_iff h).mpr hl)
    subst hl
    rw [if_neg hb]
    exact ⟨none, s, rfl, ⟨h, Moved.refl _ _ _, rfl, rfl, fun _ => rfl, by simp⟩,
      SameFile.refl _, rfl⟩

/-- How `FlushCacheAndWrite` ends: the cache is empty in any case. -/
inductive PastEnds (s : FState) (l fr : List Ptr) (buf : Nat → UInt8) (num : Int) :
    Ret → FState → Prop
  | flushFailed {res2 : Int} {s' : FState}
      (flush : Flushed s.efh s.w l [] fr (some res2) s'.w) (same : SameFile s.efh s'.efh) :
      PastEnds s l fr buf num (.failed res2) s'
  | writeFailed {res2 : Int} {s₁ : FState} {srv : Server}
      (flush : Flushed s.efh s.w l [] fr none s₁.w) (same : SameFile s.efh s₁.efh)
      (write : nfsWrite s₁.srv s.efh.efhNFSFh s.efh.efhFilePos buf num = (.error res2, srv)) :
      PastEnds s l fr buf num (.failed res2) { s₁ with srv := srv }
  | done {s₁ : FState} {srv : Server} {fileLen : Int}
      (flush : Flushed s.efh s.w l [] fr none s₁.w) (same : SameFile s.efh s₁.efh)
      (write : nfsWrite s₁.srv s.efh.efhNFSFh s.efh.efhFilePos buf num = (.ok fileLen, srv)) :
      PastEnds s l fr buf num (.done num)
        { s₁ with srv := srv, efh := { s₁.efh with efhFileLen := fileLen } }

theorem flushCacheAndWrite_cases (h : Owns s.w ⟨l, [], fr⟩) (buf : Nat → UInt8) (num : Int) :
    ∃ r s', flushCacheAndWrite s buf num = .ok (r, s') ∧ PastEnds s l fr buf num r s' := by
  obtain ⟨err, s₁, hrun, hf, hsame, -⟩ := flushBuffered_spec h
  unfold flushCacheAndWrite
  simp only [hrun, bind, Except.bind]
  cases err with
  | some res2 => exact ⟨_, _, rfl, .flushFailed hf hsame⟩
  | none =>
      simp only
      cases hw : nfsWrite s₁.srv s₁.efh.efhNFSFh s₁.efh.efhFilePos buf num with
      | mk res srv =>
          rw [hsame.fh, hsame.filePos] at hw
          cases res with
          | ok fileLen => exact ⟨_, _, rfl, .done hf hsame hw⟩
          | error res2 => exact ⟨_, _, rfl, .writeFailed hf hsame hw⟩

theorem PastEnds.owns {r : Ret} (hp : PastEnds s l fr buf num r s') :
    Owns s'.w ⟨[], [], l.reverse ++ fr⟩ ∧
      Moved s.efh.efhNFSFh s.w ⟨l, [], fr⟩ s'.w ⟨[], [], l.reverse ++ fr⟩ ∧
      SameFile s.efh s'.efh := by
  cases hp with
  | flushFailed flush same => exact ⟨flush.owns, flush.moved, same⟩
  | @writeFailed res2 s₁ srv flush same write =>
      have hserved := nfsWrite_served s₁.srv s.efh.efhNFSFh s.efh.efhFilePos buf num
      rw [write] at hserved
      exact ⟨flush.owns.withServer srv, flush.moved.trans (moved_withServer _ hserved), same⟩
  | @done s₁ srv fileLen flush same write =>
      have hserved := nfsWrite_served s₁.srv s.efh.efhNFSFh s.efh.efhFilePos buf num
      rw [write] at hserved
      exact ⟨flush.owns.withServer srv, flush.moved.trans (moved_withServer _ hserved),
        same.trans ⟨rfl, rfl, rfl, rfl, rfl, rfl, rfl, rfl⟩⟩

theorem HeadEnds.owns {efh : EFH} {s s' : WState} {pos : Int} {r : Ret} {l' fr' : List Ptr}
    (hh : HeadEnds efh s l fr pos r s' l' fr') (h : Owns s ⟨l, [], fr⟩) :
    Owns s' ⟨l', [], fr'⟩ ∧ Moved efh.efhNFSFh s ⟨l, [], fr⟩ s' ⟨l', [], fr'⟩ ∧
      ∀ n, r = .done n → ∃ p ∈ l', s'.wbc.wbcPosData = some p := by
  cases hh with
  | failed flush => exact ⟨flush.owns, flush.moved, by simp⟩
  | noMem empty none => exact ⟨h, Moved.refl _ _ _, by simp⟩
  | fresh room placed new srv =>
      exact ⟨placed.owns, placed.moved, fun _ _ => ⟨_, by simp, placed.posData⟩⟩
  | flushed placed file =>
      exact ⟨placed.owns, placed.moved, fun _ _ => ⟨_, by simp, placed.posData⟩⟩

theorem SeekEnds.owns {efh : EFH} {s s' : WState} {pos : Int} {r : Ret} {l' fr' : List Ptr}
    (hs : SeekEnds efh s l fr pos r s' l' fr') (h : Owns s ⟨l, [], fr⟩) :
    Owns s' ⟨l', [], fr'⟩ ∧ Moved efh.efhNFSFh s ⟨l, [], fr⟩ s' ⟨l', [], fr'⟩ ∧
      ∀ n, r = .done n → ∃ p ∈ l', s'.wbc.wbcPosData = some p := by
  have hpos : Owns (s.setFilePos pos) ⟨l, [], fr⟩ := h.setPos s.wbc.wbcPosData pos
  have hmoved : Moved efh.efhNFSFh s ⟨l, [], fr⟩ (s.setFilePos pos) ⟨l, [], fr⟩ :=
    { Moved.refl _ s ⟨l, [], fr⟩ with max := rfl }
  have hset : ∀ p, Owns ((s.setFilePos pos).setPosData (some p)) ⟨l, [], fr⟩ ∧
      Moved efh.efhNFSFh s ⟨l, [], fr⟩ ((s.setFilePos pos).setPosData (some p)) ⟨l, [], fr⟩ :=
    fun p => ⟨h.setPos (some p) pos, { Moved.refl _ s ⟨l, [], fr⟩ with max := rfl }⟩
  cases hs with
  | head front ends =>
      obtain ⟨howns, hmov, hp⟩ := ends.owns hpos
      exact ⟨howns, hmoved.trans hmov, hp⟩
  | @tail p last behind =>
      exact ⟨(hset p).1, (hset p).2, fun _ _ => ⟨p, List.mem_of_getLast? last, rfl⟩⟩
  | @inside p l₁ l₂ split le reach =>
      exact ⟨(hset p).1, (hset p).2, fun _ _ => ⟨p, by simp [split], rfl⟩⟩
  | @between p q l₁ l₂ split before behind =>
      exact ⟨(hset p).1, (hset p).2, fun _ _ => ⟨p, by simp [split], rfl⟩⟩

end Owned

section Rule
variable {s s' : FState} {P C : WState → (Nat → UInt8) → Int → Prop} {Q : WState → Prop}
  {buf : Nat → UInt8} {num : Int}

/-- What `WBufSeekAndPrepare` has to establish: the invariant `P` of the loop, or `Q`. -/
def SeekKeeps (P : WState → (Nat → UInt8) → Int → Prop) (Q : WState → Prop) (buf : Nat → UInt8)
    (num : Int) : Ret → WState → Prop
  | .done _, w => P w buf num
  | .failed _, w => Q w
  | .noMem, w => Q w

/-- The search leaves what the loop starts with. -/
def SeekStarts (s : FState) (P : WState → (Nat → UInt8) → Int → Prop) (Q : WState → Prop)
    (buf : Nat → UInt8) (num : Int) : Prop :=
  ∀ wbc r w, s.efh.efhWBuf = some wbc → ¬ goesPast s.pool wbc num →
    wBufSeekAndPrepare s.efh s.w s.efh.efhFilePos = .ok (r, w) → SeekKeeps P Q buf num r w

/-- `FlushCacheAndWrite` keeps `Q`. -/
def PastKeeps (efh : EFH) (Q : WState → Prop) : Prop :=
  ∀ s₁ buf num r s', Q s₁.w → SameFile efh s₁.efh → flushCacheAndWrite s₁ buf num = .ok (r, s') →
    Q s'.w ∧ SameFile efh s'.efh

/-- The invariant of the loop holds at every call of `WBufWrite`. -/
theorem writeEntries_rule (hseek : SeekStarts s P Q buf num)
    (hturn : ∀ w buf num cnt w', P w buf num → num ≠ 0 → C w buf num →
      wBufWrite s.efh w buf num = .ok (.done cnt, w') →
        P w' (fun i => buf (cnt.toNat + i)) (num - cnt))
    (hC : ∀ x ∈ writeEntries s buf num, C x.state x.buf x.num) :
    ∀ x ∈ writeEntries s buf num, P x.state x.buf x.num ∧ x.num ≠ 0 := by
  unfold writeEntries at hC ⊢
  cases hw : s.efh.efhWBuf with
  | none => simp
  | some wbc =>
      rw [hw] at hC
      simp only at hC ⊢
      by_cases hgo : goesPast s.pool wbc num
      · simp [if_pos hgo]
      · rw [if_neg hgo] at hC ⊢
        rw [← FState.w_eq hw] at hC ⊢
        cases hrun : wBufSeekAndPrepare s.efh s.w s.efh.efhFilePos with
        | error f => simp
        | ok x =>
            obtain ⟨r, w⟩ := x
            rw [hrun] at hC
            have hkeep := hseek wbc r w hw hgo hrun
            cases r with
            | failed res2 => simp
            | noMem => simp
            | done n => exact loopEntries_rule hturn hkeep hC

/-- A cached write ends in `Q`. -/
theorem wcWriteCache_rule (hself : Q s.w) (hpast : PastKeeps s.efh Q)
    (hseek : SeekStarts s P Q buf num) (hdone : ∀ w buf, P w buf 0 → Q w)
    (hturn : ∀ w buf num r w', P w buf num → num ≠ 0 → C w buf num →
      wBufWrite s.efh w buf num = .ok (r, w') → TurnKeeps P (fun _ => Q) buf num r w')
    (hC : ∀ x ∈ writeEntries s buf num, C x.state x.buf x.num) {r : Ret}
    (hrun : wcWriteCache s buf num = .ok (r, s')) : Q s'.w ∧ SameFile s.efh s'.efh := by
  unfold wcWriteCache at hrun
  unfold writeEntries at hC
  cases hw : s.efh.efhWBuf with
  | none =>
      rw [hw] at hrun
      exact hpast _ _ _ _ _ hself (SameFile.refl _) hrun
  | some wbc =>
      rw [hw] at hrun hC
      simp only at hrun hC
      have hsame : ∀ w, SameFile s.efh (s.setCluster w).efh :=
        FState.setCluster_same (by rw [hw]; rfl)
      by_cases hgo : goesPast s.pool wbc num
      · rw [if_pos hgo] at hrun
        exact hpast _ _ _ _ _ hself (SameFile.refl _) hrun
      · rw [if_neg hgo] at hrun hC
        rw [← FState.w_eq hw] at hrun hC
        obtain ⟨⟨r₁, w⟩, hrun₁, hrun⟩ := ok_of_bind hrun
        rw [hrun₁] at hC
        have hkeep := hseek wbc r₁ w hw hgo hrun₁
        cases r₁ with
        | failed res2 => cases hrun; exact ⟨hkeep, hsame w⟩
        | noMem => exact hpast (s.setCluster w) _ _ _ _ hkeep (hsame w) hrun
        | done n =>
            obtain ⟨⟨e, w'⟩, hloop, hrun⟩ := ok_of_bind hrun
            have hend : Q w' := wBufWriteLoop_rule hdone hturn hkeep hC hloop
            cases e with
            | failed res2 => cases hrun; exact ⟨hend, hsame w'⟩
            | noMem buf' num' => exact hpast (s.setCluster w') _ _ _ _ hend (hsame w') hrun
            | done =>
                cases hrun
                exact ⟨hend, (hsame w').trans ⟨rfl, rfl, rfl, rfl, rfl, rfl, rfl, rfl⟩⟩

end Rule

section Owned
variable {s s' : FState} {l fr : List Ptr} {buf : Nat → UInt8} {num : Int}

/-- What a call on a cluster may leave: the accounts are kept. -/
def KeptOwned (fh : Fh) (s₀ : WState) (v₀ : Hold) (w : WState) : Prop :=
  ∃ l fr, Owns w ⟨l, [], fr⟩ ∧ Moved fh s₀ v₀ w ⟨l, [], fr⟩

/-- `FlushCacheAndWrite` leaves the cluster empty. -/
theorem KeptOwned.past {efh : EFH} {s₀ : WState} {v₀ : Hold} {s₁ : FState} {r : Ret}
    (h : KeptOwned efh.efhNFSFh s₀ v₀ s₁.w) (hsame : SameFile efh s₁.efh)
    (hrun : flushCacheAndWrite s₁ buf num = .ok (r, s')) :
    (∃ fr', Owns s'.w ⟨[], [], fr'⟩ ∧ Moved efh.efhNFSFh s₀ v₀ s'.w ⟨[], [], fr'⟩) ∧
      SameFile efh s'.efh := by
  obtain ⟨l₁, fr₁, howns, hmoved⟩ := h
  obtain ⟨r', s'', hrun', hends⟩ := flushCacheAndWrite_cases howns buf num
  rw [hrun] at hrun'
  obtain ⟨rfl, rfl⟩ : r = r' ∧ s' = s'' := by simpa using hrun'
  obtain ⟨howns', hmoved', hsame'⟩ := hends.owns
  rw [hsame.fh] at hmoved'
  exact ⟨⟨_, howns', hmoved.trans hmoved'⟩, hsame.trans hsame'⟩

/-- A cached write keeps the accounts if its calls find room in the tables. -/
theorem wcWriteCache_owns (h : Owns s.w ⟨l, [], fr⟩) (hnum : 0 ≤ num)
    (hroom : ∀ x ∈ writeEntries s buf num, TableRoom x.state x.num) {r : Ret}
    (hrun : wcWriteCache s buf num = .ok (r, s')) :
    ∃ l' fr', Owns s'.w ⟨l', [], fr'⟩ ∧
      Moved s.efh.efhNFSFh s.w ⟨l, [], fr⟩ s'.w ⟨l', [], fr'⟩ ∧ SameFile s.efh s'.efh := by
  have hseek : SeekStarts s (fun w _ num => LoopOwned s.efh.efhNFSFh s.w ⟨l, [], fr⟩ w num)
      (KeptOwned s.efh.efhNFSFh s.w ⟨l, [], fr⟩) buf num := by
    intro wbc r w _ _ hrun
    obtain ⟨l₁, fr₁, hends⟩ := wBufSeekAndPrepare_ok s.efh h hrun
    obtain ⟨howns, hmoved, hpos⟩ := hends.owns h
    cases r with
    | failed res2 => exact ⟨l₁, fr₁, howns, hmoved⟩
    | noMem => exact ⟨l₁, fr₁, howns, hmoved⟩
    | done n => exact ⟨hnum, l₁, fr₁, howns, hmoved, fun _ => hpos n rfl⟩
  have hkept : ∀ {w : WState} {num : Int}, LoopOwned s.efh.efhNFSFh s.w ⟨l, [], fr⟩ w num →
      KeptOwned s.efh.efhNFSFh s.w ⟨l, [], fr⟩ w :=
    fun ⟨_, l', fr', howns, hmoved, _⟩ => ⟨l', fr', howns, hmoved⟩
  obtain ⟨⟨l', fr', howns, hmoved⟩, hsame⟩ := wcWriteCache_rule
    (C := fun w _ num => TableRoom w num) ⟨l, fr, h, Moved.refl _ _ _⟩
    (fun s₁ buf num r s' hQ hsame hrun =>
      have hpast := hQ.past hsame hrun
      ⟨hpast.1.elim fun fr' hfr => ⟨[], fr', hfr⟩, hpast.2⟩) hseek
    (fun w _ hP => hkept hP)
    (fun w buf num r w' hP hne hC hw => by
      have hturn := hP.turn hne hC hw
      cases r with
      | failed res2 => exact hturn.elim fun _ hP => hkept hP
      | noMem => exact hturn.elim fun _ hP => hkept hP
      | done cnt => exact hturn) hroom hrun
  exact ⟨l', fr', howns, hmoved, hsame⟩

end Owned

end Anfs.Buf
