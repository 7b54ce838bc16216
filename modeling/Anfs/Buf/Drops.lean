import Anfs.Buf.Cache

/-!
# Flushes that fail

What holds of a flush whatever state the cluster is in: it leaves the cluster empty, and
it gives buffers up exactly when it ends with an error, the one of the server write that
failed. The calls of the cache pass that error on.
-/
namespace Anfs.Buf
open Anfs.Nfs

/-- The record of a call on the file `efh` that ends with the error `err`. -/
def recorded (efh : EFH) (err : Option Int) (drops : List (Int × Int)) : List (Int × Int) :=
  match err with
  | none => drops
  | some res2 => (efh.efhId, res2) :: drops

section Flush
variable {efh : EFH} {s s' : WState} {err : Option Int}

theorem nfsWrite_drops (srv : Server) (fh : Fh) (offset : Int) (buf : Nat → UInt8)
    (count : Int) : (nfsWrite srv fh offset buf count).2.drops = srv.drops := by
  unfold nfsWrite
  cases srv.answers srv.answered with
  | done fileLen => rfl
  | failed res2 executed => rfl

theorem flushInfos_drops (fh : Fh) (fileOffs : Int) (data : Nat → UInt8)
    (info : List WBufHdrInfo) (srv : Server) :
    (flushInfos fh fileOffs data info srv).2.drops = srv.drops := by
  induction info generalizing srv with
  | nil => rfl
  | cons wbi rest ih =>
      have hone := nfsWrite_drops srv fh (long (fileOffs + wbi.wbiFrom))
        (fun i => data (wbi.wbiFrom.toNat + i)) (wbi.wbiTo - wbi.wbiFrom + 1)
      unfold flushInfos
      split
      · rename_i heq
        rw [heq] at hone
        exact (ih _).trans hone
      · rename_i heq
        rw [heq] at hone
        exact hone

/-- Taking the head of a chain of `n + 1` headers leaves `n`. -/
theorem wBufRemHead_used {n : Nat} {wbh : Option Ptr} (hused : s.wbc.wbcWBufsUsed = n + 1)
    (h : wBufRemHead s = .ok (wbh, s')) :
    wbh.isSome = true ∧ s'.wbc.wbcWBufsUsed = n ∧ s'.srv = s.srv ∧ s'.pool = s.pool := by
  unfold wBufRemHead at h
  rw [if_pos (by omega)] at h
  cases hfirst : s.wbc.wbcFirstData with
  | none => simp [hfirst] at h
  | some p =>
      simp only [hfirst, Except.ok.injEq, Prod.mk.injEq] at h
      obtain ⟨rfl, rfl⟩ := h
      exact ⟨rfl, by simp [hused], rfl, rfl⟩

/-- What a flush leaves: an empty cluster, and the record of its error, which is one of the
answers of the server. -/
structure Left (efh : EFH) (err : Option Int) (s s' : WState) : Prop where
  used : s'.wbc.wbcWBufsUsed = 0
  drops : s'.srv.drops = recorded efh err s.srv.drops
  numM : s'.pool.gNumMBufs = s.pool.gNumMBufs
  answers : s'.srv.answers = s.srv.answers
  code : ∀ res2, err = some res2 → ∃ k x, s.srv.answers k = .failed res2 x

theorem releaseRest_left {n : Nat} (hused : s.wbc.wbcWBufsUsed = n)
    (h : releaseRest n s = .ok s') :
    s'.wbc.wbcWBufsUsed = 0 ∧ s'.srv = s.srv ∧ s'.pool.gNumMBufs = s.pool.gNumMBufs := by
  induction n generalizing s with
  | zero => cases h; exact ⟨hused, rfl, rfl⟩
  | succ n ih =>
      unfold releaseRest at h
      cases hrem : wBufRemHead s with
      | error f => simp [hrem, bind, Except.bind] at h
      | ok x =>
          obtain ⟨wbh, s₁⟩ := x
          obtain ⟨hsome, hused₁, hsrv, hpool⟩ := wBufRemHead_used hused hrem
          obtain ⟨p, rfl⟩ := Option.isSome_iff_exists.mp hsome
          simp only [hrem, bind, Except.bind] at h
          obtain ⟨hzero, hsrv', hnum⟩ :=
            ih (s := { s₁ with pool := releaseWBuf s₁.pool p }) hused₁ h
          refine ⟨hzero, hsrv'.trans hsrv, hnum.trans ?_⟩
          rw [← hpool]
          rfl

theorem flushLoop_left {n : Nat} (hused : s.wbc.wbcWBufsUsed = n)
    (h : flushLoop efh n s = .ok (err, s')) : Left efh err s s' := by
  induction n generalizing s with
  | zero => cases h; exact ⟨hused, rfl, rfl, rfl, nofun⟩
  | succ n ih =>
      unfold flushLoop at h
      cases hrem : wBufRemHead s with
      | error f => simp [hrem, bind, Except.bind] at h
      | ok x =>
          obtain ⟨wbh, s₁⟩ := x
          obtain ⟨hsome, hused₁, hsrv, hpool⟩ := wBufRemHead_used hused hrem
          obtain ⟨p, rfl⟩ := Option.isSome_iff_exists.mp hsome
          simp only [hrem, bind, Except.bind] at h
          have hdrops := flushInfos_drops efh.efhNFSFh (s₁.pool.wbh p).wbhFileOffs
            (s₁.pool.mem (s₁.pool.wbh p).wbhData) (s₁.pool.wbh p).wbhInfo s₁.srv
          have hans := (flushInfos_served efh.efhNFSFh (s₁.pool.wbh p).wbhFileOffs
            (s₁.pool.mem (s₁.pool.wbh p).wbhData) (s₁.pool.wbh p).wbhInfo s₁.srv).answers
          rw [hsrv] at hdrops hans
          split at h
          · rename_i srv heq
            rw [hsrv] at heq
            rw [heq] at hdrops hans
            have hleft := ih (s := { s₁ with pool := releaseWBuf s₁.pool p, srv := srv }) hused₁ h
            refine ⟨hleft.used, hleft.drops.trans (congrArg _ hdrops), hleft.numM.trans ?_,
              hleft.answers.trans hans, fun res2 he => ?_⟩
            · rw [← hpool]
              rfl
            · rw [← hans]
              exact hleft.code res2 he
          · rename_i res2 srv heq
            rw [hsrv] at heq
            rw [heq] at hdrops hans
            cases hrel : releaseRest n { s₁ with
                pool := releaseWBuf s₁.pool p
                srv := { srv with drops := (efh.efhId, res2) :: srv.drops } } with
            | error f => simp [hrel] at h
            | ok s₂ =>
                simp only [hrel, Except.ok.injEq, Prod.mk.injEq] at h
                obtain ⟨rfl, rfl⟩ := h
                obtain ⟨hzero, hsrv', hnum⟩ := releaseRest_left (by exact hused₁) hrel
                refine ⟨hzero, ?_, hnum.trans ?_, ?_, fun e he => ?_⟩
                · rw [hsrv']
                  exact congrArg (List.cons _) hdrops
                · rw [← hpool]
                  rfl
                · rw [hsrv']
                  exact hans
                · cases he
                  exact flushInfos_some heq

theorem iwcFlushCache_left (h : iwcFlushCache efh s = .ok (err, s')) : Left efh err s s' :=
  flushLoop_left rfl h

end Flush

section Calls
variable {efh : EFH} {s s' : WState}

/-- A call that ends with an error has emptied the cluster and recorded it, another one
has recorded nothing. -/
def Dropped (efh : EFH) (err : Option Int) (s s' : WState) : Prop :=
  s'.srv.drops = recorded efh err s.srv.drops ∧ (err ≠ none → s'.wbc.wbcWBufsUsed = 0) ∧
    s'.srv.answers = s.srv.answers ∧
      ∀ res2, err = some res2 → ∃ k x, s.srv.answers k = .failed res2 x

theorem Dropped.drops {err : Option Int} (h : Dropped efh err s s') :
    s'.srv.drops = recorded efh err s.srv.drops := h.1

theorem Dropped.empty {err : Option Int} (h : Dropped efh err s s') :
    err ≠ none → s'.wbc.wbcWBufsUsed = 0 := h.2.1

theorem Dropped.answers {err : Option Int} (h : Dropped efh err s s') :
    s'.srv.answers = s.srv.answers := h.2.2.1

theorem Dropped.code {err : Option Int} (h : Dropped efh err s s') :
    ∀ res2, err = some res2 → ∃ k x, s.srv.answers k = .failed res2 x := h.2.2.2

def Obtained.error : Obtained → Option Int
  | .failed res2 => some res2
  | _ => none

def Ret.error : Ret → Option Int
  | .failed res2 => some res2
  | _ => none

def LoopEnd.error : LoopEnd → Option Int
  | .failed res2 => some res2
  | _ => none

theorem Dropped.refl (efh : EFH) (s : WState) : Dropped efh none s s :=
  ⟨rfl, by simp, rfl, nofun⟩

theorem Dropped.trans {s'' : WState} {err : Option Int} (h : Dropped efh none s s')
    (h' : Dropped efh err s' s'') : Dropped efh err s s'' :=
  ⟨h'.drops.trans (congrArg _ h.drops), h'.empty, h'.answers.trans h.answers, fun res2 he => by
    rw [← h.answers]; exact h'.code res2 he⟩

/-- Changing pool and cluster behind a call that ended without an error. -/
theorem Dropped.then {s'' : WState} (h : Dropped efh none s s') (hsrv : s''.srv = s'.srv) :
    Dropped efh none s s'' :=
  ⟨by rw [hsrv]; exact h.drops, by simp, by rw [hsrv]; exact h.answers, nofun⟩

theorem iwcFlushCache_dropped {err : Option Int} (h : iwcFlushCache efh s = .ok (err, s')) :
    Dropped efh err s s' :=
  have hleft := iwcFlushCache_left h
  ⟨hleft.drops, fun _ => hleft.used, hleft.answers, hleft.code⟩

theorem obtainOrFlush_dropped {flushed : Bool} {o : Obtained}
    (h : obtainOrFlush efh s flushed = .ok (o, s')) : Dropped efh o.error s s' := by
  unfold obtainOrFlush at h
  obtain ⟨⟨new, g⟩, -, h⟩ := ok_of_bind h
  cases new with
  | some p => cases h; exact Dropped.refl efh s
  | none =>
      simp only at h
      split at h
      · obtain ⟨⟨err, s₁⟩, hflush, h⟩ := ok_of_bind h
        have hdrop := iwcFlushCache_dropped hflush
        cases err with
        | some res2 => cases h; exact hdrop
        | none =>
            obtain ⟨⟨new, g'⟩, -, h⟩ := ok_of_bind h
            cases new with
            | some p => cases h; exact hdrop
            | none => cases h; exact hdrop
      · cases h; exact Dropped.refl efh s

theorem obtainFlushing_dropped {o : Obtained} (h : obtainFlushing efh s = .ok (o, s')) :
    Dropped efh o.error s s' := by
  unfold obtainFlushing at h
  split at h
  · obtain ⟨⟨err, s₁⟩, hflush, h⟩ := ok_of_bind h
    have hdrop := iwcFlushCache_dropped hflush
    cases err with
    | some res2 => cases h; exact hdrop
    | none => exact hdrop.trans (obtainOrFlush_dropped h)
  · exact obtainOrFlush_dropped h

theorem prepareHead_dropped {pos : Int} {r : Ret} (h : prepareHead efh s pos = .ok (r, s')) :
    Dropped efh r.error s s' := by
  unfold prepareHead at h
  obtain ⟨⟨o, s₁⟩, hobtain, h⟩ := ok_of_bind h
  have hdrop := obtainFlushing_dropped hobtain
  cases o with
  | failed res2 => cases h; exact hdrop
  | noMem => cases h; exact hdrop
  | got p flushed =>
      cases h
      refine Dropped.then hdrop ?_
      rw [wBufAddHead_eq]
      rfl

theorem wBufSeekAndPrepare_dropped {pos : Int} {r : Ret}
    (h : wBufSeekAndPrepare efh s pos = .ok (r, s')) : Dropped efh r.error s s' := by
  unfold wBufSeekAndPrepare at h
  simp only at h
  split at h
  · exact prepareHead_dropped (s := s.setFilePos pos) h
  · split at h
    · exact prepareHead_dropped (s := s.setFilePos pos) h
    · split at h
      · cases h
      · split at h
        · cases h; exact Dropped.refl efh s
        · obtain ⟨⟨prev, p⟩, -, h⟩ := ok_of_bind h
          cases h
          exact Dropped.refl efh s

theorem wBufTarget_dropped {t : Target} (h : wBufTarget efh s = .ok (t, s')) :
    match t with
    | .stop r => Dropped efh r.error s s'
    | .fill _ => Dropped efh none s s' := by
  unfold wBufTarget at h
  split at h
  · cases h
  · simp only at h
    split at h
    · split at h
      · cases h; exact Dropped.refl efh s
      · obtain ⟨⟨o, s₁⟩, hobtain, h⟩ := ok_of_bind h
        have hdrop := obtainFlushing_dropped hobtain
        cases o with
        | failed res2 => cases h; exact hdrop
        | noMem => cases h; exact hdrop
        | got new flushed =>
            cases h
            refine Dropped.then hdrop ?_
            cases flushed with
            | true =>
                simp only [if_true, wBufInsert, wBufAddHead_eq]
                rfl
            | false => rfl
    · cases h; exact Dropped.refl efh s

theorem wBufWrite_dropped {buf : Nat → UInt8} {num : Int} {r : Ret}
    (h : wBufWrite efh s buf num = .ok (r, s')) : Dropped efh r.error s s' := by
  unfold wBufWrite at h
  obtain ⟨⟨t, s₁⟩, htarget, h⟩ := ok_of_bind h
  have hdrop := wBufTarget_dropped htarget
  cases t with
  | stop r => cases h; exact hdrop
  | fill q =>
      obtain ⟨⟨cnt, s₂⟩, hfill, h⟩ := ok_of_bind h
      have hsrv : s₂.srv = s₁.srv := by
        unfold wBufFill at hfill
        simp only at hfill
        split at hfill
        · cases hfill; rfl
        · cases hfill
      have hdrop₂ : Dropped efh none s s₂ := Dropped.then hdrop hsrv
      simp only at h
      split at h
      · cases h
      · split at h
        · obtain ⟨⟨err, s₃⟩, hflush, h⟩ := ok_of_bind h
          have hdrop₃ := hdrop₂.trans (iwcFlushCache_dropped hflush)
          cases err with
          | some res2 => cases h; exact hdrop₃
          | none => cases h; exact hdrop₃
        · cases h; exact hdrop₂

theorem wBufWriteLoop_dropped {n : Nat} {buf : Nat → UInt8} {num : Int} {e : LoopEnd}
    (h : wBufWriteLoop efh n s buf num = .ok (e, s')) : Dropped efh e.error s s' := by
  refine wBufWriteLoop_rule (P := fun s₁ _ _ => Dropped efh none s s₁) (C := fun _ _ _ => True)
    (Q := fun e s₁ => Dropped efh e.error s s₁) (fun _ _ hP => hP) ?_ (Dropped.refl efh s)
    (fun _ _ => trivial) h
  intro s₁ buf num r s₂ hP _ _ hw
  have hdrop := hP.trans (wBufWrite_dropped hw)
  cases r with
  | failed res2 => exact hdrop
  | noMem => exact hdrop
  | done cnt => exact hdrop

end Calls

section File
variable {s s' : FState}

theorem wcFlushCache_dropped {err : Option Int} (h : wcFlushCache s = .ok (err, s')) :
    Dropped s.efh err s.w s'.w ∧ SameFile s.efh s'.efh ∧ hasBufferedWData s'.efh = false ∧
      s'.pool.gNumMBufs = s.pool.gNumMBufs := by
  unfold wcFlushCache at h
  cases hw : s.efh.efhWBuf with
  | none =>
      rw [hw] at h
      cases h
      exact ⟨Dropped.refl _ _, SameFile.refl _, by simp [hasBufferedWData, hw], rfl⟩
  | some wbc =>
      rw [hw] at h
      obtain ⟨⟨err', w⟩, hflush, h⟩ := ok_of_bind h
      cases h
      have hleft := iwcFlushCache_left hflush
      rw [FState.w_eq hw]
      exact ⟨iwcFlushCache_dropped hflush, FState.setCluster_same (by rw [hw]; rfl) w, by
        simp [hasBufferedWData, FState.setCluster, hleft.used], hleft.numM⟩

theorem flushBuffered_dropped {err : Option Int} (h : flushBuffered s = .ok (err, s')) :
    Dropped s.efh err s.w s'.w ∧ SameFile s.efh s'.efh ∧ hasBufferedWData s'.efh = false ∧
      s'.pool.gNumMBufs = s.pool.gNumMBufs := by
  unfold flushBuffered at h
  split at h
  · exact wcFlushCache_dropped h
  · rename_i hbuf
    cases h
    exact ⟨Dropped.refl _ _, SameFile.refl _, by simpa using hbuf, rfl⟩

/-- What a cached write leaves: with an error the cache is empty and at most that error has
been recorded, without one nothing has. -/
structure WriteDropped (s s' : FState) (r : Ret) : Prop where
  same : SameFile s.efh s'.efh
  answers : s'.srv.answers = s.srv.answers
  kept : r.error = none → s'.srv.drops = s.srv.drops
  failed : ∀ res2, r.error = some res2 → hasBufferedWData s'.efh = false ∧
    (s'.srv.drops = (s.efh.efhId, res2) :: s.srv.drops ∧ (∃ k x, s.srv.answers k = .failed res2 x) ∨
      s'.srv.drops = s.srv.drops)

theorem flushCacheAndWrite_dropped {buf : Nat → UInt8} {num : Int} {r : Ret}
    (h : flushCacheAndWrite s buf num = .ok (r, s')) : WriteDropped s s' r := by
  unfold flushCacheAndWrite at h
  obtain ⟨⟨err, s₁⟩, hflush, h⟩ := ok_of_bind h
  obtain ⟨hdrop, hsame, hbuf, -⟩ := flushBuffered_dropped hflush
  have hans₁ : s₁.srv.answers = s.srv.answers := hdrop.answers
  cases err with
  | some res2 =>
      cases h
      refine ⟨hsame, hans₁, by simp [Ret.error], fun e he => ?_⟩
      cases he
      exact ⟨hbuf, .inl ⟨hdrop.drops, hdrop.code res2 rfl⟩⟩
  | none =>
      have hserved := nfsWrite_drops s₁.srv s₁.efh.efhNFSFh s₁.efh.efhFilePos buf num
      have hans := (nfsWrite_served s₁.srv s₁.efh.efhNFSFh s₁.efh.efhFilePos buf num).answers
      rw [show s₁.srv.drops = s.srv.drops from hdrop.drops] at hserved
      rw [hans₁] at hans
      simp only at h
      split at h
      · rename_i fileLen srv heq
        cases h
        rw [heq] at hserved hans
        exact ⟨hsame.trans ⟨rfl, rfl, rfl, rfl, rfl, rfl, rfl, rfl⟩, hans, fun _ => hserved, by
          simp [Ret.error]⟩
      · rename_i res2 srv heq
        cases h
        rw [heq] at hserved hans
        refine ⟨hsame, hans, by simp [Ret.error], fun e he => ?_⟩
        exact ⟨hbuf, .inr hserved⟩

theorem WriteDropped.after {s₁ : FState} {r : Ret} (h : WriteDropped s₁ s' r)
    (hdrop : Dropped s.efh none s.w s₁.w) (hsame : SameFile s.efh s₁.efh) :
    WriteDropped s s' r where
  same := hsame.trans h.same
  answers := h.answers.trans hdrop.answers
  kept hr := (h.kept hr).trans hdrop.drops
  failed res2 hr := by
    have hid := hsame.id
    have hone : s₁.srv.drops = s.srv.drops := hdrop.drops
    have hans : s₁.srv.answers = s.srv.answers := hdrop.answers
    rw [← hid, ← hone, ← hans]
    exact h.failed res2 hr

theorem wcWriteCache_dropped {buf : Nat → UInt8} {num : Int} {r : Ret}
    (h : wcWriteCache s buf num = .ok (r, s')) : WriteDropped s s' r := by
  unfold wcWriteCache at h
  cases hw : s.efh.efhWBuf with
  | none =>
      rw [hw] at h
      exact flushCacheAndWrite_dropped h
  | some wbc =>
      rw [hw] at h
      have hsame : ∀ w, SameFile s.efh (s.setCluster w).efh :=
        FState.setCluster_same (by rw [hw]; rfl)
      have hw' := FState.w_eq hw
      have hempty : ∀ {w : WState}, w.wbc.wbcWBufsUsed = 0 →
          hasBufferedWData (s.setCluster w).efh = false := by
        intro w hzero
        simp [hasBufferedWData, FState.setCluster, hzero]
      simp only at h
      split at h
      · exact flushCacheAndWrite_dropped h
      · obtain ⟨⟨r₁, w⟩, hseek, h⟩ := ok_of_bind h
        have hdrop := wBufSeekAndPrepare_dropped hseek
        cases r₁ with
        | failed res2 =>
            cases h
            refine ⟨hsame w, hdrop.answers, by simp [Ret.error], fun e he => ?_⟩
            cases he
            exact ⟨hempty (hdrop.empty (by simp [Ret.error])),
              .inl ⟨hdrop.drops, hdrop.code res2 rfl⟩⟩
        | noMem =>
            refine (flushCacheAndWrite_dropped h).after ?_ (hsame w)
            rw [hw']
            exact hdrop
        | done n =>
            obtain ⟨⟨e, w'⟩, hloop, h⟩ := ok_of_bind h
            have hdrop' := hdrop.trans (wBufWriteLoop_dropped hloop)
            cases e with
            | failed res2 =>
                cases h
                refine ⟨hsame w', hdrop'.answers, by simp [Ret.error], fun e he => ?_⟩
                cases he
                exact ⟨hempty (hdrop'.empty (by simp [LoopEnd.error])),
                  .inl ⟨hdrop'.drops, hdrop'.code res2 rfl⟩⟩
            | noMem buf' num' =>
                refine (flushCacheAndWrite_dropped h).after ?_ (hsame w')
                rw [hw']
                exact hdrop'
            | done =>
                cases h
                exact ⟨(hsame w').trans ⟨rfl, rfl, rfl, rfl, rfl, rfl, rfl, rfl⟩, hdrop'.answers,
                  fun _ => hdrop'.drops, by simp [Ret.error]⟩

end File

end Anfs.Buf
