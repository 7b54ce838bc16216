import Anfs.File.Accounts
import Anfs.File.Handles

/-!
# Errors of cached writes and their reports

A flush that fails gives up data whose write has already been reported as done; `drops`
records the handle and the error. The error is in the reply to the action on that handle, or
it stays with the open file until an action on it replies with it.
-/
namespace Anfs.File
open Anfs.Lib Anfs.Nfs Anfs.Buf

def WriteAnswer.served : WriteAnswer → Bool
  | .done _ => true
  | .failed .. => false

/-- The number of requests that `flushLoop` makes of a server that serves them. -/
def flushRequests : Nat → WState → Nat
  | 0, _ => 0
  | n + 1, s =>
      match wBufRemHead s with
      | .ok (some wbh, s) =>
          (s.pool.wbh wbh).wbhInfo.length +
            flushRequests n { s with pool := releaseWBuf s.pool wbh }
      | _ => 0

/-- The next `n` answers of the server are no errors. -/
def ServesNext (srv : Server) (n : Nat) : Prop :=
  ∀ k < n, WriteAnswer.served (srv.answers (srv.answered + k)) = true

instance (srv : Server) (n : Nat) : Decidable (ServesNext srv n) := by
  unfold ServesNext; infer_instance

/-- The server serves the requests that a flush of the open file makes. -/
def FlushServed (s : FState) : Prop :=
  hasBufferedWData s.efh = true → ServesNext s.srv (flushRequests s.w.wbc.wbcWBufsUsed s.w)

instance (s : FState) : Decidable (FlushServed s) := by
  unfold FlushServed; infer_instance

section Served
variable {srv srv' : Server} {fh : Fh} {m n : Nat} {efh : EFH}

theorem ServesNext.mono (h : ServesNext srv n) (hle : m ≤ n) : ServesNext srv m :=
  fun k hk => h k (by omega)

/-- The answers behind those that have been used. -/
theorem ServesNext.behind (h : ServesNext srv (m + n)) (hans : srv'.answers = srv.answers)
    (hnum : srv'.answered = srv.answered + m) : ServesNext srv' n := by
  intro k hk
  rw [hans, hnum, Nat.add_assoc]
  exact h (m + k) (by omega)

theorem nfsWrite_next (fh : Fh) (offset count : Int) (buf : Nat → UInt8) (h : ServesNext srv 1) :
    ∃ fileLen srv', nfsWrite srv fh offset buf count = (.ok fileLen, srv') ∧
      srv'.answers = srv.answers ∧ srv'.answered = srv.answered + 1 := by
  have hone := h 0 (by omega)
  unfold nfsWrite
  simp only [Nat.add_zero] at hone
  cases hans : srv.answers srv.answered with
  | done fileLen => exact ⟨_, _, rfl, rfl, rfl⟩
  | failed res2 executed =>
      rw [hans] at hone
      cases hone

theorem flushInfos_next (fh : Fh) (fileOffs : Int) (data : Nat → UInt8) (info : List WBufHdrInfo)
    (h : ServesNext srv info.length) :
    ∃ srv', flushInfos fh fileOffs data info srv = (none, srv') ∧
      srv'.answers = srv.answers ∧ srv'.answered = srv.answered + info.length := by
  induction info generalizing srv with
  | nil => exact ⟨srv, rfl, rfl, rfl⟩
  | cons wbi rest ih =>
      rw [List.length_cons] at h ⊢
      obtain ⟨fileLen, srv₁, hrun, hans, hnum⟩ :=
        nfsWrite_next fh (long (fileOffs + wbi.wbiFrom)) (wbi.wbiTo - wbi.wbiFrom + 1)
          (fun i => data (wbi.wbiFrom.toNat + i)) (h.mono (by omega : 1 ≤ rest.length + 1))
      rw [Nat.add_comm] at h
      obtain ⟨srv₂, hrest, hans₂, hnum₂⟩ := ih (h.behind hans hnum)
      refine ⟨srv₂, ?_, hans₂.trans hans, by omega⟩
      unfold flushInfos
      simp only [hrun]
      exact hrest

/-- The requests do not depend on the server. -/
theorem flushRequests_withServer (n : Nat) (s : WState) (srv : Server) :
    flushRequests n { s with srv := srv } = flushRequests n s := by
  induction n generalizing s with
  | zero => rfl
  | succ n ih =>
      unfold flushRequests wBufRemHead
      by_cases hused : s.wbc.wbcWBufsUsed ≠ 0
      · simp only [if_pos hused]
        cases hfirst : s.wbc.wbcFirstData with
        | none => rfl
        | some p =>
            refine congrArg ((s.pool.wbh p).wbhInfo.length + ·) ?_
            exact ih ⟨releaseWBuf s.pool p, s.srv, _⟩
      · simp only [if_neg hused]

theorem flushLoop_next {s s' : WState} {err : Option Int}
    (h : ServesNext s.srv (flushRequests n s)) (hrun : flushLoop efh n s = .ok (err, s')) :
    err = none := by
  induction n generalizing s with
  | zero => cases hrun; rfl
  | succ n ih =>
      unfold flushLoop at hrun
      obtain ⟨⟨wbh, s₁⟩, hrem, hrun⟩ := ok_of_bind hrun
      cases wbh with
      | none => cases hrun; rfl
      | some p =>
          simp only at hrun
          unfold flushRequests at h
          rw [hrem] at h
          have hsrv : s₁.srv = s.srv := by
            unfold wBufRemHead at hrem
            split at hrem
            · split at hrem
              · cases hrem
              · cases hrem; rfl
            · cases hrem
          rw [← hsrv] at h
          obtain ⟨srv, hinfos, hans, hnum⟩ := flushInfos_next efh.efhNFSFh
            (s₁.pool.wbh p).wbhFileOffs (s₁.pool.mem (s₁.pool.wbh p).wbhData)
            (s₁.pool.wbh p).wbhInfo (h.mono (Nat.le_add_right _ _))
          simp only [hinfos] at hrun
          refine ih ?_ hrun
          rw [flushRequests_withServer n { s₁ with pool := releaseWBuf s₁.pool p } srv]
          exact h.behind hans hnum

theorem FlushServed.none {s s' : FState} {err : Option Int} (h : FlushServed s)
    (hrun : flushBuffered s = .ok (err, s')) : err = none := by
  unfold flushBuffered at hrun
  split at hrun
  · rename_i hbuf
    unfold wcFlushCache at hrun
    cases hw : s.efh.efhWBuf with
    | none => rw [hw] at hrun; cases hrun; rfl
    | some wbc =>
        rw [hw] at hrun
        obtain ⟨⟨err', w⟩, hflush, hrun⟩ := ok_of_bind hrun
        cases hrun
        have hnext := h hbuf
        rw [FState.w_eq hw] at hnext
        exact flushLoop_next hnext hflush
  · cases hrun; rfl

end Served

/-- The open file an action is about. -/
def Action.handle : Action → Option Int
  | .read id .. => some id
  | .write id .. => some id
  | .seek id .. => some id
  | .setFileSize id .. => some id
  | .endFile id => some id
  | _ => none

/-- The results of an action that tell its client of a failure. -/
def Action.fails : Action → Int → Prop
  | .read .., res1 => res1 = -1
  | .write .., res1 => res1 = -1
  | .setFileSize .., res1 => res1 = -1
  | .endFile .., res1 => res1 = DOSFALSE
  | _, _ => False

/-- The handle `d.1` is open and keeps the error `d.2`. -/
def Pending (fhs : List EFH) (d : Int × Int) : Prop :=
  ∃ efh ∈ fhs, efh.efhId = d.1 ∧ efh.efhRes2 = d.2

/-- The server's error codes are codes of errors. -/
def Codes (srv : Server) : Prop := ∀ k x, srv.answers k ≠ .failed 0 x

/-- A file that keeps an error has no buffered data. -/
def KeptEmpty (efh : EFH) : Prop := efh.efhRes2 ≠ 0 → hasBufferedWData efh = false

/-- What happens to errors between two states: one that is recorded or kept before is kept
afterwards or has been reported. -/
structure Passes (rep : Int × Int → Prop) (srv srv' : Server) (fhs fhs' : List EFH) : Prop where
  answers : srv'.answers = srv.answers
  empty : (∀ efh ∈ fhs, KeptEmpty efh) → ∀ efh ∈ fhs', KeptEmpty efh
  drops : ∃ new, srv'.drops = new ++ srv.drops ∧ ∀ d ∈ new,
    (∃ k x, srv.answers k = .failed d.2 x) ∧ (Pending fhs' d ∨ rep d)
  pending : ∀ d, d.2 ≠ 0 → Pending fhs d → Pending fhs' d ∨ rep d

section Passing
variable {rep : Int × Int → Prop} {srv srv' srv'' : Server} {fhs fhs' fhs'' pre post : List EFH}
  {efh efh' : EFH} {d : Int × Int}

theorem Passes.refl (rep : Int × Int → Prop) (srv : Server) (fhs : List EFH) :
    Passes rep srv srv fhs fhs :=
  ⟨rfl, id, ⟨[], rfl, nofun⟩, fun _ _ h => .inl h⟩

theorem Passes.trans (hcodes : Codes srv) (h : Passes rep srv srv' fhs fhs')
    (h' : Passes rep srv' srv'' fhs' fhs'') : Passes rep srv srv'' fhs fhs'' := by
  refine ⟨h'.answers.trans h.answers, fun he => h'.empty (h.empty he), ?_, fun d hd hp => ?_⟩
  · obtain ⟨new, hnew, hall⟩ := h.drops
    obtain ⟨new', hnew', hall'⟩ := h'.drops
    refine ⟨new' ++ new, by rw [hnew', hnew, List.append_assoc], fun d hd => ?_⟩
    rcases List.mem_append.mp hd with hd | hd
    · obtain ⟨hcode, hd⟩ := hall' d hd
      exact ⟨by rw [← h.answers]; exact hcode, hd⟩
    · obtain ⟨⟨k, x, hcode⟩, hd⟩ := hall d hd
      refine ⟨⟨k, x, hcode⟩, ?_⟩
      have hne : d.2 ≠ 0 := fun h0 => hcodes k x (by rw [← h0]; exact hcode)
      rcases hd with hd | hd
      · exact h'.pending d hne hd
      · exact .inr hd
  · rcases h.pending d hd hp with hp | hp
    · exact h'.pending d hd hp
    · exact .inr hp

theorem Pending.replace (h : Pending (pre ++ efh :: post) d)
    (hefh : efh.efhId = d.1 → efh.efhRes2 = d.2 → efh'.efhId = d.1 ∧ efh'.efhRes2 = d.2 ∨ rep d) :
    Pending (pre ++ efh' :: post) d ∨ rep d := by
  obtain ⟨e, hmem, hid, hres⟩ := h
  have hcases : e = efh ∨ e ∈ pre ++ post := by
    simp only [List.mem_append, List.mem_cons] at hmem ⊢
    tauto
  rcases hcases with rfl | hmem
  · rcases hefh hid hres with ⟨hid', hres'⟩ | hrep
    · exact .inl ⟨efh', by simp, hid', hres'⟩
    · exact .inr hrep
  · refine .inl ⟨e, ?_, hid, hres⟩
    simp only [List.mem_append, List.mem_cons] at hmem ⊢
    tauto

/-- A call on one open file. -/
theorem Passes.replace (hans : srv'.answers = srv.answers)
    (hempty : KeptEmpty efh → KeptEmpty efh')
    (hdrops : ∃ new, srv'.drops = new ++ srv.drops ∧ ∀ d ∈ new,
      (∃ k x, srv.answers k = .failed d.2 x) ∧ (Pending [efh'] d ∨ rep d))
    (hkept : efh.efhRes2 ≠ 0 → efh'.efhRes2 = efh.efhRes2 ∨ rep (efh.efhId, efh.efhRes2))
    (hid : efh'.efhId = efh.efhId) :
    Passes rep srv srv' (pre ++ efh :: post) (pre ++ efh' :: post) := by
  refine ⟨hans, fun he e hmem => ?_, ?_, fun d hd hp => ?_⟩
  · simp only [List.mem_append, List.mem_cons] at hmem
    rcases hmem with hmem | rfl | hmem
    · exact he e (by simp [hmem])
    · exact hempty (he efh (by simp))
    · exact he e (by simp [hmem])
  · obtain ⟨new, hnew, hall⟩ := hdrops
    refine ⟨new, hnew, fun d hd => ⟨(hall d hd).1, (hall d hd).2.imp_left ?_⟩⟩
    rintro ⟨e, hmem, h⟩
    rw [List.mem_singleton] at hmem
    exact ⟨e, by simp [hmem], h⟩
  · refine hp.replace fun hi hr => ?_
    rcases hkept (by rw [hr]; exact hd) with heq | hrep
    · exact .inl ⟨hid.trans hi, heq.trans hr⟩
    · rw [hi, hr] at hrep
      exact .inr hrep

/-- A call on one open file that ends without an error. -/
theorem Passes.quiet (hans : srv'.answers = srv.answers) (hdrops : srv'.drops = srv.drops)
    (hempty : KeptEmpty efh → KeptEmpty efh') (hres : efh'.efhRes2 = efh.efhRes2)
    (hid : efh'.efhId = efh.efhId) :
    Passes rep srv srv' (pre ++ efh :: post) (pre ++ efh' :: post) :=
  .replace hans hempty ⟨[], hdrops, nofun⟩ (fun _ => .inl hres) hid

/-- A call on one open file whose error is in the reply. -/
theorem Passes.reported {res2 : Int} (hans : srv'.answers = srv.answers)
    (hdrops : srv'.drops = (efh.efhId, res2) :: srv.drops)
    (hcode : ∃ k x, srv.answers k = .failed res2 x) (hrep : rep (efh.efhId, res2))
    (hempty : KeptEmpty efh → KeptEmpty efh') (hres : efh'.efhRes2 = efh.efhRes2)
    (hid : efh'.efhId = efh.efhId) :
    Passes rep srv srv' (pre ++ efh :: post) (pre ++ efh' :: post) := by
  refine .replace hans hempty ⟨[(efh.efhId, res2)], hdrops, fun d hd => ?_⟩ (fun _ => .inl hres) hid
  rw [List.mem_singleton] at hd
  subst hd
  exact ⟨hcode, .inr hrep⟩

end Passing

section Actions
variable {g g' : Global} {id : Int} {efh : EFH} {pre post : List EFH}

theorem store_gFH {s : FState} (hg : g.gFH = pre ++ efh :: post)
    (hpre : ∀ e ∈ pre, e.efhId ≠ efh.efhId) (hid : s.efh.efhId = efh.efhId) :
    (g.store s).gFH = pre ++ s.efh :: post :=
  congrArg Prod.snd (store_files hg hpre hid)

/-- The reply to action `a` reports the error `d.2` of the handle `d.1`. -/
def ReportedBy (a : Action) (g' : Global) (d : Int × Int) : Prop :=
  a.handle = some d.1 ∧ a.fails g'.gRes1 ∧ g'.gRes2 = d.2

/-- The errors that action `a` passes on. -/
def StepPasses (a : Action) (g g' : Global) : Prop :=
  Passes (ReportedBy a g') g.srv g'.srv g.gFH g'.gFH

theorem keptEmpty_of_res2 (h : efh.efhRes2 = 0) : KeptEmpty efh := fun hne => absurd h hne

/-- A call on one open file, whose state is stored. -/
theorem Passes.store {rep : Int × Int → Prop} {s : FState}
    (h : Passes rep g.srv s.srv (pre ++ efh :: post) (pre ++ s.efh :: post))
    (hg : g.gFH = pre ++ efh :: post) (hpre : ∀ e ∈ pre, e.efhId ≠ efh.efhId)
    (hid : s.efh.efhId = efh.efhId) (hgFH : g'.gFH = (g.store s).gFH) (hsrv : g'.srv = s.srv) :
    Passes rep g.srv g'.srv g.gFH g'.gFH := by
  rw [hgFH, store_gFH hg hpre hid, hsrv, hg]
  exact h

/-- The flush an action on an open file starts with. -/
theorem flushed_passes (rep : Int × Int → Prop) {s : FState} {err : Option Int}
    (hflush : flushBuffered (g.state efh) = .ok (err, s))
    (hrep : ∀ res2, err = some res2 → rep (efh.efhId, res2)) :
    Passes rep g.srv s.srv (pre ++ efh :: post) (pre ++ s.efh :: post) := by
  obtain ⟨hdrop, hsame, hbuf, -⟩ := flushBuffered_dropped hflush
  have hans : s.srv.answers = g.srv.answers := hdrop.answers
  cases err with
  | none => exact .quiet hans hdrop.drops (fun _ _ => hbuf) hsame.res2 hsame.id
  | some res2 =>
      exact .reported hans hdrop.drops (hdrop.code res2 rfl) (hrep res2 rfl) (fun _ _ => hbuf)
        hsame.res2 hsame.id

theorem RbufMoved.empty {s s' : FState} (h : RbufMoved s s')
    (hbuf : hasBufferedWData s.efh = false) :
    hasBufferedWData s'.efh = false := by
  unfold hasBufferedWData at hbuf ⊢
  rw [h.wbuf]
  exact hbuf

/-- What comes behind a flush without an error leaves errors alone. -/
theorem moved_passes (rep : Int × Int → Prop) {s s' : FState}
    (hflush : flushBuffered (g.state efh) = .ok (none, s)) (hmoved : RbufMoved s s') :
    Passes rep g.srv s'.srv (pre ++ efh :: post) (pre ++ s'.efh :: post) ∧
      s'.efh.efhId = efh.efhId := by
  obtain ⟨hdrop, hsame, hbuf, -⟩ := flushBuffered_dropped hflush
  have hans : s.srv.answers = g.srv.answers := hdrop.answers
  have hid : s'.efh.efhId = efh.efhId := hmoved.id.trans hsame.id
  refine ⟨.quiet ?_ ?_ (fun _ _ => hmoved.empty hbuf) (hmoved.res2.trans hsame.res2) hid, hid⟩
  · rw [hmoved.srv]
    exact hans
  · rw [hmoved.srv]
    exact hdrop.drops

theorem actREAD_passes {buf buf' : Nat → UInt8} {num : Int} {ans : ReadAnswer}
    (hres : ∀ efh ∈ fhLookup g.gFH id, efh.efhRes2 = 0)
    (h : actREAD g id buf num ans = .ok (buf', g')) :
    StepPasses (.read id buf num ans) g g' := by
  unfold actREAD at h
  cases hlook : fhLookup g.gFH id with
  | none =>
      rw [hlook] at h
      cases h
      exact Passes.refl _ _ _
  | some efh =>
      obtain ⟨rfl, pre, post, hg, hpre⟩ := fhLookup_split hlook
      rw [hlook] at h
      simp only at h
      split at h
      · next hne => exact absurd (hres efh hlook) hne
      · split at h
        · cases h
          exact Passes.refl _ _ _
        · obtain ⟨⟨err, s⟩, hflush, h⟩ := ok_of_bind h
          cases err with
          | some res2 =>
              cases h
              have hpass : Passes (ReportedBy (.read efh.efhId buf num ans)
                  ((g.store s).setRes (-1) res2)) g.srv s.srv (pre ++ efh :: post)
                  (pre ++ s.efh :: post) :=
                flushed_passes _ hflush fun e he => by cases he; exact ⟨rfl, rfl, rfl⟩
              exact hpass.store hg hpre (flushBuffered_dropped hflush).2.1.id rfl rfl
          | none =>
              have hall : ∀ {s' : FState}, RbufMoved s s' → ∀ g', g'.gFH = (g.store s').gFH →
                  g'.srv = s'.srv → StepPasses (.read efh.efhId buf num ans) g g' := by
                intro s' hmoved g' hgFH hsrv
                obtain ⟨hpass, hid⟩ := moved_passes
                  (ReportedBy (.read efh.efhId buf num ans) g') hflush hmoved
                exact hpass.store hg hpre hid hgFH hsrv
              simp only at h
              split at h
              · cases h
                exact hall (RbufMoved.refl s) _ rfl rfl
              · split at h
                · cases h
                  exact hall (RbufMoved.refl s) _ rfl rfl
                · obtain ⟨⟨r, buf₂, s₂⟩, hread, h⟩ := ok_of_bind h
                  have hmoved := rbReadBuf_moved hread
                  cases r with
                  | failed res2 => cases h; exact hall hmoved _ rfl rfl
                  | noMem => cases h; exact hall hmoved _ rfl rfl
                  | done n => cases h; exact hall hmoved _ rfl rfl

theorem actWRITE_passes {buf : Nat → UInt8} {num : Int}
    (hres : ∀ efh ∈ fhLookup g.gFH id, efh.efhRes2 = 0) (h : actWRITE g id buf num = .ok g') :
    StepPasses (.write id buf num) g g' := by
  unfold actWRITE at h
  cases hlook : fhLookup g.gFH id with
  | none =>
      rw [hlook] at h
      cases h
      exact Passes.refl _ _ _
  | some efh =>
      obtain ⟨rfl, pre, post, hg, hpre⟩ := fhLookup_split hlook
      rw [hlook] at h
      simp only at h
      have hres0 : efh.efhRes2 = 0 := hres efh hlook
      split at h
      · next hne => exact absurd hres0 hne
      · split at h
        · cases h
          exact Passes.refl _ _ _
        · obtain ⟨s₁, hrel, h⟩ := ok_of_bind h
          have hmoved := (releaseBuffered_moved hrel).1
          have hsrv₁ : s₁.srv = g.srv := hmoved.srv
          have hres₁ : s₁.efh.efhRes2 = 0 := hmoved.res2.trans hres0
          have hid₁ : s₁.efh.efhId = efh.efhId := hmoved.id
          have hempty : ∀ {s : FState}, SameFile s₁.efh s.efh → KeptEmpty efh → KeptEmpty s.efh :=
            fun hsame _ => keptEmpty_of_res2 (hsame.res2.trans hres₁)
          have hres' : ∀ {s : FState}, SameFile s₁.efh s.efh → s.efh.efhRes2 = efh.efhRes2 :=
            fun hsame => hsame.res2.trans (hres₁.trans hres0.symm)
          split at h
          · obtain ⟨⟨r, s⟩, hwrite, h⟩ := ok_of_bind h
            have hdrop := wcWriteCache_dropped hwrite
            have hid : s.efh.efhId = efh.efhId := hdrop.same.id.trans hid₁
            have hans : s.srv.answers = g.srv.answers := by rw [hdrop.answers, hsrv₁]
            have hquiet : ∀ s' : FState, s.srv.drops = g.srv.drops → s'.srv = s.srv →
                s'.efh.efhRes2 = s.efh.efhRes2 → s'.efh.efhId = s.efh.efhId → ∀ g',
                g'.gFH = (g.store s').gFH → g'.srv = s'.srv →
                StepPasses (.write efh.efhId buf num) g g' := by
              intro s' hdrops hsrv hres hids g' hgFH hsrv'
              refine Passes.store (.quiet ?_ ?_ (fun _ => ?_) ?_ (hids.trans hid)) hg hpre
                (hids.trans hid) hgFH hsrv'
              · rw [hsrv]; exact hans
              · rw [hsrv]; exact hdrops
              · exact keptEmpty_of_res2 (hres.trans (hdrop.same.res2.trans hres₁))
              · exact hres.trans (hres' hdrop.same)
            cases r with
            | noMem =>
                cases h
                exact hquiet s (by rw [hdrop.kept rfl, hsrv₁]) rfl rfl rfl _ rfl rfl
            | done n =>
                cases h
                exact hquiet (s.setFilePos (long (s.efh.efhFilePos + n)))
                  (by rw [hdrop.kept rfl, hsrv₁]) rfl rfl rfl _ rfl rfl
            | failed res2 =>
                cases h
                obtain ⟨-, hrec | hsame⟩ := hdrop.failed res2 rfl
                · obtain ⟨hrec, hcode⟩ := hrec
                  rw [hsrv₁, hid₁] at hrec
                  rw [hsrv₁] at hcode
                  refine Passes.store (.reported hans hrec hcode ?_ (hempty hdrop.same)
                    (hres' hdrop.same) hid) hg hpre hid rfl rfl
                  exact ⟨rfl, rfl, rfl⟩
                · exact hquiet s (by rw [hsame, hsrv₁]) rfl rfl rfl _ rfl rfl
          · obtain ⟨⟨err, s⟩, hflush, h⟩ := ok_of_bind h
            obtain ⟨hdrop, hsame, -⟩ := flushBuffered_dropped hflush
            have hid : s.efh.efhId = efh.efhId := hsame.id.trans hid₁
            have hans : s.srv.answers = g.srv.answers := hdrop.answers.trans (by
              rw [show s₁.w.srv = g.srv from hsrv₁])
            cases err with
            | none =>
                cases h
                refine Passes.store (.quiet hans ?_ (hempty hsame) (hres' hsame) hid) hg hpre hid
                  rfl
                  rfl
                rw [← hsrv₁]
                exact hdrop.drops
            | some res2 =>
                cases h
                obtain ⟨k, x, hcode⟩ := hdrop.code res2 rfl
                have hdrops : s.srv.drops = (s₁.efh.efhId, res2) :: s₁.srv.drops := hdrop.drops
                rw [hsrv₁, hid₁] at hdrops
                rw [show s₁.w.srv = g.srv from hsrv₁] at hcode
                refine Passes.store (.reported hans hdrops ⟨k, x, hcode⟩ ?_ (hempty hsame)
                  (hres' hsame) hid) hg hpre hid rfl rfl
                exact ⟨rfl, rfl, rfl⟩

theorem actSEEK_passes (g : Global) (id offset mode : Int) :
    StepPasses (.seek id offset mode) g (actSEEK g id offset mode) := by
  unfold actSEEK
  cases hlook : fhLookup g.gFH id with
  | none => exact Passes.refl _ _ _
  | some efh =>
      obtain ⟨rfl, pre, post, hg, hpre⟩ := fhLookup_split hlook
      simp only
      split
      · refine Passes.store (s := g.state { efh with efhFilePos := seekPos efh offset mode }) ?_ hg
          hpre rfl rfl rfl
        exact .quiet rfl rfl id rfl rfl
      · exact Passes.refl _ _ _

theorem doSetSize_passes (hcodes : Codes g.srv) {a : Action} {s : FState} (offset mode : Int)
    (ans : SizeAnswer)
    (h : Passes (ReportedBy a (doSetSize g s offset mode ans)) g.srv s.srv (pre ++ efh :: post)
      (pre ++ s.efh :: post)) (hg : g.gFH = pre ++ efh :: post)
    (hpre : ∀ e ∈ pre, e.efhId ≠ efh.efhId) (hid : s.efh.efhId = efh.efhId) :
    StepPasses a g (doSetSize g s offset mode ans) := by
  unfold StepPasses
  generalize hg' : doSetSize g s offset mode ans = g' at h
  unfold doSetSize at hg'
  simp only at hg'
  split at hg'
  · subst hg'
    exact h.store hg hpre hid rfl rfl
  · split at hg'
    · subst hg'
      exact h.store hg hpre hid rfl rfl
    · cases ans with
      | failed res2 =>
          subst hg'
          exact h.store hg hpre hid rfl rfl
      | done size =>
          simp only at hg'
          set s' : FState := { s with
            srv := s.srv.setFile s.efh.efhNFSFh
              (setSize (s.srv.file s.efh.efhNFSFh) (newSize s.efh offset mode).toNat)
            efh := { s.efh with
              efhFilePos := if size.toNat < ulong s.efh.efhFilePos then long size.toNat
                else s.efh.efhFilePos
              efhFileLen := long size.toNat } } with hs'
          have hset : Passes (ReportedBy a g') s.srv s'.srv (pre ++ s.efh :: post)
              (pre ++ s'.efh :: post) := .quiet rfl rfl id rfl rfl
          refine Passes.store (s := s') (h.trans hcodes hset) hg hpre hid ?_ ?_
          · rw [← hg']
            rfl
          · rw [← hg']
            rfl

theorem actSETFILESIZE_passes {offset mode : Int} {numLocks : Nat} {ans : SizeAnswer}
    (hcodes : Codes g.srv) (hserved : ∀ efh ∈ fhLookup g.gFH id, FlushServed (g.state efh))
    (h : actSETFILESIZE g id offset mode numLocks ans = .ok g') :
    StepPasses (.setFileSize id offset mode numLocks ans) g g' := by
  unfold actSETFILESIZE at h
  cases hlook : fhLookup g.gFH id with
  | none =>
      rw [hlook] at h
      cases h
      exact Passes.refl _ _ _
  | some efh =>
      obtain ⟨rfl, pre, post, hg, hpre⟩ := fhLookup_split hlook
      rw [hlook] at h
      obtain ⟨⟨err, s⟩, hflush, h⟩ := ok_of_bind h
      obtain rfl : err = none := (hserved efh hlook).none hflush
      have hid : s.efh.efhId = efh.efhId := (flushBuffered_dropped hflush).2.1.id
      simp only at h
      split at h
      · cases h
        exact (flushed_passes _ hflush nofun).store hg hpre hid rfl rfl
      · cases h
        exact doSetSize_passes hcodes offset mode ans (flushed_passes _ hflush nofun) hg hpre hid

/-- Closing a file whose error is in the reply. -/
theorem Passes.closed {rep : Int × Int → Prop} {srv srv' : Server}
    (hans : srv'.answers = srv.answers)
    (hdrops : srv'.drops = srv.drops ∨ ∃ res2, srv'.drops = (efh.efhId, res2) :: srv.drops ∧
      (∃ k x, srv.answers k = .failed res2 x) ∧ rep (efh.efhId, res2))
    (hkept : efh.efhRes2 ≠ 0 → rep (efh.efhId, efh.efhRes2)) :
    Passes rep srv srv' (pre ++ efh :: post) (pre ++ post) := by
  refine ⟨hans, fun he e hmem => he e ?_, ?_, ?_⟩
  · simp only [List.mem_append, List.mem_cons] at hmem ⊢
    tauto
  · rcases hdrops with hdrops | ⟨res2, hdrops, hcode, hrep⟩
    · exact ⟨[], hdrops, nofun⟩
    · refine ⟨[(efh.efhId, res2)], hdrops, fun d hd => ?_⟩
      rw [List.mem_singleton] at hd
      subst hd
      exact ⟨hcode, .inr hrep⟩
  · rintro d hd ⟨e, hmem, hid, hres⟩
    simp only [List.mem_append, List.mem_cons] at hmem
    rcases hmem with hmem | rfl | hmem
    · exact .inl ⟨e, by simp [hmem], hid, hres⟩
    · have hrep := hkept (by rw [hres]; exact hd)
      rw [hid, hres] at hrep
      exact .inr hrep
    · exact .inl ⟨e, by simp [hmem], hid, hres⟩

theorem flushBuffered_empty {s : FState} (h : hasBufferedWData s.efh = false) :
    flushBuffered s = .ok (none, s) := by
  unfold flushBuffered
  rw [if_neg (by simp [h])]

theorem actEND_passes (hempty : ∀ efh ∈ g.gFH, KeptEmpty efh) (h : actEND g id = .ok g') :
    StepPasses (.endFile id) g g' := by
  unfold actEND at h
  cases hlook : fhLookup g.gFH id with
  | none =>
      rw [hlook] at h
      cases h
      exact Passes.refl _ _ _
  | some efh =>
      obtain ⟨rfl, pre, post, hg, hpre⟩ := fhLookup_split hlook
      rw [hlook] at h
      obtain ⟨⟨err, s⟩, hflush, h⟩ := ok_of_bind h
      obtain ⟨s₁, hrel, h⟩ := ok_of_bind h
      have hsrv : s₁.srv = s.srv := (releaseBuffered_moved hrel).1.srv
      have hkept : KeptEmpty efh := hempty efh (by simp [hg])
      have hremove : fhRemove efh.efhId g.gFH = pre ++ post := by
        rw [hg]
        exact fhRemove_split hpre rfl
      obtain ⟨hdrop, -⟩ := flushBuffered_dropped hflush
      have hans : s₁.srv.answers = g.srv.answers := by
        rw [hsrv]
        exact hdrop.answers
      have hend : g'.srv = s₁.srv ∧ g'.gFH = pre ++ post ∧
          (efh.efhRes2 ≠ 0 → g'.gRes1 = DOSFALSE ∧ g'.gRes2 = efh.efhRes2) ∧
          (efh.efhRes2 = 0 → ∀ res2, err = some res2 → g'.gRes1 = DOSFALSE ∧ g'.gRes2 = res2) := by
        rw [← hremove]
        by_cases hres : efh.efhRes2 = 0
        · simp only [hres, ne_eq, not_true_eq_false, if_false] at h
          cases err with
          | none => cases h; exact ⟨rfl, rfl, fun hne => absurd hres hne, nofun⟩
          | some res2 =>
              cases h
              refine ⟨rfl, rfl, fun hne => absurd hres hne, fun _ e he => ?_⟩
              cases he
              exact ⟨rfl, rfl⟩
        · simp only [ne_eq, hres, not_false_eq_true, if_true] at h
          cases h
          cases err with
          | none => exact ⟨rfl, rfl, fun _ => ⟨rfl, rfl⟩, fun h0 => absurd h0 hres⟩
          | some res2 => exact ⟨rfl, rfl, fun _ => ⟨rfl, rfl⟩, fun h0 => absurd h0 hres⟩
      obtain ⟨hsrv', hgFH, hbuffer, herr⟩ := hend
      unfold StepPasses
      rw [hsrv', hgFH, hg]
      refine .closed hans ?_ fun hne => ⟨rfl, hbuffer hne⟩
      rw [hsrv]
      cases err with
      | none => exact .inl hdrop.drops
      | some res2 =>
          refine .inr ⟨res2, hdrop.drops, hdrop.code res2 rfl, rfl, herr ?_ res2 rfl⟩
          by_contra hres
          have hbuf : hasBufferedWData (g.state { efh with efhRes2 := 0 }).efh = false := hkept hres
          rw [flushBuffered_empty hbuf] at hflush
          cases hflush

/-- `FlushProc` keeps the error of a failing flush with the file. -/
theorem flushProc_passes (rep : Int × Int → Prop) {p : Pool} {srv : Server} {s : FState}
    {err : Option Int} (hkept : KeptEmpty efh)
    (hflush : flushBuffered ⟨p, srv, efh⟩ = .ok (err, s)) :
    Passes rep srv s.srv (pre ++ efh :: post)
      (pre ++ (match err with
        | some res2 => { s.efh with efhRes2 := res2 }
        | none => s.efh) :: post) := by
  obtain ⟨hdrop, hsame, hbuf, -⟩ := flushBuffered_dropped hflush
  have hans : s.srv.answers = srv.answers := hdrop.answers
  cases err with
  | none => exact .quiet hans hdrop.drops (fun _ _ => hbuf) hsame.res2 hsame.id
  | some res2 =>
      refine .replace hans (fun _ _ => hbuf) ⟨[(efh.efhId, res2)], hdrop.drops, fun d hd => ?_⟩ ?_
        hsame.id
      · rw [List.mem_singleton] at hd
        subst hd
        exact ⟨hdrop.code res2 rfl, .inl ⟨_, List.mem_singleton_self _, hsame.id, rfl⟩⟩
      · intro hne
        rw [flushBuffered_empty (hkept hne)] at hflush
        cases hflush

theorem flushEach_passes (rep : Int × Int → Prop) (pre : List EFH) {fhs fhs' : List EFH}
    {p p' : Pool} {srv srv' : Server} {res res' : Int × Int} (hcodes : Codes srv)
    (hempty : ∀ efh ∈ pre ++ fhs, KeptEmpty efh)
    (h : flushEach fhs p srv res = .ok (fhs', p', srv', res')) :
    Passes rep srv srv' (pre ++ fhs) (pre ++ fhs') := by
  induction fhs generalizing pre p srv res fhs' with
  | nil => cases h; exact .refl _ _ _
  | cons efh rest ih =>
      unfold flushEach at h
      obtain ⟨⟨err, s⟩, hflush, h⟩ := ok_of_bind h
      have hone : Passes rep srv s.srv (pre ++ efh :: rest) _ :=
        flushProc_passes rep (hempty efh (by simp)) hflush
      have hcodes' : Codes s.srv := by
        unfold Codes
        rw [hone.answers]
        exact hcodes
      have hempty' := hone.empty hempty
      cases err with
      | none =>
          obtain ⟨⟨rest', p₁, srv₁, res₁⟩, hrest, h⟩ := ok_of_bind h
          cases h
          have hnext := ih (pre ++ [s.efh]) hcodes' (by simpa using hempty') hrest
          simp only [List.append_assoc, List.singleton_append] at hnext
          exact hone.trans hcodes hnext
      | some res2 =>
          obtain ⟨⟨rest', p₁, srv₁, res₁⟩, hrest, h⟩ := ok_of_bind h
          cases h
          have hnext := ih (pre ++ [{ s.efh with efhRes2 := res2 }]) hcodes'
            (by simpa using hempty') hrest
          simp only [List.append_assoc, List.singleton_append] at hnext
          exact hone.trans hcodes hnext

theorem flushAll_passes (rep : Int × Int → Prop) (hcodes : Codes g.srv)
    (hempty : ∀ efh ∈ g.gFH, KeptEmpty efh) (h : flushAll g = .ok g') :
    Passes rep g.srv g'.srv g.gFH g'.gFH := by
  unfold flushAll at h
  obtain ⟨⟨fhs, p, srv, res⟩, heach, h⟩ := ok_of_bind h
  cases h
  exact flushEach_passes rep [] hcodes hempty heach

theorem actFLUSH_passes (rep : Int × Int → Prop) (hcodes : Codes g.srv)
    (hempty : ∀ efh ∈ g.gFH, KeptEmpty efh) (h : actFLUSH g = .ok g') :
    Passes rep g.srv g'.srv g.gFH g'.gFH := by
  unfold actFLUSH at h
  obtain ⟨g₁, hall, h⟩ := ok_of_bind h
  have hpass := flushAll_passes rep hcodes hempty hall
  cases h
  exact hpass

theorem whenShort_passes (rep : Int × Int → Prop) {mbufs : Int}
    {f : Global → Except Fault Global}
    (hf : ∀ g', f g = .ok g' → Passes rep g.srv g'.srv g.gFH g'.gFH)
    (h : whenShort mbufs f g = .ok g') : Passes rep g.srv g'.srv g.gFH g'.gFH := by
  unfold whenShort at h
  split at h
  · exact hf g' h
  · cases h; exact .refl _ _ _

theorem resizeMBufs_passes (rep : Int × Int → Prop) {mbufs : Int} {avail : Nat} {ok : Bool}
    (hcodes : Codes g.srv) (hempty : ∀ efh ∈ g.gFH, KeptEmpty efh)
    (h : resizeMBufs g mbufs avail = .ok (ok, g')) : Passes rep g.srv g'.srv g.gFH g'.gFH := by
  unfold resizeMBufs at h
  simp only at h
  split at h
  · obtain ⟨g₂, hshrink, h⟩ := ok_of_bind h
    cases h
    unfold shrinkMBufs gatherMBufs at hshrink
    obtain ⟨g₃, hgather, hshrink⟩ := ok_of_bind hshrink
    obtain ⟨g₄, hfirst, hgather⟩ := ok_of_bind hgather
    obtain ⟨p, -, hshrink⟩ := ok_of_bind hshrink
    cases hshrink
    have hpass : Passes rep g.srv g₄.srv g.gFH g₄.gFH :=
      whenShort_passes rep (fun _ => actFLUSH_passes rep hcodes hempty) hfirst
    have hcodes' : Codes g₄.srv := by
      unfold Codes
      rw [hpass.answers]
      exact hcodes
    have hnext : Passes rep g₄.srv g₃.srv g₄.gFH g₃.gFH :=
      whenShort_passes rep (fun _ => flushAll_passes rep hcodes' (hpass.empty hempty)) hgather
    exact hpass.trans hcodes hnext
  · split at h
    · obtain ⟨⟨ok', p⟩, -, h⟩ := ok_of_bind h
      cases h
      exact .refl _ _ _
    · cases h
      exact .refl _ _ _

theorem actMORECACHE_passes (rep : Int × Int → Prop) {num : Int} {avail : Nat}
    (hcodes : Codes g.srv) (hempty : ∀ efh ∈ g.gFH, KeptEmpty efh)
    (h : actMORECACHE g num avail = .ok g') : Passes rep g.srv g'.srv g.gFH g'.gFH := by
  unfold actMORECACHE at h
  split at h
  · cases h; exact .refl _ _ _
  · obtain ⟨⟨ok, g₁⟩, hresize, h⟩ := ok_of_bind h
    have hone := resizeMBufs_passes rep hcodes hempty hresize
    cases ok with
    | true => cases h; exact hone
    | false => cases h; exact hone

/-- The condition on an action: the flush that a `SET_FILE_SIZE` starts with succeeds, and no
error of an earlier flush waits on a file that is read or written. -/
def Attended (g : Global) : Action → Prop
  | .setFileSize id .. => ∀ efh ∈ fhLookup g.gFH id, FlushServed (g.state efh)
  | .read id .. => ∀ efh ∈ fhLookup g.gFH id, efh.efhRes2 = 0
  | .write id .. => ∀ efh ∈ fhLookup g.gFH id, efh.efhRes2 = 0
  | _ => True

instance (g : Global) (a : Action) : Decidable (Attended g a) :=
  match a with
  | .setFileSize .. | .read .. | .write .. => Option.decidableForallMem _
  | .openFile .. | .seek .. | .flush | .timer | .updateAuth _
  | .moreCache .. | .endFile _ => instDecidableTrue

theorem openFile_passes (g : Global) (mode fileLen : Int) (fh : Fh) (key : Int) (wbuf rbuf : Bool) :
    StepPasses (.openFile mode fileLen fh key wbuf rbuf) g
      (openFile g mode fileLen fh key wbuf rbuf) := by
  refine ⟨rfl, fun he efh hmem => ?_, ⟨[], rfl, nofun⟩, ?_⟩
  · rcases List.mem_cons.mp hmem with rfl | hmem
    · exact keptEmpty_of_res2 rfl
    · exact he efh hmem
  · rintro d - ⟨efh, hmem, h⟩
    exact .inl ⟨efh, List.mem_cons_of_mem _ hmem, h⟩

/-- An action passes every error on. -/
theorem step_passes (hcodes : Codes g.srv) (hempty : ∀ efh ∈ g.gFH, KeptEmpty efh) {a : Action}
    (hok : Attended g a) (h : step g a = .ok g') : StepPasses a g g' := by
  cases a with
  | openFile mode fileLen fh key wbuf rbuf => cases h; exact openFile_passes ..
  | read id buf num ans =>
      obtain ⟨⟨buf', g₁⟩, hread, h⟩ := ok_of_bind h
      have hpass := actREAD_passes hok hread
      cases h
      exact hpass
  | write id buf num => exact actWRITE_passes hok h
  | seek id offset mode => cases h; exact actSEEK_passes ..
  | setFileSize id offset mode numLocks ans => exact actSETFILESIZE_passes hcodes hok h
  | flush => exact actFLUSH_passes _ hcodes hempty h
  | timer => exact actFLUSH_passes _ hcodes hempty h
  | updateAuth ok =>
      have h' : updateAuth g ok = .ok g' := h
      unfold updateAuth at h'
      obtain ⟨g₁, hflush, h'⟩ := ok_of_bind h'
      have hpass := actFLUSH_passes (ReportedBy (.updateAuth ok) g') hcodes hempty hflush
      have hsame : g'.srv = g₁.srv ∧ g'.gFH = g₁.gFH := by
        cases ok with
        | true => cases h'; exact ⟨rfl, rfl⟩
        | false => cases h'; exact ⟨rfl, rfl⟩
      unfold StepPasses
      rw [hsame.1, hsame.2]
      exact hpass
  | moreCache num avail => exact actMORECACHE_passes _ hcodes hempty h
  | endFile id => exact actEND_passes hempty h

/-- What holds of errors in every state. -/
structure Keeping (g : Global) : Prop where
  codes : Codes g.srv
  empty : ∀ efh ∈ g.gFH, KeptEmpty efh
  ids : OwnIds g

theorem Keeping.next {a : Action} (h : Keeping g) (hok : Attended g a)
    (hstep : step g a = .ok g') : Keeping g' ∧ StepPasses a g g' := by
  have hpass := step_passes h.codes h.empty hok hstep
  refine ⟨⟨?_, hpass.empty h.empty, step_ownIds h.ids hstep⟩, hpass⟩
  unfold Codes
  rw [hpass.answers]
  exact h.codes

/-- The error `d` is the reply to one of the actions that the run from `r` makes. -/
def ReportedLater (r : Except Fault Global) (as : List Action) (d : Int × Int) : Prop :=
  ∃ bs b cs g g', as = bs ++ b :: cs ∧ run stepRun r bs = .ok g ∧ step g b = .ok g' ∧
    ReportedBy b g' d

theorem keeping_run {as : List Action} (h : Keeping g)
    (hok : Guarded stepRun (OnOk Attended) (.ok g) as)
    (hrun : run stepRun (.ok g) as = .ok g') : Keeping g' := by
  refine Guarded.invariant (P := fun r => ∀ g, r = .ok g → Keeping g)
    (fun r a hP hok g₂ hstep => ?_)
    (fun g₁ hg₁ => ?_) hok g' hrun
  · obtain ⟨g₁, rfl, hstep⟩ := ok_of_bind hstep
    exact ((hP g₁ rfl).next (hok g₁ rfl) hstep).1
  · cases hg₁
    exact h

theorem run_error (f : Fault) (as : List Action) : run stepRun (.error f) as = .error f := by
  induction as with
  | nil => rfl
  | cons a as ih => exact ih

theorem ReportedLater.cons {a : Action} {as : List Action} {d : Int × Int}
    (hstep : step g a = .ok g') (h : ReportedLater (.ok g') as d) :
    ReportedLater (.ok g) (a :: as) d := by
  obtain ⟨bs, b, cs, g₁, g₂, has, hrun, hb, hrep⟩ := h
  refine ⟨a :: bs, b, cs, g₁, g₂, by rw [has]; rfl, ?_, hb, hrep⟩
  rw [run_cons, show stepRun (.ok g) a = .ok g' from hstep]
  exact hrun

/-- An error that is kept is reported in the run or kept at its end. -/
theorem pending_run {d : Int × Int} (hd : d.2 ≠ 0) {as : List Action} (h : Keeping g)
    (hok : Guarded stepRun (OnOk Attended) (.ok g) as) (hp : Pending g.gFH d)
    (hrun : run stepRun (.ok g) as = .ok g') :
    Pending g'.gFH d ∨ ReportedLater (.ok g) as d := by
  induction as generalizing g with
  | nil => cases hrun; exact .inl hp
  | cons a as ih =>
      rw [run_cons] at hrun
      cases hstep : step g a with
      | error f =>
          rw [show stepRun (.ok g) a = .error f from hstep, run_error] at hrun
          cases hrun
      | ok g₁ =>
          obtain ⟨hokay, hrest⟩ := hok
          rw [show stepRun (.ok g) a = .ok g₁ from hstep] at hrun hrest
          obtain ⟨hkeep, hpass⟩ := h.next (hokay g rfl) hstep
          rcases hpass.pending d hd hp with hp | hrep
          · exact (ih hkeep hrest hp hrun).imp_right (.cons hstep)
          · exact .inr ⟨[], a, as, g, g₁, rfl, rfl, hstep, hrep⟩

/-- Whatever an open file keeps is the reply to the request that closes it. -/
theorem Keeping.kept_reply {d : Int × Int} (h : Keeping g) (hd : d.2 ≠ 0) (hp : Pending g.gFH d)
    (hend : step g (.endFile d.1) = .ok g') : ReportedBy (.endFile d.1) g' d := by
  obtain ⟨efh, hmem, hid, hres⟩ := hp
  have hlook := fhLookup_of_mem h.ids hmem
  rw [hid] at hlook
  have hne : efh.efhRes2 ≠ 0 := by rw [hres]; exact hd
  replace hend : actEND g d.1 = .ok g' := hend
  unfold actEND at hend
  rw [hlook] at hend
  obtain ⟨⟨err, s⟩, -, hend⟩ := ok_of_bind hend
  obtain ⟨s₁, -, hend⟩ := ok_of_bind hend
  simp only [if_pos hne] at hend
  cases hend
  exact ⟨rfl, rfl, hres⟩

theorem keeping_init {g₀ : Global} (hcodes : Codes g₀.srv) {numMBufs numWBufs avail : Nat}
    {ok : Bool} {as : List Action}
    (hok : Guarded stepRun (OnOk Attended) (gInit g₀ numMBufs numWBufs avail ok) as)
    (hrun : run stepRun (gInit g₀ numMBufs numWBufs avail ok) as = .ok g) : Keeping g := by
  cases hinit : gInit g₀ numMBufs numWBufs avail ok with
  | error f =>
      rw [hinit, run_error] at hrun
      cases hrun
  | ok g₁ =>
      rw [hinit] at hrun hok
      refine keeping_run ?_ hok hrun
      unfold gInit at hinit
      obtain ⟨x, -, hinit⟩ := ok_of_bind hinit
      cases hinit
      exact ⟨hcodes, by simp, ⟨List.nodup_nil, by simp⟩⟩

/-- Every error of a flush that gave up accepted data is reported as a failure: by the action that
flushed, if it was one on that handle, else by a later one in the run, or the handle keeps it and
the request to close the file fails with it. -/
theorem drops_reported {g₀ : Global} (hcodes : Codes g₀.srv) (numMBufs numWBufs avail : Nat)
    (ok : Bool) (as₁ : List Action) (a : Action) (as₂ : List Action) {g₁ g₂ g₃ : Global}
    (hok : Guarded stepRun (OnOk Attended) (gInit g₀ numMBufs numWBufs avail ok)
      (as₁ ++ a :: as₂))
    (hrun₁ : run stepRun (gInit g₀ numMBufs numWBufs avail ok) as₁ = .ok g₁)
    (hstep : step g₁ a = .ok g₂) (hrun₂ : run stepRun (.ok g₂) as₂ = .ok g₃) :
    ∃ new, g₂.srv.drops = new ++ g₁.srv.drops ∧ ∀ d ∈ new,
      ReportedBy a g₂ d ∨ ReportedLater (.ok g₂) as₂ d ∨
        (Pending g₃.gFH d ∧ ∀ g₄, step g₃ (.endFile d.1) = .ok g₄ →
          ReportedBy (.endFile d.1) g₄ d) := by
  obtain ⟨hok₁, hok₂⟩ := (guarded_append _ _ _ _ _).mp hok
  rw [hrun₁] at hok₂
  obtain ⟨hokay, hrest⟩ := hok₂
  rw [show stepRun (.ok g₁) a = .ok g₂ from hstep] at hrest
  have hkeep₁ : Keeping g₁ := keeping_init hcodes hok₁ hrun₁
  obtain ⟨hkeep₂, hpass⟩ := hkeep₁.next (hokay g₁ rfl) hstep
  have hkeep₃ : Keeping g₃ := keeping_run hkeep₂ hrest hrun₂
  obtain ⟨new, hnew, hall⟩ := hpass.drops
  refine ⟨new, hnew, fun d hd => ?_⟩
  obtain ⟨⟨k, x, hcode⟩, hrep⟩ := hall d hd
  have hne : d.2 ≠ 0 := fun h0 => hkeep₁.codes k x (by rw [← h0]; exact hcode)
  rcases hrep with hp | hrep
  · rcases pending_run hne hkeep₂ hrest hp hrun₂ with hp₃ | hlater
    · exact .inr (.inr ⟨hp₃, fun g₄ => hkeep₃.kept_reply hne hp₃⟩)
    · exact .inr (.inl hlater)
  · exact .inl hrep

/-- A server whose disk is full. -/
def exFull : Global :=
  { exGlobal with srv := ⟨fun _ => ⟨fun _ => 0, 0⟩, fun _ => .failed 221 [], 0, []⟩ }

def exCached : List Action := [.openFile MODE_NEWFILE 0 0 1 true true, .write 1 (fun _ => 7) 3]

theorem codes_exFull : Codes exFull.srv := fun _ _ h => by cases h

/-- The error of a flush for all files waits through a `SEEK` and is the reply to `END`. -/
theorem drops_reported_flush :
    ∃ g₁ g₂ g₃, run stepRun (gInit exFull 1 16 1 true) exCached = .ok g₁ ∧
      step g₁ .flush = .ok g₂ ∧ run stepRun (.ok g₂)
        [.seek 1 0 OFFSET_BEGINNING, .endFile 1] = .ok g₃ ∧
      ∃ new, g₂.srv.drops = new ++ g₁.srv.drops ∧ ∀ d ∈ new,
        ReportedBy .flush g₂ d ∨ ReportedLater (.ok g₂) [.seek 1 0 OFFSET_BEGINNING, .endFile 1] d ∨
          (Pending g₃.gFH d ∧ ∀ g₄, step g₃ (.endFile d.1) = .ok g₄ →
            ReportedBy (.endFile d.1) g₄ d) := by
  have hends : (run stepRun (gInit exFull 1 16 1 true)
      (exCached ++ .flush :: [.seek 1 0 OFFSET_BEGINNING, .endFile 1])).toOption.isSome = true := by
    decide +kernel
  have hok : Guarded stepRun (OnOk Attended) (gInit exFull 1 16 1 true)
      (exCached ++ .flush :: [.seek 1 0 OFFSET_BEGINNING, .endFile 1]) := by
    decide +kernel
  rw [run_append, run_cons] at hends
  cases hrun₁ : run stepRun (gInit exFull 1 16 1 true) exCached with
  | error f =>
      rw [hrun₁, show stepRun (.error f) .flush = .error f from rfl, run_error] at hends
      cases hends
  | ok g₁ =>
      rw [hrun₁] at hends
      cases hstep : step g₁ .flush with
      | error f =>
          rw [show stepRun (.ok g₁) .flush = .error f from hstep, run_error] at hends
          cases hends
      | ok g₂ =>
          rw [show stepRun (.ok g₁) .flush = .ok g₂ from hstep] at hends
          cases hrun₂ : run stepRun (.ok g₂) [.seek 1 0 OFFSET_BEGINNING, .endFile 1] with
          | error f => rw [hrun₂] at hends; cases hends
          | ok g₃ =>
              exact ⟨g₁, g₂, g₃, rfl, hstep, hrun₂, drops_reported codes_exFull 1 16 1 true exCached
                .flush [.seek 1 0 OFFSET_BEGINNING, .endFile 1] hok hrun₁ hstep hrun₂⟩

/-- `SET_FILE_SIZE` gives up the three bytes and replies with the new size, and closing the
file succeeds. -/
theorem not_drops_reported_setSize :
    ∃ g₁ g₂ g₃, run stepRun (gInit exFull 1 16 1 true) exCached = .ok g₁ ∧
      step g₁ (.setFileSize 1 5 OFFSET_BEGINNING 1 (.done 5)) = .ok g₂ ∧
      run stepRun (.ok g₂) [.endFile 1] = .ok g₃ ∧
      g₂.srv.drops = [(1, 221)] ++ g₁.srv.drops ∧
      ¬ ReportedBy (.setFileSize 1 5 OFFSET_BEGINNING 1 (.done 5)) g₂ (1, 221) ∧
      ¬ ReportedLater (.ok g₂) [.endFile 1] (1, 221) ∧ g₃.gFH = [] := by
  have hends : (run stepRun (gInit exFull 1 16 1 true) exCached).toOption.bind (fun g₁ =>
      (step g₁ (.setFileSize 1 5 OFFSET_BEGINNING 1 (.done 5))).toOption.bind fun g₂ =>
        (run stepRun (.ok g₂) [.endFile 1]).toOption.map fun g₃ =>
          (g₁.srv.drops, g₂.srv.drops, g₂.gRes1, g₃.gRes1, g₃.gFH)) =
      some ([], [(1, 221)], 5, DOSTRUE, []) := by
    decide +kernel
  cases hrun₁ : run stepRun (gInit exFull 1 16 1 true) exCached with
  | error f => rw [hrun₁] at hends; cases hends
  | ok g₁ =>
      rw [hrun₁] at hends
      simp only [Except.toOption, Option.bind_some] at hends
      cases hstep : step g₁ (.setFileSize 1 5 OFFSET_BEGINNING 1 (.done 5)) with
      | error f => rw [hstep] at hends; cases hends
      | ok g₂ =>
          rw [hstep] at hends
          simp only [Option.bind_some] at hends
          cases hrun₂ : run stepRun (.ok g₂) [.endFile 1] with
          | error f => rw [hrun₂] at hends; cases hends
          | ok g₃ =>
              rw [hrun₂] at hends
              simp only [Option.map_some, Option.some.injEq, Prod.mk.injEq] at hends
              obtain ⟨hd₁, hd₂, hres₂, hres₃, hfh⟩ := hends
              refine ⟨g₁, g₂, g₃, rfl, hstep, hrun₂, by rw [hd₁, hd₂]; rfl, fun h => ?_, ?_, hfh⟩
              · have hfails : g₂.gRes1 = -1 := h.2.1
                rw [hres₂] at hfails
                exact absurd hfails (by decide)
              · rintro ⟨bs, b, cs, g, g', has, hrun, hb, hrep⟩
                obtain ⟨rfl, rfl, rfl⟩ : bs = [] ∧ b = .endFile 1 ∧ cs = [] := by
                  cases bs with
                  | nil => simpa using has.symm
                  | cons c bs => simp at has
                cases hrun
                have heq : g' = g₃ := by
                  have hrun' : stepRun (.ok g₂) (.endFile 1) = .ok g₃ := hrun₂
                  rw [show stepRun (.ok g₂) (.endFile 1) = .ok g' from hb] at hrun'
                  exact Except.ok.inj hrun'
                have hfails : g'.gRes1 = DOSFALSE := hrep.2.1
                rw [heq, hres₃] at hfails
                exact absurd hfails (by decide)

end Actions

end Anfs.File
