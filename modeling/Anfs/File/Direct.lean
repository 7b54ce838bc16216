import Anfs.Buf.Direct
import Anfs.File.Order

/-!
# A file written through its cache

`Writing` follows one open file through writes, seeks and flushes: what its cluster holds
and what the server's file holds make up the file as it was to be written. Flushes of the
other files do not touch it.
-/
namespace Anfs.File
open Anfs.Lib Anfs.Nfs Anfs.Buf

/-- The open file `id` on `fh` with its cache: a flush would make the server's file `file`. -/
structure WritingFile (g : Pool) (srv : Server) (fh : Fh) (file : SrvFile) (efh : EFH) : Prop where
  on : efh.efhNFSFh = fh
  mode : efh.efhMode = MODE_NEWFILE
  res2 : efh.efhRes2 = 0
  rbuf : rbufData efh = none
  pos : 0 ≤ efh.efhFilePos
  offs : ∀ p ∈ chainOf g efh, 0 ≤ g.offs p
  ideal : (srv.file fh).writeAll (chainWrites g (chainOf g efh)) = file

structure Writing (g : Pool) (srv : Server) (fhs : List EFH) (id : Int) (fh : Fh)
    (file : SrvFile) : Prop where
  inv : CacheInv g fhs
  serves : Serves srv
  only : ∃ pre efh post, fhs = pre ++ efh :: post ∧ efh.efhId = id ∧
    (∀ o ∈ pre, o.efhId ≠ id) ∧ (∀ o ∈ pre ++ post, o.efhNFSFh ≠ fh) ∧
    WritingFile g srv fh file efh

section Flush
variable {g g' : Pool} {srv srv' : Server} {fhs pre post : List EFH} {id : Int} {fh : Fh}
  {file : SrvFile} {efh o : EFH}

/-- Two ways to single out an element of a list. -/
theorem split_cases {α : Type} {a b c d : List α} {x y : α} (h : a ++ x :: b = c ++ y :: d) :
    (a = c ∧ x = y ∧ b = d) ∨ (∃ m, c = a ++ x :: m ∧ b = m ++ y :: d) ∨
      ∃ m, a = c ++ y :: m ∧ d = m ++ x :: b := by
  rcases List.append_eq_append_iff.mp h with ⟨m, hc, hm⟩ | ⟨m, ha, hm⟩
  · cases m with
    | nil =>
        obtain ⟨hxy, hbd⟩ := List.cons.inj hm
        exact .inl ⟨by simpa using hc.symm, hxy, hbd⟩
    | cons z m =>
        obtain ⟨rfl, hb⟩ := List.cons.inj hm
        exact .inr (.inl ⟨m, hc, hb⟩)
  · cases m with
    | nil =>
        obtain ⟨hyx, hdb⟩ := List.cons.inj hm
        exact .inl ⟨by simpa using ha, hyx.symm, hdb.symm⟩
    | cons z m =>
        obtain ⟨rfl, hd⟩ := List.cons.inj hm
        exact .inr (.inr ⟨m, ha, hd⟩)

/-- What leaves cluster and file alone leaves the file being written alone. -/
theorem WritingFile.congr (h : WritingFile g srv fh file efh)
    (hchain : chainOf g' efh = chainOf g efh) (hblk : ∀ p ∈ chainOf g efh, g'.blk p = g.blk p)
    (hfile : srv'.file fh = srv.file fh) : WritingFile g' srv' fh file efh := by
  refine ⟨h.on, h.mode, h.res2, h.rbuf, h.pos, ?_, ?_⟩
  · rw [hchain]
    intro p hp
    rw [show g'.offs p = g.offs p from congrArg Block.fileOffs (hblk p hp)]
    exact h.offs p hp
  · rw [hchain, hfile, chainWrites_congr hblk]
    exact h.ideal

/-- A flush of one file, this or another. -/
theorem Writing.flush (h : Writing g srv (pre ++ o :: post) id fh file) :
    ∃ s, flushBuffered ⟨g, srv, o⟩ = .ok (none, s) ∧ SameFile o s.efh ∧
      Writing s.pool s.srv (pre ++ s.efh :: post) id fh file := by
  have howns : Owns (FState.mk g srv o).w _ := h.inv.pool.owns srv
  obtain ⟨err, s, hrun, hf, hsame, -⟩ := flushBuffered_spec howns
  obtain rfl : err = none := (show Serves (FState.mk g srv o).w.srv from h.serves).flushed hf
  have ht : Touch OrderlyWrite 0 (g, pre ++ o :: post) (s.pool, pre ++ s.efh :: post) :=
    .flush (s := ⟨g, srv, o⟩) hrun
  have hinv : CacheInv s.pool (pre ++ s.efh :: post) := ht.cacheInv (Int.le_refl 0) h.inv
  obtain ⟨-, hself, hother⟩ := h.inv.pool.replace s.efh hf.owns hf.moved hsame.rbuf
  have hserves : Serves s.srv :=
    (show Serves (FState.mk g srv o).w.srv from h.serves).moved hf.moved
  have hfile : o.efhNFSFh ≠ fh → s.srv.file fh = srv.file fh := fun hne =>
    hf.moved.file fh fun heq => hne heq.symm
  refine ⟨s, hrun, hsame, hinv, hserves, ?_⟩
  obtain ⟨a, e, b, hsplit, hid, ha, honly, hw⟩ := h.only
  rcases split_cases hsplit with ⟨rfl, rfl, rfl⟩ | ⟨m, rfl, rfl⟩ | ⟨m, rfl, rfl⟩
  · refine ⟨_, s.efh, _, rfl, hsame.id.trans hid, ha, honly, ?_⟩
    refine ⟨hsame.fh.trans hw.on, hsame.mode.trans hw.mode,
      hsame.res2.trans hw.res2, ?_, ?_, ?_, ?_⟩
    · unfold rbufData
      rw [hsame.rbuf]
      exact hw.rbuf
    · rw [hsame.filePos]
      exact hw.pos
    · rw [hself]
      simp
    · rw [hself]
      have := hf.file rfl
      rw [show (FState.mk g srv o).efh.efhNFSFh = fh from hw.on] at this
      exact this.trans hw.ideal
  · have hne : o.efhNFSFh ≠ fh := honly o (by simp)
    obtain ⟨hchain, hblk⟩ := hother e (by simp)
    refine ⟨pre ++ s.efh :: m, e, b, by simp, hid, fun x hx => ?_, fun x hx => ?_,
      hw.congr hchain hblk (hfile hne)⟩
    · simp only [List.mem_append, List.mem_cons] at hx
      rcases hx with hx | rfl | hx
      · exact ha x (by simp [hx])
      · rw [hsame.id]; exact ha o (by simp)
      · exact ha x (by simp [hx])
    · simp only [List.mem_append, List.mem_cons] at hx
      rcases hx with (hx | rfl | hx) | hx
      · exact honly x (by simp [hx])
      · rw [hsame.fh]; exact hne
      · exact honly x (by simp [hx])
      · exact honly x (by simp [hx])
  · have hne : o.efhNFSFh ≠ fh := honly o (by simp)
    obtain ⟨hchain, hblk⟩ := hother e (by simp)
    refine ⟨a, e, m ++ s.efh :: post, by simp, hid, ha, fun x hx => ?_,
      hw.congr hchain hblk (hfile hne)⟩
    simp only [List.mem_append, List.mem_cons] at hx
    rcases hx with hx | hx | rfl | hx
    · exact honly x (by simp [hx])
    · exact honly x (by simp [hx])
    · rw [hsame.fh]; exact hne
    · exact honly x (by simp [hx])

theorem Writing.flushEach (pre : List EFH) (res : Int × Int)
    (h : Writing g srv (pre ++ fhs) id fh file) :
    ∃ fhs' g' srv', flushEach fhs g srv res = .ok (fhs', g', srv', res) ∧
      Writing g' srv' (pre ++ fhs') id fh file := by
  induction fhs generalizing pre g srv with
  | nil => exact ⟨[], g, srv, rfl, h⟩
  | cons o rest ih =>
      obtain ⟨s, hrun, -, hnext⟩ := Writing.flush h
      have hnext' : Writing s.pool s.srv ((pre ++ [s.efh]) ++ rest) id fh file := by
        simpa using hnext
      obtain ⟨fhs', g', srv', hrest, hw⟩ := ih _ hnext'
      refine ⟨s.efh :: fhs', g', srv', ?_, by simpa using hw⟩
      unfold File.flushEach
      simp only [hrun, bind, Except.bind, hrest]

end Flush

/-- The actions that concern the open file `id`. -/
def OnHandle (id : Int) : Action → Prop
  | .write i _ _ => i = id
  | .seek i _ _ => i = id
  | .flush => True
  | .timer => True
  | _ => False

/-- A write of an action ends at a position before the last block that a `LONG` reaches. -/
def InLong (g : Global) : Action → Prop
  | .write id _ num => 0 ≤ num ∧ ∀ efh ∈ fhLookup g.gFH id, efh.efhFilePos + num ≤ POSMAX
  | _ => True

instance (g : Global) (a : Action) : Decidable (InLong g a) := by
  cases a <;> unfold InLong <;> infer_instance

/-- The condition on an action: what it writes into the cache is orderly and within range. -/
def DirectOk (g : Global) (a : Action) : Prop := KeepsOrder g a ∧ InLong g a

instance (g : Global) (a : Action) : Decidable (DirectOk g a) := by
  unfold DirectOk; infer_instance

/-- The write of an action made directly, at the position of the file. -/
def directWrite (g : Global) (a : Action) (file : SrvFile) : SrvFile :=
  match a with
  | .write id buf num =>
      match fhLookup g.gFH id with
      | some efh => if 0 < num then file.write (request efh.efhFilePos buf num) else file
      | none => file
  | _ => file

/-- The writes of a run made directly one after another. -/
def directRun : Except Fault Global → List Action → SrvFile → SrvFile
  | _, [], file => file
  | .error _, _ :: _, file => file
  | .ok g, a :: as, file => directRun (step g a) as (directWrite g a file)

section Actions
variable {g g' : Global} {id : Int} {fh : Fh} {file : SrvFile}

def Global.writing (g : Global) (id : Int) (fh : Fh) (file : SrvFile) : Prop :=
  Writing g.pool g.srv g.gFH id fh file

theorem Writing.lookup {p : Pool} {srv : Server} {fhs : List EFH}
    (h : Writing p srv fhs id fh file) :
    ∃ pre efh post, fhs = pre ++ efh :: post ∧ fhLookup fhs id = some efh ∧ efh.efhId = id ∧
      (∀ o ∈ pre, o.efhId ≠ id) ∧ (∀ o ∈ pre ++ post, o.efhNFSFh ≠ fh) ∧
      WritingFile p srv fh file efh := by
  obtain ⟨pre, efh, post, rfl, hid, hpre, honly, hw⟩ := h.only
  exact ⟨pre, efh, post, rfl, fhLookup_append hid hpre, hid, hpre, honly, hw⟩

theorem writing_flush (h : g.writing id fh file) :
    ∃ g', actFLUSH g = .ok g' ∧ g'.writing id fh file ∧ g'.srv.file fh = file := by
  obtain ⟨fhs, p, srv, hrun, hw⟩ := Writing.flushEach [] (g.gRes1, g.gRes2) h
  refine ⟨{ g with pool := p, srv := srv, gFH := fhs, gRes1 := DOSTRUE }, ?_, hw, ?_⟩
  · unfold actFLUSH flushAll
    simp only [hrun, bind, Except.bind]
    rfl
  · obtain ⟨-, hleft⟩ := flushEach_left hrun
    obtain ⟨pre, efh, post, hsplit, -, -, -, -, hw⟩ := hw.lookup
    have hideal := hw.ideal
    rw [chainOf_empty (hasBufferedWData_eq_false (hleft efh (by
      simp only [List.nil_append] at hsplit
      simp [hsplit])))] at hideal
    exact hideal

theorem writing_seek (h : g.writing id fh file) (offset mode : Int) :
    (actSEEK g id offset mode).writing id fh file := by
  obtain ⟨pre, efh, post, hsplit, hlook, hid, hpre, honly, hw⟩ := Writing.lookup h
  unfold actSEEK
  rw [hlook]
  simp only
  split
  · rename_i hpos
    have hstore : storeFh { efh with efhFilePos := seekPos efh offset mode } g.gFH =
        pre ++ { efh with efhFilePos := seekPos efh offset mode } :: post := by
      rw [hsplit]
      exact storeFh_split (by rw [show EFH.efhId { efh with
        efhFilePos := seekPos efh offset mode } = id from hid]; exact hpre) rfl
    have ht : Touch OrderlyWrite 0 (g.pool, pre ++ efh :: post)
        (g.pool, pre ++ { efh with efhFilePos := seekPos efh offset mode } :: post) :=
      .fields rfl rfl rfl
    have hinv := h.inv
    rw [hsplit] at hinv
    refine ⟨?_, h.serves, pre, { efh with efhFilePos := seekPos efh offset mode },
      post, hstore, hid,
      hpre, honly, hw.on, hw.mode, hw.res2, hw.rbuf, hpos.1, hw.offs, hw.ideal⟩
    have hgoal := ht.cacheInv (Int.le_refl 0) hinv
    simp only at hgoal
    rw [← hstore] at hgoal
    exact hgoal
  · exact h

theorem releaseBuffered_empty {s : FState} (h : rbufData s.efh = none) :
    releaseBuffered s = .ok s := by
  unfold releaseBuffered hasBufferedRData
  unfold rbufData at h
  cases hr : s.efh.efhRBuf with
  | none => simp
  | some rbh =>
      rw [hr] at h
      simp only [Option.bind_some] at h
      simp [h]

/-- A cached write is done in full and changes the file being written as a direct one. -/
theorem writing_write (h : g.writing id fh file) {buf : Nat → UInt8} {num : Int}
    (hok : DirectOk g (.write id buf num)) :
    ∃ g', actWRITE g id buf num = .ok g' ∧
      g'.writing id fh (directWrite g (.write id buf num) file) ∧ g'.gRes1 = num := by
  obtain ⟨pre, efh, post, hsplit, hlook, hid, hpre, honly, hw⟩ := Writing.lookup h
  obtain ⟨hnum, hrange⟩ : 0 ≤ num ∧ ∀ efh ∈ fhLookup g.gFH id, efh.efhFilePos + num ≤ POSMAX :=
    hok.2
  have hpos := hrange efh hlook
  have hinv := h.inv
  rw [hsplit] at hinv
  have hrel : releaseBuffered (g.state efh) = .ok (g.state efh) := releaseBuffered_empty hw.rbuf
  unfold actWRITE directWrite
  rw [hlook]
  simp only [hw.res2, ne_eq, not_true_eq_false, if_false, hw.mode, or_true, hrel, bind, Except.bind]
  by_cases h0 : 0 < num
  · simp only [if_pos h0]
    have hcall : (g.state efh, buf, num) ∈ writeCall g (.write id buf num) := by
      simp only [writeCall, hlook, hw.res2, hw.mode, hrel]
      rw [if_neg (by simp [h0])]
      rfl
    have horderly : OrderlyWrite (g.state efh) buf num := hok.1 _ hcall
    have howns : Owns (g.state efh).w _ := hinv.pool.owns g.srv
    have hmem : efh ∈ pre ++ efh :: post := by simp
    obtain ⟨htidy, hused⟩ := hinv.order efh hmem g.srv
    obtain ⟨s, hrun, hideal, hoffs⟩ := wcWriteCache_direct howns htidy hused
      (length_chainOf_le hinv.pool hmem) hw.offs h.serves hw.pos h0 horderly
    have hsame := (wcWriteCache_dropped hrun).same
    obtain ⟨l, fr, howns', hmoved, -⟩ := wcWriteCache_tidied howns htidy hused h0 horderly hrun
    obtain ⟨-, hself, hother⟩ := hinv.pool.replace s.efh howns' hmoved hsame.rbuf
    have hfilePos : s.efh.efhFilePos = efh.efhFilePos := hsame.filePos
    have hlong : long (s.efh.efhFilePos + num) = s.efh.efhFilePos + num := by
      have := hw.pos
      refine long_of_isLong ?_
      simp only [IsLong, hfilePos, POSMAX] at hpos ⊢
      omega
    simp only [hrun, hlong]
    have ht : Touch OrderlyWrite 0 (g.pool, pre ++ efh :: post) (s.pool, pre ++ s.efh :: post) :=
      .write (s := g.state efh) horderly h0 hrun
    have ht' : Touch OrderlyWrite 0 (s.pool, pre ++ s.efh :: post)
        (s.pool, pre ++ (s.setFilePos (s.efh.efhFilePos + num)).efh :: post) := .fields rfl rfl rfl
    have hinv' := ht'.cacheInv (Int.le_refl 0) (ht.cacheInv (Int.le_refl 0) hinv)
    have hstore : storeFh (s.setFilePos (s.efh.efhFilePos + num)).efh g.gFH =
        pre ++ (s.setFilePos (s.efh.efhFilePos + num)).efh :: post := by
      rw [hsplit]
      have hsid : s.efh.efhId = id := hsame.id.trans hid
      refine storeFh_split (fun e he => ?_) (hid.trans hsid.symm)
      rw [show (s.setFilePos (s.efh.efhFilePos + num)).efh.efhId = id from hsid]
      exact hpre e he
    have hserves : Serves s.srv := Serves.moved (s := (g.state efh).w) h.serves hmoved
    refine ⟨_, rfl, ⟨?_, hserves, pre, _, post, hstore, hsame.id.trans hid, hpre, honly, ?_⟩, rfl⟩
    · rw [← hstore] at hinv'
      exact hinv'
    · refine ⟨hsame.fh.trans hw.on, hsame.mode.trans hw.mode, hsame.res2.trans hw.res2, ?_, ?_,
        hoffs, ?_⟩
      · unfold rbufData
        rw [show (s.setFilePos (s.efh.efhFilePos + num)).efh.efhRBuf = efh.efhRBuf from hsame.rbuf]
        exact hw.rbuf
      · have := hw.pos
        simp only [FState.setFilePos]
        omega
      · rw [show (g.state efh).efh.efhNFSFh = fh from hw.on] at hideal
        refine hideal.trans ?_
        rw [show (g.state efh).w.ideal fh (chainOf g.pool efh) = file from hw.ideal, hlook]
        rfl
  · obtain rfl : num = 0 := by omega
    simp only [if_neg h0]
    have hwr := h
    unfold Global.writing at hwr
    rw [hsplit] at hwr
    obtain ⟨s, hrun, hsame, hnext⟩ := hwr.flush
    have hflush : flushBuffered (g.state efh) = .ok (none, s) := hrun
    simp only [hflush]
    have hstore : storeFh s.efh g.gFH = pre ++ s.efh :: post := by
      rw [hsplit]
      have hsid : s.efh.efhId = id := hsame.id.trans hid
      refine storeFh_split (fun e he => ?_) (hid.trans hsid.symm)
      rw [hsid]
      exact hpre e he
    refine ⟨_, rfl, ?_, rfl⟩
    rw [← hstore] at hnext
    rw [hlook]
    exact hnext

theorem writing_endFile (h : g.writing id fh file) :
    ∃ g', actEND g id = .ok g' ∧ g'.srv.file fh = file := by
  obtain ⟨pre, efh, post, hsplit, hlook, hid, hpre, honly, hw⟩ := Writing.lookup h
  have hwr := h
  unfold Global.writing at hwr
  rw [hsplit] at hwr
  obtain ⟨s, hrun, hsame, hnext⟩ := hwr.flush
  have hres : ({ efh with efhRes2 := 0 } : EFH) = efh := by
    have := hw.res2
    cases efh
    simp_all
  have hflush : flushBuffered (g.state efh) = .ok (none, s) := hrun
  have hempty : chainOf s.pool s.efh = [] :=
    chainOf_empty (hasBufferedWData_eq_false (flushBuffered_dropped hrun).2.2.1)
  have hrel : releaseBuffered s = .ok s := by
    refine releaseBuffered_empty ?_
    unfold rbufData
    rw [hsame.rbuf]
    exact hw.rbuf
  unfold actEND
  rw [hlook]
  simp only [hres, hflush, hrel, hw.res2, bind, Except.bind]
  refine ⟨_, rfl, ?_⟩
  obtain ⟨pre', e, post', -, hlook', -, -, -, hw'⟩ := hnext.lookup
  rw [fhLookup_append (hsame.id.trans hid) hpre] at hlook'
  cases hlook'
  have hideal := hw'.ideal
  rw [hempty] at hideal
  exact hideal

theorem writing_step (h : g.writing id fh file) {a : Action} (ha : OnHandle id a)
    (hok : DirectOk g a) : ∃ g', step g a = .ok g' ∧ g'.writing id fh (directWrite g a file) ∧
      ∀ buf num, a = .write id buf num → g'.gRes1 = num := by
  cases a with
  | write i buf num =>
      obtain rfl : i = id := ha
      obtain ⟨g', hstep, hnext, hres⟩ := writing_write h hok
      refine ⟨g', hstep, hnext, fun buf' num' heq => ?_⟩
      cases heq
      exact hres
  | seek i offset mode =>
      obtain rfl : i = id := ha
      exact ⟨_, rfl, writing_seek h offset mode, nofun⟩
  | flush =>
      obtain ⟨g', hstep, hnext, -⟩ := writing_flush h
      exact ⟨g', hstep, hnext, nofun⟩
  | timer =>
      obtain ⟨g', hstep, hnext, -⟩ := writing_flush h
      exact ⟨g', hstep, hnext, nofun⟩
  | openFile mode fileLen fh key wbuf rbuf => exact ha.elim
  | read i buf num ans => exact ha.elim
  | setFileSize i offset mode numLocks ans => exact ha.elim
  | updateAuth ok => exact ha.elim
  | moreCache num avail => exact ha.elim
  | endFile i => exact ha.elim

theorem writing_run {as : List Action} (h : g.writing id fh file) (hon : ∀ a ∈ as, OnHandle id a)
    (hok : Guarded stepRun (OnOk DirectOk) (.ok g) as) :
    ∃ g', run stepRun (.ok g) as = .ok g' ∧ g'.writing id fh (directRun (.ok g) as file) := by
  induction as generalizing g file with
  | nil => exact ⟨g, rfl, h⟩
  | cons a as ih =>
      simp only [List.forall_mem_cons] at hon
      obtain ⟨g₁, hstep, hnext, -⟩ := writing_step h hon.1 (hok.1 g rfl)
      have hrun : stepRun (.ok g) a = .ok g₁ := hstep
      have hrest := hok.2
      rw [hrun] at hrest
      obtain ⟨g', hrun', hw⟩ := ih hnext hon.2 hrest
      refine ⟨g', ?_, ?_⟩
      · rw [run_cons, hrun]
        exact hrun'
      · unfold directRun
        rw [hstep]
        exact hw

theorem openFile_empty (g : Global) (mode fileLen : Int) (fh : Fh) (key : Int) (wbuf rbuf : Bool) :
    ∃ efh, (openFile g mode fileLen fh key wbuf rbuf).gFH = efh :: g.gFH ∧
      efh.efhId = g.lastId + 1 ∧ efh.efhNFSFh = fh ∧ efh.efhMode = mode ∧ efh.efhRes2 = 0 ∧
      rbufData efh = none ∧ efh.efhFilePos = 0 ∧ chainOf g.pool efh = [] := by
  refine ⟨_, rfl, rfl, rfl, rfl, rfl, ?_, rfl, chainOf_empty ?_⟩
  · cases rbuf <;> rfl
  · unfold EFH.cluster
    simp only
    split <;> rfl

/-- A file that has just been opened as new. -/
theorem writing_open (hinv : CacheInv g.pool g.gFH) (hsize : 0 ≤ g.gBufSizePerFile)
    (honly : ∀ o ∈ g.gFH, o.efhNFSFh ≠ fh) (hserves : Serves g.srv) (fileLen key : Int)
    (wbuf rbuf : Bool) :
    (openFile g MODE_NEWFILE fileLen fh key wbuf rbuf).writing (g.lastId + 1) fh
      (g.srv.file fh) := by
  have hinv' : CacheInv (openFile g MODE_NEWFILE fileLen fh key wbuf rbuf).pool
      (openFile g MODE_NEWFILE fileLen fh key wbuf rbuf).gFH :=
    hinv.touches hsize (openFile_touches MODE_NEWFILE fileLen fh key wbuf rbuf)
  obtain ⟨efh, hfhs, hid, hon, hmode, hres2, hrbuf, hpos, hempty⟩ :=
    openFile_empty g MODE_NEWFILE fileLen fh key wbuf rbuf
  have hw : WritingFile g.pool g.srv fh (g.srv.file fh) efh := by
    refine ⟨hon, hmode, hres2, hrbuf, Int.le_of_eq hpos.symm, ?_, ?_⟩
    · rw [hempty]
      simp
    · rw [hempty]
      rfl
  exact ⟨hinv', hserves, [], efh, g.gFH, hfhs, hid, by simp, by simpa using honly, hw⟩

/-- A file opened as new and written through its cache: the run goes through, every write
returns the number of bytes it was given, and when the cache has been flushed the server's
file is the one that direct writes make. -/
theorem directWriting_run (hinv : CacheInv g.pool g.gFH) (hsize : 0 ≤ g.gBufSizePerFile)
    (honly : ∀ o ∈ g.gFH, o.efhNFSFh ≠ fh)
    (hserves : Serves g.srv) (fileLen key : Int) (wbuf rbuf : Bool) (as : List Action)
    (hon : ∀ a ∈ as, OnHandle (g.lastId + 1) a)
    (hok : Guarded stepRun (OnOk DirectOk)
      (.ok (openFile g MODE_NEWFILE fileLen fh key wbuf rbuf)) as) :
    (∃ g', run stepRun (.ok (openFile g MODE_NEWFILE fileLen fh key wbuf rbuf)) as = .ok g' ∧
      ∀ a ∈ [Action.flush, Action.timer, Action.endFile (g.lastId + 1)],
        ∃ g'', step g' a = .ok g'' ∧
        g''.srv.file fh = directRun (.ok (openFile g MODE_NEWFILE fileLen fh key wbuf rbuf)) as
          (g.srv.file fh)) ∧
    ∀ as₁ buf num as₂, as = as₁ ++ .write (g.lastId + 1) buf num :: as₂ →
      ∃ g', run stepRun (.ok (openFile g MODE_NEWFILE fileLen fh key wbuf rbuf))
        (as₁ ++ [.write (g.lastId + 1) buf num]) = .ok g' ∧ g'.gRes1 = num := by
  have hopen := writing_open hinv hsize honly hserves fileLen key wbuf rbuf
  constructor
  · obtain ⟨g', hrun, hw⟩ := writing_run hopen hon hok
    refine ⟨g', hrun, fun a ha => ?_⟩
    simp only [List.mem_cons, List.not_mem_nil, or_false] at ha
    rcases ha with rfl | rfl | rfl
    · obtain ⟨g'', hstep, -, hfile⟩ := writing_flush hw
      exact ⟨g'', hstep, hfile⟩
    · obtain ⟨g'', hstep, -, hfile⟩ := writing_flush hw
      exact ⟨g'', hstep, hfile⟩
    · exact writing_endFile hw
  · rintro as₁ buf num as₂ rfl
    obtain ⟨hok₁, hok₂⟩ := (guarded_append _ _ _ _ _).mp hok
    obtain ⟨g₁, hrun, hw⟩ := writing_run hopen (fun a ha => hon a (by simp [ha])) hok₁
    rw [hrun] at hok₂
    obtain ⟨g', hstep, -, hres⟩ :=
      writing_step (a := .write (g.lastId + 1) buf num) hw rfl (hok₂.1 g₁ rfl)
    refine ⟨g', ?_, hres buf num rfl⟩
    rw [run_append, hrun]
    exact hstep

def exOpen : Action := .openFile MODE_NEWFILE 0 0 1 true true

/-- A write across two cached blocks, and one over its beginning. -/
def exAppend : List Action :=
  [.write 1 (fun _ => 1) 10000, .seek 1 1 OFFSET_BEGINNING, .write 1 (fun _ => 2) 3]

theorem directWriting_run_append :
    ∃ g g', gInit exGlobal 8 16 8 true = .ok g ∧
      run stepRun (.ok (openFile g MODE_NEWFILE 0 0 1 true true)) exAppend = .ok g' ∧
      ∃ g'', step g' .flush = .ok g'' ∧ g''.srv.file 0 =
        directRun (.ok (openFile g MODE_NEWFILE 0 0 1 true true)) exAppend (g.srv.file 0) := by
  obtain ⟨g, hinit, hfhs, -⟩ := gInit_poolInv exGlobal 8 16 8 true
  obtain ⟨hinv, hsize⟩ : CacheInv g.pool g.gFH ∧ 0 ≤ g.gBufSizePerFile :=
    cacheInv_run (show 0 ≤ exGlobal.gBufSizePerFile by decide) 8 16 8 true (guarded_nil _ _ _) hinit
  have hsrv : g.srv = exGlobal.srv ∧ g.lastId = 0 := by
    unfold gInit at hinit
    obtain ⟨x, -, hinit⟩ := ok_of_bind hinit
    cases hinit
    exact ⟨rfl, rfl⟩
  have hok : Guarded stepRun (OnOk DirectOk) (stepRun (gInit exGlobal 8 16 8 true) exOpen)
      exAppend := by
    decide +kernel
  rw [hinit] at hok
  obtain ⟨⟨g', hrun, hflush⟩, -⟩ := directWriting_run hinv hsize (by simp [hfhs])
    (by rw [hsrv.1]; nofun) 0 1 true true exAppend (by rw [hsrv.2]; simp [exAppend, OnHandle])
    hok
  exact ⟨g, g', hinit, hrun, hflush .flush (by simp)⟩

/-- A write over two cached blocks that ends in a third one. -/
def exRewrite : List Action :=
  [.write 1 (fun _ => 1) 16384, .write 1 (fun _ => 1) 1, .seek 1 1 OFFSET_BEGINNING,
    .write 1 (fun _ => 2) 16384]

/-- The last byte of the write is stored before the older one. -/
theorem not_directWriting_rewrite :
    ∃ g g', gInit exGlobal 8 16 8 true = .ok g ∧ Serves g.srv ∧
      run stepRun (.ok (openFile g MODE_NEWFILE 0 0 1 true true)) (exRewrite ++ [.flush]) =
        .ok g' ∧
      g'.srv.file 0 ≠
        directRun (.ok (openFile g MODE_NEWFILE 0 0 1 true true)) exRewrite (g.srv.file 0) := by
  have hends : (match gInit exGlobal 8 16 8 true with
      | .error _ => none
      | .ok g =>
          match run stepRun (.ok (openFile g MODE_NEWFILE 0 0 1 true true))
            (exRewrite ++ [.flush]) with
          | .error _ => none
          | .ok g' => some ((g'.srv.file 0).bytes 16384,
              (directRun (.ok (openFile g MODE_NEWFILE 0 0 1 true true)) exRewrite
                (g.srv.file 0)).bytes 16384)) = some (1, 2) := by
    decide +kernel
  cases hinit : gInit exGlobal 8 16 8 true with
  | error f => rw [hinit] at hends; cases hends
  | ok g =>
      rw [hinit] at hends
      simp only at hends
      have hserves : Serves g.srv := by
        unfold gInit at hinit
        obtain ⟨x, -, hinit⟩ := ok_of_bind hinit
        cases hinit
        exact nofun
      cases hrun : run stepRun (.ok (openFile g MODE_NEWFILE 0 0 1 true true))
        (exRewrite ++ [.flush]) with
      | error f => rw [hrun] at hends; cases hends
      | ok g' =>
          rw [hrun] at hends
          refine ⟨g, g', rfl, hserves, hrun, fun heq => ?_⟩
          simp only [heq, Option.some.injEq, Prod.mk.injEq] at hends
          obtain ⟨h1, h2⟩ := hends
          rw [h1] at h2
          exact absurd h2 (by decide)

end Actions

end Anfs.File
