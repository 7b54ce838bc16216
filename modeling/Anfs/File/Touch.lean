import Anfs.Buf.Drops
import Anfs.File.Actions
import Mathlib.Logic.Relation

/-!
# What an action does to the pools

An action touches the pools and the open files piece by piece: a flush of one file, a
cached write, a buffer taken or given back for reading, a file opened or closed, buffers
allocated or freed. An invariant of the pieces is an invariant of all actions.
-/
namespace Anfs.File
open Anfs.Nfs Anfs.Buf Relation

section Lookup
variable {fhs : List EFH} {id : Int} {efh efh' : EFH}

theorem fhLookup_split (h : fhLookup fhs id = some efh) :
    efh.efhId = id ∧ ∃ pre post, fhs = pre ++ efh :: post ∧ (∀ e ∈ pre, e.efhId ≠ id) := by
  unfold fhLookup at h
  obtain ⟨hid, pre, post, hsplit, hpre⟩ := List.find?_eq_some_iff_append.mp h
  refine ⟨by simpa using hid, pre, post, hsplit, fun e he => ?_⟩
  simpa using hpre e he

theorem fhLookup_append {pre post : List EFH} (hid : efh.efhId = id)
    (hpre : ∀ o ∈ pre, o.efhId ≠ id) : fhLookup (pre ++ efh :: post) id = some efh := by
  unfold fhLookup
  refine List.find?_eq_some_iff_append.mpr ⟨by simpa using hid, pre, post, rfl, fun o ho => ?_⟩
  simpa using hpre o ho

theorem storeFh_split {pre post : List EFH} (hpre : ∀ e ∈ pre, e.efhId ≠ efh'.efhId)
    (hid : efh.efhId = efh'.efhId) :
    storeFh efh' (pre ++ efh :: post) = pre ++ efh' :: post := by
  induction pre with
  | nil => simp [storeFh, hid]
  | cons e pre ih =>
      simp only [List.forall_mem_cons] at hpre
      simp only [List.cons_append, storeFh, if_neg hpre.1, ih hpre.2]

theorem fhRemove_split {pre post : List EFH} (hpre : ∀ e ∈ pre, e.efhId ≠ id)
    (hid : efh.efhId = id) : fhRemove id (pre ++ efh :: post) = pre ++ post := by
  induction pre with
  | nil => simp [fhRemove, hid]
  | cons e pre ih =>
      simp only [List.forall_mem_cons] at hpre
      simp only [List.cons_append, fhRemove, if_neg hpre.1, ih hpre.2]

end Lookup

def rbufData (efh : EFH) : Option Ptr := efh.efhRBuf.bind RBufHdr.rbhData

/-- What reading and giving up a read buffer keep of an open file and the pools. -/
structure RbufMoved (s s' : FState) : Prop where
  id : s'.efh.efhId = s.efh.efhId
  fh : s'.efh.efhNFSFh = s.efh.efhNFSFh
  wbuf : s'.efh.efhWBuf = s.efh.efhWBuf
  res2 : s'.efh.efhRes2 = s.efh.efhRes2
  srv : s'.srv = s.srv
  wbh : s'.pool.wbh = s.pool.wbh
  freeH : s'.pool.gFreeWBufHdr = s.pool.gFreeWBufHdr
  numFreeH : s'.pool.gNumFreeWBufHdrs = s.pool.gNumFreeWBufHdrs
  numH : s'.pool.gNumWBufHdrs = s.pool.gNumWBufHdrs
  numM : s'.pool.gNumMBufs = s.pool.gNumMBufs
  newM : s'.pool.newMBuf = s.pool.newMBuf
  limit : s'.pool.gWriteBufferLimit = s.pool.gWriteBufferLimit
  count : s'.pool.gNumFreeMBufs - s'.pool.gFreeMBufs.length =
    s.pool.gNumFreeMBufs - s.pool.gFreeMBufs.length
  perm : ((rbufData s'.efh).toList ++ s'.pool.gFreeMBufs).Perm
    ((rbufData s.efh).toList ++ s.pool.gFreeMBufs)

theorem RbufMoved.refl (s : FState) : RbufMoved s s :=
  ⟨rfl, rfl, rfl, rfl, rfl, rfl, rfl, rfl, rfl, rfl, rfl, rfl, rfl, List.Perm.refl _⟩

theorem RbufMoved.trans {s s' s'' : FState} (h : RbufMoved s s') (h' : RbufMoved s' s'') :
    RbufMoved s s'' where
  id := h'.id.trans h.id
  fh := h'.fh.trans h.fh
  wbuf := h'.wbuf.trans h.wbuf
  res2 := h'.res2.trans h.res2
  srv := h'.srv.trans h.srv
  wbh := h'.wbh.trans h.wbh
  freeH := h'.freeH.trans h.freeH
  numFreeH := h'.numFreeH.trans h.numFreeH
  numH := h'.numH.trans h.numH
  numM := h'.numM.trans h.numM
  newM := h'.newM.trans h.newM
  limit := h'.limit.trans h.limit
  count := h'.count.trans h.count
  perm := h'.perm.trans h.perm

section Read
variable {s s' : FState} {buf buf' : Nat → UInt8} {num : Int} {ans : ReadAnswer} {r : Ret}

/-- Setting position and length moves nothing. -/
theorem rbufMoved_setPos (s : FState) (pos len : Int) :
    RbufMoved s { s with efh := { s.efh with efhFilePos := pos, efhFileLen := len } } :=
  ⟨rfl, rfl, rfl, rfl, rfl, rfl, rfl, rfl, rfl, rfl, rfl, rfl, rfl, List.Perm.refl _⟩

theorem rbReleaseRBufData_moved (h : rbReleaseRBufData s = .ok s') :
    RbufMoved s s' ∧ rbufData s'.efh = none := by
  unfold rbReleaseRBufData at h
  cases hr : s.efh.efhRBuf with
  | none => rw [hr] at h; cases h
  | some rbh =>
      rw [hr] at h
      cases h
      cases hd : rbh.rbhData with
      | none =>
          refine ⟨⟨rfl, rfl, rfl, rfl, rfl, rfl, rfl, rfl, rfl, rfl, rfl, rfl, rfl, ?_⟩, rfl⟩
          simp [rbufData, hr, hd]
      | some rbn =>
          refine ⟨⟨rfl, rfl, rfl, rfl, rfl, rfl, rfl, rfl, rfl, rfl, rfl, rfl, ?_, ?_⟩, rfl⟩
          · simp only [mbReleaseMBuf, List.length_cons]
            omega
          · simp [rbufData, hr, hd, mbReleaseMBuf]

theorem releaseBuffered_moved (h : releaseBuffered s = .ok s') :
    RbufMoved s s' ∧ rbufData s'.efh = none := by
  unfold releaseBuffered at h
  split at h
  · exact rbReleaseRBufData_moved h
  · rename_i hbuf
    cases h
    refine ⟨RbufMoved.refl s, ?_⟩
    unfold hasBufferedRData at hbuf
    cases hr : s.efh.efhRBuf with
    | none => simp [rbufData, hr]
    | some rbh => simpa [rbufData, hr] using hbuf

theorem readPlain_moved (h : readPlain s buf ans = .ok (r, buf', s')) : RbufMoved s s' := by
  unfold readPlain at h
  obtain ⟨s₁, hrel, h⟩ := ok_of_bind h
  have hmoved := (releaseBuffered_moved hrel).1
  cases ans with
  | failed res2 => cases h; exact hmoved
  | done data n fileLen => cases h; exact hmoved.trans (rbufMoved_setPos s₁ _ _)

theorem refill_moved {rbh : RBufHdr} {rbn : Ptr} {numLeft : Int}
    (hr : rbufData s.efh = rbh.rbhData)
    (h : refill s rbh rbn buf num numLeft ans = .ok (r, buf', s')) : RbufMoved s s' := by
  unfold refill at h
  cases ans with
  | failed res2 =>
      obtain ⟨s₁, hrel, h⟩ := ok_of_bind h
      cases h
      exact (rbReleaseRBufData_moved hrel).1
  | done data n fileLen =>
      simp only at h
      split at h
      · obtain ⟨s₁, hrel, h⟩ := ok_of_bind h
        cases h
        exact (rbufMoved_setPos s _ _).trans (rbReleaseRBufData_moved hrel).1
      · cases h
        refine ⟨rfl, rfl, rfl, rfl, rfl, rfl, rfl, rfl, rfl, rfl, rfl, rfl, rfl, ?_⟩
        rw [hr]
        exact List.Perm.refl _

theorem mbObtainMBuf_ok {g g' : Pool} {rbn : Ptr} (h : mbObtainMBuf g = .ok (rbn, g')) :
    ∃ rest, g.gFreeMBufs = rbn :: rest ∧
      g' = { g with gNumFreeMBufs := g.gNumFreeMBufs - 1, gFreeMBufs := rest } := by
  unfold mbObtainMBuf at h
  split at h
  · rename_i mbn rest heq
    split at h
    · cases h; exact ⟨rest, heq, rfl⟩
    · cases h
  · cases h

theorem readThrough_moved {rbh : RBufHdr} (hr : s.efh.efhRBuf = some rbh)
    (h : readThrough s rbh buf num ans = .ok (r, buf', s')) : RbufMoved s s' := by
  unfold readThrough at h
  cases hd : rbh.rbhData with
  | none =>
      rw [hd] at h
      obtain ⟨⟨rbn, g⟩, hobtain, h⟩ := ok_of_bind h
      obtain ⟨rest, hfree, rfl⟩ := mbObtainMBuf_ok hobtain
      simp only at h
      have hmoved := refill_moved rfl h
      refine RbufMoved.trans ?_ hmoved
      refine ⟨rfl, rfl, rfl, rfl, rfl, rfl, rfl, rfl, rfl, rfl, rfl, rfl, ?_, ?_⟩
      · simp only [hfree, List.length_cons]
        omega
      · simp [rbufData, hr, hd, hfree]
  | some rbn =>
      rw [hd] at h
      simp only at h
      generalize (if rbh.rbhFileOffs ≤ s.efh.efhFilePos ∧
        s.efh.efhFilePos < long (rbh.rbhFileOffs + rbh.rbhDataLen) then
          min num (long (rbh.rbhFileOffs + rbh.rbhDataLen) - s.efh.efhFilePos) else 0) = l at h
      split at h
      · exact refill_moved (by simp [rbufData, hr]) h
      · cases h
        exact rbufMoved_setPos s _ _

theorem rbReadBuf_moved (h : rbReadBuf s buf num ans = .ok (r, buf', s')) : RbufMoved s s' := by
  unfold rbReadBuf at h
  split at h
  · cases hr : s.efh.efhRBuf with
    | none => rw [hr] at h; cases h
    | some rbh =>
        rw [hr] at h
        simp only at h
        split at h
        · exact readThrough_moved hr h
        · exact readPlain_moved h
  · exact readPlain_moved h

end Read

/-- What an action may do to the pools and the open files in one piece; `W` holds of the
cached writes, a cache that is created gets `m` buffers at most. -/
inductive Touch (W : FState → (Nat → UInt8) → Int → Prop) (m : Int) :
    Pool × List EFH → Pool × List EFH → Prop
  | flush {pre post : List EFH} {s s' : FState} {err : Option Int}
      (run : flushBuffered s = .ok (err, s')) :
      Touch W m (s.pool, pre ++ s.efh :: post) (s'.pool, pre ++ s'.efh :: post)
  | write {pre post : List EFH} {s s' : FState} {buf : Nat → UInt8} {num : Int} {r : Ret}
      (ok : W s buf num) (pos : 0 < num) (run : wcWriteCache s buf num = .ok (r, s')) :
      Touch W m (s.pool, pre ++ s.efh :: post) (s'.pool, pre ++ s'.efh :: post)
  | rbuf {pre post : List EFH} {s s' : FState} (moved : RbufMoved s s') :
      Touch W m (s.pool, pre ++ s.efh :: post) (s'.pool, pre ++ s'.efh :: post)
  | fields {g : Pool} {pre post : List EFH} {efh efh' : EFH}
      (id : efh'.efhId = efh.efhId) (wbuf : efh'.efhWBuf = efh.efhWBuf)
      (rbuf : efh'.efhRBuf = efh.efhRBuf) :
      Touch W m (g, pre ++ efh :: post) (g, pre ++ efh' :: post)
  | opened {g : Pool} {fhs : List EFH} {efh : EFH}
      (wbuf : ∀ wbc, efh.efhWBuf = some wbc → wbc = ⟨m, 0, none, none, none, 0⟩)
      (rbuf : rbufData efh = none) : Touch W m (g, fhs) (g, efh :: fhs)
  | closed {g : Pool} {pre post : List EFH} {efh : EFH}
      (wbuf : hasBufferedWData efh = false) (rbuf : rbufData efh = none) :
      Touch W m (g, pre ++ efh :: post) (g, pre ++ post)
  | freed {g g' : Pool} {fhs : List EFH} {n : Int} (pos : 0 ≤ n)
      (run : mbFreeSomeMBufs g n = .ok g') : Touch W m (g, fhs) (g', fhs)
  | alloced {g g' : Pool} {fhs : List EFH} {n : Int} {avail : Nat} {ok : Bool} (pos : 0 ≤ n)
      (run : mbAllocMoreMBufs g n avail = .ok (ok, g')) : Touch W m (g, fhs) (g', fhs)

/-- What `wc_WriteCache` is called with by a packet. -/
def writeCall (g : Global) : Action → Option (FState × (Nat → UInt8) × Int)
  | .write id buf num =>
      match fhLookup g.gFH id with
      | none => none
      | some efh =>
          if efh.efhRes2 ≠ 0 ∨ ¬ (efh.efhMode = MODE_OLDFILE ∨ efh.efhMode = MODE_READWRITE ∨
              efh.efhMode = MODE_NEWFILE) ∨ num ≤ 0 then none
          else
            match releaseBuffered (g.state efh) with
            | .ok s => some (s, buf, num)
            | .error _ => none
  | _ => none

def Global.files (g : Global) : Pool × List EFH := (g.pool, g.gFH)

@[simp] theorem setRes_files (g : Global) (res1 res2 : Int) :
    (g.setRes res1 res2).files = g.files := rfl

@[simp] theorem setRes1_files (g : Global) (res1 : Int) : (g.setRes1 res1).files = g.files := rfl

section Actions
variable {g g' : Global} {W : FState → (Nat → UInt8) → Int → Prop} {id : Int} {efh : EFH}
  {pre post : List EFH}

theorem store_files {s : FState} (hg : g.gFH = pre ++ efh :: post)
    (hpre : ∀ e ∈ pre, e.efhId ≠ efh.efhId) (hid : s.efh.efhId = efh.efhId) :
    (g.store s).files = (s.pool, pre ++ s.efh :: post) := by
  unfold Global.files Global.store
  simp only [hg]
  rw [storeFh_split (by rw [hid]; exact hpre) hid.symm]

/-- The buffers of a write cache. -/
def Global.bufsPerFile (g : Global) : Int := g.gBufSizePerFile.tdiv MBUFSIZE

/-- The touches of an action, which leaves the size of a write cache as it is. -/
structure Touches (W : FState → (Nat → UInt8) → Int → Prop) (g g' : Global) : Prop where
  files : ReflTransGen (Touch W g.bufsPerFile) g.files g'.files
  size : g'.gBufSizePerFile = g.gBufSizePerFile

theorem Touches.same (hfiles : g'.files = g.files)
    (hsize : g'.gBufSizePerFile = g.gBufSizePerFile) : Touches W g g' :=
  ⟨hfiles ▸ .refl, hsize⟩

theorem Touches.trans {g'' : Global} (h : Touches W g g') (h' : Touches W g' g'') :
    Touches W g g'' := by
  refine ⟨h.files.trans ?_, h'.size.trans h.size⟩
  have hm : g'.bufsPerFile = g.bufsPerFile := by
    unfold Global.bufsPerFile
    rw [h.size]
  rw [← hm]
  exact h'.files

theorem Touches.tail {g'' : Global} (h : Touches W g g')
    (ht : Touch W g.bufsPerFile g'.files g''.files)
    (hsize : g''.gBufSizePerFile = g'.gBufSizePerFile) : Touches W g g'' :=
  ⟨h.files.tail ht, hsize.trans h.size⟩

theorem Touches.then {g'' : Global} (h : Touches W g g') (hfiles : g''.files = g'.files)
    (hsize : g''.gBufSizePerFile = g'.gBufSizePerFile) : Touches W g g'' :=
  h.trans (.same hfiles hsize)

/-- The touches of one open file, up to the state `s` of it. -/
def TouchesTo (W : FState → (Nat → UInt8) → Int → Prop) (g : Global) (pre post : List EFH)
    (s : FState) : Prop :=
  ReflTransGen (Touch W g.bufsPerFile) g.files (s.pool, pre ++ s.efh :: post)

theorem TouchesTo.store {s : FState} (h : TouchesTo W g pre post s)
    (hg : g.gFH = pre ++ efh :: post)
    (hpre : ∀ e ∈ pre, e.efhId ≠ efh.efhId) (hid : s.efh.efhId = efh.efhId)
    (hfiles : g'.files = (g.store s).files) (hsize : g'.gBufSizePerFile = g.gBufSizePerFile) :
    Touches W g g' := by
  refine ⟨?_, hsize⟩
  rw [hfiles, store_files hg hpre hid]
  exact h

theorem TouchesTo.flush {s s' : FState} {err : Option Int} (h : TouchesTo W g pre post s)
    (hrun : flushBuffered s = .ok (err, s')) :
    TouchesTo W g pre post s' ∧ s'.efh.efhId = s.efh.efhId :=
  ⟨h.tail (.flush hrun), (flushBuffered_dropped hrun).2.1.id⟩

theorem TouchesTo.rbuf {s s' : FState} (h : TouchesTo W g pre post s) (hmoved : RbufMoved s s') :
    TouchesTo W g pre post s' :=
  h.tail (.rbuf hmoved)

theorem TouchesTo.start (hg : g.gFH = pre ++ efh :: post) {efh' : EFH}
    (hid : efh'.efhId = efh.efhId) (hwbuf : efh'.efhWBuf = efh.efhWBuf)
    (hrbuf : efh'.efhRBuf = efh.efhRBuf) :
    TouchesTo W g pre post (g.state efh') := by
  unfold TouchesTo Global.files
  rw [hg]
  exact .single (.fields hid hwbuf hrbuf)

theorem actREAD_touches {buf buf' : Nat → UInt8} {num : Int} {ans : ReadAnswer}
    (h : actREAD g id buf num ans = .ok (buf', g')) : Touches W g g' := by
  unfold actREAD at h
  cases hlook : fhLookup g.gFH id with
  | none => rw [hlook] at h; cases h; exact .same rfl rfl
  | some efh =>
      obtain ⟨hid, pre, post, hg, hpre⟩ := fhLookup_split hlook
      subst hid
      rw [hlook] at h
      simp only at h
      split at h
      · cases h
        have hto : TouchesTo W g pre post (g.state { efh with efhRes2 := 0 }) :=
          .start hg rfl rfl rfl
        exact hto.store hg hpre rfl rfl rfl
      · split at h
        · cases h; exact .same rfl rfl
        · obtain ⟨⟨err, s⟩, hflush, h⟩ := ok_of_bind h
          obtain ⟨hto, hid⟩ := (TouchesTo.start (W := W) hg rfl rfl rfl).flush hflush
          cases err with
          | some res2 => cases h; exact hto.store hg hpre hid rfl rfl
          | none =>
              simp only at h
              split at h
              · cases h; exact hto.store hg hpre hid rfl rfl
              · split at h
                · cases h; exact hto.store hg hpre hid rfl rfl
                · obtain ⟨⟨r, buf₁, s₁⟩, hread, h⟩ := ok_of_bind h
                  have hmoved := rbReadBuf_moved hread
                  have hto := hto.rbuf hmoved
                  have hid₁ := hmoved.id.trans hid
                  cases r with
                  | failed res2 => cases h; exact hto.store hg hpre hid₁ rfl rfl
                  | noMem => cases h; exact hto.store hg hpre hid₁ rfl rfl
                  | done n => cases h; exact hto.store hg hpre hid₁ rfl rfl

theorem actWRITE_touches {buf : Nat → UInt8} {num : Int}
    (hW : ∀ x ∈ writeCall g (.write id buf num), W x.1 x.2.1 x.2.2)
    (h : actWRITE g id buf num = .ok g') : Touches W g g' := by
  unfold actWRITE at h
  simp only [writeCall] at hW
  cases hlook : fhLookup g.gFH id with
  | none => rw [hlook] at h; cases h; exact .same rfl rfl
  | some efh =>
      obtain ⟨hid, pre, post, hg, hpre⟩ := fhLookup_split hlook
      subst hid
      rw [hlook] at h
      simp only [hlook] at h hW
      split at h
      · cases h
        have hto : TouchesTo W g pre post (g.state { efh with efhRes2 := 0 }) :=
          .start hg rfl rfl rfl
        exact hto.store hg hpre rfl rfl rfl
      · rename_i hres2
        split at h
        · cases h; exact .same rfl rfl
        · rename_i hmode
          obtain ⟨s, hrel, h⟩ := ok_of_bind h
          have hmoved := (releaseBuffered_moved hrel).1
          have hid := hmoved.id
          have hto := (TouchesTo.start (W := W) hg rfl rfl rfl).rbuf hmoved
          split at h
          · rename_i hnum
            obtain ⟨⟨r, s₁⟩, hwrite, h⟩ := ok_of_bind h
            rw [if_neg (by
              rintro (hne | hno | hle)
              · exact hres2 hne
              · exact hmode hno
              · exact absurd hnum (Int.not_lt.mpr hle)), hrel] at hW
            have hcall : W s buf num := hW (s, buf, num) rfl
            have hto₁ : TouchesTo W g pre post s₁ := hto.tail (.write hcall hnum hwrite)
            have hid₁ := (wcWriteCache_dropped hwrite).same.id.trans hid
            cases r with
            | failed res2 => cases h; exact hto₁.store hg hpre hid₁ rfl rfl
            | noMem => cases h; exact hto₁.store hg hpre hid₁ rfl rfl
            | done n =>
                cases h
                have hmoved₁ := rbufMoved_setPos s₁ (long (s₁.efh.efhFilePos + n))
                  s₁.efh.efhFileLen
                exact (hto₁.rbuf hmoved₁).store hg hpre hid₁ rfl rfl
          · obtain ⟨⟨err, s₁⟩, hflush, h⟩ := ok_of_bind h
            obtain ⟨hto₁, hid₁⟩ := hto.flush hflush
            cases err with
            | some res2 => cases h; exact hto₁.store hg hpre (hid₁.trans hid) rfl rfl
            | none => cases h; exact hto₁.store hg hpre (hid₁.trans hid) rfl rfl

theorem actSEEK_touches (offset mode : Int) : Touches W g (actSEEK g id offset mode) := by
  unfold actSEEK
  cases hlook : fhLookup g.gFH id with
  | none => exact .same rfl rfl
  | some efh =>
      obtain ⟨hid, pre, post, hg, hpre⟩ := fhLookup_split hlook
      subst hid
      simp only
      split
      · have hto : TouchesTo W g pre post
            (g.state { efh with efhFilePos := seekPos efh offset mode }) := .start hg rfl rfl rfl
        exact hto.store hg hpre rfl rfl rfl
      · exact .same rfl rfl

theorem doSetSize_touches {s : FState} {offset mode : Int} {ans : SizeAnswer}
    (hto : TouchesTo W g pre post s) (hg : g.gFH = pre ++ efh :: post)
    (hpre : ∀ e ∈ pre, e.efhId ≠ efh.efhId) (hid : s.efh.efhId = efh.efhId) :
    Touches W g (doSetSize g s offset mode ans) := by
  unfold doSetSize
  simp only
  split
  · exact hto.store hg hpre hid rfl rfl
  · split
    · exact hto.store hg hpre hid rfl rfl
    · cases ans with
      | failed res2 => exact hto.store hg hpre hid rfl rfl
      | done size =>
          have hto' : TouchesTo W g pre post ({ s with efh := { s.efh with
              efhFilePos := if size.toNat < ulong s.efh.efhFilePos then long size.toNat
                else s.efh.efhFilePos
              efhFileLen := long size.toNat } }) := hto.tail (.fields rfl rfl rfl)
          exact hto'.store hg hpre hid rfl rfl

theorem actSETFILESIZE_touches {offset mode : Int} {numLocks : Nat} {ans : SizeAnswer}
    (h : actSETFILESIZE g id offset mode numLocks ans = .ok g') : Touches W g g' := by
  unfold actSETFILESIZE at h
  cases hlook : fhLookup g.gFH id with
  | none => rw [hlook] at h; cases h; exact .same rfl rfl
  | some efh =>
      obtain ⟨hid, pre, post, hg, hpre⟩ := fhLookup_split hlook
      subst hid
      rw [hlook] at h
      obtain ⟨⟨err, s⟩, hflush, h⟩ := ok_of_bind h
      obtain ⟨hto, hid⟩ := (TouchesTo.start (W := W) hg rfl rfl rfl).flush hflush
      cases err with
      | some res2 =>
          cases h
          have hset : Touches W g (g.setRes (-1) res2) := .same rfl rfl
          exact hset.trans (doSetSize_touches (g := g.setRes (-1) res2) hto hg hpre hid)
      | none =>
          simp only at h
          split at h
          · cases h; exact hto.store hg hpre hid rfl rfl
          · cases h; exact doSetSize_touches hto hg hpre hid

theorem actEND_touches (h : actEND g id = .ok g') : Touches W g g' := by
  unfold actEND at h
  cases hlook : fhLookup g.gFH id with
  | none => rw [hlook] at h; cases h; exact .same rfl rfl
  | some efh =>
      obtain ⟨hid, pre, post, hg, hpre⟩ := fhLookup_split hlook
      subst hid
      rw [hlook] at h
      obtain ⟨⟨err, s⟩, hflush, h⟩ := ok_of_bind h
      have hstart : TouchesTo W g pre post (g.state { efh with efhRes2 := 0 }) :=
        .start hg rfl rfl rfl
      obtain ⟨hto, hid⟩ := hstart.flush hflush
      obtain ⟨s₁, hrel, h⟩ := ok_of_bind h
      obtain ⟨hmoved, hrbuf⟩ := releaseBuffered_moved hrel
      have hto₁ := hto.rbuf hmoved
      have hbuf : hasBufferedWData s₁.efh = false := by
        have hleft := (flushBuffered_dropped hflush).2.2.1
        unfold hasBufferedWData at hleft ⊢
        rw [hmoved.wbuf]
        exact hleft
      have hclose : Touch W g.bufsPerFile (s₁.pool, pre ++ s₁.efh :: post) (s₁.pool, pre ++ post) :=
        .closed hbuf hrbuf
      have hclosed := hto₁.tail hclose
      have hfiles : g'.files = (s₁.pool, pre ++ post) := by
        rw [← fhRemove_split hpre rfl, ← hg]
        cases h
        unfold Global.files
        cases err with
        | none => simp only; split <;> rfl
        | some res2 => simp only; split <;> rfl
      refine ⟨by rw [hfiles]; exact hclosed, ?_⟩
      cases h
      cases err with
      | none => simp only; split <;> rfl
      | some res2 => simp only; split <;> rfl

theorem flushEach_touches (pre : List EFH) {m : Int} {fhs fhs' : List EFH} {p p' : Pool}
    {srv srv' : Server}
    {res res' : Int × Int} (h : flushEach fhs p srv res = .ok (fhs', p', srv', res')) :
    ReflTransGen (Touch W m) (p, pre ++ fhs) (p', pre ++ fhs') := by
  induction fhs generalizing pre p srv res fhs' with
  | nil => cases h; exact .refl
  | cons efh rest ih =>
      unfold flushEach at h
      obtain ⟨⟨err, s⟩, hflush, h⟩ := ok_of_bind h
      have hone : ReflTransGen (Touch W m) (p, pre ++ efh :: rest) (s.pool, pre ++ s.efh :: rest) :=
        .single (.flush (s := ⟨p, srv, efh⟩) hflush)
      cases err with
      | none =>
          obtain ⟨⟨rest', p₁, srv₁, res₁⟩, hrest, h⟩ := ok_of_bind h
          cases h
          have := ih (pre ++ [s.efh]) hrest
          simp only [List.append_assoc, List.singleton_append] at this
          exact hone.trans this
      | some res2 =>
          obtain ⟨⟨rest', p₁, srv₁, res₁⟩, hrest, h⟩ := ok_of_bind h
          cases h
          have := ih (pre ++ [{ s.efh with efhRes2 := res2 }]) hrest
          simp only [List.append_assoc, List.singleton_append] at this
          have hmark : Touch W m (s.pool, pre ++ s.efh :: rest)
              (s.pool, pre ++ { s.efh with efhRes2 := res2 } :: rest) := .fields rfl rfl rfl
          exact (hone.tail hmark).trans this

theorem flushAll_touches (h : flushAll g = .ok g') : Touches W g g' := by
  unfold flushAll at h
  obtain ⟨⟨fhs, p, srv, res⟩, heach, h⟩ := ok_of_bind h
  cases h
  exact ⟨flushEach_touches [] heach, rfl⟩

theorem actFLUSH_touches (h : actFLUSH g = .ok g') : Touches W g g' := by
  unfold actFLUSH at h
  obtain ⟨g₁, hall, h⟩ := ok_of_bind h
  cases h
  exact (flushAll_touches hall).then rfl rfl

theorem updateAuth_touches {ok : Bool} (h : updateAuth g ok = .ok g') : Touches W g g' := by
  unfold updateAuth at h
  obtain ⟨g₁, hflush, h⟩ := ok_of_bind h
  cases h
  have hto := actFLUSH_touches (W := W) hflush
  cases ok with
  | true => exact hto
  | false => exact hto.then rfl rfl

theorem flushEach_numM {fhs fhs' : List EFH} {p p' : Pool} {srv srv' : Server}
    {res res' : Int × Int} (h : flushEach fhs p srv res = .ok (fhs', p', srv', res')) :
    p'.gNumMBufs = p.gNumMBufs := by
  induction fhs generalizing p srv res fhs' with
  | nil => cases h; rfl
  | cons efh rest ih =>
      unfold flushEach at h
      obtain ⟨⟨err, s⟩, hflush, h⟩ := ok_of_bind h
      have hone := (flushBuffered_dropped hflush).2.2.2
      obtain ⟨⟨rest', p₁, srv₁, res₁⟩, hrest, h⟩ := ok_of_bind h
      cases h
      exact (ih hrest).trans hone

/-- A flush of all files where `act_MORE_CACHE` asks for it. -/
theorem whenShort_flushAll {mbufs : Int} {f : Global → Except Fault Global}
    (hf : ∀ {a b : Global}, f a = .ok b → Touches W a b ∧ b.pool.gNumMBufs = a.pool.gNumMBufs)
    (h : whenShort mbufs f g = .ok g') :
    Touches W g g' ∧ g'.pool.gNumMBufs = g.pool.gNumMBufs := by
  unfold whenShort at h
  split at h
  · exact hf h
  · cases h; exact ⟨.same rfl rfl, rfl⟩

theorem flushAll_numM (h : flushAll g = .ok g') : g'.pool.gNumMBufs = g.pool.gNumMBufs := by
  unfold flushAll at h
  obtain ⟨⟨fhs, p, srv, res⟩, heach, h⟩ := ok_of_bind h
  cases h
  exact flushEach_numM heach

theorem actFLUSH_numM (h : actFLUSH g = .ok g') : g'.pool.gNumMBufs = g.pool.gNumMBufs := by
  unfold actFLUSH at h
  obtain ⟨g₁, hall, h⟩ := ok_of_bind h
  cases h
  exact (flushAll_numM hall : g₁.pool.gNumMBufs = g.pool.gNumMBufs)

theorem gatherMBufs_touches {mbufs : Int} (h : gatherMBufs g mbufs = .ok g') :
    Touches W g g' ∧ g'.pool.gNumMBufs = g.pool.gNumMBufs := by
  unfold gatherMBufs at h
  obtain ⟨g₁, hflush, h⟩ := ok_of_bind h
  obtain ⟨hto, hnum⟩ := whenShort_flushAll (W := W)
    (fun hf => ⟨actFLUSH_touches hf, actFLUSH_numM hf⟩) hflush
  obtain ⟨hto', hnum'⟩ := whenShort_flushAll (W := W)
    (fun hf => ⟨flushAll_touches hf, flushAll_numM hf⟩) h
  exact ⟨hto.trans hto', hnum'.trans hnum⟩

theorem resizeMBufs_touches {mbufs : Int} {avail : Nat} {ok : Bool}
    (h : resizeMBufs g mbufs avail = .ok (ok, g')) : Touches W g g' := by
  unfold resizeMBufs at h
  simp only at h
  split at h
  · rename_i hlt
    obtain ⟨g₁, hshrink, h⟩ := ok_of_bind h
    cases h
    unfold shrinkMBufs at hshrink
    obtain ⟨g₂, hgather, hshrink⟩ := ok_of_bind hshrink
    obtain ⟨p, hfree, hshrink⟩ := ok_of_bind hshrink
    cases hshrink
    obtain ⟨hto, hnum⟩ := gatherMBufs_touches (W := W) hgather
    exact hto.tail (.freed (by omega) hfree) rfl
  · split at h
    · rename_i hpos
      obtain ⟨⟨ok', p⟩, halloc, h⟩ := ok_of_bind h
      cases h
      exact ⟨.single (.alloced (by omega) halloc), rfl⟩
    · cases h; exact .same rfl rfl

theorem actMORECACHE_touches {num : Int} {avail : Nat} (h : actMORECACHE g num avail = .ok g') :
    Touches W g g' := by
  unfold actMORECACHE at h
  split at h
  · cases h; exact .same rfl rfl
  · obtain ⟨⟨ok, g₁⟩, hresize, h⟩ := ok_of_bind h
    have hto := resizeMBufs_touches (W := W) hresize
    cases ok with
    | true => cases h; exact hto.then rfl rfl
    | false => cases h; exact hto.then rfl rfl

theorem openFile_touches (mode fileLen : Int) (fh : Fh) (key : Int) (wbuf rbuf : Bool) :
    Touches W g (openFile g mode fileLen fh key wbuf rbuf) := by
  refine ⟨.single (.opened ?_ ?_), rfl⟩
  · intro wbc hw
    simp only at hw
    split at hw
    · exact (Option.some.inj hw).symm
    · cases hw
  · cases rbuf with
    | true => rfl
    | false => rfl

/-- An action is made of touches. -/
theorem step_touches {a : Action} (hW : ∀ x ∈ writeCall g a, W x.1 x.2.1 x.2.2)
    (h : step g a = .ok g') : Touches W g g' := by
  cases a with
  | openFile mode fileLen fh key wbuf rbuf => cases h; exact openFile_touches ..
  | read id buf num ans =>
      obtain ⟨⟨buf', g₁⟩, hread, h⟩ := ok_of_bind h
      cases h
      exact actREAD_touches hread
  | write id buf num => exact actWRITE_touches hW h
  | seek id offset mode => cases h; exact actSEEK_touches ..
  | setFileSize id offset mode numLocks ans => exact actSETFILESIZE_touches h
  | flush => exact actFLUSH_touches h
  | timer => exact actFLUSH_touches h
  | updateAuth ok => exact updateAuth_touches h
  | moreCache num avail => exact actMORECACHE_touches h
  | endFile id => exact actEND_touches h

end Actions

end Anfs.File
