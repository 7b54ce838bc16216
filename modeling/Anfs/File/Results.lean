import Anfs.File.Transfers

/-!
# The results of reading and writing

A packet that transfers bytes is to be answered by their number and no error, or by -1 and an
error. What a file has to be like for that is told by the file and the server: a flush fails as
soon as one of the requests it makes is not served.
-/
namespace Anfs.File
open Anfs.Lib Anfs.Nfs Anfs.Buf

section Flush
variable {srv srv' : Server} {fh : Fh} {n : Nat} {efh : EFH} {fileLen : Int}

/-- A request that does not fail has been served by the next answer. -/
theorem nfsWrite_served_next {offset count : Int} {buf : Nat → UInt8}
    (h : nfsWrite srv fh offset buf count = (.ok fileLen, srv')) :
    WriteAnswer.served (srv.answers srv.answered) = true ∧ srv'.answers = srv.answers ∧
      srv'.answered = srv.answered + 1 := by
  unfold nfsWrite at h
  cases hans : srv.answers srv.answered with
  | done len =>
      rw [hans] at h
      cases h
      exact ⟨rfl, rfl, rfl⟩
  | failed res2 executed =>
      rw [hans] at h
      cases h

/-- Served answers one after the other. -/
theorem ServesNext.append {m : Nat} (h : ServesNext srv m) (h' : ServesNext srv' n)
    (hans : srv'.answers = srv.answers) (hnum : srv'.answered = srv.answered + m) :
    ServesNext srv (m + n) := by
  intro k hk
  by_cases hkm : k < m
  · exact h k hkm
  · have hbehind := h' (k - m) (by omega)
    rw [hans, hnum] at hbehind
    rw [show srv.answered + k = srv.answered + m + (k - m) by omega]
    exact hbehind

theorem flushInfos_served {fileOffs : Int} {data : Nat → UInt8} {info : List WBufHdrInfo}
    (h : flushInfos fh fileOffs data info srv = (none, srv')) :
    ServesNext srv info.length ∧ srv'.answers = srv.answers ∧
      srv'.answered = srv.answered + info.length := by
  induction info generalizing srv with
  | nil =>
      cases h
      exact ⟨fun k hk => absurd hk (Nat.not_lt_zero k), rfl, rfl⟩
  | cons wbi rest ih =>
      unfold flushInfos at h
      split at h
      · rename_i len srv₁ hwrite
        obtain ⟨hone, hans, hnum⟩ := nfsWrite_served_next hwrite
        obtain ⟨hrest, hans', hnum'⟩ := ih h
        have hfirst : ServesNext srv 1 := by
          intro k hk
          rw [show k = 0 by omega]
          exact hone
        refine ⟨?_, hans'.trans hans, ?_⟩
        · rw [List.length_cons, Nat.add_comm]
          exact hfirst.append hrest hans hnum
        · rw [List.length_cons]
          omega
      · cases h

theorem flushLoop_served {s s' : WState} (h : flushLoop efh n s = .ok (none, s')) :
    ServesNext s.srv (flushRequests n s) := by
  induction n generalizing s with
  | zero => exact fun k hk => absurd hk (Nat.not_lt_zero k)
  | succ n ih =>
      unfold flushLoop at h
      unfold flushRequests
      obtain ⟨⟨wbh, s₁⟩, hrem, h⟩ := ok_of_bind h
      rw [hrem]
      cases wbh with
      | none => exact fun k hk => absurd hk (Nat.not_lt_zero k)
      | some p =>
          simp only at h ⊢
          have hsrv : s₁.srv = s.srv := by
            unfold wBufRemHead at hrem
            split at hrem
            · split at hrem
              · cases hrem
              · cases hrem; rfl
            · cases hrem
          split at h
          · rename_i srv₂ hinfos
            obtain ⟨hserved, hans, hnum⟩ := flushInfos_served hinfos
            have hrest := ih h
            rw [flushRequests_withServer n { s₁ with pool := releaseWBuf s₁.pool p } srv₂] at hrest
            rw [← hsrv]
            exact hserved.append hrest hans hnum
          · obtain ⟨s₂, -, h⟩ := ok_of_bind h
            cases h

/-- A flush succeeds just when the server serves what it asks for. -/
theorem flushBuffered_none_iff {s s' : FState} {err : Option Int}
    (hrun : flushBuffered s = .ok (err, s')) :
    err = none ↔ FlushServed s := by
  constructor
  · rintro rfl hbuf
    unfold flushBuffered at hrun
    rw [if_pos hbuf] at hrun
    unfold wcFlushCache at hrun
    cases hw : s.efh.efhWBuf with
    | none => simp [hasBufferedWData, hw] at hbuf
    | some wbc =>
        rw [hw] at hrun
        obtain ⟨⟨err', w⟩, hflush, hrun⟩ := ok_of_bind hrun
        cases hrun
        rw [FState.w_eq hw]
        exact flushLoop_served hflush
  · exact fun hserved => hserved.none hrun

end Flush

section Write
variable {s s' : FState} {buf : Nat → UInt8} {num : Int}

theorem flushCacheAndWrite_code {res2 : Int}
    (h : flushCacheAndWrite s buf num = .ok (.failed res2, s')) :
    ∃ k x, s.srv.answers k = .failed res2 x := by
  unfold flushCacheAndWrite at h
  obtain ⟨⟨err, s₁⟩, hflush, h⟩ := ok_of_bind h
  obtain ⟨hdrop, -⟩ := flushBuffered_dropped hflush
  cases err with
  | some e =>
      cases h
      exact hdrop.code _ rfl
  | none =>
      simp only at h
      split at h
      · cases h
      · rename_i e srv heq
        cases h
        obtain ⟨k, x, hk⟩ := nfsWrite_error heq
        have hans : s₁.srv.answers = s.srv.answers := hdrop.answers
        rw [hans] at hk
        exact ⟨k, x, hk⟩

/-- Whatever fails in a write, the error is an answer of the server. -/
theorem wcWriteCache_code {res2 : Int} (h : wcWriteCache s buf num = .ok (.failed res2, s')) :
    ∃ k x, s.srv.answers k = .failed res2 x := by
  unfold wcWriteCache at h
  cases hw : s.efh.efhWBuf with
  | none =>
      rw [hw] at h
      exact flushCacheAndWrite_code h
  | some wbc =>
      rw [hw] at h
      simp only at h
      split at h
      · exact flushCacheAndWrite_code h
      · obtain ⟨⟨r₁, w⟩, hseek, h⟩ := ok_of_bind h
        have hdrop := wBufSeekAndPrepare_dropped hseek
        cases r₁ with
        | failed e =>
            cases h
            exact hdrop.code _ rfl
        | noMem =>
            obtain ⟨k, x, hk⟩ := flushCacheAndWrite_code h
            have hans : w.srv.answers = s.srv.answers := hdrop.answers
            exact ⟨k, x, (congrFun hans k).symm.trans hk⟩
        | done n =>
            obtain ⟨⟨e, w'⟩, hloop, h⟩ := ok_of_bind h
            have hdrop' := hdrop.trans (wBufWriteLoop_dropped hloop)
            cases e with
            | failed e =>
                cases h
                exact hdrop'.code _ rfl
            | noMem buf' num' =>
                obtain ⟨k, x, hk⟩ := flushCacheAndWrite_code h
                have hans : w'.srv.answers = s.srv.answers := hdrop'.answers
                exact ⟨k, x, (congrFun hans k).symm.trans hk⟩
            | done => cases h

end Write

/-- The position of the open file has moved on by `n`. -/
def MovedOn (g g' : Global) (id : Int) (n : Nat) : Prop :=
  ∃ efh ∈ fhLookup g.gFH id, ∃ efh' ∈ fhLookup g'.gFH id,
    long efh'.efhFilePos = long (efh.efhFilePos + n)

/-- An error that waits in the open file is the reply, as a failure, and waits no more. -/
def ReportsKept (g g' : Global) (id : Int) : Prop :=
  ∀ efh ∈ fhLookup g.gFH id, efh.efhRes2 ≠ 0 → g'.gRes1 = -1 ∧ g'.gRes2 = efh.efhRes2 ∧
    ∀ efh' ∈ fhLookup g'.gFH id, efh'.efhRes2 = 0

/-- The convention for a packet that transfers bytes; `stored n` tells what is to be true of the
bytes when `n` of them were. -/
def Replies (g g' : Global) (id : Int) (stored : Nat → Prop) : Prop :=
  ((∃ n : Nat, g'.gRes1 = n ∧ g'.gRes2 = 0 ∧ MovedOn g g' id n ∧ stored n) ∨
    (g'.gRes1 = -1 ∧ g'.gRes2 ≠ 0)) ∧ ReportsKept g g' id

/-- The file is open in one of the modes, and no error waits in it. -/
def Transferable (g : Global) (id : Int) (modes : List Int) (efh : EFH) : Prop :=
  fhLookup g.gFH id = some efh ∧ efh.efhRes2 = 0 ∧ efh.efhMode ∈ modes

def readModes : List Int := [ MODE_OLDFILE, MODE_READWRITE]

def writeModes : List Int := [ MODE_OLDFILE, MODE_READWRITE, MODE_NEWFILE]

section Convention
variable {g g' : Global} {id : Int} {stored : Nat → Prop} {modes : List Int}

/-- A result of 0 with an error is none of the two. -/
theorem not_replies {res2 : Int} (h1 : g'.gRes1 = DOSFALSE) (h2 : g'.gRes2 = res2)
    (hne : res2 ≠ 0) :
    ¬ Replies g g' id stored := by
  rintro ⟨⟨n, -, hzero, -⟩ | ⟨hfail, -⟩, -⟩
  · exact hne (h2.symm.trans hzero)
  · rw [h1] at hfail
    exact absurd hfail (by decide)

/-- Without a waiting error nothing has to be reported. -/
theorem Transferable.reportsKept {efh : EFH}
    (h : Transferable g id modes efh) : ReportsKept g g' id := by
  intro efh' hlook hne
  rw [Option.mem_def, h.1] at hlook
  cases hlook
  exact absurd h.2.1 hne

/-- The file that an action stored is the one that is found. -/
theorem fhLookup_store {efh : EFH} {s : FState} (h : fhLookup g.gFH id = some efh)
    (hid : s.efh.efhId = efh.efhId) : fhLookup (g.store s).gFH id = some s.efh := by
  obtain ⟨rfl, pre, post, hg, hpre⟩ := fhLookup_split h
  rw [← hid] at hpre ⊢
  have hstore : (g.store s).gFH = pre ++ s.efh :: post := by
    show storeFh s.efh g.gFH = _
    rw [hg]
    exact storeFh_split hpre hid.symm
  rw [hstore]
  exact fhLookup_append rfl hpre

theorem MovedOn.store {efh : EFH} {s : FState} {n : Nat} (h : fhLookup g.gFH id = some efh)
    (hid : s.efh.efhId = efh.efhId) (hpos : long s.efh.efhFilePos = long (efh.efhFilePos + n))
    (res1 res2 : Int) : MovedOn g ((g.store s).setRes res1 res2) id n :=
  ⟨efh, h, s.efh, fhLookup_store h hid, hpos⟩

/-- Only a file that is open in one of the modes and in which no error waits gets such a reply. -/
theorem actWRITE_transferable {buf : Nat → UInt8} {num : Int}
    (hrun : actWRITE g id buf num = .ok g') (hrep : Replies g g' id stored) :
    ∃ efh, Transferable g id writeModes efh := by
  unfold actWRITE at hrun
  cases hlook : fhLookup g.gFH id with
  | none =>
      rw [hlook] at hrun
      cases hrun
      exact absurd hrep (not_replies rfl rfl (show errorFileNotObject ≠ 0 by decide))
  | some efh =>
      rw [hlook] at hrun
      simp only at hrun
      split at hrun
      · rename_i hres
        cases hrun
        exact absurd hrep (not_replies rfl rfl hres)
      · rename_i hres
        split at hrun
        · cases hrun
          exact absurd hrep (not_replies rfl rfl (show errorFileNotObject ≠ 0 by decide))
        · rename_i hmode
          exact ⟨efh, hlook, by simpa using hres,
            by simpa [writeModes] using Decidable.not_not.mp hmode⟩

theorem actREAD_transferable {buf buf' : Nat → UInt8} {num : Int} {ans : ReadAnswer}
    (hrun : actREAD g id buf num ans = .ok (buf', g')) (hrep : Replies g g' id stored) :
    ∃ efh, Transferable g id readModes efh := by
  unfold actREAD at hrun
  cases hlook : fhLookup g.gFH id with
  | none =>
      rw [hlook] at hrun
      cases hrun
      exact absurd hrep (not_replies rfl rfl (show errorFileNotObject ≠ 0 by decide))
  | some efh =>
      rw [hlook] at hrun
      simp only at hrun
      split at hrun
      · rename_i hres
        cases hrun
        exact absurd hrep (not_replies rfl rfl hres)
      · rename_i hres
        split at hrun
        · cases hrun
          exact absurd hrep (not_replies rfl rfl (show errorFileNotObject ≠ 0 by decide))
        · rename_i hmode
          exact ⟨efh, hlook, by simpa using hres,
            by simpa [readModes] using Decidable.not_not.mp hmode⟩

end Convention

/-- What is to be true of the bytes when a `READ` of `num` has transferred `n` of them to `buf`. -/
def ReadStored (g : Global) (id num : Int) (ans : ReadAnswer) (buf buf' : Nat → UInt8) (n : Nat) :
    Prop :=
  ∀ efh ∈ fhLookup g.gFH id, Fetched (g.state efh) num ans buf buf' n

/-- What is to be true when a `WRITE` of `num` has transferred `n` bytes: these are all, and they
are stored. -/
def WriteStored (g : Global) (id num : Int) (buf : Nat → UInt8) (g' : Global) (n : Nat) : Prop :=
  (n : Int) = max num 0 ∧ (0 < num → ∀ efh ∈ fhLookup g.gFH id, ∀ s,
    releaseBuffered (g.state efh) = .ok s → Stored s buf num g'.srv)

/-- A read at the end of the file, or one that needs no read buffer or finds a header for it. -/
def HeaderAtHand (efh : EFH) (num : Int) : Prop :=
  0 < num → ¬ (efh.efhFileLen ≠ 0 ∧ efh.efhFileLen = efh.efhFilePos) → num ≤ RBUFFERLIMIT →
    efh.efhFilePos ≠ 0 → efh.efhRBuf ≠ none

/-- A file open for reading; when there is nothing to flush or the flush is served, a negative
length finds an error code, and a small read a header. -/
def Readable (g : Global) (id num : Int) : Prop :=
  ∃ efh, Transferable g id readModes efh ∧
    (FlushServed (g.state efh) → (num < 0 → g.gRes2 ≠ 0) ∧ HeaderAtHand efh num)

/-- A file open for writing; if the write is to be cached and finds a buffer, it is unbroken. -/
def Writable (g : Global) (id num : Int) : Prop :=
  ∃ efh, Transferable g id writeModes efh ∧ (0 < num → ∀ s, releaseBuffered (g.state efh) = .ok s →
    Cacheable s (chainOf s.pool s.efh) num)

section Read
variable {g : Global} {id num : Int} {efh : EFH} {buf : Nat → UInt8} {ans : ReadAnswer}

/-- What a packet that reads from an open file is answered. -/
theorem actREAD_follows (hinv : PoolInv g.pool g.gFH) (hcodes : Codes g.srv)
    (h : Transferable g id readModes efh) (hans : ans ≠ .failed 0) :
    (∃ buf' g', actREAD g id buf num ans = .ok (buf', g') ∧
      Replies g g' id (ReadStored g id num ans buf buf')) ↔
      (FlushServed (g.state efh) → (num < 0 → g.gRes2 ≠ 0) ∧ HeaderAtHand efh num) := by
  have hkept : ∀ g', ReportsKept g g' id := fun _ => h.reportsKept
  obtain ⟨hlook, hres, hmode⟩ := h
  obtain ⟨-, pre, post, hg, -⟩ := fhLookup_split hlook
  have hopen : efh.efhMode = MODE_OLDFILE ∨ efh.efhMode = MODE_READWRITE := by
    simpa [readModes] using hmode
  rw [hg] at hinv
  have howns : Owns (g.state efh).w ⟨chainOf g.pool efh, [], freeHdrs g.pool⟩ := hinv.owns g.srv
  obtain ⟨err, s, hflush, hf, hsame, hlen⟩ := flushBuffered_spec howns
  have hserved := flushBuffered_none_iff hflush
  have hid : s.efh.efhId = efh.efhId := hsame.id
  have hpos : s.efh.efhFilePos = efh.efhFilePos := hsame.filePos
  have hmem : ∀ b ∈ rbufData efh, s.pool.mem b = g.pool.mem b := fun b hb =>
    hf.moved.mem b (hinv.rbufData_chain (by simp) b hb)
  have hfetched : ∀ {buf' : Nat → UInt8} {n : Nat}, Fetched s num ans buf buf' n →
      ReadStored g id num ans buf buf' n := fun hs o ho => by
    rw [Option.mem_def, hlook] at ho
    cases ho
    exact hs.congr hsame.rbuf hsame.filePos hmem
  unfold actREAD
  simp only [hlook, hres, ne_eq, not_true_eq_false, if_false, hopen, hflush, bind, Except.bind]
  cases err with
  | some res2 =>
      obtain ⟨k, x, hk⟩ := hf.failed res2 rfl
      refine iff_of_true ⟨buf, _, rfl, .inr ⟨rfl, ?_⟩, hkept _⟩ fun hyes =>
        absurd (hserved.mpr hyes) nofun
      rintro rfl
      exact hcodes k x hk
  | none =>
      have hflushed : FlushServed (g.state efh) := hserved.mp rfl
      simp only
      by_cases hneg : num < 0
      · rw [if_pos hneg]
        constructor
        · rintro ⟨_, _, hrun, ⟨n, hn, -⟩ | ⟨-, hne⟩, -⟩ -
          · cases hrun
            exact absurd (show (-1 : Int) = n from hn) (by omega)
          · cases hrun
            exact ⟨fun _ => hne, fun h0 => absurd h0 (by omega)⟩
        · exact fun hne => ⟨buf, _, rfl, .inr ⟨rfl, (hne hflushed).1 hneg⟩, hkept _⟩
      · rw [if_neg hneg]
        by_cases hstop : num = 0 ∨ s.efh.efhFileLen ≠ 0 ∧ s.efh.efhFileLen = s.efh.efhFilePos
        · rw [if_pos hstop]
          refine iff_of_true ⟨buf, _, rfl, .inl ⟨0, rfl, rfl, .store hlook hid ?_ 0 0,
            hfetched (.zero s num ans buf)⟩, hkept _⟩ fun _ => ⟨fun h => absurd h hneg,
              fun h0 hend => ?_⟩
          · simp [hpos]
          · rw [hpos, hlen] at hstop
            exact absurd (hstop.resolve_left (by omega)) hend
        · rw [if_neg hstop]
          have hnum : 0 < num := by
            by_contra hle
            exact hstop (.inl (by omega))
          have hend : ¬ (efh.efhFileLen ≠ 0 ∧ efh.efhFileLen = efh.efhFilePos) := fun hend => by
            rw [hpos, hlen] at hstop
            exact hstop (.inr hend)
          constructor
          · rintro ⟨_, _, hrun, -⟩ -
            refine ⟨fun h => absurd h hneg, fun _ _ hsmall hne hnone => ?_⟩
            obtain ⟨x, hread, -⟩ := ok_of_bind hrun
            unfold rbReadBuf at hread
            rw [if_pos ⟨hsmall, hpos ▸ hne⟩, hsame.rbuf,
              show (g.state efh).efh.efhRBuf = none from hnone] at hread
            cases hread
          · intro hok
            obtain ⟨r, buf', s₁, hread, hcounts⟩ := rbReadBuf_goes hf.owns.numFreeM hnum
              (fun hsmall hne => by
                rw [hsame.rbuf]
                exact (hok hflushed).2 hnum hend hsmall (hpos ▸ hne)) buf ans
            have hid₁ : s₁.efh.efhId = efh.efhId := (rbReadBuf_moved hread).id.trans hid
            simp only [hread]
            cases r with
            | failed res2 =>
                refine ⟨buf', _, rfl, .inr ⟨rfl, ?_⟩, hkept _⟩
                rintro rfl
                exact hans hcounts
            | noMem => exact absurd hcounts nofun
            | done n =>
                obtain ⟨m, rfl, hmove, hs⟩ := hcounts
                rw [hpos] at hmove
                exact ⟨buf', _, rfl, .inl ⟨m, rfl, rfl, .store hlook hid₁ hmove _ _, hfetched hs⟩,
                  hkept _⟩

theorem actREAD_replies_iff (hinv : PoolInv g.pool g.gFH) (hcodes : Codes g.srv)
    (hans : ans ≠ .failed 0) :
    (∃ buf' g', actREAD g id buf num ans = .ok (buf', g') ∧
      Replies g g' id (ReadStored g id num ans buf buf')) ↔ Readable g id num := by
  constructor
  · rintro ⟨buf', g', hrun, hrep⟩
    obtain ⟨efh, h⟩ := actREAD_transferable hrun hrep
    exact ⟨efh, h, (actREAD_follows hinv hcodes h hans).mp ⟨buf', g', hrun, hrep⟩⟩
  · rintro ⟨efh, h, hok⟩
    exact (actREAD_follows hinv hcodes h hans).mpr hok

end Read

section Write
variable {g g' : Global} {id num : Int} {efh : EFH} {s : FState} {buf : Nat → UInt8}

theorem releaseBuffered_withServer {s s' : FState} (hrel : releaseBuffered s = .ok s')
    (srv : Server) : releaseBuffered { s with srv := srv } = .ok { s' with srv := srv } := by
  unfold releaseBuffered rbReleaseRBufData at hrel ⊢
  by_cases hdata : hasBufferedRData s.efh = true
  · simp only [hdata, if_true] at hrel ⊢
    cases hr : s.efh.efhRBuf with
    | none =>
        rw [hr] at hrel
        cases hrel
    | some rbh =>
        rw [hr] at hrel
        cases hrel
        rfl
  · rw [if_neg hdata] at hrel ⊢
    cases hrel
    rfl

/-- What a packet that writes to an open file is answered. -/
theorem actWRITE_follows (hsound : Clusters BlockTables g.pool g.gFH) (hcodes : Codes g.srv)
    (hlong : IsLong efh.efhFilePos) (h : Transferable g id writeModes efh)
    (hok : 0 < num → ∀ s, releaseBuffered (g.state efh) = .ok s →
      Cacheable s (chainOf s.pool s.efh) num) (buf : Nat → UInt8) :
    ∃ g', actWRITE g id buf num = .ok g' ∧ Replies g g' id (WriteStored g id num buf g') := by
  have hkept : ∀ g', ReportsKept g g' id := fun _ => h.reportsKept
  obtain ⟨hlook, hres, hmode⟩ := h
  have hopen : efh.efhMode = MODE_OLDFILE ∨ efh.efhMode = MODE_READWRITE ∨
      efh.efhMode = MODE_NEWFILE := by
    simpa [writeModes] using hmode
  obtain ⟨s, hrel⟩ := releaseBuffered_total (g.state efh)
  have hmoved := (releaseBuffered_moved hrel).1
  have hid : s.efh.efhId = efh.efhId := hmoved.id
  have hpos : s.efh.efhFilePos = efh.efhFilePos := (releaseBuffered_pos hrel).1
  obtain ⟨howns, hlen, hblocks⟩ := hsound.released blockTables_ofHeaders hlook hrel
  have hcode : ∀ {k : Nat} {x : List (UInt32 × List UInt8)},
    s.srv.answers k ≠ .failed 0 x := fun {k x} => by
    rw [hmoved.srv]
    exact hcodes k x
  unfold actWRITE
  simp only [hlook, hres, ne_eq, not_true_eq_false, if_false, hopen, hrel, bind, Except.bind]
  by_cases hnum : 0 < num
  · rw [if_pos hnum]
    obtain ⟨r, s', hwrite, hends⟩ :=
      wcWriteCache_goes ⟨howns, hblocks, hlen⟩ hnum (hpos ▸ hlong) (hok hnum s hrel) buf
    have hsame := (wcWriteCache_dropped hwrite).same
    simp only [hwrite]
    obtain ⟨res2, rfl⟩ | ⟨rfl, hstored⟩ := hends
    · obtain ⟨k, x, hk⟩ := wcWriteCache_code hwrite
      refine ⟨_, rfl, .inr ⟨rfl, ?_⟩, hkept _⟩
      rintro rfl
      exact hcode hk
    · refine ⟨_, rfl, .inl ⟨num.toNat, (Int.toNat_of_nonneg (Int.le_of_lt hnum)).symm, rfl, ?_, ?_⟩,
        hkept _⟩
      · apply MovedOn.store hlook (s := s'.setFilePos (long (s'.efh.efhFilePos + num)))
          (hsame.id.trans hid)
        show long (long (s'.efh.efhFilePos + num)) = _
        rw [long_long, hsame.filePos, hpos, Int.toNat_of_nonneg (Int.le_of_lt hnum)]
      · refine ⟨by omega, fun _ o ho s₁ hrel₁ => ?_⟩
        rw [Option.mem_def, hlook] at ho
        cases ho
        rw [hrel] at hrel₁
        cases hrel₁
        exact hstored
  · rw [if_neg hnum]
    obtain ⟨err, s', hflush, hf, hsame, -⟩ := flushBuffered_spec howns
    simp only [hflush]
    cases err with
    | some res2 =>
        obtain ⟨k, x, hk⟩ := hf.failed res2 rfl
        refine ⟨_, rfl, .inr ⟨rfl, ?_⟩, hkept _⟩
        rintro rfl
        exact hcode hk
    | none =>
        refine ⟨_, rfl, .inl ⟨0, rfl, rfl, .store hlook (hsame.id.trans hid) ?_ 0 0, ?_⟩, hkept _⟩
        · rw [hsame.filePos, hpos]
          simp
        · exact ⟨by omega, fun h0 => absurd h0 hnum⟩

/-- A write that is served and answered as it should be could be cached or was not to be. -/
theorem cacheable_of_replies (hsound : Clusters BlockTables g.pool g.gFH) (hserves : Serves g.srv)
    (hlong : IsLong efh.efhFilePos) (h : Transferable g id writeModes efh)
    (hrun : actWRITE g id buf num = .ok g')
    (hrep : Replies g g' id (WriteStored g id num buf g')) (hnum : 0 < num)
    (hrel : releaseBuffered (g.state efh) = .ok s) : Cacheable s (chainOf s.pool s.efh) num := by
  obtain ⟨hlook, hres, hmode⟩ := h
  have hopen : efh.efhMode = MODE_OLDFILE ∨ efh.efhMode = MODE_READWRITE ∨
      efh.efhMode = MODE_NEWFILE := by
    simpa [writeModes] using hmode
  have hmoved := (releaseBuffered_moved hrel).1
  have hpos : s.efh.efhFilePos = efh.efhFilePos := (releaseBuffered_pos hrel).1
  obtain ⟨howns, hlen, hblocks⟩ := hsound.released blockTables_ofHeaders hlook hrel
  have hserves' : Serves s.srv := by
    rw [hmoved.srv]
    exact hserves
  unfold actWRITE at hrun
  simp only [hlook, hres, ne_eq, not_true_eq_false, if_false, hopen, hrel, bind, Except.bind,
    if_pos hnum] at hrun
  cases hwrite : wcWriteCache s buf num with
  | error f => simp only [hwrite] at hrun; cases hrun
  | ok x =>
      obtain ⟨r, s'⟩ := x
      simp only [hwrite] at hrun
      have hstored : (∃ n : Nat, WriteStored g id num buf g' n) → Stored s buf num g'.srv :=
        fun ⟨n, hn⟩ => hn.2 hnum efh hlook s hrel
      have hzero : g'.gRes2 = 0 := by
        cases r with
        | failed res2 =>
            obtain ⟨k, y, hk⟩ := wcWriteCache_code hwrite
            exact absurd hk (hserves' k res2 y)
        | noMem => cases hrun; rfl
        | done n => cases hrun; rfl
      obtain ⟨⟨n, -, -, -, hn⟩ | ⟨-, hne⟩, -⟩ := hrep
      · exact cacheable_of_stored ⟨howns, hblocks, hlen⟩ hnum (hpos ▸ hlong) hserves' hwrite
          (hstored ⟨n, hn⟩)
      · exact absurd hzero hne

theorem actWRITE_replies_iff (hsound : Clusters BlockTables g.pool g.gFH)
    (hlong : ∀ efh ∈ g.gFH, IsLong efh.efhFilePos) :
    (∀ srv, Codes srv → ∃ g', actWRITE { g with srv := srv } id buf num = .ok g' ∧
      Replies { g with srv := srv } g' id (WriteStored { g with srv := srv } id num buf g')) ↔
      Writable g id num := by
  have hfound : ∀ {efh}, Transferable g id writeModes efh → IsLong efh.efhFilePos := fun h =>
    hlong _ (List.mem_of_find?_eq_some h.1)
  constructor
  · intro hall
    have hserves := serving_serves g.srv
    obtain ⟨g', hrun, hrep⟩ := hall g.srv.serving fun k x => hserves k 0 x
    obtain ⟨efh, h⟩ := actWRITE_transferable hrun hrep
    refine ⟨efh, h, fun hnum s hrel => ?_⟩
    have hok : Cacheable { s with srv := g.srv.serving } (chainOf s.pool s.efh) num :=
      cacheable_of_replies (g := { g with srv := g.srv.serving }) hsound hserves (hfound h) h hrun
        hrep hnum (releaseBuffered_withServer hrel g.srv.serving)
    exact hok.withServer s.srv
  · rintro ⟨efh, h, hok⟩ srv hcodes
    refine actWRITE_follows (g := { g with srv := srv }) hsound hcodes (hfound h) h
      (fun hnum s hrel => ?_) buf
    exact (hok hnum { s with srv := g.srv } (releaseBuffered_withServer hrel g.srv)).withServer
      s.srv

end Write

/-- The replies to `READ` and `WRITE` in a handler whose buffers are accounted for. -/
theorem transfers_reply_iff {g : Global} (hsound : Clusters BlockTables g.pool g.gFH)
    (hlong : ∀ efh ∈ g.gFH, IsLong efh.efhFilePos) :
    (∀ (id num : Int) (buf : Nat → UInt8) (ans : ReadAnswer), Codes g.srv → ans ≠ .failed 0 →
      ((∃ buf' g', actREAD g id buf num ans = .ok (buf', g') ∧
        Replies g g' id (ReadStored g id num ans buf buf')) ↔ Readable g id num)) ∧
    ∀ (id num : Int) (buf : Nat → UInt8),
      (∀ srv, Codes srv → ∃ g', actWRITE { g with srv := srv } id buf num = .ok g' ∧
        Replies { g with srv := srv } g' id (WriteStored { g with srv := srv } id num buf g')) ↔
        Writable g id num :=
  ⟨fun _ _ _ _ hcodes hans => actREAD_replies_iff hsound.pool hcodes hans,
    fun _ _ _ => actWRITE_replies_iff hsound hlong⟩

/-- A file open for reading and writing. -/
def exOpened : List Action := [.openFile MODE_READWRITE 10 0 1 false true]

theorem transfers_reply_iff_exOpened :
    ∃ g, run stepRun (gInit exGlobal 1 16 1 true) exOpened = .ok g ∧
      ∀ srv, Codes srv → ∃ g', actWRITE { g with srv := srv } 1 (fun _ => 7) 3 = .ok g' ∧
        Replies { g with srv := srv } g' 1
          (WriteStored { g with srv := srv } 1 3 (fun _ => 7) g') := by
  have hends : (run stepRun (gInit exGlobal 1 16 1 true) exOpened).toOption.map (fun g =>
      (decide (∀ efh ∈ g.gFH, IsLong efh.efhFilePos), (fhLookup g.gFH 1).map fun efh =>
        (efh.efhRes2, efh.efhMode, efh.efhWBuf.isNone))) =
      some (true, some (0, MODE_READWRITE, true)) := by
    decide +kernel
  cases hrun : run stepRun (gInit exGlobal 1 16 1 true) exOpened with
  | error f => rw [hrun] at hends; cases hends
  | ok g =>
      rw [hrun] at hends
      simp only [Except.toOption, Option.map_some, Option.some.injEq, Prod.mk.injEq,
        Option.map_eq_some_iff, decide_eq_true_eq] at hends
      obtain ⟨hlong, efh, hlook, hres, hmode, hnone⟩ := hends
      have hsound := (clusters_run blockTables_ofHeaders plain_writeKeeps (by decide) 1 16 1 true
        (by decide +kernel) hrun).1
      refine ⟨g, rfl, ((transfers_reply_iff hsound hlong).2 1 3 fun _ => 7).mpr
        ⟨efh, ⟨hlook, hres, by rw [hmode]; decide⟩, fun _ s hrel wbc hwbuf => ?_⟩⟩
      have hmoved := (releaseBuffered_moved hrel).1
      rw [hmoved.wbuf, show (g.state efh).efh.efhWBuf = none from
        Option.isNone_iff_eq_none.mp hnone] at hwbuf
      cases hwbuf

/-- The error of a flush by the timer is the reply to the next write, as a success of no bytes;
so is the error for a handle that does not exist. -/
theorem waiting_error_reply :
    ∃ g₁ g₂ g₃, run stepRun (gInit exFull 1 16 1 true) (exCached ++ [.timer]) = .ok g₁ ∧
      step g₁ (.write 1 (fun _ => 8) 3) = .ok g₂ ∧ (g₂.gRes1, g₂.gRes2) = (0, 221) ∧
      ¬ Replies g₁ g₂ 1 (WriteStored g₁ 1 3 (fun _ => 8) g₂) ∧
      step g₂ (.write 7 (fun _ => 8) 3) = .ok g₃ ∧
        (g₃.gRes1, g₃.gRes2) = (0, errorFileNotObject) := by
  have hends : (run stepRun (gInit exFull 1 16 1 true) (exCached ++ [.timer])).toOption.map
      (fun g₁ => (step g₁ (.write 1 (fun _ => 8) 3)).toOption.map fun g₂ =>
        (g₂.gRes1, g₂.gRes2, (step g₂ (.write 7 (fun _ => 8) 3)).toOption.map fun g₃ =>
          (g₃.gRes1, g₃.gRes2))) = some (some (0, 221, some (0, errorFileNotObject))) := by
    decide +kernel
  cases hrun : run stepRun (gInit exFull 1 16 1 true) (exCached ++ [.timer]) with
  | error f => rw [hrun] at hends; cases hends
  | ok g₁ =>
      rw [hrun] at hends
      cases hstep : step g₁ (.write 1 (fun _ => 8) 3) with
      | error f => simp [hstep, Except.toOption] at hends
      | ok g₂ =>
          cases hlast : step g₂ (.write 7 (fun _ => 8) 3) with
          | error f => simp [hstep, hlast, Except.toOption] at hends
          | ok g₃ =>
              simp [hstep, hlast, Except.toOption] at hends
              obtain ⟨h1, h2, h3, h4⟩ := hends
              refine ⟨g₁, g₂, g₃, rfl, hstep, by rw [h1, h2], ?_, hlast, by rw [h3, h4]⟩
              rintro ⟨⟨n, -, hzero, -⟩ | ⟨hfail, -⟩, -⟩
              · rw [h2] at hzero
                cases hzero
              · rw [h1] at hfail
                cases hfail

end Anfs.File
