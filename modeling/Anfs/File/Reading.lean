import Anfs.File.Coherent
import Anfs.File.Reports

/-!
# Several open files on one file

`Reading` says of all open files on one file that their buffers hold nothing else than the
server's file. Reads keep it; a write or a new size keeps it if it changes no byte that some
buffer holds, since only the buffer of the handle that writes is given up.
-/
namespace Anfs.File
open Anfs.Lib Anfs.Nfs Anfs.Buf

structure Reading (g : Global) (fh : Fh) : Prop where
  inv : PoolInv g.pool g.gFH
  ids : OwnIds g
  size : (g.srv.file fh).size < 4294967296
  files : ∀ o ∈ g.gFH, o.efhNFSFh = fh → Coherent g.pool (g.srv.file fh) o

/-- The actions on the open files of one file, which are opened to be read or updated. -/
def OnFile (fh : Fh) (g : Global) : Action → Prop
  | .openFile mode _ fh' _ _ _ => fh' = fh ∧ (mode = MODE_OLDFILE ∨ mode = MODE_READWRITE)
  | .read id _ _ _ => ∀ efh ∈ fhLookup g.gFH id, efh.efhNFSFh = fh
  | .write id _ _ => ∀ efh ∈ fhLookup g.gFH id, efh.efhNFSFh = fh
  | .seek id offset _ => IsLong offset ∧ ∀ efh ∈ fhLookup g.gFH id, efh.efhNFSFh = fh
  | .setFileSize id offset _ _ _ => IsLong offset ∧ ∀ efh ∈ fhLookup g.gFH id, efh.efhNFSFh = fh
  | .endFile id => ∀ efh ∈ fhLookup g.gFH id, efh.efhNFSFh = fh
  | .flush => True
  | .timer => True
  | _ => False

instance (fh : Fh) (g : Global) (a : Action) : Decidable (OnFile fh g a) :=
  match a with
  | .openFile .. | .seek .. | .setFileSize .. => instDecidableAnd
  | .read .. | .write .. | .endFile _ => Option.decidableForallMem _
  | .flush | .timer => instDecidableTrue
  | .updateAuth _ | .moreCache .. => instDecidableFalse

def SizeAnswer.served : SizeAnswer → Bool
  | .done _ => true
  | .failed _ => false

theorem served_write {ans : WriteAnswer} (h : WriteAnswer.served ans) :
    ∃ fileLen, ans = .done fileLen := by
  cases ans with
  | done fileLen => exact ⟨fileLen, rfl⟩
  | failed res2 executed => cases h

theorem served_size {ans : SizeAnswer} (h : ans.served) : ∃ size, ans = .done size := by
  cases ans with
  | done size => exact ⟨size, rfl⟩
  | failed res2 => cases h

/-- The server executes a write or a new size, and a file does not outgrow its offsets. -/
def Answered (g : Global) : Action → Prop
  | .write id _ num => 0 < num → ∀ efh ∈ fhLookup g.gFH id,
      WriteAnswer.served (g.srv.answers g.srv.answered) ∧
        upos efh.efhFilePos + num.toNat < 4294967296
  | .setFileSize id offset mode _ ans => ∀ efh ∈ fhLookup g.gFH id, 0 ≤ newSize efh offset mode →
      ans.served
  | _ => True

instance (g : Global) (a : Action) : Decidable (Answered g a) :=
  match a with
  | .write .. => forall_prop_decidable ..
  | .setFileSize .. => Option.decidableForallMem _
  | .openFile .. | .read .. | .seek .. | .flush | .timer | .updateAuth _ | .moreCache ..
  | .endFile _ => instDecidableTrue

/-- What a read gets is what `nfs_MRead` gets from a server that answers. -/
def ReadAnswered (fh : Fh) (g : Global) : Action → Prop
  | .read id _ num ans => 0 < num → ∀ efh ∈ fhLookup g.gFH id, ∃ maxReadSize short,
      0 < maxReadSize ∧ nfsMRead maxReadSize (serveRead (g.srv.file fh) short)
        (UInt32.ofInt (rbRequest (g.state efh) num).1)
        (rbRequest (g.state efh) num).2.toNat = .ok ans
  | _ => True

/-- The bytes in the read buffer of an open file are what `file` has in their place. -/
def BufferedIn (file : SrvFile) (bytes : Nat → UInt8) (efh : EFH) : Prop :=
  ∀ rbh ∈ efh.efhRBuf, rbh.rbhData.isSome → ∀ i < rbh.rbhDataLen.toNat,
    file.bytes (upos rbh.rbhFileOffs + i) = bytes (upos rbh.rbhFileOffs + i)

instance (file : SrvFile) (bytes : Nat → UInt8) (efh : EFH) :
    Decidable (BufferedIn file bytes efh) := by
  unfold BufferedIn; infer_instance

/-- The read buffer of an open file reaches no further than `n`. -/
def BufferedBefore (n : Nat) (efh : EFH) : Prop :=
  ∀ rbh ∈ efh.efhRBuf, rbh.rbhData.isSome → upos rbh.rbhFileOffs + rbh.rbhDataLen.toNat ≤ n

instance (n : Nat) (efh : EFH) : Decidable (BufferedBefore n efh) := by
  unfold BufferedBefore; infer_instance

/-- The condition on an action. A read that stands at the length its handle has recorded
stands at the end of the file, and a small read has a buffer header; a write changes no byte
in the read buffer of another handle; a new size cuts off no byte in a read buffer. -/
def KeepsRead (fh : Fh) (g : Global) : Action → Prop
  | .read id _ num _ => ∀ efh ∈ fhLookup g.gFH id,
      (efh.efhFileLen ≠ 0 → efh.efhFileLen = efh.efhFilePos →
        (g.srv.file fh).size ≤ upos efh.efhFilePos) ∧
      (num ≤ RBUFFERLIMIT → efh.efhFilePos ≠ 0 → efh.efhRBuf ≠ none)
  | .write id buf num => 0 < num → ∀ efh ∈ fhLookup g.gFH id, ∀ o ∈ g.gFH,
      o.efhId ≠ id → o.efhNFSFh = fh →
        BufferedIn ((g.srv.file fh).write (UInt32.ofInt efh.efhFilePos, block buf num.toNat))
          (g.srv.file fh).bytes o
  | .setFileSize id offset mode numLocks _ => numLocks ≤ 1 → ∀ efh ∈ fhLookup g.gFH id,
      0 ≤ newSize efh offset mode → ∀ o ∈ g.gFH, o.efhNFSFh = fh →
        BufferedBefore (newSize efh offset mode).toNat o
  | _ => True

instance (fh : Fh) (g : Global) (a : Action) : Decidable (KeepsRead fh g a) :=
  match a with
  | .read .. => Option.decidableForallMem _
  | .write .. | .setFileSize .. => forall_prop_decidable ..
  | .openFile .. | .seek .. | .flush | .timer | .updateAuth _ | .moreCache .. | .endFile _ =>
      instDecidableTrue

/-- A read stores the bytes of the file, returns their number and goes on behind them. -/
def ReadsExactly (fh : Fh) (g : Global) (id : Int) (buf : Nat → UInt8) (num : Int)
    (ans : ReadAnswer) : Prop :=
  ∀ efh ∈ fhLookup g.gFH id, ∃ buf' g' efh', actREAD g id buf num ans = .ok (buf', g') ∧
    fhLookup g'.gFH id = some efh' ∧ g'.srv = g.srv ∧
    Exactly (g.srv.file fh) efh efh' buf buf' num g'.gRes1

section Frame
variable {g g' : Pool} {file file' : SrvFile} {pre post : List EFH} {efh o : EFH}

theorem Coherent.congr (h : Coherent g file o) (hmem : ∀ b ∈ rbufData o, g'.mem b = g.mem b)
    (hwithin : BufferedBefore file'.size o) (hbytes : BufferedIn file' file.bytes o) :
    Coherent g' file' o := by
  refine ⟨h.toPlain, fun rbh rbn hr hd => ?_⟩
  have hold := h.holds rbh rbn hr hd
  have hdata : rbn ∈ rbufData o := by simp [rbufData, hr, hd]
  have hsome : rbh.rbhData.isSome := by simp [hd]
  refine ⟨hold.offs, hold.len, hwithin rbh hr hsome, fun i hi => ?_⟩
  rw [hmem rbn hdata, hold.bytes i hi, hbytes rbh hr hsome i hi]

theorem Coherent.before (h : Coherent g file o) {n : Nat} (hn : file.size ≤ n) :
    BufferedBefore n o := by
  intro rbh hr hd
  obtain ⟨rbn, hd⟩ := Option.isSome_iff_exists.mp hd
  have := (h.holds rbh rbn hr hd).within
  omega

/-- The same file, the same bytes in the buffers. -/
theorem Coherent.mem_congr (h : Coherent g file o) (hmem : ∀ b ∈ rbufData o, g'.mem b = g.mem b) :
    Coherent g' file o :=
  h.congr hmem (h.before (Nat.le_refl _)) fun _ _ _ _ _ => rfl

/-- A new size that cuts off no byte of the buffer. -/
theorem Coherent.cut (h : Coherent g file o) {n : Nat} (hn : BufferedBefore n o) :
    Coherent g (setSize file n) o := by
  refine h.congr (fun _ _ => rfl) hn fun rbh hr hd i hi => ?_
  have := hn rbh hr hd
  exact if_pos (show upos rbh.rbhFileOffs + i < n by omega)

/-- The read buffer of another open file is neither that of this one nor free. -/
theorem PoolInv.rbufData_free (h : PoolInv g (pre ++ efh :: post)) (ho : o ∈ pre ++ post) :
    ∀ b ∈ rbufData o, b ∉ (rbufData efh).toList ++ g.gFreeMBufs := by
  intro b hb hmem
  have hcount := List.nodup_iff_count_le_one.mp h.mnodup b
  rw [allMBufs, filterMap_rbufData] at hcount
  simp only [List.count_append] at hcount
  have hthis : 0 < (rbufData efh).toList.count b + g.gFreeMBufs.count b := by
    rw [← List.count_append]
    exact List.count_pos_iff.mpr hmem
  have hother : 0 < (pre.filterMap rbufData).count b + (post.filterMap rbufData).count b := by
    rw [← List.count_append, ← List.filterMap_append]
    exact List.count_pos_iff.mpr (List.mem_filterMap.mpr ⟨o, ho, hb⟩)
  omega

/-- The read buffer of an open file holds no data of a write cache, and is not free. -/
theorem PoolInv.rbufData_chain (h : PoolInv g (pre ++ efh :: post)) (ho : o ∈ pre ++ efh :: post) :
    ∀ b ∈ rbufData o, b ∉ (chainOf g efh ++ []).map g.data ++ g.gFreeMBufs := by
  intro b hb hmem
  have hcount := List.nodup_iff_count_le_one.mp
    ((allMBufs_split g pre post efh).nodup_iff.mp h.mnodup) b
  simp only [List.append_nil, List.count_append] at hcount hmem
  have hthis := List.count_pos_iff.mpr hmem
  have hother : 0 < ((pre ++ efh :: post).filterMap rbufData).count b :=
    List.count_pos_iff.mpr (List.mem_filterMap.mpr ⟨o, ho, hb⟩)
  simp only [List.count_append] at hthis
  omega

end Frame

section Steps
variable {g g' : Global} {fh : Fh} {id : Int} {pre post : List EFH} {efh o : EFH}

/-- After an action on one open file of the file. -/
theorem Reading.stored (h : Reading g fh) (hg : g.gFH = pre ++ efh :: post)
    (hinv : PoolInv g'.pool g'.gFH) (hids : OwnIds g')
    (hsize : (g'.srv.file fh).size < 4294967296) {efh' : EFH}
    (hg' : g'.gFH = pre ++ efh' :: post)
    (hself : efh'.efhNFSFh = fh → Coherent g'.pool (g'.srv.file fh) efh')
    (hother : ∀ o ∈ pre ++ post, o.efhNFSFh = fh → Coherent g.pool (g.srv.file fh) o →
      Coherent g'.pool (g'.srv.file fh) o) : Reading g' fh := by
  refine ⟨hinv, hids, hsize, fun o ho hon => ?_⟩
  rw [hg'] at ho
  have hcases : o = efh' ∨ o ∈ pre ++ post := by
    simp only [List.mem_append, List.mem_cons] at ho ⊢
    tauto
  rcases hcases with rfl | ho
  · exact hself hon
  · refine hother o ho hon (h.files o ?_ hon)
    rw [hg]
    simp only [List.mem_append, List.mem_cons] at ho ⊢
    tauto

/-- The other open files have other handles. -/
theorem OwnIds.other (h : OwnIds g) (hg : g.gFH = pre ++ efh :: post) (ho : o ∈ pre ++ post) :
    o.efhId ≠ efh.efhId := by
  have hnd := h.nodup
  rw [hg] at hnd
  simp only [List.map_append, List.map_cons, List.nodup_middle, List.nodup_cons] at hnd
  intro heq
  refine hnd.1 ?_
  rw [← List.map_append]
  exact List.mem_map.mpr ⟨o, ho, heq⟩

theorem Plain.flushBuffered {s : FState} (h : Plain s.efh) :
    flushBuffered s = .ok (none, s) := by
  unfold Buf.flushBuffered hasBufferedWData
  simp [h.wbuf]

theorem store_split {s : FState} (hlook : fhLookup g.gFH id = some efh)
    (hg : g.gFH = pre ++ efh :: post) (hpre : ∀ o ∈ pre, o.efhId ≠ id)
    (hid : s.efh.efhId = efh.efhId) :
    (g.store s).gFH = pre ++ s.efh :: post ∧ fhLookup (g.store s).gFH id = some s.efh := by
  have hefh : efh.efhId = id := (fhLookup_split hlook).1
  have hstore : (g.store s).gFH = pre ++ s.efh :: post := by
    unfold Global.store
    rw [hg]
    exact storeFh_split (by rw [hid, hefh]; exact hpre) hid.symm
  rw [hstore]
  exact ⟨rfl, fhLookup_append (hid.trans hefh) hpre⟩

theorem Plain.actREAD_end (h : Plain efh) (hlook : fhLookup g.gFH id = some efh)
    {buf : Nat → UInt8} {num : Int} {ans : ReadAnswer} (hnum : 0 < num)
    (hend : efh.efhFileLen ≠ 0 ∧ efh.efhFileLen = efh.efhFilePos) :
    actREAD g id buf num ans = .ok (buf, (g.store (g.state efh)).setRes 0 0) := by
  have hflush : Buf.flushBuffered (g.state efh) = .ok (none, g.state efh) := h.flushBuffered
  have hneg : ¬ num < 0 := by omega
  unfold actREAD
  rw [hlook]
  simp only [h.res2, not_true_eq_false, if_false, h.mode, hflush, bind, Except.bind, hneg, ne_eq]
  exact if_pos (.inr hend)

theorem Plain.actREAD_readBuf (h : Plain efh) (hlook : fhLookup g.gFH id = some efh)
    {buf buf' : Nat → UInt8} {num n : Int} {ans : ReadAnswer} {s : FState} (hnum : 0 < num)
    (hend : ¬ (efh.efhFileLen ≠ 0 ∧ efh.efhFileLen = efh.efhFilePos))
    (hrb : rbReadBuf (g.state efh) buf num ans = .ok (.done n, buf', s)) :
    actREAD g id buf num ans = .ok (buf', (g.store s).setRes n 0) := by
  have hflush : Buf.flushBuffered (g.state efh) = .ok (none, g.state efh) := h.flushBuffered
  have hneg : ¬ num < 0 := by omega
  have hgo : ¬ (num = 0 ∨ efh.efhFileLen ≠ 0 ∧ efh.efhFileLen = efh.efhFilePos) := by
    rintro (h0 | h0)
    · omega
    · exact hend h0
  unfold actREAD
  rw [hlook]
  simp only [h.res2, not_true_eq_false, if_false, h.mode, hflush, bind, Except.bind, hneg, ne_eq]
  exact (if_neg hgo).trans (by simp only [hrb])

/-- A read, which is exact. -/
theorem reading_read (h : Reading g fh) {buf : Nat → UInt8} {num : Int} {ans : ReadAnswer}
    (hlook : fhLookup g.gFH id = some efh) (hfh : efh.efhNFSFh = fh) (hnum : 0 < num)
    (hans : ReadAnswered fh g (.read id buf num ans))
    (hok : KeepsRead fh g (.read id buf num ans)) :
    ∃ buf' g' efh', actREAD g id buf num ans = .ok (buf', g') ∧ fhLookup g'.gFH id = some efh' ∧
      g'.srv = g.srv ∧ Exactly (g.srv.file fh) efh efh' buf buf' num g'.gRes1 ∧ Reading g' fh := by
  obtain ⟨hid, pre, post, hg, hpre⟩ := fhLookup_split hlook
  have hmem : efh ∈ g.gFH := by rw [hg]; simp
  have hcoh := h.files efh hmem hfh
  obtain ⟨hend, hrbuf⟩ : (efh.efhFileLen ≠ 0 → efh.efhFileLen = efh.efhFilePos →
      (g.srv.file fh).size ≤ upos efh.efhFilePos) ∧
      (num ≤ RBUFFERLIMIT → efh.efhFilePos ≠ 0 → efh.efhRBuf ≠ none) := hok efh hlook
  have hinv₀ : PoolInv g.pool (pre ++ efh :: post) := hg ▸ h.inv
  have hread : ∀ n buf' s', actREAD g id buf num ans = .ok (buf', (g.store s').setRes n 0) →
      s'.efh.efhId = efh.efhId → s'.srv = g.srv →
      ReadEnds (g.srv.file fh) (g.state efh) buf num n buf' s' →
      ∃ buf' g' efh', actREAD g id buf num ans = .ok (buf', g') ∧ fhLookup g'.gFH id = some efh' ∧
        g'.srv = g.srv ∧ Exactly (g.srv.file fh) efh efh' buf buf' num g'.gRes1 ∧
          Reading g' fh := by
    intro n buf' s' hrun hsid hsrv hends
    obtain ⟨hstore, hlook'⟩ := store_split hlook hg hpre hsid
    refine ⟨buf', _, s'.efh, hrun, hlook', hsrv, hends.exact, ?_⟩
    have hfile : ((g.store s').setRes n 0).srv.file fh = g.srv.file fh := congrArg (·.file fh) hsrv
    refine h.stored hg (h.inv.touches (actREAD_touches hrun)) ((actREAD_ids hrun).ownIds h.ids)
      (by rw [hfile]; exact h.size) hstore (fun _ => by rw [hfile]; exact hends.coherent)
      fun o ho _ hold => ?_
    rw [hfile]
    exact hold.mem_congr fun b hb => hends.mem b (hinv₀.rbufData_free ho b hb)
  by_cases hshort : efh.efhFileLen ≠ 0 ∧ efh.efhFileLen = efh.efhFilePos
  · have hsize := hend hshort.1 hshort.2
    have hexact : Exactly (g.srv.file fh) efh efh buf buf num 0 := by
      refine ⟨by omega, fun i => ?_, ?_⟩
      · rw [if_neg (show ¬ i < min num.toNat _ by omega)]
      · rw [Int.add_zero]
        exact (long_of_isLong hcoh.pos).symm
    exact hread 0 buf (g.state efh) (hcoh.toPlain.actREAD_end hlook hnum hshort) rfl rfl
      ⟨hexact, hcoh, fun _ _ => rfl⟩
  · obtain ⟨maxReadSize, short, hmax, hrun⟩ := hans hnum efh hlook
    obtain ⟨ans', hrun', hserved⟩ := nfsMRead_served hmax h.size short
      (UInt32.ofInt (rbRequest (g.state efh) num).1) (rbRequest_pos hnum)
    rw [hrun] at hrun'
    cases hrun'
    rw [ofInt_toNat] at hserved
    obtain ⟨n, buf', s', hrb, hends⟩ := rbReadBuf_exact (s := g.state efh) hcoh
      h.inv.numFreeM h.size hnum hrbuf hserved
    have hmoved := rbReadBuf_moved hrb
    exact hread n buf' s' (hcoh.toPlain.actREAD_readBuf hlook hnum hshort hrb) hmoved.id hmoved.srv
      hends

theorem Reading.setRes (h : Reading g fh) (res1 res2 : Int) : Reading (g.setRes res1 res2) fh :=
  ⟨h.inv, ⟨h.ids.nodup, h.ids.last⟩, h.size, h.files⟩

/-- Storing an open file as it was. -/
theorem store_self (hlook : fhLookup g.gFH id = some efh) : g.store (g.state efh) = g := by
  obtain ⟨hid, pre, post, hg, hpre⟩ := fhLookup_split hlook
  have hstore : storeFh efh g.gFH = g.gFH := by
    rw [hg]
    exact storeFh_split (by rw [hid]; exact hpre) rfl
  unfold Global.store Global.state
  simp only [hstore]

theorem reading_read_none (h : Reading g fh) (buf : Nat → UInt8) {num : Int} (ans : ReadAnswer)
    (hon : ∀ efh ∈ fhLookup g.gFH id, efh.efhNFSFh = fh) (hnum : num ≤ 0) :
    ∃ buf' g', actREAD g id buf num ans = .ok (buf', g') ∧ Reading g' fh := by
  unfold actREAD
  cases hlook : fhLookup g.gFH id with
  | none => exact ⟨buf, _, rfl, h.setRes _ _⟩
  | some efh =>
      have hmem : efh ∈ g.gFH := List.mem_of_find?_eq_some hlook
      have hcoh := h.files efh hmem (hon efh hlook)
      have hflush : flushBuffered (g.state efh) = .ok (none, g.state efh) := hcoh.flushBuffered
      simp only [hcoh.res2, not_true_eq_false, if_false, hcoh.mode, hflush, bind,
        Except.bind, ne_eq,
        store_self hlook]
      by_cases hneg : num < 0
      · rw [if_pos hneg]
        exact ⟨buf, _, rfl, h.setRes _ _⟩
      · rw [if_neg hneg]
        split
        · exact ⟨buf, _, rfl, h.setRes _ _⟩
        · rename_i hgo
          exact absurd (.inl (by omega)) hgo

theorem Plain.empty_coherent {p : Pool} {file : SrvFile} (h : Plain efh)
    (hr : rbufData efh = none) :
    Coherent p file efh := by
  refine ⟨h, fun rbh rbn hrbh hdata => ?_⟩
  simp [rbufData, hrbh, hdata] at hr

/-- A file without a write cache is written directly. -/
theorem Plain.wcWriteCache {s : FState} (h : Plain s.efh) {fileLen : Int}
    (hans : s.srv.answers s.srv.answered = .done fileLen) (buf : Nat → UInt8) (num : Int) :
    ∃ s', wcWriteCache s buf num = .ok (.done num, s') ∧ s'.pool = s.pool ∧
      s'.efh = { s.efh with efhFileLen := fileLen } ∧ s'.srv.file s.efh.efhNFSFh =
        (s.srv.file s.efh.efhNFSFh).write (UInt32.ofInt s.efh.efhFilePos, block buf num.toNat) := by
  obtain ⟨srv, hwrite⟩ : ∃ srv, nfsWrite s.srv s.efh.efhNFSFh s.efh.efhFilePos buf num =
      (.ok fileLen, srv) := by
    unfold nfsWrite
    rw [hans]
    exact ⟨_, rfl⟩
  refine ⟨{ s with srv := srv, efh := { s.efh with efhFileLen := fileLen } }, ?_, rfl, rfl,
    nfsWrite_ok hwrite⟩
  unfold Buf.wcWriteCache flushCacheAndWrite
  simp only [h.wbuf, h.flushBuffered, hwrite, bind, Except.bind]

theorem Plain.actWRITE_some (h : Plain efh) (hlook : fhLookup g.gFH id = some efh)
    {buf : Nat → UInt8} {num n : Int} {s s' : FState} (hnum : 0 < num)
    (hrel : releaseBuffered (g.state efh) = .ok s)
    (hrun : Buf.wcWriteCache s buf num = .ok (.done n, s')) :
    actWRITE g id buf num =
      .ok ((g.store (s'.setFilePos (long (s'.efh.efhFilePos + n)))).setRes n 0) := by
  have hmode : efh.efhMode = MODE_OLDFILE ∨ efh.efhMode = MODE_READWRITE ∨
    efh.efhMode = MODE_NEWFILE :=
    h.mode.imp_right .inl
  unfold actWRITE
  rw [hlook]
  simp only [h.res2, not_true_eq_false, if_false, hmode, hrel, bind, Except.bind,
    ne_eq, hnum, if_true,
    hrun]

theorem Plain.actWRITE_none (h : Plain efh) (hlook : fhLookup g.gFH id = some efh)
    {buf : Nat → UInt8} {num : Int} {s : FState} (hnum : ¬ 0 < num)
    (hrel : releaseBuffered (g.state efh) = .ok s) (hs : Plain s.efh) :
    actWRITE g id buf num = .ok ((g.store s).setRes 0 0) := by
  have hmode : efh.efhMode = MODE_OLDFILE ∨ efh.efhMode = MODE_READWRITE ∨
    efh.efhMode = MODE_NEWFILE :=
    h.mode.imp_right .inl
  unfold actWRITE
  rw [hlook]
  simp only [h.res2, not_true_eq_false, if_false, hmode, hrel, bind, Except.bind, ne_eq, hnum,
    hs.flushBuffered]

theorem mem_writeCall {x : FState × (Nat → UInt8) × Int} {buf : Nat → UInt8} {num : Int}
    (h : x ∈ writeCall g (.write id buf num)) :
    ∃ efh s, fhLookup g.gFH id = some efh ∧ releaseBuffered (g.state efh) = .ok s ∧
      x = (s, buf, num) := by
  unfold writeCall at h
  cases hlook : fhLookup g.gFH id with
  | none => simp [hlook] at h
  | some efh =>
      simp only [hlook] at h
      split at h
      · simp at h
      · cases hrel : releaseBuffered (g.state efh) with
        | error f => simp [hrel] at h
        | ok s =>
            simp only [hrel, Option.mem_def, Option.some.injEq] at h
            exact ⟨efh, s, rfl, hrel, h.symm⟩

theorem reading_write (h : Reading g fh) {buf : Nat → UInt8} {num : Int}
    (hon : ∀ efh ∈ fhLookup g.gFH id, efh.efhNFSFh = fh)
    (hans : Answered g (.write id buf num)) (hok : KeepsRead fh g (.write id buf num)) :
    ∃ g', actWRITE g id buf num = .ok g' ∧ Reading g' fh := by
  cases hlook : fhLookup g.gFH id with
  | none =>
      unfold actWRITE
      rw [hlook]
      exact ⟨_, rfl, h.setRes _ _⟩
  | some efh =>
      obtain ⟨hid, pre, post, hg, hpre⟩ := fhLookup_split hlook
      have hmem : efh ∈ g.gFH := by rw [hg]; simp
      have hfh := hon efh hlook
      have hcoh := h.files efh hmem hfh
      obtain ⟨s, hrel⟩ := releaseBuffered_total (g.state efh)
      obtain ⟨hcoh', hpool, hpos, -⟩ := Coherent.released (s := g.state efh) hcoh hrel
      obtain ⟨hmoved, hempty⟩ := releaseBuffered_moved hrel
      have hinv₀ : PoolInv g.pool (pre ++ efh :: post) := hg ▸ h.inv
      have hroomy : ∀ x ∈ writeCall g (.write id buf num), RoomyWrite x.1 x.2.1 x.2.2 := by
        intro x hx
        obtain ⟨e, s₁, hlook₁, hrel₁, rfl⟩ := mem_writeCall hx
        obtain rfl : efh = e := Option.some.inj (hlook.symm.trans hlook₁)
        obtain rfl : s = s₁ := Except.ok.inj (hrel.symm.trans hrel₁)
        unfold RoomyWrite writeEntries
        simp [hcoh'.wbuf]
      have hactions : ∀ g', actWRITE g id buf num = .ok g' → PoolInv g'.pool g'.gFH ∧ OwnIds g' :=
        fun g' hrun => ⟨h.inv.touches (actWRITE_touches hroomy hrun),
          (actWRITE_ids hrun).ownIds h.ids⟩
      by_cases h0 : 0 < num
      · obtain ⟨hserved, hrange⟩ := hans h0 efh hlook
        obtain ⟨fileLen, hserved⟩ := served_write hserved
        obtain ⟨s', hrun, hpool', hefh, hfile⟩ :=
          hcoh'.wcWriteCache (show s.srv.answers s.srv.answered = .done fileLen by
            rw [hmoved.srv]; exact hserved) buf num
        have hact := hcoh.toPlain.actWRITE_some hlook h0 hrel hrun
        obtain ⟨hinv, hids⟩ := hactions _ hact
        rw [hmoved.fh, show (g.state efh).efh.efhNFSFh = fh from hfh, hmoved.srv, hpos] at hfile
        have hsid : (s'.setFilePos (long (s'.efh.efhFilePos + num))).efh.efhId = efh.efhId := by
          simp only [FState.setFilePos, hefh]
          exact hmoved.id
        refine ⟨_, hact, h.stored hg hinv hids ?_ (store_split hlook hg hpre hsid).1 (fun _ => ?_)
          fun o ho hofh hold => ?_⟩
        · show (s'.srv.file fh).size < 4294967296
          rw [hfile]
          exact max_lt h.size (by
            rw [keyEnd, ofInt_toNat, block, List.length_map, List.length_range]
            exact hrange)
        · refine Plain.empty_coherent ?_ ?_
          · simp only [FState.setFilePos, hefh]
            exact hcoh'.toPlain.moved (isLong_long _) _
          · simp only [FState.setFilePos, hefh]
            exact hempty
        · show Coherent s'.pool (s'.srv.file fh) o
          rw [hfile, hpool']
          refine hold.congr (fun b _ => by rw [hpool]; rfl) (hold.before (Nat.le_max_left _ _)) ?_
          have homem : o ∈ g.gFH := by
            rw [hg]
            simp only [List.mem_append, List.mem_cons] at ho ⊢
            tauto
          exact hok h0 efh hlook o homem (hid ▸ h.ids.other hg ho) hofh
      · have hact : actWRITE g id buf num = .ok ((g.store s).setRes 0 0) :=
          hcoh.toPlain.actWRITE_none hlook h0 hrel hcoh'.toPlain
        obtain ⟨hinv, hids⟩ := hactions _ hact
        have hfile : ((g.store s).setRes 0 0).srv.file fh = g.srv.file fh :=
          congrArg (·.file fh) hmoved.srv
        refine ⟨_, hact, h.stored hg hinv hids (by rw [hfile]; exact h.size)
          (store_split hlook hg hpre hmoved.id).1 (fun _ => hcoh'.toPlain.empty_coherent hempty)
          fun o ho _ hold => ?_⟩
        rw [hfile]
        exact hold.mem_congr fun b _ => congrFun hpool b

theorem reading_seek (h : Reading g fh) {offset : Int} (mode : Int) (hoffs : IsLong offset)
    (hon : ∀ efh ∈ fhLookup g.gFH id, efh.efhNFSFh = fh) :
    Reading (actSEEK g id offset mode) fh := by
  have hinv : PoolInv (actSEEK g id offset mode).pool (actSEEK g id offset mode).gFH :=
    h.inv.touches (actSEEK_touches offset mode)
  have hids := (actSEEK_ids g id offset mode).ownIds h.ids
  revert hinv hids
  unfold actSEEK
  cases hlook : fhLookup g.gFH id with
  | none => exact fun _ _ => h.setRes _ _
  | some efh =>
      simp only
      split
      · intro hinv hids
        obtain ⟨hid, pre, post, hg, hpre⟩ := fhLookup_split hlook
        refine h.stored hg hinv hids h.size (store_split hlook hg hpre rfl).1 (fun hfh => ?_)
          fun o _ _ hold => hold
        have hmem : efh ∈ g.gFH := by rw [hg]; simp
        refine (h.files efh hmem (hon efh hlook)).moved ?_ efh.efhFileLen
        unfold seekPos
        split
        · exact isLong_long _
        · split
          · exact hoffs
          · split
            · exact isLong_long _
            · decide
      · exact fun _ _ => h.setRes _ _

theorem isLong_newSize {offset mode : Int} (hoffs : IsLong offset) :
    IsLong (newSize efh offset mode) := by
  unfold newSize
  split
  · exact hoffs
  · split
    · exact isLong_long _
    · split
      · exact isLong_long _
      · decide

theorem Plain.actSETFILESIZE (h : Plain efh) (hlook : fhLookup g.gFH id = some efh)
    (offset mode : Int) (numLocks : Nat) (ans : SizeAnswer) :
    actSETFILESIZE g id offset mode numLocks ans =
      .ok (if 1 < numLocks then g.setRes (-1) errorObjectInUse
        else doSetSize g (g.state efh) offset mode ans) := by
  have hflush : Buf.flushBuffered (g.state efh) = .ok (none, g.state efh) := h.flushBuffered
  unfold File.actSETFILESIZE
  rw [hlook]
  simp only [hflush, bind, Except.bind, store_self hlook]
  split
  · rfl
  · rfl

theorem reading_setFileSize (h : Reading g fh) {offset mode : Int} {numLocks : Nat}
    {ans : SizeAnswer}
    (hoffs : IsLong offset) (hon : ∀ efh ∈ fhLookup g.gFH id, efh.efhNFSFh = fh)
    (hans : Answered g (.setFileSize id offset mode numLocks ans))
    (hok : KeepsRead fh g (.setFileSize id offset mode numLocks ans)) :
    ∃ g', actSETFILESIZE g id offset mode numLocks ans = .ok g' ∧ Reading g' fh := by
  cases hlook : fhLookup g.gFH id with
  | none =>
      unfold actSETFILESIZE
      rw [hlook]
      exact ⟨_, rfl, h.setRes _ _⟩
  | some efh =>
      obtain ⟨hid, pre, post, hg, hpre⟩ := fhLookup_split hlook
      have hmem : efh ∈ g.gFH := by rw [hg]; simp
      have hfh := hon efh hlook
      have hcoh := h.files efh hmem hfh
      have hact := hcoh.toPlain.actSETFILESIZE hlook offset mode numLocks ans
      refine ⟨_, hact, ?_⟩
      have hinv := h.inv.touches (actSETFILESIZE_touches hact)
      have hids := (actSETFILESIZE_ids hact).ownIds h.ids
      revert hinv hids
      by_cases hlocks : 1 < numLocks
      · rw [if_pos hlocks]
        exact fun _ _ => h.setRes _ _
      · rw [if_neg hlocks]
        unfold doSetSize
        simp only [store_self hlook]
        rw [show (g.state efh).efh = efh from rfl]
        by_cases hreq : newSize efh offset mode = -1
        · rw [if_pos hreq]
          exact fun _ _ => h.setRes _ _
        · rw [if_neg hreq]
          by_cases hneg : newSize efh offset mode < 0
          · rw [if_pos hneg]
            exact fun _ _ => h.setRes _ _
          · rw [if_neg hneg]
            obtain ⟨size, rfl⟩ := served_size (hans efh hlook (by omega))
            simp only
            intro hinv hids
            have hbefore := hok (by omega) efh hlook (by omega)
            have hlong : IsLong (newSize efh offset mode) := isLong_newSize hoffs
            generalize newSize efh offset mode = n at *
            have hpos : IsLong (if size.toNat < ulong efh.efhFilePos then long size.toNat
                else efh.efhFilePos) := by
              split
              · exact isLong_long _
              · exact hcoh.pos
            have hfile :
              (g.srv.setFile efh.efhNFSFh (setSize (g.srv.file efh.efhNFSFh) n.toNat)).file fh =
                setSize (g.srv.file fh) n.toNat := by
              rw [hfh]
              exact setFile_file_self _
            refine h.stored hg hinv hids ?_ (store_split hlook hg hpre rfl).1 (fun _ => ?_)
              fun o ho hofh hold => ?_
            · refine lt_of_eq_of_lt (congrArg SrvFile.size hfile) ?_
              simp only [setSize, IsLong] at hlong ⊢
              omega
            · refine Eq.mpr (congrArg (Coherent _ · _) hfile) ?_
              exact (hcoh.cut (hbefore efh hmem hfh)).moved hpos _
            · refine Eq.mpr (congrArg (Coherent _ · _) hfile) ?_
              refine hold.cut (hbefore o ?_ hofh)
              rw [hg]
              simp only [List.mem_append, List.mem_cons] at ho ⊢
              tauto

theorem reading_endFile (h : Reading g fh) (hon : ∀ efh ∈ fhLookup g.gFH id, efh.efhNFSFh = fh) :
    ∃ g', actEND g id = .ok g' ∧ Reading g' fh := by
  cases hlook : fhLookup g.gFH id with
  | none =>
      unfold actEND
      rw [hlook]
      exact ⟨_, rfl, h.setRes _ _⟩
  | some efh =>
      obtain ⟨hid, pre, post, hg, hpre⟩ := fhLookup_split hlook
      have hmem : efh ∈ g.gFH := by rw [hg]; simp
      have hcoh := h.files efh hmem (hon efh hlook)
      obtain ⟨s, hrel⟩ := releaseBuffered_total (g.state efh)
      obtain ⟨-, hpool, -, -⟩ := Coherent.released (s := g.state efh) hcoh hrel
      have hsrv := (releaseBuffered_moved hrel).1.srv
      have hact : actEND g id = .ok { g.setRes1 DOSTRUE with
          pool := s.pool, srv := s.srv, gFH := fhRemove id g.gFH } := by
        have hflush : flushBuffered (g.state efh) = .ok (none, g.state efh) := hcoh.flushBuffered
        have hres : ({ efh with efhRes2 := 0 } : EFH) = efh := by
          have := hcoh.res2
          cases efh
          simp_all
        unfold actEND
        rw [hlook]
        simp only [hres, hflush, hrel, hcoh.res2, bind, Except.bind]
        rfl
      have hrest : fhRemove id g.gFH = pre ++ post := by
        rw [hg]
        exact fhRemove_split hpre hid
      refine ⟨_, hact, h.inv.touches (actEND_touches hact), (actEND_ids hact).ownIds h.ids, ?_,
        fun o ho hofh => ?_⟩
      · show (s.srv.file fh).size < 4294967296
        rw [hsrv]
        exact h.size
      · show Coherent s.pool (s.srv.file fh) o
        rw [hsrv]
        refine (h.files o ?_ hofh).mem_congr fun b _ => congrFun hpool b
        rw [hrest] at ho
        simp only [hg, List.mem_append, List.mem_cons] at ho ⊢
        tauto

/-- Flushing one file after the other moves no byte that a file without a write cache holds. -/
theorem flushEach_coherent {file : SrvFile} (pre : List EFH) {fhs : List EFH}
    {p : Pool} {srv : Server}
    (res : Int × Int) (hinv : PoolInv p (pre ++ fhs)) (hfile : srv.file fh = file)
    (hall : ∀ o ∈ pre ++ fhs, o.efhNFSFh = fh → Coherent p file o) :
    ∃ fhs' p' srv' res', flushEach fhs p srv res = .ok (fhs', p', srv', res') ∧
      srv'.file fh = file ∧ ∀ o ∈ pre ++ fhs', o.efhNFSFh = fh → Coherent p' file o := by
  induction fhs generalizing pre p srv res with
  | nil => exact ⟨[], p, srv, res, rfl, hfile, hall⟩
  | cons efh rest ih =>
      have hrest : ∀ (efh' : EFH) (p₁ : Pool) (srv₁ : Server) (res₁ : Int × Int),
          PoolInv p₁ (pre ++ efh' :: rest) → srv₁.file fh = file →
          (∀ o ∈ pre ++ efh' :: rest, o.efhNFSFh = fh → Coherent p₁ file o) →
          ∃ fhs' p' srv' res', File.flushEach rest p₁ srv₁ res₁ = .ok (fhs', p', srv', res') ∧
            srv'.file fh = file ∧ ∀ o ∈ pre ++ efh' :: fhs', o.efhNFSFh = fh →
              Coherent p' file o := by
        intro efh' p₁ srv₁ res₁ hinv₁ hfile₁ hall₁
        simpa using ih (pre ++ [efh']) res₁ (by simpa using hinv₁) hfile₁ (by simpa using hall₁)
      unfold flushEach
      by_cases hon : efh.efhNFSFh = fh
      · have hcoh := hall efh (by simp) hon
        obtain ⟨fhs', p', srv', res', hrun, hends⟩ := hrest efh p srv res hinv hfile hall
        have hflush : flushBuffered ⟨p, srv, efh⟩ = .ok (none, ⟨p, srv, efh⟩) := hcoh.flushBuffered
        refine ⟨efh :: fhs', p', srv', res', ?_, hends⟩
        simp only [hflush, bind, Except.bind, hrun]
      · have howns : Owns (FState.mk p srv efh).w _ := hinv.owns srv
        obtain ⟨err, s, hflush, hf, hsame, -⟩ := flushBuffered_spec howns
        have hone : PoolInv s.pool (pre ++ s.efh :: rest) :=
          (Touch.flush (s := ⟨p, srv, efh⟩) hflush : Touch RoomyWrite 0 _ _).poolInv hinv
        have hfile₁ : s.srv.file fh = file := (hf.moved.file fh (Ne.symm hon)).trans hfile
        have hall₁ : ∀ efh' : EFH, efh'.efhNFSFh = efh.efhNFSFh →
            ∀ o ∈ pre ++ efh' :: rest, o.efhNFSFh = fh → Coherent s.pool file o := by
          intro efh' hfh' o ho hofh
          have hmem : o ∈ pre ++ efh :: rest := by
            simp only [List.mem_append, List.mem_cons] at ho ⊢
            rcases ho with ho | rfl | ho
            · exact .inl ho
            · exact absurd (hfh'.symm.trans hofh) hon
            · exact .inr (.inr ho)
          exact (hall o hmem hofh).mem_congr fun b hb =>
            hf.moved.mem b (hinv.rbufData_chain hmem b hb)
        simp only [hflush, bind, Except.bind]
        cases err with
        | none =>
            obtain ⟨fhs', p', srv', res', hrun, hends⟩ := hrest s.efh s.pool s.srv res hone hfile₁
              (hall₁ s.efh hsame.fh)
            exact ⟨s.efh :: fhs', p', srv', res', by simp only [hrun], hends⟩
        | some res2 =>
            have hmark : Touch RoomyWrite 0 (s.pool, pre ++ s.efh :: rest)
                (s.pool, pre ++ { s.efh with efhRes2 := res2 } :: rest) := .fields rfl rfl rfl
            obtain ⟨fhs', p', srv', res', hrun, hends⟩ :=
              hrest { s.efh with efhRes2 := res2 } s.pool
              s.srv (DOSFALSE, res2) (hmark.poolInv hone) hfile₁ (hall₁ _ hsame.fh)
            exact ⟨_ :: fhs', p', srv', res', by simp only [hrun], hends⟩

theorem reading_flush (h : Reading g fh) : ∃ g', actFLUSH g = .ok g' ∧ Reading g' fh := by
  obtain ⟨fhs, p, srv, res, hrun, hfile, hall⟩ :=
    flushEach_coherent [] (g.gRes1, g.gRes2) h.inv rfl h.files
  have hact : actFLUSH g = .ok
      ({ g with pool := p, srv := srv, gFH := fhs, gRes1 := res.1, gRes2 :=
        res.2 }.setRes1 DOSTRUE) := by
    unfold actFLUSH flushAll
    simp only [hrun, bind, Except.bind]
  refine ⟨_, hact, h.inv.touches (actFLUSH_touches hact), (actFLUSH_ids hact).ownIds h.ids, ?_, ?_⟩
  · show (srv.file fh).size < 4294967296
    rw [hfile]
    exact h.size
  · show ∀ o ∈ fhs, o.efhNFSFh = fh → Coherent p (srv.file fh) o
    rw [hfile]
    exact hall

theorem reading_open (h : Reading g fh) {mode : Int}
    (hmode : mode = MODE_OLDFILE ∨ mode = MODE_READWRITE)
    (fileLen key : Int) (wbuf rbuf : Bool) :
    Reading (openFile g mode fileLen fh key wbuf rbuf) fh := by
  refine ⟨h.inv.touches (openFile_touches ..), openFile_ownIds h.ids .., h.size,
    fun o ho hofh => ?_⟩
  rcases List.mem_cons.mp ho with rfl | ho
  · refine Plain.empty_coherent ⟨hmode, ?_, rfl, show IsLong 0 by decide⟩ ?_
    · refine if_neg ?_
      rintro ⟨rfl, -⟩
      revert hmode
      decide
    · cases rbuf <;> rfl
  · exact h.files o ho hofh

theorem reading_step (h : Reading g fh) {a : Action} (hon : OnFile fh g a) (hans : Answered g a)
    (hread : ReadAnswered fh g a) (hok : KeepsRead fh g a) :
    ∃ g', step g a = .ok g' ∧ Reading g' fh := by
  cases a with
  | openFile mode fileLen fh' key wbuf rbuf =>
      obtain ⟨rfl, hmode⟩ := hon
      exact ⟨_, rfl, reading_open h hmode fileLen key wbuf rbuf⟩
  | read id buf num ans =>
      have hnext : ∃ buf' g', actREAD g id buf num ans = .ok (buf', g') ∧ Reading g' fh := by
        by_cases hnum : 0 < num
        · cases hlook : fhLookup g.gFH id with
          | none =>
              unfold actREAD
              rw [hlook]
              exact ⟨buf, _, rfl, h.setRes _ _⟩
          | some efh =>
              obtain ⟨buf', g', efh', hrun, -, -, -, hnext⟩ :=
                reading_read h hlook (hon efh hlook) hnum hread hok
              exact ⟨buf', g', hrun, hnext⟩
        · exact reading_read_none h buf ans hon (by omega)
      obtain ⟨buf', g', hrun, hnext⟩ := hnext
      refine ⟨g', ?_, hnext⟩
      simp only [step, hrun, bind, Except.bind]
  | write id buf num => exact reading_write h hon hans hok
  | seek id offset mode => exact ⟨_, rfl, reading_seek h mode hon.1 hon.2⟩
  | setFileSize id offset mode numLocks ans => exact reading_setFileSize h hon.1 hon.2 hans hok
  | flush => exact reading_flush h
  | timer => exact reading_flush h
  | updateAuth ok => exact hon.elim
  | moreCache num avail => exact hon.elim
  | endFile id => exact reading_endFile h hon

/-- What a run of actions on the open files of one file meets with. -/
def ReadsRun (fh : Fh) (g : Global) (a : Action) : Prop :=
  (OnFile fh g a ∧ Answered g a) ∧ ReadAnswered fh g a

theorem reading_run {as : List Action} (h : Reading g fh)
    (hrun : Guarded stepRun (OnOk (ReadsRun fh)) (.ok g) as)
    (hok : Guarded stepRun (OnOk (KeepsRead fh)) (.ok g) as) :
    ∃ g', run stepRun (.ok g) as = .ok g' ∧ Reading g' fh := by
  induction as generalizing g with
  | nil => exact ⟨g, rfl, h⟩
  | cons a as ih =>
      obtain ⟨⟨hon, hans⟩, hread⟩ := hrun.1 g rfl
      obtain ⟨g₁, hstep, hnext⟩ := reading_step h hon hans hread (hok.1 g rfl)
      have hone : stepRun (.ok g) a = .ok g₁ := hstep
      have hrun' := hrun.2
      have hok' := hok.2
      rw [hone] at hrun' hok'
      rw [run_cons, hone]
      exact ih hnext hrun' hok'

/-- On the open files of a file every read is exact, in every run whose steps meet the
condition. -/
theorem readsExactly_run (hinv : PoolInv g.pool g.gFH) (hids : OwnIds g)
    (hnone : ∀ o ∈ g.gFH, o.efhNFSFh ≠ fh) (hsize : (g.srv.file fh).size < 4294967296)
    {as : List Action} (hrun : Guarded stepRun (OnOk (ReadsRun fh)) (.ok g) as)
    (hok : Guarded stepRun (OnOk (KeepsRead fh)) (.ok g) as) :
    (∃ g', run stepRun (.ok g) as = .ok g') ∧
    ∀ as₁ id buf num ans as₂, as = as₁ ++ .read id buf num ans :: as₂ → 0 < num →
      ∃ g₁, run stepRun (.ok g) as₁ = .ok g₁ ∧ ReadsExactly fh g₁ id buf num ans := by
  have hstart : Reading g fh := ⟨hinv, hids, hsize, fun o ho hofh => absurd hofh (hnone o ho)⟩
  constructor
  · obtain ⟨g', hends, -⟩ := reading_run hstart hrun hok
    exact ⟨g', hends⟩
  · rintro as₁ id buf num ans as₂ rfl hnum
    obtain ⟨hrun₁, hrun₂⟩ := (guarded_append _ _ _ _ _).mp hrun
    obtain ⟨hok₁, hok₂⟩ := (guarded_append _ _ _ _ _).mp hok
    obtain ⟨g₁, hends, hreading⟩ := reading_run hstart hrun₁ hok₁
    rw [hends] at hrun₂ hok₂
    obtain ⟨⟨hon, -⟩, hans⟩ := hrun₂.1 g₁ rfl
    refine ⟨g₁, hends, fun efh hlook => ?_⟩
    obtain ⟨buf', g', efh', hread, hlook', hsrv, hexact, -⟩ :=
      reading_read hreading hlook (hon efh hlook) hnum hans (hok₂.1 g₁ rfl)
    exact ⟨buf', g', efh', hread, hlook', hsrv, hexact⟩

end Steps

def exThree : Global :=
  { exGlobal with srv := ⟨fun _ => ⟨fun _ => 7, 3⟩, fun _ => .done 4, 0, []⟩ }

/-- One open file appends a byte; the other one, opened before that, seeks to `pos`. -/
def exShared (pos : Int) : List Action :=
  [.openFile MODE_OLDFILE 3 0 1 false true, .openFile MODE_OLDFILE 3 0 1 false true,
    .write 2 (fun _ => 8) 4, .seek 1 pos OFFSET_BEGINNING]

/-- A run without reads. -/
theorem readsRun_of_noReads {fh : Fh} {r : Except Fault Global} {as : List Action}
    (hread : ∀ a ∈ as, ∀ id buf num ans, a ≠ .read id buf num ans)
    (h : Guarded stepRun (OnOk fun g a => OnFile fh g a ∧ Answered g a) r as) :
    Guarded stepRun (OnOk (ReadsRun fh)) r as := by
  induction as generalizing r with
  | nil => trivial
  | cons a as ih =>
      simp only [List.forall_mem_cons] at hread
      refine ⟨fun g hg => ⟨h.1 g hg, ?_⟩, ih hread.2 h.2⟩
      cases a with
      | read id buf num ans => exact absurd rfl (hread.1 id buf num ans)
      | openFile | write | seek | setFileSize | flush | timer | updateAuth | moreCache | endFile =>
          trivial

/-- The run up to a read, with an answer to the read. -/
theorem exShared_run (pos : Int) {num : Int} (buf : Nat → UInt8) (hnum : 0 < num)
    (hon : Guarded stepRun (OnOk fun g a => OnFile 0 g a ∧ Answered g a) (gInit exThree 1 16 1 true)
      (exShared pos ++ [.read 1 buf num (.failed 0)]))
    (hok : Guarded stepRun (OnOk (KeepsRead 0)) (gInit exThree 1 16 1 true) (exShared pos)) :
    ∃ g g₁ ans, gInit exThree 1 16 1 true = .ok g ∧ (PoolInv g.pool g.gFH ∧ OwnIds g ∧ g.gFH = [] ∧
        (g.srv.file 0).size < 4294967296) ∧ run stepRun (.ok g) (exShared pos) = .ok g₁ ∧
      Reading g₁ 0 ∧
      Guarded stepRun (OnOk (ReadsRun 0)) (.ok g) (exShared pos ++ [.read 1 buf num ans]) := by
  obtain ⟨g, hinit, hfhs, hinv⟩ := gInit_poolInv exThree 1 16 1 true
  have hstart : PoolInv g.pool g.gFH ∧ OwnIds g ∧ g.gFH = [] ∧
      (g.srv.file 0).size < 4294967296 := by
    refine ⟨by rw [hfhs]; exact hinv, ⟨by simp [hfhs], by simp [hfhs]⟩, hfhs, ?_⟩
    unfold gInit at hinit
    obtain ⟨x, -, hinit⟩ := ok_of_bind hinit
    cases hinit
    show 3 < 4294967296
    decide
  rw [hinit] at hon hok
  obtain ⟨hon₁, hon₂⟩ := (guarded_append _ _ _ _ _).mp hon
  have hrun := readsRun_of_noReads (by simp [exShared]) hon₁
  have hreading : Reading g 0 := ⟨hstart.1, hstart.2.1, hstart.2.2.2, by simp [hfhs]⟩
  obtain ⟨g₁, hends, hreading₁⟩ := reading_run hreading hrun hok
  rw [hends] at hon₂
  have hans : ∃ ans, ReadAnswered 0 g₁ (.read 1 buf num ans) := by
    cases hlook : fhLookup g₁.gFH 1 with
    | none => exact ⟨.failed 0, fun _ efh hefh => by rw [hlook] at hefh; cases hefh⟩
    | some efh =>
        obtain ⟨ans, hans, -⟩ := nfsMRead_served (show 0 < 8192 by decide)
          hreading₁.size (fun _ => 0)
          (UInt32.ofInt (rbRequest (g₁.state efh) num).1) (rbRequest_pos (s := g₁.state efh) hnum)
        refine ⟨ans, fun _ e he => ⟨8192, fun _ => 0, by decide, ?_⟩⟩
        rw [hlook] at he
        cases he
        exact hans
  obtain ⟨ans, hans⟩ := hans
  refine ⟨g, g₁, ans, hinit, hstart, hends, hreading₁, (guarded_append _ _ _ _ _).mpr ⟨hrun, ?_⟩⟩
  rw [hends]
  refine ⟨fun g' hg' => ?_, trivial⟩
  cases hg'
  exact ⟨hon₂.1 g₁ rfl, hans⟩

theorem readsExactly_run_shared :
    ∃ g g₁ ans, gInit exThree 1 16 1 true = .ok g ∧ run stepRun (.ok g) (exShared 1) = .ok g₁ ∧
      (fhLookup g₁.gFH 1).isSome ∧ ReadsExactly 0 g₁ 1 (fun _ => 0) 2 ans := by
  have hok : Guarded stepRun (OnOk (KeepsRead 0)) (gInit exThree 1 16 1 true)
      (exShared 1 ++ [.read 1 (fun _ => 0) 2 (.failed 0)]) := by decide +kernel
  have hopen : (run stepRun (gInit exThree 1 16 1 true) (exShared 1)).toOption.any
      (fun g => (fhLookup g.gFH 1).isSome) = true := by decide +kernel
  obtain ⟨g, g₁, ans, hinit, ⟨hinv, hids, hfhs, hsize⟩, hends, -, hrun⟩ :=
    exShared_run 1 (fun _ => 0) (show (0 : Int) < 2 by decide) (by decide +kernel)
      ((guarded_append _ _ _ _ _).mp hok).1
  rw [hinit] at hok hopen
  rw [hends] at hopen
  have hok' : Guarded stepRun (OnOk (KeepsRead 0)) (.ok g)
      (exShared 1 ++ [.read 1 (fun _ => 0) 2 ans]) := hok
  obtain ⟨-, hreads⟩ := readsExactly_run hinv hids (by simp [hfhs]) hsize hrun hok'
  obtain ⟨g₂, hends₂, hexact⟩ := hreads (exShared 1) 1 _ 2 ans [] rfl (by decide)
  obtain rfl : g₁ = g₂ := Except.ok.inj (hends.symm.trans hends₂)
  exact ⟨g, g₁, ans, hinit, hends, hopen, hexact⟩

/-- The other open file still takes the old length for the end of the file. -/
theorem not_readsExactly_shared :
    ∃ g g₁ ans, gInit exThree 1 16 1 true = .ok g ∧
      Guarded stepRun (OnOk (ReadsRun 0)) (.ok g) (exShared 3 ++ [.read 1 (fun _ => 0) 1 ans]) ∧
      run stepRun (.ok g) (exShared 3) = .ok g₁ ∧ ¬ ReadsExactly 0 g₁ 1 (fun _ => 0) 1 ans := by
  obtain ⟨g, g₁, ans, hinit, -, hends, hreading, hrun⟩ :=
    exShared_run 3 (fun _ => 0) (show (0 : Int) < 1 by decide) (by decide +kernel)
      (by decide +kernel)
  refine ⟨g, g₁, ans, hinit, hrun, hends, fun hreads => ?_⟩
  have hstate : (run stepRun (gInit exThree 1 16 1 true) (exShared 3)).toOption.any
      (fun g => (fhLookup g.gFH 1).any fun efh => efh.efhFileLen = 3 ∧ efh.efhFilePos = 3 ∧
        efh.efhNFSFh = 0 ∧ (g.srv.file 0).size = 4) = true := by decide +kernel
  rw [hinit, hends] at hstate
  cases hlook : fhLookup g₁.gFH 1 with
  | none => simp [Except.toOption, hlook] at hstate
  | some efh =>
      obtain ⟨hlen, hpos, hfh, hsize⟩ : efh.efhFileLen = 3 ∧ efh.efhFilePos = 3 ∧
          efh.efhNFSFh = 0 ∧ (g₁.srv.file 0).size = 4 := by
        simpa [Except.toOption, hlook] using hstate
      obtain ⟨buf', g', efh', hread, -, -, hexact⟩ := hreads efh hlook
      have hplain := (hreading.files efh (List.mem_of_find?_eq_some hlook) hfh).toPlain
      have hend : actREAD g₁ 1 (fun _ => 0) 1 ans = _ := hplain.actREAD_end hlook (by decide)
        ⟨by rw [hlen]; decide, by rw [hlen, hpos]⟩
      obtain rfl : g' = _ := congrArg Prod.snd (Except.ok.inj (hread.symm.trans hend))
      have hcount :
        (0 : Int) = (min (Int.toNat 1) ((g₁.srv.file 0).size - upos efh.efhFilePos) : Nat) :=
        hexact.count
      rw [hsize, hpos] at hcount
      revert hcount
      decide

end Anfs.File
