import Anfs.Buf.Owns

/-!
# What flushing does

A flush empties the chain, the last buffer taken is the first free one afterwards. If no
server write fails, the file has been changed by the writes of all buffers in the order
of the chain.
-/
namespace Anfs.Buf
open Anfs.Lib Anfs.Nfs

/-- The write request of one interval. -/
def intervalWrite (fileOffs : Int) (data : Nat → UInt8) (wbi : WBufHdrInfo) :
    UInt32 × List UInt8 :=
  (UInt32.ofInt (long (fileOffs + wbi.wbiFrom)),
    block (fun i => data (wbi.wbiFrom.toNat + i)) (wbi.wbiTo - wbi.wbiFrom + 1).toNat)

/-- The write requests a flush makes of a buffer. -/
def Block.writes (b : Block) : List (UInt32 × List UInt8) :=
  b.info.map (intervalWrite b.fileOffs b.bytes)

/-- The requests a flush makes of the chain `l`. -/
def chainWrites (g : Pool) (l : List Ptr) : List (UInt32 × List UInt8) :=
  l.flatMap fun p => (g.blk p).writes

theorem chainWrites_cons (g : Pool) (p : Ptr) (l : List Ptr) :
    chainWrites g (p :: l) = (g.blk p).writes ++ chainWrites g l := rfl

theorem writeAll_append (f : SrvFile) (ws ws' : List (UInt32 × List UInt8)) :
    f.writeAll (ws ++ ws') = (f.writeAll ws).writeAll ws' := by
  simp [SrvFile.writeAll]

theorem chainWrites_congr {g g' : Pool} {l : List Ptr} (h : ∀ p ∈ l, g'.blk p = g.blk p) :
    chainWrites g' l = chainWrites g l :=
  List.flatMap_congr fun p hp => by rw [h p hp]

section Server
variable {srv : Server} {fh : Fh}

@[simp] theorem setFile_file_self (f : SrvFile) : (srv.setFile fh f).file fh = f := by
  simp [Server.setFile]

theorem setFile_file_ne (f : SrvFile) {fh' : Fh} (h : fh' ≠ fh) :
    (srv.setFile fh f).file fh' = srv.file fh' := by
  simp [Server.setFile, h]

/-- What a write request for `fh` keeps of the server, whether it fails or not. -/
structure Served (fh : Fh) (srv srv' : Server) : Prop where
  file : ∀ fh', fh' ≠ fh → srv'.file fh' = srv.file fh'
  answers : srv'.answers = srv.answers

theorem Served.refl (fh : Fh) (srv : Server) : Served fh srv srv := ⟨fun _ _ => rfl, rfl⟩

theorem Served.trans {srv' srv'' : Server} (h : Served fh srv srv') (h' : Served fh srv' srv'') :
    Served fh srv srv'' :=
  ⟨fun f hf => (h'.file f hf).trans (h.file f hf), h'.answers.trans h.answers⟩

theorem Served.recorded {srv' : Server} (h : Served fh srv srv') (ds : List (Int × Int)) :
    Served fh srv { srv' with drops := ds } := ⟨h.file, h.answers⟩

theorem nfsWrite_served (srv : Server) (fh : Fh) (offset : Int) (buf : Nat → UInt8)
    (count : Int) : Served fh srv (nfsWrite srv fh offset buf count).2 := by
  unfold nfsWrite
  cases srv.answers srv.answered with
  | done fileLen => exact ⟨fun _ h => setFile_file_ne _ h, rfl⟩
  | failed res2 executed => exact ⟨fun _ h => setFile_file_ne _ h, rfl⟩

theorem nfsWrite_ok {offset count fileLen : Int} {buf : Nat → UInt8} {srv' : Server}
    (h : nfsWrite srv fh offset buf count = (.ok fileLen, srv')) :
    srv'.file fh = (srv.file fh).write (UInt32.ofInt offset, block buf count.toNat) := by
  unfold nfsWrite at h
  cases hans : srv.answers srv.answered with
  | done len =>
      rw [hans] at h
      obtain ⟨-, rfl⟩ := Prod.mk.inj h
      exact setFile_file_self _
  | failed res2 executed =>
      rw [hans] at h
      cases (Prod.mk.inj h).1

theorem nfsWrite_error {offset count res2 : Int} {buf : Nat → UInt8} {srv' : Server}
    (h : nfsWrite srv fh offset buf count = (.error res2, srv')) :
    ∃ k x, srv.answers k = .failed res2 x := by
  unfold nfsWrite at h
  cases hans : srv.answers srv.answered with
  | done len =>
      rw [hans] at h
      cases (Prod.mk.inj h).1
  | failed r x =>
      rw [hans] at h
      cases (Prod.mk.inj h).1
      exact ⟨_, x, hans⟩

theorem flushInfos_served (fh : Fh) (fileOffs : Int) (data : Nat → UInt8)
    (info : List WBufHdrInfo) (srv : Server) :
    Served fh srv (flushInfos fh fileOffs data info srv).2 := by
  induction info generalizing srv with
  | nil => exact Served.refl fh srv
  | cons wbi rest ih =>
      have hone := nfsWrite_served srv fh (long (fileOffs + wbi.wbiFrom))
        (fun i => data (wbi.wbiFrom.toNat + i)) (wbi.wbiTo - wbi.wbiFrom + 1)
      unfold flushInfos
      split
      · rename_i heq
        rw [heq] at hone
        exact hone.trans (ih _)
      · rename_i heq
        rw [heq] at hone
        exact hone

theorem flushInfos_none {fileOffs : Int} {data : Nat → UInt8} {info : List WBufHdrInfo}
    {srv' : Server} (h : flushInfos fh fileOffs data info srv = (none, srv')) :
    srv'.file fh = (srv.file fh).writeAll (info.map (intervalWrite fileOffs data)) := by
  induction info generalizing srv with
  | nil =>
      cases h
      rfl
  | cons wbi rest ih =>
      unfold flushInfos at h
      split at h
      · rename_i heq
        rw [ih h, nfsWrite_ok heq]
        rfl
      · cases h

theorem flushInfos_some {fileOffs res2 : Int} {data : Nat → UInt8} {info : List WBufHdrInfo}
    {srv' : Server} (h : flushInfos fh fileOffs data info srv = (some res2, srv')) :
    ∃ k x, srv.answers k = .failed res2 x := by
  induction info generalizing srv with
  | nil => cases h
  | cons wbi rest ih =>
      unfold flushInfos at h
      split at h
      · rename_i srv₁ heq
        have hone := (nfsWrite_served srv fh (long (fileOffs + wbi.wbiFrom))
          (fun i => data (wbi.wbiFrom.toNat + i)) (wbi.wbiTo - wbi.wbiFrom + 1)).answers
        rw [heq] at hone
        rw [← hone]
        exact ih h
      · rename_i heq
        cases h
        exact nfsWrite_error heq

end Server

section Loop
variable {efh : EFH} {s : WState} {l hand fr : List Ptr}

theorem Owns.withServer {v : Hold} (h : Owns s v) (srv : Server) :
    Owns { s with srv := srv } v :=
  ⟨h.chain, h.used, h.last, h.free, h.numFree, h.numFreeM, h.nodup, h.mnodup⟩

theorem moved_withServer {fh : Fh} {srv : Server} (v : Hold) (h : Served fh s.srv srv) :
    Moved fh s v { s with srv := srv } v :=
  { Moved.refl fh s v with file := h.file, answers := h.answers }

/-- The state after the head `p` has been taken and given back. -/
def WState.dropHead (s : WState) (p : Ptr) : WState :=
  { s.popHead p with pool := releaseWBuf s.pool p }

theorem Owns.dropHead {p : Ptr} (h : Owns s ⟨p :: l, hand, fr⟩) :
    Owns (s.dropHead p) ⟨l, hand, p :: fr⟩ := h.popHead.release

theorem Owns.moved_dropHead {fh : Fh} {p : Ptr} (h : Owns s ⟨p :: l, hand, fr⟩) :
    Moved fh s ⟨p :: l, hand, fr⟩ (s.dropHead p) ⟨l, hand, p :: fr⟩ :=
  h.moved_popHead.trans h.popHead.moved_release

theorem dropHead_blk {p q : Ptr} (hq : q ≠ p) : (s.dropHead p).pool.blk q = s.pool.blk q :=
  Pool.blk_update_ne (releaseWBuf_wbh s.pool p) rfl hq

/-- What a flush of the chain `l` comes to; `err` is the error of the write that failed. -/
structure Flushed (efh : EFH) (s : WState) (l hand fr : List Ptr) (err : Option Int)
    (s' : WState) : Prop where
  owns : Owns s' ⟨[], hand, l.reverse ++ fr⟩
  moved : Moved efh.efhNFSFh s ⟨l, hand, fr⟩ s' ⟨[], hand, l.reverse ++ fr⟩
  posData : s'.wbc.wbcPosData = s.wbc.wbcPosData
  filePos : s'.wbc.wbcFilePos = s.wbc.wbcFilePos
  file : err = none → s'.srv.file efh.efhNFSFh =
    (s.srv.file efh.efhNFSFh).writeAll (chainWrites s.pool l)
  failed : ∀ res2, err = some res2 → ∃ k x, s.srv.answers k = .failed res2 x

theorem releaseRest_spec (efh : EFH) (h : Owns s ⟨l, hand, fr⟩) :
    ∃ s', releaseRest l.length s = .ok s' ∧ Owns s' ⟨[], hand, l.reverse ++ fr⟩ ∧
      Moved efh.efhNFSFh s ⟨l, hand, fr⟩ s' ⟨[], hand, l.reverse ++ fr⟩ ∧
      s'.wbc.wbcPosData = s.wbc.wbcPosData ∧ s'.wbc.wbcFilePos = s.wbc.wbcFilePos := by
  induction l generalizing s fr with
  | nil => exact ⟨s, rfl, h, Moved.refl _ _ _, rfl, rfl⟩
  | cons p l ih =>
      obtain ⟨s', hrun, howns, hmoved, hpos, hfile⟩ := ih h.dropHead
      refine ⟨s', ?_, ?_, ?_, hpos, hfile⟩
      · simp only [List.length_cons, releaseRest, h.remHead, bind, Except.bind]
        exact hrun
      · simpa using howns
      · simpa using h.moved_dropHead.trans hmoved

theorem flushLoop_spec (h : Owns s ⟨l, hand, fr⟩) :
    ∃ err s', flushLoop efh l.length s = .ok (err, s') ∧ Flushed efh s l hand fr err s' := by
  induction l generalizing s fr with
  | nil => exact ⟨none, s, rfl, h, Moved.refl _ _ _, rfl, rfl, fun _ => rfl, by simp⟩
  | cons p l ih =>
      have hserved := flushInfos_served efh.efhNFSFh (s.pool.wbh p).wbhFileOffs
        (s.pool.mem (s.pool.wbh p).wbhData) (s.pool.wbh p).wbhInfo s.srv
      have hpl : ∀ q ∈ l, q ≠ p := by
        have hnd := h.nodup
        simp only [Hold.hdrs, List.cons_append, List.append_assoc, List.nodup_cons] at hnd
        intro q hq hqp
        exact hnd.1 (by simp [← hqp, hq])
      simp only [List.length_cons, flushLoop, h.remHead, bind, Except.bind]
      simp only [show (s.popHead p).pool = s.pool from rfl, show (s.popHead p).srv = s.srv from rfl]
      cases hw : flushInfos efh.efhNFSFh (s.pool.wbh p).wbhFileOffs
          (s.pool.mem (s.pool.wbh p).wbhData) (s.pool.wbh p).wbhInfo s.srv with
      | mk err srv =>
          rw [hw] at hserved
          cases err with
          | none =>
              have howns := h.dropHead.withServer srv
              obtain ⟨err, s', hrun, hf⟩ := ih howns
              refine ⟨err, s', hrun, ?_, ?_, hf.posData, hf.filePos, fun he => ?_, fun e he => ?_⟩
              · simpa using hf.owns
              · simpa using (h.moved_dropHead.trans (moved_withServer _ hserved)).trans hf.moved
              · have hblk : chainWrites (s.dropHead p).pool l = chainWrites s.pool l :=
                  chainWrites_congr fun q hq => dropHead_blk (hpl q hq)
                rw [hf.file he, flushInfos_none hw, hblk, chainWrites_cons, writeAll_append]
                rfl
              · obtain ⟨k, x, hk⟩ := hf.failed e he
                exact ⟨k, x, by rw [← hserved.answers]; exact hk⟩
          | some res2 =>
              have hserved' : Served efh.efhNFSFh s.srv
                  { srv with drops := (efh.efhId, res2) :: srv.drops } := hserved.recorded _
              have howns :=
                h.dropHead.withServer { srv with drops := (efh.efhId, res2) :: srv.drops }
              obtain ⟨s', hrun, howns', hmoved, hpos, hfile⟩ := releaseRest_spec efh howns
              refine ⟨some res2, s', ?_, ?_, ?_, hpos, hfile, by simp, fun e he => ?_⟩
              · simp only [WState.dropHead] at hrun
                simp only [hrun]
              · simpa using howns'
              · simpa using (h.moved_dropHead.trans (moved_withServer _ hserved')).trans hmoved
              · cases he
                exact flushInfos_some hw

theorem iwcFlushCache_spec (efh : EFH) (h : Owns s ⟨l, hand, fr⟩) :
    ∃ err s', iwcFlushCache efh s = .ok (err, s') ∧ Flushed efh s l hand fr err s' := by
  unfold iwcFlushCache
  rw [h.used]
  exact flushLoop_spec h

/-- A flush of a chain that is not empty frees a header and a buffer. -/
theorem Flushed.freed {err : Option Int} {s' : WState} (h : Flushed efh s l [] fr err s')
    (hl : l ≠ []) :
    ∃ p fr' m ms, l.reverse ++ fr = p :: fr' ∧ s'.pool.gFreeMBufs = m :: ms := by
  have hlen := h.moved.mbufs.length_eq
  simp only [Hold.mbufs, List.append_nil, List.map_nil, List.nil_append, List.length_append,
    List.length_map] at hlen
  have hpos : 0 < l.length := List.length_pos_iff.mpr hl
  cases hr : l.reverse ++ fr with
  | nil => simp [hl] at hr
  | cons p fr' =>
      cases hm : s'.pool.gFreeMBufs with
      | nil => rw [hm, List.length_nil] at hlen; omega
      | cons m ms => exact ⟨p, fr', m, ms, rfl, rfl⟩

end Loop

end Anfs.Buf
