import Anfs.Buf.Global

/-!
# The write cache

`wbuf.c`: a cluster is a chain of buffers, each for one block of `MBUFSIZE` bytes of the
file, with the intervals of it that have been written. The debug checks (`ASSERT`,
`log_end`) are left out, and with them the parameter `IgnoreEmptyBlocks` that selects one.
-/
namespace Anfs.Buf
open Anfs.Nfs

/-- How a function ends: with `-1` after `*Res2` was set, with `0` for lack of memory, or
with a count. -/
inductive Ret
  | failed (res2 : Int)
  | noMem
  | done (n : Int)
  deriving DecidableEq, Repr

def Pool.setWbh (g : Pool) (p : Ptr) (h : WBufHdr) : Pool :=
  { g with wbh := Function.update g.wbh p h }

def obtainWBuf (g : Pool) : Except Fault (Option Ptr × Pool) :=
  if g.gNumFreeWBufHdrs ≠ 0 ∧ g.gNumFreeMBufs ≠ 0 then do
    let (mbn, g) ← mbObtainMBuf g
    match g.gFreeWBufHdr with
    | none => .error .null
    | some wbh =>
        let h := g.wbh wbh
        .ok (some wbh,
          { g with
              gNumFreeWBufHdrs := g.gNumFreeWBufHdrs - 1
              gFreeWBufHdr := h.wbhNext
              wbh := Function.update g.wbh wbh
                { h with wbhFileOffs := 0, wbhInfo := [], wbhData := mbn } })
  else .ok (none, g)

def releaseWBuf (g : Pool) (wbh : Ptr) : Pool :=
  let h := g.wbh wbh
  let g := mbReleaseMBuf { g with gNumFreeWBufHdrs := g.gNumFreeWBufHdrs + 1 } h.wbhData
  { g with
    wbh := Function.update g.wbh wbh { h with wbhNext := g.gFreeWBufHdr }
    gFreeWBufHdr := some wbh }

def wBufAddHead (s : WState) (wbh : Ptr) : WState :=
  let h := s.pool.wbh wbh
  let wbc := { s.wbc with wbcWBufsUsed := s.wbc.wbcWBufsUsed + 1 }
  match s.wbc.wbcFirstData with
  | some first =>
      { s with
        pool := s.pool.setWbh wbh { h with wbhNext := some first }
        wbc := { wbc with wbcFirstData := some wbh } }
  | none =>
      { s with
        pool := s.pool.setWbh wbh { h with wbhNext := none }
        wbc := { wbc with wbcFirstData := some wbh, wbcLastData := some wbh } }

def wBufInsert (s : WState) (oldwbh : Option Ptr) (wbh : Ptr) : WState :=
  match oldwbh with
  | some old =>
      let next := (s.pool.wbh old).wbhNext
      let pool := s.pool.setWbh wbh { s.pool.wbh wbh with wbhNext := next }
      { s with
        pool := pool.setWbh old { pool.wbh old with wbhNext := some wbh }
        wbc := { s.wbc with
          wbcWBufsUsed := s.wbc.wbcWBufsUsed + 1
          wbcLastData := if next = none then some wbh else s.wbc.wbcLastData } }
  | none => wBufAddHead s wbh

def wBufRemHead (s : WState) : Except Fault (Option Ptr × WState) :=
  if s.wbc.wbcWBufsUsed ≠ 0 then
    match s.wbc.wbcFirstData with
    | none => .error .null
    | some wbh =>
        .ok (some wbh,
          { s with
            wbc := { s.wbc with
              wbcWBufsUsed := s.wbc.wbcWBufsUsed - 1
              wbcFirstData := (s.pool.wbh wbh).wbhNext } })
  else .ok (none, s)

def wBufsAvail (g : Pool) : Int := min g.gNumFreeMBufs g.gNumFreeWBufHdrs

def wBufHdrLastPos (h : WBufHdr) : Int := long (h.wbhFileOffs + MBUFSIZE)

/-- The masking of `WBufAlignFileOffs`. -/
def wBufAlignFileOffs (pos : Int) : Int := pos - pos % MBUFSIZE

def wBufCacheFull (wbc : WBufCluster) : Prop := wbc.wbcWBufsMax ≤ wbc.wbcWBufsUsed

instance (wbc : WBufCluster) : Decidable (wBufCacheFull wbc) := by
  unfold wBufCacheFull; infer_instance

def hasBufferedWData (efh : EFH) : Bool :=
  match efh.efhWBuf with
  | some wbc => wbc.wbcWBufsUsed ≠ 0
  | none => false

/-- The writes of one buffer, an interval each: the error of the first that fails. -/
def flushInfos (fh : Fh) (fileOffs : Int) (data : Nat → UInt8) :
    List WBufHdrInfo → Server → Option Int × Server
  | [], srv => (none, srv)
  | wbi :: rest, srv =>
      match nfsWrite srv fh (long (fileOffs + wbi.wbiFrom))
        (fun i => data (wbi.wbiFrom.toNat + i)) (wbi.wbiTo - wbi.wbiFrom + 1) with
      | (.ok _, srv) => flushInfos fh fileOffs data rest srv
      | (.error res2, srv) => (some res2, srv)

/-- The loop that gives up the buffers behind a failing one. -/
def releaseRest : Nat → WState → Except Fault WState
  | 0, s => .ok s
  | n + 1, s => do
      let (wbh, s) ← wBufRemHead s
      match wbh with
      | none => .ok s
      | some wbh => releaseRest n { s with pool := releaseWBuf s.pool wbh }

/-- The loop of `iwc_FlushCache`, over a chain of the given number of buffers. -/
def flushLoop (efh : EFH) : Nat → WState → Except Fault (Option Int × WState)
  | 0, s => .ok (none, s)
  | n + 1, s => do
      let (wbh, s) ← wBufRemHead s
      match wbh with
      | none => .ok (none, s)
      | some wbh =>
          let h := s.pool.wbh wbh
          match flushInfos efh.efhNFSFh h.wbhFileOffs (s.pool.mem h.wbhData) h.wbhInfo s.srv with
          | (none, srv) => flushLoop efh n { s with pool := releaseWBuf s.pool wbh, srv := srv }
          | (some res2, srv) => do
              let srv := { srv with drops := (efh.efhId, res2) :: srv.drops }
              let s ← releaseRest n { s with pool := releaseWBuf s.pool wbh, srv := srv }
              .ok (some res2, s)

/-- `iwc_FlushCache`: `none` for `DOSTRUE`, the error in `*Res2` for `DOSFALSE`. -/
def iwcFlushCache (efh : EFH) (s : WState) : Except Fault (Option Int × WState) :=
  flushLoop efh s.wbc.wbcWBufsUsed s

/-- What an attempt to obtain a buffer for the cluster came to; `flushed` tells that the
old ones were written out for it. -/
inductive Obtained
  | failed (res2 : Int)
  | noMem
  | got (wbh : Ptr) (flushed : Bool)

/-- Obtain a buffer, if need be after a flush. -/
def obtainOrFlush (efh : EFH) (s : WState) (flushed : Bool) :
    Except Fault (Obtained × WState) := do
  let (newwbh, pool) ← obtainWBuf s.pool
  match newwbh with
  | some p => .ok (.got p flushed, { s with pool := pool })
  | none =>
      if s.wbc.wbcWBufsUsed ≠ 0 then do
        let (err, s) ← iwcFlushCache efh s
        match err with
        | some res2 => .ok (.failed res2, s)
        | none => do
            let (newwbh, pool) ← obtainWBuf s.pool
            match newwbh with
            | some p => .ok (.got p true, { s with pool := pool })
            | none => .ok (.noMem, s)
      else .ok (.noMem, s)

/-- The steps that `WBufSeekAndPrepare` and `WBufWrite` share: make room in the cluster,
then obtain a buffer. -/
def obtainFlushing (efh : EFH) (s : WState) : Except Fault (Obtained × WState) :=
  if wBufCacheFull s.wbc then do
    let (err, s) ← iwcFlushCache efh s
    match err with
    | some res2 => .ok (.failed res2, s)
    | none => obtainOrFlush efh s true
  else obtainOrFlush efh s false

/-- The new buffer becomes the position and gets the block of `pos`. -/
def startBuf (s : WState) (newwbh : Ptr) (pos : Int) : WState :=
  { s with
    pool := s.pool.setWbh newwbh
      { s.pool.wbh newwbh with wbhFileOffs := wBufAlignFileOffs pos, wbhInfo := [] }
    wbc := { s.wbc with wbcPosData := some newwbh } }

/-- The search for the first header that is not before `pos`, with the one before it. -/
def seekLoop (wbh : Ptr → WBufHdr) (pos : Int) :
    Nat → Option Ptr → Ptr → Except Fault (Option Ptr × Ptr)
  | 0, _, _ => .error .endless
  | n + 1, prev, p =>
      if (wbh p).wbhFileOffs < pos then
        match (wbh p).wbhNext with
        | none => .error .null
        | some q => seekLoop wbh pos n (some p) q
      else .ok (prev, p)

/-- The case `ADDHEAD` of `WBufSeekAndPrepare`. -/
def prepareHead (efh : EFH) (s : WState) (newPos : Int) : Except Fault (Ret × WState) := do
  let (o, s) ← obtainFlushing efh s
  match o with
  | .failed res2 => .ok (.failed res2, s)
  | .noMem => .ok (.noMem, s)
  | .got newwbh _ => .ok (.done 1, wBufAddHead (startBuf s newwbh newPos) newwbh)

def WState.setPosData (s : WState) (p : Option Ptr) : WState :=
  { s with wbc := { s.wbc with wbcPosData := p } }

def WState.setFilePos (s : WState) (pos : Int) : WState :=
  { s with wbc := { s.wbc with wbcFilePos := pos } }

def wBufSeekAndPrepare (efh : EFH) (s : WState) (newPos : Int) : Except Fault (Ret × WState) :=
  let s := s.setFilePos newPos
  match s.wbc.wbcFirstData with
  | none => prepareHead efh s newPos
  | some first =>
      if newPos < (s.pool.wbh first).wbhFileOffs then prepareHead efh s newPos
      else
        match s.wbc.wbcLastData with
        | none => .error .null
        | some last =>
            if wBufHdrLastPos (s.pool.wbh last) ≤ newPos then
              .ok (.done 1, s.setPosData (some last))
            else do
              let (prev, p) ← seekLoop s.pool.wbh (long (newPos - MBUFSIZE))
                s.pool.gNumWBufHdrs.toNat none first
              let pos := if newPos < (s.pool.wbh p).wbhFileOffs then prev else some p
              .ok (.done 1, s.setPosData pos)

/-- The buffer to fill, or the end of the write. -/
inductive Target
  | stop (r : Ret)
  | fill (wbh : Ptr)

/-- The header behind `h`, when it is the one for `pos`. -/
def coveringNext (wbh : Ptr → WBufHdr) (h : WBufHdr) (pos : Int) : Option Ptr :=
  h.wbhNext.filter fun n =>
    (wbh n).wbhFileOffs ≤ pos ∧ pos ≤ long ((wbh n).wbhFileOffs + MBUFSIZE - 1)

/-- The first part of `WBufWrite`: find or insert the buffer for the position. Moving on to
the next header leaves `wbc_PosData` where it is. -/
def wBufTarget (efh : EFH) (s : WState) : Except Fault (Target × WState) :=
  match s.wbc.wbcPosData with
  | none => .error .null
  | some wbh =>
      let pos := s.wbc.wbcFilePos
      if wBufHdrLastPos (s.pool.wbh wbh) ≤ pos then
        match coveringNext s.pool.wbh (s.pool.wbh wbh) pos with
        | some next => .ok (.fill next, s)
        | none => do
            let (o, s) ← obtainFlushing efh s
            match o with
            | .failed res2 => .ok (.stop (.failed res2), s)
            | .noMem => .ok (.stop .noMem, s)
            | .got newwbh flushed =>
                .ok (.fill newwbh, wBufInsert (startBuf s newwbh pos)
                  (if flushed then none else some wbh) newwbh)
      else .ok (.fill wbh, s)

/-- `data` with `cnt` bytes at `offs` replaced by those at `buf`. -/
def copyMem (data buf : Nat → UInt8) (offs cnt : Int) : Nat → UInt8 := fun k =>
  if offs ≤ k ∧ k < offs + cnt then buf (k - offs.toNat) else data k

/-- The second part of `WBufWrite`: copy what fits into the buffer. -/
def wBufFill (s : WState) (wbh : Ptr) (buf : Nat → UInt8) (num : Int) :
    Except Fault (Int × WState) :=
  let h := s.pool.wbh wbh
  let offs := s.wbc.wbcFilePos - h.wbhFileOffs
  let cnt := min (MBUFSIZE - offs) num
  if 0 ≤ offs ∧ offs < MBUFSIZE ∧ h.wbhData ∉ s.pool.gFreeMBufs then
    .ok (cnt,
      { s with
        pool := { s.pool with
          mem := Function.update s.pool.mem h.wbhData
            (copyMem (s.pool.mem h.wbhData) buf offs cnt)
          wbh := Function.update s.pool.wbh wbh
            { h with wbhInfo := wBufUpdateInfo h.wbhInfo offs (offs + cnt - 1) } }
        wbc := { s.wbc with wbcFilePos := long (s.wbc.wbcFilePos + cnt) } })
  else .error .overrun

def wBufWrite (efh : EFH) (s : WState) (buf : Nat → UInt8) (num : Int) :
    Except Fault (Ret × WState) := do
  let (t, s) ← wBufTarget efh s
  match t with
  | .stop r => .ok (r, s)
  | .fill wbh => do
      let (cnt, s) ← wBufFill s wbh buf num
      match s.wbc.wbcPosData with
      | none => .error .null
      | some p =>
          if WBUFHDRINFOSIZE ≤ (s.pool.wbh p).wbhInfo.length + 1 then do
            let (err, s) ← iwcFlushCache efh s
            match err with
            | some res2 => .ok (.failed res2, s)
            | none => .ok (.done cnt, s)
          else .ok (.done cnt, s)

/-- How the loop of `wc_WriteCache` ends; without memory `num` bytes at `buf` are left. -/
inductive LoopEnd
  | failed (res2 : Int)
  | noMem (buf : Nat → UInt8) (num : Int)
  | done

/-- The loop of `wc_WriteCache`; each turn but the last writes at least one byte. -/
def wBufWriteLoop (efh : EFH) :
    Nat → WState → (Nat → UInt8) → Int → Except Fault (LoopEnd × WState)
  | n, s, buf, num =>
    if num = 0 then .ok (.done, s)
    else
      match n with
      | 0 => .error .endless
      | n + 1 => do
          let (r, s) ← wBufWrite efh s buf num
          match r with
          | .failed res2 => .ok (.failed res2, s)
          | .noMem => .ok (.noMem buf num, s)
          | .done cnt => wBufWriteLoop efh n s (fun i => buf (cnt.toNat + i)) (num - cnt)

def FState.cluster (s : FState) (wbc : WBufCluster) : WState := ⟨s.pool, s.srv, wbc⟩

def FState.setCluster (s : FState) (w : WState) : FState :=
  ⟨w.pool, w.srv, { s.efh with efhWBuf := some w.wbc }⟩

def FState.setFilePos (s : FState) (pos : Int) : FState :=
  { s with efh := { s.efh with efhFilePos := pos } }

def FState.setFileLen (s : FState) (len : Int) : FState :=
  { s with efh := { s.efh with efhFileLen := len } }

def wcFlushCache (s : FState) : Except Fault (Option Int × FState) :=
  match s.efh.efhWBuf with
  | none => .ok (none, s)
  | some wbc => do
      let (err, w) ← iwcFlushCache s.efh (s.cluster wbc)
      .ok (err, s.setCluster w)

/-- The callers' `HasBufferedWData(efh) && wc_FlushCache(g, efh, &Res2) == DOSFALSE`. -/
def flushBuffered (s : FState) : Except Fault (Option Int × FState) :=
  if hasBufferedWData s.efh then wcFlushCache s else .ok (none, s)

def flushCacheAndWrite (s : FState) (buf : Nat → UInt8) (num : Int) :
    Except Fault (Ret × FState) := do
  let (err, s) ← flushBuffered s
  match err with
  | some res2 => .ok (.failed res2, s)
  | none =>
      match nfsWrite s.srv s.efh.efhNFSFh s.efh.efhFilePos buf num with
      | (.ok fileLen, srv) =>
          .ok (.done num, { s with srv := srv, efh := { s.efh with efhFileLen := fileLen } })
      | (.error res2, srv) => .ok (.failed res2, { s with srv := srv })

/-- The tests that send a write past the cache. -/
def goesPast (g : Pool) (wbc : WBufCluster) (num : Int) : Prop :=
  let bufsNeeded := (long (num + MBUFSIZE - 1)).tdiv MBUFSIZE
  g.gWriteBufferLimit < ulong num ∨ wbc.wbcWBufsMax < bufsNeeded ∨
    wbc.wbcWBufsUsed + wBufsAvail g < bufsNeeded

instance (g : Pool) (wbc : WBufCluster) (num : Int) : Decidable (goesPast g wbc num) := by
  unfold goesPast; infer_instance

def wcWriteCache (s : FState) (buf : Nat → UInt8) (num : Int) : Except Fault (Ret × FState) :=
  match s.efh.efhWBuf with
  | none => flushCacheAndWrite s buf num
  | some wbc =>
      if goesPast s.pool wbc num then flushCacheAndWrite s buf num
      else do
        let (r, w) ← wBufSeekAndPrepare s.efh (s.cluster wbc) s.efh.efhFilePos
        match r with
        | .failed res2 => .ok (.failed res2, s.setCluster w)
        | .noMem => flushCacheAndWrite (s.setCluster w) buf num
        | .done _ => do
            let (e, w) ← wBufWriteLoop s.efh num.toNat w buf num
            let s := s.setCluster w
            match e with
            | .failed res2 => .ok (.failed res2, s)
            | .noMem buf num => flushCacheAndWrite s buf num
            | .done =>
                .ok (.done num, { s with
                  efh := { s.efh with
                    efhFileLen := if s.efh.efhFileLen < w.wbc.wbcFilePos then w.wbc.wbcFilePos
                      else s.efh.efhFileLen } })

end Anfs.Buf
