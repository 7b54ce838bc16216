import Anfs.Buf.WBuf

/-!
# The actions on open files

`read.c`, `rbuf.c`, `write.c`, `seek.c`, and of `find.c`, `fh.c`, `filesys.c` what concerns
open files and their buffers. Opening is the part of `act_FINDOUTPUT`,
`act_FINDREADWRITE` and `act_FH_FROM_LOCK` behind the grant of the lock. What the
environment decides in an action (the answer to a request that is not a write, which
allocations succeed, the number of locks on the file) is an argument of it.
-/
namespace Anfs.File
open Anfs.Nfs Anfs.Buf

def DOSTRUE : Int := -1
def DOSFALSE : Int := 0

def MODE_READWRITE : Int := 1004
def MODE_OLDFILE : Int := 1005
def MODE_NEWFILE : Int := 1006

def OFFSET_BEGINNING : Int := -1
def OFFSET_CURRENT : Int := 0
def OFFSET_END : Int := 1

def RBUFFERLIMIT : Int := 2048

/-- The part of `Global_T` that actions on open files use. `gFH` is the list of open files,
`lastId` the static counter of `fh_Create`. -/
structure Global where
  pool : Pool
  srv : Server
  gFH : List EFH
  lastId : Int
  gNumBuffers : Int
  gBufSizePerFile : Int
  gSlowMedium : Bool
  gAttrCacheTimeout : Int
  gDirCacheTimeout : Int
  gAttrCacheMaxEntries : Int
  gDirCacheMaxEntries : Int
  gRes1 : Int
  gRes2 : Int

def Global.setRes (g : Global) (res1 res2 : Int) : Global :=
  { g with gRes1 := res1, gRes2 := res2 }

def Global.setRes1 (g : Global) (res1 : Int) : Global := { g with gRes1 := res1 }

def fhLookup (fhs : List EFH) (id : Int) : Option EFH := fhs.find? fun efh => efh.efhId = id

/-- The list with `efh` in the place of the file that `fh_Lookup` finds for its id. -/
def storeFh (efh : EFH) : List EFH → List EFH
  | [] => []
  | e :: rest => if e.efhId = efh.efhId then efh :: rest else e :: storeFh efh rest

/-- `fh_Remove` of the file that `fh_Lookup` finds. -/
def fhRemove (id : Int) : List EFH → List EFH
  | [] => []
  | e :: rest => if e.efhId = id then rest else e :: fhRemove id rest

def Global.state (g : Global) (efh : EFH) : FState := ⟨g.pool, g.srv, efh⟩

def Global.store (g : Global) (s : FState) : Global :=
  { g with pool := s.pool, srv := s.srv, gFH := storeFh s.efh g.gFH }

/-- `fh_Create`, `fh_Insert`, and the caches: a write cache for files opened as new. -/
def openFile (g : Global) (mode fileLen : Int) (fh : Fh) (key : Int) (wbuf rbuf : Bool) : Global :=
  let efh : EFH :=
    { efhId := g.lastId + 1
      efhFilePos := 0
      efhFileLen := fileLen
      efhMode := mode
      efhNFSFh := fh
      efhKey := key
      efhWBuf :=
        if mode = MODE_NEWFILE ∧ g.gBufSizePerFile ≠ 0 ∧ wbuf then
          some ⟨g.gBufSizePerFile.tdiv MBUFSIZE, 0, none, none, none, 0⟩
        else none
      efhRBuf := if rbuf then some ⟨0, 0, none⟩ else none
      efhRes2 := 0 }
  { g with gFH := efh :: g.gFH, lastId := g.lastId + 1, gRes1 := DOSTRUE }

/-- What `nfs_MRead` comes to: the bytes stored, their number and the size reported, or the
error. -/
inductive ReadAnswer
  | done (data : Nat → UInt8) (num : Nat) (fileLen : Int)
  | failed (res2 : Int)

def hasBufferedRData (efh : EFH) : Bool :=
  match efh.efhRBuf with
  | some rbh => rbh.rbhData.isSome
  | none => false

def rbReleaseRBufData (s : FState) : Except Fault FState :=
  match s.efh.efhRBuf with
  | none => .error .null
  | some rbh =>
      .ok { s with
        pool := match rbh.rbhData with
          | some rbn => mbReleaseMBuf s.pool rbn
          | none => s.pool
        efh := { s.efh with efhRBuf := some { rbh with rbhData := none } } }

/-- The callers' `if(HasBufferedRData(efh)) rb_ReleaseRBufData(g, efh)`. -/
def releaseBuffered (s : FState) : Except Fault FState :=
  if hasBufferedRData s.efh then rbReleaseRBufData s else .ok s

/-- The branch of `rb_ReadBuf` that reads into the caller's memory `buf`. -/
def readPlain (s : FState) (buf : Nat → UInt8) (ans : ReadAnswer) :
    Except Fault (Ret × (Nat → UInt8) × FState) := do
  let s ← releaseBuffered s
  match ans with
  | .done data num fileLen =>
      .ok (.done num, copyMem buf data 0 num,
        (s.setFileLen fileLen).setFilePos (long (s.efh.efhFilePos + num)))
  | .failed res2 => .ok (.failed res2, buf, s)

/-- The read of a whole buffer in `rb_ReadBuf`, after `num - numLeft` bytes have been taken
from the old one. -/
def refill (s : FState) (rbh : RBufHdr) (rbn : Ptr) (buf : Nat → UInt8) (num numLeft : Int)
    (ans : ReadAnswer) : Except Fault (Ret × (Nat → UInt8) × FState) :=
  let filePos := long (s.efh.efhFilePos + (num - numLeft))
  match ans with
  | .done data numRead fileLen =>
      let s := s.setFileLen fileLen
      if numRead = 0 then do
        let s ← rbReleaseRBufData (s.setFilePos filePos)
        .ok (.done (num - numLeft), buf, s)
      else
        let l := min (numRead : Int) numLeft
        .ok (.done (num - (numLeft - l)), copyMem buf data (num - numLeft) l,
          { s with
            pool := { s.pool with
              mem := Function.update s.pool.mem rbn
                (copyMem (s.pool.mem rbn) data 0 numRead) }
            efh := { s.efh with
              efhFilePos := long (filePos + l)
              efhRBuf := some { rbh with rbhFileOffs := filePos, rbhDataLen := numRead } } })
  | .failed res2 => do
      let s ← rbReleaseRBufData s
      .ok (.failed res2, buf, s)

/-- The branch of `rb_ReadBuf` that reads through the buffer. -/
def readThrough (s : FState) (rbh : RBufHdr) (buf : Nat → UInt8) (num : Int)
    (ans : ReadAnswer) : Except Fault (Ret × (Nat → UInt8) × FState) :=
  let filePos := s.efh.efhFilePos
  match rbh.rbhData with
  | none => do
      let (rbn, pool) ← mbObtainMBuf s.pool
      let rbh := { rbh with rbhData := some rbn }
      refill { s with pool := pool, efh := { s.efh with efhRBuf := some rbh } } rbh rbn buf num num
        ans
  | some rbn =>
      let last := long (rbh.rbhFileOffs + rbh.rbhDataLen)
      let l := if rbh.rbhFileOffs ≤ filePos ∧ filePos < last then min num (last - filePos) else 0
      let buf := copyMem buf
        (fun i => s.pool.mem rbn ((filePos - rbh.rbhFileOffs).toNat + i)) 0 l
      if num - l ≠ 0 then refill s rbh rbn buf num (num - l) ans
      else .ok (.done num, buf, s.setFilePos (long (filePos + l)))

def rbReadBuf (s : FState) (buf : Nat → UInt8) (num : Int) (ans : ReadAnswer) :
    Except Fault (Ret × (Nat → UInt8) × FState) :=
  if num ≤ RBUFFERLIMIT ∧ s.efh.efhFilePos ≠ 0 then
    match s.efh.efhRBuf with
    | none => .error .null
    | some rbh =>
        if rbh.rbhData.isSome ∨ 0 < s.pool.gNumFreeMBufs then readThrough s rbh buf num ans
        else readPlain s buf ans
  else readPlain s buf ans

/-- `act_READ` of `num` bytes to `buf`. -/
def actREAD (g : Global) (id : Int) (buf : Nat → UInt8) (num : Int) (ans : ReadAnswer) :
    Except Fault ((Nat → UInt8) × Global) :=
  match fhLookup g.gFH id with
  | none => .ok (buf, g.setRes DOSFALSE errorFileNotObject)
  | some efh =>
      if efh.efhRes2 ≠ 0 then
        .ok (buf, (g.store (g.state { efh with efhRes2 := 0 })).setRes DOSFALSE efh.efhRes2)
      else if ¬ (efh.efhMode = MODE_OLDFILE ∨ efh.efhMode = MODE_READWRITE) then
        .ok (buf, g.setRes DOSFALSE errorFileNotObject)
      else do
        let (err, s) ← flushBuffered (g.state efh)
        match err with
        | some res2 => .ok (buf, (g.store s).setRes (-1) res2)
        | none =>
            if num < 0 then .ok (buf, (g.store s).setRes (-1) g.gRes2)
            else if num = 0 ∨ (s.efh.efhFileLen ≠ 0 ∧ s.efh.efhFileLen = s.efh.efhFilePos) then
              .ok (buf, (g.store s).setRes 0 0)
            else do
              let (r, buf, s) ← rbReadBuf s buf num ans
              match r with
              | .failed res2 => .ok (buf, (g.store s).setRes (-1) res2)
              | .noMem => .ok (buf, (g.store s).setRes 0 0)
              | .done n => .ok (buf, (g.store s).setRes n 0)

/-- `act_WRITE` of `num` bytes at `buf`. -/
def actWRITE (g : Global) (id : Int) (buf : Nat → UInt8) (num : Int) : Except Fault Global :=
  match fhLookup g.gFH id with
  | none => .ok (g.setRes DOSFALSE errorFileNotObject)
  | some efh =>
      if efh.efhRes2 ≠ 0 then
        .ok ((g.store (g.state { efh with efhRes2 := 0 })).setRes DOSFALSE efh.efhRes2)
      else if ¬ (efh.efhMode = MODE_OLDFILE ∨ efh.efhMode = MODE_READWRITE ∨
          efh.efhMode = MODE_NEWFILE) then
        .ok (g.setRes DOSFALSE errorFileNotObject)
      else do
        let s ← releaseBuffered (g.state efh)
        if 0 < num then do
          let (r, s) ← wcWriteCache s buf num
          match r with
          | .failed res2 => .ok ((g.store s).setRes (-1) res2)
          | .noMem => .ok ((g.store s).setRes 0 0)
          | .done n =>
              .ok ((g.store (s.setFilePos (long (s.efh.efhFilePos + n)))).setRes n 0)
        else do
          let (err, s) ← flushBuffered s
          match err with
          | some res2 => .ok ((g.store s).setRes (-1) res2)
          | none => .ok ((g.store s).setRes 0 0)

/-- The position `act_SEEK` is asked for. -/
def seekPos (efh : EFH) (offset mode : Int) : Int :=
  if mode = OFFSET_CURRENT then long (efh.efhFilePos + offset)
  else if mode = OFFSET_BEGINNING then offset
  else if mode = OFFSET_END then long (efh.efhFileLen + offset)
  else -1

def actSEEK (g : Global) (id offset mode : Int) : Global :=
  match fhLookup g.gFH id with
  | none => g.setRes DOSFALSE errorFileNotObject
  | some efh =>
      let newPos := seekPos efh offset mode
      if 0 ≤ newPos ∧ newPos ≤ efh.efhFileLen then
        (g.store (g.state { efh with efhFilePos := newPos })).setRes efh.efhFilePos 0
      else g.setRes DOSFALSE errorSeekError

/-- What `nfs_SetSize` comes to: the size in the attributes returned, or the error. -/
inductive SizeAnswer
  | done (size : UInt32)
  | failed (res2 : Int)

/-- The server's file cut or extended to `n` bytes. -/
def setSize (f : SrvFile) (n : Nat) : SrvFile :=
  { bytes := fun x => if x < n then f.bytes x else 0, size := n }

/-- The size `act_SET_FILE_SIZE` is asked for. -/
def newSize (efh : EFH) (offset mode : Int) : Int :=
  if mode = OFFSET_BEGINNING then offset
  else if mode = OFFSET_CURRENT then long (efh.efhFilePos + offset)
  else if mode = OFFSET_END then long (efh.efhFileLen + offset)
  else -1

/-- The part of `act_SET_FILE_SIZE` behind the test for other locks. -/
def doSetSize (g : Global) (s : FState) (offset mode : Int) (ans : SizeAnswer) : Global :=
  let n := newSize s.efh offset mode
  if n = -1 then (g.store s).setRes (-1) errorRequiredArgMissing
  else if n < 0 then (g.store s).setRes (-1) errorSeekError
  else
    match ans with
    | .failed res2 => (g.store s).setRes (-1) res2
    | .done size =>
        let pos := s.efh.efhFilePos
        let len := long size.toNat
        let srv := s.srv.setFile s.efh.efhNFSFh (setSize (s.srv.file s.efh.efhNFSFh) n.toNat)
        (g.store { s with
          srv := srv
          efh := { s.efh with
            efhFilePos := if size.toNat < ulong pos then len else pos
            efhFileLen := len } }).setRes1 len

/-- `act_SET_FILE_SIZE`; `numLocks` is what `lock_NumLocksFromKey` answers. After a flush that fails
`Abort` only keeps the test for locks from being made. -/
def actSETFILESIZE (g : Global) (id offset mode : Int) (numLocks : Nat) (ans : SizeAnswer) :
    Except Fault Global :=
  match fhLookup g.gFH id with
  | none => .ok (g.setRes (-1) errorFileNotObject)
  | some efh => do
      let (err, s) ← flushBuffered (g.state efh)
      match err with
      | some res2 =>
          .ok (doSetSize (g.setRes (-1) res2) s offset mode ans)
      | none =>
          if 1 < numLocks then .ok ((g.store s).setRes (-1) errorObjectInUse)
          else .ok (doSetSize g s offset mode ans)

def actEND (g : Global) (id : Int) : Except Fault Global :=
  match fhLookup g.gFH id with
  | none => .ok (g.setRes DOSFALSE errorFileNotObject)
  | some efh => do
      let bufferError := efh.efhRes2
      let (err, s) ← flushBuffered (g.state { efh with efhRes2 := 0 })
      let g := match err with
        | some res2 => g.setRes DOSFALSE res2
        | none => g.setRes1 DOSTRUE
      let s ← releaseBuffered s
      let g := { g with pool := s.pool, srv := s.srv, gFH := fhRemove id g.gFH }
      .ok (if bufferError ≠ 0 then g.setRes DOSFALSE bufferError else g)

/-- `fh_ForEach` of `FlushProc`, on the files behind those done. -/
def flushEach : List EFH → Pool → Server → Int × Int →
    Except Fault (List EFH × Pool × Server × (Int × Int))
  | [], pool, srv, res => .ok ([], pool, srv, res)
  | efh :: rest, pool, srv, res => do
      let (err, s) ← flushBuffered ⟨pool, srv, efh⟩
      let (efh, res) := match err with
        | some res2 => ({ s.efh with efhRes2 := res2 }, (DOSFALSE, res2))
        | none => (s.efh, res)
      let (rest, pool, srv, res) ← flushEach rest s.pool s.srv res
      .ok (efh :: rest, pool, srv, res)

/-- `fh_ForEach(g, FlushProc, NULL)`. -/
def flushAll (g : Global) : Except Fault Global := do
  let (fhs, pool, srv, res) ← flushEach g.gFH g.pool g.srv (g.gRes1, g.gRes2)
  .ok { g with pool := pool, srv := srv, gFH := fhs, gRes1 := res.1, gRes2 := res.2 }

def actFLUSH (g : Global) : Except Fault Global := do
  let g ← flushAll g
  .ok (g.setRes1 DOSTRUE)

/-- `RemReadBufs`, which runs `FlushProc` on every file, not `RemReadBuf`. -/
def remReadBufs (g : Global) : Except Fault Global := flushAll g

/-- The main loop before the action of a client with other credentials: the data is flushed
under the old ones; `ok` tells whether the new ones could be set up. -/
def updateAuth (g : Global) (ok : Bool) : Except Fault Global := do
  let g ← actFLUSH g
  .ok (if ok then g else g.setRes DOSFALSE errorNoFreeStore)

def ATTRENTRYSIZE : Int := 8 + 4 + 4 + 112
def DIRENTRYSIZE : Int := 16 + 44 + 10 + 2 * 20

/-- The loop that distributes the rest of the memory. -/
def distributeRest : Nat → Int → Int → Int → Int × Int
  | 0, _, attrs, dirs => (attrs, dirs)
  | n + 1, bufMem, attrs, dirs =>
      if 0 ≤ bufMem then
        distributeRest n (bufMem - (ATTRENTRYSIZE + DIRENTRYSIZE)) (attrs + 1) (dirs + 1)
      else (attrs, dirs)

/-- `DistributeBuffers`: numbers of buffers, of attribute and of directory entries. -/
def distributeBuffers (g : Global) (numBufs : Int) : Int × Int × Int :=
  let bufMem := long (numBufs * 512)
  let bigTimeout := 4 * 30 ≤ g.gAttrCacheTimeout ∨ 4 * 60 ≤ g.gDirCacheTimeout
  let mbufs := (bufMem.tdiv 2).tdiv MBUFSIZE
  let attrs := (bufMem.tdiv 4).tdiv ATTRENTRYSIZE
  let dirs := (bufMem.tdiv 4).tdiv DIRENTRYSIZE
  let attrs := if ¬ bigTimeout ∧ 200 < attrs then 200 else attrs
  let dirs := if ¬ bigTimeout ∧ 200 < dirs then 200 else dirs
  let mbufs := if g.gSlowMedium ∧ 50 < (mbufs * MBUFSIZE).tdiv 8192 then 50 else mbufs
  let bufMem := bufMem - mbufs * MBUFSIZE - attrs * ATTRENTRYSIZE - dirs * DIRENTRYSIZE
  let l := if ¬ bigTimeout ∧ ¬ g.gSlowMedium then bufMem.tdiv MBUFSIZE else 0
  let mbufs := mbufs + l
  let bufMem := bufMem - l * MBUFSIZE
  let (attrs, dirs) := distributeRest (bufMem.toNat + 1) bufMem attrs dirs
  (mbufs, max attrs 20, max dirs 20)

/-- `f` is called when too few buffers are free to leave `mbufs` of them. -/
def whenShort (mbufs : Int) (f : Global → Except Fault Global) (g : Global) :
    Except Fault Global :=
  if g.pool.gNumFreeMBufs < g.pool.gNumMBufs - mbufs then f g else .ok g

/-- `act_MORE_CACHE` asks the files for their buffers. -/
def gatherMBufs (g : Global) (mbufs : Int) : Except Fault Global := do
  let g ← whenShort mbufs actFLUSH g
  whenShort mbufs remReadBufs g

/-- Shrinking the pool in `act_MORE_CACHE`. -/
def shrinkMBufs (g : Global) (mbufs : Int) : Except Fault Global := do
  let g ← gatherMBufs g mbufs
  let pool ← mbFreeSomeMBufs g.pool (g.pool.gNumMBufs - mbufs)
  .ok { g with pool := pool }

/-- The pool brought to `mbufs` buffers; `AllocMem` succeeds `avail` times. -/
def resizeMBufs (g : Global) (mbufs : Int) (avail : Nat) : Except Fault (Bool × Global) :=
  let diff := mbufs - g.pool.gNumMBufs
  if diff < 0 then do
    let g ← shrinkMBufs g mbufs
    .ok (true, g)
  else if 0 < diff then do
    let (ok, pool) ← mbAllocMoreMBufs g.pool diff avail
    .ok (ok, { g with pool := pool })
  else .ok (true, g)

/-- The number of "buffers" after `num` more. -/
def newNumBufs (g : Global) (num : Int) : Int :=
  let sum := long (g.gNumBuffers + num)
  if sum < 0 then 0 else sum

/-- `act_MORE_CACHE`. -/
def actMORECACHE (g : Global) (num : Int) (avail : Nat) : Except Fault Global :=
  if num = 0 then .ok (g.setRes DOSTRUE g.gNumBuffers)
  else do
    let numBufs := newNumBufs g num
    let (mbufs, attrs, dirs) := distributeBuffers g numBufs
    let (ok, g) ← resizeMBufs g mbufs avail
    if ok then
      .ok (({ g with
        gAttrCacheMaxEntries := attrs
        gDirCacheMaxEntries := dirs
        gNumBuffers := numBufs } : Global).setRes DOSTRUE numBufs)
    else .ok (g.setRes DOSFALSE errorNoFreeStore)

/-- `mb_AllocMBufs`. -/
def mbAllocMBufs (g : Pool) (numBufs : Int) (avail : Nat) : Except Fault (Bool × Pool) :=
  mbAllocMoreMBufs { g with gFreeMBufs := [], gNumMBufs := 0, gNumFreeMBufs := 0 } numBufs avail

/-- The loop of `wc_AllocWBufs`. -/
def allocWBufs : Nat → Pool → Pool
  | 0, g => g
  | n + 1, g =>
      allocWBufs n { g with
        wbh := Function.update g.wbh n ⟨g.gFreeWBufHdr, 0, [], 0⟩
        gFreeWBufHdr := some n }

/-- `wc_AllocWBufs`; when an allocation fails (`ok` is false) the headers are given back. -/
def wcAllocWBufs (g : Pool) (numBufs : Nat) (ok : Bool) : Pool :=
  if ok then
    { allocWBufs numBufs { g with gFreeWBufHdr := none } with
      gNumWBufHdrs := numBufs
      gNumFreeWBufHdrs := numBufs }
  else { g with gFreeWBufHdr := none, gNumWBufHdrs := 0, gNumFreeWBufHdrs := 0 }

/-- What `G_Init` does about the pools, with the settings and the memory of `g`. The handler
runs with whatever could be obtained. -/
def gInit (g : Global) (numMBufs numWBufs avail : Nat) (ok : Bool) : Except Fault Global := do
  let (_, pool) ← mbAllocMBufs g.pool numMBufs avail
  .ok { g with pool := wcAllocWBufs pool numWBufs ok, gFH := [] }

inductive Action
  | openFile (mode fileLen : Int) (fh : Fh) (key : Int) (wbuf rbuf : Bool)
  | read (id : Int) (buf : Nat → UInt8) (num : Int) (ans : ReadAnswer)
  | write (id : Int) (buf : Nat → UInt8) (num : Int)
  | seek (id offset mode : Int)
  | setFileSize (id offset mode : Int) (numLocks : Nat) (ans : SizeAnswer)
  | flush
  | timer
  | updateAuth (ok : Bool)
  | moreCache (num : Int) (avail : Nat)
  | endFile (id : Int)

def step (g : Global) : Action → Except Fault Global
  | .openFile mode fileLen fh key wbuf rbuf => .ok (openFile g mode fileLen fh key wbuf rbuf)
  | .read id buf num ans => do
      let (_, g) ← actREAD g id buf num ans
      .ok g
  | .write id buf num => actWRITE g id buf num
  | .seek id offset mode => .ok (actSEEK g id offset mode)
  | .setFileSize id offset mode numLocks ans => actSETFILESIZE g id offset mode numLocks ans
  | .flush => actFLUSH g
  | .timer => actFLUSH g
  | .updateAuth ok => updateAuth g ok
  | .moreCache num avail => actMORECACHE g num avail
  | .endFile id => actEND g id

/-- A step of a run: a fault ends it. -/
def stepRun (r : Except Fault Global) (a : Action) : Except Fault Global := r >>= fun g => step g a

end Anfs.File
