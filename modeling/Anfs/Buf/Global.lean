import Anfs.Basic
import Anfs.Nfs.Write
import Anfs.Buf.Info
import Mathlib.Logic.Function.Basic

/-!
# Shared buffers, write clusters and the server

The buffers (`MBUFNODE`) and buffer headers (`WBUFHDR`) form pools that all open files
share. Both are named by numbers. The free buffers are a list, since nothing but their
order is read from them; the headers are kept in a memory, since the free list and the
chains of all clusters are threaded through the same field `wbh_Next`.

`nfs_MWrite` and `nfs_MAWrite` appear here as one operation: the server answers a block
with success or with an error. What an error leaves behind in the file is arbitrary.
-/
namespace Anfs.Buf
open Anfs.Nfs

/-- An address of a buffer or of a buffer header. -/
abbrev Ptr := Nat

/-- The identity of a file of the server, what an `nfs_fh` stands for. -/
abbrev Fh := Nat

def MBUFSIZE : Int := 8192

/-- What stops the program: a null pointer is followed, bytes are copied to a place outside
a buffer or in one that has been given back, a loop does not end. -/
inductive Fault
  | null
  | overrun
  | endless
  deriving DecidableEq, Repr

structure WBufHdr where
  wbhNext : Option Ptr
  wbhFileOffs : Int
  wbhInfo : List WBufHdrInfo
  wbhData : Ptr
  deriving DecidableEq, Repr

structure WBufCluster where
  wbcWBufsMax : Int
  wbcWBufsUsed : Nat
  wbcFirstData : Option Ptr
  wbcLastData : Option Ptr
  wbcPosData : Option Ptr
  wbcFilePos : Int
  deriving DecidableEq, Repr

structure RBufHdr where
  rbhFileOffs : Int
  rbhDataLen : Int
  rbhData : Option Ptr
  deriving DecidableEq, Repr

/-- An open file. `efhNFSFh` and `efhKey` stand for the fields of its lock `efh_ELock`. -/
structure EFH where
  efhId : Int
  efhFilePos : Int
  efhFileLen : Int
  efhMode : Int
  efhNFSFh : Fh
  efhKey : Int
  efhWBuf : Option WBufCluster
  efhRBuf : Option RBufHdr
  efhRes2 : Int
  deriving DecidableEq, Repr

/-- The fields of `Global_T` about buffers, and the memory they point into. `newMBuf` is
the address `AllocMem` returns next. -/
structure Pool where
  gWriteBufferLimit : Int
  gNumMBufs : Int
  gNumFreeMBufs : Int
  gFreeMBufs : List Ptr
  gNumWBufHdrs : Int
  gNumFreeWBufHdrs : Int
  gFreeWBufHdr : Option Ptr
  wbh : Ptr → WBufHdr
  mem : Ptr → Nat → UInt8
  newMBuf : Ptr

/-- How the server answers the write of a block: the size of the file it reports, or the
error code with the writes it had executed by then. -/
inductive WriteAnswer
  | done (fileLen : Int)
  | failed (res2 : Int) (executed : List (UInt32 × List UInt8))

/-- The files of the server and the answers it is going to give. `drops` is not part of
the program: it records the handle and the error of each flush that gave buffers up. -/
structure Server where
  file : Fh → SrvFile
  answers : Nat → WriteAnswer
  answered : Nat
  drops : List (Int × Int)

/-- What the functions on a write cluster change. -/
structure WState where
  pool : Pool
  srv : Server
  wbc : WBufCluster

/-- What the functions on an open file change. -/
structure FState where
  pool : Pool
  srv : Server
  efh : EFH

/-- The `n` bytes at `buf`. -/
def block (buf : Nat → UInt8) (n : Nat) : List UInt8 := (List.range n).map buf

def Server.setFile (srv : Server) (fh : Fh) (f : SrvFile) : Server :=
  { srv with file := Function.update srv.file fh f }

/-- `nfs_MWrite` or `nfs_MAWrite` of the `count` bytes at `buf`: the size reported, or the
error stored in `*Res2`. -/
def nfsWrite (srv : Server) (fh : Fh) (offset : Int) (buf : Nat → UInt8) (count : Int) :
    Except Int Int × Server :=
  let next := { srv with answered := srv.answered + 1 }
  match srv.answers srv.answered with
  | .done fileLen =>
      (.ok fileLen,
        next.setFile fh ((srv.file fh).write (UInt32.ofInt offset, block buf count.toNat)))
  | .failed res2 executed => (.error res2, next.setFile fh ((srv.file fh).writeAll executed))

/-- `mb_FreeSomeMBufs`. -/
def mbFreeSomeMBufs (g : Pool) (numBufs : Int) : Except Fault Pool :=
  if numBufs.toNat ≤ g.gFreeMBufs.length then
    .ok { g with
      gNumMBufs := g.gNumMBufs - numBufs
      gNumFreeMBufs := g.gNumFreeMBufs - numBufs
      gFreeMBufs := g.gFreeMBufs.drop numBufs.toNat }
  else .error .null

/-- The loop of `mb_AllocMoreMBufs`: `i` buffers are wanted, `AllocMem` succeeds `avail`
times. The second component is the number of buffers that were not obtained. -/
def allocLoop (g : Pool) : Nat → Nat → Pool × Nat
  | 0, _ => (g, 0)
  | i + 1, 0 => (g, i + 1)
  | i + 1, avail + 1 =>
      allocLoop { g with gFreeMBufs := g.newMBuf :: g.gFreeMBufs, newMBuf := g.newMBuf + 1 } i
        avail

/-- `mb_AllocMoreMBufs`. -/
def mbAllocMoreMBufs (g : Pool) (numBufs : Int) (avail : Nat) : Except Fault (Bool × Pool) :=
  let (g, missing) := allocLoop g numBufs.toNat avail
  let numNew := numBufs - missing
  let g := { g with gNumMBufs := g.gNumMBufs + numNew, gNumFreeMBufs := g.gNumFreeMBufs + numNew }
  if missing = 0 then .ok (true, g)
  else do
    let g ← mbFreeSomeMBufs g numNew
    .ok (false, g)

/-- `mb_ObtainMBuf`; an empty pool leaves the result without a value. -/
def mbObtainMBuf (g : Pool) : Except Fault (Ptr × Pool) :=
  match g.gFreeMBufs with
  | mbn :: rest =>
      if g.gNumFreeMBufs ≠ 0 then
        .ok (mbn, { g with gNumFreeMBufs := g.gNumFreeMBufs - 1, gFreeMBufs := rest })
      else .error .null
  | [] => .error .null

/-- `mb_ReleaseMBuf`. -/
def mbReleaseMBuf (g : Pool) (mbn : Ptr) : Pool :=
  { g with gNumFreeMBufs := g.gNumFreeMBufs + 1, gFreeMBufs := mbn :: g.gFreeMBufs }

end Anfs.Buf
