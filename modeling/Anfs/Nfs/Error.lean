import Anfs.Rpc.Client

/-!
# Error codes

Server status and RPC status, and the I/O error codes the handler turns them into.
-/
namespace Anfs.Nfs
open Anfs.Rpc

/-- `nfsstat` as decoded from a reply; a server may send a number outside the list. -/
inductive Nfsstat
  | ok
  | perm
  | noent
  | io
  | nxio
  | acces
  | exist
  | nodev
  | notdir
  | isdir
  | fbig
  | nospc
  | rofs
  | nametoolong
  | notempty
  | dquot
  | stale
  | wflush
  | other (code : Nat)
  deriving DecidableEq, Repr

def errorNoFreeStore : Int := 103
def errorBadNumber : Int := 115
def errorRequiredArgMissing : Int := 116
def errorFileNotObject : Int := 121
def errorObjectInUse : Int := 202
def errorObjectExists : Int := 203
def errorObjectNotFound : Int := 205
def errorBadStreamName : Int := 206
def errorObjectTooLarge : Int := 207
def errorActionNotKnown : Int := 209
def errorInvalidLock : Int := 211
def errorObjectWrongType : Int := 212
def errorDiskWriteProtected : Int := 214
def errorDirectoryNotEmpty : Int := 216
def errorSeekError : Int := 219
def errorDiskFull : Int := 221
def errorWriteProtected : Int := 223
def errorReadProtected : Int := 224

def nfsErr2IoErr : Nfsstat → Int
  | .ok => 0
  | .perm => errorWriteProtected
  | .noent => errorObjectNotFound
  | .io => errorObjectNotFound
  | .nxio => errorObjectNotFound
  | .acces => errorWriteProtected
  | .exist => errorObjectExists
  | .nodev => errorObjectNotFound
  | .notdir => errorObjectWrongType
  | .isdir => errorObjectWrongType
  | .fbig => errorObjectTooLarge
  | .nospc => errorDiskFull
  | .rofs => errorDiskWriteProtected
  | .nametoolong => errorBadStreamName
  | .notempty => errorDirectoryNotEmpty
  | .dquot => errorDiskFull
  | .stale => errorInvalidLock
  | .wflush => 100
  | .other _ => errorBadNumber

/-- The kinds of action that change the meaning of a refusal: `'r'`, `'w'` and `'c'`. -/
inductive ActType
  | read
  | write
  | create
  deriving DecidableEq, Repr

def nfsErr2IoErrCont (i : Nfsstat) (acttype : ActType) : Int :=
  match i, acttype with
  | .perm, .read => errorReadProtected
  | .acces, .read => errorReadProtected
  | i, _ => nfsErr2IoErr i

def client2IoErr (cu : McuData) : Int :=
  if cu.mcuError = .success then 0 else 1000 + cu.mcuError.toInt

theorem nfsErr2IoErr_ne_zero {i : Nfsstat} (h : i ≠ .ok) : nfsErr2IoErr i ≠ 0 := by
  cases i with
  | ok => exact absurd rfl h
  | _ => simp only [nfsErr2IoErr]; decide

/-- Every refusal becomes an error code, in every context. -/
theorem nfsErr2IoErrCont_ne_zero {i : Nfsstat} (h : i ≠ .ok) (acttype : ActType) :
    nfsErr2IoErrCont i acttype ≠ 0 := by
  unfold nfsErr2IoErrCont
  split
  · decide
  · decide
  · exact nfsErr2IoErr_ne_zero h

theorem client2IoErr_ne_zero {cu : McuData} (h : cu.mcuError ≠ .success) :
    client2IoErr cu ≠ 0 := by
  rw [client2IoErr, if_neg h]
  cases cu.mcuError <;> decide

end Anfs.Nfs
