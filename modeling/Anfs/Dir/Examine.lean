import Anfs.Dir.Handles

/-!
# `EXAMINE_OBJECT` and `EXAMINE_NEXT`

Of `examine.c`. The attributes of an object come from the attribute cache or the server; what
`c_GetAttr` and `LookupAttr` find is an argument here.
-/
namespace Anfs.Dir
open Anfs.Lib Anfs.Xdr Anfs.Nfs
open Anfs.File (DOSTRUE DOSFALSE)

def FIBF_DELETE : UInt32 := 1
def FIBF_EXECUTE : UInt32 := 2
def FIBF_WRITE : UInt32 := 4
def FIBF_READ : UInt32 := 8
def FIBF_GRP_DELETE : UInt32 := 0x100
def FIBF_GRP_EXECUTE : UInt32 := 0x200
def FIBF_GRP_WRITE : UInt32 := 0x400
def FIBF_GRP_READ : UInt32 := 0x800
def FIBF_OTR_DELETE : UInt32 := 0x1000
def FIBF_OTR_EXECUTE : UInt32 := 0x2000
def FIBF_OTR_WRITE : UInt32 := 0x4000
def FIBF_OTR_READ : UInt32 := 0x8000

/-- The bits `bits` when a condition on the mode holds. -/
def bitsIf (c : Bool) (bits : UInt32) : UInt32 := if c then bits else 0

def nfsMode2Protection (mode : UInt32) : UInt32 :=
  bitsIf (mode &&& 0o100 == 0) FIBF_EXECUTE |||
  bitsIf (mode &&& 0o200 == 0) (FIBF_WRITE ||| FIBF_DELETE) |||
  bitsIf (mode &&& 0o400 == 0) FIBF_READ |||
  bitsIf (mode &&& 0o10 != 0) FIBF_GRP_EXECUTE |||
  bitsIf (mode &&& 0o20 != 0) (FIBF_GRP_WRITE ||| FIBF_GRP_DELETE) |||
  bitsIf (mode &&& 0o40 != 0) FIBF_GRP_READ |||
  bitsIf (mode &&& 1 != 0) FIBF_OTR_EXECUTE |||
  bitsIf (mode &&& 2 != 0) (FIBF_OTR_WRITE ||| FIBF_OTR_DELETE) |||
  bitsIf (mode &&& 4 != 0) FIBF_OTR_READ

/-- `NFSType2EntryType`; the argument is an `ftype`, the results are `ST_FILE`, `ST_USERDIR`,
`ST_BDEVICE`, `ST_CDEVICE`, `ST_SOFTLINK`, `ST_SOCKET` and `ST_FIFO`. -/
def nfsType2EntryType (type : UInt32) : Int :=
  if type = 1 then -3
  else if type = 2 then 2
  else if type = 3 then -10
  else if type = 4 then -11
  else if type = 5 then 3
  else if type = 6 then -12
  else if type = 8 then -13
  else 0

structure DateStamp where
  dsDays : Int
  dsMinute : Int
  dsTick : Int
  deriving DecidableEq, Repr

def TICKS_PER_SECOND : UInt32 := 50

/-- `timeval2DateStamp`; `seconds` is a `LONG`, the rest of the arithmetic is unsigned. -/
def timeval2DateStamp (tv : Nfstime) : DateStamp :=
  let seconds := long (tv.seconds + tv.useconds / 1000000).toNat
  { dsDays := seconds.tdiv 86400
    dsMinute := (seconds.tmod 86400).tdiv 60
    dsTick := long (tv.seconds % 60 * TICKS_PER_SECOND + tv.useconds / 20000).toNat }

def nfsuid2UID (uid : UInt32) : UInt16 :=
  if 0xFFFF ≤ uid then 0 else if uid = 0 then 0xFFFF else uid.toUInt16

def nfsgid2GID (gid : UInt32) : UInt16 :=
  if 0xFFFF ≤ gid then 0 else if gid = 0 then 0xFFFF else gid.toUInt16

/-- A client's block. `fibFileName` are the bytes of `fib_FileName`. -/
structure FIB where
  fibDiskKey : UInt32
  fibDirEntryType : Int
  fibFileName : List UInt8
  fibProtection : UInt32
  fibSize : UInt32
  fibNumBlocks : UInt32
  fibDate : DateStamp
  fibComment : List UInt8
  fibOwnerUID : UInt16
  fibOwnerGID : UInt16
  deriving DecidableEq

def fattr2FIB (a : Fattr) (name : List UInt8) (maxFileNameLen : Nat) (fib : FIB) : FIB :=
  let nameLen := min name.length maxFileNameLen
  { fibDiskKey := a.fileid
    fibDirEntryType := nfsType2EntryType a.type
    fibFileName := overwrite (UInt8.ofNat nameLen :: (name.take nameLen ++ [0])) fib.fibFileName
    fibProtection := nfsMode2Protection a.mode
    fibSize := a.size
    fibNumBlocks := a.blocks
    fibDate := timeval2DateStamp a.mtime
    fibComment := overwrite [0] fib.fibComment
    fibOwnerUID := nfsuid2UID a.uid
    fibOwnerGID := nfsgid2GID a.gid }

/-- The fields of a lock that scans use. -/
structure ELOCK where
  flKey : UInt32
  eflNFSFh : List UInt8
  eflName : List UInt8
  deriving DecidableEq

/-- `do_act_EXAMINE_OBJECT`; the root is shown under the name of the volume. -/
def doActEXAMINEOBJECT (g : Global) (efl : Option ELOCK) (fib : FIB) (attr : Except Int Fattr) :
    Global × FIB :=
  match efl with
  | some efl =>
      match attr with
      | .ok attr =>
          let name := if efl.eflName = [] then g.dlName else efl.eflName
          (g.setRes DOSTRUE g.gRes2, fattr2FIB attr name g.gMaxFileNameLen fib)
      | .error res2 => (g.setRes DOSFALSE res2, fib)
  | none => (g.setRes DOSFALSE errorInvalidLock, fib)

/-- `do_ExamineRoot`, which falls back to the values of the mount. -/
def doExamineRoot (g : Global) (fib : FIB) (attr : Except Int Fattr) : Global × FIB :=
  let a := match attr with
    | .ok attr => attr
    | .error _ => g.gMntAttr
  ({ g with gRes1 := DOSTRUE }, fattr2FIB a g.dlName g.gMaxFileNameLen fib)

/-- A packet's lock: the zero lock, or what `lock_Lookup` finds for it. -/
inductive LockArg
  | zero
  | lock (efl : Option ELOCK)

/-- `lock_Lookup`, which finds nothing for the zero lock. -/
def LockArg.lookup : LockArg → Option ELOCK
  | .zero => none
  | .lock efl => efl

def actEXAMINEOBJECT (g : Global) (fl : LockArg) (fib : FIB) (attr : Except Int Fattr) :
    Global × FIB :=
  match fl with
  | .lock efl => doActEXAMINEOBJECT g efl fib attr
  | .zero => doExamineRoot g fib attr

/-- What the environment decides in an `EXAMINE_NEXT`: whether the allocations of the handle
and of the entries succeed, and what `LookupAttr` finds for the entry. -/
structure NextAnswers where
  edhOk : Bool
  entriesOk : Bool
  attr : Except Int Fattr

/-- The part behind the refill: the head entry, which is asserted to exist, is taken. -/
def takeEntry (g : Global) (edh : EDH) (fib : FIB) (res2 : Int) (ans : NextAnswers) :
    Option (Global × FIB) :=
  match edh.edhNFSEntries with
  | [] => none
  | e :: rest =>
      let edh := { edh with edhNFSEntries := rest }
      match ans.attr with
      | .ok attr =>
          let fib := fattr2FIB attr e.name g.gMaxFileNameLen fib
          let l := min ((fib.fibFileName.getD 0 0).toNat + 2) (EDH_MAX_FILENAME_SIZE - 1)
          let edh := { edh with
            edhCookie := attr.fileid
            edhNFSCookie := e.cookie
            edhName := overwrite (fib.fibFileName.take l ++ [0]) edh.edhName }
          some ((dirStore g edh).setRes DOSTRUE res2, fib)
      | .error err => some ((dirStore g edh).setRes DOSFALSE err, fib)

/-- The refill of a handle without entries. -/
def refillNext (g : Global) (edh : EDH) (fib : FIB) (ans : NextAnswers) : Option (Global × FIB) :=
  if edh.edhEof then some ((dirRemove g edh).setRes DOSFALSE errorNoMoreEntries, fib)
  else
    match nextdir g.gMaxFileNameLen (g.srv.rounds edh.edhNFSDirFh) g.srv edh 0 with
    | none => none
    | some (left, edh, res2, srv) =>
        let g := { g with srv := srv }
        if left ≠ [] ∧ ans.entriesOk = true then
          takeEntry g { edh with edhNFSEntries := left } fib res2 ans
        else
          let res2 := if left ≠ [] then errorNoFreeStore else res2
          let res2 := if edh.edhEof then errorNoMoreEntries else res2
          let res2 := if 1000 < res2 then errorNoMoreEntries else res2
          some ((dirRemove g edh).setRes DOSFALSE res2, fib)

/-- The scan goes on with the handle `edh`. -/
def examineNext (g : Global) (efl : ELOCK) (edh : EDH) (fib : FIB) (ans : NextAnswers) :
    Option (Global × FIB) :=
  if efl.eflNFSFh = edh.edhNFSDirFh then
    if edh.edhNFSEntries = [] then refillNext g edh fib ans else takeEntry g edh fib 0 ans
  else some (g.setRes DOSFALSE errorObjectWrongType, fib)

/-- `act_EXAMINE_NEXT`; `none` when it does not return. For an invalid lock the code of the error is
overwritten by that of `Res2`. -/
def actEXAMINENEXT (g : Global) (fl : LockArg) (fib : FIB) (ans : NextAnswers) :
    Option (Global × FIB) :=
  match fl.lookup with
  | some efl =>
      match dirLookupFromKeyAndCookieAndCBSTR g efl.flKey fib.fibDiskKey fib.fibFileName with
      | some edh => examineNext g efl edh fib ans
      | none =>
          if efl.flKey ≠ fib.fibDiskKey then some (g.setRes DOSFALSE errorNoMoreEntries, fib)
          else if ans.edhOk then
            let edh := dirCreate g efl.flKey fib.fibDiskKey efl.eflNFSFh nullCookie
              (some fib.fibFileName)
            examineNext (dirInsert g edh) efl edh fib ans
          else some (g.setRes DOSFALSE errorNoFreeStore, fib)
  | none => some (g.setRes DOSFALSE 0, fib)

end Anfs.Dir
