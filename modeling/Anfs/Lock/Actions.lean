import Anfs.Lock.Locate

/-!
# Actions on locks and files

`find.c`, `fh.c` and the actions of `lock.c`. The buffers of a file are not part of this model:
what is left of them is the error that `act_END` reports when it flushes them.
-/
namespace Anfs.Lock
open Anfs.Cache Anfs.Lib Anfs.Nfs Anfs.Path Anfs.Tree Anfs.Xdr

def CHANGE_LOCK : Int := 0

def CHANGE_FH : Int := 1

/-- The requests of the actions: CREATE with the ids, the mode and the size, REMOVE, and the error
of the buffers of a file when they are flushed, zero for none. -/
structure Requests (σ : Type) extends World σ where
  create : σ → List UInt8 → List UInt8 → UInt32 → UInt32 → UInt32 → UInt32 →
    Except Int Diropokres × σ
  remove : σ → List UInt8 → List UInt8 → Except Int Unit × σ
  flush : σ → Nat → Int × σ

/-- `fh_Insert`. -/
def fhInsert (files : List EFH) (efh : EFH) : List EFH := efh :: files

/-- `fh_Lookup`. -/
def fhLookup (files : List EFH) (id : Int) : Option EFH := files.find? fun f => f.efhId = id

/-- `fh_Remove`. -/
def fhRemove (files : List EFH) (efh : EFH) : List EFH := files.eraseP fun f => f.addr = efh.addr

section Actions
variable {σ : Type} (w : Requests σ) (addPart : List UInt8 → List UInt8 → Nat → Option (List UInt8))

namespace Global

/-- `fh_Create`. -/
def fhCreate (g : Global σ) (elock : Nat) (mode : Int) : Option EFH × Global σ :=
  match g.heap.alloc with
  | (none, heap) => (none, { g with heap })
  | (some efh, heap) =>
      let id := long (g.lastId + 1)
      (some { addr := efh, efhId := id, efhMode := mode, efhELock := elock, efhFileLen := 0 },
        { g with heap, lastId := id })

/-- A change of the server and the clock. -/
def setEnv (g : Global σ) (env : σ) : Global σ := { g with caches := { g.caches with env } }

/-- The lookup of `act_FINDREADWRITE`, and the request to create the file where it is missing. -/
def findOrCreate (g : Global σ) (dirFh name : List UInt8) (fileMode : Int) :
    Except Int Diropokres × Global σ :=
  match w.lookup g.caches.env dirFh name with
  | (.ok dres, env) => (.ok dres, g.setEnv env)
  | (.error res2, env) =>
      if res2 = errorObjectNotFound ∧ fileMode = MODE_READWRITE then
        let r := w.create env dirFh name g.gUid g.gGid g.gMode 4294967295
        (r.1, g.setEnv r.2)
      else (.error res2, g.setEnv env)

/-- The lock and the handle of `act_FINDREADWRITE` for the object found. -/
def openFound (g : Global σ) (dres : Diropokres) (fullName name : List UInt8)
    (fileMode mode : Int) :
    Except Int Int × Global σ :=
  if dres.attributes.type ≠ NFREG then
    (.error (if fileMode = MODE_READWRITE then errorObjectWrongType else errorObjectExists), g)
  else if ∃ l ∈ lockLookupFromKey g.locks dres.attributes.fileid,
      mode = EXCLUSIVE_LOCK ∨ l.flAccess = EXCLUSIVE_LOCK then (.error errorObjectInUse, g)
  else
    match lockCreate g.heap fullName name dres.attributes.type mode with
    | (none, heap) => (.error errorNoFreeStore, { g with heap })
    | (some elock, heap) =>
        let elock := { elock with
          nfsFh := dres.file, nfsType := NFREG, flKey := dres.attributes.fileid }
        match { g with heap }.fhCreate elock.addr fileMode with
        | (none, g) => (.error errorNoFreeStore, { g with heap := lockDelete g.heap (some elock) })
        | (some efh, g) =>
            (.ok efh.efhId, { g with
              files := fhInsert g.files { efh with efhFileLen := long dres.attributes.size.toNat }
              locks := lockInsert g.locks elock })

/-- `act_FINDREADWRITE`: also `fh_Arg1`. -/
def actFINDREADWRITE (g : Global σ) (fl : Option Nat) (cbstr : List UInt8) (fileMode mode : Int) :
    Option Int × Global σ :=
  match g.lRootLocateDir w.toWorld addPart fl cbstr with
  | (.error res2, g) => (none, g.setRes DOSFALSE res2)
  | (.ok at_, g) =>
      match g.findOrCreate w (g.caches.dces at_.parDir).nfsFh (textOf at_.name) fileMode with
      | (.error res2, g) => (none, (g.deleteNames at_.fullName at_.name).setRes DOSFALSE res2)
      | (.ok dres, g) =>
          match g.openFound dres at_.fullName.text (textOf at_.name) fileMode mode with
          | (.error res2, g) => (none, (g.deleteNames at_.fullName at_.name).setRes DOSFALSE res2)
          | (.ok id, g) => (some id, (g.deleteNames at_.fullName at_.name).setRes DOSTRUE 0)

/-- `act_FINDUPDATE`. -/
def actFINDUPDATE (g : Global σ) (fl : Option Nat) (cbstr : List UInt8) : Option Int × Global σ :=
  g.actFINDREADWRITE w addPart fl cbstr MODE_READWRITE EXCLUSIVE_LOCK

/-- `act_FINDINPUT`. -/
def actFINDINPUT (g : Global σ) (fl : Option Nat) (cbstr : List UInt8) : Option Int × Global σ :=
  g.actFINDREADWRITE w addPart fl cbstr MODE_OLDFILE SHARED_LOCK

/-- The lock and the handle of `act_FINDOUTPUT` for the object created; when there is no handle,
only a lock of the list would be deleted. -/
def openCreated (g : Global σ) (dres : Diropokres) (fullName name : List UInt8) :
    Except Int Int × Global σ :=
  match lockCreate g.heap fullName name dres.attributes.type MODE_NEWFILE with
  | (none, heap) => (.error errorNoFreeStore, { g with heap })
  | (some elock, heap) =>
      let elock := { elock with
        nfsFh := dres.file, nfsType := NFREG, flKey := dres.attributes.fileid }
      match { g with heap }.fhCreate elock.addr MODE_NEWFILE with
      | (none, g) =>
          let r := lockRemove g.locks elock.addr
          (.error errorNoFreeStore, { g with locks := r.2, heap := lockDelete g.heap r.1 })
      | (some efh, g) =>
          (.ok efh.efhId, { g with
            files := fhInsert g.files { efh with efhFileLen := long dres.attributes.size.toNat }
            locks := lockInsert g.locks elock })

/-- The requests of `act_FINDOUTPUT`. -/
def replaceFile (g : Global σ) (dirFh name : List UInt8) : Except Int Diropokres × Global σ :=
  let create := fun env =>
    let r := w.create env dirFh name g.gUid g.gGid g.gMode 0
    (r.1, g.setEnv r.2)
  match w.lookup g.caches.env dirFh name with
  | (.error _, env) => create env
  | (.ok dres, env) =>
      if dres.attributes.type ≠ NFREG then (.error errorObjectExists, g.setEnv env)
      else if (lockLookupFromKey g.locks dres.attributes.fileid).isSome then
        (.error errorObjectInUse, g.setEnv env)
      else create (w.remove env dirFh name).2

/-- `act_FINDOUTPUT`: also `fh_Arg1`. -/
def actFINDOUTPUT (g : Global σ) (fl : Option Nat) (cbstr : List UInt8) : Option Int × Global σ :=
  match g.lRootLocateDir w.toWorld addPart fl cbstr with
  | (.error res2, g) => (none, g.setRes DOSFALSE res2)
  | (.ok at_, g) =>
      match g.replaceFile w (g.caches.dces at_.parDir).nfsFh (textOf at_.name) with
      | (.error res2, g) => (none, (g.deleteNames at_.fullName at_.name).setRes DOSFALSE res2)
      | (.ok dres, g) =>
          match g.openCreated dres at_.fullName.text (textOf at_.name) with
          | (.error res2, g) => (none, (g.deleteNames at_.fullName at_.name).setRes DOSFALSE res2)
          | (.ok id, g) => (some id, (g.deleteNames at_.fullName at_.name).setRes1 DOSTRUE)

/-- `act_FH_FROM_LOCK`: also `fh_Arg1`. -/
def actFHFROMLOCK (g : Global σ) (fl : Option Nat) : Option Int × Global σ :=
  match fl.bind (lockLookup g.locks) with
  | none => (none, g.setRes DOSFALSE errorInvalidLock)
  | some elock =>
      let fileMode := if elock.flAccess = EXCLUSIVE_LOCK then MODE_READWRITE else MODE_OLDFILE
      match w.getAttr g.caches.env elock.nfsFh with
      | (.error res2, env) => (none, (g.setEnv env).setRes DOSFALSE res2)
      | (.ok attr, env) =>
          if attr.type ≠ NFREG then (none, (g.setEnv env).setRes DOSFALSE errorObjectWrongType)
          else
            match (g.setEnv env).fhCreate elock.addr fileMode with
            | (none, g) => (none, g.setRes DOSFALSE errorNoFreeStore)
            | (some efh, g) =>
                (some efh.efhId, { g with
                  files :=
                    fhInsert g.files { efh with efhFileLen := long attr.size.toNat } }.setRes1
                    DOSTRUE)

/-- `act_END`. -/
def actEND (g : Global σ) (arg1 : Int) : Global σ :=
  match fhLookup g.files arg1 with
  | none => g.setRes DOSFALSE errorFileNotObject
  | some efh =>
      let err := w.flush g.caches.env efh.addr
      let g := g.setEnv err.2
      let r := lockRemove g.locks efh.efhELock
      let g := { g with
        locks := r.2
        files := fhRemove g.files efh
        heap := (lockDelete g.heap r.1).free efh.addr }
      if err.1 ≠ 0 then g.setRes DOSFALSE err.1 else g.setRes1 DOSTRUE

/-- The result of an action that returns a lock. -/
def lockRes (g : Global σ) : Except Int ELOCK → Global σ
  | .ok elock => g.setRes (.lock elock.addr) 0
  | .error res2 => g.setRes DOSFALSE res2

/-- `act_LOCATE_OBJECT`. -/
def actLOCATEOBJECT (g : Global σ) (fl : Option Nat) (cbstr : List UInt8) (mode : Int) : Global σ :=
  match strDup g.heap cbstr with
  | (none, heap) => { g with heap }.setRes DOSFALSE errorNoFreeStore
  | (some path, heap) =>
      let r := { g with heap }.rootLocateAndLock w.toWorld addPart fl path.text mode
      let g := r.2.lockRes r.1
      { g with heap := fnDelete g.heap (some path) }

/-- `act_FREE_LOCK`. -/
def actFREELOCK (g : Global σ) (fl : Option Nat) : Global σ :=
  match fl with
  | none => g.setRes1 DOSTRUE
  | some fl =>
      match lockLookup g.locks fl with
      | none => g.setRes DOSFALSE errorInvalidLock
      | some elock =>
          let r := lockRemove g.locks elock.addr
          { g with locks := r.2, heap := lockDelete g.heap r.1 }.setRes1 DOSTRUE

/-- `do_act_COPY_DIR`. -/
def doActCOPYDIR (g : Global σ) (elock : Option ELOCK) : Global σ :=
  match elock with
  | none => g.setRes DOSFALSE errorInvalidLock
  | some elock =>
      if elock.flAccess ≠ SHARED_LOCK then g.setRes DOSFALSE errorObjectInUse
      else
        match lockDup g.heap elock with
        | (none, heap) => { g with heap }.setRes DOSFALSE errorNoFreeStore
        | (some nel, heap) =>
            { g with heap, locks := lockInsert g.locks nel }.setRes1 (.lock nel.addr)

/-- `act_COPY_DIR`. -/
def actCOPYDIR (g : Global σ) (fl : Option Nat) : Global σ :=
  match fl with
  | none => g.setRes DOSFALSE 0
  | some fl => g.doActCOPYDIR (lockLookup g.locks fl)

/-- The lock of a handle. -/
def lockOf (g : Global σ) (efh : EFH) : Option ELOCK := lockLookup g.locks efh.efhELock

/-- `act_COPY_DIR_FH`. -/
def actCOPYDIRFH (g : Global σ) (arg1 : Int) : Global σ :=
  match fhLookup g.files arg1 with
  | none => g.setRes DOSTRUE errorFileNotObject
  | some efh => g.doActCOPYDIR (g.lockOf efh)

/-- `PathPart` of dos.library: the text in front of the last component. -/
def pathPart (s : List UInt8) : List UInt8 :=
  let d := s.rdropWhile fun c => c ≠ slash ∧ c ≠ colon
  if d.getLast? = some slash then d.dropLast else d

/-- `do_act_PARENT`; the root and a volume have no parent. -/
def doActPARENT (g : Global σ) (oldelock : Option ELOCK) : Global σ :=
  match oldelock with
  | none => g.setRes DOSFALSE errorInvalidLock
  | some oldelock =>
      let fullName := oldelock.fullName.text
      if fullName = [] ∨ fullName.getLast? = some colon then g.setRes DOSFALSE 0
      else
        match strDup g.heap (pathPart fullName) with
        | (none, heap) => { g with heap }.setRes DOSFALSE errorNoFreeStore
        | (some dirName, heap) =>
            let r := { g with heap }.rootLocateAndLock w.toWorld addPart none
              dirName.text SHARED_LOCK
            let g := r.2.lockRes r.1
            { g with heap := fnDelete g.heap (some dirName) }

/-- `act_PARENT`. -/
def actPARENT (g : Global σ) (fl : Option Nat) : Global σ :=
  g.doActPARENT w addPart (fl.bind (lockLookup g.locks))

/-- `act_PARENT_FH`. -/
def actPARENTFH (g : Global σ) (arg1 : Int) : Global σ :=
  match fhLookup g.files arg1 with
  | none => g.setRes DOSTRUE errorFileNotObject
  | some efh => g.doActPARENT w addPart (g.lockOf efh)

/-- The change of `fl_Access` in both cases of `act_CHANGE_MODE`. -/
def changeAccess (g : Global σ) (elock : ELOCK) (newMode : Int) : Global σ :=
  if elock.flAccess = newMode then g.setRes1 DOSTRUE
  else if 1 < lockNumLocksFromKey g.locks elock.flKey then g.setRes DOSFALSE errorObjectInUse
  else
    let locks := g.locks.map fun l : ELOCK =>
      if l.addr = elock.addr then { l with flAccess := newMode } else l
    { g with locks }.setRes1 DOSTRUE

/-- `act_CHANGE_MODE`; the object is a handle, whose lock is in the list, or a lock. -/
def actCHANGEMODE (g : Global σ) (objType object newMode : Int) : Global σ :=
  if ¬ (objType = CHANGE_FH ∨ objType ≠ CHANGE_LOCK) ∨
      ¬ (newMode = SHARED_LOCK ∨ newMode = EXCLUSIVE_LOCK) then
    g.setRes DOSFALSE errorObjectWrongType
  else if objType = CHANGE_FH then
    match fhLookup g.files object with
    | none => g.setRes DOSFALSE errorFileNotObject
    | some efh =>
        match g.lockOf efh with
        | none => g
        | some elock => g.changeAccess elock newMode
  else if objType = CHANGE_LOCK then
    match lockLookup g.locks object.toNat with
    | none => g.setRes DOSFALSE errorFileNotObject
    | some elock => g.changeAccess elock newMode
  else g

/-- `act_DIE`. -/
def actDIE (g : Global σ) : Global σ :=
  if g.locks = [] ∧ g.files = [] then { g with running := false }
  else g.setRes DOSFALSE errorObjectInUse

end Global

end Actions

end Anfs.Lock
