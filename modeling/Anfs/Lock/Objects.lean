import Anfs.Dir.Dates
import Anfs.Lock.Actions

/-!
# Actions on names

`object.c`, `attr.c`, `act_GET_ATTRIBUTES`, `act_MAKE_LINK` and the actions of `find.c`, with
the variables that `LRootLocateDir` stores its names through. A variable holds no value until it
is initialised or stored to. A run keeps account of the buffers that `LRootLocateDir` handed out
and that are not freed yet, and of the blocks that it left in use where it failed.
-/
namespace Anfs.Lock
open Anfs.Cache Anfs.Dir Anfs.Lib Anfs.Nfs Anfs.Path Anfs.Tree Anfs.Xdr

def ST_BDEVICE : Int := -10

def ST_CDEVICE : Int := -11

def LINK_HARD : Int := 0

def LINK_SOFT : Int := 1

/-- The requests of the actions on names. `protection2umode` is `au_Protection2umode`. -/
structure ObjRequests (σ : Type) extends Requests σ where
  mkDir : σ → List UInt8 → List UInt8 → UInt32 → UInt32 → UInt32 → Except Int Diropokres × σ
  rmDir : σ → List UInt8 → List UInt8 → Except Int Unit × σ
  rename : σ → List UInt8 → List UInt8 → List UInt8 → List UInt8 → Except Int Unit × σ
  link : σ → List UInt8 → List UInt8 → List UInt8 → Except Int Unit × σ
  symlink : σ → List UInt8 → List UInt8 → UInt32 → UInt32 → List UInt8 → Except Int Unit × σ
  chmod : σ → List UInt8 → UInt32 → Except Int Fattr × σ
  setTimes : σ → List UInt8 → Nfstime → Except Int Fattr × σ
  setUidGid : σ → List UInt8 → UInt32 → UInt32 → Except Int Fattr × σ
  protection2umode : UInt32 → UInt32

/-- The tags of `act_GET_ATTRIBUTES`; `other` are those it ignores. -/
inductive Tag
  | modifyTime
  | protection
  | ownerUid
  | ownerGid
  | createTime
  | accessTime
  | other
  | ignore
  deriving DecidableEq

/-- A `TagItem`; `stamp` is the `DateStamp` that `ti_Data` points to, none for a null pointer. -/
structure TagItem where
  tiTag : Tag
  tiData : UInt32
  stamp : Option DateStamp
  deriving DecidableEq

section Bodies
variable {σ : Type} (w : ObjRequests σ)

namespace Global

/-- The result of a request that answers with success or an error. -/
def answer {α : Type} (g : Global σ) (r : Except Int α × σ) : Global σ :=
  match r.1 with
  | .ok _ => (g.setEnv r.2).setRes1 DOSTRUE
  | .error res2 => (g.setEnv r.2).setRes DOSFALSE res2

/-- `act_DELETE_OBJECT` behind `LRootLocateDir`: no remove if locks are still open. -/
def deleteObject (parDir : Nat) (name : List UInt8) (g : Global σ) : Global σ :=
  match g.caches.getNameEntry w.toWorld parDir name true with
  | (.error res2, caches) => { g with caches }.setRes DOSFALSE res2
  | (.ok (nent, _), caches) =>
      let g := { g with caches }
      if (lockLookupFromKey g.locks nent.fileId).isSome then g.setRes DOSFALSE errorObjectInUse
      else
        let dirFh := (g.caches.dces parDir).nfsFh
        let g :=
          if nent.ftype = NFDIR then
            let g := g.answer (w.rmDir g.caches.env dirFh name)
            { g with caches := g.caches.dcDCEDeleteFromFileId nent.fileId }
          else g.answer (w.remove g.caches.env dirFh name)
        { g with caches := (g.caches.attrsDelete nent.fileId).dcNERemove parDir nent.addr }

/-- `act_CREATE_DIR` behind `LRootLocateDir`. -/
def createDir (parDir : Nat) (fullName name : List UInt8) (g : Global σ) : Global σ :=
  match w.mkDir g.caches.env (g.caches.dces parDir).nfsFh name g.gUid g.gGid g.gMode with
  | (.error res2, env) => (g.setEnv env).setRes DOSFALSE res2
  | (.ok dir, env) =>
      let g := g.setEnv env
      match lockCreate g.heap fullName name NFDIR EXCLUSIVE_LOCK with
      | (none, heap) => { g with heap }.setRes DOSFALSE errorNoFreeStore
      | (some newelock, heap) =>
          let newelock := { newelock with nfsFh := dir.file, flKey := dir.attributes.fileid }
          { g with heap, locks := lockInsert g.locks newelock }.setRes1 (.lock newelock.addr)

/-- `act_RENAME_OBJECT` behind both calls of `LRootLocateDir`. -/
def renameObject (parDir₁ : Nat) (name₁ : List UInt8) (parDir₂ : Nat) (name₂ : List UInt8)
    (g : Global σ) : Global σ :=
  match g.caches.getNameEntry w.toWorld parDir₁ name₁ true with
  | (.error res2, caches) => { g with caches }.setRes DOSFALSE res2
  | (.ok (nent, _), caches) =>
      let g := { g with caches }
      if (lockLookupFromKey g.locks nent.fileId).isSome then g.setRes DOSFALSE errorObjectInUse
      else
        match w.rename g.caches.env (g.caches.dces parDir₁).nfsFh name₁
            (g.caches.dces parDir₂).nfsFh name₂ with
        | (.error res2, env) => (g.setEnv env).setRes DOSFALSE res2
        | (.ok _, env) =>
            let g := g.setEnv env
            let caches := (g.caches.dcDCEDeleteFromFileId nent.fileId).attrsDelete nent.fileId
            { g with caches := caches.dcNERemove parDir₁ nent.addr }.setRes1 DOSTRUE

/-- `act_CREATE_OBJECT` behind `LRootLocateDir`: the subtype is sent as the size. -/
def createObject (subtype : UInt32) (parDir : Nat) (name : List UInt8) (g : Global σ) : Global σ :=
  g.answer (w.create g.caches.env (g.caches.dces parDir).nfsFh name g.gUid g.gGid g.gMode subtype)

/-- `act_SET_PROTECT`, `act_SET_DATE` and `act_SET_OWNER` behind `LRootLocateDir`; `request` is
what they ask for. -/
def setAttr (request : σ → List UInt8 → Except Int Fattr × σ) (parDir : Nat) (name : List UInt8)
    (g : Global σ) : Global σ :=
  match w.lookup g.caches.env (g.caches.dces parDir).nfsFh name with
  | (.error res2, env) =>
      let g := g.setEnv env
      { g with caches := g.caches.attrsDelete (g.caches.dces parDir).fileId }.setRes DOSFALSE res2
  | (.ok file, env) =>
      let r := request env file.file
      let g := g.setEnv r.2
      match r.1 with
      | .ok newattr =>
          { g with caches := (g.caches.attrsUpdate w.toWorld file.file newattr).2 }.setRes1 DOSTRUE
      | .error res2 =>
          { g with caches := g.caches.attrsDelete file.attributes.fileid }.setRes DOSFALSE res2

/-- `do_act_MAKE_HARD_LINK` behind `LRootLocateDir`. -/
def hardLink (nfsFh : List UInt8) (parDir : Nat) (name : List UInt8) (g : Global σ) : Global σ :=
  g.answer (w.link g.caches.env nfsFh (g.caches.dces parDir).nfsFh name)

/-- `do_act_MAKE_SOFT_LINK` behind `LRootLocateDir`. -/
def softLink (path : List UInt8) (parDir : Nat) (name : List UInt8) (g : Global σ) : Global σ :=
  g.answer (w.symlink g.caches.env (g.caches.dces parDir).nfsFh name g.gUid g.gGid path)

/-- A tag of `act_GET_ATTRIBUTES`, and whether it counts as processed. -/
def fillTag (attr : Fattr) (item : TagItem) : TagItem × Bool :=
  let stamped :=
    fun tv => ({ item with stamp := item.stamp.map fun _ => timeval2DateStamp tv }, true)
  match item.tiTag with
  | .modifyTime => stamped attr.mtime
  | .protection => ({ item with tiData := nfsMode2Protection attr.mode }, true)
  | .ownerUid => ({ item with tiData := attr.uid }, true)
  | .ownerGid => ({ item with tiData := attr.gid }, true)
  | .createTime => stamped attr.ctime
  | .accessTime => stamped attr.atime
  | .other => ({ item with tiTag := .ignore }, false)
  | .ignore => (item, false)

/-- `act_GET_ATTRIBUTES` behind `LRootLocateDir`, with the tags behind it. -/
def getAttributes (tags : List TagItem) (parDir : Nat) (name : List UInt8) (g : Global σ) :
    Global σ × List TagItem :=
  match g.caches.getNameEntry w.toWorld parDir name true with
  | (.error res2, caches) => ({ g with caches }.setRes DOSFALSE res2, tags)
  | (.ok (_, ace), caches) =>
      let entry : ACEntry := (ace.map caches.aces).getD default
      let filled := tags.map (fillTag entry.fattr)
      let numProcessed := filled.countP fun item => item.2
      ({ g with caches }.setRes (.num numProcessed) 0, filled.map fun item => item.1)

/-- `act_FINDREADWRITE` behind `LRootLocateDir`. -/
def findReadWrite (fileMode mode : Int) (parDir : Nat) (fullName name : List UInt8)
    (g : Global σ) : Global σ :=
  match g.findOrCreate w.toRequests (g.caches.dces parDir).nfsFh name fileMode with
  | (.error res2, g) => g.setRes DOSFALSE res2
  | (.ok dres, g) =>
      match g.openFound dres fullName name fileMode mode with
      | (.error res2, g) => g.setRes DOSFALSE res2
      | (.ok _, g) => g.setRes DOSTRUE 0

/-- `act_FINDOUTPUT` behind `LRootLocateDir`. -/
def findOutput (parDir : Nat) (fullName name : List UInt8) (g : Global σ) : Global σ :=
  match g.replaceFile w.toRequests (g.caches.dces parDir).nfsFh name with
  | (.error res2, g) => g.setRes DOSFALSE res2
  | (.ok dres, g) =>
      match g.openCreated dres fullName name with
      | (.error res2, g) => g.setRes DOSFALSE res2
      | (.ok _, g) => g.setRes1 DOSTRUE

end Global

end Bodies

/-- What a variable for a name holds; `unset` is a variable that is not initialised. -/
inductive NameVar
  | unset
  | null
  | ptr (d : Str)
deriving DecidableEq

namespace NameVar

/-- The value that is stored for a pointer. -/
def ofPtr : Option Str → NameVar
  | none => null
  | some d => ptr d

/-- The text that the variable points to; an empty one for a null pointer. -/
def text : NameVar → List UInt8
  | ptr d => d.text
  | _ => []

end NameVar

/-- The handler, the buffers that `LRootLocateDir` handed out and that are not freed yet, and the
number of blocks that it left in use where it failed. -/
structure Run (σ : Type) where
  g : Global σ
  held : List Nat
  leaks : Nat

namespace Run
variable {σ : Type}

/-- An action starts without buffers. -/
def start (g : Global σ) : Run σ := ⟨g, [], 0⟩

/-- Code that stores to no variable and frees no name. -/
def on (s : Run σ) (f : Global σ → Global σ) : Run σ := { s with g := f s.g }

def setRes (s : Run σ) (res1 : Res1) (res2 : Int) : Run σ := s.on fun g => g.setRes res1 res2

/-- `fn_Delete`; none for a pointer that is not that of a buffer handed out and not yet freed. -/
def fnDelete (s : Run σ) : NameVar → Option (Run σ)
  | .unset => none
  | .null => some s
  | .ptr d =>
      if d.addr ∈ s.held then
        some { s with
          g := { s.g with heap := Anfs.fnDelete s.g.heap (some d) }, held := s.held.erase d.addr }
      else none

section Actions
variable (w : ObjRequests σ) (addPart : List UInt8 → List UInt8 → Nat → Option (List UInt8))

/-- `LRootLocateDir` without a `PFullName`. It stores to the variable `name` if it succeeds. -/
def lRootLocateDir (s : Run σ) (fl : Option Nat) (cbstr : List UInt8) (name : NameVar) :
    Except Int Nat × NameVar × Run σ :=
  match s.g.lRootLocateDir w.toWorld addPart fl cbstr with
  | (.error res2, g) =>
      (.error res2, name,
        { s with g, leaks := s.leaks + (g.heap.live.length - s.g.heap.live.length) })
  | (.ok at_, g) =>
      (.ok at_.parDir, .ofPtr at_.name, { s with
        g := { g with heap := Anfs.fnDelete g.heap (some at_.fullName) }
        held := Str.block at_.name ++ s.held })

/-- `LRootLocateDir` with variables for both names, which it stores to if it succeeds. -/
def lRootLocateBoth (s : Run σ) (fl : Option Nat) (cbstr : List UInt8) (fullName name : NameVar) :
    Except Int Nat × (NameVar × NameVar) × Run σ :=
  match s.g.lRootLocateDir w.toWorld addPart fl cbstr with
  | (.error res2, g) =>
      (.error res2, (fullName, name),
        { s with g, leaks := s.leaks + (g.heap.live.length - s.g.heap.live.length) })
  | (.ok at_, g) =>
      (.ok at_.parDir, (.ptr at_.fullName, .ofPtr at_.name), { s with
        g, held := at_.fullName.addr :: (Str.block at_.name ++ s.held) })

/-- An action that goes to `exit` where no directory is found and deletes the name there. -/
def deleteAtExit (s : Run σ) (fl : Option Nat) (cbstr : List UInt8) (name : NameVar)
    (body : Nat → List UInt8 → Global σ → Global σ) : Option (Run σ) :=
  match s.lRootLocateDir w addPart fl cbstr name with
  | (.error res2, name, s) => (s.setRes DOSFALSE res2).fnDelete name
  | (.ok parDir, name, s) => (s.on (body parDir name.text)).fnDelete name

/-- An action that deletes the name in front of `exit`. -/
def deleteBeforeExit (s : Run σ) (fl : Option Nat) (cbstr : List UInt8) (name : NameVar)
    (body : Nat → List UInt8 → Global σ → Global σ) : Option (Run σ) :=
  match s.lRootLocateDir w addPart fl cbstr name with
  | (.error res2, _, s) => some (s.setRes DOSFALSE res2)
  | (.ok parDir, name, s) => (s.on (body parDir name.text)).fnDelete name

/-- `act_FINDREADWRITE` and `act_FINDOUTPUT`: they return where no directory is found. -/
def deleteBoth (s : Run σ) (fl : Option Nat) (cbstr : List UInt8) (fullName name : NameVar)
    (body : Nat → List UInt8 → List UInt8 → Global σ → Global σ) : Option (Run σ) :=
  match s.lRootLocateBoth w addPart fl cbstr fullName name with
  | (.error res2, _, s) => some (s.setRes DOSFALSE res2)
  | (.ok parDir, v, s) =>
      ((s.on (body parDir v.1.text v.2.text)).fnDelete v.2).bind fun s => s.fnDelete v.1

/-- `act_DELETE_OBJECT`. -/
def actDELETEOBJECT (s : Run σ) (fl : Option Nat) (cbstr : List UInt8) : Option (Run σ) :=
  s.deleteAtExit w addPart fl cbstr .unset (Global.deleteObject w)

/-- `act_CREATE_DIR`. -/
def actCREATEDIR (s : Run σ) (fl : Option Nat) (cbstr : List UInt8) : Option (Run σ) :=
  let exit := fun (v : NameVar × NameVar) (s : Run σ) =>
    (s.fnDelete v.1).bind fun s => s.fnDelete v.2
  match s.lRootLocateBoth w addPart fl cbstr .unset .unset with
  | (.error res2, v, s) => exit v (s.setRes DOSFALSE res2)
  | (.ok parDir, v, s) => exit v (s.on (Global.createDir w parDir v.1.text v.2.text))

/-- `act_RENAME_OBJECT`. -/
def actRENAMEOBJECT (s : Run σ) (fl₁ : Option Nat) (cbstr₁ : List UInt8) (fl₂ : Option Nat)
    (cbstr₂ : List UInt8) : Option (Run σ) :=
  let exit := fun (name₁ name₂ : NameVar) (s : Run σ) =>
    (s.fnDelete name₁).bind fun s => s.fnDelete name₂
  match s.lRootLocateDir w addPart fl₁ cbstr₁ .null with
  | (.error res2, name₁, s) => exit name₁ .null (s.setRes DOSFALSE res2)
  | (.ok parDir₁, name₁, s) =>
      match s.lRootLocateDir w addPart fl₂ cbstr₂ .null with
      | (.error res2, name₂, s) => exit name₁ name₂ (s.setRes DOSFALSE res2)
      | (.ok parDir₂, name₂, s) =>
          exit name₁ name₂ (s.on (Global.renameObject w parDir₁ name₁.text parDir₂ name₂.text))

/-- `act_CREATE_OBJECT`. -/
def actCREATEOBJECT (s : Run σ) (fl : Option Nat) (cbstr : List UInt8) (type : Int)
    (subtype1 : UInt32) : Option (Run σ) :=
  if type ≠ ST_BDEVICE ∧ type ≠ ST_CDEVICE then some (s.setRes DOSFALSE errorBadNumber)
  else s.deleteAtExit w addPart fl cbstr .unset (Global.createObject w subtype1)

/-- `act_SET_PROTECT`. -/
def actSETPROTECT (s : Run σ) (fl : Option Nat) (cbstr : List UInt8) (mask : UInt32) :
    Option (Run σ) :=
  s.deleteBeforeExit w addPart fl cbstr .unset
    (Global.setAttr w fun env fh => w.chmod env fh (w.protection2umode mask))

/-- `act_SET_DATE`. -/
def actSETDATE (s : Run σ) (fl : Option Nat) (cbstr : List UInt8) (ds : DateStamp) :
    Option (Run σ) :=
  s.deleteBeforeExit w addPart fl cbstr .unset
    (Global.setAttr w fun env fh => w.setTimes env fh (dateStamp2timeval ds))

/-- `act_SET_OWNER`. -/
def actSETOWNER (s : Run σ) (fl : Option Nat) (cbstr : List UInt8) (ownerGroup : UInt32) :
    Option (Run σ) :=
  s.deleteBeforeExit w addPart fl cbstr .unset
    (Global.setAttr w fun env fh =>
      w.setUidGid env fh (ownerGroup >>> 16 &&& 65535) (ownerGroup &&& 65535))

/-- `act_GET_ATTRIBUTES`, with the tags behind it. -/
def actGETATTRIBUTES (s : Run σ) (fl : Option Nat) (cbstr : List UInt8) (tags : List TagItem) :
    Option (Run σ × List TagItem) :=
  match s.lRootLocateDir w addPart fl cbstr .unset with
  | (.error res2, _, s) => some (s.setRes DOSFALSE res2, tags)
  | (.ok parDir, name, s) =>
      let r := s.g.getAttributes w tags parDir name.text
      ((s.on fun _ => r.1).fnDelete name).map fun s => (s, r.2)

/-- `do_act_MAKE_HARD_LINK`. -/
def doActMAKEHARDLINK (s : Run σ) (fl₁ : Option Nat) (cbstr₁ : List UInt8) (fl₂ : Option Nat) :
    Option (Run σ) :=
  match fl₂.bind (lockLookup s.g.locks) with
  | none => (s.setRes DOSFALSE errorInvalidLock).fnDelete .null
  | some destelock => s.deleteAtExit w addPart fl₁ cbstr₁ .null (Global.hardLink w destelock.nfsFh)

/-- `do_act_MAKE_SOFT_LINK`. -/
def doActMAKESOFTLINK (s : Run σ) (fl : Option Nat) (cbstr path : List UInt8) : Option (Run σ) :=
  s.deleteAtExit w addPart fl cbstr .unset (Global.softLink w path)

/-- `act_FINDREADWRITE`. -/
def actFINDREADWRITE (s : Run σ) (fl : Option Nat) (cbstr : List UInt8) (fileMode mode : Int) :
    Option (Run σ) :=
  s.deleteBoth w addPart fl cbstr .unset .unset (Global.findReadWrite w fileMode mode)

/-- `act_FINDUPDATE`. -/
def actFINDUPDATE (s : Run σ) (fl : Option Nat) (cbstr : List UInt8) : Option (Run σ) :=
  s.actFINDREADWRITE w addPart fl cbstr MODE_READWRITE EXCLUSIVE_LOCK

/-- `act_FINDINPUT`. -/
def actFINDINPUT (s : Run σ) (fl : Option Nat) (cbstr : List UInt8) : Option (Run σ) :=
  s.actFINDREADWRITE w addPart fl cbstr MODE_OLDFILE SHARED_LOCK

/-- `act_FINDOUTPUT`. -/
def actFINDOUTPUT (s : Run σ) (fl : Option Nat) (cbstr : List UInt8) : Option (Run σ) :=
  s.deleteBoth w addPart fl cbstr .unset .unset (Global.findOutput w)

end Actions

end Run

/-- `dp_Arg3` and `dp_Arg4` of `ACTION_MAKE_LINK`: `path` is what `dp_Arg3` points to, `fl` is the
lock for `dp_Arg3` as a `BPTR`. -/
structure LinkArgs where
  fl : Option Nat
  path : List UInt8
  mode : Int

/-- A packet of an action on names, with the arguments that the action reads. -/
inductive PathAction
  | deleteObject (fl : Option Nat) (cbstr : List UInt8)
  | createDir (fl : Option Nat) (cbstr : List UInt8)
  | renameObject (fl₁ : Option Nat) (cbstr₁ : List UInt8) (fl₂ : Option Nat) (cbstr₂ : List UInt8)
  | createObject (fl : Option Nat) (cbstr : List UInt8) (type : Int) (subtype1 : UInt32)
  | setProtect (fl : Option Nat) (cbstr : List UInt8) (mask : UInt32)
  | setDate (fl : Option Nat) (cbstr : List UInt8) (ds : DateStamp)
  | setOwner (fl : Option Nat) (cbstr : List UInt8) (ownerGroup : UInt32)
  | getAttributes (fl : Option Nat) (cbstr : List UInt8) (tags : List TagItem)
  | makeLink (fl : Option Nat) (cbstr : List UInt8) (link : LinkArgs)
  | findInput (fl : Option Nat) (cbstr : List UInt8)
  | findUpdate (fl : Option Nat) (cbstr : List UInt8)
  | findOutput (fl : Option Nat) (cbstr : List UInt8)

section Actions
variable {σ : Type} (w : ObjRequests σ)
  (addPart : List UInt8 → List UInt8 → Nat → Option (List UInt8))

/-- `act_MAKE_LINK`. -/
def Run.actMAKELINK (s : Run σ) (fl : Option Nat) (cbstr : List UInt8) (link : LinkArgs) :
    Option (Run σ) :=
  if link.mode = LINK_SOFT then s.doActMAKESOFTLINK w addPart fl cbstr link.path
  else if link.mode = LINK_HARD then s.doActMAKEHARDLINK w addPart fl cbstr link.fl
  else some (s.setRes DOSFALSE errorRequiredArgMissing)

def PathAction.run (s : Run σ) : PathAction → Option (Run σ)
  | deleteObject fl cbstr => s.actDELETEOBJECT w addPart fl cbstr
  | createDir fl cbstr => s.actCREATEDIR w addPart fl cbstr
  | renameObject fl₁ cbstr₁ fl₂ cbstr₂ => s.actRENAMEOBJECT w addPart fl₁ cbstr₁ fl₂ cbstr₂
  | createObject fl cbstr type subtype1 => s.actCREATEOBJECT w addPart fl cbstr type subtype1
  | setProtect fl cbstr mask => s.actSETPROTECT w addPart fl cbstr mask
  | setDate fl cbstr ds => s.actSETDATE w addPart fl cbstr ds
  | setOwner fl cbstr ownerGroup => s.actSETOWNER w addPart fl cbstr ownerGroup
  | getAttributes fl cbstr tags =>
      (s.actGETATTRIBUTES w addPart fl cbstr tags).map fun r => r.1
  | makeLink fl cbstr link => s.actMAKELINK w addPart fl cbstr link
  | findInput fl cbstr => s.actFINDINPUT w addPart fl cbstr
  | findUpdate fl cbstr => s.actFINDUPDATE w addPart fl cbstr
  | findOutput fl cbstr => s.actFINDOUTPUT w addPart fl cbstr

end Actions

end Anfs.Lock
