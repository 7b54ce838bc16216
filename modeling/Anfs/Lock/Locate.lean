import Anfs.Path.FullName
import Anfs.Path.Scan
import Anfs.Tree.Locate

/-!
# From a path to a directory and to a lock

`RootLocateDir`, `LRootLocateDir` and `RootLocateAndLock` of `lock.c`.
-/
namespace Anfs.Lock
open Anfs.Cache Anfs.Lib Anfs.Nfs Anfs.Path Anfs.Tree Anfs.Xdr

def errorIsSoftLink : Int := 233

/-- `efh_Mode`. -/
def MODE_READWRITE : Int := 1004

def MODE_OLDFILE : Int := 1005

def MODE_NEWFILE : Int := 1006

/-- An open file; the buffers of a file are not part of it. -/
structure EFH where
  addr : Nat
  efhId : Int
  efhMode : Int
  efhELock : Nat
  efhFileLen : Int
deriving DecidableEq

/-- `Res1`: a number, or a lock that the client gets. -/
inductive Res1
  | num (n : Int)
  | lock (fl : Nat)
deriving DecidableEq

def DOSFALSE : Res1 := .num 0

def DOSTRUE : Res1 := .num (-1)

/-- `gUid`, `gGid` and `gMode` are what a request to create an object carries. -/
structure Global (σ : Type) where
  caches : Caches σ
  heap : Heap
  locks : List ELOCK
  files : List EFH
  lastId : Int
  gVolumeName : List UInt8
  gMntFh : List UInt8
  gMntAttr : Fattr
  gUid : UInt32
  gGid : UInt32
  gMode : UInt32
  gRes1 : Res1
  gRes2 : Int
  running : Bool

def Global.setRes {σ : Type} (g : Global σ) (res1 : Res1) (res2 : Int) : Global σ :=
  { g with gRes1 := res1, gRes2 := res2 }

def Global.setRes1 {σ : Type} (g : Global σ) (res1 : Res1) : Global σ := { g with gRes1 := res1 }

section Locate
variable {σ : Type} (w : World σ)

/-- The loop of `RootLocateDir`; none when it does not end in `n` turns. -/
def rootLocateLoop : Nat → Caches σ → Nat → ScanPath → Option (Except Int Nat × Caches σ)
  | 0, _, _, _ => none
  | n + 1, s, parDir, u =>
      let pComp := fnScanPath u
      if pComp.2.lastElement then some (.ok parDir, s)
      else if pComp.2.path[pComp.1]? = some slash then some (.ok parDir, s)
      else
        match s.getNameEntry w parDir (cString pComp.2.path pComp.1) true with
        | (.error res2, s) => some (.error res2, s)
        | (.ok (nent, ace), s) =>
            if nent.ftype ≠ NFDIR ∧ nent.ftype ≠ NFLNK then
              some (.error errorInvalidComponentName, s)
            else if nent.ftype = NFLNK then some (.error errorIsSoftLink, s)
            else
              match s.getDirEntry w nent.fileId ((ace.map fun a => (s.aces a).nfsFh).getD []) with
              | (.error res2, s) => some (.error res2, s)
              | (.ok actDir, s) => rootLocateLoop n s actDir pComp.2

/-- Each turn moves the scan on, or ends the loop. -/
theorem rootLocateLoop_isSome (n : Nat) : ∀ (s : Caches σ) (parDir : Nat) (u : ScanPath),
    u.pos ≤ u.path.length → u.path.length < u.pos + n → (rootLocateLoop w n s parDir u).isSome := by
  induction n with
  | zero =>
      intro s parDir u hpos hn
      omega
  | succ n ih =>
      intro s parDir u hpos hn
      unfold rootLocateLoop
      dsimp only
      split
      · rfl
      next hlast =>
        obtain ⟨hmore, hin, hlen⟩ := fnScanPath_advances (Bool.not_eq_true _ ▸ hlast)
        split
        · rfl
        generalize s.getNameEntry w parDir (cString (fnScanPath u).2.path (fnScanPath u).1) true = r
        obtain ⟨res2 | ⟨nent, ace⟩, s₁⟩ := r
        · rfl
        dsimp only
        split
        · rfl
        split
        · rfl
        generalize s₁.getDirEntry w nent.fileId ((ace.map fun a => (s₁.aces a).nfsFh).getD []) = d
        obtain ⟨res2 | actDir, s₂⟩ := d
        · rfl
        exact ih s₂ actDir (fnScanPath u).2 (by omega) (by omega)

/-- The walk of `RootLocateDir` along a path. -/
def rootLocate (s : Caches σ) (parDir : Nat) (path : List UInt8) : Except Int Nat × Caches σ :=
  (rootLocateLoop w (path.length + 2) s parDir ⟨path ++ [0], 0, false⟩).get
    (rootLocateLoop_isSome w _ s parDir _ (Nat.zero_le _) (by simp))

namespace Global

/-- `RootLocateDir`. -/
def rootLocateDir (g : Global σ) (fullName : List UInt8) : Except Int Nat × Global σ :=
  match strDup g.heap fullName with
  | (none, heap) => (.error errorNoFreeStore, { g with heap })
  | (some workPath, heap) =>
      match g.caches.getDirEntry w g.gMntAttr.fileid g.gMntFh with
      | (.error res2, caches) =>
          (.error res2, { g with caches, heap := fnDelete heap (some workPath) })
      | (.ok parDir, caches) =>
          if fullName.length ≠ 0 then
            let r := rootLocate w caches parDir workPath.text
            (r.1, { g with caches := r.2, heap := fnDelete heap (some workPath) })
          else (.ok parDir, { g with caches, heap := fnDelete heap (some workPath) })

variable (addPart : List UInt8 → List UInt8 → Nat → Option (List UInt8))

/-- `BuildFullName`: the string of the packet is copied first. -/
def buildFullName (g : Global σ) (fl : Option Nat) (cbstr : List UInt8) (argName uPath : Bool) :
    Except Int FullName × Global σ :=
  match strDup g.heap cbstr with
  | (none, heap) => (.error errorNoFreeStore, { g with heap })
  | (some cstr, heap) =>
      let r := cBuildFullName addPart g.gVolumeName g.locks heap fl cstr.text argName uPath
      (r.1, { g with heap := fnDelete r.2 (some cstr) })

/-- What `LRootLocateDir` returns and stores. -/
structure Located where
  parDir : Nat
  name : Option Str
  fullName : Str

/-- `fn_Delete` for both names. -/
def deleteNames (g : Global σ) (fullName : Str) (name : Option Str) : Global σ :=
  { g with heap := fnDelete (fnDelete g.heap (some fullName)) name }

/-- `LRootLocateDir` for a string of a packet, with all its results wanted. -/
def lRootLocateDir (g : Global σ) (fl : Option Nat) (relPath : List UInt8) :
    Except Int Located × Global σ :=
  match g.buildFullName addPart fl relPath true false with
  | (.error res2, g) => (.error res2, g)
  | (.ok full, g) =>
      match g.rootLocateDir w full.fullName.text with
      | (.error res2, g) => (.error res2, g.deleteNames full.fullName full.name)
      | (.ok parDir, g) => (.ok ⟨parDir, full.name, full.fullName⟩, g)

/-- `DupELock`. -/
def dupELock (g : Global σ) (oldLock : Option ELOCK) (name fullName : List UInt8) (mode : Int) :
    Except Int ELOCK × Global σ :=
  if (∃ l ∈ oldLock, l.flAccess ≠ SHARED_LOCK) ∨ mode ≠ SHARED_LOCK then
    (.error errorObjectInUse, g)
  else
    match lockCreate g.heap fullName name NFNON mode with
    | (none, heap) => (.error errorNoFreeStore, { g with heap })
    | (some newELock, heap) =>
        match oldLock with
        | some l =>
            (.ok { newELock with nfsFh := l.nfsFh, flKey := l.flKey, nfsType := l.nfsType },
              { g with heap })
        | none =>
            (.ok { newELock with
                nfsFh := g.gMntFh, flKey := g.gMntAttr.fileid, nfsType := g.gMntAttr.type },
              { g with heap })

/-- The lock of `RootLocateAndLock` for an object below the root. -/
def newObjectLock (g : Global σ) (parDir : Nat) (name fullName : List UInt8) (mode : Int) :
    Except Int ELOCK × Global σ :=
  match g.caches.getNameEntry w parDir name true with
  | (.error res2, caches) => (.error res2, { g with caches })
  | (.ok (_, ace), caches) =>
      let g := { g with caches }
      let entry : ACEntry := (ace.map caches.aces).getD default
      let new :=
        match lockLookupFromKey g.locks entry.fattr.fileid with
        | some oldelock => g.dupELock (some oldelock) name fullName mode
        | none =>
            if entry.fattr.type = NFLNK then (.error errorIsSoftLink, g)
            else
              match lockCreate g.heap fullName name entry.fattr.type mode with
              | (none, heap) => (.error errorNoFreeStore, { g with heap })
              | (some newelock, heap) => (.ok newelock, { g with heap })
      (new.1.map fun newelock => { newelock with
          nfsFh := entry.nfsFh, nfsType := entry.fattr.type, flKey := entry.fattr.fileid }, new.2)

/-- The lock of `RootLocateAndLock` for the root. -/
def newRootLock (g : Global σ) (name fullName : List UInt8) (mode : Int) :
    Except Int ELOCK × Global σ :=
  match g.dupELock none name fullName mode with
  | (.error res2, g) => (.error res2, g)
  | (.ok newelock, g) =>
      let attr : Except Int Fattr × Caches σ :=
        match g.caches.attrsLookupFromFileId w g.gMntAttr.fileid with
        | (some ace, caches) => (.ok (caches.aces ace).fattr, caches)
        | (none, caches) =>
            let r := w.getAttr caches.env g.gMntFh
            (r.1, { caches with env := r.2 })
      match attr with
      | (.error res2, caches) =>
          (.error res2, { g with caches, heap := lockDelete g.heap (some newelock) })
      | (.ok attr, caches) =>
          (.ok { newelock with nfsFh := g.gMntFh, flKey := attr.fileid, nfsType := attr.type },
            { g with caches })

/-- The text of a name; an empty one for a null pointer. -/
def textOf (s : Option Str) : List UInt8 := (s.map Str.text).getD []

/-- `RootLocateAndLock`. -/
def rootLocateAndLock (g : Global σ) (fl : Option Nat) (relPath : List UInt8) (mode : Int) :
    Except Int ELOCK × Global σ :=
  if mode ≠ SHARED_LOCK ∧ mode ≠ EXCLUSIVE_LOCK then (.error errorRequiredArgMissing, g)
  else
    match cBuildFullName addPart g.gVolumeName g.locks g.heap fl relPath true false with
    | (.error res2, heap) => (.error res2, { g with heap })
    | (.ok full, heap) =>
        match { g with heap }.rootLocateDir w full.fullName.text with
        | (.error res2, g) => (.error res2, g.deleteNames full.fullName full.name)
        | (.ok parDir, g) =>
            let new :=
              if full.fullNameLen ≠ 0 then
                g.newObjectLock w parDir (textOf full.name) full.fullName.text mode
              else g.newRootLock w (textOf full.name) full.fullName.text mode
            match new with
            | (.error res2, g) => (.error res2, g.deleteNames full.fullName full.name)
            | (.ok newelock, g) =>
                (.ok newelock,
                  { g with locks := lockInsert g.locks newelock }.deleteNames full.fullName
                  full.name)

end Global

end Locate

end Anfs.Lock
