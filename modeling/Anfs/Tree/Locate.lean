import Anfs.Tree.Caches

/-!
# Attributes, names and directories through the caches

`c_GetAttr`, `GetNameEntry` and `GetDirEntry` of `lock.c`.
-/
namespace Anfs.Tree
open Anfs.Cache Anfs.Nfs Anfs.Xdr

section Calls
variable {σ : Type} (w : World σ)

namespace Caches

/-- The lookup and the update that `c_GetAttr` and `GetNameEntry` share. -/
def attrsRefresh (s : Caches σ) (fh : List UInt8) (attr : Fattr) : Option Nat × Caches σ :=
  match s.attrsLookupFromFileId w attr.fileid with
  | (some _, s) => s.attrsUpdate w fh attr
  | (none, s) => (none, s)

/-- The same with the insertion behind them. -/
def attrsStore (s : Caches σ) (fh : List UInt8) (attr : Fattr) : Except Int Nat × Caches σ :=
  match s.attrsRefresh w fh attr with
  | (some a, s) => (.ok a, s)
  | (none, s) =>
      match s.attrsCreateAndInsert w fh attr with
      | (some a, s) => (.ok a, s)
      | (none, s) => (.error errorNoFreeStore, s)

/-- The lookup at the start of `c_GetAttr`. -/
def attrsCached (s : Caches σ) (fileId : UInt32) : Option Nat × Caches σ :=
  if fileId ≠ dceIdUnused then s.attrsLookupFromFileId w fileId else (none, s)

/-- `c_GetAttr`. -/
def cGetAttr (s : Caches σ) (fileId : UInt32) (nfsFh : List UInt8) : Except Int Nat × Caches σ :=
  match s.attrsCached w fileId with
  | (some a, s) => (.ok a, s)
  | (none, s) =>
      match w.getAttr s.env nfsFh with
      | (.error res2, env) => (.error res2, { s with env })
      | (.ok attr, env) => { s with env }.attrsStore w nfsFh attr

/-- The name entry that `GetNameEntry` returns when no lookup is needed. -/
def nameFromCache (s : Caches σ) (nent : Option NEntry) (acep : Bool) :
    Option (NEntry × Option Nat) × Caches σ :=
  match nent with
  | none => (none, s)
  | some nent =>
      if acep then
        match s.attrsLookupFromFileId w nent.fileId with
        | (some a, s) => (some (nent, some a), s)
        | (none, s) => (none, s)
      else (some (nent, none), s)

/-- The name entry after a lookup: a new one, or the one that was there brought up to date. -/
def nameStore (s : Caches σ) (actDir : Nat) (nent : Option NEntry) (name : List UInt8)
    (fType fileId : UInt32) : Option NEntry × Caches σ :=
  match nent with
  | none => s.dcNECreateAndInsert w actDir name fType fileId
  | some nent =>
      let dir := s.dces actDir
      let entries := dir.entries.map fun n =>
        if n.addr = nent.addr then { n with ftype := fType, fileId := fileId } else n
      (some { nent with ftype := fType, fileId := fileId },
        { s with dces := Function.update s.dces actDir { dir with entries } })

/-- `GetNameEntry`; `acep` tells if the attribute entry is wanted. -/
def getNameEntry (s : Caches σ) (actDir : Nat) (name : List UInt8) (acep : Bool) :
    Except Int (NEntry × Option Nat) × Caches σ :=
  let looked := s.dcNELookup actDir name
  match looked.2.nameFromCache w looked.1 acep with
  | (some r, s) => (.ok r, s)
  | (none, s) =>
      match w.lookup s.env (s.dces actDir).nfsFh name with
      | (.error res2, env) => (.error res2, { s with env })
      | (.ok dirent, env) =>
          match { s with env }.attrsStore w dirent.file dirent.attributes with
          | (.error res2, s) => (.error res2, s)
          | (.ok ace, s) =>
              match s.nameStore w actDir looked.1 name dirent.attributes.type
                (s.aces ace).fileId with
              | (some nent, s) => (.ok (nent, some ace), s)
              | (none, s) => (.error errorNoFreeStore, s)

/-- The lookup at the start of `GetDirEntry`. -/
def dirCached (s : Caches σ) (actDirId : UInt32) : Option Nat × Caches σ :=
  if actDirId ≠ dceIdUnused then s.dcDCELookupFromFileId w actDirId else (none, s)

/-- `GetDirEntry`; `actDirId` is the id of the name entry where there is one. -/
def getDirEntry (s : Caches σ) (actDirId : UInt32) (actDirFh : List UInt8) :
    Except Int Nat × Caches σ :=
  match s.dirCached w actDirId with
  | (some d, s) => (.ok d, s)
  | (none, s) =>
      match s.cGetAttr w actDirId actDirFh with
      | (.error res2, s) => (.error res2, s)
      | (.ok ace, s) =>
          match s.dcDCECreateAndInsert w (s.aces ace).fileId actDirFh with
          | (some d, s) => (.ok d, s)
          | (none, s) => (.error errorNoFreeStore, s)

end Caches

end Calls

end Anfs.Tree
