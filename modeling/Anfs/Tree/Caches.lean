import Mathlib.Logic.Function.Basic
import Anfs.Cache.Hash
import Anfs.Nfs.Error
import Anfs.Prot.Messages

/-!
# The attribute cache and the directory cache

`attrs.c` and `dcache.c`. The tables hold addresses of entries; an address is the number of
entries that were made before. The contents of an entry stay readable when its table frees it.
-/
namespace Anfs.Tree
open Anfs.Cache Anfs.Xdr

/-- What the handler meets outside: the clock, the memory, and the server as the `nfs_`
functions present it, with an error for `Res2`. -/
structure World (σ : Type) where
  now : σ → UInt32 × σ
  memOk : σ → Bool × σ
  lookup : σ → List UInt8 → List UInt8 → Except Int Diropokres × σ
  getAttr : σ → List UInt8 → Except Int Fattr × σ
  readLink : σ → List UInt8 → Except Int (List UInt8) × σ

structure ACEntry where
  fileId : UInt32
  nfsFh : List UInt8
  fattr : Fattr
deriving DecidableEq, Inhabited

structure NEntry where
  addr : Nat
  name : List UInt8
  hash : UInt32
  ftype : UInt32
  fileId : UInt32
deriving DecidableEq

/-- `dce_ParentId` is never read. -/
structure DCEntry where
  fileId : UInt32
  nfsFh : List UInt8
  entries : List NEntry
deriving DecidableEq, Inhabited

/-- `DCE_ID_UNUSED`. -/
def dceIdUnused : UInt32 := 0

structure Caches (σ : Type) where
  env : σ
  attrCache : FTHashTable UInt32 Nat
  dirCache : FTHashTable UInt32 Nat
  aces : Nat → ACEntry
  dces : Nat → DCEntry
  next : Nat

/-- `attrs_HashFunc` and `dc_HashFunc`. -/
def hashFunc (id : UInt32) : Nat := (id &&& 255).toNat

/-- `attrs_KeyCmp` and `dc_KeyCmp`: no difference. -/
def keyCmp (key₁ key₂ : UInt32) : Bool := key₁ - key₂ == 0

/-- `attrs_Init` and `dc_Init`, with the limits of the mount and whether there is memory. -/
def initTable (maxEntries timeout : UInt32) (memOk : Bool) : Option (FTHashTable UInt32 Nat) :=
  fthashNew 256 4 maxEntries timeout memOk

/-- `dc_NEStr2Hash`. -/
def neStr2Hash (s : List UInt8) : UInt32 :=
  s.foldl (fun (l : UInt32) c => (l <<< 1) + c.toUInt32) 0 - UInt32.ofNat (s.length + 1)

section Calls
variable {σ : Type} (w : World σ)

namespace Caches

/-- `attrs_LookupFromFileId`. -/
def attrsLookupFromFileId (s : Caches σ) (fileId : UInt32) : Option Nat × Caches σ :=
  let c := w.now s.env
  let r := s.attrCache.fthashLookup hashFunc keyCmp fileId c.1
  (r.2.2, { s with env := c.2, attrCache := r.1 })

/-- `attrs_Delete`. -/
def attrsDelete (s : Caches σ) (fileId : UInt32) : Caches σ :=
  { s with attrCache := (s.attrCache.fthashMarkRemoved hashFunc keyCmp fileId).1 }

/-- `attrs_CreateAndInsert`. -/
def attrsCreateAndInsert (s : Caches σ) (fh : List UInt8) (fAttr : Fattr) : Option Nat × Caches σ :=
  let m := w.memOk s.env
  if m.1 then
    let m' := w.memOk m.2
    let c := w.now m'.2
    let r := s.attrCache.fthashInsert hashFunc fAttr.fileid (some s.next) m'.1 c.1
    (if r.2 then some s.next else none,
      { s with
          env := c.2, attrCache := r.1, next := s.next + 1
          aces := Function.update s.aces s.next ⟨fAttr.fileid, fh, fAttr⟩ })
  else (none, { s with env := m.2 })

/-- `attrs_Update`. -/
def attrsUpdate (s : Caches σ) (fh : List UInt8) (fAttr : Fattr) : Option Nat × Caches σ :=
  match s.attrsLookupFromFileId w fAttr.fileid with
  | (some a, s) =>
      (some a, { s with aces := Function.update s.aces a ⟨(s.aces a).fileId, fh, fAttr⟩ })
  | (none, s) => s.attrsCreateAndInsert w fh fAttr

/-- `attrs_UnLockAll`; none if the search for an entry to free does not end. -/
def attrsUnLockAll (s : Caches σ) : Option (Caches σ) :=
  let c := w.now s.env
  (s.attrCache.fthashUnLockAll c.1).map fun r => { s with env := c.2, attrCache := r.1 }

/-- `attrs_Flush`. -/
def attrsFlush (s : Caches σ) : Caches σ := { s with attrCache := s.attrCache.fthashFlush.1 }

/-- `attrs_SetCacheTimeout`. -/
def attrsSetCacheTimeout (s : Caches σ) (timeout : Int) : Caches σ :=
  { s with attrCache := s.attrCache.fthashSetTimeToLive timeout }

/-- `attrs_Bury`. -/
def attrsBury (s : Caches σ) : Caches σ :=
  let c := w.now s.env
  { s with env := c.2, attrCache := (s.attrCache.fthashBury c.1).1 }

/-- `attrs_SetCacheSize`. -/
def attrsSetCacheSize (s : Caches σ) (newSize : UInt32) : Option (Caches σ) :=
  let c := w.now s.env
  (s.attrCache.fthashSetMaxEntries newSize c.1).map fun r => { s with env := c.2, attrCache := r.1 }

/-- `dc_DCECreateAndInsert`. -/
def dcDCECreateAndInsert (s : Caches σ) (fileid : UInt32) (fh : List UInt8) :
    Option Nat × Caches σ :=
  let m := w.memOk s.env
  if m.1 then
    let m' := w.memOk m.2
    let c := w.now m'.2
    let r := s.dirCache.fthashInsert hashFunc fileid (some s.next) m'.1 c.1
    (if r.2 then some s.next else none,
      { s with
          env := c.2, dirCache := r.1, next := s.next + 1
          dces := Function.update s.dces s.next ⟨fileid, fh, []⟩ })
  else (none, { s with env := m.2 })

/-- `dc_NECreateAndInsert`. -/
def dcNECreateAndInsert (s : Caches σ) (dcent : Nat) (name : List UInt8) (fType fileId : UInt32) :
    Option NEntry × Caches σ :=
  let m := w.memOk s.env
  if m.1 then
    let m' := w.memOk m.2
    if m'.1 then
      let ent : NEntry := ⟨s.next, name, neStr2Hash name, fType, fileId⟩
      let dir := s.dces dcent
      (some ent,
        { s with
            env := m'.2, next := s.next + 1, dirCache := s.dirCache.fthashLock
            dces := Function.update s.dces dcent { dir with entries := ent :: dir.entries } })
    else (none, { s with env := m'.2 })
  else (none, { s with env := m.2 })

/-- `dc_NELookup`. -/
def dcNELookup (s : Caches σ) (dcent : Nat) (name : List UInt8) : Option NEntry × Caches σ :=
  let hash := neStr2Hash name
  match (s.dces dcent).entries.find? fun n => hash = n.hash ∧ name = n.name with
  | some nent => (some nent, { s with dirCache := s.dirCache.fthashLock })
  | none => (none, s)

/-- `dc_NERemove`. -/
def dcNERemove (s : Caches σ) (dcent : Nat) (parNEnt : Nat) : Caches σ :=
  let dir := s.dces dcent
  let entries := dir.entries.eraseP fun n => n.addr = parNEnt
  { s with dces := Function.update s.dces dcent { dir with entries } }

/-- `dc_DCELookupFromFileId`. -/
def dcDCELookupFromFileId (s : Caches σ) (id : UInt32) : Option Nat × Caches σ :=
  let c := w.now s.env
  let r := s.dirCache.fthashLookup hashFunc keyCmp id c.1
  (r.2.2, { s with env := c.2, dirCache := r.1 })

/-- `dc_DCEDeleteFromFileId`. -/
def dcDCEDeleteFromFileId (s : Caches σ) (id : UInt32) : Caches σ :=
  { s with dirCache := (s.dirCache.fthashMarkRemoved hashFunc keyCmp id).1 }

/-- `dc_UnLockAll`. -/
def dcUnLockAll (s : Caches σ) : Option (Caches σ) :=
  let c := w.now s.env
  (s.dirCache.fthashUnLockAll c.1).map fun r => { s with env := c.2, dirCache := r.1 }

/-- `dc_Flush`. -/
def dcFlush (s : Caches σ) : Caches σ := { s with dirCache := s.dirCache.fthashFlush.1 }

/-- `dc_SetCacheTimeout`. -/
def dcSetCacheTimeout (s : Caches σ) (timeout : Int) : Caches σ :=
  { s with dirCache := s.dirCache.fthashSetTimeToLive timeout }

/-- `dc_Bury`. -/
def dcBury (s : Caches σ) : Caches σ :=
  let c := w.now s.env
  { s with env := c.2, dirCache := (s.dirCache.fthashBury c.1).1 }

/-- `dc_SetCacheSize`. -/
def dcSetCacheSize (s : Caches σ) (newSize : UInt32) : Option (Caches σ) :=
  let c := w.now s.env
  (s.dirCache.fthashSetMaxEntries newSize c.1).map fun r => { s with env := c.2, dirCache := r.1 }

end Caches

end Calls

end Anfs.Tree
