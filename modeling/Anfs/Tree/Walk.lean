import Anfs.Path.FullName
import Anfs.Path.Scan
import Anfs.Tree.Locate

/-!
# Reading symbolic links

`link.c` and `fn_InsertLink`. `AddPart` of dos.library is a parameter: `join` is the text that it
makes of a directory and a file, and it fails exactly if that text and its terminator do not fit.
A store is the offset from the start of the client's buffer and the number of bytes.
-/
namespace Anfs.Tree
open Anfs.Cache Anfs.Lib Anfs.Lock Anfs.Nfs Anfs.Path

/-- `AddPart`. -/
def addPart (join : List UInt8 → List UInt8 → List UInt8) (dir file : List UInt8) (size : Nat) :
    Option (List UInt8) :=
  if (join dir file).length < size then some (join dir file) else none

section Walk
variable (join : List UInt8 → List UInt8 → List UInt8)

/-- `fn_InsertLink`: the text in `Buf` or what is stored in `Res2`, and the stores. The "/" in front
of the component is not copied. -/
def fnInsertLink (bufLen : Nat) (device path : List UInt8) (start len : Nat) (link : List UInt8) :
    Except Int (List UInt8) × List (Nat × Nat) :=
  let l := device.length
  if bufLen < l + 2 then (.error errorNoFreeStore, [])
  else
    let colons := if device.getLast? = some colon then [] else [colon]
    let d := device ++ colons
    let stores := (0, l + 1) :: colons.map fun _ => (l, 2)
    let bufFree := bufLen - d.length
    if 0 < start ∧ ¬ start < bufFree then (.error errorNoFreeStore, stores)
    else
      let buf := if 0 < start then d ++ path.take (start - 1) else d
      let stores := if 0 < start then stores ++ [(d.length, start)] else stores
      match addPart join buf link bufLen with
      | none => (.error errorNoFreeStore, stores)
      | some buf =>
          let stores := stores ++ [(0, buf.length + 1)]
          match path.drop (start + len) with
          | [] => (.ok buf, stores)
          | _ :: rest =>
              match addPart join buf rest bufLen with
              | none => (.error errorNoFreeStore, stores)
              | some buf => (.ok buf, stores ++ [(0, buf.length + 1)])

/-- How `PathWalk` ends: its result, `Res2`, and the text and the stores in `LinkPath`. -/
structure Walked where
  res : Int
  res2 : Int
  text : List UInt8
  stores : List (Nat × Nat)
deriving DecidableEq

variable {σ : Type} (w : World σ)

namespace Caches

/-- The handle in the attribute entry that `GetNameEntry` returned. -/
def aceFh (s : Caches σ) (ace : Option Nat) : List UInt8 :=
  (ace.map fun a => (s.aces a).nfsFh).getD []

/-- The end of `PathWalk` at a link. -/
def walkLink (bufLen : Nat) (volume fullName : List UInt8) (start len : Nat) (res2 : Int)
    (lpath : List UInt8) : Walked :=
  match fnInsertLink join bufLen volume fullName start len lpath with
  | (.error err, stores) => ⟨if err = errorNoFreeStore then -1 else 0, err, [], stores⟩
  | (.ok text, stores) => ⟨2, res2, text, stores⟩

/-- The loop of `PathWalk`; none when it does not end in `n` turns. `Res2` is not set for an empty
component, and when `GetDirEntry` fails the loop ends with `Res` still 1. -/
def pathWalkLoop (bufLen : Nat) (volume fullName : List UInt8) (res2 : Int) :
    Nat → Caches σ → Nat → ScanPath → Option (Walked × Caches σ)
  | 0, _, _, _ => none
  | n + 1, s, parDir, u =>
      let pComp := fnScanPath u
      let name := cString pComp.2.path pComp.1
      if pComp.2.path[pComp.1]? = some slash then some (⟨0, res2, [], []⟩, s)
      else
        match s.getNameEntry w parDir name true with
        | (.error err, s) => some (⟨0, err, [], []⟩, s)
        | (.ok (nent, ace), s) =>
            if nent.ftype ≠ NFDIR ∧ nent.ftype ≠ NFLNK then
              some (⟨0, errorInvalidComponentName, [], []⟩, s)
            else if nent.ftype = NFLNK then
              match w.readLink s.env (s.aceFh ace) with
              | (.error err, env) => some (⟨0, err, [], []⟩, { s with env })
              | (.ok lpath, env) =>
                  some (walkLink join bufLen volume fullName pComp.1 name.length res2 lpath,
                    { s with env })
            else
              match s.getDirEntry w nent.fileId (s.aceFh ace) with
              | (.error err, s) => some (⟨1, err, [], []⟩, s)
              | (.ok actDir, s) =>
                  if pComp.2.lastElement then some (⟨1, res2, [], []⟩, s)
                  else pathWalkLoop bufLen volume fullName res2 n s actDir pComp.2

/-- `PathWalk`; `res2` is what `Res2` held before. -/
def pathWalk (bufLen : Nat) (volume : List UInt8) (mntId : UInt32) (mntFh : List UInt8) (res2 : Int)
    (h : Heap) (s : Caches σ) (fullName : List UInt8) : Option (Walked × Heap × Caches σ) :=
  match strDup h fullName with
  | (none, h) => some (⟨0, errorNoFreeStore, [], []⟩, h, s)
  | (some workPath, h) =>
      match s.getDirEntry w mntId mntFh with
      | (.error err, s) => some (⟨0, err, [], []⟩, fnDelete h (some workPath), s)
      | (.ok parDir, s) =>
          if fullName.length = 0 then
            some (⟨1, res2, [], [(0, 1)]⟩, fnDelete h (some workPath), s)
          else
            (pathWalkLoop join w bufLen volume fullName res2 fullName.length s parDir
              ⟨workPath.text ++ [0], 0, false⟩).map fun r => (r.1, fnDelete h (some workPath), r.2)

/-- The reply to a packet, and the text and the stores in the client's buffer. -/
structure LinkReply where
  res1 : Int
  res2 : Int
  text : List UInt8
  stores : List (Nat × Nat)
deriving DecidableEq

/-- The switch on the result of `PathWalk`. -/
def linkReply (r : Walked) : LinkReply :=
  if r.res = 2 then ⟨r.text.length, 0, r.text, r.stores⟩
  else if r.res = 1 then ⟨0, errorObjectNotFound, r.text, r.stores⟩
  else if r.res = 0 then ⟨0, r.res2, r.text, r.stores⟩
  else ⟨-2, 0, r.text, r.stores⟩

/-- `act_READ_LINK`; `res2` is what the variable `Res2` holds at the start. -/
def actReadLink (volume : List UInt8) (mntId : UInt32) (mntFh : List UInt8) (locks : List ELOCK)
    (res2 : Int) (h : Heap) (s : Caches σ) (fl : Option Nat) (path : List UInt8)
    (bufSize : UInt32) : Option (LinkReply × Heap × Caches σ) :=
  match cBuildFullName (addPart join) volume locks h fl path false false with
  | (.error err, h) => some (⟨0, err, [], []⟩, h, s)
  | (.ok full, h) =>
      (pathWalk join w bufSize.toNat volume mntId mntFh res2 h s full.fullName.text).map fun r =>
        (linkReply r.1, fnDelete r.2.1 (some full.fullName), r.2.2)

/-- What the walk meets. -/
inductive Meets
  | noMemory
  /-- A link behind the components `before`. -/
  | link (before : List (List UInt8)) (name text : List UInt8) (after : List (List UInt8))
  | directories
  | other
  /-- A step failed; `dirStep` tells if it was for the directory entry of a component. -/
  | failed (dirStep : Bool) (res2 : Int)
deriving DecidableEq

/-- The walk from a directory along components. -/
def meets (before : List (List UInt8)) : Caches σ → Nat → List (List UInt8) → Meets × Caches σ
  | s, _, [] => (.directories, s)
  | s, parDir, c :: cs =>
      match s.getNameEntry w parDir c true with
      | (.error err, s) => (.failed false err, s)
      | (.ok (nent, ace), s) =>
          if nent.ftype = NFLNK then
            match w.readLink s.env (s.aceFh ace) with
            | (.error err, env) => (.failed false err, { s with env })
            | (.ok lpath, env) => (.link before c lpath cs, { s with env })
          else if nent.ftype = NFDIR then
            match s.getDirEntry w nent.fileId (s.aceFh ace) with
            | (.error err, s) => (.failed true err, s)
            | (.ok actDir, s) => meets (before ++ [c]) s actDir cs
          else (.other, s)

/-- The walk from the root. -/
def meetsFromRoot (mntId : UInt32) (mntFh : List UInt8) (h : Heap) (s : Caches σ)
    (cs : List (List UInt8)) : Meets :=
  if (strDup h (joined cs)).1 = none then .noMemory
  else
    match s.getDirEntry w mntId mntFh with
    | (.error err, _) => .failed false err
    | (.ok parDir, s) => (meets w [] s parDir cs).1

end Caches

end Walk

end Anfs.Tree
