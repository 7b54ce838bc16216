import Mathlib.Data.List.DropRight
import Anfs.Lock.Locks
import Anfs.Path.Unify

/-!
# `CBuildFullName`

The full name of an object is built from a lock and the path of a client. `AddPart` of
dos.library is a parameter: its result for a directory, a file and the size of the buffer, none
if the buffer is too small.
-/
namespace Anfs.Path
open Anfs.Lib Anfs.Nfs Anfs.Lock

/-- `MAX_LONGAMIGAFILENAMELEN`. -/
def maxLongAmigaFileNameLen : Nat := 106

/-- `tolower`. -/
def toLower (c : UInt8) : UInt8 := if 65 ≤ c ∧ c ≤ 90 then c + 32 else c

/-- `strnicmp(a, b, n) == 0`; the terminator differs from every character. -/
def strnicmp : Nat → List UInt8 → List UInt8 → Bool
  | 0, _, _ => true
  | _ + 1, [], [] => true
  | n + 1, a :: as, b :: bs => toLower a == toLower b && strnicmp n as bs
  | _ + 1, [], _ :: _ => false
  | _ + 1, _ :: _, [] => false

/-- The text in front of the first ":", all of it if there is none. -/
def devPart (ss : List UInt8) : List UInt8 := ss.takeWhile (· ≠ colon)

/-- The text of `fn_PathWithoutDev`, and `IsAbsolute`. -/
def withoutDev (ss : List UInt8) : List UInt8 × Bool :=
  match ss.dropWhile (· ≠ colon) with
  | [] => (ss, false)
  | _ :: s => (s, true)

/-- The text of `fn_AM2UN`: ".." between two slashes. -/
def fnAM2UN : List UInt8 → List UInt8
  | [] => []
  | c :: s => if c = slash ∧ s.head? = some slash then c :: dot :: dot :: fnAM2UN s
      else c :: fnAM2UN s

/-- `FilePart` of dos.library: the text behind the last "/" or ":". -/
def filePart (s : List UInt8) : List UInt8 :=
  s.rtakeWhile fun c => c ≠ slash ∧ c ≠ colon

/-- `fn_FilePart`: the name and its length, which counts a single "/" that was stripped. -/
def fnFilePart (h : Heap) (s : List UInt8) : Option Str × Nat × Heap :=
  if s = [] then
    let d := strDup h []
    (d.1, 0, d.2)
  else if s.getLast? = some colon then
    let d := strDup h s
    (d.1, s.length, d.2)
  else if filePart s = [] then
    let s₂ := strDup h s
    match s₂.1 with
    | none => (none, 0, s₂.2)
    | some _ =>
        if s.dropLast.getLast? = some slash then (none, 0, fnDelete s₂.2 s₂.1)
        else
          let d := strDup s₂.2 (filePart s.dropLast)
          (d.1, (filePart s.dropLast).length + 1, fnDelete d.2 s₂.1)
  else
    let d := strDup h (filePart s)
    (d.1, (filePart s).length, d.2)

theorem fnPathUnify_isSome (memOk : Bool) (ss : List UInt8) :
    (fnPathUnify memOk ss).isSome = true := by
  cases memOk with
  | false =>
      obtain ⟨res2, hrun, -⟩ := fnPathUnify_noMem ss
      rw [hrun]
      rfl
  | true =>
      rcases fnPathUnify_spec ss with ⟨-, res2, hrun, -⟩ | ⟨st, strippedDirs, -, -, hrun⟩
      · rw [hrun]
        rfl
      · rw [hrun]
        rfl

/-- The result of `fn_PathUnify` with memory. -/
def unified (ss : List UInt8) : Except Int Unified :=
  (fnPathUnify true ss).get (fnPathUnify_isSome true ss)

/-- `fn_PathUnify`, the path in a block of its own. -/
def fnPathUnifyStr (h : Heap) (ss : List UInt8) : Except Int (Str × Bool) × Heap :=
  if ss.head? = some slash ∨ startsDotDot ss then (.error errorObjectNotFound, h)
  else
    match h.alloc with
    | (none, h) => (.error errorNoFreeStore, h)
    | (some d, h) =>
        match unified ss with
        | .error res2 => (.error res2, h.free d)
        | .ok u => (.ok (⟨d, u.path⟩, u.strippedDirs), h)

section AddPart
variable (addPart : List UInt8 → List UInt8 → Nat → Option (List UInt8))

/-- The text of `fn_AddPart`. -/
def added (s₁ s₂ : List UInt8) : Option (List UInt8) := addPart s₁ s₂ (s₁.length + s₂.length + 3)

/-- `fn_AddPart`. -/
def fnAddPart (h : Heap) (s₁ s₂ : List UInt8) : Option Str × Heap :=
  match h.alloc with
  | (none, h) => (none, h)
  | (some s, h) =>
      match added addPart s₁ s₂ with
      | none => (none, h.free s)
      | some text => (some ⟨s, text⟩, h)

/-- The local variables behind the part that depends on `u_path`. -/
structure Built where
  uPath : Option Str
  fullName : Option Str
  name : Option Str
  nameLen : Nat
  localRes2 : Int

/-- The part of `CBuildFullName` that depends on `u_path`, up to the test of `NameLen`. -/
def build (h : Heap) (oldFullName pathWithoutDev : List UInt8) : Built × Heap :=
  let u := strDup h (fnAM2UN pathWithoutDev)
  match u.1 with
  | none => (⟨none, none, none, 0, 0⟩, u.2)
  | some _ =>
      let s := fnAddPart addPart u.2 oldFullName pathWithoutDev
      match s.1 with
      | none => (⟨u.1, none, none, 0, 0⟩, s.2)
      | some path =>
          match fnPathUnifyStr s.2 path.text with
          | (.error res2, h) => (⟨u.1, none, none, 0, res2⟩, fnDelete h s.1)
          | (.ok (full, strippedDirs), h) =>
              let u' := if strippedDirs then
                strDup (fnDelete h u.1) (fnAM2UN full.text) else (u.1, h)
              let f := fnFilePart (fnDelete u'.2 s.1) full.text
              (⟨u'.1, some full, f.1, f.2.1, 0⟩, f.2.2)

/-- What is stored through the pointers, and the full name. -/
structure FullName where
  fullName : Str
  fullNameLen : Nat
  name : Option Str
  nameLen : Nat
  uPath : Option Str

/-- The full name of the lock, and its length; none if the lock is not in the list. -/
def oldFullName (locks : List ELOCK) : Option Nat → Option (List UInt8)
  | none => some []
  | some fl => (lockLookup locks fl).map fun l => l.fullName.text

/-- The name that the path is relative to. -/
def baseName (volume old cstr : List UInt8) (fl : Option Nat) : List UInt8 :=
  if (withoutDev cstr).2 ∧ (withoutDev cstr).1 ≠ [] ∧ fl ≠ none ∧ old.length ≠ 0 then
    if strnicmp (devPart cstr).length cstr volume then [] else old
  else old

/-- `CBuildFullName`; an error is what is stored in `Res2`. The lock stored through `DirLock` is
always NULL. -/
def cBuildFullName (volume : List UInt8) (locks : List ELOCK) (h : Heap) (fl : Option Nat)
    (cstr : List UInt8) (argName uPath : Bool) : Except Int FullName × Heap :=
  match oldFullName locks fl with
  | none => (.error errorInvalidLock, h)
  | some old =>
      let pathWithoutDev := strDup h (withoutDev cstr).1
      match pathWithoutDev.1 with
      | none => (.error errorNoFreeStore, pathWithoutDev.2)
      | some path =>
          let b := build addPart pathWithoutDev.2 (baseName volume old cstr fl) path.text
          if b.1.name.isSome ∧ maxLongAmigaFileNameLen < b.1.nameLen then
            (.error errorInvalidComponentName,
              fnDelete (fnDelete (fnDelete b.2 b.1.uPath) b.1.fullName) b.1.name)
          else
            let h := fnDelete b.2 pathWithoutDev.1
            match b.1.uPath, b.1.fullName, b.1.name with
            | some _, some full, some _ =>
                let h := if uPath then h else fnDelete h b.1.uPath
                let h := if argName then h else fnDelete h b.1.name
                (.ok {
                  fullName := full, fullNameLen := full.text.length
                  name := if argName then b.1.name else none
                  nameLen := b.1.nameLen
                  uPath := if uPath then b.1.uPath else none }, h)
            | _, _, _ =>
                (.error (if b.1.localRes2 ≠ 0 then b.1.localRes2 else errorNoFreeStore),
                  fnDelete (fnDelete (fnDelete h b.1.uPath) b.1.fullName) b.1.name)

/-- The memory holds out until the name is built, and the name is too long. -/
def nameTooLong (volume : List UInt8) (locks : List ELOCK) (h : Heap) (fl : Option Nat)
    (cstr : List UInt8) : Bool :=
  match oldFullName locks fl with
  | none => false
  | some old =>
      match strDup h (withoutDev cstr).1 with
      | (none, _) => false
      | (some path, h) =>
          let b := (build addPart h (baseName volume old cstr fl) path.text).1
          b.name.isSome && decide (maxLongAmigaFileNameLen < b.nameLen)

end AddPart

end Anfs.Path
