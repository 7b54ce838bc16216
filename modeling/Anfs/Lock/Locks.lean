import Anfs.Strings
import Anfs.Prot.Messages

/-!
# The lock list

`locks.c`. The list is linked through `fl_Link`, the newest lock first; a lock is known to the
client by its address. The lengths that are stored beside the names are those of the texts.
-/
namespace Anfs.Lock
open Anfs.Lib Anfs.Xdr

def SHARED_LOCK : Int := -2

def EXCLUSIVE_LOCK : Int := -1

/-- `ftype`: no file, regular file, directory, symbolic link. -/
def NFNON : UInt32 := 0

def NFREG : UInt32 := 1

def NFDIR : UInt32 := 2

def NFLNK : UInt32 := 5

structure ELOCK where
  addr : Nat
  flKey : UInt32
  flAccess : Int
  nfsFh : List UInt8
  nfsType : UInt32
  fullName : Str
  name : Str
deriving DecidableEq

/-- The blocks that a pointer to a lock owns. -/
def lockBlocks : Option ELOCK → List Nat
  | none => []
  | some l => [l.addr, l.fullName.addr, l.name.addr]

/-- `lock_Create`; the memory is cleared, so the key and the file handle are zero. -/
def lockCreate (h : Heap) (fullName name : List UInt8) (nfstype : UInt32) (mode : Int) :
    Option ELOCK × Heap :=
  match h.alloc with
  | (none, h) => (none, h)
  | (some elock, h) =>
      let s₁ := strDup h fullName
      let s₂ := strDup s₁.2 name
      match s₁.1, s₂.1 with
      | some full, some last =>
          (some {
            addr := elock, flKey := 0, flAccess := mode, nfsFh := zeros nfsFhsize
            nfsType := nfstype, fullName := full, name := last }, s₂.2)
      | _, _ => (none, (fnDelete (fnDelete s₂.2 s₁.1) s₂.1).free elock)

/-- `lock_Dup`. -/
def lockDup (h : Heap) (oel : ELOCK) : Option ELOCK × Heap :=
  match h.alloc with
  | (none, h) => (none, h)
  | (some elock, h) =>
      let s₁ := strDup h oel.fullName.text
      let s₂ := strDup s₁.2 oel.name.text
      match s₁.1, s₂.1 with
      | some full, some last =>
          (some { oel with addr := elock, fullName := full, name := last }, s₂.2)
      | _, _ => (none, fnDelete (fnDelete (s₂.2.free elock) s₁.1) s₂.1)

/-- `lock_Insert`. -/
def lockInsert (locks : List ELOCK) (elock : ELOCK) : List ELOCK := elock :: locks

/-- `lock_Lookup`. -/
def lockLookup (locks : List ELOCK) (fl : Nat) : Option ELOCK := locks.find? fun l => l.addr = fl

/-- `lock_LookupFromKey`. -/
def lockLookupFromKey (locks : List ELOCK) (key : UInt32) : Option ELOCK :=
  locks.find? fun l => l.flKey = key

/-- `lock_NumLocksFromKey`. -/
def lockNumLocksFromKey (locks : List ELOCK) (key : UInt32) : Nat :=
  locks.countP fun l => l.flKey = key

/-- `lock_Remove`: the list without the lock with this address, and the lock if it was in it. -/
def lockRemove (locks : List ELOCK) (fl : Nat) : Option ELOCK × List ELOCK :=
  (lockLookup locks fl, locks.eraseP fun l => l.addr = fl)

/-- `lock_Delete`. -/
def lockDelete (h : Heap) : Option ELOCK → Heap
  | none => h
  | some l => ((h.free l.fullName.addr).free l.name.addr).free l.addr

section Owns
variable {h₀ h : Heap} {bs : List Nat}

@[simp] theorem lockBlocks_none : lockBlocks none = [] := rfl

@[simp] theorem lockBlocks_some (l : ELOCK) :
    lockBlocks (some l) = [l.addr, l.fullName.addr, l.name.addr] := rfl

/-- `lock_Create` leaves the blocks of the lock that it returns. -/
theorem owns_lockCreate (h : Heap) (fullName name : List UInt8) (nfstype : UInt32) (mode : Int) :
    Heap.Owns h (lockCreate h fullName name nfstype mode).2
      (lockBlocks (lockCreate h fullName name nfstype mode).1) := by
  have halloc := Heap.owns_alloc h
  unfold lockCreate
  cases hpick : h.alloc with
  | mk elock h₁ =>
      rw [hpick] at halloc
      cases elock with
      | none => exact halloc
      | some elock =>
          dsimp only
          have hfull := Owns.strDup halloc fullName
          have hlast := Owns.strDup hfull name
          generalize strDup h₁ fullName = s₁ at *
          generalize strDup s₁.2 name = s₂ at *
          have hfail : Heap.Owns h ((fnDelete (fnDelete s₂.2 s₁.1) s₂.1).free elock) [] := by
            have hboth := hlast.perm (List.perm_append_comm_assoc ..)
            exact (Owns.fnDelete (Owns.fnDelete hboth)).free
          obtain ⟨_ | full, h₂⟩ := s₁
          · exact hfail
          · obtain ⟨_ | last, h₃⟩ := s₂
            · exact hfail
            · exact hlast.perm (List.reverse_perm [elock, full.addr, last.addr])

/-- `lock_Delete` gives the blocks of the lock back. -/
theorem Owns.lockDelete {l : Option ELOCK} (ho : Heap.Owns h₀ h (lockBlocks l ++ bs)) :
    Heap.Owns h₀ (Lock.lockDelete h l) bs := by
  cases l with
  | none => exact ho
  | some l =>
      have hfull :=
        ho.perm
        ((List.perm_append_singleton l.addr [l.fullName.addr, l.name.addr]).symm.append_right bs)
      exact hfull.free.free.free

end Owns

end Anfs.Lock
