import Anfs.Lib.Heap
import Anfs.Basic

/-!
# Strings in allocated memory

A C string is the list of its bytes in front of the terminator. A string that a function
returns to its caller is a block with such a list in it.
-/
namespace Anfs
open Anfs.Lib

def slash : UInt8 := 47

def dot : UInt8 := 46

def colon : UInt8 := 58

/-- A string in a block of its own. -/
structure Str where
  addr : Nat
  text : List UInt8
deriving DecidableEq

/-- The block that a pointer to a string owns. -/
def Str.block (s : Option Str) : List Nat := (s.map Str.addr).toList

/-- `AllocVec`, and the text that is copied into the block. -/
def strDup (h : Heap) (s : List UInt8) : Option Str × Heap :=
  (h.alloc.1.map fun a => ⟨a, s⟩, h.alloc.2)

/-- `fn_Delete`. -/
def fnDelete (h : Heap) : Option Str → Heap
  | none => h
  | some s => h.free s.addr

section Owns
variable {h₀ h : Heap} {bs : List Nat}

@[simp] theorem block_none : Str.block none = [] := rfl

@[simp] theorem block_some (s : Str) : Str.block (some s) = [s.addr] := rfl

theorem owns_strDup (h : Heap) (s : List UInt8) :
    Heap.Owns h (strDup h s).2 (Str.block (strDup h s).1) := by
  have halloc := Heap.owns_alloc h
  unfold strDup Str.block
  cases hpick : h.alloc.1 with
  | none => simpa [hpick] using halloc
  | some a => simpa [hpick] using halloc

theorem Owns.strDup (ho : Heap.Owns h₀ h bs) (s : List UInt8) :
    Heap.Owns h₀ (Anfs.strDup h s).2 (Str.block (Anfs.strDup h s).1 ++ bs) :=
  ho.trans (owns_strDup h s)

theorem Owns.fnDelete {s : Option Str} (ho : Heap.Owns h₀ h (Str.block s ++ bs)) :
    Heap.Owns h₀ (Anfs.fnDelete h s) bs := by
  cases s with
  | none => exact ho
  | some s => exact Heap.Owns.free ho

theorem text_strDup {h : Heap} {s : List UInt8} {d : Str} (hd : (strDup h s).1 = some d) :
    d.text = s := by
  obtain ⟨a, -, rfl⟩ := Option.map_eq_some_iff.mp hd
  rfl

theorem Ample.strDup (ha : h.Ample) (s : List UInt8) :
    ∃ a h', Anfs.strDup h s = (some ⟨a, s⟩, h') ∧ h'.Ample := by
  obtain ⟨a, h', halloc, ha'⟩ := ha.alloc
  exact ⟨a, h', by rw [Anfs.strDup, halloc]; rfl, ha'⟩

theorem Ample.fnDelete (ha : h.Ample) (s : Option Str) : (Anfs.fnDelete h s).Ample := by
  cases s with
  | none => exact ha
  | some s => exact ha.free s.addr

end Owns

end Anfs
