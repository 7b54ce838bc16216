import Mathlib.Data.Int.Basic

/-!
# Machine integers and shared constants

The handler runs on a 32-bit machine. A `LONG` is an integer in the two's
complement range; arithmetic is done in `Int` and brought back by `long` where
the source stores a result. Pointers are natural numbers, a null pointer is `none`.
-/
namespace Anfs

/-- The 32-bit two's complement value stored for `x`. -/
def long (x : Int) : Int := (x + 2147483648) % 4294967296 - 2147483648

/-- The unsigned 32-bit value stored for `x`. -/
def ulong (x : Int) : Int := x % 4294967296

/-- A value a `LONG` can hold. -/
def IsLong (x : Int) : Prop := -2147483648 ≤ x ∧ x < 2147483648

instance (x : Int) : Decidable (IsLong x) := by unfold IsLong; infer_instance

theorem isLong_long (x : Int) : IsLong (long x) := by
  simp only [IsLong, long]; omega

@[simp] theorem long_of_isLong {x : Int} (h : IsLong x) : long x = x := by
  simp only [IsLong] at h; simp only [long]; omega

@[simp] theorem long_long (x : Int) : long (long x) = long x :=
  long_of_isLong (isLong_long x)

theorem long_add_long (x y : Int) : long (long x + y) = long (x + y) := by
  simp only [long]; omega

theorem long_le {x : Int} (h : 0 ≤ x) : long x ≤ x := by
  simp only [long]; omega

/-- Largest data block of one NFS request. -/
def nfsMaxdata : Nat := 8192

/-- Bytes of an NFS file handle. -/
def nfsFhsize : Nat := 32

end Anfs
