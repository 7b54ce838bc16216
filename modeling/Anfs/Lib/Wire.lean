import Mathlib.Data.List.Basic

/-!
# Big-endian words and padded byte strings

The two building blocks of external data formats made of 4-byte units: a 32-bit
word, most significant byte first, and a byte string filled up with zeros to the
next multiple of four.
-/
namespace Anfs.Lib

/-- The four bytes of a word, most significant first. -/
def be32 (x : UInt32) : List UInt8 :=
  [UInt8.ofNat (x.toNat / 16777216), UInt8.ofNat (x.toNat / 65536),
    UInt8.ofNat (x.toNat / 256), UInt8.ofNat x.toNat]

/-- The word stored in the first four bytes of `bs`; missing bytes read as zero. -/
def ofBe32 (bs : List UInt8) : UInt32 :=
  UInt32.ofNat ((bs.getD 0 0).toNat * 16777216 + (bs.getD 1 0).toNat * 65536 +
    (bs.getD 2 0).toNat * 256 + (bs.getD 3 0).toNat)

@[simp] theorem be32_length (x : UInt32) : (be32 x).length = 4 := rfl

@[simp] theorem ofBe32_be32_append (x : UInt32) (rest : List UInt8) :
    ofBe32 (be32 x ++ rest) = x := by
  have hx := x.toNat_lt
  have hsum : x.toNat / 16777216 % 256 * 16777216 + x.toNat / 65536 % 256 * 65536 +
      x.toNat / 256 % 256 * 256 + x.toNat % 256 = x.toNat := by omega
  simp [ofBe32, be32, hsum]

/-- Zeros needed after `n` bytes to reach a multiple of four. -/
def pad (n : Nat) : Nat := (4 - n % 4) % 4

theorem pad_eq_zero_iff (n : Nat) : pad n = 0 ↔ n % 4 = 0 := by
  simp only [pad]; omega

theorem pad_lt (n : Nat) : pad n < 4 := by
  simp only [pad]; omega

/-- `bs` followed by its zeros. -/
def padded (bs : List UInt8) : List UInt8 := bs ++ List.replicate (pad bs.length) 0

theorem padded_length (bs : List UInt8) : (padded bs).length = bs.length + pad bs.length := by
  simp [padded]

/-- Padding adds nothing exactly to strings made of whole units. -/
theorem padded_eq_self_iff (bs : List UInt8) : padded bs = bs ↔ bs.length % 4 = 0 := by
  rw [← pad_eq_zero_iff]
  simp [padded]

end Anfs.Lib
