import Mathlib.Data.List.Basic
import Mathlib.Tactic.Common

/-!
# Bytes at offsets

A memory is a function from offsets to bytes. Byte strings are stored one after another; what
has been stored at disjoint places is read back in any order. A row of cells has a fixed
length; the cell behind a known front is read and replaced.
-/
namespace Anfs.Lib

/-- The memory with the bytes `bs` at `offs`. -/
def store (mem : Nat → UInt8) (offs : Nat) (bs : List UInt8) : Nat → UInt8 := fun i =>
  if offs ≤ i then bs.getD (i - offs) (mem i) else mem i

/-- The `n` bytes at `offs`. -/
def load (mem : Nat → UInt8) (offs n : Nat) : List UInt8 :=
  (List.range n).map fun k => mem (offs + k)

/-- A byte string with its place. -/
abbrev Piece := Nat × List UInt8

/-- The offset behind a piece. -/
def Piece.last (p : Piece) : Nat := p.1 + p.2.length

/-- No byte belongs to both. -/
def Piece.Apart (p q : Piece) : Prop := p.last ≤ q.1 ∨ q.last ≤ p.1

instance (p q : Piece) : Decidable (p.Apart q) := inferInstanceAs (Decidable (_ ∨ _))

/-- All pieces stored, the last of the list first. -/
def storeAll (ps : List Piece) (mem : Nat → UInt8) : Nat → UInt8 :=
  ps.foldr (fun p mem => store mem p.1 p.2) mem

section Store
variable {mem : Nat → UInt8} {offs n i : Nat} {bs : List UInt8} {p q : Piece} {ps : List Piece}

@[simp] theorem load_length (mem : Nat → UInt8) (offs n : Nat) : (load mem offs n).length = n := by
  simp [load]

/-- A byte outside is kept. -/
theorem store_of_notIn (h : i < offs ∨ offs + bs.length ≤ i) : store mem offs bs i = mem i := by
  unfold store
  split
  · rw [List.getD_eq_getElem?_getD, List.getElem?_eq_none (by omega)]
    rfl
  · rfl

theorem load_store (mem : Nat → UInt8) (offs : Nat) (bs : List UInt8) :
    load (store mem offs bs) offs bs.length = bs := by
  apply List.ext_getElem
  · simp
  · intro k h _
    simp only [load_length] at h
    simp [load, store, h]

theorem load_congr {mem' : Nat → UInt8} (h : ∀ k < n, mem' (offs + k) = mem (offs + k)) :
    load mem' offs n = load mem offs n := by
  unfold load
  apply List.map_congr_left
  intro k hk
  exact h k (List.mem_range.mp hk)

theorem load_store_of_apart (h : p.Apart q) :
    load (store mem p.1 p.2) q.1 q.2.length = load mem q.1 q.2.length := by
  apply load_congr
  intro k hk
  apply store_of_notIn
  unfold Piece.Apart Piece.last at h
  omega

theorem storeAll_of_notIn (h : ∀ p ∈ ps, i < p.1 ∨ p.last ≤ i) : storeAll ps mem i = mem i := by
  induction ps with
  | nil => rfl
  | cons p ps ih =>
      show store (storeAll ps mem) p.1 p.2 i = _
      rw [store_of_notIn (h p List.mem_cons_self)]
      exact ih fun q hq => h q (List.mem_cons_of_mem _ hq)

/-- Pieces that are apart are all read back. -/
theorem load_storeAll (hapart : ps.Pairwise Piece.Apart) (hp : p ∈ ps) :
    load (storeAll ps mem) p.1 p.2.length = p.2 := by
  induction ps with
  | nil => cases hp
  | cons q ps ih =>
      obtain ⟨hq, hps⟩ := List.pairwise_cons.mp hapart
      show load (store (storeAll ps mem) q.1 q.2) p.1 p.2.length = _
      rcases List.mem_cons.mp hp with rfl | hmem
      · exact load_store _ _ _
      · rw [load_store_of_apart (hq p hmem)]
        exact ih hps hmem

end Store

section Cells
variable {α : Type*} {n : Nat} {a : Vector α n} {front tail : List α} {e : α}

theorem length_lt_of_toList (h : a.toList = front ++ e :: tail) : front.length < n := by
  have hlen := congrArg List.length h
  simp only [Vector.length_toList, List.length_append, List.length_cons] at hlen
  omega

theorem get_of_toList (h : a.toList = front ++ e :: tail) (hi : front.length < n) :
    a.get ⟨front.length, hi⟩ = e := by
  have hat : a.toList[front.length]? = some e := by
    rw [h, List.getElem?_append_right (Nat.le_refl _), Nat.sub_self, List.getElem?_cons_zero]
  rw [Vector.getElem?_toList, Vector.getElem?_eq_getElem hi] at hat
  exact Option.some.inj hat

theorem toList_set_of_toList (h : a.toList = front ++ e :: tail) (e' : α)
    (hi : front.length < n) : (a.set front.length e' hi).toList = front ++ e' :: tail := by
  rw [Vector.toList_set, h, List.set_append_right _ _ (Nat.le_refl _), Nat.sub_self,
    List.set_cons_zero]

end Cells

end Anfs.Lib
