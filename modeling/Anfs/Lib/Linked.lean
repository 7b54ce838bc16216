import Mathlib.Data.List.Nodup
import Mathlib.Logic.Function.Basic

/-!
# Singly linked lists

`next` gives for each cell the cell behind it, a null pointer is `none`. The list of
cells met from a pointer on is determined by `next`. Pushing, popping and linking in a
cell change one or two links; cells elsewhere keep theirs.
-/
namespace Anfs.Lib

variable {α : Type*}

/-- Following `next` from `o` on meets the cells `l` and then a null pointer. -/
def Linked (next : α → Option α) : Option α → List α → Prop
  | o, [] => o = none
  | o, p :: l => o = some p ∧ Linked next (next p) l

@[simp] theorem linked_nil {next : α → Option α} {o : Option α} :
    Linked next o [] ↔ o = none := Iff.rfl

@[simp] theorem linked_cons {next : α → Option α} {o : Option α} {p : α} {l : List α} :
    Linked next o (p :: l) ↔ o = some p ∧ Linked next (next p) l := Iff.rfl

/-- Only the links of the cells met matter. -/
theorem Linked.congr {next next' : α → Option α} {o : Option α} {l : List α}
    (h : Linked next o l) (heq : ∀ p ∈ l, next' p = next p) : Linked next' o l := by
  induction l generalizing o with
  | nil => exact h
  | cons p l ih =>
      refine ⟨h.1, ?_⟩
      rw [heq p List.mem_cons_self]
      exact ih h.2 fun q hq => heq q (List.mem_cons_of_mem _ hq)

/-- The cells met are determined. -/
theorem Linked.unique {next : α → Option α} {o : Option α} {l l' : List α}
    (h : Linked next o l) (h' : Linked next o l') : l = l' := by
  induction l generalizing o l' with
  | nil =>
      cases l' with
      | nil => rfl
      | cons q l' => exact absurd (h.symm.trans h'.1) (by simp)
  | cons p l ih =>
      cases l' with
      | nil => exact absurd (h'.symm.trans h.1) (by simp)
      | cons q l' =>
          obtain rfl : p = q := Option.some.inj (h.1.symm.trans h'.1)
          rw [ih h.2 h'.2]

theorem Linked.eq_nil {next : α → Option α} {l : List α} (h : Linked next none l) : l = [] :=
  h.unique rfl

theorem Linked.ne_none {next : α → Option α} {o : Option α} {l : List α} (h : Linked next o l)
    (hl : l ≠ []) : o ≠ none := by
  rintro rfl
  exact hl h.eq_nil

/-- The cells from a cell of the list on. -/
theorem Linked.drop {next : α → Option α} {o : Option α} {l₁ l₂ : List α} {p : α}
    (h : Linked next o (l₁ ++ p :: l₂)) : Linked next (some p) (p :: l₂) := by
  induction l₁ generalizing o with
  | nil => exact ⟨rfl, h.2⟩
  | cons q l₁ ih => exact ih h.2

theorem Linked.next_head {next : α → Option α} {o : Option α} {l₁ l₂ : List α} {p : α}
    (h : Linked next o (l₁ ++ p :: l₂)) : next p = l₂.head? := by
  have hp := h.drop.2
  cases l₂ with
  | nil => exact hp
  | cons q l₂ => exact hp.1

/-- The first `n` cells met from a pointer on. -/
def follow (next : α → Option α) : Nat → Option α → List α
  | n + 1, some p => p :: follow next n (next p)
  | _, _ => []

theorem Linked.follow_eq {next : α → Option α} {o : Option α} {l : List α}
    (h : Linked next o l) : follow next l.length o = l := by
  induction l generalizing o with
  | nil => rfl
  | cons p l ih =>
      obtain ⟨rfl, hl⟩ := h
      simp only [List.length_cons, follow, ih hl]

variable [DecidableEq α]

theorem Linked.update {next : α → Option α} {o : Option α} {l : List α} (h : Linked next o l)
    {p : α} (hp : p ∉ l) (x : Option α) : Linked (Function.update next p x) o l :=
  h.congr fun _ hq => Function.update_of_ne (ne_of_mem_of_not_mem hq hp) _ _

/-- A cell pushed in front. -/
theorem Linked.push {next : α → Option α} {o : Option α} {l : List α} (h : Linked next o l)
    {p : α} (hp : p ∉ l) : Linked (Function.update next p o) (some p) (p :: l) := by
  refine ⟨rfl, ?_⟩
  rw [Function.update_self]
  exact h.update hp o

/-- A cell linked in behind `p`. -/
theorem Linked.insert {next : α → Option α} {o : Option α} {l₁ l₂ : List α} {p q : α}
    (h : Linked next o (l₁ ++ p :: l₂)) (hnd : (l₁ ++ p :: l₂).Nodup)
    (hq : q ∉ l₁ ++ p :: l₂) :
    Linked (Function.update (Function.update next q (next p)) p (some q)) o
      (l₁ ++ p :: q :: l₂) := by
  induction l₁ generalizing o with
  | nil =>
      simp only [List.nil_append, List.nodup_cons, List.mem_cons, not_or] at hnd hq
      refine ⟨h.1, ?_⟩
      rw [Function.update_self]
      refine ⟨rfl, ?_⟩
      rw [Function.update_of_ne hq.1, Function.update_self]
      exact (h.2.update hq.2 _).update hnd.1 _
  | cons r l₁ ih =>
      simp only [List.cons_append, List.nodup_cons, List.mem_cons, not_or] at hnd hq
      refine ⟨h.1, ?_⟩
      have hrp : r ≠ p := fun hrp => hnd.1 (by simp [hrp])
      rw [Function.update_of_ne hrp, Function.update_of_ne (Ne.symm hq.1)]
      exact ih h.2 hnd.2 hq.2

end Anfs.Lib
