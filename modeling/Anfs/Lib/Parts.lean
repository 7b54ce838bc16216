import Mathlib.Data.List.Basic

/-!
# Parts between separators

A list read as parts between separators, one separator at its end being dropped, and a
machine that pushes the parts on a stack.
-/
namespace Anfs.Lib

section Parts
variable {α : Type*} [DecidableEq α] (sep : α)

/-- The list without one separator at its end. -/
def chop (s : List α) : List α := if s.getLast? = some sep then s.dropLast else s

def parts (s : List α) : List (List α) := (chop sep s).splitOn sep

/-- The parts behind the first one; `s` is empty or starts with a separator. -/
def partsBehind : List α → List (List α)
  | [] => []
  | _ :: [] => []
  | _ :: t :: s => parts sep (t :: s)

@[simp] theorem partsBehind_nil : partsBehind sep ([] : List α) = [] := rfl

@[simp] theorem partsBehind_singleton (a : α) : partsBehind sep [a] = [] := rfl

variable {sep}

theorem chop_of_not_mem {s : List α} (h : sep ∉ s) : chop sep s = s := by
  rw [chop, if_neg]
  intro hlast
  exact h (List.mem_of_getLast? hlast)

theorem chop_concat (s : List α) : chop sep (s ++ [sep]) = s := by
  rw [chop, if_pos (List.getLast?_concat ..), List.dropLast_concat]

theorem chop_append {s t : List α} (ht : t ≠ []) : chop sep (s ++ t) = s ++ chop sep t := by
  have hlast : (s ++ t).getLast? = t.getLast? := by
    rw [List.getLast?_append, List.getLast?_eq_some_getLast ht, Option.some_or]
  unfold chop
  rw [hlast]
  split
  · exact List.dropLast_append_of_ne_nil ht
  · rfl

/-- The first part, and the parts behind it. -/
theorem parts_append {c s : List α} (hc : sep ∉ c) (hs : ∀ a ∈ s.head?, a = sep) :
    parts sep (c ++ s) = c :: partsBehind sep s := by
  cases s with
  | nil =>
      rw [List.append_nil, parts, chop_of_not_mem hc, List.splitOn_eq_singleton hc]
      rfl
  | cons a t =>
      obtain rfl : a = sep := hs a rfl
      cases t with
      | nil =>
          rw [parts, chop_concat, List.splitOn_eq_singleton hc]
          rfl
      | cons b t =>
          have hchop : chop a (a :: b :: t) = a :: chop a (b :: t) :=
            @chop_append _ _ _ [a] (b :: t) (List.cons_ne_nil b t)
          rw [parts, chop_append (List.cons_ne_nil a _), hchop,
            List.splitOn_append_cons_self_of_not_mem hc]
          rfl

theorem partsBehind_cons {c s : List α} (hc : sep ∉ c) (hs : ∀ a ∈ s.head?, a = sep)
    (hne : c ++ s ≠ []) :
    partsBehind sep (sep :: (c ++ s)) = c :: partsBehind sep s := by
  rw [← parts_append hc hs]
  cases hcs : c ++ s with
  | nil => exact absurd hcs hne
  | cons a t => rfl

omit [DecidableEq α] in
theorem intercalate_concat {l : List (List α)} (hl : l ≠ []) (c : List α) :
    [sep].intercalate (l ++ [c]) = [sep].intercalate l ++ sep :: c := by
  induction l with
  | nil => exact absurd rfl hl
  | cons a l ih =>
      cases l with
      | nil => rw [List.singleton_append, List.intercalate_cons_cons, List.intercalate_singleton,
          List.intercalate_singleton, List.append_assoc, List.singleton_append]
      | cons b l =>
          rw [List.cons_append, List.cons_append, List.intercalate_cons_cons,
            List.intercalate_cons_cons,
            ← List.cons_append, ih (List.cons_ne_nil b l)]
          simp only [List.append_assoc]

variable (sep) in
/-- Every list is a first part and what stands behind it. -/
theorem exists_first (s : List α) : ∃ c t, s = c ++ t ∧ sep ∉ c ∧ ∀ a ∈ t.head?, a = sep := by
  induction s with
  | nil => exact ⟨[], [], rfl, List.not_mem_nil, fun a ha => nomatch ha⟩
  | cons a s ih =>
      by_cases ha : a = sep
      · exact ⟨[], a :: s, rfl, List.not_mem_nil, fun b hb => Option.some.inj hb ▸ ha⟩
      · obtain ⟨c, t, rfl, hc, ht⟩ := ih
        refine ⟨a :: c, t, rfl, fun hmem => ?_, ht⟩
        rcases List.mem_cons.mp hmem with rfl | hmem
        · exact ha rfl
        · exact hc hmem

end Parts

end Anfs.Lib
