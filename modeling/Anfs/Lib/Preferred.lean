import Mathlib.Data.List.Basic

/-!
# Searches with a second choice

The first item of a list that one test accepts, or else the first one that a weaker test accepts.
Items that the weaker test rejects do not matter.
-/
namespace Anfs.Lib

section Preferred
variable {α : Type*} (p q : α → Bool)

/-- The first item that `p` accepts, or else the first that `q` accepts. -/
def preferred (l : List α) : Option α := (l.find? p).or (l.find? q)

variable {p q} {l l' : List α} {a : α}

theorem find?_filter_of_imp {r : α → Bool} (h : ∀ a, p a = true → r a = true) (l : List α) :
    (l.filter r).find? p = l.find? p := by
  rw [List.find?_filter]
  refine congrArg (fun f => l.find? f) (funext fun a => ?_)
  cases hp : p a with
  | false => simp
  | true => simp [h a hp]

/-- Lists that differ in rejected items only have the same preferred item. -/
theorem preferred_congr (hpq : ∀ a, p a = true → q a = true) {r : α → Bool}
    (hqr : ∀ a, q a = true → r a = true)
    (h : l.filter r = l'.filter r) : preferred p q l = preferred p q l' := by
  unfold preferred
  rw [← find?_filter_of_imp (fun a ha => hqr a (hpq a ha)) l, ← find?_filter_of_imp hqr l, h,
    find?_filter_of_imp (fun a ha => hqr a (hpq a ha)), find?_filter_of_imp hqr]

/-- An item that `p` accepts is preferred to those that `q` accepts only. -/
theorem preferred_of_find? (h : l.find? p = some a) : preferred p q l = some a := by
  unfold preferred
  rw [h]
  rfl

theorem preferred_map {β : Type*} {f : β → α} {l : List β} :
    preferred p q (l.map f) = (preferred (fun b => p (f b)) (fun b => q (f b)) l).map f := by
  unfold preferred
  rw [List.find?_map, List.find?_map, Option.map_or]
  rfl

end Preferred

end Anfs.Lib
