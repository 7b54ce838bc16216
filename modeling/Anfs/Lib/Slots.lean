import Mathlib.Data.List.Basic

/-!
# A row of slots

Slots that are filled and emptied one at a time. What they weigh together changes by what the one
slot weighs; a search around the row finds a slot if there is one.
-/
namespace Anfs.Lib

section Slots
variable {α : Type*}

/-- What the slots weigh together. -/
def weigh (g : α → Nat) : List α → Nat
  | [] => 0
  | a :: as => g a + weigh g as

/-- Only the slot that is stored to changes its weight. -/
theorem weigh_set (g : α → Nat) {as : List α} {i : Nat} {a : α} (h : as[i]? = some a) (b : α) :
    weigh g (as.set i b) + g a = weigh g as + g b := by
  induction as generalizing i with
  | nil => cases h
  | cons x as ih =>
      cases i with
      | zero =>
          obtain rfl : x = a := Option.some.inj h
          simp only [List.set_cons_zero, weigh]
          omega
      | succ i =>
          have hrest := ih (i := i) h
          simp only [List.set_cons_succ, weigh]
          omega

theorem le_weigh (g : α → Nat) {as : List α} {a : α} (h : a ∈ as) : g a ≤ weigh g as := by
  induction as with
  | nil => cases h
  | cons x as ih =>
      rw [weigh]
      rcases List.mem_cons.mp h with rfl | h
      · omega
      · have := ih h
        omega

theorem weigh_eq_zero {g : α → Nat} {as : List α} (h : ∀ a ∈ as, g a = 0) : weigh g as = 0 := by
  induction as with
  | nil => rfl
  | cons a as ih =>
      rw [weigh, h a List.mem_cons_self, ih fun b hb => h b (List.mem_cons_of_mem a hb)]

theorem exists_of_weigh_pos {g : α → Nat} {as : List α}
    (h : 0 < weigh g as) : ∃ a ∈ as, 0 < g a := by
  by_contra hnone
  have hzero : ∀ a ∈ as, g a = 0 := fun a ha => Nat.eq_zero_of_not_pos fun hpos =>
    hnone ⟨a, ha, hpos⟩
  rw [weigh_eq_zero hzero] at h
  exact absurd h (Nat.lt_irrefl 0)

/-- If not all slots weigh something, one weighs nothing. -/
theorem exists_of_weigh_lt {g : α → Nat} {as : List α} (h : weigh g as < as.length) : ∃ a ∈
    as, g a = 0 := by
  induction as with
  | nil => exact absurd h (Nat.not_lt_zero _)
  | cons a as ih =>
      by_cases ha : g a = 0
      · exact ⟨a, List.mem_cons_self, ha⟩
      · rw [weigh, List.length_cons] at h
        obtain ⟨b, hb, hzero⟩ := ih (by omega)
        exact ⟨b, List.mem_cons_of_mem a hb, hzero⟩

/-- The first slot that meets `p`, from `q` on around the row, in `k` tries. -/
def search (p : α → Bool) (as : List α) : Nat → Nat → Option Nat
  | 0, _ => none
  | k + 1, q =>
      if as[q]?.any p then some q else search p as k (if as.length ≤ q + 1 then 0 else q + 1)

theorem search_some {p : α → Bool} {as : List α} {k q i : Nat} (h : search p as k q = some i) :
    ∃ a, as[i]? = some a ∧ p a = true := by
  induction k generalizing q with
  | zero => cases h
  | succ k ih =>
      unfold search at h
      split at h
      · next hany =>
        obtain rfl := Option.some.inj h
        obtain ⟨a, ha, hp⟩ := (Option.any_eq_true _ _).mp hany
        exact ⟨a, ha, hp⟩
      · exact ih h

theorem search_none {p : α → Bool} {as : List α} {k q : Nat} (hq : q < as.length)
    (h : search p as k q = none) :
    ∀ j < k, as[(q + j) % as.length]?.any p = false := by
  induction k generalizing q with
  | zero => exact fun j hj => absurd hj (Nat.not_lt_zero j)
  | succ k ih =>
      unfold search at h
      split at h
      · cases h
      next hany =>
        intro j hj
        cases j with
        | zero =>
            rw [Nat.add_zero, Nat.mod_eq_of_lt hq]
            exact Bool.eq_false_iff.mpr hany
        | succ j =>
            have hnext : (if as.length ≤ q + 1 then 0 else q + 1) = (q + 1) % as.length := by
              split
              · rw [show q + 1 = as.length by omega, Nat.mod_self]
              · rw [Nat.mod_eq_of_lt (by omega)]
            rw [hnext] at h
            have htry := ih (Nat.mod_lt _ (by omega)) h j (by omega)
            rwa [Nat.mod_add_mod, Nat.add_assoc, Nat.add_comm 1 j] at htry

/-- Once around the row is enough. -/
theorem search_isSome {p : α → Bool} {as : List α} {q : Nat} (hq : q < as.length)
    {a : α} (ha : a ∈ as)
    (hp : p a = true) : (search p as as.length q).isSome = true := by
  obtain ⟨i, hi, rfl⟩ := List.mem_iff_getElem.mp ha
  by_contra hnone
  have hall := search_none hq (Option.not_isSome_iff_eq_none.mp hnone)
  have htried : ∃ j < as.length, (q + j) % as.length = i := by
    by_cases hle : q ≤ i
    · exact ⟨i - q, by omega, by rw [Nat.add_sub_cancel' hle, Nat.mod_eq_of_lt hi]⟩
    · refine ⟨as.length + i - q, by omega, ?_⟩
      rw [show q + (as.length + i - q) = as.length + i by omega, Nat.add_mod_left,
        Nat.mod_eq_of_lt hi]
  obtain ⟨j, hj, heq⟩ := htried
  have hfail := hall j hj
  rw [heq, List.getElem?_eq_getElem hi, Option.any_some, hp] at hfail
  cases hfail

end Slots

end Anfs.Lib
