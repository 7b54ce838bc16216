import Mathlib.Data.List.Basic

/-!
# Patches

A patch is a partial function that overrides a total one. Applying patches one after
another is what writing into a file or a memory does. Patches that agree where they
overlap may be applied in any order and any number of times.
-/
namespace Anfs.Lib

variable {α β : Type*}

abbrev Patch (α β : Type*) := α → Option β

/-- `f` overridden by `p`. -/
def Patch.apply (p : Patch α β) (f : α → β) : α → β := fun x => (p x).getD (f x)

theorem Patch.apply_of_some {p : Patch α β} {f : α → β} {x : α} {y : β} (h : p x = some y) :
    p.apply f x = y := by simp [Patch.apply, h]

theorem Patch.apply_of_none {p : Patch α β} {f : α → β} {x : α} (h : p x = none) :
    p.apply f x = f x := by simp [Patch.apply, h]

/-- All patches of the list, the first one first. -/
def applyAll (ps : List (Patch α β)) (f : α → β) : α → β := ps.foldl (fun f p => p.apply f) f

@[simp] theorem applyAll_nil (f : α → β) : applyAll [] f = f := rfl

@[simp] theorem applyAll_cons (p : Patch α β) (ps : List (Patch α β)) (f : α → β) :
    applyAll (p :: ps) f = applyAll ps (p.apply f) := rfl

/-- Where no patch is defined the function is kept. -/
theorem applyAll_of_none {ps : List (Patch α β)} {x : α} (h : ∀ p ∈ ps, p x = none)
    (f : α → β) : applyAll ps f x = f x := by
  induction ps generalizing f with
  | nil => rfl
  | cons p ps ih =>
      rw [applyAll_cons, ih (fun q hq => h q (List.mem_cons_of_mem _ hq)),
        Patch.apply_of_none (h p List.mem_cons_self)]

/-- Where the patches defined at `x` all have the value `y`, and there is one, `y` results. -/
theorem applyAll_of_agree {ps : List (Patch α β)} {x : α} {y : β}
    (hall : ∀ p ∈ ps, p x = none ∨ p x = some y) (hex : ∃ p ∈ ps, p x = some y) (f : α → β) :
    applyAll ps f x = y := by
  induction ps generalizing f with
  | nil => simp at hex
  | cons p ps ih =>
      rw [applyAll_cons]
      by_cases hrest : ∃ q ∈ ps, q x = some y
      · exact ih (fun q hq => hall q (List.mem_cons_of_mem _ hq)) hrest _
      · have hnone : ∀ q ∈ ps, q x = none := fun q hq =>
          (hall q (List.mem_cons_of_mem _ hq)).resolve_right fun h => hrest ⟨q, hq, h⟩
        obtain ⟨q, hq, hqx⟩ := hex
        rcases List.mem_cons.mp hq with rfl | hq
        · rw [applyAll_of_none hnone, Patch.apply_of_some hqx]
        · exact absurd ⟨q, hq, hqx⟩ hrest

/-- Patches that agree on overlaps commute, and repeating them changes nothing: only the
set of patches matters. -/
theorem applyAll_eq_of_mem_iff {ps qs : List (Patch α β)} (hmem : ∀ p, p ∈ ps ↔ p ∈ qs)
    (hagree : ∀ p ∈ ps, ∀ q ∈ ps, ∀ x y z, p x = some y → q x = some z → y = z) (f : α → β) :
    applyAll ps f = applyAll qs f := by
  funext x
  by_cases hex : ∃ p ∈ ps, ∃ y, p x = some y
  · obtain ⟨p, hp, y, hy⟩ := hex
    have hall : ∀ q ∈ ps, q x = none ∨ q x = some y := by
      intro q hq
      cases hqx : q x with
      | none => exact .inl rfl
      | some z => exact .inr (by rw [hagree p hp q hq x y z hy hqx])
    rw [applyAll_of_agree hall ⟨p, hp, hy⟩,
      applyAll_of_agree (fun q hq => hall q ((hmem q).mpr hq)) ⟨p, (hmem p).mp hp, hy⟩]
  · have hnone : ∀ p ∈ ps, p x = none := fun p hp => by
      cases hpx : p x with
      | none => rfl
      | some y => exact absurd ⟨p, hp, y, hpx⟩ hex
    rw [applyAll_of_none hnone, applyAll_of_none fun p hp => hnone p ((hmem p).mpr hp)]

/-- Where both are defined, `p` wins. -/
def Patch.over (p q : Patch α β) : Patch α β := fun x => (p x).or (q x)

/-- The patch nowhere defined. -/
def Patch.none : Patch α β := fun _ => Option.none

/-- The patches of the list as one, the last one winning. -/
def mergeAll (ps : List (Patch α β)) : Patch α β := ps.foldl (fun m p => p.over m) Patch.none

theorem Patch.over_assoc (p q r : Patch α β) : (p.over q).over r = p.over (q.over r) := by
  funext x
  exact Option.or_assoc

@[simp] theorem Patch.over_none (p : Patch α β) : p.over Patch.none = p := by
  funext x
  exact Option.or_none

@[simp] theorem Patch.none_over (p : Patch α β) : Patch.none.over p = p := by
  funext x
  exact Option.none_or

theorem Patch.over_apply (p q : Patch α β) (f : α → β) :
    (p.over q).apply f = p.apply (q.apply f) := by
  funext x
  unfold Patch.apply Patch.over
  cases p x with
  | none => rfl
  | some y => rfl

/-- Patches with disjoint domains commute. -/
theorem Patch.over_comm {p q : Patch α β} (h : ∀ x, p x ≠ Option.none → q x = Option.none) :
    p.over q = q.over p := by
  funext x
  unfold Patch.over
  cases hp : p x with
  | none => simp
  | some y => simp [h x (by simp [hp])]

@[simp] theorem mergeAll_nil : mergeAll ([] : List (Patch α β)) = Patch.none := rfl

theorem foldl_over (ps : List (Patch α β)) (m : Patch α β) :
    ps.foldl (fun m p => p.over m) m = (mergeAll ps).over m := by
  induction ps generalizing m with
  | nil => exact (Patch.none_over m).symm
  | cons p ps ih =>
      rw [mergeAll, List.foldl_cons, List.foldl_cons, ih, ih, Patch.over_none, Patch.over_assoc]

@[simp] theorem mergeAll_cons (p : Patch α β) (ps : List (Patch α β)) :
    mergeAll (p :: ps) = (mergeAll ps).over p := by
  rw [mergeAll, List.foldl_cons, Patch.over_none, foldl_over]

@[simp] theorem mergeAll_append (ps qs : List (Patch α β)) :
    mergeAll (ps ++ qs) = (mergeAll qs).over (mergeAll ps) := by
  rw [mergeAll, List.foldl_append, foldl_over]
  rfl

theorem applyAll_eq_merge (ps : List (Patch α β)) (f : α → β) :
    applyAll ps f = (mergeAll ps).apply f := by
  induction ps generalizing f with
  | nil => rfl
  | cons p ps ih => rw [applyAll_cons, ih, mergeAll_cons, Patch.over_apply]

theorem mergeAll_eq_none {ps : List (Patch α β)} {x : α} :
    mergeAll ps x = Option.none ↔ ∀ p ∈ ps, p x = Option.none := by
  induction ps with
  | nil => simp [Patch.none]
  | cons p ps ih =>
      rw [mergeAll_cons, List.forall_mem_cons, ← ih]
      unfold Patch.over
      rw [Option.or_eq_none_iff]
      exact and_comm

/-- Restrictions of one function merge to its restriction to where any is defined. -/
theorem mergeAll_of_restrict {ps : List (Patch α β)} {f : α → β} {x : α}
    (h : ∀ p ∈ ps, ∀ y, p x = some y → y = f x) :
    mergeAll ps x = Option.none ∨ mergeAll ps x = some (f x) := by
  induction ps with
  | nil => exact .inl rfl
  | cons p ps ih =>
      rw [List.forall_mem_cons] at h
      rw [mergeAll_cons]
      unfold Patch.over
      rcases ih h.2 with hn | hs
      · rw [hn, Option.none_or]
        cases hp : p x with
        | none => exact .inl rfl
        | some y => exact .inr (by rw [h.1 y hp])
      · exact .inr (by rw [hs]; rfl)

/-- An override of one patch of a list, where no later one is in the way, is an override of
the whole. -/
theorem mergeAll_override {p q : Patch α β} {ps qs : List (Patch α β)}
    (h : ∀ r ∈ qs, ∀ x, q x ≠ Option.none → r x = Option.none) :
    mergeAll (ps ++ q.over p :: qs) = q.over (mergeAll (ps ++ p :: qs)) := by
  have hcomm : q.over (mergeAll qs) = (mergeAll qs).over q := Patch.over_comm fun x hx =>
    mergeAll_eq_none.mpr fun r hr => h r hr x hx
  simp only [mergeAll_append, mergeAll_cons, Patch.over_assoc]
  rw [← Patch.over_assoc (mergeAll qs) q, ← hcomm, Patch.over_assoc]

end Anfs.Lib
