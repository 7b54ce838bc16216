import Mathlib.Data.List.Basic

/-!
# Guarded runs of a deterministic machine

A machine is a step function on states. A run is guarded when every step meets a
condition on the state it starts from and its input. An invariant kept by guarded
steps holds after every guarded run.
-/
namespace Anfs.Lib

section Run
variable {S I : Type*} (step : S → I → S) (ok : S → I → Prop)

/-- The state after the inputs `is`. -/
def run (s : S) (is : List I) : S := is.foldl step s

@[simp] theorem run_nil (s : S) : run step s [] = s := rfl

@[simp] theorem run_cons (s : S) (i : I) (is : List I) :
    run step s (i :: is) = run step (step s i) is := rfl

theorem run_append (s : S) (is js : List I) :
    run step s (is ++ js) = run step (run step s is) js := by
  simp [run]

/-- Every step of the run meets `ok`. -/
def Guarded : S → List I → Prop
  | _, [] => True
  | s, i :: is => ok s i ∧ Guarded (step s i) is

instance instDecidableGuarded [∀ s i, Decidable (ok s i)] : ∀ s is, Decidable (Guarded step ok s is)
  | _, [] => .isTrue trivial
  | s, i :: is =>
      have := instDecidableGuarded (step s i) is
      inferInstanceAs (Decidable (ok s i ∧ Guarded step ok (step s i) is))

@[simp] theorem guarded_nil (s : S) : Guarded step ok s [] := trivial

@[simp] theorem guarded_cons (s : S) (i : I) (is : List I) :
    Guarded step ok s (i :: is) ↔ ok s i ∧ Guarded step ok (step s i) is := Iff.rfl

theorem guarded_append (s : S) (is js : List I) :
    Guarded step ok s (is ++ js) ↔
      Guarded step ok s is ∧ Guarded step ok (run step s is) js := by
  induction is generalizing s with
  | nil => simp
  | cons i is ih => simp [ih, and_assoc]

variable {step ok}

/-- The induction rule for guarded runs. -/
theorem Guarded.invariant {P : S → Prop} (hstep : ∀ s i, P s → ok s i → P (step s i)) {s : S}
    {is : List I} (hs : P s) (h : Guarded step ok s is) : P (run step s is) := by
  induction is generalizing s with
  | nil => exact hs
  | cons i is ih => exact ih (hstep s i hs h.1) h.2

/-- The induction rule for runs. -/
theorem run_invariant {P : S → Prop} (hstep : ∀ s i, P s → P (step s i)) {s : S} (hs : P s)
    (is : List I) : P (run step s is) := by
  induction is generalizing s with
  | nil => exact hs
  | cons i is ih => exact ih (hstep s i hs)

/-- Steps that keep an invariant and meet `ok` meet whatever follows from both. -/
theorem Guarded.of_invariant {P : S → Prop} {ok' : S → I → Prop}
    (hstep : ∀ s i, P s → ok s i → P (step s i)) (hok : ∀ s i, P s → ok s i → ok' s i) {s : S}
    {is : List I} (hs : P s) (h : Guarded step ok s is) : Guarded step ok' s is := by
  induction is generalizing s with
  | nil => trivial
  | cons i is ih => exact ⟨hok s i hs h.1, ih (hstep s i hs h.1) h.2⟩

end Run

/-- The induction rule for machines whose step may fail: a step that keeps `P` does not fail. -/
theorem foldlM_invariant {S I : Type} {step : S → I → Option S} {P : S → Prop}
    (hstep : ∀ s i, P s → ∃ s', step s i = some s' ∧ P s') {s : S} (hs : P s) (is : List I) :
    ∃ s', is.foldlM step s = some s' ∧ P s' := by
  induction is generalizing s with
  | nil => exact ⟨s, rfl, hs⟩
  | cons i is ih =>
      obtain ⟨s₁, hrun, hs₁⟩ := hstep s i hs
      obtain ⟨s', hrest, hs'⟩ := ih hs₁
      exact ⟨s', by simp [List.foldlM_cons, hrun, hrest], hs'⟩

section Failing
variable {S I : Type} (step : S → I → Option S) (ok : S → I → Prop)

/-- Every step of a run of a machine whose step may fail meets `ok`. -/
def GuardedM : S → List I → Prop
  | _, [] => True
  | s, i :: is => ok s i ∧ ∀ s' ∈ step s i, GuardedM s' is

instance instDecidableGuardedM [∀ s i, Decidable (ok s i)] :
    ∀ s is, Decidable (GuardedM step ok s is)
  | _, [] => .isTrue trivial
  | s, i :: is =>
      have := fun s' => instDecidableGuardedM s' is
      inferInstanceAs (Decidable (ok s i ∧ ∀ s' ∈ step s i, GuardedM step ok s' is))

variable {step ok}

/-- The induction rule for them: guarded steps that keep `P` do not fail. -/
theorem GuardedM.invariant {P : S → Prop}
    (hstep : ∀ s i, P s → ok s i → ∃ s', step s i = some s' ∧ P s') {s : S} {is : List I} (hs : P s)
    (h : GuardedM step ok s is) : ∃ s', is.foldlM step s = some s' ∧ P s' := by
  induction is generalizing s with
  | nil => exact ⟨s, rfl, hs⟩
  | cons i is ih =>
      obtain ⟨s₁, hrun, hs₁⟩ := hstep s i hs h.1
      obtain ⟨s', hrest, hs'⟩ := ih hs₁ (h.2 s₁ hrun)
      exact ⟨s', by simp [List.foldlM_cons, hrun, hrest], hs'⟩

end Failing

end Anfs.Lib
