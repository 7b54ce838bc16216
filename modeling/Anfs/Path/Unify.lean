import Anfs.Lib.Parts
import Anfs.Nfs.Error
import Anfs.Strings

/-!
# `fn_PathUnify`

The loop over the characters is compared with a scan that pushes the components of the path on a
stack.
-/
namespace Anfs.Path
open Anfs.Lib Anfs.Nfs

def errorInvalidComponentName : Int := 210

/-- The buffer at `d0` up to `d`, its last character first, and the flags. -/
structure Unify where
  d : List UInt8
  addSep : Bool
  strippedDirs : Bool
  deriving DecidableEq, Repr

/-- `*s == '/' || *s == 0`. -/
def endsComp (s : List UInt8) : Bool := s.head?.all (· == slash)

/-- `s` starts with ".." as a component. -/
def startsDotDot (s : List UInt8) : Bool := s.take 2 == [dot, dot] && endsComp (s.drop 2)

/-- Strips the last directory name: `d` is set back to the last "/" or to `d0`. -/
def stripDir : List UInt8 → List UInt8
  | [] => []
  | c :: d => if c = slash then d else stripDir d

/-- The loop over a "//" sequence; `none` when there is no name to strip. -/
def stripRun : List UInt8 → List UInt8 → Option (List UInt8 × List UInt8)
  | [], d => some ([], d)
  | c :: s, d =>
      if c = slash then if d = [] then none else stripRun s (stripDir d)
      else some (c :: s, d)

/-- The loop of `fn_PathUnify` over the rest `s` of the path; `none` when it does not end in `n`
turns. -/
def unifyLoop : Nat → List UInt8 → Unify → Option (Except Int Unify)
  | _, [], u => some (.ok u)
  | 0, _ :: _, _ => none
  | n + 1, c :: s, u =>
      if c = slash then
        match s with
        | [] => unifyLoop n [] u
        | c₁ :: s₁ =>
            if c₁ = slash then
              match stripRun s u.d with
              | none => some (.error errorInvalidComponentName)
              | some (s, d) => unifyLoop n (slash :: s) ⟨d, true, true⟩
            else if c₁ = dot then
              if endsComp s₁ then unifyLoop n s₁ u
              else if s₁.head? = some dot then
                if endsComp (s₁.drop 1) then
                  if u.d = [] then some (.error errorInvalidComponentName)
                  else unifyLoop n (s₁.drop 1) { u with d := stripDir u.d, addSep := true }
                else unifyLoop n s { u with addSep := true }
              else unifyLoop n s { u with addSep := true }
            else unifyLoop n s { u with addSep := true }
      else if c = dot ∧ endsComp s then unifyLoop n s u
      else
        unifyLoop n s { u with
          d := c :: if u.addSep ∧ u.d ≠ [] then slash :: u.d else u.d
          addSep := false }

/-- The path that is returned, and what is stored through the pointers. -/
structure Unified where
  path : List UInt8
  len : Nat
  strippedDirs : Bool
  deriving DecidableEq, Repr

/-- `fn_PathUnify`; an error is what is stored in `Res2`. The second test for ".." is made at the
end of the string. -/
def fnPathUnify (memOk : Bool) (ss : List UInt8) : Option (Except Int Unified) :=
  if ss.head? = some slash ∨ startsDotDot ss then some (.error errorObjectNotFound)
  else if memOk then
    match unifyLoop ss.length ss ⟨[], false, false⟩ with
    | none => none
    | some (.error res2) => some (.error res2)
    | some (.ok u) =>
        let path := u.d.reverse
        if path.head? = some slash ∨ startsDotDot [] then some (.error errorObjectNotFound)
        else some (.ok ⟨path, path.length, u.strippedDirs⟩)
  else some (.error errorNoFreeStore)

/-- An ordinary component. -/
structure Ordinary (c : List UInt8) : Prop where
  noSlash : slash ∉ c
  nonempty : c ≠ []
  notDot : c ≠ [dot]
  notDotDot : c ≠ [dot, dot]

/-- What a component does to the stack. -/
def pushComp (st : List (List UInt8)) (c : List UInt8) : Option (List (List UInt8)) :=
  if c = [dot] then some st
  else if c = [] ∨ c = [dot, dot] then
    match st with
    | [] => none
    | _ :: st => some st
  else some (c :: st)

/-- The components that are left, the first one first; `none` is an error. -/
def scan (ss : List UInt8) : Option (List (List UInt8)) :=
  if ss.head? = some slash then none
  else if ss = [] then some []
  else ((parts slash ss).foldlM pushComp []).map List.reverse

/-- The components joined by single slashes. -/
def joined (cs : List (List UInt8)) : List UInt8 := [slash].intercalate cs

/-- The components of a path that is a result. -/
def components (path : List UInt8) : List (List UInt8) := if path = [] then []
    else path.splitOn slash

/-- The buffer for a stack of components, the last component first. The loop loses a dot at the
end of a component. -/
def buffer : List (List UInt8) → List UInt8
  | [] => []
  | c :: st => (chop dot c).reverse ++ if st = [] then [] else slash :: buffer st

/-- All components on the stack are ordinary. -/
def Stacked (st : List (List UInt8)) : Prop := ∀ c ∈ st, Ordinary c

/-- Characters that have been read in a component, less a dot at its end. -/
def Unify.push (u : Unify) (c : List UInt8) : Unify :=
  if c = [] then u
  else { u with d := c.reverse ++ if u.addSep ∧ u.d ≠ [] then slash :: u.d else u.d, addSep :=
    false }

section Stack
variable {c d s : List UInt8} {st : List (List UInt8)} {u : Unify}

theorem chop_ne_nil (hc : c ≠ []) (hdot : c ≠ [dot]) : chop dot c ≠ [] := by
  unfold chop
  split
  · rename_i hlast
    intro hnil
    obtain ⟨a, b, rfl⟩ : ∃ a b, c = a :: b := List.exists_cons_of_ne_nil hc
    cases b with
    | nil =>
        rw [List.getLast?_singleton, Option.some.injEq] at hlast
        exact hdot (by rw [hlast])
    | cons b t => cases hnil
  · exact hc

theorem noSlash_chop (h : slash ∉ c) : slash ∉ chop dot c := by
  unfold chop
  split
  · exact fun hmem => h (List.dropLast_subset c hmem)
  · exact h

theorem Ordinary.chop_ne_nil (h : Ordinary c) : chop dot c ≠ [] :=
  Path.chop_ne_nil h.nonempty h.notDot

theorem Stacked.tail (h : Stacked (c :: st)) : Stacked st :=
  fun x hx => h x (List.mem_cons_of_mem c hx)

theorem buffer_eq_nil_iff (h : Stacked st) : buffer st = [] ↔ st = [] := by
  cases st with
  | nil => exact iff_of_true rfl rfl
  | cons c st =>
      refine iff_of_false (fun hnil => ?_) (List.cons_ne_nil c st)
      rw [buffer, List.append_eq_nil_iff, List.reverse_eq_nil_iff] at hnil
      exact (h c List.mem_cons_self).chop_ne_nil hnil.1

theorem stripDir_append (h : slash ∉ c) (d : List UInt8) : stripDir (c ++ slash :: d) = d := by
  induction c with
  | nil => rw [List.nil_append, stripDir, if_pos rfl]
  | cons a c ih =>
      have ha : a ≠ slash := fun heq => h (heq ▸ List.mem_cons_self)
      rw [List.cons_append, stripDir, if_neg ha]
      exact ih fun hmem => h (List.mem_cons_of_mem a hmem)

theorem stripDir_of_noSlash (h : slash ∉ c) : stripDir c = [] := by
  induction c with
  | nil => rfl
  | cons a c ih =>
      have ha : a ≠ slash := fun heq => h (heq ▸ List.mem_cons_self)
      rw [stripDir, if_neg ha]
      exact ih fun hmem => h (List.mem_cons_of_mem a hmem)

/-- To strip a name is to pop the stack. -/
theorem stripDir_buffer (h : Stacked (c :: st)) : stripDir (buffer (c :: st)) = buffer st := by
  have hslash : slash ∉ (chop dot c).reverse := fun hmem =>
    noSlash_chop (h c List.mem_cons_self).noSlash (List.mem_reverse.mp hmem)
  rw [buffer]
  split
  · rename_i hnil
    subst hnil
    rw [List.append_nil, stripDir_of_noSlash hslash]
    rfl
  · exact stripDir_append hslash _

/-- To read an ordinary component is to push it. -/
theorem push_buffer (h : Stacked st) (hu : u.d = buffer st) (hsep : u.addSep = true ∨ st = [])
    (hc : Ordinary c) :
    (u.push (chop dot c)).d = buffer (c :: st) := by
  rw [Unify.push, if_neg hc.chop_ne_nil, buffer, hu]
  by_cases hst : st = []
  · subst hst
    simp [buffer]
  · have hd : buffer st ≠ [] := fun hnil => hst ((buffer_eq_nil_iff h).mp hnil)
    simp only [hsep.resolve_right hst, hd, hst, ne_eq, not_false_eq_true, and_self,
      if_true, if_false]

/-- The path that a stack stands for. -/
theorem buffer_reverse (st : List (List UInt8)) :
    (buffer st).reverse = joined (st.reverse.map (chop dot)) := by
  induction st with
  | nil => rfl
  | cons c st ih =>
      rw [buffer, List.reverse_append, List.reverse_reverse, List.reverse_cons, List.map_append]
      by_cases hst : st = []
      · subst hst
        simp [joined]
      · have hne : st.reverse.map (chop dot) ≠ [] := by
          rw [Ne, List.map_eq_nil_iff, List.reverse_eq_nil_iff]
          exact hst
        rw [if_neg hst, List.reverse_cons, ih, joined, joined, List.map_singleton,
          intercalate_concat hne,
          List.append_assoc, List.singleton_append]

theorem dot_ne_slash : dot ≠ slash := by decide

theorem endsComp_iff : endsComp s = true ↔ ∀ a ∈ s.head?, a = slash := by
  unfold endsComp
  cases s.head? <;> simp

theorem endsComp_cons_of_ne {a : UInt8} (ha : a ≠ slash) (s : List UInt8) :
    endsComp (a :: s) = false := by
  simp [endsComp, ha]

theorem unifyLoop_cons {a : UInt8} (ha : a ≠ slash) (n : Nat) (s : List UInt8) (u : Unify) :
    unifyLoop (n + 1) (a :: s) u =
      if a = dot ∧ endsComp s then unifyLoop n s u
      else unifyLoop n s { u with
        d := a :: if u.addSep ∧ u.d ≠ [] then slash :: u.d else u.d
        addSep := false } := by
  cases s with
  | nil => simp only [unifyLoop, ha, if_false]
  | cons b s => simp only [unifyLoop, ha, if_false]

/-- The characters of a component, at the start of the path or behind a slash. -/
theorem unifyLoop_chars (n : Nat) (hc : slash ∉ c) (hs : endsComp s = true) (u : Unify) :
    unifyLoop (n + c.length) (c ++ s) u = unifyLoop n s (u.push (chop dot c)) := by
  induction c generalizing u with
  | nil => rfl
  | cons a c ih =>
      have ha : a ≠ slash := fun heq => hc (heq ▸ List.mem_cons_self)
      have hc' : slash ∉ c := fun hmem => hc (List.mem_cons_of_mem a hmem)
      rw [List.length_cons, ← Nat.add_assoc, List.cons_append, unifyLoop_cons ha]
      by_cases hnil : c = []
      · subst hnil
        by_cases hdot : a = dot
        · subst hdot
          rw [List.nil_append, if_pos ⟨rfl, hs⟩]
          rfl
        · rw [if_neg fun h => hdot h.1, ih hc']
          have hchop : chop dot [a] = [a] := chop_of_not_mem
            fun hmem => hdot (List.mem_singleton.mp hmem).symm
          rw [hchop]
          rfl
      · obtain ⟨b, t, rfl⟩ := List.exists_cons_of_ne_nil hnil
        have hb : b ≠ slash := fun heq => hc' (heq ▸ List.mem_cons_self)
        have hmore : ¬ (a = dot ∧ endsComp (b :: t ++ s) = true) := by
          rw [List.cons_append, endsComp_cons_of_ne hb]
          exact fun h => Bool.false_ne_true h.2
        have hchop : chop dot (a :: b :: t) = a :: chop dot
          (b :: t) := @chop_append _ _ _ [a] _ hnil
        rw [if_neg hmore, ih hc', hchop]
        congr 1
        unfold Unify.push
        by_cases hrest : chop dot (b :: t) = []
        · rw [if_pos hrest, hrest, if_neg (List.cons_ne_nil a [])]
          rfl
        · rw [if_neg hrest, if_neg (List.cons_ne_nil a _)]
          simp

/-- A slash in front of an ordinary component. -/
theorem unifyLoop_slash (n : Nat) (hc : Ordinary c) (s : List UInt8) (u : Unify) :
    unifyLoop (n + 1) (slash :: (c ++ s)) u = unifyLoop n (c ++ s) { u with addSep := true } := by
  obtain ⟨a, t, rfl⟩ := List.exists_cons_of_ne_nil hc.nonempty
  have ha : a ≠ slash := fun heq => hc.noSlash (heq ▸ List.mem_cons_self)
  simp only [List.cons_append, unifyLoop, if_true, ha, if_false]
  by_cases hdot : a = dot
  · subst hdot
    have ht : t ≠ [] := fun hnil => hc.notDot (by rw [hnil])
    obtain ⟨b, t', rfl⟩ := List.exists_cons_of_ne_nil ht
    have hb : b ≠ slash := fun heq => hc.noSlash (heq ▸ List.mem_cons_of_mem _ List.mem_cons_self)
    simp only [endsComp_cons_of_ne hb, if_true, Bool.false_eq_true, if_false, List.cons_append,
      List.head?_cons, List.drop_succ_cons,
      List.drop_zero]
    by_cases hdot' : b = dot
    · subst hdot'
      have ht' : t' ≠ [] := fun hnil => hc.notDotDot (by rw [hnil])
      obtain ⟨b, t, rfl⟩ := List.exists_cons_of_ne_nil ht'
      have hb' : b ≠ slash := fun heq =>
        hc.noSlash (heq ▸ List.mem_cons_of_mem _ (List.mem_cons_of_mem _ List.mem_cons_self))
      simp only [List.cons_append, endsComp_cons_of_ne hb', if_true, Bool.false_eq_true, if_false]
    · simp only [Option.some.injEq, hdot', if_false]
  · simp only [hdot, if_false]

theorem pushComp_dot (st : List (List UInt8)) : pushComp st [dot] = some st := if_pos rfl

theorem pushComp_pop (hc : c = [] ∨ c = [dot, dot]) (x : List UInt8) (st : List (List UInt8)) :
    pushComp [] c = none ∧ pushComp (x :: st) c = some st := by
  have hne : c ≠ [dot] := by
    rcases hc with rfl | rfl
    · exact (List.cons_ne_nil _ _).symm
    · decide
  simp only [pushComp, hne, hc, if_true, if_false, and_self]

theorem pushComp_push (h₁ : c ≠ [dot]) (h₂ : ¬ (c = [] ∨ c = [dot, dot])) (st : List (List UInt8)) :
    pushComp st c = some (c :: st) := by
  unfold pushComp
  rw [if_neg h₁, if_neg h₂]

theorem pushComp_ordinary (hc : Ordinary c) (st : List (List UInt8)) :
    pushComp st c = some (c :: st) :=
  pushComp_push hc.notDot (fun h => h.elim hc.nonempty hc.notDotDot) st

/-- The components of a path are ordinary, or have a meaning of their own. -/
theorem component_cases (hc : slash ∉ c) : c = [dot] ∨ (c = [] ∨ c = [dot, dot]) ∨ Ordinary c := by
  by_cases h₁ : c = [dot]
  · exact .inl h₁
  by_cases h₂ : c = [] ∨ c = [dot, dot]
  · exact .inr (.inl h₂)
  · exact .inr (.inr ⟨hc, fun h => h₂ (.inl h), h₁, fun h => h₂ (.inr h)⟩)

/-- What the loop ends with when the scan ends with the second argument. -/
inductive Ends (r : Option (Except Int Unify)) : Option (List (List UInt8)) → Prop
  | failed (result : r = some (.error errorInvalidComponentName)) : Ends r none
  | done {st : List (List UInt8)} {u : Unify} (result : r = some (.ok u)) (buf : u.d = buffer st)
      (stacked : Stacked st) : Ends r (some st)

/-- A sequence of slashes pops a name for each slash but the first. -/
theorem stripRun_spec (t : List UInt8) (h : Stacked st) :
    (stripRun t (buffer st) = none ∧ (partsBehind slash (slash :: t)).foldlM pushComp st = none) ∨
    ∃ t' st', stripRun t (buffer st) = some (t', buffer st') ∧ Stacked st' ∧
      (partsBehind slash (slash :: t)).foldlM pushComp st =
      (partsBehind slash (slash :: t')).foldlM pushComp st' ∧
      t'.length ≤ t.length ∧ (t.head? = some slash → t'.length < t.length) := by
  induction t generalizing st with
  | nil => exact .inr ⟨[], st, rfl, h, rfl, Nat.le_refl _, fun hnil => nomatch hnil⟩
  | cons a t ih =>
      by_cases ha : a = slash
      · subst ha
        have hparts : partsBehind slash (slash :: slash :: t) = [] ::
          partsBehind slash (slash :: t) :=
          @partsBehind_cons _ _ slash [] (slash :: t) List.not_mem_nil
            (fun a ha => (Option.some.inj ha).symm)
            (List.cons_ne_nil _ _)
        rw [stripRun, if_pos rfl, hparts, List.foldlM_cons]
        cases st with
        | nil => exact .inl ⟨if_pos rfl, by rw [(pushComp_pop (.inl rfl) [] []).1]; rfl⟩
        | cons x st =>
            have hne : buffer (x :: st) ≠ [] :=
              fun hnil => List.cons_ne_nil x st ((buffer_eq_nil_iff h).mp hnil)
            rw [if_neg hne, stripDir_buffer h, (pushComp_pop (.inl rfl) x st).2]
            rcases ih h.tail with ⟨hrun, hscan⟩ | ⟨t', st', hrun, hst, hscan, hlen, -⟩
            · exact .inl ⟨hrun, hscan⟩
            · refine .inr ⟨t', st', hrun, hst, hscan, ?_, fun _ => ?_⟩
              · exact Nat.le_trans hlen (Nat.le_succ _)
              · exact Nat.lt_succ_of_le hlen
      · refine .inr ⟨a :: t, st, ?_, h, rfl, Nat.le_refl _,
          fun heq => absurd (Option.some.inj heq) ha⟩
        rw [stripRun, if_neg ha]

/-- From a slash on the loop does what the scan does. -/
theorem unifyLoop_behind (k : Nat) :
    ∀ (s : List UInt8) (st : List (List UInt8)) (u : Unify) (n : Nat),
    s.length ≤ k → s.length ≤ n → endsComp s = true → Stacked st → u.d = buffer st →
    Ends (unifyLoop n s u) ((partsBehind slash s).foldlM pushComp st) := by
  induction k with
  | zero =>
      intro s st u n hk _ _ hst hu
      obtain rfl := List.eq_nil_of_length_eq_zero (Nat.le_zero.mp hk)
      cases n <;> exact .done rfl hu hst
  | succ k ih =>
      intro s st u n hk hn hs hst hu
      cases s with
      | nil => cases n <;> exact .done rfl hu hst
      | cons a t =>
          obtain rfl : a = slash := endsComp_iff.mp hs a rfl
          rw [List.length_cons] at hk hn
          obtain ⟨n, rfl⟩ : ∃ m, n = m + 1 := ⟨n - 1, by omega⟩
          obtain ⟨c, t', rfl, hc, ht'⟩ := exists_first slash t
          have hends := endsComp_iff.mpr ht'
          rw [List.length_append] at hk hn
          rcases component_cases hc with rfl | (rfl | rfl) | hord
          · rw [partsBehind_cons hc ht' (List.cons_ne_nil _ _), List.foldlM_cons, pushComp_dot]
            have hloop : unifyLoop (n + 1) (slash :: ([dot] ++ t')) u = unifyLoop n t' u := by
              simp only [List.singleton_append, unifyLoop, dot_ne_slash, hends, if_true, if_false]
            rw [hloop]
            exact ih t' st u n (by omega) (by omega) hends hst hu
          · cases t' with
            | nil =>
                have hloop : unifyLoop (n + 1) [slash] u = unifyLoop n [] u := by
                  simp only [unifyLoop, if_true]
                rw [List.append_nil, partsBehind_singleton, hloop]
                cases n <;> exact .done rfl hu hst
            | cons b t' =>
                obtain rfl : b = slash := ht' b rfl
                rw [List.nil_append, unifyLoop]
                simp only [if_true, hu]
                rcases stripRun_spec (slash :: t') hst
                  with ⟨hrun, hscan⟩ | ⟨t'', st', hrun, hst', hscan, -, hlen⟩
                · rw [hrun, hscan]
                  exact .failed rfl
                · rw [hrun, hscan]
                  have hshort := hlen rfl
                  rw [List.length_cons] at hshort hk hn
                  refine ih (slash :: t'') st' ⟨buffer st', true, true⟩ n ?_ ?_ rfl hst' rfl
                  · rw [List.length_cons, List.length_nil] at *
                    omega
                  · rw [List.length_cons, List.length_nil] at *
                    omega
          · rw [partsBehind_cons hc ht' (List.cons_ne_nil _ _), List.foldlM_cons]
            have hloop : unifyLoop (n + 1) (slash :: ([dot, dot] ++ t')) u =
                if u.d = [] then some (.error errorInvalidComponentName)
                else unifyLoop n t' { u with d := stripDir u.d, addSep := true } := by
              simp only [List.cons_append, List.nil_append, unifyLoop, dot_ne_slash,
                endsComp_cons_of_ne dot_ne_slash,
                hends, List.head?_cons, List.drop_succ_cons, List.drop_zero, Bool.false_eq_true,
                  if_true, if_false]
            rw [hloop, hu]
            cases st with
            | nil =>
                rw [(pushComp_pop (.inr rfl) [] []).1]
                exact .failed (if_pos rfl)
            | cons x st =>
                have hne : buffer (x :: st) ≠ [] :=
                  fun hnil => List.cons_ne_nil x st ((buffer_eq_nil_iff hst).mp hnil)
                rw [(pushComp_pop (.inr rfl) x st).2, if_neg hne, stripDir_buffer hst]
                exact ih t' st _ n (by omega) (by omega) hends hst.tail rfl
          · have hne : c ++ t' ≠ [] := fun hnil => hord.nonempty (List.append_eq_nil_iff.mp hnil).1
            rw [partsBehind_cons hc ht' hne, List.foldlM_cons, pushComp_ordinary hord,
              unifyLoop_slash n hord]
            obtain ⟨m, rfl⟩ : ∃ m, n = m + c.length := ⟨n - c.length, by omega⟩
            rw [unifyLoop_chars m hc hends]
            refine ih t' (c :: st) _ m ?_ (by omega) hends ?_ ?_
            · have hpos := List.length_pos_of_ne_nil hord.nonempty
              omega
            · exact List.forall_mem_cons.mpr ⟨hord, hst⟩
            · exact push_buffer hst hu (.inl rfl) hord

theorem startsDotDot_append {t : List UInt8} (h : endsComp t = true) :
    startsDotDot ([dot, dot] ++ t) = true := by
  simp [startsDotDot, h]

/-- A path that starts with ".." is an error of the scan, too. -/
theorem scan_startsDotDot {ss : List UInt8} (h : startsDotDot ss = true) : scan ss = none := by
  simp only [startsDotDot, Bool.and_eq_true, beq_iff_eq] at h
  obtain ⟨htake, hends⟩ := h
  have hsplit : ss = [dot, dot] ++ ss.drop 2 := by
    rw [← htake, List.take_append_drop]
  have hslash : slash ∉ [dot, dot] := by decide
  have hparts : parts slash ss = [dot, dot] :: partsBehind slash (ss.drop 2) := by
    rw [← parts_append hslash (endsComp_iff.mp hends), ← hsplit]
  unfold scan
  split
  · rfl
  · have hne : ss ≠ [] := by
      rw [hsplit]
      exact List.cons_ne_nil _ _
    rw [hparts, List.foldlM_cons, (pushComp_pop (.inr rfl) [] []).1]
    exact if_neg hne

/-- From the start of a path on the loop does what the scan does. -/
theorem unifyLoop_scan {ss : List UInt8} (hlead : ¬ ss.head? = some slash)
    (hdots : ¬ startsDotDot ss = true) :
    ∃ r, scan ss = r.map List.reverse ∧ Ends (unifyLoop ss.length ss ⟨[], false, false⟩) r := by
  obtain ⟨c, t, rfl, hc, ht⟩ := exists_first slash ss
  have hends := endsComp_iff.mpr ht
  have hempty : Stacked [] := List.forall_mem_nil _
  by_cases hnil : c ++ t = []
  · rw [hnil]
    exact ⟨some [], rfl, .done rfl rfl hempty⟩
  · refine ⟨(parts slash (c ++ t)).foldlM pushComp [], ?_, ?_⟩
    · rw [scan, if_neg hlead, if_neg hnil]
    · rw [parts_append hc ht, List.foldlM_cons, List.length_append, Nat.add_comm,
        unifyLoop_chars _ hc hends]
      rcases component_cases hc with rfl | (rfl | rfl) | hord
      · rw [pushComp_dot]
        exact unifyLoop_behind _ t [] _ _ (Nat.le_refl _) (Nat.le_refl _) hends hempty rfl
      · rw [List.nil_append] at hlead hnil
        obtain ⟨a, t', rfl⟩ := List.exists_cons_of_ne_nil hnil
        exact absurd (congrArg some (ht a rfl)) hlead
      · exact absurd (startsDotDot_append hends) hdots
      · rw [pushComp_ordinary hord]
        have hd := @push_buffer c [] ⟨[], false, false⟩ hempty rfl (.inr rfl) hord
        exact unifyLoop_behind _ t [c] _ _ (Nat.le_refl _) (Nat.le_refl _) hends
          (List.forall_mem_cons.mpr ⟨hord, hempty⟩) hd

theorem joined_head {cs : List (List UInt8)} (h : ∀ c ∈ cs, c ≠ [] ∧ slash ∉ c) :
    ¬ (joined cs).head? = some slash := by
  cases cs with
  | nil => exact fun h => nomatch h
  | cons c cs =>
      obtain ⟨hne, hslash⟩ := h c List.mem_cons_self
      obtain ⟨a, t, rfl⟩ := List.exists_cons_of_ne_nil hne
      have ha : a ≠ slash := fun heq => hslash (heq ▸ List.mem_cons_self)
      cases cs with
      | nil =>
          rw [joined, List.intercalate_singleton]
          exact fun h => ha (Option.some.inj h)
      | cons b cs =>
          rw [joined, List.intercalate_cons_cons]
          exact fun h => ha (Option.some.inj h)

/-- The function joins the components that the scan leaves, each less a dot at its end. -/
theorem fnPathUnify_spec (ss : List UInt8) :
    (scan ss = none ∧ ∃ res2, fnPathUnify true ss = some (.error res2) ∧ res2 ≠ 0) ∨
    ∃ st strippedDirs, scan ss = some st ∧ Stacked st ∧ fnPathUnify true ss = some (.ok
      ⟨joined (st.map (chop dot)), (joined (st.map (chop dot))).length, strippedDirs⟩) := by
  unfold fnPathUnify
  by_cases hearly : ss.head? = some slash ∨ startsDotDot ss = true
  · rw [if_pos hearly]
    refine .inl ⟨?_, _, rfl, by decide⟩
    rcases hearly with hlead | hdots
    · rw [scan, if_pos hlead]
    · exact scan_startsDotDot hdots
  · obtain ⟨hlead, hdots⟩ := not_or.mp hearly
    obtain ⟨r, hscan, hends⟩ := unifyLoop_scan hlead hdots
    rw [if_neg hearly, if_pos rfl]
    cases hends with
    | failed hresult =>
        rw [hresult]
        exact .inl ⟨hscan, _, rfl, by decide⟩
    | @done st u hresult hbuf hst =>
        rw [hresult]
        have hpath : u.d.reverse = joined (st.reverse.map (chop dot)) := by
          rw [hbuf, buffer_reverse]
        have hstack : Stacked st.reverse := fun c hc => hst c (List.mem_reverse.mp hc)
        have hhead : ¬ (joined (st.reverse.map (chop dot))).head? = some slash := by
          refine joined_head fun c hc => ?_
          obtain ⟨c', hc', rfl⟩ := List.mem_map.mp hc
          exact ⟨(hstack c' hc').chop_ne_nil, noSlash_chop (hstack c' hc').noSlash⟩
        have hend : ¬ ((joined (st.reverse.map (chop dot))).head? = some slash ∨
          startsDotDot [] = true) :=
          not_or.mpr ⟨hhead, by decide⟩
        simp only [hpath]
        rw [if_neg hend]
        exact .inr ⟨st.reverse, u.strippedDirs, hscan, hstack, rfl⟩

end Stack

/-- One of the components `cs` takes away the component in front of them, with `n` components
pushed since. -/
def removed : Nat → List (List UInt8) → Bool
  | _, [] => false
  | n, c :: cs =>
      if c = [dot] then removed n cs
      else if c = [] ∨ c = [dot, dot] then
        match n with
        | 0 => true
        | n + 1 => removed n cs
      else removed (n + 1) cs

/-- Each ordinary component that ends in a dot is taken away by a later component. -/
def DotsRemoved (ss : List UInt8) : Prop :=
  ∀ pre c post, parts slash ss = pre ++ c :: post → Ordinary c → c.getLast? = some dot →
    removed 0 post = true

/-- What `fn_PathUnify` should return. -/
structure Unifies (memOk : Bool) (ss : List UInt8) (r : Option (Except Int Unified)) : Prop where
  path : ∀ cs, scan ss = some cs → memOk = true →
    ∃ strippedDirs, r = some (.ok ⟨joined cs, (joined cs).length, strippedDirs⟩)
  error : scan ss = none ∨ memOk = false → ∃ res2, r = some (.error res2) ∧ res2 ≠ 0
  ordinary : ∀ u, r = some (.ok u) → ∀ c ∈ components u.path, Ordinary c

section Dots
variable {c : List UInt8} {st st' cs : List (List UInt8)} {ss : List UInt8} {memOk : Bool}

theorem removed_dot (n : Nat) (cs : List (List UInt8)) :
    removed n ([dot] :: cs) = removed n cs := by
  cases n <;> rfl

theorem removed_pop (h : c = [] ∨ c = [dot, dot]) (n : Nat) (cs : List (List UInt8)) :
    removed 0 (c :: cs) = true ∧ removed (n + 1) (c :: cs) = removed n cs := by
  have hne : c ≠ [dot] := by
    rcases h with rfl | rfl
    · exact (List.cons_ne_nil _ _).symm
    · decide
  constructor
  · rw [removed, if_neg hne, if_pos h]
  · rw [removed, if_neg hne, if_pos h]

theorem removed_push (h₁ : c ≠ [dot]) (h₂ : ¬ (c = [] ∨ c = [dot, dot])) (n : Nat)
    (cs : List (List UInt8)) :
    removed n (c :: cs) = removed (n + 1) cs := by
  cases n with
  | zero => rw [removed, if_neg h₁, if_neg h₂]
  | succ n => rw [removed, if_neg h₁, if_neg h₂]

/-- A component that is not removed stays on the stack. -/
theorem mem_of_not_removed {top below : List (List UInt8)}
    (h : cs.foldlM pushComp (top ++ c :: below) = some st')
    (hkept : removed top.length cs = false) : c ∈ st' := by
  induction cs generalizing top with
  | nil =>
      cases h
      exact List.mem_append_right top List.mem_cons_self
  | cons x cs ih =>
      rw [List.foldlM_cons] at h
      by_cases hdot : x = [dot]
      · subst hdot
        rw [pushComp_dot] at h
        rw [removed_dot] at hkept
        exact ih h hkept
      by_cases hpop : x = [] ∨ x = [dot, dot]
      · cases top with
        | nil =>
            rw [List.length_nil, (removed_pop hpop 0 cs).1] at hkept
            cases hkept
        | cons y top =>
            rw [List.cons_append, (pushComp_pop hpop y _).2] at h
            rw [List.length_cons, (removed_pop hpop _ cs).2] at hkept
            exact ih h hkept
      · rw [pushComp_push hdot hpop] at h
        rw [removed_push hdot hpop] at hkept
        exact @ih (x :: top) h hkept

/-- A component on the stack has been pushed and not removed, or it was there before. -/
theorem not_removed_of_mem (h : cs.foldlM pushComp st = some st') (hc : c ∈ st') :
    (∃ pre post, cs = pre ++ c :: post ∧ removed 0 post = false) ∨
    ∃ top below, st = top ++ c :: below ∧ removed top.length cs = false := by
  induction cs generalizing st with
  | nil =>
      cases h
      obtain ⟨top, below, rfl⟩ := List.append_of_mem hc
      cases top <;> exact .inr ⟨_, below, rfl, rfl⟩
  | cons x cs ih =>
      rw [List.foldlM_cons] at h
      have hmore : (∃ pre post, cs = pre ++ c :: post ∧ removed 0 post = false) →
          ∃ pre post, x :: cs = pre ++ c :: post ∧ removed 0 post = false := by
        rintro ⟨pre, post, rfl, hkept⟩
        exact ⟨x :: pre, post, rfl, hkept⟩
      by_cases hdot : x = [dot]
      · subst hdot
        rw [pushComp_dot] at h
        rcases ih h with hnew | ⟨top, below, rfl, hkept⟩
        · exact .inl (hmore hnew)
        · exact .inr ⟨top, below, rfl, by rw [removed_dot, hkept]⟩
      by_cases hpop : x = [] ∨ x = [dot, dot]
      · cases st with
        | nil =>
            rw [(pushComp_pop hpop [] []).1] at h
            cases h
        | cons y st =>
            rw [(pushComp_pop hpop y st).2] at h
            rcases ih h with hnew | ⟨top, below, rfl, hkept⟩
            · exact .inl (hmore hnew)
            · exact .inr ⟨y :: top, below, rfl,
                by rw [List.length_cons, (removed_pop hpop _ cs).2, hkept]⟩
      · rw [pushComp_push hdot hpop] at h
        rcases ih h with hnew | ⟨top, below, heq, hkept⟩
        · exact .inl (hmore hnew)
        · cases top with
          | nil =>
              obtain ⟨rfl, rfl⟩ := List.cons.inj heq
              exact .inl ⟨[], cs, rfl, hkept⟩
          | cons y top =>
              obtain ⟨rfl, rfl⟩ := List.cons.inj heq
              exact .inr ⟨top, below, rfl, by rw [removed_push hdot hpop]; exact hkept⟩

/-- The scan of a path that is not empty. -/
theorem scan_eq_some (hscan : scan ss = some cs) :
    ss = [] ∧ cs = [] ∨ (parts slash ss).foldlM pushComp [] = some cs.reverse := by
  unfold scan at hscan
  split at hscan
  · cases hscan
  split at hscan
  · rename_i hnil
    cases hscan
    exact .inl ⟨hnil, rfl⟩
  · obtain ⟨st, hst, rfl⟩ := Option.map_eq_some_iff.mp hscan
    rw [List.reverse_reverse]
    exact .inr hst

/-- The condition says that no component left by the scan ends in a dot. -/
theorem dotsRemoved_iff (hscan : scan ss = some cs) (hcs : Stacked cs) :
    DotsRemoved ss ↔ ∀ c ∈ cs, c.getLast? ≠ some dot := by
  rcases scan_eq_some hscan with ⟨rfl, rfl⟩ | hfold
  · refine iff_of_true (fun pre c post hsplit hord _ => ?_) (List.forall_mem_nil _)
    have hmem : c ∈ parts slash [] := by
      rw [hsplit]
      exact List.mem_append_right pre List.mem_cons_self
    exact absurd (List.mem_singleton.mp hmem) hord.nonempty
  · constructor
    · intro h c hc hlast
      rcases not_removed_of_mem hfold (List.mem_reverse.mpr hc) with ⟨pre, post, hsplit, hkept⟩ |
        ⟨top, below, hnil, -⟩
      · have hremoved := h pre c post hsplit (hcs c hc) hlast
        rw [hkept] at hremoved
        exact Bool.false_ne_true hremoved
      · cases top <;> cases hnil
    · intro h pre c post hsplit hord hlast
      rw [hsplit, List.foldlM_append] at hfold
      obtain ⟨st, -, hfold⟩ := Option.bind_eq_some_iff.mp hfold
      rw [List.foldlM_cons, pushComp_ordinary hord] at hfold
      by_contra hkept
      have hmem := @mem_of_not_removed _ _ _ [] st hfold (Bool.not_eq_true _ ▸ hkept)
      exact h c (List.mem_reverse.mp hmem) hlast

theorem chop_ne_of_getLast? (hlast : c.getLast? = some dot) : chop dot c ≠ c := by
  rw [chop, if_pos hlast]
  intro heq
  have hlen := congrArg List.length heq
  have hne : c ≠ [] := fun hnil => by
    rw [hnil] at hlast
    cases hlast
  have hpos := List.length_pos_of_ne_nil hne
  rw [List.length_dropLast] at hlen
  omega

theorem splitOn_joined (hcs : ∀ c ∈ cs, slash ∉ c) (hne : cs ≠ []) :
    (joined cs).splitOn slash = cs :=
  List.splitOn_intercalate slash hcs hne

theorem joined_chop_iff (hcs : Stacked cs) : joined (cs.map (chop dot)) = joined cs ↔
    ∀ c ∈ cs, c.getLast? ≠ some dot := by
  constructor
  · intro heq c hc hlast
    have hne : cs ≠ [] := List.ne_nil_of_mem hc
    have hchop : ∀ c ∈ cs.map (chop dot), slash ∉ c := by
      intro c hc
      obtain ⟨c', hc', rfl⟩ := List.mem_map.mp hc
      exact noSlash_chop (hcs c' hc').noSlash
    have hsplit := splitOn_joined hchop (fun hnil => hne (List.map_eq_nil_iff.mp hnil))
    rw [heq, splitOn_joined (fun c hc => (hcs c hc).noSlash) hne] at hsplit
    have hsame : cs.map id = cs.map (chop dot) := by rw [List.map_id, ← hsplit]
    exact chop_ne_of_getLast? hlast (List.map_inj_left.mp hsame c hc).symm
  · intro h
    have hsame : cs.map (chop dot) = cs.map id := by
      refine List.map_congr_left fun c hc => ?_
      rw [chop, if_neg (h c hc), id]
    rw [hsame, List.map_id]

theorem components_joined (hcs : Stacked cs) : components (joined cs) = cs := by
  by_cases hne : cs = []
  · subst hne
    rfl
  · have hsplit := splitOn_joined (fun c hc => (hcs c hc).noSlash) hne
    have hpath : joined cs ≠ [] := by
      intro hnil
      rw [hnil] at hsplit
      have hmem : [] ∈ cs := by
        rw [← hsplit]
        exact List.mem_singleton.mpr rfl
      exact (hcs [] hmem).nonempty rfl
    rw [components, if_neg hpath, hsplit]

theorem fnPathUnify_noMem (ss : List UInt8) :
    ∃ res2, fnPathUnify false ss = some (.error res2) ∧ res2 ≠ 0 := by
  unfold fnPathUnify
  split
  · exact ⟨_, rfl, by decide⟩
  · exact ⟨_, rfl, by decide⟩

/-- The function returns what it should exactly for paths of which no component that is left ends
in a dot. -/
theorem fnPathUnify_unifies_iff : Unifies memOk ss (fnPathUnify memOk ss) ↔
    (memOk = true → (scan ss).isSome = true → DotsRemoved ss) := by
  cases memOk with
  | false =>
      obtain ⟨res2, herr, hne⟩ := fnPathUnify_noMem ss
      refine iff_of_true ⟨fun cs _ h => (nomatch h), fun _ => ⟨res2, herr, hne⟩, fun u hu => ?_⟩
        (fun h => nomatch h)
      rw [herr] at hu
      cases hu
  | true =>
      rcases fnPathUnify_spec ss with ⟨hscan, res2, herr, hne⟩ |
        ⟨cs, strippedDirs, hscan, hcs, hpath⟩
      · refine iff_of_true ⟨fun cs h => ?_, fun _ => ⟨res2, herr, hne⟩,
          fun u hu => ?_⟩ (fun _ h => ?_)
        · rw [hscan] at h
          cases h
        · rw [herr] at hu
          cases hu
        · rw [hscan] at h
          cases h
      · have hcond := dotsRemoved_iff hscan hcs
        have hjoined := joined_chop_iff hcs
        constructor
        · intro h _ _
          obtain ⟨stripped, heq⟩ := h.path cs hscan rfl
          rw [hpath] at heq
          have hsame : joined (cs.map (chop dot)) = joined cs :=
            congrArg Unified.path (Except.ok.inj (Option.some.inj heq))
          exact hcond.mpr (hjoined.mp hsame)
        · intro h
          have hsame := hjoined.mpr (hcond.mp (h rfl (by rw [hscan]; rfl)))
          rw [hsame] at hpath
          refine ⟨fun cs' h _ => ?_, fun herr => ?_, fun u hu => ?_⟩
          · rw [hscan] at h
            obtain rfl := Option.some.inj h
            exact ⟨strippedDirs, hpath⟩
          · rw [hscan] at herr
            rcases herr with herr | herr <;> cases herr
          · rw [hpath] at hu
            obtain rfl := Except.ok.inj (Option.some.inj hu)
            rw [components_joined hcs]
            exact hcs

/-- "..." becomes "..". -/
theorem fnPathUnify_dots : ¬ Unifies true [dot, dot, dot] (fnPathUnify true [dot, dot, dot]) := by
  intro h
  have hres : fnPathUnify true [dot, dot, dot] = some (.ok ⟨[dot, dot], 2, false⟩) := by decide
  have hord := h.ordinary _ hres [dot, dot] (List.mem_singleton.mpr rfl)
  exact hord.notDotDot rfl

end Dots

end Anfs.Path
