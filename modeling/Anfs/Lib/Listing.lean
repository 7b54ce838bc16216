import Mathlib.Data.List.Basic
import Mathlib.Data.List.Nodup

/-!
# Listings read in pieces

The items of a listing have keys. Whoever reads a listing in pieces keeps the key of the last
item read, or a start key before the first one; the keys of the items differ from each other
and from the start key.
-/
namespace Anfs.Lib

section Listing
variable {α κ : Type*} (key : α → κ) (start : κ)

/-- What stands behind the item with key `k`. -/
def behind [DecidableEq κ] (k : κ) : List α → List α
  | [] => []
  | a :: l => if key a = k then l else behind k l

/-- What is left of a listing for a reader that kept the key `k`. -/
def leftBehind [DecidableEq κ] (k : κ) (l : List α) : List α :=
  if k = start then l else behind key k l

/-- The key that is kept after `l` has been read. -/
def lastKey (l : List α) : κ := l.foldl (fun _ a => key a) start

/-- The keys tell the items of the listing apart. -/
def Keyed (l : List α) : Prop := start ∉ l.map key ∧ (l.map key).Nodup

@[simp] theorem lastKey_nil : lastKey key start [] = start := rfl

@[simp] theorem lastKey_cons (a : α) (l : List α) :
    lastKey key start (a :: l) = lastKey key (key a) l := rfl

theorem lastKey_append (l l' : List α) :
    lastKey key start (l ++ l') = lastKey key (lastKey key start l) l' := List.foldl_append ..

@[simp] theorem lastKey_concat (l : List α) (a : α) : lastKey key start (l ++ [a]) = key a :=
  lastKey_append key start l [a]

variable {key start} [DecidableEq κ]

theorem behind_append {pre post : List α} {a : α} (hpre : ∀ x ∈ pre, key x ≠ key a) :
    behind key (key a) (pre ++ a :: post) = post := by
  induction pre with
  | nil => simp only [List.nil_append, behind, if_true]
  | cons x pre ih =>
      rw [List.cons_append, behind, if_neg (hpre x List.mem_cons_self)]
      exact ih fun y hy => hpre y (List.mem_cons_of_mem x hy)

/-- A reader that keeps the last key goes on where it stopped. -/
theorem leftBehind_lastKey {pre post : List α} (h : Keyed key start (pre ++ post)) :
    leftBehind key start (lastKey key start pre) (pre ++ post) = post := by
  rcases List.eq_nil_or_concat pre with rfl | ⟨pre', a, rfl⟩
  · exact if_pos rfl
  · rw [List.concat_eq_append] at h ⊢
    obtain ⟨hstart, hnodup⟩ := h
    simp only [List.append_assoc, List.singleton_append, List.map_append, List.map_cons,
      List.nodup_append, List.mem_append, List.mem_cons, not_or] at hstart hnodup
    have hne : key a ≠ start := fun heq => hstart.2.1 heq.symm
    rw [lastKey_concat, leftBehind, if_neg hne, List.append_assoc, List.singleton_append]
    exact behind_append fun x hx =>
      hnodup.2.2 (key x) (List.mem_map_of_mem hx) (key a) (.inl rfl)

omit [DecidableEq κ] in
/-- An item of a listing with different keys stands in one place. -/
theorem split_unique {pre pre' post post' : List α} {a a' : α}
    (h : ((pre ++ a :: post).map key).Nodup)
    (heq : pre ++ a :: post = pre' ++ a' :: post') (hkey : key a = key a') :
    pre = pre' ∧ a = a' ∧ post = post' := by
  induction pre generalizing pre' with
  | nil =>
      cases pre' with
      | nil =>
          rw [List.nil_append, List.nil_append, List.cons.injEq] at heq
          exact ⟨rfl, heq⟩
      | cons x pre' =>
          rw [List.nil_append, List.cons_append, List.cons.injEq] at heq
          obtain ⟨rfl, rfl⟩ := heq
          rw [List.nil_append, List.map_cons, List.nodup_cons, hkey] at h
          exact absurd (List.mem_map_of_mem (List.mem_append_right _ List.mem_cons_self)) h.1
  | cons x pre ih =>
      cases pre' with
      | nil =>
          rw [List.nil_append, List.cons_append, List.cons.injEq] at heq
          obtain ⟨rfl, rfl⟩ := heq
          rw [List.cons_append, List.map_cons, List.nodup_cons, ← hkey] at h
          exact absurd (List.mem_map_of_mem (List.mem_append_right _ List.mem_cons_self)) h.1
      | cons x' pre' =>
          rw [List.cons_append, List.cons_append, List.cons.injEq] at heq
          rw [List.cons_append, List.map_cons, List.nodup_cons] at h
          obtain ⟨hpre, ha, hpost⟩ := ih h.2 heq.2
          exact ⟨by rw [heq.1, hpre], ha, hpost⟩

/-- Where keys differ, the first item with a key is the only one. -/
theorem eraseP_eq_filter {l : List α} (h : (l.map key).Nodup) (k : κ) :
    (l.eraseP fun a => key a = k) = l.filter fun a => key a ≠ k := by
  induction l with
  | nil => rfl
  | cons a l ih =>
      rw [List.map_cons, List.nodup_cons] at h
      by_cases hk : key a = k
      · have hrest : ∀ b ∈ l, key b ≠ k := fun b hb hkey => h.1 (hk ▸ hkey ▸ List.mem_map_of_mem hb)
        rw [List.eraseP_cons_of_pos (by simpa using hk),
          List.filter_cons_of_neg (by simpa using hk),
          List.filter_eq_self.mpr (by simpa using hrest)]
      · rw [List.eraseP_cons_of_neg (by simpa using hk),
          List.filter_cons_of_pos (by simpa using hk), ih h.2]

omit [DecidableEq κ] in
/-- A new key in front leaves the keys different. -/
theorem nodup_map_toList_append {key : α → κ} {o : Option α} {l : List α} (h : (l.map key).Nodup)
    (hnew : ∀ a ∈ o, key a ∉ l.map key) : ((o.toList ++ l).map key).Nodup := by
  cases o with
  | none => exact h
  | some a => exact List.nodup_cons.mpr ⟨hnew a rfl, h⟩

/-- Where keys differ, the first item with the key of an item is this item. -/
theorem find?_eq_of_mem {key : α → κ} {l : List α} (h : (l.map key).Nodup) {a : α} (ha : a ∈ l) :
    (l.find? fun b => key b = key a) = some a := by
  induction l with
  | nil => exact absurd ha List.not_mem_nil
  | cons b l ih =>
      rw [List.map_cons, List.nodup_cons] at h
      rcases List.mem_cons.mp ha with rfl | hmem
      · exact List.find?_cons_of_pos (by simp)
      · have hne : key b ≠ key a := fun heq => h.1 (heq ▸ List.mem_map_of_mem hmem)
        rw [List.find?_cons_of_neg (by simpa using hne)]
        exact ih h.2 hmem

end Listing

end Anfs.Lib
