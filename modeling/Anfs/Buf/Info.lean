import Mathlib.Tactic.Common

/-!
# Dirty intervals of a buffer

The part `wbh_Info[0], …, wbh_Info[wbh_NumInfo - 1]` of the table is a list. An update
adds the interval of the bytes just written and melts what touches.
-/
namespace Anfs.Buf

/-- An interval of buffer offsets, both ends included. -/
structure WBufHdrInfo where
  wbiFrom : Int
  wbiTo : Int
  deriving DecidableEq, Repr

/-- Room of the table. -/
def WBUFHDRINFOSIZE : Nat := 59

/-- The search of `WBufDoMelt`: the last entry that melts and what lies behind it.
`prev` is the entry before the list. -/
def meltEnd (prev : WBufHdrInfo) : List WBufHdrInfo → Int → WBufHdrInfo × List WBufHdrInfo
  | [], _ => (prev, [])
  | nwbi :: rest, last =>
    if rest ≠ [] ∧ nwbi.wbiTo < last then meltEnd nwbi rest last
    else if last + 1 < nwbi.wbiFrom then (prev, nwbi :: rest)
    else (nwbi, rest)

/-- `wbi`, the entries `rest` behind it and `[offs, last]` become one entry, as far as they
touch. -/
def wBufDoMelt (wbi : WBufHdrInfo) (rest : List WBufHdrInfo) (offs last : Int) :
    List WBufHdrInfo :=
  let (nwbi, behind) := meltEnd wbi rest last
  ⟨min wbi.wbiFrom offs, max last nwbi.wbiTo⟩ :: behind

/-- The table after `[offs, last]` has been written. -/
def wBufUpdateInfo : List WBufHdrInfo → Int → Int → List WBufHdrInfo
  | [], offs, last => [⟨offs, last⟩]
  | wbi :: rest, offs, last =>
    if offs ≤ wbi.wbiTo + 1 then
      if last + 1 < wbi.wbiFrom then ⟨offs, last⟩ :: wbi :: rest
      else
        match rest with
        | [] => [⟨min wbi.wbiFrom offs, max wbi.wbiTo last⟩]
        | next :: _ =>
            if next.wbiFrom ≤ last + 1 then wBufDoMelt wbi rest offs last
            else ⟨min wbi.wbiFrom offs, max wbi.wbiTo last⟩ :: rest
    else wbi :: wBufUpdateInfo rest offs last

/-- Sorted, not empty, not touching, between `lo` and `hi`. -/
def Normal (lo hi : Int) : List WBufHdrInfo → Prop
  | [] => True
  | wbi :: rest =>
    lo ≤ wbi.wbiFrom ∧ wbi.wbiFrom ≤ wbi.wbiTo ∧ wbi.wbiTo ≤ hi ∧ Normal (wbi.wbiTo + 2) hi rest

instance decidableNormal (lo hi : Int) : (l : List WBufHdrInfo) → Decidable (Normal lo hi l)
  | [] => .isTrue trivial
  | wbi :: rest => by
    have := decidableNormal (wbi.wbiTo + 2) hi rest
    unfold Normal
    infer_instance

/-- The offset `k` lies in an interval. -/
def Covers (info : List WBufHdrInfo) (k : Int) : Prop :=
  ∃ wbi ∈ info, wbi.wbiFrom ≤ k ∧ k ≤ wbi.wbiTo

instance (info : List WBufHdrInfo) (k : Int) : Decidable (Covers info k) := by
  unfold Covers; infer_instance

@[simp] theorem normal_nil (lo hi : Int) : Normal lo hi [] := trivial

@[simp] theorem normal_cons {lo hi : Int} {wbi : WBufHdrInfo} {rest : List WBufHdrInfo} :
    Normal lo hi (wbi :: rest) ↔ lo ≤ wbi.wbiFrom ∧ wbi.wbiFrom ≤ wbi.wbiTo ∧ wbi.wbiTo ≤ hi ∧
      Normal (wbi.wbiTo + 2) hi rest := Iff.rfl

@[simp] theorem not_covers_nil (k : Int) : ¬ Covers [] k := by simp [Covers]

@[simp] theorem covers_cons {wbi : WBufHdrInfo} {rest : List WBufHdrInfo} {k : Int} :
    Covers (wbi :: rest) k ↔ (wbi.wbiFrom ≤ k ∧ k ≤ wbi.wbiTo) ∨ Covers rest k := by
  simp [Covers]

theorem Normal.mono {lo lo' hi : Int} {l : List WBufHdrInfo} (h : Normal lo hi l)
    (hlo : lo' ≤ lo) : Normal lo' hi l := by
  cases l with
  | nil => trivial
  | cons wbi rest => exact ⟨Int.le_trans hlo h.1, h.2⟩

theorem Normal.mem {lo hi : Int} {l : List WBufHdrInfo} (h : Normal lo hi l)
    {wbi : WBufHdrInfo} (hm : wbi ∈ l) :
    lo ≤ wbi.wbiFrom ∧ wbi.wbiFrom ≤ wbi.wbiTo ∧ wbi.wbiTo ≤ hi := by
  induction l generalizing lo with
  | nil => simp at hm
  | cons w rest ih =>
      obtain ⟨h1, h2, h3, h4⟩ := h
      rcases List.mem_cons.mp hm with rfl | hm
      · exact ⟨h1, h2, h3⟩
      · have := ih h4 hm
        exact ⟨by omega, this.2⟩

theorem Normal.le_of_covers {lo hi : Int} {l : List WBufHdrInfo} (h : Normal lo hi l) {k : Int}
    (hk : Covers l k) : lo ≤ k ∧ k ≤ hi := by
  obtain ⟨wbi, hm, hk⟩ := hk
  have := h.mem hm
  omega

/-- What `meltEnd` finds, for an entry `prev` that `[.., last]` reaches. -/
theorem meltEnd_spec {hi last : Int} (hto : last ≤ hi) {prev : WBufHdrInfo}
    {rest : List WBufHdrInfo} (hprev : prev.wbiFrom ≤ prev.wbiTo ∧ prev.wbiTo ≤ hi)
    (hreach : prev.wbiFrom ≤ last + 1) (h : Normal (prev.wbiTo + 2) hi rest) :
    Normal (max last (meltEnd prev rest last).1.wbiTo + 2) hi (meltEnd prev rest last).2 ∧
      max last (meltEnd prev rest last).1.wbiTo ≤ hi ∧
      ∀ k, prev.wbiFrom ≤ k →
        ((k ≤ max last (meltEnd prev rest last).1.wbiTo ∨ Covers (meltEnd prev rest last).2 k) ↔
          (k ≤ max last prev.wbiTo ∨ Covers rest k)) := by
  induction rest generalizing prev with
  | nil =>
      refine ⟨trivial, ?_, fun k _ => ?_⟩
      · simp only [meltEnd]; omega
      · simp [meltEnd]
  | cons nwbi rest ih =>
      obtain ⟨h1, h2, h3, h4⟩ := h
      unfold meltEnd
      by_cases hc : rest ≠ [] ∧ nwbi.wbiTo < last
      · rw [if_pos hc]
        obtain ⟨hn, hle, hcov⟩ := ih ⟨h2, h3⟩ (by omega) h4
        refine ⟨hn, hle, fun k hk => ?_⟩
        rw [covers_cons]
        by_cases hkn : nwbi.wbiFrom ≤ k
        · rw [hcov k hkn]
          constructor
          · rintro (h | h)
            · exact .inl (by omega)
            · exact .inr (.inr h)
          · rintro (h | h | h)
            · by_cases hkl : k ≤ last
              · exact .inl (by omega)
              · omega
            · exact .inl (by omega)
            · exact .inr h
        · exact iff_of_true (.inl (by omega)) (.inl (by omega))
      · rw [if_neg hc]
        by_cases ht : last + 1 < nwbi.wbiFrom
        · rw [if_pos ht]
          exact ⟨⟨by simp only; omega, h2, h3, h4⟩, by simp only; omega, fun k _ => Iff.rfl⟩
        · rw [if_neg ht]
          refine ⟨?_, by simp only; omega, fun k hk => ?_⟩
          · cases rest with
            | nil => trivial
            | cons w rest =>
                refine h4.mono ?_
                simp only [ne_eq, reduceCtorEq, not_false_eq_true, true_and] at hc
                simp only
                omega
          · rw [covers_cons]
            simp only
            constructor
            · rintro (h | h)
              · by_cases hkl : k ≤ max last prev.wbiTo
                · exact .inl hkl
                · exact .inr (.inl (by omega))
              · exact .inr (.inr h)
            · rintro (h | h | h)
              · exact .inl (by omega)
              · exact .inl (by omega)
              · exact .inr h

theorem wBufDoMelt_spec {lo hi offs last : Int} (hlo : lo ≤ offs) (hto : last ≤ hi)
    {wbi next : WBufHdrInfo} {rest : List WBufHdrInfo} (h : Normal lo hi (wbi :: next :: rest))
    (hle : offs ≤ last) (hfrom : wbi.wbiFrom ≤ last + 1) (hoffs : offs ≤ wbi.wbiTo + 1) :
    Normal lo hi (wBufDoMelt wbi (next :: rest) offs last) ∧
      ∀ k, Covers (wBufDoMelt wbi (next :: rest) offs last) k ↔
        Covers (wbi :: next :: rest) k ∨ (offs ≤ k ∧ k ≤ last) := by
  obtain ⟨h1, h2, h3, h4⟩ := h
  obtain ⟨hn, hm, hcov⟩ := meltEnd_spec hto ⟨h2, h3⟩ hfrom h4
  refine ⟨⟨by simp only; omega, by simp only; omega, hm, hn⟩, fun k => ?_⟩
  rw [wBufDoMelt, covers_cons, covers_cons]
  by_cases hk : wbi.wbiFrom ≤ k
  · have hmin : min wbi.wbiFrom offs ≤ k := by omega
    simp only [hmin, hk, true_and, hcov k hk]
    constructor
    · rintro (hc | hc)
      · by_cases hkl : k ≤ wbi.wbiTo
        · exact .inl (.inl hkl)
        · exact .inr (by omega)
      · exact .inl (.inr hc)
    · rintro ((hc | hc) | hc)
      · exact .inl (by omega)
      · exact .inr hc
      · exact .inl (by omega)
  · have hnot : ¬ Covers (next :: rest) k := fun hc => by
      have := h4.le_of_covers hc
      omega
    have hnot' : ¬ Covers (meltEnd wbi (next :: rest) last).2 k := fun hc => by
      have := hn.le_of_covers hc
      omega
    simp only [hnot, hnot', or_false]
    constructor
    · intro hc
      exact .inr (by omega)
    · rintro (hc | hc)
      · omega
      · exact by omega

/-- An update keeps the table normal and adds exactly the offsets of `[offs, last]`. -/
theorem wBufUpdateInfo_spec {lo hi offs last : Int} {info : List WBufHdrInfo}
    (h : Normal lo hi info) (hlo : lo ≤ offs) (hle : offs ≤ last) (hto : last ≤ hi) :
    Normal lo hi (wBufUpdateInfo info offs last) ∧
      ∀ k, Covers (wBufUpdateInfo info offs last) k ↔
        Covers info k ∨ (offs ≤ k ∧ k ≤ last) := by
  induction info generalizing lo with
  | nil => exact ⟨⟨hlo, hle, hto, trivial⟩, fun k => by simp [wBufUpdateInfo]⟩
  | cons wbi rest ih =>
      have hall := h
      obtain ⟨h1, h2, h3, h4⟩ := h
      unfold wBufUpdateInfo
      by_cases hoffs : offs ≤ wbi.wbiTo + 1
      · rw [if_pos hoffs]
        by_cases hfrom : last + 1 < wbi.wbiFrom
        · rw [if_pos hfrom]
          refine ⟨⟨hlo, hle, hto, by simp only; omega, h2, h3, h4⟩, fun k => ?_⟩
          exact covers_cons.trans or_comm
        · rw [if_neg hfrom]
          have hgrow : Normal (last + 2) hi rest →
              Normal lo hi (⟨min wbi.wbiFrom offs, max wbi.wbiTo last⟩ :: rest) ∧
                ∀ k, Covers (⟨min wbi.wbiFrom offs, max wbi.wbiTo last⟩ :: rest) k ↔
                  Covers (wbi :: rest) k ∨ (offs ≤ k ∧ k ≤ last) := by
            intro hrest
            have hmax : Normal (max wbi.wbiTo last + 2) hi rest := by
              by_cases hm : last ≤ wbi.wbiTo
              · rw [Int.max_eq_left hm]
                exact h4
              · rwa [Int.max_eq_right (by omega)]
            refine ⟨⟨by simp only; omega, by simp only; omega, by simp only; omega, hmax⟩,
              fun k => ?_⟩
            rw [covers_cons, covers_cons]
            constructor
            · rintro (hc | hc)
              · by_cases hkw : wbi.wbiFrom ≤ k ∧ k ≤ wbi.wbiTo
                · exact .inl (.inl hkw)
                · exact .inr (by simp only at hc; omega)
              · exact .inl (.inr hc)
            · rintro ((hc | hc) | hc)
              · exact .inl (by simp only; omega)
              · exact .inr hc
              · exact .inl (by simp only; omega)
          cases rest with
          | nil => exact hgrow trivial
          | cons next rest =>
              simp only
              by_cases hnext : next.wbiFrom ≤ last + 1
              · rw [if_pos hnext]
                exact wBufDoMelt_spec hlo hto hall hle (by omega) hoffs
              · rw [if_neg hnext]
                exact hgrow ⟨by omega, h4.2⟩
      · rw [if_neg hoffs]
        obtain ⟨hn, hcov⟩ := ih h4 (by omega)
        refine ⟨⟨h1, h2, h3, hn⟩, fun k => ?_⟩
        rw [covers_cons, covers_cons, hcov, or_assoc]

theorem wBufUpdateInfo_ne_nil {lo hi offs last : Int} {info : List WBufHdrInfo}
    (h : Normal lo hi info) (hlo : lo ≤ offs) (hle : offs ≤ last) (hto : last ≤ hi) :
    wBufUpdateInfo info offs last ≠ [] := by
  intro hnil
  have hcov := ((wBufUpdateInfo_spec h hlo hle hto).2 offs).mpr (.inr ⟨Int.le_refl _, hle⟩)
  rw [hnil] at hcov
  exact not_covers_nil offs hcov

end Anfs.Buf
