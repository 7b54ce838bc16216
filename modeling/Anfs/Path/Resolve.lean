import Anfs.Path.FullName

/-!
# What a path is relative to

The full name of a path against the name that it should have, and the blocks that are left in
use.
-/
namespace Anfs.Path
open Anfs.Lib Anfs.Nfs Anfs.Lock

/-- The bytes behind the last slash. -/
def lastComponent (p : List UInt8) : List UInt8 := p.rtakeWhile fun c => c ≠ slash

/-- The text of `fn_FilePart` for a path that does not end in a slash. -/
def fileName (p : List UInt8) : List UInt8 :=
  if p = [] then [] else if p.getLast? = some colon then p else filePart p

theorem rtakeWhile_and_eq_iff {α : Type*} (p q : α → Bool) (l : List α) :
    (l.rtakeWhile fun a => p a && q a) = l.rtakeWhile p ↔ ∀ a ∈ l.rtakeWhile p, q a = true := by
  induction l using List.reverseRecOn with
  | nil => simp
  | append_singleton l a ih =>
      by_cases hp : p a = true
      · rw [List.rtakeWhile_concat_pos p l a hp]
        by_cases hq : q a = true
        · rw [List.rtakeWhile_concat_pos _ l a (by simp [hp, hq])]
          rw [List.append_cancel_right_eq, ih, List.forall_mem_append]
          simp [hq]
        · rw [List.rtakeWhile_concat_neg _ l a (by simp [hq])]
          refine iff_of_false (by simp) fun h => hq (h a ?_)
          exact List.mem_append_right _ (List.mem_singleton_self a)
      · rw [List.rtakeWhile_concat_neg p l a hp, List.rtakeWhile_concat_neg _ l a (by simp [hp])]
        simp

theorem mem_lastComponent_of_getLast? {p : List UInt8} (h : p.getLast? = some colon) :
    colon ∈ lastComponent p := by
  obtain ⟨l, rfl⟩ := List.getLast?_eq_some_iff.mp h
  rw [lastComponent, List.rtakeWhile_concat_pos _ l colon (by decide)]
  exact List.mem_append_right _ (List.mem_singleton_self colon)

/-- `fn_FilePart` takes the last component unless there is a ":" in it. -/
theorem fileName_eq_iff (p : List UInt8) :
    fileName p = lastComponent p ↔
      (colon ∈ lastComponent p → slash ∉ p ∧ p.getLast? = some colon) := by
  unfold fileName
  split_ifs with hnil hcolon
  · subst hnil
    exact iff_of_true rfl fun h => absurd h (List.not_mem_nil)
  · rw [eq_comm, lastComponent, List.rtakeWhile_eq_self_iff]
    constructor
    · intro h _
      exact ⟨fun hmem => absurd (h slash hmem) (by decide), hcolon⟩
    · intro h a ha
      obtain ⟨hslash, -⟩ := h (mem_lastComponent_of_getLast? hcolon)
      have hne : a ≠ slash := fun heq => hslash (heq ▸ ha)
      simpa using hne
  · have hpart : filePart p = p.rtakeWhile fun c => (decide (c ≠ slash) && decide (c ≠ colon)) := by
      unfold filePart
      congr 1
      funext c
      simp
    rw [hpart, lastComponent, rtakeWhile_and_eq_iff]
    constructor
    · exact fun h hmem => absurd (h colon hmem) (by decide)
    · intro h a ha
      have hne : a ≠ colon := fun heq => absurd (h (heq ▸ ha)).2 hcolon
      simpa using hne

theorem joined_getLast {cs : List (List UInt8)} (h : ∀ c ∈ cs, c ≠ [] ∧ slash ∉ c) :
    (joined cs).getLast? ≠ some slash := by
  induction cs using List.reverseRecOn with
  | nil => simp [joined]
  | append_singleton cs c _ =>
      obtain ⟨hne, hslash⟩ := h c (List.mem_append_right _ (List.mem_singleton_self c))
      have hlast : c.getLast? ≠ some slash := fun heq => hslash (List.mem_of_getLast? heq)
      cases cs with
      | nil => simpa [joined] using hlast
      | cons b cs =>
          rw [joined, intercalate_concat (List.cons_ne_nil b cs), List.getLast?_append]
          rw [List.getLast?_cons_of_ne_nil hne]
          simpa [List.getLast?_eq_some_getLast hne] using hlast

/-- The unified path does not end in a slash. -/
theorem unified_getLast {ss : List UInt8} {u : Unified} (h : unified ss = .ok u) :
    u.path.getLast? ≠ some slash := by
  have hrun : fnPathUnify true ss = some (.ok u) := by
    rw [← h, unified, Option.some_get]
  rcases fnPathUnify_spec ss with ⟨-, res2, herr, -⟩ | ⟨st, strippedDirs, -, hst, hok⟩
  · rw [herr] at hrun
    cases hrun
  · rw [hok] at hrun
    cases hrun
    refine joined_getLast fun c hc => ?_
    obtain ⟨c', hc', rfl⟩ := List.mem_map.mp hc
    exact ⟨(hst c' hc').chop_ne_nil, noSlash_chop (hst c' hc').noSlash⟩

/-- The names are the same but for upper and lower case. -/
def SameName (a b : List UInt8) : Prop := a.map toLower = b.map toLower

instance (a b : List UInt8) : Decidable (SameName a b) :=
  inferInstanceAs (Decidable (a.map toLower = b.map toLower))

/-- The part behind the ":" is relative to the export root. -/
def FromRoot (volume old cstr : List UInt8) (fl : Option Nat) : Prop :=
  fl = none ∨ old = [] ∨
    (withoutDev cstr).2 = true ∧ (withoutDev cstr).1 ≠ [] ∧
      (devPart cstr = [] ∨ SameName (devPart cstr) volume)

instance (volume old cstr : List UInt8) (fl : Option Nat) :
    Decidable (FromRoot volume old cstr fl) := inferInstanceAs (Decidable (_ ∨ _))

/-- The name that the path should be relative to. -/
def rightBase (volume old cstr : List UInt8) (fl : Option Nat) : List UInt8 :=
  if FromRoot volume old cstr fl then [] else old

/-- The text in front of the ":" is the start of the volume name, and not all of it. -/
def Abbreviates (volume old cstr : List UInt8) (fl : Option Nat) : Prop :=
  fl ≠ none ∧ old ≠ [] ∧ (withoutDev cstr).2 = true ∧ (withoutDev cstr).1 ≠ [] ∧
    devPart cstr ≠ [] ∧ (devPart cstr).length < volume.length ∧
      SameName (devPart cstr) (volume.take (devPart cstr).length)

instance (volume old cstr : List UInt8) (fl : Option Nat) :
    Decidable (Abbreviates volume old cstr fl) := inferInstanceAs (Decidable (_ ∧ _))

theorem strnicmp_iff (d s v : List UInt8) :
    strnicmp d.length (d ++ s) v = true ↔ d.length ≤ v.length ∧ SameName d (v.take d.length) := by
  induction d generalizing v with
  | nil => simp [strnicmp, SameName]
  | cons a d ih =>
      cases v with
      | nil => simp [strnicmp]
      | cons b v =>
          simp only [List.length_cons, List.cons_append, strnicmp, Bool.and_eq_true, beq_iff_eq, ih,
            SameName, List.take_succ_cons, List.map_cons, List.cons.injEq, Nat.add_le_add_iff_right]
          exact and_left_comm

theorem strnicmp_devPart (cstr v : List UInt8) :
    strnicmp (devPart cstr).length cstr v = true ↔
      (devPart cstr).length ≤ v.length ∧ SameName (devPart cstr)
      (v.take (devPart cstr).length) := by
  have hiff := strnicmp_iff (devPart cstr) (cstr.dropWhile (· ≠ colon)) v
  unfold devPart at hiff ⊢
  rwa [List.takeWhile_append_dropWhile] at hiff

/-- The base is right unless the device name is abbreviated. -/
theorem baseName_eq (volume cstr : List UInt8) {old : List UInt8} {fl : Option Nat}
    (hnull : fl = none → old = []) :
    baseName volume old cstr fl =
      if Abbreviates volume old cstr fl then [] else rightBase volume old cstr fl := by
  by_cases hnonroot : fl ≠ none ∧ old ≠ []
  · obtain ⟨hfl, hold⟩ := hnonroot
    have hlen : old.length ≠ 0 := fun h => hold (List.length_eq_zero_iff.mp h)
    by_cases hdev : (withoutDev cstr).2 = true ∧ (withoutDev cstr).1 ≠ []
    · have hbase : baseName volume old cstr fl =
          if strnicmp (devPart cstr).length cstr volume then [] else old :=
        if_pos ⟨hdev.1, hdev.2, hfl, hlen⟩
      have hroot : FromRoot volume old cstr fl ↔ devPart cstr = [] ∨
          SameName (devPart cstr) volume := by
        simp only [FromRoot, hfl, hold, hdev.1, hdev.2, ne_eq, not_false_eq_true,
          true_and, false_or]
      have habbr : Abbreviates volume old cstr fl ↔ devPart cstr ≠ [] ∧
          (devPart cstr).length < volume.length ∧
            SameName (devPart cstr) (volume.take (devPart cstr).length) := by
        simp only [Abbreviates, hfl, hold, hdev.1, hdev.2, ne_eq, not_false_eq_true, true_and]
      rw [hbase]
      by_cases hcmp : strnicmp (devPart cstr).length cstr volume = true
      · rw [if_pos hcmp]
        obtain ⟨hle, hsame⟩ := (strnicmp_devPart cstr volume).mp hcmp
        by_cases hab : Abbreviates volume old cstr fl
        · rw [if_pos hab]
        · rw [if_neg hab, rightBase, if_pos]
          rw [hroot]
          by_contra hneither
          obtain ⟨hne, hdiff⟩ := not_or.mp hneither
          refine hab (habbr.mpr ⟨hne, lt_of_le_of_ne hle fun heq => hdiff ?_, hsame⟩)
          rwa [heq, List.take_length] at hsame
      · have hab : ¬ Abbreviates volume old cstr fl := fun h =>
          hcmp
            ((strnicmp_devPart cstr volume).mpr ⟨Nat.le_of_lt (habbr.mp h).2.1, (habbr.mp h).2.2⟩)
        rw [if_neg hcmp, if_neg hab, rightBase, if_neg]
        rw [hroot]
        rintro (hnil | hsame)
        · exact hcmp (by rw [hnil]; rfl)
        · have hle : (devPart cstr).length = volume.length := by
            have hlen := congrArg List.length hsame
            rwa [List.length_map, List.length_map] at hlen
          refine hcmp ((strnicmp_devPart cstr volume).mpr ⟨Nat.le_of_eq hle, ?_⟩)
          rw [hle, List.take_length]
          exact hsame
    · have hab : ¬ Abbreviates volume old cstr fl := fun h => hdev ⟨h.2.2.1, h.2.2.2.1⟩
      have hroot : ¬ FromRoot volume old cstr fl := by
        rintro (h | h | ⟨h₁, h₂, -⟩)
        · exact hfl h
        · exact hold h
        · exact hdev ⟨h₁, h₂⟩
      rw [if_neg hab, rightBase, if_neg hroot, baseName, if_neg]
      exact fun h => hdev ⟨h.1, h.2.1⟩
  · have hab : ¬ Abbreviates volume old cstr fl := fun h => hnonroot ⟨h.1, h.2.1⟩
    have hold : old = [] := by
      by_contra hold
      exact hnonroot ⟨fun hfl => hold (hnull hfl), hold⟩
    have hroot : FromRoot volume old cstr fl := .inr (.inl hold)
    rw [if_neg hab, rightBase, if_pos hroot, baseName, if_neg, hold]
    exact fun h => h.2.2.2 (by rw [hold]; rfl)

theorem Abbreviates.rightBase {volume old cstr : List UInt8} {fl : Option Nat}
    (h : Abbreviates volume old cstr fl) : Path.rightBase volume old cstr fl = old := by
  obtain ⟨hfl, hold, -, -, hne, hlt, -⟩ := h
  refine if_neg ?_
  rintro (hnone | hnil | ⟨-, -, hdev⟩)
  · exact hfl hnone
  · exact hold hnil
  · rcases hdev with hnil | hsame
    · exact hne hnil
    · have hlen := congrArg List.length hsame
      rw [List.length_map, List.length_map] at hlen
      omega

section Blocks
variable {addPart : List UInt8 → List UInt8 → Nat → Option (List UInt8)} {h₀ h : Heap}
  {bs : List Nat}

theorem Owns.fnAddPart (ho : Heap.Owns h₀ h bs) (s₁ s₂ : List UInt8) :
    Heap.Owns h₀ (Path.fnAddPart addPart h s₁ s₂).2
      (Str.block (Path.fnAddPart addPart h s₁ s₂).1 ++ bs) := by
  have halloc := ho.alloc
  unfold Path.fnAddPart
  generalize h.alloc = r at halloc ⊢
  obtain ⟨_ | s, h₁⟩ := r
  · exact halloc
  · dsimp only
    cases added addPart s₁ s₂ with
    | none => exact halloc.free
    | some text => exact halloc

/-- The block of a unified path. -/
def unifiedBlock : Except Int (Str × Bool) → List Nat
  | .error _ => []
  | .ok u => [u.1.addr]

theorem Owns.fnPathUnifyStr (ho : Heap.Owns h₀ h bs) (ss : List UInt8) :
    Heap.Owns h₀ (Path.fnPathUnifyStr h ss).2
      (unifiedBlock (Path.fnPathUnifyStr h ss).1 ++ bs) := by
  have halloc := ho.alloc
  unfold Path.fnPathUnifyStr
  split
  · exact ho
  · generalize h.alloc = r at halloc ⊢
    obtain ⟨_ | d, h₁⟩ := r
    · exact halloc
    · dsimp only
      cases unified ss with
      | error res2 => exact halloc.free
      | ok u => exact halloc

theorem Owns.fnFilePart (ho : Heap.Owns h₀ h bs) (s : List UInt8) :
    Heap.Owns h₀ (Path.fnFilePart h s).2.2 (Str.block (Path.fnFilePart h s).1 ++ bs) := by
  unfold Path.fnFilePart
  split
  · exact Owns.strDup ho []
  split
  · exact Owns.strDup ho s
  split
  · have hcopy := Owns.strDup ho s
    generalize strDup h s = r at hcopy ⊢
    obtain ⟨_ | s₂, h₁⟩ := r
    · exact hcopy
    · dsimp only
      split
      · exact Owns.fnDelete hcopy
      · have hname := (Owns.strDup hcopy (filePart s.dropLast)).perm
          (List.perm_append_comm_assoc ..)
        exact Owns.fnDelete hname
  · exact Owns.strDup ho (filePart s)

/-- The local variables own their strings. -/
theorem owns_build (h : Heap) (old rest : List UInt8) :
    Heap.Owns h (build addPart h old rest).2
      (Str.block (build addPart h old rest).1.name ++
        (Str.block (build addPart h old rest).1.fullName ++
        Str.block (build addPart h old rest).1.uPath)) := by
  have hu := owns_strDup h (fnAM2UN rest)
  unfold build
  generalize strDup h (fnAM2UN rest) = u at hu ⊢
  obtain ⟨_ | uPath, h₁⟩ := u
  · exact hu
  · have hs := @Owns.fnAddPart addPart _ _ _ hu old rest
    dsimp only
    generalize fnAddPart addPart h₁ old rest = s at hs ⊢
    obtain ⟨_ | path, h₂⟩ := s
    · exact hs
    · have hfull := Owns.fnPathUnifyStr hs path.text
      dsimp only
      generalize fnPathUnifyStr h₂ path.text = r at hfull ⊢
      obtain ⟨res2 | ⟨full, strippedDirs⟩, h₃⟩ := r
      · exact Owns.fnDelete hfull
      · have hu' : Heap.Owns h
            (if strippedDirs then strDup (fnDelete h₃ (some uPath)) (fnAM2UN full.text)
              else (some uPath, h₃)).2
            (Str.block (some path) ++ ([full.addr] ++ Str.block
              (if strippedDirs then strDup (fnDelete h₃ (some uPath)) (fnAM2UN full.text)
                else (some uPath, h₃)).1)) := by
          split
          · have hthree : Heap.Owns h h₃ [full.addr, path.addr, uPath.addr] := hfull
            have hrev : Heap.Owns h h₃ (Str.block (some uPath) ++ [path.addr, full.addr]) :=
              hthree.perm (List.reverse_perm _).symm
            exact (Owns.strDup (Owns.fnDelete hrev) _).perm List.perm_append_comm
          · exact hfull.perm (List.Perm.swap path.addr full.addr [uPath.addr])
        exact Owns.fnFilePart (Owns.fnDelete hu') full.text

end Blocks

section Texts
variable {addPart : List UInt8 → List UInt8 → Nat → Option (List UInt8)}

/-- The path `rest` behind the name `base`, unified; none if that fails. -/
def resolve (addPart : List UInt8 → List UInt8 → Nat → Option (List UInt8))
    (base rest : List UInt8) :
    Option (List UInt8) :=
  (added addPart base rest).bind fun path => (unified path).toOption.map Unified.path

theorem filePart_ne_nil {s : List UInt8} (hnil : s ≠ []) (hslash : s.getLast? ≠ some slash)
    (hcolon : s.getLast? ≠ some colon) : filePart s ≠ [] := by
  intro hpart
  have hend := List.rtakeWhile_eq_nil_iff.mp hpart hnil
  rw [List.getLast?_eq_some_getLast hnil] at hslash hcolon
  simp_all

theorem fnFilePart_text {h : Heap} {s : List UInt8} {d : Str} (hlast : s.getLast? ≠ some slash)
    (hd : (fnFilePart h s).1 = some d) :
    d.text = fileName s ∧ (fnFilePart h s).2.1 = (fileName s).length := by
  unfold fnFilePart fileName at *
  by_cases hnil : s = []
  · rw [if_pos hnil] at hd ⊢
    rw [if_pos hnil]
    exact ⟨text_strDup hd, rfl⟩
  by_cases hcolon : s.getLast? = some colon
  · rw [if_neg hnil, if_pos hcolon] at hd ⊢
    rw [if_neg hnil, if_pos hcolon]
    exact ⟨text_strDup hd, rfl⟩
  rw [if_neg hnil, if_neg hcolon, if_neg (filePart_ne_nil hnil hlast hcolon)] at hd ⊢
  rw [if_neg hnil, if_neg hcolon]
  exact ⟨text_strDup hd, rfl⟩

theorem fnAddPart_text {h : Heap} {s₁ s₂ : List UInt8} {s : Str}
    (hs : (fnAddPart addPart h s₁ s₂).1 = some s) : added addPart s₁ s₂ = some s.text := by
  unfold fnAddPart at hs
  generalize h.alloc = r at hs
  obtain ⟨_ | a, h₁⟩ := r
  · cases hs
  · dsimp only at hs
    cases hadd : added addPart s₁ s₂ with
    | none =>
        rw [hadd] at hs
        cases hs
    | some text =>
        rw [hadd] at hs
        cases hs
        rfl

theorem fnPathUnifyStr_text {h : Heap} {ss : List UInt8} {u : Str × Bool}
    (hu : (fnPathUnifyStr h ss).1 = .ok u) : ∃ v, unified ss = .ok v ∧ u.1.text = v.path := by
  unfold fnPathUnifyStr at hu
  split at hu
  · cases hu
  · generalize h.alloc = r at hu
    obtain ⟨_ | a, h₁⟩ := r
    · cases hu
    · dsimp only at hu
      cases hrun : unified ss with
      | error res2 =>
          rw [hrun] at hu
          cases hu
      | ok v =>
          rw [hrun] at hu
          cases hu
          exact ⟨v, rfl, rfl⟩

/-- The full name of a part is what the path resolves to, the name is its last part. -/
structure Built.Texts (b : Built) (p : Option (List UInt8)) : Prop where
  fullName : ∀ full, b.fullName = some full → p = some full.text
  name : ∀ d, b.name = some d → ∃ full, b.fullName = some full ∧ d.text = fileName full.text ∧
    b.nameLen = (fileName full.text).length

theorem build_texts (h : Heap) (old rest : List UInt8) :
    (build addPart h old rest).1.Texts (resolve addPart old rest) := by
  have hempty : ∀ (u : Option Str) (res2 : Int),
    (Built.mk u none none 0 res2).Texts (resolve addPart old rest) :=
    fun u res2 => ⟨fun _ h => (nomatch h), fun _ h => (nomatch h)⟩
  unfold build
  generalize strDup h (fnAM2UN rest) = u
  obtain ⟨_ | uPath, h₁⟩ := u
  · exact hempty _ _
  · have hadd : ∀ {path}, (fnAddPart addPart h₁ old rest).1 = some path →
        added addPart old rest = some path.text := fnAddPart_text
    dsimp only
    generalize fnAddPart addPart h₁ old rest = s at hadd ⊢
    obtain ⟨_ | path, h₂⟩ := s
    · exact hempty _ _
    · have hunify : ∀ {u}, (fnPathUnifyStr h₂ path.text).1 = .ok u →
          ∃ v, unified path.text = .ok v ∧ u.1.text = v.path := fnPathUnifyStr_text
      dsimp only
      generalize fnPathUnifyStr h₂ path.text = r at hunify ⊢
      obtain ⟨res2 | ⟨full, strippedDirs⟩, h₃⟩ := r
      · exact hempty _ _
      · obtain ⟨v, hv, htext⟩ := hunify rfl
        have hlast : full.text.getLast? ≠ some slash := by
          rw [htext]
          exact unified_getLast hv
        constructor
        · rintro full' hfull
          obtain rfl := Option.some.inj hfull
          rw [resolve, hadd rfl, Option.bind_some, hv, show full.text = v.path from htext]
          rfl
        · intro d hd
          obtain ⟨hname, hlen⟩ := fnFilePart_text hlast hd
          exact ⟨full, rfl, hname, hlen⟩

theorem Ample.fnFilePart {h : Heap} (ha : h.Ample) {s : List UInt8}
    (hlast : s.getLast? ≠ some slash) :
    ∃ d, (Path.fnFilePart h s).1 = some d := by
  have hdup : ∀ t, ∃ d, (strDup h t).1 = some d := fun t => by
    obtain ⟨a, h₁, hrun, -⟩ := Ample.strDup ha t
    exact ⟨_, congrArg Prod.fst hrun⟩
  unfold Path.fnFilePart
  by_cases hnil : s = []
  · rw [if_pos hnil]
    exact hdup []
  by_cases hcolon : s.getLast? = some colon
  · rw [if_neg hnil, if_pos hcolon]
    exact hdup s
  · rw [if_neg hnil, if_neg hcolon, if_neg (filePart_ne_nil hnil hlast hcolon)]
    exact hdup (filePart s)

/-- With memory the strings are there. -/
theorem build_ample {h : Heap} (ha : h.Ample) {old rest p : List UInt8}
    (hp : resolve addPart old rest = some p) :
    ∃ u full d, (build addPart h old rest).1.uPath = some u ∧
      (build addPart h old rest).1.fullName = some full ∧
      (build addPart h old rest).1.name = some d := by
  obtain ⟨path, hadd, hmap⟩ := Option.bind_eq_some_iff.mp hp
  obtain ⟨v, hv, rfl⟩ := Option.map_eq_some_iff.mp hmap
  have hunified : unified path = .ok v := by
    cases hrun : unified path with
    | error res2 =>
        rw [hrun] at hv
        cases hv
    | ok w =>
        rw [hrun] at hv
        cases hv
        rfl
  have hearly : ¬ (path.head? = some slash ∨ startsDotDot path = true) := by
    intro hearly
    have hrun : fnPathUnify true path = some (.ok v) := by rw [← hunified, unified, Option.some_get]
    rw [fnPathUnify, if_pos hearly] at hrun
    cases hrun
  obtain ⟨a, h₁, hu, ha₁⟩ := Ample.strDup ha (fnAM2UN rest)
  obtain ⟨b, h₂, hs, ha₂⟩ := ha₁.alloc
  have hadded : fnAddPart addPart h₁ old rest = (some ⟨b, path⟩, h₂) := by
    rw [fnAddPart, hs]
    simp only [hadd]
  obtain ⟨c, h₃, hd, ha₃⟩ := ha₂.alloc
  have hfull : fnPathUnifyStr h₂ path = (.ok (⟨c, v.path⟩, v.strippedDirs), h₃) := by
    rw [fnPathUnifyStr, if_neg hearly, hd]
    simp only [hunified]
  have hu' :
    ∃ u h₄, (if v.strippedDirs then strDup (fnDelete h₃ (some ⟨a, fnAM2UN rest⟩)) (fnAM2UN v.path)
      else (some ⟨a, fnAM2UN rest⟩, h₃)) = (some u, h₄) ∧ h₄.Ample := by
    split
    · obtain ⟨e, h₄, hrun, ha₄⟩ :=
        Ample.strDup (Ample.fnDelete ha₃ (some ⟨a, fnAM2UN rest⟩)) (fnAM2UN v.path)
      exact ⟨_, h₄, hrun, ha₄⟩
    · exact ⟨_, h₃, rfl, ha₃⟩
  obtain ⟨u, h₄, hu', ha₄⟩ := hu'
  obtain ⟨d, hname⟩ := Ample.fnFilePart (Ample.fnDelete ha₄ (some ⟨b, path⟩))
    (unified_getLast hunified)
  refine ⟨u, ⟨c, v.path⟩, d, ?_, ?_, ?_⟩ <;> unfold build <;>
    simp only [hu, hadded, hfull, hu', hname]

end Texts

/-- What the path `rest` behind the name `base` comes to, if the last component is short enough. -/
def fitting (addPart : List UInt8 → List UInt8 → Nat → Option (List UInt8))
    (base rest : List UInt8) :
    Option (List UInt8) :=
  (resolve addPart base rest).filter fun p => (lastComponent p).length ≤ maxLongAmigaFileNameLen

theorem fitting_eq_some {addPart : List UInt8 → List UInt8 → Nat → Option (List UInt8)}
    {base rest p : List UInt8} : fitting addPart base rest = some p ↔
      resolve addPart base rest = some p ∧ (lastComponent p).length ≤ maxLongAmigaFileNameLen := by
  rw [fitting, Option.filter_eq_some_iff, decide_eq_true_iff]

/-- What `CBuildFullName` should do. -/
structure BuildsFullName (addPart : List UInt8 → List UInt8 → Nat → Option (List UInt8))
    (volume : List UInt8) (locks : List ELOCK) (h : Heap) (fl : Option Nat) (cstr : List UInt8)
    (argName uPath : Bool) (r : Except Int FullName × Heap) : Prop where
  fullName : ∀ n, r.1 = .ok n → ∃ old, oldFullName locks fl = some old ∧
    resolve addPart (rightBase volume old cstr fl) (withoutDev cstr).1 = some n.fullName.text ∧
    n.fullNameLen = n.fullName.text.length
  complete : h.Ample → ∀ old, oldFullName locks fl = some old →
    ∀ p, fitting addPart (rightBase volume old cstr fl) (withoutDev cstr).1 =
      some p → ∃ n, r.1 = .ok n
  name : ∀ n, r.1 = .ok n → n.nameLen = (lastComponent n.fullName.text).length ∧
    n.nameLen ≤ maxLongAmigaFileNameLen ∧
    (argName = true → ∃ d, n.name = some d ∧ d.text = lastComponent n.fullName.text)
  owned : ∀ n, r.1 = .ok n →
    Heap.Owns h r.2 (n.fullName.addr :: (Str.block n.name ++ Str.block n.uPath))
  failed : ∀ res2, r.1 = .error res2 → res2 ≠ 0 ∧ Heap.Owns h r.2 []

/-- The last component is short enough, and there is no ":" in it but for a whole path that ends
in one. -/
structure NameFits (p : List UInt8) : Prop where
  short : (lastComponent p).length ≤ maxLongAmigaFileNameLen
  noColon : colon ∈ lastComponent p → slash ∉ p ∧ p.getLast? = some colon

/-- The device is not abbreviated, unless the path comes to the same from the root and from the
lock, and the name fits. -/
structure Unmistaken (addPart : List UInt8 → List UInt8 → Nat → Option (List UInt8))
    (volume : List UInt8) (locks : List ELOCK) (fl : Option Nat) (cstr : List UInt8) : Prop where
  device : ∀ old, oldFullName locks fl = some old → Abbreviates volume old cstr fl →
    fitting addPart [] (withoutDev cstr).1 = fitting addPart old (withoutDev cstr).1
  name : ∀ old, oldFullName locks fl = some old → ∀ p,
    resolve addPart (if Abbreviates volume old cstr fl then [] else rightBase volume old cstr fl)
      (withoutDev cstr).1 = some p → NameFits p

section Function
variable {addPart : List UInt8 → List UInt8 → Nat → Option (List UInt8)} {volume : List UInt8}
  {locks : List ELOCK} {h : Heap} {fl : Option Nat} {cstr : List UInt8} {argName uPath : Bool}

/-- How `CBuildFullName` ends; `p` is what the path resolves to from the base that it takes. -/
inductive Outcome (h : Heap) (argName uPath : Bool) (p : Option (List UInt8)) :
    Except Int FullName × Heap → Prop
  | failed {res2 : Int} {h' : Heap} (nonzero : res2 ≠ 0) (owned : Heap.Owns h h' []) :
      Outcome h argName uPath p (.error res2, h')
  /-- The copy of the path without device stays behind. -/
  | tooLong {q : List UInt8} {a : Nat} {h' : Heap} (path : p = some q)
      (long : maxLongAmigaFileNameLen < (fileName q).length) (owned : Heap.Owns h h' [a]) :
      Outcome h argName uPath p (.error errorInvalidComponentName, h')
  | done {full d : Str} {u : Option Str} {h' : Heap} (path : p = some full.text)
      (name : d.text = fileName full.text)
      (short : (fileName full.text).length ≤ maxLongAmigaFileNameLen)
      (owned : Heap.Owns h h'
        (full.addr :: (Str.block (if argName then some d else none) ++
          Str.block (if uPath then u else none)))) :
      Outcome h argName uPath p (.ok {
        fullName := full, fullNameLen := full.text.length
        name := if argName then some d else none
        nameLen := (fileName full.text).length
        uPath := if uPath then u else none }, h')

theorem Owns.deleteAll {h₀ h : Heap} {u full name : Option Str} {bs : List Nat}
    (ho : Heap.Owns h₀ h (Str.block name ++ (Str.block full ++ Str.block u) ++ bs)) :
    Heap.Owns h₀ (fnDelete (fnDelete (fnDelete h u) full) name) bs := by
  have hperm : (Str.block name ++ (Str.block full ++ Str.block u) ++ bs).Perm
      (Str.block u ++ (Str.block full ++ (Str.block name ++ bs))) := by
    rw [List.perm_iff_count]
    intro a
    simp only [List.count_append]
    omega
  exact Owns.fnDelete (Owns.fnDelete (Owns.fnDelete (ho.perm hperm)))

/-- What the caller does not want is freed. -/
theorem Owns.deleteUnwanted {h₀ h : Heap} {d full u : Str} (argName uPath : Bool)
    (ho : Heap.Owns h₀ h [d.addr, full.addr, u.addr]) :
    Heap.Owns h₀
      (if argName then (if uPath then h else fnDelete h (some u))
        else fnDelete (if uPath then h else fnDelete h (some u)) (some d))
      (full.addr :: (Str.block (if argName then some d else none) ++
        Str.block (if uPath then some u else none))) := by
  have hpath : Heap.Owns h₀ (if uPath then h else fnDelete h (some u))
      (d.addr :: full.addr :: Str.block (if uPath then some u else none)) := by
    cases uPath with
    | true => exact ho
    | false => exact (ho.perm (List.perm_append_singleton u.addr [d.addr, full.addr])).free
  cases argName with
  | true => exact hpath.perm (List.Perm.swap ..)
  | false => exact hpath.free

/-- A name that is too long: the copy of the path without device stays behind. -/
theorem cBuildFullName_long {old : List UInt8} (hold : oldFullName locks fl = some old)
    (hlong : nameTooLong addPart volume locks h fl cstr = true) : ∃ q a h',
    resolve addPart (baseName volume old cstr fl) (withoutDev cstr).1 = some q ∧
    maxLongAmigaFileNameLen < (fileName q).length ∧ Heap.Owns h h' [a] ∧
    cBuildFullName addPart volume locks h fl cstr argName uPath =
      (.error errorInvalidComponentName, h') := by
  have hpath := owns_strDup h (withoutDev cstr).1
  have htext : ∀ {d}, (strDup h (withoutDev cstr).1).1 = some d →
    d.text = (withoutDev cstr).1 := text_strDup
  unfold nameTooLong at hlong
  unfold cBuildFullName
  rw [hold] at hlong ⊢
  dsimp only at hlong ⊢
  generalize strDup h (withoutDev cstr).1 = s at hpath htext hlong ⊢
  obtain ⟨_ | path, h₁⟩ := s
  · cases hlong
  · have howns := hpath.trans (@owns_build addPart h₁ (baseName volume old cstr fl) path.text)
    have htexts := @build_texts addPart h₁ (baseName volume old cstr fl) path.text
    rw [htext rfl] at howns htexts
    dsimp only at hlong ⊢
    rw [htext rfl] at hlong ⊢
    generalize build addPart h₁ (baseName volume old cstr fl) (withoutDev cstr).1 = r
      at howns htexts hlong ⊢
    obtain ⟨⟨u, full, name, nameLen, localRes2⟩, h₂⟩ := r
    dsimp only at howns htexts hlong ⊢
    rw [Bool.and_eq_true, decide_eq_true_iff] at hlong
    obtain ⟨d, rfl⟩ := Option.isSome_iff_exists.mp hlong.1
    obtain ⟨full', hfull, -, hlen⟩ := htexts.name d rfl
    exact ⟨full'.text, path.addr, _, htexts.fullName full' hfull, hlen ▸ hlong.2,
      Owns.deleteAll howns, if_pos hlong⟩

/-- In every other case nothing stays behind where the function fails. -/
theorem cBuildFullName_short {old : List UInt8} (hold : oldFullName locks fl = some old)
    (hlong : nameTooLong addPart volume locks h fl cstr = false) :
    Outcome h argName uPath (resolve addPart (baseName volume old cstr fl) (withoutDev cstr).1)
      (cBuildFullName addPart volume locks h fl cstr argName uPath) ∧
    ∀ res2, (cBuildFullName addPart volume locks h fl cstr argName uPath).1 = .error res2 →
      Heap.Owns h (cBuildFullName addPart volume locks h fl cstr argName uPath).2 [] := by
  have hpath := owns_strDup h (withoutDev cstr).1
  have htext : ∀ {d}, (strDup h (withoutDev cstr).1).1 = some d →
    d.text = (withoutDev cstr).1 := text_strDup
  unfold nameTooLong at hlong
  unfold cBuildFullName
  rw [hold] at hlong ⊢
  dsimp only at hlong ⊢
  generalize strDup h (withoutDev cstr).1 = s at hpath htext hlong ⊢
  obtain ⟨_ | path, h₁⟩ := s
  · exact ⟨.failed (by decide) hpath, fun res2 _ => hpath⟩
  · have howns := hpath.trans (@owns_build addPart h₁ (baseName volume old cstr fl) path.text)
    have htexts := @build_texts addPart h₁ (baseName volume old cstr fl) path.text
    rw [htext rfl] at howns htexts
    dsimp only at hlong ⊢
    rw [htext rfl] at hlong ⊢
    generalize build addPart h₁ (baseName volume old cstr fl) (withoutDev cstr).1 = r
      at howns htexts hlong ⊢
    obtain ⟨⟨u, full, name, nameLen, localRes2⟩, h₂⟩ := r
    dsimp only at howns htexts hlong ⊢
    have hlong' : ¬ (name.isSome = true ∧ maxLongAmigaFileNameLen < nameLen) := by
      rw [← Bool.not_eq_true, Bool.and_eq_true, decide_eq_true_iff] at hlong
      exact hlong
    rw [if_neg hlong']
    have hleft : Heap.Owns h (fnDelete h₂ (some path))
      (Str.block name ++ (Str.block full ++ Str.block u)) :=
      Owns.fnDelete (howns.perm List.perm_append_comm)
    have howned : Heap.Owns h (fnDelete (fnDelete (fnDelete (fnDelete h₂ (some path)) u) full) name)
      [] :=
      Owns.deleteAll (by rwa [List.append_nil])
    have herror : Outcome h argName uPath
      (resolve addPart (baseName volume old cstr fl) (withoutDev cstr).1)
        (.error (if localRes2 ≠ 0 then localRes2 else errorNoFreeStore),
          fnDelete (fnDelete (fnDelete (fnDelete h₂ (some path)) u) full) name) := by
      refine .failed ?_ howned
      split
      · assumption
      · decide
    cases name with
    | none =>
        obtain _ | u := u
        · exact ⟨herror, fun _ _ => howned⟩
        · obtain _ | full := full
          · exact ⟨herror, fun _ _ => howned⟩
          · exact ⟨herror, fun _ _ => howned⟩
    | some d =>
        obtain ⟨full', hfull, hname, hlen⟩ := htexts.name d rfl
        obtain rfl : full = some full' := hfull
        obtain _ | u := u
        · exact ⟨herror, fun _ _ => howned⟩
        · have hpath := htexts.fullName full' rfl
          obtain rfl : nameLen = (fileName full'.text).length := hlen
          have hshort : (fileName full'.text).length ≤ maxLongAmigaFileNameLen :=
            Nat.not_lt.mp fun hlt => hlong' ⟨rfl, hlt⟩
          exact ⟨.done hpath hname hshort (Owns.deleteUnwanted argName uPath hleft),
            fun res2 hres => (nomatch hres)⟩

theorem cBuildFullName_outcome {old : List UInt8} (hold : oldFullName locks fl = some old) :
    Outcome h argName uPath (resolve addPart (baseName volume old cstr fl) (withoutDev cstr).1)
      (cBuildFullName addPart volume locks h fl cstr argName uPath) := by
  cases hlong : nameTooLong addPart volume locks h fl cstr with
  | false => exact (cBuildFullName_short hold hlong).1
  | true =>
      obtain ⟨q, a, h', hpath, hlen, howns, hrun⟩ :=
        @cBuildFullName_long _ _ _ _ _ _ argName uPath _ hold hlong
      rw [hrun]
      exact .tooLong hpath hlen howns

/-- With memory a path that resolves is returned, or its name is too long. -/
theorem cBuildFullName_ample (ha : h.Ample) {old p : List UInt8}
    (hold : oldFullName locks fl = some old)
    (hp : resolve addPart (baseName volume old cstr fl) (withoutDev cstr).1 = some p) :
    (∃ n, (cBuildFullName addPart volume locks h fl cstr argName uPath).1 = .ok n) ∨
    maxLongAmigaFileNameLen < (fileName p).length ∧
      ∃ a, Heap.Owns h (cBuildFullName addPart volume locks h fl cstr argName uPath).2 [a] := by
  have hblock := owns_strDup h (withoutDev cstr).1
  obtain ⟨a, h₁, hpath, ha₁⟩ := Ample.strDup ha (withoutDev cstr).1
  obtain ⟨u, full, d, hu, hfull, hd⟩ := build_ample ha₁ hp
  obtain ⟨full', hfull', -, hlen⟩ := (build_texts h₁ _ _).name d hd
  have hall := hblock
  rw [hpath] at hall
  have howns :=
    hall.trans (@owns_build addPart h₁ (baseName volume old cstr fl) (withoutDev cstr).1)
  obtain rfl : p = full'.text := by
    have htext := (build_texts h₁ _ _).fullName full' hfull'
    rw [hp] at htext
    exact Option.some.inj htext
  unfold cBuildFullName
  rw [hold]
  simp only [hpath]
  by_cases hlong :
    (build addPart h₁ (baseName volume old cstr fl) (withoutDev cstr).1).1.name.isSome = true ∧
      maxLongAmigaFileNameLen <
        (build addPart h₁ (baseName volume old cstr fl) (withoutDev cstr).1).1.nameLen
  · rw [if_pos hlong]
    exact .inr ⟨hlen ▸ hlong.2, a, Owns.deleteAll howns⟩
  · rw [if_neg hlong]
    simp only [hu, hfull, hd]
    exact .inl ⟨_, rfl⟩

/-- The directory that `CBuildFullName` takes. -/
theorem baseName_of_lock {old : List UInt8} (hold : oldFullName locks fl = some old) :
    baseName volume old cstr fl =
      if Abbreviates volume old cstr fl then [] else rightBase volume old cstr fl := by
  refine baseName_eq volume cstr fun hfl => ?_
  rw [hfl] at hold
  exact (Option.some.inj hold).symm

/-- What `fn_FilePart` returns of a path whose name fits. -/
theorem NameFits.fileName_short {p : List UInt8} (h : NameFits p) :
    (fileName p).length ≤ maxLongAmigaFileNameLen := by
  rw [(fileName_eq_iff p).mpr h.noColon]
  exact h.short

section Builds
variable (ha : h.Ample) (hbuilds : BuildsFullName addPart volume locks h fl cstr true true
  (cBuildFullName addPart volume locks h fl cstr true true)) {old p : List UInt8}
  (hold : oldFullName locks fl = some old)
include ha hbuilds hold

/-- Where every name is built right, the path that `CBuildFullName` finds is the right one. -/
theorem right_of_builds
    (hp : resolve addPart (baseName volume old cstr fl) (withoutDev cstr).1 = some p) :
    resolve addPart (rightBase volume old cstr fl) (withoutDev cstr).1 = some p ∧ NameFits p := by
  have hout := @cBuildFullName_outcome addPart volume locks h fl cstr true true old hold
  have hample := @cBuildFullName_ample addPart volume locks h fl cstr true true ha old p hold hp
  generalize cBuildFullName addPart volume locks h fl cstr true true = r at hout hample hbuilds
  rw [hp] at hout
  cases hout with
  | failed nonzero owned =>
      rcases hample with ⟨n, hn⟩ | ⟨-, a, hleak⟩
      · cases hn
      · exact absurd owned (hleak.leak (List.cons_ne_nil a []))
  | @tooLong q a h' path long owned =>
      exact absurd (hbuilds.failed _ rfl).2 (owned.leak (List.cons_ne_nil a []))
  | @done full d u h' path name short owned =>
      obtain rfl := Option.some.inj path
      obtain ⟨old', hold', hres, -⟩ := hbuilds.fullName _ rfl
      obtain ⟨hlen, hle, hname⟩ := hbuilds.name _ rfl
      obtain ⟨d', hd', htext⟩ := hname rfl
      obtain rfl := Option.some.inj hd'
      obtain rfl := Option.some.inj (hold.symm.trans hold')
      exact ⟨hres, hlen ▸ hle, (fileName_eq_iff full.text).mp (name.symm.trans htext)⟩

/-- And the right path is found. -/
theorem found_of_builds
    (hp : fitting addPart (rightBase volume old cstr fl) (withoutDev cstr).1 = some p) :
    resolve addPart (baseName volume old cstr fl) (withoutDev cstr).1 = some p := by
  obtain ⟨n, hn⟩ := hbuilds.complete ha old hold p hp
  obtain ⟨old', hold', hres, -⟩ := hbuilds.fullName n hn
  obtain rfl := Option.some.inj (hold.symm.trans hold')
  rw [(fitting_eq_some.mp hp).1] at hres
  obtain rfl := Option.some.inj hres
  have hout := @cBuildFullName_outcome addPart volume locks h fl cstr true true old hold
  generalize cBuildFullName addPart volume locks h fl cstr true true = r at hout hn
  cases hout with
  | failed nonzero owned => cases hn
  | tooLong path long owned => cases hn
  | done path name short owned =>
      cases hn
      exact path

end Builds

theorem unmistaken_of_builds (ha : h.Ample)
    (hbuilds : BuildsFullName addPart volume locks h fl cstr true true
      (cBuildFullName addPart volume locks h fl cstr true true)) :
    Unmistaken addPart volume locks fl cstr := by
  constructor
  · intro old hold habbr
    have hroot : baseName volume old cstr fl = [] := by
      rw [baseName_of_lock hold, if_pos habbr]
    apply Option.ext
    intro p
    rw [fitting_eq_some]
    constructor
    · rintro ⟨hp, hshort⟩
      rw [← hroot] at hp
      have hres := (right_of_builds ha hbuilds hold hp).1
      rw [habbr.rightBase] at hres
      exact fitting_eq_some.mpr ⟨hres, hshort⟩
    · intro hp
      have hfound := found_of_builds ha hbuilds hold (habbr.rightBase.symm ▸ hp)
      rw [hroot] at hfound
      exact ⟨hfound, (fitting_eq_some.mp hp).2⟩
  · intro old hold p hp
    rw [← baseName_of_lock hold] at hp
    exact (right_of_builds ha hbuilds hold hp).2

namespace Unmistaken
variable (hun : Unmistaken addPart volume locks fl cstr) {old p : List UInt8}
  (hold : oldFullName locks fl = some old)
include hun hold

theorem nameFits (hp : resolve addPart (baseName volume old cstr fl) (withoutDev cstr).1 = some p) :
    NameFits p := by
  rw [baseName_of_lock hold] at hp
  exact hun.name old hold p hp

/-- The path that `CBuildFullName` finds is the right one. -/
theorem right (hp : resolve addPart (baseName volume old cstr fl) (withoutDev cstr).1 = some p) :
    resolve addPart (rightBase volume old cstr fl) (withoutDev cstr).1 = some p := by
  have hshort := (hun.nameFits hold hp).short
  rw [baseName_of_lock hold] at hp
  by_cases habbr : Abbreviates volume old cstr fl
  · rw [if_pos habbr] at hp
    have hroot : fitting addPart [] (withoutDev cstr).1 = some p :=
      fitting_eq_some.mpr ⟨hp, hshort⟩
    rw [hun.device old hold habbr] at hroot
    rw [habbr.rightBase]
    exact (fitting_eq_some.mp hroot).1
  · rwa [if_neg habbr] at hp

/-- The right path is found. -/
theorem found (hp : fitting addPart (rightBase volume old cstr fl) (withoutDev cstr).1 = some p) :
    resolve addPart (baseName volume old cstr fl) (withoutDev cstr).1 = some p := by
  rw [baseName_of_lock hold]
  by_cases habbr : Abbreviates volume old cstr fl
  · rw [habbr.rightBase, ← hun.device old hold habbr] at hp
    rw [if_pos habbr]
    exact (fitting_eq_some.mp hp).1
  · rw [if_neg habbr]
    exact (fitting_eq_some.mp hp).1

/-- With memory it is returned. -/
theorem returned (ha : h.Ample)
    (hp : fitting addPart (rightBase volume old cstr fl) (withoutDev cstr).1 = some p) :
    ∃ n, (cBuildFullName addPart volume locks h fl cstr argName uPath).1 = .ok n := by
  have hfound := hun.found hold hp
  rcases @cBuildFullName_ample _ _ _ _ _ _ argName uPath ha old p hold hfound with
    hok | ⟨hlong, -⟩
  · exact hok
  · exact absurd hlong (Nat.not_lt.mpr (hun.nameFits hold hfound).fileName_short)

end Unmistaken

theorem builds_of_unmistaken (hun : Unmistaken addPart volume locks fl cstr) :
    BuildsFullName addPart volume locks h fl cstr argName uPath
      (cBuildFullName addPart volume locks h fl cstr argName uPath) := by
  cases hold : oldFullName locks fl with
  | none =>
      have hrun : cBuildFullName addPart volume locks h fl cstr argName uPath =
          (.error errorInvalidLock, h) := by
        rw [cBuildFullName, hold]
      rw [hrun]
      refine ⟨fun n hn => (nomatch hn), fun _ old hsome => ?_, fun n hn => (nomatch hn),
        fun n hn => (nomatch hn), ?_⟩
      · rw [hold] at hsome
        cases hsome
      · rintro res2 hres2
        cases hres2
        exact ⟨by decide, Heap.owns_refl h⟩
  | some old =>
      have hout := @cBuildFullName_outcome addPart volume locks h fl cstr argName uPath old hold
      have hcomplete : h.Ample → ∀ old', oldFullName locks fl = some old' → ∀ p,
          fitting addPart (rightBase volume old' cstr fl) (withoutDev cstr).1 = some p →
          ∃ n, (cBuildFullName addPart volume locks h fl cstr argName uPath).1 = .ok n :=
        fun ha old' hold' p hp => hun.returned hold' ha hp
      generalize cBuildFullName addPart volume locks h fl cstr argName uPath = r
        at hout hcomplete ⊢
      cases hout with
      | failed nonzero owned =>
          refine ⟨fun n hn => (nomatch hn), hcomplete, fun n hn => (nomatch hn),
            fun n hn => (nomatch hn), ?_⟩
          rintro res2 hres2
          cases hres2
          exact ⟨nonzero, owned⟩
      | @tooLong q a h' path long owned =>
          exact absurd long (Nat.not_lt.mpr (hun.nameFits hold path).fileName_short)
      | @done full d u h' path name short owned =>
          have hlast := (fileName_eq_iff full.text).mpr (hun.nameFits hold path).noColon
          refine ⟨?_, hcomplete, ?_, ?_, fun res2 hres2 => (nomatch hres2)⟩
          · rintro n hn
            cases hn
            exact ⟨old, hold, hun.right hold path, rfl⟩
          · rintro n hn
            cases hn
            refine ⟨congrArg List.length hlast, short, ?_⟩
            rintro rfl
            exact ⟨d, rfl, name.trans hlast⟩
          · rintro n hn
            cases hn
            exact owned

/-- `CBuildFullName` does what it should with every memory exactly for the locks and paths that
it does not mistake. -/
theorem cBuildFullName_iff :
    (∀ h argName uPath, BuildsFullName addPart volume locks h fl cstr argName uPath
      (cBuildFullName addPart volume locks h fl cstr argName uPath)) ↔
    Unmistaken addPart volume locks fl cstr :=
  ⟨fun hall => unmistaken_of_builds Heap.ample_new (hall ⟨[], 0, some⟩ true true),
    fun hun _ _ _ => builds_of_unmistaken hun⟩

/-- `AddPart` of dos.library for what it is used for here. -/
def dosAddPart (dir file : List UInt8) (size : Nat) : Option (List UInt8) :=
  let r :=
    if colon ∈ file then file
    else if dir = [] ∨ dir.getLast? = some colon ∨ dir.getLast? = some slash then dir ++ file
    else dir ++ slash :: file
  if r.length < size then some r else none

/-- A lock on "d". -/
def lockOfD : ELOCK where
  addr := 1
  flKey := 7
  flAccess := SHARED_LOCK
  nfsFh := []
  nfsType := NFDIR
  fullName := ⟨2, [100]⟩
  name := ⟨3, [100]⟩

theorem ok_of_toOption {α : Type} {r : Except Int α} {a : α}
    (h : r.toOption = some a) : r = .ok a := by
  cases r with
  | error res2 => cases h
  | ok b => exact congrArg _ (Option.some.inj h)

/-- On a volume "nfs" the path "n:/x" is not found from the lock on "d", the path "n:x" is not
relative to it, the name of "x:a:b" is "b", and a name of 107 bytes leaves a block behind. -/
theorem cBuildFullName_mistakes :
    ¬ BuildsFullName dosAddPart [110, 102, 115] [lockOfD] ⟨[1, 2, 3], 4, some⟩ (some 1)
      [110, 58, 47, 120] true false
      (cBuildFullName dosAddPart [110, 102, 115] [lockOfD] ⟨[1, 2, 3], 4, some⟩ (some 1)
        [110, 58, 47, 120] true false) ∧
    ¬ BuildsFullName dosAddPart [110, 102, 115] [lockOfD] ⟨[1, 2, 3], 4, some⟩ (some 1)
      [110, 58, 120] true false
      (cBuildFullName dosAddPart [110, 102, 115] [lockOfD] ⟨[1, 2, 3], 4, some⟩ (some 1)
        [110, 58, 120] true false) ∧
    ¬ BuildsFullName dosAddPart [110, 102, 115] [lockOfD] ⟨[1, 2, 3], 4, some⟩ none
      [120, 58, 97, 58, 98] true false
      (cBuildFullName dosAddPart [110, 102, 115] [lockOfD] ⟨[1, 2, 3], 4, some⟩ none
        [120, 58, 97, 58, 98]
        true false) ∧
    ¬ BuildsFullName dosAddPart [110, 102, 115] [lockOfD] ⟨[1, 2, 3], 4, some⟩ none
      (List.replicate 107 97) true false
      (cBuildFullName dosAddPart [110, 102, 115] [lockOfD] ⟨[1, 2, 3], 4, some⟩ none
        (List.replicate 107 97)
        true false) := by
  refine ⟨fun h => ?_, fun h => ?_, fun h => ?_, fun h => ?_⟩
  · have hfit : fitting dosAddPart (rightBase [110, 102, 115] [100] [110, 58, 47, 120] (some 1))
        (withoutDev [110, 58, 47, 120]).1 = some [120] := by decide
    have hrun : (cBuildFullName dosAddPart [110, 102, 115] [lockOfD] ⟨[1, 2, 3], 4, some⟩ (some 1)
        [110, 58, 47, 120] true false).1.toOption.isNone = true := by decide
    obtain ⟨n, hn⟩ := h.complete ⟨rfl, by decide⟩ [100] rfl [120] hfit
    rw [hn] at hrun
    cases hrun
  · have hrun :
      (cBuildFullName dosAddPart [110, 102, 115] [lockOfD] ⟨[1, 2, 3], 4, some⟩
      (some 1) [110, 58, 120]
        true false).1.toOption.map (fun n => n.fullName.text) = some [120] := by decide
    obtain ⟨n, hn, htext⟩ := Option.map_eq_some_iff.mp hrun
    obtain ⟨old, hold, hres, -⟩ := h.fullName n (ok_of_toOption hn)
    obtain rfl : [100] = old := Option.some.inj hold
    rw [htext] at hres
    revert hres
    decide
  · have hrun : (cBuildFullName dosAddPart [110, 102, 115] [lockOfD] ⟨[1, 2, 3], 4, some⟩ none
        [120, 58, 97, 58, 98] true false).1.toOption.map (fun n => (n.fullName.text, n.nameLen)) =
          some ([97, 58, 98], 1) := by decide
    obtain ⟨n, hn, htext⟩ := Option.map_eq_some_iff.mp hrun
    obtain ⟨hlen, -⟩ := h.name n (ok_of_toOption hn)
    rw [(Prod.mk.inj htext).1, (Prod.mk.inj htext).2] at hlen
    revert hlen
    decide
  · have hrun : (cBuildFullName dosAddPart [110, 102, 115] [lockOfD] ⟨[1, 2, 3], 4, some⟩ none
        (List.replicate 107 97) true false).1.toOption.isNone = true := by decide +kernel
    have hlive : (cBuildFullName dosAddPart [110, 102, 115] [lockOfD] ⟨[1, 2, 3], 4, some⟩ none
        (List.replicate 107 97) true false).2.live.length = 4 := by decide +kernel
    generalize cBuildFullName dosAddPart [110, 102, 115] [lockOfD] ⟨[1, 2, 3], 4, some⟩ none
      (List.replicate 107 97) true false = r at h hrun hlive
    obtain ⟨res2 | n, h'⟩ := r
    · have hlen := (h.failed res2 rfl).2.length_eq
      rw [hlive] at hlen
      cases hlen
    · cases hrun

end Function

end Anfs.Path
