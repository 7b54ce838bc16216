import Anfs.Buf.Drops

/-!
# The order of a cluster

The chain is sorted by file position and every table in it is normal. What keeps this is
the position a write is entered with: it is the buffer that covers the place of the next
byte, or the last one before it. The position stays right as long as a call that moves on
to the next header takes all that is left, since moving on leaves `wbc_PosData` behind,
and as long as no block reaches the end of the range of a `LONG`.
-/
namespace Anfs.Buf
open Anfs.Lib Anfs.Nfs

/-- The end of the last block that a `LONG` reaches. -/
def POSMAX : Int := 2147475456

/-- The headers of `l` are for different blocks in ascending order. -/
structure Ordered (g : Pool) (l : List Ptr) : Prop where
  aligned : ∀ p ∈ l, g.offs p % MBUFSIZE = 0
  bounded : ∀ p ∈ l, -POSMAX ≤ g.offs p ∧ g.offs p + MBUFSIZE ≤ POSMAX
  ascending : l.Pairwise fun p q => g.offs p < g.offs q

section Lists
variable {g g' : Pool} {l l₁ l₂ : List Ptr} {p q : Ptr}

theorem Ordered.nil (g : Pool) : Ordered g [] := ⟨by simp, by simp, List.Pairwise.nil⟩

theorem Ordered.congr (h : Ordered g l) (hoffs : ∀ p ∈ l, g'.offs p = g.offs p) :
    Ordered g' l where
  aligned p hp := by rw [hoffs p hp]; exact h.aligned p hp
  bounded p hp := by rw [hoffs p hp]; exact h.bounded p hp
  ascending := h.ascending.imp_of_mem fun hp hq hlt => by rwa [hoffs _ hp, hoffs _ hq]

/-- A header behind another is at least a block away. -/
theorem Ordered.after (h : Ordered g (l₁ ++ p :: l₂)) (hq : q ∈ l₂) :
    g.offs p + MBUFSIZE ≤ g.offs q := by
  have hlt : g.offs p < g.offs q := by
    have := (List.pairwise_append.mp h.ascending).2.1
    exact (List.pairwise_cons.mp this).1 q hq
  have hp := h.aligned p (by simp)
  have hq' := h.aligned q (by simp [hq])
  simp only [MBUFSIZE] at hp hq' ⊢
  omega

theorem Ordered.before (h : Ordered g (l₁ ++ p :: l₂)) (hq : q ∈ l₁) :
    g.offs q + MBUFSIZE ≤ g.offs p := by
  have hlt : g.offs q < g.offs p :=
    (List.pairwise_append.mp h.ascending).2.2 q hq p (by simp)
  have hp := h.aligned p (by simp)
  have hq' := h.aligned q (by simp [hq])
  simp only [MBUFSIZE] at hp hq' ⊢
  omega

/-- The block of a position. -/
theorem align_bounds (pos : Int) :
    wBufAlignFileOffs pos % MBUFSIZE = 0 ∧ wBufAlignFileOffs pos ≤ pos ∧
      pos < wBufAlignFileOffs pos + MBUFSIZE := by
  simp only [wBufAlignFileOffs, MBUFSIZE]
  omega

theorem align_bounded {pos : Int} (hlow : -POSMAX ≤ pos) (hhigh : pos < POSMAX) :
    -POSMAX ≤ wBufAlignFileOffs pos ∧ wBufAlignFileOffs pos + MBUFSIZE ≤ POSMAX := by
  simp only [POSMAX, wBufAlignFileOffs, MBUFSIZE] at *
  omega

theorem Ordered.singleton (haligned : g.offs p % MBUFSIZE = 0)
    (hbounded : -POSMAX ≤ g.offs p ∧ g.offs p + MBUFSIZE ≤ POSMAX) : Ordered g [p] :=
  ⟨by simpa using haligned, by simpa using hbounded, List.pairwise_singleton _ _⟩

theorem Ordered.cons (h : Ordered g l) (haligned : g.offs p % MBUFSIZE = 0)
    (hbounded : -POSMAX ≤ g.offs p ∧ g.offs p + MBUFSIZE ≤ POSMAX)
    (hlt : ∀ q ∈ l, g.offs p < g.offs q) : Ordered g (p :: l) :=
  ⟨List.forall_mem_cons.mpr ⟨haligned, h.aligned⟩, List.forall_mem_cons.mpr ⟨hbounded, h.bounded⟩,
    List.pairwise_cons.mpr ⟨hlt, h.ascending⟩⟩

theorem Ordered.insert {new : Ptr} (h : Ordered g (l₁ ++ p :: l₂))
    (haligned : g.offs new % MBUFSIZE = 0)
    (hbounded : -POSMAX ≤ g.offs new ∧ g.offs new + MBUFSIZE ≤ POSMAX)
    (hlt : g.offs p < g.offs new) (hgt : ∀ q ∈ l₂, g.offs new < g.offs q) :
    Ordered g (l₁ ++ p :: new :: l₂) := by
  have hmem : ∀ {P : Ptr → Prop}, P new → (∀ r ∈ l₁ ++ p :: l₂, P r) →
      ∀ r ∈ l₁ ++ p :: new :: l₂, P r := by
    intro P hnew hall r hr
    simp only [List.mem_append, List.mem_cons] at hr hall
    rcases hr with hr | rfl | rfl | hr
    · exact hall r (.inl hr)
    · exact hall r (.inr (.inl rfl))
    · exact hnew
    · exact hall r (.inr (.inr hr))
  refine ⟨hmem haligned h.aligned, hmem hbounded h.bounded, ?_⟩
  obtain ⟨h1, h2, h3⟩ := List.pairwise_append.mp h.ascending
  obtain ⟨h4, h5⟩ := List.pairwise_cons.mp h2
  refine List.pairwise_append.mpr ⟨h1, ?_, ?_⟩
  · refine List.pairwise_cons.mpr ⟨?_, List.pairwise_cons.mpr ⟨hgt, h5⟩⟩
    exact List.forall_mem_cons.mpr ⟨hlt, h4⟩
  · intro r hr
    have hrp := h3 r hr p (by simp)
    refine List.forall_mem_cons.mpr ⟨hrp, List.forall_mem_cons.mpr ⟨Int.lt_trans hrp hlt, ?_⟩⟩
    exact fun q hq => h3 r hr q (by simp [hq])

theorem long_offs (h : Ordered g l) (hp : p ∈ l) :
    long (g.offs p + MBUFSIZE) = g.offs p + MBUFSIZE := by
  have := h.bounded p hp
  refine long_of_isLong ?_
  simp only [IsLong, POSMAX, MBUFSIZE] at *
  omega

theorem long_offs_pred (h : Ordered g l) (hp : p ∈ l) :
    long (g.offs p + MBUFSIZE - 1) = g.offs p + MBUFSIZE - 1 := by
  have := h.bounded p hp
  refine long_of_isLong ?_
  simp only [IsLong, POSMAX, MBUFSIZE] at *
  omega

end Lists

/-- The chain `l` in order, with normal tables, and not too long. -/
structure Tidy (s : WState) (l : List Ptr) : Prop where
  ordered : Ordered s.pool l
  normal : ∀ p ∈ l, Normal 0 (MBUFSIZE - 1) (s.pool.blk p).info
  len : (l.length : Int) ≤ s.wbc.wbcWBufsMax

/-- Every buffer of the chain `l` but `o` has been written to. -/
def UsedBut (s : WState) (l : List Ptr) (o : Option Ptr) : Prop :=
  ∀ p ∈ l, (s.pool.blk p).info = [] → o = some p

/-- The position `WBufWrite` is entered with. -/
structure Positioned (s : WState) (l : List Ptr) (p : Ptr) : Prop where
  posData : s.wbc.wbcPosData = some p
  le : s.pool.offs p ≤ s.wbc.wbcFilePos
  mem : p ∈ l
  behind : ∀ q ∈ l, s.pool.offs p < s.pool.offs q →
    s.wbc.wbcFilePos < s.pool.offs q + MBUFSIZE
  used : UsedBut s l (if s.wbc.wbcFilePos < s.pool.offs p + MBUFSIZE then some p else none)

/-- The bytes still to write end before the end of the range. -/
structure InRange (s : WState) (num : Int) : Prop where
  low : -POSMAX ≤ s.wbc.wbcFilePos
  high : s.wbc.wbcFilePos + num ≤ POSMAX

section Steps
variable {efh : EFH} {s s' : WState} {l fr : List Ptr} {p : Ptr} {buf : Nat → UInt8} {num : Int}

/-- What the buffer to fill is. -/
structure Aimed (s : WState) (l : List Ptr) (q : Ptr) : Prop where
  tidy : Tidy s l
  used : UsedBut s l (some q)
  mem : q ∈ l
  le : s.pool.offs q ≤ s.wbc.wbcFilePos
  lt : s.wbc.wbcFilePos < s.pool.offs q + MBUFSIZE

theorem Placed.aligned {pos : Int} {l' fr' : List Ptr} (h : Placed efh s l fr pos s' p l' fr') :
    s'.pool.offs p = wBufAlignFileOffs pos := h.offs

/-- A new buffer alone in the chain. -/
theorem Placed.aimed {pos : Int} {fr' : List Ptr} (h : Placed efh s l fr pos s' p [p] fr')
    (hpos : s'.wbc.wbcFilePos = pos) (hlow : -POSMAX ≤ pos) (hhigh : pos < POSMAX)
    (hmax : 1 ≤ s.wbc.wbcWBufsMax) : Aimed s' [p] p := by
  obtain ⟨hal, hle, hlt⟩ := align_bounds pos
  have hoffs := h.aligned
  refine ⟨⟨Ordered.singleton ?_ ?_, ?_, ?_⟩, ?_, by simp, ?_, ?_⟩
  · rw [hoffs]; exact hal
  · rw [hoffs]; exact align_bounded hlow hhigh
  · intro q hq
    obtain rfl := List.mem_singleton.mp hq
    rw [h.info]
    trivial
  · have := h.moved.max
    simp only [List.length_singleton]
    omega
  · intro q hq _
    rw [List.mem_singleton.mp hq]
  · rw [hoffs, hpos]; exact hle
  · rw [hoffs, hpos]; exact hlt

/-- Which buffer `WBufWrite` fills. -/
theorem TargetEnds.aimed {q : Ptr} {s₁ : WState} {l' fr' : List Ptr}
    (ht : TargetEnds efh s l fr p (.fill q) s₁ l' fr') (h : Owns s ⟨l, [], fr⟩)
    (htidy : Tidy s l) (hat : Positioned s l p) (hrange : InRange s num) (hnum : 0 < num)
    (hmax : 1 ≤ s.wbc.wbcWBufsMax) : Aimed s₁ l' q := by
  have hp := hat.mem
  have hhigh : s.wbc.wbcFilePos < POSMAX := by
    have := hrange.high
    omega
  cases ht with
  | here inside =>
      rw [long_offs htidy.ordered hp] at inside
      have hused := hat.used
      rw [if_pos inside] at hused
      exact ⟨htidy, hused, hp, hat.le, inside⟩
  | next past covers =>
      rw [long_offs htidy.ordered hp] at past
      obtain ⟨hn, hle, hlt⟩ := coveringNext_eq_some.mp covers
      have hq := h.next_mem hp hn
      rw [long_offs_pred htidy.ordered hq] at hlt
      have hused := hat.used
      rw [if_neg (by omega)] at hused
      refine ⟨htidy, fun r hr hnil => ?_, hq, hle, by omega⟩
      exact absurd (hused r hr hnil) (by simp)
  | @fresh _ new l₁ l₂ fr' room past gap split placed new_notMem srv =>
      rw [long_offs htidy.ordered hp] at past
      subst split
      obtain ⟨hal, hle, hlt⟩ := align_bounds s.wbc.wbcFilePos
      have hoffs := placed.aligned
      have hne : ∀ r ∈ l₁ ++ p :: l₂, r ≠ q := fun r hr heq => new_notMem (heq ▸ hr)
      have hblk : ∀ r ∈ l₁ ++ p :: l₂, s₁.pool.blk r = s.pool.blk r := by
        intro r hr
        refine placed.others r ?_ (hne r hr)
        simp only [List.mem_append, List.mem_cons] at hr ⊢
        tauto
      have hsame : ∀ r ∈ l₁ ++ p :: l₂, s₁.pool.offs r = s.pool.offs r := fun r hr =>
        congrArg Block.fileOffs (hblk r hr)
      have hused := hat.used
      rw [if_neg (by omega)] at hused
      have hgt : ∀ r ∈ l₂, s.wbc.wbcFilePos < s.pool.offs r := by
        intro r hr
        cases l₂ with
        | nil => simp at hr
        | cons r₀ l₂ =>
            have hr₀ : r₀ ∈ l₁ ++ p :: r₀ :: l₂ := by simp
            have hlast := hat.behind r₀ hr₀ (by
              have := htidy.ordered.after (q := r₀) (by simp)
              simp only [MBUFSIZE] at this
              omega)
            have hfirst : s.wbc.wbcFilePos < s.pool.offs r₀ := by
              by_contra hcov
              have hcovers : coveringNext s.pool.wbh (s.pool.wbh p) s.wbc.wbcFilePos = some r₀ := by
                refine coveringNext_eq_some.mpr ⟨h.chain.next_head, by omega, ?_⟩
                rw [long_offs_pred htidy.ordered hr₀]
                omega
              rw [gap] at hcovers
              cases hcovers
            rcases List.mem_cons.mp hr with rfl | hr
            · exact hfirst
            · have hsplit : l₁ ++ p :: r₀ :: l₂ = (l₁ ++ [p]) ++ r₀ :: l₂ := by simp
              have := (hsplit ▸ htidy.ordered).after hr
              simp only [MBUFSIZE] at this
              omega
      have hbounded := align_bounded hrange.low hhigh
      refine ⟨⟨(htidy.ordered.congr hsame).insert (by rw [hoffs]; exact hal)
        (by rw [hoffs]; exact hbounded) ?_ ?_, ?_, ?_⟩, ?_, by simp, ?_, ?_⟩
      · have hpal := htidy.ordered.aligned p hp
        rw [hoffs, hsame p hp]
        simp only [MBUFSIZE] at *
        omega
      · intro r hr
        rw [hoffs, hsame r (by simp [hr])]
        have := hgt r hr
        omega
      · intro r hr
        by_cases hrq : r = q
        · rw [hrq, placed.info]
          trivial
        · have hr' : r ∈ l₁ ++ p :: l₂ := by
            simp only [List.mem_append, List.mem_cons] at hr ⊢
            tauto
          rw [hblk r hr']
          exact htidy.normal r hr'
      · have hused' := h.used
        have hmaxeq := placed.moved.max
        simp only [wBufCacheFull] at room
        simp only [List.length_append, List.length_cons] at hused' ⊢
        omega
      · intro r hr hnil
        by_cases hrq : r = q
        · rw [hrq]
        · have hr' : r ∈ l₁ ++ p :: l₂ := by
            simp only [List.mem_append, List.mem_cons] at hr ⊢
            tauto
          rw [hblk r hr'] at hnil
          exact absurd (hused r hr' hnil) (by simp)
      · rw [hoffs, placed.filePos]; exact hle
      · rw [hoffs, placed.filePos]; exact hlt
  | flushed placed file =>
      exact placed.aimed placed.filePos hrange.low hhigh hmax

theorem Tidy.nil (hmax : 0 ≤ s.wbc.wbcWBufsMax) : Tidy s [] :=
  ⟨Ordered.nil _, by simp, by simpa using hmax⟩

theorem UsedBut.nil (s : WState) (o : Option Ptr) : UsedBut s [] o := fun _ hp => by simp at hp

theorem Aimed.inBuf {q : Ptr} (h : Aimed s l q) : 0 ≤ s.inBuf q ∧ s.inBuf q < MBUFSIZE := by
  have h1 := h.le
  have h2 := h.lt
  simp only [WState.inBuf]
  omega

theorem Aimed.fits {q : Ptr} (h : Aimed s l q) (hnum : 0 < num) :
    0 < s.fits q num ∧ s.fits q num ≤ num ∧ s.inBuf q + s.fits q num ≤ MBUFSIZE ∧
      (s.fits q num < num → s.inBuf q + s.fits q num = MBUFSIZE) := by
  have hin := h.inBuf
  simp only [WState.fits]
  omega

theorem filled_filePos (buf : Nat → UInt8) (q : Ptr) (hrange : InRange s num)
    {cnt : Int} (h0 : 0 ≤ cnt)
    (hle : cnt ≤ num) :
    (s.filled q buf cnt).wbc.wbcFilePos = s.wbc.wbcFilePos + cnt := by
  have hlow := hrange.low
  have hhigh := hrange.high
  refine long_of_isLong ?_
  simp only [IsLong, POSMAX] at *
  omega

@[simp] theorem filled_offs (s : WState) (p q : Ptr) (buf : Nat → UInt8) (cnt : Int) :
    (s.filled p buf cnt).pool.offs q = s.pool.offs q := by
  by_cases hq : q = p
  · subst hq
    exact congrArg Block.fileOffs (filled_blk s q buf cnt)
  · simp only [Pool.offs, Pool.wbh_update_ne (filled_wbh s p buf cnt) hq]

/-- Filling the buffer aimed at keeps the order and leaves no buffer unused. -/
theorem Aimed.filled {q : Ptr} (h : Aimed s l q) (howns : Owns s ⟨l, [], fr⟩) (hnum : 0 < num)
    (buf : Nat → UInt8) : Tidy (s.filled q buf (s.fits q num)) l ∧
      UsedBut (s.filled q buf (s.fits q num)) l none := by
  obtain ⟨h0, hle⟩ := h.inBuf
  obtain ⟨hpos, -, hfit, -⟩ := h.fits hnum
  have hnormal := h.tidy.normal q h.mem
  have hne : ∀ r ∈ l, r ≠ q → (s.filled q buf (s.fits q num)).pool.blk r = s.pool.blk r :=
    fun r hr hrq => howns.filled_blk_ne h.mem hr hrq
  refine ⟨⟨h.tidy.ordered.congr fun r _ => filled_offs s q r buf _, ?_, h.tidy.len⟩, ?_⟩
  · intro r hr
    by_cases hrq : r = q
    · subst hrq
      rw [filled_blk]
      exact (wBufUpdateInfo_spec hnormal h0 (by omega) (by omega)).1
    · rw [hne r hr hrq]
      exact h.tidy.normal r hr
  · intro r hr hnil
    by_cases hrq : r = q
    · subst hrq
      rw [filled_blk] at hnil
      exact absurd hnil (wBufUpdateInfo_ne_nil hnormal h0 (by omega) (by omega))
    · rw [hne r hr hrq] at hnil
      exact absurd (Option.some.inj (h.used r hr hnil)).symm hrq

/-- A call of `WBufWrite` that moves on to the next header takes all that is left. -/
def NextLast (s : WState) (num : Int) : Prop :=
  ∀ p, s.wbc.wbcPosData = some p → ∀ n,
    wBufHdrLastPos (s.pool.wbh p) ≤ s.wbc.wbcFilePos →
    coveringNext s.pool.wbh (s.pool.wbh p) s.wbc.wbcFilePos = some n →
    s.inBuf n + num ≤ MBUFSIZE

instance (s : WState) (num : Int) : Decidable (NextLast s num) :=
  decidable_of_iff
    (∀ p ∈ s.wbc.wbcPosData, ∀ n ∈ coveringNext s.pool.wbh (s.pool.wbh p) s.wbc.wbcFilePos,
      wBufHdrLastPos (s.pool.wbh p) ≤ s.wbc.wbcFilePos → s.inBuf n + num ≤ MBUFSIZE)
    ⟨fun h p hp n hpast hn => h p hp n hn hpast, fun h p hp n hn hpast => h p hp n hpast hn⟩

/-- A cluster between two calls of `WBufWrite`, with `num` bytes left to write. -/
structure Between (fh : Fh) (s₀ : WState) (v₀ : Hold) (s : WState) (num : Int) : Prop where
  nonneg : 0 ≤ num
  range : InRange s num
  max : 1 ≤ s.wbc.wbcWBufsMax
  chain : ∃ l fr, Owns s ⟨l, [], fr⟩ ∧ Moved fh s₀ v₀ s ⟨l, [], fr⟩ ∧ Tidy s l ∧
    (num = 0 → UsedBut s l none) ∧ (num ≠ 0 → ∃ p, Positioned s l p)

/-- A cluster after a cached write. -/
def Tidied (fh : Fh) (s₀ : WState) (v₀ : Hold) (s : WState) : Prop :=
  ∃ l fr, Owns s ⟨l, [], fr⟩ ∧ Moved fh s₀ v₀ s ⟨l, [], fr⟩ ∧ Tidy s l ∧ UsedBut s l none

/-- The position after the buffer `q` has been filled. -/
theorem TargetEnds.positioned {q : Ptr} {s₁ : WState} {l' fr' : List Ptr}
    (ht : TargetEnds efh s l fr p (.fill q) s₁ l' fr') (haim : Aimed s₁ l' q)
    (hat : Positioned s l p) (hlast : NextLast s num) (hrange : InRange s₁ num)
    (hnum : 0 < num) (hleft : num - s₁.fits q num ≠ 0) (buf : Nat → UInt8)
    (hused : UsedBut (s₁.filled q buf (s₁.fits q num)) l' none) :
    Positioned (s₁.filled q buf (s₁.fits q num)) l' q := by
  obtain ⟨hpos, hle, hfit, hfull⟩ := haim.fits hnum
  have hfilePos := filled_filePos buf q hrange (Int.le_of_lt hpos) hle
  have hend : s₁.inBuf q + s₁.fits q num = MBUFSIZE := hfull (by omega)
  have hdata : s₁.wbc.wbcPosData = some q := by
    cases ht with
    | here inside => exact hat.posData
    | next past covers =>
        have := hlast p hat.posData q past covers
        omega
    | fresh room past gap split placed new_notMem srv => exact placed.posData
    | flushed placed file => exact placed.posData
  simp only [WState.inBuf] at hend
  refine ⟨hdata, ?_, haim.mem, ?_, fun r hr hnil => absurd (hused r hr hnil) (by simp)⟩
  · rw [filled_offs, hfilePos]
    have := haim.le
    omega
  · intro r hr hlt
    simp only [filled_offs] at hlt ⊢
    rw [hfilePos]
    obtain ⟨l₁, l₂, rfl⟩ := List.append_of_mem haim.mem
    have hrl : r ∈ l₂ := by
      rcases List.mem_append.mp hr with hr | hr
      · have := haim.tidy.ordered.before hr
        simp only [MBUFSIZE] at this
        omega
      · rcases List.mem_cons.mp hr with rfl | hr
        · omega
        · exact hr
    have := haim.tidy.ordered.after hrl
    simp only [MBUFSIZE] at *
    omega

theorem Between.turn {s₀ : WState} {v₀ : Hold} (h : Between efh.efhNFSFh s₀ v₀ s num)
    (hnum : num ≠ 0) (hroom : TableRoom s num) (hlast : NextLast s num) {r : Ret}
    (hw : wBufWrite efh s buf num = .ok (r, s')) :
    TurnKeeps (fun s _ num => Between efh.efhNFSFh s₀ v₀ s num)
      (fun _ s => Tidied efh.efhNFSFh s₀ v₀ s) buf num r s' := by
  have hpos : 0 < num := by
    have := h.nonneg
    omega
  obtain ⟨l, fr, howns, hmoved, htidy, -, hat⟩ := h.chain
  obtain ⟨p, hat⟩ := hat hnum
  have hmax := h.max
  rcases wBufWrite_cases efh howns hat.posData hat.mem buf num with
    ⟨r', s'', l', fr', hrun, hends⟩ | ⟨q, s₁, l', fr', -, -, hrun⟩
  · rw [hw] at hrun
    obtain ⟨rfl, rfl⟩ : r = r' ∧ s' = s'' := by simpa using hrun
    obtain ⟨howns', hmoved'⟩ := hends.owns howns hat.posData hat.mem
    have hall := hmoved.trans hmoved'
    have hmax' : 1 ≤ s'.wbc.wbcWBufsMax := by
      rw [hmoved'.max]
      exact hmax
    have hempty : l' = [] → Tidied efh.efhNFSFh s₀ v₀ s' := by
      rintro rfl
      exact ⟨[], fr', howns', hall, Tidy.nil (by omega), UsedBut.nil _ _⟩
    cases hends with
    | failed flush => exact hempty rfl
    | fullFailed target inBuf pos full flush => exact hempty rfl
    | @wrote s₁ q r l' fr' target inBuf pos room =>
        have haim := target.aimed howns htidy hat h.range hpos hmax
        obtain ⟨howns₁, -, -, hfp, -⟩ := target.owns howns hat.mem hat.posData
        have hrange₁ : InRange s₁ num := ⟨by rw [hfp]; exact h.range.low, by
          rw [hfp]; exact h.range.high⟩
        obtain ⟨hcnt, hle, -, -⟩ := haim.fits hpos
        obtain ⟨htidy', hused'⟩ := haim.filled howns₁ hpos buf
        have hfilePos := filled_filePos buf q hrange₁ (Int.le_of_lt hcnt) hle
        refine ⟨by omega, ⟨?_, ?_⟩, hmax', l', fr', howns', hall, htidy', fun _ => hused',
          fun hleft => ⟨q, target.positioned haim hat hlast hrange₁ hpos hleft buf hused'⟩⟩
        · have := hrange₁.low
          rw [hfilePos]
          omega
        · have := hrange₁.high
          rw [hfilePos]
          omega
    | @full s₁ s' q r l' fr' target inBuf pos full flush =>
        have hfit := hroom.fits_all howns hat.posData hat.mem target pos full
        have haim := target.aimed howns htidy hat h.range hpos hmax
        obtain ⟨-, -, -, hfp, -⟩ := target.owns howns hat.mem hat.posData
        have hrange₁ : InRange s₁ num := ⟨by rw [hfp]; exact h.range.low, by
          rw [hfp]; exact h.range.high⟩
        obtain ⟨hcnt, hle, -, -⟩ := haim.fits hpos
        have hzero : num - s₁.fits q num = 0 := by
          simp only [WState.fits]
          omega
        have hfilePos := filled_filePos buf q hrange₁ (Int.le_of_lt hcnt) hle
        have hfinal := flush.filePos.trans hfilePos
        refine ⟨by omega, ⟨?_, ?_⟩, hmax', [], _, howns', hall, Tidy.nil (by omega),
          fun _ => UsedBut.nil _ _, fun hne => absurd hzero hne⟩
        · have := hrange₁.low
          rw [hfinal]
          omega
        · have := hrange₁.high
          rw [hfinal]
          omega
  · rw [hw] at hrun
    cases hrun

theorem Tidied.empty {fh : Fh} {v₀ : Hold} {fr' : List Ptr} (howns : Owns s' ⟨[], [], fr'⟩)
    (hmoved : Moved fh s v₀ s' ⟨[], [], fr'⟩) (hmax : 0 ≤ s'.wbc.wbcWBufsMax) :
    Tidied fh s v₀ s' :=
  ⟨[], fr', howns, hmoved, Tidy.nil hmax, UsedBut.nil _ _⟩

/-- The position `WBufSeekAndPrepare` finds. -/
theorem SeekEnds.entered {newPos : Int} {n : Int} {l' fr' : List Ptr}
    (hs : SeekEnds efh s l fr newPos (.done n) s' l' fr') (howns : Owns s ⟨l, [], fr⟩)
    (htidy : Tidy s l) (hused : UsedBut s l none) (hlow : -POSMAX ≤ newPos)
    (hhigh : newPos + num ≤ POSMAX) (hnum : 0 < num) (hmax : 1 ≤ s.wbc.wbcWBufsMax) :
    Between efh.efhNFSFh s ⟨l, [], fr⟩ s' num := by
  obtain ⟨howns', hmoved, -⟩ := hs.owns howns
  have hlt : newPos < POSMAX := by omega
  have hmaxeq := hmoved.max
  have hset : ∀ {p : Ptr}, p ∈ l → s.pool.offs p ≤ newPos →
      (∀ q ∈ l, s.pool.offs p < s.pool.offs q → newPos < s.pool.offs q + MBUFSIZE) →
      s' = (s.setFilePos newPos).setPosData (some p) → l' = l →
        Between efh.efhNFSFh s ⟨l, [], fr⟩ s' num := by
    rintro p hp hle hbehind rfl rfl
    refine ⟨Int.le_of_lt hnum, ⟨hlow, hhigh⟩, hmax, l', fr', howns', hmoved,
      ⟨htidy.ordered, htidy.normal, htidy.len⟩, fun h0 => by omega, fun _ => ⟨p, rfl, hle, hp,
        hbehind, fun r hr hnil => absurd (hused r hr hnil) (by simp)⟩⟩
  have hnew : ∀ {p : Ptr}, Aimed s' l' p → s'.wbc.wbcPosData = some p →
      s'.wbc.wbcFilePos = newPos →
      (∀ q ∈ l', s'.pool.offs p < s'.pool.offs q → newPos < s'.pool.offs q + MBUFSIZE) →
        Between efh.efhNFSFh s ⟨l, [], fr⟩ s' num := by
    intro p haim hpos hfp hbehind
    refine ⟨Int.le_of_lt hnum, ⟨by omega, by omega⟩, by omega, l', fr', howns', hmoved, haim.tidy,
      fun h0 => by omega, fun _ => ⟨p, hpos, haim.le, haim.mem, ?_, ?_⟩⟩
    · rw [hfp]
      exact hbehind
    · rw [if_pos haim.lt]
      exact haim.used
  cases hs with
  | head front ends =>
      cases ends with
      | @fresh s' p fr' room placed new srv =>
          obtain ⟨hal, hale, halt⟩ := align_bounds newPos
          have hoffs := placed.aligned
          have hblk : ∀ r ∈ l, s'.pool.blk r = s.pool.blk r := fun r hr =>
            placed.others r (List.mem_cons_of_mem _ hr) fun heq => new (heq ▸ hr)
          have hsame : ∀ r ∈ l, s'.pool.offs r = s.pool.offs r := fun r hr =>
            congrArg Block.fileOffs (hblk r hr)
          have hfront : ∀ r ∈ l, newPos < s.pool.offs r := by
            intro r hr
            cases l with
            | nil => simp at hr
            | cons r₀ l =>
                have hr₀ := front r₀ rfl
                rcases List.mem_cons.mp hr with rfl | hr
                · exact hr₀
                · have hord : Ordered s.pool ([] ++ r₀ :: l) := htidy.ordered
                  have := hord.after hr
                  simp only [MBUFSIZE] at this
                  omega
          have hbounded := align_bounded hlow hlt
          refine hnew (p := p) ⟨⟨(htidy.ordered.congr hsame).cons (by rw [hoffs]; exact hal)
            (by rw [hoffs]; exact hbounded) ?_, ?_, ?_⟩, ?_, by simp, ?_, ?_⟩ placed.posData
            placed.filePos ?_
          · intro r hr
            rw [hoffs, hsame r hr]
            have := hfront r hr
            omega
          · intro r hr
            rcases List.mem_cons.mp hr with rfl | hr
            · rw [placed.info]
              trivial
            · rw [hblk r hr]
              exact htidy.normal r hr
          · have hcount := howns.used
            simp only [wBufCacheFull, WState.setFilePos] at room
            simp only [List.length_cons] at hcount ⊢
            omega
          · intro r hr hnil
            rcases List.mem_cons.mp hr with rfl | hr
            · rfl
            · rw [hblk r hr] at hnil
              exact absurd (hused r hr hnil) (by simp)
          · rw [hoffs, placed.filePos]
            exact hale
          · rw [hoffs, placed.filePos]
            exact halt
          · intro r hr hlt'
            rcases List.mem_cons.mp hr with rfl | hr
            · omega
            · rw [hsame r hr]
              have := hfront r hr
              simp only [MBUFSIZE]
              omega
      | @flushed s' p fr' placed file =>
          refine hnew (placed.aimed placed.filePos hlow hlt (by exact hmax)) placed.posData
            placed.filePos ?_
          intro r hr hlt'
          obtain rfl := List.mem_singleton.mp hr
          omega
  | @tail p last behind =>
      have hp := List.mem_of_getLast? last
      rw [long_offs htidy.ordered hp] at behind
      refine hset hp (by simp only [MBUFSIZE] at behind; omega) ?_ rfl rfl
      intro q hq hlt'
      obtain ⟨l₀, rfl⟩ : ∃ l₀, l = l₀ ++ [p] := by
        exact (List.getLast?_eq_some_iff.mp last)
      rcases List.mem_append.mp hq with hq | hq
      · have := htidy.ordered.before hq
        simp only [MBUFSIZE] at this
        omega
      · obtain rfl := List.mem_singleton.mp hq
        omega
  | @inside p l₁ l₂ split le reach =>
      have hp : p ∈ l := by simp [split]
      have hlong : long (newPos - MBUFSIZE) = newPos - MBUFSIZE := by
        refine long_of_isLong ?_
        simp only [IsLong, POSMAX, MBUFSIZE] at *
        omega
      rw [hlong] at reach
      refine hset hp le ?_ rfl rfl
      intro q hq hlt'
      have hpal := htidy.ordered.aligned p hp
      have hqal := htidy.ordered.aligned q hq
      simp only [MBUFSIZE] at *
      omega
  | @between p q l₁ l₂ split before behind =>
      have hp : p ∈ l := by simp [split]
      have hlong : long (newPos - MBUFSIZE) = newPos - MBUFSIZE := by
        refine long_of_isLong ?_
        simp only [IsLong, POSMAX, MBUFSIZE] at *
        omega
      rw [hlong] at before
      refine hset hp (by simp only [MBUFSIZE] at before; omega) ?_ rfl rfl
      intro r hr hlt'
      rw [split] at hr
      have hord := htidy.ordered
      rw [split] at hord
      have hord' : Ordered s.pool ((l₁ ++ [p]) ++ q :: l₂) := by simpa using hord
      rcases List.mem_append.mp hr with hr | hr
      · have := hord.before hr
        simp only [MBUFSIZE] at this
        omega
      · rcases List.mem_cons.mp hr with rfl | hr
        · omega
        · rcases List.mem_cons.mp hr with rfl | hr
          · simp only [MBUFSIZE]
            omega
          · have := hord'.after hr
            simp only [MBUFSIZE] at this ⊢
            omega

theorem SeekEnds.tidied {newPos : Int} {r : Ret} {l' fr' : List Ptr}
    (hs : SeekEnds efh s l fr newPos r s' l' fr') (howns : Owns s ⟨l, [], fr⟩)
    (hmax : 0 ≤ s.wbc.wbcWBufsMax) (hr : ∀ n, r ≠ .done n) :
    Tidied efh.efhNFSFh s ⟨l, [], fr⟩ s' := by
  obtain ⟨howns', hmoved, -⟩ := hs.owns howns
  have hmaxeq := hmoved.max
  cases hs with
  | head front ends =>
      cases ends with
      | failed flush => exact .empty howns' hmoved (by omega)
      | noMem empty none =>
          subst empty
          exact .empty howns' hmoved (by omega)
      | fresh room placed new srv => exact absurd rfl (hr 1)
      | flushed placed file => exact absurd rfl (hr 1)
  | tail last behind => exact absurd rfl (hr 1)
  | inside split le reach => exact absurd rfl (hr 1)
  | between split before behind => exact absurd rfl (hr 1)

end Steps

/-- The calls of `WBufWrite` that a cached write makes leave the position right, and the
write does not reach the end of the range. -/
structure OrderlyWrite (s : FState) (buf : Nat → UInt8) (num : Int) : Prop where
  entries : ∀ x ∈ writeEntries s buf num, TableRoom x.state x.num ∧ NextLast x.state x.num
  range : ∀ wbc, s.efh.efhWBuf = some wbc → ¬ goesPast s.pool wbc num →
    -POSMAX ≤ s.efh.efhFilePos ∧ s.efh.efhFilePos + num ≤ POSMAX ∧ num ≤ POSMAX

instance (s : FState) (buf : Nat → UInt8) (num : Int) : Decidable (OrderlyWrite s buf num) :=
  decidable_of_iff
    ((∀ x ∈ writeEntries s buf num, TableRoom x.state x.num ∧ NextLast x.state x.num) ∧
      ∀ wbc ∈ s.efh.efhWBuf, ¬ goesPast s.pool wbc num →
        -POSMAX ≤ s.efh.efhFilePos ∧ s.efh.efhFilePos + num ≤ POSMAX ∧ num ≤ POSMAX)
    ⟨fun h => ⟨h.1, h.2⟩, fun h => ⟨h.entries, h.range⟩⟩

section Calls
variable {s s' : FState} {l fr : List Ptr} {buf : Nat → UInt8} {num : Int}

/-- A write that may be cached needs at least one buffer. -/
theorem not_goesPast_max {g : Pool} {wbc : WBufCluster} (h : ¬ goesPast g wbc num)
    (hnum : 0 < num) (hle : num ≤ POSMAX) : 1 ≤ wbc.wbcWBufsMax := by
  have hlong : long (num + MBUFSIZE - 1) = num + MBUFSIZE - 1 := by
    refine long_of_isLong ?_
    simp only [IsLong, POSMAX, MBUFSIZE] at *
    omega
  have hneed : 1 ≤ (num + MBUFSIZE - 1).tdiv MBUFSIZE := by
    simp only [MBUFSIZE]
    rw [Int.tdiv_eq_ediv_of_nonneg (by omega)]
    omega
  simp only [goesPast, hlong, not_or] at h
  omega

theorem pastKeeps_tidied (s₀ : WState) (v₀ : Hold) (hmax : 0 ≤ s₀.wbc.wbcWBufsMax) :
    PastKeeps s.efh (Tidied s.efh.efhNFSFh s₀ v₀) := by
  rintro s₁ buf num r s' ⟨l₁, fr₁, howns, hmoved, -, -⟩ hsame hrun
  obtain ⟨⟨fr', howns', hmoved'⟩, hsame'⟩ := KeptOwned.past ⟨l₁, fr₁, howns, hmoved⟩ hsame hrun
  have := hmoved'.max
  exact ⟨.empty howns' hmoved' (by omega), hsame'⟩

/-- How the search for the first position ends. -/
theorem seek_starts (h : Owns s.w ⟨l, [], fr⟩) (htidy : Tidy s.w l) (hused : UsedBut s.w l none)
    (hnum : 0 < num) (hok : OrderlyWrite s buf num) :
    SeekStarts s (fun w _ num => Between s.efh.efhNFSFh s.w ⟨l, [], fr⟩ w num)
      (Tidied s.efh.efhNFSFh s.w ⟨l, [], fr⟩) buf num := by
  intro wbc r w hwbuf hgo hseek
  obtain ⟨hlow, hhigh, hle⟩ := hok.range wbc hwbuf hgo
  obtain ⟨l₁, fr₁, hends⟩ := wBufSeekAndPrepare_ok s.efh h hseek
  have hmax : 0 ≤ s.w.wbc.wbcWBufsMax := by
    have := htidy.len
    omega
  cases r with
  | failed res2 => exact hends.tidied h hmax (by simp)
  | noMem => exact hends.tidied h hmax (by simp)
  | done n =>
      have hone := not_goesPast_max hgo hnum hle
      rw [← show s.w.wbc = wbc from congrArg WState.wbc (FState.w_eq hwbuf)] at hone
      exact hends.entered h htidy hused hlow hhigh hnum hone

/-- What every call of `WBufWrite` finds. -/
theorem writeEntries_between (h : Owns s.w ⟨l, [], fr⟩) (htidy : Tidy s.w l)
    (hused : UsedBut s.w l none) (hnum : 0 < num) (hok : OrderlyWrite s buf num) :
    ∀ x ∈ writeEntries s buf num,
      Between s.efh.efhNFSFh s.w ⟨l, [], fr⟩ x.state x.num ∧ x.num ≠ 0 :=
  writeEntries_rule (C := fun w _ num => TableRoom w num ∧ NextLast w num)
    (seek_starts h htidy hused hnum hok)
    (fun _ _ _ _ _ hP hne hC hw => hP.turn hne hC.1 hC.2 hw) hok.entries

/-- A cached write keeps the cluster in order. -/
theorem wcWriteCache_tidied (h : Owns s.w ⟨l, [], fr⟩) (htidy : Tidy s.w l)
    (hused : UsedBut s.w l none) (hnum : 0 < num) (hok : OrderlyWrite s buf num) {r : Ret}
    (hrun : wcWriteCache s buf num = .ok (r, s')) :
    Tidied s.efh.efhNFSFh s.w ⟨l, [], fr⟩ s'.w := by
  have hmax : 0 ≤ s.w.wbc.wbcWBufsMax := by
    have := htidy.len
    omega
  refine (wcWriteCache_rule (C := fun w _ num => TableRoom w num ∧ NextLast w num)
    ⟨l, fr, h, Moved.refl _ _ _, htidy, hused⟩ (pastKeeps_tidied _ _ hmax)
    (seek_starts h htidy hused hnum hok) (fun w _ hP => ?_)
    (fun w buf num r w' hP hne hC hw => hP.turn hne hC.1 hC.2 hw) hok.entries hrun).1
  obtain ⟨l₂, fr₂, howns₂, hmoved₂, htidy₂, hused₂, -⟩ := hP.chain
  exact ⟨l₂, fr₂, howns₂, hmoved₂, htidy₂, hused₂ rfl⟩

end Calls

end Anfs.Buf
