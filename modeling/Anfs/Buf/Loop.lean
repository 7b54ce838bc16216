import Anfs.Buf.Fill

/-!
# The loop of a cached write

The loop is followed through the states in which it enters `WBufWrite`. Headers and
buffers stay accounted for as long as no call empties the cluster, because the interval
table of the position is full, while bytes of the write are left: the position would point
to a header that has been given back.
-/
namespace Anfs.Buf
open Anfs.Lib Anfs.Nfs

theorem ok_of_bind {α β : Type} {x : Except Fault α} {f : α → Except Fault β} {b : β}
    (h : x >>= f = .ok b) : ∃ a, x = .ok a ∧ f a = .ok b := by
  cases x with
  | error e => cases h
  | ok a => exact ⟨a, rfl, h⟩

/-- A call of `WBufWrite`: the state, and the bytes to write. -/
structure Entry where
  state : WState
  buf : Nat → UInt8
  num : Int

/-- The calls of `WBufWrite` the loop makes. -/
def loopEntries (efh : EFH) : Nat → WState → (Nat → UInt8) → Int → List Entry
  | n, s, buf, num =>
    if num = 0 then []
    else
      match n with
      | 0 => []
      | n + 1 =>
          ⟨s, buf, num⟩ ::
            match wBufWrite efh s buf num with
            | .ok (.done cnt, s) => loopEntries efh n s (fun i => buf (cnt.toNat + i)) (num - cnt)
            | _ => []

section Rule
variable {efh : EFH} {P C : WState → (Nat → UInt8) → Int → Prop} {Q : LoopEnd → WState → Prop}

/-- What a turn has to establish. -/
def TurnKeeps (P : WState → (Nat → UInt8) → Int → Prop) (Q : LoopEnd → WState → Prop)
    (buf : Nat → UInt8) (num : Int) : Ret → WState → Prop
  | .failed res2, s' => Q (.failed res2) s'
  | .noMem, s' => Q (.noMem buf num) s'
  | .done cnt, s' => P s' (fun i => buf (cnt.toNat + i)) (num - cnt)

/-- The invariant rule of the loop, for loops whose calls all meet `C`. -/
theorem wBufWriteLoop_rule (hdone : ∀ s buf, P s buf 0 → Q .done s)
    (hturn : ∀ s buf num r s', P s buf num → num ≠ 0 → C s buf num →
      wBufWrite efh s buf num = .ok (r, s') → TurnKeeps P Q buf num r s')
    {n : Nat} {s s' : WState} {buf : Nat → UInt8} {num : Int} {e : LoopEnd} (hP : P s buf num)
    (hC : ∀ x ∈ loopEntries efh n s buf num, C x.state x.buf x.num)
    (hrun : wBufWriteLoop efh n s buf num = .ok (e, s')) : Q e s' := by
  induction n generalizing s buf num with
  | zero =>
      unfold wBufWriteLoop at hrun
      split at hrun
      · rename_i hnum
        subst hnum
        cases hrun
        exact hdone _ _ hP
      · cases hrun
  | succ n ih =>
      unfold wBufWriteLoop at hrun
      unfold loopEntries at hC
      by_cases hnum : num = 0
      · rw [if_pos hnum] at hrun
        subst hnum
        cases hrun
        exact hdone _ _ hP
      · rw [if_neg hnum] at hrun hC
        simp only [List.forall_mem_cons] at hC
        cases hw : wBufWrite efh s buf num with
        | error f => simp [hw, bind, Except.bind] at hrun
        | ok x =>
            obtain ⟨r, s₁⟩ := x
            have hkeep := hturn s buf num r s₁ hP hnum hC.1 hw
            simp only [hw, bind, Except.bind] at hrun
            cases r with
            | failed res2 => cases hrun; exact hkeep
            | noMem => cases hrun; exact hkeep
            | done cnt =>
                rw [hw] at hC
                exact ih hkeep hC.2 hrun

/-- The invariant holds at every call. -/
theorem loopEntries_rule
    (hturn : ∀ s buf num cnt s', P s buf num → num ≠ 0 → C s buf num →
      wBufWrite efh s buf num = .ok (.done cnt, s') →
        P s' (fun i => buf (cnt.toNat + i)) (num - cnt))
    {n : Nat} {s : WState} {buf : Nat → UInt8} {num : Int} (hP : P s buf num)
    (hC : ∀ x ∈ loopEntries efh n s buf num, C x.state x.buf x.num) :
    ∀ x ∈ loopEntries efh n s buf num, P x.state x.buf x.num ∧ x.num ≠ 0 := by
  induction n generalizing s buf num with
  | zero =>
      unfold loopEntries
      split <;> simp
  | succ n ih =>
      unfold loopEntries at hC ⊢
      by_cases hnum : num = 0
      · simp [hnum]
      · rw [if_neg hnum] at hC ⊢
        simp only [List.forall_mem_cons] at hC ⊢
        refine ⟨⟨hP, hnum⟩, ?_⟩
        split
        · rename_i cnt s₁ hw
          rw [hw] at hC
          exact ih (hturn s buf num cnt s₁ hP hnum hC.1 hw) hC.2
        · simp

/-- The loop ends when every turn writes something. -/
theorem wBufWriteLoop_total
    (hturn : ∀ s buf num, P s buf num → 0 < num → C s buf num →
      ∃ r s', wBufWrite efh s buf num = .ok (r, s') ∧ ∀ cnt, r = .done cnt →
        0 < cnt ∧ cnt ≤ num ∧ P s' (fun i => buf (cnt.toNat + i)) (num - cnt))
    {n : Nat} {s : WState} {buf : Nat → UInt8} {num : Int} (hP : P s buf num) (hnum : 0 ≤ num)
    (hn : num ≤ n) (hC : ∀ x ∈ loopEntries efh n s buf num, C x.state x.buf x.num) :
    ∃ e s', wBufWriteLoop efh n s buf num = .ok (e, s') := by
  induction n generalizing s buf num with
  | zero =>
      unfold wBufWriteLoop
      rw [if_pos (by omega)]
      exact ⟨_, _, rfl⟩
  | succ n ih =>
      unfold wBufWriteLoop
      unfold loopEntries at hC
      by_cases h0 : num = 0
      · rw [if_pos h0]
        exact ⟨_, _, rfl⟩
      · rw [if_neg h0] at hC ⊢
        simp only [List.forall_mem_cons] at hC
        obtain ⟨r, s₁, hw, hr⟩ := hturn s buf num hP (by omega) hC.1
        simp only [hw, bind, Except.bind]
        cases r with
        | failed res2 => exact ⟨_, _, rfl⟩
        | noMem => exact ⟨_, _, rfl⟩
        | done cnt =>
            obtain ⟨hpos, hle, hP'⟩ := hr cnt rfl
            rw [hw] at hC
            exact ih hP' (by omega) (by omega) hC.2

/-- The loop makes no more calls than a variant allows that every turn lowers. -/
theorem loopEntries_length {V : WState → Int → Nat}
    (hturn : ∀ s buf num cnt s', P s buf num → num ≠ 0 → C s buf num →
      wBufWrite efh s buf num = .ok (.done cnt, s') →
        P s' (fun i => buf (cnt.toNat + i)) (num - cnt) ∧ V s' (num - cnt) < V s num)
    (hvar : ∀ s buf num, P s buf num → num ≠ 0 → 0 < V s num)
    {n : Nat} {s : WState} {buf : Nat → UInt8} {num : Int} (hP : P s buf num)
    (hC : ∀ x ∈ loopEntries efh n s buf num, C x.state x.buf x.num) :
    (loopEntries efh n s buf num).length ≤ V s num := by
  induction n generalizing s buf num with
  | zero =>
      unfold loopEntries
      split <;> simp
  | succ n ih =>
      unfold loopEntries at hC ⊢
      by_cases hnum : num = 0
      · simp [hnum]
      · rw [if_neg hnum] at hC ⊢
        simp only [List.forall_mem_cons] at hC
        rw [List.length_cons]
        split
        · rename_i cnt s₁ hw
          rw [hw] at hC
          obtain ⟨hP', hlt⟩ := hturn s buf num cnt s₁ hP hnum hC.1 hw
          have := ih hP' hC.2
          omega
        · exact hvar s buf num hP hnum

end Rule

/-- A call of `WBufWrite` that finds the interval table of the position nearly full takes
all the bytes that are left. -/
def TableRoom (s : WState) (num : Int) : Prop :=
  ∀ p, s.wbc.wbcPosData = some p →
    (s.wbc.wbcFilePos < wBufHdrLastPos (s.pool.wbh p) →
      WBUFHDRINFOSIZE ≤ (wBufUpdateInfo (s.pool.wbh p).wbhInfo (s.inBuf p)
        (s.inBuf p + s.fits p num - 1)).length + 1 →
      s.inBuf p + num ≤ MBUFSIZE) ∧
    ∀ n, wBufHdrLastPos (s.pool.wbh p) ≤ s.wbc.wbcFilePos →
      coveringNext s.pool.wbh (s.pool.wbh p) s.wbc.wbcFilePos = some n →
      WBUFHDRINFOSIZE ≤ (s.pool.wbh p).wbhInfo.length + 1 →
      s.inBuf n + num ≤ MBUFSIZE

instance (s : WState) (num : Int) : Decidable (TableRoom s num) :=
  decidable_of_iff
    (∀ p ∈ s.wbc.wbcPosData,
      (s.wbc.wbcFilePos < wBufHdrLastPos (s.pool.wbh p) →
        WBUFHDRINFOSIZE ≤ (wBufUpdateInfo (s.pool.wbh p).wbhInfo (s.inBuf p)
          (s.inBuf p + s.fits p num - 1)).length + 1 →
        s.inBuf p + num ≤ MBUFSIZE) ∧
      ∀ n ∈ coveringNext s.pool.wbh (s.pool.wbh p) s.wbc.wbcFilePos,
        wBufHdrLastPos (s.pool.wbh p) ≤ s.wbc.wbcFilePos →
        WBUFHDRINFOSIZE ≤ (s.pool.wbh p).wbhInfo.length + 1 →
        s.inBuf n + num ≤ MBUFSIZE)
    ⟨fun h p hp => ⟨(h p hp).1, fun n hpast hn => (h p hp).2 n hn hpast⟩,
      fun h p hp => ⟨(h p hp).1, fun n hn hpast => (h p hp).2 n hpast hn⟩⟩

section Owned
variable {efh : EFH} {s s' : WState} {l fr : List Ptr} {p : Ptr} {buf : Nat → UInt8} {num : Int}

theorem Placed.blk {pos : Int} {l' fr' : List Ptr} {s₁ : WState}
    (h : Placed efh s l fr pos s₁ p l' fr') :
    s₁.pool.blk p = ⟨wBufAlignFileOffs pos, [], (s₁.pool.blk p).bytes⟩ := by
  have h1 := h.offs
  have h2 := h.info
  cases hb : s₁.pool.blk p
  rw [hb] at h1 h2
  simp_all

theorem Linked.next_ne {l₁ l₂ : List Ptr} {g : Pool} {o : Option Ptr} {n : Ptr}
    (h : Linked g.next o (l₁ ++ p :: l₂)) (hnd : (l₁ ++ p :: l₂).Nodup)
    (hn : g.next p = some n) : n ≠ p := by
  rintro rfl
  have hnext := h.next_head
  rw [hn] at hnext
  have hmem := List.mem_of_mem_head? hnext.symm
  simp only [List.nodup_append', List.nodup_cons] at hnd
  exact hnd.2.1.1 hmem

/-- With room in the table the cluster is only emptied by the last call. -/
theorem TableRoom.fits_all (h : Owns s ⟨l, [], fr⟩) (hroom : TableRoom s num)
    (hpos : s.wbc.wbcPosData = some p) (hp : p ∈ l) {s₁ : WState} {q r : Ptr} {l' fr' : List Ptr}
    (ht : TargetEnds efh s l fr p (.fill q) s₁ l' fr') (hr : s₁.wbc.wbcPosData = some r)
    (hfull : WBUFHDRINFOSIZE ≤ ((s₁.filled q buf (s₁.fits q num)).pool.blk r).info.length + 1) :
    s₁.inBuf q + num ≤ MBUFSIZE := by
  cases ht with
  | here inside =>
      obtain rfl : p = r := Option.some.inj (hpos.symm.trans hr)
      rw [filled_blk] at hfull
      exact (hroom p hpos).1 inside hfull
  | next past covers =>
      obtain rfl : p = r := Option.some.inj (hpos.symm.trans hr)
      have hn := coveringNext_eq_some.mp covers
      have hqp : q ≠ p := by
        obtain ⟨l₁, l₂, rfl⟩ := List.append_of_mem hp
        refine Linked.next_ne h.chain ?_ hn.1
        have hnd := h.nodup
        simp only [Hold.hdrs, List.append_nil, List.nodup_append'] at hnd
        simpa only [List.nodup_append'] using hnd.1
      rw [h.filled_blk_ne (h.next_mem hp hn.1) hp (Ne.symm hqp)] at hfull
      exact (hroom p hpos).2 q past covers hfull
  | fresh room past gap split placed new_notMem srv =>
      obtain rfl : q = r := Option.some.inj (placed.posData.symm.trans hr)
      rw [filled_blk, placed.blk] at hfull
      simp [Block.put, wBufUpdateInfo, WBUFHDRINFOSIZE] at hfull
  | flushed placed file =>
      obtain rfl : q = r := Option.some.inj (placed.posData.symm.trans hr)
      rw [filled_blk, placed.blk] at hfull
      simp [Block.put, wBufUpdateInfo, WBUFHDRINFOSIZE] at hfull

/-- Who holds what after a call, whatever it comes to. -/
theorem WriteEnds.owns {r : Ret} {l' fr' : List Ptr}
    (hw : WriteEnds efh s l fr p buf num r s' l' fr')
    (h : Owns s ⟨l, [], fr⟩) (hpos : s.wbc.wbcPosData = some p) (hp : p ∈ l) :
    Owns s' ⟨l', [], fr'⟩ ∧ Moved efh.efhNFSFh s ⟨l, [], fr⟩ s' ⟨l', [], fr'⟩ := by
  cases hw with
  | failed flush => exact ⟨by simpa using flush.owns, by simpa using flush.moved⟩
  | wrote target inBuf pos room =>
      obtain ⟨howns, hmoved, hq, -⟩ := target.owns h hp hpos
      exact ⟨howns.filled _ _ _, hmoved.trans (moved_filled hq)⟩
  | full target inBuf pos full flush =>
      obtain ⟨howns, hmoved, hq, -⟩ := target.owns h hp hpos
      exact ⟨flush.owns, (hmoved.trans (moved_filled hq)).trans flush.moved⟩
  | fullFailed target inBuf pos full flush =>
      obtain ⟨howns, hmoved, hq, -⟩ := target.owns h hp hpos
      exact ⟨flush.owns, (hmoved.trans (moved_filled hq)).trans flush.moved⟩

/-- The loop invariant: everything is accounted for, and while bytes are left the position
is in the chain. -/
def LoopOwned (fh : Fh) (s₀ : WState) (v₀ : Hold) (s : WState) (num : Int) : Prop :=
  0 ≤ num ∧ ∃ l fr, Owns s ⟨l, [], fr⟩ ∧ Moved fh s₀ v₀ s ⟨l, [], fr⟩ ∧
    (num ≠ 0 → ∃ p ∈ l, s.wbc.wbcPosData = some p)

theorem LoopOwned.turn {s₀ : WState} {v₀ : Hold} (h : LoopOwned efh.efhNFSFh s₀ v₀ s num)
    (hnum : num ≠ 0) (hroom : TableRoom s num) {r : Ret}
    (hw : wBufWrite efh s buf num = .ok (r, s')) :
    TurnKeeps (fun s _ num => LoopOwned efh.efhNFSFh s₀ v₀ s num)
      (fun _ s => ∃ num, LoopOwned efh.efhNFSFh s₀ v₀ s num) buf num r s' := by
  obtain ⟨hle, l, fr, howns, hmoved, hpos⟩ := h
  obtain ⟨p, hp, hposp⟩ := hpos hnum
  rcases wBufWrite_cases efh howns hposp hp buf num with
    ⟨r', s'', l', fr', hrun, hends⟩ | ⟨q, s₁, l', fr', -, -, hrun⟩
  · rw [hw] at hrun
    obtain ⟨rfl, rfl⟩ : r = r' ∧ s' = s'' := by simpa using hrun
    obtain ⟨howns', hmoved'⟩ := hends.owns howns hposp hp
    have hall := hmoved.trans hmoved'
    cases hends with
    | failed flush => exact ⟨0, Int.le_refl 0, _, _, howns', hall, fun h0 => absurd rfl h0⟩
    | fullFailed target inBuf pos full flush =>
        exact ⟨0, Int.le_refl 0, _, _, howns', hall, fun h0 => absurd rfl h0⟩
    | @wrote s₁ q r l' fr' target inBuf pos room =>
        obtain ⟨-, -, -, -, r', hr', hpos'⟩ := target.owns howns hp hposp
        refine ⟨?_, _, _, howns', hall, fun _ => ⟨r', hr', hpos'⟩⟩
        simp only [WState.fits]
        omega
    | @full s₁ s' q r l' fr' target inBuf pos full flush =>
        have hfit := hroom.fits_all howns hposp hp target pos full
        have hcnt : num - s₁.fits q num = 0 := by
          simp only [WState.fits]
          omega
        exact ⟨by omega, _, _, howns', hall, fun hne => absurd hcnt hne⟩
  · rw [hw] at hrun
    cases hrun

end Owned

end Anfs.Buf
