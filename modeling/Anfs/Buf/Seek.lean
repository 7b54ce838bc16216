import Anfs.Buf.Place

/-!
# The position of a write in the chain

`WBufSeekAndPrepare` finds the buffer a write starts at, `WBufWrite` goes on from the
position it is given. The lemmas list the ways each of the two can end.
-/
namespace Anfs.Buf
open Anfs.Lib Anfs.Nfs

def Pool.offs (g : Pool) (p : Ptr) : Int := (g.wbh p).wbhFileOffs

@[simp] theorem Pool.blk_fileOffs (g : Pool) (p : Ptr) : (g.blk p).fileOffs = g.offs p := rfl

section Seek
variable {efh : EFH} {s : WState} {l fr : List Ptr}

/-- The search stops at the first header of the list that is not before `pos`. -/
theorem seekLoop_ok {g : Pool} {pos : Int} {n : Nat} {prev prev' : Option Ptr} {p q : Ptr}
    {l : List Ptr} (hl : Linked g.next (some p) l)
    (h : seekLoop g.wbh pos n prev p = .ok (prev', q)) :
    ∃ l₁ l₂, l = l₁ ++ q :: l₂ ∧ (∀ r ∈ l₁, g.offs r < pos) ∧ pos ≤ g.offs q ∧
      prev' = l₁.getLast?.or prev := by
  induction n generalizing prev p l with
  | zero => cases h
  | succ n ih =>
      cases l with
      | nil => cases hl
      | cons p' l =>
          obtain ⟨hp, hl⟩ := hl
          cases hp
          unfold seekLoop at h
          split at h
          · rename_i hlt
            cases hn : (g.wbh p).wbhNext with
            | none =>
                rw [hn] at h
                cases h
            | some r =>
                rw [hn] at h
                rw [show g.next p = some r from hn] at hl
                obtain ⟨l₁, l₂, rfl, hbefore, hq, hprev⟩ := ih hl h
                refine ⟨p :: l₁, l₂, rfl, ?_, hq, ?_⟩
                · intro r hr
                  rcases List.mem_cons.mp hr with rfl | hr
                  · exact hlt
                  · exact hbefore r hr
                · rw [hprev]
                  cases l₁ with
                  | nil => rfl
                  | cons x l₁ =>
                      rw [List.getLast?_cons_cons]
                      cases hx : (x :: l₁).getLast? with
                      | none => simp at hx
                      | some y => rfl
          · rename_i hge
            cases h
            exact ⟨[], l, rfl, by simp, Int.not_lt.mp hge, rfl⟩

/-- The search ends when a header of the list is not before `pos`. -/
theorem seekLoop_total {g : Pool} {pos : Int} {n : Nat} (prev : Option Ptr) {p : Ptr}
    {l : List Ptr} (hl : Linked g.next (some p) l) (hn : l.length ≤ n)
    (hex : ∃ q ∈ l, pos ≤ g.offs q) : ∃ r, seekLoop g.wbh pos n prev p = .ok r := by
  induction n generalizing prev p l with
  | zero =>
      obtain ⟨q, hq, -⟩ := hex
      rw [List.length_eq_zero_iff.mp (Nat.le_zero.mp hn)] at hq
      simp at hq
  | succ n ih =>
      cases l with
      | nil => cases hl
      | cons p' l =>
          obtain ⟨hp, hl⟩ := hl
          cases hp
          unfold seekLoop
          split
          · rename_i hlt
            obtain ⟨q, hq, hle⟩ := hex
            have hql : q ∈ l := by
              rcases List.mem_cons.mp hq with rfl | hq
              · exact absurd hlt (by simpa [Pool.offs] using hle)
              · exact hq
            cases hnext : (g.wbh p).wbhNext with
            | none =>
                rw [show g.next p = none from hnext] at hl
                rw [hl.eq_nil] at hql
                simp at hql
            | some r =>
                rw [show g.next p = some r from hnext] at hl
                exact ih _ hl (by simpa using hn) ⟨q, hql, hle⟩
          · exact ⟨_, rfl⟩

/-- How `WBufSeekAndPrepare` ends for a cluster with the chain `l`. -/
inductive SeekEnds (efh : EFH) (s : WState) (l fr : List Ptr) (newPos : Int) :
    Ret → WState → List Ptr → List Ptr → Prop
  | head {r : Ret} {s' : WState} {l' fr' : List Ptr}
      (front : ∀ p, l.head? = some p → newPos < s.pool.offs p)
      (ends : HeadEnds efh (s.setFilePos newPos) l fr newPos r s' l' fr') :
      SeekEnds efh s l fr newPos r s' l' fr'
  | tail {p : Ptr} (last : l.getLast? = some p)
      (behind : long (s.pool.offs p + MBUFSIZE) ≤ newPos) :
      SeekEnds efh s l fr newPos (.done 1) ((s.setFilePos newPos).setPosData (some p)) l fr
  | inside {p : Ptr} {l₁ l₂ : List Ptr} (split : l = l₁ ++ p :: l₂) (le : s.pool.offs p ≤ newPos)
      (reach : long (newPos - MBUFSIZE) ≤ s.pool.offs p) :
      SeekEnds efh s l fr newPos (.done 1) ((s.setFilePos newPos).setPosData (some p)) l fr
  | between {p q : Ptr} {l₁ l₂ : List Ptr} (split : l = l₁ ++ p :: q :: l₂)
      (before : s.pool.offs p < long (newPos - MBUFSIZE)) (behind : newPos < s.pool.offs q) :
      SeekEnds efh s l fr newPos (.done 1) ((s.setFilePos newPos).setPosData (some p)) l fr

/-- The three ways of `WBufSeekAndPrepare`: a new head, the tail, or the header that the search
finds, unless that one lies behind the position: then the one before it. -/
theorem wBufSeekAndPrepare_cases (efh : EFH) (h : Owns s ⟨l, [], fr⟩) {newPos : Int} {r : Ret}
    {s' : WState} (hrun : wBufSeekAndPrepare efh s newPos = .ok (r, s')) :
    (∃ l' fr', (∀ p, l.head? = some p → newPos < s.pool.offs p) ∧
      HeadEnds efh (s.setFilePos newPos) l fr newPos r s' l' fr') ∨
    (∃ p, l.getLast? = some p ∧ long (s.pool.offs p + MBUFSIZE) ≤ newPos ∧ r = .done 1 ∧
      s' = (s.setFilePos newPos).setPosData (some p)) ∨
    ∃ last l₁ q l₂, l.getLast? = some last ∧ newPos < long (s.pool.offs last + MBUFSIZE) ∧
      (∀ p, l.head? = some p → s.pool.offs p ≤ newPos) ∧ l = l₁ ++ q :: l₂ ∧
      (∀ p ∈ l₁, s.pool.offs p < long (newPos - MBUFSIZE)) ∧ long
      (newPos - MBUFSIZE) ≤ s.pool.offs q ∧
      r = .done 1 ∧ s' = (s.setFilePos newPos).setPosData
        (if newPos < s.pool.offs q then l₁.getLast? else some q) := by
  have hpos : Owns (s.setFilePos newPos) ⟨l, [], fr⟩ := h.setPos s.wbc.wbcPosData newPos
  obtain ⟨r₀, s₀, l₀, fr₀, hhead, hends⟩ := prepareHead_cases efh hpos newPos
  simp only [wBufSeekAndPrepare] at hrun
  cases l with
  | nil =>
      have hfirst : (s.setFilePos newPos).wbc.wbcFirstData = none := h.chain
      rw [hfirst] at hrun
      simp only [hhead, Except.ok.injEq, Prod.mk.injEq] at hrun
      obtain ⟨rfl, rfl⟩ := hrun
      exact .inl ⟨_, _, by simp, hends⟩
  | cons first l =>
      have hfirst : (s.setFilePos newPos).wbc.wbcFirstData = some first := h.chain.1
      rw [hfirst] at hrun
      simp only at hrun
      split at hrun
      · rename_i hlt
        simp only [hhead, Except.ok.injEq, Prod.mk.injEq] at hrun
        obtain ⟨rfl, rfl⟩ := hrun
        refine .inl ⟨_, _, fun p hp => ?_, hends⟩
        obtain rfl : first = p := Option.some.inj hp
        exact hlt
      · rename_i hge
        obtain ⟨last, hlast⟩ : ∃ p, (first :: l).getLast? = some p := by
          simp [List.getLast?_cons]
        have hlastData : (s.setFilePos newPos).wbc.wbcLastData = some last := by
          rw [← hlast]
          exact h.last (by simp)
        rw [hlastData] at hrun
        simp only at hrun
        split at hrun
        · rename_i hbehind
          cases hrun
          exact .inr (.inl ⟨last, hlast, hbehind, rfl, rfl⟩)
        · rename_i hnot
          cases hseek : seekLoop (s.setFilePos newPos).pool.wbh (long (newPos - MBUFSIZE))
              (s.setFilePos newPos).pool.gNumWBufHdrs.toNat none first with
          | error e => simp [hseek, bind, Except.bind] at hrun
          | ok res =>
              obtain ⟨prev, q⟩ := res
              obtain ⟨l₁, l₂, hsplit, hbefore, hq, hprev⟩ := seekLoop_ok
                (show Linked (s.setFilePos newPos).pool.next (some first) (first :: l) from
                  ⟨rfl, h.chain.2⟩) hseek
              simp only [hseek, bind, Except.bind, Except.ok.injEq, Prod.mk.injEq] at hrun
              obtain ⟨rfl, rfl⟩ := hrun
              rw [Option.or_none] at hprev
              subst hprev
              refine .inr (.inr ⟨last, l₁, q, l₂, hlast, Int.not_le.mp hnot, fun p hp => ?_, hsplit,
                hbefore, hq, rfl, rfl⟩)
              obtain rfl : first = p := Option.some.inj hp
              exact Int.not_lt.mp hge

theorem wBufSeekAndPrepare_ok (efh : EFH) (h : Owns s ⟨l, [], fr⟩) {newPos : Int} {r : Ret}
    {s' : WState} (hrun : wBufSeekAndPrepare efh s newPos = .ok (r, s')) :
    ∃ l' fr', SeekEnds efh s l fr newPos r s' l' fr' := by
  obtain ⟨l', fr', hfront, hends⟩ | ⟨p, hlast, hbehind, rfl, rfl⟩ |
    ⟨last, l₁, q, l₂, -, -, hfirst, rfl, hbefore, hq, rfl, rfl⟩ :=
      wBufSeekAndPrepare_cases efh h hrun
  · exact ⟨l', fr', .head hfront hends⟩
  · exact ⟨_, _, .tail hlast hbehind⟩
  · split
    · rename_i hlt
      rcases List.eq_nil_or_concat l₁ with rfl | ⟨l₀, p, rfl⟩
      · exact absurd (hfirst q rfl) (Int.not_le.mpr hlt)
      · rw [List.concat_eq_append, List.getLast?_concat]
        have hsplit : (l₀ ++ [p]) ++ q :: l₂ = l₀ ++ p :: q :: l₂ := by simp
        exact ⟨_, _, .between hsplit (hbefore p (by simp)) hlt⟩
    · rename_i hle
      exact ⟨_, _, .inside rfl (Int.not_lt.mp hle) hq⟩

/-- `WBufSeekAndPrepare` ends when its search, if it makes one, has a header to stop at. -/
theorem wBufSeekAndPrepare_ends (efh : EFH) (h : Owns s ⟨l, [], fr⟩)
    (hlen : l.length ≤ s.pool.gNumWBufHdrs.toNat) {newPos : Int}
    (hreach : (∃ p ∈ l.head?, s.pool.offs p ≤ newPos) →
      (∃ p ∈ l.getLast?, newPos < wBufHdrLastPos (s.pool.wbh p)) →
      ∃ q ∈ l, long (newPos - MBUFSIZE) ≤ s.pool.offs q) :
    ∃ x, wBufSeekAndPrepare efh s newPos = .ok x := by
  have hpos : Owns (s.setFilePos newPos) ⟨l, [], fr⟩ := h.setPos s.wbc.wbcPosData newPos
  obtain ⟨r₀, s₀, l₀, fr₀, hhead, -⟩ := prepareHead_cases efh hpos newPos
  unfold wBufSeekAndPrepare
  simp only
  cases l with
  | nil =>
      rw [show (s.setFilePos newPos).wbc.wbcFirstData = none from h.chain]
      exact ⟨_, hhead⟩
  | cons first l =>
      rw [show (s.setFilePos newPos).wbc.wbcFirstData = some first from h.chain.1]
      simp only
      split
      · exact ⟨_, hhead⟩
      · rename_i hge
        obtain ⟨last, hlast⟩ : ∃ p, (first :: l).getLast? = some p := by
          simp [List.getLast?_cons]
        have hlastData : (s.setFilePos newPos).wbc.wbcLastData = some last := by
          rw [← hlast]
          exact h.last (by simp)
        rw [hlastData]
        simp only
        split
        · exact ⟨_, rfl⟩
        · rename_i hlt
          obtain ⟨r, hr⟩ := seekLoop_total none
            (show Linked s.pool.next (some first) (first :: l) from ⟨rfl, h.chain.2⟩) hlen
            (hreach ⟨first, rfl, Int.not_lt.mp hge⟩ ⟨last, hlast, Int.not_le.mp hlt⟩)
          have hrun : seekLoop (s.setFilePos newPos).pool.wbh (long (newPos - MBUFSIZE))
              (s.setFilePos newPos).pool.gNumWBufHdrs.toNat none first = .ok r := hr
          simp only [hrun, bind, Except.bind]
          exact ⟨_, rfl⟩

/-- How the first part of `WBufWrite` ends when the position is the header `p` of the chain. -/
inductive TargetEnds (efh : EFH) (s : WState) (l fr : List Ptr) (p : Ptr) :
    Target → WState → List Ptr → List Ptr → Prop
  | here (inside : s.wbc.wbcFilePos < long (s.pool.offs p + MBUFSIZE)) :
      TargetEnds efh s l fr p (.fill p) s l fr
  | next {n : Ptr} (past : long (s.pool.offs p + MBUFSIZE) ≤ s.wbc.wbcFilePos)
      (covers : coveringNext s.pool.wbh (s.pool.wbh p) s.wbc.wbcFilePos = some n) :
      TargetEnds efh s l fr p (.fill n) s l fr
  | failed {res2 : Int} {s' : WState} (flush : Flushed efh s l [] fr (some res2) s') :
      TargetEnds efh s l fr p (.stop (.failed res2)) s' [] (l.reverse ++ fr)
  | fresh {s' : WState} {new : Ptr} {l₁ l₂ fr' : List Ptr} (room : ¬ wBufCacheFull s.wbc)
      (past : long (s.pool.offs p + MBUFSIZE) ≤ s.wbc.wbcFilePos)
      (gap : coveringNext s.pool.wbh (s.pool.wbh p) s.wbc.wbcFilePos = none)
      (split : l = l₁ ++ p :: l₂)
      (placed : Placed efh s l fr s.wbc.wbcFilePos s' new (l₁ ++ p :: new :: l₂) fr')
      (new_notMem : new ∉ l) (srv : s'.srv = s.srv) :
      TargetEnds efh s l fr p (.fill new) s' (l₁ ++ p :: new :: l₂) fr'
  | flushed {s' : WState} {new : Ptr} {fr' : List Ptr}
      (placed : Placed efh s l fr s.wbc.wbcFilePos s' new [new] fr')
      (file : s'.srv.file efh.efhNFSFh =
        (s.srv.file efh.efhNFSFh).writeAll (chainWrites s.pool l)) :
      TargetEnds efh s l fr p (.fill new) s' [new] fr'

theorem wBufInsert_blk (s : WState) (p q : Ptr) :
    (wBufInsert s (some q) p).pool.blk = s.pool.blk := by
  rw [wBufInsert_eq]
  simp only [Pool.blk_setNext]

theorem wBufTarget_cases (efh : EFH) (h : Owns s ⟨l, [], fr⟩) {p : Ptr}
    (hpos : s.wbc.wbcPosData = some p) (hp : p ∈ l) :
    ∃ t s' l' fr', wBufTarget efh s = .ok (t, s') ∧ TargetEnds efh s l fr p t s' l' fr' := by
  unfold wBufTarget
  rw [hpos]
  simp only
  by_cases hpast : wBufHdrLastPos (s.pool.wbh p) ≤ s.wbc.wbcFilePos
  · rw [if_pos hpast]
    cases hnext : coveringNext s.pool.wbh (s.pool.wbh p) s.wbc.wbcFilePos with
    | some n => exact ⟨_, _, _, _, rfl, .next hpast hnext⟩
    | none =>
        obtain ⟨o, s₁, hrun, hends⟩ := obtainFlushing_cases efh h
        simp only [hrun, bind, Except.bind]
        cases hends with
        | failed flush => exact ⟨_, _, _, _, rfl, .failed flush⟩
        | noMem empty none =>
            rw [empty] at hp
            simp at hp
        | @fresh new m fr' ms room hdr mbuf =>
            subst hdr
            obtain ⟨l₁, l₂, rfl⟩ := List.append_of_mem hp
            have howns := h.started mbuf s.wbc.wbcFilePos
            have hnew := (howns.hand_not_mem (p := new) (by simp)).1
            refine ⟨_, _, _, _, rfl, .fresh room hpast hnext rfl ⟨howns.insert,
              (h.moved_started mbuf _).trans moved_insert, rfl, rfl, ?_, ?_, ?_⟩ hnew rfl⟩
            · rw [if_neg (by simp), wBufInsert_blk]
              exact congrArg Block.fileOffs (started_blk_self _)
            · rw [if_neg (by simp), wBufInsert_blk]
              exact congrArg Block.info (started_blk_self _)
            · intro q _ hq
              rw [if_neg (by simp), wBufInsert_blk]
              exact started_blk _ hq
        | @flushed s₂ new m fr' ms flush hdr mbuf =>
            have hown := flush.owns
            have hmov := flush.moved
            rw [hdr] at hown hmov
            refine ⟨_, _, _, _, rfl, .flushed ⟨(hown.started mbuf _).addHead,
              hmov.trans ((hown.moved_started mbuf _).trans moved_addHead), ?_, ?_, ?_, ?_, ?_⟩ ?_⟩
            · simp only [if_true, wBufInsert, wBufAddHead_eq]; rfl
            · simp only [if_true, wBufInsert, wBufAddHead_eq]; exact flush.filePos
            · simp only [if_true, wBufInsert, wBufAddHead_blk]
              exact congrArg Block.fileOffs (started_blk_self _)
            · simp only [if_true, wBufInsert, wBufAddHead_blk]
              exact congrArg Block.info (started_blk_self _)
            · intro q hq hqp
              exact absurd (List.mem_singleton.mp hq) hqp
            · simp only [if_true, wBufInsert, wBufAddHead_eq]; exact flush.file rfl
  · rw [if_neg hpast]
    exact ⟨_, _, _, _, rfl, .here (Int.not_le.mp hpast)⟩

end Seek

end Anfs.Buf
