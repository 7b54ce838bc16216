import Anfs.Lib.Linked
import Anfs.Buf.WBuf
import Mathlib.Data.List.Perm.Basic

/-!
# Who holds which header and which buffer

At any moment a header is chained in a cluster, in the hand of the running function, or
on the free list, and with it goes its buffer. `Owns` states this for the free list and
one cluster; `Moved` states what every function on a cluster keeps: headers and buffers
only change hands, and whatever belongs to others stays as it is.
-/
namespace Anfs.Buf
open Anfs.Lib Anfs.Nfs

def Pool.next (g : Pool) (p : Ptr) : Option Ptr := (g.wbh p).wbhNext

def Pool.data (g : Pool) (p : Ptr) : Ptr := (g.wbh p).wbhData

/-- What a buffer holds: the block of the file, the intervals written, the bytes. -/
structure Block where
  fileOffs : Int
  info : List WBufHdrInfo
  bytes : Nat → UInt8

def Pool.blk (g : Pool) (p : Ptr) : Block :=
  ⟨(g.wbh p).wbhFileOffs, (g.wbh p).wbhInfo, g.mem (g.wbh p).wbhData⟩

theorem Pool.wbh_setWbh (g : Pool) (p : Ptr) (h : WBufHdr) :
    (g.setWbh p h).wbh = Function.update g.wbh p h := rfl

section Update
variable {g g' : Pool} {p : Ptr} {h : WBufHdr}

theorem Pool.next_update (hw : g'.wbh = Function.update g.wbh p h) :
    g'.next = Function.update g.next p h.wbhNext := by
  funext q
  by_cases hq : q = p
  · subst hq; simp [Pool.next, hw]
  · simp [Pool.next, hw, hq]

theorem Pool.data_update (hw : g'.wbh = Function.update g.wbh p h) :
    g'.data = Function.update g.data p h.wbhData := by
  funext q
  by_cases hq : q = p
  · subst hq; simp [Pool.data, hw]
  · simp [Pool.data, hw, hq]

theorem Pool.data_update_same (hw : g'.wbh = Function.update g.wbh p h)
    (hd : h.wbhData = g.data p) : g'.data = g.data := by
  rw [Pool.data_update hw, hd, Function.update_eq_self]

theorem Pool.wbh_update_ne (hw : g'.wbh = Function.update g.wbh p h) {q : Ptr} (hq : q ≠ p) :
    g'.wbh q = g.wbh q := by
  rw [hw, Function.update_of_ne hq]

theorem Pool.blk_update_ne (hw : g'.wbh = Function.update g.wbh p h) (hm : g'.mem = g.mem)
    {q : Ptr} (hq : q ≠ p) : g'.blk q = g.blk q := by
  simp only [Pool.blk, Pool.wbh_update_ne hw hq, hm]

end Update

/-- The headers of the chain, in the hand of the running function, and free. -/
structure Hold where
  chain : List Ptr
  hand : List Ptr
  free : List Ptr

def Hold.hdrs (v : Hold) : List Ptr := v.chain ++ v.hand ++ v.free

def Hold.mbufs (v : Hold) (g : Pool) : List Ptr :=
  (v.chain ++ v.hand).map g.data ++ g.gFreeMBufs

structure Owns (s : WState) (v : Hold) : Prop where
  chain : Linked s.pool.next s.wbc.wbcFirstData v.chain
  used : s.wbc.wbcWBufsUsed = v.chain.length
  last : v.chain ≠ [] → s.wbc.wbcLastData = v.chain.getLast?
  free : Linked s.pool.next s.pool.gFreeWBufHdr v.free
  numFree : s.pool.gNumFreeWBufHdrs = v.free.length
  numFreeM : s.pool.gNumFreeMBufs = s.pool.gFreeMBufs.length
  nodup : v.hdrs.Nodup
  mnodup : (v.mbufs s.pool).Nodup

/-- What a function working on a cluster for the file `fh` keeps. -/
structure Moved (fh : Fh) (s : WState) (v : Hold) (s' : WState) (v' : Hold) : Prop where
  hdrs : v'.hdrs.Perm v.hdrs
  mbufs : (v'.mbufs s'.pool).Perm (v.mbufs s.pool)
  wbh : ∀ p ∉ v.hdrs, s'.pool.wbh p = s.pool.wbh p
  mem : ∀ b ∉ v.mbufs s.pool, s'.pool.mem b = s.pool.mem b
  limit : s'.pool.gWriteBufferLimit = s.pool.gWriteBufferLimit
  numM : s'.pool.gNumMBufs = s.pool.gNumMBufs
  numH : s'.pool.gNumWBufHdrs = s.pool.gNumWBufHdrs
  newM : s'.pool.newMBuf = s.pool.newMBuf
  max : s'.wbc.wbcWBufsMax = s.wbc.wbcWBufsMax
  file : ∀ fh', fh' ≠ fh → s'.srv.file fh' = s.srv.file fh'
  answers : s'.srv.answers = s.srv.answers

namespace Moved
variable {fh : Fh} {s s' s'' : WState} {v v' v'' : Hold}

theorem refl (fh : Fh) (s : WState) (v : Hold) : Moved fh s v s v where
  hdrs := List.Perm.refl _
  mbufs := List.Perm.refl _
  wbh _ _ := rfl
  mem _ _ := rfl
  limit := rfl
  numM := rfl
  numH := rfl
  newM := rfl
  max := rfl
  file _ _ := rfl
  answers := rfl

theorem trans (h : Moved fh s v s' v') (h' : Moved fh s' v' s'' v'') :
    Moved fh s v s'' v'' where
  hdrs := h'.hdrs.trans h.hdrs
  mbufs := h'.mbufs.trans h.mbufs
  wbh p hp := (h'.wbh p fun hm => hp (h.hdrs.mem_iff.mp hm)).trans (h.wbh p hp)
  mem b hb := (h'.mem b fun hm => hb (h.mbufs.mem_iff.mp hm)).trans (h.mem b hb)
  limit := h'.limit.trans h.limit
  numM := h'.numM.trans h.numM
  numH := h'.numH.trans h.numH
  newM := h'.newM.trans h.newM
  max := h'.max.trans h.max
  file fh' hne := (h'.file fh' hne).trans (h.file fh' hne)
  answers := h'.answers.trans h.answers

theorem nodup (h : Moved fh s v s' v') (hv : v.hdrs.Nodup) : v'.hdrs.Nodup :=
  h.hdrs.nodup_iff.mpr hv

theorem mnodup (h : Moved fh s v s' v') (hv : (v.mbufs s.pool).Nodup) :
    (v'.mbufs s'.pool).Nodup :=
  h.mbufs.nodup_iff.mpr hv

end Moved

section Steps
variable {fh : Fh} {s : WState} {p q : Ptr} {l l₁ l₂ hand fr : List Ptr}

/-- The state after the head `p` has been taken from the chain. -/
def WState.popHead (s : WState) (p : Ptr) : WState :=
  { s with
    wbc := { s.wbc with
      wbcWBufsUsed := s.wbc.wbcWBufsUsed - 1
      wbcFirstData := s.pool.next p } }

theorem Owns.remHead (h : Owns s ⟨p :: l, hand, fr⟩) :
    wBufRemHead s = .ok (some p, s.popHead p) := by
  have hused : s.wbc.wbcWBufsUsed ≠ 0 := by simp [h.used]
  simp only [wBufRemHead, if_pos hused, h.chain.1]
  rfl

theorem Owns.moved_popHead (_ : Owns s ⟨p :: l, hand, fr⟩) :
    Moved fh s ⟨p :: l, hand, fr⟩ (s.popHead p) ⟨l, p :: hand, fr⟩ :=
  { Moved.refl fh s ⟨p :: l, hand, fr⟩ with
    hdrs := by simp [Hold.hdrs]
    mbufs := by
      simp only [Hold.mbufs]
      exact (List.perm_middle.map _).append_right _ }

theorem Owns.popHead (h : Owns s ⟨p :: l, hand, fr⟩) :
    Owns (s.popHead p) ⟨l, p :: hand, fr⟩ where
  chain := h.chain.2
  used := by simp [WState.popHead, h.used]
  last hl := by
    have hlast := h.last (by simp)
    simp only at hl
    rw [List.getLast?_cons_of_ne_nil hl] at hlast
    exact hlast
  free := h.free
  numFree := h.numFree
  numFreeM := h.numFreeM
  nodup := (h.moved_popHead : Moved 0 s _ _ _).nodup h.nodup
  mnodup := (h.moved_popHead : Moved 0 s _ _ _).mnodup h.mnodup

theorem releaseWBuf_wbh (g : Pool) (p : Ptr) : (releaseWBuf g p).wbh =
    Function.update g.wbh p { g.wbh p with wbhNext := g.gFreeWBufHdr } := rfl

theorem Owns.moved_release (h : Owns s ⟨l, p :: hand, fr⟩) :
    Moved fh s ⟨l, p :: hand, fr⟩ { s with pool := releaseWBuf s.pool p } ⟨l, hand, p :: fr⟩ where
  hdrs := by
    simp only [Hold.hdrs]
    exact List.perm_middle.trans (by simpa using List.perm_middle.symm)
  mbufs := by
    have hd : (releaseWBuf s.pool p).data = s.pool.data :=
      Pool.data_update_same (releaseWBuf_wbh s.pool p) rfl
    have hf : (releaseWBuf s.pool p).gFreeMBufs = s.pool.data p :: s.pool.gFreeMBufs := rfl
    simp only [Hold.mbufs, hd, hf, List.map_append, List.map_cons]
    exact List.perm_middle.trans (by simpa using List.perm_middle.symm)
  wbh q hq := Pool.wbh_update_ne (releaseWBuf_wbh s.pool p) (by
    rintro rfl
    simp [Hold.hdrs] at hq)
  mem _ _ := rfl
  limit := rfl
  numM := rfl
  numH := rfl
  newM := rfl
  max := rfl
  file _ _ := rfl
  answers := rfl

theorem Owns.release (h : Owns s ⟨l, p :: hand, fr⟩) :
    Owns { s with pool := releaseWBuf s.pool p } ⟨l, hand, p :: fr⟩ := by
  have hmoved : Moved 0 s _ _ _ := h.moved_release
  have hnext := Pool.next_update (releaseWBuf_wbh s.pool p)
  have hnd := h.nodup
  simp only [Hold.hdrs, List.append_assoc, List.cons_append] at hnd
  have hp := List.nodup_middle.mp hnd
  simp only [List.nodup_cons, List.mem_append, not_or] at hp
  constructor
  · simp only [hnext]
    exact h.chain.update hp.1.1 _
  · exact h.used
  · exact h.last
  · simp only [hnext]
    exact h.free.push hp.1.2.2
  · simp only [releaseWBuf, mbReleaseMBuf, h.numFree, List.length_cons]
    omega
  · simp only [releaseWBuf, mbReleaseMBuf, h.numFreeM, List.length_cons]
    omega
  · exact hmoved.nodup h.nodup
  · exact hmoved.mnodup h.mnodup

/-- The pool after the header `p` has been obtained with the buffer `m`. -/
def Pool.obtained (g : Pool) (p m : Ptr) (ms : List Ptr) : Pool :=
  { g with
    gNumFreeMBufs := g.gNumFreeMBufs - 1
    gFreeMBufs := ms
    gNumFreeWBufHdrs := g.gNumFreeWBufHdrs - 1
    gFreeWBufHdr := g.next p
    wbh := Function.update g.wbh p
      { g.wbh p with wbhFileOffs := 0, wbhInfo := [], wbhData := m } }

theorem obtained_wbh (g : Pool) (p m : Ptr) (ms : List Ptr) : (g.obtained p m ms).wbh =
    Function.update g.wbh p
      { g.wbh p with wbhFileOffs := 0, wbhInfo := [], wbhData := m } := rfl

theorem Owns.obtain_none (h : Owns s ⟨l, hand, fr⟩) (hno : fr = [] ∨ s.pool.gFreeMBufs = []) :
    obtainWBuf s.pool = .ok (none, s.pool) := by
  unfold obtainWBuf
  rw [if_neg]
  rintro ⟨h1, h2⟩
  rcases hno with rfl | hno
  · exact h1 h.numFree
  · exact h2 (by rw [h.numFreeM, hno]; rfl)

theorem Owns.obtain_some (h : Owns s ⟨l, hand, p :: fr⟩) {m : Ptr} {ms : List Ptr}
    (hm : s.pool.gFreeMBufs = m :: ms) :
    obtainWBuf s.pool = .ok (some p, s.pool.obtained p m ms) := by
  have h1 : s.pool.gNumFreeWBufHdrs ≠ 0 := by
    rw [h.numFree]
    simp only [List.length_cons]
    omega
  have h2 : s.pool.gNumFreeMBufs ≠ 0 := by
    rw [h.numFreeM, hm]
    simp only [List.length_cons]
    omega
  unfold obtainWBuf
  rw [if_pos ⟨h1, h2⟩]
  simp only [mbObtainMBuf, hm, if_pos h2]
  simp only [bind, Except.bind, h.free.1]
  rfl

theorem Owns.moved_obtained (h : Owns s ⟨l, hand, p :: fr⟩) {m : Ptr} {ms : List Ptr}
    (hm : s.pool.gFreeMBufs = m :: ms) :
    Moved fh s ⟨l, hand, p :: fr⟩ { s with pool := s.pool.obtained p m ms }
      ⟨l, p :: hand, fr⟩ where
  hdrs := by
    simp only [Hold.hdrs]
    exact List.Perm.trans (by simp) List.perm_middle.symm
  mbufs := by
    have hnd := h.nodup
    have hd : (s.pool.obtained p m ms).data = Function.update s.pool.data p m :=
      Pool.data_update (obtained_wbh s.pool p m ms)
    simp only [Hold.hdrs] at hnd
    have hp : p ∉ l ++ hand := fun hmem => List.disjoint_of_nodup_append hnd hmem (by simp)
    have hmap : (l ++ hand).map (Function.update s.pool.data p m) =
        (l ++ hand).map s.pool.data :=
      List.map_congr_left fun q hq => Function.update_of_ne (ne_of_mem_of_not_mem hq hp) _ _
    simp only [List.map_append] at hmap
    have hf : (s.pool.obtained p m ms).gFreeMBufs = ms := rfl
    simp only [Hold.mbufs, hd, hf, hm, List.map_append, List.map_cons, Function.update_self]
    refine List.Perm.trans ?_ List.perm_middle.symm
    rw [List.append_assoc, List.cons_append]
    refine List.perm_middle.trans ?_
    rw [← List.append_assoc, hmap]
  wbh q hq := Function.update_of_ne (by
    rintro rfl
    simp [Hold.hdrs] at hq) _ _
  mem _ _ := rfl
  limit := rfl
  numM := rfl
  numH := rfl
  newM := rfl
  max := rfl
  file _ _ := rfl
  answers := rfl

theorem Owns.obtained (h : Owns s ⟨l, hand, p :: fr⟩) {m : Ptr} {ms : List Ptr}
    (hm : s.pool.gFreeMBufs = m :: ms) :
    Owns { s with pool := s.pool.obtained p m ms } ⟨l, p :: hand, fr⟩ := by
  have hmoved : Moved 0 s _ _ _ := h.moved_obtained hm
  have hnext : (s.pool.obtained p m ms).next = s.pool.next := by
    rw [Pool.next_update (obtained_wbh s.pool p m ms)]
    exact Function.update_eq_self _ _
  constructor
  · simp only [hnext]
    exact h.chain
  · exact h.used
  · exact h.last
  · simp only [hnext]
    exact h.free.2
  · simp only [Pool.obtained, h.numFree, List.length_cons]
    omega
  · simp only [Pool.obtained, h.numFreeM, hm, List.length_cons]
    omega
  · exact hmoved.nodup h.nodup
  · exact hmoved.mnodup h.mnodup

/-- Setting fields that are neither link nor buffer. -/
theorem Owns.setWbh {v : Hold} (h : Owns s v) {x : WBufHdr}
    (hnext : x.wbhNext = s.pool.next p) (hdata : x.wbhData = s.pool.data p) :
    Owns { s with pool := s.pool.setWbh p x } v := by
  have hn : (s.pool.setWbh p x).next = s.pool.next := by
    rw [Pool.next_update (Pool.wbh_setWbh s.pool p x), hnext, Function.update_eq_self]
  have hd : (s.pool.setWbh p x).data = s.pool.data :=
    Pool.data_update_same (Pool.wbh_setWbh s.pool p x) hdata
  have hm : v.mbufs (s.pool.setWbh p x) = v.mbufs s.pool := by simp only [Hold.mbufs, hd]; rfl
  exact ⟨by simpa only [hn] using h.chain, h.used, h.last, by rw [hn]; exact h.free,
    h.numFree, h.numFreeM, h.nodup, by simpa only [hm] using h.mnodup⟩

theorem moved_setWbh {v : Hold} (hp : p ∈ v.hdrs) {x : WBufHdr}
    (hdata : x.wbhData = s.pool.data p) :
    Moved fh s v { s with pool := s.pool.setWbh p x } v :=
  { Moved.refl fh s v with
    mbufs := by
      have hd : (s.pool.setWbh p x).data = s.pool.data :=
    Pool.data_update_same (Pool.wbh_setWbh s.pool p x) hdata
      simp only [Hold.mbufs, hd]
      exact List.Perm.refl _
    wbh := fun q hq => Function.update_of_ne (by
      rintro rfl
      exact hq hp) _ _ }

/-- Setting the fields of the cluster that only say where to write. -/
theorem Owns.setPos {v : Hold} (h : Owns s v) (pos : Option Ptr) (filePos : Int) :
    Owns { s with wbc := { s.wbc with wbcPosData := pos, wbcFilePos := filePos } } v :=
  ⟨h.chain, h.used, h.last, h.free, h.numFree, h.numFreeM, h.nodup, h.mnodup⟩

def Pool.setNext (g : Pool) (p : Ptr) (x : Option Ptr) : Pool :=
  g.setWbh p { g.wbh p with wbhNext := x }

section SetNext
variable (g : Pool) (x : Option Ptr)

@[simp] theorem Pool.next_setNext (p : Ptr) :
    (g.setNext p x).next = Function.update g.next p x :=
  Pool.next_update (Pool.wbh_setWbh g p { g.wbh p with wbhNext := x })

@[simp] theorem Pool.data_setNext (p : Ptr) : (g.setNext p x).data = g.data :=
  Pool.data_update_same (Pool.wbh_setWbh g p { g.wbh p with wbhNext := x }) rfl

theorem Pool.wbh_setNext_ne {p q : Ptr} (hq : q ≠ p) : (g.setNext p x).wbh q = g.wbh q :=
  Function.update_of_ne hq _ _

@[simp] theorem Pool.gFreeMBufs_setNext (p : Ptr) :
    (g.setNext p x).gFreeMBufs = g.gFreeMBufs := rfl

@[simp] theorem Pool.blk_setNext (p : Ptr) : (g.setNext p x).blk = g.blk := by
  funext q
  by_cases hq : q = p
  · subst hq
    simp [Pool.blk, Pool.setNext, Pool.setWbh]
  · exact Pool.blk_update_ne (Pool.wbh_setWbh g p _) rfl hq

end SetNext

theorem wBufAddHead_eq (s : WState) (p : Ptr) : wBufAddHead s p =
    { s with
      pool := s.pool.setNext p s.wbc.wbcFirstData
      wbc := { s.wbc with
        wbcWBufsUsed := s.wbc.wbcWBufsUsed + 1
        wbcFirstData := some p
        wbcLastData := if s.wbc.wbcFirstData = none then some p else s.wbc.wbcLastData } } := by
  unfold wBufAddHead
  cases hf : s.wbc.wbcFirstData with
  | none => rfl
  | some first => rfl

theorem wBufInsert_eq (s : WState) (p q : Ptr) : wBufInsert s (some q) p =
    { s with
      pool := (s.pool.setNext p (s.pool.next q)).setNext q (some p)
      wbc := { s.wbc with
        wbcWBufsUsed := s.wbc.wbcWBufsUsed + 1
        wbcLastData := if s.pool.next q = none then some p else s.wbc.wbcLastData } } := rfl

theorem Owns.hand_not_mem {v : Hold} (h : Owns s v) (hp : p ∈ v.hand) :
    p ∉ v.chain ∧ p ∉ v.free := by
  have hnd := h.nodup
  simp only [Hold.hdrs, List.nodup_append', List.disjoint_left] at hnd
  exact ⟨fun hc => hnd.1.2.2 hc hp, hnd.2.2 (List.mem_append_right _ hp)⟩

theorem moved_addHead :
    Moved fh s ⟨l, p :: hand, fr⟩ (wBufAddHead s p) ⟨p :: l, hand, fr⟩ := by
  rw [wBufAddHead_eq]
  exact
    { Moved.refl fh s _ with
      hdrs := by simpa [Hold.hdrs] using List.perm_middle.symm
      mbufs := by
        simp only [Hold.mbufs, Pool.data_setNext]
        exact (List.perm_middle.symm.map _).append_right _
      wbh := fun r hr => Pool.wbh_setNext_ne _ _ (by
        rintro rfl
        simp [Hold.hdrs] at hr) }

theorem Owns.addHead (h : Owns s ⟨l, p :: hand, fr⟩) :
    Owns (wBufAddHead s p) ⟨p :: l, hand, fr⟩ := by
  have hmoved : Moved 0 s ⟨l, p :: hand, fr⟩ _ ⟨p :: l, hand, fr⟩ := moved_addHead
  obtain ⟨hl, hfr⟩ := h.hand_not_mem (p := p) (by simp)
  rw [wBufAddHead_eq] at hmoved ⊢
  constructor
  · simp only [Pool.next_setNext]
    exact h.chain.push hl
  · simp [h.used]
  · intro _
    simp only
    cases l with
    | nil => rw [if_pos (show s.wbc.wbcFirstData = none from h.chain)]; rfl
    | cons q l =>
        rw [if_neg (h.chain.ne_none (by simp)), h.last (by simp), List.getLast?_cons_cons]
  · simp only [Pool.next_setNext]
    exact h.free.update hfr _
  · exact h.numFree
  · exact h.numFreeM
  · exact hmoved.nodup h.nodup
  · exact hmoved.mnodup h.mnodup

theorem moved_insert :
    Moved fh s ⟨l₁ ++ q :: l₂, p :: hand, fr⟩ (wBufInsert s (some q) p)
      ⟨l₁ ++ q :: p :: l₂, hand, fr⟩ := by
  have hperm : (l₁ ++ q :: p :: l₂ ++ hand).Perm (l₁ ++ q :: l₂ ++ p :: hand) := by
    simp only [List.append_assoc, List.cons_append]
    have hmid : (l₂ ++ p :: hand).Perm (p :: (l₂ ++ hand)) := List.perm_middle
    exact (hmid.symm.cons q).append_left l₁
  rw [wBufInsert_eq]
  exact
    { Moved.refl fh s _ with
      hdrs := hperm.append_right fr
      mbufs := by
        simp only [Hold.mbufs, Pool.data_setNext]
        exact (hperm.map _).append_right _
      wbh := fun r hr => by
        have hrq : r ≠ q := by
          rintro rfl
          simp [Hold.hdrs] at hr
        have hrp : r ≠ p := by
          rintro rfl
          simp [Hold.hdrs] at hr
        rw [Pool.wbh_setNext_ne _ _ hrq, Pool.wbh_setNext_ne _ _ hrp] }

theorem Owns.insert (h : Owns s ⟨l₁ ++ q :: l₂, p :: hand, fr⟩) :
    Owns (wBufInsert s (some q) p) ⟨l₁ ++ q :: p :: l₂, hand, fr⟩ := by
  have hmoved : Moved 0 s ⟨l₁ ++ q :: l₂, p :: hand, fr⟩ _ ⟨l₁ ++ q :: p :: l₂, hand, fr⟩ :=
    moved_insert
  obtain ⟨hl, hfr⟩ := h.hand_not_mem (p := p) (by simp)
  have hnd := h.nodup
  simp only [Hold.hdrs, List.nodup_append', List.disjoint_left] at hnd
  have hqfr : q ∉ fr := hnd.2.2 (by simp)
  rw [wBufInsert_eq] at hmoved ⊢
  constructor
  · simp only [Pool.next_setNext]
    exact h.chain.insert (by simpa only [List.nodup_append', List.disjoint_left] using hnd.1.1) hl
  · simp only [h.used, List.length_append, List.length_cons]
    omega
  · intro _
    have hnext := h.chain.next_head
    simp only
    cases l₂ with
    | nil => rw [hnext]; simp
    | cons r l₂ =>
        rw [hnext, if_neg (by simp), h.last (by simp)]
        simp
  · simp only [Pool.next_setNext]
    exact (h.free.update hfr _).update hqfr _
  · exact h.numFree
  · exact h.numFreeM
  · exact hmoved.nodup h.nodup
  · exact hmoved.mnodup h.mnodup

end Steps

end Anfs.Buf
