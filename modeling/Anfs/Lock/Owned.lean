import Anfs.Lock.Actions
import Anfs.Path.Resolve
import Anfs.Tree.Reads

/-!
# Memory of the search for a directory or a lock

The search for a directory leaves the lists of locks and handles as they are, sends nothing but
questions to the server, and owns the two names at its end. If the name is too long, the path
that `CBuildFullName` copied stays behind; no other block does.
-/
namespace Anfs.Lock
open Anfs.Cache Anfs.Lib Anfs.Nfs Anfs.Path Anfs.Tree Anfs.Xdr
open scoped List

/-- `lock_Dup` leaves the blocks of the lock that it returns. -/
theorem owns_lockDup (h : Heap) (oel : ELOCK) :
    Heap.Owns h (lockDup h oel).2 (lockBlocks (lockDup h oel).1) := by
  have halloc := Heap.owns_alloc h
  unfold lockDup
  generalize h.alloc = r at halloc ⊢
  obtain ⟨_ | elock, h₁⟩ := r
  · exact halloc
  · have hfull := Owns.strDup halloc oel.fullName.text
    have hlast := Owns.strDup hfull oel.name.text
    dsimp only at hfull hlast ⊢
    generalize strDup h₁ oel.fullName.text = s₁ at *
    generalize strDup s₁.2 oel.name.text = s₂ at *
    have hfail : Heap.Owns h (fnDelete (fnDelete (s₂.2.free elock) s₁.1) s₂.1) [] := by
      have hperm : Str.block s₂.1 ++ (Str.block s₁.1 ++ [elock]) ~
          elock :: (Str.block s₁.1 ++ (Str.block s₂.1 ++ [])) := by
        rw [List.perm_iff_count]
        intro a
        simp only [List.count_append, List.count_cons, List.count_nil]
        omega
      exact Owns.fnDelete (Owns.fnDelete (hlast.perm hperm).free)
    obtain ⟨_ | full, h₂⟩ := s₁
    · exact hfail
    · obtain ⟨_ | last, h₃⟩ := s₂
      · exact hfail
      · exact hlast.perm (List.reverse_perm [elock, full.addr, last.addr])

/-- The lock of `lock_Create` is a new block. -/
theorem lockCreate_fresh {h h' : Heap} {fullName name : List UInt8} {nfstype : UInt32} {mode : Int}
    {l : ELOCK} (hl : lockCreate h fullName name nfstype mode = (some l, h')) :
    l.addr ∉ h.live := by
  unfold lockCreate at hl
  cases halloc : h.alloc with
  | mk elock h₁ =>
      rw [halloc] at hl
      cases elock with
      | none => cases hl
      | some elock =>
          dsimp only at hl
          split at hl
          · cases hl
            exact Heap.notMem_of_alloc halloc
          · cases hl

/-- So is the lock of `lock_Dup`. -/
theorem lockDup_fresh {h h' : Heap} {oel l : ELOCK} (hl : lockDup h oel = (some l, h')) :
    l.addr ∉ h.live := by
  unfold lockDup at hl
  cases halloc : h.alloc with
  | mk elock h₁ =>
      rw [halloc] at hl
      cases elock with
      | none => cases hl
      | some elock =>
          dsimp only at hl
          split at hl
          · cases hl
            exact Heap.notMem_of_alloc halloc
          · cases hl

namespace Global

variable {σ : Type}

/-- From `g` to `g'` the lists stay as they are, and the blocks `bs` have been allocated. -/
structure Kept (g g' : Global σ) (bs : List Nat) : Prop where
  locks : g'.locks = g.locks
  files : g'.files = g.files
  lastId : g'.lastId = g.lastId
  running : g'.running = g.running
  heap : Heap.Owns g.heap g'.heap bs

/-- Moreover the server was asked only. -/
structure Asked (w : World σ) (g g' : Global σ) (bs : List Nat) : Prop extends Kept g g' bs where
  env : ∀ P : σ → Prop, w.Keeps P → P g.caches.env → P g'.caches.env

section Kept
variable {w : World σ} {g g₁ g₂ : Global σ} {bs cs : List Nat}

theorem Kept.refl (g : Global σ) : Kept g g [] := ⟨rfl, rfl, rfl, rfl, Heap.owns_refl _⟩

theorem Kept.trans (h : Kept g g₁ bs) (h' : Kept g₁ g₂ cs) : Kept g g₂ (cs ++ bs) :=
  ⟨h'.locks.trans h.locks, h'.files.trans h.files, h'.lastId.trans h.lastId,
    h'.running.trans h.running, h.heap.trans h'.heap⟩

theorem Kept.withHeap (h : Kept g g₁ bs) {hp : Heap} (ho : Heap.Owns g.heap hp cs) :
    Kept g { g₁ with heap := hp } cs := { h with heap := ho }

theorem Kept.withCaches (h : Kept g g₁ bs) (c : Caches σ) : Kept g { g₁ with caches := c } bs :=
  { h with }

theorem Kept.setRes (h : Kept g g₁ bs) (res1 : Res1) (res2 : Int) :
    Kept g (g₁.setRes res1 res2) bs :=
  { h with }

theorem Kept.deleteNames (h : Kept g g₁ (bs ++ cs)) {fullName : Str} {name : Option Str}
    (hbs : bs = fullName.addr :: Str.block name) : Kept g (g₁.deleteNames fullName name) cs := by
  subst hbs
  have hfull : Heap.Owns g.heap (fnDelete g₁.heap (some fullName)) (Str.block name ++ cs) :=
    h.heap.free
  exact h.withHeap (Owns.fnDelete hfull)

theorem Asked.refl (w : World σ) (g : Global σ) : Asked w g g [] := ⟨Kept.refl g, fun _ _ hP => hP⟩

theorem Asked.trans (h : Asked w g g₁ bs) (h' : Asked w g₁ g₂ cs) : Asked w g g₂ (cs ++ bs) :=
  ⟨h.toKept.trans h'.toKept, fun P hw hP => h'.env P hw (h.env P hw hP)⟩

theorem Asked.withHeap (h : Asked w g g₁ bs) {hp : Heap} (ho : Heap.Owns g.heap hp cs) :
    Asked w g { g₁ with heap := hp } cs := ⟨h.toKept.withHeap ho, h.env⟩

theorem Asked.withCaches (h : Asked w g g₁ bs) {c : Caches σ}
    (hc : ∀ P : σ → Prop, w.Keeps P → P g₁.caches.env → P c.env) :
    Asked w g { g₁ with caches := c } bs :=
  ⟨h.toKept.withCaches c, fun P hw hP => hc P hw (h.env P hw hP)⟩

theorem Asked.deleteNames (h : Asked w g g₁ (bs ++ cs)) {fullName : Str} {name : Option Str}
    (hbs : bs = fullName.addr :: Str.block name) : Asked w g (g₁.deleteNames fullName name) cs :=
  ⟨h.toKept.deleteNames hbs, h.env⟩

end Kept

section Locate
variable {w : World σ} {g : Global σ}

theorem rootLocateLoop_env {P : σ → Prop} (hw : w.Keeps P) (n : Nat) :
    ∀ (s : Caches σ) (parDir : Nat)
    (u : ScanPath) (r : Except Int Nat × Caches σ), P s.env →
      rootLocateLoop w n s parDir u = some r →
    P r.2.env := by
  induction n with
  | zero =>
      intro s parDir u r _ hr
      cases hr
  | succ n ih =>
      intro s parDir u r hP hr
      unfold rootLocateLoop at hr
      dsimp only at hr
      split at hr
      · cases hr
        exact hP
      split at hr
      · cases hr
        exact hP
      have hname := Caches.getNameEntry_env hw hP parDir
        (cString (fnScanPath u).2.path (fnScanPath u).1) true
      generalize s.getNameEntry w parDir (cString (fnScanPath u).2.path (fnScanPath u).1)
        true = t at hname hr
      obtain ⟨res2 | ⟨nent, ace⟩, s₁⟩ := t
      · cases hr
        exact hname
      dsimp only at hr
      split at hr
      · cases hr
        exact hname
      split at hr
      · cases hr
        exact hname
      have hdir := Caches.getDirEntry_env hw hname nent.fileId
        ((ace.map fun a => (s₁.aces a).nfsFh).getD [])
      dsimp only at hdir
      generalize s₁.getDirEntry w nent.fileId ((ace.map fun a => (s₁.aces a).nfsFh).getD []) = d
        at hdir hr
      obtain ⟨res2 | actDir, s₂⟩ := d
      · cases hr
        exact hdir
      · exact ih s₂ actDir (fnScanPath u).2 r hdir hr

theorem rootLocate_env {P : σ → Prop} (hw : w.Keeps P) {s : Caches σ} (h : P s.env) (parDir : Nat)
    (path : List UInt8) : P (rootLocate w s parDir path).2.env :=
  rootLocateLoop_env hw _ s parDir _ _ h (Option.some_get _).symm

theorem rootLocateDir_asked (g : Global σ) (fullName : List UInt8) :
    Asked w g (g.rootLocateDir w fullName).2 [] := by
  have hstr := owns_strDup g.heap fullName
  unfold rootLocateDir
  generalize strDup g.heap fullName = d at hstr ⊢
  obtain ⟨_ | workPath, h₁⟩ := d
  · exact (Asked.refl w g).withHeap hstr
  · have hdir : ∀ P, w.Keeps P → P g.caches.env →
        P (g.caches.getDirEntry w g.gMntAttr.fileid g.gMntFh).2.env :=
      fun P hw hP => Caches.getDirEntry_env hw hP g.gMntAttr.fileid g.gMntFh
    have hfreed : Heap.Owns g.heap (fnDelete h₁ (some workPath)) [] := Owns.fnDelete hstr
    dsimp only
    generalize g.caches.getDirEntry w g.gMntAttr.fileid g.gMntFh = r at hdir ⊢
    obtain ⟨res2 | parDir, caches⟩ := r
    · exact ((Asked.refl w g).withCaches hdir).withHeap hfreed
    · dsimp only
      split
      · have hwalk : ∀ P, w.Keeps P → P g.caches.env →
            P (rootLocate w caches parDir workPath.text).2.env :=
          fun P hw hP => rootLocate_env hw (hdir P hw hP) parDir workPath.text
        exact ((Asked.refl w g).withCaches hwalk).withHeap hfreed
      · exact ((Asked.refl w g).withCaches hdir).withHeap hfreed

variable {addPart : List UInt8 → List UInt8 → Nat → Option (List UInt8)}

/-- The blocks of the names of `CBuildFullName`. -/
def fullNameBlocks : Except Int FullName → List Nat
  | .ok n => n.fullName.addr :: Str.block n.name
  | .error _ => []

/-- How a search ends that asks for the name and not for the Unix path. -/
theorem cBuildFullName_owns (volume : List UInt8) (locks : List ELOCK) (h : Heap) (fl : Option Nat)
    (cstr : List UInt8) : ∃ leak,
      Heap.Owns h (cBuildFullName addPart volume locks h fl cstr true false).2
        (fullNameBlocks (cBuildFullName addPart volume locks h fl cstr true false).1 ++ leak) ∧
      (leak ≠ [] ↔ Path.nameTooLong addPart volume locks h fl cstr = true) ∧
      (∀ n, (cBuildFullName addPart volume locks h fl cstr true false).1 = .ok n →
        leak = [] ∧ n.name ≠ none) ∧
      ∀ res2, (cBuildFullName addPart volume locks h fl cstr true false).1 =
        .error res2 → res2 ≠ 0 := by
  cases hold : oldFullName locks fl with
  | none =>
      have herror : cBuildFullName addPart volume locks h fl cstr true false =
          (.error errorInvalidLock, h) := by
        unfold cBuildFullName
        rw [hold]
      have hlong : Path.nameTooLong addPart volume locks h fl cstr = false := by
        unfold Path.nameTooLong
        rw [hold]
      rw [herror]
      refine ⟨[], Heap.owns_refl h, by simp [hlong], fun n hn => absurd hn (by simp),
        fun res2 hres => ?_⟩
      rw [← Except.error.inj hres]
      decide
  | some old =>
      cases hlong : Path.nameTooLong addPart volume locks h fl cstr with
      | true =>
          obtain ⟨q, a, h', -, -, howns, hrun⟩ :=
            @cBuildFullName_long _ _ _ _ _ _ true false _ hold hlong
          rw [hrun]
          refine ⟨[a], howns, by simp, fun n hn => absurd hn (by simp), fun res2 hres => ?_⟩
          rw [← Except.error.inj hres]
          decide
      | false =>
          obtain ⟨hout, hfreed⟩ := @cBuildFullName_short _ _ _ _ _ _ true false _ hold hlong
          generalize cBuildFullName addPart volume locks h fl cstr true false = r at hout hfreed ⊢
          cases hout with
          | failed nonzero owned =>
              refine ⟨[], owned, by simp, fun n hn => absurd hn (by simp), fun res2 hres => ?_⟩
              rwa [← Except.error.inj hres]
          | tooLong path long owned =>
              exact absurd (hfreed _ rfl) (owned.leak (List.cons_ne_nil _ []))
          | done path name short owned =>
              refine ⟨[], owned.perm (List.Perm.of_eq (by simp [fullNameBlocks])), by simp, ?_,
                fun res2 hres => absurd hres (by simp)⟩
              rintro n hn
              obtain rfl := Except.ok.inj hn
              exact ⟨rfl, by simp⟩

/-- The name of a packet is too long: a block stays behind. -/
def nameTooLong (addPart : List UInt8 → List UInt8 → Nat → Option (List UInt8)) (g : Global σ)
    (fl : Option Nat) (cbstr : List UInt8) : Bool :=
  match strDup g.heap cbstr with
  | (none, _) => false
  | (some cstr, heap) => Path.nameTooLong addPart g.gVolumeName g.locks heap fl cstr.text

/-- `BuildFullName` frees its copy of the string of the packet. -/
theorem buildFullName_asked (g : Global σ) (fl : Option Nat) (cbstr : List UInt8) : ∃ leak,
    Asked w g (g.buildFullName addPart fl cbstr true false).2
      (fullNameBlocks (g.buildFullName addPart fl cbstr true false).1 ++ leak) ∧
    (leak ≠ [] ↔ nameTooLong addPart g fl cbstr = true) ∧
    ∀ n, (g.buildFullName addPart fl cbstr true false).1 = .ok n → leak = [] ∧ n.name ≠ none := by
  have hstr := owns_strDup g.heap cbstr
  unfold buildFullName nameTooLong
  generalize strDup g.heap cbstr = d at hstr ⊢
  obtain ⟨_ | cstr, h₁⟩ := d
  · exact ⟨[], (Asked.refl w g).withHeap hstr, by simp, fun n hn => absurd hn (by simp)⟩
  · obtain ⟨leak, howns, hlong, hok, -⟩ :=
      @cBuildFullName_owns addPart g.gVolumeName g.locks h₁ fl cstr.text
    dsimp only
    generalize cBuildFullName addPart g.gVolumeName g.locks h₁ fl cstr.text true
      false = r at howns hok ⊢
    have hall : Heap.Owns g.heap r.2 (cstr.addr :: (fullNameBlocks r.1 ++ leak)) :=
      (Heap.Owns.trans hstr howns).perm List.perm_append_comm
    exact ⟨leak, (Asked.refl w g).withHeap hall.free, hlong, hok⟩

/-- The blocks of what `LRootLocateDir` returns. -/
def locatedBlocks : Except Int Located → List Nat
  | .ok at_ => at_.fullName.addr :: Str.block at_.name
  | .error _ => []

theorem lRootLocateDir_asked (g : Global σ) (fl : Option Nat) (relPath : List UInt8) : ∃ leak,
    Asked w g (g.lRootLocateDir w addPart fl relPath).2
      (locatedBlocks (g.lRootLocateDir w addPart fl relPath).1 ++ leak) ∧
    (leak ≠ [] ↔ nameTooLong addPart g fl relPath = true) ∧
    ∀ at_, (g.lRootLocateDir w addPart fl relPath).1 = .ok at_ → leak = [] ∧ at_.name ≠ none := by
  obtain ⟨leak, hfull, hlong, hok⟩ := @buildFullName_asked σ w addPart g fl relPath
  unfold lRootLocateDir
  generalize g.buildFullName addPart fl relPath true false = r at hfull hok ⊢
  obtain ⟨res2 | full, g₁⟩ := r
  · exact ⟨leak, hfull, hlong, fun at_ hat => absurd hat (by simp)⟩
  · have hdir := hfull.trans (rootLocateDir_asked (w := w) g₁ full.fullName.text)
    dsimp only at hdir ⊢
    generalize g₁.rootLocateDir w full.fullName.text = d at hdir ⊢
    obtain ⟨res2 | parDir, g₂⟩ := d
    · have hnames : Asked w g g₂ ((full.fullName.addr :: Str.block full.name) ++ leak) := hdir
      exact ⟨leak, hnames.deleteNames rfl, hlong, fun at_ hat => absurd hat (by simp)⟩
    · refine ⟨leak, hdir, hlong, ?_⟩
      rintro at_ hat
      obtain rfl := Except.ok.inj hat
      exact hok full rfl

end Locate

end Global

end Anfs.Lock
