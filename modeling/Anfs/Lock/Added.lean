import Anfs.Lock.Owned

/-!
# What the actions add to the lists

An action that opens a file or grants a lock adds one new lock, one new handle or both, or it
leaves the lists as they are. This holds wherever it fails.
-/
namespace Anfs.Lock
open Anfs.Cache Anfs.Lib Anfs.Nfs Anfs.Path Anfs.Tree Anfs.Xdr
open scoped List

/-- The block of a handle. -/
def fileBlock (f : Option EFH) : List Nat := (f.map EFH.addr).toList

@[simp] theorem fileBlock_none : fileBlock none = [] := rfl

@[simp] theorem fileBlock_some (f : EFH) : fileBlock (some f) = [f.addr] := rfl

theorem lockRemove_notMem {locks : List ELOCK} {fl : Nat} (h : ∀ l ∈ locks, l.addr ≠ fl) :
    lockRemove locks fl = (none, locks) := by
  refine Prod.ext (List.find?_eq_none.mpr fun l hl => ?_) (List.eraseP_of_forall_not fun l hl => ?_)
  · simpa using h l hl
  · simpa using h l hl

namespace Global

variable {σ : Type}

/-- From `g` to `g'` the lock `l` and the handle `f` are new, and the blocks `bs` are left. -/
structure Adds (g g' : Global σ) (l : Option ELOCK) (f : Option EFH) (bs : List Nat) : Prop where
  locks : g'.locks = l.toList ++ g.locks
  files : g'.files = f.toList ++ g.files
  running : g'.running = g.running
  lastId : g'.lastId = if f.isSome then long (g.lastId + 1) else g.lastId
  id : ∀ f' ∈ f, f'.efhId = g'.lastId
  freshLock : ∀ l' ∈ l, l'.addr ∉ g.heap.live
  freshFile : ∀ f' ∈ f, f'.addr ∉ g.heap.live
  heap : Heap.Owns g.heap g'.heap (bs ++ (lockBlocks l ++ fileBlock f))

/-- A lock that is not in the list yet. -/
structure Makes (g : Global σ) (r : Except Int ELOCK × Global σ) : Prop where
  kept : Kept g r.2 (lockBlocks r.1.toOption)
  fresh : ∀ l, r.1 = .ok l → l.addr ∉ g.heap.live

section Adds
variable {g g₁ g₂ : Global σ} {l : Option ELOCK} {f : Option EFH} {bs cs : List Nat}

theorem Kept.adds (h : Kept g g₁ bs) : Adds g g₁ none none bs where
  locks := h.locks
  files := h.files
  running := h.running
  lastId := h.lastId
  id := fun _ hf => absurd hf (by simp)
  freshLock := fun _ hl => absurd hl (by simp)
  freshFile := fun _ hf => absurd hf (by simp)
  heap := h.heap.perm (by simp)

theorem Adds.perm (h : Adds g g₁ l f bs) (hp : bs ~ cs) : Adds g g₁ l f cs :=
  { h with heap := h.heap.perm (hp.append_right _) }

theorem Adds.after (h : Kept g g₁ cs) (h' : Adds g₁ g₂ l f bs) : Adds g g₂ l f (bs ++ cs) where
  locks := by rw [h'.locks, h.locks]
  files := by rw [h'.files, h.files]
  running := h'.running.trans h.running
  lastId := by rw [h'.lastId, h.lastId]
  id := h'.id
  freshLock := fun l' hl => h.heap.notMem (h'.freshLock l' hl)
  freshFile := fun f' hf => h.heap.notMem (h'.freshFile f' hf)
  heap := by
    refine (h.heap.trans h'.heap).perm ?_
    generalize lockBlocks l ++ fileBlock f = new
    rw [List.append_assoc, List.append_assoc]
    exact List.perm_append_comm.append_left bs

theorem Adds.withHeap (h : Adds g g₁ l f bs) {hp : Heap}
    (ho : Heap.Owns g.heap hp (cs ++ (lockBlocks l ++ fileBlock f))) :
    Adds g { g₁ with heap := hp } l f cs := { h with heap := ho }

theorem Adds.setRes (h : Adds g g₁ l f bs) (res1 : Res1) (res2 : Int) :
    Adds g (g₁.setRes res1 res2) l f bs := { h with }

theorem Adds.setRes1 (h : Adds g g₁ l f bs) (res1 : Res1) :
    Adds g (g₁.setRes1 res1) l f bs := { h with }

theorem Adds.deleteNames {fullName : Str} {name : Option Str}
    (h : Adds g g₁ l f ((fullName.addr :: Str.block name) ++ bs)) :
    Adds g (g₁.deleteNames fullName name) l f bs := by
  have hall : Heap.Owns g.heap g₁.heap
      (fullName.addr :: (Str.block name ++ (bs ++ (lockBlocks l ++ fileBlock f)))) := by
    refine h.heap.perm (List.Perm.of_eq ?_)
    simp
  have hfull : Heap.Owns g.heap (fnDelete g₁.heap (some fullName))
      (Str.block name ++ (bs ++ (lockBlocks l ++ fileBlock f))) := hall.free
  exact h.withHeap (Owns.fnDelete hfull)

end Adds

section Grants
variable {w : World σ} {addPart : List UInt8 → List UInt8 → Nat →
  Option (List UInt8)} {g : Global σ}

theorem Makes.error {g₁ : Global σ} (h : Kept g g₁ []) (res2 : Int) : Makes g (.error res2, g₁) :=
  ⟨h, fun _ hl => absurd hl (by simp)⟩

theorem Makes.ok {g₁ : Global σ} {l : ELOCK} (h : Kept g g₁ (lockBlocks (some l)))
    (hl : l.addr ∉ g.heap.live) : Makes g (.ok l, g₁) := by
  refine ⟨h, fun l' hl' => ?_⟩
  obtain rfl : l = l' := Except.ok.inj hl'
  exact hl

theorem Makes.after {g₁ : Global σ} {r : Except Int ELOCK × Global σ} (h : Kept g g₁ [])
    (h' : Makes g₁ r) : Makes g r where
  kept := by
    have hall := h.trans h'.kept
    rwa [List.append_nil] at hall
  fresh := fun l hl => h.heap.notMem (h'.fresh l hl)

/-- The fields of the lock that are filled in later do not matter. -/
theorem Makes.map {r : Except Int ELOCK × Global σ} (h : Makes g r) {fill : ELOCK → ELOCK}
    (hblocks : ∀ l, lockBlocks (some (fill l)) = lockBlocks (some l)) :
    Makes g (r.1.map fill, r.2) := by
  obtain ⟨res2 | l, g₁⟩ := r
  · exact h
  · have haddr : (fill l).addr = l.addr := (List.cons.inj (hblocks l)).1
    have hkept : Kept g g₁ (lockBlocks (some (fill l))) := by
      rw [hblocks]
      exact h.kept
    exact Makes.ok hkept (haddr ▸ h.fresh l rfl)

/-- `lock_Create` as the locking functions use it. -/
theorem lockCreate_makes (g : Global σ) (fullName name : List UInt8) (nfstype : UInt32) (mode : Int)
    {l : Option ELOCK} {h : Heap} (hl : lockCreate g.heap fullName name nfstype mode = (l, h)) :
    Kept g { g with heap := h } (lockBlocks l) ∧ ∀ l' ∈ l, l'.addr ∉ g.heap.live := by
  have howns := owns_lockCreate g.heap fullName name nfstype mode
  rw [hl] at howns
  refine ⟨(Kept.refl g).withHeap howns, fun l' hl' => ?_⟩
  rw [Option.mem_def.mp hl'] at hl
  exact lockCreate_fresh hl

theorem dupELock_makes (g : Global σ) (oldLock : Option ELOCK)
    (name fullName : List UInt8) (mode : Int) :
    Makes g (g.dupELock oldLock name fullName mode) := by
  unfold dupELock
  split
  · exact Makes.error (Kept.refl g) errorObjectInUse
  · split
    · next heap hcreate => exact Makes.error (lockCreate_makes g _ _ _ _ hcreate).1 errorNoFreeStore
    · next l heap hcreate =>
      obtain ⟨hkept, hfresh⟩ := lockCreate_makes g _ _ _ _ hcreate
      cases oldLock with
      | none => exact Makes.ok hkept (hfresh l rfl)
      | some old => exact Makes.ok hkept (hfresh l rfl)

theorem newObjectLock_makes (g : Global σ) (parDir : Nat)
    (name fullName : List UInt8) (mode : Int) :
    Makes g (g.newObjectLock w parDir name fullName mode) := by
  unfold newObjectLock
  generalize g.caches.getNameEntry w parDir name true = r
  obtain ⟨res2 | ⟨nent, ace⟩, caches⟩ := r
  · exact Makes.error ((Kept.refl g).withCaches caches) res2
  · dsimp only
    refine Makes.map (Makes.after ((Kept.refl g).withCaches caches) ?_) fun l => rfl
    split
    · exact dupELock_makes _ _ _ _ _
    · split
      · exact Makes.error (Kept.refl _) errorIsSoftLink
      · split
        · next heap hcreate =>
          exact Makes.error (lockCreate_makes { g with caches := caches } _ _ _ _ hcreate).1
            errorNoFreeStore
        · next l heap hcreate =>
          obtain ⟨hkept, hfresh⟩ := lockCreate_makes { g with caches := caches } _ _ _ _ hcreate
          exact Makes.ok hkept (hfresh l rfl)

theorem newRootLock_makes (g : Global σ) (name fullName : List UInt8) (mode : Int) :
    Makes g (g.newRootLock w name fullName mode) := by
  have hdup := dupELock_makes g none name fullName mode
  unfold newRootLock
  generalize g.dupELock none name fullName mode = r at hdup ⊢
  obtain ⟨res2 | l, g₁⟩ := r
  · exact hdup
  · dsimp only
    split
    · next res2 caches _ =>
      have hfreed : Heap.Owns g.heap (lockDelete g₁.heap (some l)) [] := by
        have howns : Heap.Owns g.heap g₁.heap (lockBlocks (some l) ++ []) := hdup.kept.heap
        exact Owns.lockDelete howns
      exact Makes.error ((hdup.kept.withCaches caches).withHeap hfreed) res2
    · next attr caches _ => exact Makes.ok (hdup.kept.withCaches caches) (hdup.fresh l rfl)

/-- The lock that `RootLocateAndLock` inserts. -/
theorem Makes.insert {g₁ : Global σ} {l : ELOCK} (h : Makes g (.ok l, g₁)) :
    Adds g { g₁ with locks := lockInsert g₁.locks l } (some l) none [] where
  locks := by
    have hlocks : g₁.locks = g.locks := h.kept.locks
    dsimp only
    rw [hlocks]
    rfl
  files := h.kept.files
  running := h.kept.running
  lastId := h.kept.lastId
  id := fun _ hf => absurd hf (by simp)
  freshLock := fun l' hl => h.fresh l' (by rw [Option.some.inj hl])
  freshFile := fun _ hf => absurd hf (by simp)
  heap := h.kept.heap

/-- `RootLocateAndLock` adds the lock that it returns. -/
theorem rootLocateAndLock_adds (g : Global σ) (fl : Option Nat)
    (relPath : List UInt8) (mode : Int) :
    ∃ leak, Adds g (g.rootLocateAndLock w addPart fl relPath mode).2
      (g.rootLocateAndLock w addPart fl relPath mode).1.toOption none leak := by
  unfold rootLocateAndLock
  split
  · exact ⟨[], (Kept.refl g).adds⟩
  · obtain ⟨leak, hfull, -, -, -⟩ :=
      @cBuildFullName_owns addPart g.gVolumeName g.locks g.heap fl relPath
    generalize cBuildFullName addPart g.gVolumeName g.locks g.heap fl relPath true
      false = r at hfull ⊢
    obtain ⟨res2 | full, heap⟩ := r
    · exact ⟨leak, ((Kept.refl g).withHeap hfull).adds⟩
    · have hdir := ((Kept.refl g).withHeap hfull).trans
        (rootLocateDir_asked (w := w) { g with heap := heap } full.fullName.text).toKept
      dsimp only at hdir ⊢
      generalize Global.rootLocateDir w { g with heap := heap } full.fullName.text = d at hdir ⊢
      have hnames : Kept g d.2 ((full.fullName.addr :: Str.block full.name) ++ leak) := hdir
      obtain ⟨res2 | parDir, g₁⟩ := d
      · exact ⟨leak, hnames.adds.deleteNames⟩
      · have hnew : Makes g₁ (if full.fullNameLen ≠ 0 then
            g₁.newObjectLock w parDir (textOf full.name) full.fullName.text mode
            else g₁.newRootLock w (textOf full.name) full.fullName.text mode) := by
          split
          · exact newObjectLock_makes g₁ parDir _ _ mode
          · exact newRootLock_makes g₁ _ _ mode
        dsimp only at hnames ⊢
        generalize (if full.fullNameLen ≠ 0 then
          g₁.newObjectLock w parDir (textOf full.name) full.fullName.text mode
          else g₁.newRootLock w (textOf full.name) full.fullName.text mode) = n at hnew ⊢
        obtain ⟨res2 | newelock, g₂⟩ := n
        · have hall : Adds g g₂ none none
            ([] ++ ((full.fullName.addr :: Str.block full.name) ++ leak)) :=
            Adds.after hnames hnew.kept.adds
          exact ⟨leak, hall.deleteNames⟩
        · exact ⟨leak, (Adds.after hnames hnew.insert).deleteNames⟩

/-- The lock that an action gives to the client. -/
def granted : Res1 → Option Nat
  | .num _ => none
  | .lock fl => some fl

/-- The action gives the client the lock that it adds, if it adds one. -/
def Grants (g g' : Global σ) : Prop :=
  ∃ l bs, Adds g g' l none bs ∧ granted g'.gRes1 = l.map ELOCK.addr

theorem Kept.grants {g₁ : Global σ} {bs : List Nat} (h : Kept g g₁ bs)
    (hres : granted g₁.gRes1 = none) :
    Grants g g₁ := ⟨none, bs, h.adds, hres⟩

/-- The result of `RootLocateAndLock` becomes the reply, and the copy of the path is freed. -/
theorem Adds.reply {r : Except Int ELOCK × Global σ} {path : Str} {bs : List Nat}
    (h : Adds g r.2 r.1.toOption none (bs ++ [path.addr])) :
    Grants g { r.2.lockRes r.1 with heap := fnDelete (r.2.lockRes r.1).heap (some path) } := by
  have hfirst : Adds g r.2 r.1.toOption none ([path.addr] ++ bs) := h.perm List.perm_append_comm
  obtain ⟨res2 | l, g₁⟩ := r
  · have hres := hfirst.setRes DOSFALSE res2
    exact ⟨none, bs, hres.withHeap hres.heap.free, rfl⟩
  · have hres := hfirst.setRes (.lock l.addr) 0
    exact ⟨some l, bs, hres.withHeap hres.heap.free, rfl⟩

end Grants

section Actions
variable {w : Requests σ} {addPart : List UInt8 → List UInt8 → Nat → Option (List UInt8)}

theorem actLOCATEOBJECT_grants (g : Global σ) (fl : Option Nat) (cbstr : List UInt8) (mode : Int) :
    Grants g (g.actLOCATEOBJECT w addPart fl cbstr mode) := by
  have hstr := owns_strDup g.heap cbstr
  unfold actLOCATEOBJECT
  generalize strDup g.heap cbstr = d at hstr ⊢
  obtain ⟨_ | path, heap⟩ := d
  · exact Kept.grants (((Kept.refl g).withHeap hstr).setRes DOSFALSE errorNoFreeStore) rfl
  · obtain ⟨leak, hadds⟩ := @rootLocateAndLock_adds σ w.toWorld addPart { g with heap := heap }
      fl path.text mode
    exact (Adds.after ((Kept.refl g).withHeap hstr) hadds).reply

theorem doActCOPYDIR_grants (g : Global σ) (elock : Option ELOCK) :
    Grants g (g.doActCOPYDIR elock) := by
  unfold doActCOPYDIR
  cases elock with
  | none => exact Kept.grants ((Kept.refl g).setRes DOSFALSE errorInvalidLock) rfl
  | some elock =>
      dsimp only
      split
      · exact Kept.grants ((Kept.refl g).setRes DOSFALSE errorObjectInUse) rfl
      · have howns := owns_lockDup g.heap elock
        have hfresh : ∀ {l h}, lockDup g.heap elock = (some l, h) →
          l.addr ∉ g.heap.live := lockDup_fresh
        generalize lockDup g.heap elock = d at howns hfresh ⊢
        obtain ⟨_ | nel, heap⟩ := d
        · exact Kept.grants (((Kept.refl g).withHeap howns).setRes DOSFALSE errorNoFreeStore) rfl
        · have hnew : Makes g (.ok nel, { g with heap := heap }) :=
            Makes.ok ((Kept.refl g).withHeap howns) (hfresh rfl)
          exact ⟨some nel, [], hnew.insert.setRes1 (.lock nel.addr), rfl⟩

theorem actCOPYDIR_grants (g : Global σ) (fl : Option Nat) : Grants g (g.actCOPYDIR fl) := by
  cases fl with
  | none => exact Kept.grants ((Kept.refl g).setRes DOSFALSE 0) rfl
  | some fl => exact doActCOPYDIR_grants g _

theorem actCOPYDIRFH_grants (g : Global σ) (arg1 : Int) : Grants g (g.actCOPYDIRFH arg1) := by
  unfold actCOPYDIRFH
  split
  · exact Kept.grants ((Kept.refl g).setRes DOSTRUE errorFileNotObject) rfl
  · exact doActCOPYDIR_grants g _

theorem doActPARENT_grants (g : Global σ) (oldelock : Option ELOCK) :
    Grants g (g.doActPARENT w addPart oldelock) := by
  cases oldelock with
  | none => exact Kept.grants ((Kept.refl g).setRes DOSFALSE errorInvalidLock) rfl
  | some oldelock =>
      unfold doActPARENT
      dsimp only
      split
      · exact Kept.grants ((Kept.refl g).setRes DOSFALSE 0) rfl
      · have hstr := owns_strDup g.heap (pathPart oldelock.fullName.text)
        generalize strDup g.heap (pathPart oldelock.fullName.text) = d at hstr ⊢
        obtain ⟨_ | dirName, heap⟩ := d
        · exact Kept.grants (((Kept.refl g).withHeap hstr).setRes DOSFALSE errorNoFreeStore) rfl
        · obtain ⟨leak, hadds⟩ :=
            @rootLocateAndLock_adds σ w.toWorld addPart { g with heap := heap } none
              dirName.text SHARED_LOCK
          exact (Adds.after ((Kept.refl g).withHeap hstr) hadds).reply

theorem actPARENTFH_grants (g : Global σ) (arg1 : Int) :
    Grants g (g.actPARENTFH w addPart arg1) := by
  unfold actPARENTFH
  split
  · exact Kept.grants ((Kept.refl g).setRes DOSTRUE errorFileNotObject) rfl
  · exact doActPARENT_grants g _

/-- `id` is the id of the handle that is added, if one is; a new handle has the new lock. -/
def Opens (g g' : Global σ) (id : Option Int) (bs : List Nat) : Prop :=
  ∃ l f, Adds g g' l f bs ∧ f.map EFH.efhId = id ∧ f.map EFH.efhELock = l.map ELOCK.addr

theorem Kept.opens {g g₁ : Global σ} {bs : List Nat} (h : Kept g g₁ bs) : Opens g g₁ none bs :=
  ⟨none, none, h.adds, rfl, rfl⟩

section Opens
variable {g g₁ g₂ : Global σ} {id : Option Int} {bs cs : List Nat}

theorem Opens.after (h : Kept g g₁ cs) : Opens g₁ g₂ id bs → Opens g g₂ id (bs ++ cs)
  | ⟨l, f, hadds, hid, hlock⟩ => ⟨l, f, Adds.after h hadds, hid, hlock⟩

theorem Opens.perm (hp : bs ~ cs) : Opens g g₁ id bs → Opens g g₁ id cs
  | ⟨l, f, hadds, hid, hlock⟩ => ⟨l, f, hadds.perm hp, hid, hlock⟩

theorem Opens.setRes (res1 : Res1) (res2 : Int) :
    Opens g g₁ id bs → Opens g (g₁.setRes res1 res2) id bs
  | ⟨l, f, hadds, hid, hlock⟩ => ⟨l, f, hadds.setRes res1 res2, hid, hlock⟩

theorem Opens.setRes1 (res1 : Res1) : Opens g g₁ id bs → Opens g (g₁.setRes1 res1) id bs
  | ⟨l, f, hadds, hid, hlock⟩ => ⟨l, f, hadds.setRes1 res1, hid, hlock⟩

theorem Opens.deleteNames {fullName : Str} {name : Option Str} :
    Opens g g₁ id ((fullName.addr :: Str.block name) ++ bs) →
      Opens g (g₁.deleteNames fullName name) id bs
  | ⟨l, f, hadds, hid, hlock⟩ => ⟨l, f, hadds.deleteNames, hid, hlock⟩

end Opens

theorem Kept.setEnv {g g₁ : Global σ} {bs : List Nat} (h : Kept g g₁ bs) (env : σ) :
    Kept g (g₁.setEnv env) bs := h.withCaches _

/-- `fh_Create`. -/
theorem fhCreate_cases (g : Global σ) (elock : Nat) (mode : Int) :
    (∃ h, g.fhCreate elock mode = (none, { g with heap := h }) ∧ Heap.Owns g.heap h []) ∨
      ∃ h efh, g.fhCreate elock mode =
        (some efh, { g with heap := h, lastId := long (g.lastId + 1) }) ∧
        Heap.Owns g.heap h [efh.addr] ∧ efh.addr ∉ g.heap.live ∧ efh.efhId = long (g.lastId + 1) ∧
        efh.efhELock = elock := by
  have howns := Heap.owns_alloc g.heap
  unfold fhCreate
  cases halloc : g.heap.alloc with
  | mk a h =>
      rw [halloc] at howns
      cases a with
      | none => exact .inl ⟨h, rfl, howns⟩
      | some a => exact .inr ⟨h, _, rfl, howns, Heap.notMem_of_alloc halloc, rfl, rfl⟩

/-- The lock and the handle of an open file. -/
theorem Makes.open {g g₁ : Global σ} {l : ELOCK} (h : Makes g (.ok l, g₁)) {hp : Heap} {f : EFH}
    (ho : Heap.Owns g₁.heap hp [f.addr]) (hf : f.addr ∉ g₁.heap.live)
    (hid : f.efhId = long (g₁.lastId + 1)) :
    Adds g { g₁ with
      heap := hp, lastId := long (g₁.lastId + 1)
      files := fhInsert g₁.files f, locks := lockInsert g₁.locks l } (some l) (some f) [] where
  locks := h.insert.locks
  files := by
    have hfiles : g₁.files = g.files := h.kept.files
    dsimp only
    rw [hfiles]
    rfl
  running := h.kept.running
  lastId := by
    have hlast : g₁.lastId = g.lastId := h.kept.lastId
    dsimp only
    rw [hlast]
    rfl
  id := fun f' hf' => by rw [← Option.some.inj hf', hid]
  freshLock := fun l' hl => h.fresh l' (by rw [Option.some.inj hl])
  freshFile := fun f' hf' => by
    obtain rfl := Option.some.inj hf'
    exact h.kept.heap.notMem hf
  heap := (h.kept.heap.trans ho).perm List.perm_append_comm

theorem findOrCreate_kept (g : Global σ) (dirFh name : List UInt8) (fileMode : Int) :
    Kept g (g.findOrCreate w dirFh name fileMode).2 [] := by
  unfold findOrCreate
  split
  · exact (Kept.refl g).setEnv _
  · split
    · exact (Kept.refl g).setEnv _
    · exact (Kept.refl g).setEnv _

theorem replaceFile_kept (g : Global σ) (dirFh name : List UInt8) :
    Kept g (g.replaceFile w dirFh name).2 [] := by
  unfold replaceFile
  dsimp only
  split
  · exact (Kept.refl g).setEnv _
  · split
    · exact (Kept.refl g).setEnv _
    · split
      · exact (Kept.refl g).setEnv _
      · exact (Kept.refl g).setEnv _

/-- `act_FINDREADWRITE` frees the lock when there is no memory for the handle. -/
theorem openFound_opens (g : Global σ) (dres : Diropokres) (fullName name : List UInt8)
    (fileMode mode : Int) : Opens g (g.openFound dres fullName name fileMode mode).2
      (g.openFound dres fullName name fileMode mode).1.toOption [] := by
  unfold openFound
  split
  · exact (Kept.refl g).opens
  · split
    · exact (Kept.refl g).opens
    · split
      · next heap hcreate => exact (lockCreate_makes g _ _ _ _ hcreate).1.opens
      · next l heap hcreate =>
        obtain ⟨hkept, hfresh⟩ := lockCreate_makes g _ _ _ _ hcreate
        dsimp only
        rcases fhCreate_cases { g with heap := heap } l.addr fileMode with
          ⟨h, hrun, howns⟩ | ⟨h, efh, hrun, howns, hnew, hid, hlock⟩
        · rw [hrun]
          have hall : Heap.Owns g.heap h (lockBlocks (some l) ++ []) := hkept.heap.trans howns
          exact Kept.opens (hkept.withHeap (Owns.lockDelete hall))
        · rw [hrun]
          have hmade : Makes g (.ok { l with
              nfsFh := dres.file, nfsType := NFREG, flKey := dres.attributes.fileid },
              { g with heap := heap }) := Makes.ok hkept (hfresh l rfl)
          refine ⟨_, _, hmade.open howns hnew hid, rfl, ?_⟩
          simp [hlock]

/-- `act_FINDOUTPUT` does not find the lock in the list then, and does not free it. -/
theorem openCreated_opens (g : Global σ) (dres : Diropokres) (fullName name : List UInt8)
    (hlive : ∀ l ∈ g.locks, l.addr ∈ g.heap.live) :
    ∃ bs, Opens g (g.openCreated dres fullName name).2
      (g.openCreated dres fullName name).1.toOption bs := by
  unfold openCreated
  split
  · next heap hcreate => exact ⟨[], (lockCreate_makes g _ _ _ _ hcreate).1.opens⟩
  · next l heap hcreate =>
    obtain ⟨hkept, hfresh⟩ := lockCreate_makes g _ _ _ _ hcreate
    dsimp only
    rcases fhCreate_cases { g with heap := heap } l.addr MODE_NEWFILE with
      ⟨h, hrun, howns⟩ | ⟨h, efh, hrun, howns, hnew, hid, hlock⟩
    · rw [hrun]
      have hout : lockRemove g.locks l.addr = (none, g.locks) :=
        lockRemove_notMem fun l' hl' haddr => hfresh l rfl (haddr ▸ hlive l' hl')
      have hall : Heap.Owns g.heap h (lockBlocks (some l) ++ []) := hkept.heap.trans howns
      have hleft := hkept.withHeap hall
      refine ⟨lockBlocks (some l) ++ [], Kept.opens ?_⟩
      dsimp only at hleft ⊢
      rw [hout]
      exact hleft
    · rw [hrun]
      have hmade : Makes g (.ok { l with
          nfsFh := dres.file, nfsType := NFREG, flKey := dres.attributes.fileid },
          { g with heap := heap }) := Makes.ok hkept (hfresh l rfl)
      refine ⟨[], _, _, hmade.open howns hnew hid, rfl, ?_⟩
      simp [hlock]

theorem actFINDREADWRITE_opens (g : Global σ) (fl : Option Nat) (cbstr : List UInt8)
    (fileMode mode : Int) :
    ∃ bs, Opens g (g.actFINDREADWRITE w addPart fl cbstr fileMode mode).2
      (g.actFINDREADWRITE w addPart fl cbstr fileMode mode).1 bs := by
  obtain ⟨leak, hat, -, -⟩ := @lRootLocateDir_asked σ w.toWorld addPart g fl cbstr
  unfold actFINDREADWRITE
  generalize g.lRootLocateDir w.toWorld addPart fl cbstr = r at hat ⊢
  obtain ⟨res2 | at_, g₁⟩ := r
  · exact ⟨_, (hat.toKept.setRes DOSFALSE res2).opens⟩
  · have hnames : Kept g g₁ ((at_.fullName.addr :: Str.block at_.name) ++ leak) := hat.toKept
    have hsent := hnames.trans (findOrCreate_kept (w := w) g₁ (g₁.caches.dces at_.parDir).nfsFh
      (textOf at_.name) fileMode)
    dsimp only at hsent ⊢
    generalize g₁.findOrCreate w (g₁.caches.dces at_.parDir).nfsFh (textOf at_.name)
      fileMode = d at hsent ⊢
    obtain ⟨res2 | dres, g₂⟩ := d
    · exact ⟨leak, (Opens.deleteNames hsent.opens).setRes DOSFALSE res2⟩
    · have hopen := openFound_opens g₂ dres at_.fullName.text (textOf at_.name) fileMode mode
      dsimp only at hsent hopen ⊢
      generalize g₂.openFound dres at_.fullName.text (textOf at_.name) fileMode mode = o at hopen ⊢
      have hall : Opens g o.2 o.1.toOption ((at_.fullName.addr :: Str.block at_.name) ++ leak) :=
        (Opens.after hsent hopen).perm (List.Perm.refl _)
      obtain ⟨res2 | id, g₃⟩ := o
      · exact ⟨leak, hall.deleteNames.setRes DOSFALSE res2⟩
      · exact ⟨leak, hall.deleteNames.setRes DOSTRUE 0⟩

theorem actFINDOUTPUT_opens (g : Global σ) (fl : Option Nat) (cbstr : List UInt8)
    (hlive : ∀ l ∈ g.locks, l.addr ∈ g.heap.live) :
    ∃ bs, Opens g (g.actFINDOUTPUT w addPart fl cbstr).2
      (g.actFINDOUTPUT w addPart fl cbstr).1 bs := by
  obtain ⟨leak, hat, -, -⟩ := @lRootLocateDir_asked σ w.toWorld addPart g fl cbstr
  unfold actFINDOUTPUT
  generalize g.lRootLocateDir w.toWorld addPart fl cbstr = r at hat ⊢
  obtain ⟨res2 | at_, g₁⟩ := r
  · exact ⟨_, (hat.toKept.setRes DOSFALSE res2).opens⟩
  · have hnames : Kept g g₁ ((at_.fullName.addr :: Str.block at_.name) ++ leak) := hat.toKept
    have hsent := hnames.trans (replaceFile_kept (w := w) g₁ (g₁.caches.dces at_.parDir).nfsFh
      (textOf at_.name))
    dsimp only at hsent ⊢
    generalize g₁.replaceFile w (g₁.caches.dces at_.parDir).nfsFh (textOf at_.name) = d at hsent ⊢
    obtain ⟨res2 | dres, g₂⟩ := d
    · exact ⟨leak, (Opens.deleteNames hsent.opens).setRes DOSFALSE res2⟩
    · have hstill : ∀ l ∈ g₂.locks, l.addr ∈ g₂.heap.live := by
        intro l hl
        have hlocks : g₂.locks = g.locks := hsent.locks
        have hold : l.addr ∈ g.heap.live := hlive l (hlocks ▸ hl)
        exact hsent.heap.symm.subset (List.mem_append_right _ hold)
      obtain ⟨bs, hopen⟩ := openCreated_opens g₂ dres at_.fullName.text (textOf at_.name) hstill
      dsimp only at hsent hopen ⊢
      generalize g₂.openCreated dres at_.fullName.text (textOf at_.name) = o at hopen ⊢
      have hperm : bs ++ ([] ++ (at_.fullName.addr :: Str.block at_.name ++ leak)) ~
          (at_.fullName.addr :: Str.block at_.name) ++ (leak ++ bs) := by
        rw [← List.append_assoc (at_.fullName.addr :: Str.block at_.name)]
        exact List.perm_append_comm
      have hall : Opens g o.2 o.1.toOption
        ((at_.fullName.addr :: Str.block at_.name) ++ (leak ++ bs)) :=
        (Opens.after hsent hopen).perm hperm
      obtain ⟨res2 | id, g₃⟩ := o
      · exact ⟨_, hall.deleteNames.setRes DOSFALSE res2⟩
      · exact ⟨_, hall.deleteNames.setRes1 DOSTRUE⟩

/-- `act_FH_FROM_LOCK` adds no lock; the handle gets the one of the packet. -/
theorem actFHFROMLOCK_adds (g : Global σ) (fl : Option Nat) : ∃ f,
    Adds g (g.actFHFROMLOCK w fl).2 none f [] ∧ f.map EFH.efhId = (g.actFHFROMLOCK w fl).1 ∧
      ∀ f' ∈ f, fl = some f'.efhELock ∧ (lockLookup g.locks f'.efhELock).isSome := by
  have hnone : ∀ {g₁}, Kept g g₁ [] → ∃ f, Adds g g₁ none f [] ∧
    f.map EFH.efhId = (none : Option Int) ∧
      ∀ f' ∈ f, fl = some f'.efhELock ∧ (lockLookup g.locks f'.efhELock).isSome :=
    fun h => ⟨none, h.adds, rfl, fun _ hf => absurd hf (by simp)⟩
  cases hfind : fl.bind (lockLookup g.locks) with
  | none =>
      unfold actFHFROMLOCK
      rw [hfind]
      exact hnone ((Kept.refl g).setRes DOSFALSE errorInvalidLock)
  | some elock =>
      obtain ⟨fl, rfl, hlook⟩ := Option.bind_eq_some_iff.mp hfind
      have haddr : elock.addr = fl := by simpa using List.find?_some hlook
      unfold actFHFROMLOCK
      rw [hfind]
      dsimp only
      generalize w.getAttr g.caches.env elock.nfsFh = a
      obtain ⟨res2 | attr, env⟩ := a
      · exact hnone (((Kept.refl g).setEnv env).setRes DOSFALSE res2)
      · dsimp only
        split
        · exact hnone (((Kept.refl g).setEnv env).setRes DOSFALSE errorObjectWrongType)
        · generalize (if elock.flAccess = EXCLUSIVE_LOCK then MODE_READWRITE else MODE_OLDFILE) =
            fileMode
          rcases fhCreate_cases (g.setEnv env) elock.addr fileMode with
            ⟨h, hrun, howns⟩ | ⟨h, efh, hrun, howns, hnew, hid, hlock⟩
          · rw [hrun]
            exact hnone ((((Kept.refl g).setEnv env).withHeap howns).setRes DOSFALSE
              errorNoFreeStore)
          · rw [hrun]
            have hkey : efh.efhELock = fl := hlock.trans haddr
            refine ⟨some { efh with efhFileLen := long attr.size.toNat }, ?_, rfl, fun f' hf' => ?_⟩
            · exact {
                locks := rfl, files := rfl, running := rfl, lastId := rfl
                id := fun f' hf' => by
                  rw [← Option.some.inj hf']
                  exact hid
                freshLock := fun _ hl => absurd hl (by simp)
                freshFile := fun f' hf' => by
                  rw [← Option.some.inj hf']
                  exact hnew
                heap := howns }
            · obtain rfl := Option.some.inj hf'
              dsimp only
              rw [hkey, hlook]
              exact ⟨rfl, rfl⟩

end Actions

end Global

end Anfs.Lock
