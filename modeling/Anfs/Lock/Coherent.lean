import Anfs.Lock.System
import Anfs.Tree.Coherent

/-!
# The handler knows the names

As long as the requests of an action are about names that the cache has no entry for, or the only
entry is the one that the action takes out, each name entry in the cache is what the server
answers, in every state of every run.
-/
namespace Anfs.Lock
open Anfs.Cache Anfs.Lib Anfs.Nfs Anfs.Path Anfs.Tree Anfs.Xdr

/-- A server whose requests about names leave the other names as they are, and whose other requests
leave all names as they are. -/
structure Serves {σ : Type} (idOf : List UInt8 → UInt32) (names : σ → DirNames)
    (w : ObjRequests σ) : Prop
    extends Exports idOf names w.toWorld where
  create : ∀ e dir name uid gid mode size,
    Elsewhere [(idOf dir, name)] (names e) (names (w.create e dir name uid gid mode size).2)
  remove : ∀ e dir name, Elsewhere [(idOf dir, name)] (names e) (names (w.remove e dir name).2)
  mkDir : ∀ e dir name uid gid mode,
    Elsewhere [(idOf dir, name)] (names e) (names (w.mkDir e dir name uid gid mode).2)
  rmDir : ∀ e dir name, Elsewhere [(idOf dir, name)] (names e) (names (w.rmDir e dir name).2)
  link : ∀ e fh dir name, Elsewhere [(idOf dir, name)] (names e) (names (w.link e fh dir name).2)
  symlink : ∀ e dir name uid gid path,
    Elsewhere [(idOf dir, name)] (names e) (names (w.symlink e dir name uid gid path).2)
  rename : ∀ e dir₁ name₁ dir₂ name₂,
    Elsewhere [(idOf dir₁, name₁), (idOf dir₂, name₂)] (names e)
      (names (w.rename e dir₁ name₁ dir₂ name₂).2)
  notRenamed : ∀ e dir₁ name₁ dir₂ name₂ res2, (w.rename e dir₁ name₁ dir₂ name₂).1 = .error res2 →
    names (w.rename e dir₁ name₁ dir₂ name₂).2 = names e
  flush : ∀ e efh, names (w.flush e efh).2 = names e
  chmod : ∀ e fh mode, names (w.chmod e fh mode).2 = names e ∧ ∀ a, (w.chmod e fh mode).1 = .ok a →
    a.fileid = idOf fh
  setTimes : ∀ e fh tv, names (w.setTimes e fh tv).2 = names e ∧
    ∀ a, (w.setTimes e fh tv).1 = .ok a → a.fileid = idOf fh
  setUidGid : ∀ e fh uid gid, names (w.setUidGid e fh uid gid).2 = names e ∧
    ∀ a, (w.setUidGid e fh uid gid).1 = .ok a → a.fileid = idOf fh

namespace Global
variable {σ : Type} (idOf : List UInt8 → UInt32) (names : σ → DirNames) (N : DirNames)

/-- The server has the names `N`, and the caches of the handler know them. -/
structure Knowing (g : Global σ) : Prop where
  caches : g.caches.Coherent idOf N
  env : names g.caches.env = N
  root : g.gMntAttr.fileid = idOf g.gMntFh

/-- A step that asks the server at most. -/
structure Learns (g g' : Global σ) : Prop where
  knowing : g'.Knowing idOf names N
  known : ∀ id d, g.caches.Knows idOf N id d → g'.caches.Knows idOf N id d

variable {idOf names N} {w : ObjRequests σ} {addPart : List UInt8 → List UInt8 → Nat →
  Option (List UInt8)}
  {g g' g'' : Global σ}

theorem Learns.refl (h : g.Knowing idOf names N) : Learns idOf names N g g := ⟨h, fun _ _ hd => hd⟩

theorem Learns.trans (h : Learns idOf names N g g') (h' : Learns idOf names N g' g'') :
    Learns idOf names N g g'' :=
  ⟨h'.knowing, fun id d hd => h'.known id d (h.known id d hd)⟩

theorem Knowing.congr (h : g.Knowing idOf names N) (hcaches : g'.caches = g.caches)
    (hfh : g'.gMntFh = g.gMntFh)
    (hattr : g'.gMntAttr = g.gMntAttr) : Learns idOf names N g g' := by
  refine ⟨⟨?_, ?_, ?_⟩, fun id d hd => ?_⟩
  · rw [hcaches]
    exact h.caches
  · rw [hcaches]
    exact h.env
  · rw [hfh, hattr]
    exact h.root
  · rw [hcaches]
    exact hd

theorem Knowing.withCaches (h : g.Knowing idOf names N) {caches : Caches σ}
    (hgrows : g.caches.Grows idOf N caches)
    (henv : names caches.env = N) : Learns idOf names N g { g with caches } :=
  ⟨⟨hgrows.coherent, henv, h.root⟩, hgrows.known⟩

theorem Knowing.setEnv (h : g.Knowing idOf names N) {env : σ} (henv : names env = N) :
    Learns idOf names N g (g.setEnv env) :=
  h.withCaches (h.caches.env env) henv

section Locate
variable (hw : Serves idOf names w)
include hw

theorem rootLocateLoop_learns (n : Nat) :
    ∀ {s : Caches σ} {parDir : Nat} {id : UInt32} (u : ScanPath)
    {r : Except Int Nat × Caches σ}, s.Coherent idOf N → names s.env = N →
      s.Knows idOf N id parDir →
    rootLocateLoop w.toWorld n s parDir u = some r →
    s.Grows idOf N r.2 ∧ names r.2.env = N ∧ ∀ d, r.1 = .ok d → ∃ id, r.2.Knows idOf N id d := by
  induction n with
  | zero =>
      intro s parDir id u r _ _ _ hr
      cases hr
  | succ n ih =>
      intro s parDir id u r hs henv hd hr
      unfold rootLocateLoop at hr
      dsimp only at hr
      split at hr
      · obtain rfl := Option.some.inj hr
        exact ⟨Caches.Grows.refl hs, henv, fun d hok => ⟨id, Except.ok.inj hok ▸ hd⟩⟩
      split at hr
      · obtain rfl := Option.some.inj hr
        exact ⟨Caches.Grows.refl hs, henv, fun d hok => ⟨id, Except.ok.inj hok ▸ hd⟩⟩
      obtain ⟨hgrows, -⟩ := Caches.getNameEntry_grows hw.toExports hs henv hd
        (cString (fnScanPath u).2.path (fnScanPath u).1) true
      have henv₁ := Caches.getNameEntry_env (hw.asked N) henv parDir
        (cString (fnScanPath u).2.path (fnScanPath u).1) true
      have hhandle := @Caches.getNameEntry_handle σ idOf names w.toWorld s parDir
        hw.toExports hs.tidy
        (cString (fnScanPath u).2.path (fnScanPath u).1)
      generalize s.getNameEntry w.toWorld parDir
        (cString (fnScanPath u).2.path (fnScanPath u).1) true = q at *
      obtain ⟨res2 | ⟨nent, ace⟩, s₁⟩ := q
      · obtain rfl := Option.some.inj hr
        exact ⟨hgrows, henv₁, fun d hok => absurd hok (by simp)⟩
      dsimp only at hr hgrows henv₁ hhandle
      split at hr
      · obtain rfl := Option.some.inj hr
        exact ⟨hgrows, henv₁, fun d hok => absurd hok (by simp)⟩
      split at hr
      · obtain rfl := Option.some.inj hr
        exact ⟨hgrows, henv₁, fun d hok => absurd hok (by simp)⟩
      rw [← hhandle rfl] at hr
      obtain ⟨hgrows₂, hknown⟩ := Caches.getDirEntry_grows hw.toExports hgrows.coherent
        ((ace.map fun a => (s₁.aces a).nfsFh).getD [])
      have henv₂ := Caches.getDirEntry_env (hw.asked N) henv₁
        (idOf ((ace.map fun a => (s₁.aces a).nfsFh).getD []))
        ((ace.map fun a => (s₁.aces a).nfsFh).getD [])
      generalize s₁.getDirEntry w.toWorld _ _ = q at *
      obtain ⟨res2 | actDir, s₂⟩ := q
      · obtain rfl := Option.some.inj hr
        exact ⟨hgrows.trans hgrows₂, henv₂, fun d hok => absurd hok (by simp)⟩
      · obtain ⟨hgrows₃, hrest⟩ := ih (fnScanPath u).2 hgrows₂.coherent henv₂ (hknown actDir rfl) hr
        exact ⟨(hgrows.trans hgrows₂).trans hgrows₃, hrest⟩

theorem rootLocateDir_learns (h : g.Knowing idOf names N) (fullName : List UInt8) :
    Learns idOf names N g (g.rootLocateDir w.toWorld fullName).2 ∧
      ∀ d, (g.rootLocateDir w.toWorld fullName).1 = .ok d →
        ∃ id, (g.rootLocateDir w.toWorld fullName).2.caches.Knows idOf N id d := by
  unfold rootLocateDir
  generalize strDup g.heap fullName = dup
  obtain ⟨_ | workPath, heap⟩ := dup
  · exact ⟨h.congr rfl rfl rfl, fun d hd => absurd hd (by simp)⟩
  dsimp only
  rw [h.root]
  obtain ⟨hgrows, hroot⟩ := Caches.getDirEntry_grows hw.toExports h.caches g.gMntFh
  have henv := Caches.getDirEntry_env (hw.asked N) h.env (idOf g.gMntFh) g.gMntFh
  generalize g.caches.getDirEntry w.toWorld (idOf g.gMntFh) g.gMntFh = q at *
  obtain ⟨res2 | parDir, caches⟩ := q
  · exact ⟨(h.withCaches hgrows henv).trans
      ((h.withCaches hgrows henv).knowing.congr rfl rfl rfl), fun d hd => absurd hd (by simp)⟩
  dsimp only
  split
  · have hsome :=
      Option.some_get (rootLocateLoop_isSome w.toWorld (workPath.text.length + 2) caches parDir
      ⟨workPath.text ++ [0], 0, false⟩ (Nat.zero_le _) (by simp))
    obtain ⟨hwalk, henv₂, hfound⟩ :=
      rootLocateLoop_learns hw _ _ hgrows.coherent henv (hroot parDir rfl) hsome.symm
    have hlearns := h.withCaches (hgrows.trans hwalk) henv₂
    exact ⟨hlearns.trans (hlearns.knowing.congr rfl rfl rfl), hfound⟩
  · have hlearns := h.withCaches hgrows henv
    refine ⟨hlearns.trans (hlearns.knowing.congr rfl rfl rfl), fun d hd => ?_⟩
    obtain rfl := Except.ok.inj hd
    exact ⟨_, hroot parDir rfl⟩

theorem lRootLocateDir_learns (h : g.Knowing idOf names N) (fl : Option Nat) (cbstr : List UInt8) :
    Learns idOf names N g (g.lRootLocateDir w.toWorld addPart fl cbstr).2 ∧
      ∀ at_, (g.lRootLocateDir w.toWorld addPart fl cbstr).1 = .ok at_ →
        ∃ id, (g.lRootLocateDir w.toWorld addPart fl cbstr).2.caches.Knows idOf N
          id at_.parDir := by
  have hfull : Learns idOf names N g (g.buildFullName addPart fl cbstr true false).2 := by
    unfold buildFullName
    split
    · exact h.congr rfl rfl rfl
    · exact h.congr rfl rfl rfl
  unfold lRootLocateDir
  generalize g.buildFullName addPart fl cbstr true false = q at hfull ⊢
  obtain ⟨res2 | full, g₁⟩ := q
  · exact ⟨hfull, fun d hd => absurd hd (by simp)⟩
  dsimp only at hfull ⊢
  obtain ⟨hdir, hfound⟩ := rootLocateDir_learns hw hfull.knowing full.fullName.text
  generalize g₁.rootLocateDir w.toWorld full.fullName.text = q at hdir hfound ⊢
  obtain ⟨res2 | parDir, g₂⟩ := q
  · exact ⟨(hfull.trans hdir).trans (hdir.knowing.congr rfl rfl rfl),
      fun d hd => absurd hd (by simp)⟩
  · refine ⟨hfull.trans hdir, fun d hd => ?_⟩
    obtain rfl := Except.ok.inj hd
    exact hfound parDir rfl

omit hw in
theorem dupELock_caches (oldLock : Option ELOCK) (name fullName : List UInt8) (mode : Int) :
    (g.dupELock oldLock name fullName mode).2.caches = g.caches ∧
      (g.dupELock oldLock name fullName mode).2.gMntFh = g.gMntFh ∧
      (g.dupELock oldLock name fullName mode).2.gMntAttr = g.gMntAttr := by
  unfold dupELock
  split
  · exact ⟨rfl, rfl, rfl⟩
  split
  · exact ⟨rfl, rfl, rfl⟩
  split
  · exact ⟨rfl, rfl, rfl⟩
  · exact ⟨rfl, rfl, rfl⟩

theorem newObjectLock_learns (h : g.Knowing idOf names N) {parDir : Nat} {id : UInt32}
    (hd : g.caches.Knows idOf N id parDir) (name fullName : List UInt8) (mode : Int) :
    Learns idOf names N g (g.newObjectLock w.toWorld parDir name fullName mode).2 := by
  obtain ⟨hgrows, -⟩ := Caches.getNameEntry_grows hw.toExports h.caches h.env hd name true
  have henv := Caches.getNameEntry_env (hw.asked N) h.env parDir name true
  unfold newObjectLock
  generalize g.caches.getNameEntry w.toWorld parDir name true = q at *
  obtain ⟨res2 | ⟨nent, ace⟩, caches⟩ := q
  · exact h.withCaches hgrows henv
  have hlearns := h.withCaches hgrows henv
  refine hlearns.trans ?_
  dsimp only
  split
  · obtain ⟨hcaches, hfh, hattr⟩ :=
      dupELock_caches (g := { g with caches }) (some _) name fullName mode
    exact hlearns.knowing.congr hcaches hfh hattr
  split
  · exact Learns.refl hlearns.knowing
  split
  · exact hlearns.knowing.congr rfl rfl rfl
  · exact hlearns.knowing.congr rfl rfl rfl

theorem newRootLock_learns (h : g.Knowing idOf names N) (name fullName : List UInt8) (mode : Int) :
    Learns idOf names N g (g.newRootLock w.toWorld name fullName mode).2 := by
  obtain ⟨hcaches, hfh, hattr⟩ := dupELock_caches (g := g) none name fullName mode
  have hdup := h.congr hcaches hfh hattr
  unfold newRootLock
  generalize g.dupELock none name fullName mode = q at hdup ⊢
  obtain ⟨res2 | newelock, g₁⟩ := q
  · exact hdup
  refine hdup.trans ?_
  dsimp only at hdup ⊢
  have hlook := Caches.attrsLookupFromFileId_found (w := w.toWorld) hdup.knowing.caches.tidy
    g₁.gMntAttr.fileid
  have henv := Caches.attrsLookupFromFileId_env (hw.asked N) hdup.knowing.env g₁.gMntAttr.fileid
  have hgrows := hdup.knowing.caches.beside hlook.tidy hlook.beside
  generalize g₁.caches.attrsLookupFromFileId w.toWorld g₁.gMntAttr.fileid = q at hgrows henv ⊢
  obtain ⟨_ | ace, caches⟩ := q
  · have henv₂ := (hw.asked N).getAttr caches.env g₁.gMntFh henv
    have hasked :=
      hdup.knowing.withCaches
      (hgrows.trans (hgrows.coherent.env (w.getAttr caches.env g₁.gMntFh).2)) henv₂
    dsimp only at hasked ⊢
    generalize w.getAttr caches.env g₁.gMntFh = t at hasked ⊢
    obtain ⟨res2 | attr, env⟩ := t
    · exact hasked.trans (hasked.knowing.congr rfl rfl rfl)
    · exact hasked.trans (hasked.knowing.congr rfl rfl rfl)
  · exact hdup.knowing.withCaches hgrows henv

theorem rootLocateAndLock_learns (h : g.Knowing idOf names N) (fl : Option Nat)
    (relPath : List UInt8) (mode : Int) :
    Learns idOf names N g (g.rootLocateAndLock w.toWorld addPart fl relPath mode).2 := by
  unfold rootLocateAndLock
  split
  · exact Learns.refl h
  split
  · exact h.congr rfl rfl rfl
  next full heap _ =>
  have hheap : Learns idOf names N g { g with heap } := h.congr rfl rfl rfl
  obtain ⟨hdir, hfound⟩ := rootLocateDir_learns hw hheap.knowing full.fullName.text
  generalize rootLocateDir w.toWorld { g with heap } full.fullName.text = q at hdir hfound ⊢
  obtain ⟨res2 | parDir, g₁⟩ := q
  · exact (hheap.trans hdir).trans (hdir.knowing.congr rfl rfl rfl)
  obtain ⟨id, hd⟩ := hfound parDir rfl
  have hobject := newObjectLock_learns hw hdir.knowing hd (textOf full.name) full.fullName.text mode
  have hroot := newRootLock_learns hw hdir.knowing (textOf full.name) full.fullName.text mode
  refine (hheap.trans hdir).trans ?_
  dsimp only
  split
  · next res2 g₂ hnew =>
    have hlearns : Learns idOf names N g₁ g₂ := by
      split at hnew
      · rwa [hnew] at hobject
      · rwa [hnew] at hroot
    exact hlearns.trans (hlearns.knowing.congr rfl rfl rfl)
  · next newelock g₂ hnew =>
    have hlearns : Learns idOf names N g₁ g₂ := by
      split at hnew
      · rwa [hnew] at hobject
      · rwa [hnew] at hroot
    exact hlearns.trans (hlearns.knowing.congr rfl rfl rfl)

omit hw in
theorem lockRes_learns (h : g.Knowing idOf names N) (r : Except Int ELOCK) :
    Learns idOf names N g (g.lockRes r) := by
  cases r with
  | error res2 => exact h.congr rfl rfl rfl
  | ok elock => exact h.congr rfl rfl rfl

theorem actLOCATEOBJECT_learns (h : g.Knowing idOf names N) (fl : Option Nat)
    (cbstr : List UInt8) (mode : Int) :
    Learns idOf names N g (g.actLOCATEOBJECT w.toRequests addPart fl cbstr mode) := by
  unfold actLOCATEOBJECT
  split
  · exact h.congr rfl rfl rfl
  next path heap _ =>
  have hheap : Learns idOf names N g { g with heap } := h.congr rfl rfl rfl
  have hroot : Learns idOf names N _
    (rootLocateAndLock w.toWorld addPart { g with heap } fl path.text mode).2 :=
    rootLocateAndLock_learns hw hheap.knowing fl path.text mode
  have hlearns := (hheap.trans hroot).trans
    (lockRes_learns hroot.knowing (rootLocateAndLock w.toWorld addPart { g with heap } fl
      path.text mode).1)
  exact hlearns.trans (hlearns.knowing.congr rfl rfl rfl)

theorem doActPARENT_learns (h : g.Knowing idOf names N) (oldelock : Option ELOCK) :
    Learns idOf names N g (g.doActPARENT w.toRequests addPart oldelock) := by
  unfold doActPARENT
  split
  · exact h.congr rfl rfl rfl
  dsimp only
  split
  · exact h.congr rfl rfl rfl
  split
  · exact h.congr rfl rfl rfl
  next dirName heap _ =>
  have hheap : Learns idOf names N g { g with heap } := h.congr rfl rfl rfl
  have hroot : Learns idOf names N _
      (rootLocateAndLock w.toWorld addPart { g with heap } none dirName.text SHARED_LOCK).2 :=
    rootLocateAndLock_learns hw hheap.knowing none dirName.text SHARED_LOCK
  have hlearns := (hheap.trans hroot).trans
    (lockRes_learns hroot.knowing (rootLocateAndLock w.toWorld addPart { g with heap } none
      dirName.text SHARED_LOCK).1)
  exact hlearns.trans (hlearns.knowing.congr rfl rfl rfl)

end Locate

/-- The caches know the names that the server has. -/
def InStep (idOf : List UInt8 → UInt32) (names : σ → DirNames) (g : Global σ) : Prop :=
  g.Knowing idOf names (names g.caches.env)

theorem Knowing.inStep (h : g.Knowing idOf names N) : g.InStep idOf names := by
  unfold InStep
  rw [h.env]
  exact h

/-- `Q` depends on the caches, the server and the root only. -/
def OfCaches (Q : Global σ → Prop) : Prop :=
  ∀ ⦃g g'⦄, Q g → g'.caches = g.caches → g'.gMntFh = g.gMntFh → g'.gMntAttr = g.gMntAttr → Q g'

theorem InStep.congr (h : g.InStep idOf names) (hcaches : g'.caches = g.caches)
    (hfh : g'.gMntFh = g.gMntFh)
    (hattr : g'.gMntAttr = g.gMntAttr) : g'.InStep idOf names :=
  (Knowing.congr h hcaches hfh hattr).knowing.inStep

theorem ofCaches_learns (g : Global σ) : OfCaches (Learns idOf names N g) :=
  fun _ _ h hcaches hfh hattr => h.trans (h.knowing.congr hcaches hfh hattr)

theorem ofCaches_inStep : OfCaches fun g : Global σ => g.InStep idOf names :=
  fun _ _ => InStep.congr

/-- The server changes where the caches have no entry. -/
theorem Knowing.changed (h : g.Knowing idOf names N) {env : σ} {at_ : List (UInt32 × List UInt8)}
    (hN : Elsewhere at_ N (names env)) (hunmet : ∀ a ∈ at_, g.caches.Unmet a.1 a.2) :
    (g.setEnv env).InStep idOf names :=
  ⟨((h.caches.elsewhere hN hunmet).env env).coherent, rfl, h.root⟩

theorem Knowing.changedName (h : g.Knowing idOf names N) {env : σ} {id : UInt32} {name : List UInt8}
    (hN : Elsewhere [(id, name)] N (names env)) (hunmet : g.caches.Unmet id name) :
    (g.setEnv env).InStep idOf names :=
  h.changed hN (List.forall_mem_singleton.mpr hunmet)

section Changes
variable (hw : Serves idOf names w) {parDir : Nat} {id : UInt32}
include hw

/-- `FINDREADWRITE` sends a CREATE at most if the file is not found. -/
theorem findOrCreate_inStep (h : g.Knowing idOf names N) {dirFh name : List UInt8} {fileMode : Int}
    (hsafe : fileMode = MODE_READWRITE →
      (w.lookup g.caches.env dirFh name).1.isOk = true ∨ g.caches.Unmet (idOf dirFh) name) :
    (g.findOrCreate w.toRequests dirFh name fileMode).2.InStep idOf names := by
  have hasked := (hw.asked N).lookup g.caches.env dirFh name h.env
  unfold findOrCreate
  generalize w.lookup g.caches.env dirFh name = q at hsafe hasked ⊢
  obtain ⟨res2 | dres, env⟩ := q
  · dsimp only at hasked ⊢
    split
    · next hcreate =>
      refine h.changedName ?_ ((hsafe hcreate.2).resolve_left Bool.false_ne_true)
      rw [← hasked]
      exact hw.create env dirFh name g.gUid g.gGid g.gMode 4294967295
    · exact (h.setEnv hasked).knowing.inStep
  · exact (h.setEnv hasked).knowing.inStep

variable (w) in
omit hw in
/-- `act_FINDOUTPUT` sends no request to change something. -/
def refusesOutput (g : Global σ) (dirFh name : List UInt8) : Bool :=
  match (w.lookup g.caches.env dirFh name).1 with
  | .error _ => false
  | .ok dres => decide (dres.attributes.type ≠ NFREG) ||
      (lockLookupFromKey g.locks dres.attributes.fileid).isSome

theorem replaceFile_inStep (h : g.Knowing idOf names N) {dirFh name : List UInt8}
    (hsafe : g.refusesOutput w dirFh name = true ∨ g.caches.Unmet (idOf dirFh) name) :
    (g.replaceFile w.toRequests dirFh name).2.InStep idOf names := by
  have hasked := (hw.asked N).lookup g.caches.env dirFh name h.env
  unfold refusesOutput at hsafe
  unfold replaceFile
  generalize w.lookup g.caches.env dirFh name = q at hsafe hasked ⊢
  obtain ⟨res2 | dres, env⟩ := q
  · refine h.changedName ?_ (hsafe.resolve_left Bool.false_ne_true)
    rw [← hasked]
    exact hw.create env dirFh name g.gUid g.gGid g.gMode 0
  · dsimp only at hasked hsafe ⊢
    split
    · exact (h.setEnv hasked).knowing.inStep
    next htype =>
    split
    · exact (h.setEnv hasked).knowing.inStep
    next hlocked =>
    have hunmet := hsafe.resolve_left (by simp [htype, hlocked])
    refine h.changedName ?_ hunmet
    rw [← hasked]
    exact (hw.remove env dirFh name).trans (hw.create _ dirFh name g.gUid g.gGid g.gMode 0)

omit hw in
theorem openFound_caches (dres : Diropokres) (fullName name : List UInt8) (fileMode mode : Int) :
    (g.openFound dres fullName name fileMode mode).2.caches = g.caches ∧
      (g.openFound dres fullName name fileMode mode).2.gMntFh = g.gMntFh ∧
      (g.openFound dres fullName name fileMode mode).2.gMntAttr = g.gMntAttr := by
  unfold openFound
  split
  · exact ⟨rfl, rfl, rfl⟩
  split
  · exact ⟨rfl, rfl, rfl⟩
  split
  · exact ⟨rfl, rfl, rfl⟩
  next elock heap _ =>
  unfold fhCreate
  dsimp only
  generalize heap.alloc = a
  obtain ⟨_ | efh, heap⟩ := a
  · exact ⟨rfl, rfl, rfl⟩
  · exact ⟨rfl, rfl, rfl⟩

omit hw in
theorem openCreated_caches (dres : Diropokres) (fullName name : List UInt8) :
    (g.openCreated dres fullName name).2.caches = g.caches ∧
      (g.openCreated dres fullName name).2.gMntFh = g.gMntFh ∧
      (g.openCreated dres fullName name).2.gMntAttr = g.gMntAttr := by
  unfold openCreated
  split
  · exact ⟨rfl, rfl, rfl⟩
  next elock heap _ =>
  unfold fhCreate
  dsimp only
  generalize heap.alloc = a
  obtain ⟨_ | efh, heap⟩ := a
  · exact ⟨rfl, rfl, rfl⟩
  · exact ⟨rfl, rfl, rfl⟩

omit hw in
theorem answer_inStep {α : Type} (h : g.Knowing idOf names N) {name : List UInt8}
    {r : Except Int α × σ}
    (hN : Elsewhere [(id, name)] N (names r.2)) (hunmet : g.caches.Unmet id name) :
    (g.answer r).InStep idOf names := by
  have hchanged := h.changedName hN hunmet
  unfold answer
  split
  · exact hchanged.congr rfl rfl rfl
  · exact hchanged.congr rfl rfl rfl

/-- What `act_FINDREADWRITE` may send is about a name without an entry in the cache. -/
def SafeUpdate (w : ObjRequests σ)
    (addPart : List UInt8 → List UInt8 → Nat → Option (List UInt8)) (g : Global σ)
    (fl : Option Nat) (cbstr : List UInt8) : Prop :=
  let r := g.lRootLocateDir w.toWorld addPart fl cbstr
  ∀ at_ ∈ r.1.toOption,
    (w.lookup r.2.caches.env (r.2.caches.dces at_.parDir).nfsFh (textOf at_.name)).1.isOk = true ∨
    r.2.caches.Unmet (r.2.caches.dces at_.parDir).fileId (textOf at_.name)

instance (g : Global σ) (fl : Option Nat) (cbstr : List UInt8) :
    Decidable (g.SafeUpdate w addPart fl cbstr) :=
  inferInstanceAs
    (Decidable (∀ at_ ∈ (g.lRootLocateDir w.toWorld addPart fl cbstr).1.toOption, _ ∨ _))

/-- So is what `act_FINDOUTPUT` may send. -/
def SafeOutput (w : ObjRequests σ)
    (addPart : List UInt8 → List UInt8 → Nat → Option (List UInt8)) (g : Global σ)
    (fl : Option Nat) (cbstr : List UInt8) : Prop :=
  let r := g.lRootLocateDir w.toWorld addPart fl cbstr
  ∀ at_ ∈ r.1.toOption, r.2.refusesOutput w (r.2.caches.dces at_.parDir).nfsFh
    (textOf at_.name) = true ∨
    r.2.caches.Unmet (r.2.caches.dces at_.parDir).fileId (textOf at_.name)

instance (g : Global σ) (fl : Option Nat) (cbstr : List UInt8) :
    Decidable (g.SafeOutput w addPart fl cbstr) :=
  inferInstanceAs
    (Decidable (∀ at_ ∈ (g.lRootLocateDir w.toWorld addPart fl cbstr).1.toOption, _ ∨ _))

omit hw in
/-- What `act_FINDREADWRITE` does to the caches it does in `LRootLocateDir` and by its requests. -/
theorem actFINDREADWRITE_spec {Q : Global σ → Prop} (hQ : OfCaches Q) {fl : Option Nat}
    {cbstr : List UInt8}
    {fileMode mode : Int} (hfail : Q (g.lRootLocateDir w.toWorld addPart fl cbstr).2)
    (hsent : ∀ at_, (g.lRootLocateDir w.toWorld addPart fl cbstr).1 = .ok at_ →
      Q ((g.lRootLocateDir w.toWorld addPart fl cbstr).2.findOrCreate w.toRequests
        ((g.lRootLocateDir w.toWorld addPart fl cbstr).2.caches.dces at_.parDir).nfsFh
        (textOf at_.name) fileMode).2) :
    Q (g.actFINDREADWRITE w.toRequests addPart fl cbstr fileMode mode).2 := by
  unfold actFINDREADWRITE
  generalize g.lRootLocateDir w.toWorld addPart fl cbstr = q at hfail hsent ⊢
  obtain ⟨res2 | at_, g₁⟩ := q
  · exact hQ hfail rfl rfl rfl
  replace hsent := hsent at_ rfl
  dsimp only at hsent ⊢
  generalize g₁.findOrCreate w.toRequests (g₁.caches.dces at_.parDir).nfsFh (textOf at_.name)
    fileMode = q at hsent ⊢
  obtain ⟨res2 | dres, g₂⟩ := q
  · exact hQ hsent rfl rfl rfl
  obtain ⟨hcaches, hfh, hattr⟩ :=
    openFound_caches (g := g₂) dres at_.fullName.text (textOf at_.name) fileMode mode
  have hdone := hQ hsent hcaches hfh hattr
  dsimp only at hdone ⊢
  generalize g₂.openFound dres at_.fullName.text (textOf at_.name) fileMode mode = q at hdone ⊢
  obtain ⟨res2 | efhId, g₃⟩ := q
  · exact hQ hdone rfl rfl rfl
  · exact hQ hdone rfl rfl rfl

omit hw in
theorem actFINDOUTPUT_spec {Q : Global σ → Prop} (hQ : OfCaches Q) {fl : Option Nat}
    {cbstr : List UInt8}
    (hfail : Q (g.lRootLocateDir w.toWorld addPart fl cbstr).2)
    (hsent : ∀ at_, (g.lRootLocateDir w.toWorld addPart fl cbstr).1 = .ok at_ →
      Q ((g.lRootLocateDir w.toWorld addPart fl cbstr).2.replaceFile w.toRequests
        ((g.lRootLocateDir w.toWorld addPart fl cbstr).2.caches.dces at_.parDir).nfsFh
        (textOf at_.name)).2) :
    Q (g.actFINDOUTPUT w.toRequests addPart fl cbstr).2 := by
  unfold actFINDOUTPUT
  generalize g.lRootLocateDir w.toWorld addPart fl cbstr = q at hfail hsent ⊢
  obtain ⟨res2 | at_, g₁⟩ := q
  · exact hQ hfail rfl rfl rfl
  replace hsent := hsent at_ rfl
  dsimp only at hsent ⊢
  generalize g₁.replaceFile w.toRequests (g₁.caches.dces at_.parDir).nfsFh
    (textOf at_.name) = q at hsent ⊢
  obtain ⟨res2 | dres, g₂⟩ := q
  · exact hQ hsent rfl rfl rfl
  obtain ⟨hcaches, hfh, hattr⟩ :=
    openCreated_caches (g := g₂) dres at_.fullName.text (textOf at_.name)
  have hdone := hQ hsent hcaches hfh hattr
  dsimp only at hdone ⊢
  generalize g₂.openCreated dres at_.fullName.text (textOf at_.name) = q at hdone ⊢
  obtain ⟨res2 | efhId, g₃⟩ := q
  · exact hQ hdone rfl rfl rfl
  · exact hQ hdone rfl rfl rfl

theorem actFINDREADWRITE_inStep (h : g.Knowing idOf names N) {fl : Option Nat} {cbstr : List UInt8}
    {fileMode mode : Int}
    (hsafe : fileMode = MODE_READWRITE → g.SafeUpdate w addPart fl cbstr) :
    (g.actFINDREADWRITE w.toRequests addPart fl cbstr fileMode mode).2.InStep idOf names := by
  obtain ⟨hlearns, hfound⟩ := @lRootLocateDir_learns σ idOf names N w addPart g hw h fl cbstr
  refine actFINDREADWRITE_spec ofCaches_inStep hlearns.knowing.inStep fun at_ hat => ?_
  obtain ⟨id, hd⟩ := hfound at_ hat
  refine findOrCreate_inStep hw hlearns.knowing fun hmode => ?_
  rw [hd.handle, ← hd.lists.fileId]
  refine hsafe hmode at_ ?_
  rw [hat]
  rfl

theorem actFINDOUTPUT_inStep (h : g.Knowing idOf names N) {fl : Option Nat} {cbstr : List UInt8}
    (hsafe : g.SafeOutput w addPart fl cbstr) :
    (g.actFINDOUTPUT w.toRequests addPart fl cbstr).2.InStep idOf names := by
  obtain ⟨hlearns, hfound⟩ := @lRootLocateDir_learns σ idOf names N w addPart g hw h fl cbstr
  refine actFINDOUTPUT_spec ofCaches_inStep hlearns.knowing.inStep fun at_ hat => ?_
  obtain ⟨id, hd⟩ := hfound at_ hat
  refine replaceFile_inStep hw hlearns.knowing ?_
  rw [hd.handle, ← hd.lists.fileId]
  refine hsafe at_ ?_
  rw [hat]
  rfl

/-- A name is created that the cache has no entry for. -/
theorem createDir_inStep (h : g.Knowing idOf names N) (hd : g.caches.Knows idOf N id parDir)
    (fullName : List UInt8)
    {name : List UInt8} (hunmet : g.caches.Unmet id name) :
    (g.createDir w parDir fullName name).InStep idOf names := by
  have hN := hw.mkDir g.caches.env (g.caches.dces parDir).nfsFh name g.gUid g.gGid g.gMode
  rw [hd.handle, h.env] at hN
  have hchanged := h.changedName hN hunmet
  unfold createDir
  generalize w.mkDir g.caches.env (g.caches.dces parDir).nfsFh name g.gUid g.gGid
    g.gMode = q at hchanged ⊢
  obtain ⟨res2 | dir, env⟩ := q
  · exact hchanged.congr rfl rfl rfl
  dsimp only at hchanged ⊢
  split
  · exact hchanged.congr rfl rfl rfl
  · exact hchanged.congr rfl rfl rfl

variable (w) in
omit hw in
/-- What `act_DELETE_OBJECT` removes can be found with no other name entry than its own. -/
def SafeDelete (g : Global σ) (parDir : Nat) (name : List UInt8) : Prop :=
  let r := g.caches.getNameEntry w.toWorld parDir name true
  ∀ n ∈ r.1.toOption, (lockLookupFromKey g.locks n.1.fileId).isSome = true ∨ r.2.Own parDir name

instance (g : Global σ) (parDir : Nat) (name : List UInt8) :
    Decidable (g.SafeDelete w parDir name) :=
  inferInstanceAs
    (Decidable (∀ n ∈ (g.caches.getNameEntry w.toWorld parDir name true).1.toOption, _ ∨ _))

variable (w) in
omit hw in
/-- So can what `act_RENAME_OBJECT` renames, and behind that the new name has no entry. -/
def SafeRename (g : Global σ) (parDir₁ : Nat) (name₁ : List UInt8) (parDir₂ : Nat)
    (name₂ : List UInt8) : Prop :=
  let r := g.caches.getNameEntry w.toWorld parDir₁ name₁ true
  ∀ n ∈ r.1.toOption, (lockLookupFromKey g.locks n.1.fileId).isSome = true ∨
    r.2.Own parDir₁ name₁ ∧ (r.2.dcNERemove parDir₁ n.1.addr).Unmet (r.2.dces parDir₂).fileId name₂

instance (g : Global σ) (parDir₁ : Nat) (name₁ : List UInt8) (parDir₂ : Nat) (name₂ : List UInt8) :
    Decidable (g.SafeRename w parDir₁ name₁ parDir₂ name₂) :=
  inferInstanceAs
    (Decidable (∀ n ∈ (g.caches.getNameEntry w.toWorld parDir₁ name₁ true).1.toOption, _ ∨ _ ∧ _))

/-- `act_DELETE_OBJECT` takes the name entry out that it asked for. -/
theorem deleteObject_inStep (h : g.Knowing idOf names N) (hd : g.caches.Knows idOf N id parDir)
    {name : List UInt8}
    (hsafe : g.SafeDelete w parDir name) : (g.deleteObject w parDir name).InStep idOf names := by
  obtain ⟨hgrows, hentry⟩ := Caches.getNameEntry_grows hw.toExports h.caches h.env hd name true
  have henv := Caches.getNameEntry_env (hw.asked N) h.env parDir name true
  unfold SafeDelete at hsafe
  unfold deleteObject
  generalize g.caches.getNameEntry w.toWorld parDir name true = q at *
  obtain ⟨res2 | ⟨nent, ace⟩, s⟩ := q
  · exact (h.withCaches hgrows henv).knowing.inStep.congr rfl rfl rfl
  obtain ⟨hmem, hname⟩ := hentry nent ace rfl
  dsimp only at hgrows henv hsafe hmem ⊢
  have hlearns := h.withCaches hgrows henv
  have hs := hgrows.known id parDir hd
  split
  · exact hlearns.knowing.inStep.congr rfl rfl rfl
  next hfree =>
  have hown := (hsafe (nent, ace) rfl).resolve_left hfree
  split
  · have hdir := Caches.dcDCEDeleteFromFileId_grows hgrows.coherent nent.fileId
    have hattrs := Caches.attrsDelete_grows hdir.coherent nent.fileId
    have hgone := Caches.dcNERemove_grows hattrs.coherent parDir nent.addr
    have hunmet := (hown.dcDCEDelete nent.fileId).unmet hdir.coherent
      (hdir.known id parDir hs) hmem hname
    have hN := hw.rmDir s.env (s.dces parDir).nfsFh name
    rw [hs.handle, henv] at hN
    have hdone := Knowing.changedName (g := { g with caches := _ })
      ⟨hgone.coherent, henv, h.root⟩ hN hunmet
    unfold answer
    dsimp only
    split
    · exact hdone.congr rfl rfl rfl
    · exact hdone.congr rfl rfl rfl
  · have hattrs := Caches.attrsDelete_grows hgrows.coherent nent.fileId
    have hgone := Caches.dcNERemove_grows hattrs.coherent parDir nent.addr
    have hunmet := hown.unmet hgrows.coherent hs hmem hname
    have hN := hw.remove s.env (s.dces parDir).nfsFh name
    rw [hs.handle, henv] at hN
    have hdone := Knowing.changedName (g := { g with caches := _ })
      ⟨hgone.coherent, henv, h.root⟩ hN hunmet
    unfold answer
    split
    · exact hdone.congr rfl rfl rfl
    · exact hdone.congr rfl rfl rfl

/-- `act_RENAME_OBJECT` takes the entry of the old name out; the new name has none. -/
theorem renameObject_inStep (h : g.Knowing idOf names N) {parDir₂ : Nat} {id₂ : UInt32}
    (hd : g.caches.Knows idOf N id parDir) (hd₂ : g.caches.Knows idOf N id₂ parDir₂)
    {name₁ name₂ : List UInt8}
    (hsafe : g.SafeRename w parDir name₁ parDir₂ name₂) :
    (g.renameObject w parDir name₁ parDir₂ name₂).InStep idOf names := by
  obtain ⟨hgrows, hentry⟩ := Caches.getNameEntry_grows hw.toExports h.caches h.env hd name₁ true
  have henv := Caches.getNameEntry_env (hw.asked N) h.env parDir name₁ true
  unfold SafeRename at hsafe
  unfold renameObject
  generalize g.caches.getNameEntry w.toWorld parDir name₁ true = q at *
  obtain ⟨res2 | ⟨nent, ace⟩, s⟩ := q
  · exact (h.withCaches hgrows henv).knowing.inStep.congr rfl rfl rfl
  obtain ⟨hmem, hname⟩ := hentry nent ace rfl
  dsimp only at hgrows henv hsafe hmem ⊢
  have hlearns := h.withCaches hgrows henv
  have hs := hgrows.known id parDir hd
  have hs₂ := hgrows.known id₂ parDir₂ hd₂
  split
  · exact hlearns.knowing.inStep.congr rfl rfl rfl
  next hfree =>
  obtain ⟨hown, hunmet⟩ := (hsafe (nent, ace) rfl).resolve_left hfree
  rw [hs₂.lists.fileId] at hunmet
  have hN := hw.rename s.env (s.dces parDir).nfsFh name₁ (s.dces parDir₂).nfsFh name₂
  have hfailed := hw.notRenamed s.env (s.dces parDir).nfsFh name₁ (s.dces parDir₂).nfsFh name₂
  rw [henv] at hN hfailed
  rw [hs.handle, hs₂.handle] at hN
  generalize w.rename s.env (s.dces parDir).nfsFh name₁ (s.dces parDir₂).nfsFh name₂ =
    q at hN hfailed ⊢
  obtain ⟨res2 | done, env⟩ := q
  · exact (hlearns.knowing.setEnv (hfailed res2 rfl)).knowing.inStep.congr rfl rfl rfl
  · have hdir := Caches.dcDCEDeleteFromFileId_grows hgrows.coherent nent.fileId
    have hattrs := Caches.attrsDelete_grows hdir.coherent nent.fileId
    have hgone := Caches.dcNERemove_grows hattrs.coherent parDir nent.addr
    have hold := (hown.dcDCEDelete nent.fileId).unmet hdir.coherent
      (hdir.known id parDir hs) hmem hname
    have hnew := hunmet.dcDCEDelete nent.fileId
    have hdone := Knowing.changed (g := { g with caches := _ }) ⟨hgone.coherent, henv, h.root⟩ hN
      (List.forall_mem_cons.mpr ⟨hold, List.forall_mem_singleton.mpr hnew⟩)
    exact hdone.congr rfl rfl rfl

/-- `act_SET_PROTECT`, `act_SET_DATE` and `act_SET_OWNER` leave the names alone. -/
theorem setAttr_learns (h : g.Knowing idOf names N)
    {request : σ → List UInt8 → Except Int Fattr × σ}
    (hrequest : ∀ e fh, names (request e fh).2 = names e ∧ ∀ a, (request e fh).1 = .ok a →
      a.fileid = idOf fh)
    (parDir : Nat) (name : List UInt8) :
    Learns idOf names N g (g.setAttr w request parDir name) := by
  have hasked := (hw.asked N).lookup g.caches.env (g.caches.dces parDir).nfsFh name h.env
  unfold setAttr
  generalize w.lookup g.caches.env (g.caches.dces parDir).nfsFh name = q at hasked ⊢
  obtain ⟨res2 | file, env⟩ := q
  · have hlearns := h.setEnv hasked
    have hgone := hlearns.knowing.withCaches
      (Caches.attrsDelete_grows hlearns.knowing.caches (g.caches.dces parDir).fileId) hasked
    exact (hlearns.trans hgone).trans (hgone.knowing.congr rfl rfl rfl)
  obtain ⟨hsame, hanswer⟩ := hrequest env file.file
  dsimp only at hasked ⊢
  generalize request env file.file = q at hsame hanswer ⊢
  obtain ⟨res2 | newattr, env₂⟩ := q
  · have hlearns := h.setEnv (hsame.trans hasked)
    have hgone := hlearns.knowing.withCaches
      (Caches.attrsDelete_grows hlearns.knowing.caches file.attributes.fileid) (hsame.trans hasked)
    exact (hlearns.trans hgone).trans (hgone.knowing.congr rfl rfl rfl)
  · have hlearns := h.setEnv (hsame.trans hasked)
    have hfound := Caches.attrsUpdate_found (w := w.toWorld) hlearns.knowing.caches.tidy
      (hanswer newattr rfl)
    have henv := Caches.attrsUpdate_env (hw.asked N) hlearns.knowing.env file.file newattr
    have hstored :=
      hlearns.knowing.withCaches (hlearns.knowing.caches.beside hfound.tidy hfound.beside) henv
    exact (hlearns.trans hstored).trans (hstored.knowing.congr rfl rfl rfl)

theorem getAttributes_learns (h : g.Knowing idOf names N) (hd : g.caches.Knows idOf N id parDir)
    (tags : List TagItem)
    (name : List UInt8) : Learns idOf names N g (g.getAttributes w tags parDir name).1 := by
  obtain ⟨hgrows, -⟩ := Caches.getNameEntry_grows hw.toExports h.caches h.env hd name true
  have henv := Caches.getNameEntry_env (hw.asked N) h.env parDir name true
  unfold getAttributes
  generalize g.caches.getNameEntry w.toWorld parDir name true = q at *
  obtain ⟨res2 | ⟨nent, ace⟩, s⟩ := q
  · exact (h.withCaches hgrows henv).trans ((h.withCaches hgrows henv).knowing.congr rfl rfl rfl)
  · exact (h.withCaches hgrows henv).trans ((h.withCaches hgrows henv).knowing.congr rfl rfl rfl)

end Changes

end Global

end Anfs.Lock
