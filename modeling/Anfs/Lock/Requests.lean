import Anfs.Lock.Current

/-!
# What a packet may send

The requests that change something on the server, and those of them that the action of a packet may
send. A server that notes them down shows what a run has sent.
-/
namespace Anfs.Lock
open Anfs.Cache Anfs.Lib Anfs.Nfs Anfs.Path Anfs.Tree Anfs.Xdr

/-- A request that may change something on the server. `flush` stands for the WRITE requests that
empty the buffers of an open file. -/
inductive Request
  | create (dirFh name : List UInt8) (uid gid mode size : UInt32)
  | remove (dirFh name : List UInt8)
  | mkDir (dirFh name : List UInt8) (uid gid mode : UInt32)
  | rmDir (dirFh name : List UInt8)
  | rename (dirFh₁ name₁ dirFh₂ name₂ : List UInt8)
  | link (nfsFh dirFh name : List UInt8)
  | symlink (dirFh name : List UInt8) (uid gid : UInt32) (path : List UInt8)
  | chmod (nfsFh : List UInt8) (mode : UInt32)
  | setTimes (nfsFh : List UInt8) (tv : Nfstime)
  | setUidGid (nfsFh : List UInt8) (uid gid : UInt32)
  | flush (efh : Nat)
deriving DecidableEq

namespace ObjRequests
variable {σ : Type} (w : ObjRequests σ)

/-- The server behind a request. -/
def send (env : σ) : Request → σ
  | .create dirFh name uid gid mode size => (w.create env dirFh name uid gid mode size).2
  | .remove dirFh name => (w.remove env dirFh name).2
  | .mkDir dirFh name uid gid mode => (w.mkDir env dirFh name uid gid mode).2
  | .rmDir dirFh name => (w.rmDir env dirFh name).2
  | .rename dirFh₁ name₁ dirFh₂ name₂ => (w.rename env dirFh₁ name₁ dirFh₂ name₂).2
  | .link nfsFh dirFh name => (w.link env nfsFh dirFh name).2
  | .symlink dirFh name uid gid path => (w.symlink env dirFh name uid gid path).2
  | .chmod nfsFh mode => (w.chmod env nfsFh mode).2
  | .setTimes nfsFh tv => (w.setTimes env nfsFh tv).2
  | .setUidGid nfsFh uid gid => (w.setUidGid env nfsFh uid gid).2
  | .flush efh => (w.flush env efh).2

/-- The answer to a question, with the requests so far. -/
def unnoted {α : Type} (r : α × σ) (sent : List Request) : α × (σ × List Request) :=
  (r.1, r.2, sent)

/-- The same server, which notes down the requests that may change something. -/
def logged : ObjRequests (σ × List Request) where
  now e := unnoted (w.now e.1) e.2
  memOk e := unnoted (w.memOk e.1) e.2
  lookup e fh name := unnoted (w.lookup e.1 fh name) e.2
  getAttr e fh := unnoted (w.getAttr e.1 fh) e.2
  readLink e fh := unnoted (w.readLink e.1 fh) e.2
  create e fh name uid gid mode size :=
    unnoted (w.create e.1 fh name uid gid mode size) (.create fh name uid gid mode size :: e.2)
  remove e fh name := unnoted (w.remove e.1 fh name) (.remove fh name :: e.2)
  flush e efh := unnoted (w.flush e.1 efh) (.flush efh :: e.2)
  mkDir e fh name uid gid mode :=
    unnoted (w.mkDir e.1 fh name uid gid mode) (.mkDir fh name uid gid mode :: e.2)
  rmDir e fh name := unnoted (w.rmDir e.1 fh name) (.rmDir fh name :: e.2)
  rename e fh₁ name₁ fh₂ name₂ :=
    unnoted (w.rename e.1 fh₁ name₁ fh₂ name₂) (.rename fh₁ name₁ fh₂ name₂ :: e.2)
  link e nfsFh fh name := unnoted (w.link e.1 nfsFh fh name) (.link nfsFh fh name :: e.2)
  symlink e fh name uid gid path :=
    unnoted (w.symlink e.1 fh name uid gid path) (.symlink fh name uid gid path :: e.2)
  chmod e fh mode := unnoted (w.chmod e.1 fh mode) (.chmod fh mode :: e.2)
  setTimes e fh tv := unnoted (w.setTimes e.1 fh tv) (.setTimes fh tv :: e.2)
  setUidGid e fh uid gid := unnoted (w.setUidGid e.1 fh uid gid) (.setUidGid fh uid gid :: e.2)
  protection2umode := w.protection2umode

theorem send_logged (e : σ × List Request) (r : Request) : (w.logged.send e r).2 = r :: e.2 := by
  cases r with
  | _ => rfl

/-- A question is not noted down. -/
theorem keeps_logged (P : List Request → Prop) : w.logged.toWorld.Keeps fun e => P e.2 :=
  ⟨fun _ h => h, fun _ h => h, fun _ _ _ h => h, fun _ _ h => h, fun _ _ h => h⟩

end ObjRequests

/-- The handler with a server that has not noted anything down yet. -/
def Global.logged {σ : Type} (g : Global σ) : Global (σ × List Request) :=
  { g with caches := { g.caches with env := (g.caches.env, []) } }

/-- The requests that the action of a packet may send. -/
def Event.sends : Event → Request → Bool
  | .packet (.findUpdate ..), .create _ _ _ _ _ size => size = 4294967295
  | .packet (.findOutput ..), .create _ _ _ _ _ size => size = 0
  | .packet (.findOutput ..), .remove .. => true
  | .packet (.finish _), .flush _ => true
  | .createDir .., .mkDir .. => true
  | .onName (.deleteObject ..) _, .remove .. | .onName (.deleteObject ..) _, .rmDir .. => true
  | .onName (.renameObject ..) _, .rename .. => true
  | .onName (.createObject _ _ _ subtype1) _, .create _ _ _ _ _ size => size = subtype1
  | .onName (.makeLink _ _ link) _, .link .. => link.mode = LINK_HARD
  | .onName (.makeLink _ _ link) _, .symlink _ _ _ _ path =>
      link.mode = LINK_SOFT ∧ path = link.path
  | .onName (.setProtect ..) _, .chmod .. => true
  | .onName (.setDate _ _ ds) _, .setTimes _ tv => tv = Dir.dateStamp2timeval ds
  | .onName (.setOwner _ _ ownerGroup) _, .setUidGid _ uid gid =>
      uid = (ownerGroup >>> 16 &&& 65535) ∧ gid = (ownerGroup &&& 65535)
  | _, _ => false

/-- The requests of a round of the main loop. -/
def Turn.sends : Turn → Request → Bool
  | .event e, r => e.sends r
  | .flush, .flush _ | .timer, .flush _ | .moreCache .., .flush _ => true
  | _, _ => false

section Kept
variable {σ : Type} {w : ObjRequests σ} {addPart : List UInt8 → List UInt8 → Nat →
  Option (List UInt8)}
  {P : σ → Prop} {g : Global σ}

namespace Global
variable (hw : w.toWorld.Keeps P)
include hw

theorem lRootLocateDir_env (h : P g.caches.env) (fl : Option Nat) (cbstr : List UInt8) :
    P (g.lRootLocateDir w.toWorld addPart fl cbstr).2.caches.env := by
  obtain ⟨leak, hasked, -⟩ := @Global.lRootLocateDir_asked σ w.toWorld addPart g fl cbstr
  exact hasked.env P hw h

omit hw in
theorem ofCaches_env : OfCaches fun g : Global σ => P g.caches.env := by
  intro g g' h hcaches _ _
  rw [hcaches]
  exact h

theorem newObjectLock_env (h : P g.caches.env) (parDir : Nat)
    (name fullName : List UInt8) (mode : Int) :
    P (g.newObjectLock w.toWorld parDir name fullName mode).2.caches.env := by
  have henv := Caches.getNameEntry_env hw h parDir name true
  unfold newObjectLock
  generalize g.caches.getNameEntry w.toWorld parDir name true = q at henv ⊢
  obtain ⟨res2 | ⟨nent, ace⟩, caches⟩ := q
  · exact henv
  dsimp only at henv ⊢
  split
  · rw [(dupELock_caches (some _) name fullName mode).1]
    exact henv
  split
  · exact henv
  split
  · exact henv
  · exact henv

theorem newRootLock_env (h : P g.caches.env) (name fullName : List UInt8) (mode : Int) :
    P (g.newRootLock w.toWorld name fullName mode).2.caches.env := by
  have hdup : P (g.dupELock none name fullName mode).2.caches.env := by
    rw [(dupELock_caches none name fullName mode).1]
    exact h
  unfold newRootLock
  generalize g.dupELock none name fullName mode = q at hdup ⊢
  obtain ⟨res2 | newelock, g₁⟩ := q
  · exact hdup
  dsimp only at hdup ⊢
  have henv := Caches.attrsLookupFromFileId_env hw hdup g₁.gMntAttr.fileid
  generalize g₁.caches.attrsLookupFromFileId w.toWorld g₁.gMntAttr.fileid = q at henv ⊢
  obtain ⟨_ | ace, caches⟩ := q
  · have hasked := hw.getAttr caches.env g₁.gMntFh henv
    dsimp only at hasked ⊢
    generalize w.getAttr caches.env g₁.gMntFh = t at hasked ⊢
    obtain ⟨res2 | attr, env⟩ := t
    · exact hasked
    · exact hasked
  · exact henv

theorem rootLocateAndLock_env (h : P g.caches.env) (fl : Option Nat)
    (relPath : List UInt8) (mode : Int) :
    P (g.rootLocateAndLock w.toWorld addPart fl relPath mode).2.caches.env := by
  unfold rootLocateAndLock
  split
  · exact h
  split
  · exact h
  next full heap _ =>
  have hdir : P (rootLocateDir w.toWorld { g with heap } full.fullName.text).2.caches.env :=
    (rootLocateDir_asked { g with heap } full.fullName.text).env P hw h
  generalize rootLocateDir w.toWorld { g with heap } full.fullName.text = q at hdir ⊢
  obtain ⟨res2 | parDir, g₁⟩ := q
  · exact hdir
  have hobject := newObjectLock_env hw hdir parDir (textOf full.name) full.fullName.text mode
  have hroot := newRootLock_env hw hdir (textOf full.name) full.fullName.text mode
  dsimp only
  split
  · next res2 g₂ hnew =>
    split at hnew
    · rwa [hnew] at hobject
    · rwa [hnew] at hroot
  · next newelock g₂ hnew =>
    split at hnew
    · rwa [hnew] at hobject
    · rwa [hnew] at hroot

theorem actLOCATEOBJECT_env (h : P g.caches.env) (fl : Option Nat)
    (cbstr : List UInt8) (mode : Int) :
    P (g.actLOCATEOBJECT w.toRequests addPart fl cbstr mode).caches.env := by
  unfold actLOCATEOBJECT
  split
  · exact h
  next path heap _ =>
  have henv :
    P (rootLocateAndLock w.toWorld addPart { g with heap } fl path.text mode).2.caches.env :=
    rootLocateAndLock_env (g := { g with heap }) hw h fl path.text mode
  generalize rootLocateAndLock w.toWorld addPart { g with heap } fl path.text mode = q at henv ⊢
  obtain ⟨res2 | elock, g₁⟩ := q
  · exact henv
  · exact henv

theorem doActPARENT_env (h : P g.caches.env) (oldelock : Option ELOCK) :
    P (g.doActPARENT w.toRequests addPart oldelock).caches.env := by
  unfold doActPARENT
  split
  · exact h
  dsimp only
  split
  · exact h
  split
  · exact h
  next dirName heap _ =>
  have henv :
    P (rootLocateAndLock w.toWorld addPart { g with heap } none dirName.text
    SHARED_LOCK).2.caches.env :=
    rootLocateAndLock_env (g := { g with heap }) hw h none dirName.text SHARED_LOCK
  generalize rootLocateAndLock w.toWorld addPart { g with heap } none dirName.text
    SHARED_LOCK = q at henv ⊢
  obtain ⟨res2 | elock, g₁⟩ := q
  · exact henv
  · exact henv

theorem actFHFROMLOCK_env (h : P g.caches.env) (fl : Option Nat) :
    P (g.actFHFROMLOCK w.toRequests fl).2.caches.env := by
  unfold actFHFROMLOCK
  split
  · exact h
  next elock _ =>
  have hasked := hw.getAttr g.caches.env elock.nfsFh h
  dsimp only at hasked ⊢
  generalize w.getAttr g.caches.env elock.nfsFh = q at hasked ⊢
  obtain ⟨res2 | attr, env⟩ := q
  · exact hasked
  dsimp only at hasked ⊢
  split
  · exact hasked
  unfold fhCreate
  generalize (g.setEnv env).heap.alloc = a
  obtain ⟨_ | efh, heap⟩ := a
  · exact hasked
  · exact hasked

omit hw in
theorem actFREELOCK_caches (fl : Option Nat) : (g.actFREELOCK fl).caches = g.caches := by
  unfold actFREELOCK
  split
  · rfl
  split
  · rfl
  · rfl

omit hw in
theorem doActCOPYDIR_caches (elock : Option ELOCK) : (g.doActCOPYDIR elock).caches = g.caches := by
  unfold doActCOPYDIR
  split
  · rfl
  split
  · rfl
  split
  · rfl
  · rfl

omit hw in
theorem actCHANGEMODE_caches (objType object newMode : Int) :
    (g.actCHANGEMODE objType object newMode).caches = g.caches := by
  have haccess : ∀ elock, (g.changeAccess elock newMode).caches = g.caches := by
    intro elock
    unfold changeAccess
    split
    · rfl
    split
    · rfl
    · rfl
  unfold actCHANGEMODE
  split
  · rfl
  split
  · split
    · rfl
    split
    · rfl
    · exact haccess _
  split
  · split
    · rfl
    · exact haccess _
  · rfl

theorem findOrCreate_env (h : P g.caches.env) (dirFh name : List UInt8) {fileMode : Int}
    (hcreate : fileMode = MODE_READWRITE → ∀ env, P env →
      P (w.create env dirFh name g.gUid g.gGid g.gMode 4294967295).2) :
    P (g.findOrCreate w.toRequests dirFh name fileMode).2.caches.env := by
  have hasked := hw.lookup g.caches.env dirFh name h
  unfold findOrCreate
  generalize w.lookup g.caches.env dirFh name = q at hasked ⊢
  obtain ⟨res2 | dres, env⟩ := q
  · dsimp only at hasked ⊢
    split
    · next hmode => exact hcreate hmode.2 env hasked
    · exact hasked
  · exact hasked

theorem replaceFile_env (h : P g.caches.env) (dirFh name : List UInt8)
    (hremove : ∀ env, P env → P (w.remove env dirFh name).2)
    (hcreate : ∀ env, P env → P (w.create env dirFh name g.gUid g.gGid g.gMode 0).2) :
    P (g.replaceFile w.toRequests dirFh name).2.caches.env := by
  have hasked := hw.lookup g.caches.env dirFh name h
  unfold replaceFile
  generalize w.lookup g.caches.env dirFh name = q at hasked ⊢
  obtain ⟨res2 | dres, env⟩ := q
  · exact hcreate env hasked
  dsimp only at hasked ⊢
  split
  · exact hasked
  split
  · exact hasked
  · exact hcreate _ (hremove env hasked)

omit hw in
theorem answer_env {α : Type} {r : Except Int α × σ} (h : P r.2) : P (g.answer r).caches.env := by
  unfold answer
  split
  · exact h
  · exact h

theorem deleteObject_env (h : P g.caches.env) (parDir : Nat) (name : List UInt8)
    (hremove : ∀ env dirFh, P env → P (w.remove env dirFh name).2)
    (hrmDir : ∀ env dirFh, P env → P (w.rmDir env dirFh name).2) :
    P (g.deleteObject w parDir name).caches.env := by
  have hasked := Caches.getNameEntry_env hw h parDir name true
  unfold deleteObject
  generalize g.caches.getNameEntry w.toWorld parDir name true = q at hasked ⊢
  obtain ⟨res2 | ⟨nent, ace⟩, caches⟩ := q
  · exact hasked
  dsimp only at hasked ⊢
  split
  · exact hasked
  split
  · exact answer_env (hrmDir _ _ hasked)
  · exact answer_env (hremove _ _ hasked)

omit hw in
theorem createDir_env (h : P g.caches.env) (parDir : Nat) (fullName name : List UInt8)
    (hmkDir : ∀ env dirFh, P env → P (w.mkDir env dirFh name g.gUid g.gGid g.gMode).2) :
    P (g.createDir w parDir fullName name).caches.env := by
  have hsent := hmkDir g.caches.env (g.caches.dces parDir).nfsFh h
  unfold createDir
  generalize w.mkDir g.caches.env (g.caches.dces parDir).nfsFh name g.gUid g.gGid
    g.gMode = q at hsent ⊢
  obtain ⟨res2 | dir, env⟩ := q
  · exact hsent
  dsimp only at hsent ⊢
  split
  · exact hsent
  · exact hsent

theorem renameObject_env (h : P g.caches.env) (parDir₁ : Nat) (name₁ : List UInt8) (parDir₂ : Nat)
    (name₂ : List UInt8)
    (hrename : ∀ env dirFh₁ dirFh₂, P env → P (w.rename env dirFh₁ name₁ dirFh₂ name₂).2) :
    P (g.renameObject w parDir₁ name₁ parDir₂ name₂).caches.env := by
  have hasked := Caches.getNameEntry_env hw h parDir₁ name₁ true
  unfold renameObject
  generalize g.caches.getNameEntry w.toWorld parDir₁ name₁ true = q at hasked ⊢
  obtain ⟨res2 | ⟨nent, ace⟩, caches⟩ := q
  · exact hasked
  dsimp only at hasked ⊢
  split
  · exact hasked
  have hsent := hrename caches.env (caches.dces parDir₁).nfsFh (caches.dces parDir₂).nfsFh hasked
  generalize w.rename caches.env (caches.dces parDir₁).nfsFh name₁ (caches.dces parDir₂).nfsFh
    name₂ = q at hsent ⊢
  obtain ⟨res2 | done, env⟩ := q
  · exact hsent
  · exact hsent

theorem setAttr_env (h : P g.caches.env) {request : σ → List UInt8 → Except Int Fattr × σ}
    (hrequest : ∀ env fh, P env → P (request env fh).2) (parDir : Nat) (name : List UInt8) :
    P (g.setAttr w request parDir name).caches.env := by
  have hasked := hw.lookup g.caches.env (g.caches.dces parDir).nfsFh name h
  unfold setAttr
  generalize w.lookup g.caches.env (g.caches.dces parDir).nfsFh name = q at hasked ⊢
  obtain ⟨res2 | file, env⟩ := q
  · exact hasked
  have hsent := hrequest env file.file hasked
  dsimp only at hsent ⊢
  generalize request env file.file = q at hsent ⊢
  obtain ⟨res2 | newattr, env₂⟩ := q
  · exact hsent
  · exact Caches.attrsUpdate_env (s := (g.setEnv env₂).caches) hw hsent file.file newattr

theorem getAttributes_env (h : P g.caches.env) (tags : List TagItem) (parDir : Nat)
    (name : List UInt8) :
    P (g.getAttributes w tags parDir name).1.caches.env := by
  have hasked := Caches.getNameEntry_env hw h parDir name true
  unfold getAttributes
  generalize g.caches.getNameEntry w.toWorld parDir name true = q at hasked ⊢
  obtain ⟨res2 | ⟨nent, ace⟩, caches⟩ := q
  · exact hasked
  · exact hasked

end Global

namespace Run
variable {s s' : Run σ} {v : NameVar} {fl : Option Nat} {cbstr : List UInt8}
  (hw : w.toWorld.Keeps P)
include hw

theorem lRootLocateDir_env (h : P s.g.caches.env) (fl : Option Nat)
    (cbstr : List UInt8) (v : NameVar) :
    P (s.lRootLocateDir w addPart fl cbstr v).2.2.g.caches.env := by
  have henv : P (s.g.lRootLocateDir w.toWorld addPart fl cbstr).2.caches.env :=
    Global.lRootLocateDir_env hw h fl cbstr
  unfold Run.lRootLocateDir
  generalize s.g.lRootLocateDir w.toWorld addPart fl cbstr = r at henv ⊢
  obtain ⟨res2 | at_, g₁⟩ := r
  · exact henv
  · exact henv

theorem lRootLocateBoth_env (h : P s.g.caches.env) (fl : Option Nat) (cbstr : List UInt8)
    (v₁ v₂ : NameVar) :
    P (s.lRootLocateBoth w addPart fl cbstr v₁ v₂).2.2.g.caches.env := by
  have henv : P (s.g.lRootLocateDir w.toWorld addPart fl cbstr).2.caches.env :=
    Global.lRootLocateDir_env hw h fl cbstr
  unfold Run.lRootLocateBoth
  generalize s.g.lRootLocateDir w.toWorld addPart fl cbstr = r at henv ⊢
  obtain ⟨res2 | at_, g₁⟩ := r
  · exact henv
  · exact henv

/-- An action with one name keeps what its body keeps. -/
theorem deleteAtExit_env (h : P s.g.caches.env) {body : Nat → List UInt8 → Global σ → Global σ}
    (hbody : ∀ parDir name g, P g.caches.env → P (body parDir name g).caches.env)
    (hd : s.deleteAtExit w addPart fl cbstr v body = some s') : P s'.g.caches.env := by
  have henv : P (s.lRootLocateDir w addPart fl cbstr v).2.2.g.caches.env :=
    lRootLocateDir_env hw h fl cbstr v
  exact deleteAtExit_spec Global.ofCaches_env henv (fun parDir _ => hbody parDir _ _ henv) hd

theorem deleteBeforeExit_env (h : P s.g.caches.env) {body : Nat → List UInt8 → Global σ → Global σ}
    (hbody : ∀ parDir name g, P g.caches.env → P (body parDir name g).caches.env)
    (hd : s.deleteBeforeExit w addPart fl cbstr v body = some s') : P s'.g.caches.env := by
  have henv : P (s.lRootLocateDir w addPart fl cbstr v).2.2.g.caches.env :=
    lRootLocateDir_env hw h fl cbstr v
  exact deleteBeforeExit_spec Global.ofCaches_env henv (fun parDir _ => hbody parDir _ _ henv) hd

end Run

/-- What the questions and the requests of a packet keep, the action of the packet keeps. -/
theorem PathAction.run_env (hw : w.toWorld.Keeps P) (h : P g.caches.env) {a : PathAction}
    (keeps : a.keepsLists = true)
    (hsend : ∀ r, (Event.onName a keeps).sends r = true → ∀ env, P env → P (w.send env r))
    {s' : Run σ}
    (hd : a.run w addPart (.start g) = some s') : P s'.g.caches.env := by
  replace h : P (Run.start g).g.caches.env := h
  cases a with
  | deleteObject fl cbstr =>
      refine Run.deleteAtExit_env hw h (fun parDir name g hg => ?_) hd
      exact Global.deleteObject_env hw hg parDir name
        (fun env fh => hsend (.remove fh name) rfl env)
        fun env fh => hsend (.rmDir fh name) rfl env
  | renameObject fl₁ cbstr₁ fl₂ cbstr₂ =>
      have henv₁ : P ((Run.start g).lRootLocateDir w addPart fl₁ cbstr₁ .null).2.2.g.caches.env :=
        Run.lRootLocateDir_env hw h fl₁ cbstr₁ .null
      have henv₂ :
        P (((Run.start g).lRootLocateDir w addPart fl₁ cbstr₁ .null).2.2.lRootLocateDir w addPart
          fl₂ cbstr₂ .null).2.2.g.caches.env := Run.lRootLocateDir_env hw henv₁ fl₂ cbstr₂ .null
      refine Run.actRENAMEOBJECT_spec Global.ofCaches_env henv₁ henv₂
        (fun parDir₁ _ parDir₂ _ => ?_) hd
      exact Global.renameObject_env hw henv₂ parDir₁ _ parDir₂ _ fun env fh₁ fh₂ =>
        hsend (.rename fh₁ _ fh₂ _) rfl env
  | createObject fl cbstr type subtype1 =>
      replace hd : (Run.start g).actCREATEOBJECT w addPart fl cbstr type subtype1 = some s' := hd
      unfold Run.actCREATEOBJECT at hd
      split at hd
      · obtain rfl := Option.some.inj hd
        exact h
      · refine Run.deleteAtExit_env hw h (fun parDir name g hg => Global.answer_env ?_) hd
        exact hsend (.create _ name g.gUid g.gGid g.gMode subtype1)
          (decide_eq_true rfl) g.caches.env hg
  | setProtect fl cbstr mask =>
      refine Run.deleteBeforeExit_env hw h (fun parDir name g hg => ?_) hd
      exact Global.setAttr_env hw hg (fun env fh => hsend (.chmod fh _) rfl env) parDir name
  | setDate fl cbstr ds =>
      refine Run.deleteBeforeExit_env hw h (fun parDir name g hg => ?_) hd
      exact Global.setAttr_env hw hg
        (fun env fh => hsend (.setTimes fh _) (decide_eq_true rfl) env) parDir name
  | setOwner fl cbstr ownerGroup =>
      refine Run.deleteBeforeExit_env hw h (fun parDir name g hg => ?_) hd
      exact Global.setAttr_env hw hg
        (fun env fh => hsend (.setUidGid fh _ _) (decide_eq_true ⟨rfl, rfl⟩) env) parDir name
  | getAttributes fl cbstr tags =>
      have henv : P ((Run.start g).lRootLocateDir w addPart fl cbstr .unset).2.2.g.caches.env :=
        Run.lRootLocateDir_env hw h fl cbstr .unset
      obtain ⟨q, hrun, rfl⟩ := Option.map_eq_some_iff.mp hd
      unfold Run.actGETATTRIBUTES at hrun
      generalize (Run.start g).lRootLocateDir w addPart fl cbstr .unset = t at henv hrun
      obtain ⟨res2 | parDir, name, s₁⟩ := t
      · obtain rfl := Option.some.inj hrun
        exact henv
      · obtain ⟨s₂, hdel, rfl⟩ := Option.map_eq_some_iff.mp hrun
        refine Run.fnDelete_spec (s := s₁.on _) Global.ofCaches_env ?_ hdel
        exact Global.getAttributes_env hw henv tags parDir name.text
  | makeLink fl cbstr link =>
      replace hd : (Run.start g).actMAKELINK w addPart fl cbstr link = some s' := hd
      unfold Run.actMAKELINK at hd
      split at hd
      · next hsoft =>
        refine Run.deleteAtExit_env hw h (fun parDir name g hg => Global.answer_env ?_) hd
        exact hsend (.symlink _ name g.gUid g.gGid link.path)
          (decide_eq_true ⟨hsoft, rfl⟩) g.caches.env hg
      split at hd
      · next hhard =>
        unfold Run.doActMAKEHARDLINK at hd
        split at hd
        · exact Run.fnDelete_spec (s := (Run.start g).setRes DOSFALSE errorInvalidLock)
            Global.ofCaches_env h hd
        · next elock _ =>
          refine Run.deleteAtExit_env hw h (fun parDir name g hg => Global.answer_env ?_) hd
          exact hsend (.link elock.nfsFh _ name) (decide_eq_true hhard) g.caches.env hg
      · obtain rfl := Option.some.inj hd
        exact h
  | createDir fl cbstr => cases keeps
  | findInput fl cbstr => cases keeps
  | findUpdate fl cbstr => cases keeps
  | findOutput fl cbstr => cases keeps

namespace Session
variable {s s' : Session σ} (hw : w.toWorld.Keeps P)
include hw

theorem serve_env (h : P s.g.caches.env) {p : Packet}
    (hsend : ∀ r, (Event.packet p).sends r = true → ∀ env, P env → P (w.send env r)) :
    P (s.serve w.toRequests addPart p).g.caches.env := by
  have henv : ∀ fl cbstr, P (s.g.lRootLocateDir w.toWorld addPart fl cbstr).2.caches.env :=
    fun fl cbstr => Global.lRootLocateDir_env hw h fl cbstr
  cases p with
  | findInput fl cbstr =>
      refine Global.actFINDREADWRITE_spec Global.ofCaches_env (henv fl cbstr) fun at_ _ => ?_
      exact Global.findOrCreate_env hw (henv fl cbstr) _ _ fun hmode => absurd hmode (by decide)
  | findUpdate fl cbstr =>
      refine Global.actFINDREADWRITE_spec Global.ofCaches_env (henv fl cbstr) fun at_ _ => ?_
      exact Global.findOrCreate_env hw (henv fl cbstr) _ _ fun _ =>
        hsend (.create _ _ _ _ _ 4294967295) rfl
  | findOutput fl cbstr =>
      refine Global.actFINDOUTPUT_spec Global.ofCaches_env (henv fl cbstr) fun at_ _ => ?_
      exact Global.replaceFile_env hw (henv fl cbstr) _ _ (hsend (.remove _ _) rfl)
        (hsend (.create _ _ _ _ _ 0) rfl)
  | fhFromLock fl => exact Global.actFHFROMLOCK_env hw h fl
  | finish arg1 =>
      show P (s.g.actEND w.toRequests arg1).caches.env
      unfold Global.actEND
      split
      · exact h
      next efh _ =>
      have hsent : P (w.flush s.g.caches.env efh.addr).2 := hsend (.flush efh.addr) rfl _ h
      dsimp only
      split
      · exact hsent
      · exact hsent
  | locateObject fl cbstr mode => exact Global.actLOCATEOBJECT_env hw h fl cbstr mode
  | freeLock fl =>
      show P (s.g.actFREELOCK fl).caches.env
      rw [Global.actFREELOCK_caches]
      exact h
  | copyDir fl =>
      cases fl with
      | none => exact h
      | some fl =>
          show P (s.g.doActCOPYDIR _).caches.env
          rw [Global.doActCOPYDIR_caches]
          exact h
  | copyDirFh arg1 =>
      show P (s.g.actCOPYDIRFH arg1).caches.env
      unfold Global.actCOPYDIRFH
      split
      · exact h
      · rw [Global.doActCOPYDIR_caches]
        exact h
  | parent fl => exact Global.doActPARENT_env hw h _
  | parentFh arg1 =>
      show P (s.g.actPARENTFH w.toRequests addPart arg1).caches.env
      unfold Global.actPARENTFH
      split
      · exact h
      · exact Global.doActPARENT_env hw h _
  | changeMode objType object newMode =>
      show P (s.g.actCHANGEMODE objType object newMode).caches.env
      rw [Global.actCHANGEMODE_caches]
      exact h
  | die =>
      show P s.g.actDIE.caches.env
      unfold Global.actDIE
      split
      · exact h
      · exact h

theorem serveEvent_env (h : P s.g.caches.env) {e : Event}
    (hsend : ∀ r, e.sends r = true → ∀ env, P env → P (w.send env r)) :
    P (s.serveEvent w addPart e).g.caches.env := by
  cases e with
  | packet p => exact serve_env hw h hsend
  | createDir fl cbstr =>
      unfold serveEvent
      dsimp only
      split
      · exact h
      next r hr =>
      have henv :
        P ((Run.start s.g).lRootLocateBoth w addPart fl cbstr .unset .unset).2.2.g.caches.env :=
        Run.lRootLocateBoth_env hw h fl cbstr .unset .unset
      refine Run.actCREATEDIR_spec Global.ofCaches_env henv (fun parDir _ => ?_) hr
      exact Global.createDir_env henv parDir _ _ fun env fh => hsend (.mkDir fh _ _ _ _) rfl env
  | onName a keeps =>
      unfold serveEvent
      dsimp only
      split
      · exact h
      · next r hr => exact PathAction.run_env hw h keeps hsend hr

omit hw in
theorem flushFiles_env (h : P s.g.caches.env) (hsend : ∀ efh env, P env → P (w.flush env efh).2) :
    P (s.flushFiles w).g.caches.env := by
  have hall : ∀ files : List EFH, ∀ env, P env →
      P (files.foldl (fun env efh => (w.flush env efh.addr).2) env) := by
    intro files
    induction files with
    | nil => exact fun env henv => henv
    | cons efh files ih => exact fun env henv => ih _ (hsend efh.addr env henv)
  exact hall s.g.files s.g.caches.env h

omit hw in
theorem flushTimes_env (h : P s.g.caches.env) (hsend : ∀ efh env, P env → P (w.flush env efh).2)
    (n : Nat) : P (flushTimes w n s).g.caches.env := by
  induction n generalizing s with
  | zero => exact h
  | succ n ih => exact ih (flushFiles_env h hsend)

theorem serveTurn_env (h : P s.g.caches.env) {t : Turn}
    (hsend : ∀ r, t.sends r = true → ∀ env, P env → P (w.send env r))
    (hd : s.serveTurn w addPart t = some s') : P s'.g.caches.env := by
  cases t with
  | event e =>
      obtain rfl := Option.some.inj hd
      exact serveEvent_env hw h hsend
  | flush =>
      obtain rfl := Option.some.inj hd
      exact flushFiles_env h fun efh => hsend (.flush efh) rfl
  | timer =>
      obtain rfl := Option.some.inj hd
      exact flushFiles_env (hw.now _ (hw.now _ h)) fun efh => hsend (.flush efh) rfl
  | moreCache flushes attrs dirs =>
      have hflushed := flushTimes_env h (fun efh => hsend (.flush efh) rfl) flushes
      obtain ⟨c₂, hrun, rfl⟩ := Option.map_eq_some_iff.mp hd
      obtain ⟨c₁, hrun₁, hrun₂⟩ := Option.bind_eq_some_iff.mp hrun
      obtain ⟨r₁, -, rfl⟩ := Option.map_eq_some_iff.mp hrun₁
      obtain ⟨r₂, -, rfl⟩ := Option.map_eq_some_iff.mp hrun₂
      exact hw.now _ (hw.now _ hflushed)
  | attrCacheTimeout timeout =>
      obtain rfl := Option.some.inj hd
      exact h
  | dirCacheTimeout timeout =>
      obtain rfl := Option.some.inj hd
      exact h

theorem unLockAll_env (h : P s.g.caches.env)
    (hd : s.unLockAll w = some s') : P s'.g.caches.env := by
  obtain ⟨c₂, hrun, rfl⟩ := Option.map_eq_some_iff.mp hd
  obtain ⟨c₁, hrun₁, hrun₂⟩ := Option.bind_eq_some_iff.mp hrun
  obtain ⟨r₁, -, rfl⟩ := Option.map_eq_some_iff.mp hrun₁
  obtain ⟨r₂, -, rfl⟩ := Option.map_eq_some_iff.mp hrun₂
  exact hw.now _ (hw.now _ h)

end Session

end Kept

end Anfs.Lock
