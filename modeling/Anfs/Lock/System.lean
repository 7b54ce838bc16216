import Anfs.Lock.Names

/-!
# Locks, handles and names together

The packets about locks and handles and the packets about names, in any order. An action on names
that frees a stray pointer has no meaning. Every other one leaves the lists as they are, except for
`act_CREATE_DIR`, which adds the lock that it grants.
-/
namespace Anfs.Lock
open Anfs.Cache Anfs.Lib Anfs.Nfs Anfs.Path Anfs.Tree Anfs.Xdr
open scoped List

/-- The action neither grants a lock nor opens a file. -/
def PathAction.keepsLists : PathAction → Bool
  | createDir .. | findInput .. | findUpdate .. | findOutput .. => false
  | _ => true

/-- A packet about a lock or a handle, `ACTION_CREATE_DIR`, or another one about a name. -/
inductive Event
  | packet (p : Packet)
  | createDir (fl : Option Nat) (cbstr : List UInt8)
  | onName (a : PathAction) (keeps : a.keepsLists = true)

namespace Session
variable {σ : Type} (w : ObjRequests σ) (addPart : List UInt8 → List UInt8 → Nat →
  Option (List UInt8))

/-- What the handler does with a packet while it runs. -/
def serveEvent (s : Session σ) : Event → Session σ
  | .packet p => s.serve w.toRequests addPart p
  | .createDir fl cbstr =>
      match (Run.start s.g).actCREATEDIR w addPart fl cbstr with
      | none => s
      | some r => s.granted r.g
  | .onName a _ =>
      match a.run w addPart (.start s.g) with
      | none => s
      | some r => { s with g := r.g }

/-- One packet of any kind. -/
def stepEvent (s : Session σ) (e : Event) : Session σ :=
  if s.g.running then s.serveEvent w addPart e else s

/-- The action frees no stray pointer, and the client obeys the rule about locks. -/
def ObeysEvent (s : Session σ) : Event → Prop
  | .packet p => s.Obeys p
  | .createDir fl cbstr => ((Run.start s.g).actCREATEDIR w addPart fl cbstr).isSome = true
  | .onName a _ => (a.run w addPart (.start s.g)).isSome = true

instance (s : Session σ) : ∀ e, Decidable (s.ObeysEvent w addPart e)
  | .packet p => inferInstanceAs (Decidable (s.Obeys p))
  | .createDir fl cbstr =>
      inferInstanceAs (Decidable (((Run.start s.g).actCREATEDIR w addPart fl cbstr).isSome = true))
  | .onName a _ => inferInstanceAs (Decidable ((a.run w addPart (.start s.g)).isSome = true))

end Session

namespace Global
variable {σ : Type} {w : ObjRequests σ} {g g₁ : Global σ} {bs : List Nat}

theorem Adds.kept (h : Adds g g₁ none none bs) : Kept g g₁ bs :=
  ⟨h.locks, h.files, h.lastId, h.running, h.heap.perm (by simp)⟩

theorem Kept.setRes1 (h : Kept g g₁ bs) (res1 : Res1) : Kept g (g₁.setRes1 res1) bs := { h with }

theorem answer_kept {α : Type} (g : Global σ) (r : Except Int α × σ) : Kept g (g.answer r) [] := by
  unfold answer
  split
  · exact ((Kept.refl g).setEnv r.2).setRes1 DOSTRUE
  · exact ((Kept.refl g).setEnv r.2).setRes DOSFALSE _

theorem deleteObject_kept (parDir : Nat) (name : List UInt8) (g : Global σ) :
    Kept g (g.deleteObject w parDir name) [] := by
  unfold deleteObject
  generalize g.caches.getNameEntry w.toWorld parDir name true = r
  obtain ⟨res2 | ⟨nent, ace⟩, caches⟩ := r
  · exact ((Kept.refl g).withCaches caches).setRes DOSFALSE res2
  · dsimp only
    have hasked := (Kept.refl g).withCaches caches
    split
    · exact hasked.setRes DOSFALSE errorObjectInUse
    · split
      · exact ((hasked.trans (answer_kept _ _)).withCaches _).withCaches _
      · exact (hasked.trans (answer_kept _ _)).withCaches _

theorem renameObject_kept (parDir₁ : Nat) (name₁ : List UInt8) (parDir₂ : Nat)
    (name₂ : List UInt8) (g : Global σ) :
    Kept g (g.renameObject w parDir₁ name₁ parDir₂ name₂) [] := by
  unfold renameObject
  generalize g.caches.getNameEntry w.toWorld parDir₁ name₁ true = r
  obtain ⟨res2 | ⟨nent, ace⟩, caches⟩ := r
  · exact ((Kept.refl g).withCaches caches).setRes DOSFALSE res2
  · dsimp only
    have hasked := (Kept.refl g).withCaches caches
    split
    · exact hasked.setRes DOSFALSE errorObjectInUse
    · split
      · exact (hasked.setEnv _).setRes DOSFALSE _
      · exact ((hasked.setEnv _).withCaches _).setRes1 DOSTRUE

theorem setAttr_kept (request : σ → List UInt8 → Except Int Fattr × σ) (parDir : Nat)
    (name : List UInt8) (g : Global σ) :
    Kept g (g.setAttr w request parDir name) [] := by
  unfold setAttr
  split
  · exact (((Kept.refl g).setEnv _).withCaches _).setRes DOSFALSE _
  · dsimp only
    split
    · exact (((Kept.refl g).setEnv _).withCaches _).setRes1 DOSTRUE
    · exact (((Kept.refl g).setEnv _).withCaches _).setRes DOSFALSE _

theorem getAttributes_kept (tags : List TagItem) (parDir : Nat) (name : List UInt8) (g : Global σ) :
    Kept g (g.getAttributes w tags parDir name).1 [] := by
  unfold getAttributes
  generalize g.caches.getNameEntry w.toWorld parDir name true = r
  obtain ⟨res2 | ⟨nent, ace⟩, caches⟩ := r
  · exact ((Kept.refl g).withCaches caches).setRes DOSFALSE res2
  · exact ((Kept.refl g).withCaches caches).setRes _ 0

/-- What `lock_Create` stores in a lock. -/
structure Filled (fullName name : List UInt8) (nfstype : UInt32) (mode : Int)
    (l : ELOCK) : Prop where
  access : l.flAccess = mode
  type : l.nfsType = nfstype
  fullName : l.fullName.text = fullName
  name : l.name.text = name

theorem lockCreate_filled {h h' : Heap} {fullName name : List UInt8} {nfstype : UInt32}
    {mode : Int} {l : ELOCK}
    (hl : lockCreate h fullName name nfstype mode = (some l, h')) :
    Filled fullName name nfstype mode l := by
  unfold lockCreate at hl
  generalize h.alloc = r at hl
  obtain ⟨_ | elock, h₁⟩ := r
  · cases hl
  · dsimp only at hl
    split at hl
    · next full last hfull hlast =>
      cases hl
      exact ⟨rfl, rfl, text_strDup hfull, text_strDup hlast⟩
    · cases hl

/-- `act_CREATE_DIR` adds the lock that it grants. -/
theorem createDir_adds (parDir : Nat) (fullName name : List UInt8) (g : Global σ) : ∃ l,
    Adds g (g.createDir w parDir fullName name) l none [] ∧
    granted (g.createDir w parDir fullName name).gRes1 = l.map ELOCK.addr ∧
    ∀ l' ∈ l, Filled fullName name NFDIR EXCLUSIVE_LOCK l' := by
  unfold createDir
  split
  · exact ⟨none, (((Kept.refl g).setEnv _).setRes DOSFALSE _).adds, rfl,
      fun _ hl => absurd hl (by simp)⟩
  · next dir env _ =>
    dsimp only
    split
    · next heap hcreate =>
      obtain ⟨hkept, -⟩ := lockCreate_makes (g.setEnv env) _ _ _ _ hcreate
      refine ⟨none,
        ((((Kept.refl g).setEnv env).trans hkept).setRes DOSFALSE errorNoFreeStore).adds, rfl, ?_⟩
      exact fun _ hl => absurd hl (by simp)
    · next l heap hcreate =>
      obtain ⟨hkept, hfresh⟩ := lockCreate_makes (g.setEnv env) _ _ _ _ hcreate
      have hmade := lockCreate_filled hcreate
      have hnew : Makes g (.ok { l with nfsFh := dir.file, flKey := dir.attributes.fileid },
          { g.setEnv env with heap }) :=
            Makes.after ((Kept.refl g).setEnv env) (Makes.ok hkept (hfresh l rfl))
      refine ⟨some _, hnew.insert.setRes1 (.lock l.addr), rfl, ?_⟩
      rintro l' ⟨⟩
      exact { hmade with }

end Global

namespace Run
variable {σ : Type} {w : ObjRequests σ} {addPart : List UInt8 → List UInt8 → Nat →
  Option (List UInt8)} {g : Global σ}
  {s s' : Run σ} {l : Option ELOCK} {v : NameVar}

/-- Since `g` the run has added the lock `l`; some blocks may be left besides its buffers. -/
def Adds (g : Global σ) (s : Run σ) (l : Option ELOCK) : Prop :=
  ∃ bs, g.Adds s.g l none (s.held ++ bs)

theorem adds_start (g : Global σ) : Adds g (start g) none := ⟨[], (Global.Kept.refl g).adds⟩

theorem Adds.on (h : Adds g s none) {f : Global σ → Global σ} {bs : List Nat}
    (hf : s.g.Adds (f s.g) l none bs) :
    Adds g (s.on f) l := by
  obtain ⟨cs, hkept⟩ := h
  refine ⟨bs ++ cs, (Global.Adds.after hkept.kept hf).perm ?_⟩
  exact List.perm_append_comm_assoc ..

theorem Adds.setRes (h : Adds g s l) (res1 : Res1) (res2 : Int) :
    Adds g (s.setRes res1 res2) l := by
  obtain ⟨bs, hadds⟩ := h
  exact ⟨bs, hadds.setRes res1 res2⟩

/-- `fn_Delete` frees a buffer of the run. -/
theorem Adds.fnDelete (h : Adds g s l) (hd : s.fnDelete v = some s') :
    Adds g s' l ∧ s'.g.gRes1 = s.g.gRes1 := by
  obtain ⟨bs, hadds⟩ := h
  cases v with
  | unset => cases hd
  | null =>
      obtain rfl := Option.some.inj hd
      exact ⟨⟨bs, hadds⟩, rfl⟩
  | ptr d =>
      unfold Run.fnDelete at hd
      dsimp only at hd
      split at hd
      · next hmem =>
        obtain rfl := Option.some.inj hd
        have hfirst := hadds.perm ((List.perm_cons_erase hmem).append_right bs)
        exact ⟨⟨bs, hfirst.withHeap hfirst.heap.free⟩, rfl⟩
      · cases hd

theorem located_perm (at_ : Global.Located) (held leak bs : List Nat) :
    (Global.locatedBlocks (.ok at_) ++ leak) ++ (held ++ bs) ~
      at_.fullName.addr :: (Str.block at_.name ++ held ++ (leak ++ bs)) := by
  refine List.Perm.cons _ ?_
  show Str.block at_.name ++ leak ++ (held ++ bs) ~ Str.block at_.name ++ held ++ (leak ++ bs)
  rw [List.append_assoc, List.append_assoc]
  exact (List.perm_append_comm_assoc leak held bs).append_left _

theorem Adds.lRootLocateDir (h : Adds g s none) (fl : Option Nat)
    (cbstr : List UInt8) (v : NameVar) :
    Adds g (s.lRootLocateDir w addPart fl cbstr v).2.2 none := by
  obtain ⟨bs, hadds⟩ := h
  obtain ⟨leak, hasked, -⟩ := @Global.lRootLocateDir_asked σ w.toWorld addPart s.g fl cbstr
  have hall := hadds.kept.trans hasked.toKept
  unfold Run.lRootLocateDir
  generalize s.g.lRootLocateDir w.toWorld addPart fl cbstr = r at hall ⊢
  obtain ⟨res2 | at_, g₁⟩ := r
  · exact ⟨leak ++ bs, (hall.adds).perm (List.perm_append_comm_assoc ..)⟩
  · have hname : Global.Kept g g₁
      (at_.fullName.addr :: (Str.block at_.name ++ s.held ++ (leak ++ bs))) :=
      hall.withHeap (hall.heap.perm (located_perm at_ s.held leak bs))
    exact ⟨leak ++ bs, (hname.withHeap hname.heap.free).adds⟩

theorem Adds.lRootLocateBoth (h : Adds g s none) (fl : Option Nat) (cbstr : List UInt8)
    (v₁ v₂ : NameVar) :
    Adds g (s.lRootLocateBoth w addPart fl cbstr v₁ v₂).2.2 none := by
  obtain ⟨bs, hadds⟩ := h
  obtain ⟨leak, hasked, -⟩ := @Global.lRootLocateDir_asked σ w.toWorld addPart s.g fl cbstr
  have hall := hadds.kept.trans hasked.toKept
  unfold Run.lRootLocateBoth
  generalize s.g.lRootLocateDir w.toWorld addPart fl cbstr = r at hall ⊢
  obtain ⟨res2 | at_, g₁⟩ := r
  · exact ⟨leak ++ bs, (hall.adds).perm (List.perm_append_comm_assoc ..)⟩
  · have hname : Global.Kept g g₁
      (at_.fullName.addr :: (Str.block at_.name ++ s.held ++ (leak ++ bs))) :=
      hall.withHeap (hall.heap.perm (located_perm at_ s.held leak bs))
    exact ⟨leak ++ bs, hname.adds⟩

theorem adds_deleteAtExit {body : Nat → List UInt8 → Global σ → Global σ}
    (hbody : ∀ parDir name g, Global.Kept g (body parDir name g) []) {fl : Option Nat}
    {cbstr : List UInt8}
    (hd : (start g).deleteAtExit w addPart fl cbstr v body = some s') : Adds g s' none := by
  have hat := @Adds.lRootLocateDir σ w addPart g _ (adds_start g) fl cbstr v
  unfold deleteAtExit at hd
  generalize (start g).lRootLocateDir w addPart fl cbstr v = r at hat hd
  obtain ⟨res2 | parDir, name, s⟩ := r
  · exact ((hat.setRes DOSFALSE res2).fnDelete hd).1
  · exact ((hat.on (hbody parDir name.text s.g).adds).fnDelete hd).1

theorem adds_deleteBeforeExit {body : Nat → List UInt8 → Global σ → Global σ}
    (hbody : ∀ parDir name g, Global.Kept g (body parDir name g) []) {fl : Option Nat}
    {cbstr : List UInt8}
    (hd : (start g).deleteBeforeExit w addPart fl cbstr v body = some s') : Adds g s' none := by
  have hat := @Adds.lRootLocateDir σ w addPart g _ (adds_start g) fl cbstr v
  unfold deleteBeforeExit at hd
  generalize (start g).lRootLocateDir w addPart fl cbstr v = r at hat hd
  obtain ⟨res2 | parDir, name, s⟩ := r
  · obtain rfl := Option.some.inj hd
    exact hat.setRes DOSFALSE res2
  · exact ((hat.on (hbody parDir name.text s.g).adds).fnDelete hd).1

theorem adds_actRENAMEOBJECT {fl₁ fl₂ : Option Nat} {cbstr₁ cbstr₂ : List UInt8}
    (hd : (start g).actRENAMEOBJECT w addPart fl₁ cbstr₁ fl₂ cbstr₂ = some s') :
    Adds g s' none := by
  have hexit : ∀ {s : Run σ} {name₁ name₂ : NameVar}, Adds g s none →
      ((s.fnDelete name₁).bind fun s => s.fnDelete name₂) = some s' → Adds g s' none := by
    intro s name₁ name₂ h hd
    obtain ⟨s₁, hd₁, hd₂⟩ := Option.bind_eq_some_iff.mp hd
    exact ((h.fnDelete hd₁).1.fnDelete hd₂).1
  have hat := @Adds.lRootLocateDir σ w addPart g _ (adds_start g) fl₁ cbstr₁ .null
  unfold actRENAMEOBJECT at hd
  generalize (start g).lRootLocateDir w addPart fl₁ cbstr₁ .null = r at hat hd
  obtain ⟨res2 | parDir₁, name₁, s₁⟩ := r
  · exact hexit (hat.setRes DOSFALSE res2) hd
  · have hat₂ := @Adds.lRootLocateDir σ w addPart g s₁ hat fl₂ cbstr₂ .null
    dsimp only at hd
    generalize s₁.lRootLocateDir w addPart fl₂ cbstr₂ .null = r at hat₂ hd
    obtain ⟨res2 | parDir₂, name₂, s₂⟩ := r
    · exact hexit (hat₂.setRes DOSFALSE res2) hd
    · exact hexit
        (hat₂.on (Global.renameObject_kept parDir₁ name₁.text parDir₂ name₂.text s₂.g).adds) hd

/-- `act_CREATE_DIR`; `fullName` and `name` are what the lock is named by. -/
theorem adds_actCREATEDIR {fl : Option Nat} {cbstr : List UInt8}
    (hd : (start g).actCREATEDIR w addPart fl cbstr = some s') :
    ∃ l, Adds g s' l ∧ Global.granted s'.g.gRes1 = l.map ELOCK.addr ∧
      ∀ l' ∈ l, ∃ at_ : Global.Located,
      (g.lRootLocateDir w.toWorld addPart fl cbstr).1 = .ok at_ ∧
      Global.Filled at_.fullName.text (Global.textOf at_.name) NFDIR EXCLUSIVE_LOCK l' := by
  have hexit : ∀ {s : Run σ} {v₁ v₂ : NameVar} {l : Option ELOCK}, Adds g s l →
      ((s.fnDelete v₁).bind fun s => s.fnDelete v₂) = some s' → Adds g s' l ∧
        s'.g.gRes1 = s.g.gRes1 := by
    intro s v₁ v₂ l h hd
    obtain ⟨s₁, hd₁, hd₂⟩ := Option.bind_eq_some_iff.mp hd
    obtain ⟨hadds₁, hres₁⟩ := h.fnDelete hd₁
    obtain ⟨hadds₂, hres₂⟩ := hadds₁.fnDelete hd₂
    exact ⟨hadds₂, hres₂.trans hres₁⟩
  have hat := @Adds.lRootLocateBoth σ w addPart g _ (adds_start g) fl cbstr .unset .unset
  unfold actCREATEDIR at hd
  unfold lRootLocateBoth at hat hd
  rw [show (start g).g = g from rfl] at hat hd
  generalize g.lRootLocateDir w.toWorld addPart fl cbstr = r at hat hd ⊢
  obtain ⟨res2 | at_, g₁⟩ := r
  · obtain ⟨hadds, hres⟩ := hexit (hat.setRes DOSFALSE res2) hd
    exact ⟨none, hadds, by rw [hres]; rfl, fun _ hl => absurd hl (by simp)⟩
  · dsimp only at hat hd
    obtain ⟨l, hnew, hgrant, hmade⟩ := Global.createDir_adds (w := w) at_.parDir at_.fullName.text
      (NameVar.ofPtr at_.name).text g₁
    obtain ⟨hadds, hres⟩ := hexit (hat.on hnew) hd
    refine ⟨l, hadds, by rw [hres]; exact hgrant, fun l' hl' => ⟨at_, rfl, ?_⟩⟩
    have htext : (NameVar.ofPtr at_.name).text = Global.textOf at_.name := by
      cases at_.name with
      | none => rfl
      | some d => rfl
    rw [← htext]
    exact hmade l' hl'

end Run

/-- Every action on names that is not to add something leaves the lists as they are. -/
theorem PathAction.adds_run {σ : Type} {w : ObjRequests σ}
    {addPart : List UInt8 → List UInt8 → Nat → Option (List UInt8)}
    {g : Global σ} {a : PathAction} (hkeeps : a.keepsLists = true) {s' : Run σ}
    (hd : a.run w addPart (.start g) = some s') : Run.Adds g s' none := by
  cases a with
  | deleteObject fl cbstr => exact Run.adds_deleteAtExit Global.deleteObject_kept hd
  | createDir fl cbstr => cases hkeeps
  | renameObject fl₁ cbstr₁ fl₂ cbstr₂ => exact Run.adds_actRENAMEOBJECT hd
  | createObject fl cbstr type subtype1 =>
      replace hd : (Run.start g).actCREATEOBJECT w addPart fl cbstr type subtype1 = some s' := hd
      unfold Run.actCREATEOBJECT at hd
      split at hd
      · obtain rfl := Option.some.inj hd
        exact (Run.adds_start g).setRes DOSFALSE errorBadNumber
      · exact Run.adds_deleteAtExit (fun _ _ g => Global.answer_kept g _) hd
  | setProtect fl cbstr mask => exact Run.adds_deleteBeforeExit (Global.setAttr_kept _) hd
  | setDate fl cbstr ds => exact Run.adds_deleteBeforeExit (Global.setAttr_kept _) hd
  | setOwner fl cbstr ownerGroup => exact Run.adds_deleteBeforeExit (Global.setAttr_kept _) hd
  | getAttributes fl cbstr tags =>
      have hat := @Run.Adds.lRootLocateDir σ w addPart g _ (Run.adds_start g) fl cbstr .unset
      obtain ⟨r, hrun, rfl⟩ := Option.map_eq_some_iff.mp hd
      unfold Run.actGETATTRIBUTES at hrun
      generalize (Run.start g).lRootLocateDir w addPart fl cbstr .unset = t at hat hrun
      obtain ⟨res2 | parDir, name, s⟩ := t
      · obtain rfl := Option.some.inj hrun
        exact hat.setRes DOSFALSE res2
      · obtain ⟨s₁, hdel, rfl⟩ := Option.map_eq_some_iff.mp hrun
        exact ((hat.on (Global.getAttributes_kept tags parDir name.text s.g).adds).fnDelete hdel).1
  | makeLink fl cbstr link =>
      replace hd : (Run.start g).actMAKELINK w addPart fl cbstr link = some s' := hd
      unfold Run.actMAKELINK at hd
      split at hd
      · exact Run.adds_deleteAtExit (fun _ _ g => Global.answer_kept g _) hd
      split at hd
      · unfold Run.doActMAKEHARDLINK at hd
        split at hd
        · exact (((Run.adds_start g).setRes DOSFALSE errorInvalidLock).fnDelete hd).1
        · exact Run.adds_deleteAtExit (fun _ _ g => Global.answer_kept g _) hd
      · obtain rfl := Option.some.inj hd
        exact (Run.adds_start g).setRes DOSFALSE errorRequiredArgMissing
  | findInput fl cbstr => cases hkeeps
  | findUpdate fl cbstr => cases hkeeps
  | findOutput fl cbstr => cases hkeeps

namespace Session
variable {σ : Type} {w : ObjRequests σ} {addPart : List UInt8 → List UInt8 → Nat →
  Option (List UInt8)} {s : Session σ}

/-- A packet about a name does not touch what the handler has in its lists. -/
theorem Sound.onName (h : s.Sound) (hrun : s.g.running = true) {r : Run σ}
    (hr : Run.Adds s.g r none)
    (hn : s.created ≤ 2147483647) : Sound { s with g := r.g } := by
  obtain ⟨bs, hadds⟩ := hr
  exact h.adds hrun hadds rfl hn (fun a ha => .inl ha) fun f hf => absurd hf (by simp)

theorem created_le_stepEvent (s : Session σ) (e : Event) :
    s.created ≤ (s.stepEvent w addPart e).created := by
  unfold Session.stepEvent
  split
  · cases e with
    | packet p => exact created_le_serve s p
    | createDir fl cbstr =>
        unfold serveEvent
        dsimp only
        split
        · exact Nat.le_refl _
        · exact Nat.le_refl _
    | onName a keeps =>
        unfold serveEvent
        dsimp only
        split
        · exact Nat.le_refl _
        · exact Nat.le_refl _
  · exact Nat.le_refl _

/-- A packet of any kind keeps the invariant. -/
theorem Sound.stepEvent (h : s.Sound) {e : Event} (hobeys : s.ObeysEvent w addPart e)
    (hn : (s.stepEvent w addPart e).created ≤ 2147483647) : (s.stepEvent w addPart e).Sound := by
  have hbefore : s.created ≤ 2147483647 := Nat.le_trans (created_le_stepEvent s e) hn
  unfold Session.stepEvent at hn ⊢
  split
  · next hrun =>
    rw [if_pos hrun] at hn
    cases e with
    | packet p => exact h.serve hrun hobeys hn
    | createDir fl cbstr =>
        obtain ⟨r, hr⟩ := Option.isSome_iff_exists.mp (show Option.isSome _ = true from hobeys)
        obtain ⟨l, ⟨bs, hadds⟩, hgrant, -⟩ := Run.adds_actCREATEDIR hr
        simp only [serveEvent, hr]
        exact h.granted hrun ⟨l, _, hadds, hgrant⟩ hbefore
    | onName a keeps =>
        obtain ⟨r, hr⟩ := Option.isSome_iff_exists.mp (show Option.isSome _ = true from hobeys)
        simp only [serveEvent, hr]
        exact h.onName hrun (PathAction.adds_run keeps hr) hbefore
  · exact h

end Session

end Anfs.Lock
