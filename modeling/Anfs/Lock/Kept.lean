import Anfs.Lock.Current

/-!
# Names of locked objects

`act_DELETE_OBJECT` and `act_RENAME_OBJECT` look for a lock on the object of the name entry in the
cache, `act_FINDOUTPUT` for one on the object that LOOKUP returns. Since both are the object that
the server has, no name of a locked object is taken from the server, but for one that the target of
`act_RENAME_OBJECT` had.
-/
namespace Anfs.Lock
open Anfs.Cache Anfs.Lib Anfs.Nfs Anfs.Path Anfs.Tree Anfs.Xdr

/-- Every name of the object `k` stays. -/
def Spares (k : UInt32) (N N' : DirNames) : Prop := ∀ d, ∀ b ∈ N d, b.2 = k → b ∈ N' d

section Spares
variable {k : UInt32} {N N' N'' : DirNames}

theorem Spares.refl (k : UInt32) (N : DirNames) : Spares k N N := fun _ _ hb _ => hb

theorem Spares.trans (h : Spares k N N') (h' : Spares k N' N'') : Spares k N N'' :=
  fun d b hb hk => h' d b (h d b hb hk) hk

theorem Spares.of_eq (h : N' = N) : Spares k N N' := by
  rw [h]
  exact Spares.refl k N

/-- The changed names are not names of the object. -/
theorem Spares.of_elsewhere {at_ : List (UInt32 × List UInt8)} (h : Elsewhere at_ N N')
    (hat : ∀ d, ∀ b ∈ N d, (d, b.1) ∈ at_ → b.2 ≠ k) : Spares k N N' := by
  intro d b hb hk
  exact h.mem hb fun hmem => hat d b hb hmem hk

end Spares

/-- A server without a name twice in a directory, where requests to create something take no name
away. -/
structure Hosts {σ : Type} (idOf : List UInt8 → UInt32) (names : σ → DirNames)
    (w : ObjRequests σ) : Prop
    extends Serves idOf names w where
  unique : ∀ e d, ((names e d).map Prod.fst).Nodup
  created : ∀ k e dir name uid gid mode size, Spares k (names e)
    (names (w.create e dir name uid gid mode size).2)
  madeDir : ∀ k e dir name uid gid mode, Spares k (names e)
    (names (w.mkDir e dir name uid gid mode).2)
  linked : ∀ k e fh dir name, Spares k (names e) (names (w.link e fh dir name).2)
  symlinked : ∀ k e dir name uid gid path, Spares k (names e)
    (names (w.symlink e dir name uid gid path).2)

theorem Obj.idOf_inj {a b : UInt8} (h : Obj.idOf [a] = Obj.idOf [b]) : a = b := by
  have hsum : (a.toNat + 1) % 4294967296 = (b.toNat + 1) % 4294967296 := by
    simpa [Obj.idOf] using congrArg UInt32.toNat h
  have ha := a.toNat_lt
  have hb := b.toNat_lt
  exact UInt8.toNat_inj.mp (by omega)

namespace Store

theorem spares_add (k : UInt32) (s : Store) (o : Obj) : Spares k s.names (s.add o).2.names := by
  unfold add
  split
  · exact Spares.refl k _
  · next hnew => exact fun d b hb _ => mem_names_put hb hnew

theorem hosts_requests : Hosts Obj.idOf names requests where
  toServes := serves_requests
  unique s d := by
    have hsub : (s.inDir d).Sublist s.objs := List.filter_sublist
    have hat : ((s.inDir d).map Obj.at_).Nodup := s.unique.sublist (hsub.map _)
    have hmap : (s.names d).map Prod.fst = (s.inDir d).map Obj.name := by
      unfold names
      rw [List.map_map]
      rfl
    rw [hmap]
    refine List.Nodup.map_on (fun o ho o' ho' hname => ?_) hat.of_map
    refine List.inj_on_of_nodup_map hat ho ho' (Prod.ext (Obj.idOf_inj ?_) hname)
    have hdir := of_decide_eq_true (List.mem_filter.mp ho).2
    have hdir' := of_decide_eq_true (List.mem_filter.mp ho').2
    exact hdir.trans hdir'.symm
  created k s fh name _ _ _ _ := by
    dsimp only [requests]
    split
    · exact Spares.refl k _
    · exact spares_add k s ⟨fh.headD 0, name, s.free, NFREG⟩
  madeDir k s fh name _ _ _ := spares_add k s ⟨fh.headD 0, name, s.free, NFDIR⟩
  linked k s fh dir name := spares_add k s ⟨dir.headD 0, name, fh.headD 0, (s.attr fh).type⟩
  symlinked k s fh name _ _ _ := spares_add k s ⟨fh.headD 0, name, s.free, NFLNK⟩

end Store

section Served
variable {σ : Type} {idOf : List UInt8 → UInt32} {names : σ → DirNames} {w : ObjRequests σ}
  {addPart : List UInt8 → List UInt8 → Nat → Option (List UInt8)} {N : DirNames}
  {g : Global σ} {k : UInt32}

/-- A name that is found for another object is not a name of `k`. -/
theorem Hosts.ne (hw : Hosts idOf names w) {e : σ} (henv : names e = N) {id fileId : UInt32}
    {name : List UInt8}
    (hfound : resolve (N id) name = some fileId) (hne : fileId ≠ k) :
    ∀ d, ∀ b ∈ N d, (d, b.1) = (id, name) → b.2 ≠ k := by
  intro d b hb hat hk
  obtain ⟨rfl, rfl⟩ := Prod.mk.inj hat
  have hnodup : ((N d).map Prod.fst).Nodup := by
    rw [← henv]
    exact hw.unique e d
  exact hne ((Option.some.inj (hfound.symm.trans (resolve_of_mem hnodup hb))).trans hk)

/-- A request about a name of another object. -/
theorem Hosts.spares (hw : Hosts idOf names w) {e : σ} (henv : names e = N) {N' : DirNames}
    {id fileId : UInt32}
    {name : List UInt8} (hN : Elsewhere [(id, name)] N N')
    (hfound : resolve (N id) name = some fileId)
    (hne : fileId ≠ k) : Spares k N N' :=
  .of_elsewhere hN fun d b hb hmem => hw.ne henv hfound hne d b hb (List.mem_singleton.mp hmem)

namespace Global

/-- The object `k` still has the names that it had in `N`. -/
def StillNamed (names : σ → DirNames) (k : UInt32) (N : DirNames) (g : Global σ) : Prop :=
  Spares k N (names g.caches.env)

theorem ofCaches_stillNamed (k : UInt32) (N : DirNames) : OfCaches fun g :
    Global σ => g.StillNamed names k N := by
  intro g g' h hcaches _ _
  unfold StillNamed
  rw [hcaches]
  exact h

theorem Learns.stillNamed {g' : Global σ} (h : Learns idOf names N g g') (k : UInt32) :
    g'.StillNamed names k N :=
  Spares.of_eq h.knowing.env

/-- `k` is locked. -/
def Locked (k : UInt32) (g : Global σ) : Prop := (lockLookupFromKey g.locks k).isSome = true

instance (k : UInt32) (g : Global σ) : Decidable (g.Locked k) :=
  inferInstanceAs (Decidable (_ = true))

theorem Locked.ne (h : g.Locked k) {fileId : UInt32}
    (hfree : ¬ (lockLookupFromKey g.locks fileId).isSome = true) :
    fileId ≠ k := by
  rintro rfl
  exact hfree h

theorem locked_lRootLocateDir (w : World σ)
    (addPart : List UInt8 → List UInt8 → Nat → Option (List UInt8))
    (h : g.Locked k) (fl : Option Nat) (cbstr : List UInt8) :
    (g.lRootLocateDir w addPart fl cbstr).2.Locked k := by
  obtain ⟨leak, hasked, -⟩ := @lRootLocateDir_asked σ w addPart g fl cbstr
  unfold Locked
  rw [hasked.locks]
  exact h

theorem answer_stillNamed {α : Type} {r : Except Int α × σ} (h : Spares k N (names r.2)) :
    (g.answer r).StillNamed names k N := by
  unfold answer
  split
  · exact h
  · exact h

section Changes
variable (hw : Hosts idOf names w) {parDir : Nat} {id : UInt32}
include hw

theorem findOrCreate_stillNamed (h : g.Knowing idOf names N) (dirFh name : List UInt8)
    (fileMode : Int) :
    (g.findOrCreate w.toRequests dirFh name fileMode).2.StillNamed names k N := by
  have hasked := (hw.asked N).lookup g.caches.env dirFh name h.env
  unfold findOrCreate
  generalize w.lookup g.caches.env dirFh name = q at hasked ⊢
  obtain ⟨res2 | dres, env⟩ := q
  · dsimp only at hasked ⊢
    split
    · exact (Spares.of_eq hasked).trans
        (hw.created k env dirFh name g.gUid g.gGid g.gMode 4294967295)
    · exact Spares.of_eq hasked
  · exact Spares.of_eq hasked

/-- What `act_FINDOUTPUT` removes is not the locked object. -/
theorem replaceFile_stillNamed (h : g.Knowing idOf names N) (hlocked : g.Locked k)
    (dirFh name : List UInt8) :
    (g.replaceFile w.toRequests dirFh name).2.StillNamed names k N := by
  have hasked := (hw.asked N).lookup g.caches.env dirFh name h.env
  have hserver := hw.found g.caches.env dirFh name
  unfold replaceFile
  generalize w.lookup g.caches.env dirFh name = q at hasked hserver ⊢
  obtain ⟨res2 | dres, env⟩ := q
  · exact (Spares.of_eq hasked).trans (hw.created k env dirFh name g.gUid g.gGid g.gMode 0)
  · dsimp only at hasked ⊢
    split
    · exact Spares.of_eq hasked
    split
    · exact Spares.of_eq hasked
    next hfree =>
    have hfound := hserver dres rfl
    rw [h.env] at hfound
    have hremove := hw.remove env dirFh name
    rw [hasked] at hremove
    have hremoved := hw.spares hasked hremove hfound (hlocked.ne hfree)
    exact hremoved.trans (hw.created k _ dirFh name g.gUid g.gGid g.gMode 0)

theorem createDir_stillNamed (h : g.Knowing idOf names N) (parDir : Nat)
    (fullName name : List UInt8) :
    (g.createDir w parDir fullName name).StillNamed names k N := by
  have hmade := hw.madeDir k g.caches.env (g.caches.dces parDir).nfsFh name g.gUid g.gGid g.gMode
  rw [h.env] at hmade
  unfold createDir
  generalize w.mkDir g.caches.env (g.caches.dces parDir).nfsFh name g.gUid g.gGid
    g.gMode = q at hmade ⊢
  obtain ⟨res2 | dir, env⟩ := q
  · exact hmade
  dsimp only
  split
  · exact hmade
  · exact hmade

/-- What `act_DELETE_OBJECT` removes is the object of the name entry, which is not locked. -/
theorem deleteObject_stillNamed (h : g.Knowing idOf names N) (hd : g.caches.Knows idOf N id parDir)
    (hlocked : g.Locked k) (name : List UInt8) :
    (g.deleteObject w parDir name).StillNamed names k N := by
  obtain ⟨hgrows, hentry⟩ := Caches.getNameEntry_grows hw.toExports h.caches h.env hd name true
  have henv := Caches.getNameEntry_env (hw.asked N) h.env parDir name true
  unfold deleteObject
  generalize g.caches.getNameEntry w.toWorld parDir name true = q at *
  obtain ⟨res2 | ⟨nent, ace⟩, s⟩ := q
  · exact Spares.of_eq henv
  obtain ⟨hmem, rfl⟩ := hentry nent ace rfl
  dsimp only at hgrows henv hmem ⊢
  have hs := hgrows.known id parDir hd
  split
  · exact Spares.of_eq henv
  next hfree =>
  have hne := hlocked.ne hfree
  split
  · have hN := hw.rmDir s.env (s.dces parDir).nfsFh nent.name
    rw [hs.handle, henv] at hN
    exact answer_stillNamed (g := { g with caches := s })
      (hw.spares henv hN (hs.binds nent hmem) hne)
  · have hN := hw.remove s.env (s.dces parDir).nfsFh nent.name
    rw [hs.handle, henv] at hN
    exact answer_stillNamed (g := { g with caches := s })
      (hw.spares henv hN (hs.binds nent hmem) hne)

variable (names k) in
omit hw in
/-- A new name that `k` does not have. -/
def NotOver (g : Global σ) (parDir : Nat) (name : List UInt8) : Prop :=
  ∀ b ∈ names g.caches.env (g.caches.dces parDir).fileId, b.1 = name → b.2 ≠ k

omit hw in
instance (g : Global σ) (parDir : Nat) (name : List UInt8) :
    Decidable (g.NotOver names k parDir name) :=
  inferInstanceAs
    (Decidable (∀ b ∈ names g.caches.env (g.caches.dces parDir).fileId, b.1 = name → b.2 ≠ k))

/-- `act_RENAME_OBJECT` looks for a lock on what it renames, not on what it replaces. -/
theorem renameObject_stillNamed (h : g.Knowing idOf names N) {parDir₂ : Nat} {id₂ : UInt32}
    (hd : g.caches.Knows idOf N id parDir) (hd₂ : g.caches.Knows idOf N id₂ parDir₂)
    (hlocked : g.Locked k)
    (name₁ : List UInt8) {name₂ : List UInt8} (hover : g.NotOver names k parDir₂ name₂) :
    (g.renameObject w parDir name₁ parDir₂ name₂).StillNamed names k N := by
  obtain ⟨hgrows, hentry⟩ := Caches.getNameEntry_grows hw.toExports h.caches h.env hd name₁ true
  have henv := Caches.getNameEntry_env (hw.asked N) h.env parDir name₁ true
  unfold NotOver at hover
  rw [h.env, hd₂.lists.fileId] at hover
  unfold renameObject
  generalize g.caches.getNameEntry w.toWorld parDir name₁ true = q at *
  obtain ⟨res2 | ⟨nent, ace⟩, s⟩ := q
  · exact Spares.of_eq henv
  obtain ⟨hmem, rfl⟩ := hentry nent ace rfl
  dsimp only at hgrows henv hmem ⊢
  have hs := hgrows.known id parDir hd
  have hs₂ := hgrows.known id₂ parDir₂ hd₂
  split
  · exact Spares.of_eq henv
  next hfree =>
  have hN := hw.rename s.env (s.dces parDir).nfsFh nent.name (s.dces parDir₂).nfsFh name₂
  rw [hs.handle, hs₂.handle, henv] at hN
  have hspares :
      Spares k N
      (names (w.rename s.env (s.dces parDir).nfsFh nent.name (s.dces parDir₂).nfsFh name₂).2) := by
    refine .of_elsewhere hN fun d b hb hat => ?_
    rcases List.mem_cons.mp hat with hold | hnew
    · exact hw.ne henv (hs.binds nent hmem) (hlocked.ne hfree) d b hb hold
    · obtain ⟨rfl, rfl⟩ := Prod.mk.inj (List.mem_singleton.mp hnew)
      exact hover b hb rfl
  generalize w.rename s.env (s.dces parDir).nfsFh nent.name (s.dces parDir₂).nfsFh
    name₂ = q at hspares ⊢
  obtain ⟨res2 | done, env⟩ := q
  · exact hspares
  · exact hspares

end Changes

end Global

namespace Run
variable {s s' : Run σ} {fl : Option Nat} {cbstr : List UInt8} {v : NameVar}

theorem locked_lRootLocateDir (s : Run σ) (h : s.g.Locked k) (fl : Option Nat)
    (cbstr : List UInt8) (v : NameVar) :
    (s.lRootLocateDir w addPart fl cbstr v).2.2.g.Locked k := by
  have hlocked := Global.locked_lRootLocateDir w.toWorld addPart h fl cbstr
  unfold Run.lRootLocateDir
  generalize s.g.lRootLocateDir w.toWorld addPart fl cbstr = r at hlocked ⊢
  obtain ⟨res2 | at_, g₁⟩ := r
  · exact hlocked
  · exact hlocked

/-- An action with one name, whose body takes no name from `k`. -/
theorem deleteAtExit_stillNamed (hw : Hosts idOf names w) (h : g.Knowing idOf names N)
    (hlocked : g.Locked k)
    {body : Nat → List UInt8 → Global σ → Global σ}
    (hbody : ∀ parDir name g id, Global.Knowing idOf names N g →
      g.caches.Knows idOf N id parDir → g.Locked k →
      (body parDir name g).StillNamed names k N)
    (hd : (start g).deleteAtExit w addPart fl cbstr v body = some s') :
    s'.g.StillNamed names k N := by
  obtain ⟨hlearns, hfound⟩ := @lRootLocateDir_learns σ idOf names w addPart N (start g)
    hw.toServes h fl cbstr v
  refine deleteAtExit_spec (Global.ofCaches_stillNamed k N) (hlearns.stillNamed k)
    (fun parDir hmem => ?_) hd
  obtain ⟨id, hknows⟩ := hfound parDir (mem_toOption hmem)
  exact hbody parDir _ _ id hlearns.knowing hknows
    (locked_lRootLocateDir (start g) hlocked fl cbstr v)

end Run

namespace Session
variable {s : Session σ}

/-- `act_RENAME_OBJECT` replaces no name of the object. -/
def NotOver (w : ObjRequests σ) (addPart : List UInt8 → List UInt8 → Nat → Option (List UInt8))
    (names : σ → DirNames)
    (k : UInt32) (s : Session σ) : Event → Prop
  | .onName (.renameObject fl₁ cbstr₁ fl₂ cbstr₂) _ =>
      (Run.start s.g).Behind w addPart fl₁ cbstr₁ .null fun _ _ r =>
        r.Behind w addPart fl₂ cbstr₂ .null
        fun parDir₂ name₂ r => r.g.NotOver names k parDir₂ name₂
  | _ => True

instance (s : Session σ) : ∀ e, Decidable (s.NotOver w addPart names k e)
  | .onName (.renameObject fl₁ cbstr₁ fl₂ cbstr₂) _ =>
      inferInstanceAs (Decidable ((Run.start s.g).Behind w addPart fl₁ cbstr₁ .null fun _ _ r =>
        r.Behind w addPart fl₂ cbstr₂ .null fun parDir₂ name₂ r =>
          r.g.NotOver names k parDir₂ name₂))
  | .packet _ | .createDir .. | .onName (.deleteObject ..) _ | .onName (.createDir ..) _ |
    .onName (.createObject ..) _ | .onName (.makeLink ..) _ | .onName (.setProtect ..) _ | .onName
      (.setDate ..) _ |
    .onName (.setOwner ..) _ | .onName (.getAttributes ..) _ | .onName (.findInput ..) _ |
    .onName (.findUpdate ..) _ | .onName (.findOutput ..) _ => .isTrue trivial

theorem serve_stillNamed (hw : Hosts idOf names w) (h : s.g.Knowing idOf names N)
    (hlocked : s.g.Locked k)
    (p : Packet) : (s.serve w.toRequests addPart p).g.StillNamed names k N := by
  cases hasks : (Event.packet p).asks with
  | true => exact (serve_learns hw.toServes h hasks).stillNamed k
  | false =>
      cases p with
      | findUpdate fl cbstr =>
          obtain ⟨hlearns, -⟩ := @Global.lRootLocateDir_learns σ idOf names N w addPart s.g
            hw.toServes h fl cbstr
          refine Global.actFINDREADWRITE_spec (Global.ofCaches_stillNamed k N)
            (hlearns.stillNamed k) fun at_ _ => ?_
          exact Global.findOrCreate_stillNamed hw hlearns.knowing _ _ _
      | findOutput fl cbstr =>
          obtain ⟨hlearns, -⟩ := @Global.lRootLocateDir_learns σ idOf names N w addPart s.g
            hw.toServes h fl cbstr
          have hstill := Global.locked_lRootLocateDir w.toWorld addPart hlocked fl cbstr
          refine Global.actFINDOUTPUT_spec (Global.ofCaches_stillNamed k N)
            (hlearns.stillNamed k) fun at_ _ => ?_
          exact Global.replaceFile_stillNamed hw hlearns.knowing hstill _ _
      | _ => cases hasks

theorem createDir_stillNamed (hw : Hosts idOf names w) (h : s.g.Knowing idOf names N)
    {fl : Option Nat}
    {cbstr : List UInt8} {r : Run σ}
    (hd : (Run.start s.g).actCREATEDIR w addPart fl cbstr = some r) :
    r.g.StillNamed names k N := by
  obtain ⟨hlearns, -⟩ :=
    @Run.lRootLocateBoth_learns σ idOf names w addPart N (.start s.g) hw.toServes h fl
      cbstr .unset .unset
  refine Run.actCREATEDIR_spec (Global.ofCaches_stillNamed k N) (hlearns.stillNamed k)
    (fun parDir _ => ?_) hd
  exact Global.createDir_stillNamed hw hlearns.knowing parDir _ _

theorem onName_stillNamed (hw : Hosts idOf names w) (h : s.g.Knowing idOf names N)
    (hlocked : s.g.Locked k)
    {a : PathAction} (keeps : a.keepsLists = true)
    (hover : s.NotOver w addPart names k (.onName a keeps)) {r : Run σ}
    (hd : a.run w addPart (.start s.g) = some r) : r.g.StillNamed names k N := by
  cases hasks : (Event.onName a keeps).asks with
  | true => exact (onName_learns hw.toServes h keeps hasks hd).stillNamed k
  | false =>
      cases a with
      | deleteObject fl cbstr =>
          refine Run.deleteAtExit_stillNamed hw h hlocked
            (fun parDir name g id hg hknows hl => ?_) hd
          exact Global.deleteObject_stillNamed hw hg hknows hl name
      | renameObject fl₁ cbstr₁ fl₂ cbstr₂ =>
          obtain ⟨hlearns₁, hfound₁⟩ :=
            @Run.lRootLocateDir_learns σ idOf names w addPart N (.start s.g) hw.toServes
              h fl₁ cbstr₁ .null
          obtain ⟨hlearns₂, hfound₂⟩ :=
            @Run.lRootLocateDir_learns σ idOf names w addPart N _ hw.toServes
              hlearns₁.knowing fl₂ cbstr₂ .null
          refine Run.actRENAMEOBJECT_spec (Global.ofCaches_stillNamed k N) (hlearns₁.stillNamed k)
            (hlearns₂.stillNamed k) ?_ hd
          intro parDir₁ hmem₁ parDir₂ hmem₂
          obtain ⟨id₁, hknows₁⟩ := hfound₁ parDir₁ (Run.mem_toOption hmem₁)
          obtain ⟨id₂, hknows₂⟩ := hfound₂ parDir₂ (Run.mem_toOption hmem₂)
          exact Global.renameObject_stillNamed hw hlearns₂.knowing
            (hlearns₂.known id₁ parDir₁ hknows₁) hknows₂
            (Run.locked_lRootLocateDir _ (Run.locked_lRootLocateDir (.start s.g) hlocked fl₁ cbstr₁
              .null) fl₂ cbstr₂ .null)
            _ (hover parDir₁ hmem₁ parDir₂ hmem₂)
      | createObject fl cbstr type subtype1 =>
          replace hd : (Run.start s.g).actCREATEOBJECT w addPart fl cbstr type subtype1 = some r :=
            hd
          unfold Run.actCREATEOBJECT at hd
          split at hd
          · obtain rfl := Option.some.inj hd
            exact Spares.of_eq h.env
          · refine Run.deleteAtExit_stillNamed hw h hlocked (fun parDir name g id hg _ _ => ?_) hd
            have hmade := hw.created k g.caches.env (g.caches.dces parDir).nfsFh name g.gUid
              g.gGid g.gMode subtype1
            rw [hg.env] at hmade
            exact Global.answer_stillNamed hmade
      | makeLink fl cbstr link =>
          replace hd : (Run.start s.g).actMAKELINK w addPart fl cbstr link = some r := hd
          unfold Run.actMAKELINK at hd
          split at hd
          · refine Run.deleteAtExit_stillNamed hw h hlocked (fun parDir name g id hg _ _ => ?_) hd
            have hmade := hw.symlinked k g.caches.env (g.caches.dces parDir).nfsFh name
              g.gUid g.gGid link.path
            rw [hg.env] at hmade
            exact Global.answer_stillNamed hmade
          split at hd
          · unfold Run.doActMAKEHARDLINK at hd
            split at hd
            · exact Run.fnDelete_spec (s := (Run.start s.g).setRes DOSFALSE errorInvalidLock)
                (Global.ofCaches_stillNamed k N) (Spares.of_eq h.env) hd
            · next destelock _ =>
              refine Run.deleteAtExit_stillNamed hw h hlocked (fun parDir name g id hg _ _ => ?_) hd
              have hmade := hw.linked k g.caches.env destelock.nfsFh
                (g.caches.dces parDir).nfsFh name
              rw [hg.env] at hmade
              exact Global.answer_stillNamed hmade
          · obtain rfl := Option.some.inj hd
            exact Spares.of_eq h.env
      | setProtect fl cbstr mask => cases hasks
      | setDate fl cbstr ds => cases hasks
      | setOwner fl cbstr ownerGroup => cases hasks
      | getAttributes fl cbstr tags => cases hasks
      | createDir fl cbstr => cases keeps
      | findInput fl cbstr => cases keeps
      | findUpdate fl cbstr => cases keeps
      | findOutput fl cbstr => cases keeps

theorem serveEvent_stillNamed (hw : Hosts idOf names w) (h : s.g.Knowing idOf names N)
    (hlocked : s.g.Locked k)
    {e : Event} (hover : s.NotOver w addPart names k e) :
    (s.serveEvent w addPart e).g.StillNamed names k N := by
  cases e with
  | packet p => exact serve_stillNamed hw h hlocked p
  | createDir fl cbstr =>
      unfold serveEvent
      dsimp only
      split
      · exact Spares.of_eq h.env
      · next r hr => exact createDir_stillNamed hw h hr
  | onName a keeps =>
      unfold serveEvent
      dsimp only
      split
      · exact Spares.of_eq h.env
      · next r hr => exact onName_stillNamed hw h hlocked keeps hover hr

/-- The object is locked when a packet is served, which replaces no name of it. -/
def Holds (w : ObjRequests σ) (addPart : List UInt8 → List UInt8 → Nat → Option (List UInt8))
    (names : σ → DirNames)
    (k : UInt32) (s : Session σ) : Turn → Prop
  | .event e => s.g.Locked k ∧ s.NotOver w addPart names k e
  | _ => True

instance (s : Session σ) : ∀ t, Decidable (s.Holds w addPart names k t)
  | .event e => inferInstanceAs (Decidable (s.g.Locked k ∧ s.NotOver w addPart names k e))
  | .flush | .timer | .moreCache .. | .attrCacheTimeout _ | .dirCacheTimeout _ => .isTrue trivial

theorem serveTurn_stillNamed (hw : Hosts idOf names w) (h : s.g.InStep idOf names) {t : Turn}
    (hholds : s.Holds w addPart names k t) {s' : Session σ}
    (hserved : s.serveTurn w addPart t = some s') :
    s'.g.StillNamed names k (names s.g.caches.env) := by
  by_cases ht : ∀ e, t ≠ .event e
  · obtain ⟨s₁, hserved₁, hlearns⟩ :=
      @serveTurn_learns σ idOf names w addPart _ s hw.toServes h t ht
    obtain rfl := Option.some.inj (hserved.symm.trans hserved₁)
    exact hlearns.stillNamed k
  · obtain ⟨e, rfl⟩ := not_forall_not.mp ht
    obtain rfl := Option.some.inj hserved
    exact serveEvent_stillNamed hw h hholds.1 hholds.2

/-- One round of the main loop takes no name from a locked object. -/
theorem turn_stillNamed (hw : Hosts idOf names w) (h : s.g.InStep idOf names) {t : Turn}
    (hcalm : s.CalmTurn w addPart t) (hholds : s.Holds w addPart names k t) :
    ∃ s', s.turn w addPart t = some s' ∧ s'.g.InStep idOf names ∧
      Spares k (names s.g.caches.env) (names s'.g.caches.env) := by
  unfold turn
  split
  · obtain ⟨s₁, hserved, hstep⟩ := serveTurn_inStep hw.toServes h hcalm
    obtain ⟨s₂, hunlocked, hlearns⟩ := unLockAll_learns hw.toServes hstep
    refine ⟨s₂, by rw [hserved, Option.bind_some, hunlocked], hlearns.knowing.inStep, ?_⟩
    exact (serveTurn_stillNamed hw h hholds hserved).trans (hlearns.stillNamed k)
  · exact ⟨s, rfl, h, Spares.refl k _⟩

/-- From any state that the handler reaches, an object keeps all its names while it is locked, but
for those that RENAME replaces. -/
theorem locked_run (hw : Hosts idOf names w) (hg : Mounts idOf g) {ts₁ ts₂ : List Turn}
    (hcalm : GuardedM (turn w addPart) (CalmTurn w addPart) ⟨g, [], 0⟩ ts₁)
    (hholds : ∀ s₁ ∈ ts₁.foldlM (turn w addPart) ⟨g, [], 0⟩, GuardedM (turn w addPart)
      (fun s t => s.CalmTurn w addPart t ∧ s.Holds w addPart names k t) s₁ ts₂) :
    ∃ s₁ s₂, ts₁.foldlM (turn w addPart) ⟨g, [], 0⟩ = some s₁ ∧
      ts₂.foldlM (turn w addPart) s₁ = some s₂ ∧
      Spares k (names s₁.g.caches.env) (names s₂.g.caches.env) := by
  obtain ⟨s₁, hrun₁, hstep₁⟩ := GuardedM.invariant (fun s t hs ht => turn_inStep hw.toServes hs ht)
    (Global.inStep_mounts names hg) hcalm
  have hinv := GuardedM.invariant
    (P := fun s => s.g.InStep idOf names ∧ Spares k (names s₁.g.caches.env) (names s.g.caches.env))
    (fun s t hs ht => ?_) ⟨hstep₁, Spares.refl k _⟩ (hholds s₁ hrun₁)
  · obtain ⟨s₂, hrun₂, -, hspares⟩ := hinv
    exact ⟨s₁, s₂, hrun₁, hrun₂, hspares⟩
  · obtain ⟨s', hturn, hstep, hspares⟩ := turn_stillNamed hw hs.1 ht.1 ht.2
    exact ⟨s', hturn, hstep, hs.2.trans hspares⟩

/-- The new file "d/a" is open while it is to be deleted, renamed and opened for output, and while
"b" takes the name "B". -/
theorem locked_run_store : ∃ s₁ s₂,
    List.foldlM (turn Store.requests dosAddPart) ⟨Store.mounted ⟨[], List.nodup_nil⟩ some, [], 0⟩
      [.event (.createDir none [100]), .event (.packet (.findUpdate none [100, 47, 97]))] =
        some s₁ ∧
    List.foldlM (turn Store.requests dosAddPart) s₁
      [.event (.onName (.deleteObject none [100, 47, 97]) rfl),
        .event (.onName (.renameObject none [100, 47, 97] none [99]) rfl),
        .event (.packet (.findOutput none [100, 47, 97])),
          .event (.packet (.findOutput none [98])), .timer,
        .event (.packet (.finish 2)), .event (.onName (.renameObject none [98] none [66]) rfl)] =
          some s₂ ∧
    Spares 3 (Store.names s₁.g.caches.env) (Store.names s₂.g.caches.env) :=
  locked_run Store.hosts_requests ⟨⟨20, 60, true, rfl⟩, ⟨20, 60, true, rfl⟩, fun _ => rfl, rfl⟩
    (by decide +kernel)
    (by decide +kernel)

/-- The new file "a" is open while "b" takes its name. -/
example :
    (List.foldlM (turn Store.requests dosAddPart) ⟨Store.mounted ⟨[], List.nodup_nil⟩ some, [], 0⟩
    [.event (.packet (.findUpdate none [97])), .event (.packet (.findOutput none [98])),
      .event (.packet (.finish 2)),
      .event (.onName (.renameObject none [98] none [97]) rfl)]).map
      (fun s => (s.g.locks.map ELOCK.flKey, Store.names s.g.caches.env 1)) = some
      ([2], [([97], 3)]) := by
  decide +kernel

end Session

end Served

end Anfs.Lock
