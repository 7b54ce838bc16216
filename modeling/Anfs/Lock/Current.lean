import Anfs.Lock.Store

/-!
# Names in the cache

The main loop with all its packets, the timer, and what the user sets for the caches. The names in
the cache are those of the server in every state of a run, as long as a packet that changes a name
meets no name entry but its own.
-/
namespace Anfs.Lock
open Anfs.Cache Anfs.Lib Anfs.Nfs Anfs.Path Anfs.Tree Anfs.Xdr

section Served
variable {σ : Type} {idOf : List UInt8 → UInt32} {names : σ → DirNames} {w : ObjRequests σ}
  {addPart : List UInt8 → List UInt8 → Nat → Option (List UInt8)} {N : DirNames} {g : Global σ}

namespace Global

/-- The directory of a name that is to be created has no entry for it. -/
def Unmet (g : Global σ) (parDir : Nat) (name : List UInt8) : Prop :=
  g.caches.Unmet (g.caches.dces parDir).fileId name

instance (g : Global σ) (parDir : Nat) (name : List UInt8) : Decidable (g.Unmet parDir name) :=
  inferInstanceAs (Decidable (g.caches.Unmet _ _))

theorem create_inStep {α : Type} (h : g.Knowing idOf names N) {parDir : Nat} {id : UInt32}
    (hd : g.caches.Knows idOf N id parDir) {name : List UInt8} {r : Except Int α × σ}
    (hN : Elsewhere [(idOf (g.caches.dces parDir).nfsFh, name)] (names g.caches.env) (names r.2))
    (hunmet : g.Unmet parDir name) : (g.answer r).InStep idOf names := by
  unfold Unmet at hunmet
  rw [hd.lists.fileId] at hunmet
  rw [hd.handle, h.env] at hN
  exact answer_inStep h hN hunmet

end Global

namespace Run
variable {s s' : Run σ} {v : NameVar} {fl : Option Nat} {cbstr : List UInt8}

/-- `P` holds where the action goes on behind `LRootLocateDir`. -/
def Behind (w : ObjRequests σ)
    (addPart : List UInt8 → List UInt8 → Nat → Option (List UInt8)) (s : Run σ)
    (fl : Option Nat) (cbstr : List UInt8) (v : NameVar) (P : Nat → List UInt8 → Run σ → Prop) :
    Prop :=
  let r := s.lRootLocateDir w addPart fl cbstr v
  ∀ parDir ∈ r.1.toOption, P parDir r.2.1.text r.2.2

instance (fl : Option Nat) (cbstr : List UInt8) (v : NameVar) (P : Nat → List UInt8 → Run σ → Prop)
    [∀ parDir name s, Decidable (P parDir name s)] : Decidable (s.Behind w addPart fl cbstr v P) :=
  inferInstanceAs
    (Decidable (∀ parDir ∈ (s.lRootLocateDir w addPart fl cbstr v).1.toOption, P parDir _ _))

/-- It does not matter what the variable held. -/
theorem Behind.of_var {v' : NameVar} {P : Nat → List UInt8 → Run σ → Prop}
    (h : s.Behind w addPart fl cbstr v P) :
    s.Behind w addPart fl cbstr v' P := by
  unfold Behind Run.lRootLocateDir at h ⊢
  generalize s.g.lRootLocateDir w.toWorld addPart fl cbstr = r at h ⊢
  obtain ⟨res2 | at_, g₁⟩ := r
  · intro r parDir hmem
    cases hmem
  · exact h

theorem lRootLocateDir_learns (hw : Serves idOf names w) (h : s.g.Knowing idOf names N)
    (fl : Option Nat)
    (cbstr : List UInt8) (v : NameVar) :
    Global.Learns idOf names N s.g (s.lRootLocateDir w addPart fl cbstr v).2.2.g ∧
      ∀ parDir, (s.lRootLocateDir w addPart fl cbstr v).1 = .ok parDir →
        ∃ id, (s.lRootLocateDir w addPart fl cbstr v).2.2.g.caches.Knows idOf N id parDir := by
  obtain ⟨hlearns, hfound⟩ := @Global.lRootLocateDir_learns σ idOf names N w addPart
    s.g hw h fl cbstr
  unfold Run.lRootLocateDir
  generalize s.g.lRootLocateDir w.toWorld addPart fl cbstr = r at hlearns hfound ⊢
  obtain ⟨res2 | at_, g₁⟩ := r
  · exact ⟨hlearns, fun parDir hok => absurd hok (by simp)⟩
  · refine ⟨hlearns.trans (hlearns.knowing.congr rfl rfl rfl), fun parDir hok => ?_⟩
    obtain rfl := Except.ok.inj hok
    exact hfound at_ rfl

theorem fnDelete_spec {Q : Global σ → Prop} (hQ : Global.OfCaches Q) (h : Q s.g)
    (hd : s.fnDelete v = some s') :
    Q s'.g := by
  cases v with
  | unset => cases hd
  | null =>
      obtain rfl := Option.some.inj hd
      exact h
  | ptr d =>
      unfold Run.fnDelete at hd
      dsimp only at hd
      split at hd
      · obtain rfl := Option.some.inj hd
        exact hQ h rfl rfl rfl
      · cases hd

theorem fnDelete_both_spec {Q : Global σ → Prop} (hQ : Global.OfCaches Q) (h : Q s.g)
    {v₁ v₂ : NameVar}
    (hd : ((s.fnDelete v₁).bind fun s => s.fnDelete v₂) = some s') : Q s'.g := by
  obtain ⟨s₁, hd₁, hd₂⟩ := Option.bind_eq_some_iff.mp hd
  exact fnDelete_spec hQ (fnDelete_spec hQ h hd₁) hd₂

/-- What an action with one name does to the caches it does in `LRootLocateDir` and behind it. -/
theorem deleteAtExit_spec {Q : Global σ → Prop} (hQ : Global.OfCaches Q)
    {body : Nat → List UInt8 → Global σ → Global σ}
    (hfail : Q (s.lRootLocateDir w addPart fl cbstr v).2.2.g)
    (hbody : s.Behind w addPart fl cbstr v fun parDir name s => Q (body parDir name s.g))
    (hd : s.deleteAtExit w addPart fl cbstr v body = some s') : Q s'.g := by
  unfold Behind at hbody
  unfold deleteAtExit at hd
  generalize s.lRootLocateDir w addPart fl cbstr v = r at hfail hbody hd
  obtain ⟨res2 | parDir, name, s⟩ := r
  · exact fnDelete_spec (s := s.setRes DOSFALSE res2) hQ (hQ hfail rfl rfl rfl) hd
  · exact fnDelete_spec (s := s.on (body parDir name.text)) hQ (hbody parDir rfl) hd

theorem deleteBeforeExit_spec {Q : Global σ → Prop} (hQ : Global.OfCaches Q)
    {body : Nat → List UInt8 → Global σ → Global σ}
    (hfail : Q (s.lRootLocateDir w addPart fl cbstr v).2.2.g)
    (hbody : s.Behind w addPart fl cbstr v fun parDir name s => Q (body parDir name s.g))
    (hd : s.deleteBeforeExit w addPart fl cbstr v body = some s') : Q s'.g := by
  unfold Behind at hbody
  unfold deleteBeforeExit at hd
  generalize s.lRootLocateDir w addPart fl cbstr v = r at hfail hbody hd
  obtain ⟨res2 | parDir, name, s⟩ := r
  · obtain rfl := Option.some.inj hd
    exact hQ hfail rfl rfl rfl
  · exact fnDelete_spec (s := s.on (body parDir name.text)) hQ (hbody parDir rfl) hd

theorem actRENAMEOBJECT_spec {Q : Global σ → Prop} (hQ : Global.OfCaches Q) {fl₁ fl₂ : Option Nat}
    {cbstr₁ cbstr₂ : List UInt8} (hfail₁ : Q (s.lRootLocateDir w addPart fl₁ cbstr₁ .null).2.2.g)
    (hfail₂ : Q ((s.lRootLocateDir w addPart fl₁ cbstr₁ .null).2.2.lRootLocateDir w addPart
      fl₂ cbstr₂ .null).2.2.g)
    (hbody : s.Behind w addPart fl₁ cbstr₁ .null fun parDir₁ name₁ s =>
      s.Behind w addPart fl₂ cbstr₂ .null fun parDir₂ name₂ s =>
        Q (s.g.renameObject w parDir₁ name₁ parDir₂ name₂))
    (hd : s.actRENAMEOBJECT w addPart fl₁ cbstr₁ fl₂ cbstr₂ = some s') : Q s'.g := by
  unfold Behind at hbody
  unfold actRENAMEOBJECT at hd
  generalize s.lRootLocateDir w addPart fl₁ cbstr₁ .null = r at hfail₁ hfail₂ hbody hd
  obtain ⟨res2 | parDir₁, name₁, s₁⟩ := r
  · exact fnDelete_both_spec (s := s₁.setRes DOSFALSE res2) hQ (hQ hfail₁ rfl rfl rfl) hd
  replace hbody := hbody parDir₁ rfl
  dsimp only at hfail₂ hbody hd
  generalize s₁.lRootLocateDir w addPart fl₂ cbstr₂ .null = r at hfail₂ hbody hd
  obtain ⟨res2 | parDir₂, name₂, s₂⟩ := r
  · exact fnDelete_both_spec (s := s₂.setRes DOSFALSE res2) hQ (hQ hfail₂ rfl rfl rfl) hd
  · refine fnDelete_both_spec (s := s₂.on _) hQ ?_ hd
    exact hbody parDir₂ rfl

/-- `P` holds where `act_CREATE_DIR` goes on behind `LRootLocateDir`. -/
def BehindBoth (w : ObjRequests σ)
    (addPart : List UInt8 → List UInt8 → Nat → Option (List UInt8)) (s : Run σ)
    (fl : Option Nat) (cbstr : List UInt8) (P : Nat → List UInt8 → List UInt8 → Run σ → Prop) :
    Prop :=
  let r := s.lRootLocateBoth w addPart fl cbstr .unset .unset
  ∀ parDir ∈ r.1.toOption, P parDir r.2.1.1.text r.2.1.2.text r.2.2

instance (fl : Option Nat) (cbstr : List UInt8) (P : Nat → List UInt8 → List UInt8 → Run σ → Prop)
    [∀ parDir fullName name s, Decidable (P parDir fullName name s)] :
    Decidable (s.BehindBoth w addPart fl cbstr P) :=
  inferInstanceAs (Decidable
    (∀ parDir ∈ (s.lRootLocateBoth w addPart fl cbstr .unset .unset).1.toOption, P parDir _ _ _))

theorem actCREATEDIR_spec {Q : Global σ → Prop} (hQ : Global.OfCaches Q)
    (hfail : Q (s.lRootLocateBoth w addPart fl cbstr .unset .unset).2.2.g)
    (hbody : s.BehindBoth w addPart fl cbstr fun parDir fullName name s =>
      Q (s.g.createDir w parDir fullName name))
    (hd : s.actCREATEDIR w addPart fl cbstr = some s') : Q s'.g := by
  unfold BehindBoth at hbody
  unfold actCREATEDIR at hd
  generalize s.lRootLocateBoth w addPart fl cbstr .unset .unset = r at hfail hbody hd
  obtain ⟨res2 | parDir, v, s⟩ := r
  · exact fnDelete_both_spec (s := s.setRes DOSFALSE res2) hQ (hQ hfail rfl rfl rfl) hd
  · refine fnDelete_both_spec (s := s.on _) hQ ?_ hd
    exact hbody parDir rfl

theorem mem_toOption {α : Type} {r : Except Int α} {a : α} (h : a ∈ r.toOption) : r = .ok a := by
  cases r with
  | error res2 => cases h
  | ok b => exact congrArg Except.ok (Option.some.inj h)

/-- An action with one name, whose body keeps the names in step. -/
theorem deleteAtExit_inStep (hw : Serves idOf names w) (h : g.Knowing idOf names N)
    {body : Nat → List UInt8 → Global σ → Global σ} {P : Nat → List UInt8 → Run σ → Prop}
    (hsafe : (start g).Behind w addPart fl cbstr v P)
    (hbody : ∀ parDir name (s : Run σ) id, P parDir name s → s.g.Knowing idOf names N →
      s.g.caches.Knows idOf N id parDir → (body parDir name s.g).InStep idOf names)
    (hd : (start g).deleteAtExit w addPart fl cbstr v body = some s') : s'.g.InStep idOf names := by
  obtain ⟨hlearns, hfound⟩ := @lRootLocateDir_learns σ idOf names w addPart N
    (start g) hw h fl cbstr v
  refine deleteAtExit_spec Global.ofCaches_inStep hlearns.knowing.inStep ?_ hd
  intro parDir hmem
  obtain ⟨id, hknows⟩ := hfound parDir (mem_toOption hmem)
  exact hbody parDir _ _ id (hsafe parDir hmem) hlearns.knowing hknows

/-- `act_DELETE_OBJECT` is safe. -/
def SafeDelete (w : ObjRequests σ)
    (addPart : List UInt8 → List UInt8 → Nat → Option (List UInt8)) (g : Global σ)
    (fl : Option Nat) (cbstr : List UInt8) : Prop :=
  (start g).Behind w addPart fl cbstr .unset fun parDir name s => s.g.SafeDelete w parDir name

instance (fl : Option Nat) (cbstr : List UInt8) : Decidable (SafeDelete w addPart g fl cbstr) :=
  inferInstanceAs (Decidable ((start g).Behind w addPart fl cbstr .unset fun parDir name s =>
    s.g.SafeDelete w parDir name))

/-- `act_CREATE_OBJECT` and `act_MAKE_LINK` are safe. -/
def SafeCreate (w : ObjRequests σ)
    (addPart : List UInt8 → List UInt8 → Nat → Option (List UInt8)) (g : Global σ)
    (fl : Option Nat) (cbstr : List UInt8) : Prop :=
  (start g).Behind w addPart fl cbstr .unset fun parDir name s => s.g.Unmet parDir name

instance (fl : Option Nat) (cbstr : List UInt8) : Decidable (SafeCreate w addPart g fl cbstr) :=
  inferInstanceAs
    (Decidable ((start g).Behind w addPart fl cbstr .unset fun parDir name s =>
    s.g.Unmet parDir name))

/-- `act_RENAME_OBJECT` is safe. -/
def SafeRename (w : ObjRequests σ)
    (addPart : List UInt8 → List UInt8 → Nat → Option (List UInt8)) (g : Global σ)
    (fl₁ : Option Nat) (cbstr₁ : List UInt8) (fl₂ : Option Nat) (cbstr₂ : List UInt8) : Prop :=
  (start g).Behind w addPart fl₁ cbstr₁ .null fun parDir₁ name₁ s =>
    s.Behind w addPart fl₂ cbstr₂ .null fun parDir₂ name₂ s =>
      s.g.SafeRename w parDir₁ name₁ parDir₂ name₂

instance (fl₁ : Option Nat) (cbstr₁ : List UInt8) (fl₂ : Option Nat) (cbstr₂ : List UInt8) :
    Decidable (SafeRename w addPart g fl₁ cbstr₁ fl₂ cbstr₂) :=
  inferInstanceAs (Decidable ((start g).Behind w addPart fl₁ cbstr₁ .null fun parDir₁ name₁ s =>
    s.Behind w addPart fl₂ cbstr₂ .null fun parDir₂ name₂ s =>
      s.g.SafeRename w parDir₁ name₁ parDir₂ name₂))

theorem actRENAMEOBJECT_inStep (hw : Serves idOf names w) (h : g.Knowing idOf names N)
    {fl₁ fl₂ : Option Nat}
    {cbstr₁ cbstr₂ : List UInt8} (hsafe : SafeRename w addPart g fl₁ cbstr₁ fl₂ cbstr₂)
    (hd : (start g).actRENAMEOBJECT w addPart fl₁ cbstr₁ fl₂ cbstr₂ = some s') :
    s'.g.InStep idOf names := by
  obtain ⟨hlearns₁, hfound₁⟩ := @lRootLocateDir_learns σ idOf names w addPart N (start g) hw
    h fl₁ cbstr₁ .null
  obtain ⟨hlearns₂, hfound₂⟩ := @lRootLocateDir_learns σ idOf names w addPart N _ hw
    hlearns₁.knowing fl₂ cbstr₂ .null
  refine actRENAMEOBJECT_spec Global.ofCaches_inStep hlearns₁.knowing.inStep
    hlearns₂.knowing.inStep ?_ hd
  intro parDir₁ hmem₁ parDir₂ hmem₂
  obtain ⟨id₁, hknows₁⟩ := hfound₁ parDir₁ (mem_toOption hmem₁)
  obtain ⟨id₂, hknows₂⟩ := hfound₂ parDir₂ (mem_toOption hmem₂)
  exact Global.renameObject_inStep hw hlearns₂.knowing (hlearns₂.known id₁ parDir₁ hknows₁) hknows₂
    (hsafe parDir₁ hmem₁ parDir₂ hmem₂)

/-- `act_CREATE_DIR` is safe. -/
def SafeCreateDir (w : ObjRequests σ)
    (addPart : List UInt8 → List UInt8 → Nat → Option (List UInt8)) (g : Global σ)
    (fl : Option Nat) (cbstr : List UInt8) : Prop :=
  (start g).BehindBoth w addPart fl cbstr fun parDir _ name s => s.g.Unmet parDir name

instance (fl : Option Nat) (cbstr : List UInt8) : Decidable (SafeCreateDir w addPart g fl cbstr) :=
  inferInstanceAs
    (Decidable ((start g).BehindBoth w addPart fl cbstr fun parDir _ name s =>
    s.g.Unmet parDir name))

theorem lRootLocateBoth_learns (hw : Serves idOf names w) (h : s.g.Knowing idOf names N)
    (fl : Option Nat)
    (cbstr : List UInt8) (v₁ v₂ : NameVar) :
    Global.Learns idOf names N s.g (s.lRootLocateBoth w addPart fl cbstr v₁ v₂).2.2.g ∧
      ∀ parDir, (s.lRootLocateBoth w addPart fl cbstr v₁ v₂).1 = .ok parDir →
        ∃ id, (s.lRootLocateBoth w addPart fl cbstr v₁ v₂).2.2.g.caches.Knows idOf N id parDir := by
  obtain ⟨hlearns, hfound⟩ := @Global.lRootLocateDir_learns σ idOf names N w addPart
    s.g hw h fl cbstr
  unfold Run.lRootLocateBoth
  generalize s.g.lRootLocateDir w.toWorld addPart fl cbstr = r at hlearns hfound ⊢
  obtain ⟨res2 | at_, g₁⟩ := r
  · exact ⟨hlearns, fun parDir hok => absurd hok (by simp)⟩
  · refine ⟨hlearns, fun parDir hok => ?_⟩
    obtain rfl := Except.ok.inj hok
    exact hfound at_ rfl

theorem actCREATEDIR_inStep (hw : Serves idOf names w) (h : g.Knowing idOf names N)
    (hsafe : SafeCreateDir w addPart g fl cbstr)
    (hd : (start g).actCREATEDIR w addPart fl cbstr = some s') :
    s'.g.InStep idOf names := by
  obtain ⟨hlearns, hfound⟩ := @lRootLocateBoth_learns σ idOf names w addPart N (start g) hw h fl
    cbstr .unset .unset
  refine actCREATEDIR_spec Global.ofCaches_inStep hlearns.knowing.inStep ?_ hd
  intro parDir hmem
  obtain ⟨id, hknows⟩ := hfound parDir (mem_toOption hmem)
  have hunmet : Global.Unmet _ parDir _ := hsafe parDir hmem
  unfold Global.Unmet at hunmet
  rw [hknows.lists.fileId] at hunmet
  exact Global.createDir_inStep hw hlearns.knowing hknows _ hunmet

end Run

namespace Session
variable {s : Session σ}

/-- What a packet changes on the server, the names in the cache do not depend on. -/
def Calm (w : ObjRequests σ) (addPart : List UInt8 → List UInt8 → Nat → Option (List UInt8))
    (s : Session σ) :
    Event → Prop
  | .packet (.findUpdate fl cbstr) => s.g.SafeUpdate w addPart fl cbstr
  | .packet (.findOutput fl cbstr) => s.g.SafeOutput w addPart fl cbstr
  | .createDir fl cbstr => Run.SafeCreateDir w addPart s.g fl cbstr
  | .onName (.deleteObject fl cbstr) _ => Run.SafeDelete w addPart s.g fl cbstr
  | .onName (.renameObject fl₁ cbstr₁ fl₂ cbstr₂) _ =>
      Run.SafeRename w addPart s.g fl₁ cbstr₁ fl₂ cbstr₂
  | .onName (.createObject fl cbstr ..) _ | .onName (.makeLink fl cbstr _) _ =>
      Run.SafeCreate w addPart s.g fl cbstr
  | _ => True

instance (s : Session σ) : ∀ e, Decidable (s.Calm w addPart e)
  | .packet (.findUpdate fl cbstr) =>
      inferInstanceAs (Decidable (s.g.SafeUpdate w addPart fl cbstr))
  | .packet (.findOutput fl cbstr) =>
      inferInstanceAs (Decidable (s.g.SafeOutput w addPart fl cbstr))
  | .packet (.findInput ..) | .packet (.fhFromLock _) | .packet (.finish _) | .packet
      (.locateObject ..) |
    .packet (.freeLock _) | .packet (.copyDir _) | .packet (.copyDirFh _) | .packet (.parent _) |
    .packet (.parentFh _) | .packet (.changeMode ..) | .packet .die => .isTrue trivial
  | .createDir fl cbstr => inferInstanceAs (Decidable (Run.SafeCreateDir w addPart s.g fl cbstr))
  | .onName (.deleteObject fl cbstr) _ =>
      inferInstanceAs (Decidable (Run.SafeDelete w addPart s.g fl cbstr))
  | .onName (.renameObject fl₁ cbstr₁ fl₂ cbstr₂) _ =>
      inferInstanceAs (Decidable (Run.SafeRename w addPart s.g fl₁ cbstr₁ fl₂ cbstr₂))
  | .onName (.createObject fl cbstr ..) _ | .onName (.makeLink fl cbstr _) _ =>
      inferInstanceAs (Decidable (Run.SafeCreate w addPart s.g fl cbstr))
  | .onName (.setProtect ..) _ | .onName (.setDate ..) _ | .onName (.setOwner ..) _ |
    .onName (.getAttributes ..) _ => .isTrue trivial
  | .onName (.createDir ..) keeps | .onName (.findInput ..) keeps | .onName (.findUpdate ..) keeps |
    .onName (.findOutput ..) keeps => absurd keeps Bool.false_ne_true

end Session

namespace Global
variable (hw : Serves idOf names w)
include hw

/-- `act_FINDINPUT` sends no CREATE. -/
theorem findOrCreate_learns (h : g.Knowing idOf names N) (dirFh name : List UInt8) {fileMode : Int}
    (hmode : fileMode ≠ MODE_READWRITE) :
    Learns idOf names N g (g.findOrCreate w.toRequests dirFh name fileMode).2 := by
  have hasked := h.setEnv ((hw.asked N).lookup g.caches.env dirFh name h.env)
  unfold findOrCreate
  generalize w.lookup g.caches.env dirFh name = q at hasked ⊢
  obtain ⟨res2 | dres, env⟩ := q
  · dsimp only
    rw [if_neg fun hcreate => hmode hcreate.2]
    exact hasked
  · exact hasked

theorem actFHFROMLOCK_learns (h : g.Knowing idOf names N) (fl : Option Nat) :
    Learns idOf names N g (g.actFHFROMLOCK w.toRequests fl).2 := by
  unfold actFHFROMLOCK
  split
  · exact h.congr rfl rfl rfl
  next elock _ =>
  have hasked := h.setEnv ((hw.asked N).getAttr g.caches.env elock.nfsFh h.env)
  dsimp only at hasked ⊢
  generalize w.getAttr g.caches.env elock.nfsFh = q at hasked ⊢
  obtain ⟨res2 | attr, env⟩ := q
  · exact hasked.trans (hasked.knowing.congr rfl rfl rfl)
  dsimp only at hasked ⊢
  split
  · exact hasked.trans (hasked.knowing.congr rfl rfl rfl)
  unfold fhCreate
  generalize (g.setEnv env).heap.alloc = a
  obtain ⟨_ | efh, heap⟩ := a
  · exact hasked.trans (hasked.knowing.congr rfl rfl rfl)
  · exact hasked.trans (hasked.knowing.congr rfl rfl rfl)

theorem actEND_learns (h : g.Knowing idOf names N) (arg1 : Int) :
    Learns idOf names N g (g.actEND w.toRequests arg1) := by
  unfold actEND
  split
  · exact h.congr rfl rfl rfl
  next efh _ =>
  have hasked := h.setEnv ((hw.flush g.caches.env efh.addr).trans h.env)
  dsimp only
  split
  · exact hasked.trans (hasked.knowing.congr rfl rfl rfl)
  · exact hasked.trans (hasked.knowing.congr rfl rfl rfl)

omit hw in
theorem actFREELOCK_learns (h : g.Knowing idOf names N) (fl : Option Nat) :
    Learns idOf names N g (g.actFREELOCK fl) := by
  unfold actFREELOCK
  split
  · exact h.congr rfl rfl rfl
  split
  · exact h.congr rfl rfl rfl
  · exact h.congr rfl rfl rfl

omit hw in
theorem doActCOPYDIR_learns (h : g.Knowing idOf names N) (elock : Option ELOCK) :
    Learns idOf names N g (g.doActCOPYDIR elock) := by
  unfold doActCOPYDIR
  split
  · exact h.congr rfl rfl rfl
  split
  · exact h.congr rfl rfl rfl
  split
  · exact h.congr rfl rfl rfl
  · exact h.congr rfl rfl rfl

omit hw in
theorem actCHANGEMODE_learns (h : g.Knowing idOf names N) (objType object newMode : Int) :
    Learns idOf names N g (g.actCHANGEMODE objType object newMode) := by
  have haccess : ∀ elock, Learns idOf names N g (g.changeAccess elock newMode) := by
    intro elock
    unfold changeAccess
    split
    · exact h.congr rfl rfl rfl
    split
    · exact h.congr rfl rfl rfl
    · exact h.congr rfl rfl rfl
  unfold actCHANGEMODE
  split
  · exact h.congr rfl rfl rfl
  split
  · split
    · exact h.congr rfl rfl rfl
    split
    · exact Learns.refl h
    · exact haccess _
  split
  · split
    · exact h.congr rfl rfl rfl
    · exact haccess _
  · exact Learns.refl h

end Global

/-- The packet asks the server for nothing that changes a name. -/
def Event.asks : Event → Bool
  | .packet (.findUpdate ..) | .packet (.findOutput ..) | .createDir .. => false
  | .packet _ => true
  | .onName (.setProtect ..) _ | .onName (.setDate ..) _ | .onName (.setOwner ..) _ |
    .onName (.getAttributes ..) _ => true
  | .onName .. => false

namespace Session
variable {s : Session σ}

theorem serve_learns (hw : Serves idOf names w) (h : s.g.Knowing idOf names N) {p : Packet}
    (hasks : (Event.packet p).asks = true) :
    Global.Learns idOf names N s.g (s.serve w.toRequests addPart p).g := by
  cases p with
  | findInput fl cbstr =>
      obtain ⟨hlearns, -⟩ := @Global.lRootLocateDir_learns σ idOf names N w addPart
        s.g hw h fl cbstr
      refine Global.actFINDREADWRITE_spec (Global.ofCaches_learns _) hlearns fun at_ _ => ?_
      exact hlearns.trans (Global.findOrCreate_learns hw hlearns.knowing _ _ (by decide))
  | findUpdate fl cbstr => cases hasks
  | findOutput fl cbstr => cases hasks
  | fhFromLock fl => exact Global.actFHFROMLOCK_learns hw h fl
  | finish arg1 => exact Global.actEND_learns hw h arg1
  | locateObject fl cbstr mode => exact Global.actLOCATEOBJECT_learns hw h fl cbstr mode
  | freeLock fl => exact Global.actFREELOCK_learns h fl
  | copyDir fl =>
      cases fl with
      | none => exact h.congr rfl rfl rfl
      | some fl => exact Global.doActCOPYDIR_learns h _
  | copyDirFh arg1 =>
      show Global.Learns idOf names N s.g (s.g.actCOPYDIRFH arg1)
      unfold Global.actCOPYDIRFH
      split
      · exact h.congr rfl rfl rfl
      · exact Global.doActCOPYDIR_learns h _
  | parent fl => exact Global.doActPARENT_learns hw h _
  | parentFh arg1 =>
      show Global.Learns idOf names N s.g (s.g.actPARENTFH w.toRequests addPart arg1)
      unfold Global.actPARENTFH
      split
      · exact h.congr rfl rfl rfl
      · exact Global.doActPARENT_learns hw h _
  | changeMode objType object newMode => exact Global.actCHANGEMODE_learns h objType object newMode
  | die =>
      show Global.Learns idOf names N s.g s.g.actDIE
      unfold Global.actDIE
      split
      · exact h.congr rfl rfl rfl
      · exact h.congr rfl rfl rfl

theorem onName_learns (hw : Serves idOf names w) (h : s.g.Knowing idOf names N) {a : PathAction}
    (keeps : a.keepsLists = true) (hasks : (Event.onName a keeps).asks = true) {r : Run σ}
    (hd : a.run w addPart (.start s.g) = some r) : Global.Learns idOf names N s.g r.g := by
  have hset : ∀ {request : σ → List UInt8 → Except Int Fattr × σ} {fl cbstr r},
      (∀ e fh, names (request e fh).2 = names e ∧ ∀ a, (request e fh).1 = .ok a →
        a.fileid = idOf fh) →
      (Run.start s.g).deleteBeforeExit w addPart fl cbstr .unset
      (Global.setAttr w request) = some r →
      Global.Learns idOf names N s.g r.g := by
    intro request fl cbstr r hrequest hd
    obtain ⟨hlearns, -⟩ := @Run.lRootLocateDir_learns σ idOf names w addPart N (Run.start s.g) hw
      h fl cbstr .unset
    refine Run.deleteBeforeExit_spec (Global.ofCaches_learns _) hlearns (fun parDir _ => ?_) hd
    exact hlearns.trans (Global.setAttr_learns hw hlearns.knowing hrequest parDir _)
  cases a with
  | setProtect fl cbstr mask => exact hset (fun e fh => hw.chmod e fh _) hd
  | setDate fl cbstr ds => exact hset (fun e fh => hw.setTimes e fh _) hd
  | setOwner fl cbstr ownerGroup => exact hset (fun e fh => hw.setUidGid e fh _ _) hd
  | getAttributes fl cbstr tags =>
      obtain ⟨hlearns, hfound⟩ := @Run.lRootLocateDir_learns σ idOf names w addPart N
        (Run.start s.g) hw h fl cbstr .unset
      obtain ⟨q, hrun, rfl⟩ := Option.map_eq_some_iff.mp hd
      unfold Run.actGETATTRIBUTES at hrun
      generalize (Run.start s.g).lRootLocateDir w addPart fl cbstr .unset = t at hlearns hfound hrun
      obtain ⟨res2 | parDir, name, s₁⟩ := t
      · obtain rfl := Option.some.inj hrun
        exact hlearns.trans (hlearns.knowing.congr rfl rfl rfl)
      · obtain ⟨id, hknows⟩ := hfound parDir rfl
        obtain ⟨s₂, hdel, rfl⟩ := Option.map_eq_some_iff.mp hrun
        refine Run.fnDelete_spec (s := s₁.on _) (Global.ofCaches_learns _) ?_ hdel
        exact hlearns.trans (Global.getAttributes_learns hw hlearns.knowing hknows tags name.text)
  | deleteObject fl cbstr => cases hasks
  | createDir fl cbstr => cases hasks
  | renameObject fl₁ cbstr₁ fl₂ cbstr₂ => cases hasks
  | createObject fl cbstr type subtype1 => cases hasks
  | makeLink fl cbstr link => cases hasks
  | findInput fl cbstr => cases hasks
  | findUpdate fl cbstr => cases hasks
  | findOutput fl cbstr => cases hasks

theorem onName_inStep (hw : Serves idOf names w) (h : s.g.InStep idOf names) {a : PathAction}
    (keeps : a.keepsLists = true) (hcalm : s.Calm w addPart (.onName a keeps)) {r : Run σ}
    (hd : a.run w addPart (.start s.g) = some r) : r.g.InStep idOf names := by
  cases hasks : (Event.onName a keeps).asks with
  | true => exact (onName_learns hw h keeps hasks hd).knowing.inStep
  | false =>
      cases a with
      | deleteObject fl cbstr =>
          replace hcalm : Run.SafeDelete w addPart s.g fl cbstr := hcalm
          refine Run.deleteAtExit_inStep hw h hcalm (fun parDir name r id hsafe hr hknows => ?_) hd
          exact Global.deleteObject_inStep hw hr hknows hsafe
      | renameObject fl₁ cbstr₁ fl₂ cbstr₂ => exact Run.actRENAMEOBJECT_inStep hw h hcalm hd
      | createObject fl cbstr type subtype1 =>
          replace hcalm : Run.SafeCreate w addPart s.g fl cbstr := hcalm
          replace hd : (Run.start s.g).actCREATEOBJECT w addPart fl cbstr type subtype1 = some r :=
            hd
          unfold Run.actCREATEOBJECT at hd
          split at hd
          · obtain rfl := Option.some.inj hd
            exact h.congr rfl rfl rfl
          · refine Run.deleteAtExit_inStep hw h hcalm
              (fun parDir name r id hunmet hr hknows => ?_) hd
            exact Global.create_inStep hr hknows
              (hw.create r.g.caches.env (r.g.caches.dces parDir).nfsFh name _ _ _ _) hunmet
      | makeLink fl cbstr link =>
          replace hcalm : Run.SafeCreate w addPart s.g fl cbstr := hcalm
          replace hd : (Run.start s.g).actMAKELINK w addPart fl cbstr link = some r := hd
          unfold Run.actMAKELINK at hd
          split at hd
          · refine Run.deleteAtExit_inStep hw h hcalm
              (fun parDir name r id hunmet hr hknows => ?_) hd
            exact Global.create_inStep hr hknows
              (hw.symlink r.g.caches.env (r.g.caches.dces parDir).nfsFh name _ _ _) hunmet
          split at hd
          · unfold Run.doActMAKEHARDLINK at hd
            split at hd
            · exact Run.fnDelete_spec (s := (Run.start s.g).setRes DOSFALSE errorInvalidLock)
                Global.ofCaches_inStep
                (h.congr rfl rfl rfl) hd
            · refine Run.deleteAtExit_inStep hw h hcalm.of_var
                (fun parDir name r id hunmet hr hknows => ?_) hd
              exact Global.create_inStep hr hknows
                (hw.link r.g.caches.env _ (r.g.caches.dces parDir).nfsFh name)
                hunmet
          · obtain rfl := Option.some.inj hd
            exact h.congr rfl rfl rfl
      | setProtect fl cbstr mask => cases hasks
      | setDate fl cbstr ds => cases hasks
      | setOwner fl cbstr ownerGroup => cases hasks
      | getAttributes fl cbstr tags => cases hasks
      | createDir fl cbstr => cases keeps
      | findInput fl cbstr => cases keeps
      | findUpdate fl cbstr => cases keeps
      | findOutput fl cbstr => cases keeps

theorem serve_inStep (hw : Serves idOf names w) (h : s.g.InStep idOf names) {p : Packet}
    (hcalm : s.Calm w addPart (.packet p)) :
    (s.serve w.toRequests addPart p).g.InStep idOf names := by
  cases hasks : (Event.packet p).asks with
  | true => exact (serve_learns hw h hasks).knowing.inStep
  | false =>
      cases p with
      | findUpdate fl cbstr => exact Global.actFINDREADWRITE_inStep hw h fun _ => hcalm
      | findOutput fl cbstr => exact Global.actFINDOUTPUT_inStep hw h hcalm
      | _ => cases hasks

/-- A packet that changes nothing that the cache knows leaves its names right. -/
theorem serveEvent_inStep (hw : Serves idOf names w) (h : s.g.InStep idOf names) {e : Event}
    (hcalm : s.Calm w addPart e) : (s.serveEvent w addPart e).g.InStep idOf names := by
  cases e with
  | packet p => exact serve_inStep hw h hcalm
  | createDir fl cbstr =>
      unfold serveEvent
      dsimp only
      split
      · exact h
      · next r hr => exact Run.actCREATEDIR_inStep hw h hcalm hr
  | onName a keeps =>
      unfold serveEvent
      dsimp only
      split
      · exact h
      · next r hr => exact onName_inStep hw h keeps hcalm hr

end Session

/-- What the main loop serves: a packet about locks, handles or names, `ACTION_FLUSH`, the packet of
the timer, `act_MORE_CACHE` with its flushes of the files and the new sizes of the caches, and new
times to live. -/
inductive Turn
  | event (e : Event)
  | flush
  | timer
  | moreCache (flushes : Nat) (attrs dirs : UInt32)
  | attrCacheTimeout (timeout : Int)
  | dirCacheTimeout (timeout : Int)

namespace Session
variable (w : ObjRequests σ) (addPart : List UInt8 → List UInt8 → Nat →
  Option (List UInt8)) (s : Session σ)

/-- `act_FLUSH`. -/
def flushFiles : Session σ :=
  { s with g :=
    s.g.setEnv (s.g.files.foldl (fun env efh => (w.flush env efh.addr).2) s.g.caches.env) }

/-- `act_MORE_CACHE` flushes the files once or twice where it lacks free buffers. -/
def flushTimes : Nat → Session σ → Session σ
  | 0, s => s
  | n + 1, s => flushTimes n (s.flushFiles w)

def withCaches (caches : Caches σ) : Session σ := { s with g := { s.g with caches } }

def serveTurn : Turn → Option (Session σ)
  | .event e => some (s.serveEvent w addPart e)
  | .flush => some (s.flushFiles w)
  | .timer => some ((s.withCaches ((s.g.caches.dcBury w.toWorld).attrsBury w.toWorld)).flushFiles w)
  | .moreCache flushes attrs dirs =>
      let s := flushTimes w flushes s
      ((s.g.caches.attrsSetCacheSize w.toWorld attrs).bind fun caches =>
        caches.dcSetCacheSize w.toWorld dirs).map s.withCaches
  | .attrCacheTimeout timeout => some (s.withCaches (s.g.caches.attrsSetCacheTimeout timeout))
  | .dirCacheTimeout timeout => some (s.withCaches (s.g.caches.dcSetCacheTimeout timeout))

/-- Behind every packet the main loop unlocks all entries. -/
def unLockAll : Option (Session σ) :=
  ((s.g.caches.attrsUnLockAll w.toWorld).bind fun caches => caches.dcUnLockAll w.toWorld).map
    s.withCaches

/-- One round of the main loop; none if it does not return. -/
def turn (t : Turn) : Option (Session σ) :=
  if s.g.running then (s.serveTurn w addPart t).bind fun s => s.unLockAll w else some s

/-- Packets obey the rules, and are calm; nothing else changes names. -/
def CalmTurn : Turn → Prop
  | .event e => s.ObeysEvent w addPart e ∧ s.Calm w addPart e
  | _ => True

instance : ∀ t, Decidable (s.CalmTurn w addPart t)
  | .event e => inferInstanceAs (Decidable (s.ObeysEvent w addPart e ∧ s.Calm w addPart e))
  | .flush | .timer | .moreCache .. | .attrCacheTimeout _ | .dirCacheTimeout _ => .isTrue trivial

end Session

/-- The handler when it has mounted: its caches are empty, and it has the attributes of the root. -/
structure Mounts (idOf : List UInt8 → UInt32) (g : Global σ) : Prop where
  attrCache : ∃ max ttl memOk, initTable max ttl memOk = some g.caches.attrCache
  dirCache : ∃ max ttl memOk, initTable max ttl memOk = some g.caches.dirCache
  dces : ∀ d, g.caches.dces d = default
  root : g.gMntAttr.fileid = idOf g.gMntFh

/-- The name entries of the directories in the cache are what the server has, and what
`GetNameEntry` returns is what LOOKUP would find. -/
structure Current (names : σ → DirNames) (w : World σ) (s : Caches σ) : Prop where
  entries : ∀ e ∈ s.dirCache.entries.all, ∀ d ∈ e.val, ∀ n ∈ (s.dces d).entries,
    resolve (names s.env (s.dces d).fileId) n.name = some n.fileId ∧
      ∀ r, (w.lookup s.env (s.dces d).nfsFh n.name).1 = .ok r → r.attributes.fileid = n.fileId
  answers : ∀ e ∈ s.dirCache.entries.all, ∀ d ∈ e.val, ∀ name acep n a,
    (s.getNameEntry w d name acep).1 = .ok (n, a) →
      resolve (names s.env (s.dces d).fileId) name = some n.fileId ∧
        ∀ r, (w.lookup s.env (s.dces d).nfsFh name).1 = .ok r → r.attributes.fileid = n.fileId

namespace Global

theorem inStep_mounts (names : σ → DirNames) (hg : Mounts idOf g) : g.InStep idOf names := by
  obtain ⟨attrMax, attrTtl, memOk, hattr⟩ := hg.attrCache
  obtain ⟨dirMax, dirTtl, memOk', hdir⟩ := hg.dirCache
  obtain ⟨hattrs, -⟩ := FTHashTable.indexed_new hattr
  obtain ⟨hdirs, -⟩ := FTHashTable.indexed_new hdir
  obtain ⟨hknown, -⟩ := FTHashTable.indexed_new hdir
  refine ⟨⟨⟨hattrs, hdirs, fun d => ?_, fun d => ?_⟩, hknown⟩, rfl, hg.root⟩
  · rw [hg.dces d]
    exact List.nodup_nil
  · rw [hg.dces d]
    exact List.forall_mem_nil _

theorem InStep.current (hw : Serves idOf names w) (h : g.InStep idOf names) :
    Current names w.toWorld g.caches := by
  have hserver : ∀ {d name fileId}, resolve (names g.caches.env (idOf (g.caches.dces d).nfsFh))
    name = some fileId →
      ∀ r, (w.lookup g.caches.env (g.caches.dces d).nfsFh name).1 = .ok r →
        r.attributes.fileid = fileId := by
    intro d name fileId hfound r hr
    have hasked := hw.found g.caches.env (g.caches.dces d).nfsFh name r hr
    exact Option.some.inj (hasked.symm.trans hfound)
  have hknows : ∀ e ∈ g.caches.dirCache.entries.all, ∀ d ∈ e.val,
      g.caches.Knows idOf (names g.caches.env) (g.caches.dces d).fileId d := by
    intro e he d hd
    obtain ⟨d', hd', hk⟩ := h.caches.dirs.valued e he
    obtain rfl := Option.mem_unique hd hd'
    rw [hk.lists.fileId]
    exact hk
  constructor
  · intro e he d hd n hn
    have hk := hknows e he d hd
    have hbind := hk.binds n hn
    refine ⟨hbind, hserver ?_⟩
    rw [hk.handle]
    exact hbind
  · intro e he d hd name acep n a hok
    have hk := hknows e he d hd
    obtain ⟨hgrows, hentry⟩ := Caches.getNameEntry_grows hw.toExports h.caches rfl hk name acep
    obtain ⟨hmem, rfl⟩ := hentry n a hok
    have hbind := (hgrows.known _ d hk).binds n hmem
    refine ⟨hbind, hserver ?_⟩
    rw [hk.handle]
    exact hbind

end Global

namespace Session
variable {s : Session σ}

theorem flushFiles_learns (hw : Serves idOf names w) (h : s.g.Knowing idOf names N) :
    Global.Learns idOf names N s.g (s.flushFiles w).g := by
  have henv : ∀ files : List EFH, ∀ env,
      names (files.foldl (fun env efh => (w.flush env efh.addr).2) env) = names env := by
    intro files
    induction files with
    | nil => exact fun env => rfl
    | cons efh files ih => exact fun env => (ih _).trans (hw.flush env efh.addr)
  exact h.setEnv ((henv s.g.files s.g.caches.env).trans h.env)

theorem flushTimes_learns (hw : Serves idOf names w) (h : s.g.Knowing idOf names N) (n : Nat) :
    Global.Learns idOf names N s.g (flushTimes w n s).g := by
  induction n generalizing s with
  | zero => exact Global.Learns.refl h
  | succ n ih =>
      have hlearns := flushFiles_learns hw h
      exact hlearns.trans (ih hlearns.knowing)

/-- Two calls about the tables that read the clock. -/
theorem both_learns (hw : Serves idOf names w) (h : s.g.Knowing idOf names N)
    {f₁ f₂ : Caches σ → Option (Caches σ)}
    (h₁ : ∀ {c}, Caches.Coherent idOf N c → ∃ c', f₁ c = some c' ∧ c.Grows idOf N c' ∧
      c'.env = (w.now c.env).2)
    (h₂ : ∀ {c}, Caches.Coherent idOf N c → ∃ c', f₂ c = some c' ∧ c.Grows idOf N c' ∧
      c'.env = (w.now c.env).2) :
    ∃ s', ((f₁ s.g.caches).bind f₂).map s.withCaches = some s' ∧
      Global.Learns idOf names N s.g s'.g := by
  obtain ⟨c₁, hrun₁, hgrows₁, henv₁⟩ := h₁ h.caches
  obtain ⟨c₂, hrun₂, hgrows₂, henv₂⟩ := h₂ hgrows₁.coherent
  refine ⟨s.withCaches c₂, by rw [hrun₁, Option.bind_some, hrun₂, Option.map_some], ?_⟩
  refine h.withCaches (hgrows₁.trans hgrows₂) ?_
  rw [henv₂]
  refine (hw.asked N).now _ ?_
  rw [henv₁]
  exact (hw.asked N).now _ h.env

/-- What is not a packet about locks, handles or names leaves the names alone. -/
theorem serveTurn_learns (hw : Serves idOf names w) (h : s.g.Knowing idOf names N) {t : Turn}
    (ht : ∀ e, t ≠ .event e) :
    ∃ s', s.serveTurn w addPart t = some s' ∧ Global.Learns idOf names N s.g s'.g := by
  cases t with
  | event e => exact absurd rfl (ht e)
  | flush => exact ⟨_, rfl, flushFiles_learns hw h⟩
  | timer =>
      have hdirs := Caches.dcBury_grows w.toWorld h.caches
      have hattrs := Caches.attrsBury_grows w.toWorld hdirs.coherent
      have hburied : Global.Learns idOf names N s.g (s.withCaches _).g :=
        h.withCaches (hdirs.trans hattrs) ((hw.asked N).now _ ((hw.asked N).now _ h.env))
      exact ⟨_, rfl, hburied.trans (flushFiles_learns hw hburied.knowing)⟩
  | moreCache flushes attrs dirs =>
      have hflushed := flushTimes_learns hw h flushes
      obtain ⟨s', hserved, hlearns⟩ := both_learns hw hflushed.knowing
        (fun hc => Caches.attrsSetCacheSize_grows w.toWorld hc attrs)
        (fun hc => Caches.dcSetCacheSize_grows w.toWorld hc dirs)
      exact ⟨s', hserved, hflushed.trans hlearns⟩
  | attrCacheTimeout timeout =>
      exact ⟨_, rfl, h.withCaches (Caches.attrsSetCacheTimeout_grows h.caches timeout) h.env⟩
  | dirCacheTimeout timeout =>
      exact ⟨_, rfl, h.withCaches (Caches.dcSetCacheTimeout_grows h.caches timeout) h.env⟩

theorem unLockAll_learns (hw : Serves idOf names w) (h : s.g.Knowing idOf names N) :
    ∃ s', s.unLockAll w = some s' ∧ Global.Learns idOf names N s.g s'.g :=
  both_learns hw h (Caches.attrsUnLockAll_grows w.toWorld) (Caches.dcUnLockAll_grows w.toWorld)

theorem serveTurn_inStep (hw : Serves idOf names w) (h : s.g.InStep idOf names) {t : Turn}
    (hcalm : s.CalmTurn w addPart t) :
    ∃ s', s.serveTurn w addPart t = some s' ∧ s'.g.InStep idOf names := by
  by_cases ht : ∀ e, t ≠ .event e
  · obtain ⟨s', hserved, hlearns⟩ := @serveTurn_learns σ idOf names w addPart _ s hw h t ht
    exact ⟨s', hserved, hlearns.knowing.inStep⟩
  · obtain ⟨e, rfl⟩ := not_forall_not.mp ht
    exact ⟨_, rfl, serveEvent_inStep hw h hcalm.2⟩

theorem turn_inStep (hw : Serves idOf names w) (h : s.g.InStep idOf names) {t : Turn}
    (hcalm : s.CalmTurn w addPart t) :
    ∃ s', s.turn w addPart t = some s' ∧ s'.g.InStep idOf names := by
  unfold turn
  split
  · obtain ⟨s₁, hserved, hstep⟩ := serveTurn_inStep hw h hcalm
    obtain ⟨s₂, hunlocked, hlearns⟩ := unLockAll_learns hw hstep
    exact ⟨s₂, by rw [hserved, Option.bind_some, hunlocked], hlearns.knowing.inStep⟩
  · exact ⟨s, rfl, h⟩

/-- In every state that the handler reaches, the names in the cache are those of the server, as long
as the packets that change names are calm. -/
theorem current_run (hw : Serves idOf names w) (hg : Mounts idOf g) {ts : List Turn}
    (hcalm : GuardedM (turn w addPart) (CalmTurn w addPart) ⟨g, [], 0⟩ ts) :
    ∃ s, ts.foldlM (turn w addPart) ⟨g, [], 0⟩ = some s ∧ Current names w.toWorld s.g.caches := by
  obtain ⟨s, hrun, hstep⟩ := GuardedM.invariant (fun s t hs ht => turn_inStep hw hs ht)
    (Global.inStep_mounts names hg) hcalm
  exact ⟨s, hrun, hstep.current hw⟩

/-- The directory "d" is made and a file in it; the file becomes "c" and is asked for as "C",
another one is made and deleted. -/
theorem current_run_store : ∃ s, List.foldlM (turn Store.requests dosAddPart)
      ⟨Store.mounted ⟨[], List.nodup_nil⟩ some, [], 0⟩
      [.event (.createDir none [100]), .event (.packet (.findOutput none [100, 47, 97])),
        .event (.packet (.finish 1)),
        .timer, .event (.packet (.findUpdate none [100, 47, 98])), .event (.packet (.finish 2)),
        .event (.onName (.renameObject none [100, 47, 97] none [99]) rfl), .moreCache 2 30 30,
          .dirCacheTimeout 5,
        .event (.onName (.getAttributes none [67] []) rfl),
          .event (.onName (.deleteObject none [100, 47, 98]) rfl),
        .event (.onName (.makeLink none [101] ⟨none, [99], LINK_SOFT⟩) rfl)] = some s ∧
    Current Store.names Store.requests.toWorld s.g.caches :=
  current_run Store.serves_requests ⟨⟨20, 60, true, rfl⟩, ⟨20, 60, true, rfl⟩, fun _ => rfl, rfl⟩
    (by decide +kernel)

/-- The file "c" is asked for as "C" and deleted: the entry "C" stays. -/
example :
    ((List.foldlM (turn Store.requests dosAddPart) ⟨Store.mounted ⟨[], List.nodup_nil⟩ some, [], 0⟩
      [.event (.packet (.findOutput none [99])), .event (.packet (.finish 1)),
        .event (.onName (.getAttributes none [67] []) rfl),
          .event (.onName (.deleteObject none [99]) rfl)]).map
      fun s => (s.g.caches.env.objs.length, s.g.caches.dirCache.entries.all.map fun e =>
        e.val.map fun d =>
        (s.g.caches.dces d).entries.map NEntry.name)) = some (0, [some [[67]]]) := by decide +kernel

end Session

end Served

end Anfs.Lock
