import Anfs.Lock.System
import Anfs.Lock.Mode
import Anfs.Path.Resolve

/-!
# What a packet does to the list of locks

A packet adds one lock, removes one or more, changes the access of one, or leaves the list as it
is. Who grants a lock looks for another one on the same object in its own way:
`RootLocateAndLock` by `DupELock`, `act_FINDREADWRITE` by a test of its own, `act_CHANGE_MODE` by a
count. The root is locked without a look, and so is what CREATE and MKDIR answer. Every new lock
has the names that `CBuildFullName` built, or those of another lock.
-/
namespace Anfs.Lock
open Anfs.Cache Anfs.Lib Anfs.Nfs Anfs.Path Anfs.Tree Anfs.Xdr
open scoped List

/-- A full name that was built, and the name behind it: components joined by single slashes. -/
structure Names (fullName name : List UInt8) : Prop where
  comps : ∃ cs, fullName = joined cs ∧ ∀ c ∈ cs, c ≠ [] ∧ c ≠ [dot] ∧ slash ∉ c
  name : name = fileName fullName

/-- The names of a lock. -/
def Named (l : ELOCK) : Prop := Names l.fullName.text l.name.text

/-- The first lock with the key of `l`, if there is one, lets a shared `l` in. -/
def Admits (locks : List ELOCK) (l : ELOCK) : Prop :=
  ∀ old, lockLookupFromKey locks l.flKey = some old →
    l.flAccess = SHARED_LOCK ∧ old.flAccess ≠ EXCLUSIVE_LOCK

/-- The list with the access of a lock changed. -/
def setAccess (locks : List ELOCK) (l : ELOCK) (newMode : Int) : List ELOCK :=
  locks.map fun l' => if l' = l then { l with flAccess := newMode } else l'

/-- What a packet can do to the list of locks. -/
inductive Change (locks : List ELOCK) : List ELOCK → Prop
  | kept : Change locks locks
  | admitted {l : ELOCK} (admits : Admits locks l) (named : Named l) : Change locks (l :: locks)
  | root {l : ELOCK} (path : l.fullName.text = []) (shared : l.flAccess = SHARED_LOCK)
      (named : Named l) :
      Change locks (l :: locks)
  | created {l : ELOCK} (access : l.flAccess = MODE_NEWFILE) (named : Named l) :
      Change locks (l :: locks)
  | made {l : ELOCK} (type : l.nfsType = NFDIR) (access : l.flAccess = EXCLUSIVE_LOCK)
      (named : Named l) :
      Change locks (l :: locks)
  | copied {l old : ELOCK} (mem : old ∈ locks) (key : l.flKey = old.flKey)
      (shared : l.flAccess = SHARED_LOCK)
      (from_ : old.flAccess = SHARED_LOCK) (fullName : l.fullName.text = old.fullName.text)
      (name : l.name.text = old.name.text) : Change locks (l :: locks)
  | removed {locks' : List ELOCK} (sub : locks'.Sublist locks) : Change locks locks'
  | changed {l : ELOCK} {newMode : Int} (mem : l ∈ locks)
      (only : ∀ l' ∈ locks, l'.flKey = l.flKey → l' = l) :
      Change locks (setAccess locks l newMode)

section Names
variable {addPart : List UInt8 → List UInt8 → Nat → Option (List UInt8)}

theorem Names.named {fullName name : List UInt8} (h : Names fullName name) {l : ELOCK}
    (hfullName : l.fullName.text = fullName) (hname : l.name.text = name) : Named l := by
  unfold Named
  rw [hfullName, hname]
  exact h

theorem chop_ne_dot {c : List UInt8} (hdots : c ≠ [dot, dot])
    (hdot : c ≠ [dot]) : chop dot c ≠ [dot] := by
  unfold chop
  split
  · next hlast =>
    intro heq
    have hc := List.dropLast_append_getLast? dot hlast
    rw [heq] at hc
    exact hdots hc.symm
  · exact hdot

/-- What a path is unified to has components, none of them empty or a dot. -/
theorem unified_comps {ss : List UInt8} {v : Unified} (hv : unified ss = .ok v) :
    ∃ cs, v.path = joined cs ∧ ∀ c ∈ cs, c ≠ [] ∧ c ≠ [dot] ∧ slash ∉ c := by
  have hrun : fnPathUnify true ss = some (.ok v) := by
    rw [← hv]
    exact (Option.some_get _).symm
  rcases fnPathUnify_spec ss with ⟨-, res2, herr, -⟩ | ⟨st, strippedDirs, -, hst, hok⟩
  · rw [herr] at hrun
    cases hrun
  · rw [hok] at hrun
    cases hrun
    refine ⟨st.map (chop dot), rfl, fun c hc => ?_⟩
    obtain ⟨c', hc', rfl⟩ := List.mem_map.mp hc
    have hord := hst c' hc'
    exact ⟨hord.chop_ne_nil, chop_ne_dot hord.notDotDot hord.notDot, noSlash_chop hord.noSlash⟩

theorem cBuildFullName_names {volume : List UInt8} {locks : List ELOCK} {h h' : Heap}
    {fl : Option Nat}
    {cstr : List UInt8} {uPath : Bool} {full : FullName}
    (hfull : cBuildFullName addPart volume locks h fl cstr true uPath = (.ok full, h')) :
    Names full.fullName.text (Global.textOf full.name) ∧
      full.fullNameLen = full.fullName.text.length := by
  cases hold : oldFullName locks fl with
  | none =>
      unfold cBuildFullName at hfull
      rw [hold] at hfull
      cases hfull
  | some old =>
      have hout := @cBuildFullName_outcome addPart volume locks h fl cstr true uPath old hold
      rw [hfull] at hout
      cases hout with
      | done path name short owned =>
          refine ⟨⟨?_, name⟩, rfl⟩
          obtain ⟨ss, -, hpath⟩ := Option.bind_eq_some_iff.mp path
          obtain ⟨v, hv, hfullName⟩ := Option.map_eq_some_iff.mp hpath
          rw [← hfullName]
          exact unified_comps (ok_of_toOption hv)

end Names

theorem map_eq_ok {α β : Type} {r : Except Int α} {f : α → β} {b : β} (h : r.map f = .ok b) :
    ∃ a, r = .ok a ∧ f a = b := by
  cases r with
  | error res2 => cases h
  | ok a => exact ⟨a, rfl, Except.ok.inj h⟩

theorem lockDup_fields {h h' : Heap} {oel l : ELOCK} (hl : lockDup h oel = (some l, h')) :
    l.flKey = oel.flKey ∧ l.flAccess = oel.flAccess ∧ l.fullName.text = oel.fullName.text ∧
      l.name.text = oel.name.text := by
  unfold lockDup at hl
  generalize h.alloc = r at hl
  obtain ⟨_ | elock, h₁⟩ := r
  · cases hl
  · dsimp only at hl
    split at hl
    · next full last hfull hlast =>
      cases hl
      exact ⟨rfl, rfl, text_strDup hfull, text_strDup hlast⟩
    · cases hl

namespace Global

variable {σ : Type} {g : Global σ}

/-- `DupELock` grants shared locks only. -/
theorem dupELock_shared {oldLock : Option ELOCK} {name fullName : List UInt8}
    {mode : Int} {l : ELOCK}
    (hl : (g.dupELock oldLock name fullName mode).1 = .ok l) :
    (∀ old ∈ oldLock, old.flAccess = SHARED_LOCK) ∧ l.flAccess = SHARED_LOCK ∧
      l.fullName.text = fullName ∧ l.name.text = name := by
  unfold dupELock at hl
  split at hl
  · cases hl
  next hguard =>
    obtain ⟨hold, hmode⟩ := not_or.mp hguard
    have hmode' : mode = SHARED_LOCK := not_not.mp hmode
    have hshared : ∀ old ∈ oldLock, old.flAccess = SHARED_LOCK := fun old hmem =>
      not_not.mp fun hne => hold ⟨old, hmem, hne⟩
    split at hl
    · cases hl
    next newELock heap hcreate =>
      have hfilled := lockCreate_filled hcreate
      cases oldLock with
      | none =>
          cases hl
          exact ⟨hshared, hfilled.access.trans hmode', hfilled.fullName, hfilled.name⟩
      | some old =>
          cases hl
          exact ⟨hshared, hfilled.access.trans hmode', hfilled.fullName, hfilled.name⟩

theorem newObjectLock_admits {w : World σ} {parDir : Nat} {name fullName : List UInt8}
    {mode : Int} {l : ELOCK}
    (hl : (g.newObjectLock w parDir name fullName mode).1 = .ok l) : Admits g.locks l := by
  unfold newObjectLock at hl
  generalize g.caches.getNameEntry w parDir name true = r at hl
  obtain ⟨res2 | ⟨nent, ace⟩, caches⟩ := r
  · cases hl
  · dsimp only at hl
    generalize (ace.map caches.aces).getD default = entry at hl
    intro old hold
    cases hlook : lockLookupFromKey g.locks entry.fattr.fileid with
    | none =>
        rw [hlook] at hl
        have hkey : l.flKey = entry.fattr.fileid := by
          generalize hnew :
            (if entry.fattr.type = NFLNK then (Except.error errorIsSoftLink, { g with caches }) else
            _ : Except Int ELOCK × Global σ) = new at hl
          obtain ⟨res2 | new, g₁⟩ := new
          · cases hl
          · cases hl
            rfl
        rw [hkey, hlook] at hold
        cases hold
    | some old' =>
        rw [hlook] at hl
        dsimp only at hl
        cases hdup : (dupELock { g with caches } (some old') name fullName mode).1 with
        | error res2 =>
            rw [hdup] at hl
            cases hl
        | ok new =>
            rw [hdup] at hl
            cases hl
            obtain ⟨hshared, hnew, -⟩ := dupELock_shared hdup
            have hsame : old' = old := Option.some.inj (hlook.symm.trans hold)
            rw [← hsame, hshared old' rfl]
            exact ⟨hnew, by decide⟩

theorem newObjectLock_names {w : World σ} {parDir : Nat} {name fullName : List UInt8}
    {mode : Int} {l : ELOCK}
    (hl : (g.newObjectLock w parDir name fullName mode).1 = .ok l) :
    l.fullName.text = fullName ∧ l.name.text = name := by
  unfold newObjectLock at hl
  generalize g.caches.getNameEntry w parDir name true = r at hl
  obtain ⟨res2 | ⟨nent, ace⟩, caches⟩ := r
  · cases hl
  · dsimp only at hl
    generalize (ace.map caches.aces).getD default = entry at hl
    obtain ⟨new, hnew, rfl⟩ := map_eq_ok hl
    split at hnew
    · exact (dupELock_shared hnew).2.2
    · split at hnew
      · cases hnew
      · split at hnew
        · cases hnew
        · next hcreate =>
          cases hnew
          have hfilled := lockCreate_filled hcreate
          exact ⟨hfilled.fullName, hfilled.name⟩

/-- The root is locked without a look, but only shared. -/
theorem newRootLock_shared {w : World σ} {name fullName : List UInt8} {mode : Int} {l : ELOCK}
    (hl : (g.newRootLock w name fullName mode).1 = .ok l) :
    l.flAccess = SHARED_LOCK ∧ l.fullName.text = fullName ∧ l.name.text = name := by
  unfold newRootLock at hl
  cases hdup : g.dupELock none name fullName mode with
  | mk r g₁ =>
      rw [hdup] at hl
      cases r with
      | error res2 => cases hl
      | ok new =>
          obtain ⟨-, hshared⟩ := dupELock_shared (congrArg Prod.fst hdup)
          dsimp only at hl
          split at hl
          · cases hl
          · cases hl
            exact hshared

variable {w : Requests σ} {addPart : List UInt8 → List UInt8 → Nat → Option (List UInt8)}

/-- The lock of `RootLocateAndLock`. -/
theorem rootLocateAndLock_change (g : Global σ) (fl : Option Nat)
    (relPath : List UInt8) (mode : Int) :
    Change g.locks (g.rootLocateAndLock w.toWorld addPart fl relPath mode).2.locks := by
  unfold rootLocateAndLock
  split
  · exact .kept
  · cases hfull : cBuildFullName addPart g.gVolumeName g.locks g.heap fl relPath true false with
    | mk r heap =>
        cases r with
        | error res2 => exact .kept
        | ok full =>
            obtain ⟨hnames, hlen⟩ := cBuildFullName_names hfull
            have hdir :=
              (rootLocateDir_asked (w := w.toWorld) { g with heap } full.fullName.text).locks
            dsimp only at hdir ⊢
            generalize Global.rootLocateDir w.toWorld { g with heap }
              full.fullName.text = d at hdir ⊢
            obtain ⟨res2 | parDir, g₁⟩ := d
            · show Change g.locks g₁.locks
              rw [hdir]
              exact .kept
            · have hnew : (if full.fullNameLen ≠ 0 then
                  g₁.newObjectLock w.toWorld parDir (textOf full.name) full.fullName.text mode
                  else g₁.newRootLock w.toWorld (textOf full.name) full.fullName.text
                    mode).2.locks = g.locks := by
                rw [← hdir]
                split
                · exact (newObjectLock_makes g₁ parDir _ _ mode).kept.locks
                · exact (newRootLock_makes g₁ _ _ mode).kept.locks
              dsimp only at hdir ⊢
              cases hcase : (if full.fullNameLen ≠ 0 then
                  g₁.newObjectLock w.toWorld parDir (textOf full.name) full.fullName.text mode
                  else g₁.newRootLock w.toWorld (textOf full.name) full.fullName.text mode) with
              | mk r g₂ =>
                  rw [hcase] at hnew
                  cases r with
                  | error res2 =>
                      show Change g.locks g₂.locks
                      dsimp only at hnew
                      rw [hnew]
                      exact .kept
                  | ok newelock =>
                      show Change g.locks (newelock :: g₂.locks)
                      dsimp only at hnew
                      rw [hnew]
                      split at hcase
                      · obtain ⟨hfullName, hname⟩ := newObjectLock_names (congrArg Prod.fst hcase)
                        refine .admitted ?_ (hnames.named hfullName hname)
                        rw [← hdir]
                        exact newObjectLock_admits (congrArg Prod.fst hcase)
                      · next hroot =>
                        obtain ⟨hshared, hfullName, hname⟩ :=
                          newRootLock_shared (congrArg Prod.fst hcase)
                        refine .root ?_ hshared (hnames.named hfullName hname)
                        rw [hfullName, ← List.length_eq_zero_iff, ← hlen]
                        exact not_not.mp hroot

theorem lockRes_locks (g : Global σ) (r : Except Int ELOCK) : (g.lockRes r).locks = g.locks := by
  cases r with
  | ok l => rfl
  | error res2 => rfl

theorem actLOCATEOBJECT_change (g : Global σ) (fl : Option Nat) (cbstr : List UInt8) (mode : Int) :
    Change g.locks (g.actLOCATEOBJECT w addPart fl cbstr mode).locks := by
  unfold actLOCATEOBJECT
  split
  · exact .kept
  · next path heap _ =>
    have hchange := @rootLocateAndLock_change σ w addPart { g with heap } fl path.text mode
    dsimp only at hchange ⊢
    rw [lockRes_locks]
    exact hchange

theorem doActPARENT_change (g : Global σ) (oldelock : Option ELOCK) :
    Change g.locks (g.doActPARENT w addPart oldelock).locks := by
  unfold doActPARENT
  split
  · exact .kept
  · dsimp only
    split
    · exact .kept
    · split
      · exact .kept
      · next dirName heap _ =>
        have hchange := @rootLocateAndLock_change σ w addPart { g with heap } none
          dirName.text SHARED_LOCK
        dsimp only at hchange ⊢
        rw [lockRes_locks]
        exact hchange

theorem doActCOPYDIR_change (g : Global σ) {elock : Option ELOCK}
    (hmem : ∀ l ∈ elock, l ∈ g.locks) :
    Change g.locks (g.doActCOPYDIR elock).locks := by
  unfold doActCOPYDIR
  split
  · exact .kept
  · next old =>
    split
    · exact .kept
    · next hshared =>
      split
      · exact .kept
      · next nel heap hdup =>
        obtain ⟨hkey, haccess, hfullName, hname⟩ := lockDup_fields hdup
        exact .copied (hmem old rfl) hkey (haccess.trans (not_not.mp hshared))
          (not_not.mp hshared) hfullName hname

theorem lRootLocateDir_names {w : World σ} {g : Global σ} {fl : Option Nat}
    {cbstr : List UInt8} {at_ : Located}
    (hat : (g.lRootLocateDir w addPart fl cbstr).1 = .ok at_) :
    Names at_.fullName.text (textOf at_.name) := by
  unfold lRootLocateDir buildFullName at hat
  cases hstr : strDup g.heap cbstr with
  | mk d heap =>
      rw [hstr] at hat
      cases d with
      | none => cases hat
      | some cstr =>
          cases hfull : cBuildFullName addPart g.gVolumeName g.locks heap fl
            cstr.text true false with
          | mk r heap' =>
              dsimp only at hat
              rw [hfull] at hat
              cases r with
              | error res2 => cases hat
              | ok full =>
                  dsimp only at hat
                  split at hat
                  · cases hat
                  · cases hat
                    exact (cBuildFullName_names hfull).1

/-- `act_FINDREADWRITE` looks for a lock before it grants one. -/
theorem openFound_change (g : Global σ) (dres : Diropokres) {fullName name : List UInt8}
    (hnames : Names fullName name) (fileMode : Int) {mode : Int}
    (hmode : mode ≠ EXCLUSIVE_LOCK → mode = SHARED_LOCK) :
    Change g.locks (g.openFound dres fullName name fileMode mode).2.locks := by
  unfold openFound
  split
  · exact .kept
  split
  · exact .kept
  next hfree =>
    split
    · exact .kept
    next l heap hcreate =>
      have hfilled := lockCreate_filled hcreate
      dsimp only
      rcases fhCreate_cases { g with heap } l.addr fileMode with ⟨h, hrun, -⟩ | ⟨h, efh, hrun, -⟩
      · rw [hrun]
        exact .kept
      · rw [hrun]
        refine .admitted (fun old hold => ?_) (hnames.named hfilled.fullName hfilled.name)
        have hnot : ¬ (mode = EXCLUSIVE_LOCK ∨ old.flAccess = EXCLUSIVE_LOCK) :=
          fun h => hfree ⟨old, hold, h⟩
        exact ⟨hfilled.access.trans (hmode (not_or.mp hnot).1), (not_or.mp hnot).2⟩

theorem actFINDREADWRITE_change (g : Global σ) (fl : Option Nat) (cbstr : List UInt8)
    (fileMode : Int) {mode : Int}
    (hmode : mode ≠ EXCLUSIVE_LOCK → mode = SHARED_LOCK) :
    Change g.locks (g.actFINDREADWRITE w addPart fl cbstr fileMode mode).2.locks := by
  obtain ⟨leak, hat, -⟩ := @lRootLocateDir_asked σ w.toWorld addPart g fl cbstr
  have hlocks := hat.locks
  have hnames := @lRootLocateDir_names σ addPart w.toWorld g fl cbstr
  unfold actFINDREADWRITE
  generalize g.lRootLocateDir w.toWorld addPart fl cbstr = r at hlocks hnames ⊢
  obtain ⟨res2 | at_, g₁⟩ := r
  · show Change g.locks g₁.locks
    rw [hlocks]
    exact .kept
  · have hsent :=
      (findOrCreate_kept (w := w) g₁ (g₁.caches.dces at_.parDir).nfsFh
      (textOf at_.name) fileMode).locks
    dsimp only at hlocks ⊢
    generalize g₁.findOrCreate w (g₁.caches.dces at_.parDir).nfsFh (textOf at_.name)
      fileMode = d at hsent ⊢
    obtain ⟨res2 | dres, g₂⟩ := d
    · show Change g.locks g₂.locks
      rw [show g₂.locks = g.locks from hsent.trans hlocks]
      exact .kept
    · have hopen := openFound_change g₂ dres (hnames rfl) fileMode hmode
      rw [show g₂.locks = g.locks from hsent.trans hlocks] at hopen
      dsimp only
      generalize g₂.openFound dres at_.fullName.text (textOf at_.name) fileMode mode = o at hopen ⊢
      obtain ⟨res2 | id, g₃⟩ := o
      · exact hopen
      · exact hopen

/-- `act_FINDOUTPUT` marks its lock as that of a new file. -/
theorem openCreated_change (g : Global σ) (dres : Diropokres) {fullName name : List UInt8}
    (hnames : Names fullName name) :
    Change g.locks (g.openCreated dres fullName name).2.locks := by
  unfold openCreated
  split
  · exact .kept
  next l heap hcreate =>
    have hfilled := lockCreate_filled hcreate
    dsimp only
    rcases fhCreate_cases { g with heap } l.addr MODE_NEWFILE with ⟨h, hrun, -⟩ | ⟨h, efh, hrun, -⟩
    · rw [hrun]
      exact .removed List.eraseP_sublist
    · rw [hrun]
      exact .created hfilled.access (hnames.named hfilled.fullName hfilled.name)

theorem actFINDOUTPUT_change (g : Global σ) (fl : Option Nat) (cbstr : List UInt8) :
    Change g.locks (g.actFINDOUTPUT w addPart fl cbstr).2.locks := by
  obtain ⟨leak, hat, -⟩ := @lRootLocateDir_asked σ w.toWorld addPart g fl cbstr
  have hlocks := hat.locks
  have hnames := @lRootLocateDir_names σ addPart w.toWorld g fl cbstr
  unfold actFINDOUTPUT
  generalize g.lRootLocateDir w.toWorld addPart fl cbstr = r at hlocks hnames ⊢
  obtain ⟨res2 | at_, g₁⟩ := r
  · show Change g.locks g₁.locks
    rw [hlocks]
    exact .kept
  · have hsent :=
      (replaceFile_kept (w := w) g₁ (g₁.caches.dces at_.parDir).nfsFh (textOf at_.name)).locks
    dsimp only at hlocks ⊢
    generalize g₁.replaceFile w (g₁.caches.dces at_.parDir).nfsFh (textOf at_.name) = d at hsent ⊢
    obtain ⟨res2 | dres, g₂⟩ := d
    · show Change g.locks g₂.locks
      rw [show g₂.locks = g.locks from hsent.trans hlocks]
      exact .kept
    · have hopen := openCreated_change g₂ dres (hnames rfl)
      rw [show g₂.locks = g.locks from hsent.trans hlocks] at hopen
      dsimp only
      generalize g₂.openCreated dres at_.fullName.text (textOf at_.name) = o at hopen ⊢
      obtain ⟨res2 | id, g₃⟩ := o
      · exact hopen
      · exact hopen

theorem actEND_change (g : Global σ) (arg1 : Int) : Change g.locks (g.actEND w arg1).locks := by
  unfold actEND
  split
  · exact .kept
  · dsimp only
    split
    · exact .removed List.eraseP_sublist
    · exact .removed List.eraseP_sublist

theorem actFREELOCK_change (g : Global σ) (fl : Option Nat) :
    Change g.locks (g.actFREELOCK fl).locks := by
  unfold actFREELOCK
  split
  · exact .kept
  · split
    · exact .kept
    · exact .removed List.eraseP_sublist

theorem actFHFROMLOCK_locks (g : Global σ) (fl : Option Nat) :
    (g.actFHFROMLOCK w fl).2.locks = g.locks := by
  obtain ⟨f, hadds, -⟩ := @actFHFROMLOCK_adds σ w g fl
  exact hadds.locks

theorem changeAccess_change (hnodup : (g.locks.map ELOCK.addr).Nodup) {l : ELOCK} (hl : l ∈ g.locks)
    (newMode : Int) :
    Change g.locks (g.changeAccess l newMode).locks := by
  unfold changeAccess
  split
  · exact .kept
  split
  · exact .kept
  next hone =>
    have honly := (numLocks_le_one_iff hnodup hl).mp hone
    have hset : (g.locks.map fun l' : ELOCK => if l'.addr = l.addr then
      { l' with flAccess := newMode } else l') =
        setAccess g.locks l newMode := by
      refine List.map_congr_left fun l' hl' => ?_
      rw [if_congr (eq_of_addr hnodup hl hl') rfl rfl]
      split
      · next heq => rw [heq]
      · rfl
    show Change g.locks (g.locks.map _)
    rw [hset]
    exact .changed hl honly

theorem actCHANGEMODE_change (hnodup : (g.locks.map ELOCK.addr).Nodup)
    (objType object newMode : Int) :
    Change g.locks (g.actCHANGEMODE objType object newMode).locks := by
  unfold actCHANGEMODE
  split
  · exact .kept
  split
  · split
    · exact .kept
    · split
      · exact .kept
      · next hlock => exact changeAccess_change hnodup (List.mem_of_find?_eq_some hlock) newMode
  split
  · split
    · exact .kept
    · next hlock => exact changeAccess_change hnodup (List.mem_of_find?_eq_some hlock) newMode
  · exact .kept

end Global

namespace Session

variable {σ : Type} {w : ObjRequests σ} {addPart : List UInt8 → List UInt8 → Nat →
  Option (List UInt8)} {s : Session σ}

/-- A packet about a lock or a handle. -/
theorem serve_change (hnodup : (s.g.locks.map ELOCK.addr).Nodup) (p : Packet) :
    Change s.g.locks (s.serve w.toRequests addPart p).g.locks := by
  have hmem : ∀ fl, ∀ l ∈ lockLookup s.g.locks fl, l ∈ s.g.locks :=
    fun fl l hl => List.mem_of_find?_eq_some hl
  cases p with
  | findInput fl cbstr =>
      exact Global.actFINDREADWRITE_change s.g fl cbstr MODE_OLDFILE fun _ => rfl
  | findUpdate fl cbstr =>
      exact Global.actFINDREADWRITE_change s.g fl cbstr MODE_READWRITE fun hne => absurd rfl hne
  | findOutput fl cbstr => exact Global.actFINDOUTPUT_change s.g fl cbstr
  | fhFromLock fl =>
      show Change s.g.locks (s.g.actFHFROMLOCK w.toRequests fl).2.locks
      rw [Global.actFHFROMLOCK_locks]
      exact .kept
  | finish arg1 => exact Global.actEND_change s.g arg1
  | locateObject fl cbstr mode => exact Global.actLOCATEOBJECT_change s.g fl cbstr mode
  | freeLock fl => exact Global.actFREELOCK_change s.g fl
  | copyDir fl =>
      cases fl with
      | none => exact .kept
      | some fl => exact Global.doActCOPYDIR_change s.g (hmem fl)
  | copyDirFh arg1 =>
      show Change s.g.locks (s.g.actCOPYDIRFH arg1).locks
      unfold Global.actCOPYDIRFH
      split
      · exact .kept
      · next efh _ => exact Global.doActCOPYDIR_change s.g (hmem efh.efhELock)
  | parent fl => exact Global.doActPARENT_change s.g _
  | parentFh arg1 =>
      show Change s.g.locks (s.g.actPARENTFH w.toRequests addPart arg1).locks
      unfold Global.actPARENTFH
      split
      · exact .kept
      · exact Global.doActPARENT_change s.g _
  | changeMode objType object newMode =>
      exact Global.actCHANGEMODE_change hnodup objType object newMode
  | die =>
      show Change s.g.locks s.g.actDIE.locks
      unfold Global.actDIE
      split
      · exact .kept
      · exact .kept

/-- A packet of any kind changes the list of locks in one of these ways. -/
theorem stepEvent_change (hnodup : (s.g.locks.map ELOCK.addr).Nodup) (e : Event) :
    Change s.g.locks (s.stepEvent w addPart e).g.locks := by
  unfold Session.stepEvent
  split
  · cases e with
    | packet p => exact serve_change hnodup p
    | createDir fl cbstr =>
        unfold serveEvent
        dsimp only
        split
        · exact .kept
        · next r hr =>
          obtain ⟨l, ⟨bs, hadds⟩, -, hmade⟩ := Run.adds_actCREATEDIR hr
          show Change s.g.locks r.g.locks
          rw [hadds.locks]
          cases l with
          | none => exact .kept
          | some l =>
              obtain ⟨at_, hat, hfilled⟩ := hmade l rfl
              have hnames := Global.lRootLocateDir_names hat
              exact .made hfilled.type hfilled.access (hnames.named hfilled.fullName hfilled.name)
    | onName a keeps =>
        unfold serveEvent
        dsimp only
        split
        · exact .kept
        · next r hr =>
          obtain ⟨bs, hadds⟩ := PathAction.adds_run keeps hr
          show Change s.g.locks r.g.locks
          rw [hadds.locks]
          exact .kept
  · exact .kept

end Session

end Anfs.Lock
