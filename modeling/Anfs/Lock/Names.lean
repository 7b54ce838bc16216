import Anfs.Lock.Handles
import Anfs.Lock.Objects

/-!
# Buffers for names

An action on names that deletes a variable at its exit frees a stray pointer if the variable is
not initialised and the directory is not found. A name that is too long costs a block. In every
other run of an action each buffer is freed once.
-/
namespace Anfs.Lock
open Anfs.Lib Anfs.Nfs Anfs.Path
open scoped List

/-- The run deleted no stray pointer, freed every buffer, and left nothing behind. -/
def Tidy {σ : Type} (r : Option (Run σ)) : Prop := ∃ s, r = some s ∧ s.held = [] ∧ s.leaks = 0

section Actions
variable {σ : Type} (w : ObjRequests σ)
  (addPart : List UInt8 → List UInt8 → Nat → Option (List UInt8))

/-- `LRootLocateDir` finds a directory. -/
def Finds (g : Global σ) (fl : Option Nat) (cbstr : List UInt8) : Prop :=
  (g.lRootLocateDir w.toWorld addPart fl cbstr).1.isOk

/-- The action deletes no variable that is not initialised, and no name that it looks up is too
long. -/
def Spared (g : Global σ) : PathAction → Prop
  | .deleteObject fl cbstr | .createDir fl cbstr => Finds w addPart g fl cbstr
  | .createObject fl cbstr type _ =>
      type = ST_BDEVICE ∨ type = ST_CDEVICE → Finds w addPart g fl cbstr
  | .renameObject fl₁ cbstr₁ fl₂ cbstr₂ =>
      g.nameTooLong addPart fl₁ cbstr₁ = false ∧
      (Finds w addPart g fl₁ cbstr₁ →
        ((Run.start g).lRootLocateDir w addPart fl₁ cbstr₁ .null).2.2.g.nameTooLong
          addPart fl₂ cbstr₂ =
          false)
  | .makeLink fl cbstr link =>
      (link.mode = LINK_SOFT → Finds w addPart g fl cbstr) ∧
      (link.mode = LINK_HARD → (link.fl.bind (lockLookup g.locks)).isSome →
        g.nameTooLong addPart fl cbstr = false)
  | .setProtect fl cbstr _ | .setDate fl cbstr _ | .setOwner fl cbstr _ |
      .getAttributes fl cbstr _ |
    .findInput fl cbstr | .findUpdate fl cbstr | .findOutput fl cbstr =>
      g.nameTooLong addPart fl cbstr = false

variable {w addPart} {g : Global σ} {s : Run σ} {fl : Option Nat} {cbstr : List UInt8}

/-- How the search for a directory ends. -/
theorem lRootLocateDir_cases (g : Global σ) (fl : Option Nat) (cbstr : List UInt8) :
    (∃ res2 g', g.lRootLocateDir w.toWorld addPart fl cbstr = (.error res2, g') ∧
      ¬ Finds w addPart g fl cbstr ∧
      (g'.heap.live.length - g.heap.live.length = 0 ↔ g.nameTooLong addPart fl cbstr = false)) ∨
    ∃ parDir d fullName g', g.lRootLocateDir w.toWorld addPart fl cbstr =
        (.ok ⟨parDir, some d, fullName⟩, g') ∧
      Finds w addPart g fl cbstr ∧ g.nameTooLong addPart fl cbstr = false := by
  obtain ⟨leak, hasked, hlong, hok⟩ := @Global.lRootLocateDir_asked σ w.toWorld addPart g fl cbstr
  unfold Finds
  generalize g.lRootLocateDir w.toWorld addPart fl cbstr = r at hasked hok ⊢
  obtain ⟨res2 | ⟨parDir, name, fullName⟩, g'⟩ := r
  · refine .inl ⟨res2, g', rfl, Bool.false_ne_true, ?_⟩
    have hlive : g'.heap.live ~ leak ++ g.heap.live := hasked.heap
    have hlen : g'.heap.live.length - g.heap.live.length = leak.length := by
      rw [hlive.length_eq, List.length_append, Nat.add_sub_cancel]
    rw [hlen, List.length_eq_zero_iff, ← Bool.not_eq_true, ← hlong, not_not]
  · obtain ⟨hnil, hname⟩ := hok _ rfl
    obtain ⟨d, rfl⟩ := Option.ne_none_iff_exists'.mp hname
    refine .inr ⟨parDir, d, fullName, g', rfl, rfl, ?_⟩
    rw [← Bool.not_eq_true, ← hlong, not_not]
    exact hnil

namespace Run

/-- `LRootLocateDir` hands out a buffer, or leaves the variable as it is. -/
theorem lRootLocateDir_spec (s : Run σ) (fl : Option Nat) (cbstr : List UInt8) (v : NameVar) :
    (∃ res2 s', s.lRootLocateDir w addPart fl cbstr v = (.error res2, v, s') ∧ s'.held = s.held ∧
      ¬ Finds w addPart s.g fl cbstr ∧
      (s'.leaks = s.leaks ↔ s.g.nameTooLong addPart fl cbstr = false)) ∨
    ∃ parDir d s', s.lRootLocateDir w addPart fl cbstr v = (.ok parDir, .ptr d, s') ∧
      s'.held = d.addr :: s.held ∧ s'.leaks = s.leaks ∧
      Finds w addPart s.g fl cbstr ∧ s.g.nameTooLong addPart fl cbstr = false := by
  unfold Run.lRootLocateDir
  obtain ⟨res2, g', hrun, hnot, hleak⟩ | ⟨parDir, d, fullName, g', hrun, hfinds, hlong⟩ :=
    @lRootLocateDir_cases σ w addPart s.g fl cbstr
  · rw [hrun]
    exact .inl ⟨res2, _, rfl, rfl, hnot, Nat.add_eq_left.trans hleak⟩
  · rw [hrun]
    exact .inr ⟨parDir, d, _, rfl, rfl, rfl, hfinds, hlong⟩

theorem lRootLocateBoth_spec (s : Run σ) (fl : Option Nat) (cbstr : List UInt8) (v₁ v₂ : NameVar) :
    (∃ res2 s', s.lRootLocateBoth w addPart fl cbstr v₁ v₂ = (.error res2, (v₁, v₂), s') ∧
      s'.held = s.held ∧ ¬ Finds w addPart s.g fl cbstr ∧
      (s'.leaks = s.leaks ↔ s.g.nameTooLong addPart fl cbstr = false)) ∨
    ∃ parDir d₁ d₂ s', s.lRootLocateBoth w addPart fl cbstr v₁ v₂ =
        (.ok parDir, (.ptr d₁, .ptr d₂), s') ∧
      s'.held = d₁.addr :: d₂.addr :: s.held ∧ s'.leaks = s.leaks ∧
      Finds w addPart s.g fl cbstr ∧ s.g.nameTooLong addPart fl cbstr = false := by
  unfold Run.lRootLocateBoth
  obtain ⟨res2, g', hrun, hnot, hleak⟩ | ⟨parDir, d, fullName, g', hrun, hfinds, hlong⟩ :=
    @lRootLocateDir_cases σ w addPart s.g fl cbstr
  · rw [hrun]
    exact .inl ⟨res2, _, rfl, rfl, hnot, Nat.add_eq_left.trans hleak⟩
  · rw [hrun]
    exact .inr ⟨parDir, fullName, d, _, rfl, rfl, rfl, hfinds, hlong⟩

/-- `fn_Delete` of a buffer that is held. -/
theorem fnDelete_ptr {d : Str} {held : List Nat} (hs : s.held ~ d.addr :: held) :
    ∃ s', s.fnDelete (.ptr d) = some s' ∧ s'.held ~ held ∧ s'.leaks = s.leaks ∧
      s'.g = { s.g with heap := Anfs.fnDelete s.g.heap (some d) } := by
  have hmem : d.addr ∈ s.held := hs.symm.subset (List.mem_cons_self ..)
  have herase := hs.erase d.addr
  rw [List.erase_cons_head] at herase
  unfold Run.fnDelete
  dsimp only
  rw [if_pos hmem]
  exact ⟨_, rfl, herase, rfl, rfl⟩

theorem tidy_fnDelete {d : Str} (hs : s.held = [d.addr]) (hl : s.leaks = 0) :
    Tidy (s.fnDelete (.ptr d)) := by
  obtain ⟨s', hrun, hheld, hleaks, -⟩ := fnDelete_ptr (List.Perm.of_eq hs)
  exact ⟨s', hrun, hheld.eq_nil, hleaks.trans hl⟩

theorem tidy_fnDelete_both {d₁ d₂ : Str} (hs : s.held ~ [d₁.addr, d₂.addr]) (hl : s.leaks = 0) :
    Tidy ((s.fnDelete (.ptr d₁)).bind fun s => s.fnDelete (.ptr d₂)) := by
  obtain ⟨s₁, hrun₁, hheld₁, hleaks₁, -⟩ := fnDelete_ptr hs
  obtain ⟨s₂, hrun₂, hheld₂, hleaks₂, -⟩ := fnDelete_ptr hheld₁
  rw [hrun₁]
  exact ⟨s₂, hrun₂, hheld₂.eq_nil, hleaks₂.trans (hleaks₁.trans hl)⟩

/-- An action that deleted everything is tidy if the search left nothing behind. -/
theorem tidy_some_iff (hs : s.held = []) : Tidy (some s) ↔ s.leaks = 0 := by
  constructor
  · rintro ⟨s', hs', -, hl⟩
    obtain rfl := Option.some.inj hs'
    exact hl
  · exact fun hl => ⟨s, rfl, hs, hl⟩

/-- An action that found no directory and has deleted what it had. -/
theorem tidy_setRes_iff (hs : s.held = []) (res2 : Int) :
    Tidy (some (s.setRes DOSFALSE res2)) ↔ s.leaks = 0 :=
  tidy_some_iff (s := s.setRes DOSFALSE res2) hs

theorem not_tidy_none : ¬ Tidy (none : Option (Run σ)) := by
  rintro ⟨s, hs, -⟩
  cases hs

section Members
variable (body : Nat → List UInt8 → Global σ → Global σ)

/-- With a variable that is not initialised. -/
theorem tidy_deleteAtExit_unset :
    Tidy ((start g).deleteAtExit w addPart fl cbstr .unset body) ↔ Finds w addPart g fl cbstr := by
  unfold deleteAtExit
  obtain ⟨res2, s', hrun, hheld, hnot, -⟩ | ⟨parDir, d, s', hrun, hheld, hleaks, hfinds, -⟩ :=
    @lRootLocateDir_spec σ w addPart (start g) fl cbstr .unset
  · rw [hrun]
    exact iff_of_false not_tidy_none hnot
  · rw [hrun]
    exact iff_of_true (tidy_fnDelete hheld hleaks) hfinds

/-- With a variable that is initialised. -/
theorem tidy_deleteAtExit_null :
    Tidy ((start g).deleteAtExit w addPart fl cbstr .null body) ↔
      g.nameTooLong addPart fl cbstr = false := by
  unfold deleteAtExit
  obtain ⟨res2, s', hrun, hheld, -, hlong⟩ | ⟨parDir, d, s', hrun, hheld, hleaks, -, hlong⟩ :=
    @lRootLocateDir_spec σ w addPart (start g) fl cbstr .null
  · rw [hrun]
    exact (tidy_setRes_iff hheld res2).trans hlong
  · rw [hrun]
    exact iff_of_true (tidy_fnDelete hheld hleaks) hlong

theorem tidy_deleteBeforeExit (v : NameVar) :
    Tidy ((start g).deleteBeforeExit w addPart fl cbstr v body) ↔
      g.nameTooLong addPart fl cbstr = false := by
  unfold deleteBeforeExit
  obtain ⟨res2, s', hrun, hheld, -, hlong⟩ | ⟨parDir, d, s', hrun, hheld, hleaks, -, hlong⟩ :=
    @lRootLocateDir_spec σ w addPart (start g) fl cbstr v
  · rw [hrun]
    exact (tidy_setRes_iff hheld res2).trans hlong
  · rw [hrun]
    exact iff_of_true (tidy_fnDelete hheld hleaks) hlong

theorem tidy_deleteBoth (body : Nat → List UInt8 → List UInt8 → Global σ → Global σ)
    (v₁ v₂ : NameVar) :
    Tidy ((start g).deleteBoth w addPart fl cbstr v₁ v₂ body) ↔
      g.nameTooLong addPart fl cbstr = false := by
  unfold deleteBoth
  obtain ⟨res2, s', hrun, hheld, -, hlong⟩ | ⟨parDir, d₁, d₂, s', hrun, hheld, hleaks, -, hlong⟩ :=
    @lRootLocateBoth_spec σ w addPart (start g) fl cbstr v₁ v₂
  · rw [hrun]
    exact (tidy_setRes_iff hheld res2).trans hlong
  · rw [hrun]
    have hperm : s'.held ~ [d₂.addr, d₁.addr] := hheld ▸ List.Perm.swap ..
    exact iff_of_true (tidy_fnDelete_both hperm hleaks) hlong

theorem tidy_actCREATEDIR :
    Tidy ((start g).actCREATEDIR w addPart fl cbstr) ↔ Finds w addPart g fl cbstr := by
  unfold actCREATEDIR
  obtain ⟨res2, s', hrun, hheld, hnot, -⟩ | ⟨parDir, d₁, d₂, s', hrun, hheld, hleaks, hfinds, -⟩ :=
    @lRootLocateBoth_spec σ w addPart (start g) fl cbstr .unset .unset
  · rw [hrun]
    exact iff_of_false not_tidy_none hnot
  · rw [hrun]
    exact iff_of_true (tidy_fnDelete_both (List.Perm.of_eq hheld) hleaks) hfinds

theorem tidy_actGETATTRIBUTES (tags : List TagItem) :
    Tidy (((start g).actGETATTRIBUTES w addPart fl cbstr tags).map fun r => r.1) ↔
      g.nameTooLong addPart fl cbstr = false := by
  unfold actGETATTRIBUTES
  obtain ⟨res2, s', hrun, hheld, -, hlong⟩ | ⟨parDir, d, s', hrun, hheld, hleaks, -, hlong⟩ :=
    @lRootLocateDir_spec σ w addPart (start g) fl cbstr .unset
  · rw [hrun]
    exact (tidy_setRes_iff hheld res2).trans hlong
  · rw [hrun]
    dsimp only
    rw [Option.map_map]
    have hdel :=
      tidy_fnDelete (s := s'.on fun _ => (s'.g.getAttributes w tags parDir d.text).1) hheld hleaks
    obtain ⟨s'', hdel, hrest⟩ := hdel
    exact iff_of_true ⟨s'', congrArg (Option.map _) hdel, hrest⟩ hlong

theorem tidy_actRENAMEOBJECT (fl₁ : Option Nat) (cbstr₁ : List UInt8) (fl₂ : Option Nat)
    (cbstr₂ : List UInt8) : Tidy ((start g).actRENAMEOBJECT w addPart fl₁ cbstr₁ fl₂ cbstr₂) ↔
      Spared w addPart g (.renameObject fl₁ cbstr₁ fl₂ cbstr₂) := by
  unfold actRENAMEOBJECT
  obtain ⟨res2, s₁, hrun, hheld, hnot, hlong⟩ |
    ⟨parDir₁, d₁, s₁, hrun, hheld, hleaks, hfinds, hlong⟩ :=
    @lRootLocateDir_spec σ w addPart (start g) fl₁ cbstr₁ .null
  · rw [hrun]
    have hboth : Tidy (some (s₁.setRes DOSFALSE res2)) ↔ g.nameTooLong addPart fl₁ cbstr₁ = false :=
      (tidy_setRes_iff hheld res2).trans hlong
    exact hboth.trans (and_iff_left fun h => absurd h hnot).symm
  · have hspared : Spared w addPart g (.renameObject fl₁ cbstr₁ fl₂ cbstr₂) ↔
        s₁.g.nameTooLong addPart fl₂ cbstr₂ = false := by
      have hs₁ : ((start g).lRootLocateDir w addPart fl₁ cbstr₁ .null).2.2 = s₁ := by rw [hrun]
      rw [← hs₁]
      exact ⟨fun h => h.2 hfinds, fun h => ⟨hlong, fun _ => h⟩⟩
    rw [hspared, hrun]
    dsimp only
    obtain ⟨res2, s₂, hrun₂, hheld₂, -, hlong₂⟩ |
      ⟨parDir₂, d₂, s₂, hrun₂, hheld₂, hleaks₂, -, hlong₂⟩ :=
      @lRootLocateDir_spec σ w addPart s₁ fl₂ cbstr₂ .null
    · rw [hrun₂]
      obtain ⟨s₃, hrun₃, hheld₃, hleaks₃, -⟩ :=
        fnDelete_ptr (s := s₂.setRes DOSFALSE res2) (List.Perm.of_eq (hheld₂.trans hheld))
      dsimp only
      rw [hrun₃]
      have hleak : s₃.leaks = 0 ↔ s₂.leaks = s₁.leaks := by
        rw [hleaks₃, hleaks]
        rfl
      exact ((tidy_some_iff hheld₃.eq_nil).trans hleak).trans hlong₂
    · rw [hrun₂]
      have hperm : s₂.held ~ [d₁.addr, d₂.addr] := by
        rw [hheld₂, hheld]
        exact List.Perm.swap ..
      exact iff_of_true (tidy_fnDelete_both hperm (hleaks₂.trans hleaks)) hlong₂

theorem tidy_actCREATEOBJECT (type : Int) (subtype1 : UInt32) :
    Tidy ((start g).actCREATEOBJECT w addPart fl cbstr type subtype1) ↔
      (type = ST_BDEVICE ∨ type = ST_CDEVICE → Finds w addPart g fl cbstr) := by
  unfold actCREATEOBJECT
  by_cases hdev : type = ST_BDEVICE ∨ type = ST_CDEVICE
  · rw [if_neg fun h => hdev.elim h.1 h.2]
    exact (tidy_deleteAtExit_unset _).trans ⟨fun h _ => h, fun h => h hdev⟩
  · rw [if_pos (not_or.mp hdev)]
    exact iff_of_true ⟨_, rfl, rfl, rfl⟩ fun h => absurd h hdev

theorem tidy_actMAKELINK (link : LinkArgs) :
    Tidy ((start g).actMAKELINK w addPart fl cbstr link) ↔
      (link.mode = LINK_SOFT → Finds w addPart g fl cbstr) ∧
      (link.mode = LINK_HARD → (link.fl.bind (lockLookup g.locks)).isSome →
        g.nameTooLong addPart fl cbstr = false) := by
  unfold actMAKELINK
  by_cases hsoft : link.mode = LINK_SOFT
  · have hhard : link.mode ≠ LINK_HARD := hsoft ▸ by decide
    rw [if_pos hsoft]
    refine (tidy_deleteAtExit_unset _).trans ?_
    exact ⟨fun h => ⟨fun _ => h, fun h' => absurd h' hhard⟩, fun h => h.1 hsoft⟩
  · rw [if_neg hsoft]
    by_cases hhard : link.mode = LINK_HARD
    · rw [if_pos hhard]
      unfold doActMAKEHARDLINK
      have hlocks : (start g).g.locks = g.locks := rfl
      rw [hlocks]
      cases link.fl.bind (lockLookup g.locks) with
      | none =>
          refine iff_of_true ⟨_, rfl, rfl, rfl⟩ ⟨fun h => absurd h hsoft, fun _ h => ?_⟩
          cases h
      | some destelock =>
          refine (tidy_deleteAtExit_null _).trans ?_
          exact ⟨fun h => ⟨fun h' => absurd h' hsoft, fun _ _ => h⟩, fun h => h.2 hhard rfl⟩
    · rw [if_neg hhard]
      exact iff_of_true ⟨_, rfl, rfl, rfl⟩ ⟨fun h => absurd h hsoft, fun h => absurd h hhard⟩

end Members

/-- The order in which both names are freed does not matter. -/
theorem fnDelete_both {d₁ d₂ : Str} (hs : s.held ~ [d₂.addr, d₁.addr]) :
    ((s.fnDelete (.ptr d₂)).bind fun s => s.fnDelete (.ptr d₁)).map (fun s => s.g) =
      some (s.g.deleteNames d₁ (some d₂)) := by
  obtain ⟨s₂, hrun₂, hheld₂, -, hg₂⟩ := fnDelete_ptr hs
  obtain ⟨s₁, hrun₁, -, -, hg₁⟩ := fnDelete_ptr hheld₂
  have hlive : (s.g.heap.live.erase d₂.addr).erase d₁.addr =
    (s.g.heap.live.erase d₁.addr).erase d₂.addr :=
    List.erase_comm ..
  rw [hrun₂, Option.bind_some, hrun₁, Option.map_some, hg₁, hg₂]
  unfold Global.deleteNames
  simp only [Anfs.fnDelete, Heap.free, hlive]

theorem actFINDREADWRITE_g (fileMode mode : Int) :
    ((start g).actFINDREADWRITE w addPart fl cbstr fileMode mode).map (fun s => s.g) =
      some (g.actFINDREADWRITE w.toRequests addPart fl cbstr fileMode mode).2 := by
  unfold actFINDREADWRITE deleteBoth lRootLocateBoth Global.actFINDREADWRITE
  have hstart : (start g).g = g := rfl
  rw [hstart]
  obtain ⟨res2, g', hrun, -, -⟩ | ⟨parDir, d, fullName, g', hrun, -, -⟩ :=
    @lRootLocateDir_cases σ w addPart g fl cbstr
  · rw [hrun]
    rfl
  · rw [hrun]
    refine (fnDelete_both (List.Perm.swap ..)).trans (congrArg some ?_)
    simp only [on, Global.findReadWrite, NameVar.text, NameVar.ofPtr,
      Global.textOf, Option.map_some,
      Option.getD_some]
    generalize g'.findOrCreate w.toRequests _ _ _ = r
    obtain ⟨res2 | dres, g₁⟩ := r
    · rfl
    · dsimp only
      generalize g₁.openFound dres _ _ _ _ = o
      obtain ⟨res2 | id, g₂⟩ := o
      · rfl
      · rfl

theorem actFINDOUTPUT_g :
    ((start g).actFINDOUTPUT w addPart fl cbstr).map (fun s => s.g) =
      some (g.actFINDOUTPUT w.toRequests addPart fl cbstr).2 := by
  unfold actFINDOUTPUT deleteBoth lRootLocateBoth Global.actFINDOUTPUT
  have hstart : (start g).g = g := rfl
  rw [hstart]
  obtain ⟨res2, g', hrun, -, -⟩ | ⟨parDir, d, fullName, g', hrun, -, -⟩ :=
    @lRootLocateDir_cases σ w addPart g fl cbstr
  · rw [hrun]
    rfl
  · rw [hrun]
    refine (fnDelete_both (List.Perm.swap ..)).trans (congrArg some ?_)
    simp only [on, Global.findOutput, NameVar.text, NameVar.ofPtr, Global.textOf, Option.map_some,
      Option.getD_some]
    generalize g'.replaceFile w.toRequests _ _ = r
    obtain ⟨res2 | dres, g₁⟩ := r
    · rfl
    · dsimp only
      generalize g₁.openCreated dres _ _ = o
      obtain ⟨res2 | id, g₂⟩ := o
      · rfl
      · rfl

end Run

/-- An action on names frees every buffer once and no stray pointer, and nothing is left behind,
exactly if it is spared. -/
theorem tidy_iff (w : ObjRequests σ) (addPart : List UInt8 → List UInt8 → Nat → Option (List UInt8))
    (g : Global σ) (a : PathAction) :
    Tidy (a.run w addPart (Run.start g)) ↔ Spared w addPart g a := by
  cases a with
  | deleteObject fl cbstr => exact Run.tidy_deleteAtExit_unset _
  | createDir fl cbstr => exact Run.tidy_actCREATEDIR
  | renameObject fl₁ cbstr₁ fl₂ cbstr₂ => exact Run.tidy_actRENAMEOBJECT fl₁ cbstr₁ fl₂ cbstr₂
  | createObject fl cbstr type subtype1 => exact Run.tidy_actCREATEOBJECT type subtype1
  | setProtect fl cbstr mask => exact Run.tidy_deleteBeforeExit _ _
  | setDate fl cbstr ds => exact Run.tidy_deleteBeforeExit _ _
  | setOwner fl cbstr ownerGroup => exact Run.tidy_deleteBeforeExit _ _
  | getAttributes fl cbstr tags => exact Run.tidy_actGETATTRIBUTES tags
  | makeLink fl cbstr link => exact Run.tidy_actMAKELINK link
  | findInput fl cbstr => exact Run.tidy_deleteBoth _ _ _
  | findUpdate fl cbstr => exact Run.tidy_deleteBoth _ _ _
  | findOutput fl cbstr => exact Run.tidy_deleteBoth _ _ _

end Actions

open Session in
/-- A disk that refuses what is asked of names. -/
def diskRequests : ObjRequests Disk :=
  { diskWorld with
    mkDir := fun d _ _ _ _ _ => (.error errorObjectExists, d)
    rmDir := fun d _ _ => (.error errorObjectNotFound, d)
    rename := fun d _ _ _ _ => (.error errorObjectNotFound, d)
    link := fun d _ _ _ => (.error errorObjectExists, d)
    symlink := fun d _ _ _ _ _ => (.error errorObjectExists, d)
    chmod := fun d _ _ => (.error errorObjectNotFound, d)
    setTimes := fun d _ _ => (.error errorObjectNotFound, d)
    setUidGid := fun d _ _ _ => (.error errorObjectNotFound, d)
    protection2umode := id }

/-- "a" is to be deleted below a lock that is not in the list: `Name` is freed as it is. A name
of 107 characters is looked up: a block stays behind. -/
theorem not_tidy_mounted :
    ¬ Tidy ((PathAction.deleteObject (some 5) [97]).run diskRequests dosAddPart
      (Run.start (Session.mounted [] some))) ∧
    ¬ Tidy ((PathAction.findInput none (List.replicate 107 97)).run diskRequests dosAddPart
      (Run.start (Session.mounted [] some))) := by
  have hstray : (PathAction.deleteObject (some 5) [97]).run diskRequests dosAddPart
      (Run.start (Session.mounted [] some)) = none := rfl
  have hleak : ((PathAction.findInput none (List.replicate 107 97)).run diskRequests dosAddPart
      (Run.start (Session.mounted [] some))).map (fun s => s.leaks) = some 1 := by decide +kernel
  constructor
  · rw [hstray]
    exact Run.not_tidy_none
  · rintro ⟨s, hs, -, hl⟩
    rw [hs, Option.map_some, hl] at hleak
    cases hleak

end Anfs.Lock
