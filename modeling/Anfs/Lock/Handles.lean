import Anfs.Lib.Buckets
import Anfs.Lib.Listing
import Anfs.Lib.Run
import Anfs.Lock.Added
import Anfs.Tree.ReadLink

/-!
# Handles own their locks

The handler together with the locks that its clients hold. A client passes to `FREE_LOCK` and
`FH_FROM_LOCK` locks that it holds; it holds a lock from the reply that grants it until one of
these two takes it. Then the lists of handles and locks stay in step through every action,
wherever it fails.
-/
namespace Anfs.Lock
open Anfs.Cache Anfs.Lib Anfs.Nfs Anfs.Path Anfs.Tree Anfs.Xdr
open scoped List

/-- The packets that are about locks and handles; `finish` is `ACTION_END`. -/
inductive Packet
  | findInput (fl : Option Nat) (cbstr : List UInt8)
  | findUpdate (fl : Option Nat) (cbstr : List UInt8)
  | findOutput (fl : Option Nat) (cbstr : List UInt8)
  | fhFromLock (fl : Option Nat)
  | finish (arg1 : Int)
  | locateObject (fl : Option Nat) (cbstr : List UInt8) (mode : Int)
  | freeLock (fl : Option Nat)
  | copyDir (fl : Option Nat)
  | copyDirFh (arg1 : Int)
  | parent (fl : Option Nat)
  | parentFh (arg1 : Int)
  | changeMode (objType object newMode : Int)
  | die

/-- The handler, the locks that clients hold, and the number of handles created so far. -/
structure Session (σ : Type) where
  g : Global σ
  held : List Nat
  created : Nat

namespace Session

variable {σ : Type}

/-- The reply to a packet that opens a file. -/
def opened (s : Session σ) (r : Option Int × Global σ) : Session σ :=
  { s with g := r.2, created := s.created + r.1.toList.length }

/-- The reply to a packet that asks for a lock. -/
def granted (s : Session σ) (g : Global σ) : Session σ :=
  { s with g, held := (Global.granted g.gRes1).toList ++ s.held }

/-- The lock that a client gives up. -/
def without (s : Session σ) (fl : Option Nat) : List Nat := s.held.filter fun a => fl ≠ some a

section Step
variable (w : Requests σ) (addPart : List UInt8 → List UInt8 → Nat → Option (List UInt8))

/-- What the handler does with a packet while it runs. -/
def serve (s : Session σ) : Packet → Session σ
  | .findInput fl cbstr => s.opened (s.g.actFINDINPUT w addPart fl cbstr)
  | .findUpdate fl cbstr => s.opened (s.g.actFINDUPDATE w addPart fl cbstr)
  | .findOutput fl cbstr => s.opened (s.g.actFINDOUTPUT w addPart fl cbstr)
  | .fhFromLock fl =>
      let r := s.g.actFHFROMLOCK w fl
      { s.opened r with held := if r.1.isSome then s.without fl else s.held }
  | .finish arg1 => { s with g := s.g.actEND w arg1 }
  | .locateObject fl cbstr mode => s.granted (s.g.actLOCATEOBJECT w addPart fl cbstr mode)
  | .freeLock fl => { s with g := s.g.actFREELOCK fl, held := s.without fl }
  | .copyDir fl => s.granted (s.g.actCOPYDIR fl)
  | .copyDirFh arg1 => s.granted (s.g.actCOPYDIRFH arg1)
  | .parent fl => s.granted (s.g.actPARENT w addPart fl)
  | .parentFh arg1 => s.granted (s.g.actPARENTFH w addPart arg1)
  | .changeMode objType object newMode => { s with g := s.g.actCHANGEMODE objType object newMode }
  | .die => { s with g := s.g.actDIE }

/-- The main loop ends when the handler is stopped. -/
def step (s : Session σ) (p : Packet) : Session σ := if s.g.running then s.serve w addPart p else s

end Step

/-- The rule for clients: a lock that is given to `FREE_LOCK` or `FH_FROM_LOCK` is one they hold. -/
def Obeys (s : Session σ) : Packet → Prop
  | .fhFromLock (some fl) => fl ∈ s.held
  | .freeLock (some fl) => fl ∈ s.held
  | _ => True

instance (s : Session σ) : ∀ p, Decidable (s.Obeys p)
  | .fhFromLock (some _) => List.instDecidableMemOfLawfulBEq ..
  | .freeLock (some _) => List.instDecidableMemOfLawfulBEq ..
  | .fhFromLock none | .freeLock none => .isTrue trivial
  | .findInput .. | .findUpdate .. | .findOutput .. | .finish _ | .locateObject .. =>
      .isTrue trivial
  | .copyDir _ | .copyDirFh _ | .parent _ | .parentFh _ | .changeMode .. | .die => .isTrue trivial

/-- The handler when it has been started. -/
structure Started (g : Global σ) : Prop where
  locks : g.locks = []
  files : g.files = []
  lastId : g.lastId = 0
  running : g.running = true

/-- The blocks of the two lists. -/
def blocks (g : Global σ) : List Nat :=
  (g.locks.flatMap fun l => lockBlocks (some l)) ++ g.files.map EFH.addr

/-- The invariant of a session with the locks that clients hold. -/
structure Sound (s : Session σ) : Prop where
  lastId : s.g.lastId = s.created
  ids : ∀ f ∈ s.g.files, 0 < f.efhId ∧ f.efhId ≤ s.g.lastId
  idNodup : (s.g.files.map EFH.efhId).Nodup
  fileNodup : (s.g.files.map EFH.addr).Nodup
  lockNodup : (s.g.locks.map ELOCK.addr).Nodup
  efhELock : ∀ f ∈ s.g.files, f.efhELock ∈ s.g.locks.map ELOCK.addr
  ownNodup : (s.g.files.map EFH.efhELock).Nodup
  held : ∀ a ∈ s.held, a ∈ s.g.locks.map ELOCK.addr
  apart : ∀ f ∈ s.g.files, f.efhELock ∉ s.held
  covers : s.g.heap.Covers (blocks s.g)
  stopped : s.g.running = false → s.g.locks = [] ∧ s.g.files = []

variable {s : Session σ}

theorem sound_start {g : Global σ} (hg : Started g) : Sound ⟨g, [], 0⟩ := by
  obtain ⟨hlocks, hfiles, hlast, -⟩ := hg
  refine ⟨hlast, ?_, ?_, ?_, ?_, ?_, ?_, List.forall_mem_nil _, ?_, ?_, fun _ => ⟨hlocks, hfiles⟩⟩
  all_goals simp [blocks, hlocks, hfiles, Heap.covers_nil]

/-- The locks of the list are blocks in use. -/
theorem Sound.live (h : s.Sound) {l : ELOCK} (hl : l ∈ s.g.locks) : l.addr ∈ s.g.heap.live := by
  refine h.covers.subset (List.mem_append_left _ (List.mem_flatMap.mpr ⟨l, hl, ?_⟩))
  simp

theorem Sound.notMem_locks (h : s.Sound) {a : Nat} (ha : a ∉ s.g.heap.live) :
    a ∉ s.g.locks.map ELOCK.addr := by
  rintro hmem
  obtain ⟨l, hl, rfl⟩ := List.mem_map.mp hmem
  exact ha (h.live hl)

theorem Sound.notMem_files (h : s.Sound) {a : Nat} (ha : a ∉ s.g.heap.live) :
    a ∉ s.g.files.map EFH.addr :=
  fun hmem => ha (h.covers.subset (List.mem_append_right _ hmem))

/-- The number of a new handle. -/
theorem Sound.lastId_adds (h : s.Sound) {g : Global σ} {l : Option ELOCK}
    {f : Option EFH} {bs : List Nat}
    (ha : s.g.Adds g l f bs) (hn : s.created + f.toList.length ≤ 2147483647) :
    g.lastId = s.g.lastId + f.toList.length := by
  have hbefore := h.lastId
  rw [ha.lastId]
  cases f with
  | none => simp
  | some f =>
      rw [Option.toList_some, List.length_singleton] at hn
      have hlong : IsLong (s.g.lastId + 1) := by
        constructor
        all_goals omega
      simp [long_of_isLong hlong]

/-- What is added is new, and the counter does not wrap. -/
theorem Sound.adds (h : s.Sound) (hrun : s.g.running = true) {g : Global σ} {l : Option ELOCK}
    {f : Option EFH} {bs held : List Nat} {created : Nat} (ha : s.g.Adds g l f bs)
    (hcreated : created = s.created + f.toList.length) (hn : created ≤ 2147483647)
    (hheld : ∀ a ∈ held, a ∈ s.held ∨ ∃ l' ∈ l, a = l'.addr)
    (hown : ∀ f' ∈ f, f'.efhELock ∈ (l.toList ++ s.g.locks).map ELOCK.addr ∧
      f'.efhELock ∉ s.g.files.map EFH.efhELock ∧ f'.efhELock ∉ held) :
        Sound ⟨g, held, created⟩ := by
  have hlast := h.lastId_adds ha (hcreated ▸ hn)
  have hid : ∀ f' ∈ f, f'.efhId = s.g.lastId + 1 := by
    intro f' hf'
    obtain rfl : f = some f' := hf'
    rw [ha.id f' rfl, hlast]
    rfl
  have hbefore := h.lastId
  refine ⟨?_, ?_, ?_, ?_, ?_, ?_, ?_, ?_, ?_, ?_, ?_⟩
  all_goals dsimp only
  · rw [hlast, hbefore, hcreated]
    rfl
  · intro f' hf'
    rw [ha.files] at hf'
    rcases List.mem_append.mp hf' with hnew | hold
    · have hnum := hid f' (Option.mem_toList.mp hnew)
      have hlen := List.length_pos_of_mem hnew
      omega
    · have hnum := h.ids f' hold
      omega
  · rw [ha.files]
    refine nodup_map_toList_append h.idNodup fun f' hf' hold => ?_
    obtain ⟨f₀, hf₀, heq⟩ := List.mem_map.mp hold
    have hnum := hid f' hf'
    have hle := (h.ids f₀ hf₀).2
    omega
  · rw [ha.files]
    exact nodup_map_toList_append h.fileNodup fun f' hf' => h.notMem_files (ha.freshFile f' hf')
  · rw [ha.locks]
    exact nodup_map_toList_append h.lockNodup fun l' hl' => h.notMem_locks (ha.freshLock l' hl')
  · intro f' hf'
    rw [ha.files] at hf'
    rw [ha.locks]
    rcases List.mem_append.mp hf' with hnew | hold
    · exact (hown f' (Option.mem_toList.mp hnew)).1
    · rw [List.map_append]
      exact List.mem_append_right _ (h.efhELock f' hold)
  · rw [ha.files]
    exact nodup_map_toList_append h.ownNodup fun f' hf' => (hown f' hf').2.1
  · intro a hmem
    rw [ha.locks, List.map_append]
    rcases hheld a hmem with hold | ⟨l', hl', rfl⟩
    · exact List.mem_append_right _ (h.held a hold)
    · exact List.mem_append_left _ (List.mem_map_of_mem (Option.mem_toList.mpr hl'))
  · intro f' hf' hmem
    rw [ha.files] at hf'
    rcases List.mem_append.mp hf' with hnew | hold
    · exact (hown f' (Option.mem_toList.mp hnew)).2.2 hmem
    · rcases hheld _ hmem with hheld | ⟨l', hl', haddr⟩
      · exact h.apart f' hold hheld
      · exact h.notMem_locks (ha.freshLock l' hl') (haddr ▸ h.efhELock f' hold)
  · have hall := h.covers.owns ha.heap
    rw [List.append_assoc] at hall
    refine hall.drop.perm ?_
    dsimp only [blocks]
    rw [ha.locks, ha.files, List.perm_iff_count]
    intro a
    cases l <;> cases f <;> simp [List.count_cons] <;> omega
  · intro hstop
    rw [ha.running, hrun] at hstop
    cases hstop

theorem Sound.opened (h : s.Sound) (hrun : s.g.running = true)
    {r : Option Int × Global σ} {bs : List Nat}
    (ho : s.g.Opens r.2 r.1 bs) (hn : (s.opened r).created ≤ 2147483647) : (s.opened r).Sound := by
  obtain ⟨l, f, ha, hid, hlock⟩ := ho
  have hcreated : (s.opened r).created = s.created + f.toList.length := by
    unfold Session.opened
    rw [← hid]
    cases f <;> rfl
  refine h.adds hrun ha hcreated hn (fun a hmem => .inl hmem) fun f' hf' => ?_
  obtain rfl : f = some f' := hf'
  obtain ⟨l', rfl, haddr⟩ := Option.map_eq_some_iff.mp hlock.symm
  rw [← haddr]
  refine ⟨List.mem_cons_self, fun hmem => ?_, fun hmem => ?_⟩
  · obtain ⟨f₀, hf₀, heq⟩ := List.mem_map.mp hmem
    exact h.notMem_locks (ha.freshLock l' rfl) (heq ▸ h.efhELock f₀ hf₀)
  · exact h.notMem_locks (ha.freshLock l' rfl) (h.held _ hmem)

theorem Sound.granted (h : s.Sound) (hrun : s.g.running = true) {g : Global σ} (hg : s.g.Grants g)
    (hn : s.created ≤ 2147483647) : (s.granted g).Sound := by
  obtain ⟨l, bs, ha, hres⟩ := hg
  refine h.adds hrun ha rfl hn (fun a hmem => ?_) fun f' hf' => absurd hf' (by simp)
  rcases List.mem_append.mp hmem with hnew | hold
  · rw [hres] at hnew
    obtain ⟨l', hl', rfl⟩ := Option.map_eq_some_iff.mp (Option.mem_toList.mp hnew)
    exact .inr ⟨l', hl', rfl⟩
  · exact .inl hold

/-- A lock and perhaps its handle go. -/
theorem Sound.removes (h : s.Sound) (hrun : s.g.running = true) {g : Global σ}
    {l : ELOCK} {f : Option EFH}
    {held : List Nat} (hlocks : s.g.locks ~ l :: g.locks) (hfiles : s.g.files ~ f.toList ++ g.files)
    (hlast : g.lastId = s.g.lastId) (hstill : g.running = s.g.running)
    (hown : ∀ f' ∈ g.files, f'.efhELock ≠ l.addr) (hheld : ∀ a ∈ held, a ∈ s.held ∧ a ≠ l.addr)
    (hcovers : g.heap.Covers (blocks g)) : Sound ⟨g, held, s.created⟩ := by
  have hsub : ∀ f' ∈ g.files, f' ∈ s.g.files := fun f' hf' =>
    hfiles.symm.subset (List.mem_append_right _ hf')
  have hnodup : ∀ {α : Type} (key : EFH → α), (s.g.files.map key).Nodup →
      (g.files.map key).Nodup := by
    intro α key hkey
    have hall := (hfiles.map key).nodup_iff.mp hkey
    rw [List.map_append] at hall
    exact (List.nodup_append.mp hall).2.1
  have hother : ∀ {a}, a ∈ s.g.locks.map ELOCK.addr → a ≠ l.addr → a ∈ g.locks.map ELOCK.addr := by
    intro a hmem hne
    have hall := (hlocks.map ELOCK.addr).subset hmem
    exact (List.mem_cons.mp hall).resolve_left hne
  refine ⟨?_, ?_, hnodup _ h.idNodup, hnodup _ h.fileNodup, ?_, ?_, hnodup _ h.ownNodup,
    ?_, ?_, hcovers, ?_⟩
  all_goals dsimp only
  · rw [hlast, h.lastId]
  · intro f' hf'
    rw [hlast]
    exact h.ids f' (hsub f' hf')
  · exact (List.nodup_cons.mp ((hlocks.map ELOCK.addr).nodup_iff.mp h.lockNodup)).2
  · exact fun f' hf' => hother (h.efhELock f' (hsub f' hf')) (hown f' hf')
  · exact fun a hmem => hother (h.held a (hheld a hmem).1) (hheld a hmem).2
  · exact fun f' hf' hmem => h.apart f' (hsub f' hf') (hheld _ hmem).1
  · intro hstop
    rw [hstill, hrun] at hstop
    cases hstop

/-- `lock_Remove` of a lock of the list. -/
theorem lockRemove_perm {locks : List ELOCK} {fl : Nat} (hmem : fl ∈ locks.map ELOCK.addr) :
    ∃ l, lockRemove locks fl = (some l, (lockRemove locks fl).2) ∧ l.addr = fl ∧
      locks ~ l :: (lockRemove locks fl).2 := by
  obtain ⟨l, hfind⟩ : ∃ l, lockLookup locks fl = some l := by
    refine Option.isSome_iff_exists.mp (List.find?_isSome.mpr ?_)
    obtain ⟨l, hl, haddr⟩ := List.mem_map.mp hmem
    exact ⟨l, hl, by simpa using haddr⟩
  refine ⟨l, Prod.ext hfind rfl, by simpa using List.find?_some hfind, find?_perm_eraseP hfind⟩

/-- The blocks of a lock and of a handle are given back. -/
theorem covers_removed {g : Global σ} {locks : List ELOCK} {files : List EFH}
    {l : ELOCK} {f : Option EFH}
    (hc : g.heap.Covers (blocks g)) (hlocks : g.locks ~ l :: locks)
    (hfiles : g.files ~ f.toList ++ files) :
    g.heap.Covers (l.fullName.addr :: l.name.addr :: l.addr :: (fileBlock f ++
      ((locks.flatMap fun l => lockBlocks (some l)) ++ files.map EFH.addr))) := by
  refine hc.perm ?_
  have hall := (hlocks.flatMap_right fun l => lockBlocks (some l)).append (hfiles.map EFH.addr)
  refine List.Perm.trans hall ?_
  rw [List.perm_iff_count]
  intro a
  cases f <;> simp [List.count_cons] <;> omega

/-- What `act_END` does to a handle of the list and to its lock. -/
theorem actEND_eq {w : Requests σ} {g : Global σ} {arg1 : Int} {efh : EFH} {l : ELOCK}
    {locks : List ELOCK}
    (hlook : fhLookup g.files arg1 = some efh)
    (hremove : lockRemove g.locks efh.efhELock = (some l, locks)) :
    ∃ res1 res2, g.actEND w arg1 = { g.setEnv (w.flush g.caches.env efh.addr).2 with
      locks, files := fhRemove g.files efh, heap := (lockDelete g.heap (some l)).free efh.addr
      gRes1 := res1, gRes2 := res2 } := by
  have hlocks : (g.setEnv (w.flush g.caches.env efh.addr).2).locks = g.locks := rfl
  unfold Global.actEND
  rw [hlook]
  dsimp only
  rw [hlocks, hremove]
  split
  · exact ⟨_, _, rfl⟩
  · exact ⟨_, _, rfl⟩

theorem Sound.actEND {w : Requests σ} (h : s.Sound) (hrun : s.g.running = true) (arg1 : Int) :
    Sound ⟨s.g.actEND w arg1, s.held, s.created⟩ := by
  cases hlook : fhLookup s.g.files arg1 with
  | none =>
      have hstay : s.g.actEND w arg1 = s.g.setRes DOSFALSE errorFileNotObject := by
        unfold Global.actEND
        rw [hlook]
      rw [hstay]
      exact { h with }
  | some efh =>
      have hmem := List.mem_of_find?_eq_some hlook
      obtain ⟨l, hremove, haddr, hlocks⟩ := lockRemove_perm (h.efhELock efh hmem)
      have hfiles : s.g.files ~ (some efh).toList ++ fhRemove s.g.files efh :=
        find?_perm_eraseP (find?_eq_of_mem h.fileNodup hmem)
      obtain ⟨res1, res2, hend⟩ := actEND_eq (w := w) hlook hremove
      rw [hend]
      refine h.removes hrun hlocks hfiles rfl rfl (fun f' hf' => ?_) (fun a ha => ⟨ha, ?_⟩)
        (covers_removed h.covers hlocks hfiles).free.free.free.free
      · have howns := (hfiles.map EFH.efhELock).nodup_iff.mp h.ownNodup
        rw [haddr]
        exact fun heq => (List.nodup_cons.mp howns).1 (heq ▸ List.mem_map_of_mem hf')
      · rw [haddr]
        exact fun heq => h.apart efh hmem (heq ▸ ha)

theorem Sound.actFREELOCK (h : s.Sound) (hrun : s.g.running = true) {fl : Option Nat}
    (hobeys : s.Obeys (.freeLock fl)) : Sound ⟨s.g.actFREELOCK fl, s.without fl, s.created⟩ := by
  cases fl with
  | none =>
      have hall : s.without none = s.held := List.filter_eq_self.mpr fun a _ => by simp
      rw [hall]
      exact { h with }
  | some fl =>
      have hheld : fl ∈ s.held := hobeys
      obtain ⟨l, hremove, haddr, hlocks⟩ := lockRemove_perm (h.held fl hheld)
      have hlook : lockLookup s.g.locks fl = some l := congrArg Prod.fst hremove
      have hfree : s.g.actFREELOCK (some fl) = { s.g with
          locks := (lockRemove s.g.locks fl).2, heap :=
            lockDelete s.g.heap (some l) }.setRes1 DOSTRUE := by
        unfold Global.actFREELOCK
        dsimp only
        rw [hlook]
        dsimp only
        rw [haddr, hremove]
      rw [hfree]
      have hfiles : s.g.files ~ (none : Option EFH).toList ++ s.g.files := List.Perm.refl _
      refine h.removes hrun hlocks hfiles rfl rfl (fun f' hf' => ?_) (fun a ha => ?_)
        (covers_removed h.covers hlocks hfiles).free.free.free
      · rw [haddr]
        exact fun heq => h.apart f' hf' (heq ▸ hheld)
      · obtain ⟨hold, hne⟩ := List.mem_filter.mp ha
        rw [haddr]
        exact ⟨hold, fun heq => by simp [heq] at hne⟩

theorem Sound.actFHFROMLOCK {w : Requests σ} (h : s.Sound) (hrun : s.g.running = true)
    {fl : Option Nat}
    (hobeys : s.Obeys (.fhFromLock fl))
    (hn : (s.opened (s.g.actFHFROMLOCK w fl)).created ≤ 2147483647) :
    Sound { s.opened (s.g.actFHFROMLOCK w fl) with
      held := if (s.g.actFHFROMLOCK w fl).1.isSome then s.without fl else s.held } := by
  obtain ⟨f, ha, hid, hown⟩ := Global.actFHFROMLOCK_adds (w := w) s.g fl
  have hcreated : (s.opened (s.g.actFHFROMLOCK w fl)).created = s.created + f.toList.length := by
    unfold Session.opened
    rw [← hid]
    cases f <;> rfl
  refine h.adds hrun ha hcreated hn (fun a hmem => .inl ?_) fun f' hf' => ?_
  · split at hmem
    · exact (List.mem_filter.mp hmem).1
    · exact hmem
  · obtain ⟨rfl, hlook⟩ := hown f' hf'
    obtain rfl : f = some f' := hf'
    have hheld : f'.efhELock ∈ s.held := hobeys
    refine ⟨h.held _ hheld, fun hmem => ?_, ?_⟩
    · obtain ⟨f₀, hf₀, heq⟩ := List.mem_map.mp hmem
      exact h.apart f₀ hf₀ (heq ▸ hheld)
    · rw [← hid]
      simp [Session.without]

/-- `act_CHANGE_MODE` changes the access of a lock and nothing that the lists rest on. -/
theorem actCHANGEMODE_cases (g : Global σ) (objType object newMode : Int) :
    ∃ (fill : ELOCK → ELOCK) (res1 :
      Res1) (res2 : Int), (∀ l, lockBlocks (some (fill l)) = lockBlocks (some l)) ∧
      g.actCHANGEMODE objType object newMode =
        { g with locks := g.locks.map fill, gRes1 := res1, gRes2 := res2 } := by
  have hsame : ∀ res1 res2, ∃ (fill : ELOCK → ELOCK) (res1' : Res1) (res2' : Int),
      (∀ l, lockBlocks (some (fill l)) = lockBlocks (some l)) ∧
        g.setRes res1 res2 = { g with locks := g.locks.map fill, gRes1 := res1', gRes2 :=
          res2' } := by
    intro res1 res2
    refine ⟨fun l => l, res1, res2, fun _ => rfl, ?_⟩
    rw [List.map_id']
    rfl
  have hchange : ∀ elock : ELOCK, ∃ (fill : ELOCK → ELOCK) (res1 : Res1) (res2 : Int),
      (∀ l, lockBlocks (some (fill l)) = lockBlocks (some l)) ∧ g.changeAccess elock newMode =
        { g with locks := g.locks.map fill, gRes1 := res1, gRes2 := res2 } := by
    intro elock
    unfold Global.changeAccess
    split
    · exact hsame DOSTRUE g.gRes2
    · split
      · exact hsame DOSFALSE errorObjectInUse
      · refine ⟨_, DOSTRUE, g.gRes2, fun l => ?_, rfl⟩
        split
        · rfl
        · rfl
  unfold Global.actCHANGEMODE
  split
  · exact hsame DOSFALSE errorObjectWrongType
  split
  · split
    · exact hsame DOSFALSE errorFileNotObject
    · split
      · exact hsame g.gRes1 g.gRes2
      · exact hchange _
  split
  · split
    · exact hsame DOSFALSE errorFileNotObject
    · exact hchange _
  · exact hsame g.gRes1 g.gRes2

theorem Sound.actCHANGEMODE (h : s.Sound) (objType object newMode : Int) :
    Sound { s with g := s.g.actCHANGEMODE objType object newMode } := by
  obtain ⟨fill, res1, res2, hfill, hchange⟩ := actCHANGEMODE_cases s.g objType object newMode
  have haddr : (s.g.locks.map fill).map ELOCK.addr = s.g.locks.map ELOCK.addr := by
    rw [List.map_map]
    exact List.map_congr_left fun l _ => (List.cons.inj (hfill l)).1
  have hblocks : ((s.g.locks.map fill).flatMap fun l => lockBlocks (some l)) =
      s.g.locks.flatMap fun l => lockBlocks (some l) := by
    rw [List.flatMap_map]
    exact congrArg (List.flatMap · s.g.locks) (funext hfill)
  rw [hchange]
  exact { h with
    lockNodup := by
      dsimp only
      rw [haddr]
      exact h.lockNodup
    efhELock := by
      dsimp only
      rw [haddr]
      exact h.efhELock
    held := by
      dsimp only
      rw [haddr]
      exact h.held
    covers := by
      dsimp only [blocks]
      rw [hblocks]
      exact h.covers
    stopped := fun hstop => ⟨by simp [(h.stopped hstop).1], (h.stopped hstop).2⟩ }

theorem Sound.actDIE (h : s.Sound) : Sound { s with g := s.g.actDIE } := by
  unfold Global.actDIE
  split
  · next hempty => exact { h with stopped := fun _ => hempty }
  · exact { h with }

variable {w : Requests σ} {addPart : List UInt8 → List UInt8 → Nat → Option (List UInt8)}

theorem created_le_serve (s : Session σ) (p : Packet) :
    s.created ≤ (s.serve w addPart p).created := by
  cases p with
  | findInput fl cbstr => exact Nat.le_add_right _ _
  | findUpdate fl cbstr => exact Nat.le_add_right _ _
  | findOutput fl cbstr => exact Nat.le_add_right _ _
  | fhFromLock fl => exact Nat.le_add_right _ _
  | _ => exact Nat.le_refl _

theorem created_le_step (s : Session σ) (p : Packet) :
    s.created ≤ (s.step w addPart p).created := by
  unfold Session.step
  split
  · exact created_le_serve s p
  · exact Nat.le_refl _

/-- One packet keeps the invariant. -/
theorem Sound.serve (h : s.Sound) (hrun : s.g.running = true) {p : Packet} (hobeys : s.Obeys p)
    (hn : (s.serve w addPart p).created ≤ 2147483647) : (s.serve w addPart p).Sound := by
  have hbefore : s.created ≤ 2147483647 := Nat.le_trans (created_le_serve s p) hn
  cases p with
  | findInput fl cbstr =>
      obtain ⟨bs, ho⟩ := @Global.actFINDREADWRITE_opens σ w addPart s.g fl cbstr MODE_OLDFILE
        SHARED_LOCK
      exact h.opened hrun ho hn
  | findUpdate fl cbstr =>
      obtain ⟨bs, ho⟩ := @Global.actFINDREADWRITE_opens σ w addPart s.g fl cbstr
        MODE_READWRITE EXCLUSIVE_LOCK
      exact h.opened hrun ho hn
  | findOutput fl cbstr =>
      obtain ⟨bs, ho⟩ := @Global.actFINDOUTPUT_opens σ w addPart s.g fl cbstr fun l hl =>
        h.live hl
      exact h.opened hrun ho hn
  | fhFromLock fl => exact h.actFHFROMLOCK hrun hobeys hn
  | finish arg1 => exact h.actEND hrun arg1
  | locateObject fl cbstr mode =>
      exact h.granted hrun (Global.actLOCATEOBJECT_grants s.g fl cbstr mode) hbefore
  | freeLock fl => exact h.actFREELOCK hrun hobeys
  | copyDir fl => exact h.granted hrun (Global.actCOPYDIR_grants s.g fl) hbefore
  | copyDirFh arg1 => exact h.granted hrun (Global.actCOPYDIRFH_grants s.g arg1) hbefore
  | parent fl => exact h.granted hrun (Global.doActPARENT_grants s.g _) hbefore
  | parentFh arg1 => exact h.granted hrun (Global.actPARENTFH_grants s.g arg1) hbefore
  | changeMode objType object newMode => exact h.actCHANGEMODE objType object newMode
  | die => exact h.actDIE

theorem Sound.step (h : s.Sound) {p : Packet} (hobeys : s.Obeys p)
    (hn : (s.step w addPart p).created ≤ 2147483647) : (s.step w addPart p).Sound := by
  unfold Session.step at hn ⊢
  cases hrun : s.g.running with
  | false =>
      rw [hrun, if_neg Bool.false_ne_true] at hn
      rwa [if_neg Bool.false_ne_true]
  | true =>
      rw [hrun, if_pos rfl] at hn
      rw [if_pos rfl]
      exact h.serve hrun hobeys hn

/-- While no number has been given twice, a session whose clients obey the rule is sound. -/
theorem sound_run (h : s.Sound) {ps : List Packet} (hobey : Guarded (step w addPart) Obeys s ps)
    (hn : (run (step w addPart) s ps).created ≤ 2147483647) :
    (run (step w addPart) s ps).Sound := by
  refine Guarded.invariant (P := fun s => s.created ≤ 2147483647 → s.Sound) ?_ (fun _ => h) hobey hn
  intro s p hs hp hcreated
  exact (hs (Nat.le_trans (created_le_step s p) hcreated)).step hp hcreated

/-- What holds between the lists of a handler: `act_END` removes its handle and the lock of this
handle and nothing else, and the handler does not stop with anything in its lists. -/
structure OwnLocks (w : Requests σ) (g : Global σ) : Prop where
  ids : (g.files.map EFH.efhId).Nodup
  lock : ∀ f ∈ g.files, (lockLookup g.locks f.efhELock).isSome
  distinct : (g.files.map EFH.efhELock).Nodup
  finish : ∀ arg1, (g.actEND w arg1).files = g.files.filter (fun f => f.efhId ≠ arg1) ∧
    (g.actEND w arg1).locks =
      g.locks.filter fun l => ∀ f ∈ g.files, f.efhId = arg1 → l.addr ≠ f.efhELock
  die : (g.actDIE).running = false → g.locks = [] ∧ g.files = []

theorem Sound.ownLocks (h : s.Sound) : OwnLocks w s.g where
  ids := h.idNodup
  lock := fun f hf => by
    obtain ⟨l, hl, haddr⟩ := List.mem_map.mp (h.efhELock f hf)
    exact List.find?_isSome.mpr ⟨l, hl, by simpa using haddr⟩
  distinct := h.ownNodup
  finish := fun arg1 => by
    cases hlook : fhLookup s.g.files arg1 with
    | none =>
        have hother : ∀ f ∈ s.g.files, f.efhId ≠ arg1 := fun f hf => by
          simpa using List.find?_eq_none.mp hlook f hf
        unfold Global.actEND
        rw [hlook]
        refine ⟨(List.filter_eq_self.mpr fun f hf => ?_).symm,
          (List.filter_eq_self.mpr fun l hl => ?_).symm⟩
        · simpa using hother f hf
        · simp only [decide_eq_true_eq]
          exact fun f hf hid => absurd hid (hother f hf)
    | some efh =>
        have hmem := List.mem_of_find?_eq_some hlook
        have hid : efh.efhId = arg1 := by simpa using List.find?_some hlook
        have honly : ∀ f ∈ s.g.files, f.efhId = arg1 → f = efh := fun f hf hf' => by
          have hfirst := find?_eq_of_mem h.idNodup hf
          rw [hf'] at hfirst
          exact Option.some.inj (hfirst.symm.trans hlook)
        obtain ⟨l, hremove, haddr, hlocks⟩ := lockRemove_perm (h.efhELock efh hmem)
        obtain ⟨res1, res2, hend⟩ := actEND_eq (w := w) hlook hremove
        rw [hend]
        constructor
        · refine (eraseP_eq_filter h.fileNodup efh.addr).trans (List.filter_congr fun f hf => ?_)
          refine decide_eq_decide.mpr
            (not_congr ⟨fun haddr => ?_, fun hf' => by rw [honly f hf hf']⟩)
          have hfirst := find?_eq_of_mem h.fileNodup hf
          rw [haddr] at hfirst
          have hsame := Option.some.inj (hfirst.symm.trans (find?_eq_of_mem h.fileNodup hmem))
          rw [hsame, hid]
        · refine (eraseP_eq_filter h.lockNodup efh.efhELock).trans
            (List.filter_congr fun l hl =>
              decide_eq_decide.mpr ⟨fun hne f hf hf' => ?_, fun hall => ?_⟩)
          · rwa [honly f hf hf']
          · exact hall efh hmem hid
  die := fun hstop => by
    unfold Global.actDIE at hstop
    split at hstop
    · next hempty => exact hempty
    · exact h.stopped hstop

/-- In every state that a new handler reaches with clients that obey the rule, and with no more
than 2^31-1 handles created, handles own their locks. -/
theorem handles_ownLocks {g : Global σ} (hg : Started g) {ps : List Packet}
    (hobey : Guarded (step w addPart) Obeys ⟨g, [], 0⟩ ps)
    (hn : (run (step w addPart) ⟨g, [], 0⟩ ps).created ≤ 2147483647) :
    OwnLocks w (run (step w addPart) ⟨g, [], 0⟩ ps).g ∧
      ((run (step w addPart) ⟨g, [], 0⟩ ps).g.running = false →
        (run (step w addPart) ⟨g, [], 0⟩ ps).g.locks = [] ∧
        (run (step w addPart) ⟨g, [], 0⟩ ps).g.files = []) := by
  have hsound := sound_run (sound_start hg) hobey hn
  exact ⟨hsound.ownLocks, hsound.stopped⟩

/-- The regular files of a server with one directory: their names and contents. -/
abbrev Disk := List (List UInt8 × List UInt8)

/-- The attributes of a file; its name is its file handle too. -/
def fileAttr (name text : List UInt8) : Fattr :=
  { (default : Fattr) with
    type := NFREG, fileid := UInt32.ofNat name.length + 1, size := UInt32.ofNat text.length }

def diskWorld : Requests Disk where
  now d := (100, d)
  memOk d := (true, d)
  lookup d _ name :=
    (((d.lookup name).map fun text => (⟨name, fileAttr name text⟩ : Diropokres)).elim
      (.error errorObjectNotFound) .ok, d)
  getAttr d fh :=
    (if fh = [] then .ok { (default : Fattr) with type := NFDIR, fileid := 1 }
      else .ok (fileAttr fh ((d.lookup fh).getD [])), d)
  readLink d _ := (.error errorObjectWrongType, d)
  create d _ name _ _ _ _ :=
    (.ok ⟨name, fileAttr name []⟩, (name, []) :: d.filter fun f => f.1 ≠ name)
  remove d _ name := (.ok (), d.filter fun f => f.1 ≠ name)
  flush d _ := (0, d)

/-- A handler that has mounted a disk. -/
def mounted (d : Disk) (pick : Nat → Option Nat) : Global Disk where
  caches := ⟨d, Caches.emptyTable, Caches.emptyTable, fun _ => default, fun _ => default, 0⟩
  heap := ⟨[], 0, pick⟩
  locks := []
  files := []
  lastId := 0
  gVolumeName := [110]
  gMntFh := []
  gMntAttr := { (default : Fattr) with type := NFDIR, fileid := 1 }
  gUid := 0
  gGid := 0
  gMode := 511
  gRes1 := .num 0
  gRes2 := 0
  running := true

/-- A lock on the file "a" becomes a handle, the file is opened once more, the lock of the second
handle is copied, and both handles are closed. -/
theorem handles_ownLocks_run :
    OwnLocks diskWorld (run (step diskWorld dosAddPart) ⟨mounted [([97], [1, 2])] some, [], 0⟩
      [.locateObject none [97] SHARED_LOCK, .fhFromLock (some 7),
        .findInput none [97], .copyDirFh 2,
        .finish 1, .finish 2, .die]).g ∧
      ((run (step diskWorld dosAddPart) ⟨mounted [([97], [1, 2])] some, [], 0⟩
        [.locateObject none [97] SHARED_LOCK, .fhFromLock (some 7),
          .findInput none [97], .copyDirFh 2,
          .finish 1, .finish 2, .die]).g.running = false →
        (run (step diskWorld dosAddPart) ⟨mounted [([97], [1, 2])] some, [], 0⟩
          [.locateObject none [97] SHARED_LOCK, .fhFromLock (some 7),
            .findInput none [97], .copyDirFh 2,
            .finish 1, .finish 2, .die]).g.locks = [] ∧
        (run (step diskWorld dosAddPart) ⟨mounted [([97], [1, 2])] some, [], 0⟩
          [.locateObject none [97] SHARED_LOCK, .fhFromLock (some 7),
            .findInput none [97], .copyDirFh 2,
            .finish 1, .finish 2, .die]).g.files = []) :=
  handles_ownLocks ⟨rfl, rfl, rfl, rfl⟩ (by decide +kernel) (by decide +kernel)

end Session

end Anfs.Lock
