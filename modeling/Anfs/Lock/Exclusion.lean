import Anfs.Lock.Changes
import Mathlib.Data.List.Pairwise

/-!
# Exclusive locks

The tests that the actions make before they grant a lock differ, and some actions make none. A lock
that `act_FINDOUTPUT` grants is neither shared nor exclusive. Together they keep exclusive locks
alone, if objects that are new to the server have keys that no lock has.
-/
namespace Anfs.Lock
open Anfs.Cache Anfs.Lib Anfs.Nfs Anfs.Path Anfs.Tree Anfs.Xdr
open scoped List

/-- Two locks that may be in the list together. -/
def Compatible (l l' : ELOCK) : Prop :=
  l.flKey = l'.flKey → l.flAccess ≠ EXCLUSIVE_LOCK ∧ l'.flAccess ≠ EXCLUSIVE_LOCK ∧
    (l.flAccess = SHARED_LOCK ∨ l'.flAccess = SHARED_LOCK)

section Lists
variable {locks locks' : List ELOCK} {l : ELOCK}

instance : Std.Symm Compatible where
  symm := by
    intro l l' h hkey
    obtain ⟨hl, hl', hshared⟩ := h hkey.symm
    exact ⟨hl', hl, hshared.symm⟩

/-- It is enough to look at the first lock with the key. -/
theorem Admits.compatible (h : Admits locks l) (hlocks : locks.Pairwise Compatible) :
    ∀ l' ∈ locks, Compatible l l' := by
  intro l' hl' hkey
  obtain ⟨old, hold⟩ : ∃ old, lockLookupFromKey locks l.flKey = some old :=
    Option.isSome_iff_exists.mp (List.find?_isSome.mpr ⟨l', hl', by simpa using hkey.symm⟩)
  obtain ⟨hshared, hex⟩ := h old hold
  have hmem : old ∈ locks := List.mem_of_find?_eq_some hold
  have holdkey : old.flKey = l.flKey := by simpa using List.find?_some hold
  have hlex : l.flAccess ≠ EXCLUSIVE_LOCK := by
    rw [hshared]
    decide
  by_cases heq : old = l'
  · subst heq
    exact ⟨hlex, hex, .inl hshared⟩
  · obtain ⟨-, hex', -⟩ := hlocks.forall hmem hl' heq (holdkey.trans hkey)
    exact ⟨hlex, hex', .inl hshared⟩

/-- What is granted without a look is a lock on an object that others have not locked. -/
structure Unlooked (locks : List ELOCK) (l : ELOCK) : Prop where
  root : l.fullName.text = [] → ∀ l' ∈ locks, l'.flKey = l.flKey → l'.flAccess = SHARED_LOCK
  created : l.flAccess = MODE_NEWFILE → ∀ l' ∈ locks, l'.flKey ≠ l.flKey
  made : l.nfsType = NFDIR → l.flAccess = EXCLUSIVE_LOCK → ∀ l' ∈ locks, l'.flKey ≠ l.flKey

instance (locks : List ELOCK) (l : ELOCK) : Decidable (Unlooked locks l) :=
  decidable_of_iff
    ((l.fullName.text = [] → ∀ l' ∈ locks, l'.flKey = l.flKey → l'.flAccess = SHARED_LOCK) ∧
    (l.flAccess = MODE_NEWFILE → ∀ l' ∈ locks, l'.flKey ≠ l.flKey) ∧
    (l.nfsType = NFDIR → l.flAccess = EXCLUSIVE_LOCK → ∀ l' ∈ locks, l'.flKey ≠ l.flKey))
    ⟨fun h => ⟨h.1, h.2.1, h.2.2⟩, fun h => ⟨h.1, h.2, h.3⟩⟩

/-- A change keeps the locks compatible. -/
theorem Change.compatible (h : Change locks locks') (hnodup : locks.Nodup)
    (hlocks : locks.Pairwise Compatible)
    (hun : ∀ l, locks' = l :: locks → Unlooked locks l) : locks'.Pairwise Compatible := by
  cases h with
  | kept => exact hlocks
  | admitted admits named => exact List.pairwise_cons.mpr ⟨admits.compatible hlocks, hlocks⟩
  | root path shared named =>
      refine List.pairwise_cons.mpr ⟨fun l' hl' hkey => ?_, hlocks⟩
      have hshared := (hun _ rfl).root path l' hl' hkey.symm
      rw [hshared, shared]
      exact ⟨by decide, by decide, .inl rfl⟩
  | created access named =>
      refine List.pairwise_cons.mpr ⟨fun l' hl' hkey => ?_, hlocks⟩
      exact absurd hkey.symm ((hun _ rfl).created access l' hl')
  | made type access named =>
      refine List.pairwise_cons.mpr ⟨fun l' hl' hkey => ?_, hlocks⟩
      exact absurd hkey.symm ((hun _ rfl).made type access l' hl')
  | @copied l old mem key shared from_ fullName name =>
      refine List.pairwise_cons.mpr ⟨fun l' hl' hkey => ?_, hlocks⟩
      have hlex : l.flAccess ≠ EXCLUSIVE_LOCK := by
        rw [shared]
        decide
      by_cases heq : old = l'
      · subst heq
        rw [from_]
        exact ⟨hlex, by decide, .inl shared⟩
      · obtain ⟨-, hex, -⟩ := hlocks.forall mem hl' heq (key.symm.trans hkey)
        exact ⟨hlex, hex, .inl shared⟩
  | removed sub => exact hlocks.sublist sub
  | @changed l newMode mem only =>
      refine List.pairwise_map.mpr (List.Pairwise.imp_of_mem ?_ (hnodup.and hlocks))
      rintro a b ha hb ⟨hne, hab⟩
      by_cases hal : a = l
      · subst hal
        rw [if_pos rfl, if_neg (Ne.symm hne)]
        exact fun hkey => absurd (only b hb hkey.symm) (Ne.symm hne)
      · by_cases hbl : b = l
        · subst hbl
          rw [if_neg hal, if_pos rfl]
          exact fun hkey => absurd (only a ha hkey) hal
        · rw [if_neg hal, if_neg hbl]
          exact hab

end Lists

namespace Session

variable {σ : Type} {w : ObjRequests σ} {addPart : List UInt8 → List UInt8 → Nat →
  Option (List UInt8)} {s : Session σ}

/-- The lock that a step adds to the list. -/
def added (locks locks' : List ELOCK) : Option ELOCK :=
  if locks'.tail = locks then locks'.head? else none

/-- Where the handler grants a lock without a look at the list, the object is not locked: the root
in no other way than shared, a file that CREATE made and a directory that MKDIR made in no way. -/
def SafeGrant (w : ObjRequests σ)
    (addPart : List UInt8 → List UInt8 → Nat → Option (List UInt8)) (s : Session σ)
    (e : Event) : Prop :=
  ∀ l ∈ added s.g.locks (s.stepEvent w addPart e).g.locks, Unlooked s.g.locks l

instance (s : Session σ) (e : Event) : Decidable (s.SafeGrant w addPart e) :=
  inferInstanceAs
    (Decidable (∀ l ∈ added s.g.locks (s.stepEvent w addPart e).g.locks, Unlooked s.g.locks l))

/-- What locks exclude: an exclusive lock is alone, two locks that are not shared are not on one
object, and no other handle is open on the object of an exclusive one. -/
structure Exclusion (g : Global σ) : Prop where
  alone : ∀ l ∈ g.locks, l.flAccess = EXCLUSIVE_LOCK → ∀ l' ∈ g.locks, l'.flKey = l.flKey → l' = l
  writer : ∀ l ∈ g.locks, ∀ l' ∈ g.locks, l.flKey = l'.flKey → l.flAccess ≠ SHARED_LOCK →
    l'.flAccess ≠ SHARED_LOCK → l = l'
  files : ∀ f ∈ g.files, ∀ l, g.lockOf f = some l → l.flAccess = EXCLUSIVE_LOCK →
    ∀ f' ∈ g.files, ∀ l', g.lockOf f' = some l' → l'.flKey = l.flKey → f' = f

theorem Sound.exclusion (h : s.Sound) (hlocks : s.g.locks.Pairwise Compatible) : Exclusion s.g := by
  have halone : ∀ l ∈ s.g.locks, l.flAccess = EXCLUSIVE_LOCK →
      ∀ l' ∈ s.g.locks, l'.flKey = l.flKey → l' = l := by
    intro l hl hex l' hl' hkey
    by_contra hne
    exact (hlocks.forall hl' hl hne hkey).2.1 hex
  refine ⟨halone, fun l hl l' hl' hkey hnot hnot' => ?_,
    fun f hf l hlock hex f' hf' l' hlock' hkey => ?_⟩
  · by_contra hne
    obtain ⟨-, -, hshared⟩ := hlocks.forall hl hl' hne hkey
    exact hshared.elim hnot hnot'
  · obtain rfl := halone l (List.mem_of_find?_eq_some hlock) hex l'
      (List.mem_of_find?_eq_some hlock') hkey
    have haddr : l'.addr = f.efhELock := by simpa using List.find?_some hlock
    have haddr' : l'.addr = f'.efhELock := by simpa using List.find?_some hlock'
    exact List.inj_on_of_nodup_map h.ownNodup hf' hf (haddr'.symm.trans haddr)

/-- In every state that a new handler reaches with clients that obey the rule, locks exclude what
they should, as long as what is granted without a look is not locked. -/
theorem exclusion_run {g : Global σ} (hg : Started g) {es : List Event}
    (hobey : Guarded (stepEvent w addPart)
      (fun s e => s.ObeysEvent w addPart e ∧ s.SafeGrant w addPart e)
      ⟨g, [], 0⟩ es)
    (hn : (run (stepEvent w addPart) ⟨g, [], 0⟩ es).created ≤ 2147483647) :
    Exclusion (run (stepEvent w addPart) ⟨g, [], 0⟩ es).g := by
  have hinv :=
    Guarded.invariant (P := fun s => s.created ≤ 2147483647 → s.Sound ∧
    s.g.locks.Pairwise Compatible)
    ?_ (fun _ => ⟨sound_start hg, ?_⟩) hobey hn
  · exact hinv.1.exclusion hinv.2
  · rintro s e hs ⟨he, hsafe⟩ hcreated
    obtain ⟨hsound, hlocks⟩ := hs (Nat.le_trans (created_le_stepEvent s e) hcreated)
    refine ⟨hsound.stepEvent he hcreated,
      (stepEvent_change hsound.lockNodup e).compatible ?_ hlocks fun l hl => ?_⟩
    · exact hsound.lockNodup.of_map _
    · refine hsafe l ?_
      unfold added
      rw [hl, List.tail_cons, if_pos rfl]
      rfl
  · rw [hg.locks]
    exact List.Pairwise.nil

/-- The file "a" is open for reading when it is to be opened for an update or deleted, which is
refused at first; while it is updated, others are refused. -/
theorem exclusion_run_update : Exclusion (run (stepEvent diskRequests dosAddPart)
    ⟨mounted [([97], [1, 2])] some, [], 0⟩
    [.packet (.findInput none [97]), .packet (.findUpdate none [97]),
      .onName (.deleteObject none [97]) rfl,
      .packet (.finish 1), .packet (.findUpdate none [97]), .packet (.findInput none [97]),
      .packet (.locateObject none [97] SHARED_LOCK), .createDir none [98],
      .packet (.findOutput none [98, 98])]).g :=
  exclusion_run ⟨rfl, rfl, rfl, rfl⟩ (by decide +kernel) (by decide +kernel)

/-- A file that `act_FINDOUTPUT` has open can be opened for reading. -/
example : ((run (stepEvent diskRequests dosAddPart) ⟨mounted [] some, [], 0⟩
    [.packet (.findOutput none [97]), .packet (.findInput none [97])]).g.locks.map fun l =>
      (l.flKey, l.flAccess)) =
      [(2, SHARED_LOCK), (2, MODE_NEWFILE)] := by decide +kernel

end Session

end Anfs.Lock
