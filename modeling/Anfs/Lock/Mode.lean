import Anfs.Lock.Handles

/-!
# `act_CHANGE_MODE`

The guard of the action asks for `ObjType != CHANGE_LOCK` where it means the opposite. Locks are
refused, and an object type that is none of the two gets no answer.
-/
namespace Anfs.Lock
open Anfs.Cache Anfs.Lib Anfs.Nfs Anfs.Path Anfs.Tree Anfs.Xdr

namespace Global

variable {σ : Type}

/-- The lock of the object of the packet. -/
def modeTarget (g : Global σ) (objType object : Int) : Option ELOCK :=
  if objType = CHANGE_FH then (fhLookup g.files object).bind g.lockOf
  else lockLookup g.locks object.toNat

/-- The object type and the mode are ones that the action knows. -/
def KnownMode (objType newMode : Int) : Prop :=
  (objType = CHANGE_FH ∨ objType = CHANGE_LOCK) ∧ (newMode = SHARED_LOCK ∨ newMode = EXCLUSIVE_LOCK)

/-- The lock has the mode, or it is the only one in the list with its key. -/
def MayChange (g : Global σ) (l : ELOCK) (newMode : Int) : Prop :=
  l.flAccess = newMode ∨ ∀ l' ∈ g.locks, l'.flKey = l.flKey → l' = l

/-- The lists after the lock `l` got the mode. -/
def withMode (g : Global σ) (l : ELOCK) (newMode : Int) : List ELOCK :=
  g.locks.map fun l' => if l' = l then { l with flAccess := newMode } else l'

/-- The action refused with an error and left the locks as they are. -/
structure Refuses (g g' : Global σ) (res2 : Int) : Prop where
  res1 : g'.gRes1 = DOSFALSE
  res2 : g'.gRes2 = res2
  locks : g'.locks = g.locks

/-- What the action has to do. -/
structure ChangesMode (g g' : Global σ) (objType object newMode : Int) : Prop where
  unknown : ¬ KnownMode objType newMode → Refuses g g' errorObjectWrongType
  absent : KnownMode objType newMode → g.modeTarget objType object = none →
    Refuses g g' errorFileNotObject
  changed : KnownMode objType newMode → ∀ l, g.modeTarget objType object = some l →
    g.MayChange l newMode → g'.gRes1 = DOSTRUE ∧ g'.locks = g.withMode l newMode
  used : KnownMode objType newMode → ∀ l, g.modeTarget objType object = some l →
    ¬ g.MayChange l newMode → Refuses g g' errorObjectInUse

variable {g : Global σ} {objType object newMode : Int}

theorem Refuses.setRes (g : Global σ) (res2 : Int) :
    Refuses g (g.setRes DOSFALSE res2) res2 := ⟨rfl, rfl, rfl⟩

/-- Where addresses differ, a lock of the list is found by its address only. -/
theorem eq_of_addr (hnodup : (g.locks.map ELOCK.addr).Nodup) {l l' : ELOCK} (hl : l ∈ g.locks)
    (hl' : l' ∈ g.locks) : l'.addr = l.addr ↔ l' = l := by
  refine ⟨fun haddr => ?_, fun heq => by rw [heq]⟩
  have hfirst := find?_eq_of_mem hnodup hl'
  rw [haddr] at hfirst
  exact Option.some.inj (hfirst.symm.trans (find?_eq_of_mem hnodup hl))

/-- `lock_NumLocksFromKey` counts one for the lock itself. -/
theorem numLocks_le_one_iff (hnodup : (g.locks.map ELOCK.addr).Nodup) {l : ELOCK}
    (hl : l ∈ g.locks) :
    ¬ 1 < lockNumLocksFromKey g.locks l.flKey ↔ ∀ l' ∈ g.locks, l'.flKey = l.flKey → l' = l := by
  have hperm := find?_perm_eraseP (find?_eq_of_mem hnodup hl)
  have hothers := eraseP_eq_filter hnodup l.addr
  have hcount : lockNumLocksFromKey g.locks l.flKey =
      (g.locks.filter fun l' => l'.addr ≠ l.addr).countP (fun l' => l'.flKey = l.flKey) + 1 := by
    unfold lockNumLocksFromKey
    rw [hperm.countP_eq, hothers, List.countP_cons_of_pos (by simp)]
  have hzero : ¬ 1 < lockNumLocksFromKey g.locks l.flKey ↔
      (g.locks.filter fun l' => l'.addr ≠ l.addr).countP (fun l' => l'.flKey = l.flKey) = 0 := by
        omega
  rw [hzero, List.countP_eq_zero]
  constructor
  · intro hnone l' hl' hkey
    by_contra hne
    have haddr : l'.addr ≠ l.addr := fun heq => hne ((eq_of_addr hnodup hl hl').mp heq)
    exact hnone l' (List.mem_filter.mpr ⟨hl', by simpa using haddr⟩) (by simpa using hkey)
  · intro honly l' hl'
    obtain ⟨hmem, haddr⟩ := List.mem_filter.mp hl'
    have hne : l'.addr ≠ l.addr := by simpa using haddr
    simpa using fun hkey => hne (by rw [honly l' hmem hkey])

/-- Both branches of the switch change the access of a lock in the same way. -/
theorem changeAccess_spec (hnodup : (g.locks.map ELOCK.addr).Nodup) {l : ELOCK} (hl : l ∈ g.locks) :
    (g.MayChange l newMode → (g.changeAccess l newMode).gRes1 = DOSTRUE ∧
        (g.changeAccess l newMode).locks = g.withMode l newMode) ∧
      (¬ g.MayChange l newMode → Refuses g (g.changeAccess l newMode) errorObjectInUse) := by
  have hcount := numLocks_le_one_iff hnodup hl
  unfold changeAccess
  by_cases hsame : l.flAccess = newMode
  · rw [if_pos hsame]
    refine ⟨fun _ => ⟨rfl, ?_⟩, fun hnot => absurd (.inl hsame) hnot⟩
    refine (List.map_id'' (fun l' => ?_) g.locks).symm
    split
    · next heq => rw [heq, ← hsame]
    · rfl
  · rw [if_neg hsame]
    by_cases hmore : 1 < lockNumLocksFromKey g.locks l.flKey
    · rw [if_pos hmore]
      refine ⟨fun hmay => ?_, fun _ => Refuses.setRes g errorObjectInUse⟩
      exact absurd hmore (hcount.mpr (hmay.resolve_left hsame))
    · rw [if_neg hmore]
      refine ⟨fun _ => ⟨rfl, List.map_congr_left fun l' hl' => ?_⟩,
        fun hnot => absurd (.inr (hcount.mp hmore)) hnot⟩
      rw [if_congr (eq_of_addr hnodup hl hl') rfl rfl]
      split
      · next heq => rw [heq]
      · rfl

/-- For a handle the action does what it has to. -/
theorem changesMode_handle (hnodup : (g.locks.map ELOCK.addr).Nodup)
    (hown : ∀ f ∈ g.files, (lockLookup g.locks f.efhELock).isSome)
    (hmode : newMode = SHARED_LOCK ∨ newMode = EXCLUSIVE_LOCK) :
    ChangesMode g (g.actCHANGEMODE CHANGE_FH object newMode) CHANGE_FH object newMode := by
  have hguard : ¬ (¬ (CHANGE_FH = CHANGE_FH ∨ CHANGE_FH ≠ CHANGE_LOCK) ∨
      ¬ (newMode = SHARED_LOCK ∨ newMode = EXCLUSIVE_LOCK)) := by
    rw [not_or, not_not, not_not]
    exact ⟨.inl rfl, hmode⟩
  have hknown : KnownMode CHANGE_FH newMode := ⟨.inl rfl, hmode⟩
  unfold actCHANGEMODE
  rw [if_neg hguard, if_pos rfl]
  cases hlook : fhLookup g.files object with
  | none =>
      have htarget : g.modeTarget CHANGE_FH object = none := by simp [modeTarget, hlook]
      refine ⟨fun hnot => absurd hknown hnot,
        fun _ _ => Refuses.setRes g errorFileNotObject, ?_, ?_⟩
      all_goals
        intro _ l hl
        rw [htarget] at hl
        cases hl
  | some efh =>
      obtain ⟨elock, hlock⟩ :=
        Option.isSome_iff_exists.mp (hown efh (List.mem_of_find?_eq_some hlook))
      have hlockOf : g.lockOf efh = some elock := hlock
      have htarget : g.modeTarget CHANGE_FH object =
        some elock := by simp [modeTarget, hlook, hlockOf]
      have hspec := @changeAccess_spec _ g newMode hnodup elock (List.mem_of_find?_eq_some hlock)
      dsimp only
      rw [hlockOf]
      refine ⟨fun hnot => absurd hknown hnot, fun _ hnone => ?_, fun _ l hl => ?_, fun _ l hl => ?_⟩
      · rw [htarget] at hnone
        cases hnone
      · obtain rfl := Option.some.inj (htarget.symm.trans hl)
        exact hspec.1
      · obtain rfl := Option.some.inj (htarget.symm.trans hl)
        exact hspec.2

/-- The action does what it has to for handles and for modes that it does not know. Locks are
always refused; any other object type leaves what the packet brought as its result. -/
theorem actCHANGEMODE_iff (hnodup : (g.locks.map ELOCK.addr).Nodup)
    (hown : ∀ f ∈ g.files, (lockLookup g.locks f.efhELock).isSome) :
    ChangesMode g (g.actCHANGEMODE objType object newMode) objType object newMode ↔
      objType = CHANGE_FH ∨ ¬ (newMode = SHARED_LOCK ∨ newMode = EXCLUSIVE_LOCK) ∨
        (objType ≠ CHANGE_LOCK ∧ g.gRes1 = DOSFALSE ∧ g.gRes2 = errorObjectWrongType) := by
  by_cases hmode : newMode = SHARED_LOCK ∨ newMode = EXCLUSIVE_LOCK
  · by_cases hfh : objType = CHANGE_FH
    · subst hfh
      exact ⟨fun _ => .inl rfl, fun _ => changesMode_handle hnodup hown hmode⟩
    · by_cases hlock : objType = CHANGE_LOCK
      · have hrun : g.actCHANGEMODE objType object newMode = g.setRes DOSFALSE
            errorObjectWrongType := by
          unfold actCHANGEMODE
          exact if_pos (.inl (not_or.mpr ⟨hfh, not_not.mpr hlock⟩))
        rw [hrun]
        refine ⟨fun h => ?_, fun h => absurd h ?_⟩
        · have hknown : KnownMode objType newMode := ⟨.inr hlock, hmode⟩
          cases htarget : g.modeTarget objType object with
          | none =>
              exact absurd (h.absent hknown htarget).res2 (by decide : errorObjectWrongType ≠ _)
          | some l =>
              by_cases hmay : g.MayChange l newMode
              · exact absurd (h.changed hknown l htarget hmay).1 (by decide : DOSFALSE ≠ _)
              · exact absurd (h.used hknown l htarget hmay).res2
                  (by decide : errorObjectWrongType ≠ _)
        · rintro (h | h | h)
          · exact hfh h
          · exact h hmode
          · exact h.1 hlock
      · have hrun : g.actCHANGEMODE objType object newMode = g := by
          unfold actCHANGEMODE
          rw [if_neg (by simp [hlock, hmode]), if_neg hfh, if_neg hlock]
        have hunknown : ¬ KnownMode objType newMode := fun h => h.1.elim hfh hlock
        rw [hrun]
        constructor
        · intro h
          have hrefused := h.unknown hunknown
          exact .inr (.inr ⟨hlock, hrefused.res1, hrefused.res2⟩)
        · rintro (h | h | h)
          · exact absurd h hfh
          · exact absurd hmode h
          · exact ⟨fun _ => ⟨h.2.1, h.2.2, rfl⟩, fun hknown => absurd hknown hunknown,
              fun hknown => absurd hknown hunknown, fun hknown => absurd hknown hunknown⟩
  · have hrun : g.actCHANGEMODE objType object newMode =
        g.setRes DOSFALSE errorObjectWrongType := by
      unfold actCHANGEMODE
      exact if_pos (.inr hmode)
    have hunknown : ¬ KnownMode objType newMode := fun h => hmode h.2
    rw [hrun]
    exact ⟨fun _ => .inr (.inl hmode), fun _ => ⟨fun _ => Refuses.setRes g errorObjectWrongType,
      fun hknown => absurd hknown hunknown, fun hknown => absurd hknown hunknown,
      fun hknown => absurd hknown hunknown⟩⟩

/-- A handler with one shared lock and a handle that has it. -/
def oneLock : Global Session.Disk :=
  { Session.mounted [] some with
    locks := [lockOfD]
    files := [{ addr := 4, efhId := 1, efhMode := MODE_OLDFILE, efhELock := 1, efhFileLen := 0 }] }

theorem actCHANGEMODE_iff_oneLock :
    ChangesMode oneLock (oneLock.actCHANGEMODE CHANGE_FH 1 EXCLUSIVE_LOCK) CHANGE_FH
      1 EXCLUSIVE_LOCK ↔
      CHANGE_FH = CHANGE_FH ∨ ¬ (EXCLUSIVE_LOCK = SHARED_LOCK ∨ EXCLUSIVE_LOCK = EXCLUSIVE_LOCK) ∨
        (CHANGE_FH ≠ CHANGE_LOCK ∧ oneLock.gRes1 = DOSFALSE ∧
          oneLock.gRes2 = errorObjectWrongType) :=
  actCHANGEMODE_iff (by decide) (by decide)

/-- The only lock of the list is to become exclusive; the reply is `ERROR_OBJECT_WRONG_TYPE`. -/
theorem actCHANGEMODE_refuses_lock :
    ¬ ChangesMode oneLock (oneLock.actCHANGEMODE CHANGE_LOCK 1 EXCLUSIVE_LOCK) CHANGE_LOCK 1
      EXCLUSIVE_LOCK := by
  intro h
  have honly : oneLock.MayChange lockOfD EXCLUSIVE_LOCK :=
    .inr fun l hl _ => List.mem_singleton.mp hl
  have hchanged := h.changed ⟨.inr rfl, .inr rfl⟩ lockOfD rfl honly
  exact absurd hchanged.1 (by decide)

end Global

end Anfs.Lock
