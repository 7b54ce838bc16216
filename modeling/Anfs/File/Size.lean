import Anfs.File.Results
import Anfs.Lock.Mode

/-!
# Setting the size of a file

`act_SET_FILE_SIZE` is to set the size, the length and the position together or nothing at all.
The size wanted is the mathematical one, the code adds in a `LONG`.
-/
namespace Anfs.File
open Anfs.Lib Anfs.Nfs Anfs.Buf

/-- The size a packet asks for. -/
def wantedSize (efh : EFH) (offset mode : Int) : Option Int :=
  if mode = OFFSET_BEGINNING then some offset
  else if mode = OFFSET_CURRENT then some (efh.efhFilePos + offset)
  else if mode = OFFSET_END then some (efh.efhFileLen + offset)
  else none

/-- A reason not to set the size. -/
inductive SizeRefusal (g : Global) (efh : EFH) (offset mode : Int) (numLocks : Nat)
    (ans : SizeAnswer) : Prop
  | otherLock (hlocks : 1 < numLocks)
  | flushFails (hflush : ¬ FlushServed (g.state efh))
  | unknownMode (hmode : wantedSize efh offset mode = none)
  | noSize {w : Int} (hwant : wantedSize efh offset mode = some w)
      (hsize : ¬ (0 ≤ w ∧ w < 2147483648))
  | server {res2 : Int} (hans : ans = .failed res2)

/-- The packet failed: no request but those of the flush reached the server, position and length
are the old ones. -/
structure SizeKept (g g' : Global) (id : Int) (efh : EFH) : Prop where
  res1 : g'.gRes1 = -1
  res2 : g'.gRes2 ≠ 0
  srv : ∃ err s, flushBuffered (g.state efh) = .ok (err, s) ∧ g'.srv = s.srv
  file : ∃ efh' ∈ fhLookup g'.gFH id, efh'.efhFilePos = efh.efhFilePos ∧
    efh'.efhFileLen = efh.efhFileLen

/-- The file has the size `w`. -/
structure SizeSet (g' : Global) (id : Int) (efh : EFH) (w : Int) : Prop where
  res1 : g'.gRes1 = w
  file : ∃ efh' ∈ fhLookup g'.gFH id, efh'.efhFileLen = w ∧ efh'.efhFilePos = min efh.efhFilePos w

/-- All or nothing; a handle that is not open fails. -/
def AllOrNothing (g g' : Global) (id offset mode : Int) (numLocks : Nat)
    (ans : SizeAnswer) : Prop :=
  (fhLookup g.gFH id = none → g'.gRes1 = -1 ∧ g'.gRes2 ≠ 0 ∧ g'.srv = g.srv ∧ g'.gFH = g.gFH) ∧
    ∀ efh ∈ fhLookup g.gFH id, (SizeRefusal g efh offset mode numLocks ans → SizeKept g g' id efh) ∧
      (¬ SizeRefusal g efh offset mode numLocks ans →
        ∃ w, wantedSize efh offset mode = some w ∧ SizeSet g' id efh w)

/-- A server that sets the size replies with the size it was asked for. -/
def RepliesSize (g : Global) (id offset mode : Int) (ans : SizeAnswer) : Prop :=
  ∀ efh ∈ fhLookup g.gFH id, 0 ≤ newSize efh offset mode →
    ∀ size, ans = .done size → size.toNat = newSize efh offset mode

/-- When the size wanted, wrapped, is one that the server would set, the flush is served; and
without other locks the size did not wrap and the position is not negative. -/
def Sizable (g : Global) (id offset mode : Int) (numLocks : Nat) (ans : SizeAnswer) : Prop :=
  ∀ efh ∈ fhLookup g.gFH id, ∀ w, wantedSize efh offset mode = some w →
    w % 4294967296 < 2147483648 →
    (∃ size, ans = .done size) → FlushServed (g.state efh) ∧
      (numLocks ≤ 1 → 0 ≤ w ∧ w < 2147483648 ∧ 0 ≤ efh.efhFilePos)

section Size
variable {g g' : Global} {efh : EFH} {id offset mode : Int} {numLocks : Nat} {ans : SizeAnswer}

/-- The size computed is the one wanted, as a `LONG`. -/
theorem newSize_eq (hoffs : IsLong offset) : newSize efh offset mode =
    ((wantedSize efh offset mode).map long).getD (-1) := by
  unfold newSize wantedSize
  split
  · exact (long_of_isLong hoffs).symm
  · split
    · rfl
    · split
      · rfl
      · rfl

theorem long_nonneg_iff (w : Int) : 0 ≤ long w ↔ w % 4294967296 < 2147483648 := by
  unfold long
  omega

/-- A flush leaves position and length. -/
theorem flushBuffered_keeps {s s' : FState} {err : Option Int}
    (h : flushBuffered s = .ok (err, s')) :
    s'.efh.efhFilePos = s.efh.efhFilePos ∧ s'.efh.efhFileLen = s.efh.efhFileLen ∧
      s'.efh.efhId = s.efh.efhId := by
  unfold flushBuffered wcFlushCache at h
  split at h
  · split at h
    · cases h
      exact ⟨rfl, rfl, rfl⟩
    · obtain ⟨⟨err', w⟩, -, h⟩ := ok_of_bind h
      cases h
      exact ⟨rfl, rfl, rfl⟩
  · cases h
    exact ⟨rfl, rfl, rfl⟩

theorem newSize_congr {efh' : EFH} (hpos : efh'.efhFilePos = efh.efhFilePos)
    (hlen : efh'.efhFileLen = efh.efhFileLen) :
    newSize efh' offset mode = newSize efh offset mode := by
  unfold newSize
  rw [hpos, hlen]

/-- The server is not asked for a negative size, and may refuse. -/
theorem doSetSize_failed {s : FState} (hans : ans ≠ .failed 0)
    (h : newSize s.efh offset mode < 0 ∨ ∃ res2, ans = .failed res2) :
    (doSetSize g s offset mode ans).gRes1 = -1 ∧ (doSetSize g s offset mode ans).gRes2 ≠ 0 ∧
      (doSetSize g s offset mode ans).srv = s.srv ∧
      (doSetSize g s offset mode ans).gFH = (g.store s).gFH := by
  unfold doSetSize
  dsimp only
  split
  · exact ⟨rfl, show errorRequiredArgMissing ≠ 0 by decide, rfl, rfl⟩
  · split
    · exact ⟨rfl, show errorSeekError ≠ 0 by decide, rfl, rfl⟩
    · rename_i hnonneg
      obtain hneg | ⟨res2, rfl⟩ := h
      · exact absurd hneg hnonneg
      · refine ⟨rfl, ?_, rfl, rfl⟩
        rintro hzero
        exact hans (congrArg SizeAnswer.failed hzero)

theorem doSetSize_done {s : FState} {size : UInt32} (hn : 0 ≤ newSize s.efh offset mode) :
    (doSetSize g s offset mode (.done size)).gRes1 = long size.toNat ∧
      (doSetSize g s offset mode (.done size)).gFH = (g.store { s with efh := { s.efh with
        efhFilePos := if size.toNat < ulong s.efh.efhFilePos then long size.toNat
          else s.efh.efhFilePos
        efhFileLen := long size.toNat } }).gFH := by
  unfold doSetSize
  dsimp only
  rw [if_neg (by omega), if_neg (by omega)]
  exact ⟨rfl, rfl⟩

/-- A failing flush leads past the test for other locks, to the same call. -/
theorem actSETFILESIZE_runs (hlook : fhLookup g.gFH id = some efh)
    (hrun : actSETFILESIZE g id offset mode numLocks ans = .ok g') :
    ∃ err s, flushBuffered (g.state efh) = .ok (err, s) ∧
      ((FlushServed (g.state efh) ∧ 1 < numLocks ∧ g' = (g.store s).setRes (-1) errorObjectInUse) ∨
        (FlushServed (g.state efh) → numLocks ≤ 1) ∧
          ∃ g₁ : Global, g₁.gFH = g.gFH ∧ g' = doSetSize g₁ s offset mode ans) := by
  unfold actSETFILESIZE at hrun
  rw [hlook] at hrun
  obtain ⟨⟨err, s⟩, hflush, hrun⟩ := ok_of_bind hrun
  have hserved := flushBuffered_none_iff hflush
  refine ⟨err, s, hflush, ?_⟩
  cases err with
  | some res2 =>
      cases hrun
      exact .inr ⟨fun hyes => absurd (hserved.mpr hyes) nofun, g.setRes (-1) res2, rfl, rfl⟩
  | none =>
      simp only at hrun
      split at hrun
      · rename_i hlocks
        cases hrun
        exact .inl ⟨hserved.mp rfl, hlocks, rfl⟩
      · rename_i hlocks
        cases hrun
        exact .inr ⟨fun _ => Nat.not_lt.mp hlocks, g, rfl, rfl⟩

/-- What becomes of a packet that is let through, for an open handle. -/
theorem actSETFILESIZE_fails (hans : ans ≠ .failed 0) (hlook : fhLookup g.gFH id = some efh)
    (hrun : actSETFILESIZE g id offset mode numLocks ans = .ok g')
    (h : (FlushServed (g.state efh) ∧ 1 < numLocks) ∨ newSize efh offset mode < 0 ∨
      ∃ res2, ans = .failed res2) :
    SizeKept g g' id efh := by
  obtain ⟨err, s, hflush, hends⟩ := actSETFILESIZE_runs hlook hrun
  obtain ⟨hpos, hlen, hid⟩ := flushBuffered_keeps hflush
  have hfound : fhLookup (g.store s).gFH id = some s.efh := fhLookup_store hlook hid
  obtain ⟨-, -, rfl⟩ | ⟨hlocks, g₁, hgFH, rfl⟩ := hends
  · exact ⟨rfl, show errorObjectInUse ≠ 0 by decide, ⟨err, s, hflush, rfl⟩, s.efh,
      hfound, hpos, hlen⟩
  · have hfails : newSize s.efh offset mode < 0 ∨ ∃ res2, ans = .failed res2 := by
      rw [newSize_congr hpos hlen]
      obtain ⟨hserved, hlt⟩ | hrest := h
      · exact absurd (hlocks hserved) (by omega)
      · exact hrest
    obtain ⟨h1, h2, hsrv, hstore⟩ := doSetSize_failed (g := g₁) hans hfails
    refine ⟨h1, h2, ⟨err, s, hflush, hsrv⟩, s.efh, ?_, hpos, hlen⟩
    have hsame : (g₁.store s).gFH = (g.store s).gFH := congrArg (storeFh s.efh) hgFH
    rw [hstore, hsame]
    exact hfound

theorem actSETFILESIZE_sets {size : UInt32} (hlook : fhLookup g.gFH id = some efh)
    (hrun : actSETFILESIZE g id offset mode numLocks (.done size) = .ok g')
    (hlocks : FlushServed (g.state efh) → numLocks ≤ 1) (hn : 0 ≤ newSize efh offset mode) :
    g'.gRes1 = long size.toNat ∧ ∃ efh' ∈ fhLookup g'.gFH id, efh'.efhFileLen = long size.toNat ∧
      efh'.efhFilePos = if size.toNat < ulong efh.efhFilePos then long size.toNat
        else efh.efhFilePos := by
  obtain ⟨err, s, hflush, hends⟩ := actSETFILESIZE_runs hlook hrun
  obtain ⟨hpos, hlen, hid⟩ := flushBuffered_keeps hflush
  obtain ⟨hserved, hlt, -⟩ | ⟨-, g₁, hgFH, rfl⟩ := hends
  · exact absurd (hlocks hserved) (by omega)
  · have hsize : newSize s.efh offset mode = newSize efh offset mode := newSize_congr hpos hlen
    rw [← hsize] at hn
    obtain ⟨h1, hstore⟩ := @doSetSize_done g₁ offset mode s size hn
    refine ⟨h1, { s.efh with
      efhFilePos := if size.toNat < ulong s.efh.efhFilePos then long size.toNat
        else s.efh.efhFilePos
      efhFileLen := long size.toNat }, ?_, rfl, ?_⟩
    · have hfound := fhLookup_store (s := { s with efh := { s.efh with
        efhFilePos := if size.toNat < ulong s.efh.efhFilePos then long size.toNat
          else s.efh.efhFilePos
        efhFileLen := long size.toNat } }) hlook hid
      rw [hstore]
      show fhLookup (storeFh _ g₁.gFH) id = _
      rw [hgFH]
      exact hfound
    · dsimp only
      rw [hpos]
      rfl

/-- The position set, against the smaller of position and size. -/
theorem setPos_eq_min_iff {pos w : Int} {size : UInt32} (hpos : IsLong pos) (hsize : size.toNat = w)
    (hw : w < 2147483648) :
    (if size.toNat < ulong pos then long size.toNat else pos) = min pos w ↔ 0 ≤ pos := by
  have hlong : long size.toNat = w := by
    rw [hsize]
    exact long_of_isLong ⟨by omega, hw⟩
  unfold IsLong at hpos
  rw [hlong, hsize]
  unfold ulong
  split <;> omega

/-- The size computed for a size wanted. -/
theorem newSize_of_wanted {w : Int} (hoffs : IsLong offset)
    (hw : wantedSize efh offset mode = some w) :
    newSize efh offset mode = long w := by
  rw [newSize_eq hoffs, hw]
  rfl

/-- Something was wanted, or the size is the mark. -/
theorem wanted_of_newSize (hoffs : IsLong offset) (hn : 0 ≤ newSize efh offset mode) :
    ∃ w, wantedSize efh offset mode = some w ∧ w % 4294967296 < 2147483648 := by
  rw [newSize_eq hoffs] at hn
  cases hw : wantedSize efh offset mode with
  | none =>
      rw [hw] at hn
      exact absurd hn (by decide)
  | some w =>
      rw [hw] at hn
      exact ⟨w, rfl, (long_nonneg_iff w).mp hn⟩

theorem setFileSize_needs (hoffs : IsLong offset) (hserver : RepliesSize g id offset mode ans)
    (hlongs : ∀ efh ∈ fhLookup g.gFH id, IsLong efh.efhFilePos)
    (hrun : actSETFILESIZE g id offset mode numLocks ans = .ok g')
    (h : AllOrNothing g g' id offset mode numLocks ans) :
    Sizable g id offset mode numLocks ans := by
  rintro efh hlook w hw hwrap ⟨size, rfl⟩
  obtain ⟨hkept, hset⟩ := h.2 efh hlook
  have hnew := newSize_of_wanted hoffs hw
  have hn : 0 ≤ newSize efh offset mode := by
    rw [hnew]
    exact (long_nonneg_iff w).mpr hwrap
  have hsize : size.toNat = newSize efh offset mode := hserver efh hlook hn size rfl
  have hlt : newSize efh offset mode < 2147483648 := by
    rw [hnew]
    exact (isLong_long w).2
  have hnot : (FlushServed (g.state efh) → numLocks ≤ 1) →
      ¬ SizeRefusal g efh offset mode numLocks (.done size) := by
    intro hlocks href
    have hres1 := (hkept href).res1
    rw [(actSETFILESIZE_sets hlook hrun hlocks hn).1, hsize, long_of_isLong ⟨by omega, hlt⟩]
      at hres1
    omega
  have hflush : FlushServed (g.state efh) := by
    by_contra hfails
    exact hnot (fun hyes => absurd hyes hfails) (.flushFails hfails)
  refine ⟨hflush, fun hlocks => ?_⟩
  have hnone := hnot fun _ => hlocks
  have hrange : 0 ≤ w ∧ w < 2147483648 := by
    by_contra hout
    exact hnone (.noSize hw hout)
  have hww : newSize efh offset mode = w := by
    rw [hnew]
    exact long_of_isLong ⟨by omega, hrange.2⟩
  obtain ⟨w', hw', hsizeSet⟩ := hset hnone
  obtain rfl : w = w' := Option.some.inj (hw.symm.trans hw')
  obtain ⟨efh₁, hefh₁, -, hpos₁⟩ := (actSETFILESIZE_sets hlook hrun (fun _ => hlocks) hn).2
  obtain ⟨efh₂, hefh₂, -, hpos₂⟩ := hsizeSet.file
  obtain rfl : efh₁ = efh₂ := Option.some.inj (hefh₁.symm.trans hefh₂)
  refine ⟨hrange.1, hrange.2, ?_⟩
  exact (setPos_eq_min_iff (hlongs efh hlook) (hsize.trans hww) hrange.2).mp
    (hpos₁.symm.trans hpos₂)

/-- A packet that is to be refused fails. -/
theorem Sizable.kept (h : Sizable g id offset mode numLocks ans) (hans : ans ≠ .failed 0)
    (hoffs : IsLong offset) (hlook : fhLookup g.gFH id = some efh)
    (hrun : actSETFILESIZE g id offset mode numLocks ans = .ok g')
    (href : SizeRefusal g efh offset mode numLocks ans) : SizeKept g g' id efh := by
  apply actSETFILESIZE_fails hans hlook hrun
  by_contra hnone
  obtain ⟨hlocks', hnone⟩ := not_or.mp hnone
  obtain ⟨hn, hdone⟩ := not_or.mp hnone
  have hlocks : FlushServed (g.state efh) → numLocks ≤ 1 := fun hflush =>
    Nat.not_lt.mp fun hlt => hlocks' ⟨hflush, hlt⟩
  obtain ⟨w, hw, hwrap⟩ := wanted_of_newSize hoffs (Int.not_lt.mp hn)
  obtain ⟨size, rfl⟩ : ∃ size, ans = .done size := by
    cases ans with
    | done size => exact ⟨size, rfl⟩
    | failed res2 => exact absurd ⟨res2, rfl⟩ hdone
  obtain ⟨hflush, hrest⟩ := h efh hlook w hw hwrap ⟨size, rfl⟩
  obtain ⟨hlow, hhigh, -⟩ := hrest (hlocks hflush)
  cases href with
  | otherLock hlt => exact absurd (hlocks hflush) (Nat.not_le.mpr hlt)
  | flushFails hfails => exact hfails hflush
  | unknownMode hmode => cases hw.symm.trans hmode
  | noSize hwant hout =>
      cases hw.symm.trans hwant
      exact hout ⟨hlow, hhigh⟩
  | server hrefused => cases hrefused

/-- Any other sets the size. -/
theorem Sizable.set (h : Sizable g id offset mode numLocks ans) (hoffs : IsLong offset)
    (hserver : RepliesSize g id offset mode ans)
    (hlongs : ∀ efh ∈ fhLookup g.gFH id, IsLong efh.efhFilePos)
    (hlook : fhLookup g.gFH id = some efh)
    (hrun : actSETFILESIZE g id offset mode numLocks ans = .ok g')
    (hnone : ¬ SizeRefusal g efh offset mode numLocks ans) :
    ∃ w, wantedSize efh offset mode = some w ∧ SizeSet g' id efh w := by
  cases ans with
  | failed res2 => exact absurd (.server rfl) hnone
  | done size =>
      have hlocks : numLocks ≤ 1 := by
        by_contra hlt
        exact hnone (.otherLock (Nat.lt_of_not_le hlt))
      cases hw : wantedSize efh offset mode with
      | none => exact absurd (.unknownMode hw) hnone
      | some w =>
          have hrange : 0 ≤ w ∧ w < 2147483648 := by
            by_contra hout
            exact hnone (.noSize hw hout)
          have hnew : newSize efh offset mode = w := by
            rw [newSize_of_wanted hoffs hw]
            exact long_of_isLong ⟨by omega, hrange.2⟩
          have hn : 0 ≤ newSize efh offset mode := hnew ▸ hrange.1
          have hsize : size.toNat = w := (hserver efh hlook hn size rfl).trans hnew
          have hlong : long size.toNat = w := by
            rw [hsize]
            exact long_of_isLong ⟨by omega, hrange.2⟩
          have hpos := (h efh hlook w hw (by omega) ⟨size, rfl⟩).2 hlocks
          obtain ⟨h1, efh', hefh', hlen', hpos'⟩ :=
            actSETFILESIZE_sets hlook hrun (fun _ => hlocks) hn
          refine ⟨w, rfl, h1.trans hlong, efh', hefh', hlen'.trans hlong, hpos'.trans ?_⟩
          exact (setPos_eq_min_iff (hlongs efh hlook) hsize hrange.2).mpr hpos.2.2

theorem Sizable.allOrNothing (h : Sizable g id offset mode numLocks ans) (hans : ans ≠ .failed 0)
    (hoffs : IsLong offset) (hserver : RepliesSize g id offset mode ans)
    (hlongs : ∀ efh ∈ fhLookup g.gFH id, IsLong efh.efhFilePos)
    (hrun : actSETFILESIZE g id offset mode numLocks ans = .ok g') :
    AllOrNothing g g' id offset mode numLocks ans := by
  constructor
  · intro hlook
    unfold actSETFILESIZE at hrun
    rw [hlook] at hrun
    cases hrun
    exact ⟨rfl, show errorFileNotObject ≠ 0 by decide, rfl, rfl⟩
  · exact fun efh hlook => ⟨h.kept hans hoffs hlook hrun, h.set hoffs hserver hlongs hlook hrun⟩

/-- The action replies to every packet. -/
theorem actSETFILESIZE_replies (hinv : PoolInv g.pool g.gFH) :
    ∃ g', actSETFILESIZE g id offset mode numLocks ans = .ok g' := by
  unfold actSETFILESIZE
  cases hlook : fhLookup g.gFH id with
  | none => exact ⟨_, rfl⟩
  | some efh =>
      obtain ⟨-, pre, post, hsplit, -⟩ := fhLookup_split hlook
      rw [hsplit] at hinv
      have howns : Owns (g.state efh).w _ := hinv.owns g.srv
      obtain ⟨err, s, hflush, -⟩ := flushBuffered_spec howns
      simp only [hflush, bind, Except.bind]
      cases err with
      | some res2 => exact ⟨_, rfl⟩
      | none =>
          by_cases hlocks : 1 < numLocks
          · exact ⟨_, if_pos hlocks⟩
          · exact ⟨_, if_neg hlocks⟩

theorem setFileSize_allOrNothing_iff (hinv : PoolInv g.pool g.gFH) (hans : ans ≠ .failed 0)
    (hoffs : IsLong offset) (hserver : RepliesSize g id offset mode ans)
    (hlongs : ∀ efh ∈ fhLookup g.gFH id, IsLong efh.efhFilePos) :
    (∃ g', actSETFILESIZE g id offset mode numLocks ans = .ok g' ∧
      AllOrNothing g g' id offset mode numLocks ans) ↔ Sizable g id offset mode numLocks ans := by
  constructor
  · rintro ⟨g', hrun, hall⟩
    exact setFileSize_needs hoffs hserver hlongs hrun hall
  · intro hsizable
    obtain ⟨g', hrun⟩ := actSETFILESIZE_replies hinv
    exact ⟨g', hrun, hsizable.allOrNothing hans hoffs hserver hlongs hrun⟩

/-- The number of locks is the one `lock_NumLocksFromKey` answers for the lock of the handle: a
second lock of the key makes the size a refusal. -/
theorem otherLock_of_key {σ : Type} {v : Lock.Global σ}
    (hnodup : (v.locks.map Lock.ELOCK.addr).Nodup)
    {l l' : Lock.ELOCK} (hl : l ∈ v.locks) (hl' : l' ∈ v.locks) (hkey : l'.flKey = l.flKey)
    (hne : l' ≠ l) :
    SizeRefusal g efh offset mode (Lock.lockNumLocksFromKey v.locks l.flKey) ans := by
  refine .otherLock ?_
  by_contra hone
  exact hne ((Lock.Global.numLocks_le_one_iff hnodup hl).mp hone l' hl' hkey)

end Size

theorem setFileSize_allOrNothing_iff_exOpened :
    ∃ g, run stepRun (gInit exGlobal 1 16 1 true) exOpened = .ok g ∧
      ∃ g', actSETFILESIZE g 1 5 OFFSET_BEGINNING 1 (.done 5) = .ok g' ∧
        AllOrNothing g g' 1 5 OFFSET_BEGINNING 1 (.done 5) := by
  have hends : (run stepRun (gInit exGlobal 1 16 1 true) exOpened).toOption.map (fun g =>
      (fhLookup g.gFH 1).map fun efh => (efh.efhFilePos, decide (FlushServed (g.state efh)))) =
      some (some (0, true)) := by
    decide +kernel
  cases hrun : run stepRun (gInit exGlobal 1 16 1 true) exOpened with
  | error f => rw [hrun] at hends; cases hends
  | ok g =>
      rw [hrun] at hends
      simp only [Except.toOption, Option.map_some, Option.some.injEq, Prod.mk.injEq,
        Option.map_eq_some_iff, decide_eq_true_eq] at hends
      obtain ⟨efh, hlook, hpos, hflush⟩ := hends
      have hinv := poolInv_run 1 16 1 true (by decide +kernel) hrun
      have hserver : RepliesSize g 1 5 OFFSET_BEGINNING (.done 5) := by
        rintro efh' - - size hdone
        cases hdone
        rfl
      have hlongs : ∀ efh' ∈ fhLookup g.gFH 1, IsLong efh'.efhFilePos := by
        intro efh' hlook'
        obtain rfl : efh = efh' := Option.some.inj (hlook.symm.trans hlook')
        rw [hpos]
        decide
      have hsizable : Sizable g 1 5 OFFSET_BEGINNING 1 (.done 5) := by
        rintro efh' hlook' w hw - -
        obtain rfl : efh = efh' := Option.some.inj (hlook.symm.trans hlook')
        cases hw
        exact ⟨hflush, fun _ => ⟨by decide, by decide, by omega⟩⟩
      have hans : SizeAnswer.done 5 ≠ .failed 0 := by
        intro hfailed
        cases hfailed
      have hoffs : IsLong 5 := by decide
      exact ⟨g, rfl, (setFileSize_allOrNothing_iff hinv hans hoffs hserver hlongs).mpr hsizable⟩

/-- The flush fails, the size is set all the same. -/
theorem setFileSize_after_flush :
    ∃ g₁ g₂, run stepRun (gInit exFull 1 16 1 true) exCached = .ok g₁ ∧
      step g₁ (.setFileSize 1 5 OFFSET_BEGINNING 1 (.done 5)) = .ok g₂ ∧ g₂.gRes1 = 5 ∧
      ¬ AllOrNothing g₁ g₂ 1 5 OFFSET_BEGINNING 1 (.done 5) := by
  have hends : (run stepRun (gInit exFull 1 16 1 true) exCached).toOption.map (fun g₁ =>
      ((fhLookup g₁.gFH 1).map fun efh => decide (FlushServed (g₁.state efh)),
        (step g₁ (.setFileSize 1 5 OFFSET_BEGINNING 1 (.done 5))).toOption.map
          fun g₂ => g₂.gRes1)) =
      some (some false, some 5) := by
    decide +kernel
  cases hrun : run stepRun (gInit exFull 1 16 1 true) exCached with
  | error f => rw [hrun] at hends; cases hends
  | ok g₁ =>
      rw [hrun] at hends
      cases hlook : fhLookup g₁.gFH 1 with
      | none => simp [hlook, Except.toOption] at hends
      | some efh =>
          cases hstep : step g₁ (.setFileSize 1 5 OFFSET_BEGINNING 1 (.done 5)) with
          | error f => simp [hlook, hstep, Except.toOption] at hends
          | ok g₂ =>
              simp only [hlook, hstep, Except.toOption, Option.map_some, Option.some.injEq,
                Prod.mk.injEq, decide_eq_false_iff_not] at hends
              refine ⟨g₁, g₂, rfl, hstep, hends.2, fun h => ?_⟩
              have hres1 := ((h.2 efh hlook).1 (.flushFails hends.1)).res1
              rw [hends.2] at hres1
              exact absurd hres1 (by decide)

end Anfs.File
