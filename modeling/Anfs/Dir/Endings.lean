import Anfs.Dir.Course

/-!
# How a scan tells its client that it ends

Both actions keep the error of a packet in `Res2`, which is shared by the READDIRs, the look-ups
and the result. A packet that fails is compared by the reason it fails for with the code it gives.
-/
namespace Anfs.Dir
open Anfs.Lib Anfs.Xdr Anfs.Nfs
open Anfs.File (DOSTRUE DOSFALSE)

/-- The convention for a packet that fails for the reason `e` with the code `res2`; `complete`
says that all entries of its scan have been delivered. -/
structure Told (complete : Prop) (e : Ending) (res2 : Int) : Prop where
  nonzero : res2 ≠ 0
  noMore : res2 = errorNoMoreEntries → (e = .exhausted ∧ complete) ∨ e = .noScan
  read : ∀ err, e = .readFailed err → res2 = err
  attr : ∀ err, e = .attrFailed err → res2 = err
  lock : e = .invalidLock → res2 = errorInvalidLock

/-- If a packet fails, its client is told why. -/
def FailsTold (complete : Prop) (ending : Option Ending) (g : Global) : Prop :=
  g.gRes1 = DOSFALSE → ∃ e, ending = some e ∧ Told complete e g.gRes2

/-- Errors of the RPC layer are taken for the end of the directory. -/
def readCode (err : Int) : Int := if 1000 < err then errorNoMoreEntries else err

/-- The code of a failure; a copy that fails is told differently by the two actions. -/
def codeOf (noCopyCode : Bool → Int) : Ending → Int
  | .badNumber => errorBadNumber
  | .invalidLock => 0
  | .noScan => errorNoMoreEntries
  | .wrongDir => errorObjectWrongType
  | .noHandle => errorNoFreeStore
  | .exhausted => errorNoMoreEntries
  | .readFailed err => readCode err
  | .readEmpty before => readCode before
  | .noCopy eof => noCopyCode eof
  | .attrFailed err => err

def nextCode : Ending → Int := codeOf fun eof => if eof then errorNoMoreEntries
    else errorNoFreeStore
def allCode : Ending → Int := codeOf fun _ => errorNoFreeStore

/-- The reasons that the code of the action tells rightly. -/
def Tells (noCopyRight : Bool → Prop) (complete : Prop) : Ending → Prop
  | .invalidLock => False
  | .exhausted => complete
  | .readFailed err => err ≠ 0 ∧ err ≠ errorNoMoreEntries ∧ err ≤ 1000
  | .readEmpty before => before ≠ 0
  | .noCopy eof => noCopyRight eof
  | .attrFailed err => err ≠ 0 ∧ err ≠ errorNoMoreEntries
  | _ => True

def NextTells (complete : Prop) : Ending → Prop := Tells (fun eof => eof = false) complete
def AllTells (complete : Prop) : Ending → Prop := Tells (fun _ => True) complete

/-- `Res2` before a refill: nothing, or what a look-up left that had to be repeated. -/
def Before (res2 : Int) : Prop := res2 = 0 ∨ res2 = errorNoFreeStore

/-- The reason has come up in a packet. -/
def Ending.Real (e : Ending) : Prop := ∀ before, e = .readEmpty before → Before before

section Codes
variable {complete : Prop} {e : Ending} {res2 : Int}

/-- A code that is neither the end nor nothing tells every reason but the three. -/
theorem Told.of_plain (hzero : res2 ≠ 0) (hmore : res2 ≠ errorNoMoreEntries)
    (hread : ∀ err, e ≠ .readFailed err) (hattr : ∀ err, e ≠ .attrFailed err)
    (hlock : e ≠ .invalidLock) : Told complete e res2 where
  nonzero := hzero
  noMore := fun h => absurd h hmore
  read := fun err h => absurd h (hread err)
  attr := fun err h => absurd h (hattr err)
  lock := fun h => absurd h hlock

/-- The code of the end is for the end, and for a packet without a scan. -/
theorem Told.ends (h : Told complete e errorNoMoreEntries) : e = .exhausted ∨ e = .noScan :=
  (h.noMore rfl).imp_left fun hend => hend.1

theorem told_readFailed (err : Int) : Told complete (.readFailed err) (readCode err) ↔
    err ≠ 0 ∧ err ≠ errorNoMoreEntries ∧ err ≤ 1000 := by
  constructor
  · intro h
    have hcode : readCode err = err := h.read err rfl
    have hmore : err ≠ errorNoMoreEntries := by
      intro herr
      rw [hcode.trans herr] at h
      rcases h.ends with he | he <;> cases he
    refine ⟨hcode ▸ h.nonzero, hmore, ?_⟩
    by_contra hbig
    rw [readCode, if_pos (Int.not_le.mp hbig)] at hcode
    exact hmore hcode.symm
  · rintro ⟨hzero, hmore, hsmall⟩
    have hcode : readCode err = err := if_neg (Int.not_lt.mpr hsmall)
    rw [hcode]
    refine ⟨hzero, fun h => absurd h hmore, ?_, fun _ h => Ending.noConfusion h,
      fun h => Ending.noConfusion h⟩
    intro err' h
    cases h
    rfl

theorem told_attrFailed (err : Int) :
    Told complete (.attrFailed err) err ↔ err ≠ 0 ∧ err ≠ errorNoMoreEntries := by
  constructor
  · intro h
    refine ⟨h.nonzero, fun herr => ?_⟩
    rw [herr] at h
    rcases h.ends with he | he <;> cases he
  · rintro ⟨hzero, hmore⟩
    refine ⟨hzero, fun h => absurd h hmore, fun _ h => Ending.noConfusion h, ?_,
      fun h => Ending.noConfusion h⟩
    intro err' h
    cases h
    rfl

theorem told_readEmpty {before : Int} (hbefore : Before before) :
    Told complete (.readEmpty before) (readCode before) ↔ before ≠ 0 := by
  rcases hbefore with rfl | rfl
  · exact ⟨fun h => absurd rfl h.nonzero, fun h => absurd rfl h⟩
  · refine ⟨fun _ => by decide, fun _ => ?_⟩
    exact Told.of_plain (by decide) (by decide) (fun _ h => Ending.noConfusion h)
      (fun _ h => Ending.noConfusion h) (fun h => Ending.noConfusion h)

theorem told_invalidLock : ¬ Told complete .invalidLock 0 := fun h => h.nonzero rfl

theorem told_noScan : Told complete .noScan errorNoMoreEntries where
  nonzero := by decide
  noMore := fun _ => .inr rfl
  read := fun _ h => Ending.noConfusion h
  attr := fun _ h => Ending.noConfusion h
  lock := fun h => Ending.noConfusion h

theorem told_exhausted : Told complete .exhausted errorNoMoreEntries ↔ complete := by
  constructor
  · intro h
    exact (h.noMore rfl).elim (fun hend => hend.2) (fun he => Ending.noConfusion he)
  · intro h
    exact ⟨by decide, fun _ => .inl ⟨rfl, h⟩, fun _ h => Ending.noConfusion h,
      fun _ h => Ending.noConfusion h, fun h => Ending.noConfusion h⟩

/-- The code of the end does not tell that a copy failed. -/
theorem not_told_noCopy (eof : Bool) : ¬ Told complete (.noCopy eof) errorNoMoreEntries := by
  intro h
  rcases h.ends with he | he <;> cases he

theorem told_noFreeStore (he : e = .noHandle ∨ ∃ eof, e = .noCopy eof) :
    Told complete e errorNoFreeStore := by
  rcases he with rfl | ⟨eof, rfl⟩ <;>
    exact Told.of_plain (by decide) (by decide) (fun _ h => Ending.noConfusion h)
      (fun _ h => Ending.noConfusion h) (fun h => Ending.noConfusion h)

/-- When the codes of an action tell the reason. -/
theorem told_codeOf {noCopyCode : Bool → Int} {noCopyRight : Bool → Prop}
    (hcopy : ∀ eof, Told complete (.noCopy eof) (noCopyCode eof) ↔ noCopyRight eof)
    (hreal : e.Real) : Told complete e (codeOf noCopyCode e) ↔ Tells noCopyRight complete e := by
  cases e with
  | invalidLock => exact ⟨told_invalidLock, False.elim⟩
  | noScan => exact iff_of_true told_noScan trivial
  | exhausted => exact told_exhausted
  | noHandle => exact iff_of_true (told_noFreeStore (.inl rfl)) trivial
  | readFailed err => exact told_readFailed err
  | readEmpty before => exact told_readEmpty (hreal before rfl)
  | noCopy eof => exact hcopy eof
  | attrFailed err => exact told_attrFailed err
  | badNumber =>
      exact iff_of_true (Told.of_plain (show errorBadNumber ≠ 0 by decide)
        (show errorBadNumber ≠ errorNoMoreEntries by decide) (fun _ h => Ending.noConfusion h)
        (fun _ h => Ending.noConfusion h) (fun h => Ending.noConfusion h)) trivial
  | wrongDir =>
      exact iff_of_true (Told.of_plain (show errorObjectWrongType ≠ 0 by decide)
        (show errorObjectWrongType ≠ errorNoMoreEntries by decide)
        (fun _ h => Ending.noConfusion h) (fun _ h => Ending.noConfusion h)
        (fun h => Ending.noConfusion h)) trivial

theorem told_nextCode (hreal : e.Real) : Told complete e (nextCode e) ↔ NextTells complete e := by
  refine told_codeOf (fun eof => ?_) hreal
  cases eof with
  | false => exact iff_of_true (told_noFreeStore (.inr ⟨_, rfl⟩)) rfl
  | true => exact ⟨fun h => absurd h (not_told_noCopy true), fun h => by cases h⟩

theorem told_allCode (hreal : e.Real) : Told complete e (allCode e) ↔ AllTells complete e :=
  told_codeOf (fun eof => iff_of_true (told_noFreeStore (.inr ⟨eof, rfl⟩)) trivial) hreal

end Codes

section Refill
variable {maxFileNameLen fuel : Nat} {srv srv' : Server} {edh edh' : EDH} {res2 res2' : Int}
  {left : List Entry}

/-- `Res2` behind a refill without entries. -/
def refillCode (edh : EDH) (res2 : Int) : Int :=
  readCode (if edh.edhEof then errorNoMoreEntries else res2)

/-- A refill without entries gives the code of its reason. -/
theorem refillCode_eq
    (h : nextdir maxFileNameLen fuel srv edh res2 = some (left, edh', res2', srv'))
    (heof : edh.edhEof = false) (noCopyCode : Bool → Int) :
    refillCode edh' res2' = codeOf noCopyCode (refillEnding edh' srv' res2) := by
  obtain ⟨hfailed, hnone⟩ := nextdir_ends h heof
  unfold refillCode refillEnding
  cases hlast : srv'.lastFailed with
  | some err =>
      obtain ⟨-, heof', rfl⟩ := hfailed err hlast
      rw [heof']
      rfl
  | none =>
      rw [hnone hlast]
      cases edh'.edhEof with
      | false => rfl
      | true => rfl

theorem refillEnding_real (hbefore : Before res2) : (refillEnding edh srv res2).Real := by
  unfold refillEnding Ending.Real
  intro before h
  cases hlast : srv.lastFailed with
  | some err =>
      rw [hlast] at h
      cases h
  | none =>
      rw [hlast] at h
      cases heof : edh.edhEof with
      | true =>
          rw [heof] at h
          cases h
      | false =>
          rw [heof] at h
          cases h
          exact hbefore

end Refill

/-- A packet has succeeded, or it has failed for a reason and with its code. -/
def Ends (code : Ending → Int) (ending : Option Ending) (g : Global) : Prop :=
  (ending = none ∧ g.gRes1 = DOSTRUE) ∨
  ∃ e, ending = some e ∧ e.Real ∧ g.gRes1 = DOSFALSE ∧ g.gRes2 = code e

theorem Ends.fails {code : Ending → Int} {e : Ending} {g : Global} {res2 : Int}
    (hreal : e.Real) (hcode : res2 = code e) : Ends code (some e) (g.setRes DOSFALSE res2) :=
  .inr ⟨e, rfl, hreal, rfl, hcode⟩

/-- A reason that is no refill's has come up whatever the packet. -/
theorem Ending.Real.of_ne {e : Ending} (h : ∀ before, e ≠ .readEmpty before) : e.Real :=
  fun before he => absurd he (h before)

/-- When the codes are right for the reasons, the client is told if and only if the reason
allows. -/
theorem Ends.told_iff {complete : Prop} {code : Ending → Int} {right : Ending → Prop}
    {ending : Option Ending} {g : Global} (h : Ends code ending g)
    (hright : ∀ e : Ending, e.Real → (Told complete e (code e) ↔ right e)) :
    FailsTold complete ending g ↔ ∀ e, ending = some e → right e := by
  rcases h with ⟨rfl, htrue⟩ | ⟨e, rfl, hreal, hfalse, hcode⟩
  · refine iff_of_true (fun hfalse => ?_) (fun e he => by cases he)
    rw [htrue] at hfalse
    exact absurd hfalse (by decide)
  · constructor
    · intro h e' he
      cases he
      obtain ⟨e', he, htold⟩ := h hfalse
      cases he
      exact (hright e hreal).mp (hcode ▸ htold)
    · intro h hres1
      exact ⟨e, rfl, hcode ▸ (hright e hreal).mpr (h e rfl)⟩

section Next
variable {g g' : Global} {efl : ELOCK} {edh : EDH} {fib fib' : FIB} {ans : NextAnswers}

theorem takeEntry_ends {res2 : Int} (h : takeEntry g edh fib res2 ans = some (g', fib')) :
    Ends nextCode (attrEnding ans) g' := by
  unfold takeEntry at h
  cases hentries : edh.edhNFSEntries with
  | nil =>
      rw [hentries] at h
      cases h
  | cons e rest =>
      rw [hentries] at h
      unfold attrEnding
      cases hattr : ans.attr with
      | ok attr =>
          simp only [hattr, Option.some.injEq, Prod.mk.injEq] at h
          exact .inl ⟨rfl, h.1 ▸ rfl⟩
      | error err =>
          simp only [hattr, Option.some.injEq, Prod.mk.injEq] at h
          exact h.1 ▸ .fails (.of_ne fun _ he => by cases he) rfl

theorem examineNext_ends (h : examineNext g efl edh fib ans = some (g', fib')) :
    Ends nextCode ((handleCourse g efl edh ans).bind Course.ending) g' := by
  unfold examineNext at h
  unfold handleCourse withEntries
  by_cases hsame : efl.eflNFSFh = edh.edhNFSDirFh
  · rw [if_pos hsame] at h ⊢
    by_cases hentries : edh.edhNFSEntries = []
    · rw [if_pos hentries] at h ⊢
      unfold refillNext at h
      cases heof : edh.edhEof with
      | true =>
          simp only [heof, ↓reduceIte, Option.some.injEq, Prod.mk.injEq] at h ⊢
          exact h.1 ▸ .fails (.of_ne fun _ he => by cases he) rfl
      | false =>
          simp only [heof, Bool.false_eq_true, ↓reduceIte] at h ⊢
          cases hnext : nextdir g.gMaxFileNameLen (g.srv.rounds edh.edhNFSDirFh) g.srv edh 0 with
          | none =>
              rw [hnext] at h
              cases h
          | some r =>
              obtain ⟨left, edh₁, res2, srv⟩ := r
              simp only [hnext] at h ⊢
              by_cases hleft : left = []
              · simp only [hleft, ne_eq, not_true_eq_false, false_and, ↓reduceIte,
                  Option.some.injEq,
                  Prod.mk.injEq] at h ⊢
                exact h.1 ▸ .fails (refillEnding_real (.inl rfl)) (refillCode_eq hnext heof _)
              · rw [if_neg hleft]
                cases hok : ans.entriesOk with
                | true =>
                    rw [if_pos ⟨hleft, hok⟩] at h
                    exact takeEntry_ends h
                | false =>
                    simp only [hok, Bool.false_eq_true, and_false, ↓reduceIte, ne_eq, hleft,
                      not_false_eq_true,
                      Option.some.injEq, Prod.mk.injEq] at h ⊢
                    refine h.1 ▸ .fails (.of_ne fun _ he => by cases he) ?_
                    cases edh₁.edhEof with
                    | false => rfl
                    | true => rfl
    · rw [if_neg hentries] at h ⊢
      exact takeEntry_ends h
  · rw [if_neg hsame] at h ⊢
    cases h
    exact .fails (.of_ne fun _ he => by cases he) rfl

theorem actEXAMINENEXT_ends {fl : LockArg} (h : actEXAMINENEXT g fl fib ans = some (g', fib')) :
    Ends nextCode ((nextCourse g fl fib ans).bind Course.ending) g' := by
  unfold actEXAMINENEXT at h
  unfold nextCourse
  cases hlock : fl.lookup with
  | none =>
      simp only [hlock, Option.some.injEq, Prod.mk.injEq] at h ⊢
      exact h.1 ▸ .fails (.of_ne fun _ he => by cases he) rfl
  | some efl =>
      simp only [hlock] at h ⊢
      cases hfind : dirLookupFromKeyAndCookieAndCBSTR g efl.flKey fib.fibDiskKey
        fib.fibFileName with
      | some edh =>
          rw [hfind] at h
          exact examineNext_ends h
      | none =>
          simp only [hfind] at h ⊢
          by_cases hkey : efl.flKey ≠ fib.fibDiskKey
          · rw [if_pos hkey] at h ⊢
            cases h
            exact .fails (.of_ne fun _ he => by cases he) rfl
          · rw [if_neg hkey] at h ⊢
            cases hok : ans.edhOk with
            | true =>
                rw [hok] at h
                exact examineNext_ends h
            | false =>
                rw [hok] at h
                cases h
                exact .fails (.of_ne fun _ he => by cases he) rfl

end Next

section All
variable {p : ExAllPacket} {g g' : Global} {s s' : AllState} {e : Entry}

theorem lookupAttr_res2 {attr : Nat → Except Int Fattr} {lookups lookups' : Nat} {res2 res2' : Int}
    {a : Except Int Fattr} (h : lookupAttr attr lookups res2 = (a, res2', lookups')) :
    (∀ found, a = .ok found → Before res2 → Before res2') ∧
    (∀ err, a = .error err → res2' = err) := by
  unfold lookupAttr at h
  cases hfirst : attr lookups with
  | ok found =>
      simp only [hfirst, Prod.mk.injEq] at h
      obtain ⟨rfl, rfl, rfl⟩ := h
      exact ⟨fun _ _ hbefore => hbefore, fun _ he => by cases he⟩
  | error err =>
      simp only [hfirst] at h
      by_cases hstore : err = errorNoFreeStore
      · rw [if_pos hstore] at h
        cases hagain : attr (lookups + 1) with
        | ok found =>
            simp only [hagain, Prod.mk.injEq] at h
            obtain ⟨rfl, rfl, rfl⟩ := h
            exact ⟨fun _ _ _ => .inr hstore, fun _ he => by cases he⟩
        | error err' =>
            simp only [hagain, Prod.mk.injEq] at h
            obtain ⟨rfl, rfl, rfl⟩ := h
            exact ⟨fun _ he => (by cases he), fun _ he => (by cases he; rfl)⟩
      · rw [if_neg hstore] at h
        simp only [Prod.mk.injEq] at h
        obtain ⟨rfl, rfl, rfl⟩ := h
        exact ⟨fun _ he => (by cases he), fun _ he => (by cases he; rfl)⟩

@[simp] theorem AllState.removed_res2 (s : AllState) (e : Entry) (rest : List Entry) :
    (s.removed e rest).res2 = s.res2 := rfl

@[simp] theorem AllState.chained_res2 (s : AllState) (buf : UInt32) (entrySize : Nat) :
    (s.chained buf entrySize).res2 = s.res2 := rfl

theorem AllState.stored_res2 {entrySize : Int} {mem : Nat → UInt8}
    (h : s.stored p e entrySize mem = some s') : s'.res2 = s.res2 := by
  unfold AllState.stored at h
  by_cases hfits : entrySize < 0
  · rw [if_pos hfits] at h
    cases h
  · rw [if_neg hfits] at h
    by_cases hhook : (p.eac.eacMatchFunc.all fun f => f e) = true
    · rw [if_pos hhook] at h
      cases h
      rfl
    · rw [if_neg hhook] at h
      cases h
      rfl

theorem AllState.putEntry_res2 {a : Fattr} (h : s.putEntry p e a = some s') : s'.res2 = s.res2 := by
  obtain ⟨entrySize, mem, hstored⟩ := AllState.putEntry_stored s p e a
  exact AllState.stored_res2 (hstored ▸ h)

/-- `Res2` behind a turn. -/
def LeavesRes2 : Except (EntriesEnd × AllState) AllState → Prop
  | .ok s => Before s.res2
  | .error (left, s) => left ≠ .empty ∧ ∀ err, left = .failed err → s.res2 = err

theorem AllState.put_res2 (a : Fattr) (rest : List Entry) (hbefore : Before s.res2) :
    LeavesRes2 (s.put p e a rest) := by
  unfold AllState.put
  cases hput : s.putEntry p e a with
  | none => exact ⟨fun he => (by cases he), fun _ he => (by cases he)⟩
  | some s₁ =>
      have hres2 : s₁.res2 = s.res2 := AllState.putEntry_res2 hput
      show Before s₁.res2
      rw [hres2]
      exact hbefore

theorem AllState.entry_res2 (attr : Nat → Except Int Fattr) (rest : List Entry)
    (hbefore : Before s.res2) :
    LeavesRes2 (s.entry p attr e rest) := by
  unfold AllState.entry
  by_cases hpattern : (p.eac.eacMatchString.all fun f => f e.name) = true
  · rw [if_pos hpattern]
    by_cases htype : p.type = ED_NAME
    · rw [if_pos htype]
      exact AllState.put_res2 _ rest hbefore
    · rw [if_neg htype]
      cases hlook : lookupAttr attr s.lookups s.res2 with
      | mk a r =>
          obtain ⟨res2, lookups⟩ := r
          obtain ⟨hok, herror⟩ := lookupAttr_res2 hlook
          cases a with
          | error err =>
              refine ⟨fun he => (by cases he), fun err' he => ?_⟩
              cases he
              exact herror err rfl
          | ok found => exact AllState.put_res2 found rest (hok found rfl hbefore)
  · rw [if_neg hpattern]
    exact hbefore

/-- The loop over the entries leaves `Res2` alone but for look-ups that fail. -/
theorem allEntries_res2 {attr : Nat → Except Int Fattr} {es : List Entry} {left : EntriesEnd}
    (h : allEntries p attr es s = (left, s')) (hbefore : Before s.res2) :
    (left = .empty → Before s'.res2) ∧ (∀ err, left = .failed err → s'.res2 = err) := by
  induction es generalizing s with
  | nil =>
      cases h
      exact ⟨fun _ => hbefore, fun _ he => (by cases he)⟩
  | cons e rest ih =>
      have hentry : LeavesRes2 (s.entry p attr e rest) := AllState.entry_res2 attr rest hbefore
      unfold allEntries at h
      cases hturn : s.entry p attr e rest with
      | error r =>
          rw [hturn] at h hentry
          cases h
          exact ⟨fun he => absurd he hentry.1, hentry.2⟩
      | ok s₁ =>
          rw [hturn] at h hentry
          exact ih h hentry

theorem getNextEntries_ends {edh : EDH} {entriesOk : Bool} {res2 res2' : Int}
    {r : Except Ending EDH}
    (h : getNextEntries g edh entriesOk res2 = some (r, g', res2')) (hbefore : Before res2) :
    (∀ ending, r = .error ending → ending.Real ∧ res2' = allCode ending) ∧
    (∀ found, r = .ok found → Before res2') := by
  unfold getNextEntries at h
  cases heof : edh.edhEof with
  | true =>
      simp only [heof, ↓reduceIte, Option.some.injEq, Prod.mk.injEq] at h
      obtain ⟨rfl, -, rfl⟩ := h
      refine ⟨fun ending he => ?_, fun _ he => (by cases he)⟩
      cases he
      exact ⟨.of_ne fun _ he => (by cases he), rfl⟩
  | false =>
      simp only [heof, Bool.false_eq_true, ↓reduceIte] at h
      cases hnext : nextdir g.gMaxFileNameLen (g.srv.rounds edh.edhNFSDirFh) g.srv edh res2 with
      | none =>
          rw [hnext] at h
          cases h
      | some t =>
          obtain ⟨left, edh₁, res2₁, srv⟩ := t
          simp only [hnext] at h
          by_cases hleft : left = []
          · simp only [hleft, ne_eq, not_true_eq_false, ↓reduceIte, Option.some.injEq,
              Prod.mk.injEq] at h
            obtain ⟨rfl, -, rfl⟩ := h
            refine ⟨fun ending he => ?_, fun _ he => (by cases he)⟩
            cases he
            exact ⟨refillEnding_real hbefore, refillCode_eq hnext heof _⟩
          · rw [if_pos hleft] at h
            cases hok : entriesOk with
            | true =>
                simp only [hok, ↓reduceIte, Option.some.injEq, Prod.mk.injEq] at h
                obtain ⟨rfl, -, rfl⟩ := h
                refine ⟨fun _ he => (by cases he), fun _ _ => ?_⟩
                obtain ⟨hfailed, hnone⟩ := nextdir_ends hnext heof
                cases hlast : srv.lastFailed with
                | some err => exact absurd (hfailed err hlast).1 hleft
                | none => exact (hnone hlast).symm ▸ hbefore
            | false =>
                simp only [hok, Bool.false_eq_true, ↓reduceIte, Option.some.injEq, Prod.mk.injEq]
                  at h
                obtain ⟨rfl, -, rfl⟩ := h
                refine ⟨fun ending he => ?_, fun _ he => (by cases he)⟩
                cases he
                exact ⟨.of_ne fun _ he => (by cases he), rfl⟩

/-- The entries of a handle have been delivered, or the packet ends. -/
theorem AllState.done_ends {left : EntriesEnd} (h : ∀ err, left = .failed err → s.res2 = err) :
    Ends allCode (s.done left).1 (s.done left).2.1 := by
  cases left with
  | failed err => exact .fails (.of_ne fun _ he => by cases he) (h err rfl)
  | empty => exact .inl ⟨rfl, rfl⟩
  | full => exact .inl ⟨rfl, rfl⟩

theorem allLoop_ends {ans : AllAnswers} {fuel : Nat} {ending : Option Ending}
    (h : allLoop p ans fuel s = some (ending, g', s'))
    (hbefore : Before s.res2) : Ends allCode ending g' := by
  induction fuel generalizing s with
  | zero => cases h
  | succ fuel ih =>
      have hagain : ∀ {es : List Entry} {s₁ s₂ : AllState}, Before s₁.res2 →
          allEntries p ans.attr es s₁ = (.empty, s₂) →
          allLoop p ans fuel s₂ = some (ending, g', s') → Ends allCode ending g' :=
        fun hbefore₁ hentries h => ih h ((allEntries_res2 hentries hbefore₁).1 rfl)
      have hstop : ∀ {es : List Entry} {s₁ s₂ : AllState} {left : EntriesEnd}, Before s₁.res2 →
          allEntries p ans.attr es s₁ = (left, s₂) →
          some (s₂.done left) = some (ending, g', s') → Ends allCode ending g' := by
        intro es s₁ s₂ left hbefore₁ hentries h
        have hdone := AllState.done_ends (allEntries_res2 hentries hbefore₁).2
        rw [Option.some.inj h] at hdone
        exact hdone
      unfold allLoop at h
      dsimp only at h
      by_cases hnone : s.edh.edhNFSEntries = []
      · rw [if_pos hnone] at h
        cases hnext : getNextEntries s.g s.edh (ans.entriesOk s.refills) s.res2 with
        | none =>
            rw [hnext] at h
            cases h
        | some t =>
            obtain ⟨r, g₁, res2⟩ := t
            obtain ⟨herror, hok⟩ := getNextEntries_ends hnext hbefore
            rw [hnext] at h
            cases r with
            | error e =>
                simp only [Option.some.injEq, Prod.mk.injEq] at h
                obtain ⟨rfl, rfl, -⟩ := h
                exact .fails (herror e rfl).1 (herror e rfl).2
            | ok edh =>
                dsimp only at h
                split at h
                · rename_i hentries
                  exact hagain (hok edh rfl) hentries h
                · rename_i hentries
                  exact hstop (hok edh rfl) hentries h
      · rw [if_neg hnone] at h
        split at h
        · rename_i hentries
          exact hagain hbefore hentries h
        · rename_i hentries
          exact hstop hbefore hentries h

theorem examineAll_ends {edh : EDH} {ans : AllAnswers} {mem mem' : Nat → UInt8}
    {ending : Option Ending}
    {eac : ExAllControl} (h : examineAll g p edh ans mem = some (ending, g', eac, mem')) :
    Ends allCode ending g' := by
  unfold examineAll at h
  dsimp only at h
  split at h
  · cases h
  · rename_i hloop
    cases h
    exact allLoop_ends hloop (.inl rfl)

theorem actEXAMINEALL_ends {fl : LockArg} {ans : AllAnswers} {mem mem' : Nat → UInt8}
    {ending : Option Ending}
    {eac : ExAllControl} (h : actEXAMINEALL g fl p ans mem = some (ending, g', eac, mem')) :
    Ends allCode ending g' := by
  unfold actEXAMINEALL at h
  dsimp only at h
  split at h
  · cases h
    exact .fails (.of_ne fun _ he => by cases he) rfl
  · cases hlock : fl.lookup with
    | none =>
        simp only [hlock] at h
        cases h
        exact .fails (.of_ne fun _ he => by cases he) rfl
    | some efl =>
        simp only [hlock] at h
        cases hkey : p.eac.eacLastKey with
        | none =>
            simp only [hkey] at h
            split at h
            · exact examineAll_ends h
            · cases h
              exact .fails (.of_ne fun _ he => by cases he) rfl
        | some addr =>
            simp only [hkey] at h
            cases hfind : dirLookupFromAddress g addr with
            | some edh =>
                rw [hfind] at h
                exact examineAll_ends h
            | none =>
                rw [hfind] at h
                cases h
                exact .fails (.of_ne fun _ he => by cases he) rfl

end All

end Anfs.Dir
