import Anfs.Dir.ExamineAll

/-!
# What a packet of a scan comes to

The entries that a packet takes from its handle, and the reason it fails for, without the client's
memory and the codes of the errors. Both actions are shown to take this course, and the entries
that their READDIRs bring are accounted for.
-/
namespace Anfs.Dir
open Anfs.Lib Anfs.Xdr Anfs.Nfs
open Anfs.File (DOSTRUE DOSFALSE)

/-- The entries that a packet takes from its handle, and the reason it fails for, if it fails. -/
structure Course where
  taken : List Entry
  ending : Option Ending

/-- The handle, refilled if it holds no entries, or the reason why there are none. -/
def withEntries (maxFileNameLen : Nat) (srv : Server) (edh : EDH) (entriesOk : Bool) (res2 : Int) :
    Option (Except Ending (EDH × Server)) :=
  if edh.edhNFSEntries = [] then
    if edh.edhEof then some (.error .exhausted)
    else
      match nextdir maxFileNameLen (srv.rounds edh.edhNFSDirFh) srv edh res2 with
      | none => none
      | some (left, edh, _, srv) =>
          if left = [] then some (.error (refillEnding edh srv res2))
          else if entriesOk then some (.ok ({ edh with edhNFSEntries := left }, srv))
          else some (.error (.noCopy edh.edhEof))
  else some (.ok (edh, srv))

/-- The reason an `EXAMINE_NEXT` fails for that takes an entry. -/
def attrEnding (ans : NextAnswers) : Option Ending :=
  match ans.attr with
  | .ok _ => none
  | .error err => some (.attrFailed err)

/-- An `EXAMINE_NEXT` with a handle takes the first entry. -/
def handleCourse (g : Global) (efl : ELOCK) (edh : EDH) (ans : NextAnswers) : Option Course :=
  if efl.eflNFSFh = edh.edhNFSDirFh then
    match withEntries g.gMaxFileNameLen g.srv edh ans.entriesOk 0 with
    | none => none
    | some (.error e) => some ⟨[], some e⟩
    | some (.ok (edh, _)) => some ⟨edh.edhNFSEntries.take 1, attrEnding ans⟩
  else some ⟨[], some .wrongDir⟩

def nextCourse (g : Global) (fl : LockArg) (fib : FIB) (ans : NextAnswers) : Option Course :=
  match fl.lookup with
  | some efl =>
      match dirLookupFromKeyAndCookieAndCBSTR g efl.flKey fib.fibDiskKey fib.fibFileName with
      | some edh => handleCourse g efl edh ans
      | none =>
          if efl.flKey ≠ fib.fibDiskKey then some ⟨[], some .noScan⟩
          else if ans.edhOk then
            let edh := dirCreate g efl.flKey fib.fibDiskKey efl.eflNFSFh nullCookie
              (some fib.fibFileName)
            handleCourse (dirInsert g edh) efl edh ans
          else some ⟨[], some .noHandle⟩
  | none => some ⟨[], some .invalidLock⟩

/-- How far an `EXAMINE_ALL` has come: the bytes left in the buffer, `Res2`, the calls of
`LookupAttr`, and the entries taken from the handle. -/
structure Passage where
  size : UInt32
  res2 : Int
  lookups : Nat
  taken : List Entry

/-- An entry that matches the pattern is taken if it fits. -/
def Passage.put (s : Passage) (p : ExAllPacket) (maxFileNameLen : Nat) (e : Entry) :
    Except EntriesEnd Passage :=
  let entrySize := sizeNeeded p.type maxFileNameLen e.name
  if (entrySize : Int) ≤ long s.size.toNat then
    .ok { s with
      size := if p.eac.eacMatchFunc.all fun f => f e then
        s.size - UInt32.ofNat entrySize else s.size
      taken := s.taken ++ [e] }
  else .error .full

def Passage.entry (s : Passage) (p : ExAllPacket) (maxFileNameLen : Nat)
    (attr : Nat → Except Int Fattr) (e : Entry) : Except EntriesEnd Passage :=
  if p.eac.eacMatchString.all fun f => f e.name then
    if p.type = ED_NAME then s.put p maxFileNameLen e
    else
      match lookupAttr attr s.lookups s.res2 with
      | (.error err, _, _) => .error (.failed err)
      | (.ok _, res2, lookups) =>
          Passage.put { s with res2 := res2, lookups := lookups } p maxFileNameLen e
  else .ok { s with taken := s.taken ++ [e] }

/-- The entries of a handle are taken one by one. -/
def Passage.entries (p : ExAllPacket) (maxFileNameLen : Nat) (attr : Nat → Except Int Fattr) :
    List Entry → Passage → EntriesEnd × Passage
  | [], s => (.empty, s)
  | e :: rest, s =>
      match s.entry p maxFileNameLen attr e with
      | .error r => (r, s)
      | .ok s => Passage.entries p maxFileNameLen attr rest s

/-- The handle after all its entries have been taken. -/
def EDH.emptied (edh : EDH) : EDH :=
  { edh with
    edhNFSEntries := []
    edhNFSCookie := lastKey Entry.cookie edh.edhNFSCookie edh.edhNFSEntries }

/-- The packet ends, or goes on as `again` when the handle is empty. -/
def Passage.goOn (again : Passage → Option Course) : EntriesEnd × Passage → Option Course
  | (.empty, s) => again s
  | (.failed err, s) => some ⟨s.taken, some (.attrFailed err)⟩
  | (.full, s) => some ⟨s.taken, none⟩

/-- The handle is refilled until the buffer is full or there is nothing more. -/
def roundsCourse (p : ExAllPacket) (ans : AllAnswers) (maxFileNameLen : Nat) :
    Nat → Server → EDH → Nat → Passage → Option Course
  | 0, _, _, _, _ => none
  | fuel + 1, srv, edh, refills, s =>
      match withEntries maxFileNameLen srv edh (ans.entriesOk refills) s.res2 with
      | none => none
      | some (.error e) => some ⟨s.taken, some e⟩
      | some (.ok (edh', srv)) =>
          let refills := if edh.edhNFSEntries = [] then refills + 1 else refills
          Passage.goOn (roundsCourse p ans maxFileNameLen fuel srv edh'.emptied refills)
            (Passage.entries p maxFileNameLen ans.attr edh'.edhNFSEntries s)

def examineAllCourse (g : Global) (p : ExAllPacket) (edh : EDH)
    (ans : AllAnswers) : Option Course :=
  roundsCourse p ans g.gMaxFileNameLen
    (edh.edhNFSEntries.length + (g.srv.dirs edh.edhNFSDirFh).length + 2) g.srv edh 0
    ⟨p.size, 0, 0, []⟩

def allCourse (g : Global) (fl : LockArg) (p : ExAllPacket) (ans : AllAnswers) : Option Course :=
  if p.type < ED_NAME ∨ ED_OWNER < p.type ∨ p.size < 8 then some ⟨[], some .badNumber⟩
  else
    match fl.lookup with
    | some efl =>
        match p.eac.eacLastKey with
        | none =>
            if ans.edhOk then
              let edh := dirCreate g efl.flKey efl.flKey efl.eflNFSFh nullCookie none
              examineAllCourse (dirInsert g edh) p edh ans
            else some ⟨[], some .noHandle⟩
        | some addr =>
            match dirLookupFromAddress g addr with
            | some edh => examineAllCourse g p edh ans
            | none => some ⟨[], some .noScan⟩
    | none => some ⟨[], some .invalidLock⟩

section Refill
variable {maxFileNameLen fuel : Nat} {srv srv' : Server} {edh edh' : EDH} {res2 res2' : Int}
  {left : List Entry}

/-- A refill ends at the first READDIR that fails; else `Res2` is left as it was. -/
theorem nextdir_ends (h : nextdir maxFileNameLen fuel srv edh res2 = some (left, edh', res2', srv'))
    (heof : edh.edhEof = false) :
    (∀ err, srv'.lastFailed = some err → left = [] ∧ edh'.edhEof = false ∧ res2' = err) ∧
    (srv'.lastFailed = none → res2' = res2) := by
  induction fuel generalizing srv edh with
  | zero => cases h
  | succ fuel ih =>
      unfold nextdir nfsReadDir at h
      cases hcut : srv.cuts srv.calls with
      | failed err =>
          simp only [hcut, skipEntries, ne_eq, not_true_eq_false, false_and, ↓reduceIte,
            Option.some.injEq, Prod.mk.injEq] at h
          obtain ⟨rfl, rfl, rfl, rfl⟩ := h
          have hlast : Server.lastFailed { srv with calls := srv.calls + 1 } = some err := by
            simp only [Server.lastFailed, Nat.add_sub_cancel, hcut]
          rw [hlast]
          refine ⟨fun err' herr => ?_, fun hnone => by cases hnone⟩
          cases herr
          exact ⟨rfl, heof, rfl⟩
      | reply num late =>
          simp only [hcut] at h
          split at h
          · rename_i hagain
            exact ih h hagain.2.2
          · simp only [Option.some.injEq, Prod.mk.injEq] at h
            obtain ⟨-, -, rfl, rfl⟩ := h
            have hlast : ∀ replies, Server.lastFailed
                { srv with calls := srv.calls + 1, replies := replies } = none := by
              intro replies
              simp only [Server.lastFailed, Nat.add_sub_cancel, hcut]
            refine ⟨fun err herr => ?_, fun _ => rfl⟩
            rw [hlast] at herr
            cases herr

/-- What a refill has brought in: `left` are the new entries that it has not skipped. -/
structure Brings (maxFileNameLen : Nat) (srv srv' : Server) (left : List Entry)
    (new : List (List Entry)) : Prop where
  replies : srv'.replies = new ++ srv.replies
  brought : ∀ e ∈ left, e ∈ new.flatten
  skipped : ∀ e ∈ new.flatten, leftOut maxFileNameLen e = true ∨ e ∈ left

theorem mem_skipEntries (maxFileNameLen : Nat) (es : List Entry) (cookie : List UInt8) :
    (∀ e ∈ (skipEntries maxFileNameLen es cookie).1, e ∈ es) ∧
    ∀ e ∈ es, leftOut maxFileNameLen e = true ∨ e ∈ (skipEntries maxFileNameLen es cookie).1 := by
  induction es generalizing cookie with
  | nil => exact ⟨fun e he => he, fun e he => .inr he⟩
  | cons x es ih =>
      obtain ⟨hleft, hskipped⟩ := ih x.cookie
      unfold skipEntries
      by_cases hx : leftOut maxFileNameLen x = true
      · rw [if_pos hx]
        refine ⟨fun e he => List.mem_cons_of_mem _ (hleft e he), fun e he => ?_⟩
        rcases List.mem_cons.mp he with rfl | he
        · exact .inl hx
        · exact hskipped e he
      · rw [if_neg hx]
        exact ⟨fun e he => he, fun e he => .inr he⟩

theorem nextdir_brings
    (h : nextdir maxFileNameLen fuel srv edh res2 = some (left, edh', res2', srv')) :
    edh'.edhAddr = edh.edhAddr ∧ ∃ new, Brings maxFileNameLen srv srv' left new := by
  induction fuel generalizing srv edh res2 with
  | zero => cases h
  | succ fuel ih =>
      unfold nextdir nfsReadDir at h
      cases hcut : srv.cuts srv.calls with
      | failed err =>
          simp only [hcut, skipEntries, ne_eq, not_true_eq_false, false_and, ↓reduceIte,
            Option.some.injEq, Prod.mk.injEq] at h
          obtain ⟨rfl, rfl, -, rfl⟩ := h
          exact ⟨rfl, [], rfl, List.forall_mem_nil _, List.forall_mem_nil _⟩
      | reply num late =>
          simp only [hcut] at h
          split at h
          · rename_i hagain
            obtain ⟨-, hnone, -⟩ := hagain
            obtain ⟨haddr, new, hreplies, hbrought, hskipped⟩ := ih h
            refine ⟨haddr, new ++ [(leftBehind Entry.cookie nullCookie edh.edhNFSCookie
              (srv.dirs edh.edhNFSDirFh)).take num], ?_, fun e he => ?_, fun e he => ?_⟩
            · rw [hreplies, List.append_assoc]
              rfl
            · rw [List.flatten_append]
              exact List.mem_append_left _ (hbrought e he)
            · rw [List.flatten_append, List.flatten_cons, List.flatten_nil, List.append_nil] at he
              rcases List.mem_append.mp he with he | he
              · exact hskipped e he
              · have hgone := (mem_skipEntries maxFileNameLen _ edh.edhNFSCookie).2 e he
                rw [hnone] at hgone
                exact hgone.imp_right fun hno => by cases hno
          · simp only [Option.some.injEq, Prod.mk.injEq] at h
            obtain ⟨rfl, rfl, -, rfl⟩ := h
            refine ⟨rfl, [_], rfl, fun e he => ?_, fun e he => ?_⟩
            · rw [List.flatten_cons, List.flatten_nil, List.append_nil]
              exact (mem_skipEntries maxFileNameLen _ _).1 e he
            · rw [List.flatten_cons, List.flatten_nil, List.append_nil] at he
              exact (mem_skipEntries maxFileNameLen _ _).2 e he

/-- The handle has entries, held or new ones, and the server has brought `new`. -/
structure Stocked (maxFileNameLen : Nat) (srv : Server) (edh : EDH) (srv' : Server) (edh' : EDH)
    (new : List (List Entry)) : Prop where
  addr : edh'.edhAddr = edh.edhAddr
  replies : srv'.replies = new ++ srv.replies
  brought : ∀ e ∈ edh'.edhNFSEntries, e ∈ edh.edhNFSEntries ++ new.flatten
  skipped : ∀ e ∈ edh.edhNFSEntries ++ new.flatten,
    leftOut maxFileNameLen e = true ∨ e ∈ edh'.edhNFSEntries

theorem Stocked.refl (edh : EDH) : Stocked maxFileNameLen srv edh srv edh [] where
  addr := rfl
  replies := rfl
  brought := fun e he => List.mem_append_left _ he
  skipped := fun e he => .inr (by rwa [List.flatten_nil, List.append_nil] at he)

theorem Brings.stocked {new : List (List Entry)} (h : Brings maxFileNameLen srv srv' left new)
    (haddr : edh'.edhAddr = edh.edhAddr) (hnone : edh.edhNFSEntries = []) :
    Stocked maxFileNameLen srv edh srv' { edh' with edhNFSEntries := left } new where
  addr := haddr
  replies := h.replies
  brought := fun e he => List.mem_append_right _ (h.brought e he)
  skipped := fun e he => h.skipped e (by rwa [hnone, List.nil_append] at he)

end Refill

/-- What becomes of the handle `edh` of a packet that takes `taken` from it: it is stored, or it is
removed at the end of the scan. -/
structure Passes (g : Global) (edh : EDH) (taken : List Entry) (ending : Option Ending)
    (g' : Global) : Prop where
  maxLen : g'.gMaxFileNameLen = g.gMaxFileNameLen
  newEDH : g'.newEDH = g.newEDH
  account : ∃ new, g'.srv.replies = new ++ g.srv.replies ∧
    (∀ e ∈ taken, e ∈ edh.edhNFSEntries ++ new.flatten) ∧
    ((g'.gDH = (dirRemove g edh).gDH ∧
        (ending = some .exhausted → ∀ e ∈ edh.edhNFSEntries ++ new.flatten,
          leftOut g.gMaxFileNameLen e = true ∨ e ∈ taken)) ∨
      ∃ edh', edh'.edhAddr = edh.edhAddr ∧ g'.gDH = (dirStore g edh').gDH ∧
        ending ≠ some .exhausted ∧
        (∀ e ∈ edh'.edhNFSEntries, e ∈ edh.edhNFSEntries ++ new.flatten) ∧
        ∀ e ∈ edh.edhNFSEntries ++ new.flatten, leftOut g.gMaxFileNameLen e = true ∨
          e ∈ taken ∨ e ∈ edh'.edhNFSEntries)

section Next
variable {g g' : Global} {efl : ELOCK} {edh edh' : EDH} {fib fib' : FIB} {ans : NextAnswers}

theorem dirRemove_congr (haddr : edh'.edhAddr = edh.edhAddr) (srv : Server) :
    (dirRemove { g with srv := srv } edh').gDH = (dirRemove g edh).gDH := by
  unfold dirRemove
  rw [haddr]

/-- A handle is stored without its head entry. -/
theorem Stocked.passes {srv : Server} {new : List (List Entry)} {edh₂ : EDH} {x : Entry}
    {rest : List Entry} {ending : Option Ending}
    (h : Stocked g.gMaxFileNameLen g.srv edh srv edh' new)
    (hentries : edh'.edhNFSEntries = x :: rest) (haddr : edh₂.edhAddr = edh'.edhAddr)
    (hrest : edh₂.edhNFSEntries = rest) (hending : ending ≠ some .exhausted) (res1 res2 : Int) :
    Passes g edh [x] ending ((dirStore { g with srv := srv } edh₂).setRes res1 res2) := by
  have hbrought := h.brought
  have hskipped := h.skipped
  rw [hentries] at hbrought hskipped
  refine ⟨rfl, rfl, new, h.replies, fun e he => ?_,
    .inr ⟨edh₂, haddr.trans h.addr, rfl, hending, fun e he => ?_, fun e he => ?_⟩⟩
  · rw [List.mem_singleton.mp he]
    exact hbrought x List.mem_cons_self
  · rw [hrest] at he
    exact hbrought e (List.mem_cons_of_mem _ he)
  · rw [hrest, List.mem_singleton]
    exact (hskipped e he).imp_right List.mem_cons.mp

/-- The head entry is taken, whatever `LookupAttr` finds for it. -/
theorem takeEntry_passes {srv : Server} {new : List (List Entry)} {res2 : Int}
    (hstocked : Stocked g.gMaxFileNameLen g.srv edh srv edh' new)
    (h : takeEntry { g with srv := srv } edh' fib res2 ans = some (g', fib')) :
    Passes g edh (edh'.edhNFSEntries.take 1) (attrEnding ans) g' := by
  unfold takeEntry at h
  cases hentries : edh'.edhNFSEntries with
  | nil =>
      rw [hentries] at h
      cases h
  | cons x rest =>
      rw [hentries] at h
      unfold attrEnding
      cases hattr : ans.attr with
      | ok attr =>
          simp only [hattr, Option.some.injEq, Prod.mk.injEq] at h
          rw [← h.1]
          refine hstocked.passes hentries ?_ ?_ ?_ _ _
          · rfl
          · rfl
          · exact fun hend => by cases hend
      | error err =>
          simp only [hattr, Option.some.injEq, Prod.mk.injEq] at h
          rw [← h.1]
          refine hstocked.passes hentries ?_ ?_ ?_ _ _
          · rfl
          · rfl
          · exact fun hend => by cases hend

/-- A packet that takes nothing removes the handle. -/
theorem passes_removed {srv : Server} {new : List (List Entry)} {e : Ending}
    (hreplies : srv.replies = new ++ g.srv.replies) (haddr : edh'.edhAddr = edh.edhAddr)
    (hall : e = .exhausted → ∀ x ∈ edh.edhNFSEntries ++ new.flatten,
      leftOut g.gMaxFileNameLen x = true) (res1 res2 : Int) :
    Passes g edh [] (some e) ((dirRemove { g with srv := srv } edh').setRes res1 res2) := by
  refine ⟨rfl, rfl, new, hreplies, List.forall_mem_nil _, .inl ⟨dirRemove_congr haddr srv, ?_⟩⟩
  intro hend x hx
  exact .inl (hall (Option.some.inj hend) x hx)

/-- A refill without entries: what has come in was to be skipped. -/
theorem Brings.all_skipped {srv : Server} {new : List (List Entry)}
    (h : Brings g.gMaxFileNameLen g.srv srv [] new) (hnone : edh.edhNFSEntries = []) :
    ∀ x ∈ edh.edhNFSEntries ++ new.flatten, leftOut g.gMaxFileNameLen x = true := by
  intro x hx
  rw [hnone, List.nil_append] at hx
  exact (h.skipped x hx).resolve_right List.not_mem_nil

theorem examineNext_passes (hsame : efl.eflNFSFh = edh.edhNFSDirFh)
    (h : examineNext g efl edh fib ans = some (g', fib')) :
    ∃ k, handleCourse g efl edh ans = some k ∧ Passes g edh k.taken k.ending g' := by
  unfold examineNext at h
  unfold handleCourse withEntries
  rw [if_pos hsame] at h ⊢
  by_cases hentries : edh.edhNFSEntries = []
  · rw [if_pos hentries] at h ⊢
    unfold refillNext at h
    cases heof : edh.edhEof with
    | true =>
        simp only [heof, ↓reduceIte, Option.some.injEq, Prod.mk.injEq] at h ⊢
        rw [← h.1]
        refine ⟨_, rfl, @passes_removed g edh edh g.srv [] _ rfl rfl ?_ _ _⟩
        intro _ x hx
        rw [hentries] at hx
        cases hx
    | false =>
        simp only [heof, Bool.false_eq_true, ↓reduceIte] at h ⊢
        cases hnext : nextdir g.gMaxFileNameLen (g.srv.rounds edh.edhNFSDirFh) g.srv edh 0 with
        | none =>
            rw [hnext] at h
            cases h
        | some r =>
            obtain ⟨left, edh₁, res2, srv⟩ := r
            obtain ⟨haddr, new, hbrings⟩ := nextdir_brings hnext
            simp only [hnext] at h ⊢
            by_cases hleft : left = []
            · subst hleft
              simp only [ne_eq, not_true_eq_false, false_and, ↓reduceIte, Option.some.injEq,
                Prod.mk.injEq] at h ⊢
              rw [← h.1]
              exact ⟨_, rfl, passes_removed hbrings.replies haddr
                (fun _ => hbrings.all_skipped hentries) _ _⟩
            · rw [if_neg hleft]
              cases hok : ans.entriesOk with
              | true =>
                  rw [if_pos ⟨hleft, hok⟩] at h
                  exact ⟨_, rfl, takeEntry_passes (hbrings.stocked haddr hentries) h⟩
              | false =>
                  simp only [hok, Bool.false_eq_true, and_false, ↓reduceIte, ne_eq, hleft,
                    not_false_eq_true, Option.some.injEq, Prod.mk.injEq] at h ⊢
                  rw [← h.1]
                  refine ⟨_, rfl, passes_removed hbrings.replies haddr ?_ _ _⟩
                  exact fun hend => by cases hend
  · rw [if_neg hentries] at h ⊢
    exact ⟨_, rfl, takeEntry_passes (.refl edh) h⟩

end Next

section All
variable {p : ExAllPacket} {attr : Nat → Except Int Fattr} {s s' : AllState}
  {c : Passage} {e : Entry}
  {rest : List Entry}

/-- The variables of the packet that its course depends on. -/
structure Passage.Of (c : Passage) (s : AllState) : Prop where
  size : c.size = s.size
  res2 : c.res2 = s.res2
  lookups : c.lookups = s.lookups

/-- How a turn of the loop over the entries goes, in the packet and in its course. -/
inductive TurnCourse (g : Global) (edh : EDH) (refills : Nat) (taken : List Entry) (e : Entry)
    (rest : List Entry) : Except (EntriesEnd × AllState) AllState → Except EntriesEnd Passage → Prop
  | goesOn {s : AllState} {c : Passage} (follows : c.Of s) (global : s.g = g)
      (removed : s.edh = { edh with edhNFSEntries := rest, edhNFSCookie := e.cookie })
      (same : s.refills = refills) (more : c.taken = taken ++ [e]) :
      TurnCourse g edh refills taken e rest (.ok s) (.ok c)
  | ends {s : AllState} {left : EntriesEnd} (global : s.g = g) (handle : s.edh = edh)
      (notEmpty : left ≠ .empty) :
      TurnCourse g edh refills taken e rest (.error (left, s)) (.error left)

theorem sizeNeeded_putExAllData (buf : UInt32) (size type : Int) (maxFileNameLen : Nat) (e : Entry)
    (a : Fattr) (mem : Nat → UInt8) :
    (putExAllData buf size type (getFixedSize type) maxFileNameLen e a mem).1 =
      if (sizeNeeded type maxFileNameLen e.name : Int) ≤ size then
        (sizeNeeded type maxFileNameLen e.name : Int) else -1 := by
  unfold putExAllData sizeNeeded
  dsimp only
  split <;> rfl

/-- An entry is taken if the buffer has room for it. -/
theorem AllState.put_course (h : c.Of s) (a : Fattr) :
    TurnCourse s.g s.edh s.refills c.taken e rest (s.put p e a rest)
      (c.put p s.g.gMaxFileNameLen e) := by
  unfold AllState.put AllState.putEntry AllState.stored Passage.put
  dsimp only
  rw [sizeNeeded_putExAllData, h.size]
  by_cases hfits : (sizeNeeded p.type s.g.gMaxFileNameLen e.name : Int) ≤ long s.size.toNat
  · have hpos : ¬ (sizeNeeded p.type s.g.gMaxFileNameLen e.name : Int) < 0 := by omega
    rw [if_pos hfits, if_pos hfits, if_neg hpos]
    by_cases hhook : (p.eac.eacMatchFunc.all fun f => f e) = true
    · rw [if_pos hhook, if_pos hhook]
      exact .goesOn ⟨rfl, h.res2, h.lookups⟩ rfl rfl rfl rfl
    · rw [if_neg hhook, if_neg hhook]
      exact .goesOn ⟨rfl, h.res2, h.lookups⟩ rfl rfl rfl rfl
  · rw [if_neg hfits, if_neg hfits, if_pos (by decide)]
    exact .ends rfl rfl (fun hno => by cases hno)

theorem AllState.entry_course (h : c.Of s) :
    TurnCourse s.g s.edh s.refills c.taken e rest (s.entry p attr e rest)
      (c.entry p s.g.gMaxFileNameLen attr e) := by
  unfold AllState.entry Passage.entry
  by_cases hpattern : (p.eac.eacMatchString.all fun f => f e.name) = true
  · rw [if_pos hpattern, if_pos hpattern]
    by_cases htype : p.type = ED_NAME
    · rw [if_pos htype, if_pos htype]
      exact AllState.put_course h default
    · rw [if_neg htype, if_neg htype, h.lookups, h.res2]
      cases hlook : lookupAttr attr s.lookups s.res2 with
      | mk a r =>
          obtain ⟨res2, lookups⟩ := r
          cases a with
          | error err => exact .ends rfl rfl (fun hno => by cases hno)
          | ok a =>
              exact @AllState.put_course p { s with res2 := res2, lookups := lookups }
                { c with res2 := res2, lookups := lookups } e rest ⟨h.size, rfl, rfl⟩ a
  · rw [if_neg hpattern, if_neg hpattern]
    exact .goesOn ⟨h.size, h.res2, h.lookups⟩ rfl rfl rfl rfl

/-- The loop over the entries: `front` has been taken, `back` is left. -/
theorem allEntries_course {es : List Entry} {left : EntriesEnd} (h : c.Of s)
    (hes : s.edh.edhNFSEntries = es) (hrun : allEntries p attr es s = (left, s')) :
    ∃ c' front back, Passage.entries p s.g.gMaxFileNameLen attr es c = (left, c') ∧
      es = front ++ back ∧ c'.taken = c.taken ++ front ∧ s'.g = s.g ∧
      s'.edh = { s.edh with
        edhNFSEntries := back, edhNFSCookie := lastKey Entry.cookie s.edh.edhNFSCookie front } ∧
      (left = .empty → back = [] ∧ c'.Of s' ∧ s'.refills = s.refills) := by
  induction es generalizing s c with
  | nil =>
      cases hrun
      refine ⟨c, [], [], rfl, rfl, (List.append_nil _).symm, rfl, ?_, fun _ => ⟨rfl, h, rfl⟩⟩
      show s'.edh = { s'.edh with
        edhNFSEntries := [], edhNFSCookie := s'.edh.edhNFSCookie }
      conv_rhs => rw [← hes]
  | cons e rest ih =>
      have hturn := @AllState.entry_course p attr s c e rest h
      unfold allEntries at hrun
      unfold Passage.entries
      generalize hr : s.entry p attr e rest = r at hrun hturn
      generalize hk : c.entry p s.g.gMaxFileNameLen attr e = k at hturn
      cases hturn with
      | @goesOn s₁ c₁ follows global removed same more =>
          obtain ⟨c', front, back, hentries, hsplit, htaken, hg, hedh, hempty⟩ :=
            ih follows (by rw [removed]) hrun
          rw [global] at hentries hg
          refine ⟨c', e :: front, back, hentries, by rw [hsplit]; rfl, ?_, hg, ?_, fun hleft => ?_⟩
          · rw [htaken, more, List.append_assoc]
            rfl
          · rw [hedh, removed]
            rfl
          · obtain ⟨hback, hfollows, hrefills⟩ := hempty hleft
            exact ⟨hback, hfollows, hrefills.trans same⟩
      | @ends s₁ left₁ global handle notEmpty =>
          cases hrun
          refine ⟨c, [], e :: rest, rfl, rfl, (List.append_nil _).symm, global, ?_,
            fun hleft => absurd hleft notEmpty⟩
          rw [handle, ← hes]
          rfl

/-- The refill of an `EXAMINE_ALL`, and what its course says of it. -/
theorem getNextEntries_course {g g' : Global} {edh : EDH} {entriesOk : Bool} {res2 res2' : Int}
    {r : Except Ending EDH} (hnone : edh.edhNFSEntries = [])
    (h : getNextEntries g edh entriesOk res2 = some (r, g', res2')) :
    ∃ new, g'.srv.replies = new ++ g.srv.replies ∧ g'.gMaxFileNameLen = g.gMaxFileNameLen ∧
      g'.newEDH = g.newEDH ∧
      (∀ e, r = .error e →
        withEntries g.gMaxFileNameLen g.srv edh entriesOk res2 = some (.error e) ∧
        g'.gDH = (dirRemove g edh).gDH ∧
        (e = .exhausted → ∀ x ∈ edh.edhNFSEntries ++ new.flatten,
          leftOut g.gMaxFileNameLen x = true)) ∧
      ∀ edh', r = .ok edh' →
        withEntries g.gMaxFileNameLen g.srv edh entriesOk res2 = some (.ok (edh', g'.srv)) ∧
        res2' = res2 ∧ g'.gDH = g.gDH ∧
        Stocked g.gMaxFileNameLen g.srv edh g'.srv edh' new := by
  unfold getNextEntries at h
  unfold withEntries
  rw [if_pos hnone]
  cases heof : edh.edhEof with
  | true =>
      simp only [heof, ↓reduceIte, Option.some.injEq, Prod.mk.injEq] at h ⊢
      obtain ⟨rfl, rfl, -⟩ := h
      refine ⟨[], rfl, rfl, rfl, fun e he => ?_, fun _ he => by cases he⟩
      cases he
      refine ⟨rfl, rfl, fun _ x hx => ?_⟩
      rw [hnone] at hx
      cases hx
  | false =>
      simp only [heof, Bool.false_eq_true, ↓reduceIte] at h ⊢
      cases hnext : nextdir g.gMaxFileNameLen (g.srv.rounds edh.edhNFSDirFh) g.srv edh res2 with
      | none =>
          rw [hnext] at h
          cases h
      | some t =>
          obtain ⟨left, edh₁, res2₁, srv⟩ := t
          obtain ⟨haddr, new, hbrings⟩ := nextdir_brings hnext
          simp only [hnext] at h ⊢
          by_cases hleft : left = []
          · subst hleft
            simp only [ne_eq, not_true_eq_false, ↓reduceIte, Option.some.injEq,
              Prod.mk.injEq] at h ⊢
            obtain ⟨rfl, rfl, -⟩ := h
            refine ⟨new, hbrings.replies, rfl, rfl, fun e he => ?_, fun _ he => by cases he⟩
            cases he
            exact ⟨rfl, dirRemove_congr haddr srv, fun _ => hbrings.all_skipped hnone⟩
          · rw [if_pos hleft] at h
            rw [if_neg hleft]
            cases hok : entriesOk with
            | true =>
                simp only [hok, ↓reduceIte, Option.some.injEq, Prod.mk.injEq] at h ⊢
                obtain ⟨rfl, rfl, rfl⟩ := h
                obtain ⟨hfailed, hkept⟩ := nextdir_ends hnext heof
                refine ⟨new, hbrings.replies, rfl, rfl, fun _ he => (by cases he),
                  fun edh' he => ?_⟩
                cases he
                refine ⟨rfl, ?_, rfl, hbrings.stocked haddr hnone⟩
                cases hlast : srv.lastFailed with
                | some err => exact absurd (hfailed err hlast).1 hleft
                | none => exact hkept hlast
            | false =>
                simp only [hok, Bool.false_eq_true, ↓reduceIte, Option.some.injEq,
                  Prod.mk.injEq] at h ⊢
                obtain ⟨rfl, rfl, -⟩ := h
                refine ⟨new, hbrings.replies, rfl, rfl, fun e he => ?_, fun _ he => by cases he⟩
                cases he
                exact ⟨rfl, dirRemove_congr haddr srv, fun hend => by cases hend⟩

/-- Rounds that go on with the handle behind a refill. -/
theorem Passes.after {g g₁ g' : Global} {edh edh₁ edh₂ : EDH} {new : List (List Entry)}
    {more : List Entry} {ending : Option Ending}
    (hstocked : Stocked g.gMaxFileNameLen g.srv edh g₁.srv edh₁ new)
    (hhandles : g₁.gDH = g.gDH) (hmax : g₁.gMaxFileNameLen = g.gMaxFileNameLen)
    (hfresh : g₁.newEDH = g.newEDH) (haddr : edh₂.edhAddr = edh₁.edhAddr)
    (hempty : edh₂.edhNFSEntries = []) (h : Passes g₁ edh₂ more ending g') :
    Passes g edh (edh₁.edhNFSEntries ++ more) ending g' := by
  obtain ⟨hmax', hfresh', later, hreplies, htaken, hend⟩ := h
  rw [hempty, List.nil_append] at htaken hend
  have haddr' : edh₂.edhAddr = edh.edhAddr := haddr.trans hstocked.addr
  have hmem : ∀ e, e ∈ edh.edhNFSEntries ++ (later ++ new).flatten ↔
      e ∈ edh.edhNFSEntries ++ new.flatten ∨ e ∈ later.flatten := by
    intro e
    simp only [List.flatten_append, List.mem_append]
    tauto
  have hsplit : ∀ {q : Entry → Prop},
      (∀ e ∈ later.flatten, leftOut g.gMaxFileNameLen e = true ∨ e ∈ more ∨ q e) →
      ∀ e ∈ edh.edhNFSEntries ++ (later ++ new).flatten,
        leftOut g.gMaxFileNameLen e = true ∨ e ∈ edh₁.edhNFSEntries ++ more ∨ q e := by
    intro q hlater e he
    rcases (hmem e).mp he with he | he
    · exact (hstocked.skipped e he).imp_right fun hin => .inl (List.mem_append_left _ hin)
    · exact (hlater e he).imp_right fun hin => hin.imp_left fun hin => List.mem_append_right _ hin
  refine ⟨hmax'.trans hmax, hfresh'.trans hfresh, later ++ new, ?_, fun e he => ?_, ?_⟩
  · rw [hreplies, hstocked.replies, List.append_assoc]
  · rw [hmem]
    rcases List.mem_append.mp he with he | he
    · exact .inl (hstocked.brought e he)
    · exact .inr (htaken e he)
  · rw [hmax] at hend
    rcases hend with ⟨hgone, hall⟩ | ⟨edh', hsame, hstored, hother, hheld, hrest⟩
    · refine .inl ⟨?_, fun hexhausted e he => ?_⟩
      · rw [hgone]
        unfold dirRemove
        rw [hhandles, haddr']
      · have hno := hsplit (q := fun _ => False)
          (fun x hx => (hall hexhausted x hx).imp_right .inl) e he
        exact hno.imp_right fun hin => hin.resolve_right id
    · refine .inr ⟨edh', hsame.trans haddr', ?_, hother, fun e he => ?_, hsplit hrest⟩
      · rw [hstored]
        unfold dirStore
        rw [hhandles]
      · exact (hmem e).mpr (.inr (hheld e he))

section Round
variable {ans : AllAnswers} {g g' : Global} {edh : EDH} {new : List (List Entry)}
  {ending : Option Ending}

/-- The buffer is full or a look-up fails: `front` has been taken. -/
theorem round_stops {left : EntriesEnd} {s₁ : AllState} (h : c.Of s)
    (hstocked : Stocked g.gMaxFileNameLen g.srv edh s.g.srv s.edh new)
    (hhandles : s.g.gDH = g.gDH) (hmax : s.g.gMaxFileNameLen = g.gMaxFileNameLen)
    (hfresh : s.g.newEDH = g.newEDH) (again : Passage → Option Course)
    (hloop : allEntries p ans.attr s.edh.edhNFSEntries s = (left, s₁)) (hleft : left ≠ .empty) :
    ∃ front,
      Passage.goOn again (Passage.entries p g.gMaxFileNameLen ans.attr s.edh.edhNFSEntries c) =
        some ⟨c.taken ++ front, (s₁.done left).1⟩ ∧
      Passes g edh front (s₁.done left).1 (s₁.done left).2.1 := by
  obtain ⟨c', front, back, hentries, hsplit, htaken, hg, hedh, -⟩ := allEntries_course h rfl hloop
  have hfront : ∀ e ∈ front, e ∈ edh.edhNFSEntries ++ new.flatten :=
    fun e he => hstocked.brought e (hsplit ▸ List.mem_append_left _ he)
  have hreplies : s₁.g.srv.replies = new ++ g.srv.replies := hg ▸ hstocked.replies
  rw [hmax] at hentries
  rw [← hg] at hmax hfresh hhandles
  rw [hentries]
  refine ⟨front, ?_⟩
  rw [← htaken]
  cases left with
  | empty => exact absurd rfl hleft
  | full =>
      refine ⟨rfl, hmax, hfresh, new, hreplies, hfront,
        .inr ⟨s₁.edh, ?_, ?_, ?_, fun e he => ?_, fun e he => ?_⟩⟩
      · rw [hedh]
        exact hstocked.addr
      · show (dirStore s₁.g s₁.edh).gDH = (dirStore g s₁.edh).gDH
        unfold dirStore
        rw [hhandles]
      · exact fun hno => by cases hno
      · rw [hedh] at he
        exact hstocked.brought e (hsplit ▸ List.mem_append_right _ he)
      · rw [hedh]
        exact (hstocked.skipped e he).imp_right fun hin => List.mem_append.mp (hsplit ▸ hin)
  | failed err =>
      refine ⟨rfl, hmax, hfresh, new, hreplies, hfront, .inl ⟨?_, ?_⟩⟩
      · show (dirRemove s₁.g s₁.edh).gDH = (dirRemove g edh).gDH
        unfold dirRemove
        rw [hhandles, hedh, ← hstocked.addr]
      · exact fun hno => by cases hno

/-- All entries of the handle have been taken, and the loop goes on. -/
theorem round_again {s₁ : AllState} {again : Passage → Option Course} (h : c.Of s)
    (hstocked : Stocked g.gMaxFileNameLen g.srv edh s.g.srv s.edh new)
    (hhandles : s.g.gDH = g.gDH) (hmax : s.g.gMaxFileNameLen = g.gMaxFileNameLen)
    (hfresh : s.g.newEDH = g.newEDH)
    (hloop : allEntries p ans.attr s.edh.edhNFSEntries s = (.empty, s₁))
    (hnext : ∀ c₁ : Passage, c₁.Of s₁ → s₁.g = s.g → s₁.edh = s.edh.emptied →
      s₁.refills = s.refills → ∃ more, again c₁ = some ⟨c₁.taken ++ more, ending⟩ ∧
        Passes s.g s.edh.emptied more ending g') :
    ∃ more,
      Passage.goOn again (Passage.entries p g.gMaxFileNameLen ans.attr s.edh.edhNFSEntries c) =
        some ⟨c.taken ++ more, ending⟩ ∧ Passes g edh more ending g' := by
  obtain ⟨c', front, back, hentries, hsplit, htaken, hg, hedh, hempty⟩ :=
    allEntries_course h rfl hloop
  obtain ⟨rfl, hfollows, hrefills⟩ := hempty rfl
  rw [List.append_nil] at hsplit
  have hedh' : s₁.edh = s.edh.emptied := by
    rw [hedh, ← hsplit]
    rfl
  obtain ⟨more, hcourse, hpasses⟩ := hnext c' hfollows hg hedh' hrefills
  rw [htaken, List.append_assoc, ← hsplit] at hcourse
  rw [← hmax, hentries]
  refine ⟨s.edh.edhNFSEntries ++ more, hcourse, ?_⟩
  refine Passes.after hstocked hhandles hmax hfresh ?_ ?_ hpasses
  · rfl
  · rfl

end Round

/-- How the loop ends when a round has left `r` behind. -/
structure RoundEnds (p : ExAllPacket) (ans : AllAnswers) (fuel : Nat) (r : EntriesEnd × AllState)
    (x : Option Ending × Global × AllState) : Prop where
  again : r.1 = .empty → allLoop p ans fuel r.2 = some x
  stop : r.1 ≠ .empty → r.2.done r.1 = x

theorem roundEnds {ans : AllAnswers} {fuel : Nat} {r : EntriesEnd × AllState}
    {x : Option Ending × Global × AllState}
    (h : (match r with
      | (.empty, s) => allLoop p ans fuel s
      | (e, s) => some (s.done e)) = some x) : RoundEnds p ans fuel r x := by
  obtain ⟨e, s⟩ := r
  cases e with
  | empty => exact ⟨fun _ => h, fun hne => absurd rfl hne⟩
  | full => exact ⟨fun hno => (by cases hno), fun _ => Option.some.inj h⟩
  | failed err => exact ⟨fun hno => (by cases hno), fun _ => Option.some.inj h⟩

/-- The loop takes the course. -/
theorem allLoop_course {ans : AllAnswers} {fuel : Nat} {g' : Global} {ending : Option Ending}
    (h : c.Of s) (hrun : allLoop p ans fuel s = some (ending, g', s')) :
    ∃ more, roundsCourse p ans s.g.gMaxFileNameLen fuel s.g.srv s.edh s.refills c =
      some ⟨c.taken ++ more, ending⟩ ∧ Passes s.g s.edh more ending g' := by
  induction fuel generalizing s c with
  | zero => cases hrun
  | succ fuel ih =>
      have hround : ∀ {s₁ : AllState} {new : List (List Entry)}, c.Of s₁ →
          Stocked s.g.gMaxFileNameLen s.g.srv s.edh s₁.g.srv s₁.edh new → s₁.g.gDH = s.g.gDH →
          s₁.g.gMaxFileNameLen = s.g.gMaxFileNameLen → s₁.g.newEDH = s.g.newEDH →
          RoundEnds p ans fuel (allEntries p ans.attr s₁.edh.edhNFSEntries s₁) (ending, g', s') →
          ∃ more, Passage.goOn
              (roundsCourse p ans s.g.gMaxFileNameLen fuel s₁.g.srv s₁.edh.emptied s₁.refills)
              (Passage.entries p s.g.gMaxFileNameLen ans.attr s₁.edh.edhNFSEntries c) =
            some ⟨c.taken ++ more, ending⟩ ∧ Passes s.g s.edh more ending g' := by
        intro s₁ new hfollows hstocked hhandles hmax hfresh hends
        cases hloop : allEntries p ans.attr s₁.edh.edhNFSEntries s₁ with
        | mk left s₂ =>
            rw [hloop] at hends
            by_cases hleft : left = .empty
            · subst hleft
              refine round_again hfollows hstocked hhandles hmax hfresh hloop ?_
              intro c₂ hfollows₂ hg hedh hrefills
              have hcourse := ih hfollows₂ (hends.again rfl)
              rwa [hg, hedh, hrefills, hmax] at hcourse
            · have hstop := round_stops hfollows hstocked hhandles hmax hfresh
                (roundsCourse p ans s.g.gMaxFileNameLen fuel s₁.g.srv s₁.edh.emptied s₁.refills)
                hloop hleft
              rwa [hends.stop hleft] at hstop
      unfold allLoop at hrun
      unfold roundsCourse
      dsimp only at hrun
      by_cases hnone : s.edh.edhNFSEntries = []
      · rw [if_pos hnone] at hrun
        cases hnext : getNextEntries s.g s.edh (ans.entriesOk s.refills) s.res2 with
        | none =>
            rw [hnext] at hrun
            cases hrun
        | some t =>
            obtain ⟨r, g₁, res2⟩ := t
            obtain ⟨new, hreplies, hmax, hfresh, herror, hok⟩ := getNextEntries_course hnone hnext
            rw [hnext] at hrun
            cases r with
            | error e =>
                obtain ⟨hwith, hgone, hall⟩ := herror e rfl
                simp only [Option.some.injEq, Prod.mk.injEq] at hrun
                obtain ⟨rfl, rfl, -⟩ := hrun
                rw [h.res2, hwith]
                refine ⟨[], by rw [List.append_nil], hmax, hfresh, new, hreplies,
                  List.forall_mem_nil _, .inl ⟨hgone, fun hend x hx => ?_⟩⟩
                exact .inl (hall (Option.some.inj hend) x hx)
            | ok edh =>
                obtain ⟨hwith, rfl, hhandles, hstocked⟩ := hok edh rfl
                have hfollows : c.Of { s with
                    g := g₁, edh := edh, res2 := s.res2, refills := s.refills + 1 } :=
                  ⟨h.size, h.res2, h.lookups⟩
                rw [h.res2, hwith]
                dsimp only
                rw [if_pos hnone]
                exact hround hfollows hstocked hhandles hmax hfresh (roundEnds hrun)
      · rw [if_neg hnone] at hrun
        have hwith : withEntries s.g.gMaxFileNameLen s.g.srv s.edh
          (ans.entriesOk s.refills) c.res2 =
            some (.ok (s.edh, s.g.srv)) := if_neg hnone
        rw [hwith]
        dsimp only
        rw [if_neg hnone]
        exact hround h (.refl _) rfl rfl rfl (roundEnds hrun)

theorem examineAll_course {g g' : Global} {edh : EDH} {ans : AllAnswers} {mem mem' : Nat → UInt8}
    {ending : Option Ending} {eac : ExAllControl}
    (h : examineAll g p edh ans mem = some (ending, g', eac, mem')) :
    ∃ taken, examineAllCourse g p edh ans = some ⟨taken, ending⟩ ∧
      Passes g edh taken ending g' := by
  unfold examineAll at h
  dsimp only at h
  split at h
  · cases h
  · rename_i hloop
    cases h
    exact allLoop_course (⟨rfl, rfl, rfl⟩ : (⟨p.size, 0, 0, []⟩ : Passage).Of _) hloop

end All

/-- A packet goes on with a handle of the list, or with a new one, or there is none. -/
inductive Follows (g : Global) (addr : Nat) (taken : List Entry) (ending : Option Ending)
    (g' : Global) : Prop
  | found {edh : EDH} (mem : edh ∈ g.gDH) (place : edh.edhAddr = addr)
      (passes : Passes g edh taken ending g') : Follows g addr taken ending g'
  | begun {edh : EDH} (fresh : edh.edhAddr = g.newEDH) (place : g.newEDH = addr)
      (empty : edh.edhNFSEntries = []) (passes : Passes (dirInsert g edh) edh taken ending g') :
      Follows g addr taken ending g'
  | none (nothing : taken = []) (goesOn : ending ≠ some .exhausted)
      (same : ∃ res1 res2, g' = g.setRes res1 res2) : Follows g addr taken ending g'

/-- The address of the handle that an `EXAMINE_NEXT` goes on with. -/
def nextHandle (g : Global) (fl : LockArg) (fib : FIB) : Nat :=
  (fl.lookup.bind fun efl => dirLookupFromKeyAndCookieAndCBSTR g efl.flKey fib.fibDiskKey
    fib.fibFileName).elim g.newEDH EDH.edhAddr

/-- The address of the handle that an `EXAMINE_ALL` goes on with. -/
def allHandle (g : Global) (p : ExAllPacket) : Nat := p.eac.eacLastKey.getD g.newEDH

section Actions
variable {g g' : Global} {fl : LockArg}

theorem actEXAMINENEXT_course {fib fib' : FIB} {ans : NextAnswers}
    (h : actEXAMINENEXT g fl fib ans = some (g', fib')) :
    ∃ k, nextCourse g fl fib ans = some k ∧
      Follows g (nextHandle g fl fib) k.taken k.ending g' := by
  unfold actEXAMINENEXT at h
  unfold nextCourse nextHandle
  cases hlock : fl.lookup with
  | none =>
      simp only [hlock, Option.some.injEq, Prod.mk.injEq] at h ⊢
      exact ⟨_, rfl, .none rfl (fun hno => by cases hno) ⟨_, _, h.1.symm⟩⟩
  | some efl =>
      simp only [hlock, Option.bind_some] at h ⊢
      cases hfind : dirLookupFromKeyAndCookieAndCBSTR g efl.flKey fib.fibDiskKey
        fib.fibFileName with
      | some edh =>
          simp only [hfind] at h ⊢
          by_cases hsame : efl.eflNFSFh = edh.edhNFSDirFh
          · obtain ⟨k, hk, hpasses⟩ := examineNext_passes hsame h
            exact ⟨k, hk, .found (List.mem_of_find?_eq_some hfind) rfl hpasses⟩
          · unfold examineNext at h
            unfold handleCourse
            rw [if_neg hsame] at h ⊢
            cases h
            exact ⟨_, rfl, .none rfl (fun hno => by cases hno) ⟨_, _, rfl⟩⟩
      | none =>
          simp only [hfind] at h ⊢
          by_cases hkey : efl.flKey ≠ fib.fibDiskKey
          · rw [if_pos hkey] at h ⊢
            cases h
            exact ⟨_, rfl, .none rfl (fun hno => by cases hno) ⟨_, _, rfl⟩⟩
          · rw [if_neg hkey] at h ⊢
            cases hok : ans.edhOk with
            | true =>
                rw [hok] at h
                obtain ⟨k, hk, hpasses⟩ := examineNext_passes rfl h
                exact ⟨k, hk, .begun rfl rfl rfl hpasses⟩
            | false =>
                rw [hok] at h
                cases h
                exact ⟨_, rfl, .none rfl (fun hno => by cases hno) ⟨_, _, rfl⟩⟩

theorem actEXAMINEALL_course {p : ExAllPacket} {ans : AllAnswers} {mem mem' : Nat → UInt8}
    {ending : Option Ending} {eac : ExAllControl}
    (h : actEXAMINEALL g fl p ans mem = some (ending, g', eac, mem')) :
    ∃ taken, allCourse g fl p ans = some ⟨taken, ending⟩ ∧
      Follows g (allHandle g p) taken ending g' := by
  unfold actEXAMINEALL at h
  unfold allCourse allHandle
  dsimp only at h
  split at h
  · rename_i hbad
    rw [if_pos hbad]
    cases h
    exact ⟨_, rfl, .none rfl (fun hno => by cases hno) ⟨_, _, rfl⟩⟩
  · rename_i hgood
    rw [if_neg hgood]
    cases hlock : fl.lookup with
    | none =>
        simp only [hlock] at h ⊢
        cases h
        exact ⟨_, rfl, .none rfl (fun hno => by cases hno) ⟨_, _, rfl⟩⟩
    | some efl =>
        simp only [hlock] at h ⊢
        cases hkey : p.eac.eacLastKey with
        | none =>
            simp only [hkey] at h ⊢
            split at h
            · rename_i hok
              rw [if_pos hok]
              obtain ⟨taken, hcourse, hpasses⟩ := examineAll_course h
              exact ⟨taken, hcourse, .begun rfl rfl rfl hpasses⟩
            · rename_i hok
              rw [if_neg hok]
              cases h
              exact ⟨_, rfl, .none rfl (fun hno => by cases hno) ⟨_, _, rfl⟩⟩
        | some addr =>
            simp only [hkey] at h ⊢
            cases hfind : dirLookupFromAddress g addr with
            | some edh =>
                have haddr := @List.find?_some _ (fun x : EDH => x.edhAddr == addr) _ _ hfind
                rw [hfind] at h
                obtain ⟨taken, hcourse, hpasses⟩ := examineAll_course h
                exact ⟨taken, hcourse,
                  .found (List.mem_of_find?_eq_some hfind) (beq_iff_eq.mp haddr) hpasses⟩
            | none =>
                rw [hfind] at h
                cases h
                exact ⟨_, rfl, .none rfl (fun hno => by cases hno) ⟨_, _, rfl⟩⟩

end Actions

end Anfs.Dir
