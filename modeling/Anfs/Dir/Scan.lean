import Anfs.Dir.Examine
import Anfs.Dir.Refill
import Anfs.Lib.Run
import Mathlib.Data.List.Perm.Subperm

/-!
# Scans with `EXAMINE_NEXT`

A scan finds its handle again by the directory, and by the file id and the name in the file
info block. Handles of one directory with the same file id and name have read the same part
of the listing, so it does not matter which of them a scan gets, as long as there is one for
each scan.
-/
namespace Anfs.Dir
open Anfs.Lib Anfs.Xdr Anfs.Nfs
open Anfs.File (DOSTRUE DOSFALSE)

/-- The name of a BSTR. -/
def bstr (bytes : List UInt8) : List UInt8 := (bytes.drop 1).take (bytes.getD 0 0).toNat

/-- The block starts with the name `n` as a terminated BSTR. -/
structure IsBStr (bytes n : List UInt8) : Prop where
  short : n.length ≤ 106
  bytes : ∃ old, bytes = UInt8.ofNat n.length :: (n ++ 0 :: old)

section Names
variable {a b n m : List UInt8}

theorem toNat_ofNat_length (h : n.length ≤ 106) : (UInt8.ofNat n.length).toNat = n.length := by
  rw [UInt8.toNat_ofNat', Nat.mod_eq_of_lt]
  omega

theorem IsBStr.bstr_eq (h : IsBStr a n) : bstr a = n := by
  obtain ⟨old, rfl⟩ := h.bytes
  simp [bstr, toNat_ofNat_length h.short]

theorem IsBStr.getD_zero (h : IsBStr a n) : (a.getD 0 0).toNat = n.length := by
  obtain ⟨old, rfl⟩ := h.bytes
  exact toNat_ofNat_length h.short

/-- The comparison of handle and file info block compares names. -/
theorem IsBStr.memEq_iff (h : IsBStr a n) (h' : IsBStr b m) :
    memEq ((a.getD 0 0).toNat + 2) a b = true ↔ n = m := by
  rw [h.getD_zero, memEq, beq_iff_eq]
  obtain ⟨old, rfl⟩ := h.bytes
  obtain ⟨old', rfl⟩ := h'.bytes
  have htake : ∀ (k : List UInt8) (o : List UInt8), k.length = n.length →
      ((UInt8.ofNat k.length :: (k ++ 0 :: o)) ++ zeros (n.length + 2)).take (n.length + 2) =
        UInt8.ofNat n.length :: (k ++ [0]) := by
    intro k o hk
    rw [List.cons_append, List.append_assoc, List.take_succ_cons, List.take_append, ← hk]
    simp [List.take_of_length_le]
  constructor
  · intro heq
    have hhead : UInt8.ofNat n.length = UInt8.ofNat m.length := by
      have := congrArg List.head? heq
      simpa using this
    have hlen : m.length = n.length := by
      rw [← toNat_ofNat_length h.short, ← toNat_ofNat_length h'.short, hhead]
    rw [htake n old rfl, htake m old' hlen, List.cons.injEq] at heq
    exact List.append_cancel_right heq.2
  · rintro rfl
    rw [htake n old rfl, htake n old' rfl]

theorem isBStr_overwrite (hn : n.length ≤ 106) (old : List UInt8) :
    IsBStr (overwrite (UInt8.ofNat n.length :: (n ++ [0])) old) n := by
  refine ⟨hn, old.drop (n.length + 2), ?_⟩
  simp [overwrite]

/-- The name is copied whole to `edh_Name`. -/
theorem IsBStr.copy (h : IsBStr a n) (old : List UInt8) :
    IsBStr
      (overwrite (a.take (min ((a.getD 0 0).toNat + 2) (EDH_MAX_FILENAME_SIZE - 1)) ++ [0]) old)
      n := by
  have hshort := h.short
  rw [h.getD_zero]
  obtain ⟨rest, rfl⟩ := h.bytes
  refine ⟨hshort, ?_⟩
  by_cases hlen : n.length = 106
  · have hmin : min (n.length + 2) (EDH_MAX_FILENAME_SIZE - 1) = n.length + 1 := by
      rw [hlen]; decide
    refine ⟨old.drop (n.length + 2), ?_⟩
    rw [hmin, List.take_succ_cons, List.take_left' rfl]
    simp [overwrite]
  · have hmin : min (n.length + 2) (EDH_MAX_FILENAME_SIZE - 1) = n.length + 2 := by
      unfold EDH_MAX_FILENAME_SIZE
      omega
    refine ⟨0 :: old.drop (n.length + 3), ?_⟩
    rw [hmin, List.take_succ_cons, List.take_append]
    simp [overwrite, List.take_of_length_le]

end Names

/-- Static listings of entries with different cookies and names, and calls that succeed. -/
structure Static (g : Global) : Prop where
  keyed : ∀ dir, Keyed Entry.cookie nullCookie (g.srv.dirs dir)
  names : ∀ dir, ((g.srv.dirs dir).map Entry.name).Nodup
  served : ∀ k, (g.srv.cuts k).served
  short : g.gMaxFileNameLen ≤ 106

/-- The allocations and `LookupAttr` succeed, and no entry has the file id `key` of its
directory. -/
def NextAnswers.Succeed (key : UInt32) (ans : NextAnswers) : Prop :=
  ans.edhOk = true ∧ ans.entriesOk = true ∧ ∃ attr, ans.attr = .ok attr ∧ attr.fileid ≠ key

instance (key : UInt32) : ∀ ans : NextAnswers, Decidable (ans.Succeed key)
  | ⟨edhOk, entriesOk, .ok attr⟩ =>
      decidable_of_iff (edhOk = true ∧ entriesOk = true ∧ attr.fileid ≠ key)
        ⟨fun h => ⟨h.1, h.2.1, attr, rfl, h.2.2⟩, fun ⟨h₁, h₂, _, heq, h⟩ =>
          ⟨h₁, h₂, Except.ok.inj heq ▸ h⟩⟩
  | ⟨_, _, .error _⟩ => .isFalse fun ⟨_, _, _, heq, _⟩ => nomatch heq

/-- The handle has read `done` and is to read `rest`, of which it holds the first entries. -/
structure Ready (g : Global) (edh : EDH) (done rest : List Entry) : Prop where
  listing : g.srv.dirs edh.edhNFSDirFh = done ++ rest
  read : HasRead edh done
  ahead : ∃ more, rest = edh.edhNFSEntries ++ more ∧ (edh.edhEof = true → more = [])
  kept : ∀ e ∈ edh.edhNFSEntries, leftOut g.gMaxFileNameLen e = false

/-- Only the server's counters change. -/
structure SameListings (srv srv' : Server) : Prop where
  dirs : srv'.dirs = srv.dirs
  cuts : srv'.cuts = srv.cuts

/-- The handle is now the handle of the entry `e`, as is the file info block. -/
structure Took (edh : EDH) (dirKey : UInt32) (e : Entry) (edh' : EDH) (fib' : FIB) : Prop where
  addr : edh'.edhAddr = edh.edhAddr
  key : edh'.edhKey = edh.edhKey
  fh : edh'.edhNFSDirFh = edh.edhNFSDirFh
  cookie : edh'.edhCookie = fib'.fibDiskKey
  other : fib'.fibDiskKey ≠ dirKey
  edhName : IsBStr edh'.edhName e.name
  fibName : IsBStr fib'.fibFileName e.name

section Handle
variable {g : Global} {efl : ELOCK} {edh : EDH} {fib : FIB} {ans : NextAnswers}
  {done rest : List Entry}
  {srv' : Server} {e : Entry}

theorem length_le_of_kept (hs : Static g) (hkept : leftOut g.gMaxFileNameLen e = false) :
    e.name.length ≤ g.gMaxFileNameLen ∧ e.name.length ≤ 106 := by
  have hshort := hs.short
  simp only [leftOut, Bool.or_eq_false_iff, decide_eq_false_iff_not] at hkept
  omega

theorem Static.server (hs : Static g)
    (same : SameListings g.srv srv') : Static { g with srv := srv' } := by
  refine ⟨?_, ?_, ?_, hs.short⟩
  · simp only [same.dirs]
    exact hs.keyed
  · simp only [same.dirs]
    exact hs.names
  · simp only [same.cuts]
    exact hs.served

theorem Refilled.sameListings {maxFileNameLen : Nat} {srv : Server} {left : List Entry} {edh' : EDH}
    (h : Refilled maxFileNameLen srv edh done rest left edh' srv') : SameListings srv srv' := by
  rw [h.server]
  exact ⟨rfl, rfl⟩

theorem Refilled.same {maxFileNameLen : Nat} {srv : Server} {left : List Entry} {edh' : EDH}
    (h : Refilled maxFileNameLen srv edh done rest left edh' srv') :
    edh'.edhAddr = edh.edhAddr ∧ edh'.edhKey = edh.edhKey ∧ edh'.edhNFSDirFh = edh.edhNFSDirFh := by
  have haddr := congrArg EDH.edhAddr h.handle
  have hkey := congrArg EDH.edhKey h.handle
  have hfh := congrArg EDH.edhNFSDirFh h.handle
  exact ⟨haddr, hkey, hfh⟩

theorem takeEntry_some (hne : edh.edhNFSEntries ≠ []) (fib : FIB) (res2 : Int) (ans : NextAnswers) :
    ∃ x, takeEntry g edh fib res2 ans = some x ∧ x.1.srv = g.srv := by
  unfold takeEntry
  cases hentries : edh.edhNFSEntries with
  | nil => exact absurd hentries hne
  | cons e entries =>
      cases ans.attr with
      | ok attr => exact ⟨_, rfl, rfl⟩
      | error err => exact ⟨_, rfl, rfl⟩

/-- The head entry is taken. -/
theorem takeEntry_spec (hs : Static g) {key : UInt32} (hans : ans.Succeed key)
    {more entries : List Entry}
    (hentries : edh.edhNFSEntries = e :: entries)
    (hlisting : g.srv.dirs edh.edhNFSDirFh = done ++ e :: (entries ++ more))
    (heof : edh.edhEof = true → more = [])
    (hkept : ∀ x ∈ edh.edhNFSEntries, leftOut g.gMaxFileNameLen x = false)
    (fib : FIB) (res2 : Int) :
    ∃ edh' fib', takeEntry g edh fib res2 ans = some ((dirStore g edh').setRes DOSTRUE res2, fib') ∧
      Took edh key e edh' fib' ∧ Ready g edh' (done ++ [e]) (entries ++ more) := by
  obtain ⟨-, -, attr, hattr, hother⟩ := hans
  rw [hentries] at hkept
  obtain ⟨hlen, hshort⟩ := length_le_of_kept hs (hkept e List.mem_cons_self)
  unfold takeEntry
  simp only [hentries, hattr]
  have hname : IsBStr (fattr2FIB attr e.name g.gMaxFileNameLen fib).fibFileName e.name := by
    simp only [fattr2FIB, Nat.min_eq_left hlen, List.take_length]
    exact isBStr_overwrite hshort _
  refine ⟨_, _, rfl, ⟨rfl, rfl, rfl, rfl, hother, hname.copy _, hname⟩, ?_, ?_,
    ⟨more, rfl, heof⟩, ?_⟩
  · rw [List.append_assoc]
    exact hlisting
  · exact (lastKey_concat Entry.cookie nullCookie done e).symm
  · exact fun x hx => hkept x (List.mem_cons_of_mem e hx)

/-- The next step of a scan gives the next entry that is not left out, or ends the scan. -/
inductive NextStep (g : Global) (edh : EDH) (dirKey : UInt32) (fib : FIB) (done rest : List Entry) :
    Option (Global × FIB) → Prop
  | entry (srv' : Server) (same : SameListings g.srv srv') {gone rest' : List Entry}
      {e : Entry} {edh' : EDH}
      {fib' : FIB} (split : rest = gone ++ e :: rest')
      (skipped : ∀ x ∈ gone, leftOut g.gMaxFileNameLen x = true)
      (kept : leftOut g.gMaxFileNameLen e = false) (took : Took edh dirKey e edh' fib')
      (ready : Ready { g with srv := srv' } edh' (done ++ gone ++ [e]) rest') :
      NextStep g edh dirKey fib done rest
        (some ((dirStore { g with srv := srv' } edh').setRes DOSTRUE 0, fib'))
  | closed (srv' : Server) (same : SameListings g.srv srv') {edh' : EDH}
      (addr : edh'.edhAddr = edh.edhAddr)
      (skipped : ∀ x ∈ rest, leftOut g.gMaxFileNameLen x = true) :
      NextStep g edh dirKey fib done rest
        (some ((dirRemove { g with srv := srv' } edh').setRes DOSFALSE errorNoMoreEntries, fib))

theorem refillNext_spec (hs : Static g) {dirKey : UInt32} (hans : ans.Succeed dirKey)
    (hready : Ready g edh done rest)
    (hempty : edh.edhNFSEntries = []) (htidy : ∀ x ∈ refillNext g edh fib ans,
      ∀ r ∈ x.1.srv.replies, Tidy g.gMaxFileNameLen r) :
    NextStep g edh dirKey fib done rest (refillNext g edh fib ans) := by
  obtain ⟨more, hmore, heof⟩ := hready.ahead
  rw [hempty, List.nil_append] at hmore
  subst hmore
  unfold refillNext at htidy ⊢
  by_cases hend : edh.edhEof = true
  · rw [if_pos hend]
    obtain rfl := heof hend
    exact .closed g.srv ⟨rfl, rfl⟩ rfl (List.forall_mem_nil _)
  · rw [if_neg hend] at htidy ⊢
    have hkeyed := hs.keyed edh.edhNFSDirFh
    rw [hready.listing] at hkeyed
    have hfuel : rest.length < g.srv.rounds edh.edhNFSDirFh := by
      rw [Server.rounds, hready.listing, List.length_append]
      omega
    obtain ⟨left, edh', srv', hnext, href⟩ :=
      @nextdir_spec g.gMaxFileNameLen _ _ _ _ _ hs.served hkeyed hready.listing hready.read hfuel 0
    simp only [hnext] at htidy ⊢
    have hsame := href.sameListings
    obtain ⟨gone, more', hsplit, hgone, hread, heof', hleft⟩ := href.split
    obtain ⟨last, earlier, hreplies, hlast, -⟩ := href.replies
    obtain ⟨haddr, hkey, hfh⟩ := href.same
    cases hcase : left with
    | nil =>
        subst hcase
        have hend' := hleft rfl
        obtain rfl := heof' hend'
        rw [List.append_nil, List.append_nil] at hsplit
        subst hsplit
        simp only [ne_eq, not_true_eq_false, false_and, if_false, hend', if_true]
        exact .closed srv' hsame haddr hgone
    | cons e entries =>
        subst hcase
        rw [if_pos ⟨List.cons_ne_nil _ _, hans.2.1⟩] at htidy ⊢
        have hlisting : srv'.dirs edh'.edhNFSDirFh = (done ++ gone) ++ e :: (entries ++ more') := by
          rw [hfh, hsame.dirs, hready.listing, hsplit, List.append_assoc]
          rfl
        have hall : ∀ x ∈ (e :: entries), leftOut g.gMaxFileNameLen x = false := by
          obtain ⟨x, hx, hsrv⟩ := @takeEntry_some { g with srv := srv' }
            { edh' with edhNFSEntries := e :: entries } (List.cons_ne_nil _ _) fib 0 ans
          have hlast' : last ∈ x.1.srv.replies := by
            rw [hsrv, hreplies]
            exact List.mem_cons_self
          have := htidy x hx last hlast'
          rw [Tidy, ← hlast] at this
          exact this
        obtain ⟨edh'', fib', htake, htook, hready'⟩ := @takeEntry_spec _
          { edh' with edhNFSEntries := e :: entries } _ _ _ (hs.server hsame) _ hans _ _ rfl
            hlisting heof' hall fib 0
        rw [htake]
        refine .entry srv' hsame hsplit hgone (hall e List.mem_cons_self) ?_ hready'
        exact { htook with
          addr := htook.addr.trans haddr
          key := htook.key.trans hkey
          fh := htook.fh.trans hfh }

/-- The scan goes on with a handle of its directory. -/
theorem examineNext_spec (hs : Static g) (hans : ans.Succeed efl.flKey)
    (hready : Ready g edh done rest)
    (hfh : efl.eflNFSFh = edh.edhNFSDirFh) (htidy : ∀ x ∈ examineNext g efl edh fib ans,
      ∀ r ∈ x.1.srv.replies, Tidy g.gMaxFileNameLen r) :
    NextStep g edh efl.flKey fib done rest (examineNext g efl edh fib ans) := by
  unfold examineNext at htidy ⊢
  rw [if_pos hfh] at htidy ⊢
  split
  · rename_i hempty
    rw [if_pos hempty] at htidy
    exact refillNext_spec hs hans hready hempty htidy
  · rename_i hne
    obtain ⟨more, hmore, heof⟩ := hready.ahead
    cases hcase : edh.edhNFSEntries with
    | nil => exact absurd hcase hne
    | cons e entries =>
        have hlisting := hready.listing
        rw [hmore, hcase] at hlisting
        obtain ⟨edh', fib', htake, htook, hready'⟩ :=
          takeEntry_spec hs hans hcase hlisting heof hready.kept fib 0
        rw [htake]
        have hsplit : rest = [] ++ e :: (entries ++ more) := by
          rw [hmore, hcase]
          rfl
        refine .entry g.srv ⟨rfl, rfl⟩ hsplit (List.forall_mem_nil _) ?_ htook ?_
        · exact hready.kept e (by rw [hcase]; exact List.mem_cons_self)
        · rw [List.append_nil]
          exact hready'

end Handle

/-- A scan of a client: its lock and file info block, the names it got, and the error that
ended it. -/
structure Scan where
  fl : LockArg
  fib : FIB
  got : List (List UInt8)
  closed : Option Int

/-- The handler and the scans of all clients. -/
structure World where
  g : Global
  scans : List Scan

/-- A client starts a scan, or goes on with the scan of number `n`. -/
inductive Call
  | examineObject (fl : LockArg) (fib : FIB) (attr : Except Int Fattr)
  | examineNext (n : Nat) (ans : NextAnswers)

/-- A scan after an `EXAMINE_NEXT`. -/
def Scan.next (s : Scan) (g : Global) (fib : FIB) : Scan :=
  if g.gRes1 = DOSTRUE then { s with fib := fib, got := s.got ++ [bstr fib.fibFileName] }
  else { s with fib := fib, closed := some g.gRes2 }

def World.call (w : World) : Call → Option World
  | .examineObject fl fib attr =>
      let (g, fib) := actEXAMINEOBJECT w.g fl fib attr
      some ⟨g, if g.gRes1 = DOSTRUE then w.scans ++ [⟨fl, fib, [], none⟩] else w.scans⟩
  | .examineNext n ans =>
      match w.scans[n]? with
      | some s =>
          if s.closed = none then
            (actEXAMINENEXT w.g s.fl s.fib ans).map fun x => ⟨x.1, w.scans.set n (s.next x.1 x.2)⟩
          else some w
      | none => some w

def callRun (r : Option World) (c : Call) : Option World := r >>= fun w => w.call c

/-- The names of the entries a scan is to return. -/
def returned (maxFileNameLen : Nat) (l : List Entry) : List (List UInt8) :=
  (l.filter fun e => !leftOut maxFileNameLen e).map Entry.name

/-- The entries of the directory of a scan; the zero lock stands for the root. -/
def Scan.listing (s : Scan) (g : Global) : List Entry :=
  match s.fl.lookup with
  | some efl => g.srv.dirs efl.eflNFSFh
  | none => g.srv.dirs g.gMntFh

/-- A scan gets the names it is to return one by one, and ends when it has got all of them. -/
structure Scan.Exact (g : Global) (s : Scan) : Prop where
  got : s.got <+: returned g.gMaxFileNameLen (s.listing g)
  closed : ∀ r ∈ s.closed, r = errorNoMoreEntries ∧ s.got = returned g.gMaxFileNameLen (s.listing g)

/-- The condition on a call: the scan has a lock, whose handle and file id are those of its
directory on the server, and what it needs succeeds. -/
def ScanOk (fhOf : UInt32 → List UInt8) (w : World) : Call → Prop
  | .examineObject fl _ attr => ∃ efl, fl = .lock efl ∧ ∀ l ∈ efl, l.eflNFSFh = fhOf l.flKey ∧
      ∀ a, attr = .ok a → a.fileid = l.flKey
  | .examineNext n ans => ∀ s ∈ w.scans[n]?, ∀ efl ∈ s.fl.lookup, ans.Succeed efl.flKey

instance (fhOf : UInt32 → List UInt8) (w : World) : ∀ c, Decidable (ScanOk fhOf w c)
  | .examineObject .zero _ _ => .isFalse fun ⟨_, heq, _⟩ => nomatch heq
  | .examineObject (.lock none) _ _ => .isTrue ⟨none, rfl, fun _ h => nomatch h⟩
  | .examineObject (.lock (some l)) _ (.error _) =>
      decidable_of_iff (l.eflNFSFh = fhOf l.flKey)
        ⟨fun h => ⟨some l, rfl, fun _ heq => Option.some.inj heq ▸ ⟨h, fun _ h => nomatch h⟩⟩,
          fun ⟨_, heq, h⟩ => (h l (LockArg.lock.inj heq ▸ rfl)).1⟩
  | .examineObject (.lock (some l)) _ (.ok a) =>
      decidable_of_iff (l.eflNFSFh = fhOf l.flKey ∧ a.fileid = l.flKey)
        ⟨fun h =>
          ⟨some l, rfl, fun _ heq => Option.some.inj heq ▸
          ⟨h.1, fun _ heq => Except.ok.inj heq ▸ h.2⟩⟩,
          fun ⟨_, heq, h⟩ => have hl := h l (LockArg.lock.inj heq ▸ rfl); ⟨hl.1, hl.2 a rfl⟩⟩
  | .examineNext n ans =>
      inferInstanceAs (Decidable (∀ s ∈ w.scans[n]?, ∀ efl ∈ s.fl.lookup, ans.Succeed efl.flKey))

/-- The condition on the server: among its replies so far, those to the call included, none has an
entry that is left out behind one that is not. -/
def TidyReplies (w : World) (c : Call) : Prop :=
  ∀ w' ∈ w.call c, ∀ r ∈ w'.g.srv.replies, Tidy w.g.gMaxFileNameLen r

/-- The condition on the state a call starts from. -/
def OnWorld (ok : World → Call → Prop) (r : Option World) (c : Call) : Prop := ∀ w ∈ r, ok w c

instance (maxFileNameLen : Nat) (r : List Entry) : Decidable (Tidy maxFileNameLen r) :=
  inferInstanceAs
    (Decidable (∀ e ∈ r.dropWhile (leftOut maxFileNameLen), leftOut maxFileNameLen e = false))

instance (w : World) (c : Call) : Decidable (TidyReplies w c) :=
  inferInstanceAs (Decidable (∀ w' ∈ w.call c, ∀ r ∈ w'.g.srv.replies, Tidy w.g.gMaxFileNameLen r))

instance (ok : World → Call → Prop) [∀ w c, Decidable (ok w c)] (r : Option World) (c : Call) :
    Decidable (OnWorld ok r c) :=
  inferInstanceAs (Decidable (∀ w ∈ r, ok w c))

def EDH.pos (edh : EDH) : UInt32 × UInt32 × List UInt8 :=
  (edh.edhKey, edh.edhCookie, bstr edh.edhName)

/-- Where a scan will look for a handle; none before its first entry and behind its last. -/
def Scan.pos (s : Scan) : Option (UInt32 × UInt32 × List UInt8) :=
  match s.fl.lookup, s.got, s.closed with
  | some efl, _ :: _, none => some (efl.flKey, s.fib.fibDiskKey, bstr s.fib.fibFileName)
  | _, _, _ => none

/-- Behind the entry named by `name` the handle will read the rest of the listing. -/
def Placed (g : Global) (edh : EDH) (name : List UInt8) : Prop :=
  ∃ pre e rest, e.name = name ∧ Ready g edh (pre ++ [e]) rest

/-- The handles of a directory, away from its start. -/
structure HandleInv (fhOf : UInt32 → List UInt8) (g : Global) (edh : EDH) : Prop where
  fh : edh.edhNFSDirFh = fhOf edh.edhKey
  other : edh.edhCookie ≠ edh.edhKey
  name : ∃ n, IsBStr edh.edhName n ∧ Placed g edh n

/-- How far a scan is in the listing `l` of its directory. -/
inductive ScanAt (maxFileNameLen : Nat) (l : List Entry) (dirKey : UInt32) (s : Scan) : Prop
  | begun (closed : s.closed = none) (got : s.got = []) (key : s.fib.fibDiskKey = dirKey)
  | within {pre rest : List Entry} {e : Entry} (closed : s.closed = none)
      (split : l = pre ++ e :: rest)
      (name : IsBStr s.fib.fibFileName e.name) (got : s.got = returned maxFileNameLen (pre ++ [e]))
      (some : s.got ≠ [])
  | ended (closed : s.closed = some errorNoMoreEntries) (got : s.got = returned maxFileNameLen l)

structure ScanInv (fhOf : UInt32 → List UInt8) (g : Global) (s : Scan) : Prop where
  lock : ∃ efl, s.fl = .lock (some efl) ∧ efl.eflNFSFh = fhOf efl.flKey ∧
    ScanAt g.gMaxFileNameLen (g.srv.dirs efl.eflNFSFh) efl.flKey s

/-- The invariant: for each scan under way there is a handle where it will look for one. -/
structure ScansInv (fhOf : UInt32 → List UInt8) (w : World) : Prop where
  addrs : (w.g.gDH.map EDH.edhAddr).Nodup
  fresh : ∀ edh ∈ w.g.gDH, edh.edhAddr < w.g.newEDH
  handles : ∀ edh ∈ w.g.gDH, HandleInv fhOf w.g edh
  scans : ∀ s ∈ w.scans, ScanInv fhOf w.g s
  tickets : (w.scans.filterMap Scan.pos).Subperm (w.g.gDH.map EDH.pos)

section Step
variable {fhOf : UInt32 → List UInt8} {w : World} {g g' : Global} {s : Scan}
  {s₁ s₂ : List Scan} {efl : ELOCK}
  {edh edh' : EDH} {d₁ d₂ : List EDH} {ans : NextAnswers}

theorem dirStore_split (hg : g.gDH = d₁ ++ edh :: d₂) (hnodup : (g.gDH.map EDH.edhAddr).Nodup)
    (haddr : edh'.edhAddr = edh.edhAddr) : (dirStore g edh').gDH = d₁ ++ edh' :: d₂ := by
  rw [hg, List.map_append, List.map_cons, List.nodup_append, List.nodup_cons] at hnodup
  obtain ⟨-, ⟨hpost, -⟩, hpre⟩ := hnodup
  have hkeep : ∀ l : List EDH, (∀ e ∈ l, e.edhAddr ≠ edh.edhAddr) →
      (l.map fun e => if e.edhAddr = edh'.edhAddr then edh' else e) = l := by
    intro l hl
    conv_rhs => rw [← List.map_id l]
    exact List.map_congr_left fun e he => if_neg (by rw [haddr]; exact hl e he)
  unfold dirStore
  simp only [hg, List.map_append, List.map_cons, if_pos haddr.symm]
  rw [hkeep d₁ fun e he => hpre _ (List.mem_map_of_mem he) _ List.mem_cons_self,
    hkeep d₂ fun e he heq => hpost (heq ▸ List.mem_map_of_mem he)]

theorem dirRemove_split (hg : g.gDH = d₁ ++ edh :: d₂) (hnodup : (g.gDH.map EDH.edhAddr).Nodup)
    (haddr : edh'.edhAddr = edh.edhAddr) : (dirRemove g edh').gDH = d₁ ++ d₂ := by
  rw [hg, List.map_append, List.map_cons, List.nodup_append] at hnodup
  unfold dirRemove
  simp only [hg, haddr]
  have hpre : ∀ e ∈ d₁, ¬ (e.edhAddr == edh.edhAddr) = true := by
    intro e he heq
    exact hnodup.2.2 _ (List.mem_map_of_mem he) _ List.mem_cons_self (beq_iff_eq.mp heq)
  rw [List.eraseP_append_right _ hpre]
  simp

/-- What the head of `act_EXAMINE_NEXT` finds for a scan among those of `s₁` and `s₂`: a
handle that has read as far as the scan has got. -/
structure Found (fhOf : UInt32 → List UInt8) (w : World) (s : Scan) (s₁ s₂ : List Scan)
    (efl : ELOCK) (g : Global)
    (d₁ : List EDH) (edh : EDH) (d₂ : List EDH) (done rest : List Entry) : Prop where
  same : g = { w.g with gDH := g.gDH, newEDH := g.newEDH }
  dh : g.gDH = d₁ ++ edh :: d₂
  addrs : (g.gDH.map EDH.edhAddr).Nodup
  fresh : ∀ e ∈ g.gDH, e.edhAddr < g.newEDH
  handles : ∀ e ∈ d₁ ++ d₂, e ∈ w.g.gDH
  fh : efl.eflNFSFh = edh.edhNFSDirFh
  key : edh.edhKey = efl.flKey
  ready : Ready g edh done rest
  got : s.got = returned w.g.gMaxFileNameLen done
  tickets : ((s₁ ++ s₂).filterMap Scan.pos).Subperm ((d₁ ++ d₂).map EDH.pos)

theorem subperm_middle {α : Type} {l₁ l₂ l₃ l₄ : List α} {a : α} :
    (l₁ ++ a :: l₂).Subperm (l₃ ++ a :: l₄) ↔ (l₁ ++ l₂).Subperm (l₃ ++ l₄) := by
  rw [List.perm_middle.subperm_right, List.perm_middle.subperm_left, List.subperm_cons]

/-- A scan that has just begun gets a handle of its own. -/
theorem ScansInv.found_begun (hinv : ScansInv fhOf w) (hscans : w.scans = s₁ ++ s :: s₂)
    (hfl : s.fl = .lock (some efl)) (hgot : s.got = []) (hkey : s.fib.fibDiskKey = efl.flKey)
    (hedh : ans.edhOk = true) : ∃ g edh, actEXAMINENEXT w.g s.fl s.fib ans =
      examineNext g efl edh s.fib ans ∧
      Found fhOf w s s₁ s₂ efl g [] edh w.g.gDH [] (w.g.srv.dirs efl.eflNFSFh) := by
  have hlookup : dirLookupFromKeyAndCookieAndCBSTR w.g efl.flKey s.fib.fibDiskKey
      s.fib.fibFileName = none := by
    unfold dirLookupFromKeyAndCookieAndCBSTR
    refine List.find?_eq_none.mpr fun edh hmem hfound => ?_
    simp only [Bool.and_eq_true, beq_iff_eq] at hfound
    exact (hinv.handles edh hmem).other (by rw [hfound.1.1, hfound.1.2, hkey])
  unfold actEXAMINENEXT
  simp only [hfl, LockArg.lookup, hlookup]
  rw [if_neg (not_not.mpr hkey.symm), if_pos hedh]
  refine ⟨_, _, rfl, rfl, rfl, ?_, ?_, fun e he => he, rfl, rfl, ?_, hgot, ?_⟩
  · refine List.nodup_cons.mpr ⟨fun hmem => ?_, hinv.addrs⟩
    obtain ⟨e, he, heq⟩ := List.mem_map.mp hmem
    exact absurd (hinv.fresh e he) (by rw [heq]; exact Nat.lt_irrefl _)
  · intro e he
    rcases List.mem_cons.mp he with rfl | he
    · exact Nat.lt_succ_self _
    · exact Nat.lt_succ_of_lt (hinv.fresh e he)
  · exact ⟨rfl, rfl, ⟨_, rfl, nofun⟩, List.forall_mem_nil _⟩
  · have htickets := hinv.tickets
    have hpos : s.pos = none := by
      unfold Scan.pos
      rw [hgot]
      split
      · rename_i h _
        cases h
      · rfl
    rw [hscans, List.filterMap_append, List.filterMap_cons_none hpos, ← List.filterMap_append]
      at htickets
    exact htickets

/-- A scan under way gets a handle that has read as far. -/
theorem ScansInv.found_within (hs : Static w.g) (hinv : ScansInv fhOf w)
    (hscans : w.scans = s₁ ++ s :: s₂)
    (hfl : s.fl = .lock (some efl)) (hfh : efl.eflNFSFh = fhOf efl.flKey)
    (hclosed : s.closed = none)
    {pre rest : List Entry} {e : Entry} (hsplit : w.g.srv.dirs efl.eflNFSFh = pre ++ e :: rest)
    (hname : IsBStr s.fib.fibFileName e.name)
    (hgot : s.got = returned w.g.gMaxFileNameLen (pre ++ [e]))
    (hsome : s.got ≠ []) : ∃ d₁ edh d₂, actEXAMINENEXT w.g s.fl s.fib ans =
      examineNext w.g efl edh s.fib ans ∧
      Found fhOf w s s₁ s₂ efl w.g d₁ edh d₂ (pre ++ [e]) rest := by
  have hpos : s.pos = some (efl.flKey, s.fib.fibDiskKey, bstr s.fib.fibFileName) := by
    unfold Scan.pos
    simp only [hfl, LockArg.lookup, hclosed]
    cases hcase : s.got with
    | nil => exact absurd hcase hsome
    | cons x xs => rfl
  have htickets := hinv.tickets
  rw [hscans, List.filterMap_append, List.filterMap_cons_some hpos] at htickets
  have hmem : (efl.flKey, s.fib.fibDiskKey, bstr s.fib.fibFileName) ∈ w.g.gDH.map EDH.pos :=
    List.Subperm.subset htickets (List.mem_append_right _ List.mem_cons_self)
  obtain ⟨edh₀, hmem₀, hpos₀⟩ := List.mem_map.mp hmem
  simp only [EDH.pos, Prod.mk.injEq] at hpos₀
  obtain ⟨hkey₀, hcookie₀, hname₀⟩ := hpos₀
  have hfound : (w.g.gDH.find? fun x => x.edhCookie == s.fib.fibDiskKey && x.edhKey == efl.flKey &&
      memEq ((x.edhName.getD 0 0).toNat + 2) x.edhName s.fib.fibFileName).isSome = true := by
    rw [List.find?_isSome]
    obtain ⟨n, hn, -⟩ := (hinv.handles edh₀ hmem₀).name
    refine ⟨edh₀, hmem₀, ?_⟩
    simp only [hcookie₀, hkey₀, beq_self_eq_true, Bool.true_and]
    rw [hn.memEq_iff hname, ← hn.bstr_eq, ← hname.bstr_eq, hname₀]
  obtain ⟨edh, hfind⟩ := Option.isSome_iff_exists.mp hfound
  obtain ⟨hmatch, d₁, d₂, hdh, -⟩ := List.find?_eq_some_iff_append.mp hfind
  simp only [Bool.and_eq_true, beq_iff_eq] at hmatch
  obtain ⟨⟨hcookie, hkey⟩, hmemEq⟩ := hmatch
  have hedh : edh ∈ w.g.gDH := by
    rw [hdh]
    exact List.mem_append_right _ List.mem_cons_self
  obtain ⟨n, hn, pre', e', rest', he', hready⟩ := (hinv.handles edh hedh).name
  have hfh' : efl.eflNFSFh = edh.edhNFSDirFh := by rw [hfh, (hinv.handles edh hedh).fh, hkey]
  have hsame : n = e.name := (hn.memEq_iff hname).mp hmemEq
  have hlisting := hready.listing
  rw [← hfh', hsplit, List.append_assoc, List.singleton_append] at hlisting
  have hnames := hs.names efl.eflNFSFh
  rw [hsplit] at hnames
  obtain ⟨rfl, rfl, rfl⟩ := split_unique hnames hlisting (by rw [he', hsame])
  refine ⟨d₁, edh, d₂, ?_, rfl, hdh, hinv.addrs, hinv.fresh, fun x hx => ?_, hfh', hkey,
    hready, hgot, ?_⟩
  · unfold actEXAMINENEXT dirLookupFromKeyAndCookieAndCBSTR
    simp only [hfl, LockArg.lookup, hfind]
  · rw [hdh]
    simp only [List.mem_append, List.mem_cons] at hx ⊢
    tauto
  · have hp : edh.pos = (efl.flKey, s.fib.fibDiskKey, bstr s.fib.fibFileName) := by
      rw [EDH.pos, hkey, hcookie, hn.bstr_eq, hname.bstr_eq, hsame]
    rw [hdh, List.map_append, List.map_cons, hp] at htickets
    rw [List.filterMap_append, List.map_append]
    exact subperm_middle.mp htickets

/-- What the invariant says of handles and scans depends on the listings only. -/
structure SameDirs (g g' : Global) : Prop where
  listings : SameListings g.srv g'.srv
  maxLen : g'.gMaxFileNameLen = g.gMaxFileNameLen

theorem Ready.congr {done rest : List Entry} (h : Ready g edh done rest) (hsame : SameDirs g g') :
    Ready g' edh done rest := by
  refine ⟨?_, h.read, h.ahead, ?_⟩
  · rw [hsame.listings.dirs]
    exact h.listing
  · rw [hsame.maxLen]
    exact h.kept

theorem HandleInv.congr (h : HandleInv fhOf g edh)
    (hsame : SameDirs g g') : HandleInv fhOf g' edh := by
  obtain ⟨n, hn, pre, e, rest, he, hready⟩ := h.name
  exact ⟨h.fh, h.other, n, hn, pre, e, rest, he, hready.congr hsame⟩

theorem ScanInv.congr (h : ScanInv fhOf g s) (hsame : SameDirs g g') : ScanInv fhOf g' s := by
  obtain ⟨efl, hfl, hfh, hat⟩ := h.lock
  refine ⟨efl, hfl, hfh, ?_⟩
  rw [hsame.listings.dirs, hsame.maxLen]
  exact hat

theorem returned_append (max : Nat) (l l' : List Entry) :
    returned max (l ++ l') = returned max l ++ returned max l' := by
  simp [returned]

theorem returned_skipped {max : Nat} {l : List Entry} (h : ∀ e ∈ l, leftOut max e = true) :
    returned max l = [] := by
  unfold returned
  rw [List.map_eq_nil_iff, List.filter_eq_nil_iff]
  intro e he
  rw [h e he]
  decide

theorem returned_singleton {max : Nat} {e : Entry} (h : leftOut max e = false) :
    returned max [e] = [e.name] := by
  simp [returned, h]

/-- A scan has got a further entry, and the handle has moved with it. -/
theorem ScansInv.entry (hinv : ScansInv fhOf w) (hscans : w.scans = s₁ ++ s :: s₂)
    (hfl : s.fl = .lock (some efl)) (hfh : efl.eflNFSFh = fhOf efl.flKey)
    (hclosed : s.closed = none)
    {done gone rest' : List Entry} {e : Entry} {fib' : FIB} {srv' : Server}
    (hfound : Found fhOf w s s₁ s₂ efl g d₁ edh d₂ done (gone ++ e :: rest'))
    (same : SameListings g.srv srv') (skipped : ∀ x ∈ gone, leftOut g.gMaxFileNameLen x = true)
    (kept : leftOut g.gMaxFileNameLen e = false) (took : Took edh efl.flKey e edh' fib')
    (ready : Ready { g with srv := srv' } edh' (done ++ gone ++ [e]) rest')
    (hg' : g' = (dirStore { g with srv := srv' } edh').setRes DOSTRUE 0) :
    ScansInv fhOf ⟨g', s₁ ++ s.next g' fib' :: s₂⟩ := by
  have hmax : g.gMaxFileNameLen = w.g.gMaxFileNameLen := by rw [hfound.same]
  have hsrv : g.srv = w.g.srv := by rw [hfound.same]
  have hdirs : SameDirs w.g g' := by
    rw [hg']
    refine ⟨?_, hmax⟩
    rw [← hsrv]
    exact same
  have hdh : g'.gDH = d₁ ++ edh' :: d₂ := by
    rw [hg']
    exact dirStore_split (g := { g with srv := srv' }) hfound.dh hfound.addrs took.addr
  have haddrs : g'.gDH.map EDH.edhAddr = g.gDH.map EDH.edhAddr := by
    rw [hdh, hfound.dh]
    simp [took.addr]
  have hnext : s.next g' fib' = { s with fib := fib', got :=
      s.got ++ [bstr fib'.fibFileName] } := by
    rw [hg']
    rfl
  have hkey : edh'.edhKey = efl.flKey := took.key.trans hfound.key
  have hgot : (s.next g' fib').got = returned w.g.gMaxFileNameLen (done ++ gone ++ [e]) := by
    rw [hnext, ← hmax]
    simp only [hfound.got, returned_append, returned_skipped skipped, returned_singleton kept,
      took.fibName.bstr_eq, ← hmax, List.append_nil]
  refine ⟨?_, fun x hx => ?_, fun x hx => ?_, fun x hx => ?_, ?_⟩
  · simp only [haddrs]
    exact hfound.addrs
  · have hmem : x.edhAddr ∈ g.gDH.map EDH.edhAddr := by
      rw [← haddrs]
      exact List.mem_map_of_mem hx
    obtain ⟨y, hy, heq⟩ := List.mem_map.mp hmem
    have := hfound.fresh y hy
    rw [heq] at this
    rw [hg']
    exact this
  · simp only [hdh, List.mem_append, List.mem_cons] at hx
    have hcases : x = edh' ∨ x ∈ d₁ ++ d₂ := by
      rw [List.mem_append]
      tauto
    rcases hcases with rfl | hx
    · refine ⟨?_, ?_, e.name, took.edhName, done ++ gone, e, rest', rfl, ready.congr ?_⟩
      · rw [took.fh, ← hfound.fh, hfh, hkey]
      · rw [took.cookie, hkey]
        exact took.other
      · rw [hg']
        exact ⟨⟨rfl, rfl⟩, rfl⟩
    · exact (hinv.handles x (hfound.handles x hx)).congr hdirs
  · have hcases : x = s.next g' fib' ∨ x ∈ w.scans := by
      rw [hscans]
      simp only [List.mem_append, List.mem_cons] at hx ⊢
      tauto
    rcases hcases with rfl | hx
    · refine ⟨efl, by rw [hnext]; exact hfl, hfh, ?_⟩
      have hsplit : w.g.srv.dirs efl.eflNFSFh = (done ++ gone) ++ e :: rest' := by
        rw [← hsrv, hfound.fh, hfound.ready.listing, List.append_assoc]
      refine .within (by rw [hnext]; exact hclosed)
        (by rw [hdirs.listings.dirs]; exact hsplit) ?_ ?_ ?_
      · rw [hnext]
        exact took.fibName
      · rw [hdirs.maxLen]
        exact hgot
      · rw [hnext]
        exact List.append_ne_nil_of_right_ne_nil _ (List.cons_ne_nil _ _)
    · exact (hinv.scans x hx).congr hdirs
  · have hpos : (s.next g' fib').pos = some edh'.pos := by
      have hsome : s.got ++ [bstr fib'.fibFileName] ≠ [] :=
        List.append_ne_nil_of_right_ne_nil _ (List.cons_ne_nil _ _)
      rw [hnext]
      unfold Scan.pos EDH.pos
      simp only [hfl, LockArg.lookup, hclosed, hkey, took.cookie, took.fibName.bstr_eq,
        took.edhName.bstr_eq]
      cases hcase : s.got ++ [e.name] with
      | nil => rw [took.fibName.bstr_eq] at hsome; exact absurd hcase hsome
      | cons y ys => rfl
    have htickets := hfound.tickets
    rw [List.filterMap_append, List.map_append] at htickets
    simp only [hdh, List.filterMap_append, List.filterMap_cons_some hpos,
      List.map_append, List.map_cons]
    exact subperm_middle.mpr htickets

/-- A scan has ended, and its handle is gone. -/
theorem ScansInv.closed (hinv : ScansInv fhOf w) (hscans : w.scans = s₁ ++ s :: s₂)
    (hfl : s.fl = .lock (some efl)) (hfh : efl.eflNFSFh = fhOf efl.flKey)
    {done rest : List Entry} {srv' : Server}
    (hfound : Found fhOf w s s₁ s₂ efl g d₁ edh d₂ done rest)
    (same : SameListings g.srv srv') (addr : edh'.edhAddr = edh.edhAddr)
    (skipped : ∀ x ∈ rest, leftOut g.gMaxFileNameLen x = true)
    (hg' : g' = (dirRemove { g with srv := srv' } edh').setRes DOSFALSE errorNoMoreEntries) :
    ScansInv fhOf ⟨g', s₁ ++ s.next g' s.fib :: s₂⟩ := by
  have hmax : g.gMaxFileNameLen = w.g.gMaxFileNameLen := by rw [hfound.same]
  have hsrv : g.srv = w.g.srv := by rw [hfound.same]
  have hdirs : SameDirs w.g g' := by
    rw [hg']
    refine ⟨?_, hmax⟩
    rw [← hsrv]
    exact same
  have hdh : g'.gDH = d₁ ++ d₂ := by
    rw [hg']
    exact dirRemove_split (g := { g with srv := srv' }) hfound.dh hfound.addrs addr
  have hnext : s.next g' s.fib = { s with closed := some errorNoMoreEntries } := by
    rw [hg']
    rfl
  have hsub : (d₁ ++ d₂).Sublist g.gDH := by
    rw [hfound.dh]
    exact List.Sublist.append_left (List.sublist_cons_self edh d₂) d₁
  refine ⟨?_, fun x hx => ?_, fun x hx => ?_, fun x hx => ?_, ?_⟩
  · simp only [hdh]
    exact hfound.addrs.sublist (hsub.map _)
  · simp only [hdh] at hx
    have := hfound.fresh x (hsub.subset hx)
    rw [hg']
    exact this
  · simp only [hdh] at hx
    exact (hinv.handles x (hfound.handles x hx)).congr hdirs
  · have hcases : x = s.next g' s.fib ∨ x ∈ w.scans := by
      rw [hscans]
      simp only [List.mem_append, List.mem_cons] at hx ⊢
      tauto
    rcases hcases with rfl | hx
    · refine ⟨efl, by rw [hnext]; exact hfl, hfh, .ended (by rw [hnext]) ?_⟩
      have hsplit : w.g.srv.dirs efl.eflNFSFh = done ++ rest := by
        rw [← hsrv, hfound.fh, hfound.ready.listing]
      rw [hnext, hdirs.maxLen, hdirs.listings.dirs, hsplit, returned_append, ← hmax,
        returned_skipped skipped, List.append_nil, hmax]
      exact hfound.got
    · exact (hinv.scans x hx).congr hdirs
  · have hpos : (s.next g' s.fib).pos = none := by
      rw [hnext]
      unfold Scan.pos
      split
      · rename_i h
        cases h
      · rfl
    have htickets := hfound.tickets
    rw [List.filterMap_append] at htickets
    simp only [hdh, List.filterMap_append, List.filterMap_cons_none hpos]
    exact htickets

/-- The scan of a call in the list of all scans. -/
theorem scans_split {scans : List Scan} {n : Nat} (h : scans[n]? = some s) :
    ∃ s₁ s₂, scans = s₁ ++ s :: s₂ ∧ ∀ s', scans.set n s' = s₁ ++ s' :: s₂ := by
  obtain ⟨hlt, rfl⟩ := List.getElem?_eq_some_iff.mp h
  refine ⟨scans.take n, scans.drop (n + 1), ?_,
    fun s' => List.set_eq_take_append_cons_drop.trans (if_pos hlt)⟩
  rw [List.getElem_cons_drop, List.take_append_drop]

/-- A scan goes on. -/
theorem ScansInv.next (hs : Static w.g) (hinv : ScansInv fhOf w) {n : Nat}
    (hok : ScanOk fhOf w (.examineNext n ans))
    (htidy : TidyReplies w (.examineNext n ans)) :
    ∃ w', w.call (.examineNext n ans) = some w' ∧ ScansInv fhOf w' ∧ SameDirs w.g w'.g := by
  have hrefl : SameDirs w.g w.g := ⟨⟨rfl, rfl⟩, rfl⟩
  unfold TidyReplies at htidy
  unfold World.call at htidy ⊢
  cases hn : w.scans[n]? with
  | none => exact ⟨w, by simp only [hn], hinv, hrefl⟩
  | some s =>
      simp only [hn] at htidy ⊢
      obtain ⟨s₁, s₂, hscans, hset⟩ := scans_split hn
      have hmem : s ∈ w.scans := by
        rw [hscans]
        exact List.mem_append_right _ List.mem_cons_self
      obtain ⟨efl, hfl, hfh, hat⟩ := (hinv.scans s hmem).lock
      have hans : ans.Succeed efl.flKey := hok s hn efl (by rw [hfl]; rfl)
      by_cases hclosed : s.closed = none
      · rw [if_pos hclosed] at htidy ⊢
        have hfound : ∃ g d₁ edh d₂ done rest,
            actEXAMINENEXT w.g s.fl s.fib ans = examineNext g efl edh s.fib ans ∧
            Found fhOf w s s₁ s₂ efl g d₁ edh d₂ done rest := by
          cases hat with
          | begun closed got key =>
              obtain ⟨g, edh, hact, hfound⟩ :=
                @ScansInv.found_begun _ _ _ _ _ _ ans hinv hscans hfl got key hans.1
              exact ⟨g, _, edh, _, _, _, hact, hfound⟩
          | within closed split name got hsome =>
              obtain ⟨d₁, edh, d₂, hact, hfound⟩ :=
                @ScansInv.found_within _ _ _ _ _ _ ans hs hinv hscans hfl hfh closed _ _ _
                  split name got hsome
              exact ⟨w.g, d₁, edh, d₂, _, _, hact, hfound⟩
          | ended closed got => rw [hclosed] at closed; cases closed
        obtain ⟨g, d₁, edh, d₂, done, rest, hact, hfound⟩ := hfound
        have hstatic : Static g := by
          rw [hfound.same]
          exact ⟨hs.keyed, hs.names, hs.served, hs.short⟩
        have hmax : g.gMaxFileNameLen = w.g.gMaxFileNameLen := by rw [hfound.same]
        have hsrv : g.srv = w.g.srv := by rw [hfound.same]
        have hstep : NextStep g edh efl.flKey s.fib done rest
            (examineNext g efl edh s.fib ans) := by
          refine examineNext_spec hstatic hans hfound.ready hfound.fh fun x hx => ?_
          rw [hmax]
          refine htidy ⟨x.1, w.scans.set n (s.next x.1 x.2)⟩ ?_
          rw [hact, hx]
          rfl
        rw [hact]
        generalize examineNext g efl edh s.fib ans = r at hstep
        cases hstep with
        | entry srv' same split skipped kept took ready =>
            subst split
            refine ⟨_, rfl, ?_, ?_⟩
            · simp only [hset]
              exact hinv.entry hscans hfl hfh hclosed hfound same skipped kept took ready rfl
            · exact ⟨hsrv ▸ same, hmax⟩
        | closed srv' same addr skipped =>
            refine ⟨_, rfl, ?_, ?_⟩
            · simp only [hset]
              exact hinv.closed hscans hfl hfh hfound same addr skipped rfl
            · exact ⟨hsrv ▸ same, hmax⟩
      · exact ⟨w, if_neg hclosed, hinv, hrefl⟩

/-- A scan begins. -/
theorem ScansInv.begin (hinv : ScansInv fhOf w) {fl : LockArg} {fib : FIB} {attr : Except Int Fattr}
    (hok : ScanOk fhOf w (.examineObject fl fib attr)) :
    ∃ w', w.call (.examineObject fl fib attr) = some w' ∧ ScansInv fhOf w' ∧ SameDirs w.g w'.g := by
  refine ⟨_, rfl, ?_⟩
  obtain ⟨efl, rfl, hlock⟩ := hok
  have hkeep : ∀ res1 res2, SameDirs w.g (w.g.setRes res1 res2) := fun _ _ => ⟨⟨rfl, rfl⟩, rfl⟩
  have hres : ∀ res1 res2, ScansInv fhOf ⟨w.g.setRes res1 res2, w.scans⟩ := fun res1 res2 =>
    ⟨hinv.addrs, hinv.fresh, fun x hx => (hinv.handles x hx).congr (hkeep res1 res2),
      fun x hx => (hinv.scans x hx).congr (hkeep res1 res2), hinv.tickets⟩
  simp only [doActEXAMINEOBJECT]
  cases efl with
  | none => exact ⟨hres _ _, hkeep _ _⟩
  | some l =>
      obtain ⟨hfh, hattr⟩ := hlock l rfl
      cases attr with
      | error res2 => exact ⟨hres _ _, hkeep _ _⟩
      | ok a =>
          have hnew := hres DOSTRUE w.g.gRes2
          refine ⟨⟨hnew.addrs, hnew.fresh, hnew.handles, fun x hx => ?_, ?_⟩, hkeep _ _⟩
          · rcases List.mem_append.mp hx with hx | hx
            · exact hnew.scans x hx
            · rw [List.mem_singleton.mp hx]
              exact ⟨l, rfl, hfh, .begun rfl rfl (hattr a rfl)⟩
          · simp only [Global.setRes, if_true, List.filterMap_append]
            have hnone :
              Scan.pos
              ⟨.lock (some l), fattr2FIB a (if l.eflName = [] then w.g.dlName else l.eflName)
                w.g.gMaxFileNameLen fib, [], none⟩ = none := rfl
            rw [List.filterMap_cons_none hnone, List.filterMap_nil, List.append_nil]
            exact hnew.tickets

end Step

section Run
variable {fhOf : UInt32 → List UInt8} {g : Global} {w : World}

theorem ScanInv.exact {s : Scan} (h : ScanInv fhOf g s) : s.Exact g := by
  obtain ⟨efl, hfl, -, hat⟩ := h.lock
  have hlisting : s.listing g = g.srv.dirs efl.eflNFSFh := by
    unfold Scan.listing
    rw [hfl]
    rfl
  cases hat with
  | begun closed got key =>
      refine ⟨?_, fun r hr => ?_⟩
      · rw [got]
        exact List.nil_prefix
      · rw [closed] at hr
        cases hr
  | within closed split name got some =>
      refine ⟨?_, fun r hr => ?_⟩
      · rw [hlisting, split, List.append_cons, returned_append, ← got]
        exact List.prefix_append _ _
      · rw [closed] at hr
        cases hr
  | ended closed got =>
      rw [← hlisting] at got
      refine ⟨got ▸ List.prefix_refl _, fun r hr => ?_⟩
      rw [closed] at hr
      exact ⟨(Option.some.inj hr).symm, got⟩

theorem Static.congr {g' : Global} (hs : Static g) (hsame : SameDirs g g') : Static g' := by
  obtain ⟨⟨hdirs, hcuts⟩, hmax⟩ := hsame
  refine ⟨?_, ?_, ?_, ?_⟩
  · rw [hdirs]
    exact hs.keyed
  · rw [hdirs]
    exact hs.names
  · rw [hcuts]
    exact hs.served
  · rw [hmax]
    exact hs.short

theorem ScansInv.call (hs : Static w.g) (hinv : ScansInv fhOf w) {c : Call} (hok : ScanOk fhOf w c)
    (htidy : TidyReplies w c) : ∃ w', w.call c = some w' ∧ ScansInv fhOf w' ∧
      SameDirs w.g w'.g := by
  cases c with
  | examineObject fl fib attr => exact hinv.begin hok
  | examineNext n ans => exact hinv.next hs hok htidy

/-- Every scan gets exactly the entries it is to return, whatever scans are under way, in every
run whose calls all meet the condition. -/
theorem scansExact_run (hs : Static g) (hdh : g.gDH = []) {cs : List Call}
    (hguard : Guarded callRun (OnWorld fun w c => ScanOk fhOf w c ∧ TidyReplies w c)
      (some ⟨g, []⟩) cs) :
    ∃ w, run callRun (some ⟨g, []⟩) cs = some w ∧ ∀ s ∈ w.scans, s.Exact w.g := by
  have hstep : ∀ (r : Option World) (c : Call), (∃ w, r = some w ∧ Static w.g ∧ ScansInv fhOf w) →
      OnWorld (fun w c => ScanOk fhOf w c ∧ TidyReplies w c) r c →
      ∃ w, callRun r c = some w ∧ Static w.g ∧ ScansInv fhOf w := by
    rintro r c ⟨w, rfl, hs, hinv⟩ hok
    obtain ⟨hscan, htidy⟩ := hok w rfl
    obtain ⟨w', hcall, hinv', hsame⟩ := hinv.call hs hscan htidy
    exact ⟨w', hcall, hs.congr hsame, hinv'⟩
  have hfirst : ScansInv fhOf ⟨g, []⟩ := by
    constructor
    · simp [hdh]
    · simp [hdh]
    · simp [hdh]
    · exact List.forall_mem_nil _
    · exact List.nil_subperm
  obtain ⟨w, hrun, -, hinv⟩ := hguard.invariant hstep ⟨_, rfl, hs, hfirst⟩
  exact ⟨w, hrun, fun s hmem => (hinv.scans s hmem).exact⟩

/-- A server with one directory, whose replies have up to two entries. -/
def exGlobal (l : List Entry) : Global where
  srv := ⟨fun _ => l, fun _ => .reply 2 false, 0, []⟩
  gDH := []
  newEDH := 1
  gMaxFileNameLen := 106
  dlName := [118]
  gMntFh := [1]
  gMntAttr := default
  gRes1 := 0
  gRes2 := 0

theorem exGlobal_static {l : List Entry} (hkeyed : Keyed Entry.cookie nullCookie l)
    (hnames : (l.map Entry.name).Nodup) : Static (exGlobal l) :=
  ⟨fun _ => hkeyed, fun _ => hnames, fun _ => Nat.succ_ne_zero 1, le_refl 106⟩

def exAttr (fileid : UInt32) : Fattr := { (default : Fattr) with fileid := fileid }

def exLock : LockArg := .lock (some ⟨7, [1], [100]⟩)

def exBegin : Call :=
  .examineObject exLock ⟨0, 0, [], 0, 0, 0, ⟨0, 0, 0⟩, [], 0, 0⟩ (.ok (exAttr 7))

def exNext (n : Nat) (fileid : UInt32) : Call := .examineNext n ⟨true, true, .ok (exAttr fileid)⟩

/-- "." and the files "a" and "b". -/
def exListing : List Entry :=
  [⟨7, [46], [0, 0, 0, 1]⟩, ⟨8, [97], [0, 0, 0, 2]⟩, ⟨9, [98], [0, 0, 0, 3]⟩]

/-- The file "a" and "." behind it. -/
def exBehind : List Entry := [⟨8, [97], [0, 0, 0, 1]⟩, ⟨7, [46], [0, 0, 0, 2]⟩]

/-- Two scans of a directory in turns. -/
def exCalls : List Call :=
  [exBegin, exBegin, exNext 0 8, exNext 1 8, exNext 0 9, exNext 0 8, exNext 1 9]

theorem scansExact_run_two : ∃ w, run callRun (some ⟨exGlobal exListing, []⟩) exCalls = some w ∧
    ∀ s ∈ w.scans, s.Exact w.g := by
  have hkeyed : Keyed Entry.cookie nullCookie exListing := by
    unfold Keyed
    decide
  have hnames : (exListing.map Entry.name).Nodup := by decide
  exact @scansExact_run (fun _ => [1]) _ (exGlobal_static hkeyed hnames) rfl _ (by decide +kernel)

/-- The scan returns the "." that stands behind "a" in the same reply. -/
theorem scansExact_run_fails : Static (exGlobal exBehind) ∧ ∃ w,
    run callRun (some ⟨exGlobal exBehind, []⟩) [exBegin, exNext 0 8, exNext 0 7] = some w ∧
      ∃ s ∈ w.scans, ¬ s.Exact w.g := by
  have hkeyed : Keyed Entry.cookie nullCookie exBehind := by
    unfold Keyed
    decide
  have hnames : (exBehind.map Entry.name).Nodup := by decide
  refine ⟨exGlobal_static hkeyed hnames, ?_⟩
  have hend :
    ((run callRun (some ⟨exGlobal exBehind, []⟩) [exBegin, exNext 0 8, exNext 0 7]).any fun w =>
      w.scans.any fun s => decide (¬ s.got <+: returned w.g.gMaxFileNameLen (s.listing w.g))) =
        true := by
    decide +kernel
  cases hrun : run callRun (some ⟨exGlobal exBehind, []⟩) [exBegin, exNext 0 8, exNext 0 7] with
  | none => rw [hrun] at hend; cases hend
  | some w =>
      rw [hrun, Option.any_some, List.any_eq_true] at hend
      obtain ⟨s, hs, hgot⟩ := hend
      exact ⟨w, rfl, s, hs, fun h => of_decide_eq_true hgot h.got⟩

end Run

end Anfs.Dir
