import Anfs.Dir.Refill
import Anfs.Path.Resolve

/-!
# Names in any case

`nfs_Lookup` asks the server for the name as it is spelled. If there is no such entry it reads the
directory for the first entry whose name differs in upper and lower case only, copies the name
of the entry to an array and asks the server for that.
-/
namespace Anfs.Dir
open Anfs.Lib Anfs.Xdr Anfs.Nfs Anfs.Rpc
open Anfs.Buf (Fault)
open Anfs.Path (toLower strnicmp SameName maxLongAmigaFileNameLen)

/-- `stricmp(a, b) == 0`. -/
def stricmp : List UInt8 → List UInt8 → Bool
  | [], [] => true
  | a :: as, b :: bs => toLower a == toLower b && stricmp as bs
  | _, _ => false

/-- The comparison of `nfs_LookupNC`. -/
def matchesName (name entry : List UInt8) : Bool :=
  (decide (106 ≤ name.length) && strnicmp 106 entry name) ||
  (decide (name.length < 106) && stricmp entry name)

/-- Names from 106 bytes on are compared in the first 106 bytes. -/
def Matches (name : List UInt8) (e : Entry) : Prop :=
  if 106 ≤ name.length then SameName (e.name.take 106) (name.take 106) else SameName e.name name

instance (name : List UInt8) (e : Entry) : Decidable (Matches name e) := by
  unfold Matches
  infer_instance

/-- The server with the objects of the entries, and the error of each LOOKUP that fails. -/
structure LookupServer where
  srv : Server
  object : Entry → Diropokres
  errors : Nat → Option Int
  lookups : Nat

/-- A name that the arguments of a LOOKUP cannot hold. -/
def cantEncode : Int := 1000 + ClntStat.cantEncodeArgs.toInt

/-- What `nfsproc_lookup_2` comes to: an error, NFSERR_NOENT or the object. -/
inductive LookupRes
  | failed (res2 : Int)
  | noent
  | ok (dres : Diropokres)

def nfsprocLookup2 (s : LookupServer) (dirfh name : List UInt8) : LookupRes × LookupServer :=
  if nfsMaxnamlen < name.length then (.failed cantEncode, s)
  else
    (match s.errors s.lookups with
      | some err => .failed err
      | none =>
          match (s.srv.dirs dirfh).find? (fun e => e.name = name) with
          | some e => .ok (s.object e)
          | none => .noent,
      { s with lookups := s.lookups + 1 })

/-- A result, `*Res2` and the server. -/
abbrev LookupEnd := Option Diropokres × Int × LookupServer

/-- `nfs_ILookup`; `nc` is the case insensitive search, if it is wanted. -/
def nfsILookup (s : LookupServer) (dirfh name : List UInt8) (res2 : Int)
    (nc : Option (LookupServer → Except Fault LookupEnd)) : Except Fault LookupEnd :=
  match nfsprocLookup2 s dirfh name, nc with
  | (.failed err, s), _ => .ok (none, err, s)
  | (.noent, s), some nc => nc s
  | (.noent, s), none => .ok (none, nfsErr2IoErrCont .noent .read, s)
  | (.ok dres, s), _ => .ok (some dres, res2, s)

/-- The inner loop of `nfs_LookupNC`: an entry that matches, or the cookie of the last entry. -/
def searchEntries (name : List UInt8) : List Entry → List UInt8 → Entry ⊕ List UInt8
  | [], cookie => .inr cookie
  | e :: entries, cookie =>
      if matchesName name e.name then .inl e
      else searchEntries name entries (if entries = [] then e.cookie else cookie)

/-- Room of `Name`. -/
def nameSize : Nat := 255

/-- The loop of `nfs_LookupNC`; the name found is copied with its terminator. -/
def nfsLookupNCLoop (dirfh name : List UInt8) :
    Nat → LookupServer → List UInt8 → Bool → Int → Except Fault LookupEnd
  | 0, _, _, _, _ => .error .endless
  | fuel + 1, s, cookie, eof, res2 =>
      match nfsReadDir s.srv dirfh cookie eof res2 with
      | (entries, eof, res2, srv) =>
          let s := { s with srv := srv }
          if entries = [] then .ok (none, if eof then errorObjectNotFound else res2, s)
          else
            match searchEntries name entries cookie with
            | .inl e =>
                if e.name.length < nameSize then nfsILookup s dirfh e.name res2 none
                else .error .overrun
            | .inr cookie =>
                if eof then .ok (none, errorObjectNotFound, s)
                else nfsLookupNCLoop dirfh name fuel s cookie eof res2

def nfsLookupNC (s : LookupServer) (dirfh name : List UInt8) (res2 : Int) :
    Except Fault LookupEnd :=
  nfsLookupNCLoop dirfh name ((s.srv.dirs dirfh).length + 1) s nullCookie false res2

def nfsLookup (s : LookupServer) (dirfh name : List UInt8) (res2 : Int) : Except Fault LookupEnd :=
  nfsILookup s dirfh name res2 (some fun s => nfsLookupNC s dirfh name res2)

theorem stricmp_iff (a b : List UInt8) : stricmp a b = true ↔ SameName a b := by
  induction a generalizing b with
  | nil => cases b <;> simp [stricmp, SameName]
  | cons x a ih =>
      cases b with
      | nil => simp [stricmp, SameName]
      | cons y b =>
          rw [stricmp, Bool.and_eq_true, ih b, beq_iff_eq]
          simp [SameName]

theorem strnicmp_take (n : Nat) (a b : List UInt8) :
    strnicmp n a b = true ↔ SameName (a.take n) (b.take n) := by
  induction n generalizing a b with
  | zero => simp [strnicmp, SameName]
  | succ n ih =>
      cases a with
      | nil => cases b <;> simp [strnicmp, SameName]
      | cons x a =>
          cases b with
          | nil => simp [strnicmp, SameName]
          | cons y b =>
              rw [strnicmp, Bool.and_eq_true, ih a b, beq_iff_eq]
              simp [SameName]

theorem matchesName_iff (name : List UInt8) (e : Entry) :
    matchesName name e.name = true ↔ Matches name e := by
  unfold matchesName Matches
  rw [Bool.or_eq_true, Bool.and_eq_true, Bool.and_eq_true, decide_eq_true_eq, decide_eq_true_eq,
    strnicmp_take, stricmp_iff]
  by_cases h : 106 ≤ name.length
  · rw [if_pos h]
    exact ⟨fun hor => hor.elim And.right fun hlt => absurd h (Nat.not_le.mpr hlt.1),
      fun hm => .inl ⟨h, hm⟩⟩
  · rw [if_neg h]
    exact ⟨fun hor => hor.elim (fun hle => absurd hle.1 h) And.right,
      fun hm => .inr ⟨Nat.lt_of_not_le h, hm⟩⟩

theorem matches_congr {name : List UInt8} {e f : Entry} (h : e.name = f.name) :
    Matches name e ↔ Matches name f := by
  unfold Matches
  rw [h]

theorem searchEntries_eq (name : List UInt8) (es : List Entry) (cookie : List UInt8) :
    searchEntries name es cookie = match es.find? fun e => Matches name e with
      | some e => .inl e
      | none => .inr (lastKey Entry.cookie cookie es) := by
  induction es generalizing cookie with
  | nil => rfl
  | cons e es ih =>
      unfold searchEntries
      by_cases h : Matches name e
      · rw [if_pos ((matchesName_iff name e).mpr h), List.find?_cons, decide_eq_true h]
      · rw [if_neg (mt (matchesName_iff name e).mp h), List.find?_cons, decide_eq_false h, ih]
        cases es with
        | nil => rfl
        | cons f es => rfl

/-- How the search of a listing ends. -/
inductive SearchEnd
  | failed (err : Int)
  | empty
  | found (e : Entry)
  | notFound

/-- What `nfs_LookupNC` makes of it. -/
def SearchEnd.result (s : LookupServer) (dirfh : List UInt8) (res2 : Int) :
    SearchEnd → Except Fault LookupEnd
  | .failed err => .ok (none, err, s)
  | .empty => .ok (none, res2, s)
  | .found e =>
      if e.name.length < nameSize then nfsILookup s dirfh e.name res2 none else .error .overrun
  | .notFound => .ok (none, errorObjectNotFound, s)

/-- The entries that `k` replies from call `n` on have room for. -/
def roomTo (cuts : Nat → Cut) (n : Nat) : Nat → Nat
  | 0 => 0
  | k + 1 => (cuts n).room + roomTo cuts (n + 1) k

section Search
variable {cuts : Nat → Cut} {name : List UInt8} {n k : Nat} {l : List Entry}

/-- The `k` replies from call `n` on have entries, and none of these matches. -/
structure Passed (cuts : Nat → Cut) (name : List UInt8) (n : Nat) (l : List Entry)
    (k : Nat) : Prop where
  served : ∀ j < k, (cuts (n + j)).served
  misses : ∀ e ∈ l.take (roomTo cuts n k), ¬ Matches name e

/-- The search of the listing `l` from call `n` on ends with call `n + k`. -/
inductive SearchEnds (cuts : Nat → Cut) (name : List UInt8) (n : Nat) (l : List Entry) (k : Nat) :
    SearchEnd → Prop
  | failed {err : Int} (hcut : cuts (n + k) = .failed err) :
      SearchEnds cuts name n l k (.failed err)
  | empty {late : Bool} (hcut : cuts (n + k) = .reply 0 late) (hleft : roomTo cuts n k < l.length) :
      SearchEnds cuts name n l k .empty
  | found {e : Entry} (hcut : (cuts (n + k)).served)
      (hfound : (l.take (roomTo cuts n (k + 1))).find? (fun e => Matches name e) = some e) :
      SearchEnds cuts name n l k (.found e)
  | notFound {num : Nat} {late : Bool} (hcut : cuts (n + k) = .reply num late)
      (hall : l.length ≤ roomTo cuts n (k + 1)) (hnone : ∀ e ∈ l, ¬ Matches name e) :
      SearchEnds cuts name n l k .notFound

theorem roomTo_add (j k : Nat) :
    roomTo cuts n (j + k) = roomTo cuts n j + roomTo cuts (n + j) k := by
  induction j generalizing n with
  | zero => rw [Nat.zero_add, roomTo, Nat.zero_add, Nat.add_zero]
  | succ j ih =>
      have hn : n + 1 + j = n + (j + 1) := by omega
      rw [Nat.succ_add, roomTo, ih, roomTo, hn, Nat.add_assoc]

theorem roomTo_mono {j k : Nat} (h : j ≤ k) : roomTo cuts n j ≤ roomTo cuts n k := by
  obtain ⟨i, rfl⟩ := Nat.exists_eq_add_of_le h
  rw [roomTo_add]
  exact Nat.le_add_right _ _

theorem Passed.zero (cuts : Nat → Cut) (name : List UInt8) (n : Nat) (l : List Entry) :
    Passed cuts name n l 0 where
  served := fun j hj => absurd hj (Nat.not_lt_zero j)
  misses := fun _ he => absurd he List.not_mem_nil

/-- A reply whose entries do not match, and then `k` of these. -/
theorem Passed.cons {num : Nat} {late : Bool} (hcut : cuts n = .reply num late) (hnum : num ≠ 0)
    (hmiss : ∀ e ∈ l.take num, ¬ Matches name e) (h : Passed cuts name (n + 1) (l.drop num) k) :
    Passed cuts name n l (k + 1) where
  served := by
    intro j hj
    cases j with
    | zero =>
        rw [Nat.add_zero, hcut]
        exact hnum
    | succ j =>
        have hn : n + (j + 1) = n + 1 + j := by omega
        rw [hn]
        exact h.served j (Nat.lt_of_succ_lt_succ hj)
  misses := by
    intro e he
    rw [roomTo, hcut, Cut.room, List.take_add] at he
    rcases List.mem_append.mp he with he | he
    · exact hmiss e he
    · exact h.misses e he

theorem SearchEnds.cons {num : Nat} {late : Bool} {r : SearchEnd} (hcut : cuts n = .reply num late)
    (hmiss : ∀ e ∈ l.take num, ¬ Matches name e)
    (h : SearchEnds cuts name (n + 1) (l.drop num) k r) : SearchEnds cuts name n l (k + 1) r := by
  have hn : n + 1 + k = n + (k + 1) := by omega
  have hroom : ∀ k, roomTo cuts n (k + 1) = num + roomTo cuts (n + 1) k := fun k => by
    rw [roomTo, hcut, Cut.room]
  cases h with
  | failed hfail => exact .failed (hn ▸ hfail)
  | empty hempty hleft =>
      refine .empty (hn ▸ hempty) ?_
      rw [hroom]
      rw [List.length_drop] at hleft
      omega
  | found hserved hfound =>
      refine .found (hn ▸ hserved) ?_
      rw [hroom, List.take_add, List.find?_append, hfound, List.find?_eq_none.mpr, Option.none_or]
      intro e he
      simpa using hmiss e he
  | notFound hreply hall hnone =>
      refine .notFound (hn ▸ hreply) ?_ ?_
      · rw [hroom]
        rw [List.length_drop] at hall
        omega
      · intro e he
        rw [← List.take_append_drop num l] at he
        exact (List.mem_append.mp he).elim (hmiss e) (hnone e)

/-- The loop of `nfs_LookupNC` ends, as the search of what it has still to read. -/
theorem nfsLookupNCLoop_ends {fuel : Nat} {s : LookupServer} {dirfh : List UInt8}
    {done rest : List Entry}
    (hkeyed : Keyed Entry.cookie nullCookie (done ++ rest)) (hdir : s.srv.dirs dirfh = done ++ rest)
    (hfuel : rest.length < fuel) (res2 : Int) :
    ∃ k r srv', Passed s.srv.cuts name s.srv.calls rest k ∧
      SearchEnds s.srv.cuts name s.srv.calls rest k r ∧
      srv' = { s.srv with calls := s.srv.calls + k + 1, replies := srv'.replies } ∧
      nfsLookupNCLoop dirfh name fuel s (lastKey Entry.cookie nullCookie done) false res2 =
        r.result { s with srv := srv' } dirfh res2 := by
  induction fuel generalizing s done rest with
  | zero => exact absurd hfuel (Nat.not_lt_zero _)
  | succ fuel ih =>
      cases hcut : s.srv.cuts s.srv.calls with
      | failed err =>
          refine ⟨0, .failed err, { s.srv with calls := s.srv.calls + 1 }, .zero ..,
            .failed hcut, rfl, ?_⟩
          unfold nfsLookupNCLoop nfsReadDir
          simp only [hcut]
          rfl
      | reply num late =>
          have hroom : roomTo s.srv.cuts s.srv.calls 1 = num := by
            rw [roomTo, hcut]
            rfl
          unfold nfsLookupNCLoop
          simp only [nfsReadDir_reply hcut hkeyed hdir]
          by_cases hempty : rest.take num = []
          · rw [if_pos hempty]
            by_cases hrest : rest = []
            · subst hrest
              exact ⟨0, .notFound, _, .zero .., .notFound hcut (Nat.zero_le _) (by simp),
                rfl, by simp; rfl⟩
            · have hnum : num = 0 := (List.take_eq_nil_iff.mp hempty).resolve_right hrest
              subst hnum
              have hpos := List.length_pos_of_ne_nil hrest
              exact ⟨0, .empty, _, .zero .., .empty hcut hpos, rfl, by simp [hrest]; rfl⟩
          · have hnum : num ≠ 0 := fun h => hempty (by rw [h, List.take_zero])
            rw [if_neg hempty, searchEntries_eq]
            cases hfind : (rest.take num).find? fun e => Matches name e with
            | some e =>
                refine ⟨0, .found e, _, .zero .., .found ?_ (hroom ▸ hfind), rfl, rfl⟩
                rw [Nat.add_zero, hcut]
                exact hnum
            | none =>
                have hmiss : ∀ e ∈ rest.take num, ¬ Matches name e := fun e he => by
                  simpa using List.find?_eq_none.mp hfind e he
                dsimp only
                split
                · rename_i heof
                  have hall : rest.length ≤ num := by
                    simp only [Bool.and_eq_true, decide_eq_true_eq] at heof
                    exact heof.1
                  rw [List.take_of_length_le hall] at hmiss
                  exact ⟨0, .notFound, _, .zero ..,
                    .notFound hcut (hroom.symm ▸ hall) hmiss, rfl, rfl⟩
                · rename_i heof
                  have hsplit : done ++ rest = (done ++ rest.take num) ++ rest.drop num := by
                    rw [List.append_assoc, List.take_append_drop]
                  have hpos : 0 < (rest.take num).length := List.length_pos_of_ne_nil hempty
                  rw [List.length_take] at hpos
                  have hdrop : (rest.drop num).length < fuel := by
                    rw [List.length_drop]
                    omega
                  have hnext := hdir.trans hsplit
                  obtain ⟨k, r, srv', hpassed, hends, hsrv, hrun⟩ := @ih { s with
                      srv := { s.srv with
                        calls := s.srv.calls + 1
                        replies := rest.take num :: s.srv.replies } }
                    (done ++ rest.take num) (rest.drop num) (hsplit ▸ hkeyed) hnext hdrop
                  rw [eq_false_of_ne_true heof, ← lastKey_append]
                  refine ⟨k + 1, r, srv', hpassed.cons hcut hnum hmiss,
                    hends.cons hcut hmiss, ?_, hrun⟩
                  rw [hsrv, Nat.add_right_comm s.srv.calls 1 k, Nat.add_assoc s.srv.calls k 1]

end Search

section Search
variable {cuts : Nat → Cut} {name : List UInt8} {n k k' : Nat} {l : List Entry} {r : SearchEnd}

/-- An empty reply, with entries left. -/
def EmptyMet (cuts : Nat → Cut) (name : List UInt8) (n : Nat) (l : List Entry) : Prop :=
  ∃ k late, Passed cuts name n l k ∧ cuts (n + k) = .reply 0 late ∧ roomTo cuts n k < l.length

/-- A match whose name has no room. -/
def LongMet (cuts : Nat → Cut) (name : List UInt8) (n : Nat) (l : List Entry) : Prop :=
  ∃ k e, (∀ j < k, (cuts (n + j)).served) ∧
    (l.take (roomTo cuts n k)).find? (fun e => Matches name e) = some e ∧ nameSize ≤ e.name.length

theorem find?_take_mono {p : Entry → Bool} {j m : Nat} {e : Entry} (h : j ≤ m)
    (hfound : (l.take j).find? p = some e) : (l.take m).find? p = some e := by
  obtain ⟨i, rfl⟩ := Nat.exists_eq_add_of_le h
  rw [List.take_add, List.find?_append, hfound]
  rfl

theorem Passed.not_found {e : Entry} {m : Nat} (h : Passed cuts name n l k)
    (hm : m ≤ roomTo cuts n k) :
    (l.take m).find? (fun e => Matches name e) ≠ some e := by
  intro hfound
  have hmem := List.mem_of_find?_eq_some hfound
  have hmatch := List.find?_some hfound
  exact h.misses e (List.take_subset_take_left l hm hmem) (of_decide_eq_true hmatch)

theorem roomTo_succ (k : Nat) : roomTo cuts n (k + 1) = roomTo cuts n k + (cuts (n + k)).room :=
  roomTo_add k 1

theorem SearchEnds.of_emptyMet (hk : Passed cuts name n l k) (h : SearchEnds cuts name n l k r)
    (hmet : EmptyMet cuts name n l) : r = .empty := by
  obtain ⟨k', late, hpassed, hcut', hleft⟩ := hmet
  rcases Nat.lt_trichotomy k k' with hlt | rfl | hgt
  · have hserved := hpassed.served k hlt
    have hroom : roomTo cuts n (k + 1) ≤ roomTo cuts n k' := roomTo_mono hlt
    cases h with
    | failed hcut => rw [hcut] at hserved; exact hserved.elim
    | empty => rfl
    | found _ hfound => exact absurd hfound (hpassed.not_found hroom)
    | notFound _ hall => omega
  · cases h with
    | failed hcut => cases hcut.symm.trans hcut'
    | empty => rfl
    | found hcut => rw [hcut'] at hcut; exact absurd rfl hcut
    | notFound _ hall =>
        rw [roomTo_succ, hcut', Cut.room] at hall
        omega
  · have hserved := hk.served k' hgt
    rw [hcut'] at hserved
    exact absurd rfl hserved

theorem SearchEnds.of_longMet (hk : Passed cuts name n l k) (h : SearchEnds cuts name n l k r)
    (hmet : LongMet cuts name n l) : ∃ e, r = .found e ∧ nameSize ≤ e.name.length := by
  obtain ⟨k', e, hserved, hfind, hlong⟩ := hmet
  have hlt : k < k' := by
    by_contra hle
    exact hk.not_found (roomTo_mono (Nat.not_lt.mp hle)) hfind
  have hcutk := hserved k hlt
  cases h with
  | failed hcut => rw [hcut] at hcutk; exact hcutk.elim
  | empty hcut => rw [hcut] at hcutk; exact absurd rfl hcutk
  | @found e' _ hfound =>
      obtain rfl : e' = e :=
        Option.some.inj ((find?_take_mono (roomTo_mono hlt) hfound).symm.trans hfind)
      exact ⟨e', rfl, hlong⟩
  | notFound _ _ hnone =>
      have hmatch := List.find?_some hfind
      have hmem := List.take_subset _ _ (List.mem_of_find?_eq_some hfind)
      exact absurd (of_decide_eq_true hmatch) (hnone e hmem)

theorem SearchEnds.emptyMet (hk : Passed cuts name n l k) (h : SearchEnds cuts name n l k .empty) :
    EmptyMet cuts name n l := by
  cases h with
  | empty hcut hleft => exact ⟨k, _, hk, hcut, hleft⟩

theorem SearchEnds.longMet {e : Entry} (hk : Passed cuts name n l k)
    (h : SearchEnds cuts name n l k (.found e)) (hlong : nameSize ≤ e.name.length) :
    LongMet cuts name n l := by
  cases h with
  | found hcut hfound =>
      refine ⟨k + 1, e, fun j hj => ?_, hfound, hlong⟩
      rcases Nat.lt_succ_iff_lt_or_eq.mp hj with hj | rfl
      · exact hk.served j hj
      · exact hcut

end Search

/-- The errors of the calls made between the states `s` and `s'`. -/
inductive Failed (s s' : LookupServer) (name : List UInt8) : Int → Prop
  | cantEncode (hlong : nfsMaxnamlen < name.length) : Failed s s' name cantEncode
  | lookup {i : Nat} {err : Int} (hlow : s.lookups ≤ i) (hhigh : i < s'.lookups)
      (herr : s.errors i = some err) : Failed s s' name err
  | readDir {i : Nat} {err : Int} (hlow : s.srv.calls ≤ i) (hhigh : i < s'.srv.calls)
      (hcut : s.srv.cuts i = .failed err) : Failed s s' name err

/-- The entry with the name, or the first one that matches it. -/
def named (l : List Entry) (name : List UInt8) : Option Entry :=
  (l.find? fun e => e.name = name).or (l.find? fun e => Matches name e)

/-- What a look-up comes to. -/
structure LooksUp (s : LookupServer) (dirfh name : List UInt8) (r : Option Diropokres) (res2 : Int)
    (s' : LookupServer) : Prop where
  failed : ∀ err, Failed s s' name err → r = none ∧ res2 = err
  found : (∀ err, ¬ Failed s s' name err) → r = (named (s.srv.dirs dirfh) name).map s.object
  notFound : (∀ err, ¬ Failed s s' name err) → named (s.srv.dirs dirfh) name = none →
    res2 = errorObjectNotFound

/-- Whatever `*Res2` was before, `nfs_Lookup` ends, does not leave `Name` and looks the name up. -/
def LookupExact (s : LookupServer) (dirfh name : List UInt8) : Prop :=
  ∀ res2, ∃ r res2' s', nfsLookup s dirfh name res2 = .ok (r, res2', s') ∧
    LooksUp s dirfh name r res2' s'

/-- No entry has the name, and the server can tell. -/
structure NeedsSearch (s : LookupServer) (dirfh name : List UInt8) : Prop where
  short : name.length ≤ nfsMaxnamlen
  answered : s.errors s.lookups = none
  absent : (s.srv.dirs dirfh).find? (fun e => e.name = name) = none

section Lookup
variable {s s' : LookupServer} {dirfh name : List UInt8} {k : Nat} {err : Int}

theorem nfsILookup_failed (hlen : name.length ≤ nfsMaxnamlen) (herr : s.errors s.lookups = some err)
    (res2 : Int) (nc : Option (LookupServer → Except Fault LookupEnd)) :
    nfsILookup s dirfh name res2 nc = .ok (none, err, { s with lookups := s.lookups + 1 }) := by
  unfold nfsILookup nfsprocLookup2
  rw [if_neg (Nat.not_lt.mpr hlen), herr]

theorem nfsILookup_ok {e : Entry} (hlen : name.length ≤ nfsMaxnamlen)
    (herr : s.errors s.lookups = none)
    (hfind : (s.srv.dirs dirfh).find? (fun e => e.name = name) = some e) (res2 : Int)
    (nc : Option (LookupServer → Except Fault LookupEnd)) :
    nfsILookup s dirfh name res2 nc =
      .ok (some (s.object e), res2, { s with lookups := s.lookups + 1 }) := by
  unfold nfsILookup nfsprocLookup2
  simp only [if_neg (Nat.not_lt.mpr hlen), herr, hfind]

theorem NeedsSearch.nfsLookup_eq (h : NeedsSearch s dirfh name) (res2 : Int) :
    nfsLookup s dirfh name res2 = nfsLookupNC { s with lookups := s.lookups + 1 }
      dirfh name res2 := by
  unfold nfsLookup nfsILookup nfsprocLookup2
  simp only [if_neg (Nat.not_lt.mpr h.short), h.answered, h.absent]

/-- A call that sends one LOOKUP fails with its error. -/
theorem Failed.of_lookup (hlen : name.length ≤ nfsMaxnamlen)
    (h : Failed s { s with lookups := s.lookups + 1 } name err) :
    s.errors s.lookups = some err := by
  cases h with
  | cantEncode hlong => exact absurd hlen (Nat.not_le.mpr hlong)
  | @lookup i _ hlow hhigh herr =>
      obtain rfl : i = s.lookups := Nat.le_antisymm (Nat.le_of_lt_succ hhigh) hlow
      exact herr
  | readDir hlow hhigh => exact absurd hhigh (Nat.not_lt.mpr hlow)

/-- Without a search the look-up is exact. -/
theorem lookupExact_of_direct (h : ¬ NeedsSearch s dirfh name) : LookupExact s dirfh name := by
  intro res2
  unfold nfsLookup
  by_cases hlen : nfsMaxnamlen < name.length
  · refine ⟨none, cantEncode, s, ?_, fun err herr => ?_, fun hnone => ?_, fun hnone => ?_⟩
    · unfold nfsILookup nfsprocLookup2
      rw [if_pos hlen]
    · cases herr with
      | cantEncode => exact ⟨rfl, rfl⟩
      | lookup hlow hhigh => omega
      | readDir hlow hhigh => omega
    · exact absurd (.cantEncode hlen) (hnone _)
    · exact absurd (.cantEncode hlen) (hnone _)
  · rw [Nat.not_lt] at hlen
    cases herr : s.errors s.lookups with
    | some err =>
        have hfailed : Failed s { s with lookups := s.lookups + 1 } name err :=
          .lookup (Nat.le_refl _) (Nat.lt_succ_self _) herr
        refine ⟨none, err, _, nfsILookup_failed hlen herr .., fun err' herr' => ?_,
          fun hnone => absurd hfailed (hnone _), fun hnone => absurd hfailed (hnone _)⟩
        exact ⟨rfl, Option.some.inj (herr.symm.trans (herr'.of_lookup hlen))⟩
    | none =>
        obtain ⟨e, hfind⟩ : ∃ e, (s.srv.dirs dirfh).find? (fun e => e.name = name) = some e := by
          cases hfind : (s.srv.dirs dirfh).find? fun e => e.name = name with
          | none => exact absurd ⟨hlen, herr, hfind⟩ h
          | some e => exact ⟨e, rfl⟩
        have hnamed : named (s.srv.dirs dirfh) name = some e := by
          rw [named, hfind]
          rfl
        refine ⟨_, _, _, nfsILookup_ok hlen herr hfind .., fun err' herr' => ?_,
          fun _ => ?_, fun _ hn => ?_⟩
        · cases herr.symm.trans (herr'.of_lookup hlen)
        · rw [hnamed]
          rfl
        · rw [hnamed] at hn
          cases hn

/-- Where the call failed that is the reason of an error. -/
theorem NeedsSearch.failed_cases (h : NeedsSearch s dirfh name) {l : List Entry}
    (hk : Passed s.srv.cuts name s.srv.calls l k) (hcalls : s'.srv.calls = s.srv.calls + k + 1)
    (hfailed : Failed s s' name err) : s.srv.cuts (s.srv.calls + k) = .failed err ∨
      ∃ i, s.lookups < i ∧ i < s'.lookups ∧ s.errors i = some err := by
  cases hfailed with
  | cantEncode hlong => exact absurd h.short (Nat.not_le.mpr hlong)
  | @lookup i _ hlow hhigh herr =>
      rcases Nat.lt_or_eq_of_le hlow with hlt | rfl
      · exact .inr ⟨i, hlt, hhigh, herr⟩
      · cases h.answered.symm.trans herr
  | @readDir i _ hlow hhigh hcut =>
      obtain ⟨j, rfl⟩ := Nat.exists_eq_add_of_le hlow
      rcases Nat.lt_or_ge j k with hlt | hge
      · have hserved := hk.served j hlt
        rw [hcut] at hserved
        exact hserved.elim
      · obtain rfl : j = k := by omega
        exact .inl hcut

/-- The first match is the first entry with its name. -/
theorem find?_name_of_match {l : List Entry} {e : Entry}
    (h : l.find? (fun e => Matches name e) = some e) :
    l.find? (fun f => f.name = e.name) = some e := by
  obtain ⟨hmatch, front, back, rfl, hfront⟩ := List.find?_eq_some_iff_append.mp h
  refine List.find?_eq_some_iff_append.mpr ⟨by simp, front, back, rfl, fun f hf => ?_⟩
  have hmiss : ¬ Matches name f := by simpa using hfront f hf
  have hne : f.name ≠ e.name := fun hname =>
    hmiss ((matches_congr hname).mpr (of_decide_eq_true hmatch))
  simpa using hne

/-- The search that finds a match with a name that has room. -/
theorem NeedsSearch.found {srv' : Server} {res2 : Int} {e : Entry} (h : NeedsSearch s dirfh name)
    (hk : Passed s.srv.cuts name s.srv.calls (s.srv.dirs dirfh) k)
    (hcut : (s.srv.cuts (s.srv.calls + k)).served)
    (hfound : (s.srv.dirs dirfh).find? (fun e => Matches name e) = some e)
    (hsrv : srv' = { s.srv with calls := s.srv.calls + k + 1, replies := srv'.replies })
    (hroom : e.name.length < nameSize) :
    ∃ r res2' s', nfsILookup { s with lookups := s.lookups + 1, srv := srv' } dirfh
      e.name res2 none =
      .ok (r, res2', s') ∧ LooksUp s dirfh name r res2' s' := by
  have hlen : e.name.length ≤ nfsMaxnamlen := Nat.le_of_lt hroom
  have hdirs : srv'.dirs = s.srv.dirs := by rw [hsrv]
  have hcalls : srv'.calls = s.srv.calls + k + 1 := by rw [hsrv]
  have hnamed : named (s.srv.dirs dirfh) name = some e := by
    rw [named, h.absent, Option.none_or, hfound]
  have hread : ∀ {s' : LookupServer} {err : Int}, s'.srv = srv' → s'.lookups = s.lookups + 2 →
      Failed s s' name err → s.errors (s.lookups + 1) = some err := by
    intro s' err hs hlookups hfailed
    rcases h.failed_cases hk (by rw [hs, hcalls]) hfailed with hfail | ⟨i, hlow, hhigh, herr⟩
    · rw [hfail] at hcut
      exact hcut.elim
    · obtain rfl : i = s.lookups + 1 := by omega
      exact herr
  cases herr : s.errors (s.lookups + 1) with
  | some err =>
      have hfailed : Failed s { s with lookups := s.lookups + 1 + 1, srv := srv' } name err :=
        .lookup (Nat.le_succ _) (Nat.lt_succ_self _) herr
      refine ⟨_, _, _, nfsILookup_failed hlen herr .., fun err' herr' => ?_,
        fun hnone => absurd hfailed (hnone _), fun hnone => absurd hfailed (hnone _)⟩
      exact ⟨rfl, Option.some.inj (herr.symm.trans (hread rfl rfl herr'))⟩
  | none =>
      have hfind : (srv'.dirs dirfh).find? (fun f => f.name = e.name) = some e := by
        rw [hdirs]
        exact find?_name_of_match hfound
      refine ⟨_, _, _, nfsILookup_ok hlen herr hfind .., fun err' herr' => ?_,
        fun _ => ?_, fun _ hn => ?_⟩
      · cases herr.symm.trans (hread rfl rfl herr')
      · rw [hnamed]
        rfl
      · rw [hnamed] at hn
        cases hn

/-- The search that does not end at a match. -/
theorem NeedsSearch.missed {srv' : Server} {r : SearchEnd} {res2 : Int}
    (h : NeedsSearch s dirfh name)
    (hk : Passed s.srv.cuts name s.srv.calls (s.srv.dirs dirfh) k)
    (hends : SearchEnds s.srv.cuts name s.srv.calls (s.srv.dirs dirfh) k r)
    (hsrv : srv' = { s.srv with calls := s.srv.calls + k + 1, replies := srv'.replies }) :
    (∀ err, r = .failed err →
      LooksUp s dirfh name none err { s with lookups := s.lookups + 1, srv := srv' }) ∧
    (r = .notFound →
      LooksUp s dirfh name none errorObjectNotFound
        { s with lookups := s.lookups + 1, srv := srv' }) ∧
    (r = .empty → LooksUp s dirfh name none res2 { s with lookups := s.lookups + 1, srv := srv' } →
      res2 = errorObjectNotFound) := by
  have hcalls : srv'.calls = s.srv.calls + k + 1 := by rw [hsrv]
  have hread : ∀ {err : Int}, Failed s { s with lookups := s.lookups + 1, srv := srv' } name err →
      s.srv.cuts (s.srv.calls + k) = .failed err := by
    intro err hfailed
    rcases h.failed_cases hk hcalls hfailed with hfail | ⟨i, hlow, hhigh, -⟩
    · exact hfail
    · exact absurd hlow (Nat.not_lt.mpr (Nat.le_of_lt_succ hhigh))
  refine ⟨fun err hr => ?_, fun hr => ?_, fun hr hlooks => ?_⟩
  · subst hr
    cases hends with
    | failed hcut =>
        have hfailed : Failed s { s with lookups := s.lookups + 1, srv := srv' } name err :=
          .readDir (Nat.le_add_right _ _) (by rw [hcalls]; exact Nat.lt_succ_self _) hcut
        refine ⟨fun err' herr' => ?_, fun hnone => absurd hfailed (hnone _),
          fun hnone => absurd hfailed (hnone _)⟩
        cases hcut.symm.trans (hread herr')
        exact ⟨rfl, rfl⟩
  · subst hr
    cases hends with
    | notFound hcut hall hnone =>
        have hnamed : named (s.srv.dirs dirfh) name = none := by
          rw [named, h.absent, Option.none_or, List.find?_eq_none]
          exact fun e he => by simpa using hnone e he
        refine ⟨fun err' herr' => ?_, fun _ => ?_, fun _ _ => rfl⟩
        · cases hcut.symm.trans (hread herr')
        · rw [hnamed]
          rfl
  · subst hr
    cases hends with
    | empty hcut hleft =>
        have hnone : ∀ err, ¬ Failed s { s with lookups := s.lookups + 1, srv :=
            srv' } name err := by
          intro err hfailed
          cases hcut.symm.trans (hread hfailed)
        have hnamed := hlooks.found hnone
        exact hlooks.notFound hnone (Option.map_eq_none_iff.mp hnamed.symm)

/-- A search ends, and `nfs_Lookup` makes of it what it makes of its end. -/
theorem NeedsSearch.ends (h : NeedsSearch s dirfh name)
    (hkeyed : Keyed Entry.cookie nullCookie (s.srv.dirs dirfh)) (res2 : Int) :
    ∃ k r srv', Passed s.srv.cuts name s.srv.calls (s.srv.dirs dirfh) k ∧
      SearchEnds s.srv.cuts name s.srv.calls (s.srv.dirs dirfh) k r ∧
      srv' = { s.srv with calls := s.srv.calls + k + 1, replies := srv'.replies } ∧
      nfsLookup s dirfh name res2 =
        r.result { s with lookups := s.lookups + 1, srv := srv' } dirfh res2 := by
  rw [h.nfsLookup_eq]
  exact @nfsLookupNCLoop_ends _ _ { s with lookups := s.lookups + 1 } dirfh [] (s.srv.dirs dirfh)
    hkeyed rfl (Nat.lt_succ_self _) res2

/-- Behind an empty reply `*Res2` is what it was before. -/
theorem NeedsSearch.not_exact_of_emptyMet (h : NeedsSearch s dirfh name)
    (hkeyed : Keyed Entry.cookie nullCookie (s.srv.dirs dirfh))
    (hmet : EmptyMet s.srv.cuts name s.srv.calls (s.srv.dirs dirfh)) : ¬ LookupExact
      s dirfh name := by
  intro hexact
  obtain ⟨k, r, srv', hk, hends, hsrv, hlookup⟩ := h.ends hkeyed 0
  obtain rfl := hends.of_emptyMet hk hmet
  obtain ⟨r, res2, s', hok, hlooks⟩ := hexact 0
  rw [hlookup] at hok
  cases hok
  exact absurd ((h.missed hk hends hsrv).2.2 rfl hlooks) (by decide)

theorem NeedsSearch.overrun_of_longMet (h : NeedsSearch s dirfh name)
    (hkeyed : Keyed Entry.cookie nullCookie (s.srv.dirs dirfh))
    (hmet : LongMet s.srv.cuts name s.srv.calls (s.srv.dirs dirfh)) (res2 : Int) :
    nfsLookup s dirfh name res2 = .error .overrun := by
  obtain ⟨k, r, srv', hk, hends, -, hlookup⟩ := h.ends hkeyed res2
  obtain ⟨e, rfl, hlong⟩ := hends.of_longMet hk hmet
  rw [hlookup, SearchEnd.result, if_neg (Nat.not_lt.mpr hlong)]

theorem LookupExact.runs (h : LookupExact s dirfh name) (res2 : Int) (f : Fault) :
    nfsLookup s dirfh name res2 ≠ .error f := by
  intro herr
  obtain ⟨r, res2, s', hok, -⟩ := h res2
  cases herr.symm.trans hok

theorem NeedsSearch.exact (h : NeedsSearch s dirfh name)
    (hkeyed : Keyed Entry.cookie nullCookie (s.srv.dirs dirfh))
    (hempty : ¬ EmptyMet s.srv.cuts name s.srv.calls (s.srv.dirs dirfh))
    (hlong : ¬ LongMet s.srv.cuts name s.srv.calls (s.srv.dirs dirfh)) :
    LookupExact s dirfh name := by
  intro res2
  obtain ⟨k, r, srv', hk, hends, hsrv, hlookup⟩ := h.ends hkeyed res2
  have hmissed := @NeedsSearch.missed _ _ _ _ _ _ res2 h hk hends hsrv
  rw [hlookup]
  cases r with
  | failed err => exact ⟨_, _, _, rfl, hmissed.1 err rfl⟩
  | empty => exact absurd (hends.emptyMet hk) hempty
  | notFound => exact ⟨_, _, _, rfl, hmissed.2.1 rfl⟩
  | found e =>
      have hroom : e.name.length < nameSize :=
        Nat.lt_of_not_le fun hle => hlong (hends.longMet hk hle)
      cases hends with
      | found hcut hfound =>
          have hall : (s.srv.dirs dirfh).find? (fun e => Matches name e) = some e := by
            have := find?_take_mono (Nat.le_max_left _ (s.srv.dirs dirfh).length) hfound
            rwa [List.take_of_length_le (Nat.le_max_right _ _)] at this
          rw [SearchEnd.result, if_pos hroom]
          exact h.found hk hcut hall hsrv hroom

/-- `nfs_Lookup` looks the name up if and only if a search does not meet an empty reply in front of
the match, and the name that matches has room. -/
theorem lookupExact_iff (hkeyed : Keyed Entry.cookie nullCookie (s.srv.dirs dirfh)) :
    LookupExact s dirfh name ↔ (NeedsSearch s dirfh name →
      ¬ EmptyMet s.srv.cuts name s.srv.calls (s.srv.dirs dirfh) ∧
        ¬ LongMet s.srv.cuts name s.srv.calls (s.srv.dirs dirfh)) := by
  constructor
  · intro hexact h
    refine ⟨fun hmet => h.not_exact_of_emptyMet hkeyed hmet hexact, fun hmet => ?_⟩
    exact hexact.runs 0 .overrun (h.overrun_of_longMet hkeyed hmet 0)
  · intro hmet
    by_cases h : NeedsSearch s dirfh name
    · exact h.exact hkeyed (hmet h).1 (hmet h).2
    · exact lookupExact_of_direct h

end Lookup

/-- One entry with the given name, and a server that answers every READDIR so. -/
def exLookup (entry : List UInt8) (cut : Cut) : LookupServer where
  srv := ⟨fun _ => [⟨8, entry, [0, 0, 0, 1]⟩], fun _ => cut, 0, []⟩
  object := fun _ => ⟨[2], default⟩
  errors := fun _ => none
  lookups := 0

/-- "A" finds "a". -/
theorem lookupExact_iff_reply : LookupExact (exLookup [97] (.reply 1 true)) [1] [65] := by
  refine (lookupExact_iff ⟨by decide, by decide⟩).mpr fun _ => ⟨?_, ?_⟩
  · rintro ⟨k, late, -, hcut, -⟩
    cases hcut
  · rintro ⟨k, e, -, hfound, hlong⟩
    have hmem := List.take_subset _ _ (List.mem_of_find?_eq_some hfound)
    obtain rfl := List.mem_singleton.mp hmem
    exact absurd hlong (by decide)

/-- With an empty reply `nfs_Lookup` returns without an error, and a name of 255 bytes leaves
`Name`. -/
theorem not_lookupExact_empty :
    ((∃ s', nfsLookup (exLookup [97] (.reply 0 false)) [1] [65] 0 = .ok (none, 0, s')) ∧
      ¬ LookupExact (exLookup [97] (.reply 0 false)) [1] [65]) ∧
    nfsLookup (exLookup (List.replicate 255 97) (.reply 1 true)) [1] (List.replicate 255 65) 0 =
        .error .overrun ∧
      ¬ LookupExact (exLookup (List.replicate 255 97) (.reply 1 true)) [1]
        (List.replicate 255 65) := by
  have hsearch : NeedsSearch (exLookup [97] (.reply 0 false)) [1] [65] := ⟨by decide, rfl, rfl⟩
  have hempty : EmptyMet (fun _ => .reply 0 false) [65] 0 [⟨8, [97], [0, 0, 0, 1]⟩] :=
    ⟨0, false, .zero .., rfl, by decide⟩
  have hlongSearch : NeedsSearch (exLookup (List.replicate 255 97) (.reply 1 true)) [1]
      (List.replicate 255 65) := ⟨by decide +kernel, rfl, by decide +kernel⟩
  have hlong : LongMet (fun _ => .reply 1 true) (List.replicate 255 65) 0
      [⟨8, List.replicate 255 97, [0, 0, 0, 1]⟩] :=
    ⟨1, ⟨8, List.replicate 255 97, [0, 0, 0, 1]⟩, fun _ _ => Nat.one_ne_zero, by decide +kernel,
      by decide +kernel⟩
  have hoverrun := hlongSearch.overrun_of_longMet ⟨by decide, by decide⟩ hlong 0
  exact ⟨⟨⟨_, rfl⟩, hsearch.not_exact_of_emptyMet ⟨by decide, by decide⟩ hempty⟩, hoverrun,
    fun h => h.runs 0 .overrun hoverrun⟩

end Anfs.Dir
