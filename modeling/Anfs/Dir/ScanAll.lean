import Anfs.Dir.Chained
import Anfs.Dir.Scan

/-!
# Scans with `EXAMINE_ALL`

A client calls `EXAMINE_ALL` with one control block until it fails. What it gets are the entries
that stand in the replies at or behind the first one that is not left out, as far as pattern and
hook let them pass.
-/
namespace Anfs.Dir
open Anfs.Lib Anfs.Xdr Anfs.Nfs
open Anfs.File (DOSTRUE DOSFALSE)

/-- The replies with the entries of `l`, from call `n` on. -/
def repliesOf (cuts : Nat → Cut) (n : Nat) (l : List Entry) : List (List Entry) :=
  if _h : (cuts n).room = 0 ∨ l = [] then []
  else l.take (cuts n).room :: repliesOf cuts (n + 1) (l.drop (cuts n).room)
termination_by l.length
decreasing_by
  have hpos := List.length_pos_of_ne_nil (not_or.mp _h).2
  have hroom := (not_or.mp _h).1
  rw [List.length_drop]
  omega

/-- The entries that a handle offers which has read up to `l`. -/
def offers (maxFileNameLen : Nat) (cuts : Nat → Cut) (n : Nat) (l : List Entry) : List Entry :=
  (repliesOf cuts n l).flatMap fun r => r.dropWhile (leftOut maxFileNameLen)

section Offers
variable {maxFileNameLen n : Nat} {cuts : Nat → Cut} {l : List Entry}

@[simp] theorem offers_nil : offers maxFileNameLen cuts n [] = [] := by
  rw [offers, repliesOf, dif_pos (.inr rfl), List.flatMap_nil]

theorem offers_of_served {num : Nat} {late : Bool} (hcut : cuts n = .reply num late)
    (hnum : num ≠ 0) :
    offers maxFileNameLen cuts n l = (l.take num).dropWhile (leftOut maxFileNameLen) ++
      offers maxFileNameLen cuts (n + 1) (l.drop num) := by
  by_cases hl : l = []
  · simp [hl]
  · rw [offers, repliesOf, dif_neg (by rw [hcut]; exact not_or.mpr ⟨hnum, hl⟩),
      List.flatMap_cons, hcut]
    rfl

/-- What is not to be left out is offered. -/
theorem offers_filter (hcuts : ∀ k, (cuts k).served) :
    (offers maxFileNameLen cuts n l).filter (fun e => !leftOut maxFileNameLen e) =
      l.filter fun e => !leftOut maxFileNameLen e := by
  have hdrop : ∀ r : List Entry, (r.dropWhile (leftOut maxFileNameLen)).filter
      (fun e => !leftOut maxFileNameLen e) = r.filter fun e => !leftOut maxFileNameLen e := by
    intro r
    have hgone : (r.takeWhile (leftOut maxFileNameLen)).filter
        (fun e => !leftOut maxFileNameLen e) = [] := by
      rw [List.filter_eq_nil_iff]
      intro e he
      simp [List.mem_takeWhile_imp he]
    conv_rhs => rw [← List.takeWhile_append_dropWhile (p := leftOut maxFileNameLen) (l := r)]
    rw [List.filter_append, hgone, List.nil_append]
  unfold offers
  fun_induction repliesOf cuts n l with
  | case1 n l h =>
      obtain h | rfl := h
      · cases hcut : cuts n with
        | failed err =>
            have hserved := hcuts n
            rw [hcut] at hserved
            exact hserved.elim
        | reply num late =>
            have hserved := hcuts n
            rw [hcut] at h hserved
            exact absurd h hserved
      · rfl
  | case2 n l h ih =>
      rw [List.flatMap_cons, List.filter_append, hdrop, ih, ← List.filter_append,
        List.take_append_drop]

/-- A refill takes what the handle offers. -/
theorem offers_nextdir {srv srv' : Server} {edh edh' : EDH}
    {done rest left : List Entry} {fuel : Nat}
    {res2 res2' : Int} (hcuts : ∀ k, (srv.cuts k).served)
    (hkeyed : Keyed Entry.cookie nullCookie (done ++ rest))
    (hdir : srv.dirs edh.edhNFSDirFh = done ++ rest) (hread : HasRead edh done)
    (h : nextdir maxFileNameLen fuel srv edh res2 = some (left, edh', res2', srv')) :
    ∃ gone more, rest = gone ++ (left ++ more) ∧ HasRead edh' (done ++ gone) ∧
      offers maxFileNameLen srv.cuts srv.calls rest = left ++ offers maxFileNameLen srv.cuts
        srv'.calls more := by
  induction fuel generalizing srv edh done rest with
  | zero => cases h
  | succ fuel ih =>
      cases hcut : srv.cuts srv.calls with
      | failed err =>
          have hserved := hcuts srv.calls
          rw [hcut] at hserved
          exact hserved.elim
      | reply num late =>
          have hnum : num ≠ 0 := by
            have hserved := hcuts srv.calls
            rwa [hcut] at hserved
          have hparts : rest.take num ++ rest.drop num = rest := List.take_append_drop num rest
          have hcookie : edh.edhNFSCookie = lastKey Entry.cookie nullCookie done := hread
          unfold nextdir at h
          simp only [hcookie, nfsReadDir_reply hcut hkeyed hdir, skipEntries_eq] at h
          rw [offers_of_served hcut hnum]
          split at h
          · rename_i hagain
            obtain ⟨-, hskipped, -⟩ := hagain
            rw [hskipped, List.nil_append]
            rw [← hparts, ← List.append_assoc] at hkeyed hdir
            have hread' : lastKey Entry.cookie (lastKey Entry.cookie nullCookie done)
                ((rest.take num).takeWhile (leftOut maxFileNameLen)) =
                  lastKey Entry.cookie nullCookie (done ++ rest.take num) := by
              rw [takeWhile_of_skipped hskipped, lastKey_append]
            obtain ⟨gone, more, hsplit, hread', hoffers⟩ :=
              @ih { srv with calls := srv.calls + 1, replies := rest.take num :: srv.replies }
                { edh with
                  edhEof := decide (rest.length ≤ num) && !(late && !rest.isEmpty)
                  edhNFSCookie := lastKey Entry.cookie (lastKey Entry.cookie nullCookie done)
                    ((rest.take num).takeWhile (leftOut maxFileNameLen)) } _ _ hcuts
                      hkeyed hdir hread' h
            refine ⟨rest.take num ++ gone, more, ?_, ?_, hoffers⟩
            · rw [List.append_assoc, ← hsplit, hparts]
            · rwa [← List.append_assoc]
          · cases h
            refine ⟨(rest.take num).takeWhile (leftOut maxFileNameLen), rest.drop num, ?_, ?_, rfl⟩
            · rw [← List.append_assoc, List.takeWhile_append_dropWhile, hparts]
            · exact hread.append _ (by rw [hcookie])

end Offers

/-- A static listing whose entries have different cookies, and calls that succeed. -/
structure Steady (g : Global) (dirfh : List UInt8) : Prop where
  keyed : Keyed Entry.cookie nullCookie (g.srv.dirs dirfh)
  served : ∀ k, (g.srv.cuts k).served

/-- The handle has read `done`, and offers `coming` from there on. -/
structure Holds (g : Global) (edh : EDH) (done coming : List Entry) : Prop where
  steady : Steady g edh.edhNFSDirFh
  read : HasRead edh done
  ahead : ∃ more, g.srv.dirs edh.edhNFSDirFh = done ++ (edh.edhNFSEntries ++ more) ∧
    (edh.edhEof = true → more = []) ∧
    coming = edh.edhNFSEntries ++ offers g.gMaxFileNameLen g.srv.cuts g.srv.calls more

/-- Handles of the same directory at the same address, and the same listings. -/
structure SameHandle (g : Global) (edh : EDH) (g' : Global) (edh' : EDH) : Prop where
  addr : edh'.edhAddr = edh.edhAddr
  fh : edh'.edhNFSDirFh = edh.edhNFSDirFh
  server : g' = { g with srv := g'.srv }
  listings : SameListings g.srv g'.srv

section Loop
variable {g g' : Global} {edh edh' : EDH} {done coming front back es : List Entry}

theorem SameHandle.refl (g : Global) (edh : EDH) : SameHandle g edh g edh :=
  ⟨rfl, rfl, rfl, rfl, rfl⟩

theorem SameHandle.trans {g'' : Global} {edh'' : EDH} (h : SameHandle g edh g' edh')
    (h' : SameHandle g' edh' g'' edh'') : SameHandle g edh g'' edh'' := by
  refine ⟨h'.addr.trans h.addr, h'.fh.trans h.fh, ?_, ?_, ?_⟩
  · rw [h'.server, h.server]
  · rw [h'.listings.dirs, h.listings.dirs]
  · rw [h'.listings.cuts, h.listings.cuts]

theorem Steady.congr (h : Steady g edh.edhNFSDirFh) (hsame : SameHandle g edh g' edh') :
    Steady g' edh'.edhNFSDirFh := by
  refine ⟨?_, ?_⟩
  · rw [hsame.listings.dirs, hsame.fh]
    exact h.keyed
  · rw [hsame.listings.cuts]
    exact h.served

/-- The outcome of a refill. -/
inductive Refill (g : Global) (edh : EDH) (done coming : List Entry) :
    Except Ending EDH × Global × Int → Prop
  | entries {g' : Global} {edh' : EDH} {gone : List Entry} {res2 : Int}
      (same : SameHandle g edh g' edh')
      (some : edh'.edhNFSEntries ≠ []) (holds : Holds g' edh' (done ++ gone) coming) :
      Refill g edh done coming (.ok edh', g', res2)
  | exhausted {g' : Global} {edh' : EDH} (same : SameHandle g edh g' edh') (none : coming = []) :
      Refill g edh done coming (.error .exhausted, dirRemove g' edh', errorNoMoreEntries)

theorem getNextEntries_spec (h : Holds g edh done coming)
    (hempty : edh.edhNFSEntries = []) (res2 : Int) :
    ∃ r, getNextEntries g edh true res2 = some r ∧ Refill g edh done coming r := by
  obtain ⟨more, hlisting, heof, hcoming⟩ := h.ahead
  rw [hempty, List.nil_append] at hlisting hcoming
  unfold getNextEntries
  by_cases hend : edh.edhEof = true
  · rw [if_pos hend]
    refine ⟨_, rfl, .exhausted (.refl ..) ?_⟩
    rw [hcoming, heof hend, offers_nil]
  · rw [if_neg hend]
    have hkeyed := h.steady.keyed
    rw [hlisting] at hkeyed
    have hfuel : more.length < g.srv.rounds edh.edhNFSDirFh := by
      rw [Server.rounds, hlisting, List.length_append]
      omega
    obtain ⟨left, edh', srv', hnext, href⟩ :=
      @nextdir_spec g.gMaxFileNameLen _ _ _ _ _ h.steady.served hkeyed hlisting h.read hfuel res2
    obtain ⟨gone, more', hsplit, -, hread, heof', hleft⟩ := href.split
    obtain ⟨gone₁, more₁, hsplit₁, hread₁, hoffers⟩ :=
      offers_nextdir h.steady.served hkeyed hlisting h.read hnext
    have hbehind : ∀ {x y : List Entry}, more = x ++ (left ++ y) → HasRead edh' (done ++ x) →
        leftBehind Entry.cookie nullCookie edh'.edhNFSCookie (done ++ more) = left ++ y := by
      intro x y hxy hread
      rw [hxy, ← List.append_assoc] at hkeyed ⊢
      rw [hread]
      exact leftBehind_lastKey hkeyed
    obtain rfl : more' = more₁ :=
      List.append_cancel_left ((hbehind hsplit hread).symm.trans (hbehind hsplit₁ hread₁))
    obtain ⟨haddr, -, hfh⟩ := href.same
    have hsame : SameHandle g edh { g with srv := srv' } edh' :=
      ⟨haddr, hfh, rfl, href.sameListings⟩
    simp only [hnext]
    by_cases hnone : left = []
    · rw [if_neg (not_not.mpr hnone)]
      have hend' := hleft hnone
      have hlast : srv'.lastFailed = none := by
        have hserved := h.steady.served (srv'.calls - 1)
        rw [Server.lastFailed, href.sameListings.cuts]
        cases hcut : g.srv.cuts (srv'.calls - 1) with
        | failed err => rw [hcut] at hserved; exact hserved.elim
        | reply num late => rfl
      have hending : refillEnding edh' srv' res2 = .exhausted := by
        rw [refillEnding, hlast, hend']
        rfl
      refine ⟨_, rfl, ?_⟩
      rw [hending, hend', if_pos rfl, if_neg (by decide)]
      refine .exhausted hsame ?_
      rw [hcoming, hoffers, hnone, heof' hend', offers_nil]
      rfl
    · rw [if_pos hnone, if_pos trivial]
      have hsame' : SameHandle g edh { g with srv := srv' } { edh' with edhNFSEntries := left } :=
        ⟨haddr, hfh, rfl, href.sameListings⟩
      have hholds : Holds { g with srv := srv' } { edh' with edhNFSEntries := left }
          (done ++ gone) coming := by
        refine ⟨h.steady.congr hsame', hread, more', ?_, heof', ?_⟩
        · show srv'.dirs edh'.edhNFSDirFh = _
          rw [href.sameListings.dirs, hfh, hlisting, hsplit, List.append_assoc]
        · show coming = left ++ offers _ srv'.cuts srv'.calls more'
          rw [hcoming, hoffers, href.sameListings.cuts]
      exact ⟨_, rfl, .entries hsame' hnone hholds⟩

theorem SameHandle.max (h : SameHandle g edh g' edh') : g'.gMaxFileNameLen = g.gMaxFileNameLen := by
  rw [h.server]

variable {p : ExAllPacket} {s s' : AllState}

theorem Filled.withHandle (h : Filled p s es)
    (hmax : g'.gMaxFileNameLen = s.g.gMaxFileNameLen) (edh' : EDH)
    (res2 : Int) (refills : Nat) :
    Filled p { s with g := g', edh := edh', res2 := res2, refills := refills } es := by
  refine ⟨?_, h.count, ?_, h.room⟩
  · rw [hmax]
    exact h.laid
  · rw [hmax]
    exact h.last

/-- Behind the entries that have been removed the handle offers the others. -/
theorem Holds.removed (h : Holds s.g s.edh done coming)
    (hentries : s.edh.edhNFSEntries = front ++ back)
    (hgone : Removed s s' front back) : SameHandle s.g s.edh s'.g s'.edh ∧
      ∃ tail, coming = front ++ (back ++ tail) ∧
        Holds s'.g s'.edh (done ++ front) (back ++ tail) := by
  obtain ⟨more, hlisting, heof, hcoming⟩ := h.ahead
  have hsame : SameHandle s.g s.edh s'.g s'.edh := by
    refine ⟨?_, ?_, ?_, ?_, ?_⟩
    · rw [hgone.edh]
    · rw [hgone.edh]
    · rw [hgone.g]
    · rw [hgone.g]
    · rw [hgone.g]
  refine ⟨hsame, offers s.g.gMaxFileNameLen s.g.srv.cuts s.g.srv.calls more, ?_,
    h.steady.congr hsame, ?_,
    more, ?_, ?_, ?_⟩
  · rw [hcoming, hentries, List.append_assoc]
  · rw [HasRead, hgone.edh, lastKey_append, ← h.read]
  · rw [hgone.g, hgone.edh, hlisting, hentries]
    simp only [List.append_assoc]
  · rw [hgone.edh]
    exact heof
  · rw [hgone.g, hgone.edh]

/-- How the outer loop ends, with `front` of the entries that the handle offered removed. -/
inductive LoopEnd (p : ExAllPacket) (s : AllState) (back : List Entry) :
    Option Ending → Global → AllState → Prop
  | full {s' : AllState} {done : List Entry} {e : Entry} {back' : List Entry}
      (same : SameHandle s.g s.edh s'.g s'.edh) (holds : Holds s'.g s'.edh done back)
      (head : back = e :: back')
      (hmatch : p.eac.matchesName e = true)
      (hsize : s'.size.toNat < sizeNeeded p.type s.g.gMaxFileNameLen e.name) :
      LoopEnd p s back none ((dirStore s'.g s'.edh).setRes DOSTRUE s'.res2) s'
  | exhausted {g' : Global} {edh' : EDH} {s' : AllState} (same : SameHandle s.g s.edh g' edh')
      (max : s'.g.gMaxFileNameLen = s.g.gMaxFileNameLen) (none : back = []) :
      LoopEnd p s back (some .exhausted) ((dirRemove g' edh').setRes DOSFALSE errorNoMoreEntries) s'

/-- What a packet does with the entries that the handle offers: `front` are stored as far as pattern
and hook let them pass. -/
def Delivers (p : ExAllPacket) (s : AllState) (es coming : List Entry) (ending : Option Ending)
    (g' : Global) (s' : AllState) : Prop :=
  ∃ front back, coming = front ++ back ∧ LoopEnd p s back ending g' s' ∧
    Filled p s' (es ++ front.filter p.eac.accepts) ∧
    ((∀ e ∈ front, p.eac.matchesName e = false) → s'.size = s.size)

/-- `front` has been removed before the rest of the loop. -/
theorem Delivers.append {s₁ : AllState} {ending : Option Ending}
    (hsame : SameHandle s.g s.edh s₁.g s₁.edh)
    (hsize : (∀ e ∈ front, p.eac.matchesName e = false) → s₁.size = s.size)
    (h : Delivers p s₁ (es ++ front.filter p.eac.accepts) coming ending g' s') :
    Delivers p s es (front ++ coming) ending g' s' := by
  obtain ⟨front', back, hsplit, hend, hfilled, hkept⟩ := h
  refine ⟨front ++ front', back, by rw [hsplit, List.append_assoc], ?_, ?_, fun hno => ?_⟩
  · cases hend with
    | full same holds head hmatch hsize =>
        exact .full (hsame.trans same) holds head hmatch (hsame.max ▸ hsize)
    | exhausted same max none => exact .exhausted (hsame.trans same) (max.trans hsame.max) none
  · rwa [List.filter_append, ← List.append_assoc]
  · rw [hkept fun e he => hno e (List.mem_append_right _ he), hsize fun e he =>
      hno e (List.mem_append_left _ he)]

theorem Delivers.after {s₁ : AllState} {ending : Option Ending}
    (hsame : SameHandle s.g s.edh s₁.g s₁.edh)
    (hsize : s₁.size = s.size) (h : Delivers p s₁ es coming ending g' s') :
    Delivers p s es coming ending g' s' := by
  have h' : Delivers p s₁ (es ++ [].filter p.eac.accepts) coming ending g' s' := by
    rwa [List.filter_nil, List.append_nil]
  exact h'.append hsame fun _ => hsize

/-- A buffer that entries are to be stored in has a size which is a positive `LONG`. -/
def Addressable (p : ExAllPacket) (coming : List Entry) : Prop :=
  ∀ e ∈ coming, p.eac.matchesName e = true → p.size.toNat < 2147483648

/-- The rest of a round behind the refill. -/
theorem Filled.round (hp : p.Valid) {ans : AllAnswers} (hans : ans.Succeed) (h : Filled p s es)
    (hold : Holds s.g s.edh done coming) (hmax : Addressable p coming) {fuel : Nat}
    (ih : ∀ {s₁ : AllState} {es₁ done₁ coming₁ : List Entry}, Filled p s₁ es₁ →
      Holds s₁.g s₁.edh done₁ coming₁ →
      Addressable p coming₁ →
      (s₁.g.srv.dirs s₁.edh.edhNFSDirFh).length < fuel + done₁.length →
      ∃ ending g' s', allLoop p ans fuel s₁ = some (ending, g', s') ∧
        Delivers p s₁ es₁ coming₁ ending g' s')
    (hsome : s.edh.edhNFSEntries ≠ [])
    (hfuel : (s.g.srv.dirs s.edh.edhNFSDirFh).length < fuel + 1 + done.length) :
    ∃ ending g' s' r s₁, allEntries p ans.attr s.edh.edhNFSEntries s = (r, s₁) ∧
      (r = .empty ∧ allLoop p ans fuel s₁ = some (ending, g', s') ∨ r = .full ∧
        s₁.done r = (ending, g', s')) ∧
      Delivers p s es coming ending g' s' := by
  have hheld : ∀ e ∈ s.edh.edhNFSEntries, e ∈ coming := by
    obtain ⟨more, -, -, hcoming⟩ := hold.ahead
    intro e he
    rw [hcoming]
    exact List.mem_append_left _ he
  obtain ⟨r, s₁, front, back, hrun, hsplit, hgone, hfilled, hsize, hends⟩ :=
    h.entries hp hans _ rfl fun e he => hmax e (hheld e he)
  obtain ⟨hsame, tail, rfl, hold₁⟩ := hold.removed hsplit hgone
  obtain ⟨rfl, rfl⟩ | ⟨rfl, e, back', rfl, hmatch, hfit⟩ := hends
  · rw [List.append_nil] at hsplit
    have hpos : 0 < front.length := List.length_pos_of_ne_nil (hsplit ▸ hsome)
    have hfuel₁ : (s₁.g.srv.dirs s₁.edh.edhNFSDirFh).length < fuel + (done ++ front).length := by
      rw [hsame.listings.dirs, hsame.fh, List.length_append]
      omega
    have hmax₁ : Addressable p ([] ++ tail) := fun e he => hmax e (List.mem_append_right _ he)
    obtain ⟨ending, g', s', hloop, hdelivers⟩ := ih hfilled hold₁ hmax₁ hfuel₁
    exact ⟨ending, g', s', _, _, hrun, .inl ⟨rfl, hloop⟩, hdelivers.append hsame hsize⟩
  · exact ⟨_, _, _, _, _, hrun, .inr ⟨rfl, rfl⟩, front, _, rfl,
      .full hsame hold₁ rfl hmatch hfit, hfilled, hsize⟩

/-- The outer loop ends, when the handle has no more entries or the next one does not fit. -/
theorem Filled.loop (hp : p.Valid) {ans : AllAnswers} (hans : ans.Succeed) {fuel : Nat}
    (h : Filled p s es)
    (hold : Holds s.g s.edh done coming) (hmax : Addressable p coming)
    (hfuel : (s.g.srv.dirs s.edh.edhNFSDirFh).length < fuel + done.length) :
    ∃ ending g' s', allLoop p ans fuel s = some (ending, g', s') ∧
      Delivers p s es coming ending g' s' := by
  induction fuel generalizing s es done coming with
  | zero =>
      obtain ⟨more, hlisting, -⟩ := hold.ahead
      rw [hlisting, List.length_append] at hfuel
      omega
  | succ fuel ih =>
      unfold allLoop
      dsimp only
      by_cases hempty : s.edh.edhNFSEntries = []
      · rw [if_pos hempty, hans.entries]
        obtain ⟨r, hnext, hrefill⟩ := getNextEntries_spec hold hempty s.res2
        rw [hnext]
        cases hrefill with
        | @entries g₁ edh₁ gone res2 same hsome holds =>
            have hfuel₁ : (g₁.srv.dirs edh₁.edhNFSDirFh).length < fuel + 1 +
                (done ++ gone).length := by
              rw [same.listings.dirs, same.fh, List.length_append]
              omega
            obtain ⟨ending, g', s', r, s₁, hrun, hcases, hdelivers⟩ :=
              (h.withHandle same.max edh₁ res2 (s.refills + 1)).round hp hans holds
                hmax ih hsome hfuel₁
            refine ⟨ending, g', s', ?_, Delivers.after ?_ ?_ hdelivers⟩
            · dsimp only at hrun ⊢
              rw [hrun]
              obtain ⟨rfl, hloop⟩ | ⟨rfl, hdone⟩ := hcases
              · exact hloop
              · exact congrArg some hdone
            · exact same
            · rfl
        | @exhausted g₁ edh₁ same none =>
            have hlen : (dirRemove g₁ edh₁).gMaxFileNameLen = s.g.gMaxFileNameLen := same.max
            refine ⟨_, _, _, rfl, [], [], none, .exhausted same hlen rfl, ?_, fun _ => rfl⟩
            rw [List.filter_nil, List.append_nil]
            exact h.withHandle hlen s.edh errorNoMoreEntries s.refills
      · rw [if_neg hempty]
        obtain ⟨ending, g', s', r, s₁, hrun, hcases, hdelivers⟩ :=
          h.round hp hans hold hmax ih hempty hfuel
        refine ⟨ending, g', s', ?_, hdelivers⟩
        rw [hrun]
        obtain ⟨rfl, hloop⟩ | ⟨rfl, hdone⟩ := hcases
        · exact hloop
        · exact congrArg some hdone

end Loop

/-- A returned buffer holds the entries, and `eac_Entries` counts them. -/
structure Returned (maxFileNameLen : Nat) (p : ExAllPacket) (eacEntries : Nat) (mem : Nat → UInt8)
    (es : List Entry) : Prop where
  laid : ∃ stop, Laid p.buf p.type maxFileNameLen mem 0 es stop ∧ stop ≤ p.size.toNat
  count : eacEntries = es.length

section Packet
variable {g g' : Global} {edh : EDH} {p : ExAllPacket} {ans : AllAnswers}
  {done coming back : List Entry}
  {mem : Nat → UInt8}

theorem Holds.congr (h : Holds g edh done coming) (hsrv : g'.srv = g.srv)
    (hmax : g'.gMaxFileNameLen = g.gMaxFileNameLen) : Holds g' edh done coming := by
  obtain ⟨⟨hkeyed, hserved⟩, hread, hahead⟩ := h
  rw [← hsrv] at hkeyed hserved hahead
  rw [← hmax] at hahead
  exact ⟨⟨hkeyed, hserved⟩, hread, hahead⟩

/-- How a packet ends: with a handle at the head of the list, or without. -/
inductive PacketEnd (p : ExAllPacket) (g : Global) (edh : EDH) (back : List Entry) : Global → Prop
  | goesOn {g' : Global} {edh' : EDH} {done others : List Entry} {e : Entry}
      (res1 : g'.gRes1 = DOSTRUE)
      (first : g'.gDH.head? = some edh') (addr : edh'.edhAddr = edh.edhAddr)
      (fh : edh'.edhNFSDirFh = edh.edhNFSDirFh) (holds : Holds g' edh' done back)
      (head : back = e :: others)
      (hmatch : p.eac.matchesName e = true) : PacketEnd p g edh back g'
  | ended {g' : Global} (res1 : g'.gRes1 = DOSFALSE) (res2 : g'.gRes2 = errorNoMoreEntries)
      (none : back = []) :
      PacketEnd p g edh back g'

/-- The size, a `LONG`, is large enough for the next entry that the pattern lets pass. -/
def NextFits (p : ExAllPacket) (maxFileNameLen : Nat) (coming : List Entry) : Prop :=
  ∀ e, coming.find? p.eac.matchesName = some e → (sizeNeeded p.type maxFileNameLen e.name : Int) ≤
    long p.size.toNat

theorem NextFits.addressable {maxFileNameLen : Nat}
    (h : NextFits p maxFileNameLen coming) : Addressable p coming := by
  intro e he hmatch
  obtain ⟨x, hx⟩ := Option.isSome_iff_exists.mp (List.find?_isSome.mpr ⟨e, he, hmatch⟩)
  have hlong : 0 ≤ long p.size.toNat := Int.le_trans (Int.natCast_nonneg _) (h x hx)
  have hsize := p.size.toNat_lt
  unfold long at hlong
  omega

theorem examineAll_spec (hp : p.Valid) (hans : ans.Succeed) (hold : Holds g edh done coming)
    (hfirst : g.gDH.head? = some edh) (hfits : NextFits p g.gMaxFileNameLen coming)
    (mem : Nat → UInt8) :
    ∃ ending g' eac mem' front back, examineAll g p edh ans mem = some (ending, g', eac, mem') ∧
      coming = front ++ back ∧ PacketEnd p g edh back g' ∧
      eac = { p.eac with eacEntries := eac.eacEntries, eacLastKey := some edh.edhAddr } ∧
      Returned g.gMaxFileNameLen p eac.eacEntries mem' (front.filter p.eac.accepts) ∧
      SameListings g.srv g'.srv ∧ g'.gMaxFileNameLen = g.gMaxFileNameLen ∧
      (back ≠ [] → ∃ e ∈ front, p.eac.matchesName e = true) := by
  have hfilled : Filled p ⟨g, edh, mem, 0, p.size, none, 0, 0, 0, 0⟩ [] :=
    ⟨rfl, rfl, rfl, Nat.zero_add _⟩
  have hfuel : (g.srv.dirs edh.edhNFSDirFh).length <
      edh.edhNFSEntries.length + (g.srv.dirs edh.edhNFSDirFh).length + 2 + done.length := by omega
  obtain ⟨ending, g', s', hrun, front, back, hsplit, hend, hfilled', hsize⟩ :=
    hfilled.loop hp hans hold hfits.addressable hfuel
  unfold examineAll
  simp only [hrun]
  have hreturned : s'.g.gMaxFileNameLen = g.gMaxFileNameLen →
      Returned g.gMaxFileNameLen p s'.numEntries s'.mem (front.filter p.eac.accepts) := by
    intro hmax
    obtain ⟨hlaid, hcount, -, hroom⟩ := hfilled'
    rw [hmax] at hlaid
    exact ⟨⟨s'.offs, hlaid, by omega⟩, hcount⟩
  cases hend with
  | @full _ done' e back' same holds head hmatch hsize' =>
      refine ⟨_, _, _, _, front, back, rfl, hsplit, ?_, rfl, hreturned same.max,
        same.listings, same.max,
        fun _ => ?_⟩
      · have hhead : (dirStore s'.g s'.edh).gDH.head? = some s'.edh := by
          have haddr : edh.edhAddr = s'.edh.edhAddr := same.addr.symm
          unfold dirStore
          rw [List.head?_map, same.server, hfirst, Option.map_some, if_pos haddr]
        exact .goesOn rfl hhead same.addr same.fh (holds.congr rfl rfl) head hmatch
      · by_contra hnone
        have hno : ∀ x ∈ front, p.eac.matchesName x = false := fun x hx =>
          Bool.eq_false_iff.mpr fun hx' => hnone ⟨x, hx, hx'⟩
        have hfind : coming.find? p.eac.matchesName = some e := by
          rw [hsplit, List.find?_append, List.find?_eq_none.mpr fun x hx => by simp [hno x hx],
            Option.none_or, head, List.find?_cons_of_pos hmatch]
        have hfit := hfits e hfind
        have hmax :=
          hfits.addressable e (hsplit ▸ List.mem_append_right front (head ▸ List.mem_cons_self))
          hmatch
        rw [long_of_isLong (by unfold IsLong; omega)] at hfit
        rw [hsize hno] at hsize'
        exact absurd hsize' (Nat.not_lt.mpr (Int.ofNat_le.mp hfit))
  | exhausted same max none =>
      exact ⟨_, _, _, _, front, back, rfl, hsplit, .ended rfl rfl none, rfl, hreturned max,
        same.listings, same.max,
        fun hback => absurd none hback⟩

end Packet

/-- A call of a client that scans a directory. -/
structure AllCall where
  buf : UInt32
  size : UInt32
  type : Int
  ans : AllAnswers
  mem : Nat → UInt8

/-- The packet of the call with the control block. -/
def AllCall.packet (c : AllCall) (eac : ExAllControl) : ExAllPacket := ⟨c.buf, c.size, c.type, eac⟩

/-- What a call returned: `eac_Entries` and the client's memory. -/
structure AllAnswer where
  packet : ExAllPacket
  eacEntries : Nat
  mem : Nat → UInt8

/-- A scan with one control block: what it got so far, and the error that ended it. -/
structure AllScan where
  g : Global
  eac : ExAllControl
  answers : List AllAnswer
  closed : Option Int

/-- The scan goes on with a call, unless it has ended. -/
def AllScan.call (fl : LockArg) (s : AllScan) (c : AllCall) : Option AllScan :=
  if s.closed = none then
    match actEXAMINEALL s.g fl (c.packet s.eac) c.ans c.mem with
    | none => none
    | some (_, g, eac, mem) => some
        { g := g
          eac := eac
          answers := s.answers ++ [⟨c.packet s.eac, eac.eacEntries, mem⟩]
          closed := if g.gRes1 = DOSFALSE then some g.gRes2 else none }
  else some s

/-- The scan after the first `n` of the calls. -/
def AllScan.after (fl : LockArg) (c : Nat → AllCall) (s : AllScan) : Nat → Option AllScan
  | 0 => some s
  | n + 1 => (s.after fl c n).bind fun s => s.call fl (c n)

/-- The entries that the scan of the directory `dirfh` is offered from here on. -/
def AllScan.coming (s : AllScan) (dirfh : List UInt8) : List Entry :=
  let offered := offers s.g.gMaxFileNameLen s.g.srv.cuts s.g.srv.calls
  let listing := s.g.srv.dirs dirfh
  match s.eac.eacLastKey.bind fun addr => dirLookupFromAddress s.g addr with
  | none => offered listing
  | some edh => edh.edhNFSEntries ++
      offered
        (leftBehind Entry.cookie nullCookie
        (lastKey Entry.cookie edh.edhNFSCookie edh.edhNFSEntries) listing)

/-- The arguments of the call are in order, what it asks for succeeds, and its buffer is large
enough for the next entry. -/
def AllScan.Suits (s : AllScan) (dirfh : List UInt8) (c : AllCall) : Prop :=
  s.closed = none → (c.packet s.eac).Valid ∧ c.ans.Succeed ∧
    NextFits (c.packet s.eac) s.g.gMaxFileNameLen (s.coming dirfh)

/-- The returned buffers hold `es`, one buffer after the other. -/
def AllReturned (maxFileNameLen : Nat) (answers : List AllAnswer) (es : List Entry) : Prop :=
  ∃ chunks : List (List Entry), chunks.flatten = es ∧
    List.Forall₂ (fun a chunk => Returned maxFileNameLen a.packet a.eacEntries a.mem chunk) answers
      chunks

/-- The entries of a listing that a scan is to get. -/
def ExAllControl.wanted (eac : ExAllControl) (maxFileNameLen : Nat) (l : List Entry) : List Entry :=
  l.filter fun e => !leftOut maxFileNameLen e && eac.accepts e

/-- The calls end with ERROR_NO_MORE_ENTRIES, and have returned what they should. -/
def AllScan.Exact (s : AllScan) (fl : LockArg) (c : Nat → AllCall) (dirfh : List UInt8) : Prop :=
  ∃ n s', s.after fl c n = some s' ∧ s'.closed = some errorNoMoreEntries ∧
    AllReturned s.g.gMaxFileNameLen s'.answers
      (s.eac.wanted s.g.gMaxFileNameLen (s.g.srv.dirs dirfh))

/-- The calls end with ERROR_NO_MORE_ENTRIES, and the buffers that they fill return `es`. -/
def AllScan.Brings (s : AllScan) (fl : LockArg) (c : Nat → AllCall) (es : List Entry) : Prop :=
  ∃ n s', s.after fl c n = some s' ∧ s'.closed = some errorNoMoreEntries ∧
    AllReturned s.g.gMaxFileNameLen s'.answers es

/-- Behind the first entry that scans return the reply has no others that pattern and hook let
pass. -/
def ExAllControl.TidyFor (eac : ExAllControl) (maxFileNameLen : Nat) (r : List Entry) : Prop :=
  ∀ e ∈ r.dropWhile (leftOut maxFileNameLen), eac.accepts e = true →
    leftOut maxFileNameLen e = false

/-- The control blocks have the same pattern and the same hook. -/
def SameMatch (eac eac' : ExAllControl) : Prop :=
  eac'.eacMatchString = eac.eacMatchString ∧ eac'.eacMatchFunc = eac.eacMatchFunc

/-- Where a scan of the directory `dirfh` stands that is offered `coming`. -/
inductive AllScanAt (dirfh : List UInt8) (s : AllScan) (coming : List Entry) : Prop
  | begun (closed : s.closed = none) (key : s.eac.eacLastKey = none) (steady : Steady s.g dirfh)
      (offered : coming = offers s.g.gMaxFileNameLen s.g.srv.cuts s.g.srv.calls
        (s.g.srv.dirs dirfh))
  | within {edh : EDH} {done : List Entry} (closed : s.closed = none)
      (key : s.eac.eacLastKey = some edh.edhAddr)
      (first : s.g.gDH.head? = some edh) (fh : edh.edhNFSDirFh = dirfh)
      (holds : Holds s.g edh done coming)
  | ended (closed : s.closed = some errorNoMoreEntries) (none : coming = [])

section Scans
variable {dirfh : List UInt8} {fl : LockArg} {efl : ELOCK} {s s' : AllScan} {c : AllCall}
  {coming : List Entry}
  {eac eac' : ExAllControl}

theorem SameMatch.matchesName (h : SameMatch eac eac') : eac'.matchesName = eac.matchesName := by
  funext e
  rw [ExAllControl.matchesName, h.1]
  rfl

theorem SameMatch.accepts (h : SameMatch eac eac') : eac'.accepts = eac.accepts := by
  funext e
  rw [ExAllControl.accepts, h.matchesName, h.2]
  rfl

theorem dirLookupFromAddress_first {g : Global} {edh : EDH} (hfirst : g.gDH.head? = some edh) :
    dirLookupFromAddress g edh.edhAddr = some edh := by
  obtain ⟨rest, hrest⟩ := List.head?_eq_some_iff.mp hfirst
  rw [dirLookupFromAddress, hrest]
  exact List.find?_cons_of_pos (beq_self_eq_true edh.edhAddr)

/-- The handle and the listing tell what is offered. -/
theorem AllScanAt.coming_eq (h : AllScanAt dirfh s coming)
    (hclosed : s.closed = none) : s.coming dirfh = coming := by
  cases h with
  | begun closed key steady offered =>
      rw [offered]
      simp only [AllScan.coming, key]
      rfl
  | @within edh done closed key first fh holds =>
      subst fh
      obtain ⟨more, hlisting, -, hcoming⟩ := holds.ahead
      have hkeyed := holds.steady.keyed
      rw [hlisting, ← List.append_assoc] at hkeyed
      have hread : lastKey Entry.cookie edh.edhNFSCookie edh.edhNFSEntries =
          lastKey Entry.cookie nullCookie (done ++ edh.edhNFSEntries) := by
        rw [lastKey_append, holds.read]
      simp only [AllScan.coming, key, Option.bind_some, dirLookupFromAddress_first first]
      rw [hread, hlisting, ← List.append_assoc, leftBehind_lastKey hkeyed, hcoming]
  | ended closed none =>
      rw [hclosed] at closed
      cases closed

/-- What is behind the search for the handle. -/
theorem AllScanAt.examineAll_eq (h : AllScanAt efl.eflNFSFh s coming) (hclosed : s.closed = none)
    (hp : (c.packet s.eac).Valid) (hans : c.ans.Succeed) :
    ∃ g edh done mem, actEXAMINEALL s.g (.lock (some efl)) (c.packet s.eac) c.ans c.mem =
        examineAll g (c.packet s.eac) edh c.ans mem ∧ g.gDH.head? = some edh ∧
      edh.edhNFSDirFh = efl.eflNFSFh ∧ Holds g edh done coming ∧
      g.srv = s.g.srv ∧ g.gMaxFileNameLen = s.g.gMaxFileNameLen := by
  have hguard : ¬ ((c.packet s.eac).type < ED_NAME ∨ ED_OWNER < (c.packet s.eac).type ∨
      (c.packet s.eac).size < 8) := by
    have hmin := hp.min
    have hsize : ¬ (c.packet s.eac).size < 8 := by
      rw [UInt32.lt_iff_toNat_lt]
      exact Nat.not_lt.mpr hmin
    rcases hp.type.cases with htype | htype | htype | htype | htype | htype | htype <;>
      simp [htype, hsize]
  unfold actEXAMINEALL
  rw [if_neg hguard]
  have hkey : (c.packet s.eac).eac.eacLastKey = s.eac.eacLastKey := rfl
  simp only [LockArg.lookup, hkey]
  cases h with
  | begun closed key steady offered =>
      simp only [key, hans.edh, if_true]
      refine ⟨_, _, [], _, rfl, rfl, rfl,
        ⟨⟨steady.keyed, steady.served⟩, rfl, s.g.srv.dirs efl.eflNFSFh, rfl, ?_,
        offered⟩, rfl, rfl⟩
      exact fun heof => absurd heof Bool.false_ne_true
  | @within edh done closed key first fh holds =>
      simp only [key, dirLookupFromAddress_first first]
      exact ⟨_, _, _, _, rfl, first, fh, holds, rfl, rfl⟩
  | ended closed none =>
      rw [hclosed] at closed
      cases closed

/-- The scan has been offered `coming` and goes on with a call. -/
theorem AllScanAt.call (h : AllScanAt efl.eflNFSFh s coming) (hclosed : s.closed = none)
    (hsuits : s.Suits efl.eflNFSFh c) : ∃ s' front back a, s.call (.lock (some efl)) c = some s' ∧
      coming = front ++ back ∧ AllScanAt efl.eflNFSFh s' back ∧ s'.answers = s.answers ++ [a] ∧
      Returned s.g.gMaxFileNameLen a.packet a.eacEntries a.mem (front.filter s.eac.accepts) ∧
      SameMatch s.eac s'.eac ∧ SameDirs s.g s'.g ∧
      (s'.closed = none → ∃ e ∈ front, s.eac.matchesName e = true) := by
  obtain ⟨hp, hans, hfits⟩ := hsuits hclosed
  rw [h.coming_eq hclosed] at hfits
  obtain ⟨g, edh, done, mem, hact, hfirst, hfh, hold, hsrv, hmax⟩ := h.examineAll_eq hclosed hp hans
  rw [← hmax] at hfits
  obtain ⟨ending, g', eac', mem', front, back, hrun, hsplit, hend, heac, hreturned, hlistings,
    hmax', hprogress⟩ :=
    examineAll_spec hp hans hold hfirst hfits mem
  have hsame : SameMatch s.eac eac' := by
    rw [heac]
    exact ⟨rfl, rfl⟩
  have hdirs : SameDirs s.g g' := ⟨hsrv ▸ hlistings, hmax'.trans hmax⟩
  rw [hmax] at hreturned
  unfold AllScan.call
  rw [if_pos hclosed, hact, hrun]
  refine ⟨_, front, back, _, rfl, hsplit, ?_, rfl, hreturned, hsame, hdirs, ?_⟩
  · cases hend with
    | @goesOn edh' _ _ _ res1 first addr fh holds head hmatch =>
        have hopen : g'.gRes1 ≠ DOSFALSE := by
          rw [res1]
          decide
        have hkey : eac'.eacLastKey = some edh'.edhAddr := by
          rw [heac, addr]
        exact .within (if_neg hopen) hkey first (fh.trans hfh) holds
    | ended res1 res2 none =>
        refine .ended ?_ none
        dsimp only
        rw [if_pos res1, res2]
  · intro hopen
    cases hend with
    | goesOn res1 first addr fh holds head hmatch => exact hprogress (head ▸ List.cons_ne_nil _ _)
    | ended res1 res2 none =>
        dsimp only at hopen
        rw [if_pos res1] at hopen
        cases hopen

/-- What holds in a scan from `s` on: its buffers hold what it has been offered and wanted. -/
structure AllInv (dirfh : List UInt8) (s s' : AllScan) (coming : List Entry) : Prop where
  place : AllScanAt dirfh s' coming
  same : SameMatch s.eac s'.eac
  dirs : SameDirs s.g s'.g
  returned : ∃ es, AllReturned s.g.gMaxFileNameLen s'.answers es ∧
    es ++ coming.filter s.eac.accepts = (s.coming dirfh).filter s.eac.accepts

theorem AllReturned.concat {maxFileNameLen : Nat} {answers : List AllAnswer} {a : AllAnswer}
    {es chunk : List Entry}
    (h : AllReturned maxFileNameLen answers es)
    (ha : Returned maxFileNameLen a.packet a.eacEntries a.mem chunk) :
    AllReturned maxFileNameLen (answers ++ [a]) (es ++ chunk) := by
  obtain ⟨chunks, rfl, hall⟩ := h
  refine ⟨chunks ++ [chunk], by simp, ?_⟩
  exact List.rel_append hall (.cons ha .nil)

/-- The counts tell how many entries there are. -/
theorem AllReturned.length_eq {maxFileNameLen : Nat} {answers : List AllAnswer}
    {es es' : List Entry}
    (h : AllReturned maxFileNameLen answers es) (h' : AllReturned maxFileNameLen answers es') :
    es.length = es'.length := by
  have hcounts : ∀ {chunks : List (List Entry)},
    List.Forall₂ (fun a chunk => Returned maxFileNameLen a.packet
      a.eacEntries a.mem chunk) answers chunks →
        chunks.map List.length = answers.map AllAnswer.eacEntries := by
    intro chunks hall
    clear h h'
    induction hall with
    | nil => rfl
    | cons ha _ ih => rw [List.map_cons, List.map_cons, ih, ha.count]
  obtain ⟨chunks, rfl, hall⟩ := h
  obtain ⟨chunks', rfl, hall'⟩ := h'
  rw [List.length_flatten, List.length_flatten, hcounts hall, hcounts hall']

/-- A call keeps the invariant, and a scan that does not end has passed an entry that matches the
pattern. -/
theorem AllInv.call {s₀ : AllScan} (h : AllInv efl.eflNFSFh s₀ s coming)
    (hsuits : s.Suits efl.eflNFSFh c) : ∃ s' coming', s.call (.lock (some efl)) c = some s' ∧
      AllInv efl.eflNFSFh s₀ s' coming' ∧ (s'.closed = none → s.closed = none ∧
        (coming'.filter s₀.eac.matchesName).length <
        (coming.filter s₀.eac.matchesName).length) := by
  by_cases hclosed : s.closed = none
  · obtain ⟨s', front, back, a, hcall, hsplit, hplace, hanswers, hreturned, hsame,
      hdirs, hprogress⟩ :=
      h.place.call hclosed hsuits
    obtain ⟨es, hall, hes⟩ := h.returned
    rw [h.dirs.maxLen, h.same.accepts] at hreturned
    refine ⟨s', back, hcall, ⟨hplace, ?_, ?_, es ++ front.filter s₀.eac.accepts, ?_, ?_⟩,
      fun hopen => ⟨hclosed, ?_⟩⟩
    · exact ⟨hsame.1.trans h.same.1, hsame.2.trans h.same.2⟩
    · refine ⟨⟨?_, ?_⟩, hdirs.maxLen.trans h.dirs.maxLen⟩
      · rw [hdirs.listings.dirs, h.dirs.listings.dirs]
      · rw [hdirs.listings.cuts, h.dirs.listings.cuts]
    · rw [hanswers]
      exact hall.concat hreturned
    · rw [List.append_assoc, ← List.filter_append, ← hsplit, hes]
    · obtain ⟨e, he, hmatch⟩ := hprogress hopen
      rw [h.same.matchesName] at hmatch
      have hpos : 0 < (front.filter s₀.eac.matchesName).length :=
        List.length_pos_of_mem (List.mem_filter.mpr ⟨he, hmatch⟩)
      rw [hsplit, List.filter_append, List.length_append]
      omega
  · refine ⟨s, coming, if_neg hclosed, h, fun hopen => absurd hopen hclosed⟩

/-- As long as a scan does not end, there are fewer and fewer entries to come. -/
theorem AllInv.after {s₀ : AllScan} (h : AllInv efl.eflNFSFh s₀ s₀ coming) {c : Nat → AllCall}
    (hsuits : ∀ n s coming', s₀.after (.lock (some efl)) c n = some s →
      AllInv efl.eflNFSFh s₀ s coming' →
      s.Suits efl.eflNFSFh (c n)) (n : Nat) :
    ∃ s coming', s₀.after (.lock (some efl)) c n = some s ∧ AllInv efl.eflNFSFh s₀ s coming' ∧
      (s.closed = none →
        (coming'.filter s₀.eac.matchesName).length + n ≤
        (coming.filter s₀.eac.matchesName).length) := by
  induction n with
  | zero => exact ⟨s₀, coming, rfl, h, fun _ => Nat.le_refl _⟩
  | succ n ih =>
      obtain ⟨s, coming₁, hafter, hinv, hfewer⟩ := ih
      obtain ⟨s', coming', hcall, hinv', hless⟩ := hinv.call (hsuits n s _ hafter hinv)
      refine ⟨s', coming', ?_, hinv', fun hopen => ?_⟩
      · rw [AllScan.after, hafter]
        exact hcall
      · obtain ⟨hclosed, hlt⟩ := hless hopen
        have hle := hfewer hclosed
        omega

theorem AllInv.start {g : Global} (hsteady : Steady g dirfh) (hkey : eac.eacLastKey = none) :
    AllInv dirfh ⟨g, eac, [], none⟩ ⟨g, eac, [], none⟩
      (offers g.gMaxFileNameLen g.srv.cuts g.srv.calls (g.srv.dirs dirfh)) := by
  have hplace : AllScanAt dirfh ⟨g, eac, [], none⟩
      (offers g.gMaxFileNameLen g.srv.cuts g.srv.calls (g.srv.dirs dirfh)) :=
        .begun rfl hkey hsteady rfl
  refine ⟨hplace, ⟨rfl, rfl⟩, ⟨⟨rfl, rfl⟩, rfl⟩, [], ⟨[], rfl, .nil⟩, ?_⟩
  rw [hplace.coming_eq rfl, List.nil_append]

/-- The buffers of a scan that has ended hold what it has been offered. -/
theorem AllInv.closed {s₀ : AllScan} (h : AllInv dirfh s₀ s coming) (hclosed : s.closed ≠ none) :
    s.closed = some errorNoMoreEntries ∧
      AllReturned s₀.g.gMaxFileNameLen s.answers ((s₀.coming dirfh).filter s₀.eac.accepts) := by
  obtain ⟨es, hall, hes⟩ := h.returned
  cases h.place with
  | begun closed => exact absurd closed hclosed
  | within closed => exact absurd closed hclosed
  | ended closed none =>
      rw [none, List.filter_nil, List.append_nil] at hes
      exact ⟨closed, hes ▸ hall⟩

/-- What a scan has to get of what it is offered. -/
theorem wanted_eq {maxFileNameLen n : Nat} {cuts : Nat → Cut} {l : List Entry}
    (hcuts : ∀ k, (cuts k).served) :
    eac.wanted maxFileNameLen l =
      ((offers maxFileNameLen cuts n l).filter eac.accepts).filter fun e =>
        !leftOut maxFileNameLen e := by
  rw [List.filter_comm, offers_filter hcuts, List.filter_filter]
  exact List.filter_congr fun e _ => Bool.and_comm _ _

/-- The replies are tidy when all that is offered and passes is wanted. -/
theorem tidyFor_iff {maxFileNameLen n : Nat} {cuts : Nat → Cut} {l : List Entry}
    (hcuts : ∀ k, (cuts k).served) :
    (∀ r ∈ repliesOf cuts n l, eac.TidyFor maxFileNameLen r) ↔
      eac.wanted maxFileNameLen l = (offers maxFileNameLen cuts n l).filter eac.accepts := by
  rw [@wanted_eq eac maxFileNameLen n cuts l hcuts, List.filter_eq_self]
  constructor
  · intro htidy e he
    obtain ⟨hoffered, haccepts⟩ := List.mem_filter.mp he
    obtain ⟨r, hr, hmem⟩ := List.mem_flatMap.mp hoffered
    rw [htidy r hr e hmem haccepts, Bool.not_false]
  · intro hkept r hr e hmem haccepts
    have he := hkept e (List.mem_filter.mpr ⟨List.mem_flatMap.mpr ⟨r, hr, hmem⟩, haccepts⟩)
    rwa [Bool.not_eq_true'] at he

/-- A scan from the start ends, and its buffers return what it is offered and lets pass. -/
theorem scanAll_brings {g : Global} {eac : ExAllControl} {c : Nat → AllCall}
    (hsteady : Steady g efl.eflNFSFh) (hkey : eac.eacLastKey = none)
    (hsuits : ∀ n s, AllScan.after (.lock (some efl)) c ⟨g, eac, [], none⟩ n = some s →
      s.Suits efl.eflNFSFh (c n)) :
    AllScan.Brings ⟨g, eac, [], none⟩ (.lock (some efl)) c
      ((offers g.gMaxFileNameLen g.srv.cuts g.srv.calls (g.srv.dirs efl.eflNFSFh)).filter
        eac.accepts) := by
  have hcoming : AllScan.coming ⟨g, eac, [], none⟩ efl.eflNFSFh = _ :=
    (AllScanAt.begun rfl hkey hsteady rfl : AllScanAt _ ⟨g, eac, [], none⟩ _).coming_eq rfl
  obtain ⟨s, coming', hafter, hinv, hfewer⟩ :=
    (AllInv.start hsteady hkey).after (fun n s _ hafter _ => hsuits n s hafter)
      ((offers g.gMaxFileNameLen g.srv.cuts g.srv.calls (g.srv.dirs efl.eflNFSFh)).filter
        eac.matchesName).length.succ
  have hclosed : s.closed ≠ none := by
    intro hopen
    have hle := hfewer hopen
    dsimp only at hle
    omega
  obtain ⟨hcode, hall⟩ := hinv.closed hclosed
  rw [hcoming] at hall
  exact ⟨_, s, hafter, hcode, hall⟩

/-- A scan ends in any case; it is exact if and only if no reply has, behind an entry that is to be
returned by scans, one that is not and that pattern and hook let pass. -/
theorem scanExact_iff {g : Global} {eac : ExAllControl} {c : Nat → AllCall}
    (hsteady : Steady g efl.eflNFSFh) (hkey : eac.eacLastKey = none)
    (hsuits : ∀ n s, AllScan.after (.lock (some efl)) c ⟨g, eac, [], none⟩ n = some s →
      s.Suits efl.eflNFSFh (c n)) :
    AllScan.Brings ⟨g, eac, [], none⟩ (.lock (some efl)) c
      ((offers g.gMaxFileNameLen g.srv.cuts g.srv.calls (g.srv.dirs efl.eflNFSFh)).filter
        eac.accepts) ∧
    (AllScan.Exact ⟨g, eac, [], none⟩ (.lock (some efl)) c efl.eflNFSFh ↔
      ∀ r ∈ repliesOf g.srv.cuts g.srv.calls (g.srv.dirs efl.eflNFSFh),
        eac.TidyFor g.gMaxFileNameLen r) := by
  refine ⟨scanAll_brings hsteady hkey hsuits, ?_⟩
  have hcoming : AllScan.coming ⟨g, eac, [], none⟩ efl.eflNFSFh = _ :=
    (AllScanAt.begun rfl hkey hsteady rfl : AllScanAt _ ⟨g, eac, [], none⟩ _).coming_eq rfl
  rw [tidyFor_iff hsteady.served]
  constructor
  · rintro ⟨n, s, hafter, hclosed, hwanted⟩
    obtain ⟨s', coming', hafter', hinv', -⟩ :=
      (AllInv.start hsteady hkey).after (fun n s _ hafter _ => hsuits n s hafter) n
    obtain rfl : s' = s := Option.some.inj (hafter'.symm.trans hafter)
    obtain ⟨-, hall⟩ := hinv'.closed (by rw [hclosed]; exact Option.some_ne_none _)
    rw [hcoming] at hall
    have hlength := hwanted.length_eq hall
    rw [wanted_eq hsteady.served] at hlength ⊢
    exact List.filter_sublist.eq_of_length hlength
  · intro htidy
    obtain ⟨n, s, hafter, hcode, hall⟩ := scanAll_brings hsteady hkey hsuits
    refine ⟨n, s, hafter, hcode, ?_⟩
    dsimp only
    rw [htidy]
    exact hall

theorem mem_of_mem_offers {maxFileNameLen n : Nat} {cuts : Nat → Cut} {l : List Entry} {e : Entry}
    (h : e ∈ offers maxFileNameLen cuts n l) : e ∈ l := by
  obtain ⟨r, hr, he⟩ := List.mem_flatMap.mp h
  have hmem := (List.dropWhile_sublist _).subset he
  clear h he
  fun_induction repliesOf cuts n l with
  | case1 => cases hr
  | case2 n l h ih =>
      rcases List.mem_cons.mp hr with rfl | hr
      · exact List.mem_of_mem_take hmem
      · exact List.mem_of_mem_drop (ih hr)

theorem AllScanAt.mem_listing {e : Entry} (h : AllScanAt dirfh s coming) (he : e ∈ coming) :
    e ∈ s.g.srv.dirs dirfh := by
  cases h with
  | begun closed key steady offered => exact mem_of_mem_offers (offered ▸ he)
  | within closed key first fh holds =>
      subst fh
      obtain ⟨more, hlisting, -, hcoming⟩ := holds.ahead
      rw [hlisting]
      refine List.mem_append_right _ ?_
      rw [hcoming] at he
      rcases List.mem_append.mp he with he | he
      · exact List.mem_append_left _ he
      · exact List.mem_append_right _ (mem_of_mem_offers he)
  | ended closed none => rw [none] at he; cases he

/-- Buffers that each have room for every entry of the directory are large enough. -/
theorem AllScan.suits_of_fits {g : Global} {c : Nat → AllCall} (hsteady : Steady g efl.eflNFSFh)
    (hkey : eac.eacLastKey = none) (hc : ∀ n, (c n).ans.Succeed ∧ ∀ eac, ((c n).packet eac).Valid)
    (hfits : ∀ n, ∀ e ∈ g.srv.dirs efl.eflNFSFh,
      (sizeNeeded (c n).type g.gMaxFileNameLen e.name : Int) ≤ long (c n).size.toNat) {n : Nat}
    (hafter : AllScan.after (.lock (some efl)) c ⟨g, eac, [], none⟩ n = some s) :
    s.Suits efl.eflNFSFh (c n) := by
  have hsuits : ∀ n s coming, AllInv efl.eflNFSFh ⟨g, eac, [], none⟩ s coming →
      s.Suits efl.eflNFSFh (c n) := by
    intro n s coming hinv hopen
    refine ⟨(hc n).2 _, (hc n).1, fun e he => ?_⟩
    rw [hinv.place.coming_eq hopen] at he
    have hmem := hinv.place.mem_listing (List.mem_of_find?_eq_some he)
    rw [hinv.dirs.listings.dirs] at hmem
    rw [hinv.dirs.maxLen]
    exact hfits n e hmem
  obtain ⟨s', coming, hafter', hinv, -⟩ :=
    (AllInv.start hsteady hkey).after (fun n s c _ => hsuits n s c) n
  rw [hafter'] at hafter
  cases hafter
  exact hsuits n s coming hinv

end Scans

/-- The buffers have room for one name each. -/
def exAllCall : AllCall :=
  ⟨4096, 12, ED_NAME, ⟨true, fun _ => true, fun _ => .ok default⟩, fun _ => 0⟩

def exControl : ExAllControl := ⟨0, none, none, none⟩

/-- "a" and "b" are returned, "." is not. -/
theorem scanExact_iff_two : AllScan.Exact ⟨exGlobal exListing, exControl, [], none⟩ exLock
    (fun _ => exAllCall) [1] := by
  have hkeyed : Keyed Entry.cookie nullCookie exListing := by
    unfold Keyed
    decide
  have hsteady : Steady (exGlobal exListing) [1] := ⟨hkeyed, fun _ => Nat.succ_ne_zero 1⟩
  have hvalid : ∀ eac, (exAllCall.packet eac).Valid := fun eac =>
    ⟨show ED_NAME ≤ ED_NAME ∧ ED_NAME ≤ ED_OWNER by decide, show 8 ≤ (12 : UInt32).toNat by decide,
      show (4096 : UInt32) ≠
        0 by decide, show (4096 : UInt32).toNat + (12 : UInt32).toNat ≤ 4294967296 by decide⟩
  have hfits : ∀ e ∈ exListing, (sizeNeeded ED_NAME 106 e.name : Int) ≤
    long (12 : UInt32).toNat := by decide
  refine (@scanExact_iff ⟨7, [1], [100]⟩ (exGlobal exListing) exControl _ hsteady rfl
    fun n s hafter =>
    AllScan.suits_of_fits hsteady rfl
      (fun _ => ⟨⟨rfl, fun _ => rfl, fun _ _ => ⟨default, rfl⟩⟩, hvalid⟩)
      (fun _ => hfits) hafter).2.mpr ?_
  have hreplies : repliesOf (exGlobal exListing).srv.cuts 0 exListing =
      [exListing.take 2, exListing.drop 2] := by
    simp [repliesOf, exGlobal, exListing, Cut.room]
  show ∀ r ∈ repliesOf (exGlobal exListing).srv.cuts 0 exListing, exControl.TidyFor 106 r
  rw [hreplies]
  unfold ExAllControl.TidyFor
  decide

/-- A scan returns the "." that stands behind "a" in the same reply. -/
example : exControl.wanted 106 exBehind ≠ (offers 106 (fun _ => .reply 2 false) 0 exBehind).filter
    exControl.accepts := by
  simp [offers, repliesOf, exBehind, Cut.room, exControl, ExAllControl.wanted, leftOut,
    ExAllControl.accepts,
    ExAllControl.matchesName]

end Anfs.Dir
