import Anfs.Dir.Handles
import Mathlib.Data.List.TakeWhile

/-!
# Refilling a handle

The loop `nextdir` on a server that answers: it reads on in the listing and keeps what is left
of the last reply behind the entries it skips.
-/
namespace Anfs.Dir
open Anfs.Lib Anfs.Xdr Anfs.Nfs

/-- The call succeeds, with entries if there are any left. -/
def Cut.served : Cut → Prop
  | .failed _ => False
  | .reply num _ => num ≠ 0

/-- The entries that the reply has room for. -/
def Cut.room : Cut → Nat
  | .failed _ => 0
  | .reply num _ => num

/-- Behind the first entry that scans return the reply has only such entries. -/
def Tidy (maxFileNameLen : Nat) (r : List Entry) : Prop :=
  ∀ e ∈ r.dropWhile (leftOut maxFileNameLen), leftOut maxFileNameLen e = false

/-- The handle has read `done` of its directory. -/
def HasRead (edh : EDH) (done : List Entry) : Prop :=
  edh.edhNFSCookie = lastKey Entry.cookie nullCookie done

/-- What a refill of the handle `edh`, which is to read `rest` behind `done`, comes to. -/
structure Refilled (maxFileNameLen : Nat) (srv : Server) (edh : EDH)
    (done rest left : List Entry) (edh' : EDH)
    (srv' : Server) : Prop where
  split : ∃ gone more, rest = gone ++ (left ++ more) ∧
    (∀ e ∈ gone, leftOut maxFileNameLen e = true) ∧
    HasRead edh' (done ++ gone) ∧ (edh'.edhEof = true → more = []) ∧
    (left = [] → edh'.edhEof = true)
  handle : edh' = { edh with edhEof := edh'.edhEof, edhNFSCookie := edh'.edhNFSCookie }
  server : srv' = { srv with calls := srv'.calls, replies := srv'.replies }
  replies : ∃ last earlier, srv'.replies = last :: (earlier ++ srv.replies) ∧
    left = last.dropWhile (leftOut maxFileNameLen) ∧
    ∀ r ∈ earlier, r.dropWhile (leftOut maxFileNameLen) = []

section Refill
variable {maxFileNameLen : Nat} {srv srv' : Server} {edh edh' : EDH} {done rest left : List Entry}

theorem skipEntries_eq (es : List Entry) (cookie : List UInt8) :
    skipEntries maxFileNameLen es cookie = (es.dropWhile (leftOut maxFileNameLen),
      lastKey Entry.cookie cookie (es.takeWhile (leftOut maxFileNameLen))) := by
  induction es generalizing cookie with
  | nil => rfl
  | cons e es ih =>
      unfold skipEntries
      by_cases h : leftOut maxFileNameLen e = true
      · rw [if_pos h, ih, List.dropWhile_cons_of_pos h, List.takeWhile_cons_of_pos h]
        rfl
      · rw [if_neg h, List.dropWhile_cons_of_neg h, List.takeWhile_cons_of_neg h]
        rfl

/-- A reply starts with the next entry of the listing. -/
theorem nfsReadDir_reply {dirfh : List UInt8} {num : Nat} {late : Bool}
    (hcut : srv.cuts srv.calls = .reply num late)
    (hkeyed : Keyed Entry.cookie nullCookie (done ++ rest))
    (hdir : srv.dirs dirfh = done ++ rest) (eof : Bool) (res2 : Int) :
    nfsReadDir srv dirfh (lastKey Entry.cookie nullCookie done) eof res2 =
      (rest.take num, decide (rest.length ≤ num) && !(late && !rest.isEmpty), res2,
        { srv with calls := srv.calls + 1, replies := rest.take num :: srv.replies }) := by
  have hleft : leftBehind Entry.cookie nullCookie (lastKey Entry.cookie nullCookie done)
    (srv.dirs dirfh) =
      rest := by
    rw [hdir]
    exact leftBehind_lastKey hkeyed
  unfold nfsReadDir
  simp only [hcut, hleft]

/-- A READDIR that succeeds gives the next entries of the listing. -/
theorem nfsReadDir_served {res2 : Int} {eof : Bool} (hcut : (srv.cuts srv.calls).served)
    (hkeyed : Keyed Entry.cookie nullCookie (done ++ rest))
    (hdir : srv.dirs edh.edhNFSDirFh = done ++ rest) (hread : HasRead edh done) :
    ∃ num eof', (num = 0 → rest = []) ∧ (eof' = true → rest.length ≤ num) ∧
      (rest = [] → eof' = true) ∧
      nfsReadDir srv edh.edhNFSDirFh edh.edhNFSCookie eof res2 = (rest.take num, eof', res2,
        { srv with calls := srv.calls + 1, replies := rest.take num :: srv.replies }) := by
  cases hc : srv.cuts srv.calls with
  | failed err => rw [hc] at hcut; exact hcut.elim
  | reply num late =>
      rw [hc] at hcut
      refine ⟨num, decide (rest.length ≤ num) && !(late && !rest.isEmpty),
        fun h => absurd h hcut, ?_, ?_, ?_⟩
      · intro h
        simp only [Bool.and_eq_true, decide_eq_true_eq] at h
        exact h.1
      · rintro rfl
        simp
      · rw [hread]
        exact nfsReadDir_reply hc hkeyed hdir eof res2

/-- A reply of which all entries are skipped. -/
theorem takeWhile_of_skipped {r : List Entry} (h : r.dropWhile (leftOut maxFileNameLen) = []) :
    r.takeWhile (leftOut maxFileNameLen) = r := by
  have := List.takeWhile_append_dropWhile (p := leftOut maxFileNameLen) (l := r)
  rwa [h, List.append_nil] at this

theorem HasRead.append (hread : HasRead edh done) (r : List Entry)
    (hcookie : edh'.edhNFSCookie = lastKey Entry.cookie edh.edhNFSCookie r) : HasRead edh'
    (done ++ r) := by
  unfold HasRead
  rw [hcookie, hread, ← lastKey_append]

/-- A round that skips a whole reply. -/
theorem Refilled.skip {r : List Entry} {edh₁ : EDH} {srv₁ : Server}
    (hskipped : r.dropWhile (leftOut maxFileNameLen) = [])
    (hedh : edh₁ = { edh with edhEof := edh₁.edhEof, edhNFSCookie := edh₁.edhNFSCookie })
    (hsrv : srv₁ = { srv with calls := srv₁.calls, replies := r :: srv.replies })
    (h : Refilled maxFileNameLen srv₁ edh₁ (done ++ r) rest left edh' srv') :
    Refilled maxFileNameLen srv edh done (r ++ rest) left edh' srv' := by
  obtain ⟨gone, more, hsplit, hgone, hread, heof, hleft⟩ := h.split
  obtain ⟨last, earlier, hreplies, hlast, hearlier⟩ := h.replies
  have hall : ∀ e ∈ r, leftOut maxFileNameLen e = true := List.dropWhile_eq_nil_iff.mp hskipped
  refine ⟨⟨r ++ gone, more, by rw [hsplit, List.append_assoc], ?_, ?_, heof, hleft⟩, ?_, ?_, ?_⟩
  · intro e he
    rcases List.mem_append.mp he with he | he
    · exact hall e he
    · exact hgone e he
  · rw [← List.append_assoc]
    exact hread
  · rw [h.handle, hedh]
  · rw [h.server, hsrv]
  · refine ⟨last, earlier ++ [r], ?_, hlast, fun x hx => ?_⟩
    · rw [hreplies, hsrv, List.append_assoc]
      rfl
    · rcases List.mem_append.mp hx with hx | hx
      · exact hearlier x hx
      · rw [List.mem_singleton.mp hx]
        exact hskipped

theorem nextdir_spec {fuel : Nat} (hcuts : ∀ k, (srv.cuts k).served)
    (hkeyed : Keyed Entry.cookie nullCookie (done ++ rest))
    (hdir : srv.dirs edh.edhNFSDirFh = done ++ rest) (hread : HasRead edh done)
    (hfuel : rest.length < fuel) (res2 : Int) :
    ∃ left edh' srv', nextdir maxFileNameLen fuel srv edh res2 = some (left, edh', res2, srv') ∧
      Refilled maxFileNameLen srv edh done rest left edh' srv' := by
  induction fuel generalizing srv edh done rest with
  | zero => exact absurd hfuel (Nat.not_lt_zero _)
  | succ fuel ih =>
      obtain ⟨num, eof, hnum, heof, hempty, hcall⟩ :=
        @nfsReadDir_served _ _ _ _ res2 edh.edhEof (hcuts srv.calls) hkeyed hdir hread
      have hparts : rest.take num ++ rest.drop num = rest := List.take_append_drop num rest
      unfold nextdir
      simp only [hcall, skipEntries_eq]
      split
      · rename_i hagain
        obtain ⟨hsome, hskipped, heof'⟩ := hagain
        have hshort : (rest.drop num).length < fuel := by
          have hlen := congrArg List.length hparts
          have hpos := List.length_pos_of_ne_nil hsome
          rw [List.length_append] at hlen
          omega
        let edh₁ : EDH := { edh with
          edhEof := eof
          edhNFSCookie := lastKey Entry.cookie edh.edhNFSCookie
            ((rest.take num).takeWhile (leftOut maxFileNameLen)) }
        have hread' : HasRead edh₁ (done ++ rest.take num) := by
          refine hread.append _ ?_
          exact congrArg (lastKey Entry.cookie edh.edhNFSCookie) (takeWhile_of_skipped hskipped)
        have hkeyed' : Keyed Entry.cookie nullCookie
            ((done ++ rest.take num) ++ rest.drop num) := by
          rw [List.append_assoc, hparts]
          exact hkeyed
        have hdir' : srv.dirs edh.edhNFSDirFh = (done ++ rest.take num) ++ rest.drop num := by
          rw [List.append_assoc, hparts]
          exact hdir
        obtain ⟨left, edh', srv', hnext, hrefilled⟩ :=
          @ih { srv with calls := srv.calls + 1, replies := rest.take num :: srv.replies } edh₁ _ _
            hcuts hkeyed' hdir' hread' hshort
        refine ⟨left, edh', srv', hnext, ?_⟩
        have hdone := @Refilled.skip _ srv _ edh _ _ _ _ _ _ _ hskipped rfl rfl hrefilled
        rw [hparts] at hdone
        exact hdone
      · rename_i hstop
        refine ⟨_, _, _, rfl, ⟨(rest.take num).takeWhile (leftOut maxFileNameLen), rest.drop num,
          ?_, ?_, ?_, ?_, ?_⟩,
          rfl, rfl, rest.take num, [], rfl, rfl, List.forall_mem_nil _⟩
        · rw [← List.append_assoc, List.takeWhile_append_dropWhile, hparts]
        · exact fun e he => List.mem_takeWhile_imp he
        · exact hread.append _ rfl
        · exact fun h => List.drop_eq_nil_of_le (heof h)
        · intro hnone
          by_cases hrest : rest = []
          · exact hempty hrest
          · have hne : rest.take num ≠ [] := by
              rw [Ne, List.take_eq_nil_iff]
              rintro (h | h)
              · exact hrest (hnum h)
              · exact hrest h
            exact Bool.not_eq_false _ ▸ fun h => hstop ⟨hne, hnone, h⟩

end Refill

end Anfs.Dir
