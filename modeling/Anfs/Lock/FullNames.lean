import Anfs.Lock.Changes
import Anfs.Lock.Store

/-!
# The full names of the locks

In every reachable state a lock is named by components with single slashes between them. A lock
whose components are upright names its parents: `act_PARENT` takes the last component away, until
the root has none left.
-/
namespace Anfs.Lock
open Anfs.Cache Anfs.Lib Anfs.Nfs Anfs.Path Anfs.Tree Anfs.Xdr

section Lists
variable {locks locks' : List ELOCK}

/-- New locks have the names that were built for them. -/
theorem Change.named (h : Change locks locks') (hnamed : ∀ l ∈ locks, Named l) : ∀ l ∈
    locks', Named l := by
  cases h with
  | kept => exact hnamed
  | admitted admits named => exact List.forall_mem_cons.mpr ⟨named, hnamed⟩
  | root path shared named => exact List.forall_mem_cons.mpr ⟨named, hnamed⟩
  | created access named => exact List.forall_mem_cons.mpr ⟨named, hnamed⟩
  | made type access named => exact List.forall_mem_cons.mpr ⟨named, hnamed⟩
  | copied mem key shared from_ fullName name =>
      exact List.forall_mem_cons.mpr ⟨Names.named (hnamed _ mem) fullName name, hnamed⟩
  | removed sub => exact fun l hl => hnamed l (sub.subset hl)
  | @changed l newMode mem only =>
      intro l₁ hl₁
      obtain ⟨l', hl', rfl⟩ := List.mem_map.mp hl₁
      split
      · exact hnamed l mem
      · exact hnamed l' hl'

end Lists

namespace Session
variable {σ : Type} {w : ObjRequests σ} {addPart : List UInt8 → List UInt8 → Nat →
  Option (List UInt8)}

/-- In every state that a new handler reaches with clients that obey the rule and actions that free
no stray pointer, the full name of each lock consists of components with single slashes between
them, none empty or a dot, and `efl_Name` is what `fn_FilePart` makes of it. -/
theorem named_run {g : Global σ} (hg : Started g) {es : List Event}
    (hobey : Guarded (stepEvent w addPart) (ObeysEvent w addPart) ⟨g, [], 0⟩ es)
    (hn : (run (stepEvent w addPart) ⟨g, [], 0⟩ es).created ≤ 2147483647) :
    ∀ l ∈ (run (stepEvent w addPart) ⟨g, [], 0⟩ es).g.locks, Named l := by
  have hinv :=
    Guarded.invariant (P := fun s => s.created ≤ 2147483647 → s.Sound ∧ ∀ l ∈ s.g.locks, Named l)
    ?_ (fun _ => ⟨sound_start hg, ?_⟩) hobey hn
  · exact hinv.2
  · intro s e hs he hcreated
    obtain ⟨hsound, hnamed⟩ := hs (Nat.le_trans (created_le_stepEvent s e) hcreated)
    exact ⟨hsound.stepEvent he hcreated, (stepEvent_change hsound.lockNodup e).named hnamed⟩
  · rw [hg.locks]
    exact List.forall_mem_nil _

/-- "a" is looked up as "a/." and opened as "n:a", its lock is copied, and "b" is created. -/
theorem named_run_mounted :
    ((run (stepEvent diskRequests dosAddPart) ⟨mounted [([97], [1, 2])] some, [], 0⟩
      [.packet (.locateObject none [97, 47, 46] SHARED_LOCK),
        .packet (.findInput none [110, 58, 97]),
        .packet (.copyDirFh 1), .packet (.findOutput none [98])]).g.locks.map fun l =>
          l.fullName.text) =
          [[98], [97], [97], [97]] ∧
      ∀ l ∈ (run (stepEvent diskRequests dosAddPart) ⟨mounted [([97], [1, 2])] some, [], 0⟩
        [.packet (.locateObject none [97, 47, 46] SHARED_LOCK),
          .packet (.findInput none [110, 58, 97]),
          .packet (.copyDirFh 1), .packet (.findOutput none [98])]).g.locks, Named l :=
  ⟨by decide +kernel, named_run ⟨rfl, rfl, rfl, rfl⟩ (by decide +kernel) (by decide +kernel)⟩

end Session

/-- A component that `CBuildFullName` leaves as it is wherever it stands. -/
structure Upright (c : List UInt8) : Prop extends Ordinary c where
  noDot : c.getLast? ≠ some dot
  noColon : colon ∉ c

section Upright
variable {cs front : List (List UInt8)} {c : List UInt8}

theorem foldlM_pushComp (h : Stacked cs) (st : List (List UInt8)) :
    cs.foldlM pushComp st = some (cs.reverse ++ st) := by
  induction cs generalizing st with
  | nil => rfl
  | cons c cs ih =>
      rw [List.foldlM_cons, pushComp_ordinary (h c List.mem_cons_self), List.reverse_cons,
        List.append_assoc]
      exact ih h.tail (c :: st)

/-- Nothing is left to do about a path that is unified. -/
theorem scan_joined (h : Stacked cs) : scan (joined cs) = some cs := by
  have hslash : ∀ c ∈ cs, c ≠ [] ∧ slash ∉ c := fun c hc => ⟨(h c hc).nonempty, (h c hc).noSlash⟩
  rw [scan, if_neg (joined_head hslash)]
  by_cases hnil : cs = []
  · rw [hnil]
    rfl
  · have hne : joined cs ≠ [] := fun heq => by
      have hcs := components_joined h
      rw [heq] at hcs
      exact hnil hcs.symm
    rw [if_neg hne, parts, chop, if_neg (joined_getLast hslash),
      splitOn_joined (fun c hc => (hslash c hc).2) hnil,
      foldlM_pushComp h, Option.map_some, List.append_nil, List.reverse_reverse]

theorem unified_joined (h : ∀ c ∈ cs, Upright c) {v : Unified} (hv : unified (joined cs) = .ok v) :
    v.path = joined cs := by
  have hcs : Stacked cs := fun c hc => (h c hc).toOrdinary
  have hrun : fnPathUnify true (joined cs) = some (.ok v) := by
    rw [← hv]
    exact (Option.some_get _).symm
  rcases fnPathUnify_spec (joined cs) with ⟨hscan, -⟩ | ⟨st, strippedDirs, hscan, -, hok⟩
  · rw [scan_joined hcs] at hscan
    cases hscan
  · rw [scan_joined hcs] at hscan
    cases hscan
    rw [hok] at hrun
    cases hrun
    exact (joined_chop_iff hcs).mpr fun c hc => (h c hc).noDot

theorem joined_concat (hne : front ≠ []) (c : List UInt8) :
    joined (front ++ [c]) = joined front ++ slash :: c :=
  intercalate_concat hne c

theorem colon_notMem_joined (h : ∀ c ∈ cs, Upright c) : colon ∉ joined cs := by
  induction cs using List.reverseRecOn with
  | nil => exact List.not_mem_nil
  | append_singleton front c ih =>
      have hc := (h c (List.mem_append_right _ (List.mem_singleton_self c))).noColon
      by_cases hne : front = []
      · rw [hne, List.nil_append, joined_singleton]
        exact hc
      · rw [joined_concat hne, List.mem_append, List.mem_cons]
        rintro (hmem | heq | hmem)
        · exact ih (fun c hc => h c (List.mem_append_left _ hc)) hmem
        · exact absurd heq (by decide)
        · exact hc hmem

theorem withoutDev_of_noColon {ss : List UInt8} (h : colon ∉ ss) : withoutDev ss = (ss, false) := by
  have hnil : ss.dropWhile (· ≠ colon) = [] := by
    rw [List.dropWhile_eq_nil_iff]
    intro a ha
    exact decide_eq_true fun heq => h (heq ▸ ha)
  unfold withoutDev
  rw [hnil]

/-- `PathPart` takes the last component away. -/
theorem pathPart_joined (h : ∀ a ∈ front ++ [c], Upright a) :
    Global.pathPart (joined (front ++ [c])) = joined front := by
  have hc := h c (List.mem_append_right _ (List.mem_singleton_self c))
  have hall : ∀ a ∈ c, decide (a ≠ slash ∧ a ≠ colon) = true := fun a ha =>
    decide_eq_true ⟨fun heq => hc.noSlash (heq ▸ ha), fun heq => hc.noColon (heq ▸ ha)⟩
  unfold Global.pathPart
  by_cases hne : front = []
  · rw [hne, List.nil_append, joined_singleton, List.rdropWhile_eq_nil_iff.mpr hall]
    rfl
  · have hdrop : (joined (front ++ [c])).rdropWhile (fun a => decide (a ≠ slash ∧ a ≠ colon)) =
        joined front ++ [slash] := by
      rw [joined_concat hne, List.append_cons, List.rdropWhile, List.reverse_append,
        List.dropWhile_append_of_pos fun a ha => hall a (List.mem_reverse.mp ha)]
      exact List.rdropWhile_concat_neg _ (joined front) slash (by decide)
    simp only [hdrop]
    rw [List.getLast?_concat, if_pos rfl, List.dropLast_concat]

end Upright

section Parent
variable {addPart : List UInt8 → List UInt8 → Nat → Option (List UInt8)}

/-- `AddPart` of dos.library keeps a relative path that is added to nothing. -/
def AddsToNothing (addPart : List UInt8 → List UInt8 → Nat → Option (List UInt8)) : Prop :=
  ∀ file size text, colon ∉ file → addPart [] file size = some text → text = file

/-- A path with upright components is a full name. -/
theorem cBuildFullName_joined (hadd : AddsToNothing addPart) {cs : List (List UInt8)}
    (hcs : ∀ c ∈ cs, Upright c)
    {volume : List UInt8} {locks : List ELOCK} {h h' : Heap} {full : FullName}
    (hfull : cBuildFullName addPart volume locks h none (joined cs) true false = (.ok full, h')) :
    full.fullName.text = joined cs := by
  have hout := @cBuildFullName_outcome addPart volume locks h none (joined cs) true false [] rfl
  have hcolon := colon_notMem_joined hcs
  have hbase : baseName volume [] (joined cs) none = [] := by simp [baseName]
  rw [hfull, withoutDev_of_noColon hcolon, hbase] at hout
  cases hout with
  | done path name short owned =>
      obtain ⟨ss, hss, hpath⟩ := Option.bind_eq_some_iff.mp path
      obtain rfl := hadd _ _ ss hcolon hss
      obtain ⟨v, hv, hfullName⟩ := Option.map_eq_some_iff.mp hpath
      rw [← hfullName]
      exact unified_joined hcs (ok_of_toOption hv)

namespace Global
variable {σ : Type} {w : Requests σ} {g g' : Global σ}

/-- The lock that `RootLocateAndLock` grants is the first of the list and has the full name
built. -/
theorem rootLocateAndLock_ok {fl : Option Nat} {relPath : List UInt8} {mode : Int} {l : ELOCK}
    (hl : g.rootLocateAndLock w.toWorld addPart fl relPath mode = (.ok l, g')) :
    ∃ full heap, cBuildFullName addPart g.gVolumeName g.locks g.heap fl relPath true false =
      (.ok full, heap) ∧
      l.fullName.text = full.fullName.text ∧ g'.locks = l :: g.locks := by
  obtain ⟨leak, hadds⟩ := @rootLocateAndLock_adds σ w.toWorld addPart g fl relPath mode
  rw [hl] at hadds
  unfold rootLocateAndLock at hl
  split at hl
  · cases hl
  cases hfull : cBuildFullName addPart g.gVolumeName g.locks g.heap fl relPath true false with
  | mk r heap =>
      rw [hfull] at hl
      cases r with
      | error res2 => cases hl
      | ok full =>
          refine ⟨full, heap, rfl, ?_, hadds.locks⟩
          dsimp only at hl
          generalize rootLocateDir w.toWorld { g with heap } full.fullName.text = d at hl
          obtain ⟨res2 | parDir, g₁⟩ := d
          · cases hl
          dsimp only at hl
          cases hcase : (if full.fullNameLen ≠ 0 then
              g₁.newObjectLock w.toWorld parDir (textOf full.name) full.fullName.text mode
              else g₁.newRootLock w.toWorld (textOf full.name) full.fullName.text mode) with
          | mk r g₂ =>
              rw [hcase] at hl
              cases r with
              | error res2 => cases hl
              | ok newelock =>
                  cases hl
                  split at hcase
                  · exact (newObjectLock_names (congrArg Prod.fst hcase)).1
                  · exact (newRootLock_shared (congrArg Prod.fst hcase)).2.1

/-- `act_PARENT` of a lock with upright components: no lock for the root, else one without the last
component. -/
theorem actPARENT_up (hadd : AddsToNothing addPart) {fl : Nat} {l : ELOCK}
    (hl : lockLookup g.locks fl = some l)
    {cs : List (List UInt8)} (hcs : ∀ c ∈ cs, Upright c) (hname : l.fullName.text = joined cs) :
    (cs = [] → (g.actPARENT w addPart (some fl)).gRes1 = DOSFALSE ∧
      (g.actPARENT w addPart (some fl)).gRes2 = 0) ∧
    ∀ fl', granted (g.actPARENT w addPart (some fl)).gRes1 = some fl' → cs ≠ [] ∧
      ∃ l', lockLookup (g.actPARENT w addPart (some fl)).locks fl' = some l' ∧
        l'.fullName.text = joined cs.dropLast := by
  have hcolon := colon_notMem_joined hcs
  unfold actPARENT
  rw [Option.bind_some, hl]
  unfold doActPARENT
  dsimp only
  rw [hname]
  by_cases hroot : joined cs = [] ∨ (joined cs).getLast? = some colon
  · rw [if_pos hroot]
    exact ⟨fun _ => ⟨rfl, rfl⟩, fun fl' hfl' =>
      absurd hfl' (by simp [Global.setRes, DOSFALSE, granted])⟩
  rw [if_neg hroot]
  have hne : cs ≠ [] := fun hnil => hroot (.inl (by rw [hnil]; rfl))
  refine ⟨fun hnil => absurd hnil hne, fun fl' hfl' => ⟨hne, ?_⟩⟩
  have hup : pathPart (joined cs) = joined cs.dropLast := by
    have hsplit := List.dropLast_append_getLast hne
    have hall : ∀ a ∈ cs.dropLast ++ [cs.getLast hne], Upright a := by
      rw [hsplit]
      exact hcs
    have hpart := pathPart_joined hall
    rwa [hsplit] at hpart
  cases hstr : strDup g.heap (pathPart (joined cs)) with
  | mk d heap =>
      rw [hstr] at hfl'
      cases d with
      | none => cases hfl'
      | some dirName =>
          have htext : dirName.text = joined cs.dropLast :=
            (text_strDup (congrArg Prod.fst hstr)).trans hup
          dsimp only at hfl' ⊢
          cases hrun : rootLocateAndLock w.toWorld addPart { g with heap } none
            dirName.text SHARED_LOCK with
          | mk r g' =>
              rw [hrun] at hfl'
              cases r with
              | error res2 => cases hfl'
              | ok l' =>
                  obtain rfl : l'.addr = fl' := Option.some.inj hfl'
                  obtain ⟨full, heap', hfull, hfullName, hlocks⟩ := rootLocateAndLock_ok hrun
                  rw [htext] at hfull
                  refine ⟨l', ?_, hfullName.trans
                    (cBuildFullName_joined hadd (fun c hc => hcs c (List.dropLast_subset cs hc))
                      hfull)⟩
                  show lockLookup g'.locks l'.addr = some l'
                  rw [hlocks]
                  exact List.find?_cons_of_pos (decide_eq_true rfl)

/-- `ACTION_PARENT` with a lock and then, time and again, with the lock that was granted; none once
no lock is granted. -/
def climb (w : Requests σ) (addPart : List UInt8 → List UInt8 → Nat → Option (List UInt8)) :
    Nat → Global σ → Nat → Option (Global σ × Nat)
  | 0, g, fl => some (g, fl)
  | n + 1, g, fl =>
      (granted (g.actPARENT w addPart (some fl)).gRes1).bind fun fl' =>
        climb w addPart n (g.actPARENT w addPart (some fl)) fl'

/-- A lock with `n` upright components has at most `n` parents above each other, and each is named
by what is left of the components. -/
theorem climb_names (hadd : AddsToNothing addPart) {fl fl' n : Nat} {l : ELOCK}
    (hl : lockLookup g.locks fl = some l) {cs : List (List UInt8)} (hcs : ∀ c ∈ cs, Upright c)
    (hname : l.fullName.text = joined cs) (hclimb : climb w addPart n g fl = some (g', fl')) :
    n ≤ cs.length ∧
      (∃ l', lockLookup g'.locks fl' = some l' ∧
        l'.fullName.text = joined (cs.take (cs.length - n))) ∧
      (n = cs.length → (g'.actPARENT w addPart (some fl')).gRes1 = DOSFALSE ∧
        (g'.actPARENT w addPart (some fl')).gRes2 = 0) := by
  induction n generalizing g fl l cs with
  | zero =>
      obtain ⟨rfl, rfl⟩ := Prod.mk.inj (Option.some.inj hclimb)
      refine ⟨Nat.zero_le _, ⟨l, hl, by rw [Nat.sub_zero, List.take_length, hname]⟩, fun hlen => ?_⟩
      exact (actPARENT_up hadd hl hcs hname).1 (List.eq_nil_of_length_eq_zero hlen.symm)
  | succ n ih =>
      obtain ⟨fl₁, hgrant, hrest⟩ := Option.bind_eq_some_iff.mp hclimb
      obtain ⟨hne, l₁, hl₁, hname₁⟩ := (actPARENT_up hadd hl hcs hname).2 fl₁ hgrant
      obtain ⟨hle, ⟨l', hl', hname'⟩, htop⟩ :=
        ih hl₁ (fun c hc => hcs c (List.dropLast_subset cs hc)) hname₁ hrest
      have hpos := List.length_pos_of_ne_nil hne
      rw [List.length_dropLast] at hle hname' htop
      refine ⟨by omega, ⟨l', hl', ?_⟩, fun hn => htop (by omega)⟩
      rw [hname', List.dropLast_eq_take, List.take_take]
      congr 2
      omega

end Global

theorem dosAddPart_addsToNothing : AddsToNothing dosAddPart := by
  intro file size text hcolon hadd
  unfold dosAddPart at hadd
  rw [if_neg hcolon] at hadd
  dsimp only at hadd
  rw [if_pos (Or.inl rfl), List.nil_append] at hadd
  split at hadd
  · exact (Option.some.inj hadd).symm
  · cases hadd

/-- The directory "d", "e" in it and the file "f" in that. -/
def nestedStore : Store where
  objs := [⟨0, [100], 1, NFDIR⟩, ⟨1, [101], 2, NFDIR⟩, ⟨2, [102], 3, NFREG⟩]
  unique := by decide

/-- A handler with one lock, on "d/e/f". -/
def nested : Global Store :=
  { nestedStore.mounted some with
    locks := [⟨1, 4, SHARED_LOCK, [3], NFREG, ⟨2, [100, 47, 101, 47, 102]⟩, ⟨3, [102]⟩⟩]
    heap := ⟨[1, 2, 3], 4, some⟩ }

/-- Above "d/e/f" there are "d/e", "d" and the root, and above the root nothing. -/
theorem Global.climb_names_nested :
    (∃ g' fl', climb Store.requests.toRequests dosAddPart 1 nested 1 = some (g', fl') ∧
      ∃ l', lockLookup g'.locks fl' = some l' ∧ l'.fullName.text = [100, 47, 101]) ∧
    (∃ g' fl', climb Store.requests.toRequests dosAddPart 2 nested 1 = some (g', fl') ∧
      ∃ l', lockLookup g'.locks fl' = some l' ∧ l'.fullName.text = [100]) ∧
    ∃ g' fl', climb Store.requests.toRequests dosAddPart 3 nested 1 = some (g', fl') ∧
      (∃ l', lockLookup g'.locks fl' = some l' ∧ l'.fullName.text = []) ∧
      (g'.actPARENT Store.requests.toRequests dosAddPart (some fl')).gRes1 = DOSFALSE ∧
      (g'.actPARENT Store.requests.toRequests dosAddPart (some fl')).gRes2 = 0 := by
  have hcs : ∀ c ∈ [[(100 : UInt8)], [101], [102]], Upright c := by
    have hall : ∀ c ∈ [[(100 : UInt8)], [101], [102]],
        c ≠ [] ∧ slash ∉ c ∧ c ≠ [dot] ∧ c ≠ [dot, dot] ∧ c.getLast? ≠ some dot ∧ colon ∉ c := by
      decide
    intro c hc
    obtain ⟨hne, hslash, hdot, hdots, hnoDot, hnoColon⟩ := hall c hc
    exact ⟨⟨hslash, hne, hdot, hdots⟩, hnoDot, hnoColon⟩
  have hclimbs : ∀ n ∈ [1, 2, 3], ∃ g' fl',
      climb Store.requests.toRequests dosAddPart n nested 1 = some (g', fl') := by
    intro n hn
    have hsome : (climb Store.requests.toRequests dosAddPart n nested 1).isSome := by
      revert n
      decide +kernel
    obtain ⟨⟨g', fl'⟩, hclimb⟩ := Option.isSome_iff_exists.mp hsome
    exact ⟨g', fl', hclimb⟩
  refine ⟨?_, ?_, ?_⟩
  · obtain ⟨g', fl', hclimb⟩ := hclimbs 1 (by decide)
    obtain ⟨-, hname, -⟩ := climb_names dosAddPart_addsToNothing (by rfl) hcs (by rfl) hclimb
    exact ⟨g', fl', hclimb, hname⟩
  · obtain ⟨g', fl', hclimb⟩ := hclimbs 2 (by decide)
    obtain ⟨-, hname, -⟩ := climb_names dosAddPart_addsToNothing (by rfl) hcs (by rfl) hclimb
    exact ⟨g', fl', hclimb, hname⟩
  · obtain ⟨g', fl', hclimb⟩ := hclimbs 3 (by decide)
    obtain ⟨-, hname, htop⟩ := climb_names dosAddPart_addsToNothing (by rfl) hcs (by rfl) hclimb
    exact ⟨g', fl', hclimb, hname, htop rfl⟩

end Parent

end Anfs.Lock
