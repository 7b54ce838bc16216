import Anfs.Path.Resolve
import Anfs.Tree.Walk

/-!
# What `act_READ_LINK` answers

The walk along the path that is scanned in place is the walk along its components, and the
position and the length that `fn_InsertLink` gets are those of the component that is the link.
-/
namespace Anfs.Tree
open Anfs.Cache Anfs.Lib Anfs.Lock Anfs.Nfs Anfs.Path

section ReadLink
variable (join : List UInt8 → List UInt8 → List UInt8) (volume : List UInt8) (bufLen : Nat)

namespace Caches

/-- The directory that the text of a link is relative to. -/
def linkDir (before : List (List UInt8)) : List UInt8 := volume ++ colon :: joined before

/-- The text that the client should get. -/
def linkText (before : List (List UInt8)) (text : List UInt8) (after : List (List UInt8)) :
    List UInt8 :=
  let t := join (linkDir volume before) text
  if after = [] then t else join t (joined after)

/-- The answer that goes with what the walk meets. -/
def Answers : Meets → LinkReply → Prop
  | .noMemory, r => r.res1 = 0 ∧ r.res2 = errorNoFreeStore
  | .link before _ text after, r =>
      (bufLen ≤ (linkText join volume before text after).length → r.res1 = -2) ∧
      (colon ∉ text → (linkText join volume before text after).length < bufLen → r.res1 ≠ -2) ∧
      (r.res1 ≠ -2 → r.text = linkText join volume before text after ∧ r.res1 = r.text.length)
  | .directories, r => r.res1 = 0 ∧ r.res2 = errorObjectNotFound
  | .other, r => r.res1 = 0 ∧ r.res2 = errorInvalidComponentName
  | .failed _ err, r => r.res1 = 0 ∧ r.res2 = err

/-- What `act_READ_LINK` should do. -/
structure ReadsLink (m : Meets) (r : LinkReply) : Prop where
  inside : ∀ p ∈ r.stores, p.1 + p.2 ≤ bufLen
  answer : Answers join volume bufLen m r

/-- The texts that `fn_InsertLink` makes on its way fit as it tests them. -/
structure Roomy (before : List (List UInt8)) (text : List UInt8) : Prop where
  device : volume.length + 2 ≤ bufLen
  front : before ≠ [] → (linkDir volume before).length + 1 < bufLen
  link : (join (linkDir volume before) text).length < bufLen

/-- Where a text without ":" fits the parts of it do, and no step for the directory entry of a
component fails but with `ERROR_OBJECT_NOT_FOUND`. -/
def Smooth : Meets → Prop
  | .link before _ text after =>
      colon ∉ text → (linkText join volume before text after).length < bufLen →
        Roomy join volume bufLen before text
  | .failed true err => err = errorObjectNotFound
  | _ => True

variable {join volume bufLen} {before after cs : List (List UInt8)} {c text : List UInt8}

theorem joined_split (before : List (List UInt8)) (c : List UInt8) (after : List (List UInt8)) :
    joined (before ++ c :: after) =
      frontOf before ++ (c ++ if after = [] then [] else slash :: joined after) := by
  rw [joined_append (List.cons_ne_nil c after)]
  by_cases ha : after = []
  · subst ha
    simp
  · rw [joined_cons ha, if_neg ha]

theorem length_frontOf (hb : before ≠ []) :
    (frontOf before).length = (joined before).length + 1 := by
  rw [frontOf, if_neg hb, List.length_append, List.length_singleton]

/-- The result of `fn_InsertLink` at a component, and its stores. -/
structure Inserted (join : List UInt8 → List UInt8 → List UInt8)
    (volume : List UInt8) (bufLen : Nat)
    (before after : List (List UInt8)) (text : List UInt8)
    (r : Except Int (List UInt8) × List (Nat × Nat)) : Prop where
  ok : Roomy join volume bufLen before text →
    (linkText join volume before text after).length < bufLen →
      r.1 = .ok (linkText join volume before text after)
  error : r.1 = .ok (linkText join volume before text after) ∧
    Roomy join volume bufLen before text ∧
      (linkText join volume before text after).length < bufLen ∨ r.1 = .error errorNoFreeStore
  inside : ∀ p ∈ r.2, p.1 + p.2 ≤ bufLen

theorem Inserted.of_error {stores : List (Nat × Nat)} (hin : ∀ p ∈ stores, p.1 + p.2 ≤ bufLen)
    (hno : Roomy join volume bufLen before text →
      ¬ (linkText join volume before text after).length < bufLen) :
    Inserted join volume bufLen before after text (.error errorNoFreeStore, stores) :=
  ⟨fun hr hfit => absurd hfit (hno hr), .inr rfl, hin⟩

theorem fnInsertLink_spec (hvol : volume.getLast? ≠ some colon) (before : List (List UInt8))
    (c : List UInt8) (after : List (List UInt8)) (text : List UInt8) :
    Inserted join volume bufLen before after text
      (fnInsertLink join bufLen volume (joined (before ++ c :: after))
        (frontOf before).length c.length
        text) := by
  have hdrop : (joined (before ++ c :: after)).drop ((frontOf before).length + c.length) =
      if after = [] then [] else slash :: joined after := by
    rw [joined_split, ← List.append_assoc, ← List.length_append, List.drop_left]
  have hbuf : (if 0 < (frontOf before).length then
      volume ++ [colon] ++ (joined (before ++ c :: after)).take ((frontOf before).length - 1)
        else volume ++ [colon]) = linkDir volume before := by
    by_cases hb : before = []
    · subst hb
      simp [frontOf, linkDir, joined]
    · have hfront : frontOf before = joined before ++ [slash] := if_neg hb
      rw [joined_split, hfront, if_pos (by simp), List.append_assoc]
      simp [linkDir]
  have hlen : (linkDir volume before).length = volume.length + 1 + (joined before).length := by
    simp [linkDir]
    omega
  have hdevLen : (volume ++ [colon]).length = volume.length + 1 := List.length_append
  unfold fnInsertLink
  simp only [if_neg hvol, hbuf, hdrop, List.map_cons, List.map_nil]
  by_cases hdev : bufLen < volume.length + 2
  · rw [if_pos hdev]
    exact Inserted.of_error (List.forall_mem_nil _) fun hr => absurd hr.device (by omega)
  rw [if_neg hdev]
  have hhead : ∀ p ∈ [(0, volume.length + 1), (volume.length, 2)], p.1 + p.2 ≤ bufLen := by
    simp only [List.forall_mem_cons]
    exact ⟨by omega, by omega, List.forall_mem_nil _⟩
  by_cases hroom : 0 < (frontOf before).length ∧
      ¬ (frontOf before).length < bufLen - (volume ++ [colon]).length
  · rw [if_pos hroom]
    refine Inserted.of_error hhead fun hr => ?_
    have hb : before ≠ [] := by
      rintro rfl
      exact absurd hroom.1 (by simp [frontOf])
    have hfront := length_frontOf hb
    have := hr.front hb
    omega
  rw [if_neg hroom]
  have hfront : before ≠ [] → (linkDir volume before).length + 1 < bufLen := by
    intro hb
    have hlenFront := length_frontOf hb
    omega
  have hstores : ∀ p ∈ if 0 < (frontOf before).length then
      [(0, volume.length + 1), (volume.length, 2)] ++
        [((volume ++ [colon]).length, (frontOf before).length)]
        else [(0, volume.length + 1), (volume.length, 2)], p.1 + p.2 ≤ bufLen := by
    split
    · next hpos =>
        refine List.forall_mem_append.mpr ⟨hhead, List.forall_mem_singleton.mpr ?_⟩
        dsimp only
        omega
    · exact hhead
  generalize (if 0 < (frontOf before).length then
    [(0, volume.length + 1), (volume.length, 2)] ++
      [((volume ++ [colon]).length, (frontOf before).length)]
      else [(0, volume.length + 1), (volume.length, 2)]) = stores at hstores ⊢
  unfold addPart
  by_cases hlink : (join (linkDir volume before) text).length < bufLen
  · have hr : Roomy join volume bufLen before text := ⟨by omega, hfront, hlink⟩
    have hstores' := List.forall_mem_append.mpr ⟨hstores, List.forall_mem_singleton.mpr
      (show (0, (join (linkDir volume before) text).length + 1).1 +
        (0, (join (linkDir volume before) text).length + 1).2 ≤ bufLen by simp only; omega)⟩
    rw [if_pos hlink]
    by_cases ha : after = []
    · have htext : linkText join volume before text after = join (linkDir volume before) text := by
        rw [linkText, if_pos ha]
      simp only [if_pos ha]
      rw [← htext] at hlink ⊢
      rw [← htext] at hstores'
      exact ⟨fun _ _ => rfl, .inl ⟨rfl, hr, hlink⟩, hstores'⟩
    · have htext : linkText join volume before text after =
          join (join (linkDir volume before) text) (joined after) := by
        rw [linkText, if_neg ha]
      simp only [if_neg ha]
      by_cases hrest : (join (join (linkDir volume before) text) (joined after)).length < bufLen
      · rw [if_pos hrest]
        refine ⟨fun _ _ => by rw [htext], .inl ⟨by rw [htext], hr, by rwa [htext]⟩, ?_⟩
        exact List.forall_mem_append.mpr ⟨hstores', List.forall_mem_singleton.mpr
          (by simp only; omega)⟩
      · rw [if_neg hrest]
        exact Inserted.of_error hstores' fun _ => by rwa [htext]
  · rw [if_neg hlink]
    exact Inserted.of_error hstores fun hr => absurd hr.link hlink

/-- Where `AddPart` makes texts longer, the parts of a text that fits do. -/
theorem roomy_of_longer
    (hlink : (linkDir volume before).length < (join (linkDir volume before) text).length)
    (hrest : after ≠ [] → (join (linkDir volume before) text).length ≤
      (linkText join volume before text after).length)
    (hfit : (linkText join volume before text after).length < bufLen) :
    Roomy join volume bufLen before text := by
  have hle : (join (linkDir volume before) text).length ≤
      (linkText join volume before text after).length := by
    by_cases ha : after = []
    · rw [linkText, if_pos ha]
    · exact hrest ha
  have hdir : volume.length + 1 ≤ (linkDir volume before).length := by
    simp [linkDir]
  exact ⟨by omega, fun _ => by omega, by omega⟩

/-- How `PathWalk` ends when the walk meets this. -/
def walked (join : List UInt8 → List UInt8 → List UInt8) (volume : List UInt8) (bufLen : Nat)
    (res2 : Int) : Meets → Walked
  | .noMemory => ⟨0, errorNoFreeStore, [], []⟩
  | .link before c text after =>
      walkLink join bufLen volume (joined (before ++ c :: after))
        (frontOf before).length c.length res2
        text
  | .directories => ⟨1, res2, [], []⟩
  | .other => ⟨0, errorInvalidComponentName, [], []⟩
  | .failed true err => ⟨1, err, [], []⟩
  | .failed false err => ⟨0, err, [], []⟩

variable {σ : Type} {w : World σ}

theorem pathWalkLoop_meets (res2 : Int) (cs : List (List UInt8)) : ∀ (before : List (List UInt8))
    (n : Nat) (s : Caches σ) (parDir : Nat) (u : ScanPath), cs ≠ [] → (∀ c ∈ cs, Plain c) →
    cs.length ≤ n → Scanning (frontOf before) cs u →
    pathWalkLoop join w bufLen volume (joined (before ++ cs)) res2 n s parDir u =
      some (walked join volume bufLen res2 (meets w before s parDir cs).1,
        (meets w before s parDir cs).2) := by
  induction cs with
  | nil => exact fun _ _ _ _ _ hne => absurd rfl hne
  | cons c cs ih =>
      intro before n s parDir u _ hplain hn hu
      obtain ⟨n, rfl⟩ := Nat.exists_eq_succ_of_ne_zero
        (show n ≠ 0 by simp only [List.length_cons] at hn; omega)
      have hc := hplain c List.mem_cons_self
      have hscan : (fnScanPath u).1 = (frontOf before).length ∧
          cString (fnScanPath u).2.path (frontOf before).length = c ∧
          (fnScanPath u).2.lastElement = decide (cs = []) ∧
          (cs ≠ [] → Scanning (frontOf (before ++ [c])) cs (fnScanPath u).2) := by
        by_cases hcs : cs = []
        · subst hcs
          obtain ⟨hpos, hname, hlast⟩ := fnScanPath_last hc hu
          exact ⟨hpos, hname, hlast, fun h => absurd rfl h⟩
        · obtain ⟨hpos, hname, hmore, hnext⟩ := fnScanPath_next hc hcs hu
          rw [frontOf_concat]
          exact ⟨hpos, hname, by simp [hmore, hcs], fun _ => hnext⟩
      obtain ⟨hpos, hname, hlast, hnext⟩ := hscan
      have hslash : (fnScanPath u).2.path[(frontOf before).length]? ≠ some slash := by
        intro hs
        have hhead : (cString (fnScanPath u).2.path (frontOf before).length).head? =
            some slash := by
          rw [cString, List.head?_takeWhile, List.head?_drop, hs]
          rfl
        rw [hname] at hhead
        exact hc.noSlash (List.mem_of_mem_head? hhead)
      unfold pathWalkLoop meets
      simp only [hpos, hname, if_neg hslash]
      generalize s.getNameEntry w parDir c true = r
      obtain ⟨err | ⟨nent, ace⟩, s₁⟩ := r
      · rfl
      dsimp only
      by_cases hlnk : nent.ftype = NFLNK
      · rw [if_neg fun hother => hother.2 hlnk, if_pos hlnk, if_pos hlnk]
        generalize w.readLink s₁.env (s₁.aceFh ace) = g
        obtain ⟨err | lpath, env⟩ := g
        · rfl
        · rfl
      by_cases hdir : nent.ftype = NFDIR
      · rw [if_neg fun hother => hother.1 hdir, if_neg hlnk, if_neg hlnk, if_pos hdir]
        generalize s₁.getDirEntry w nent.fileId (s₁.aceFh ace) = d
        obtain ⟨err | actDir, s₂⟩ := d
        · rfl
        dsimp only
        rw [hlast]
        by_cases hcs : cs = []
        · subst hcs
          rfl
        · have hrest := ih (before ++ [c]) n s₂ actDir (fnScanPath u).2 hcs
            (fun d hd => hplain d (List.mem_cons_of_mem c hd))
            (by simp only [List.length_cons] at hn; omega) (hnext hcs)
          rw [List.append_assoc, List.singleton_append] at hrest
          rw [if_neg (by simpa using hcs), hrest]
      · rw [if_pos ⟨hdir, hlnk⟩, if_neg hlnk, if_neg hdir]
        rfl

theorem length_le_joined (hplain : ∀ c ∈ cs, Plain c) : cs.length ≤ (joined cs).length := by
  induction cs with
  | nil => exact Nat.zero_le _
  | cons c cs ih =>
      have hc := List.length_pos_of_ne_nil (hplain c List.mem_cons_self).nonempty
      have hrest := ih fun d hd => hplain d (List.mem_cons_of_mem c hd)
      by_cases hcs : cs = []
      · subst hcs
        rw [joined_singleton]
        exact Nat.succ_le_of_lt hc
      · rw [joined_cons hcs]
        simp only [List.length_cons, List.length_append]
        omega

theorem pathWalk_meets (mntId : UInt32) (mntFh : List UInt8) (res2 : Int) (h : Heap) (s : Caches σ)
    (hne : cs ≠ []) (hplain : ∀ c ∈ cs, Plain c) :
    ∃ h' s', pathWalk join w bufLen volume mntId mntFh res2 h s (joined cs) =
      some (walked join volume bufLen res2 (meetsFromRoot w mntId mntFh h s cs), h', s') := by
  have htext : ∀ d, (strDup h (joined cs)).1 = some d → d.text = joined cs := fun d => text_strDup
  unfold pathWalk meetsFromRoot
  generalize strDup h (joined cs) = d at htext ⊢
  obtain ⟨_ | workPath, h₁⟩ := d
  · exact ⟨_, _, rfl⟩
  dsimp only
  rw [if_neg (by simp), htext workPath rfl]
  generalize s.getDirEntry w mntId mntFh = g
  obtain ⟨err | parDir, s₁⟩ := g
  · exact ⟨_, _, rfl⟩
  dsimp only
  have hscan : Scanning (frontOf []) cs ⟨joined cs ++ [0], 0, false⟩ := ⟨rfl, rfl, rfl⟩
  have hloop := @pathWalkLoop_meets join volume bufLen σ w res2 cs []
    (joined cs).length s₁ parDir _ hne
    hplain (length_le_joined hplain) hscan
  rw [if_neg (by simpa using joined_ne_nil hne hplain)]
  exact ⟨_, _, congrArg (Option.map _) hloop⟩

/-- The reply is the text of the link with the rest of the path put behind it, or the error that
`ReadsLink` names, exactly if the walk is smooth. -/
theorem readsLink_iff (hvol : volume.getLast? ≠ some colon) (res2 : Int) (m : Meets) :
    ReadsLink join volume bufLen m (linkReply (walked join volume bufLen res2 m)) ↔
      Smooth join volume bufLen m := by
  cases m with
  | noMemory => exact iff_of_true ⟨List.forall_mem_nil _, rfl, rfl⟩ trivial
  | directories => exact iff_of_true ⟨List.forall_mem_nil _, rfl, rfl⟩ trivial
  | other => exact iff_of_true ⟨List.forall_mem_nil _, rfl, rfl⟩ trivial
  | failed dirStep err =>
      cases dirStep with
      | false => exact iff_of_true ⟨List.forall_mem_nil _, rfl, rfl⟩ trivial
      | true =>
          constructor
          · exact fun h => h.answer.2.symm
          · exact fun h =>
              ⟨List.forall_mem_nil _, rfl, (show err = errorObjectNotFound from h).symm⟩
  | link before c text after =>
      have hins := @fnInsertLink_spec join volume bufLen hvol before c after text
      rw [walked, walkLink]
      generalize fnInsertLink join bufLen volume (joined (before ++ c :: after))
        (frontOf before).length
        c.length text = r at hins ⊢
      obtain ⟨err | t, stores⟩ := r
      · obtain rfl : err = errorNoFreeStore := by
          rcases hins.error with ⟨hok, -⟩ | herr
          · cases hok
          · exact Except.error.inj herr
        change ReadsLink join volume bufLen (.link before c text after) ⟨-2, 0, [], stores⟩ ↔ _
        constructor
        · intro h hcolon hfit
          exact absurd rfl (h.answer.2.1 hcolon hfit)
        · intro h
          refine ⟨hins.inside, fun _ => rfl, fun hcolon hfit => ?_, fun hno => absurd rfl hno⟩
          cases hins.ok (h hcolon hfit) hfit
      · obtain ⟨hok, hroom, hfit⟩ := hins.error.resolve_right (by simp)
        obtain rfl := Except.ok.inj hok
        change ReadsLink join volume bufLen (.link before c text after)
          ⟨(linkText join volume before text after).length, 0,
            linkText join volume before text after,
            stores⟩ ↔ _
        refine iff_of_true ⟨hins.inside, fun hbig => absurd hfit (by omega),
          fun _ _ => ?_, fun _ => ?_⟩
          fun _ _ => hroom
        · change ((linkText join volume before text after).length : Int) ≠ -2
          omega
        · exact ⟨rfl, rfl⟩

/-- `act_READ_LINK` on a path that unifies to components: it returns, and its reply is the right
one exactly if the walk is smooth. -/
theorem actReadLink_iff (hvol : volume.getLast? ≠ some colon) {mntId : UInt32} {mntFh : List UInt8}
    {locks : List ELOCK} {res2 : Int} {h h₁ : Heap} {s : Caches σ} {fl : Option Nat}
    {path : List UInt8} {bufSize : UInt32} {full : FullName} (hne : cs ≠ [])
    (hplain : ∀ c ∈ cs, Plain c)
    (hpath : cBuildFullName (addPart join) volume locks h fl path false false = (.ok full, h₁))
    (hfull : full.fullName.text = joined cs) :
    ∃ r h' s', actReadLink join w volume mntId mntFh locks res2 h s fl path bufSize =
      some (r, h', s') ∧
      (ReadsLink join volume bufSize.toNat (meetsFromRoot w mntId mntFh h₁ s cs) r ↔
        Smooth join volume bufSize.toNat (meetsFromRoot w mntId mntFh h₁ s cs)) := by
  obtain ⟨h', s', hwalk⟩ :=
    @pathWalk_meets join volume bufSize.toNat cs σ w mntId mntFh res2 h₁ s hne hplain
  refine ⟨linkReply (walked join volume bufSize.toNat res2 (meetsFromRoot w mntId mntFh h₁ s cs)),
    fnDelete h' (some full.fullName), s', ?_, readsLink_iff hvol res2 _⟩
  rw [actReadLink, hpath]
  dsimp only
  rw [hfull, hwalk]
  rfl

/-- The directory part of a name, without its slash. -/
def parentPart (dir : List UInt8) : List UInt8 :=
  let d := (dir.reverse.dropWhile fun c => c ≠ slash ∧ c ≠ colon).reverse
  if d.getLast? = some slash then d.dropLast else d

/-- What `AddPart` of dos.library makes of a name that starts with slashes: each one goes up. -/
def joinUp (dir : List UInt8) : List UInt8 → List UInt8
  | [] => dir
  | c :: file =>
      if c = slash then joinUp (parentPart dir) file
      else if dir = [] ∨ dir.getLast? = some colon then dir ++ c :: file
      else dir ++ slash :: c :: file

def dosJoin (dir file : List UInt8) : List UInt8 := if colon ∈ file then file else joinUp dir file

/-- The file "b" is a link with the text "/c", all others are directories. The allocation with
the number `fails` fails. -/
def linkWorld (fails : Nat) : World Nat where
  now n := (100, n)
  memOk n := (n ≠ fails, n + 1)
  lookup n _ name :=
    (.ok ⟨name, { (default : Xdr.Fattr) with
      type := if name = [98] then NFLNK else NFDIR
      fileid := UInt32.ofNat name.length + 1 }⟩, n)
  getAttr n fh :=
    (.ok { (default : Xdr.Fattr) with type := NFDIR, fileid := UInt32.ofNat fh.length + 1 }, n)
  readLink n _ := (.ok [slash, 99], n)

/-- The table of `attrs_Init` and `dc_Init`. -/
def emptyTable : FTHashTable UInt32 Nat where
  entries := Buckets.empty 256 (by decide)
  freeEntries := []
  lockedEntries := []
  keySize := 4
  maxEntries := 20
  ttl := 60
  numEntries := 0
  lockCnt := 0

def emptyCaches : Caches Nat where
  env := 0
  attrCache := emptyTable
  dirCache := emptyTable
  aces _ := default
  dces _ := default
  next := 0

/-- The link "a/b" on a volume "n", with a buffer of 20 bytes. -/
theorem actReadLink_iff_link :
    initTable 20 60 true = some emptyTable ∧ ∃ r h' s',
      actReadLink dosJoin (linkWorld 100) [110] 1 [] [] 0 ⟨[], 0, some⟩ emptyCaches none
        [97, slash, 98] 20 = some (r, h', s') ∧
      (ReadsLink dosJoin [110] 20 (meetsFromRoot (linkWorld 100) 1 []
          (cBuildFullName (addPart dosJoin) [110] [] ⟨[], 0, some⟩ none
            [97, slash, 98] false false).2
          emptyCaches [[97], [98]]) r ↔
        Smooth dosJoin [110] 20 (meetsFromRoot (linkWorld 100) 1 []
          (cBuildFullName (addPart dosJoin) [110] [] ⟨[], 0, some⟩ none
            [97, slash, 98] false false).2
          emptyCaches [[97], [98]])) := by
  have hrun : (cBuildFullName (addPart dosJoin) [110] [] ⟨[], 0, some⟩ none [97, slash, 98] false
      false).1.toOption.map (fun n => n.fullName.text) = some (joined [[97], [98]]) := by decide
  obtain ⟨full, hfull, htext⟩ := Option.map_eq_some_iff.mp hrun
  have hplain : ∀ c ∈ [[97], [98]], Plain c := by
    simp only [List.forall_mem_cons]
    exact ⟨⟨by decide, by decide, by decide⟩, ⟨by decide, by decide, by decide⟩,
      List.forall_mem_nil _⟩
  exact ⟨rfl, actReadLink_iff (by decide) (by decide) hplain
    (Prod.ext (ok_of_toOption hfull) rfl) htext⟩

/-- For the directory "a" on a volume "n" there is no memory for a directory entry, and the reply
is `ERROR_OBJECT_NOT_FOUND`. The text "n:c" of the link "a/b" fits into 4 bytes, and the reply is
that it does not. -/
theorem actReadLink_mistakes :
    initTable 20 60 true = some emptyTable ∧
      (∃ r h' s', actReadLink dosJoin (linkWorld 8) [110] 1 [] [] 0 ⟨[], 0, some⟩ emptyCaches none
          [97] 20 = some (r, h', s') ∧
        ¬ ReadsLink dosJoin [110] 20 (meetsFromRoot (linkWorld 8) 1 []
          (cBuildFullName (addPart dosJoin) [110] [] ⟨[], 0, some⟩ none [97] false false).2
          emptyCaches [[97]]) r) ∧
      ∃ r h' s', actReadLink dosJoin (linkWorld 100) [110] 1 [] [] 0 ⟨[], 0, some⟩ emptyCaches none
          [97, slash, 98] 4 = some (r, h', s') ∧
        ¬ ReadsLink dosJoin [110] 4 (meetsFromRoot (linkWorld 100) 1 []
          (cBuildFullName (addPart dosJoin) [110] [] ⟨[], 0, some⟩ none
            [97, slash, 98] false false).2
          emptyCaches [[97], [98]]) r := by
  refine ⟨rfl, ?_, ?_⟩
  · have hrun : (actReadLink dosJoin (linkWorld 8) [110] 1 [] [] 0 ⟨[], 0, some⟩ emptyCaches none
        [97] 20).map (fun r => r.1) = some ⟨0, errorObjectNotFound, [], []⟩ := by decide +kernel
    obtain ⟨⟨r, h', s'⟩, hread, rfl⟩ := Option.map_eq_some_iff.mp hrun
    refine ⟨_, h', s', hread, fun h => ?_⟩
    have hmeets : meetsFromRoot (linkWorld 8) 1 []
        (cBuildFullName (addPart dosJoin) [110] [] ⟨[], 0, some⟩ none [97] false false).2
          emptyCaches
        [[97]] = .failed true errorNoFreeStore := by decide +kernel
    rw [hmeets] at h
    exact absurd h.answer.2 (by decide)
  · have hrun : (actReadLink dosJoin (linkWorld 100) [110] 1 [] [] 0 ⟨[], 0, some⟩ emptyCaches none
        [97, slash, 98] 4).map (fun r => r.1.res1) = some (-2) := by decide +kernel
    obtain ⟨⟨r, h', s'⟩, hread, hres⟩ := Option.map_eq_some_iff.mp hrun
    refine ⟨r, h', s', hread, fun h => ?_⟩
    have hmeets : meetsFromRoot (linkWorld 100) 1 []
        (cBuildFullName (addPart dosJoin) [110] [] ⟨[], 0, some⟩ none [97, slash, 98] false false).2
        emptyCaches [[97], [98]] = .link [[97]] [98] [slash, 99] [] := by decide +kernel
    rw [hmeets] at h
    exact h.answer.2.1 (by decide) (by decide) hres

end Caches

end ReadLink

end Anfs.Tree
