import Anfs.Lib.Memory
import Anfs.Buf.Global

/-!
# The table of dirty intervals as it lies in memory

`wbh_Info` has room for `WBUFHDRINFOSIZE` entries of two `WORD`s; the entries from
`wbh_NumInfo` on hold anything. Every access is checked against the room, so a result
without a fault says that nothing outside the table was read, written or moved. The list
functions of `Anfs.Buf.Info` are what these functions compute on the filled part.
-/
namespace Anfs.Buf
open Lib

abbrev Cells := Vector WBufHdrInfo WBUFHDRINFOSIZE

/-- `wbh_NumInfo` and `wbh_Info` of a `WBUFHDR`. -/
structure InfoTable where
  wbhNumInfo : Nat
  wbhInfo : Cells

/-- The filled part of the table. -/
def InfoTable.info (wbh : InfoTable) : List WBufHdrInfo :=
  wbh.wbhInfo.toList.take wbh.wbhNumInfo

/-- A `LONG` that is stored in a `WORD`. -/
def word (x : Int) : Int := (x + 32768) % 65536 - 32768

theorem word_eq {x : Int} (h0 : 0 ≤ x) (h : x < MBUFSIZE) : word x = x := by
  unfold word
  unfold MBUFSIZE at h
  omega

namespace Cells

def read (a : Cells) (i : Nat) : Except Fault WBufHdrInfo :=
  if h : i < WBUFHDRINFOSIZE then .ok (a.get ⟨i, h⟩) else .error .overrun

/-- `wbi->wbi_From = wbiFrom; wbi->wbi_To = wbiTo` at the entry `i`. -/
def write (a : Cells) (i : Nat) (wbiFrom wbiTo : Int) : Except Fault Cells :=
  if h : i < WBUFHDRINFOSIZE then .ok (a.set i ⟨word wbiFrom, word wbiTo⟩ h) else .error .overrun

/-- `memmove(&wbh_Info[dst], &wbh_Info[src], sizeof(WBUFHDRINFO) * n)`. -/
def memmove (a : Cells) (dst src n : Nat) : Except Fault Cells :=
  if h : dst + n ≤ WBUFHDRINFOSIZE ∧ src + n ≤ WBUFHDRINFOSIZE then
    .ok (Vector.ofFn fun j =>
      if hj : dst ≤ j.val ∧ j.val < dst + n then a.get ⟨src + (j.val - dst), by omega⟩
      else a.get j)
  else .error .overrun

end Cells

/-- The search of `WBufUpdateInfo` for the insertion place: `left` entries from `i` on. -/
def insertPlace (a : Cells) (offs : Int) : Nat → Nat → Except Fault Nat
  | 0, i => .ok i
  | left + 1, i => do
      let wbi ← a.read i
      if offs ≤ wbi.wbiTo + 1 then .ok i else insertPlace a offs left (i + 1)

/-- The search of `WBufDoMelt` for the end of the melt area: `left` entries lie behind
`i`. -/
def meltPlace (a : Cells) (last : Int) : Nat → Nat → Except Fault Nat
  | 0, i => .ok i
  | left + 1, i => do
      let nwbi ← a.read i
      if nwbi.wbiTo < last then meltPlace a last left (i + 1) else .ok i

/-- `Num > i + 1 && To + 1 >= wbi[1].wbi_From` for the entry `i`. -/
def Cells.reachesNext (a : Cells) (num i : Nat) (last : Int) : Except Fault Bool :=
  if i + 1 < num then do
    let next ← a.read (i + 1)
    .ok (decide (next.wbiFrom ≤ last + 1))
  else .ok false

/-- `WBufDoMelt` for the entry `i`; the search may go one entry too far. -/
def InfoTable.wBufDoMelt (wbh : InfoTable) (i : Nat) (offs last : Int) :
    Except Fault InfoTable := do
  let num := wbh.wbhNumInfo
  let found ← meltPlace wbh.wbhInfo last (num - 1 - (i + 1)) (i + 1)
  let nwbi ← wbh.wbhInfo.read found
  let n := if last + 1 < nwbi.wbiFrom then found - 1 else found
  let nwbi ← wbh.wbhInfo.read n
  let wbi ← wbh.wbhInfo.read i
  let a ← wbh.wbhInfo.write i (min wbi.wbiFrom offs) (max last nwbi.wbiTo)
  let a ← (if n + 1 < num then a.memmove (i + 1) (n + 1) (num - n - 1) else .ok a)
  .ok ⟨num - (n - i), a⟩

/-- `WBufUpdateInfo`. -/
def InfoTable.wBufUpdateInfo (wbh : InfoTable) (offs len : Int) : Except Fault InfoTable :=
  let num := wbh.wbhNumInfo
  if num = 0 then do
    let a ← wbh.wbhInfo.write 0 offs (offs + len - 1)
    .ok ⟨num + 1, a⟩
  else do
    let last := offs + len - 1
    let i ← insertPlace wbh.wbhInfo offs num 0
    if i < num then
      let wbi ← wbh.wbhInfo.read i
      if last + 1 < wbi.wbiFrom then
        let a ← wbh.wbhInfo.memmove (i + 1) i (num - i)
        let a ← a.write i offs (offs + len - 1)
        .ok ⟨num + 1, a⟩
      else
        let melts ← wbh.wbhInfo.reachesNext num i last
        if melts then wbh.wBufDoMelt i offs last
        else do
          let a ← wbh.wbhInfo.write i (min wbi.wbiFrom offs) (max wbi.wbiTo last)
          .ok ⟨num, a⟩
    else do
      let a ← wbh.wbhInfo.write i offs (offs + len - 1)
      .ok ⟨num + 1, a⟩

namespace Cells

theorem read_append {a : Cells} {front tail : List WBufHdrInfo} {wbi : WBufHdrInfo}
    (h : a.toList = front ++ wbi :: tail) : a.read front.length = .ok wbi := by
  rw [read, dif_pos (length_lt_of_toList h), get_of_toList h]

theorem write_append {a : Cells} {front tail : List WBufHdrInfo} {wbi : WBufHdrInfo}
    (h : a.toList = front ++ wbi :: tail) (wbiFrom wbiTo : Int) :
    ∃ a', a.write front.length wbiFrom wbiTo = .ok a' ∧
      a'.toList = front ++ ⟨word wbiFrom, word wbiTo⟩ :: tail := by
  have hi := length_lt_of_toList h
  exact ⟨a.set front.length ⟨word wbiFrom, word wbiTo⟩ hi, dif_pos hi, toList_set_of_toList h _ hi⟩

theorem memmove_toList (a : Cells) (dst src n : Nat) (hdst : dst + n ≤ WBUFHDRINFOSIZE)
    (hsrc : src + n ≤ WBUFHDRINFOSIZE) :
    ∃ a', a.memmove dst src n = .ok a' ∧
      a'.toList = a.toList.take dst ++ ((a.toList.drop src).take n ++ a.toList.drop (dst + n)) := by
  refine ⟨_, dif_pos ⟨hdst, hsrc⟩, ?_⟩
  have hl : a.toList.length = WBUFHDRINFOSIZE := Vector.length_toList
  apply List.ext_getElem
  · simp only [Vector.length_toList, List.length_append, List.length_take, List.length_drop, hl]
    omega
  · intro j h1 h2
    have hj : j < WBUFHDRINFOSIZE := by simpa using h1
    rw [Vector.getElem_toList, Vector.getElem_ofFn]
    dsimp only
    by_cases hlow : j < dst
    · rw [dif_neg (by omega), List.getElem_append_left (by simp [hl]; omega), List.getElem_take]
      simp [Vector.get]
    · rw [List.getElem_append_right (by simp; omega)]
      have hd : (a.toList.take dst).length = dst := by simp [hl]; omega
      by_cases hmid : j < dst + n
      · rw [dif_pos ⟨by omega, hmid⟩, List.getElem_append_left (by simp [hl]; omega),
          List.getElem_take, List.getElem_drop]
        simp only [hd]
        simp [Vector.get]
      · rw [dif_neg (by omega), List.getElem_append_right (by simp [hl]; omega),
          List.getElem_drop]
        have : dst + n + (j - (a.toList.take dst).length -
            ((a.toList.drop src).take n).length) = j := by
          simp only [List.length_take, List.length_drop, hl]
          omega
        simp only [this]
        simp [Vector.get]

/-- The entries `moved` come down over `gone`. -/
theorem memmove_down {a : Cells} {front gone moved tail : List WBufHdrInfo}
    (h : a.toList = front ++ (gone ++ (moved ++ tail))) :
    ∃ a' tail', a.memmove front.length (front.length + gone.length) moved.length = .ok a' ∧
      a'.toList = front ++ (moved ++ tail') := by
  have hlen := congrArg List.length h
  simp only [Vector.length_toList, List.length_append] at hlen
  obtain ⟨a', hmove, hlist⟩ := a.memmove_toList front.length (front.length + gone.length)
    moved.length (by omega) (by omega)
  refine ⟨a', a.toList.drop (front.length + moved.length), hmove, hlist.trans ?_⟩
  have hfront : a.toList.take front.length = front := by rw [h, List.take_left]
  have hmoved : (a.toList.drop (front.length + gone.length)).take moved.length = moved := by
    rw [h, ← List.append_assoc, ← List.length_append, List.drop_left, List.take_left]
  rw [hfront, hmoved]

/-- The entries `moved` make room for one entry. -/
theorem memmove_up {a : Cells} {front moved tail : List WBufHdrInfo} {last : WBufHdrInfo}
    (h : a.toList = front ++ (moved ++ last :: tail)) :
    ∃ a' room, a.memmove (front.length + 1) front.length moved.length = .ok a' ∧
      a'.toList = front ++ room :: (moved ++ tail) := by
  have hlen := congrArg List.length h
  simp only [Vector.length_toList, List.length_append, List.length_cons] at hlen
  obtain ⟨a', hmove, hlist⟩ := a.memmove_toList (front.length + 1) front.length moved.length
    (by omega) (by omega)
  obtain ⟨room, behind, hroom⟩ : ∃ room behind, moved ++ last :: tail = room :: behind := by
    cases moved with
    | nil => exact ⟨_, _, rfl⟩
    | cons m moved => exact ⟨_, _, rfl⟩
  refine ⟨a', room, hmove, hlist.trans ?_⟩
  have htake : a.toList.take (front.length + 1) = front ++ [room] := by
    rw [h, hroom, List.take_length_add_append]
    rfl
  have hmid : (a.toList.drop front.length).take moved.length = moved := by
    rw [h, List.drop_left, List.take_left]
  have hdrop : a.toList.drop (front.length + 1 + moved.length) = tail := by
    have heq : front ++ (moved ++ last :: tail) = (front ++ moved ++ [last]) ++ tail := by simp
    have hn : front.length + 1 + moved.length = (front ++ moved ++ [last]).length := by
      simp only [List.length_append, List.length_cons, List.length_nil]
      omega
    rw [h, heq, hn, List.drop_left]
  rw [htake, hmid, hdrop]
  simp

end Cells

theorem insertPlace_of_read {a : Cells} {offs : Int} {left i : Nat} {wbi : WBufHdrInfo}
    (h : a.read i = .ok wbi) : insertPlace a offs (left + 1) i =
      if offs ≤ wbi.wbiTo + 1 then .ok i else insertPlace a offs left (i + 1) := by
  rw [insertPlace, h]
  rfl

theorem meltPlace_of_read {a : Cells} {last : Int} {left i : Nat} {nwbi : WBufHdrInfo}
    (h : a.read i = .ok nwbi) : meltPlace a last (left + 1) i =
      if nwbi.wbiTo < last then meltPlace a last left (i + 1) else .ok i := by
  rw [meltPlace, h]
  rfl

/-- The search stops at the first entry that the list function does not step over. -/
theorem insertPlace_spec {a : Cells} {offs : Int} {front rest tail : List WBufHdrInfo}
    (h : a.toList = front ++ (rest ++ tail)) :
    ∃ skipped behind, rest = skipped ++ behind ∧
      insertPlace a offs rest.length front.length = .ok (front.length + skipped.length) ∧
      (∀ last, wBufUpdateInfo rest offs last = skipped ++ wBufUpdateInfo behind offs last) ∧
      ∀ wbi ∈ behind.head?, offs ≤ wbi.wbiTo + 1 := by
  induction rest generalizing front with
  | nil => exact ⟨[], [], rfl, rfl, fun _ => rfl, by simp⟩
  | cons wbi rest ih =>
      have hread : a.read front.length = .ok wbi := Cells.read_append h
      by_cases hoffs : offs ≤ wbi.wbiTo + 1
      · refine ⟨[], wbi :: rest, rfl, ?_, fun _ => rfl, by simpa using hoffs⟩
        rw [List.length_cons, insertPlace_of_read hread, if_pos hoffs]
        rfl
      · have hfront : (front ++ [wbi]).length = front.length + 1 := by simp
        have hnext : a.toList = (front ++ [wbi]) ++ (rest ++ tail) := by rw [h]; simp
        obtain ⟨skipped, behind, hrest, hplace, hlist, hhead⟩ := ih hnext
        refine ⟨wbi :: skipped, behind, by rw [hrest]; rfl, ?_, fun last => ?_, hhead⟩
        · rw [hfront] at hplace
          rw [List.length_cons, insertPlace_of_read hread, if_neg hoffs, hplace]
          congr 1
          rw [List.length_cons]
          omega
        · conv_lhs => unfold wBufUpdateInfo
          rw [if_neg hoffs, hlist last]
          rfl

/-- The search ends at the last entry that melts, or one entry behind it. -/
theorem meltPlace_spec {a : Cells} {last : Int} {front rest tail : List WBufHdrInfo}
    {prev nwbi : WBufHdrInfo} (h : a.toList = front ++ (prev :: nwbi :: rest ++ tail)) :
    ∃ found w kept, meltPlace a last rest.length (front.length + 1) = .ok found ∧
      a.read found = .ok w ∧
      (if last + 1 < w.wbiFrom then found - 1 else found) = front.length + kept.length ∧
      prev :: nwbi :: rest = kept ++ (meltEnd prev (nwbi :: rest) last).1 ::
        (meltEnd prev (nwbi :: rest) last).2 := by
  have hfront : (front ++ [prev]).length = front.length + 1 := by simp
  induction rest generalizing front prev nwbi with
  | nil =>
      have hread : a.read (front.length + 1) = .ok nwbi := by
        have hnext : a.toList = (front ++ [prev]) ++ nwbi :: tail := by rw [h]; simp
        rw [← hfront]
        exact Cells.read_append hnext
      have hend : meltEnd prev [nwbi] last =
          if last + 1 < nwbi.wbiFrom then (prev, [nwbi]) else (nwbi, []) := by
        simp [meltEnd]
      rw [hend]
      by_cases hfar : last + 1 < nwbi.wbiFrom
      · exact ⟨_, nwbi, [], rfl, hread, by rw [if_pos hfar]; rfl, by rw [if_pos hfar]; rfl⟩
      · exact ⟨_, nwbi, [prev], rfl, hread, by rw [if_neg hfar]; rfl, by rw [if_neg hfar]; rfl⟩
  | cons next rest ih =>
      have hnext : a.toList = (front ++ [prev]) ++ (nwbi :: next :: rest ++ tail) := by
        rw [h]
        simp
      have hread : a.read (front.length + 1) = .ok nwbi := by
        rw [← hfront]
        exact Cells.read_append hnext
      by_cases hover : nwbi.wbiTo < last
      · obtain ⟨found, w, kept, hplace, hw, hn, heq⟩ := ih hnext (by simp)
        have hend : meltEnd prev (nwbi :: next :: rest) last =
            meltEnd nwbi (next :: rest) last := by
          conv_lhs => unfold meltEnd
          rw [if_pos ⟨by simp, hover⟩]
        rw [hfront] at hplace hn
        refine ⟨found, w, prev :: kept, ?_, hw, ?_, ?_⟩
        · rw [List.length_cons, meltPlace_of_read hread, if_pos hover]
          exact hplace
        · rw [hn, List.length_cons]
          omega
        · rw [hend, List.cons_append, ← heq]
      · have hend : meltEnd prev (nwbi :: next :: rest) last =
            if last + 1 < nwbi.wbiFrom then (prev, nwbi :: next :: rest)
            else (nwbi, next :: rest) := by
          conv_lhs => unfold meltEnd
          rw [if_neg (by simp [hover])]
        have hplace : meltPlace a last (next :: rest).length (front.length + 1) =
            .ok (front.length + 1) := by
          rw [List.length_cons, meltPlace_of_read hread, if_neg hover]
        rw [hend]
        by_cases hfar : last + 1 < nwbi.wbiFrom
        · exact ⟨_, nwbi, [], hplace, hread, by rw [if_pos hfar]; rfl, by rw [if_pos hfar]; rfl⟩
        · exact ⟨_, nwbi, [prev], hplace, hread, by rw [if_neg hfar]; rfl,
            by rw [if_neg hfar]; rfl⟩

/-- The filled part of the table is `l`. -/
def InfoTable.Filled (wbh : InfoTable) (l : List WBufHdrInfo) : Prop :=
  wbh.wbhNumInfo = l.length ∧ ∃ tail, wbh.wbhInfo.toList = l ++ tail

theorem InfoTable.Filled.info_eq {wbh : InfoTable} {l : List WBufHdrInfo} (h : wbh.Filled l) :
    wbh.info = l := by
  obtain ⟨hnum, tail, htab⟩ := h
  rw [InfoTable.info, htab, hnum, List.take_left]

theorem InfoTable.filled_info {wbh : InfoTable} (h : wbh.wbhNumInfo ≤ WBUFHDRINFOSIZE) :
    wbh.Filled wbh.info := by
  refine ⟨?_, wbh.wbhInfo.toList.drop wbh.wbhNumInfo, (List.take_append_drop _ _).symm⟩
  rw [InfoTable.info, List.length_take, Vector.length_toList]
  omega

/-- The offsets of the entries lie in a buffer. -/
def InBuffer (info : List WBufHdrInfo) : Prop :=
  ∀ wbi ∈ info, 0 ≤ wbi.wbiFrom ∧ wbi.wbiFrom ≤ wbi.wbiTo ∧ wbi.wbiTo < MBUFSIZE

theorem Normal.inBuffer {info : List WBufHdrInfo} (h : Normal 0 (MBUFSIZE - 1) info) :
    InBuffer info := fun wbi hm => by
  have := h.mem hm
  omega

theorem filled_wBufDoMelt {wbh : InfoTable} {front rest : List WBufHdrInfo}
    {wbi next : WBufHdrInfo} {offs last : Int}
    (h : wbh.Filled (front ++ wbi :: next :: rest)) (hin : InBuffer (wbi :: next :: rest))
    (h0 : 0 ≤ offs) (hle : offs ≤ last) (hlast : last < MBUFSIZE) :
    ∃ wbh', wbh.wBufDoMelt front.length offs last = .ok wbh' ∧
      wbh'.Filled (front ++ wBufDoMelt wbi (next :: rest) offs last) := by
  obtain ⟨hnum, tail, htab⟩ := h
  have htab' : wbh.wbhInfo.toList = front ++ (wbi :: next :: rest ++ tail) := by
    rw [htab, List.append_assoc]
  obtain ⟨found, w, kept, hplace, hw, hn, heq⟩ := @meltPlace_spec _ last _ _ _ _ _ htab'
  generalize hmelt : meltEnd wbi (next :: rest) last = melt at heq
  obtain ⟨nwbi, behind⟩ := melt
  simp only at heq
  have hnumInfo : wbh.wbhNumInfo = front.length + (kept.length + (behind.length + 1)) := by
    rw [hnum, heq]
    simp
  have hmem : nwbi ∈ wbi :: next :: rest := by
    rw [heq]
    simp
  have hnread : wbh.wbhInfo.read (front.length + kept.length) = .ok nwbi := by
    have hkept : wbh.wbhInfo.toList = (front ++ kept) ++ nwbi :: (behind ++ tail) := by
      rw [htab', heq]
      simp
    rw [← List.length_append]
    exact Cells.read_append hkept
  have hiread : wbh.wbhInfo.read front.length = .ok wbi := Cells.read_append htab'
  have hleft : wbh.wbhNumInfo - 1 - (front.length + 1) = rest.length := by
    rw [hnum]
    simp
    omega
  obtain ⟨a, hwrite, ha⟩ := Cells.write_append htab' (min wbi.wbiFrom offs) (max last nwbi.wbiTo)
  have hwi := hin wbi (by simp)
  have hwn := hin nwbi hmem
  rw [word_eq (by omega) (by omega), word_eq (by omega) (by omega)] at ha
  have hmove : ∃ a', (if front.length + kept.length + 1 < wbh.wbhNumInfo then
        a.memmove (front.length + 1) (front.length + kept.length + 1)
          (wbh.wbhNumInfo - (front.length + kept.length) - 1)
      else .ok a) = .ok a' ∧ ∃ tail', a'.toList = front ++
        ⟨min wbi.wbiFrom offs, max last nwbi.wbiTo⟩ :: (behind ++ tail') := by
    obtain ⟨gone, hgone, hkept⟩ : ∃ gone, next :: rest = gone ++ behind ∧
        gone.length = kept.length := by
      cases kept with
      | nil => exact ⟨[], by simpa using (List.cons.inj heq).2, rfl⟩
      | cons k kept =>
          exact ⟨kept ++ [nwbi], by simpa using (List.cons.inj heq).2, by simp⟩
    have ha' : a.toList = (front ++ [⟨min wbi.wbiFrom offs, max last nwbi.wbiTo⟩]) ++
        (gone ++ (behind ++ tail)) := by
      rw [ha, ← List.append_assoc gone, ← hgone]
      simp
    by_cases hbehind : behind = []
    · subst hbehind
      refine ⟨a, if_neg ?_, gone ++ tail, ?_⟩
      · rw [hnumInfo, List.length_nil]
        omega
      · rw [ha']
        simp
    · have hpos : 0 < behind.length := List.length_pos_iff.mpr hbehind
      obtain ⟨a', tail', hmove, hlist⟩ := Cells.memmove_down ha'
      have hfront : (front ++ [(⟨min wbi.wbiFrom offs, max last nwbi.wbiTo⟩ : WBufHdrInfo)]).length
          = front.length + 1 := by simp
      have hsrc : front.length + kept.length + 1 = front.length + 1 + gone.length := by omega
      have hcount : wbh.wbhNumInfo - (front.length + kept.length) - 1 = behind.length := by omega
      refine ⟨a', ?_, tail', by rw [hlist]; simp⟩
      rw [if_pos (by omega), hcount, hsrc, ← hfront]
      exact hmove
  obtain ⟨a', hmove, tail', ha'⟩ := hmove
  refine ⟨⟨wbh.wbhNumInfo - (front.length + kept.length - front.length), a'⟩, ?_, ?_, tail', ?_⟩
  · unfold InfoTable.wBufDoMelt
    simp only [hleft, hplace, hw, hn, hnread, hiread, hwrite, hmove, bind, Except.bind]
  · simp only [hnumInfo, wBufDoMelt, hmelt, List.length_append, List.length_cons]
    omega
  · simp only [ha', wBufDoMelt, hmelt, List.append_assoc, List.cons_append]

theorem wBufUpdateInfo_of_far {wbi : WBufHdrInfo} {offs last : Int}
    (hoffs : offs ≤ wbi.wbiTo + 1) (hfar : last + 1 < wbi.wbiFrom) (rest : List WBufHdrInfo) :
    wBufUpdateInfo (wbi :: rest) offs last = ⟨offs, last⟩ :: wbi :: rest := by
  unfold wBufUpdateInfo
  rw [if_pos hoffs, if_pos hfar]

/-- The entry behind touches the bytes written. -/
def ReachesNext (rest : List WBufHdrInfo) (last : Int) : Bool :=
  rest.head?.any fun next => next.wbiFrom ≤ last + 1

theorem wBufUpdateInfo_of_reach {wbi : WBufHdrInfo} {offs last : Int}
    (hoffs : offs ≤ wbi.wbiTo + 1) (hfar : ¬ last + 1 < wbi.wbiFrom)
    (rest : List WBufHdrInfo) :
    wBufUpdateInfo (wbi :: rest) offs last = if ReachesNext rest last then
        wBufDoMelt wbi rest offs last
      else ⟨min wbi.wbiFrom offs, max wbi.wbiTo last⟩ :: rest := by
  unfold wBufUpdateInfo
  rw [if_pos hoffs, if_neg hfar]
  cases rest with
  | nil => rfl
  | cons next rest => simp [ReachesNext]

theorem reachesNext_spec {a : Cells} {num : Nat} {last : Int}
    {front rest tail : List WBufHdrInfo} {wbi : WBufHdrInfo}
    (h : a.toList = front ++ wbi :: (rest ++ tail))
    (hnum : num = front.length + (rest.length + 1)) :
    a.reachesNext num front.length last = .ok (ReachesNext rest last) := by
  cases rest with
  | nil => exact if_neg (by simp [hnum])
  | cons next rest =>
      have hread : a.read (front.length + 1) = .ok next := by
        have hnext : a.toList = (front ++ [wbi]) ++ next :: (rest ++ tail) := h.trans (by simp)
        have hlen : (front ++ [wbi]).length = front.length + 1 := by simp
        rw [← hlen]
        exact Cells.read_append hnext
      rw [Cells.reachesNext, if_pos (by simp [hnum]), hread]
      rfl

/-- On a table with room for one more entry the update does not leave the table and
computes the list function. -/
theorem filled_wBufUpdateInfo {wbh : InfoTable} {l : List WBufHdrInfo} {offs len : Int}
    (h : wbh.Filled l) (hroom : l.length < WBUFHDRINFOSIZE) (hin : InBuffer l)
    (h0 : 0 ≤ offs) (hlen : 0 < len) (hend : offs + len ≤ MBUFSIZE) :
    ∃ wbh', wbh.wBufUpdateInfo offs len = .ok wbh' ∧
      wbh'.Filled (wBufUpdateInfo l offs (offs + len - 1)) := by
  obtain ⟨hnum, tail, htab⟩ := h
  have hwords : word offs = offs ∧ word (offs + len - 1) = offs + len - 1 :=
    ⟨word_eq h0 (by omega), word_eq (by omega) (by omega)⟩
  obtain ⟨spare, tail, rfl⟩ : ∃ spare tail', tail = spare :: tail' := by
    have hl := congrArg List.length htab
    simp only [Vector.length_toList, List.length_append] at hl
    cases tail with
    | nil => simp at hl; omega
    | cons spare tail => exact ⟨spare, tail, rfl⟩
  by_cases hnil : l = []
  · subst hnil
    have hfirst : wbh.wbhInfo.toList = [] ++ spare :: tail := htab
    obtain ⟨a, hwrite, ha⟩ := Cells.write_append hfirst offs (offs + len - 1)
    refine ⟨⟨1, a⟩, ?_, rfl, tail, ?_⟩
    · rw [List.length_nil] at hnum hwrite
      simp only [InfoTable.wBufUpdateInfo, hnum, if_pos, hwrite, bind, Except.bind]
    · rw [ha, hwords.1, hwords.2]
      rfl
  · have hall : wbh.wbhInfo.toList = [] ++ (l ++ spare :: tail) := htab
    obtain ⟨skipped, behind, hl, hplace, hlist, hhead⟩ := @insertPlace_spec _ offs _ _ _ hall
    simp only [List.length_nil, Nat.zero_add, ← hnum] at hplace
    have hnum0 : wbh.wbhNumInfo ≠ 0 := by
      rw [hnum]
      exact fun h0 => hnil (List.length_eq_zero_iff.mp h0)
    rw [hlist]
    rw [hl, List.length_append] at hnum
    cases behind with
    | nil =>
        have hspare : wbh.wbhInfo.toList = skipped ++ spare :: tail := by rw [htab, hl]; simp
        obtain ⟨a, hwrite, ha⟩ := Cells.write_append hspare offs (offs + len - 1)
        refine ⟨⟨wbh.wbhNumInfo + 1, a⟩, ?_, ?_, tail, ?_⟩
        · have hi : ¬ skipped.length < wbh.wbhNumInfo := by simp [hnum]
          simp only [InfoTable.wBufUpdateInfo, if_neg hnum0, hplace, if_neg hi, hwrite, bind,
            Except.bind]
        · simp [hnum, wBufUpdateInfo]
        · rw [ha, hwords.1, hwords.2]
          simp [wBufUpdateInfo]
    | cons wbi rest =>
        have htab' : wbh.wbhInfo.toList = skipped ++ wbi :: (rest ++ spare :: tail) := by
          rw [htab, hl]
          simp
        have hi : skipped.length < wbh.wbhNumInfo := by
          rw [hnum, List.length_cons]
          omega
        have hread : wbh.wbhInfo.read skipped.length = .ok wbi := Cells.read_append htab'
        have hoffs : offs ≤ wbi.wbiTo + 1 := hhead wbi rfl
        have hwbi := hin wbi (by simp [hl])
        by_cases hfar : offs + len - 1 + 1 < wbi.wbiFrom
        · have hmoved : wbh.wbhInfo.toList = skipped ++ (wbi :: rest ++ spare :: tail) := htab'
          obtain ⟨a, room, hmove, ha⟩ := Cells.memmove_up hmoved
          obtain ⟨a', hwrite, ha'⟩ := Cells.write_append ha offs (offs + len - 1)
          have hcount : wbh.wbhNumInfo - skipped.length = (wbi :: rest).length := by omega
          have hres := wBufUpdateInfo_of_far hoffs hfar rest
          refine ⟨⟨wbh.wbhNumInfo + 1, a'⟩, ?_, ?_, tail, ?_⟩
          · simp only [InfoTable.wBufUpdateInfo, if_neg hnum0, hplace, if_pos hi, hread,
              if_pos hfar, hcount, hmove, hwrite, bind, Except.bind]
          · rw [hres, hnum]
            simp
            omega
          · rw [ha', hwords.1, hwords.2, hres]
            simp
        · have hres := wBufUpdateInfo_of_reach hoffs hfar rest
          have hreach : wbh.wbhInfo.reachesNext wbh.wbhNumInfo skipped.length (offs + len - 1) =
              .ok (ReachesNext rest (offs + len - 1)) :=
            reachesNext_spec htab' (by rw [hnum, List.length_cons])
          cases hmelt : ReachesNext rest (offs + len - 1) with
          | true =>
              obtain ⟨next, rest, rfl⟩ : ∃ next rest', rest = next :: rest' := by
                cases rest with
                | nil => simp [ReachesNext] at hmelt
                | cons next rest => exact ⟨next, rest, rfl⟩
              rw [hmelt] at hres hreach
              have hfilled : wbh.Filled (skipped ++ wbi :: next :: rest) :=
                ⟨by rw [hnum, List.length_append], spare :: tail, by rw [htab']; simp⟩
              have hbehind : InBuffer (wbi :: next :: rest) := fun w hm =>
                hin w (by rw [hl]; exact List.mem_append_right _ hm)
              have hle : offs ≤ offs + len - 1 := by omega
              obtain ⟨wbh', hdo, hfill⟩ := filled_wBufDoMelt hfilled hbehind h0 hle (by omega)
              refine ⟨wbh', ?_, hres ▸ hfill⟩
              simp only [InfoTable.wBufUpdateInfo, if_neg hnum0, hplace, if_pos hi, hread,
                if_neg hfar, hreach, if_true, hdo, bind, Except.bind]
          | false =>
              rw [hmelt] at hres hreach
              obtain ⟨a, hwrite, ha⟩ := Cells.write_append htab' (min wbi.wbiFrom offs)
                (max wbi.wbiTo (offs + len - 1))
              rw [word_eq (by omega) (by omega), word_eq (by omega) (by omega)] at ha
              refine ⟨⟨wbh.wbhNumInfo, a⟩, ?_, ?_, spare :: tail, ?_⟩
              · simp only [InfoTable.wBufUpdateInfo, if_neg hnum0, hplace, if_pos hi, hread,
                  if_neg hfar, hreach, Bool.false_eq_true, if_false, hwrite, bind, Except.bind]
              · rw [hres, hnum]
                simp
              · rw [ha, hres]
                simp

/-- `WBufUpdateInfo` on a normal table with room: nothing outside the table is touched, the
table is normal again and covers the old offsets and those of the bytes written. -/
theorem InfoTable.wBufUpdateInfo_union {wbh : InfoTable} {offs len : Int}
    (hroom : wbh.wbhNumInfo < WBUFHDRINFOSIZE) (hnormal : Normal 0 (MBUFSIZE - 1) wbh.info)
    (h0 : 0 ≤ offs) (hlen : 0 < len) (hend : offs + len ≤ MBUFSIZE) :
    ∃ wbh', wbh.wBufUpdateInfo offs len = .ok wbh' ∧ Normal 0 (MBUFSIZE - 1) wbh'.info ∧
      ∀ k, Covers wbh'.info k ↔ Covers wbh.info k ∨ (offs ≤ k ∧ k ≤ offs + len - 1) := by
  have hfill := InfoTable.filled_info (Nat.le_of_lt hroom)
  obtain ⟨wbh', hok, hfill'⟩ :=
    filled_wBufUpdateInfo hfill (hfill.1 ▸ hroom) hnormal.inBuffer h0 hlen hend
  refine ⟨wbh', hok, ?_⟩
  rw [hfill'.info_eq]
  exact wBufUpdateInfo_spec hnormal h0 (by omega) (by omega)

/-- A table with room for one entry only. -/
def exTable : InfoTable := ⟨58, Vector.ofFn fun i => ⟨140 * i.val, 140 * i.val + 1⟩⟩

theorem InfoTable.wBufUpdateInfo_union_exTable :
    ∃ wbh', exTable.wBufUpdateInfo 2 138 = .ok wbh' ∧ Normal 0 (MBUFSIZE - 1) wbh'.info ∧
      ∀ k, Covers wbh'.info k ↔ Covers exTable.info k ∨ (2 ≤ k ∧ k ≤ 2 + 138 - 1) :=
  InfoTable.wBufUpdateInfo_union (by decide) (by decide +kernel) (by decide) (by decide) (by decide)

end Anfs.Buf
