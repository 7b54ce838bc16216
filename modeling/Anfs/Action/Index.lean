import Anfs.Basic
import Anfs.Lib.Memory
import Mathlib.Data.List.Chain
import Mathlib.Data.List.Pairwise

/-!
# The index of the action table

`act_Init` compresses each run of consecutive action numbers to one entry of `ATIndex`, and
`act_Lookup` finds the row of a number from the entry of its run. Each access to the index
and to the table is checked; `none` stands for one that lies outside.
-/
namespace Anfs.Action
open Lib

/-- A row of `ActionTable`; `F` stands for the function pointers. -/
structure ATEntry (F : Type) where
  ateAction : Int
  ateFunc : F
  ateBPArgs : UInt32
  long : IsLong ateAction := by decide
  deriving DecidableEq

structure ATIEntry where
  atiLow : Int
  atiHigh : Int
  atiIndex : Int
  deriving DecidableEq

/-- Room of `ATIndex`. -/
def iSize (debug : Bool) : Nat := if debug then 14 else 13

/-- The static variables of `actions.c`; the last two are pointers into the table. -/
structure Dispatch (F : Type) (n : Nat) where
  actionTable : List (ATEntry F)
  atIndex : Vector ATIEntry n
  atEntryRead : Option (ATEntry F)
  atEntryWrite : Option (ATEntry F)

variable {F : Type} {n : Nat}

/-- An assignment to fields of `ATIndex[i]`. -/
def assign (ati : Vector ATIEntry n) (i : Int) (f : ATIEntry → ATIEntry) :
    Option (Vector ATIEntry n) :=
  if h : 0 ≤ i ∧ i < n then
    some (ati.set i.toNat (f (ati.get ⟨i.toNat, by omega⟩)) (by omega))
  else none

/-- `ActionTable[i]`. -/
def rowAt (table : List (ATEntry F)) (i : Int) : Option (ATEntry F) :=
  if 0 ≤ i then table[i.toNat]? else none

/-- The loop of `act_Lookup` over the entries from `i` on. It ends with `ATIndex[i - 1]`,
which is `prev`, or without an entry: the number is too small or behind the end marker. -/
def lookupLoop (action : Int) : Option ATIEntry → List ATIEntry → Option (Option ATIEntry)
  | _, [] => none
  | prev, ati :: rest =>
    if ati.atiLow ≤ action then
      if ati.atiIndex ≠ -1 then lookupLoop action (some ati) rest else some none
    else some prev

/-- `act_Lookup`: a row of the table or a null pointer. -/
def actLookup (d : Dispatch F n) (action : Int) : Option (Option (ATEntry F)) := do
  match ← lookupLoop action none d.atIndex.toList with
  | none => some none
  | some ati =>
      if ati.atiHigh < action then some none
      else (rowAt d.actionTable (ati.atiIndex + (action - ati.atiLow))).map some

/-- The variables of `act_Init`. -/
structure InitState (n : Nat) where
  atIndex : Vector ATIEntry n
  act : Int
  iIndex : Int
  retVal : Bool

/-- The row `index` with the number `new` begins a block. -/
def InitState.newBlock (s : InitState n) (new index : Int) : Option (InitState n) := do
  let ati ← assign s.atIndex (s.iIndex - 1) fun e => { e with atiHigh := s.act }
  let ati ← assign ati s.iIndex fun e => { e with atiLow := new, atiIndex := index }
  some { s with atIndex := ati, act := new, iIndex := s.iIndex + 1 }

/-- The loop of `act_Init` over the numbers of the rows from `index` on; one entry is kept for the
end marker. -/
def initLoop : List Int → Int → InitState n → Option (InitState n)
  | [], _, s => some s
  | new :: rest, index, s =>
    if new ≤ s.act then some { s with retVal := false }
    else if new = s.act + 1 then initLoop rest (index + 1) { s with act := s.act + 1 }
    else do
      let s ← s.newBlock new index
      if (n : Int) - 1 ≤ s.iIndex then some { s with iIndex := 0, retVal := false }
      else initLoop rest (index + 1) s

/-- `act_Init` behind its loop; `last` is the number of the last row. -/
def InitState.finish (s : InitState n) (last : Int) : Option (InitState n) := do
  let ati ← assign s.atIndex (s.iIndex - 1) fun e => { e with atiHigh := s.act }
  let ati ← assign ati s.iIndex fun e => { e with atiLow := long (last + 1), atiIndex := -1 }
  some { s with atIndex := ati }

/-- `act_Init`. -/
def actInit (d : Dispatch F n) : Option (Bool × Dispatch F n) :=
  match d.actionTable with
  | [] => none
  | row :: rest => do
      let act := row.ateAction
      let ati ← assign d.atIndex 0 fun e => { e with atiLow := act, atiIndex := 0 }
      let s ← initLoop (rest.map (·.ateAction)) 1 ⟨ati, act, 1, true⟩
      let s ← s.finish ((row :: rest).getLast (List.cons_ne_nil _ _)).ateAction
      let d := { d with atIndex := s.atIndex }
      if s.retVal then do
        let atEntryRead ← actLookup d 'R'.toNat
        let atEntryWrite ← actLookup d 'W'.toNat
        some (true, { d with atEntryRead, atEntryWrite })
      else some (false, d)

/-- The numbers up to the first one that is not above the one before it. -/
def ascending : List Int → List Int
  | a :: b :: rest => if b ≤ a then [a] else a :: ascending (b :: rest)
  | l => l

/-- The number of runs of consecutive numbers. -/
def blocks : List Int → Nat
  | a :: b :: rest => (if b = a + 1 then 0 else 1) + blocks (b :: rest)
  | [_] => 1
  | [] => 0

/-- The entries `es` cover exactly the numbers `acts`, each at its place. -/
structure Indexes (es : List ATIEntry) (acts : List Int) : Prop where
  sound : ∀ e ∈ es, 0 ≤ e.atiIndex ∧ ∀ a, e.atiLow ≤ a → a ≤ e.atiHigh →
    acts[(e.atiIndex + (a - e.atiLow)).toNat]? = some a
  complete : ∀ a ∈ acts, ∃ e ∈ es, e.atiLow ≤ a ∧ a ≤ e.atiHigh
  ordered : es.Pairwise fun e e' => e.atiHigh < e'.atiLow
  nonempty : ∀ e ∈ es, e.atiLow ≤ e.atiHigh

theorem ascending_cons (a : Int) (rest : List Int) : ∃ t, ascending (a :: rest) = a :: t := by
  cases rest with
  | nil => exact ⟨[], rfl⟩
  | cons b rest =>
      unfold ascending
      split
      · exact ⟨[], rfl⟩
      · exact ⟨_, rfl⟩

theorem blocks_ascending {a b : Int} (h : a < b) (rest : List Int) :
    blocks (ascending (a :: b :: rest)) =
      (if b = a + 1 then 0 else 1) + blocks (ascending (b :: rest)) := by
  obtain ⟨t, ht⟩ := ascending_cons b rest
  rw [ascending, if_neg (by omega), ht, blocks]

theorem blocks_ascending_pos (a : Int) (rest : List Int) :
    0 < blocks (ascending (a :: rest)) := by
  induction rest generalizing a with
  | nil => exact Nat.one_pos
  | cons b rest ih =>
      unfold ascending
      split
      · exact Nat.one_pos
      · obtain ⟨t, ht⟩ := ascending_cons b rest
        have := ih b
        rw [ht] at this ⊢
        rw [blocks]
        omega

theorem ascending_eq_self {l : List Int} (h : l.IsChain (· < ·)) : ascending l = l := by
  induction l with
  | nil => rfl
  | cons a l ih =>
      cases l with
      | nil => rfl
      | cons b l =>
          rw [List.isChain_cons_cons] at h
          rw [ascending, if_neg (by omega), ih h.2]

/-- The last block grows by its next number. -/
theorem Indexes.grow {es : List ATIEntry} {e : ATIEntry} {acts : List Int}
    (h : Indexes (es ++ [e]) acts) (hlen : e.atiIndex + (e.atiHigh - e.atiLow) + 1 = acts.length) :
    Indexes (es ++ [{ e with atiHigh := e.atiHigh + 1 }]) (acts ++ [e.atiHigh + 1]) := by
  have hlow := h.nonempty e (by simp)
  have hidx := (h.sound e (by simp)).1
  refine ⟨fun e' he => ?_, fun a ha => ?_, ?_, fun e' he => ?_⟩
  · rcases List.mem_append.mp he with he | he
    · obtain ⟨h0, hget⟩ := h.sound e' (List.mem_append_left _ he)
      refine ⟨h0, fun a hl hh => ?_⟩
      have := hget a hl hh
      rw [List.getElem?_append_left (List.getElem?_eq_some_iff.mp this).1]
      exact this
    · rw [List.mem_singleton] at he
      subst he
      refine ⟨hidx, fun a hl hh => ?_⟩
      simp only at hl hh ⊢
      by_cases ha : a ≤ e.atiHigh
      · have := (h.sound e (by simp)).2 a hl ha
        rw [List.getElem?_append_left (List.getElem?_eq_some_iff.mp this).1]
        exact this
      · have hat : (e.atiIndex + (a - e.atiLow)).toNat = acts.length := by omega
        rw [hat, List.getElem?_append_right (Nat.le_refl _), Nat.sub_self]
        exact congrArg some (by omega)
  · rcases List.mem_append.mp ha with ha | ha
    · obtain ⟨e', he, hl, hh⟩ := h.complete a ha
      rcases List.mem_append.mp he with he | he
      · exact ⟨e', List.mem_append_left _ he, hl, hh⟩
      · rw [List.mem_singleton] at he
        subst he
        exact ⟨_, List.mem_append_right _ (List.mem_singleton_self _), hl, by simp only; omega⟩
    · rw [List.mem_singleton] at ha
      subst ha
      exact ⟨_, List.mem_append_right _ (List.mem_singleton_self _), by simp only; omega,
        Int.le_refl _⟩
  · have hord := List.pairwise_append.mp h.ordered
    refine List.pairwise_append.mpr ⟨hord.1, List.pairwise_singleton _ _, fun x hx y hy => ?_⟩
    rw [List.mem_singleton] at hy
    subst hy
    exact hord.2.2 x hx e (List.mem_singleton_self _)
  · rcases List.mem_append.mp he with he | he
    · exact h.nonempty e' (List.mem_append_left _ he)
    · rw [List.mem_singleton] at he
      subst he
      simp only
      omega

/-- A number behind all blocks makes a block of its own. -/
theorem Indexes.concat {es : List ATIEntry} {acts : List Int} {new : Int}
    (h : Indexes es acts) (hlast : ∀ e ∈ es, e.atiHigh < new) :
    Indexes (es ++ [⟨new, new, acts.length⟩]) (acts ++ [new]) := by
  refine ⟨fun e' he => ?_, fun a ha => ?_, ?_, fun e' he => ?_⟩
  · rcases List.mem_append.mp he with he | he
    · obtain ⟨h0, hget⟩ := h.sound e' he
      refine ⟨h0, fun a hl hh => ?_⟩
      have := hget a hl hh
      rw [List.getElem?_append_left (List.getElem?_eq_some_iff.mp this).1]
      exact this
    · rw [List.mem_singleton] at he
      subst he
      refine ⟨Int.natCast_nonneg _, fun a hl hh => ?_⟩
      simp only at hl hh ⊢
      have ha : a = new := by omega
      subst ha
      simp
  · rcases List.mem_append.mp ha with ha | ha
    · obtain ⟨e', he, hl, hh⟩ := h.complete a ha
      exact ⟨e', List.mem_append_left _ he, hl, hh⟩
    · rw [List.mem_singleton] at ha
      subst ha
      exact ⟨_, List.mem_append_right _ (List.mem_singleton_self _), Int.le_refl _, Int.le_refl _⟩
  · refine List.pairwise_append.mpr ⟨h.ordered, List.pairwise_singleton _ _, fun x hx y hy => ?_⟩
    rw [List.mem_singleton] at hy
    subst hy
    exact hlast x hx
  · rcases List.mem_append.mp he with he | he
    · exact h.nonempty e' he
    · rw [List.mem_singleton] at he
      subst he
      exact Int.le_refl _

/-- The linear search. -/
def Dispatch.find (d : Dispatch F n) (action : Int) : Option (ATEntry F) :=
  d.actionTable.find? fun row => row.ateAction = action

theorem lookupLoop_cons_of_le {action : Int} {e : ATIEntry} (hlow : e.atiLow ≤ action)
    (hidx : 0 ≤ e.atiIndex) (prev : Option ATIEntry) (rest : List ATIEntry) :
    lookupLoop action prev (e :: rest) = lookupLoop action (some e) rest := by
  rw [lookupLoop, if_pos hlow, if_pos (by omega)]

/-- The end marker stops the loop. -/
theorem lookupLoop_total {action : Int} {stop : ATIEntry} (hstop : stop.atiIndex = -1)
    (es tail : List ATIEntry) (prev : Option ATIEntry) :
    ∃ r, lookupLoop action prev (es ++ stop :: tail) = some r ∧
      ∀ e, r = some e → some e = prev ∨ e ∈ es ∧ e.atiLow ≤ action := by
  induction es generalizing prev with
  | nil =>
      rw [List.nil_append, lookupLoop]
      by_cases hlow : stop.atiLow ≤ action
      · rw [if_pos hlow, if_neg (by simp [hstop])]
        exact ⟨none, rfl, fun e he => by cases he⟩
      · rw [if_neg hlow]
        exact ⟨prev, rfl, fun e he => .inl he.symm⟩
  | cons f es ih =>
      rw [List.cons_append, lookupLoop]
      by_cases hlow : f.atiLow ≤ action
      · rw [if_pos hlow]
        by_cases hidx : f.atiIndex ≠ -1
        · rw [if_pos hidx]
          obtain ⟨r, hr, hcases⟩ := ih (some f)
          refine ⟨r, hr, fun e he => .inr ?_⟩
          rcases hcases e he with h | h
          · rw [Option.some.inj h]
            exact ⟨List.mem_cons_self, hlow⟩
          · exact ⟨List.mem_cons_of_mem f h.1, h.2⟩
        · rw [if_neg hidx]
          exact ⟨none, rfl, fun e he => by cases he⟩
      · rw [if_neg hlow]
        exact ⟨prev, rfl, fun e he => .inl he.symm⟩

/-- A number of the block `e` stops the loop behind `e`. -/
theorem lookupLoop_hit {action : Int} {front back : List ATIEntry} {e next : ATIEntry}
    (hidx : ∀ f ∈ front ++ [e], 0 ≤ f.atiIndex) (hlow : ∀ f ∈ front ++ [e], f.atiLow ≤ action)
    (hnext : action < next.atiLow) (prev : Option ATIEntry) :
    lookupLoop action prev (front ++ e :: next :: back) = some (some e) := by
  induction front generalizing prev with
  | nil =>
      rw [List.nil_append, lookupLoop_cons_of_le (hlow e (by simp)) (hidx e (by simp)), lookupLoop,
        if_neg (by omega)]
  | cons f front ih =>
      rw [List.cons_append, lookupLoop_cons_of_le (hlow f (by simp)) (hidx f (by simp))]
      exact ih (fun g hg => hidx g (List.mem_cons_of_mem f hg))
        (fun g hg => hlow g (List.mem_cons_of_mem f hg)) (some f)

/-- The index holds the blocks of the table and the end marker behind them. -/
structure Complete (d : Dispatch F n) (es : List ATIEntry) (stop : ATIEntry) : Prop where
  index : ∃ tail, d.atIndex.toList = es ++ stop :: tail
  indexes : Indexes es (d.actionTable.map (·.ateAction))
  marker : stop.atiIndex = -1
  above : ∀ e ∈ es, e.atiHigh < stop.atiLow

theorem Complete.lookup_hit {d : Dispatch F n} {es : List ATIEntry} {stop e : ATIEntry}
    (h : Complete d es stop) (he : e ∈ es) {action : Int} (hlow : e.atiLow ≤ action)
    (hhigh : action ≤ e.atiHigh) :
    lookupLoop action none d.atIndex.toList = some (some e) := by
  obtain ⟨tail, htab⟩ := h.index
  obtain ⟨front, back, rfl⟩ := List.append_of_mem he
  have hord := List.pairwise_append.mp h.indexes.ordered
  have hback := (List.pairwise_cons.mp hord.2.1).1
  have hfront : ∀ f ∈ front ++ [e], 0 ≤ f.atiIndex ∧ f.atiLow ≤ action := by
    intro f hf
    rcases List.mem_append.mp hf with hf | hf
    · have hlt := hord.2.2 f hf e List.mem_cons_self
      have hne := h.indexes.nonempty f (List.mem_append_left _ hf)
      exact ⟨(h.indexes.sound f (List.mem_append_left _ hf)).1, by omega⟩
    · rw [List.mem_singleton] at hf
      subst hf
      exact ⟨(h.indexes.sound f he).1, hlow⟩
  rw [htab, List.append_assoc, List.cons_append]
  cases back with
  | nil =>
      have := h.above e he
      exact lookupLoop_hit (fun f hf => (hfront f hf).1) (fun f hf => (hfront f hf).2) (by omega) _
  | cons next back =>
      have := hback next List.mem_cons_self
      exact lookupLoop_hit (fun f hf => (hfront f hf).1) (fun f hf => (hfront f hf).2) (by omega) _

/-- With the index complete, the lookup is a linear search of the table. -/
theorem Complete.actLookup_eq {d : Dispatch F n} {es : List ATIEntry} {stop : ATIEntry}
    (h : Complete d es stop) (hasc : (d.actionTable.map (·.ateAction)).Pairwise (· < ·))
    (action : Int) : actLookup d action = some (d.find action) := by
  unfold Dispatch.find
  by_cases hin : action ∈ d.actionTable.map (·.ateAction)
  · obtain ⟨e, he, hlow, hhigh⟩ := h.indexes.complete action hin
    obtain ⟨h0, hget⟩ := h.indexes.sound e he
    have hget := hget action hlow hhigh
    rw [List.getElem?_map, Option.map_eq_some_iff] at hget
    obtain ⟨row, hrow, hact⟩ := hget
    have hfind : d.actionTable.find? (fun row => row.ateAction = action) = some row := by
      obtain ⟨hlt, hat⟩ := List.getElem?_eq_some_iff.mp hrow
      rw [List.find?_eq_some_iff_getElem]
      refine ⟨by simpa using hact, _, hlt, hat, fun j hj => ?_⟩
      have := List.pairwise_iff_getElem.mp hasc j _ (by simp; omega) (by simpa using hlt) hj
      simp only [List.getElem_map, hat, hact] at this
      simp
      omega
    unfold actLookup
    rw [h.lookup_hit he hlow hhigh]
    simp only [Option.bind_eq_bind, Option.bind_some, if_neg (Int.not_lt.mpr hhigh), hfind]
    rw [rowAt, if_pos (by omega), hrow]
    rfl
  · have hfind : d.actionTable.find? (fun row => row.ateAction = action) = none := by
      rw [List.find?_eq_none]
      intro row hrow hact
      exact hin (List.mem_map.mpr ⟨row, hrow, by simpa using hact⟩)
    obtain ⟨tail, htab⟩ := h.index
    obtain ⟨r, hr, hcases⟩ := @lookupLoop_total action _ h.marker es tail none
    unfold actLookup
    rw [htab, hr, hfind, Option.bind_eq_bind, Option.bind_some]
    cases r with
    | none => rfl
    | some e =>
        rcases hcases e rfl with h' | ⟨he, hlow⟩
        · cases h'
        · have hhigh : e.atiHigh < action := by
            by_contra hle
            have := (h.indexes.sound e he).2 action hlow (by omega)
            exact hin (List.mem_of_getElem? this)
          exact if_pos hhigh

theorem assign_append {ati : Vector ATIEntry n} {front tail : List ATIEntry} {e : ATIEntry}
    (h : ati.toList = front ++ e :: tail) (f : ATIEntry → ATIEntry) :
    ∃ ati', assign ati front.length f = some ati' ∧ ati'.toList = front ++ f e :: tail := by
  have hlt := length_lt_of_toList h
  have hi : (0 : Int) ≤ front.length ∧ (front.length : Int) < n := by omega
  refine ⟨_, dif_pos hi, ?_⟩
  simp only [Int.toNat_natCast, get_of_toList h hlt]
  exact toList_set_of_toList h _ hlt

/-- The rows with the numbers `acts` are entered: the blocks `done` and the block `cur`, whose
end is not stored yet. -/
structure Entered (acts : List Int) (s : InitState n) (done : List ATIEntry) (cur : ATIEntry)
    (tail : List ATIEntry) : Prop where
  index : s.atIndex.toList = done ++ cur :: tail
  count : s.iIndex = done.length + 1
  indexes : Indexes (done ++ [{ cur with atiHigh := s.act }]) acts
  ends : cur.atiIndex + (s.act - cur.atiLow) + 1 = acts.length
  ok : s.retVal = true

theorem Entered.room {acts : List Int} {s : InitState n} {done tail : List ATIEntry}
    {cur : ATIEntry} (h : Entered acts s done cur tail) : done.length + 1 + tail.length = n := by
  have hlen := congrArg List.length h.index
  simp only [Vector.length_toList, List.length_append, List.length_cons] at hlen
  omega

/-- The next number belongs to the block. -/
theorem Entered.grow {acts : List Int} {s : InitState n} {done tail : List ATIEntry}
    {cur : ATIEntry} (h : Entered acts s done cur tail) :
    Entered (acts ++ [s.act + 1]) { s with act := s.act + 1 } done cur tail := by
  refine ⟨h.index, h.count, h.indexes.grow h.ends, ?_, h.ok⟩
  have := h.ends
  simp only [List.length_append, List.length_singleton]
  omega

/-- The next number begins a block. -/
theorem Entered.newBlock {acts : List Int} {s : InitState n} {done tail : List ATIEntry}
    {cur next : ATIEntry} (h : Entered acts s done cur (next :: tail)) {new : Int}
    (hnew : s.act < new) :
    ∃ s', s.newBlock new acts.length = some s' ∧ s'.act = new ∧ s'.iIndex = s.iIndex + 1 ∧
      ∃ cur', Entered (acts ++ [new]) s' (done ++ [{ cur with atiHigh := s.act }]) cur' tail := by
  obtain ⟨ati, hhigh, hati⟩ := assign_append h.index fun e => { e with atiHigh := s.act }
  have hnext : ati.toList = (done ++ [{ cur with atiHigh := s.act }]) ++ next :: tail := by
    rw [hati, List.append_assoc, List.singleton_append]
  obtain ⟨ati', hlow, hati'⟩ := assign_append hnext fun e =>
    { e with atiLow := new, atiIndex := acts.length }
  have hcount : ((done.length + 1 : Nat) : Int) = s.iIndex := by
    have := h.count
    omega
  rw [List.length_append, List.length_singleton, hcount] at hlow
  refine ⟨{ s with atIndex := ati', act := new, iIndex := s.iIndex + 1 }, ?_, rfl, rfl,
    { next with atiLow := new, atiIndex := acts.length }, hati', ?_, ?_, ?_, h.ok⟩
  · have hprev : s.iIndex - 1 = done.length := by
      have := h.count
      omega
    simp only [InitState.newBlock, hprev, hhigh, hlow, Option.bind_eq_bind, Option.bind_some]
  · rw [List.length_append, List.length_singleton, hcount]
  · refine @Indexes.concat _ _ new h.indexes fun e he => ?_
    rcases List.mem_append.mp he with he | he
    · have hord := (List.pairwise_append.mp h.indexes.ordered).2.2 e he _
        (List.mem_singleton_self _)
      have hne := h.indexes.nonempty _ (List.mem_append_right done (List.mem_singleton_self _))
      simp only at hord hne
      omega
    · rw [List.mem_singleton] at he
      subst he
      exact hnew
  · simp only [List.length_append, List.length_singleton]
    omega

/-- How the loop of `act_Init` ends, with the number `act` entered last, `used` blocks in
front of the one of `act` and the numbers `rest` to come. -/
inductive LoopEnds (n : Nat) (acts : List Int) (act : Int) (used : Nat) (rest : List Int)
    (s : InitState n) : Prop
  | done (front : List ATIEntry) (cur : ATIEntry) (tail : List ATIEntry)
      (hfits : used + blocks (ascending (act :: rest)) + 1 < n)
      (hchain : (act :: rest).IsChain (· < ·)) (hroom : tail ≠ [])
      (h : Entered (acts ++ rest) s front cur tail) (hact : s.act = (act :: rest).getLast (by simp))
  | notMonoton (hfits : used + blocks (ascending (act :: rest)) + 1 < n)
      (hchain : ¬ (act :: rest).IsChain (· < ·)) (hlow : 1 ≤ s.iIndex) (hhigh : s.iIndex < n)
      (hret : s.retVal = false)
  | exhausted (hfull : n ≤ used + blocks (ascending (act :: rest)) + 1) (hi : s.iIndex = 0)

theorem LoopEnds.cons {acts : List Int} {act new : Int} {used used' : Nat} {rest : List Int}
    {s : InitState n} (h : LoopEnds n (acts ++ [new]) new used' rest s) (hlt : act < new)
    (hused : used' = used + if new = act + 1 then 0 else 1) :
    LoopEnds n acts act used (new :: rest) s := by
  have hblocks := blocks_ascending hlt rest
  have hchain : (act :: new :: rest).IsChain (· < ·) ↔ (new :: rest).IsChain (· < ·) := by
    rw [List.isChain_cons_cons]
    exact and_iff_right hlt
  cases h with
  | done front cur tail hfits hc hroom h hact =>
      rw [List.append_assoc, List.singleton_append] at h
      exact .done front cur tail (by omega) (hchain.mpr hc) hroom h
        (hact.trans (List.getLast_cons _).symm)
  | notMonoton hfits hc hlow hhigh hret =>
      exact .notMonoton (by omega) (mt hchain.mp hc) hlow hhigh hret
  | exhausted hfull hi => exact .exhausted (by omega) hi

theorem initLoop_ends {acts : List Int} {s : InitState n} {done tail : List ATIEntry}
    {cur : ATIEntry} (h : Entered acts s done cur tail) (hroom : 2 ≤ tail.length)
    (rest : List Int) :
    ∃ s', initLoop rest acts.length s = some s' ∧ LoopEnds n acts s.act done.length rest s' := by
  induction rest generalizing acts s done cur tail with
  | nil =>
      have hn := h.room
      have hblocks : blocks (ascending [s.act]) = 1 := rfl
      refine ⟨s, rfl, .done done cur tail (by omega) (List.isChain_singleton _) ?_ ?_ rfl⟩
      · intro hnil
        simp [hnil] at hroom
      · rwa [List.append_nil]
  | cons new rest ih =>
      have hn := h.room
      by_cases hle : new ≤ s.act
      · refine ⟨{ s with retVal := false }, by rw [initLoop, if_pos hle],
          .notMonoton ?_ ?_ ?_ ?_ rfl⟩
        · have hblocks : blocks (ascending (s.act :: new :: rest)) = 1 := by
            rw [ascending, if_pos hle]
            rfl
          omega
        · rw [List.isChain_cons_cons]
          omega
        · simp only [h.count]
          omega
        · simp only [h.count]
          omega
      · have hlen : (acts.length : Int) + 1 = (acts ++ [new]).length := by
          rw [List.length_append, List.length_singleton]
          omega
        by_cases hnext : new = s.act + 1
        · have hgrow : Entered (acts ++ [new]) { s with act := s.act + 1 } done cur tail :=
            hnext ▸ h.grow
          obtain ⟨s', hloop, hends⟩ := ih hgrow hroom
          refine ⟨s', ?_, ?_⟩
          · rw [initLoop, if_neg hle, if_pos hnext, hlen]
            exact hloop
          · refine @LoopEnds.cons _ _ _ new _ _ _ _ ?_ (by omega)
              (by rw [if_pos hnext, Nat.add_zero])
            simpa only [hnext] using hends
        · obtain ⟨next, tail, rfl⟩ : ∃ next tail', tail = next :: tail' := by
            cases tail with
            | nil => simp at hroom
            | cons next tail => exact ⟨next, tail, rfl⟩
          obtain ⟨s₁, hblock, hact, hidx, cur', h₁⟩ := h.newBlock (Int.not_le.mp hle)
          have hroom₁ := h₁.room
          have hcount₁ := h₁.count
          simp only [List.length_append, List.length_singleton] at hroom₁ hcount₁
          have hstep : initLoop (new :: rest) acts.length s =
              if (n : Int) - 1 ≤ s₁.iIndex then some { s₁ with iIndex := 0, retVal := false }
              else initLoop rest (acts.length + 1) s₁ := by
            rw [initLoop, if_neg hle, if_neg hnext, hblock]
            rfl
          by_cases hfull : (n : Int) - 1 ≤ s₁.iIndex
          · refine ⟨{ s₁ with iIndex := 0, retVal := false }, by rw [hstep, if_pos hfull],
              .exhausted ?_ rfl⟩
            rw [blocks_ascending (by omega), if_neg hnext]
            have := blocks_ascending_pos new rest
            omega
          · obtain ⟨s', hloop, hends⟩ := ih h₁ (by omega)
            refine ⟨s', by rw [hstep, if_neg hfull, hlen, hloop], ?_⟩
            rw [hact] at hends
            exact hends.cons (by omega) (by rw [if_neg hnext]; simp)

/-- Before the loop the first row is entered. -/
theorem entered_first {ati : Vector ATIEntry n} {first : ATIEntry} {tail : List ATIEntry}
    (h : ati.toList = first :: tail) (act : Int) :
    ∃ ati', assign ati 0 (fun e => { e with atiLow := act, atiIndex := 0 }) = some ati' ∧
      ∃ cur, Entered [act] (⟨ati', act, 1, true⟩ : InitState n) [] cur tail := by
  have hfirst : ati.toList = [] ++ first :: tail := h
  obtain ⟨ati', hok, hati⟩ := assign_append hfirst fun e => { e with atiLow := act, atiIndex := 0 }
  refine ⟨ati', hok, _, hati, rfl, ?_, by simp, rfl⟩
  have hnone : Indexes [] [] :=
    ⟨fun e he => by simp at he, fun a ha => by simp at ha, .nil, fun e he => by simp at he⟩
  exact hnone.concat fun e he => by simp at he

/-- The stores behind the loop stay in the index when a block is open. -/
theorem InitState.finish_isSome {s : InitState n} (hlow : 1 ≤ s.iIndex) (hhigh : s.iIndex < n)
    (last : Int) : ∃ s', s.finish last = some s' ∧ s'.retVal = s.retVal := by
  unfold InitState.finish
  rw [assign, dif_pos (by omega), Option.bind_eq_bind, Option.bind_some, assign,
    dif_pos (by omega)]
  exact ⟨_, rfl, rfl⟩

/-- With no block open they do not. -/
theorem InitState.finish_eq_none {s : InitState n} (h : s.iIndex = 0) (last : Int) :
    s.finish last = none := by
  unfold InitState.finish
  rw [assign, dif_neg (by omega)]
  rfl

/-- An index that all rows entered is complete after the last stores. -/
theorem Entered.finish {acts : List Int} {s : InitState n} {done tail : List ATIEntry}
    {cur : ATIEntry} (h : Entered acts s done cur tail) (hroom : tail ≠ []) {last : Int}
    (hlast : s.act = last) (hend : IsLong (last + 1)) :
    ∃ s', s.finish last = some s' ∧ s'.retVal = true ∧
      ∃ es stop tail', s'.atIndex.toList = es ++ stop :: tail' ∧ Indexes es acts ∧
        stop.atiIndex = -1 ∧ ∀ e ∈ es, e.atiHigh < stop.atiLow := by
  obtain ⟨next, tail, rfl⟩ := List.exists_cons_of_ne_nil hroom
  obtain ⟨ati, hhigh, hati⟩ := assign_append h.index fun e => { e with atiHigh := s.act }
  have hnext : ati.toList = (done ++ [{ cur with atiHigh := s.act }]) ++ next :: tail := by
    rw [hati, List.append_assoc, List.singleton_append]
  obtain ⟨ati', hlow, hati'⟩ := assign_append hnext fun e =>
    { e with atiLow := long (last + 1), atiIndex := -1 }
  have hcount : ((done.length + 1 : Nat) : Int) = s.iIndex := by
    have := h.count
    omega
  rw [List.length_append, List.length_singleton, hcount] at hlow
  have hprev : s.iIndex - 1 = done.length := by
    have := h.count
    omega
  refine ⟨{ s with atIndex := ati' }, ?_, h.ok, _, _, tail, hati', h.indexes, rfl, ?_⟩
  · simp only [InitState.finish, hprev, hhigh, hlow, Option.bind_eq_bind, Option.bind_some]
  · intro e he
    simp only [long_of_isLong hend]
    rcases List.mem_append.mp he with he | he
    · have hord := (List.pairwise_append.mp h.indexes.ordered).2.2 e he _
        (List.mem_singleton_self _)
      have hne := h.indexes.nonempty _ (List.mem_append_right done (List.mem_singleton_self _))
      simp only at hord hne
      omega
    · rw [List.mem_singleton] at he
      subst he
      simp only
      omega

/-- The action numbers of the table. -/
def Dispatch.actions (d : Dispatch F n) : List Int := d.actionTable.map (·.ateAction)

/-- `act_Init` up to its last stores. -/
theorem actInit_loop (d : Dispatch F n) (hn : 3 ≤ n) {row : ATEntry F} {rest : List (ATEntry F)}
    (htable : d.actionTable = row :: rest) :
    ∃ s, LoopEnds n [row.ateAction] row.ateAction 0 (rest.map (·.ateAction)) s ∧
      actInit d = (s.finish ((row :: rest).getLast (List.cons_ne_nil _ _)).ateAction).bind fun s =>
        if s.retVal then do
          let atEntryRead ← actLookup { d with atIndex := s.atIndex } 'R'.toNat
          let atEntryWrite ← actLookup { d with atIndex := s.atIndex } 'W'.toNat
          some (true, { d with atIndex := s.atIndex, atEntryRead, atEntryWrite })
        else some (false, { d with atIndex := s.atIndex }) := by
  obtain ⟨first, tail, hindex⟩ : ∃ first tail, d.atIndex.toList = first :: tail :=
    List.exists_cons_of_length_pos (by simp; omega)
  obtain ⟨ati, hassign, cur, hfirst⟩ := entered_first hindex row.ateAction
  have hroom := hfirst.room
  rw [List.length_nil] at hroom
  obtain ⟨s, hloop, hends⟩ := initLoop_ends hfirst (by omega) (rest.map (·.ateAction))
  refine ⟨s, hends, ?_⟩
  unfold actInit
  rw [htable]
  simp only [hassign, Option.bind_eq_bind, Option.bind_some]
  rw [show initLoop (rest.map (·.ateAction)) 1 ⟨ati, row.ateAction, 1, true⟩ = some s from hloop]
  rfl

theorem actInit_accepts (d : Dispatch F n) (hn : 3 ≤ n) (hne : d.actionTable ≠ [])
    (hasc : d.actions.Pairwise (· < ·)) (hend : ∀ a ∈ d.actions, a < 2147483647)
    (hfits : blocks d.actions + 1 < n) :
    ∃ d', actInit d = some (true, d') ∧ d'.actionTable = d.actionTable ∧
      d'.atEntryRead = d.find 'R'.toNat ∧ d'.atEntryWrite = d.find 'W'.toNat ∧
      ∃ es stop, Complete d' es stop := by
  obtain ⟨row, rest, htable⟩ := List.exists_cons_of_ne_nil hne
  obtain ⟨s, hends, hinit⟩ := actInit_loop d hn htable
  have hacts : d.actions = row.ateAction :: rest.map (·.ateAction) := by
    rw [Dispatch.actions, htable, List.map_cons]
  have hchain := List.isChain_iff_pairwise.mpr hasc
  rw [hacts] at hchain hfits
  cases hends with
  | notMonoton hf hc => exact absurd hchain hc
  | exhausted hfull =>
      rw [ascending_eq_self hchain] at hfull
      omega
  | done front cur tail hf hc hroom h hact =>
      have hlast : (row.ateAction :: rest.map (·.ateAction)).getLast (by simp) =
          ((row :: rest).getLast (List.cons_ne_nil _ _)).ateAction := by
        simp only [← List.map_cons (f := fun e : ATEntry F => e.ateAction)]
        exact List.getLast_map _
      have hlong : IsLong (((row :: rest).getLast (List.cons_ne_nil _ _)).ateAction + 1) := by
        have hb := ((row :: rest).getLast (List.cons_ne_nil _ _)).long
        have hl := hend ((row :: rest).getLast (List.cons_ne_nil _ _)).ateAction (by
          rw [Dispatch.actions, htable]
          exact List.mem_map_of_mem (List.getLast_mem _))
        unfold IsLong at hb ⊢
        omega
      obtain ⟨s', hfin, hret, es, stop, tail', htab, hidx, hmark, habove⟩ :=
        h.finish hroom (hact.trans hlast) hlong
      have hcomp : Complete { d with atIndex := s'.atIndex } es stop :=
        ⟨⟨tail', htab⟩, by simpa [htable] using hidx, hmark, habove⟩
      rw [hinit, hfin]
      simp only [Option.bind_some, hret, if_true]
      rw [hcomp.actLookup_eq hasc, hcomp.actLookup_eq hasc]
      exact ⟨_, rfl, rfl, rfl, rfl, es, stop, hcomp.index, hcomp.indexes, hcomp.marker,
        hcomp.above⟩

theorem actInit_rejects (d : Dispatch F n) (hn : 3 ≤ n) (hne : d.actionTable ≠ [])
    (hasc : ¬ d.actions.Pairwise (· < ·)) (hfits : blocks (ascending d.actions) + 1 < n) :
    ∃ d', actInit d = some (false, d') := by
  obtain ⟨row, rest, htable⟩ := List.exists_cons_of_ne_nil hne
  obtain ⟨s, hends, hinit⟩ := actInit_loop d hn htable
  have hacts : d.actions = row.ateAction :: rest.map (·.ateAction) := by
    rw [Dispatch.actions, htable, List.map_cons]
  rw [← List.isChain_iff_pairwise, hacts] at hasc
  rw [hacts] at hfits
  cases hends with
  | done front cur tail hf hc => exact absurd hc hasc
  | exhausted hfull => omega
  | notMonoton hf hc hlow hhigh hret =>
      obtain ⟨s', hfin, hret'⟩ := InitState.finish_isSome hlow hhigh
        ((row :: rest).getLast (List.cons_ne_nil _ _)).ateAction
      rw [hinit, hfin, Option.bind_some, hret', hret]
      exact ⟨_, rfl⟩

/-- When the index is exhausted, `act_Init` stores the end of the block in front of it. -/
theorem actInit_outside (d : Dispatch F n) (hn : 3 ≤ n) (hne : d.actionTable ≠ [])
    (hfull : n ≤ blocks (ascending d.actions) + 1) : actInit d = none := by
  obtain ⟨row, rest, htable⟩ := List.exists_cons_of_ne_nil hne
  obtain ⟨s, hends, hinit⟩ := actInit_loop d hn htable
  have hacts : d.actions = row.ateAction :: rest.map (·.ateAction) := by
    rw [Dispatch.actions, htable, List.map_cons]
  rw [hacts] at hfull
  cases hends with
  | done front cur tail hf => omega
  | notMonoton hf => omega
  | exhausted hfull hi => rw [hinit, s.finish_eq_none hi, Option.bind_none]

/-- What `act_Init` and `act_Lookup` are for: a table that fits is searched through the index
as by a linear search, another one is refused, and nothing outside is touched. -/
structure IndexWorks (d : Dispatch F n) : Prop where
  accepts : d.actions.Pairwise (· < ·) → (∀ a ∈ d.actions, a < 2147483647) →
    blocks d.actions + 1 < n → ∃ d', actInit d = some (true, d') ∧
      ∀ action, actLookup d' action = some (d.find action)
  rejects : (¬ d.actions.Pairwise (· < ·) ∨ n ≤ blocks d.actions + 1) →
    ∃ d', actInit d = some (false, d')

/-- The index works exactly for the tables whose ascending part does not exhaust it. -/
theorem indexWorks_iff_blocks (debug : Bool) (d : Dispatch F (iSize debug))
    (hne : d.actionTable ≠ []) :
    IndexWorks d ↔ blocks (ascending d.actions) + 1 < iSize debug := by
  have hn : 3 ≤ iSize debug := by
    cases debug <;> decide
  have hself : d.actions.Pairwise (· < ·) → ascending d.actions = d.actions := fun h =>
    ascending_eq_self (List.isChain_iff_pairwise.mpr h)
  constructor
  · intro hworks
    by_contra hfull
    have hnone := actInit_outside d hn hne (Nat.not_lt.mp hfull)
    obtain ⟨d', hd'⟩ := hworks.rejects (by
      by_cases hasc : d.actions.Pairwise (· < ·)
      · exact .inr (hself hasc ▸ Nat.not_lt.mp hfull)
      · exact .inl hasc)
    rw [hnone] at hd'
    cases hd'
  · intro hfits
    refine ⟨fun hasc hend hroom => ?_, fun hbad => ?_⟩
    · obtain ⟨d', hinit, htable, -, -, es, stop, hcomp⟩ :=
        actInit_accepts d hn hne hasc hend hroom
      refine ⟨d', hinit, fun action => ?_⟩
      rw [Dispatch.find, ← htable]
      exact hcomp.actLookup_eq (by rwa [htable]) action
    · by_cases hasc : d.actions.Pairwise (· < ·)
      · rcases hbad with hbad | hbad
        · exact absurd hasc hbad
        · rw [hself hasc] at hfits
          omega
      · exact actInit_rejects d hn hne hasc hfits

/-- The static variables before `act_Init`, for a table with these action numbers. -/
def exDispatch (rows : List (ATEntry Unit)) : Dispatch Unit (iSize false) :=
  ⟨rows, Vector.replicate _ ⟨0, 0, 0⟩, none, none⟩

/-- Two blocks. -/
def exRows : List (ATEntry Unit) :=
  [{ ateAction := 5, ateFunc := (), ateBPArgs := 0 },
    { ateAction := 15, ateFunc := (), ateBPArgs := 1 },
    { ateAction := 16, ateFunc := (), ateBPArgs := 3 }]

theorem indexWorks_iff_blocks_exRows : IndexWorks (exDispatch exRows) ↔
    blocks (ascending (exDispatch exRows).actions) + 1 < iSize false :=
  indexWorks_iff_blocks false (exDispatch exRows) (by decide)

/-- The numbers 0, 2, …, 24: thirteen blocks of one number. -/
def exSparse : List (ATEntry Unit) := (List.range 13).map fun k =>
  { ateAction := 2 * ((k % 13 : Nat) : Int), ateFunc := (), ateBPArgs := 0,
    long := ⟨by omega, by omega⟩ }

/-- `act_Init` stores in front of the index instead of refusing the table. -/
theorem not_indexWorks_exSparse :
    actInit (exDispatch exSparse) = none ∧ ¬ IndexWorks (exDispatch exSparse) := by
  have hnone : actInit (exDispatch exSparse) = none :=
    actInit_outside _ (by decide) (by decide) (by decide)
  refine ⟨hnone, fun h => ?_⟩
  obtain ⟨d', hd'⟩ := h.rejects (.inr (by decide))
  rw [hnone] at hd'
  cases hd'

end Anfs.Action
