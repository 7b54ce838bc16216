import Anfs.Path.Unify

/-!
# Scanning a path in place

`fn_ScanPath` writes a terminator behind the component that it returns, and the slash back when
it is called again.
-/
namespace Anfs.Path
open Anfs.Lib

/-- The path with its terminator, and the variables of the caller. -/
structure ScanPath where
  path : List UInt8
  pos : Nat
  lastElement : Bool
deriving DecidableEq

/-- The string at a position of a buffer. -/
def cString (buf : List UInt8) (p : Nat) : List UInt8 := (buf.drop p).takeWhile (· ≠ 0)

/-- `fn_ScanPath`: the position of the component. -/
def fnScanPath (u : ScanPath) : Nat × ScanPath :=
  let p := u.pos
  let path := if p ≠ 0 then u.path.set (p - 1) slash else u.path
  let e := p + ((path.drop p).takeWhile fun c => c ≠ 0 ∧ c ≠ slash).length
  if path.getD e 0 ≠ 0 then
    (p, { u with path := if e ≠ p then path.set e 0 else path, pos := e + 1 })
  else (p, { u with path, lastElement := true })

/-- A component of a path that needs no unification. -/
structure Plain (c : List UInt8) : Prop where
  nonempty : c ≠ []
  noSlash : slash ∉ c
  noNul : 0 ∉ c

/-- The scan stands behind `front`, in front of the components `cs`. -/
structure Scanning (front : List UInt8) (cs : List (List UInt8)) (u : ScanPath) : Prop where
  pos : u.pos = front.length
  path : (if u.pos ≠ 0 then u.path.set (u.pos - 1) slash else u.path) = front ++ (joined cs ++ [0])
  more : u.lastElement = false

/-- The text in front of the component behind `before`. -/
def frontOf (before : List (List UInt8)) : List UInt8 :=
  if before = [] then [] else joined before ++ [slash]

variable {front c t : List UInt8} {cs before : List (List UInt8)} {u : ScanPath}

theorem joined_cons (hcs : cs ≠ []) (c : List UInt8) :
    joined (c :: cs) = c ++ slash :: joined cs := by
  obtain ⟨d, ds, rfl⟩ := List.exists_cons_of_ne_nil hcs
  rw [joined, List.intercalate_cons_cons, List.append_assoc, List.singleton_append]
  rfl

@[simp] theorem joined_singleton (c : List UInt8) : joined [c] = c := List.intercalate_singleton

theorem joined_ne_nil (hcs : cs ≠ []) (hplain : ∀ c ∈ cs, Plain c) : joined cs ≠ [] := by
  obtain ⟨d, ds, rfl⟩ := List.exists_cons_of_ne_nil hcs
  have hd := (hplain d List.mem_cons_self).nonempty
  cases ds with
  | nil => rwa [joined_singleton]
  | cons e es =>
      rw [joined_cons (List.cons_ne_nil e es)]
      simp [hd]

theorem frontOf_concat (before : List (List UInt8)) (c : List UInt8) :
    frontOf (before ++ [c]) = frontOf before ++ (c ++ [slash]) := by
  by_cases hb : before = []
  · subst hb
    simp [frontOf]
  · rw [frontOf, frontOf, if_neg hb, if_neg (by simp), joined, intercalate_concat hb, joined]
    simp

/-- The whole path from its front. -/
theorem joined_append (hcs : cs ≠ []) (before : List (List UInt8)) :
    joined (before ++ cs) = frontOf before ++ joined cs := by
  induction before with
  | nil => rfl
  | cons b bs ih =>
      have hne : bs ++ cs ≠ [] := fun h => hcs (List.append_eq_nil_iff.mp h).2
      have hfront : frontOf (b :: bs) = joined (b :: bs) ++ [slash] :=
        if_neg (List.cons_ne_nil b bs)
      rw [List.cons_append, joined_cons hne, ih, hfront]
      by_cases hbs : bs = []
      · subst hbs
        simp [frontOf]
      · have hrest : frontOf bs = joined bs ++ [slash] := if_neg hbs
        rw [hrest, joined_cons hbs]
        simp

theorem takeWhile_component (hc : Plain c) (ht : ∀ a ∈ t.head?, a = 0 ∨ a = slash) :
    (c ++ t).takeWhile (fun a => a ≠ 0 ∧ a ≠ slash) = c := by
  have hin : ∀ a ∈ c, decide (a ≠ 0 ∧ a ≠ slash) = true := by
    intro a ha
    exact decide_eq_true ⟨fun h => hc.noNul (h ▸ ha), fun h => hc.noSlash (h ▸ ha)⟩
  rw [List.takeWhile_append_of_pos hin]
  cases t with
  | nil => simp
  | cons a t =>
      have ha := ht a rfl
      rw [List.takeWhile_cons_of_neg (by simpa using fun h => ha.resolve_left h), List.append_nil]

theorem cString_component (hc : Plain c) (front t : List UInt8) :
    cString (front ++ (c ++ 0 :: t)) front.length = c := by
  have hin : ∀ a ∈ c, decide (a ≠ 0) = true := fun a ha => decide_eq_true fun h => hc.noNul (h ▸ ha)
  rw [cString, List.drop_left, List.takeWhile_append_of_pos hin]
  simp

/-- The last component: the scan is at its end, and the path as it was. -/
theorem fnScanPath_last (hc : Plain c) (hu : Scanning front [c] u) :
    (fnScanPath u).1 = front.length ∧ cString (fnScanPath u).2.path front.length = c ∧
      (fnScanPath u).2.lastElement = true := by
  have hpath := hu.path
  rw [joined_singleton, hu.pos] at hpath
  unfold fnScanPath
  simp only [hu.pos, hpath, List.drop_left]
  rw [takeWhile_component hc (by simp)]
  have hend : (front ++ (c ++ [0])).getD (front.length + c.length) 0 = 0 := by simp
  rw [if_neg (not_not.mpr hend)]
  exact ⟨rfl, cString_component hc front [], rfl⟩

/-- A component with others behind it: the scan goes on behind the slash. -/
theorem fnScanPath_next (hc : Plain c) (hcs : cs ≠ []) (hu : Scanning front (c :: cs) u) :
    (fnScanPath u).1 = front.length ∧ cString (fnScanPath u).2.path front.length = c ∧
      (fnScanPath u).2.lastElement = false ∧
      Scanning (front ++ (c ++ [slash])) cs (fnScanPath u).2 := by
  have hpath := hu.path
  rw [joined_cons hcs, hu.pos, List.append_assoc, List.cons_append] at hpath
  have hlen : 0 < c.length := List.length_pos_of_ne_nil hc.nonempty
  have hset : ∀ a : UInt8, (front ++ (c ++ slash :: (joined cs ++ [0]))).set
    (front.length + c.length) a =
      front ++ (c ++ a :: (joined cs ++ [0])) := by
    intro a
    simp
  have hend : (front ++ (c ++ slash :: (joined cs ++ [0]))).getD
      (front.length + c.length) 0 = slash := by
    simp
  unfold fnScanPath
  simp only [hu.pos, hpath, List.drop_left]
  rw [takeWhile_component hc (by simp), hend, if_pos (by decide), if_pos (by omega), hset]
  refine ⟨rfl, cString_component hc front _, hu.more, ?_, ?_, hu.more⟩
  · simp
    omega
  · dsimp only
    rw [if_pos (by omega), Nat.add_sub_cancel]
    simp

/-- A scan that is not at its end has moved on inside the buffer. -/
theorem fnScanPath_advances (h : (fnScanPath u).2.lastElement = false) :
    u.pos < (fnScanPath u).2.pos ∧ (fnScanPath u).2.pos ≤ u.path.length ∧
      (fnScanPath u).2.path.length = u.path.length := by
  have hlen : (if u.pos ≠ 0 then u.path.set (u.pos - 1) slash else u.path).length =
      u.path.length := by
    split <;> simp
  unfold fnScanPath at h ⊢
  dsimp only at h ⊢
  generalize (if u.pos ≠ 0 then u.path.set (u.pos - 1) slash else u.path) = path at h hlen ⊢
  obtain ⟨n, hn⟩ : ∃ n, n = ((path.drop u.pos).takeWhile fun c => c ≠ 0 ∧ c ≠ slash).length :=
    ⟨_, rfl⟩
  rw [← hn] at h ⊢
  by_cases hend : path.getD (u.pos + n) 0 ≠ 0
  · have he : u.pos + n < path.length := by
      by_contra hge
      exact hend (by simp [List.getD, Nat.not_lt.mp hge])
    rw [if_pos hend]
    refine ⟨by simp only; omega, by simp only; omega, ?_⟩
    dsimp only
    split <;> simp [hlen]
  · rw [if_neg hend] at h
    cases h

instance (c : List UInt8) : Decidable (Plain c) :=
  decidable_of_iff (c ≠ [] ∧ slash ∉ c ∧ 0 ∉ c)
    ⟨fun h => ⟨h.1, h.2.1, h.2.2⟩, fun h => ⟨h.nonempty, h.noSlash, h.noNul⟩⟩

/-- The loop of `fn_ScanPath` over the bytes from `e` on; `none`: it reads behind the buffer. -/
def componentEnd : List UInt8 → Nat → Option Nat
  | [], _ => none
  | c :: rest, e => if c ≠ 0 ∧ c ≠ slash then componentEnd rest (e + 1) else some e

/-- `path[i] = c`; `none`: outside of the buffer. -/
def storeByte (path : List UInt8) (i : Nat) (c : UInt8) : Option (List UInt8) :=
  if i < path.length then some (path.set i c) else none

/-- `fn_ScanPath` with every access checked against the buffer. -/
def fnScanPathIn (u : ScanPath) : Option (Nat × ScanPath) := do
  let p := u.pos
  let path ← (if p ≠ 0 then storeByte u.path (p - 1) slash else some u.path)
  let e ← componentEnd (path.drop p) p
  let c ← path[e]?
  if c ≠ 0 then
    (if e ≠ p then storeByte path e 0 else some path).map fun path =>
    (p, { u with path, pos := e + 1 })
  else some (p, { u with path, lastElement := true })

/-- The call number `k`, counted from 0, of a walk that starts at `u`. -/
def scanCall : Nat → ScanPath → Option (Nat × ScanPath)
  | 0, u => fnScanPathIn u
  | k + 1, u => do
      let (_, u) ← scanCall k u
      fnScanPathIn u

theorem storeByte_eq_some {path path' : List UInt8} {i : Nat} {a : UInt8}
    (h : storeByte path i a = some path') : path' = path.set i a := by
  unfold storeByte at h
  split at h
  · exact (Option.some.inj h).symm
  · cases h

theorem componentEnd_eq_some {l : List UInt8} {p e : Nat} (h : componentEnd l p = some e) :
    e = p + (l.takeWhile fun c => c ≠ 0 ∧ c ≠ slash).length := by
  induction l generalizing p with
  | nil => cases h
  | cons a l ih =>
      unfold componentEnd at h
      by_cases ha : a ≠ 0 ∧ a ≠ slash
      · rw [if_pos ha] at h
        rw [ih h, List.takeWhile_cons_of_pos (by simpa using ha), List.length_cons]
        omega
      · rw [if_neg ha] at h
        rw [List.takeWhile_cons_of_neg (by simpa using ha), ← Option.some.inj h]
        rfl

theorem componentEnd_append (hslash : slash ∉ c) (hnul : 0 ∉ c) {a : UInt8}
    (ha : a = 0 ∨ a = slash) (t : List UInt8) (e : Nat) :
    componentEnd (c ++ a :: t) e = some (e + c.length) := by
  induction c generalizing e with
  | nil => exact if_neg fun h => ha.elim h.1 h.2
  | cons b c ih =>
      simp only [List.mem_cons, not_or] at hslash hnul
      rw [List.cons_append, componentEnd, if_pos ⟨Ne.symm hnul.1, Ne.symm hslash.1⟩,
        ih hslash.2 hnul.2, List.length_cons, Nat.add_assoc, Nat.add_comm 1]

/-- A call that stays in the buffer is a call of `fnScanPath`. -/
theorem fnScanPathIn_eq_some {r : Nat × ScanPath} (h : fnScanPathIn u = some r) :
    fnScanPath u = r := by
  unfold fnScanPathIn at h
  obtain ⟨path, hpath, h⟩ := Option.bind_eq_some_iff.mp h
  have hrestored : (if u.pos ≠ 0 then u.path.set (u.pos - 1) slash else u.path) = path := by
    split at hpath
    · rw [if_pos ‹_›, storeByte_eq_some hpath]
    · rw [if_neg ‹_›]
      exact Option.some.inj hpath
  obtain ⟨e, he, h⟩ := Option.bind_eq_some_iff.mp h
  obtain ⟨c, hc, h⟩ := Option.bind_eq_some_iff.mp h
  have hget : path.getD e 0 = c := by rw [List.getD, hc, Option.getD_some]
  unfold fnScanPath
  simp only [hrestored, ← componentEnd_eq_some he, hget]
  by_cases hend : c ≠ 0
  · rw [if_pos hend] at h ⊢
    obtain ⟨path', hp, rfl⟩ := Option.map_eq_some_iff.mp h
    split at hp
    · rw [if_pos ‹_›, storeByte_eq_some hp]
    · rw [if_neg ‹_›, Option.some.inj hp]
  · rw [if_neg hend] at h ⊢
    exact Option.some.inj h

/-- A call in front of the component `c` and the byte `a` behind it. -/
theorem fnScanPathIn_component (hc : Plain c) {a : UInt8} (ha : a = 0 ∨ a = slash)
    (hpos : u.pos = front.length) (hroom : u.pos ≤ u.path.length)
    (hpath : (if u.pos ≠ 0 then u.path.set (u.pos - 1) slash else u.path) =
      front ++ (c ++ a :: t)) :
    fnScanPathIn u = some (front.length, if a = slash then
      { u with path := front ++ (c ++ 0 :: t), pos := front.length + c.length + 1 }
    else { u with path := front ++ (c ++ a :: t), lastElement := true }) := by
  have hlen : 0 < c.length := List.length_pos_of_ne_nil hc.nonempty
  have hstore : (if u.pos ≠ 0 then storeByte u.path (u.pos - 1) slash else some u.path) =
      some (front ++ (c ++ a :: t)) := by
    rw [← hpath]
    split
    · rw [storeByte, if_pos (by omega)]
    · rfl
  have hend : componentEnd ((front ++ (c ++ a :: t)).drop front.length) front.length =
      some (front.length + c.length) := by
    rw [List.drop_left]
    exact componentEnd_append hc.noSlash hc.noNul ha t _
  have hget : (front ++ (c ++ a :: t))[front.length + c.length]? = some a := by simp
  have hset : storeByte (front ++ (c ++ a :: t)) (front.length + c.length) 0 =
      some (front ++ (c ++ 0 :: t)) := by
    rw [storeByte, if_pos (by simp)]
    simp
  unfold fnScanPathIn
  simp only [hstore, Option.bind_eq_bind, Option.bind_some]
  simp only [hpos, hend, hget, Option.bind_some]
  rcases ha with rfl | rfl
  · rfl
  · rw [if_pos (by decide), if_pos (by omega), hset]
    rfl

/-- What the call number `k` of a walk over the components `cs` leaves: a pointer `p` to the
component `c`, terminated by the byte behind it, in a buffer that is the path elsewhere. -/
structure ScanYields (cs : List (List UInt8)) (k : Nat) (c : List UInt8) (r : Nat × ScanPath) :
    Prop where
  pointer : r.1 = (frontOf (cs.take k)).length
  string : cString r.2.path r.1 = c
  terminated : r.2.path[r.1 + c.length]? = some 0
  restored : r.2.path = (joined cs ++ [0]).set (r.1 + c.length) 0
  last : r.2.lastElement = decide (k + 1 = cs.length)

/-- The walk from the start of the path. -/
def scanStart (cs : List (List UInt8)) : ScanPath := ⟨joined cs ++ [0], 0, false⟩

/-- The byte behind the component number `k`. -/
def byteBehind (cs : List (List UInt8)) (k : Nat) : UInt8 := if k + 1 = cs.length then 0 else slash

theorem byteBehind_cases (cs : List (List UInt8)) (k : Nat) :
    byteBehind cs k = 0 ∨ byteBehind cs k = slash := by
  unfold byteBehind
  split
  · exact .inl rfl
  · exact .inr rfl

theorem joined_split {k : Nat} (hk : k < cs.length) :
    ∃ t, joined cs ++ [0] = frontOf (cs.take k) ++ (cs[k] ++ byteBehind cs k :: t) := by
  have hdrop : cs.drop k = cs[k] :: cs.drop (k + 1) := List.drop_eq_getElem_cons hk
  have hall : joined cs = frontOf (cs.take k) ++ joined (cs.drop k) := by
    have hne : cs.drop k ≠ [] := by
      rw [hdrop]
      exact List.cons_ne_nil _ _
    rw [← joined_append hne, List.take_append_drop]
  by_cases hlast : k + 1 = cs.length
  · refine ⟨[], ?_⟩
    rw [hall, hdrop, List.drop_of_length_le (by omega), joined_singleton, byteBehind, if_pos hlast,
      List.append_assoc]
  · refine ⟨joined (cs.drop (k + 1)) ++ [0], ?_⟩
    have hmore : cs.drop (k + 1) ≠ [] := by
      rw [ne_eq, List.drop_eq_nil_iff]
      omega
    rw [hall, hdrop, joined_cons hmore, byteBehind, if_neg hlast, List.append_assoc,
      List.append_assoc,
      List.cons_append]

theorem length_frontOf_succ {k : Nat} (hk : k < cs.length) :
    (frontOf (cs.take (k + 1))).length = (frontOf (cs.take k)).length + cs[k].length + 1 := by
  rw [List.take_succ_eq_append_getElem hk, frontOf_concat]
  simp
  omega

/-- One call of the walk, from a buffer in which at most the slash before it is missing. -/
theorem yields_of_restored (hplain : ∀ c ∈ cs, Plain c) {k : Nat} (hk : k < cs.length)
    (hpos : u.pos = (frontOf (cs.take k)).length) (hroom : u.pos ≤ u.path.length)
    (hpath : (if u.pos ≠ 0 then u.path.set (u.pos - 1) slash else u.path) = joined cs ++ [0])
    (hmore : u.lastElement = false) :
    ∃ r, fnScanPathIn u = some r ∧ ScanYields cs k cs[k] r ∧
      (k + 1 < cs.length → r.2.pos = (frontOf (cs.take (k + 1))).length) := by
  obtain ⟨t, hsplit⟩ := joined_split hk
  have hc := hplain cs[k] (List.getElem_mem hk)
  have hcall := fnScanPathIn_component hc (byteBehind_cases cs k) hpos hroom (hpath.trans hsplit)
  have hset : (joined cs ++ [0]).set ((frontOf (cs.take k)).length + cs[k].length) 0 =
      frontOf (cs.take k) ++ (cs[k] ++ 0 :: t) := by
    rw [hsplit]
    simp
  refine ⟨_, hcall, ?_⟩
  by_cases hlast : k + 1 = cs.length
  · have ha : byteBehind cs k = 0 := if_pos hlast
    rw [ha, if_neg (by decide)]
    exact ⟨⟨rfl, cString_component hc _ t, by simp, hset.symm, by simp [hlast]⟩, fun h => by omega⟩
  · have ha : byteBehind cs k = slash := if_neg hlast
    rw [ha, if_pos rfl]
    exact ⟨⟨rfl, cString_component hc _ t, by simp, hset.symm, by simp [hlast, hmore]⟩,
      fun _ => (length_frontOf_succ hk).symm⟩

/-- The slash that the call number `k` replaced is the one that the next call puts back. -/
theorem ScanYields.restore {k : Nat} {r : Nat × ScanPath} (hk : k + 1 < cs.length)
    (h : ScanYields cs k cs[k] r) (hpos : r.2.pos = (frontOf (cs.take (k + 1))).length) :
    (if r.2.pos ≠ 0 then r.2.path.set (r.2.pos - 1) slash else r.2.path) = joined cs ++ [0] := by
  obtain ⟨t, hsplit⟩ := joined_split (Nat.lt_of_succ_lt hk)
  have hsucc := length_frontOf_succ (Nat.lt_of_succ_lt hk)
  have ha : byteBehind cs k = slash := if_neg (by omega)
  rw [if_pos (by omega), h.restored, h.pointer, hpos, hsucc, Nat.add_sub_cancel, List.set_set,
    hsplit, ha]
  simp

theorem scanCall_yields (hplain : ∀ c ∈ cs, Plain c) {k : Nat} (hk : k < cs.length) :
    ∃ r, scanCall k (scanStart cs) = some r ∧ ScanYields cs k cs[k] r ∧
      (k + 1 < cs.length → r.2.pos = (frontOf (cs.take (k + 1))).length) := by
  induction k with
  | zero =>
      have hstart : (scanStart cs).pos = 0 := rfl
      exact yields_of_restored hplain hk rfl (Nat.zero_le _) (if_neg (by simp [hstart])) rfl
  | succ k ih =>
      obtain ⟨r, hr, hyields, hpos⟩ := ih (by omega)
      have hpos := hpos hk
      have hroom : r.2.pos ≤ r.2.path.length := by
        obtain ⟨t, hsplit⟩ := joined_split (Nat.lt_of_succ_lt hk)
        have hlen := congrArg List.length hsplit
        rw [hyields.restored, List.length_set, hlen, hpos,
          length_frontOf_succ (Nat.lt_of_succ_lt hk)]
        simp only [List.length_append, List.length_cons]
        omega
      obtain ⟨r', hr', h⟩ := yields_of_restored hplain hk hpos hroom (hyields.restore hk hpos)
        (by simpa using hyields.last.trans (decide_eq_false (by omega)))
      refine ⟨r', ?_, h⟩
      rw [scanCall, hr]
      exact hr'

/-- The walk over a path of components: each call stays in the buffer and yields the next
component, the last one and only that one is announced, and then the path is as it was. -/
theorem scanCall_components (hne : cs ≠ []) (hplain : ∀ c ∈ cs, Plain c) :
    (∀ k (hk : k < cs.length), ∃ r, scanCall k (scanStart cs) = some r ∧ ScanYields cs k cs[k] r) ∧
      ∃ r, scanCall (cs.length - 1) (scanStart cs) = some r ∧ r.2.path = joined cs ++ [0] := by
  constructor
  · intro k hk
    obtain ⟨r, hr, hyields, -⟩ := scanCall_yields hplain hk
    exact ⟨r, hr, hyields⟩
  · have hpos := List.length_pos_of_ne_nil hne
    have hk : cs.length - 1 < cs.length := by omega
    obtain ⟨r, hr, hyields, -⟩ := scanCall_yields hplain hk
    obtain ⟨t, hsplit⟩ := joined_split hk
    have ha : byteBehind cs (cs.length - 1) = 0 := if_pos (by omega)
    refine ⟨r, hr, ?_⟩
    rw [hyields.restored, hyields.pointer, hsplit, ha]
    simp

/-- The components of `a/bb/c`. -/
def exPath : List (List UInt8) := [[97], [98, 98], [99]]

theorem scanCall_components_exPath :
    (∀ k (hk : k < exPath.length), ∃ r, scanCall k (scanStart exPath) = some r ∧
        ScanYields exPath k exPath[k] r) ∧
      ∃ r, scanCall 2 (scanStart exPath) = some r ∧ r.2.path = joined exPath ++ [0] :=
  @scanCall_components exPath (by decide) (by decide)

end Anfs.Path
