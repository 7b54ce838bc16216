import Anfs.Dir.ExamineAll

/-!
# The buffer of an `EXAMINE_ALL`

The entries that a packet stores lie one behind the other, each linked to the next by `ed_Next`.
The loop over the entries of a handle goes on with this, until there are no more entries or the
next one does not fit.
-/
namespace Anfs.Dir
open Anfs.Lib Anfs.Xdr Anfs.Nfs

section Layout
variable (buf : UInt32) (type : Int) (maxFileNameLen : Nat)

/-- The entry `e` lies at `o`: `ed_Name` points to its name. -/
structure EntryAt (mem : Nat → UInt8) (o : Nat) (e : Entry) : Prop where
  pointer : load mem (o + edName) 4 = be32 (buf + UInt32.ofNat (o + getFixedSize type))
  name : load mem (o + getFixedSize type) ((exAllName maxFileNameLen e.name).length + 1) =
    exAllName maxFileNameLen e.name ++ [0]

/-- `ed_Next` of the entry at `o` points to `next`. -/
structure PointsTo (mem : Nat → UInt8) (o next : Nat) : Prop where
  pointer : load mem o 4 = be32 (buf + UInt32.ofNat next)
  nonnull : buf + UInt32.ofNat next ≠ 0

/-- The entries lie one behind the other from `o` to `stop`, each but the last one pointing to the
next one. -/
def Laid (mem : Nat → UInt8) : Nat → List Entry → Nat → Prop
  | o, [], stop => stop = o
  | o, [e], stop => EntryAt buf type maxFileNameLen mem o e ∧ load mem o 4 = be32 0 ∧
      stop = o + sizeNeeded type maxFileNameLen e.name
  | o, e :: f :: es, stop => EntryAt buf type maxFileNameLen mem o e ∧
      PointsTo buf mem o (o + sizeNeeded type maxFileNameLen e.name) ∧
      Laid mem (o + sizeNeeded type maxFileNameLen e.name) (f :: es) stop

/-- Where the last of the entries begins. -/
def lastStart : Nat → List Entry → Option Nat
  | _, [] => none
  | o, [_] => some o
  | o, e :: f :: es => lastStart (o + sizeNeeded type maxFileNameLen e.name) (f :: es)

variable {buf type maxFileNameLen} {mem mem' : Nat → UInt8} {o stop : Nat} {e : Entry}
  {es : List Entry}

theorem getFixedSize_ge (htype : ExAllType type) : 8 ≤ getFixedSize type := by
  rcases htype.cases with rfl | rfl | rfl | rfl | rfl | rfl | rfl
  all_goals decide

theorem name_inside (type : Int) (maxFileNameLen : Nat) (name : List UInt8) :
    getFixedSize type + (exAllName maxFileNameLen name).length + 1 ≤
      sizeNeeded type maxFileNameLen name := by
  rw [exAllName_length, sizeNeeded]
  omega

theorem EntryAt.congr (htype : ExAllType type) (h : EntryAt buf type maxFileNameLen mem o e)
    (hmem : ∀ i, o + 4 ≤ i → i < o + sizeNeeded type maxFileNameLen e.name → mem' i = mem i) :
    EntryAt buf type maxFileNameLen mem' o e := by
  have hfixed := getFixedSize_ge htype
  have hname := name_inside type maxFileNameLen e.name
  constructor
  · rw [← h.pointer]
    apply load_congr
    intro k hk
    exact hmem _ (by simp only [edName]; omega) (by simp only [edName]; omega)
  · rw [← h.name]
    apply load_congr
    intro k hk
    exact hmem _ (by omega) (by omega)

theorem Laid.le (h : Laid buf type maxFileNameLen mem o es stop) : o ≤ stop := by
  induction es generalizing o with
  | nil => exact Nat.le_of_eq h.symm
  | cons e es ih =>
      cases es with
      | nil => exact h.2.2 ▸ Nat.le_add_right _ _
      | cons f es => exact Nat.le_trans (Nat.le_add_right _ _) (ih h.2.2)

/-- Only the bytes of the entries matter. -/
theorem Laid.congr (htype : ExAllType type) (h : Laid buf type maxFileNameLen mem o es stop)
    (hmem : ∀ i, o ≤ i → i < stop → mem' i = mem i) :
    Laid buf type maxFileNameLen mem' o es stop := by
  induction es generalizing o with
  | nil => exact h
  | cons e es ih =>
      have hfixed := getFixedSize_ge htype
      have hname := name_inside type maxFileNameLen e.name
      have hfour : ∀ next, o + sizeNeeded type maxFileNameLen e.name ≤ next →
          (∀ i, o ≤ i → i < next → mem' i = mem i) → load mem' o 4 = load mem o 4 := by
        intro next hnext hmem
        apply load_congr
        intro k hk
        exact hmem _ (by omega) (by omega)
      cases es with
      | nil =>
          obtain ⟨hat, hlast, rfl⟩ := h
          refine ⟨hat.congr htype fun i hlow hhigh => hmem i (by omega) hhigh, ?_, rfl⟩
          rw [hfour _ (Nat.le_refl _) hmem, hlast]
      | cons f es =>
          obtain ⟨hat, hnext, hrest⟩ := h
          have hle := hrest.le
          refine ⟨hat.congr htype fun i hlow hhigh => hmem i (by omega) (by omega),
            ⟨?_, hnext.nonnull⟩,
            ih hrest fun i hlow hhigh => hmem i (by omega) hhigh⟩
          rw [hfour _ hle hmem, hnext.pointer]

theorem lastStart_ge {last : Nat}
    (h : lastStart type maxFileNameLen o es = some last) : o ≤ last := by
  induction es generalizing o with
  | nil => cases h
  | cons e es ih =>
      cases es with
      | nil => exact Nat.le_of_eq (Option.some.inj h)
      | cons f es => exact Nat.le_trans (Nat.le_add_right _ _) (ih h)

theorem lastStart_concat (h : Laid buf type maxFileNameLen mem o es stop) :
    lastStart type maxFileNameLen o (es ++ [e]) = some stop := by
  induction es generalizing o with
  | nil => exact congrArg some h.symm
  | cons x es ih =>
      cases es with
      | nil => exact congrArg some h.2.2.symm
      | cons f es => exact ih h.2.2

/-- A further entry, to which the last one is made to point. -/
theorem Laid.concat (htype : ExAllType type) {last : Nat}
    (h : Laid buf type maxFileNameLen mem o es stop)
    (hlast : lastStart type maxFileNameLen o es = some last)
    (hmem : ∀ i, o ≤ i → i < stop → i < last ∨ last + 4 ≤ i → mem' i = mem i)
    (hlink : PointsTo buf mem' last stop) (hat : EntryAt buf type maxFileNameLen mem' stop e)
    (hnext : load mem' stop 4 = be32 0) :
    Laid buf type maxFileNameLen mem' o (es ++ [e])
      (stop + sizeNeeded type maxFileNameLen e.name) := by
  induction es generalizing o with
  | nil => cases hlast
  | cons x es ih =>
      cases es with
      | nil =>
          obtain ⟨hx, -, rfl⟩ := h
          obtain rfl : o = last := Option.some.inj hlast
          refine ⟨hx.congr htype fun i hlow hhigh => hmem i (by omega) hhigh (.inr hlow),
            hlink, hat, hnext, rfl⟩
      | cons f es =>
          obtain ⟨hx, hpoints, hrest⟩ := h
          have hle := hrest.le
          have hge : o + sizeNeeded type maxFileNameLen x.name ≤ last :=
            @lastStart_ge _ _ _ (f :: es) _ hlast
          have hfixed := getFixedSize_ge htype
          have hname := name_inside type maxFileNameLen x.name
          refine ⟨hx.congr htype fun i hlow hhigh => hmem i (by omega) (by omega) (.inl (by omega)),
            ⟨?_, hpoints.nonnull⟩, ih hrest hlast fun i hlow hhigh => hmem i (by omega) hhigh⟩
          rw [← hpoints.pointer]
          apply load_congr
          intro k hk
          exact hmem _ (by omega) (by omega) (.inl (by omega))

end Layout

/-- The pattern lets the entry pass. -/
def ExAllControl.matchesName (eac : ExAllControl) (e : Entry) : Bool :=
  eac.eacMatchString.all fun f => f e.name

/-- Pattern and hook let the entry pass. -/
def ExAllControl.accepts (eac : ExAllControl) (e : Entry) : Bool :=
  eac.matchesName e && eac.eacMatchFunc.all fun f => f e

/-- The arguments of a packet that asks for entries in a buffer. -/
structure ExAllPacket.Valid (p : ExAllPacket) : Prop where
  type : ExAllType p.type
  min : 8 ≤ p.size.toNat
  nonnull : p.buf ≠ 0
  inside : p.buf.toNat + p.size.toNat ≤ 4294967296

/-- The entries `es` have been stored. -/
structure Filled (p : ExAllPacket) (s : AllState) (es : List Entry) : Prop where
  laid : Laid p.buf p.type s.g.gMaxFileNameLen s.mem 0 es s.offs
  count : s.numEntries = es.length
  last : s.lastEntry = lastStart p.type s.g.gMaxFileNameLen 0 es
  room : s.offs + s.size.toNat = p.size.toNat

section Put
variable {p : ExAllPacket} {s s' : AllState} {es rest : List Entry} {e : Entry} {attr : Fattr}

theorem load_putAt (mem mem' : Nat → UInt8) (o j n : Nat) :
    load (putAt mem o mem') (o + j) n = load mem' j n := by
  unfold load
  apply List.map_congr_left
  intro k _
  rw [putAt, if_neg (by omega)]
  congr 1
  omega

/-- What is stored first is read back when nothing is stored over it. -/
theorem load_storeAll_mem {q : Piece} {front back : List Piece} {mem : Nat → UInt8}
    (hfront : ∀ q' ∈ front, q'.Apart q) :
    load (storeAll (front ++ q :: back) mem) q.1 q.2.length = q.2 := by
  induction front with
  | nil => exact load_store _ _ _
  | cons q' front ih =>
      show load (store (storeAll (front ++ q :: back) mem) q'.1 q'.2) q.1 q.2.length = _
      rw [load_store_of_apart (hfront q' List.mem_cons_self)]
      exact ih fun x hx => hfront x (List.mem_cons_of_mem _ hx)

/-- The name is stored last, the pointer to it in front of that, and `ed_Next` first. -/
theorem requested_split {buf : UInt32} {type : Int} {maxFileNameLen : Nat}
    (htype : ExAllType type) :
    ∃ front, requested buf type maxFileNameLen e attr = front ++ [(0, be32 0)] ∧
      (∀ q ∈ front, 4 ≤ q.1) ∧
      ∃ back, requested buf type maxFileNameLen e attr =
        [(getFixedSize type, exAllName maxFileNameLen e.name ++ [0])] ++
          (edName, be32 (buf + UInt32.ofNat (getFixedSize type))) :: back := by
  refine ⟨_, rfl, ?_, ?_⟩
  · rcases htype.cases with rfl | rfl | rfl | rfl | rfl | rfl | rfl
    all_goals simp [getFixedSize]
  · unfold requested
    simp only [List.append_assoc, List.cons_append, List.nil_append]
    exact ⟨_, rfl⟩

/-- An entry that has been stored can be found there. -/
theorem entryAt_storeAll {buf : UInt32} {type : Int} {maxFileNameLen : Nat} (htype : ExAllType type)
    (o : Nat) (mem mem' : Nat → UInt8) :
    EntryAt buf type maxFileNameLen
      (putAt mem o (storeAll (requested (buf + UInt32.ofNat o) type maxFileNameLen e attr) mem')) o
        e ∧
    load (putAt mem o (storeAll (requested (buf + UInt32.ofNat o) type maxFileNameLen e attr) mem'))
      o 4 = be32 0 := by
  have hfixed := getFixedSize_ge htype
  obtain ⟨front, hsplit, hfront, back, hback⟩ :=
    @requested_split e attr (buf + UInt32.ofNat o) type maxFileNameLen htype
  refine ⟨⟨?_, ?_⟩, ?_⟩
  · rw [load_putAt, hback, UInt32.ofNat_add, ← UInt32.add_assoc]
    refine load_storeAll_mem fun q hq => ?_
    rw [List.mem_singleton.mp hq]
    exact .inr (by simp only [Piece.last, be32_length, edName]; omega)
  · rw [load_putAt, hback, ← List.length_singleton, ← List.length_append]
    exact load_store _ _ _
  · rw [hsplit]
    refine (load_putAt mem _ o 0 4).trans (load_storeAll_mem fun q hq => ?_)
    exact .inr (by simpa [Piece.last] using hfront q hq)

theorem lastStart_add_le (htype : ExAllType type) {buf : UInt32} {maxFileNameLen o stop last : Nat}
    {mem : Nat → UInt8} (h : Laid buf type maxFileNameLen mem o es stop)
    (hlast : lastStart type maxFileNameLen o es = some last) : last + 4 ≤ stop := by
  induction es generalizing o with
  | nil => cases hlast
  | cons e es ih =>
      cases es with
      | nil =>
          have hfixed := getFixedSize_ge htype
          have hname := name_inside type maxFileNameLen e.name
          obtain ⟨-, -, rfl⟩ := h
          obtain rfl : o = last := Option.some.inj hlast
          omega
      | cons f es => exact ih h.2.2 hlast

theorem lastStart_eq_none {type : Int} {maxFileNameLen o : Nat}
    (h : lastStart type maxFileNameLen o es = none) :
    es = [] := by
  induction es generalizing o with
  | nil => rfl
  | cons e es ih =>
      cases es with
      | nil => cases h
      | cons f es => cases ih h

/-- What a turn of the loop does to the variables for the buffer. -/
def SameScan (s s' : AllState) : Prop :=
  s' = { s with mem := s'.mem, lastEntry := s'.lastEntry, offs := s'.offs, size := s'.size,
                numEntries := s'.numEntries, res2 := s'.res2, lookups := s'.lookups }

/-- The last entry, if there is one, gets its link to a further one. -/
theorem Laid.chained (htype : ExAllType type) {buf : UInt32} {maxFileNameLen offs : Nat}
    {mem mem' : Nat → UInt8}
    (h : Laid buf type maxFileNameLen mem 0 es offs) (hmem : ∀ i, i < offs → mem' i = mem i)
    (hat : EntryAt buf type maxFileNameLen mem' offs e) (hnext : load mem' offs 4 = be32 0)
    (hnonnull : buf + UInt32.ofNat offs ≠ 0) :
    Laid buf type maxFileNameLen (match lastStart type maxFileNameLen 0 es with
        | some last => store mem' last (be32 (buf + UInt32.ofNat offs))
        | none => mem') 0 (es ++ [e]) (offs + sizeNeeded type maxFileNameLen e.name) := by
  cases hlast : lastStart type maxFileNameLen 0 es with
  | none =>
      obtain rfl := lastStart_eq_none hlast
      obtain rfl : offs = 0 := h
      exact ⟨hat, hnext, rfl⟩
  | some last =>
      have hbehind := lastStart_add_le htype h hlast
      have hkept : ∀ i, i < last ∨ last + 4 ≤ i →
          store mem' last (be32 (buf + UInt32.ofNat offs)) i = mem' i := fun i hi =>
        store_of_notIn (by simpa using hi)
      refine (h.congr htype fun i _ hi => hmem i hi).concat htype hlast (fun i _ _ hi => hkept i hi)
        ⟨load_store _ _ _, hnonnull⟩ ?_ ?_
      · exact hat.congr htype fun i hlow _ => hkept i (.inr (by omega))
      · rw [← hnext]
        apply load_congr
        intro k _
        exact hkept _ (.inr (by omega))

theorem ExAllPacket.Valid.nonnull_add (hp : p.Valid) {offs : Nat} (hoffs : offs < p.size.toNat) :
    p.buf + UInt32.ofNat offs ≠ 0 := by
  have hinside := hp.inside
  have hpos : p.buf.toNat ≠ 0 := fun h => hp.nonnull (UInt32.toNat_inj.mp h)
  have hlt : offs < 4294967296 := by omega
  intro hzero
  have hsum := congrArg UInt32.toNat hzero
  rw [UInt32.toNat_add, UInt32.toNat_ofNat_of_lt' hlt, Nat.mod_eq_of_lt (by omega)] at hsum
  have hnone : p.buf.toNat + offs = 0 := hsum
  omega

/-- An entry that is stored is the last one now, or the hook does not let it pass. -/
theorem Filled.stored (hp : p.Valid) (h : Filled p s es)
    (hfits : sizeNeeded p.type s.g.gMaxFileNameLen e.name ≤ s.size.toNat) {mem : Nat → UInt8}
    (hat : EntryAt p.buf p.type s.g.gMaxFileNameLen (putAt s.mem s.offs mem) s.offs e)
    (hnext : load (putAt s.mem s.offs mem) s.offs 4 = be32 0) :
    ∃ s', s.stored p e (sizeNeeded p.type s.g.gMaxFileNameLen e.name) mem =
      some s' ∧ SameScan s s' ∧
      Filled p s' (es ++ if p.eac.eacMatchFunc.all fun f => f e then [e] else []) := by
  have htype := hp.type
  have hroom := h.room
  have hinside := hp.inside
  have hmem : ∀ i, i < s.offs → putAt s.mem s.offs mem i = s.mem i := fun i hi => if_pos hi
  have hlaid := h.laid.congr htype fun i _ hi => hmem i hi
  unfold AllState.stored
  rw [if_neg (Int.not_lt.mpr (Int.natCast_nonneg _))]
  dsimp only
  by_cases hhook : p.eac.eacMatchFunc.all fun f => f e
  · rw [if_pos hhook, if_pos hhook, Int.toNat_natCast]
    have hsize : (s.size - UInt32.ofNat (sizeNeeded p.type s.g.gMaxFileNameLen e.name)).toNat =
        s.size.toNat - sizeNeeded p.type s.g.gMaxFileNameLen e.name := by
      have hn : (UInt32.ofNat (sizeNeeded p.type s.g.gMaxFileNameLen e.name)).toNat =
          sizeNeeded p.type s.g.gMaxFileNameLen e.name :=
        UInt32.toNat_ofNat_of_lt' (Nat.lt_of_le_of_lt hfits s.size.toNat_lt)
      rw [UInt32.toNat_sub_of_le _ _ (UInt32.le_iff_toNat_le.mpr (hn.symm ▸ hfits)), hn]
    refine ⟨_, rfl, rfl, ?_, ?_, ?_, ?_⟩
    · have hname := name_inside p.type s.g.gMaxFileNameLen e.name
      have hoffs : s.offs < p.size.toNat := by omega
      have hlinked := h.laid.chained htype hmem hat hnext (hp.nonnull_add hoffs)
      rw [← h.last] at hlinked
      exact hlinked
    · show s.numEntries + 1 = _
      rw [h.count, List.length_append, List.length_singleton]
    · exact (lastStart_concat h.laid).symm
    · show s.offs + sizeNeeded p.type s.g.gMaxFileNameLen e.name +
        (s.size - UInt32.ofNat (sizeNeeded p.type s.g.gMaxFileNameLen e.name)).toNat = _
      omega
  · rw [if_neg hhook, if_neg hhook, List.append_nil]
    exact ⟨_, rfl, rfl, hlaid, h.count, h.last, h.room⟩

theorem Filled.putEntry (hp : p.Valid) (hmax : p.size.toNat < 2147483648)
    (h : Filled p s es) (e : Entry)
    (attr : Fattr) :
    (s.size.toNat < sizeNeeded p.type s.g.gMaxFileNameLen e.name ∧ s.putEntry p e attr = none) ∨
      ∃ s', s.putEntry p e attr = some s' ∧ SameScan s s' ∧
        Filled p s' (es ++ if p.eac.eacMatchFunc.all fun f => f e then [e] else []) := by
  have hroom := h.room
  have hlong : long (s.size.toNat : Int) = s.size.toNat := long_of_isLong (by unfold IsLong; omega)
  unfold AllState.putEntry
  rw [putExAllData_eq hp.type, hlong]
  by_cases hfits : sizeNeeded p.type s.g.gMaxFileNameLen e.name ≤ s.size.toNat
  · rw [if_pos (Int.ofNat_le.mpr hfits)]
    obtain ⟨hat, hnext⟩ := @entryAt_storeAll e attr p.buf p.type s.g.gMaxFileNameLen
      hp.type s.offs s.mem
      fun i => s.mem (s.offs + i)
    exact .inr (h.stored hp hfits hat hnext)
  · rw [if_neg (mt Int.ofNat_le.mp hfits)]
    exact .inl ⟨Nat.lt_of_not_le hfits, rfl⟩

/-- The allocations and the calls of the server succeed. -/
structure AllAnswers.Succeed (ans : AllAnswers) : Prop where
  edh : ans.edhOk = true
  entries : ∀ k, ans.entriesOk k = true
  attr : ∀ k res2, ∃ a, (lookupAttr ans.attr k res2).1 = .ok a

/-- The entries `front` have been removed, `back` are left. -/
structure Removed (s s' : AllState) (front back : List Entry) : Prop where
  g : s'.g = s.g
  refills : s'.refills = s.refills
  edh : s'.edh = { s.edh with
    edhNFSEntries := back
    edhNFSCookie := lastKey Entry.cookie s.edh.edhNFSCookie front }

/-- What a turn of the loop comes to: the entry does not fit, or it is removed. -/
inductive Turn (p : ExAllPacket) (s : AllState) (es : List Entry) (e : Entry) (rest : List Entry) :
    Except (EntriesEnd × AllState) AllState → Prop
  | full {s' : AllState} (hmatch : p.eac.matchesName e = true)
      (hsize : s'.size.toNat < sizeNeeded p.type s.g.gMaxFileNameLen e.name)
      (same : SameScan s s') (size : s'.size = s.size) (filled : Filled p s' es) :
      Turn p s es e rest (.error (.full, s'))
  | removed {s' : AllState} (gone : Removed s s' [e] rest)
      (filled : Filled p s' (es ++ if p.eac.accepts e then [e] else []))
      (size : p.eac.matchesName e = false → s'.size = s.size) : Turn p s es e rest (.ok s')

theorem Turn.congr {res2 : Int} {lookups : Nat} {r : Except (EntriesEnd × AllState) AllState}
    (h : Turn p { s with res2 := res2, lookups := lookups } es e rest r) : Turn p s
      es e rest r := by
  cases h with
  | full hmatch hsize same size filled => exact .full hmatch hsize same size filled
  | removed gone filled size => exact .removed ⟨gone.g, gone.refills, gone.edh⟩ filled size

theorem Filled.put (hp : p.Valid) (hmax : p.size.toNat < 2147483648) (h : Filled p s es)
    (hmatch : p.eac.matchesName e = true) (attr : Fattr) (rest : List Entry) :
    Turn p s es e rest (s.put p e attr rest) := by
  unfold AllState.put
  obtain ⟨hsize, hput⟩ | ⟨s', hput, hsame, hfilled⟩ := h.putEntry hp hmax e attr
  · rw [hput]
    exact .full hmatch hsize rfl rfl ⟨h.laid, h.count, h.last, h.room⟩
  · rw [hput]
    unfold SameScan at hsame
    have haccepts : p.eac.accepts e = p.eac.eacMatchFunc.all fun f => f e := by
      rw [ExAllControl.accepts, hmatch, Bool.true_and]
    rw [← haccepts] at hfilled
    refine .removed ⟨?_, ?_, ?_⟩ ⟨hfilled.laid, hfilled.count, hfilled.last, hfilled.room⟩ ?_
    · rw [hsame]
      rfl
    · rw [hsame]
      rfl
    · rw [hsame]
      rfl
    · intro hno
      rw [hmatch] at hno
      cases hno

theorem Filled.entry (hp : p.Valid) {ans : AllAnswers} (hans : ans.Succeed)
    (h : Filled p s es) (e : Entry)
    (hmax : p.eac.matchesName e = true → p.size.toNat < 2147483648) (rest : List Entry) :
    Turn p s es e rest (s.entry p ans.attr e rest) := by
  unfold AllState.entry
  change Turn p s es e rest (if p.eac.matchesName e = true then _ else _)
  by_cases hmatch : p.eac.matchesName e = true
  · rw [if_pos hmatch]
    by_cases hname : p.type = ED_NAME
    · rw [if_pos hname]
      exact h.put hp (hmax hmatch) hmatch default rest
    · rw [if_neg hname]
      obtain ⟨a, ha⟩ := hans.attr s.lookups s.res2
      generalize lookupAttr ans.attr s.lookups s.res2 = t at ha ⊢
      obtain ⟨r, res2, lookups⟩ := t
      dsimp only at ha
      subst ha
      have h' : Filled p { s with res2 := res2, lookups := lookups } es :=
        ⟨h.laid, h.count, h.last, h.room⟩
      exact (h'.put hp (hmax hmatch) hmatch a rest).congr
  · rw [if_neg hmatch]
    have haccepts : p.eac.accepts e = false := by
      rw [ExAllControl.accepts, Bool.eq_false_iff.mpr hmatch, Bool.false_and]
    refine .removed ⟨rfl, rfl, rfl⟩ ?_ fun _ => rfl
    rw [haccepts, if_neg (by simp), List.append_nil]
    exact ⟨h.laid, h.count, h.last, h.room⟩

/-- The loop over the entries of the handle ends behind the last of them, or at one that matches
the pattern and does not fit. -/
theorem Filled.entries (hp : p.Valid) {ans : AllAnswers} (hans : ans.Succeed) (h : Filled p s es)
    (entries : List Entry) (hentries : s.edh.edhNFSEntries = entries)
    (hmax : ∀ e ∈ entries, p.eac.matchesName e = true → p.size.toNat < 2147483648) :
    ∃ r s' front back, allEntries p ans.attr entries s = (r, s') ∧ entries = front ++ back ∧
      Removed s s' front back ∧ Filled p s' (es ++ front.filter p.eac.accepts) ∧
      ((∀ e ∈ front, p.eac.matchesName e = false) → s'.size = s.size) ∧
      ((r = .empty ∧ back = []) ∨ (r = .full ∧ ∃ e back', back = e :: back' ∧
        p.eac.matchesName e = true ∧
        s'.size.toNat < sizeNeeded p.type s.g.gMaxFileNameLen e.name)) := by
  induction entries generalizing s es with
  | nil =>
      have hedh : s.edh = { s.edh with edhNFSEntries := [] } := by rw [← hentries]
      refine ⟨.empty, s, [], [], rfl, rfl, ⟨rfl, rfl, hedh⟩, ?_, fun _ => rfl, .inl ⟨rfl, rfl⟩⟩
      · rw [List.filter_nil, List.append_nil]
        exact h
  | cons e entries ih =>
      unfold allEntries
      have hturn := h.entry hp hans e (hmax e List.mem_cons_self) entries
      cases hentry : s.entry p ans.attr e entries with
      | error x =>
          rw [hentry] at hturn
          cases hturn with
          | @full s' hmatch hsize same size filled =>
              unfold SameScan at same
              refine ⟨.full, s', [], e :: entries, rfl, rfl, ⟨?_, ?_, ?_⟩, ?_, fun _ => size,
                .inr ⟨rfl, e, entries, rfl, hmatch, hsize⟩⟩
              · rw [same]
              · rw [same]
              · rw [same, ← hentries]
                rfl
              · rw [List.filter_nil, List.append_nil]
                exact filled
      | ok s₁ =>
          rw [hentry] at hturn
          cases hturn with
          | removed gone filled size =>
              have hedh := gone.edh
              obtain ⟨r, s', front, back, hrun, hsplit, hgone, hfilled, hsize, hends⟩ :=
                ih filled (by rw [hedh]) fun x hx => hmax x (List.mem_cons_of_mem _ hx)
              refine ⟨r, s', e :: front, back, hrun, by rw [hsplit]; rfl, ⟨?_, ?_, ?_⟩, ?_, ?_, ?_⟩
              · rw [hgone.g, gone.g]
              · rw [hgone.refills, gone.refills]
              · rw [hgone.edh, hedh]
                rfl
              · rw [List.append_assoc] at hfilled
                rw [List.filter_cons]
                split
                · rename_i haccepts
                  rw [if_pos haccepts] at hfilled
                  exact hfilled
                · rename_i haccepts
                  rw [if_neg haccepts] at hfilled
                  exact hfilled
              · intro hno
                rw [hsize fun x hx => hno x (List.mem_cons_of_mem _ hx)]
                exact size (hno e List.mem_cons_self)
              · rw [gone.g] at hends
                exact hends

end Put

end Anfs.Dir
