import Anfs.Cache.Keys
import Anfs.Tree.Locate

/-!
# What the caches hold

Each function looks an id or a name up before it inserts it, so both tables stay partial maps and
the name lists of the directories stay free of duplicates. `GetDirEntry` inserts without a lookup
when it is given no id.
-/
namespace Anfs.Tree
open Anfs.Cache Anfs.Lib Anfs.Nfs Anfs.Xdr

theorem keyCmp_iff (a b : UInt32) : keyCmp a b = true ↔ a = b := by
  simp [keyCmp, UInt32.sub_eq_iff_eq_add]

section Tidy
variable {σ : Type} (idOf : List UInt8 → UInt32)

/-- The server gives an object one id in all answers. -/
structure Consistent (w : World σ) : Prop where
  lookup : ∀ env dir name r, (w.lookup env dir name).1 = .ok r → r.attributes.fileid = idOf r.file
  getAttr : ∀ env fh a, (w.getAttr env fh).1 = .ok a → a.fileid = idOf fh

namespace Caches

/-- The attribute entry at `a` is about the object with this id. -/
structure Describes (s : Caches σ) (id : UInt32) (a : Nat) : Prop where
  lt : a < s.next
  fileId : (s.aces a).fileId = id
  attr : (s.aces a).fattr.fileid = id
  handle : idOf (s.aces a).nfsFh = id

/-- The directory entry at `d` is about the directory with this id. -/
structure Lists (s : Caches σ) (id : UInt32) (d : Nat) : Prop where
  lt : d < s.next
  fileId : (s.dces d).fileId = id

/-- Both tables are partial maps to entries about their keys; a name list has a name once. -/
structure Tidy (s : Caches σ) : Prop where
  attrs : s.attrCache.Indexed hashFunc (s.Describes idOf)
  dirs : s.dirCache.Indexed hashFunc s.Lists
  names : ∀ d, ((s.dces d).entries.map NEntry.name).Nodup
  hashes : ∀ d, ∀ n ∈ (s.dces d).entries, n.hash = neStr2Hash n.name

/-- The step from `s` to `s'` is not about directories. -/
structure Beside (s s' : Caches σ) : Prop where
  dirCache : s'.dirCache = s.dirCache
  dces : s'.dces = s.dces
  next : s.next ≤ s'.next

/-- The outcome of a search for the attribute entry with an id. -/
structure Found (id : UInt32) (s : Caches σ) (r : Option Nat × Caches σ) : Prop where
  tidy : r.2.Tidy idOf
  beside : s.Beside r.2
  describes : ∀ a ∈ r.1, r.2.Describes idOf id a
  absent : r.1 = none → ∀ e ∈ r.2.attrCache.entries.all, e.key ≠ id

/-- The outcome of a call that returns the attribute entry with an id. -/
structure Got (id : UInt32) (s : Caches σ) (r : Except Int Nat × Caches σ) : Prop where
  tidy : r.2.Tidy idOf
  beside : s.Beside r.2
  describes : ∀ a, r.1 = .ok a → r.2.Describes idOf id a

variable {idOf} {w : World σ} {s s' s'' : Caches σ} {id : UInt32} {a : Nat}

theorem Beside.refl (s : Caches σ) : s.Beside s := ⟨rfl, rfl, Nat.le_refl _⟩

theorem Beside.trans (h : s.Beside s') (h' : s'.Beside s'') : s.Beside s'' :=
  ⟨h'.dirCache.trans h.dirCache, h'.dces.trans h.dces, Nat.le_trans h.next h'.next⟩

theorem Beside.env (s : Caches σ) (env : σ) : s.Beside { s with env := env } :=
  ⟨rfl, rfl, Nat.le_refl _⟩

theorem Lists.beside {d : Nat} (h : s.Lists id d) (hb : s.Beside s') : s'.Lists id d :=
  ⟨Nat.lt_of_lt_of_le h.lt hb.next, by rw [hb.dces]; exact h.fileId⟩

/-- A step beside the directories needs a look at the attributes only. -/
theorem Tidy.beside (h : s.Tidy idOf) (hb : s.Beside s')
    (hattrs : s'.attrCache.Indexed hashFunc (s'.Describes idOf)) : s'.Tidy idOf where
  attrs := hattrs
  dirs := by
    rw [hb.dirCache]
    exact h.dirs.mono fun k d hd => hd.beside hb
  names := by
    rw [hb.dces]
    exact h.names
  hashes := by
    rw [hb.dces]
    exact h.hashes

/-- A step that leaves the entries as they are. -/
theorem Tidy.tables (h : s.Tidy idOf) {ta td : FTHashTable UInt32 Nat} (env : σ)
    (hattrs : ta.Indexed hashFunc (s.Describes idOf)) (hdirs : td.Indexed hashFunc s.Lists) :
    { s with env := env, attrCache := ta, dirCache := td }.Tidy idOf where
  attrs := hattrs.mono fun _ _ hd => ⟨hd.lt, hd.fileId, hd.attr, hd.handle⟩
  dirs := hdirs.mono fun _ _ hd => ⟨hd.lt, hd.fileId⟩
  names := h.names
  hashes := h.hashes

theorem Tidy.env (h : s.Tidy idOf) (env : σ) : { s with env := env }.Tidy idOf :=
  h.tables env h.attrs h.dirs

theorem attrsLookupFromFileId_found (h : s.Tidy idOf) (id : UInt32) :
    Found idOf id s (s.attrsLookupFromFileId w id) where
  tidy := h.tables _ (h.attrs.fthashLookup id _) h.dirs
  beside := ⟨rfl, rfl, Nat.le_refl _⟩
  describes a ha := by
    obtain ⟨hlt, hid, hattr, hfh⟩ := h.attrs.fthashLookup_some keyCmp_iff ha
    exact ⟨hlt, hid, hattr, hfh⟩
  absent hnone := h.attrs.fthashLookup_none keyCmp_iff hnone

/-- A new attribute entry leaves the others alone. -/
theorem Describes.create (h : s.Describes idOf id a) (e : ACEntry) (env : σ)
    (t : FTHashTable UInt32 Nat) :
    { s with
        env := env, attrCache := t, next := s.next + 1
        aces := Function.update s.aces s.next e }.Describes idOf id a := by
  have hne : Function.update s.aces s.next e a = s.aces a :=
    Function.update_of_ne (Nat.ne_of_lt h.lt) _ _
  constructor
  · exact Nat.lt_succ_of_lt h.lt
  · simpa only [hne] using h.fileId
  · simpa only [hne] using h.attr
  · simpa only [hne] using h.handle

theorem attrsCreateAndInsert_found (h : s.Tidy idOf) {fh : List UInt8} {attr : Fattr}
    (hattr : attr.fileid = idOf fh) (hnew : ∀ e ∈ s.attrCache.entries.all, e.key ≠ attr.fileid) :
    Found idOf attr.fileid s (s.attrsCreateAndInsert w fh attr) := by
  unfold attrsCreateAndInsert
  dsimp only
  split
  · let made : Caches σ := { s with
      next := s.next + 1
      aces := Function.update s.aces s.next ⟨attr.fileid, fh, attr⟩ }
    have hself : made.Describes idOf attr.fileid s.next := by
      constructor
      · exact Nat.lt_succ_self _
      · simp [made]
      · simp [made]
      · simp [made, hattr]
    have hold : s.attrCache.Indexed hashFunc (made.Describes idOf) :=
      h.attrs.mono fun _ _ hd => hd.create _ s.env s.attrCache
    generalize w.memOk (w.memOk s.env).2 = m
    have hins := hold.fthashInsert hnew hself m.1 (w.now m.2).1
    constructor
    · refine h.beside ⟨rfl, rfl, Nat.le_succ _⟩ (hins.mono fun _ _ hd => ?_)
      exact ⟨hd.lt, hd.fileId, hd.attr, hd.handle⟩
    · exact ⟨rfl, rfl, Nat.le_succ _⟩
    · intro a ha
      dsimp only at ha
      split at ha
      · obtain rfl := Option.some.inj ha
        exact ⟨hself.lt, hself.fileId, hself.attr, hself.handle⟩
      · exact absurd ha (by simp)
    · intro hnone e he
      rcases FTHashTable.mem_fthashInsert he with hmem | ⟨-, hok⟩
      · exact hnew e hmem
      · rw [if_pos hok] at hnone
        exact absurd hnone (by simp)
  · exact {
      tidy := h.env _
      beside := ⟨rfl, rfl, Nat.le_refl _⟩
      describes := fun a ha => absurd ha (by simp)
      absent := fun _ => hnew }

/-- An attribute entry gets new contents about the same object. -/
theorem Describes.update {k : UInt32} {b : Nat} (h : s.Describes idOf k b)
    (ha : s.Describes idOf id a) {fh : List UInt8} {attr : Fattr} (hid : attr.fileid = id)
    (hattr : attr.fileid = idOf fh) :
    { s with aces := Function.update s.aces a ⟨(s.aces a).fileId, fh, attr⟩ }.Describes idOf k
      b := by
  by_cases hb : b = a
  · subst hb
    have hk : k = attr.fileid := h.fileId.symm.trans (ha.fileId.trans hid.symm)
    constructor
    · exact h.lt
    · simpa using h.fileId
    · simpa using hk.symm
    · simpa using hattr.symm.trans hk.symm
  · constructor
    · exact h.lt
    · simpa [hb] using h.fileId
    · simpa [hb] using h.attr
    · simpa [hb] using h.handle

theorem attrsUpdate_found (h : s.Tidy idOf) {fh : List UInt8} {attr : Fattr}
    (hattr : attr.fileid = idOf fh) : Found idOf attr.fileid s (s.attrsUpdate w fh attr) := by
  have hfound := attrsLookupFromFileId_found (w := w) h attr.fileid
  unfold attrsUpdate
  generalize s.attrsLookupFromFileId w attr.fileid = r at *
  obtain ⟨_ | a, s₁⟩ := r
  · have hins := attrsCreateAndInsert_found (w := w) hfound.tidy hattr (hfound.absent rfl)
    exact { hins with beside := hfound.beside.trans hins.beside }
  · have ha := hfound.describes a rfl
    constructor
    · exact hfound.tidy.beside ⟨rfl, rfl, Nat.le_refl _⟩
        (hfound.tidy.attrs.mono fun _ _ hd => hd.update ha rfl hattr)
    · exact hfound.beside.trans ⟨rfl, rfl, Nat.le_refl _⟩
    · rintro b hb
      obtain rfl : a = b := Option.some.inj hb
      exact ha.update ha rfl hattr
    · exact fun hnone => absurd hnone (by simp)

theorem Got.error (htidy : s'.Tidy idOf) (hb : s.Beside s') (res2 : Int) :
    Got idOf id s (.error res2, s') :=
  ⟨htidy, hb, fun _ ha => absurd ha (by simp)⟩

theorem Got.ok (htidy : s'.Tidy idOf) (hb : s.Beside s') (hdesc : s'.Describes idOf id a) :
    Got idOf id s (.ok a, s') := by
  refine ⟨htidy, hb, fun b hab => ?_⟩
  obtain rfl : a = b := Except.ok.inj hab
  exact hdesc

theorem Got.after {r : Except Int Nat × Caches σ} (hb : s.Beside s') (h : Got idOf id s' r) :
    Got idOf id s r :=
  ⟨h.tidy, hb.trans h.beside, h.describes⟩

theorem attrsRefresh_found (h : s.Tidy idOf) {fh : List UInt8} {attr : Fattr}
    (hattr : attr.fileid = idOf fh) : Found idOf attr.fileid s (s.attrsRefresh w fh attr) := by
  have hfound := attrsLookupFromFileId_found (w := w) h attr.fileid
  unfold attrsRefresh
  generalize s.attrsLookupFromFileId w attr.fileid = r at *
  obtain ⟨_ | a, s₁⟩ := r
  · exact hfound
  · have hupd := attrsUpdate_found (w := w) hfound.tidy hattr
    exact { hupd with beside := hfound.beside.trans hupd.beside }

theorem attrsStore_got (h : s.Tidy idOf) {fh : List UInt8} {attr : Fattr}
    (hattr : attr.fileid = idOf fh) : Got idOf attr.fileid s (s.attrsStore w fh attr) := by
  have hfound := attrsRefresh_found (w := w) h hattr
  unfold attrsStore
  generalize s.attrsRefresh w fh attr = r at *
  obtain ⟨_ | a, s₁⟩ := r
  · have hins := attrsCreateAndInsert_found (w := w) hfound.tidy hattr (hfound.absent rfl)
    dsimp only at hins ⊢
    generalize s₁.attrsCreateAndInsert w fh attr = r at *
    obtain ⟨_ | a, s₂⟩ := r
    · exact Got.error hins.tidy (hfound.beside.trans hins.beside) _
    · exact Got.ok hins.tidy (hfound.beside.trans hins.beside) (hins.describes a rfl)
  · exact Got.ok hfound.tidy hfound.beside (hfound.describes a rfl)

/-- `c_GetAttr` for the id of the handle, or without an id. -/
theorem cGetAttr_got (hw : Consistent idOf w) (h : s.Tidy idOf) {fileId : UInt32}
    {nfsFh : List UInt8}
    (hid : fileId ≠ dceIdUnused → fileId = idOf nfsFh) :
    Got idOf (idOf nfsFh) s (s.cGetAttr w fileId nfsFh) := by
  have hcached : (s.attrsCached w fileId).2.Tidy idOf ∧ s.Beside (s.attrsCached w fileId).2 ∧
      ∀ a ∈ (s.attrsCached w fileId).1,
        (s.attrsCached w fileId).2.Describes idOf (idOf nfsFh) a := by
    unfold attrsCached
    split
    · next hused =>
        rw [← hid hused]
        have hlook := attrsLookupFromFileId_found (w := w) h fileId
        exact ⟨hlook.tidy, hlook.beside, hlook.describes⟩
    · exact ⟨h, Beside.refl s, fun a ha => absurd ha (by simp)⟩
  unfold cGetAttr
  generalize s.attrsCached w fileId = r at *
  obtain ⟨htidy, hbeside, hdesc⟩ := hcached
  obtain ⟨_ | a, s₁⟩ := r
  · have hserver := hw.getAttr s₁.env nfsFh
    dsimp only at htidy hbeside ⊢
    generalize w.getAttr s₁.env nfsFh = g at *
    obtain ⟨res2 | attr, env⟩ := g
    · exact Got.error (htidy.env env) (hbeside.trans (Beside.env s₁ env)) res2
    · have hattr := hserver attr rfl
      have hstore := attrsStore_got (w := w) (htidy.env env) hattr
      rw [hattr] at hstore
      exact Got.after (hbeside.trans (Beside.env s₁ env)) hstore
  · exact Got.ok htidy hbeside (hdesc a rfl)

theorem dcNELookup_spec (h : s.Tidy idOf) (d : Nat) (name : List UInt8) :
    (s.dcNELookup d name).2.Tidy idOf ∧ (s.dcNELookup d name).2.dces = s.dces ∧
      ((s.dcNELookup d name).1 = none → ∀ n ∈ (s.dces d).entries, n.name ≠ name) := by
  unfold dcNELookup
  dsimp only
  cases hfind : (s.dces d).entries.find? fun n => neStr2Hash name = n.hash ∧ name = n.name with
  | none =>
      refine ⟨h, rfl, fun _ n hn hname => ?_⟩
      have hno := List.find?_eq_none.mp hfind n hn
      rw [h.hashes d n hn, hname] at hno
      exact absurd hno (by simp)
  | some nent => exact ⟨h.tables _ h.attrs h.dirs.fthashLock, rfl, fun hno => absurd hno (by simp)⟩

/-- The contents of one directory entry change; its object is the same. -/
theorem Tidy.update (h : s.Tidy idOf) (d : Nat) (dir : DCEntry) (env : σ)
    {td : FTHashTable UInt32 Nat} {next : Nat} (hnext : s.next ≤ next)
    (hdirs : td.Indexed hashFunc s.Lists) (hid : dir.fileId = (s.dces d).fileId)
    (hnames : (dir.entries.map NEntry.name).Nodup)
    (hhashes : ∀ n ∈ dir.entries, n.hash = neStr2Hash n.name) :
    { s with
        env := env, dirCache := td, next := next
        dces := Function.update s.dces d dir }.Tidy idOf := by
  constructor
  · exact h.attrs.mono fun _ _ hd => ⟨Nat.lt_of_lt_of_le hd.lt hnext, hd.fileId, hd.attr, hd.handle⟩
  · refine hdirs.mono fun k d' hd => ⟨Nat.lt_of_lt_of_le hd.lt hnext, ?_⟩
    by_cases hd' : d' = d
    · subst hd'
      simpa [hid] using hd.fileId
    · simpa [hd'] using hd.fileId
  · intro d'
    by_cases hd' : d' = d
    · subst hd'
      simpa using hnames
    · simpa [hd'] using h.names d'
  · intro d'
    by_cases hd' : d' = d
    · subst hd'
      simpa using hhashes
    · simpa [hd'] using h.hashes d'

theorem dcNECreateAndInsert_tidy (h : s.Tidy idOf) {d : Nat} {name : List UInt8}
    (hnew : ∀ n ∈ (s.dces d).entries, n.name ≠ name) (fType fileId : UInt32) :
    (s.dcNECreateAndInsert w d name fType fileId).2.Tidy idOf := by
  unfold dcNECreateAndInsert
  dsimp only
  split
  · split
    · refine h.update d _ _ (Nat.le_succ _) h.dirs.fthashLock rfl ?_ ?_
      · refine List.nodup_cons.mpr ⟨fun hmem => ?_, h.names d⟩
        obtain ⟨n, hn, hname⟩ := List.mem_map.mp hmem
        exact hnew n hn hname
      · exact List.forall_mem_cons.mpr ⟨rfl, h.hashes d⟩
    · exact h.env _
  · exact h.env _

theorem dcNERemove_tidy (h : s.Tidy idOf) (d parNEnt : Nat) :
    (s.dcNERemove d parNEnt).Tidy idOf := by
  refine h.update d _ s.env (Nat.le_refl _) h.dirs rfl ?_ ?_
  · exact (h.names d).sublist ((List.eraseP_sublist).map _)
  · exact fun n hn => h.hashes d n (List.mem_of_mem_eraseP hn)

theorem nameStore_tidy (h : s.Tidy idOf) {d : Nat} {nent : Option NEntry} {name : List UInt8}
    (hnew : nent = none → ∀ n ∈ (s.dces d).entries, n.name ≠ name) (fType fileId : UInt32) :
    (s.nameStore w d nent name fType fileId).2.Tidy idOf := by
  cases nent with
  | none => exact dcNECreateAndInsert_tidy h (hnew rfl) fType fileId
  | some nent =>
      refine h.update d _ s.env (Nat.le_refl _) h.dirs rfl ?_ ?_
      · have hmap : ∀ n : NEntry, (if n.addr = nent.addr then
            { n with ftype := fType, fileId := fileId } else n).name = n.name := by
          intro n
          split <;> rfl
        simpa only [List.map_map, Function.comp_def, hmap] using h.names d
      · intro n hn
        obtain ⟨n₀, hn₀, rfl⟩ := List.mem_map.mp hn
        split
        · exact h.hashes d n₀ hn₀
        · exact h.hashes d n₀ hn₀

theorem Describes.keep (h : s.Describes idOf id a) (haces : s'.aces = s.aces)
    (hnext : s.next ≤ s'.next) :
    s'.Describes idOf id a :=
  ⟨Nat.lt_of_lt_of_le h.lt hnext, by rw [haces]; exact h.fileId, by rw [haces]; exact h.attr,
    by rw [haces]; exact h.handle⟩

theorem nameStore_keeps (d : Nat) (nent : Option NEntry) (name : List UInt8)
    (fType fileId : UInt32) :
    (s.nameStore w d nent name fType fileId).2.aces = s.aces ∧
      s.next ≤ (s.nameStore w d nent name fType fileId).2.next ∧
      ∀ n ∈ (s.nameStore w d nent name fType fileId).1, n.fileId = fileId := by
  cases nent with
  | none =>
      unfold nameStore dcNECreateAndInsert
      dsimp only
      split
      · split
        · refine ⟨rfl, Nat.le_succ _, fun n hn => ?_⟩
          obtain rfl := Option.some.inj hn
          rfl
        · exact ⟨rfl, Nat.le_refl _, fun n hn => absurd hn (by simp)⟩
      · exact ⟨rfl, Nat.le_refl _, fun n hn => absurd hn (by simp)⟩
  | some nent =>
      refine ⟨rfl, Nat.le_refl _, fun n hn => ?_⟩
      obtain rfl := Option.some.inj hn
      rfl

theorem nameFromCache_spec (h : s.Tidy idOf) (nent : Option NEntry) (acep : Bool) :
    (s.nameFromCache w nent acep).2.Tidy idOf ∧ s.Beside (s.nameFromCache w nent acep).2 ∧
      ∀ n a, (s.nameFromCache w nent acep).1 = some (n, some a) →
        (s.nameFromCache w nent acep).2.Describes idOf n.fileId a := by
  unfold nameFromCache
  cases nent with
  | none => exact ⟨h, Beside.refl s, fun n a ha => absurd ha (by simp)⟩
  | some nent =>
      cases acep with
      | false => exact ⟨h, Beside.refl s, fun n a ha => absurd ha (by simp)⟩
      | true =>
          have hfound := attrsLookupFromFileId_found (w := w) h nent.fileId
          dsimp only
          rw [if_pos rfl]
          generalize s.attrsLookupFromFileId w nent.fileId = r at *
          obtain ⟨_ | a, s₁⟩ := r
          · exact ⟨hfound.tidy, hfound.beside, fun n a ha => absurd ha (by simp)⟩
          · refine ⟨hfound.tidy, hfound.beside, fun n b hb => ?_⟩
            obtain ⟨rfl, hab⟩ := Prod.mk.inj (Option.some.inj hb)
            obtain rfl := Option.some.inj hab
            exact hfound.describes a rfl

/-- `GetNameEntry`: the two entries that it returns are about one object. -/
theorem getNameEntry_spec (hw : Consistent idOf w) (h : s.Tidy idOf) (d : Nat) (name : List UInt8)
    (acep : Bool) :
    (s.getNameEntry w d name acep).2.Tidy idOf ∧
      ∀ n a, (s.getNameEntry w d name acep).1 = .ok (n, some a) →
        (s.getNameEntry w d name acep).2.Describes idOf n.fileId a := by
  obtain ⟨htidy, hdces, hnew⟩ := dcNELookup_spec h d name
  unfold getNameEntry
  dsimp only
  generalize s.dcNELookup d name = looked at *
  obtain ⟨nent, s₁⟩ := looked
  dsimp only at htidy hdces hnew ⊢
  obtain ⟨htidy₂, hbeside₂, hdesc₂⟩ := nameFromCache_spec (w := w) htidy nent acep
  generalize s₁.nameFromCache w nent acep = r at *
  obtain ⟨_ | ⟨n, a⟩, s₂⟩ := r
  · dsimp only at htidy₂ hbeside₂ ⊢
    have hserver := hw.lookup s₂.env (s₂.dces d).nfsFh name
    generalize w.lookup s₂.env (s₂.dces d).nfsFh name = g at *
    obtain ⟨res2 | dirent, env⟩ := g
    · exact ⟨htidy₂.env env, fun n a ha => absurd ha (by simp)⟩
    · have hstore := attrsStore_got (w := w) (htidy₂.env env) (hserver dirent rfl)
      dsimp only at hstore ⊢
      generalize { s₂ with env := env }.attrsStore w dirent.file dirent.attributes = st at *
      obtain ⟨res2 | ace, s₃⟩ := st
      · exact ⟨hstore.tidy, fun n a ha => absurd ha (by simp)⟩
      · have hdesc := hstore.describes ace rfl
        have hdces₃ : s₃.dces = s.dces := (hstore.beside.dces.trans hbeside₂.dces).trans hdces
        dsimp only
        have hname : (s₃.nameStore w d nent name dirent.attributes.type (s₃.aces ace).fileId).2.Tidy
            idOf := nameStore_tidy hstore.tidy (by rw [hdces₃]; exact hnew) _ _
        obtain ⟨haces, hnext, hfile⟩ := nameStore_keeps (w := w) (s := s₃) d nent name
          dirent.attributes.type (s₃.aces ace).fileId
        generalize s₃.nameStore w d nent name dirent.attributes.type (s₃.aces ace).fileId = q at *
        obtain ⟨_ | n, s₄⟩ := q
        · exact ⟨hname, fun n a ha => absurd ha (by simp)⟩
        · refine ⟨hname, fun n' a' ha => ?_⟩
          obtain ⟨rfl, hace⟩ := Prod.mk.inj (Except.ok.inj ha)
          obtain rfl := Option.some.inj hace
          rw [hfile n rfl, hdesc.fileId]
          exact hdesc.keep haces hnext
  · refine ⟨htidy₂, fun n' a' ha => ?_⟩
    obtain ⟨rfl, rfl⟩ := Prod.mk.inj (Except.ok.inj ha)
    exact hdesc₂ n a' rfl

theorem dcDCELookupFromFileId_spec (h : s.Tidy idOf) (id : UInt32) :
    (s.dcDCELookupFromFileId w id).2.Tidy idOf ∧
      ((s.dcDCELookupFromFileId w id).1 = none →
        ∀ e ∈ (s.dcDCELookupFromFileId w id).2.dirCache.entries.all, e.key ≠ id) :=
  ⟨h.tables _ h.attrs (h.dirs.fthashLookup id _),
    fun hnone => h.dirs.fthashLookup_none keyCmp_iff hnone⟩

theorem dcDCECreateAndInsert_tidy (h : s.Tidy idOf) {fileid : UInt32}
    (hnew : ∀ e ∈ s.dirCache.entries.all, e.key ≠ fileid) (fh : List UInt8) :
    (s.dcDCECreateAndInsert w fileid fh).2.Tidy idOf := by
  unfold dcDCECreateAndInsert
  dsimp only
  split
  · let made : Caches σ := { s with
      next := s.next + 1
      dces := Function.update s.dces s.next ⟨fileid, fh, []⟩ }
    have hself : made.Lists fileid s.next := ⟨Nat.lt_succ_self _, by simp [made]⟩
    have hold : s.dirCache.Indexed hashFunc made.Lists := by
      refine h.dirs.mono fun k d hd => ⟨Nat.lt_succ_of_lt hd.lt, ?_⟩
      simpa only [made, Function.update_of_ne (Nat.ne_of_lt hd.lt)] using hd.fileId
    generalize w.memOk (w.memOk s.env).2 = m
    have hins := hold.fthashInsert hnew hself m.1 (w.now m.2).1
    constructor
    · exact h.attrs.mono fun _ _ hd => ⟨Nat.lt_succ_of_lt hd.lt, hd.fileId, hd.attr, hd.handle⟩
    · exact hins.mono fun _ _ hd => ⟨hd.lt, hd.fileId⟩
    · intro d
      by_cases hd : d = s.next
      · subst hd
        simp
      · simpa [hd] using h.names d
    · intro d
      by_cases hd : d = s.next
      · subst hd
        simp
      · simpa [hd] using h.hashes d
  · exact h.env _

/-- `GetDirEntry` for the id of the handle. Without an id there must be no entry yet. -/
theorem getDirEntry_tidy (hw : Consistent idOf w) (h : s.Tidy idOf) {actDirId : UInt32}
    {actDirFh : List UInt8} (hid : actDirId ≠ dceIdUnused → actDirId = idOf actDirFh)
    (hunset : actDirId = dceIdUnused → ∀ e ∈ s.dirCache.entries.all, e.key ≠ idOf actDirFh) :
    (s.getDirEntry w actDirId actDirFh).2.Tidy idOf := by
  have hcached : (s.dirCached w actDirId).2.Tidy idOf ∧
      ((s.dirCached w actDirId).1 = none →
        ∀ e ∈ (s.dirCached w actDirId).2.dirCache.entries.all, e.key ≠ idOf actDirFh) := by
    unfold dirCached
    split
    · next hused =>
        rw [← hid hused]
        exact dcDCELookupFromFileId_spec h actDirId
    · next hunused => exact ⟨h, fun _ => hunset (not_not.mp hunused)⟩
  unfold getDirEntry
  generalize s.dirCached w actDirId = r at *
  obtain ⟨_ | d, s₁⟩ := r
  · obtain ⟨htidy, habsent⟩ := hcached
    dsimp only at htidy habsent ⊢
    have hgot := cGetAttr_got hw htidy hid
    generalize s₁.cGetAttr w actDirId actDirFh = g at *
    obtain ⟨res2 | ace, s₂⟩ := g
    · exact hgot.tidy
    · have hdesc := hgot.describes ace rfl
      dsimp only
      have hins : (s₂.dcDCECreateAndInsert w (s₂.aces ace).fileId actDirFh).2.Tidy idOf :=
        dcDCECreateAndInsert_tidy hgot.tidy
          (by rw [hdesc.fileId, hgot.beside.dirCache]; exact habsent rfl) actDirFh
      generalize s₂.dcDCECreateAndInsert w (s₂.aces ace).fileId actDirFh = q at *
      obtain ⟨_ | d, s₃⟩ := q
      · exact hins
      · exact hins
  · exact hcached.1

end Caches

end Tidy

end Anfs.Tree
