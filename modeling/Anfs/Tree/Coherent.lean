import Anfs.Tree.Export

/-!
# Names as the server has them

The name entries of a directory in the cache are what the server answers for their names, whatever
the functions of the caches are asked for.
-/
namespace Anfs.Tree
open Anfs.Cache Anfs.Lib Anfs.Nfs Anfs.Xdr

namespace Caches
variable {σ : Type} (idOf : List UInt8 → UInt32) (N : DirNames)

/-- The directory entry at `d` is about the directory with this id, and the server finds what its
name entries say. -/
structure Knows (s : Caches σ) (id : UInt32) (d : Nat) : Prop where
  lists : s.Lists id d
  handle : idOf (s.dces d).nfsFh = id
  binds : ∀ n ∈ (s.dces d).entries, resolve (N id) n.name = some n.fileId
  addrs : ((s.dces d).entries.map NEntry.addr).Nodup
  made : ∀ n ∈ (s.dces d).entries, n.addr < s.next

/-- The caches are tidy and know the names `N`. -/
structure Coherent (s : Caches σ) : Prop where
  tidy : s.Tidy idOf
  dirs : s.dirCache.Indexed hashFunc (s.Knows idOf N)

/-- A step after which the caches know the names, and the directory entries that did still do. -/
structure Grows (s s' : Caches σ) : Prop where
  coherent : s'.Coherent idOf N
  known : ∀ id d, s.Knows idOf N id d → s'.Knows idOf N id d

variable {idOf N} {names : σ → DirNames} {w : World σ} {s s' s'' : Caches σ} {id : UInt32} {d : Nat}

theorem Knows.keep (h : s.Knows idOf N id d) (hdces : s'.dces d = s.dces d)
    (hnext : s.next ≤ s'.next) :
    s'.Knows idOf N id d where
  lists := ⟨Nat.lt_of_lt_of_le h.lists.lt hnext, by rw [hdces]; exact h.lists.fileId⟩
  handle := by rw [hdces]; exact h.handle
  binds := by rw [hdces]; exact h.binds
  addrs := by rw [hdces]; exact h.addrs
  made := by
    rw [hdces]
    exact fun n hn => Nat.lt_of_lt_of_le (h.made n hn) hnext

theorem Grows.refl (h : s.Coherent idOf N) : Grows idOf N s s := ⟨h, fun _ _ hd => hd⟩

theorem Grows.trans (h : Grows idOf N s s') (h' : Grows idOf N s' s'') : Grows idOf N s s'' :=
  ⟨h'.coherent, fun id d hd => h'.known id d (h.known id d hd)⟩

/-- A step that leaves the directories alone. -/
theorem Coherent.beside (h : s.Coherent idOf N) (ht : s'.Tidy idOf)
    (hb : s.Beside s') : Grows idOf N s s' := by
  have hkeep : ∀ id d, s.Knows idOf N id d → s'.Knows idOf N id d :=
    fun id d hd => hd.keep (congrFun hb.dces d) hb.next
  refine ⟨⟨ht, ?_⟩, hkeep⟩
  rw [hb.dirCache]
  exact h.dirs.mono hkeep

/-- A step that leaves the entries as they are. -/
theorem Coherent.tables (h : s.Coherent idOf N) {ta td : FTHashTable UInt32 Nat} (env : σ)
    (hattrs : ta.Indexed hashFunc (s.Describes idOf))
    (hdirs : td.Indexed hashFunc (s.Knows idOf N)) :
    Grows idOf N s { s with env := env, attrCache := ta, dirCache := td } := by
  have hkeep : ∀ id d, s.Knows idOf N id d →
      { s with env := env, attrCache := ta, dirCache := td }.Knows idOf N id d :=
    fun id d hd => hd.keep rfl (Nat.le_refl _)
  exact ⟨⟨h.tidy.tables env hattrs (hdirs.mono fun _ _ hd => hd.lists), hdirs.mono hkeep⟩, hkeep⟩

theorem Coherent.env (h : s.Coherent idOf N) (env : σ) : Grows idOf N s { s with env := env } :=
  h.tables env h.tidy.attrs h.dirs

/-- The contents of a directory entry change. -/
theorem Coherent.update (h : s.Coherent idOf N) (d : Nat) (dir : DCEntry) (env : σ)
    {td : FTHashTable UInt32 Nat} {next : Nat} (hnext : s.next ≤ next)
    (hdirs : td.Indexed hashFunc (s.Knows idOf N)) (hid : dir.fileId = (s.dces d).fileId)
    (hnames : (dir.entries.map NEntry.name).Nodup)
    (hhashes : ∀ n ∈ dir.entries, n.hash = neStr2Hash n.name)
    (hself : ∀ id, s.Knows idOf N id d →
      { s with env := env, dirCache := td, next := next, dces :=
        Function.update s.dces d dir }.Knows idOf N id d) :
    Grows idOf N s
      { s with env := env, dirCache := td, next := next, dces :=
        Function.update s.dces d dir } := by
  have hkeep : ∀ id d', s.Knows idOf N id d' →
      { s with env := env, dirCache := td, next := next, dces :=
        Function.update s.dces d dir }.Knows idOf N id d' := by
    intro id d' hd'
    by_cases heq : d' = d
    · rw [heq] at hd' ⊢
      exact hself id hd'
    · exact hd'.keep (Function.update_of_ne heq _ _) hnext
  refine ⟨⟨?_, hdirs.mono hkeep⟩, hkeep⟩
  exact h.tidy.update d dir env hnext (hdirs.mono fun _ _ hd => hd.lists) hid hnames hhashes

theorem dcNELookup_grows (h : s.Coherent idOf N) (d : Nat) (name : List UInt8) :
    Grows idOf N s (s.dcNELookup d name).2 ∧
      ∀ n ∈ (s.dcNELookup d name).1, n ∈ (s.dces d).entries ∧ n.name = name := by
  unfold dcNELookup
  dsimp only
  cases hfind : (s.dces d).entries.find? fun n => neStr2Hash name = n.hash ∧ name = n.name with
  | none => exact ⟨Grows.refl h, fun n hn => absurd hn (by simp)⟩
  | some nent =>
      refine ⟨h.tables _ h.tidy.attrs h.dirs.fthashLock, ?_⟩
      rintro n ⟨⟩
      have hname : neStr2Hash name = nent.hash ∧ name = nent.name := by
        simpa using List.find?_some hfind
      exact ⟨List.mem_of_find?_eq_some hfind, hname.2.symm⟩

theorem dcNECreateAndInsert_grows (h : s.Coherent idOf N) {name : List UInt8} {fileId : UInt32}
    (hnew : ∀ n ∈ (s.dces d).entries, n.name ≠ name)
    (hbind : ∀ id, s.Knows idOf N id d → resolve (N id) name = some fileId) (fType : UInt32) :
    Grows idOf N s (s.dcNECreateAndInsert w d name fType fileId).2 ∧
      ∀ n ∈ (s.dcNECreateAndInsert w d name fType fileId).1,
        n ∈ ((s.dcNECreateAndInsert w d name fType fileId).2.dces d).entries ∧ n.name = name := by
  unfold dcNECreateAndInsert
  dsimp only
  split
  · split
    · constructor
      · refine h.update d _ _ (Nat.le_succ _) h.dirs.fthashLock rfl ?_ ?_ fun id hd => ?_
        · refine List.nodup_cons.mpr ⟨fun hmem => ?_, h.tidy.names d⟩
          obtain ⟨n, hn, hname⟩ := List.mem_map.mp hmem
          exact hnew n hn hname
        · exact List.forall_mem_cons.mpr ⟨rfl, h.tidy.hashes d⟩
        · constructor
          · exact ⟨Nat.lt_succ_of_lt hd.lists.lt, by simpa using hd.lists.fileId⟩
          · simpa using hd.handle
          · simpa using ⟨hbind id hd, hd.binds⟩
          · simp only [Function.update_self, List.map_cons, List.nodup_cons]
            refine ⟨fun hmem => ?_, hd.addrs⟩
            obtain ⟨n, hn, haddr⟩ := List.mem_map.mp hmem
            exact absurd (hd.made n hn) (by rw [haddr]; exact Nat.lt_irrefl _)
          · simp only [Function.update_self]
            exact List.forall_mem_cons.mpr
              ⟨Nat.lt_succ_self _, fun n hn => Nat.lt_succ_of_lt (hd.made n hn)⟩
      · rintro n ⟨⟩
        simp
    · exact ⟨h.env _, fun n hn => absurd hn (by simp)⟩
  · exact ⟨h.env _, fun n hn => absurd hn (by simp)⟩

theorem nameStore_grows (h : s.Coherent idOf N) {nent : Option NEntry} {name : List UInt8}
    {fileId : UInt32}
    (hold : ∀ n ∈ nent, n ∈ (s.dces d).entries ∧ n.name = name)
    (hnew : nent = none → ∀ n ∈ (s.dces d).entries, n.name ≠ name)
    (hbind : ∀ id, s.Knows idOf N id d → resolve (N id) name = some fileId) (fType : UInt32) :
    Grows idOf N s (s.nameStore w d nent name fType fileId).2 ∧
      ∀ n ∈ (s.nameStore w d nent name fType fileId).1,
        n ∈ ((s.nameStore w d nent name fType fileId).2.dces d).entries ∧ n.name = name := by
  cases nent with
  | none => exact dcNECreateAndInsert_grows h (hnew rfl) hbind fType
  | some nent =>
      obtain ⟨hmem, hname⟩ := hold nent rfl
      have hnames : ∀ n : NEntry, (if n.addr = nent.addr then
          { n with ftype := fType, fileId := fileId } else n).name = n.name := by
        intro n
        split <;> rfl
      have haddrs : ∀ n : NEntry, (if n.addr = nent.addr then
          { n with ftype := fType, fileId := fileId } else n).addr = n.addr := by
        intro n
        split <;> rfl
      constructor
      · refine h.update d _ s.env (Nat.le_refl _) h.dirs rfl ?_ ?_ fun id hd => ?_
        · simpa only [List.map_map, Function.comp_def, hnames] using h.tidy.names d
        · intro n hn
          obtain ⟨n₀, hn₀, rfl⟩ := List.mem_map.mp hn
          split
          · exact h.tidy.hashes d n₀ hn₀
          · exact h.tidy.hashes d n₀ hn₀
        · constructor
          · exact ⟨hd.lists.lt, by simpa using hd.lists.fileId⟩
          · simpa using hd.handle
          · simp only [Function.update_self]
            intro n hn
            obtain ⟨n₀, hn₀, rfl⟩ := List.mem_map.mp hn
            split
            · next haddr =>
              obtain rfl : n₀ = nent := List.inj_on_of_nodup_map hd.addrs hn₀ hmem haddr
              rw [hname]
              exact hbind id hd
            · exact hd.binds n₀ hn₀
          · simpa only [Function.update_self, List.map_map, Function.comp_def, haddrs]
              using hd.addrs
          · simp only [Function.update_self]
            intro n hn
            obtain ⟨n₀, hn₀, rfl⟩ := List.mem_map.mp hn
            rw [haddrs]
            exact hd.made n₀ hn₀
      · rintro n ⟨⟩
        refine ⟨?_, hname⟩
        show _ ∈ (Function.update s.dces d _ d).entries
        rw [Function.update_self]
        exact List.mem_map.mpr ⟨nent, hmem, if_pos rfl⟩

theorem nameFromCache_env {P : σ → Prop} (hw : w.Keeps P) (h : P s.env)
    (nent : Option NEntry) (acep : Bool) :
    P (s.nameFromCache w nent acep).2.env := by
  unfold nameFromCache
  cases nent with
  | none => exact h
  | some nent =>
      cases acep with
      | false => exact h
      | true =>
          have hattr := attrsLookupFromFileId_env hw h nent.fileId
          dsimp only
          rw [if_pos rfl]
          generalize s.attrsLookupFromFileId w nent.fileId = r at hattr ⊢
          obtain ⟨_ | a, s₁⟩ := r
          · exact hattr
          · exact hattr

/-- What is returned without a request is the name entry that was found. -/
theorem nameFromCache_name {nent : Option NEntry} {acep : Bool} {n : NEntry} {a : Option Nat}
    (h : (s.nameFromCache w nent acep).1 = some (n, a)) : nent = some n := by
  unfold nameFromCache at h
  cases nent with
  | none => cases h
  | some nent =>
      cases acep with
      | false =>
          obtain ⟨rfl, -⟩ := Prod.mk.inj (Option.some.inj h)
          rfl
      | true =>
          dsimp only at h
          rw [if_pos rfl] at h
          generalize s.attrsLookupFromFileId w nent.fileId = r at h
          obtain ⟨_ | a', s₁⟩ := r
          · cases h
          · obtain ⟨rfl, -⟩ := Prod.mk.inj (Option.some.inj h)
            rfl

theorem nameFromCache_ace {nent : Option NEntry} {n : NEntry} {a : Option Nat}
    (h : (s.nameFromCache w nent true).1 = some (n, a)) : ∃ ace, a = some ace := by
  unfold nameFromCache at h
  cases nent with
  | none => cases h
  | some nent =>
      dsimp only at h
      rw [if_pos rfl] at h
      generalize s.attrsLookupFromFileId w nent.fileId = r at h
      obtain ⟨_ | a', s₁⟩ := r
      · cases h
      · exact ⟨a', (Prod.mk.inj (Option.some.inj h)).2.symm⟩

/-- `GetNameEntry`: what it returns is a name entry of the directory for this name. -/
theorem getNameEntry_grows (hw : Exports idOf names w) (h : s.Coherent idOf N)
    (henv : names s.env = N)
    (hd : s.Knows idOf N id d) (name : List UInt8) (acep : Bool) :
    Grows idOf N s (s.getNameEntry w d name acep).2 ∧
      ∀ n a, (s.getNameEntry w d name acep).1 = .ok (n, a) →
        n ∈ ((s.getNameEntry w d name acep).2.dces d).entries ∧ n.name = name := by
  obtain ⟨-, hdces, hnew⟩ := dcNELookup_spec h.tidy d name
  obtain ⟨hgrows, hold⟩ := dcNELookup_grows h d name
  have henv₁ : names (s.dcNELookup d name).2.env = N := by rw [dcNELookup_env]; exact henv
  unfold getNameEntry
  dsimp only
  generalize s.dcNELookup d name = looked at *
  obtain ⟨nent, s₁⟩ := looked
  dsimp only at hdces hnew hgrows hold henv₁ ⊢
  obtain ⟨htidy₂, hbeside₂, -⟩ := nameFromCache_spec (w := w) hgrows.coherent.tidy nent acep
  have henv₂ : names (s₁.nameFromCache w nent acep).2.env = N :=
    nameFromCache_env (hw.asked N) henv₁ nent acep
  have hsame := @nameFromCache_name σ w s₁ nent acep
  have hgrows₂ := hgrows.trans (hgrows.coherent.beside htidy₂ hbeside₂)
  generalize s₁.nameFromCache w nent acep = r at *
  obtain ⟨_ | ⟨n, a⟩, s₂⟩ := r
  · dsimp only at htidy₂ hbeside₂ henv₂ hgrows₂ ⊢
    have hd₂ := hgrows₂.known id d hd
    have hid := hw.lookup s₂.env (s₂.dces d).nfsFh name
    have hserver := hw.found s₂.env (s₂.dces d).nfsFh name
    have henv₃ := (hw.asked N).lookup s₂.env (s₂.dces d).nfsFh name henv₂
    generalize w.lookup s₂.env (s₂.dces d).nfsFh name = g at *
    obtain ⟨res2 | dirent, env⟩ := g
    · exact ⟨hgrows₂.trans (hgrows₂.coherent.env env), fun n a ha => absurd ha (by simp)⟩
    · have hfound := hserver dirent rfl
      have hgrows₃ := hgrows₂.trans (hgrows₂.coherent.env env)
      have hstore := attrsStore_got (w := w) hgrows₃.coherent.tidy (hid dirent rfl)
      dsimp only at hstore ⊢
      generalize { s₂ with env := env }.attrsStore w dirent.file dirent.attributes = st at *
      obtain ⟨res2 | ace, s₃⟩ := st
      · exact ⟨hgrows₃.trans (hgrows₃.coherent.beside hstore.tidy hstore.beside),
          fun n a ha => absurd ha (by simp)⟩
      · have hgrows₄ := hgrows₃.trans (hgrows₃.coherent.beside hstore.tidy hstore.beside)
        have hdces₃ : s₃.dces = s.dces := (hstore.beside.dces.trans hbeside₂.dces).trans hdces
        have hbind : ∀ id', s₃.Knows idOf N id' d →
            resolve (N id') name = some (s₃.aces ace).fileId := by
          intro id' hd'
          rw [(hstore.describes ace rfl).fileId, ← hfound, henv₂, hd₂.handle]
          rw [← hd'.lists.fileId, ← (hgrows₄.known id d hd).lists.fileId]
        dsimp only
        obtain ⟨hname, hmem⟩ := @nameStore_grows σ idOf N w s₃ d hgrows₄.coherent nent _ _
          (by rw [hdces₃]; exact hold) (by rw [hdces₃]; exact hnew) hbind dirent.attributes.type
        generalize s₃.nameStore w d nent name dirent.attributes.type (s₃.aces ace).fileId = q at *
        obtain ⟨_ | n, s₄⟩ := q
        · exact ⟨hgrows₄.trans hname, fun n a ha => absurd ha (by simp)⟩
        · refine ⟨hgrows₄.trans hname, fun n' a' ha => ?_⟩
          obtain ⟨rfl, -⟩ := Prod.mk.inj (Except.ok.inj ha)
          exact hmem n rfl
  · refine ⟨hgrows₂, fun n' a' ha => ?_⟩
    obtain ⟨rfl, rfl⟩ := Prod.mk.inj (Except.ok.inj ha)
    obtain ⟨hmem, hname⟩ := hold n (hsame rfl)
    refine ⟨?_, hname⟩
    rw [hbeside₂.dces, hdces]
    exact hmem

theorem dcNERemove_grows (h : s.Coherent idOf N) (d parNEnt : Nat) :
    Grows idOf N s (s.dcNERemove d parNEnt) := by
  refine h.update d _ s.env (Nat.le_refl _) h.dirs rfl ?_ ?_ fun id hd => ?_
  · exact (h.tidy.names d).sublist ((List.eraseP_sublist).map _)
  · exact fun n hn => h.tidy.hashes d n (List.mem_of_mem_eraseP hn)
  · constructor
    · exact ⟨hd.lists.lt, by simpa using hd.lists.fileId⟩
    · simpa using hd.handle
    · simp only [Function.update_self]
      exact fun n hn => hd.binds n (List.mem_of_mem_eraseP hn)
    · simp only [Function.update_self]
      exact hd.addrs.sublist ((List.eraseP_sublist).map _)
    · simp only [Function.update_self]
      exact fun n hn => hd.made n (List.mem_of_mem_eraseP hn)

/-- With the attribute entry wanted, `GetNameEntry` returns one about the same object. -/
theorem getNameEntry_handle (hw : Exports idOf names w) (h : s.Tidy idOf) {name : List UInt8}
    {n : NEntry} {a : Option Nat}
    (hok : (s.getNameEntry w d name true).1 = .ok (n, a)) :
    idOf ((a.map fun ace => ((s.getNameEntry w d name true).2.aces ace).nfsFh).getD []) =
      n.fileId := by
  obtain ⟨ace, rfl⟩ : ∃ ace, a = some ace := by
    unfold getNameEntry at hok
    dsimp only at hok
    split at hok
    · next r _ hcache =>
      obtain rfl : r = (n, a) := Except.ok.inj hok
      exact nameFromCache_ace (congrArg Prod.fst hcache)
    · split at hok
      · cases hok
      · split at hok
        · cases hok
        · split at hok
          · exact ⟨_, ((Prod.mk.inj (Except.ok.inj hok)).2).symm⟩
          · cases hok
  exact ((getNameEntry_spec hw.toConsistent h d name true).2 n ace hok).handle

/-- No entry with the name of the removed one is left. -/
theorem dcNERemove_name (h : s.Coherent idOf N) (hd : s.Knows idOf N id d) {nent : NEntry}
    (hmem : nent ∈ (s.dces d).entries) :
    ∀ n ∈ ((s.dcNERemove d nent.addr).dces d).entries, n.name ≠ nent.name ∧
      n ∈ (s.dces d).entries := by
  unfold dcNERemove
  dsimp only
  rw [Function.update_self]
  dsimp only
  rw [eraseP_eq_filter hd.addrs]
  intro n hn
  obtain ⟨hold, haddr⟩ := List.mem_filter.mp hn
  refine ⟨fun hname => ?_, hold⟩
  obtain rfl := List.inj_on_of_nodup_map (h.tidy.names d) hold hmem hname
  exact absurd rfl (of_decide_eq_true haddr)

/-- No name entry of the directory that is in the cache can be found with the name. -/
def Unmet (s : Caches σ) (id : UInt32) (name : List UInt8) : Prop :=
  ∀ e ∈ s.dirCache.entries.all, e.key = id → ∀ d ∈ e.val, ∀ n ∈ (s.dces d).entries,
    ¬ Means n.name name

instance (s : Caches σ) (id : UInt32) (name : List UInt8) : Decidable (s.Unmet id name) :=
  inferInstanceAs
    (Decidable (∀ e ∈ s.dirCache.entries.all, e.key = id → ∀ d ∈ e.val, ∀ n ∈ (s.dces d).entries,
    ¬ Means n.name name))

/-- The names change where the cache has no entry for them. -/
theorem Coherent.elsewhere {N' : DirNames} {at_ : List (UInt32 × List UInt8)}
    (h : s.Coherent idOf N)
    (hN : Elsewhere at_ N N') (hunmet : ∀ a ∈ at_, s.Unmet a.1 a.2) : s.Coherent idOf N' where
  tidy := h.tidy
  dirs := by
    refine ⟨h.dirs.sound, h.dirs.keyed, fun e he => ?_⟩
    obtain ⟨d, hd, hknows⟩ := h.dirs.valued e he
    refine ⟨d, hd, { hknows with binds := fun n hn => ?_ }⟩
    rw [← hknows.binds n hn]
    refine (hN.resolve_eq fun a ha hkey => ?_).symm
    exact hunmet a ha e he hkey.symm d hd n hn

/-- The one name entry in the cache that can be found with the name is in `d`, and is spelled so. -/
def Own (s : Caches σ) (d : Nat) (name : List UInt8) : Prop :=
  ∀ e ∈ s.dirCache.entries.all, e.key = (s.dces d).fileId → ∀ d' ∈ e.val, ∀ n ∈ (s.dces d').entries,
    Means n.name name → d' = d ∧ n.name = name

instance (s : Caches σ) (d : Nat) (name : List UInt8) : Decidable (s.Own d name) :=
  inferInstanceAs
    (Decidable (∀ e ∈ s.dirCache.entries.all, e.key = (s.dces d).fileId → ∀ d' ∈ e.val,
    ∀ n ∈ (s.dces d').entries, Means n.name name → d' = d ∧ n.name = name))

theorem attrsDelete_grows (h : s.Coherent idOf N) (fileId : UInt32) :
    Grows idOf N s (s.attrsDelete fileId) :=
  h.tables s.env (h.tidy.attrs.fthashMarkRemoved fileId) h.dirs

theorem dcDCEDeleteFromFileId_grows (h : s.Coherent idOf N) (fileId : UInt32) :
    Grows idOf N s (s.dcDCEDeleteFromFileId fileId) :=
  h.tables s.env h.tidy.attrs (h.dirs.fthashMarkRemoved fileId)

theorem mem_dcDCEDeleteFromFileId {fileId : UInt32} {e : FTHashEntry UInt32 Nat}
    (he : e ∈ (s.dcDCEDeleteFromFileId fileId).dirCache.entries.all) : e ∈ s.dirCache.entries.all :=
  FTHashTable.mem_of_shrinks (FTHashTable.fthashRemove3_shrinks s.dirCache fileId .move) he

/-- Behind the removal of its own entry nothing can be found with the name. -/
theorem Own.unmet {name : List UInt8} (hown : s.Own d name) (h : s.Coherent idOf N)
    (hd : s.Knows idOf N id d)
    {nent : NEntry} (hmem : nent ∈ (s.dces d).entries) (hname : nent.name = name) :
    (s.dcNERemove d nent.addr).Unmet id name := by
  intro e he hkey d' hd' n hn hmeans
  have hother : d' ≠ d → (s.dcNERemove d nent.addr).dces d' = s.dces d' :=
    fun hne => Function.update_of_ne hne _ _
  by_cases heq : d' = d
  · subst heq
    obtain ⟨hdiffers, hold⟩ := dcNERemove_name h hd hmem n hn
    exact hdiffers
      ((hown e he (hkey.trans hd.lists.fileId.symm) d' hd' n hold hmeans).2.trans hname.symm)
  · rw [hother heq] at hn
    exact heq (hown e he (hkey.trans hd.lists.fileId.symm) d' hd' n hn hmeans).1

theorem Unmet.dcDCEDelete {name : List UInt8} {addr : Nat} (h : (s.dcNERemove d addr).Unmet id name)
    (fileId : UInt32) :
    ((s.dcDCEDeleteFromFileId fileId).dcNERemove d addr).Unmet id name :=
  fun e he => h e (mem_dcDCEDeleteFromFileId he)

theorem Own.dcDCEDelete {name : List UInt8} (h : s.Own d name) (fileId : UInt32) :
    (s.dcDCEDeleteFromFileId fileId).Own d name :=
  fun e he => h e (mem_dcDCEDeleteFromFileId he)

theorem dcDCECreateAndInsert_grows (h : s.Coherent idOf N) {fh : List UInt8}
    (hnew : ∀ e ∈ s.dirCache.entries.all, e.key ≠ idOf fh) :
    Grows idOf N s (s.dcDCECreateAndInsert w (idOf fh) fh).2 ∧
      ∀ d ∈ (s.dcDCECreateAndInsert w (idOf fh) fh).1,
        (s.dcDCECreateAndInsert w (idOf fh) fh).2.Knows idOf N (idOf fh) d := by
  have htidy := dcDCECreateAndInsert_tidy (w := w) h.tidy hnew fh
  unfold dcDCECreateAndInsert at htidy ⊢
  dsimp only at htidy ⊢
  split at htidy
  · next hmem =>
    rw [if_pos hmem]
    dsimp only at htidy ⊢
    let made : Caches σ := { s with
      next := s.next + 1
      dces := Function.update s.dces s.next ⟨idOf fh, fh, []⟩ }
    have hself : made.Knows idOf N (idOf fh) s.next := by
      constructor
      · exact ⟨Nat.lt_succ_self _, by simp [made]⟩
      · simp [made]
      · simp [made]
      · simp [made]
      · simp [made]
    have hkeep : ∀ id d, s.Knows idOf N id d → made.Knows idOf N id d := fun id d hd =>
      hd.keep (Function.update_of_ne (Nat.ne_of_lt hd.lists.lt) _ _) (Nat.le_succ _)
    generalize w.memOk (w.memOk s.env).2 = m at htidy ⊢
    have hins := (h.dirs.mono hkeep).fthashInsert hnew hself m.1 (w.now m.2).1
    refine ⟨⟨⟨htidy, hins.mono fun id d hd => hd.keep rfl (Nat.le_refl _)⟩, fun id d hd => ?_⟩, ?_⟩
    · exact (hkeep id d hd).keep rfl (Nat.le_refl _)
    · intro d hd
      split at hd
      · obtain rfl := Option.some.inj hd
        exact hself.keep rfl (Nat.le_refl _)
      · cases hd
  · next hmem =>
    rw [if_neg hmem]
    exact ⟨h.env _, fun d hd => absurd hd (by simp)⟩

/-- `GetDirEntry` for the id of the handle. -/
theorem getDirEntry_grows (hw : Exports idOf names w) (h : s.Coherent idOf N)
    (actDirFh : List UInt8) :
    Grows idOf N s (s.getDirEntry w (idOf actDirFh) actDirFh).2 ∧
      ∀ d, (s.getDirEntry w (idOf actDirFh) actDirFh).1 = .ok d →
        (s.getDirEntry w (idOf actDirFh) actDirFh).2.Knows idOf N (idOf actDirFh) d := by
  have hcached : Grows idOf N s (s.dirCached w (idOf actDirFh)).2 ∧
      (∀ d ∈ (s.dirCached w (idOf actDirFh)).1,
        (s.dirCached w (idOf actDirFh)).2.Knows idOf N (idOf actDirFh) d) ∧
      ((s.dirCached w (idOf actDirFh)).1 = none →
        ∀ e ∈ (s.dirCached w (idOf actDirFh)).2.dirCache.entries.all, e.key ≠ idOf actDirFh) := by
    unfold dirCached
    rw [if_pos (hw.used actDirFh)]
    have hgrows : Grows idOf N s (s.dcDCELookupFromFileId w (idOf actDirFh)).2 :=
      h.tables _ h.tidy.attrs (h.dirs.fthashLookup _ _)
    refine ⟨hgrows, fun d hd => hgrows.known _ d ?_,
      fun hnone => h.dirs.fthashLookup_none keyCmp_iff hnone⟩
    exact h.dirs.fthashLookup_some keyCmp_iff hd
  unfold getDirEntry
  generalize s.dirCached w (idOf actDirFh) = r at *
  obtain ⟨hgrows, hknown, habsent⟩ := hcached
  obtain ⟨_ | d, s₁⟩ := r
  · dsimp only at hgrows habsent ⊢
    have hgot := cGetAttr_got hw.toConsistent hgrows.coherent.tidy
      (fun _ : idOf actDirFh ≠ dceIdUnused => rfl)
    have hgrows₂ := hgrows.trans (hgrows.coherent.beside hgot.tidy hgot.beside)
    generalize s₁.cGetAttr w (idOf actDirFh) actDirFh = g at *
    obtain ⟨res2 | ace, s₂⟩ := g
    · exact ⟨hgrows₂, fun d hd => absurd hd (by simp)⟩
    · dsimp only at hgrows₂ ⊢
      rw [(hgot.describes ace rfl).fileId]
      obtain ⟨hins, hmade⟩ := @dcDCECreateAndInsert_grows σ idOf N w s₂ hgrows₂.coherent actDirFh
        (by rw [hgot.beside.dirCache]; exact habsent rfl)
      generalize s₂.dcDCECreateAndInsert w (idOf actDirFh) actDirFh = q at *
      obtain ⟨_ | d, s₃⟩ := q
      · exact ⟨hgrows₂.trans hins, fun d hd => absurd hd (by simp)⟩
      · refine ⟨hgrows₂.trans hins, fun d' hd' => ?_⟩
        obtain rfl := Except.ok.inj hd'
        exact hmade d rfl
  · refine ⟨hgrows, fun d' hd' => ?_⟩
    obtain rfl := Except.ok.inj hd'
    exact hknown d rfl

theorem attrsUnLockAll_grows (w : World σ) (h : s.Coherent idOf N) :
    ∃ s', s.attrsUnLockAll w = some s' ∧ Grows idOf N s s' ∧ s'.env = (w.now s.env).2 := by
  obtain ⟨t', out, hrun, ht'⟩ := h.tidy.attrs.fthashUnLockAll (w.now s.env).1
  refine ⟨{ s with env := (w.now s.env).2, attrCache := t' }, ?_, h.tables _ ht' h.dirs, rfl⟩
  simp [attrsUnLockAll, hrun]

theorem dcUnLockAll_grows (w : World σ) (h : s.Coherent idOf N) :
    ∃ s', s.dcUnLockAll w = some s' ∧ Grows idOf N s s' ∧ s'.env = (w.now s.env).2 := by
  obtain ⟨t', out, hrun, ht'⟩ := h.dirs.fthashUnLockAll (w.now s.env).1
  refine ⟨{ s with env := (w.now s.env).2, dirCache := t' }, ?_, h.tables _ h.tidy.attrs ht', rfl⟩
  simp [dcUnLockAll, hrun]

theorem attrsSetCacheSize_grows (w : World σ) (h : s.Coherent idOf N) (newSize : UInt32) :
    ∃ s', s.attrsSetCacheSize w newSize = some s' ∧ Grows idOf N s s' ∧
      s'.env = (w.now s.env).2 := by
  obtain ⟨t', out, hrun, ht'⟩ := h.tidy.attrs.fthashSetMaxEntries newSize (w.now s.env).1
  refine ⟨{ s with env := (w.now s.env).2, attrCache := t' }, ?_, h.tables _ ht' h.dirs, rfl⟩
  simp [attrsSetCacheSize, hrun]

theorem dcSetCacheSize_grows (w : World σ) (h : s.Coherent idOf N) (newSize : UInt32) :
    ∃ s', s.dcSetCacheSize w newSize = some s' ∧ Grows idOf N s s' ∧ s'.env = (w.now s.env).2 := by
  obtain ⟨t', out, hrun, ht'⟩ := h.dirs.fthashSetMaxEntries newSize (w.now s.env).1
  refine ⟨{ s with env := (w.now s.env).2, dirCache := t' }, ?_, h.tables _ h.tidy.attrs ht', rfl⟩
  simp [dcSetCacheSize, hrun]

theorem attrsBury_grows (w : World σ) (h : s.Coherent idOf N) : Grows idOf N s (s.attrsBury w) :=
  h.tables _ (h.tidy.attrs.fthashBury _) h.dirs

theorem dcBury_grows (w : World σ) (h : s.Coherent idOf N) : Grows idOf N s (s.dcBury w) :=
  h.tables _ h.tidy.attrs (h.dirs.fthashBury _)

theorem attrsSetCacheTimeout_grows (h : s.Coherent idOf N) (timeout : Int) :
    Grows idOf N s (s.attrsSetCacheTimeout timeout) :=
  h.tables s.env (h.tidy.attrs.fthashSetTimeToLive timeout) h.dirs

theorem dcSetCacheTimeout_grows (h : s.Coherent idOf N) (timeout : Int) :
    Grows idOf N s (s.dcSetCacheTimeout timeout) :=
  h.tables s.env h.tidy.attrs (h.dirs.fthashSetTimeToLive timeout)

end Caches

end Anfs.Tree
