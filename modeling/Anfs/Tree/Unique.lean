import Mathlib.Data.List.Nodup
import Anfs.Lib.Run
import Anfs.Tree.Tidy

/-!
# One entry for an object

The actions of the handler call the functions of the caches with an id and a handle that they
got together: those of the mount, of the two entries that `GetNameEntry` returned, or of an
answer of the server. A lock keeps such a pair.
-/
namespace Anfs.Tree
open Anfs.Cache Anfs.Lib Anfs.Nfs Anfs.Xdr

/-- The caches, and the pairs of id and handle that the handler got. -/
structure Handler (σ : Type) where
  caches : Caches σ
  pairs : List (UInt32 × List UInt8)

/-- A call that an action makes; `told` is an answer of the server to a request of its own. -/
inductive Act
  | told (fh : List UInt8) (attr : Fattr)
  | cGetAttr (fileId : UInt32) (nfsFh : List UInt8)
  | getNameEntry (actDir : Nat) (name : List UInt8) (acep : Bool)
  | getDirEntry (actDirId : UInt32) (actDirFh : List UInt8)
  | attrsLookupFromFileId (fileId : UInt32)
  | attrsUpdate (fh : List UInt8) (fAttr : Fattr)
  | attrsDelete (fileId : UInt32)
  | attrsBury
  | attrsUnLockAll
  | attrsFlush
  | attrsSetCacheTimeout (timeout : Int)
  | attrsSetCacheSize (newSize : UInt32)
  | dcDCELookupFromFileId (id : UInt32)
  | dcDCEDeleteFromFileId (id : UInt32)
  | dcNERemove (dcent : Nat) (parNEnt : Nat)
  | dcBury
  | dcUnLockAll
  | dcFlush
  | dcSetCacheTimeout (timeout : Int)
  | dcSetCacheSize (newSize : UInt32)
deriving DecidableEq

section Runs
variable {σ : Type} (w : World σ) (idOf : List UInt8 → UInt32)

namespace Handler

/-- The state behind `attrs_Init`, `dc_Init` and the mount. -/
def start (env : σ) (attrCache dirCache : FTHashTable UInt32 Nat) (mntFh : List UInt8)
    (mntAttr : Fattr) : Handler σ :=
  { caches := {
      env, attrCache, dirCache, next := 0
      aces := fun _ => default, dces := fun _ => default }
    pairs := [(mntAttr.fileid, mntFh)] }

/-- The pair of the entries that `GetNameEntry` returned. -/
def pairOf (s : Caches σ) : Except Int (NEntry × Option Nat) → List (UInt32 × List UInt8)
  | .ok (nent, some ace) => [(nent.fileId, (s.aces ace).nfsFh)]
  | .ok (_, none) => []
  | .error _ => []

/-- The effect of a call; none if it does not return. -/
def step (h : Handler σ) : Act → Option (Handler σ)
  | .told fh attr => some { h with pairs := (attr.fileid, fh) :: h.pairs }
  | .cGetAttr fileId nfsFh => some { h with caches := (h.caches.cGetAttr w fileId nfsFh).2 }
  | .getNameEntry actDir name acep =>
      let r := h.caches.getNameEntry w actDir name acep
      some { caches := r.2, pairs := pairOf r.2 r.1 ++ h.pairs }
  | .getDirEntry actDirId actDirFh =>
      some { h with caches := (h.caches.getDirEntry w actDirId actDirFh).2 }
  | .attrsLookupFromFileId fileId =>
      some { h with caches := (h.caches.attrsLookupFromFileId w fileId).2 }
  | .attrsUpdate fh fAttr => some { h with caches := (h.caches.attrsUpdate w fh fAttr).2 }
  | .attrsDelete fileId => some { h with caches := h.caches.attrsDelete fileId }
  | .attrsBury => some { h with caches := h.caches.attrsBury w }
  | .attrsUnLockAll => (h.caches.attrsUnLockAll w).map fun s => { h with caches := s }
  | .attrsFlush => some { h with caches := h.caches.attrsFlush }
  | .attrsSetCacheTimeout timeout =>
      some { h with caches := h.caches.attrsSetCacheTimeout timeout }
  | .attrsSetCacheSize newSize =>
      (h.caches.attrsSetCacheSize w newSize).map fun s => { h with caches := s }
  | .dcDCELookupFromFileId id =>
      some { h with caches := (h.caches.dcDCELookupFromFileId w id).2 }
  | .dcDCEDeleteFromFileId id => some { h with caches := h.caches.dcDCEDeleteFromFileId id }
  | .dcNERemove dcent parNEnt => some { h with caches := h.caches.dcNERemove dcent parNEnt }
  | .dcBury => some { h with caches := h.caches.dcBury w }
  | .dcUnLockAll => (h.caches.dcUnLockAll w).map fun s => { h with caches := s }
  | .dcFlush => some { h with caches := h.caches.dcFlush }
  | .dcSetCacheTimeout timeout => some { h with caches := h.caches.dcSetCacheTimeout timeout }
  | .dcSetCacheSize newSize =>
      (h.caches.dcSetCacheSize w newSize).map fun s => { h with caches := s }

/-- The pairs in a call are pairs that the handler got, and the answers of the server in it give
an object its id. -/
def Legal (h : Handler σ) : Act → Prop
  | .told fh attr => attr.fileid = idOf fh
  | .attrsUpdate fh fAttr => fAttr.fileid = idOf fh
  | .cGetAttr fileId nfsFh => (fileId, nfsFh) ∈ h.pairs
  | .getDirEntry actDirId actDirFh => (actDirId, actDirFh) ∈ h.pairs
  | _ => True

/-- `GetDirEntry` gets an id that is not the one for "unset", or finds no entry with that id. -/
def Named (h : Handler σ) : Act → Prop
  | .getDirEntry actDirId _ =>
      actDirId = dceIdUnused → ∀ e ∈ h.caches.dirCache.entries.all, e.key ≠ dceIdUnused
  | _ => True

/-- At most one entry for an object in each table, and one for a name in each directory. -/
structure Unique (s : Caches σ) : Prop where
  attrs : (s.attrCache.entries.all.map fun e => e.val.map fun a => (s.aces a).fileId).Nodup
  dirs : (s.dirCache.entries.all.map fun e => e.val.map fun d => (s.dces d).fileId).Nodup
  names : ∀ d, ((s.dces d).entries.map NEntry.name).Nodup

/-- The invariant of the runs. -/
structure Orderly (h : Handler σ) : Prop where
  tidy : h.caches.Tidy idOf
  pairs : ∀ p ∈ h.pairs, p.1 = idOf p.2

instance (h : Handler σ) (a : Act) : Decidable (h.Legal idOf a) := by
  cases a <;> (unfold Legal; infer_instance)

instance (h : Handler σ) (a : Act) : Decidable (h.Named a) := by
  cases a <;> (unfold Named; infer_instance)

variable {w idOf}

/-- A table that is a partial map has one entry for the object of a value. -/
theorem nodup_ids {t : FTHashTable UInt32 Nat} {R : UInt32 → Nat → Prop} {f : Nat → UInt32}
    (ht : t.Indexed hashFunc R) (hR : ∀ k v, R k v → f v = k) :
    (t.entries.all.map fun e => e.val.map f).Nodup := by
  have hkeys : (t.entries.all.map fun e => e.val.map f) =
      (t.entries.all.map FTHashEntry.key).map some := by
    rw [List.map_map]
    apply List.map_congr_left
    intro e he
    obtain ⟨v, hv, hkv⟩ := ht.valued e he
    rw [Option.mem_def.mp hv, Option.map_some, hR _ _ hkv]
    rfl
  rw [hkeys]
  exact List.Nodup.map (fun _ _ h => Option.some.inj h) ht.keyed.unique

theorem Orderly.unique {h : Handler σ} (ho : h.Orderly idOf) : Unique h.caches where
  attrs := nodup_ids ho.tidy.attrs fun _ _ hd => hd.fileId
  dirs := nodup_ids ho.tidy.dirs fun _ _ hd => hd.fileId
  names := ho.tidy.names

theorem Orderly.pairOf {s : Caches σ} {r : Except Int (NEntry × Option Nat)}
    (hr : ∀ n a, r = .ok (n, some a) → s.Describes idOf n.fileId a) :
    ∀ p ∈ Handler.pairOf s r, p.1 = idOf p.2 := by
  obtain res2 | ⟨nent, _ | ace⟩ := r
  · exact List.forall_mem_nil _
  · exact List.forall_mem_nil _
  · intro p hp
    obtain rfl := List.mem_singleton.mp hp
    exact (hr nent ace rfl).handle.symm

theorem Orderly.step {h : Handler σ} (hw : Consistent idOf w) (ho : h.Orderly idOf) (act : Act)
    (hok : h.Legal idOf act ∧ h.Named act) :
    ∃ h', h.step w act = some h' ∧ h'.Orderly idOf := by
  obtain ⟨hlegal, hnamed⟩ := hok
  have htidy := ho.tidy
  cases act with
  | told fh attr => exact ⟨_, rfl, htidy, List.forall_mem_cons.mpr ⟨hlegal, ho.pairs⟩⟩
  | cGetAttr fileId nfsFh =>
      exact ⟨_, rfl, (Caches.cGetAttr_got hw htidy fun _ => ho.pairs _ hlegal).tidy, ho.pairs⟩
  | getNameEntry actDir name acep =>
      obtain ⟨hnext, hdesc⟩ := Caches.getNameEntry_spec hw htidy actDir name acep
      exact ⟨_, rfl, hnext, List.forall_mem_append.mpr ⟨Orderly.pairOf hdesc, ho.pairs⟩⟩
  | getDirEntry actDirId actDirFh =>
      have hid : actDirId = idOf actDirFh := ho.pairs _ hlegal
      refine ⟨_, rfl, Caches.getDirEntry_tidy hw htidy (fun _ => hid) fun hunset => ?_, ho.pairs⟩
      rw [← hid, hunset]
      exact hnamed hunset
  | attrsLookupFromFileId fileId =>
      exact ⟨_, rfl, (Caches.attrsLookupFromFileId_found htidy fileId).tidy, ho.pairs⟩
  | attrsUpdate fh fAttr => exact ⟨_, rfl, (Caches.attrsUpdate_found htidy hlegal).tidy, ho.pairs⟩
  | attrsDelete fileId =>
      exact ⟨_, rfl, htidy.tables _ (htidy.attrs.fthashMarkRemoved fileId) htidy.dirs, ho.pairs⟩
  | attrsBury => exact ⟨_, rfl, htidy.tables _ (htidy.attrs.fthashBury _) htidy.dirs, ho.pairs⟩
  | attrsUnLockAll =>
      obtain ⟨t', out, hrun, ht'⟩ := htidy.attrs.fthashUnLockAll (w.now h.caches.env).1
      refine ⟨{ h with caches := { h.caches with env := (w.now h.caches.env).2, attrCache := t' } },
        ?_, htidy.tables _ ht' htidy.dirs, ho.pairs⟩
      simp [Handler.step, Caches.attrsUnLockAll, hrun]
  | attrsFlush => exact ⟨_, rfl, htidy.tables _ htidy.attrs.fthashFlush htidy.dirs, ho.pairs⟩
  | attrsSetCacheTimeout timeout =>
      exact ⟨_, rfl, htidy.tables _ (htidy.attrs.fthashSetTimeToLive timeout) htidy.dirs, ho.pairs⟩
  | attrsSetCacheSize newSize =>
      obtain ⟨t', out, hrun, ht'⟩ :=
        htidy.attrs.fthashSetMaxEntries newSize (w.now h.caches.env).1
      refine ⟨{ h with caches := { h.caches with env := (w.now h.caches.env).2, attrCache := t' } },
        ?_, htidy.tables _ ht' htidy.dirs, ho.pairs⟩
      simp [Handler.step, Caches.attrsSetCacheSize, hrun]
  | dcDCELookupFromFileId id =>
      exact ⟨_, rfl, (Caches.dcDCELookupFromFileId_spec htidy id).1, ho.pairs⟩
  | dcDCEDeleteFromFileId id =>
      exact ⟨_, rfl, htidy.tables _ htidy.attrs (htidy.dirs.fthashMarkRemoved id), ho.pairs⟩
  | dcNERemove dcent parNEnt =>
      exact ⟨_, rfl, Caches.dcNERemove_tidy htidy dcent parNEnt, ho.pairs⟩
  | dcBury => exact ⟨_, rfl, htidy.tables _ htidy.attrs (htidy.dirs.fthashBury _), ho.pairs⟩
  | dcUnLockAll =>
      obtain ⟨t', out, hrun, ht'⟩ := htidy.dirs.fthashUnLockAll (w.now h.caches.env).1
      refine ⟨{ h with caches := { h.caches with env := (w.now h.caches.env).2, dirCache := t' } },
        ?_, htidy.tables _ htidy.attrs ht', ho.pairs⟩
      simp [Handler.step, Caches.dcUnLockAll, hrun]
  | dcFlush => exact ⟨_, rfl, htidy.tables _ htidy.attrs htidy.dirs.fthashFlush, ho.pairs⟩
  | dcSetCacheTimeout timeout =>
      exact ⟨_, rfl, htidy.tables _ htidy.attrs (htidy.dirs.fthashSetTimeToLive timeout), ho.pairs⟩
  | dcSetCacheSize newSize =>
      obtain ⟨t', out, hrun, ht'⟩ := htidy.dirs.fthashSetMaxEntries newSize (w.now h.caches.env).1
      refine ⟨{ h with caches := { h.caches with env := (w.now h.caches.env).2, dirCache := t' } },
        ?_, htidy.tables _ htidy.attrs ht', ho.pairs⟩
      simp [Handler.step, Caches.dcSetCacheSize, hrun]

theorem orderly_start {attrMax attrTtl dirMax dirTtl : UInt32} {memOk memOk' : Bool}
    {attrCache dirCache : FTHashTable UInt32 Nat}
    (hattr : initTable attrMax attrTtl memOk = some attrCache)
    (hdir : initTable dirMax dirTtl memOk' = some dirCache) {mntFh : List UInt8} {mntAttr : Fattr}
    (hmnt : mntAttr.fileid = idOf mntFh) (env : σ) :
    (start env attrCache dirCache mntFh mntAttr).Orderly idOf := by
  obtain ⟨hattrs, hattrsNil⟩ := FTHashTable.indexed_new hattr
  obtain ⟨hdirs, hdirsNil⟩ := FTHashTable.indexed_new hdir
  refine ⟨⟨hattrs, hdirs, fun _ => List.nodup_nil, fun _ => List.forall_mem_nil _⟩, ?_⟩
  exact List.forall_mem_cons.mpr ⟨hmnt, List.forall_mem_nil _⟩

/-- Whatever calls the actions make, every call returns and the entries stay unique, as long as
`GetDirEntry` is not asked without an id for a directory that has an entry. -/
theorem unique_run (hw : Consistent idOf w) {attrMax attrTtl dirMax dirTtl : UInt32}
    {memOk memOk' : Bool} {attrCache dirCache : FTHashTable UInt32 Nat}
    (hattr : initTable attrMax attrTtl memOk = some attrCache)
    (hdir : initTable dirMax dirTtl memOk' = some dirCache) {mntFh : List UInt8} {mntAttr : Fattr}
    (hmnt : mntAttr.fileid = idOf mntFh) (env : σ) (acts : List Act)
    (hrun : GuardedM (step w) (fun h act => h.Legal idOf act ∧ h.Named act)
      (start env attrCache dirCache mntFh mntAttr) acts) :
    ∃ h, acts.foldlM (step w) (start env attrCache dirCache mntFh mntAttr) = some h ∧
      Unique h.caches := by
  obtain ⟨h, hend, ho⟩ := GuardedM.invariant (fun h act ho hok => ho.step hw act hok)
    (orderly_start hattr hdir hmnt env) hrun
  exact ⟨h, hend, ho.unique⟩

/-- A server of directories: the handle of a file is its name. -/
def plainWorld (idOf : List UInt8 → UInt32) : World Unit where
  now _ := (100, ())
  memOk _ := (true, ())
  lookup _ _ name := (.ok ⟨name, { (default : Fattr) with type := 2, fileid := idOf name }⟩, ())
  getAttr _ fh := (.ok { (default : Fattr) with type := 2, fileid := idOf fh }, ())
  readLink _ _ := (.error errorObjectNotFound, ())

theorem consistent_plainWorld (idOf : List UInt8 → UInt32) : Consistent idOf (plainWorld idOf) where
  lookup _ _ _ r hr := by
    obtain rfl := Except.ok.inj hr
    rfl
  getAttr _ _ a ha := by
    obtain rfl := Except.ok.inj ha
    rfl

/-- A directory below the root is looked up twice. -/
theorem unique_run_two :
    ∃ attrCache dirCache, initTable 20 60 true = some attrCache ∧
      initTable 20 60 true = some dirCache ∧
      ∃ h, List.foldlM (step (plainWorld fun fh => UInt32.ofNat fh.length + 1))
          (start () attrCache dirCache [] { (default : Fattr) with type := 2, fileid := 1 })
          [.getDirEntry 1 [], .getNameEntry 1 [97] true, .getDirEntry 2 [97], .attrsUnLockAll,
            .dcUnLockAll, .getDirEntry 1 [], .getNameEntry 1 [97] true] = some h ∧
        Unique h.caches :=
  ⟨_, _, rfl, rfl, unique_run (consistent_plainWorld _)
    (show initTable 20 60 true = some _ from rfl)
    (show initTable 20 60 true = some _ from rfl) (by decide +kernel) () _ (by decide +kernel)⟩

/-- The server gives the root the id 0. Two requests for the root's directory leave two entries. -/
theorem not_unique_unset :
    ∃ attrCache dirCache, initTable 20 60 true = some attrCache ∧
      initTable 20 60 true = some dirCache ∧ Consistent (fun _ => 0) (plainWorld fun _ => 0) ∧
      GuardedM (step (plainWorld fun _ => 0)) (Legal fun _ => 0)
        (start () attrCache dirCache [] { (default : Fattr) with type := 2 })
        [.getDirEntry 0 [], .getDirEntry 0 []] ∧
      ∃ h, List.foldlM (step (plainWorld fun _ => 0))
          (start () attrCache dirCache [] { (default : Fattr) with type := 2 })
          [.getDirEntry 0 [], .getDirEntry 0 []] = some h ∧
        ¬ Unique h.caches := by
  refine ⟨_, _, rfl, rfl, consistent_plainWorld _, by decide +kernel, _, rfl, fun hu => ?_⟩
  exact absurd hu.dirs (by decide +kernel)

end Handler

end Runs

end Anfs.Tree
