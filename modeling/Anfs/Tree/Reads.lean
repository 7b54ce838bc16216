import Anfs.Tree.Locate

/-!
# What the caches ask for

The caches read the clock and send LOOKUP and GETATTR. What these leave as it is, a call of the
caches leaves as it is.
-/
namespace Anfs.Tree
open Anfs.Cache Anfs.Nfs Anfs.Xdr

/-- What the handler meets outside has `P` after every question if it had it before. -/
structure World.Keeps {σ : Type} (w : World σ) (P : σ → Prop) : Prop where
  now : ∀ e, P e → P (w.now e).2
  memOk : ∀ e, P e → P (w.memOk e).2
  lookup : ∀ e fh name, P e → P (w.lookup e fh name).2
  getAttr : ∀ e fh, P e → P (w.getAttr e fh).2
  readLink : ∀ e fh, P e → P (w.readLink e fh).2

namespace Caches

variable {σ : Type} {w : World σ} {P : σ → Prop} {s : Caches σ}

theorem attrsLookupFromFileId_env (hw : w.Keeps P) (h : P s.env) (fileId : UInt32) :
    P (s.attrsLookupFromFileId w fileId).2.env := hw.now s.env h

theorem attrsCreateAndInsert_env (hw : w.Keeps P) (h : P s.env) (fh : List UInt8) (fAttr : Fattr) :
    P (s.attrsCreateAndInsert w fh fAttr).2.env := by
  have hmem := hw.memOk _ h
  unfold attrsCreateAndInsert
  dsimp only
  split
  · exact hw.now _ (hw.memOk _ hmem)
  · exact hmem

theorem attrsUpdate_env (hw : w.Keeps P) (h : P s.env) (fh : List UInt8) (fAttr : Fattr) :
    P (s.attrsUpdate w fh fAttr).2.env := by
  have hlook := attrsLookupFromFileId_env hw h fAttr.fileid
  unfold attrsUpdate
  generalize s.attrsLookupFromFileId w fAttr.fileid = r at hlook ⊢
  obtain ⟨_ | a, s₁⟩ := r
  · exact attrsCreateAndInsert_env hw hlook fh fAttr
  · exact hlook

theorem dcDCECreateAndInsert_env (hw : w.Keeps P) (h : P s.env) (fileid : UInt32)
    (fh : List UInt8) :
    P (s.dcDCECreateAndInsert w fileid fh).2.env := by
  have hmem := hw.memOk _ h
  unfold dcDCECreateAndInsert
  dsimp only
  split
  · exact hw.now _ (hw.memOk _ hmem)
  · exact hmem

theorem dcNECreateAndInsert_env (hw : w.Keeps P) (h : P s.env) (dcent : Nat) (name : List UInt8)
    (fType fileId : UInt32) : P (s.dcNECreateAndInsert w dcent name fType fileId).2.env := by
  have hmem := hw.memOk _ h
  unfold dcNECreateAndInsert
  dsimp only
  split
  · split
    · exact hw.memOk _ hmem
    · exact hw.memOk _ hmem
  · exact hmem

theorem dcNELookup_env (s : Caches σ) (dcent : Nat) (name : List UInt8) :
    (s.dcNELookup dcent name).2.env = s.env := by
  unfold dcNELookup
  dsimp only
  split
  · rfl
  · rfl

theorem attrsStore_env (hw : w.Keeps P) (h : P s.env) (fh : List UInt8) (attr : Fattr) :
    P (s.attrsStore w fh attr).2.env := by
  have hrefresh : P (s.attrsRefresh w fh attr).2.env := by
    have hlook := attrsLookupFromFileId_env hw h attr.fileid
    unfold attrsRefresh
    generalize s.attrsLookupFromFileId w attr.fileid = r at hlook ⊢
    obtain ⟨_ | a, s₁⟩ := r
    · exact hlook
    · exact attrsUpdate_env hw hlook fh attr
  unfold attrsStore
  generalize s.attrsRefresh w fh attr = r at hrefresh ⊢
  obtain ⟨_ | a, s₁⟩ := r
  · have hins := attrsCreateAndInsert_env hw hrefresh fh attr
    dsimp only at hins ⊢
    generalize s₁.attrsCreateAndInsert w fh attr = r at hins ⊢
    obtain ⟨_ | a, s₂⟩ := r
    · exact hins
    · exact hins
  · exact hrefresh

theorem cGetAttr_env (hw : w.Keeps P) (h : P s.env) (fileId : UInt32) (nfsFh : List UInt8) :
    P (s.cGetAttr w fileId nfsFh).2.env := by
  have hcached : P (s.attrsCached w fileId).2.env := by
    unfold attrsCached
    split
    · exact attrsLookupFromFileId_env hw h fileId
    · exact h
  unfold cGetAttr
  generalize s.attrsCached w fileId = r at hcached ⊢
  obtain ⟨_ | a, s₁⟩ := r
  · have hserver := hw.getAttr s₁.env nfsFh hcached
    dsimp only at hserver ⊢
    generalize w.getAttr s₁.env nfsFh = g at hserver ⊢
    obtain ⟨res2 | attr, env⟩ := g
    · exact hserver
    · exact attrsStore_env hw hserver nfsFh attr
  · exact hcached

theorem nameStore_env (hw : w.Keeps P) (h : P s.env) (actDir : Nat) (nent : Option NEntry)
    (name : List UInt8) (fType fileId : UInt32) :
    P (s.nameStore w actDir nent name fType fileId).2.env := by
  cases nent with
  | none => exact dcNECreateAndInsert_env hw h actDir name fType fileId
  | some nent => exact h

/-- `GetNameEntry` sends one LOOKUP at most. -/
theorem getNameEntry_env (hw : w.Keeps P) (h : P s.env) (actDir : Nat)
    (name : List UInt8) (acep : Bool) :
    P (s.getNameEntry w actDir name acep).2.env := by
  have hlook : P (s.dcNELookup actDir name).2.env := by rwa [dcNELookup_env]
  unfold getNameEntry
  dsimp only
  generalize s.dcNELookup actDir name = looked at hlook ⊢
  obtain ⟨nent, s₁⟩ := looked
  have hcache : P (s₁.nameFromCache w nent acep).2.env := by
    unfold nameFromCache
    cases nent with
    | none => exact hlook
    | some nent =>
        cases acep with
        | false => exact hlook
        | true =>
            have hattr := attrsLookupFromFileId_env hw hlook nent.fileId
            dsimp only
            rw [if_pos rfl]
            generalize s₁.attrsLookupFromFileId w nent.fileId = r at hattr ⊢
            obtain ⟨_ | a, s₂⟩ := r
            · exact hattr
            · exact hattr
  dsimp only
  generalize s₁.nameFromCache w nent acep = r at hcache ⊢
  obtain ⟨_ | r, s₂⟩ := r
  · have hserver := hw.lookup s₂.env (s₂.dces actDir).nfsFh name hcache
    dsimp only at hserver ⊢
    generalize w.lookup s₂.env (s₂.dces actDir).nfsFh name = g at hserver ⊢
    obtain ⟨res2 | dirent, env⟩ := g
    · exact hserver
    · have hstore := @attrsStore_env _ w P { s₂ with env := env } hw hserver dirent.file
        dirent.attributes
      dsimp only at hstore ⊢
      generalize Caches.attrsStore w { s₂ with env := env } dirent.file
        dirent.attributes = t at hstore ⊢
      obtain ⟨res2 | ace, s₃⟩ := t
      · exact hstore
      · have hname := nameStore_env hw hstore actDir nent name dirent.attributes.type
          (s₃.aces ace).fileId
        dsimp only at hname ⊢
        generalize s₃.nameStore w actDir nent name dirent.attributes.type
          (s₃.aces ace).fileId = t at hname ⊢
        obtain ⟨_ | nent, s₄⟩ := t
        · exact hname
        · exact hname
  · exact hcache

/-- `GetDirEntry` sends one GETATTR at most. -/
theorem getDirEntry_env (hw : w.Keeps P) (h : P s.env) (actDirId : UInt32) (actDirFh : List UInt8) :
    P (s.getDirEntry w actDirId actDirFh).2.env := by
  have hcached : P (s.dirCached w actDirId).2.env := by
    unfold dirCached
    split
    · exact hw.now s.env h
    · exact h
  unfold getDirEntry
  generalize s.dirCached w actDirId = r at hcached ⊢
  obtain ⟨_ | d, s₁⟩ := r
  · have hattr := cGetAttr_env hw hcached actDirId actDirFh
    dsimp only at hattr ⊢
    generalize s₁.cGetAttr w actDirId actDirFh = r at hattr ⊢
    obtain ⟨res2 | ace, s₂⟩ := r
    · exact hattr
    · have hdir := dcDCECreateAndInsert_env hw hattr (s₂.aces ace).fileId actDirFh
      dsimp only at hdir ⊢
      generalize s₂.dcDCECreateAndInsert w (s₂.aces ace).fileId actDirFh = r at hdir ⊢
      obtain ⟨_ | d, s₃⟩ := r
      · exact hdir
      · exact hdir
  · exact hcached

end Caches

end Anfs.Tree
