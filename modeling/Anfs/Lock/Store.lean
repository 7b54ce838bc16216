import Anfs.Lock.Coherent

/-!
# A table of names

A server that keeps all its directories in one table, and never has a name twice in a directory. It
serves the requests of the handler, and changes a name in no other way than it was asked to.
-/
namespace Anfs.Lock
open Anfs.Cache Anfs.Lib Anfs.Nfs Anfs.Path Anfs.Tree Anfs.Xdr

/-- An entry of a directory. The handle of an object is one byte. -/
structure Obj where
  dir : UInt8
  name : List UInt8
  handle : UInt8
  type : UInt32

namespace Obj

/-- The place of an entry. -/
def at_ (o : Obj) : UInt8 × List UInt8 := (o.dir, o.name)

def idOf (fh : List UInt8) : UInt32 := (fh.headD 0).toUInt32 + 1

def entry (o : Obj) : List UInt8 × UInt32 := (o.name, idOf [o.handle])

def diropokres (o : Obj) : Diropokres :=
  ⟨[o.handle], { (default : Fattr) with type := o.type, fileid := idOf [o.handle] }⟩

end Obj

/-- The entries of all directories, each place once. -/
structure Store where
  objs : List Obj
  unique : (objs.map Obj.at_).Nodup

namespace Store
variable (s : Store)

def find (p : UInt8 × List UInt8) : Option Obj := s.objs.find? fun o => o.at_ = p

/-- The entries in a directory. -/
def inDir (d : UInt32) : List Obj := s.objs.filter fun o => Obj.idOf [o.dir] = d

def names : DirNames := fun d => (s.inDir d).map Obj.entry

def drop (p : UInt8 × List UInt8) : Store where
  objs := s.objs.filter fun o => o.at_ ≠ p
  unique := s.unique.sublist (List.filter_sublist.map _)

/-- A new entry, in the place of one that may be there. -/
def put (o : Obj) : Store where
  objs := o :: (s.drop o.at_).objs
  unique := by
    refine List.nodup_cons.mpr ⟨fun hmem => ?_, (s.drop o.at_).unique⟩
    obtain ⟨o', ho', heq⟩ := List.mem_map.mp hmem
    exact of_decide_eq_true (List.mem_filter.mp ho').2 heq

variable {s} in
theorem names_drop (p : UInt8 × List UInt8) :
    Elsewhere [(Obj.idOf [p.1], p.2)] s.names (s.drop p).names := by
  intro d
  unfold names inDir drop
  rw [List.filter_map, List.filter_map, List.filter_filter, List.filter_filter, List.filter_filter]
  refine congrArg (List.map Obj.entry) (List.filter_congr fun o _ => ?_)
  by_cases hp : o.at_ = p
  · subst hp
    by_cases hd : Obj.idOf [o.dir] = d
    · simp [Obj.at_, Obj.entry, hd, untouched]
    · simp [hd]
  · simp [hp]

variable {s} in
theorem names_put (o : Obj) : Elsewhere [(Obj.idOf [o.dir], o.name)] s.names (s.put o).names := by
  refine (names_drop o.at_).trans fun d => ?_
  unfold names inDir put
  by_cases hd : Obj.idOf [o.dir] = d
  · subst hd
    simp [Obj.entry, Obj.at_]
  · simp [hd]

variable {s} in
theorem mem_names_put {o : Obj} {d : UInt32} {b : List UInt8 × UInt32} (hb : b ∈ s.names d)
    (hnew : s.find o.at_ = none) : b ∈ (s.put o).names d := by
  obtain ⟨o', ho', rfl⟩ := List.mem_map.mp hb
  obtain ⟨hmem, hd⟩ := List.mem_filter.mp ho'
  refine List.mem_map.mpr ⟨o', List.mem_filter.mpr ⟨List.mem_cons_of_mem _ ?_, hd⟩, rfl⟩
  exact List.mem_filter.mpr ⟨hmem, by simpa using List.find?_eq_none.mp hnew o' hmem⟩

/-- The attributes of an object that is asked for by its handle. -/
def attr (fh : List UInt8) : Fattr :=
  { (default : Fattr) with
    type := ((s.objs.find? fun o => o.handle = fh.headD 0).map Obj.type).getD NFDIR,
      fileid := Obj.idOf fh }

/-- A handle that no object has. -/
def free : UInt8 := s.objs.foldl (fun h o => max h o.handle) 0 + 1

/-- A new entry where there is none. -/
def add (o : Obj) : Except Int Diropokres × Store :=
  match s.find o.at_ with
  | some _ => (.error errorObjectExists, s)
  | none => (.ok o.diropokres, s.put o)

def requests : ObjRequests Store where
  now s := (100, s)
  memOk s := (true, s)
  lookup s fh name :=
    (((preferred (fun o => o.name = name) (fun o => Means name o.name) (s.inDir (Obj.idOf fh))).map
      Obj.diropokres).elim (.error errorObjectNotFound) .ok, s)
  getAttr s fh := (.ok (s.attr fh), s)
  readLink s _ := (.error errorObjectWrongType, s)
  create s fh name _ _ _ _ :=
    match s.find (fh.headD 0, name) with
    | some o => (.ok o.diropokres, s)
    | none => s.add ⟨fh.headD 0, name, s.free, NFREG⟩
  remove s fh name :=
    (if (s.find (fh.headD 0, name)).isSome then .ok () else .error errorObjectNotFound,
      s.drop (fh.headD 0, name))
  flush s _ := (0, s)
  mkDir s fh name _ _ _ := s.add ⟨fh.headD 0, name, s.free, NFDIR⟩
  rmDir s fh name :=
    (if (s.find (fh.headD 0, name)).isSome then .ok () else .error errorObjectNotFound,
      s.drop (fh.headD 0, name))
  rename s fh₁ name₁ fh₂ name₂ :=
    match s.find (fh₁.headD 0, name₁) with
    | none => (.error errorObjectNotFound, s)
    | some o =>
        (.ok (), (s.drop (fh₁.headD 0, name₁)).put { o with dir := fh₂.headD 0, name := name₂ })
  link s fh dir name :=
    let r := s.add ⟨dir.headD 0, name, fh.headD 0, (s.attr fh).type⟩
    (r.1.map fun _ => (), r.2)
  symlink s fh name _ _ _ :=
    let r := s.add ⟨fh.headD 0, name, s.free, NFLNK⟩
    (r.1.map fun _ => (), r.2)
  chmod s fh _ := (.ok (s.attr fh), s)
  setTimes s fh _ := (.ok (s.attr fh), s)
  setUidGid s fh _ _ := (.ok (s.attr fh), s)
  protection2umode := id

theorem names_add (s : Store) (o : Obj) :
    Elsewhere [(Obj.idOf [o.dir], o.name)] s.names (s.add o).2.names := by
  unfold add
  split
  · exact Elsewhere.refl _ _
  · exact names_put o

theorem lookup_ok {fh name : List UInt8} {r : Diropokres}
    (hr : (requests.lookup s fh name).1 = .ok r) :
    ∃ o, preferred (fun o => o.name = name) (fun o => Means name o.name)
      (s.inDir (Obj.idOf fh)) = some o ∧
      o.diropokres = r := by
  unfold requests at hr
  dsimp only at hr
  cases hfind : preferred (fun o => o.name = name) (fun o => Means name o.name)
    (s.inDir (Obj.idOf fh)) with
  | none =>
      rw [hfind] at hr
      cases hr
  | some o =>
      rw [hfind] at hr
      exact ⟨o, rfl, Except.ok.inj hr⟩

theorem serves_requests : Serves Obj.idOf names requests where
  lookup s fh name r hr := by
    obtain ⟨o, -, rfl⟩ := lookup_ok s hr
    rfl
  getAttr s fh a ha := by
    obtain rfl := Except.ok.inj ha
    rfl
  used fh := by
    unfold Obj.idOf dceIdUnused
    generalize fh.headD 0 = b
    intro h
    have hb := b.toNat_lt
    have hsum : (b.toNat + 1) % 4294967296 = 0 := by simpa using congrArg UInt32.toNat h
    omega
  asked N := ⟨fun _ h => h, fun _ h => h, fun _ _ _ h => h, fun _ _ h => h, fun _ _ h => h⟩
  found s fh name r hr := by
    obtain ⟨o, hfind, rfl⟩ := lookup_ok s hr
    unfold Tree.resolve names
    rw [preferred_map, Option.map_map]
    exact congrArg (Option.map _) hfind
  create s fh name _ _ _ _ := by
    dsimp only [requests]
    split
    · exact Elsewhere.refl _ _
    · exact names_add s ⟨fh.headD 0, name, s.free, NFREG⟩
  remove s fh name := names_drop (fh.headD 0, name)
  mkDir s fh name _ _ _ := names_add s ⟨fh.headD 0, name, s.free, NFDIR⟩
  rmDir s fh name := names_drop (fh.headD 0, name)
  link s fh dir name := names_add s ⟨dir.headD 0, name, fh.headD 0, (s.attr fh).type⟩
  symlink s fh name _ _ _ := names_add s ⟨fh.headD 0, name, s.free, NFLNK⟩
  rename s fh₁ name₁ fh₂ name₂ := by
    dsimp only [requests]
    split
    · exact Elsewhere.refl _ _
    · next o _ =>
      exact ((names_drop (fh₁.headD 0, name₁)).mono (by simp [Obj.idOf])).trans
        ((names_put { o with dir := fh₂.headD 0, name := name₂ }).mono (by simp [Obj.idOf]))
  notRenamed s fh₁ name₁ fh₂ name₂ res2 h := by
    dsimp only [requests] at h ⊢
    split at h
    · rfl
    · cases h
  flush _ _ := rfl
  chmod s fh _ := ⟨rfl, fun a ha => by rw [← Except.ok.inj ha]; rfl⟩
  setTimes s fh _ := ⟨rfl, fun a ha => by rw [← Except.ok.inj ha]; rfl⟩
  setUidGid s fh _ _ := ⟨rfl, fun a ha => by rw [← Except.ok.inj ha]; rfl⟩

/-- A handler that has mounted the server; the handle of the root is 0. -/
def mounted (pick : Nat → Option Nat) : Global Store where
  caches := ⟨s, Caches.emptyTable, Caches.emptyTable, fun _ => default, fun _ => default, 0⟩
  heap := ⟨[], 0, pick⟩
  locks := []
  files := []
  lastId := 0
  gVolumeName := [110]
  gMntFh := [0]
  gMntAttr := { (default : Fattr) with type := NFDIR, fileid := 1 }
  gUid := 0
  gGid := 0
  gMode := 511
  gRes1 := .num 0
  gRes2 := 0
  running := true

end Store

end Anfs.Lock
