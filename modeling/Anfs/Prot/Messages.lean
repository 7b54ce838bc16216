import Anfs.Prot.Chain

/-!
# The messages of the protocol

The objects of the protocol and their routines. Attributes and file system statistics are
coded twice, inline and field by field.
-/
namespace Anfs.Xdr
open Anfs.Lib

def nfsMaxnamlen : Nat := 255

def nfsMaxpathlen : Nat := 1024

def nfsCookiesize : Nat := 4

/-- Memory that has been set to zero. -/
def zeros (n : Nat) : List UInt8 := List.replicate n 0

structure Nfstime where
  seconds : UInt32
  useconds : UInt32
  deriving DecidableEq, Repr, Inhabited

def xdrNfstime : XdrProc Nfstime :=
  (xdrUInt.field (·.seconds) fun v a => { a with seconds := v }).andThen <|
    xdrUInt.field (·.useconds) fun v a => { a with useconds := v }

structure Fattr where
  type : UInt32
  mode : UInt32
  nlink : UInt32
  uid : UInt32
  gid : UInt32
  size : UInt32
  blocksize : UInt32
  rdev : UInt32
  blocks : UInt32
  fsid : UInt32
  fileid : UInt32
  atime : Nfstime
  mtime : Nfstime
  ctime : Nfstime
  deriving DecidableEq, Repr, Inhabited

def Fattr.words (a : Fattr) : List UInt32 :=
  [a.type, a.mode, a.nlink, a.uid, a.gid, a.size, a.blocksize, a.rdev, a.blocks, a.fsid,
    a.fileid, a.atime.seconds, a.atime.useconds, a.mtime.seconds, a.mtime.useconds,
    a.ctime.seconds, a.ctime.useconds]

def Fattr.load (buf : List UInt8) : Fattr where
  type := wordAt buf 0
  mode := wordAt buf 1
  nlink := wordAt buf 2
  uid := wordAt buf 3
  gid := wordAt buf 4
  size := wordAt buf 5
  blocksize := wordAt buf 6
  rdev := wordAt buf 7
  blocks := wordAt buf 8
  fsid := wordAt buf 9
  fileid := wordAt buf 10
  atime := ⟨wordAt buf 11, wordAt buf 12⟩
  mtime := ⟨wordAt buf 13, wordAt buf 14⟩
  ctime := ⟨wordAt buf 15, wordAt buf 16⟩

def xdrFtype : XdrProc UInt32 := xdrEnum

/-- The last part of `xdr_fattr`. -/
def xdrFattrSlow : XdrProc Fattr :=
  (xdrFtype.field (·.type) fun v a => { a with type := v }).andThen <|
  (xdrUInt.field (·.mode) fun v a => { a with mode := v }).andThen <|
  (xdrUInt.field (·.nlink) fun v a => { a with nlink := v }).andThen <|
  (xdrUInt.field (·.uid) fun v a => { a with uid := v }).andThen <|
  (xdrUInt.field (·.gid) fun v a => { a with gid := v }).andThen <|
  (xdrUInt.field (·.size) fun v a => { a with size := v }).andThen <|
  (xdrUInt.field (·.blocksize) fun v a => { a with blocksize := v }).andThen <|
  (xdrUInt.field (·.rdev) fun v a => { a with rdev := v }).andThen <|
  (xdrUInt.field (·.blocks) fun v a => { a with blocks := v }).andThen <|
  (xdrUInt.field (·.fsid) fun v a => { a with fsid := v }).andThen <|
  (xdrUInt.field (·.fileid) fun v a => { a with fileid := v }).andThen <|
  (xdrNfstime.field (·.atime) fun v a => { a with atime := v }).andThen <|
  (xdrNfstime.field (·.mtime) fun v a => { a with mtime := v }).andThen <|
  xdrNfstime.field (·.ctime) fun v a => { a with ctime := v }

def xdrFattr : XdrProc Fattr :=
  xdrInlined 17 Fattr.words (fun buf _ => Fattr.load buf) xdrFattrSlow

structure Sattr where
  mode : UInt32
  uid : UInt32
  gid : UInt32
  size : UInt32
  atime : Nfstime
  mtime : Nfstime
  deriving DecidableEq, Repr, Inhabited

def Sattr.words (a : Sattr) : List UInt32 :=
  [a.mode, a.uid, a.gid, a.size, a.atime.seconds, a.atime.useconds, a.mtime.seconds,
    a.mtime.useconds]

def Sattr.load (buf : List UInt8) : Sattr where
  mode := wordAt buf 0
  uid := wordAt buf 1
  gid := wordAt buf 2
  size := wordAt buf 3
  atime := ⟨wordAt buf 4, wordAt buf 5⟩
  mtime := ⟨wordAt buf 6, wordAt buf 7⟩

/-- The last part of `xdr_sattr`. -/
def xdrSattrSlow : XdrProc Sattr :=
  (xdrUInt.field (·.mode) fun v a => { a with mode := v }).andThen <|
  (xdrUInt.field (·.uid) fun v a => { a with uid := v }).andThen <|
  (xdrUInt.field (·.gid) fun v a => { a with gid := v }).andThen <|
  (xdrUInt.field (·.size) fun v a => { a with size := v }).andThen <|
  (xdrNfstime.field (·.atime) fun v a => { a with atime := v }).andThen <|
  xdrNfstime.field (·.mtime) fun v a => { a with mtime := v }

def xdrSattr : XdrProc Sattr :=
  xdrInlined 8 Sattr.words (fun buf _ => Sattr.load buf) xdrSattrSlow

structure Statfsokres where
  tsize : UInt32
  bsize : UInt32
  blocks : UInt32
  bfree : UInt32
  bavail : UInt32
  deriving DecidableEq, Repr, Inhabited

def Statfsokres.words (a : Statfsokres) : List UInt32 :=
  [a.tsize, a.bsize, a.blocks, a.bfree, a.bavail]

def Statfsokres.load (buf : List UInt8) : Statfsokres where
  tsize := wordAt buf 0
  bsize := wordAt buf 1
  blocks := wordAt buf 2
  bfree := wordAt buf 3
  bavail := wordAt buf 4

/-- The last part of `xdr_statfsokres`. -/
def xdrStatfsokresSlow : XdrProc Statfsokres :=
  (xdrUInt.field (·.tsize) fun v a => { a with tsize := v }).andThen <|
  (xdrUInt.field (·.bsize) fun v a => { a with bsize := v }).andThen <|
  (xdrUInt.field (·.blocks) fun v a => { a with blocks := v }).andThen <|
  (xdrUInt.field (·.bfree) fun v a => { a with bfree := v }).andThen <|
  xdrUInt.field (·.bavail) fun v a => { a with bavail := v }

def xdrStatfsokres : XdrProc Statfsokres :=
  xdrInlined 5 Statfsokres.words (fun buf _ => Statfsokres.load buf) xdrStatfsokresSlow

abbrev Attrstat := Res Fattr

def xdrAttrstat : XdrProc Attrstat := xdrRes xdrFattr

structure Sattrargs where
  file : List UInt8
  attributes : Sattr
  deriving DecidableEq, Repr

def xdrSattrargs : XdrProc Sattrargs :=
  (xdrNfsFh.field (·.file) fun v a => { a with file := v }).andThen <|
    xdrSattr.field (·.attributes) fun v a => { a with attributes := v }

def xdrFilename : XdrProc (List UInt8) := xdrString nfsMaxnamlen

def xdrNfspath : XdrProc (List UInt8) := xdrString nfsMaxpathlen

structure Diropargs where
  dir : List UInt8
  name : List UInt8
  deriving DecidableEq, Repr

def xdrDiropargs : XdrProc Diropargs :=
  (xdrNfsFh.field (·.dir) fun v a => { a with dir := v }).andThen <|
    xdrFilename.field (·.name) fun v a => { a with name := v }

structure Diropokres where
  file : List UInt8
  attributes : Fattr
  deriving DecidableEq, Repr

def xdrDiropokres : XdrProc Diropokres :=
  (xdrNfsFh.field (·.file) fun v a => { a with file := v }).andThen <|
    xdrFattr.field (·.attributes) fun v a => { a with attributes := v }

abbrev Diropres := Res Diropokres

def xdrDiropres : XdrProc Diropres := xdrRes xdrDiropokres

abbrev Readlinkres := Res (List UInt8)

def xdrReadlinkres : XdrProc Readlinkres := xdrRes xdrNfspath

structure Readargs where
  file : List UInt8
  offset : UInt32
  count : UInt32
  totalcount : UInt32
  deriving DecidableEq, Repr

def xdrReadargs : XdrProc Readargs :=
  (xdrNfsFh.field (·.file) fun v a => { a with file := v }).andThen <|
  (xdrUInt.field (·.offset) fun v a => { a with offset := v }).andThen <|
  (xdrUInt.field (·.count) fun v a => { a with count := v }).andThen <|
  xdrUInt.field (·.totalcount) fun v a => { a with totalcount := v }

structure Readokres where
  attributes : Fattr
  data : List UInt8
  deriving DecidableEq, Repr

def xdrReadokres : XdrProc Readokres :=
  (xdrFattr.field (·.attributes) fun v a => { a with attributes := v }).andThen <|
    (xdrBytes nfsMaxdata).field (·.data) fun v a => { a with data := v }

abbrev Readres := Res Readokres

def xdrReadres : XdrProc Readres := xdrRes xdrReadokres

structure Createargs where
  where_ : Diropargs
  attributes : Sattr
  deriving DecidableEq, Repr

def xdrCreateargs : XdrProc Createargs :=
  (xdrDiropargs.field (·.where_) fun v a => { a with where_ := v }).andThen <|
    xdrSattr.field (·.attributes) fun v a => { a with attributes := v }

structure Renameargs where
  from_ : Diropargs
  to_ : Diropargs
  deriving DecidableEq, Repr

def xdrRenameargs : XdrProc Renameargs :=
  (xdrDiropargs.field (·.from_) fun v a => { a with from_ := v }).andThen <|
    xdrDiropargs.field (·.to_) fun v a => { a with to_ := v }

structure Linkargs where
  from_ : List UInt8
  to_ : Diropargs
  deriving DecidableEq, Repr

def xdrLinkargs : XdrProc Linkargs :=
  (xdrNfsFh.field (·.from_) fun v a => { a with from_ := v }).andThen <|
    xdrDiropargs.field (·.to_) fun v a => { a with to_ := v }

structure Symlinkargs where
  from_ : Diropargs
  to_ : List UInt8
  attributes : Sattr
  deriving DecidableEq, Repr

def xdrSymlinkargs : XdrProc Symlinkargs :=
  (xdrDiropargs.field (·.from_) fun v a => { a with from_ := v }).andThen <|
  (xdrNfspath.field (·.to_) fun v a => { a with to_ := v }).andThen <|
  xdrSattr.field (·.attributes) fun v a => { a with attributes := v }

def xdrNfscookie : XdrProc (List UInt8) := xdrOpaque nfsCookiesize

structure Readdirargs where
  dir : List UInt8
  cookie : List UInt8
  count : UInt32
  deriving DecidableEq, Repr

def xdrReaddirargs : XdrProc Readdirargs :=
  (xdrNfsFh.field (·.dir) fun v a => { a with dir := v }).andThen <|
  (xdrNfscookie.field (·.cookie) fun v a => { a with cookie := v }).andThen <|
  xdrUInt.field (·.count) fun v a => { a with count := v }

/-- A directory entry, without the pointer to the next one. -/
structure Entry where
  fileid : UInt32
  name : List UInt8
  cookie : List UInt8
  deriving DecidableEq, Repr

def Entry.zero : Entry := ⟨0, [], zeros nfsCookiesize⟩

/-- `xdr_entry` up to the pointer. -/
def xdrEntry : XdrProc Entry :=
  (xdrUInt.field (·.fileid) fun v a => { a with fileid := v }).andThen <|
  (xdrFilename.field (·.name) fun v a => { a with name := v }).andThen <|
  xdrNfscookie.field (·.cookie) fun v a => { a with cookie := v }

/-- A pointer to a chain of entries. No chain is longer than the bytes it takes. -/
def xdrEntries : XdrProc (List Entry) := fun xdrs objpp =>
  xdrChain Entry.zero xdrEntry (objpp.length + xdrs.xHandy.toNat + 1) xdrs objpp

structure Dirlist where
  entries : List Entry
  eof : Bool
  deriving DecidableEq, Repr

def xdrDirlist : XdrProc Dirlist :=
  (xdrEntries.field (·.entries) fun v a => { a with entries := v }).andThen <|
    xdrBool.field (·.eof) fun v a => { a with eof := v }

abbrev Readdirres := Res Dirlist

def xdrReaddirres : XdrProc Readdirres := xdrRes xdrDirlist

abbrev Statfsres := Res Statfsokres

def xdrStatfsres : XdrProc Statfsres := xdrRes xdrStatfsokres

theorem xdrNfstime_fixed :
    xdrNfstime.Fixed 2 (fun t => be32 t.seconds ++ be32 t.useconds)
      fun bs _ => ⟨wordAt bs 0, wordAt bs 1⟩ :=
  ((xdrULong_fixed.field (fun t : Nfstime => t.seconds) (fun v a => { a with seconds := v })
    fun _ => rfl).andThen
    (xdrULong_fixed.field (fun t : Nfstime => t.useconds) (fun v a => { a with useconds := v })
      fun _ => rfl)).congr rfl (fun _ => rfl) fun _ _ => rfl

theorem xdrFattrSlow_fixed :
    xdrFattrSlow.Fixed 17 (fun a => a.words.flatMap be32) fun bs _ => Fattr.load bs := by
  have htype := xdrULong_fixed.field (fun a : Fattr => a.type) (fun v a => { a with type := v })
    fun _ => rfl
  have hmode := xdrULong_fixed.field (fun a : Fattr => a.mode) (fun v a => { a with mode := v })
    fun _ => rfl
  have hnlink := xdrULong_fixed.field (fun a : Fattr => a.nlink) (fun v a => { a with nlink := v })
    fun _ => rfl
  have huid := xdrULong_fixed.field (fun a : Fattr => a.uid) (fun v a => { a with uid := v })
    fun _ => rfl
  have hgid := xdrULong_fixed.field (fun a : Fattr => a.gid) (fun v a => { a with gid := v })
    fun _ => rfl
  have hsize := xdrULong_fixed.field (fun a : Fattr => a.size) (fun v a => { a with size := v })
    fun _ => rfl
  have hblocksize := xdrULong_fixed.field (fun a : Fattr => a.blocksize)
    (fun v a => { a with blocksize := v }) fun _ => rfl
  have hrdev := xdrULong_fixed.field (fun a : Fattr => a.rdev) (fun v a => { a with rdev := v })
    fun _ => rfl
  have hblocks := xdrULong_fixed.field (fun a : Fattr => a.blocks)
    (fun v a => { a with blocks := v }) fun _ => rfl
  have hfsid := xdrULong_fixed.field (fun a : Fattr => a.fsid) (fun v a => { a with fsid := v })
    fun _ => rfl
  have hfileid := xdrULong_fixed.field (fun a : Fattr => a.fileid)
    (fun v a => { a with fileid := v }) fun _ => rfl
  have hatime := xdrNfstime_fixed.field (fun a : Fattr => a.atime)
    (fun v a => { a with atime := v }) fun _ => rfl
  have hmtime := xdrNfstime_fixed.field (fun a : Fattr => a.mtime)
    (fun v a => { a with mtime := v }) fun _ => rfl
  have hctime := xdrNfstime_fixed.field (fun a : Fattr => a.ctime)
    (fun v a => { a with ctime := v }) fun _ => rfl
  have h := htype.andThen <| hmode.andThen <| hnlink.andThen <| huid.andThen <| hgid.andThen <|
    hsize.andThen <| hblocksize.andThen <| hrdev.andThen <| hblocks.andThen <| hfsid.andThen <|
    hfileid.andThen <| hatime.andThen <| hmtime.andThen hctime
  refine h.congr rfl (fun a => ?_) fun bs a => ?_
  · simp [Fattr.words]
  · simp [Fattr.load, wordAt]

theorem xdrFattr_fixed :
    xdrFattr.Fixed 17 (fun a => a.words.flatMap be32) fun bs _ => Fattr.load bs :=
  xdrInlined_fixed fun _ => rfl

theorem xdrSattrSlow_fixed :
    xdrSattrSlow.Fixed 8 (fun a => a.words.flatMap be32) fun bs _ => Sattr.load bs := by
  have hmode := xdrULong_fixed.field (fun a : Sattr => a.mode) (fun v a => { a with mode := v })
    fun _ => rfl
  have huid := xdrULong_fixed.field (fun a : Sattr => a.uid) (fun v a => { a with uid := v })
    fun _ => rfl
  have hgid := xdrULong_fixed.field (fun a : Sattr => a.gid) (fun v a => { a with gid := v })
    fun _ => rfl
  have hsize := xdrULong_fixed.field (fun a : Sattr => a.size) (fun v a => { a with size := v })
    fun _ => rfl
  have hatime := xdrNfstime_fixed.field (fun a : Sattr => a.atime)
    (fun v a => { a with atime := v }) fun _ => rfl
  have hmtime := xdrNfstime_fixed.field (fun a : Sattr => a.mtime)
    (fun v a => { a with mtime := v }) fun _ => rfl
  have h := hmode.andThen <| huid.andThen <| hgid.andThen <| hsize.andThen <|
    hatime.andThen hmtime
  refine h.congr rfl (fun a => ?_) fun bs a => ?_
  · simp [Sattr.words]
  · simp [Sattr.load, wordAt]

theorem xdrSattr_fixed :
    xdrSattr.Fixed 8 (fun a => a.words.flatMap be32) fun bs _ => Sattr.load bs :=
  xdrInlined_fixed fun _ => rfl

theorem xdrStatfsokresSlow_fixed :
    xdrStatfsokresSlow.Fixed 5 (fun a => a.words.flatMap be32)
      fun bs _ => Statfsokres.load bs := by
  have htsize := xdrULong_fixed.field (fun a : Statfsokres => a.tsize)
    (fun v a => { a with tsize := v }) fun _ => rfl
  have hbsize := xdrULong_fixed.field (fun a : Statfsokres => a.bsize)
    (fun v a => { a with bsize := v }) fun _ => rfl
  have hblocks := xdrULong_fixed.field (fun a : Statfsokres => a.blocks)
    (fun v a => { a with blocks := v }) fun _ => rfl
  have hbfree := xdrULong_fixed.field (fun a : Statfsokres => a.bfree)
    (fun v a => { a with bfree := v }) fun _ => rfl
  have hbavail := xdrULong_fixed.field (fun a : Statfsokres => a.bavail)
    (fun v a => { a with bavail := v }) fun _ => rfl
  have h := htsize.andThen <| hbsize.andThen <| hblocks.andThen <| hbfree.andThen hbavail
  refine h.congr rfl (fun a => ?_) fun bs a => ?_
  · simp [Statfsokres.words]
  · simp [Statfsokres.load, wordAt]

theorem xdrStatfsokres_fixed :
    xdrStatfsokres.Fixed 5 (fun a => a.words.flatMap be32) fun bs _ => Statfsokres.load bs :=
  xdrInlined_fixed fun _ => rfl

/-- An inline branch and the branch it replaces: on every stream in use both fail, or both
succeed and leave the same stream and the same object. -/
def XdrProc.Agrees {α : Type} (fast slow : XdrProc α) : Prop :=
  ∀ xdrs v, xdrs.xOp ≠ .free → xdrs.Ready →
    (fast xdrs v).1 = (slow xdrs v).1 ∧ ((fast xdrs v).1 = true → fast xdrs v = slow xdrs v)

theorem xdrFattr_agrees : xdrFattr.Agrees xdrFattrSlow :=
  fun xdrs v hop hready => xdrFattr_fixed.agree xdrFattrSlow_fixed xdrs v hop hready

theorem xdrSattr_agrees : xdrSattr.Agrees xdrSattrSlow :=
  fun xdrs v hop hready => xdrSattr_fixed.agree xdrSattrSlow_fixed xdrs v hop hready

theorem xdrStatfsokres_agrees : xdrStatfsokres.Agrees xdrStatfsokresSlow :=
  fun xdrs v hop hready => xdrStatfsokres_fixed.agree xdrStatfsokresSlow_fixed xdrs v hop hready

@[simp] theorem Fattr.load_words (a : Fattr) (rest : List UInt8) :
    Fattr.load (a.words.flatMap be32 ++ rest) = a := by
  simp [Fattr.load, Fattr.words, wordAt_cons_zero, wordAt_cons_succ]

@[simp] theorem Sattr.load_words (a : Sattr) (rest : List UInt8) :
    Sattr.load (a.words.flatMap be32 ++ rest) = a := by
  simp [Sattr.load, Sattr.words, wordAt_cons_zero, wordAt_cons_succ]

@[simp] theorem Statfsokres.load_words (a : Statfsokres) (rest : List UInt8) :
    Statfsokres.load (a.words.flatMap be32 ++ rest) = a := by
  simp [Statfsokres.load, Statfsokres.words, wordAt_cons_zero, wordAt_cons_succ]

end Anfs.Xdr
