import Anfs.File.Actions
import Anfs.Lib.Listing
import Anfs.Prot.Messages

/-!
# Directory handles

`dirs.c`, `nfs_ReadDir`, and the loop around `nfs_ReadDir` that `act_EXAMINE_NEXT` and
`GetNextEntries` share. The server's directories are static listings; how it cuts them into
replies is its own affair.
-/
namespace Anfs.Dir
open Anfs.Lib Anfs.Xdr Anfs.Nfs
open Anfs.File (DOSTRUE DOSFALSE)

def errorNoMoreEntries : Int := 232

def EDH_MAX_FILENAME_SIZE : Nat := 108

/-- The special cookie 0. -/
def nullCookie : List UInt8 := zeros nfsCookiesize

/-- The answer to a READDIR: an error, or `num` entries. Behind the last entries eof is
reported with them or, when `late`, by a reply of its own. -/
inductive Cut
  | failed (res2 : Int)
  | reply (num : Nat) (late : Bool)

/-- The listings of the directories, the answer to each call, the number of calls so far and
the replies they got, the newest first. -/
structure Server where
  dirs : List UInt8 → List Entry
  cuts : Nat → Cut
  calls : Nat
  replies : List (List Entry)

/-- `nfs_ReadDir`: the entries (none for a null pointer), `*Eof` and `*Res2`. -/
def nfsReadDir (srv : Server) (dir cookie : List UInt8) (eof : Bool) (res2 : Int) :
    List Entry × Bool × Int × Server :=
  match srv.cuts srv.calls with
  | .failed err => ([], eof, err, { srv with calls := srv.calls + 1 })
  | .reply num late =>
      let left := leftBehind Entry.cookie nullCookie cookie (srv.dirs dir)
      (left.take num, decide (left.length ≤ num) && !(late && !left.isEmpty), res2,
        { srv with calls := srv.calls + 1, replies := left.take num :: srv.replies })

/-- A directory handle, with its address. `edhName` are the bytes of `edh_Name`. -/
structure EDH where
  edhAddr : Nat
  edhKey : UInt32
  edhCookie : UInt32
  edhNFSDirFh : List UInt8
  edhNFSCookie : List UInt8
  edhEof : Bool
  edhNFSEntries : List Entry
  edhName : List UInt8
  deriving DecidableEq

/-- The part of `Global_T` that scans use; `newEDH` is the address of the next handle. -/
structure Global where
  srv : Server
  gDH : List EDH
  newEDH : Nat
  gMaxFileNameLen : Nat
  dlName : List UInt8
  gMntFh : List UInt8
  gMntAttr : Fattr
  gRes1 : Int
  gRes2 : Int

def Global.setRes (g : Global) (res1 res2 : Int) : Global := { g with gRes1 := res1, gRes2 := res2 }

/-- Bytes stored at the start of a block of memory. -/
def overwrite (new old : List UInt8) : List UInt8 := new ++ old.drop new.length

/-- `memcmp(a, b, n) == 0` of blocks whose further bytes are zero. -/
def memEq (n : Nat) (a b : List UInt8) : Bool := (a ++ zeros n).take n == (b ++ zeros n).take n

/-- `dir_Create` in memory that is zero, at a new address. -/
def dirCreate (g : Global) (key cookie : UInt32) (fh nfsCookie : List UInt8)
    (name : Option (List UInt8)) : EDH where
  edhAddr := g.newEDH
  edhKey := key
  edhCookie := cookie
  edhNFSDirFh := fh
  edhNFSCookie := nfsCookie
  edhEof := false
  edhNFSEntries := []
  edhName :=
    let zero := zeros EDH_MAX_FILENAME_SIZE
    match name with
    | some name =>
        let l := min (min ((name.getD 0 0).toNat + 2) (EDH_MAX_FILENAME_SIZE - 1)) g.gMaxFileNameLen
        overwrite (name.take l ++ [0]) zero
    | none => overwrite [0, 0] zero

def dirInsert (g : Global) (edh : EDH) : Global :=
  { g with gDH := edh :: g.gDH, newEDH := g.newEDH + 1 }

def dirLookupFromKeyAndCookieAndCBSTR (g : Global) (key cookie : UInt32) (name : List UInt8) :
    Option EDH :=
  g.gDH.find? fun edh => edh.edhCookie == cookie && edh.edhKey == key &&
    memEq ((edh.edhName.getD 0 0).toNat + 2) edh.edhName name

def dirLookupFromAddress (g : Global) (addr : Nat) : Option EDH :=
  g.gDH.find? fun edh => edh.edhAddr == addr

/-- `dir_Remove` and `dir_Delete`. -/
def dirRemove (g : Global) (edh : EDH) : Global :=
  { g with gDH := g.gDH.eraseP fun e => e.edhAddr == edh.edhAddr }

/-- The handle at the address of `edh` is `edh` now. -/
def dirStore (g : Global) (edh : EDH) : Global :=
  { g with gDH := g.gDH.map fun e => if e.edhAddr = edh.edhAddr then edh else e }

/-- Entries that scans leave out: ".", ".." and those with names that are too long. -/
def leftOut (maxFileNameLen : Nat) (e : Entry) : Bool :=
  e.name = [46] || e.name = [46, 46] || maxFileNameLen < e.name.length

/-- The loop that skips entries at the head of a reply. -/
def skipEntries (maxFileNameLen : Nat) : List Entry → List UInt8 → List Entry × List UInt8
  | [], cookie => ([], cookie)
  | e :: rest, cookie =>
      if leftOut maxFileNameLen e then skipEntries maxFileNameLen rest e.cookie
      else (e :: rest, cookie)

/-- The loop `nextdir`: the entries that are left of a reply, the handle and `Res2`; `none`
when it does not end in `fuel` rounds. -/
def nextdir (maxFileNameLen : Nat) :
    Nat → Server → EDH → Int → Option (List Entry × EDH × Int × Server)
  | 0, _, _, _ => none
  | fuel + 1, srv, edh, res2 =>
      let (entries, eof, res2, srv) :=
        nfsReadDir srv edh.edhNFSDirFh edh.edhNFSCookie edh.edhEof res2
      let (left, cookie) := skipEntries maxFileNameLen entries edh.edhNFSCookie
      let edh := { edh with edhEof := eof, edhNFSCookie := cookie }
      if entries ≠ [] ∧ left = [] ∧ eof = false then nextdir maxFileNameLen fuel srv edh res2
      else some (left, edh, res2, srv)

/-- Rounds enough for a listing. -/
def Server.rounds (srv : Server) (dir : List UInt8) : Nat := (srv.dirs dir).length + 1

end Anfs.Dir
