import Anfs.Dir.ExAll

/-!
# `EXAMINE_ALL`

Of `examine.c`. The packet fills the client's memory with entries until an entry does not fit or
there are no more; the client's control block carries the address of the handle from one packet
to the next. A pattern or a hook answers the same for the same entry.
-/
namespace Anfs.Dir
open Anfs.Lib Anfs.Xdr Anfs.Nfs
open Anfs.File (DOSTRUE DOSFALSE)

/-- Why a packet of a scan was not answered by entries: wrong numbers, no valid lock, a handle that
is not there, is of another directory or cannot be made, nothing left, a READDIR that fails or that
brings no entries and no eof (`Res2` was `before`), no copy of the entries, or no attributes. -/
inductive Ending
  | badNumber
  | invalidLock
  | noScan
  | wrongDir
  | noHandle
  | exhausted
  | readFailed (err : Int)
  | readEmpty (before : Int)
  | noCopy (eof : Bool)
  | attrFailed (err : Int)
  deriving DecidableEq, Repr

/-- The error of the last READDIR, if it failed. -/
def Server.lastFailed (srv : Server) : Option Int :=
  match srv.cuts (srv.calls - 1) with
  | .failed err => some err
  | .reply .. => none

/-- What a refill without entries has come to, when `Res2` was `before`. -/
def refillEnding (edh : EDH) (srv : Server) (before : Int) : Ending :=
  match srv.lastFailed with
  | some err => .readFailed err
  | none => if edh.edhEof then .exhausted else .readEmpty before

/-- `GetNextEntries`: the handle with entries, or why there is none any more, and `*Res2`. -/
def getNextEntries (g : Global) (edh : EDH) (entriesOk : Bool) (res2 : Int) :
    Option (Except Ending EDH × Global × Int) :=
  if edh.edhEof then some (.error .exhausted, dirRemove g edh, errorNoMoreEntries)
  else
    match nextdir g.gMaxFileNameLen (g.srv.rounds edh.edhNFSDirFh) g.srv edh res2 with
    | none => none
    | some (left, edh, res2', srv) =>
        let g := { g with srv := srv }
        if left ≠ [] then
          if entriesOk then some (.ok { edh with edhNFSEntries := left }, g, res2')
          else some (.error (.noCopy edh.edhEof), dirRemove g edh, errorNoFreeStore)
        else
          let res2' := if edh.edhEof then errorNoMoreEntries else res2'
          let res2' := if 1000 < res2' then errorNoMoreEntries else res2'
          some (.error (refillEnding edh srv res2), dirRemove g edh, res2')

/-- The client's control block; `eacLastKey` is the address of a handle. -/
structure ExAllControl where
  eacEntries : Nat
  eacLastKey : Option Nat
  eacMatchString : Option (List UInt8 → Bool)
  eacMatchFunc : Option (Entry → Bool)

/-- What the environment decides in an `EXAMINE_ALL`: the allocations of the handle and of the
entries, refill by refill, and what each call of `LookupAttr` finds. -/
structure AllAnswers where
  edhOk : Bool
  entriesOk : Nat → Bool
  attr : Nat → Except Int Fattr

/-- The arguments of a packet. -/
structure ExAllPacket where
  buf : UInt32
  size : UInt32
  type : Int
  eac : ExAllControl

/-- The variables of `act_EXAMINE_ALL`. `mem` is the client's memory from its start on, `offs` is
where `Buf` points to in it; `refills` and `lookups` count the calls made. -/
structure AllState where
  g : Global
  edh : EDH
  mem : Nat → UInt8
  offs : Nat
  size : UInt32
  lastEntry : Option Nat
  numEntries : Nat
  res2 : Int
  refills : Nat
  lookups : Nat

/-- The memory from `offs` on replaced. -/
def putAt (mem : Nat → UInt8) (offs : Nat) (mem' : Nat → UInt8) : Nat → UInt8 := fun i =>
  if i < offs then mem i else mem' (i - offs)

/-- `LookupAttr`, called again when there was no memory: the result, `Res2` and the calls made.
A call that succeeds leaves `Res2` as it is. -/
def lookupAttr (attr : Nat → Except Int Fattr) (lookups : Nat) (res2 : Int) :
    Except Int Fattr × Int × Nat :=
  match attr lookups with
  | .ok a => (.ok a, res2, lookups + 1)
  | .error err =>
      if err = errorNoFreeStore then
        match attr (lookups + 1) with
        | .ok a => (.ok a, err, lookups + 2)
        | .error err' => (.error err', err', lookups + 2)
      else (.error err, err, lookups + 1)

/-- The head of the entries is removed. -/
def AllState.removed (s : AllState) (e : Entry) (rest : List Entry) : AllState :=
  { s with edh := { s.edh with edhNFSEntries := rest, edhNFSCookie := e.cookie } }

/-- An entry of `entrySize` bytes that has been stored at `Buf` is chained. -/
def AllState.chained (s : AllState) (buf : UInt32) (entrySize : Nat) : AllState :=
  { s with
    mem := match s.lastEntry with
      | some last => store s.mem last (be32 (buf + UInt32.ofNat s.offs))
      | none => s.mem
    lastEntry := some s.offs
    offs := s.offs + entrySize
    size := s.size - UInt32.ofNat entrySize
    numEntries := s.numEntries + 1 }

/-- How the loop over the entries of a handle is left. -/
inductive EntriesEnd
  | empty
  | full
  | failed (err : Int)

/-- What `PutExAllData` gave for an entry: `none` when the entry does not fit; else it is chained
when the hook lets it. -/
def AllState.stored (s : AllState) (p : ExAllPacket) (e : Entry) (entrySize : Int)
    (mem : Nat → UInt8) :
    Option AllState :=
  if entrySize < 0 then none
  else
    let s := { s with mem := putAt s.mem s.offs mem }
    if p.eac.eacMatchFunc.all fun f => f e then some (s.chained p.buf entrySize.toNat) else some s

/-- An entry that matched the pattern is stored. -/
@[irreducible] def AllState.putEntry (s : AllState) (p : ExAllPacket) (e : Entry) (attr : Fattr) :
    Option AllState :=
  let r := putExAllData (p.buf + UInt32.ofNat s.offs) (long s.size.toNat) p.type
    (getFixedSize p.type)
    s.g.gMaxFileNameLen e attr fun i => s.mem (s.offs + i)
  s.stored p e r.1 r.2

/-- What is stored is what `putExAllData` makes of the entry. -/
theorem AllState.putEntry_stored (s : AllState) (p : ExAllPacket) (e : Entry) (attr : Fattr) :
    ∃ entrySize mem, s.putEntry p e attr = s.stored p e entrySize mem := by
  unfold AllState.putEntry
  exact ⟨_, _, rfl⟩

/-- The end of a turn: the entry is removed from the handle, or the buffer is full. -/
def AllState.putDone (s : AllState) (e : Entry) (rest : List Entry) :
    Option AllState → Except (EntriesEnd × AllState) AllState
  | none => .error (.full, { s with res2 := 0 })
  | some s => .ok (s.removed e rest)

/-- An entry that matched is stored and removed, or the buffer is full. -/
def AllState.put (s : AllState) (p : ExAllPacket) (e : Entry) (attr : Fattr) (rest : List Entry) :
    Except (EntriesEnd × AllState) AllState :=
  s.putDone e rest (s.putEntry p e attr)

/-- A turn of the loop over the entries of the handle. -/
def AllState.entry (s : AllState) (p : ExAllPacket) (attr : Nat → Except Int Fattr) (e : Entry)
    (rest : List Entry) : Except (EntriesEnd × AllState) AllState :=
  if p.eac.eacMatchString.all fun f => f e.name then
    if p.type = ED_NAME then s.put p e default rest
    else
      match lookupAttr attr s.lookups s.res2 with
      | (.error err, res2, lookups) =>
          .error (.failed err, { s with res2 := res2, lookups := lookups })
      | (.ok a, res2, lookups) => AllState.put { s with res2 := res2, lookups :=
          lookups } p e a rest
  else .ok (s.removed e rest)

/-- The loop over the entries of the handle. -/
def allEntries (p : ExAllPacket) (attr : Nat → Except Int Fattr) :
    List Entry → AllState → EntriesEnd × AllState
  | [], s => (.empty, s)
  | e :: rest, s =>
      match s.entry p attr e rest with
      | .error r => r
      | .ok s => allEntries p attr rest s

/-- The result of the packet, the handle stored or removed. -/
def AllState.done (s : AllState) (e : EntriesEnd) : Option Ending × Global × AllState :=
  match e with
  | .failed err => (some (.attrFailed err), (dirRemove s.g s.edh).setRes DOSFALSE s.res2, s)
  | _ => (none, (dirStore s.g s.edh).setRes DOSTRUE s.res2, s)

/-- The outer loop; `none` when it does not end in `fuel` rounds. -/
def allLoop (p : ExAllPacket) (ans : AllAnswers) :
    Nat → AllState → Option (Option Ending × Global × AllState)
  | 0, _ => none
  | fuel + 1, s =>
      let run (s : AllState) : Option (Option Ending × Global × AllState) :=
        match allEntries p ans.attr s.edh.edhNFSEntries s with
        | (.empty, s) => allLoop p ans fuel s
        | (e, s) => some (s.done e)
      if s.edh.edhNFSEntries = [] then
        match getNextEntries s.g s.edh (ans.entriesOk s.refills) s.res2 with
        | none => none
        | some (.error ending, g, res2) =>
            some (some ending, g.setRes DOSFALSE res2, { s with g := g, res2 := res2 })
        | some (.ok edh, g, res2) =>
            run { s with g := g, edh := edh, res2 := res2, refills := s.refills + 1 }
      else run s

/-- The part of `act_EXAMINE_ALL` behind the search for the handle. -/
def examineAll (g : Global) (p : ExAllPacket) (edh : EDH) (ans : AllAnswers) (mem : Nat → UInt8) :
    Option (Option Ending × Global × ExAllControl × (Nat → UInt8)) :=
  let s : AllState := ⟨g, edh, mem, 0, p.size, none, 0, 0, 0, 0⟩
  match allLoop p ans (edh.edhNFSEntries.length + (g.srv.dirs edh.edhNFSDirFh).length + 2) s with
  | none => none
  | some (ending, g, s) =>
      some (ending, g, { p.eac with eacEntries := s.numEntries, eacLastKey := some edh.edhAddr },
        s.mem)

/-- `act_EXAMINE_ALL`: the reason of a failure, the handler, the control block and the client's
memory; `none` when it does not return. For an invalid lock the code of the error is overwritten by
that of `Res2`. -/
def actEXAMINEALL (g : Global) (fl : LockArg) (p : ExAllPacket) (ans : AllAnswers)
    (mem : Nat → UInt8) :
    Option (Option Ending × Global × ExAllControl × (Nat → UInt8)) :=
  if p.type < ED_NAME ∨ ED_OWNER < p.type ∨ p.size < 8 then
    some (some .badNumber, g.setRes DOSFALSE errorBadNumber, p.eac, mem)
  else
    let eac := { p.eac with eacEntries := 0 }
    let mem := store mem 0 (be32 0)
    match fl.lookup with
    | some efl =>
        match p.eac.eacLastKey with
        | none =>
            if ans.edhOk then
              let edh := dirCreate g efl.flKey efl.flKey efl.eflNFSFh nullCookie none
              examineAll (dirInsert g edh) p edh ans mem
            else some (some .noHandle, g.setRes DOSFALSE errorNoFreeStore, eac, mem)
        | some addr =>
            match dirLookupFromAddress g addr with
            | some edh => examineAll g p edh ans mem
            | none => some (some .noScan, g.setRes DOSFALSE errorNoMoreEntries, eac, mem)
    | none => some (some .invalidLock, g.setRes DOSFALSE 0, eac, mem)

end Anfs.Dir
