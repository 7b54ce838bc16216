import Anfs.Lib.Buckets
import Anfs.Lib.Run
import Anfs.Basic

/-!
# The hash table with a lifetime

The attribute cache and the directory cache are tables of this kind (`common/fthash.c`). The
header with the types of the table's fields is not in the repository: `tht_Size`, `tht_KeySize`
and `tht_MaxEntries` have the types of the parameters of `fthash_New`, `tht_LockCnt` is a `LONG`.
A value is what its pointer points to; a null pointer is `none`. Each function tells the values
that it passed to `tht_FreeVal`.
-/
namespace Anfs.Cache
open Anfs.Lib
open scoped List

structure FTHashEntry (K V : Type) where
  key : K
  birth : UInt32
  val : Option V
deriving DecidableEq

structure FTHashTable (K V : Type) where
  entries : Buckets (FTHashEntry K V)
  freeEntries : List (FTHashEntry K V)
  lockedEntries : List (FTHashEntry K V)
  keySize : UInt32
  maxEntries : UInt32
  ttl : UInt32
  numEntries : Int
  lockCnt : Int

/-- Bytes of an entry without its key: the node, the birth and the value. -/
def sizeofEntry : Nat := 16

section Table
variable {K V : Type}

/-- The table; none for a zero argument or without memory. -/
def fthashNew (size keySize maxEntries ttl : UInt32) (memOk : Bool) : Option (FTHashTable K V) :=
  if h : 0 < size.toNat ∧ keySize ≠ 0 ∧ maxEntries ≠ 0 ∧ ttl ≠ 0 ∧ memOk then
    some {
      entries := Buckets.empty size.toNat h.1
      freeEntries := [], lockedEntries := [], keySize, maxEntries, ttl
      numEntries := 0, lockCnt := 0 }
  else none

namespace FTHashEntry

/-- `fthash_FreeVal`. -/
def freeVal (e : FTHashEntry K V) : FTHashEntry K V := { e with val := none }

@[simp] theorem val_freeVal (e : FTHashEntry K V) : e.freeVal.val = none := rfl

end FTHashEntry

/-- The values of the entries. -/
def values (es : List (FTHashEntry K V)) : List V := es.filterMap FTHashEntry.val

namespace FTHashTable

/-- `fthash_IsLocked`. -/
def isLocked (t : FTHashTable K V) : Bool := 0 < t.lockCnt

/-- `dead > ent->the_Birth`, with `dead` the clock less the time to live. -/
def isDead (t : FTHashTable K V) (now : UInt32) (e : FTHashEntry K V) : Bool :=
  e.birth < now - t.ttl

/-- The free entries that go while there are more entries than allowed: the count, the free
list and the values freed. -/
def trimFree (maxEntries : UInt32) :
    Int → List (FTHashEntry K V) → Int × List (FTHashEntry K V) × List V
  | num, [] => (num, [], [])
  | num, e :: es =>
      if (maxEntries.toNat : Int) < num then
        let r := trimFree maxEntries (num - 1) es
        (r.1, r.2.1, e.val.toList ++ r.2.2)
      else (num, e :: es, [])

/-- `fthash_UnLockAll`; none if the search for a chain with entries does not end. -/
def fthashUnLockAll (t : FTHashTable K V) (now : UInt32) : Option (FTHashTable K V × List V) :=
  let unlocked := values t.lockedEntries
  let fthl := t.freeEntries ++ t.lockedEntries.map FTHashEntry.freeVal
  let r := trimFree t.maxEntries t.numEntries fthl
  if (t.maxEntries.toNat : Int) < r.1 then
    let i := (long (r.1 - t.maxEntries.toNat)).toNat
    (t.entries.evict i i (now.toNat % t.entries.size)).map fun evicted =>
      ({ t with
          entries := evicted.2
          freeEntries := r.2.1, lockedEntries := []
          lockCnt := 0
          numEntries := t.maxEntries.toNat },
        unlocked ++ r.2.2 ++ values evicted.1)
  else
    some ({ t with
        freeEntries := r.2.1, lockedEntries := []
        lockCnt := 0
        numEntries := r.1 },
      unlocked ++ r.2.2)

/-- `fthash_Flush`. -/
def fthashFlush (t : FTHashTable K V) : FTHashTable K V × List V :=
  ({ t with
      freeEntries := []
      numEntries := t.numEntries - t.freeEntries.length },
    values t.freeEntries)

/-- `fthash_Bury`. -/
def fthashBury (t : FTHashTable K V) (now : UInt32) : FTHashTable K V × List V :=
  if t.isLocked then (t, [])
  else
    let dead := t.entries.all.filter (t.isDead now)
    ({ t with
        entries := t.entries.keep fun e => !t.isDead now e
        freeEntries := t.freeEntries ++ dead.map FTHashEntry.freeVal },
      values dead)

/-- `GetFreeEnt`: the table without the entry returned. A new entry is allocated in the 32-bit
address space. -/
def getFreeEnt (t : FTHashTable K V) (memOk : Bool) : Option (FTHashTable K V) :=
  match t.freeEntries with
  | _ :: es => some { t with freeEntries := es }
  | [] =>
      if ((t.maxEntries + 10).toNat : Int) ≤ t.numEntries then none
      else if memOk ∧ (t.numEntries + 1) * (sizeofEntry + t.keySize.toNat : Nat) ≤ 4294967296 then
        some { t with numEntries := t.numEntries + 1 }
      else none

/-- `fthash_Lock`. -/
def fthashLock (t : FTHashTable K V) : FTHashTable K V :=
  { t with lockCnt := long (t.lockCnt + 1) }

/-- `fthash_SetMaxEntries`. -/
def fthashSetMaxEntries (t : FTHashTable K V) (newMaxEntries now : UInt32) :
    Option (FTHashTable K V × List V) :=
  if t.maxEntries ≤ newMaxEntries then some ({ t with maxEntries := newMaxEntries }, [])
  else fthashUnLockAll { t with maxEntries := newMaxEntries } now

/-- `fthash_SetTimeToLive`. -/
def fthashSetTimeToLive (t : FTHashTable K V) (ttl : Int) : FTHashTable K V :=
  if ttl < 0 then t else { t with ttl := UInt32.ofNat ttl.toNat }

/-- The values freed by `fthash_Delete`. -/
def fthashDelete (t : FTHashTable K V) : List V :=
  values (t.freeEntries ++ t.lockedEntries ++ t.entries.all)

section Keys
variable (hash : K → Nat) (same : K → K → Bool)

/-- `fthash_Hash`. -/
def fthashHash (t : FTHashTable K V) (k : K) : Nat := hash k % t.entries.size

def chainOf (t : FTHashTable K V) (k : K) : List (FTHashEntry K V) :=
  t.entries.chain (t.fthashHash hash k)

/-- The entry that the walk along a chain stops at. -/
def met (t : FTHashTable K V) (k : K) : Option (FTHashEntry K V) :=
  (t.chainOf hash k).find? fun e => same e.key k

/-- The table without the entry met. -/
def remove (t : FTHashTable K V) (k : K) : FTHashTable K V :=
  { t with entries :=
      t.entries.put (t.fthashHash hash k) ((t.chainOf hash k).eraseP fun e => same e.key k) }

/-- The table with the entry at the head of its chain. -/
def addHead (t : FTHashTable K V) (k : K) (e : FTHashEntry K V) : FTHashTable K V :=
  { t with entries := t.entries.put (t.fthashHash hash k) (e :: t.chainOf hash k) }

/-- `fthash_Lookup2`; an entry that is already the first of its chain stays where it is. -/
def fthashLookup2 (t : FTHashTable K V) (k : K) (now : UInt32) :
    FTHashTable K V × List V × Option (FTHashEntry K V) :=
  match t.met hash same k with
  | none => (t, [], none)
  | some ent =>
      if t.isDead now ent then
        if t.isLocked then
          ({ t.remove hash same k with
              lockCnt := long (t.lockCnt + 1)
              lockedEntries := ent :: t.lockedEntries }, [], none)
        else
          ({ t.remove hash same k with freeEntries := ent.freeVal :: t.freeEntries },
            ent.val.toList, none)
      else
        ({ (t.remove hash same k).addHead hash k ent with lockCnt := long (t.lockCnt + 1) }, [],
          some ent)

/-- `fthash_Lookup`. -/
def fthashLookup (t : FTHashTable K V) (k : K) (now : UInt32) :
    FTHashTable K V × List V × Option V :=
  let r := t.fthashLookup2 hash same k now
  (r.1, r.2.1, r.2.2.bind FTHashEntry.val)

/-- The flags of `fthash_Remove3`. -/
inductive RemFlags
  | move | freeVal | none
deriving DecidableEq

/-- `fthash_Remove3`: also the value handed back. -/
def fthashRemove3 (t : FTHashTable K V) (k : K) (flags : RemFlags) :
    FTHashTable K V × List V × Option V :=
  match t.met hash same k with
  | none => (t, [], none)
  | some ent =>
      let t' := t.remove hash same k
      match flags with
      | .move => ({ t' with lockedEntries := t.lockedEntries ++ [ent] }, [], none)
      | .freeVal =>
          ({ t' with freeEntries := t.freeEntries ++ [ent.freeVal] }, ent.val.toList, none)
      | .none => ({ t' with freeEntries := t.freeEntries ++ [ent.freeVal] }, [], ent.val)

/-- `fthash_Remove2`. -/
def fthashRemove2 (t : FTHashTable K V) (k : K) : FTHashTable K V × List V × Option V :=
  t.fthashRemove3 hash same k .none

/-- `fthash_Remove`, which drops what `fthash_Remove3` hands back. -/
def fthashRemove (t : FTHashTable K V) (k : K) : FTHashTable K V × List V :=
  let r := t.fthashRemove3 hash same k .freeVal
  (r.1, r.2.1)

/-- `fthash_MarkRemoved`, which drops what `fthash_Remove3` hands back. -/
def fthashMarkRemoved (t : FTHashTable K V) (k : K) : FTHashTable K V × List V :=
  let r := t.fthashRemove3 hash same k .move
  (r.1, r.2.1)

/-- `fthash_Insert`: also whether it succeeded. -/
def fthashInsert (t : FTHashTable K V) (k : K) (v : Option V) (memOk : Bool) (now : UInt32) :
    FTHashTable K V × Bool :=
  match t.getFreeEnt memOk with
  | none => (t, false)
  | some t' => (t'.addHead hash k { key := k, birth := now, val := v }, true)

end Keys

end FTHashTable

end Table

end Anfs.Cache
