import Anfs.Dir.Examine
import Anfs.Lib.Memory

/-!
# The entries of `EXAMINE_ALL`

An entry is a structure of which only the first fields exist, and behind it the name.
`GetFixedSize` tells where the name goes, `PutExAllData` stores the fields by falling through
the cases of a switch. Longs and pointers have four bytes.
-/
namespace Anfs.Dir
open Anfs.Lib Anfs.Xdr Anfs.Nfs

@[simp] def ED_NAME : Int := 1
@[simp] def ED_TYPE : Int := 2
@[simp] def ED_SIZE : Int := 3
@[simp] def ED_PROTECTION : Int := 4
@[simp] def ED_DATE : Int := 5
@[simp] def ED_COMMENT : Int := 6
@[simp] def ED_OWNER : Int := 7

/-- The offset of `ed_Name`; so for the other fields. -/
@[simp] def edName : Nat := 4
@[simp] def edType : Nat := 8
@[simp] def edSize : Nat := 12
@[simp] def edProt : Nat := 16
@[simp] def edDays : Nat := 20
@[simp] def edMins : Nat := 24
@[simp] def edTicks : Nat := 28
@[simp] def edComment : Nat := 32
@[simp] def edOwnerUID : Nat := 36
@[simp] def edOwnerGID : Nat := 38

/-- The two bytes of a word. -/
def be16 (x : UInt16) : List UInt8 := [UInt8.ofNat (x.toNat / 256), UInt8.ofNat x.toNat]

/-- The four bytes of a `LONG`. -/
def beLong (x : Int) : List UInt8 := be32 (UInt32.ofInt x)

def getFixedSize (type : Int) : Nat :=
  if type = ED_NAME then edType
  else if type = ED_TYPE then edSize
  else if type = ED_SIZE then edProt
  else if type = ED_PROTECTION then edDays
  else if type = ED_DATE then edComment
  else if type = ED_COMMENT then edOwnerUID
  else edOwnerUID + 2

/-- The name of an entry, cut. -/
def exAllName (maxFileNameLen : Nat) (name : List UInt8) : List UInt8 :=
  name.take (min name.length maxFileNameLen)

/-- `sizeNeeded` of `PutExAllData`: the bytes of the name and its end fill up longwords. -/
def sizeNeeded (type : Int) (maxFileNameLen : Nat) (name : List UInt8) : Nat :=
  getFixedSize type + (min name.length maxFileNameLen + 1 + 3) / 4 * 4

section Cases
variable (buf : UInt32) (fixedSize : Nat) (name : List UInt8) (fAttr : Fattr) (mem : Nat → UInt8)

def putName : Nat → UInt8 :=
  store (store mem edName (be32 (buf + UInt32.ofNat fixedSize))) fixedSize (name ++ [0])

def putType : Nat → UInt8 :=
  putName buf fixedSize name (store mem edType (beLong (nfsType2EntryType fAttr.type)))

def putSize : Nat → UInt8 :=
  putType buf fixedSize name fAttr (store mem edSize (be32 fAttr.size))

def putProtection : Nat → UInt8 :=
  putSize buf fixedSize name fAttr (store mem edProt (be32 (nfsMode2Protection fAttr.mode)))

/-- The `DateStamp` is stored over the three fields from `ed_Days` on. -/
def putDate : Nat → UInt8 :=
  let ds := timeval2DateStamp fAttr.mtime
  putProtection buf fixedSize name fAttr
    (store (store (store mem edDays (beLong ds.dsDays)) edMins (beLong ds.dsMinute)) edTicks
      (beLong ds.dsTick))

def putComment : Nat → UInt8 := putDate buf fixedSize name fAttr (store mem edComment (be32 0))

def putOwner : Nat → UInt8 :=
  putComment buf fixedSize name fAttr (store (store mem edOwnerUID (be16 (nfsuid2UID fAttr.uid)))
    edOwnerGID (be16 (nfsgid2GID fAttr.gid)))

end Cases

/-- `PutExAllData` to the memory `mem` at the address `buf`. -/
def putExAllData (buf : UInt32) (size type : Int) (fixedSize maxFileNameLen : Nat) (anEntry : Entry)
    (fAttr : Fattr) (mem : Nat → UInt8) : Int × (Nat → UInt8) :=
  let realLen := min anEntry.name.length maxFileNameLen
  let nameLen := (realLen + 1 + 3) / 4 * 4
  let sizeNeeded : Nat := fixedSize + nameLen
  if sizeNeeded ≤ size then
    let mem := store mem 0 (be32 0)
    let name := anEntry.name.take realLen
    (sizeNeeded,
      if type = ED_COMMENT then putComment buf fixedSize name fAttr mem
      else if type = ED_DATE then putDate buf fixedSize name fAttr mem
      else if type = ED_PROTECTION then putProtection buf fixedSize name fAttr mem
      else if type = ED_SIZE then putSize buf fixedSize name fAttr mem
      else if type = ED_TYPE then putType buf fixedSize name fAttr mem
      else if type = ED_NAME then putName buf fixedSize name mem
      else putOwner buf fixedSize name fAttr mem)
  else (-1, mem)

/-- The fields that exist for `type`, with their values, the name first. -/
def requested (buf : UInt32) (type : Int) (maxFileNameLen : Nat) (anEntry : Entry)
    (fAttr : Fattr) : List Piece :=
  let ds := timeval2DateStamp fAttr.mtime
  [(getFixedSize type, exAllName maxFileNameLen anEntry.name ++ [0]),
    (edName, be32 (buf + UInt32.ofNat (getFixedSize type)))] ++
  (if ED_TYPE ≤ type then [(edType, beLong (nfsType2EntryType fAttr.type))] else []) ++
  (if ED_SIZE ≤ type then [(edSize, be32 fAttr.size)] else []) ++
  (if ED_PROTECTION ≤ type then [(edProt, be32 (nfsMode2Protection fAttr.mode))] else []) ++
  (if ED_DATE ≤ type then [(edTicks, beLong ds.dsTick), (edMins, beLong ds.dsMinute),
    (edDays, beLong ds.dsDays)] else []) ++
  (if ED_COMMENT ≤ type then [(edComment, be32 0)] else []) ++
  (if ED_OWNER ≤ type then [(edOwnerGID, be16 (nfsgid2GID fAttr.gid)),
    (edOwnerUID, be16 (nfsuid2UID fAttr.uid))] else []) ++
  [(0, be32 0)]

section Requested
variable {buf : UInt32} {size type : Int} {maxFileNameLen : Nat} {anEntry : Entry} {fAttr : Fattr}
  {mem : Nat → UInt8}

/-- The types a packet may ask for. -/
def ExAllType (type : Int) : Prop := ED_NAME ≤ type ∧ type ≤ ED_OWNER

theorem ExAllType.cases (h : ExAllType type) : type = ED_NAME ∨ type = ED_TYPE ∨ type = ED_SIZE ∨
    type = ED_PROTECTION ∨ type = ED_DATE ∨ type = ED_COMMENT ∨ type = ED_OWNER := by
  unfold ExAllType ED_NAME ED_OWNER at h
  unfold ED_NAME ED_TYPE ED_SIZE ED_PROTECTION ED_DATE ED_COMMENT ED_OWNER
  omega

/-- The cases store the fields of the type, and the name last. -/
theorem putExAllData_eq (htype : ExAllType type) :
    putExAllData buf size type (getFixedSize type) maxFileNameLen anEntry fAttr mem =
      if sizeNeeded type maxFileNameLen anEntry.name ≤ size then
        ((sizeNeeded type maxFileNameLen anEntry.name : Int),
          storeAll (requested buf type maxFileNameLen anEntry fAttr) mem)
      else (-1, mem) := by
  unfold putExAllData sizeNeeded
  dsimp only
  congr 1
  rcases htype.cases with rfl | rfl | rfl | rfl | rfl | rfl | rfl
  all_goals rfl

/-- The bytes of an entry: all fields inside, none over another, each with its value. -/
structure LaidOut (n : Nat) (ps : List Piece) (mem : Nat → UInt8) : Prop where
  inside : ∀ p ∈ ps, p.last ≤ n
  apart : ps.Pairwise Piece.Apart
  read : ∀ p ∈ ps, load mem p.1 p.2.length = p.2

theorem exAllName_length (maxFileNameLen : Nat) (name : List UInt8) :
    (exAllName maxFileNameLen name).length = min name.length maxFileNameLen := by
  unfold exAllName
  rw [List.length_take]
  omega

/-- Up to the comment the fields end where the name begins. -/
theorem requested_apart (htype : ExAllType type) (howner : type ≠ ED_OWNER) :
    (requested buf type maxFileNameLen anEntry fAttr).Pairwise Piece.Apart := by
  rcases htype.cases with rfl | rfl | rfl | rfl | rfl | rfl | rfl
  case inr.inr.inr.inr.inr.inr => exact absurd rfl howner
  all_goals
    simp [requested, Piece.Apart, Piece.last, getFixedSize, beLong]

theorem requested_inside (htype : ExAllType type) (howner : type ≠ ED_OWNER) :
    ∀ p ∈ requested buf type maxFileNameLen anEntry fAttr,
      p.last ≤ sizeNeeded type maxFileNameLen anEntry.name := by
  have hname := exAllName_length maxFileNameLen anEntry.name
  rcases htype.cases with rfl | rfl | rfl | rfl | rfl | rfl | rfl
  case inr.inr.inr.inr.inr.inr => exact absurd rfl howner
  all_goals
    simp [requested, Piece.last, getFixedSize, sizeNeeded, beLong, hname]
    omega

/-- What `PutExAllData` is to do with an entry. -/
structure PutsEntry (buf : UInt32) (size type : Int) (maxFileNameLen : Nat)
    (anEntry : Entry) (fAttr : Fattr)
    (mem : Nat → UInt8) : Prop where
  refused : size < sizeNeeded type maxFileNameLen anEntry.name →
    putExAllData buf size type (getFixedSize type) maxFileNameLen anEntry fAttr mem = (-1, mem)
  stored : sizeNeeded type maxFileNameLen anEntry.name ≤ size → ∃ (n : Nat) (mem' : Nat → UInt8),
    putExAllData buf size type (getFixedSize type) maxFileNameLen anEntry fAttr mem =
      ((n : Int), mem') ∧ n ≤ size ∧
      LaidOut n (requested buf type maxFileNameLen anEntry fAttr) mem' ∧ ∀ i, n ≤ i → mem' i = mem i

/-- The group is stored where the name begins. -/
theorem requested_owner_not_apart :
    ¬ (requested buf ED_OWNER maxFileNameLen anEntry fAttr).Pairwise Piece.Apart := by
  intro h
  unfold requested at h
  obtain ⟨hname, -⟩ := List.pairwise_cons.mp h
  have hgroup := hname (edOwnerGID, be16 (nfsgid2GID fAttr.gid)) (by simp)
  have hfixed : getFixedSize ED_OWNER = edOwnerGID := by decide
  simp only [Piece.Apart, Piece.last, hfixed, be16, List.length_append, List.length_cons,
    List.length_nil] at hgroup
  omega

theorem putsEntry_iff (htype : ExAllType type) :
    PutsEntry buf size type maxFileNameLen anEntry fAttr mem ↔
      type ≠ ED_OWNER ∨ size < sizeNeeded ED_OWNER maxFileNameLen anEntry.name := by
  have hput := @putExAllData_eq buf size type maxFileNameLen anEntry fAttr mem htype
  constructor
  · intro h
    by_contra hnot
    obtain ⟨hother, hfits⟩ := not_or.mp hnot
    obtain rfl := not_not.mp hother
    obtain ⟨n, mem', -, -, hlaid, -⟩ := h.stored (Int.not_lt.mp hfits)
    exact requested_owner_not_apart hlaid.apart
  · intro h
    constructor
    · intro hlt
      rw [hput, if_neg (Int.not_le.mpr hlt)]
    · intro hfits
      have howner : type ≠ ED_OWNER := by
        rintro rfl
        obtain hne | hlt := h
        · exact hne rfl
        · omega
      rw [if_pos hfits] at hput
      refine ⟨_, _, hput, hfits, ⟨requested_inside htype howner, requested_apart htype howner, ?_⟩,
        ?_⟩
      · exact fun p hp => load_storeAll (requested_apart htype howner) hp
      · intro i hi
        exact storeAll_of_notIn fun p hp =>
          .inr (Nat.le_trans (requested_inside htype howner p hp) hi)

end Requested

/-- The entry `ab` of an object of group 5. -/
def groupEntry : Entry := ⟨1, [97, 98], nullCookie⟩

def groupAttr : Fattr := { (default : Fattr) with gid := 5 }

theorem putsEntry_iff_comment : ExAllType ED_COMMENT ∧
    (PutsEntry 0 100 ED_COMMENT 30 groupEntry groupAttr (fun _ => 0) ↔
      ED_COMMENT ≠ ED_OWNER ∨ (100 : Int) < sizeNeeded ED_OWNER 30 groupEntry.name) :=
  ⟨⟨by decide, by decide⟩, putsEntry_iff ⟨by decide, by decide⟩⟩

/-- The name is stored over the group. -/
theorem not_putsEntry_owner :
    load (putExAllData 0 100 ED_OWNER (getFixedSize ED_OWNER) 30 groupEntry groupAttr fun _ =>
      0).2 edOwnerGID 2 =
        groupEntry.name ∧
      be16 (nfsgid2GID groupAttr.gid) = [0, 5] ∧
        ¬ PutsEntry 0 100 ED_OWNER 30 groupEntry groupAttr fun _ => 0 := by
  refine ⟨by decide +kernel, by decide +kernel, fun h => ?_⟩
  obtain ⟨n, mem', -, -, hlaid, -⟩ := h.stored (by decide)
  exact requested_owner_not_apart hlaid.apart

end Anfs.Dir
