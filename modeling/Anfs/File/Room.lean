import Anfs.Buf.Room
import Anfs.File.Order

/-!
# Room in all interval tables

The check of the table behind a write only looks at the header of the position, which may not be
the one that has been filled. Every table keeps room for an entry all the same, as long as no
write goes on after the cluster has been emptied.
-/
namespace Anfs.File
open Anfs.Lib Anfs.Nfs Anfs.Buf

/-- The condition on an action: a cached write is not interrupted by a full table. -/
def WritesRoomy (g : Global) (a : Action) : Prop :=
  ∀ x ∈ writeCall g a, RoomyWrite x.1 x.2.1 x.2.2

instance (g : Global) (a : Action) : Decidable (WritesRoomy g a) := by
  unfold WritesRoomy; infer_instance

/-- Every table of the cluster of `efh` has room. -/
def RoomyTables (g : Pool) (efh : EFH) : Prop := RoomyChain g (chainOf g efh)

theorem roomyTables_ofHeaders : OfHeaders RoomyTables where
  congr {g g' efh efh'} h chain max hdr := by
    intro p hp
    rw [chain] at hp
    obtain ⟨aligned, normal, room, zero⟩ := h p hp
    obtain ⟨hoffs, hinfo⟩ := hdr p hp
    rw [Pool.blk_fileOffs, ← hoffs, ← Pool.blk_fileOffs] at aligned
    rw [← hinfo] at normal room zero
    exact ⟨aligned, normal, room, zero⟩
  opened used max := by
    rw [RoomyTables, chainOf_empty used]
    exact RoomyChain.nil _
  emptied h used max := by
    rw [RoomyTables, chainOf_empty used]
    exact RoomyChain.nil _

theorem roomy_writeKeeps : WriteKeeps RoomyTables RoomyWrite := by
  intro s s' buf num r howns hself hok hnum hrun
  obtain ⟨l, fr, howns', hmoved, hroomy⟩ :=
    wcWriteCache_roomy howns hself (Int.le_of_lt hnum) hok hrun
  refine ⟨l, fr, howns', hmoved, fun hchain => ?_⟩
  rw [RoomyTables, hchain]
  exact hroomy

section Run
variable {g g' : Global}

/-- In every state that a run without such writes reaches, the tables have room, and so has the
one that a call of `WBufUpdateInfo` gets, whichever buffer the write goes to. -/
theorem updatesWithRoom_run (hsize : 0 ≤ g.gBufSizePerFile) (numMBufs numWBufs avail : Nat)
    (ok : Bool) (as : List Action)
    (h : Guarded stepRun (OnOk WritesRoomy) (gInit g numMBufs numWBufs avail ok) as)
    (hrun : run stepRun (gInit g numMBufs numWBufs avail ok) as = .ok g') :
    (∀ efh ∈ g'.gFH, ∀ p ∈ chainOf g'.pool efh,
      (g'.pool.wbh p).wbhInfo.length < WBUFHDRINFOSIZE) ∧
      ∀ a, WritesRoomy g' a → ∀ x ∈ writeCall g' a, ∀ y ∈ writeEntries x.1 x.2.1 x.2.2,
        UpdatesWithRoom x.1.efh y.state y.num := by
  obtain ⟨hinv, -⟩ := clusters_run roomyTables_ofHeaders roomy_writeKeeps hsize
    numMBufs numWBufs avail ok h hrun
  refine ⟨fun efh hmem p hp => (hinv.each efh hmem p hp).room, fun a hok x hx => ?_⟩
  obtain ⟨hnum, howns, -, hself⟩ := hinv.writeCall roomyTables_ofHeaders hx
  exact writeEntries_roomy howns hself (Int.le_of_lt hnum) (hok x hx)

theorem updatesWithRoom_run_writes :
    ∃ g', run stepRun (gInit exGlobal 1 16 1 true) exWrites = .ok g' ∧
      ∀ a, WritesRoomy g' a → ∀ x ∈ writeCall g' a, ∀ y ∈ writeEntries x.1 x.2.1 x.2.2,
        UpdatesWithRoom x.1.efh y.state y.num := by
  have hends : (run stepRun (gInit exGlobal 1 16 1 true) exWrites).toOption.isSome = true := by
    decide +kernel
  cases h : run stepRun (gInit exGlobal 1 16 1 true) exWrites with
  | error f => rw [h] at hends; cases hends
  | ok g' =>
      exact ⟨g', rfl,
        (updatesWithRoom_run (by decide) 1 16 1 true exWrites (by decide +kernel) h).2⟩

/-- A byte written at `pos`. -/
def exByte (pos : Int) : List Action := [.seek 1 pos OFFSET_BEGINNING, .write 1 (fun _ => 0) 1]

/-- `num` single bytes from `pos` on, every second one. -/
def exBytes (pos : Int) (num : Nat) : List Action :=
  (List.range num).flatMap fun i => exByte (pos + 2 * i)

/-- A file of 20000 bytes, and a handler with eight buffers. -/
def exServed : Global :=
  { exGlobal with srv := ⟨fun _ => ⟨fun _ => 0, 0⟩, fun _ => .done 20000, 0, []⟩ }

/-- The table of the second block is filled and the cluster emptied while the position is there;
then the table of the first block is filled, and the position set to its last byte. -/
def exStale : List Action :=
  [.openFile MODE_NEWFILE 0 0 1 true true, .write 1 (fun _ => 0) 20000] ++ exByte 0 ++
    exBytes 8194 57 ++ exByte 16484 ++ exByte 8192 ++ exByte 8308 ++ exBytes 0 57 ++
    [.seek 1 8191 OFFSET_BEGINNING]

/-- The lengths of the tables that a write of `num` bytes updates. -/
def exUpdated (r : Except Fault Global) (num : Int) : List Nat :=
  match r with
  | .error _ => []
  | .ok g =>
      match writeCall g (.write 1 (fun _ => 0) num) with
      | none => []
      | some x => (writeEntries x.1 x.2.1 x.2.2).filterMap fun y =>
          match wBufTarget x.1.efh y.state with
          | .ok (.fill q, s) => some (s.pool.wbh q).wbhInfo.length
          | _ => none

theorem mem_exUpdated {num : Int} {n : Nat} (hn : n ∈ exUpdated (.ok g) num)
    (hroom : ∀ x ∈ writeCall g (.write 1 (fun _ => 0) num), ∀ y ∈ writeEntries x.1 x.2.1 x.2.2,
      UpdatesWithRoom x.1.efh y.state y.num) : n < WBUFHDRINFOSIZE := by
  simp only [exUpdated] at hn
  cases hcall : writeCall g (.write 1 (fun _ => 0) num) with
  | none =>
      rw [hcall] at hn
      cases hn
  | some x =>
      rw [hcall] at hn
      obtain ⟨y, hy, hlen⟩ := List.mem_filterMap.mp hn
      split at hlen
      · rename_i q s htarget
        cases hlen
        exact (hroom x hcall y hy q s htarget).1
      · cases hlen

/-- The first byte fills the last entry but one of its table, which empties the cluster; the
second byte goes to the header behind the one that the position still points to. -/
theorem not_updatesWithRoom_stale :
    ∃ g', run stepRun (gInit exServed 8 16 8 true) exStale = .ok g' ∧
      ¬ ∀ x ∈ writeCall g' (.write 1 (fun _ => 0) 2), ∀ y ∈ writeEntries x.1 x.2.1 x.2.2,
        UpdatesWithRoom x.1.efh y.state y.num := by
  have hfull : 59 ∈ exUpdated (run stepRun (gInit exServed 8 16 8 true) exStale) 2 := by
    decide +kernel
  cases h : run stepRun (gInit exServed 8 16 8 true) exStale with
  | error f =>
      rw [h] at hfull
      cases hfull
  | ok g' =>
      rw [h] at hfull
      exact ⟨g', rfl, fun hroom => absurd (mem_exUpdated hfull hroom) (by decide)⟩

end Run

end Anfs.File
