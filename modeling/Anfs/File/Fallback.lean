import Anfs.Buf.Broken
import Anfs.File.Room

/-!
# The fallback of cached writes in a run

The accounts that the fallback rests on hold in every state of a run, so no cached write of a run
uses it, unless its positions pass the last `LONG` or a full table interrupts it.
-/
namespace Anfs.File
open Anfs.Lib Anfs.Nfs Anfs.Buf

/-- A write from a `LONG` position that is unbroken if it is cached. -/
structure PlainWrite (s : FState) (num : Int) : Prop where
  long : IsLong s.efh.efhFilePos
  unbroken : ∀ wbc ∈ s.efh.efhWBuf, ¬ goesPast s.pool wbc num →
    Unbroken s (chainOf s.pool s.efh) num

instance (s : FState) (num : Int) : Decidable (PlainWrite s num) :=
  decidable_of_iff (IsLong s.efh.efhFilePos ∧ ∀ wbc ∈ s.efh.efhWBuf, ¬ goesPast s.pool wbc num →
      Unbroken s (chainOf s.pool s.efh) num) ⟨fun h => ⟨h.1, h.2⟩, fun h => ⟨h.long, h.unbroken⟩⟩

/-- The condition on an action: its write is plain. -/
def WritesPlain (g : Global) (a : Action) : Prop :=
  ∀ x ∈ writeCall g a, PlainWrite x.1 x.2.2

instance (g : Global) (a : Action) : Decidable (WritesPlain g a) := by
  unfold WritesPlain; infer_instance

/-- The cluster of `efh` has headers for blocks of the file only. -/
def BlockTables (g : Pool) (efh : EFH) : Prop := OnBlocks g (chainOf g efh)

theorem blockTables_ofHeaders : OfHeaders BlockTables where
  congr {g g' efh efh'} h chain max hdr := by
    intro p hp
    rw [chain] at hp
    rw [(hdr p hp).1]
    exact h p hp
  opened used max := by
    rw [BlockTables, chainOf_empty used]
    exact OnBlocks.nil _
  emptied h used max := by
    rw [BlockTables, chainOf_empty used]
    exact OnBlocks.nil _

theorem plain_writeKeeps : WriteKeeps BlockTables fun s _ num => PlainWrite s num := by
  intro s s' buf num r howns hself hok hnum hrun
  have hroom : ∀ x ∈ writeEntries s buf num, TableRoom x.state x.num :=
    writeEntries_tableRoom howns hself hnum hok.long hok.unbroken
  obtain ⟨l, fr, howns', hmoved, -⟩ := wcWriteCache_owns howns (Int.le_of_lt hnum) hroom hrun
  obtain ⟨l₁, fr₁, howns₁, hblocks⟩ :=
    wcWriteCache_blocks howns hself hnum hok.long hok.unbroken hrun
  refine ⟨l, fr, howns', hmoved, fun hchain => ?_⟩
  obtain rfl : chainOf s'.pool s'.efh = l₁ := chainOf_eq howns₁.chain howns₁.used
  exact hblocks

section Run
variable {g g' : Global}

/-- In a run of plain writes the accounts are right whenever a packet writes. -/
theorem accounted_run (hsize : 0 ≤ g.gBufSizePerFile) (numMBufs numWBufs avail : Nat) (ok : Bool)
    {as : List Action}
    (h : Guarded stepRun (OnOk WritesPlain) (gInit g numMBufs numWBufs avail ok) as)
    (hrun : run stepRun (gInit g numMBufs numWBufs avail ok) as = .ok g') {a : Action}
    {x : FState × (Nat → UInt8) × Int} (hx : x ∈ writeCall g' a) :
    0 < x.2.2 ∧ Accounted x.1.w (chainOf x.1.pool x.1.efh) (freeHdrs x.1.pool) := by
  obtain ⟨hinv, -⟩ := clusters_run blockTables_ofHeaders plain_writeKeeps hsize numMBufs
    numWBufs avail ok h hrun
  obtain ⟨hnum, howns, hlen, hself⟩ := hinv.writeCall blockTables_ofHeaders hx
  exact ⟨hnum, howns, hself, hlen⟩

/-- The state a write of `num` bytes after a run calls `wc_WriteCache` in, if it is cached. -/
def exBuffered (r : Except Fault Global) (num : Int) : Option FState :=
  match r with
  | .error _ => none
  | .ok g =>
      (writeCall g (.write 1 (fun _ => 0) num)).bind fun x =>
        x.1.efh.efhWBuf.bind fun wbc => if goesPast x.1.pool wbc num then none else some x.1

theorem mem_exBuffered {r : Except Fault Global} {num : Int} {s : FState}
    (h : s ∈ exBuffered r num) :
    ∃ g x wbc, r = .ok g ∧ x ∈ writeCall g (.write 1 (fun _ => 0) num) ∧ x.1 = s ∧
      s.efh.efhWBuf = some wbc ∧ ¬ goesPast s.pool wbc num := by
  unfold exBuffered at h
  cases r with
  | error f => cases h
  | ok g =>
      obtain ⟨x, hx, h⟩ := Option.bind_eq_some_iff.mp h
      obtain ⟨wbc, hwbuf, h⟩ := Option.bind_eq_some_iff.mp h
      split at h
      · cases h
      · rename_i hgo
        obtain rfl : x.1 = s := Option.some.inj h
        exact ⟨g, x, wbc, rfl, hx, rfl, hwbuf, hgo⟩

/-- Two cached writes of three bytes. -/
def exPlain : List Action :=
  [.openFile MODE_NEWFILE 0 0 1 true true, .write 1 (fun _ => 7) 3]

/-- In the buffered branch of `wc_WriteCache` the fallback is never used, and every call of
`WBufWrite` is entered as required, whatever the server does, if and only if the write is
unbroken. -/
theorem fallbackUnused_iff {s : FState} {l fr : List Ptr} {buf : Nat → UInt8} {num : Int}
    (h : Accounted s.w l fr) {wbc : WBufCluster}
    (hwbuf : s.efh.efhWBuf = some wbc) (hgo : ¬ goesPast s.pool wbc num) (hnum : 0 < num)
    (hpos : IsLong s.efh.efhFilePos) :
    (∀ srv, FallbackUnused { s with srv := srv } buf num ∧
      ∀ x ∈ writeEntries { s with srv := srv } buf num, OnTrack (s.efh.efhFilePos + num) x) ↔
      Unbroken s l num := by
  constructor
  · intro hall
    have hserves := serving_serves s.srv
    obtain ⟨hok, htrack⟩ := hall s.srv.serving
    have hacc : Accounted ({ s with srv := s.srv.serving } : FState).w l fr :=
      ⟨h.owns.withServer _, h.blocks, h.count⟩
    obtain ⟨r, w, hseek, hr⟩ := hok.seek
    obtain ⟨k, rfl⟩ := seek_served hacc.owns hserves hseek hr
    obtain ⟨e, w', hloop, -⟩ := hok.ends k w hseek
    rw [writeEntries_eq (s := { s with srv := s.srv.serving }) hwbuf hgo hseek] at htrack
    exact (unbroken_of_served hacc hnum hpos hserves hseek ⟨_, hloop⟩ htrack).withServer s.srv
  · intro hok srv
    have hacc : Accounted ({ s with srv := srv } : FState).w l fr :=
      ⟨h.owns.withServer _, h.blocks, h.count⟩
    exact (hok.withServer srv).fallbackUnused hacc hwbuf hgo hnum hpos

theorem fallbackUnused_iff_plain :
    ∃ s ∈ exBuffered (run stepRun (gInit exGlobal 1 16 1 true) exPlain) 3,
      ∀ srv, FallbackUnused { s with srv := srv } (fun _ => 0) 3 := by
  have hplain : (exBuffered (run stepRun (gInit exGlobal 1 16 1 true) exPlain) 3).any
      (fun s => decide (PlainWrite s 3)) = true := by
    decide +kernel
  obtain ⟨s, hs, hplain⟩ := (Option.any_eq_true ..).mp hplain
  obtain ⟨g, x, wbc, hrun, hcall, rfl, hwbuf, hgo⟩ := mem_exBuffered hs
  obtain ⟨hlong, hunbroken⟩ : PlainWrite x.1 3 := of_decide_eq_true hplain
  obtain ⟨-, hacc⟩ := accounted_run (by decide) 1 16 1 true (by decide +kernel) hrun hcall
  exact ⟨_, hs, fun srv => ((fallbackUnused_iff hacc hwbuf hgo (by decide) hlong).mpr
    (hunbroken wbc hwbuf hgo) srv).1⟩

/-- Headers for the last block but one, the last block and the last but one again, and the
position on the byte in front of the last block. -/
def exLast : List Action :=
  [.openFile MODE_NEWFILE 0 0 1 true true,
    .setFileSize 1 2147483647 OFFSET_BEGINNING 1 (.done 2147483647)] ++
    exByte 2147467264 ++ exByte 2147475456 ++ exByte 2147467274 ++
    [.seek 1 2147475455 OFFSET_BEGINNING]

/-- The loop of a cached write does not end. -/
def exStuck (s : FState) (num : Int) : Bool :=
  match wBufSeekAndPrepare s.efh s.w s.efh.efhFilePos with
  | .ok (.done _, w) =>
      match wBufWriteLoop s.efh num.toNat w (fun _ => 0) num with
      | .error _ => true
      | .ok _ => false
  | _ => false

/-- Behind the last block the position is negative, and the third call copies less than nothing
into the buffer of the first header. -/
theorem not_fallbackUnused_last :
    ∃ s ∈ exBuffered (run stepRun (gInit exServed 8 16 8 true) exLast) 8194,
      Accounted s.w (chainOf s.pool s.efh) (freeHdrs s.pool) ∧
        ¬ FallbackUnused s (fun _ => 0) 8194 := by
  have hstuck : (exBuffered (run stepRun (gInit exServed 8 16 8 true) exLast) 8194).any
      (fun s => exStuck s 8194) = true := by
    decide +kernel
  obtain ⟨s, hs, hstuck⟩ := (Option.any_eq_true ..).mp hstuck
  obtain ⟨g, x, wbc, hrun, hcall, rfl, hwbuf, hgo⟩ := mem_exBuffered hs
  obtain ⟨-, hacc⟩ := accounted_run (by decide) 8 16 8 true (by decide +kernel) hrun hcall
  refine ⟨_, hs, hacc, fun h => ?_⟩
  unfold exStuck at hstuck
  split at hstuck
  · rename_i n w hseek
    obtain ⟨e, w', hloop, -⟩ := h.ends n w hseek
    rw [hloop] at hstuck
    cases hstuck
  · cases hstuck

end Run

end Anfs.File
