import Anfs.File.Fallback
import Anfs.File.Reading

/-!
# What reads and writes transfer

A read stores bytes of the read buffer and behind them those of the answer, and nothing else. A
write hands all its bytes to the server in one request, or copies them piece by piece to their
places in the buffers of the cluster.
-/
namespace Anfs.File
open Anfs.Lib Anfs.Nfs Anfs.Buf

/-- The number of bytes that a read of `num` takes from the read buffer. -/
def heldBytes (efh : EFH) (num : Int) : Nat :=
  match efh.efhRBuf with
  | none => 0
  | some rbh =>
      if num ≤ RBUFFERLIMIT ∧ efh.efhFilePos ≠ 0 then (fromBuffer efh rbh num).toNat else 0

/-- The byte of the read buffer `i` places behind the position. -/
def heldByte (s : FState) (i : Nat) : UInt8 :=
  match s.efh.efhRBuf with
  | some ⟨fileOffs, _, some rbn⟩ => s.pool.mem rbn ((s.efh.efhFilePos - fileOffs).toNat + i)
  | _ => 0

def ReadAnswer.bytes : ReadAnswer → Nat → UInt8
  | .done data _ _ => data
  | .failed _ => fun _ => 0

def ReadAnswer.count : ReadAnswer → Nat
  | .done _ num _ => num
  | .failed _ => 0

/-- From the place `t` up to `n` the bytes of the answer have been stored. -/
structure Appends (ans : ReadAnswer) (t n : Nat) (buf buf' : Nat → UInt8) : Prop where
  le : t ≤ n
  count : n ≤ t + ans.count
  bytes : ∀ i, buf' i = if t ≤ i ∧ i < n then ans.bytes (i - t) else buf i

/-- Exactly `n` bytes have been stored: those of the read buffer first, then the answer's. -/
structure Fetched (s : FState) (num : Int) (ans : ReadAnswer) (buf buf' : Nat → UInt8) (n : Nat) :
    Prop where
  count : n ≤ heldBytes s.efh num + ans.count
  stored : ∀ i < n, buf' i =
    if i < heldBytes s.efh num then heldByte s i else ans.bytes (i - heldBytes s.efh num)
  rest : ∀ i, n ≤ i → buf' i = buf i

/-- A read of `n` bytes has moved on by `n` and stored them. -/
def ReadCounts (s : FState) (num : Int) (buf : Nat → UInt8) (ans : ReadAnswer) :
    Ret → (Nat → UInt8) → FState → Prop
  | .failed res2, _, _ => ans = .failed res2
  | .noMem, _, _ => False
  | .done n, buf', s' => ∃ m : Nat, n = m ∧ long s'.efh.efhFilePos = long (s.efh.efhFilePos + m) ∧
      Fetched s num ans buf buf' m

section Read
variable {s s' : FState} {buf buf' : Nat → UInt8} {num : Int} {ans : ReadAnswer} {r : Ret}

theorem Fetched.zero (s : FState) (num : Int) (ans : ReadAnswer) (buf : Nat → UInt8) :
    Fetched s num ans buf buf 0 :=
  ⟨Nat.zero_le _, fun i hi => absurd hi (Nat.not_lt_zero i), fun _ _ => rfl⟩

/-- Only the read buffer and the position matter. -/
theorem Fetched.congr {n : Nat} (h : Fetched s num ans buf buf' n)
    (hrbuf : s.efh.efhRBuf = s'.efh.efhRBuf) (hpos : s.efh.efhFilePos = s'.efh.efhFilePos)
    (hmem : ∀ b ∈ rbufData s'.efh, s.pool.mem b = s'.pool.mem b) :
    Fetched s' num ans buf buf' n := by
  have hheld : heldBytes s'.efh num = heldBytes s.efh num := by
    simp only [heldBytes, fromBuffer, hrbuf, hpos]
  have hbyte : heldByte s' = heldByte s := by
    funext i
    unfold heldByte
    rw [hrbuf, hpos]
    split
    · rename_i hr
      rw [hmem _ (by simp [rbufData, hr])]
    · rfl
  exact ⟨hheld ▸ h.count, fun i hi => by rw [hheld, hbyte]; exact h.stored i hi, h.rest⟩

theorem Appends.copyMem {t l : Nat} (hl : l ≤ ans.count) (buf : Nat → UInt8) :
    Appends ans t (t + l) buf (copyMem buf ans.bytes t l) := by
  refine ⟨Nat.le_add_right t l, by omega, fun i => ?_⟩
  unfold Buf.copyMem
  by_cases hin : t ≤ i ∧ i < t + l
  · rw [if_pos (by omega), if_pos hin, Int.toNat_natCast]
  · rw [if_neg (by omega), if_neg hin]

/-- Behind the bytes of the read buffer. -/
theorem Appends.fetched {n : Nat}
    (h : Appends ans (heldBytes s.efh num) n
      (Buf.copyMem buf (heldByte s) 0 (heldBytes s.efh num)) buf') :
    Fetched s num ans buf buf' n := by
  have hle := h.le
  refine ⟨h.count, fun i hi => ?_, fun i hi => ?_⟩
  · rw [h.bytes]
    by_cases hheld : i < heldBytes s.efh num
    · rw [if_neg (by omega), if_pos hheld, Buf.copyMem, if_pos (by omega)]
      rfl
    · rw [if_pos (by omega), if_neg hheld]
  · rw [h.bytes, if_neg (by omega), Buf.copyMem, if_neg (by omega)]

theorem releaseBuffered_pos (h : releaseBuffered s = .ok s') :
    s'.efh.efhFilePos = s.efh.efhFilePos ∧ s'.efh.efhFileLen = s.efh.efhFileLen ∧
      s'.efh.efhMode = s.efh.efhMode := by
  unfold releaseBuffered rbReleaseRBufData at h
  split at h
  · split at h
    · cases h
    · cases h
      exact ⟨rfl, rfl, rfl⟩
  · cases h
    exact ⟨rfl, rfl, rfl⟩

theorem rbReleaseRBufData_total {rbh : RBufHdr} (h : s.efh.efhRBuf = some rbh) :
    ∃ s', rbReleaseRBufData s = .ok s' ∧ s'.efh.efhFilePos = s.efh.efhFilePos := by
  unfold rbReleaseRBufData
  rw [h]
  exact ⟨_, rfl, rfl⟩

/-- How a part of `rb_ReadBuf` ends that stores bytes of the answer from the place `t` on. -/
def AnswerEnds (s : FState) (ans : ReadAnswer) (t : Nat) (buf : Nat → UInt8) :
    Ret → (Nat → UInt8) → FState → Prop
  | .failed res2, _, _ => ans = .failed res2
  | .noMem, _, _ => False
  | .done n, buf', s' => ∃ m : Nat, n = m ∧ long s'.efh.efhFilePos = long (s.efh.efhFilePos + m) ∧
      Appends ans t m buf buf'

theorem readPlain_goes (s : FState) (buf : Nat → UInt8) (ans : ReadAnswer) :
    ∃ r buf' s', readPlain s buf ans = .ok (r, buf', s') ∧ AnswerEnds s ans 0 buf r buf' s' := by
  obtain ⟨s₁, hrel⟩ := releaseBuffered_total s
  unfold readPlain
  simp only [hrel, bind, Except.bind]
  cases ans with
  | failed res2 => exact ⟨_, _, _, rfl, rfl⟩
  | done data n len =>
      refine ⟨_, _, _, rfl, n, rfl, ?_, ?_⟩
      · show long (long (s₁.efh.efhFilePos + n)) = _
        rw [(releaseBuffered_pos hrel).1]
        exact long_long _
      · have happends : Appends (.done data n len) 0 (0 + n) buf _ :=
          Appends.copyMem (Nat.le_refl n) buf
        rwa [Nat.zero_add] at happends

theorem refill_goes (rbh : RBufHdr) (rbn : Ptr) {rbh' : RBufHdr}
    (hr : s.efh.efhRBuf = some rbh') {t : Nat}
    (ht : t ≤ num) (buf : Nat → UInt8) (ans : ReadAnswer) :
    ∃ r buf' s', refill s rbh rbn buf num (num - t) ans = .ok (r, buf', s') ∧
      AnswerEnds s ans t buf r buf' s' := by
  have hfrom : num - (num - t) = t := by omega
  unfold refill
  simp only [hfrom]
  cases ans with
  | failed res2 =>
      obtain ⟨s', hrel, -⟩ := rbReleaseRBufData_total hr
      simp only [hrel, bind, Except.bind]
      exact ⟨_, _, _, rfl, rfl⟩
  | done data n len =>
      simp only
      by_cases hn : n = 0
      · obtain ⟨s', hrel, hpos⟩ := rbReleaseRBufData_total
          (s := (s.setFileLen len).setFilePos (long (s.efh.efhFilePos + t))) hr
        rw [if_pos hn]
        simp only [hrel, bind, Except.bind]
        refine ⟨_, _, _, rfl, t, rfl, ?_, Nat.le_refl t, by omega, fun i => ?_⟩
        · rw [hpos]
          exact long_long _
        · rw [if_neg (by omega)]
      · rw [if_neg hn]
        obtain ⟨l, hl⟩ : ∃ l : Nat, min (n : Int) (num - t) = l :=
          ⟨(min (n : Int) (num - t)).toNat, by omega⟩
        have hsum : num - (num - t - l) = ((t + l : Nat) : Int) := by omega
        have hcount : l ≤ (ReadAnswer.done data n len).count := by
          show l ≤ n
          omega
        simp only [hl, hsum]
        refine ⟨_, _, _, rfl, t + l, rfl, ?_, Appends.copyMem hcount buf⟩
        show long (long (long (s.efh.efhFilePos + t) + l)) = _
        rw [long_add_long, long_long]
        congr 1
        omega

/-- The answer's part of a read whose first bytes are those of the read buffer. -/
theorem AnswerEnds.counts
    (h : AnswerEnds s ans (heldBytes s.efh num)
      (Buf.copyMem buf (heldByte s) 0 (heldBytes s.efh num)) r buf' s') :
    ReadCounts s num buf ans r buf' s' := by
  cases r with
  | failed res2 => exact h
  | noMem => exact h
  | done n =>
      obtain ⟨m, hn, hpos, happends⟩ := h
      exact ⟨m, hn, hpos, happends.fetched⟩

theorem copyMem_none (data buf : Nat → UInt8) : Buf.copyMem data buf 0 0 = data := by
  funext k
  exact if_neg fun hin => by omega

theorem readThrough_goes {rbh : RBufHdr} (hcount : s.pool.gNumFreeMBufs = s.pool.gFreeMBufs.length)
    (hr : s.efh.efhRBuf = some rbh) (hfree : rbh.rbhData.isSome ∨ 0 < s.pool.gNumFreeMBufs)
    (hnum : 0 < num) (hsmall : num ≤ RBUFFERLIMIT ∧ s.efh.efhFilePos ≠ 0) (buf : Nat → UInt8)
    (ans : ReadAnswer) :
    ∃ r buf' s', readThrough s rbh buf num ans = .ok (r, buf', s') ∧
      ReadCounts s num buf ans r buf' s' := by
  have hheld : heldBytes s.efh num = (fromBuffer s.efh rbh num).toNat := by
    simp only [heldBytes, hr, if_pos hsmall]
  unfold readThrough
  cases hd : rbh.rbhData with
  | none =>
      have hzero : heldBytes s.efh num = 0 := by
        rw [hheld]
        simp [fromBuffer, hd]
      obtain ⟨rbn, rest, -, hobtain⟩ := mbObtainMBuf_total hcount (by simpa [hd] using hfree)
      simp only [hobtain, bind, Except.bind]
      obtain ⟨r, buf', s', hrun, hends⟩ := refill_goes
        (s := { s with
          pool := { s.pool with gNumFreeMBufs := s.pool.gNumFreeMBufs - 1, gFreeMBufs := rest }
          efh := { s.efh with efhRBuf := some { rbh with rbhData := some rbn } } })
        { rbh with rbhData := some rbn } rbn rfl (t := 0)
        (Int.le_of_lt hnum) buf ans
      rw [Int.natCast_zero, Int.sub_zero] at hrun
      refine ⟨r, buf', s', hrun, AnswerEnds.counts ?_⟩
      rw [hzero, Int.natCast_zero, copyMem_none]
      exact hends
  | some rbn =>
      have hbounds : 0 ≤ fromBuffer s.efh rbh num ∧ fromBuffer s.efh rbh num ≤ num := by
        unfold fromBuffer
        dsimp only
        split <;> omega
      have hcast : ((heldBytes s.efh num : Nat) : Int) = fromBuffer s.efh rbh num := by
        rw [hheld, Int.toNat_of_nonneg hbounds.1]
      have hlen : (if rbh.rbhFileOffs ≤ s.efh.efhFilePos ∧
          s.efh.efhFilePos < long (rbh.rbhFileOffs + rbh.rbhDataLen) then
            min num (long (rbh.rbhFileOffs + rbh.rbhDataLen) - s.efh.efhFilePos) else 0) =
          (heldBytes s.efh num : Int) := by
        rw [hcast]
        simp only [fromBuffer, hd, Option.isSome_some, true_and]
      have hbyte : (fun i => s.pool.mem rbn ((s.efh.efhFilePos - rbh.rbhFileOffs).toNat + i)) =
          heldByte s := by
        funext i
        obtain ⟨offs, len, data⟩ := rbh
        simp only at hd
        subst hd
        simp only [heldByte, hr]
      simp only [hlen, hbyte]
      by_cases hleft : num - heldBytes s.efh num ≠ 0
      · have hle : (heldBytes s.efh num : Int) ≤ num := by omega
        obtain ⟨r, buf', s', hrun, hends⟩ := refill_goes rbh rbn hr hle
          (Buf.copyMem buf (heldByte s) 0 (heldBytes s.efh num)) ans
        rw [if_pos hleft]
        exact ⟨r, buf', s', hrun, hends.counts⟩
      · rw [if_neg hleft]
        have hends : AnswerEnds s ans (heldBytes s.efh num)
            (Buf.copyMem buf (heldByte s) 0 (heldBytes s.efh num)) (.done num)
            (Buf.copyMem buf (heldByte s) 0 (heldBytes s.efh num))
            (s.setFilePos (long (s.efh.efhFilePos + heldBytes s.efh num))) :=
          ⟨heldBytes s.efh num, by omega, long_long _, Nat.le_refl _, Nat.le_add_right _ _,
            fun i => (if_neg (by omega)).symm⟩
        exact ⟨_, _, _, rfl, hends.counts⟩

/-- `rb_ReadBuf` returns if there is a header for the read buffer where it needs one. -/
theorem rbReadBuf_goes (hcount : s.pool.gNumFreeMBufs = s.pool.gFreeMBufs.length) (hnum : 0 < num)
    (hhdr : num ≤ RBUFFERLIMIT → s.efh.efhFilePos ≠ 0 → s.efh.efhRBuf ≠ none)
    (buf : Nat → UInt8) (ans : ReadAnswer) :
    ∃ r buf' s', rbReadBuf s buf num ans = .ok (r, buf', s') ∧
      ReadCounts s num buf ans r buf' s' := by
  have hplain : heldBytes s.efh num = 0 → ∃ r buf' s', readPlain s buf ans = .ok (r, buf', s') ∧
      ReadCounts s num buf ans r buf' s' := fun hzero => by
    obtain ⟨r, buf', s', hrun, hends⟩ := readPlain_goes s buf ans
    refine ⟨r, buf', s', hrun, AnswerEnds.counts ?_⟩
    rw [hzero, Int.natCast_zero, copyMem_none]
    exact hends
  unfold rbReadBuf
  by_cases hsmall : num ≤ RBUFFERLIMIT ∧ s.efh.efhFilePos ≠ 0
  · rw [if_pos hsmall]
    cases hr : s.efh.efhRBuf with
    | none => exact absurd hr (hhdr hsmall.1 hsmall.2)
    | some rbh =>
        simp only
        by_cases hfree : rbh.rbhData.isSome ∨ 0 < s.pool.gNumFreeMBufs
        · rw [if_pos hfree]
          exact readThrough_goes hcount hr hfree hnum hsmall buf ans
        · rw [if_neg hfree]
          refine hplain ?_
          have hnone : rbh.rbhData.isSome = false := by
            simpa using fun h => hfree (.inl h)
          simp [heldBytes, hr, fromBuffer, hnone]
  · rw [if_neg hsmall]
    refine hplain ?_
    unfold heldBytes
    split
    · rfl
    · exact if_neg hsmall

end Read

/-- A call of `WBufWrite` in the write of `num` bytes at `buf` up to `stop`: it is entered as
required with the bytes that are left, and copies what fits to its place in a buffer of the
cluster. -/
structure Puts (efh : EFH) (stop : Int) (buf : Nat → UInt8) (num : Int) (x : Entry) : Prop where
  track : OnTrack stop x
  bytes : ∀ i, x.buf i = buf ((num - x.num).toNat + i)
  fills : ∀ q w, wBufTarget efh x.state = .ok (.fill q, w) → q ∈ w.chain ∧
    (0 ≤ w.inBuf q ∧ w.inBuf q < MBUFSIZE) ∧
      wBufFill w q x.buf x.num = .ok (w.fits q x.num, w.filled q x.buf (w.fits q x.num))

/-- The `num` bytes at `buf` have gone behind those in the buffers to the server, as one request for
their position, or into the buffers. -/
def Stored (s : FState) (buf : Nat → UInt8) (num : Int) (srv' : Server) : Prop :=
  writeEntries s buf num = [] ∧ srv'.file s.efh.efhNFSFh =
      ((s.srv.file s.efh.efhNFSFh).writeAll (chainWrites s.pool s.w.chain)).write
        (request s.efh.efhFilePos buf num) ∨
    writeEntries s buf num ≠ [] ∧
      ∀ x ∈ writeEntries s buf num, Puts s.efh (s.efh.efhFilePos + num) buf num x

/-- What a write to the chain `l` needs, if it finds a buffer to be cached in. -/
def Cacheable (s : FState) (l : List Ptr) (num : Int) : Prop :=
  ∀ wbc ∈ s.efh.efhWBuf, ¬ goesPast s.pool wbc num → l ≠ [] ∨ 1 ≤ wBufsAvail s.pool →
    Unbroken s l num

instance (s : FState) (l : List Ptr) (num : Int) : Decidable (Cacheable s l num) := by
  unfold Cacheable; infer_instance

theorem Cacheable.withServer {s : FState} {l : List Ptr} {num : Int} (h : Cacheable s l num)
    (srv : Server) : Cacheable { s with srv := srv } l num :=
  fun wbc hwbuf hgo hbuffer => (h wbc hwbuf hgo hbuffer).withServer srv

section Write
variable {s s' : FState} {l fr : List Ptr} {buf : Nat → UInt8} {num : Int}

theorem puts_of_plain {efh : EFH} {stop m : Int} {w : WState} {b : Nat → UInt8}
    (h : LoopPlain stop w m) (hm : m ≠ 0) (hbytes : ∀ i, b i = buf ((num - m).toNat + i)) :
    Puts efh stop buf num ⟨w, b, m⟩ := by
  refine ⟨h.onTrack hm b, hbytes, fun q w' htarget => ?_⟩
  obtain ⟨l, fr, howns, hblocks, hat⟩ := h.chain
  obtain ⟨p, hp, hpos, hreached⟩ := hat hm
  obtain ⟨t, w'', l', fr', hrun, hends⟩ := wBufTarget_cases efh howns hpos hp
  obtain ⟨rfl, rfl⟩ : t = .fill q ∧ w'' = w' := by simpa using hrun.symm.trans htarget
  obtain ⟨howns', -, hq, hfile, -⟩ := hends.owns howns hp hpos
  obtain ⟨-, hle, hlt⟩ := hends.covers howns hp hblocks (h.place hm).1 hreached
  have hin : 0 ≤ w''.inBuf q ∧ w''.inBuf q < MBUFSIZE := by
    rw [WState.inBuf, hfile]
    omega
  exact ⟨howns'.chain_eq.symm ▸ hq, hin, (wBufFill_eq howns' hq b m).trans (if_pos hin)⟩

/-- All calls of the loop put their bytes in place. -/
theorem putsAll_of_plain {efh : EFH} {stop : Int} {w : WState} (h : LoopPlain stop w num) :
    ∀ x ∈ loopEntries efh num.toNat w buf num, Puts efh stop buf num x := by
  intro x hx
  obtain ⟨⟨hplain, -, hbytes⟩, hne⟩ := loopEntries_rule
    (P := fun w b m => LoopPlain stop w m ∧ m ≤ num ∧ ∀ i, b i = buf ((num - m).toNat + i))
    (C := fun _ _ _ => True) (fun w b m cnt w' ⟨hP, hle, hbytes⟩ hne _ hrun => by
      obtain ⟨h0, hmax, hP', -⟩ := hP.done hne hrun
      refine ⟨hP', by omega, fun i => ?_⟩
      show b (cnt.toNat + i) = _
      rw [hbytes]
      congr 1
      omega) ⟨h, Int.le_refl num, fun i => by simp⟩ (fun _ _ => trivial) x hx
  exact puts_of_plain hplain hne hbytes

theorem loopEntries_ne_nil {efh : EFH} {w : WState} (hnum : 0 < num) :
    loopEntries efh num.toNat w buf num ≠ [] := by
  obtain ⟨n, hn⟩ : ∃ n, num.toNat = n + 1 := ⟨num.toNat - 1, by omega⟩
  rw [hn]
  unfold loopEntries
  rw [if_neg (by omega)]
  exact List.cons_ne_nil _ _

theorem flushCacheAndWrite_goes (h : Owns s.w ⟨l, [], fr⟩) (buf : Nat → UInt8) (num : Int) :
    ∃ r s', flushCacheAndWrite s buf num = .ok (r, s') ∧ ((∃ res2, r = .failed res2) ∨
      r = .done num ∧ s'.srv.file s.efh.efhNFSFh =
        ((s.srv.file s.efh.efhNFSFh).writeAll (chainWrites s.pool s.w.chain)).write
          (request s.efh.efhFilePos buf num)) := by
  obtain ⟨r, s', hrun, hends⟩ := flushCacheAndWrite_cases h buf num
  refine ⟨r, s', hrun, ?_⟩
  cases hends with
  | flushFailed flush same => exact .inl ⟨_, rfl⟩
  | writeFailed flush same write => exact .inl ⟨_, rfl⟩
  | @done s₁ srv fileLen flush same write =>
      refine .inr ⟨rfl, ?_⟩
      have hflushed : s₁.srv.file s.efh.efhNFSFh =
          (s.srv.file s.efh.efhNFSFh).writeAll (chainWrites s.pool l) := flush.file rfl
      rw [h.chain_eq, ← hflushed]
      exact nfsWrite_ok write

/-- A write goes through, and stores its bytes if no request fails. -/
theorem wcWriteCache_goes (h : Accounted s.w l fr) (hnum : 0 < num)
    (hpos : IsLong s.efh.efhFilePos) (hok : Cacheable s l num) (buf : Nat → UInt8) :
    ∃ r s', wcWriteCache s buf num = .ok (r, s') ∧
      ((∃ res2, r = .failed res2) ∨ r = .done num ∧ Stored s buf num s'.srv) := by
  have hpast : writeEntries s buf num = [] → ∃ r s', flushCacheAndWrite s buf num = .ok (r, s') ∧
      ((∃ res2, r = .failed res2) ∨ r = .done num ∧ Stored s buf num s'.srv) := fun hnone => by
    obtain ⟨r, s', hrun, hends⟩ := flushCacheAndWrite_goes h.owns buf num
    exact ⟨r, s', hrun, hends.imp_right fun ⟨hr, hfile⟩ => ⟨hr, .inl ⟨hnone, hfile⟩⟩⟩
  unfold wcWriteCache
  cases hwbuf : s.efh.efhWBuf with
  | none => exact hpast (by simp only [writeEntries, hwbuf])
  | some wbc =>
      simp only
      by_cases hgo : goesPast s.pool wbc num
      · rw [if_pos hgo]
        exact hpast (by simp only [writeEntries, hwbuf, if_pos hgo])
      · rw [if_neg hgo, ← FState.w_eq hwbuf]
        by_cases hbuffer : l ≠ [] ∨ 1 ≤ wBufsAvail s.pool
        · have hunbroken := hok wbc hwbuf hgo hbuffer
          obtain ⟨⟨r, w⟩, hseek⟩ := seek_total h hunbroken
          simp only [hseek, bind, Except.bind]
          cases r with
          | failed res2 => exact ⟨_, _, rfl, .inl ⟨_, rfl⟩⟩
          | noMem => exact absurd hseek (seek_not_noMem h.owns hbuffer)
          | done k =>
              have hplain := seek_plain h.owns h.blocks hnum hpos hunbroken hseek
              obtain ⟨-, -, e, w', hloop, he⟩ := hplain.loop s.efh buf
              simp only [hloop]
              cases e with
              | failed res2 => exact ⟨_, _, rfl, .inl ⟨_, rfl⟩⟩
              | noMem b m => exact absurd rfl (he b m)
              | done =>
                  refine ⟨_, _, rfl, .inr ⟨rfl, .inr ?_⟩⟩
                  rw [writeEntries_eq hwbuf hgo hseek]
                  exact ⟨loopEntries_ne_nil hnum, putsAll_of_plain hplain⟩
        · obtain rfl : l = [] := Decidable.not_not.mp fun hl => hbuffer (.inl hl)
          obtain ⟨⟨r, w⟩, hseek⟩ :
              ∃ x, wBufSeekAndPrepare s.efh s.w s.efh.efhFilePos = .ok x :=
            wBufSeekAndPrepare_ends s.efh h.owns h.count fun ⟨p, hp, _⟩ => nomatch hp
          simp only [hseek, bind, Except.bind]
          cases r with
          | failed res2 => exact ⟨_, _, rfl, .inl ⟨_, rfl⟩⟩
          | done k => exact absurd (buffer_of_seek h.owns hseek) hbuffer
          | noMem =>
              obtain ⟨l', fr', hends⟩ := wBufSeekAndPrepare_ok s.efh h.owns hseek
              rcases hends with ⟨-, _ | _⟩
              have howns : Owns (s.setCluster (s.w.setFilePos s.efh.efhFilePos)).w ⟨[], [], fr⟩ :=
                h.owns.setPos _ _
              obtain ⟨r, s', hrun, hends⟩ := flushCacheAndWrite_goes howns buf num
              have hnone : writeEntries s buf num = [] := by
                simp only [writeEntries, hwbuf, if_neg hgo, ← FState.w_eq hwbuf, hseek]
              exact ⟨r, s', hrun, hends.imp_right fun ⟨hr, hfile⟩ => ⟨hr, .inl ⟨hnone, hfile⟩⟩⟩

/-- A write that is served and stores its bytes is one that can be cached, or is not cached. -/
theorem cacheable_of_stored (h : Accounted s.w l fr) (hnum : 0 < num)
    (hpos : IsLong s.efh.efhFilePos) (hserves : Serves s.srv) {r : Ret} {srv' : Server}
    (hrun : wcWriteCache s buf num = .ok (r, s')) (hstored : Stored s buf num srv') :
    Cacheable s l num := by
  intro wbc hwbuf hgo hbuffer
  rw [Option.mem_def] at hwbuf
  unfold wcWriteCache at hrun
  simp only [hwbuf, if_neg hgo, ← FState.w_eq hwbuf] at hrun
  obtain ⟨⟨r₁, w⟩, hseek, hrun⟩ := ok_of_bind hrun
  have hr : r₁ ≠ .noMem := fun hr => seek_not_noMem h.owns hbuffer (hr ▸ hseek)
  obtain ⟨k, rfl⟩ := seek_served h.owns hserves hseek hr
  obtain ⟨x, hloop, -⟩ := ok_of_bind hrun
  rw [Stored, writeEntries_eq hwbuf hgo hseek] at hstored
  obtain ⟨hnone, -⟩ | ⟨-, hputs⟩ := hstored
  · exact absurd hnone (loopEntries_ne_nil hnum)
  · exact unbroken_of_served h hnum hpos hserves hseek ⟨x, hloop⟩ fun y hy => (hputs y hy).track

end Write

end Anfs.File
