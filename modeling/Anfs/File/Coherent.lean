import Anfs.File.Accounts
import Anfs.File.Handles
import Anfs.File.Read

/-!
# What a read returns

Small reads are served from a buffer of the open file. As long as the buffer holds what the
server's file holds, a read returns the bytes of the file.
-/
namespace Anfs.File
open Anfs.Lib Anfs.Nfs Anfs.Buf

/-- The position that a `LONG` stands for in a request. -/
def upos (x : Int) : Nat := (ulong x).toNat

theorem upos_long_add {x : Int} {n : Nat} (h : upos x + n < 4294967296) :
    upos (long (x + n)) = upos x + n := by
  simp only [upos, ulong, long] at *
  omega

/-- The buffer `rbn` holds bytes of the file. -/
structure Holds (g : Pool) (file : SrvFile) (rbh : RBufHdr) (rbn : Ptr) : Prop where
  offs : IsLong rbh.rbhFileOffs
  len : 0 ≤ rbh.rbhDataLen
  within : upos rbh.rbhFileOffs + rbh.rbhDataLen.toNat ≤ file.size
  bytes : ∀ i, i < rbh.rbhDataLen.toNat → g.mem rbn i = file.bytes (upos rbh.rbhFileOffs + i)

/-- An open file that is read and written directly. -/
structure Plain (efh : EFH) : Prop where
  mode : efh.efhMode = MODE_OLDFILE ∨ efh.efhMode = MODE_READWRITE
  wbuf : efh.efhWBuf = none
  res2 : efh.efhRes2 = 0
  pos : IsLong efh.efhFilePos

/-- Such a file whose buffer holds no other bytes than the file on the server. -/
structure Coherent (g : Pool) (file : SrvFile) (efh : EFH) : Prop extends Plain efh where
  holds : ∀ rbh rbn, efh.efhRBuf = some rbh → rbh.rbhData = some rbn → Holds g file rbh rbn

/-- The bytes that `rb_ReadBuf` takes from the buffer. -/
def fromBuffer (efh : EFH) (rbh : RBufHdr) (num : Int) : Int :=
  let last := long (rbh.rbhFileOffs + rbh.rbhDataLen)
  if rbh.rbhData.isSome ∧ rbh.rbhFileOffs ≤ efh.efhFilePos ∧ efh.efhFilePos < last then
    min num (last - efh.efhFilePos)
  else 0

/-- Offset and count of the call of `nfs_MRead` in `rb_ReadBuf`. -/
def rbRequest (s : FState) (num : Int) : Int × Int :=
  match s.efh.efhRBuf with
  | some rbh =>
      if num ≤ RBUFFERLIMIT ∧ s.efh.efhFilePos ≠ 0 ∧
          (rbh.rbhData.isSome ∨ 0 < s.pool.gNumFreeMBufs) then
        (long (s.efh.efhFilePos + fromBuffer s.efh rbh num), MBUFSIZE)
      else (s.efh.efhFilePos, num)
  | none => (s.efh.efhFilePos, num)

theorem ofInt_toNat (x : Int) : (UInt32.ofInt x).toNat = upos x := by
  unfold UInt32.ofInt upos ulong
  rw [UInt32.toNat_ofNat']
  omega

theorem rbRequest_pos {s : FState} {num : Int} (hnum : 0 < num) :
    0 < (rbRequest s num).2.toNat := by
  unfold rbRequest
  split
  · split
    · show 0 < MBUFSIZE.toNat
      decide
    · simpa using hnum
  · simpa using hnum

/-- What a read of `num` bytes at the position of the open file should store and leave. -/
structure Exactly (file : SrvFile) (efh efh' : EFH) (buf buf' : Nat → UInt8)
    (num n : Int) : Prop where
  count : n = (min num.toNat (file.size - upos efh.efhFilePos) : Nat)
  bytes : ∀ i, buf' i =
    if i < min num.toNat (file.size - upos efh.efhFilePos) then file.bytes (upos efh.efhFilePos + i)
    else buf i
  pos : efh'.efhFilePos = long (efh.efhFilePos + n)

section Read
variable {s s' : FState} {file : SrvFile} {buf : Nat → UInt8} {num : Int} {ans : ReadAnswer}

theorem Plain.moved {efh : EFH} (h : Plain efh) {pos : Int} (hpos : IsLong pos) (len : Int) :
    Plain { efh with efhFilePos := pos, efhFileLen := len } :=
  ⟨h.mode, h.wbuf, h.res2, hpos⟩

theorem Coherent.moved {g : Pool} {efh : EFH} (h : Coherent g file efh) {pos : Int}
    (hpos : IsLong pos) (len : Int) :
    Coherent g file { efh with efhFilePos := pos, efhFileLen := len } :=
  ⟨h.toPlain.moved hpos len, h.holds⟩

/-- The buffer given up. -/
theorem Plain.empty {g : Pool} {efh : EFH} (h : Plain efh) (rbh : RBufHdr) :
    Coherent g file { efh with efhRBuf := some { rbh with rbhData := none } } := by
  refine ⟨⟨h.mode, h.wbuf, h.res2, h.pos⟩, fun rbh' rbn hrbh hdata => ?_⟩
  simp only [Option.some.injEq] at hrbh
  subst hrbh
  simp at hdata

theorem Coherent.released (h : Coherent s.pool file s.efh) (hrel : releaseBuffered s = .ok s') :
    Coherent s'.pool file s'.efh ∧ s'.pool.mem = s.pool.mem ∧ s'.efh.efhFilePos = s.efh.efhFilePos ∧
      s'.efh.efhFileLen = s.efh.efhFileLen := by
  unfold releaseBuffered rbReleaseRBufData at hrel
  split at hrel
  · cases hr : s.efh.efhRBuf with
    | none => rw [hr] at hrel; cases hrel
    | some rbh =>
        rw [hr] at hrel
        cases hrel
        refine ⟨h.toPlain.empty rbh, ?_, rfl, rfl⟩
        cases rbh.rbhData <;> rfl
  · cases hrel
    exact ⟨h, rfl, rfl, rfl⟩

theorem releaseBuffered_total (s : FState) : ∃ s', releaseBuffered s = .ok s' := by
  unfold releaseBuffered hasBufferedRData rbReleaseRBufData
  cases s.efh.efhRBuf with
  | none => exact ⟨s, by simp⟩
  | some rbh =>
      simp only
      split
      · exact ⟨_, rfl⟩
      · exact ⟨_, rfl⟩

theorem readPlain_exact (buf : Nat → UInt8) (h : Coherent s.pool file s.efh)
    (hans : ReadsFrom file (upos s.efh.efhFilePos) num.toNat ans) :
    ∃ n buf' s', readPlain s buf ans = .ok (.done n, buf', s') ∧
      Exactly file s.efh s'.efh buf buf' num n ∧ Coherent s'.pool file s'.efh ∧
      s'.pool.mem = s.pool.mem := by
  obtain ⟨s₁, hrel⟩ := releaseBuffered_total s
  obtain ⟨hcoh, hmem, hpos, -⟩ := h.released hrel
  obtain ⟨data, fileLen, rfl, -, hdata⟩ := hans.done
  unfold readPlain
  simp only [hrel, bind, Except.bind]
  generalize hn : min num.toNat (file.size - upos s.efh.efhFilePos) = n at hdata ⊢
  refine ⟨n, _, _, rfl, ⟨by rw [hn], fun i => ?_, ?_⟩, hcoh.moved (isLong_long _) _, hmem⟩
  · rw [hn, copyMem]
    by_cases hi : i < n
    · rw [if_pos (by omega), if_pos hi]
      simpa using hdata i hi
    · rw [if_neg (by omega), if_neg hi]
  · simp only [FState.setFilePos, FState.setFileLen, hpos]

/-- Giving up the buffer in the middle of a read. -/
theorem Plain.given_up (file : SrvFile) {rbh : RBufHdr} (h : Plain s.efh)
    (hr : s.efh.efhRBuf = some rbh) :
    ∃ s', rbReleaseRBufData s = .ok s' ∧ Coherent s'.pool file s'.efh ∧
      s'.pool.mem = s.pool.mem ∧ s'.efh.efhFilePos = s.efh.efhFilePos := by
  unfold rbReleaseRBufData
  rw [hr]
  refine ⟨_, rfl, h.empty rbh, ?_, rfl⟩
  cases rbh.rbhData <;> rfl

/-- Reading a whole buffer, behind the first `t` bytes of a read of `num` bytes. -/
theorem refill_exact (buf : Nat → UInt8) {rbh : RBufHdr} {rbn : Ptr} {t : Int} (h : Plain s.efh)
    (hsize : file.size < 4294967296) (hr : s.efh.efhRBuf = some rbh) (hd : rbh.rbhData = some rbn)
    (ht : 0 ≤ t) (htn : t < num) (hlimit : num ≤ RBUFFERLIMIT)
    (htaken : 0 < t → upos s.efh.efhFilePos + t.toNat ≤ file.size)
    (hans : ReadsFrom file (upos (long (s.efh.efhFilePos + t))) MBUFSIZE.toNat ans) :
    ∃ (n : Nat) (buf' : Nat → UInt8) (s' : FState),
      refill s rbh rbn buf num (num - t) ans = .ok (.done n, buf', s') ∧
      n = min num.toNat (file.size - upos s.efh.efhFilePos) ∧
      (∀ i, buf' i = if i < t.toNat then buf i
        else if i < n then file.bytes (upos s.efh.efhFilePos + i) else buf i) ∧
      s'.efh.efhFilePos = long (s.efh.efhFilePos + n) ∧ Coherent s'.pool file s'.efh ∧
      ∀ b, b ≠ rbn → s'.pool.mem b = s.pool.mem b := by
  have hlim : RBUFFERLIMIT = 2048 := rfl
  have hbuf : MBUFSIZE = 8192 := rfl
  have hup : upos (long (s.efh.efhFilePos + t)) = upos s.efh.efhFilePos + t.toNat := by
    by_cases h0 : t = 0
    · subst h0
      rw [Int.add_zero, long_of_isLong h.pos]
      rfl
    · have := htaken (by omega)
      have hlong := upos_long_add (x := s.efh.efhFilePos) (n := t.toNat) (by omega)
      rwa [Int.toNat_of_nonneg ht] at hlong
  obtain ⟨data, fileLen, rfl, -, hdata⟩ := hans.done
  rw [hup] at hdata ⊢
  generalize hm : min MBUFSIZE.toNat (file.size - (upos s.efh.efhFilePos + t.toNat)) = m at hdata ⊢
  have hfrom : num - (num - t) = t := by omega
  unfold refill
  simp only [hfrom]
  by_cases h0 : m = 0
  · rw [if_pos h0]
    have hcoh := h.moved (isLong_long (s.efh.efhFilePos + t)) fileLen
    obtain ⟨s', hrel, hcoh', hmem, hpos'⟩ := Plain.given_up file
      (s := (s.setFileLen fileLen).setFilePos (long (s.efh.efhFilePos + t))) hcoh hr
    simp only [hrel, bind, Except.bind]
    refine ⟨t.toNat, buf, s', by rw [Int.toNat_of_nonneg ht], by omega, fun i => ?_, ?_, hcoh',
      fun b _ => by rw [hmem]; rfl⟩
    · split
      · rfl
      · rfl
    · rw [hpos', Int.toNat_of_nonneg ht]
      rfl
  · rw [if_neg h0]
    generalize hl : min (m : Int) (num - t) = l
    have hsum : num - (num - t - l) = ((t.toNat + l.toNat : Nat) : Int) := by omega
    have hlast : long (long (s.efh.efhFilePos + t) + l) =
        long (s.efh.efhFilePos + (t.toNat + l.toNat : Nat)) := by
      have hcast : ((t.toNat + l.toNat : Nat) : Int) = t + l := by omega
      rw [hcast]
      simp only [long]
      omega
    refine ⟨t.toNat + l.toNat, _, _, by rw [hsum], by omega, fun i => ?_, hlast, ?_, fun b hb => ?_⟩
    · simp only [copyMem]
      by_cases hi : i < t.toNat
      · rw [if_neg (by omega), if_pos hi]
      · rw [if_neg hi]
        by_cases hi' : i < t.toNat + l.toNat
        · rw [if_pos (by omega), if_pos hi', hdata _ (by omega)]
          congr 1
          omega
        · rw [if_neg (by omega), if_neg hi']
    · refine ⟨⟨h.mode, h.wbuf, h.res2, isLong_long _⟩, fun rbh' rbn' hrbh hdat => ?_⟩
      simp only [Option.some.injEq] at hrbh
      subst hrbh
      obtain rfl : rbn = rbn' := Option.some.inj (hd.symm.trans hdat)
      refine ⟨isLong_long _, Int.natCast_nonneg m, ?_, fun i hi => ?_⟩
      · simp only [hup]
        omega
      · simp only [hup] at hi ⊢
        simp only [FState.setFileLen, Function.update_self, copyMem]
        rw [if_pos (by omega), ← hdata i (by omega)]
        congr 1
    · simp only [FState.setFileLen, Function.update_of_ne hb]

theorem mbObtainMBuf_total {g : Pool} (hcount : g.gNumFreeMBufs = g.gFreeMBufs.length)
    (h : 0 < g.gNumFreeMBufs) :
    ∃ rbn rest, g.gFreeMBufs = rbn :: rest ∧ mbObtainMBuf g =
      .ok (rbn, { g with gNumFreeMBufs := g.gNumFreeMBufs - 1, gFreeMBufs := rest }) := by
  unfold mbObtainMBuf
  cases hfree : g.gFreeMBufs with
  | nil =>
      rw [hfree, List.length_nil] at hcount
      omega
  | cons rbn rest => exact ⟨rbn, rest, rfl, by simp [show g.gNumFreeMBufs ≠ 0 by omega]⟩

/-- The bytes taken from the buffer are bytes of the file. -/
theorem Coherent.taken {rbh : RBufHdr} {rbn : Ptr} (h : Coherent s.pool file s.efh)
    (hsize : file.size < 4294967296) (hr : s.efh.efhRBuf = some rbh) (hd : rbh.rbhData = some rbn)
    (hnum : 0 < num) :
    0 ≤ fromBuffer s.efh rbh num ∧ fromBuffer s.efh rbh num ≤ num ∧
      (0 < fromBuffer s.efh rbh num →
        upos s.efh.efhFilePos + (fromBuffer s.efh rbh num).toNat ≤ file.size) ∧
      ∀ i, i < (fromBuffer s.efh rbh num).toNat →
        s.pool.mem rbn ((s.efh.efhFilePos - rbh.rbhFileOffs).toNat + i) =
          file.bytes (upos s.efh.efhFilePos + i) := by
  obtain ⟨hoffs, hlen, hwithin, hbytes⟩ := h.holds rbh rbn hr hd
  have hpos := h.pos
  unfold fromBuffer
  simp only [hd, Option.isSome_some, true_and]
  split
  · rename_i hin
    have hend : long (rbh.rbhFileOffs + rbh.rbhDataLen) = rbh.rbhFileOffs + rbh.rbhDataLen := by
      simp only [upos, ulong, IsLong, long] at *
      omega
    have hup : upos s.efh.efhFilePos =
        upos rbh.rbhFileOffs + (s.efh.efhFilePos - rbh.rbhFileOffs).toNat := by
      simp only [upos, ulong, IsLong] at *
      omega
    rw [hend] at hin ⊢
    refine ⟨by omega, by omega, fun _ => by omega, fun i hi => ?_⟩
    rw [hbytes _ (by omega), hup, Nat.add_assoc]
  · exact ⟨Int.le_refl 0, by omega, fun h0 => absurd h0 (by omega), fun i hi => by simp at hi⟩

/-- What a call of `rb_ReadBuf` comes to. -/
structure ReadEnds (file : SrvFile) (s : FState) (buf : Nat → UInt8) (num : Int) (n : Int)
    (buf' : Nat → UInt8) (s' : FState) : Prop where
  exact : Exactly file s.efh s'.efh buf buf' num n
  coherent : Coherent s'.pool file s'.efh
  mem : ∀ b ∉ (rbufData s.efh).toList ++ s.pool.gFreeMBufs, s'.pool.mem b = s.pool.mem b

theorem readThrough_exact {rbh : RBufHdr} (h : Coherent s.pool file s.efh)
    (hcount : s.pool.gNumFreeMBufs = s.pool.gFreeMBufs.length) (hsize : file.size < 4294967296)
    (hr : s.efh.efhRBuf = some rbh) (hfree : rbh.rbhData.isSome ∨ 0 < s.pool.gNumFreeMBufs)
    (hnum : 0 < num) (hlimit : num ≤ RBUFFERLIMIT)
    (hans : ReadsFrom file (upos (long (s.efh.efhFilePos + fromBuffer s.efh rbh num)))
      MBUFSIZE.toNat ans) :
    ∃ n buf' s', readThrough s rbh buf num ans = .ok (.done n, buf', s') ∧
      ReadEnds file s buf num n buf' s' := by
  unfold readThrough
  cases hd : rbh.rbhData with
  | none =>
      have hnone : fromBuffer s.efh rbh num = 0 := by simp [fromBuffer, hd]
      rw [hnone] at hans
      obtain ⟨rbn, rest, hlist, hobtain⟩ := mbObtainMBuf_total hcount (by simpa [hd] using hfree)
      simp only [hobtain, bind, Except.bind]
      have hplain : Plain { s.efh with efhRBuf := some { rbh with rbhData := some rbn } } :=
        ⟨h.mode, h.wbuf, h.res2, h.pos⟩
      obtain ⟨n, buf', s', hrun, hn, hbytes, hpos, hcoh, hmem⟩ := refill_exact buf
        (s := { s with
          pool := { s.pool with gNumFreeMBufs := s.pool.gNumFreeMBufs - 1, gFreeMBufs := rest }
          efh := { s.efh with efhRBuf := some { rbh with rbhData := some rbn } } })
        hplain hsize rfl rfl (Int.le_refl 0) hnum hlimit (fun h0 => absurd h0 (by omega)) hans
      rw [Int.sub_zero] at hrun
      refine ⟨n, buf', s', hrun, ⟨by rw [hn], fun i => ?_, hpos⟩, hcoh, fun b hb => hmem b ?_⟩
      · rw [hbytes, if_neg (by simp), hn]
      · rintro rfl
        simp [hlist] at hb
  | some rbn =>
      have hfrom : (if rbh.rbhFileOffs ≤ s.efh.efhFilePos ∧
          s.efh.efhFilePos < long (rbh.rbhFileOffs + rbh.rbhDataLen) then
          min num (long (rbh.rbhFileOffs + rbh.rbhDataLen) - s.efh.efhFilePos) else 0) =
          fromBuffer s.efh rbh num := by simp [fromBuffer, hd]
      obtain ⟨h0, hle, htaken, hmem⟩ := h.taken hsize hr hd hnum
      simp only [hfrom]
      generalize fromBuffer s.efh rbh num = t at h0 hle htaken hmem hans ⊢
      by_cases ht : num - t = 0
      · rw [if_neg (by simpa using ht)]
        obtain rfl : t = num := by omega
        have hn : min t.toNat (file.size - upos s.efh.efhFilePos) = t.toNat := by
          have := htaken hnum
          omega
        refine ⟨t, _, _, rfl, ⟨by rw [hn, Int.toNat_of_nonneg h0], fun i => ?_, rfl⟩,
          h.moved (isLong_long _) _, fun _ _ => rfl⟩
        rw [hn, copyMem]
        by_cases hi : i < t.toNat
        · rw [if_pos (by omega), if_pos hi, ← hmem i hi]
          rfl
        · rw [if_neg (by omega), if_neg hi]
      · rw [if_pos ht]
        obtain ⟨n, buf', s', hrun, hn, hbytes, hpos, hcoh, hmem'⟩ :=
          refill_exact _ h.toPlain hsize hr hd
          h0 (show t < num by omega) hlimit htaken hans
        refine ⟨n, buf', s', hrun, ⟨by rw [hn], fun i => ?_, hpos⟩, hcoh, fun b hb => hmem' b ?_⟩
        · rw [hbytes, ← hn]
          have htn : t.toNat ≤ n := by
            by_cases hpos0 : 0 < t
            · have := htaken hpos0
              omega
            · omega
          by_cases hi : i < t.toNat
          · rw [if_pos hi, if_pos (by omega), copyMem, if_pos (by omega), ← hmem i hi]
            rfl
          · rw [if_neg hi, copyMem, if_neg (show ¬ ((0 : Int) ≤ i ∧ (i : Int) < 0 + t) by omega)]
        · rintro rfl
          simp [rbufData, hr, hd] at hb

theorem rbReadBuf_exact (h : Coherent s.pool file s.efh)
    (hcount : s.pool.gNumFreeMBufs = s.pool.gFreeMBufs.length) (hsize : file.size < 4294967296)
    (hnum : 0 < num)
    (hrbuf : num ≤ RBUFFERLIMIT → s.efh.efhFilePos ≠ 0 → s.efh.efhRBuf ≠ none)
    (hans : ReadsFrom file (upos (rbRequest s num).1) (rbRequest s num).2.toNat ans) :
    ∃ n buf' s', rbReadBuf s buf num ans = .ok (.done n, buf', s') ∧
      ReadEnds file s buf num n buf' s' := by
  have hplain : ReadsFrom file (upos s.efh.efhFilePos) num.toNat ans →
      ∃ n buf' s', readPlain s buf ans = .ok (.done n, buf', s') ∧
        ReadEnds file s buf num n buf' s' := by
    intro hans
    obtain ⟨n, buf', s', hrun, hexact, hcoh, hmem⟩ := readPlain_exact buf h hans
    exact ⟨n, buf', s', hrun, hexact, hcoh, fun b _ => by rw [hmem]⟩
  unfold rbReadBuf
  unfold rbRequest at hans
  by_cases hsmall : num ≤ RBUFFERLIMIT ∧ s.efh.efhFilePos ≠ 0
  · rw [if_pos hsmall]
    cases hr : s.efh.efhRBuf with
    | none => exact absurd hr (hrbuf hsmall.1 hsmall.2)
    | some rbh =>
        rw [hr] at hans
        simp only at hans ⊢
        by_cases hfree : rbh.rbhData.isSome ∨ 0 < s.pool.gNumFreeMBufs
        · rw [if_pos ⟨hsmall.1, hsmall.2, hfree⟩] at hans
          rw [if_pos hfree]
          exact readThrough_exact h hcount hsize hr hfree hnum hsmall.1 hans
        · rw [if_neg fun hall => hfree hall.2.2] at hans
          rw [if_neg hfree]
          exact hplain hans
  · rw [if_neg hsmall]
    refine hplain ?_
    cases hr : s.efh.efhRBuf with
    | none => rw [hr] at hans; exact hans
    | some rbh =>
        rw [hr] at hans
        simp only at hans
        rwa [if_neg fun hall => hsmall ⟨hall.1, hall.2.1⟩] at hans

end Read

end Anfs.File
