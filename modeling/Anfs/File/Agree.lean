import Anfs.File.Coherent
import Anfs.Lib.Run

/-!
# Buffered and plain reading agree

Calls of `rb_ReadBuf` and seeks on one open file, while other open files take and give back
buffers. The file does not change; the server may refuse requests and answer with less than was
asked for.
-/
namespace Anfs.File
open Anfs.Lib Anfs.Nfs Anfs.Buf

/-- The values of `ng_MaxReadSize`. -/
structure MaxReadSize where
  val : Nat
  low : 256 ≤ val
  high : val ≤ nfsMaxdata

/-- What a call of `rb_ReadBuf` gets: where to store how much, and what the server does. -/
structure ReadCall where
  num : Int
  buf : Nat → UInt8
  ngMaxReadSize : MaxReadSize
  short : Nat → Nat
  refuse : Nat → Option Refusal

/-- A call of `rb_ReadBuf` on the open file of `s`, with the call of `nfs_MRead` in it. -/
def ReadCall.run (c : ReadCall) (file : SrvFile) (s : FState) :
    Except Fault (Ret × (Nat → UInt8) × FState) := do
  let (offset, count) := rbRequest s c.num
  let ans ← nfsMRead c.ngMaxReadSize.val (serveSome file c.short c.refuse)
    (UInt32.ofInt offset) count.toNat
  rbReadBuf s c.buf c.num ans

/-- What happens to an open file: reads, seeks, and what other open files make of the buffers
that are not its own. -/
inductive Event
  | read (c : ReadCall)
  | seek (pos : Int)
  | others (free : List Ptr) (mem : Ptr → Nat → UInt8)

/-- The free buffers and the contents of all buffers change, except for the buffer `own`. -/
def changeOthers (own : Option Ptr) (free : List Ptr) (mem : Ptr → Nat → UInt8) (g : Pool) : Pool :=
  let free := free.filter fun b => some b ≠ own
  { g with
    gFreeMBufs := free
    gNumFreeMBufs := free.length
    mem := fun b => if some b = own then g.mem b else mem b }

/-- `act_READ` makes no call for counts that are not positive. -/
def eventStep (file : SrvFile) (r : Except Fault FState) (e : Event) : Except Fault FState := do
  let s ← r
  match e with
  | .read c => if 0 < c.num then (c.run file s).map fun x => x.2.2 else .ok s
  | .seek pos => .ok (s.setFilePos (long pos))
  | .others free mem => .ok { s with pool := changeOthers (rbufData s.efh) free mem s.pool }

/-- What `act_FINDREADWRITE` makes of a lock; there is no header when it cannot be allocated. -/
def openedForRead (pool : Pool) (srv : Server) (id fileLen key : Int) (fh : Fh)
    (update header : Bool) : FState where
  pool := pool
  srv := srv
  efh :=
    { efhId := id
      efhFilePos := 0
      efhFileLen := fileLen
      efhMode := if update then MODE_READWRITE else MODE_OLDFILE
      efhNFSFh := fh
      efhKey := key
      efhWBuf := none
      efhRBuf := if header then some ⟨0, 0, none⟩ else none
      efhRes2 := 0 }

/-- What a call of `rb_ReadBuf` for `num` bytes should come to: what `nfs_MRead` stores from a
server that answers, or an error that leaves the position alone. -/
inductive Agrees (file : SrvFile) (s : FState) (buf : Nat → UInt8) (num : Int) :
    Except Fault (Ret × (Nat → UInt8) × FState) → Prop
  | done {n : Nat} {buf' : Nat → UInt8} {s' : FState}
      (plain : ∀ (ngMaxReadSize : MaxReadSize) (short : Nat → Nat), ∃ data,
        nfsMRead ngMaxReadSize.val (serveRead file short)
          (UInt32.ofInt s.efh.efhFilePos) num.toNat =
          .ok (.done data n (long file.size)) ∧
        ∀ i, buf' i = if i < n then data i else buf i)
      (pos : s'.efh.efhFilePos = long (s.efh.efhFilePos + n))
      (len : s'.efh.efhFileLen = long file.size) :
      Agrees file s buf num (.ok (.done n, buf', s'))
  | failed {res2 : Int} {buf' : Nat → UInt8} {s' : FState}
      (pos : s'.efh.efhFilePos = s.efh.efhFilePos) :
      Agrees file s buf num (.ok (.failed res2, buf', s'))

/-- The condition on a read: one that is small and not at the start of the file has a header. -/
def HasHeader (s : FState) (num : Int) : Prop :=
  num ≤ RBUFFERLIMIT → s.efh.efhFilePos ≠ 0 → s.efh.efhRBuf ≠ none

instance (s : FState) (num : Int) : Decidable (HasHeader s num) := by
  unfold HasHeader; infer_instance

/-- The condition on an event. -/
def EventOk (r : Except Fault FState) : Event → Prop
  | .read c => ∀ s, r = .ok s → 0 < c.num → HasHeader s c.num
  | _ => True

instance (r : Except Fault FState) (e : Event) : Decidable (EventOk r e) :=
  match e, r with
  | .read c, .ok s => decidable_of_iff (0 < c.num → HasHeader s c.num)
      ⟨fun h _ hs => Except.ok.inj hs ▸ h, fun h => h s rfl⟩
  | .read _, .error _ => .isTrue fun _ hs => nomatch hs
  | .seek _, _ => .isTrue trivial
  | .others .., _ => .isTrue trivial

/-- The invariant: the buffer holds bytes of the file, and its file has been asked for its size. -/
structure Steady (file : SrvFile) (s : FState) : Prop where
  coherent : Coherent s.pool file s.efh
  count : s.pool.gNumFreeMBufs = s.pool.gFreeMBufs.length
  asked : rbufData s.efh ≠ none → s.efh.efhFileLen = long file.size

section Call
variable {file : SrvFile} {s s' : FState} {buf buf' : Nat → UInt8} {num n : Int} {ans : ReadAnswer}

theorem releaseRBuf_len (h : rbReleaseRBufData s = .ok s') :
    s'.efh.efhFileLen = s.efh.efhFileLen := by
  unfold rbReleaseRBufData at h
  cases hr : s.efh.efhRBuf with
  | none => rw [hr] at h; cases h
  | some rbh => rw [hr] at h; cases h; rfl

/-- A refill that succeeds stores the size of the file. -/
theorem refill_len {rbh : RBufHdr} {rbn : Ptr} {numLeft : Int} {data : Nat → UInt8}
    {m : Nat} {len : Int}
    (h : refill s rbh rbn buf num numLeft (.done data m len) = .ok (.done n, buf', s')) :
    s'.efh.efhFileLen = len := by
  unfold refill at h
  simp only at h
  split at h
  · obtain ⟨s₁, hrel, h⟩ := ok_of_bind h
    cases h
    exact releaseRBuf_len hrel
  · cases h
    rfl

theorem readPlain_len {data : Nat → UInt8} {m : Nat} {len : Int}
    (h : readPlain s buf (.done data m len) = .ok (.done n, buf', s')) :
    s'.efh.efhFileLen = len := by
  unfold readPlain at h
  obtain ⟨s₁, -, h⟩ := ok_of_bind h
  cases h
  rfl

/-- After a call that succeeds the size of the file is known. -/
theorem rbReadBuf_len {data : Nat → UInt8} {m : Nat} {len : Int}
    (h : rbReadBuf s buf num (.done data m len) = .ok (.done n, buf', s'))
    (hasked : rbufData s.efh ≠ none → s.efh.efhFileLen = len) : s'.efh.efhFileLen = len := by
  unfold rbReadBuf at h
  split at h
  · cases hr : s.efh.efhRBuf with
    | none => rw [hr] at h; cases h
    | some rbh =>
        rw [hr] at h
        simp only at h
        split at h
        · unfold readThrough at h
          cases hd : rbh.rbhData with
          | none =>
              rw [hd] at h
              obtain ⟨⟨rbn, g⟩, -, h⟩ := ok_of_bind h
              exact refill_len h
          | some rbn =>
              rw [hd] at h
              simp only at h
              generalize (if rbh.rbhFileOffs ≤ s.efh.efhFilePos ∧
                s.efh.efhFilePos < long (rbh.rbhFileOffs + rbh.rbhDataLen) then
                  min num (long (rbh.rbhFileOffs + rbh.rbhDataLen) - s.efh.efhFilePos) else 0) = l
                    at h
              split at h
              · exact refill_len h
              · cases h
                exact hasked (by simp [rbufData, hr, hd])
        · exact readPlain_len h
  · exact readPlain_len h

/-- What a call comes to whose request fails. -/
structure Failed (file : SrvFile) (s s' : FState) : Prop where
  coherent : Coherent s'.pool file s'.efh
  pos : s'.efh.efhFilePos = s.efh.efhFilePos
  gone : rbufData s'.efh = none

theorem readPlain_failed (h : Coherent s.pool file s.efh) (buf : Nat → UInt8) (res2 : Int) :
    ∃ s', readPlain s buf (.failed res2) = .ok (.failed res2, buf, s') ∧ Failed file s s' := by
  obtain ⟨s', hrel⟩ := releaseBuffered_total s
  obtain ⟨hcoh, -, hpos, -⟩ := h.released hrel
  refine ⟨s', ?_, hcoh, hpos, (releaseBuffered_moved hrel).2⟩
  unfold readPlain
  simp only [hrel, bind, Except.bind]

theorem refill_failed {rbh rbh' : RBufHdr} {rbn : Ptr} (h : Plain s.efh)
    (hr : s.efh.efhRBuf = some rbh')
    (buf : Nat → UInt8) (numLeft res2 : Int) :
    ∃ s', refill s rbh rbn buf num numLeft (.failed res2) = .ok (.failed res2, buf, s') ∧
      Failed file s s' := by
  obtain ⟨s', hrel, hcoh, -, hpos⟩ := h.given_up file hr
  refine ⟨s', ?_, hcoh, hpos, (rbReleaseRBufData_moved hrel).2⟩
  unfold refill
  simp only [hrel, bind, Except.bind]

/-- A call whose request fails makes none, or fails. -/
theorem rbReadBuf_failed (h : Coherent s.pool file s.efh)
    (hcount : s.pool.gNumFreeMBufs = s.pool.gFreeMBufs.length)
    (hheader : HasHeader s num) (buf : Nat → UInt8) (res2 : Int) :
    (∀ ans, rbReadBuf s buf num ans = rbReadBuf s buf num (.failed res2)) ∨
    ∃ buf' s', rbReadBuf s buf num (.failed res2) = .ok (.failed res2, buf', s') ∧
      Failed file s s' := by
  obtain ⟨splain, hplain, hfailed⟩ := readPlain_failed h buf res2
  unfold rbReadBuf
  by_cases hsmall : num ≤ RBUFFERLIMIT ∧ s.efh.efhFilePos ≠ 0
  · simp only [if_pos hsmall]
    cases hr : s.efh.efhRBuf with
    | none => exact absurd hr (hheader hsmall.1 hsmall.2)
    | some rbh =>
        simp only
        by_cases hfree : rbh.rbhData.isSome ∨ 0 < s.pool.gNumFreeMBufs
        · simp only [if_pos hfree]
          unfold readThrough
          cases hd : rbh.rbhData with
          | none =>
              obtain ⟨rbn, rest, -, hobtain⟩ :=
                mbObtainMBuf_total hcount (by simpa [hd] using hfree)
              obtain ⟨s', hrun, hfail⟩ := @refill_failed file
                { s with
                  pool :=
                    { s.pool with gNumFreeMBufs := s.pool.gNumFreeMBufs - 1, gFreeMBufs := rest }
                  efh := { s.efh with efhRBuf := some { rbh with rbhData := some rbn } } }
                num { rbh with rbhData := some rbn } _ rbn
                  ⟨h.mode, h.wbuf, h.res2, h.pos⟩ rfl buf num res2
              refine .inr ⟨buf, s', ?_, hfail.coherent, hfail.pos, hfail.gone⟩
              simp only [hobtain, bind, Except.bind]
              exact hrun
          | some rbn =>
              simp only
              generalize (if rbh.rbhFileOffs ≤ s.efh.efhFilePos ∧
                s.efh.efhFilePos < long (rbh.rbhFileOffs + rbh.rbhDataLen) then
                  min num (long (rbh.rbhFileOffs + rbh.rbhDataLen) - s.efh.efhFilePos) else 0) = l
              by_cases hl : num - l ≠ 0
              · generalize copyMem buf (fun i =>
                  s.pool.mem rbn ((s.efh.efhFilePos - rbh.rbhFileOffs).toNat + i)) 0 l = buf
                obtain ⟨s', hrun, hfail⟩ := @refill_failed file s num rbh rbh rbn h.toPlain hr
                  buf (num - l) res2
                exact .inr ⟨buf, s', by rw [if_pos hl]; exact hrun, hfail⟩
              · exact .inl fun ans => by rw [if_neg hl, if_neg hl]
        · simp only [if_neg hfree]
          exact .inr ⟨buf, splain, hplain, hfailed⟩
  · simp only [if_neg hsmall]
    exact .inr ⟨buf, splain, hplain, hfailed⟩

theorem RbufMoved.counted (h : RbufMoved s s')
    (hcount : s.pool.gNumFreeMBufs = s.pool.gFreeMBufs.length) :
    s'.pool.gNumFreeMBufs = s'.pool.gFreeMBufs.length := by
  have := h.count
  omega

/-- A call with an answer from a server that answers. -/
theorem Steady.served (h : Steady file s) (hsize : file.size < 4294967296) (hnum : 0 < num)
    (hheader : HasHeader s num) (buf : Nat → UInt8)
    (hans : ReadsFrom file (upos (rbRequest s num).1) (rbRequest s num).2.toNat ans) :
    ∃ n buf' s', rbReadBuf s buf num ans = .ok (.done n, buf', s') ∧
      Agrees file s buf num (.ok (.done n, buf', s')) ∧ Steady file s' := by
  obtain ⟨n, buf', s', hrun, hends⟩ : ∃ n buf' s', rbReadBuf s buf num ans =
    .ok (.done n, buf', s') ∧
      ReadEnds file s buf num n buf' s' :=
    rbReadBuf_exact h.coherent h.count hsize hnum hheader hans
  obtain ⟨data, len, rfl, hsame, -⟩ := hans.done
  have hlen := rbReadBuf_len hrun (hsame ▸ h.asked)
  rw [hsame] at hlen
  obtain ⟨hn, hbytes, hpos⟩ := hends.exact
  refine ⟨n, buf', s', hrun, ?_,
    ⟨hends.coherent, (rbReadBuf_moved hrun).counted h.count, fun _ => hlen⟩⟩
  subst hn
  refine .done (fun ngMaxReadSize short => ?_) hpos hlen
  have hlow := ngMaxReadSize.low
  obtain ⟨ans', hplain, hserved⟩ :=
    nfsMRead_served (show 0 < ngMaxReadSize.val by omega) hsize short
    (UInt32.ofInt s.efh.efhFilePos) (show 0 < num.toNat by omega)
  rw [ofInt_toNat] at hserved
  obtain ⟨data', len', rfl, hsame', hdata'⟩ := hserved.done
  rw [hsame'] at hplain
  refine ⟨data', hplain, fun i => ?_⟩
  rw [hbytes]
  by_cases hi : i < min num.toNat (file.size - upos s.efh.efhFilePos)
  · rw [if_pos hi, if_pos hi, hdata' i hi]
  · rw [if_neg hi, if_neg hi]

/-- A call of `rb_ReadBuf` agrees with plain reading. -/
theorem Steady.call (h : Steady file s) (hsize : file.size < 4294967296) {c : ReadCall}
    (hnum : 0 < c.num)
    (hheader : HasHeader s c.num) :
    ∃ r buf' s', c.run file s = .ok (r, buf', s') ∧ Agrees file s c.buf c.num (c.run file s) ∧
      Steady file s' := by
  have hlow := c.ngMaxReadSize.low
  have hcount : 0 < (rbRequest s c.num).2.toNat := rbRequest_pos hnum
  obtain ⟨ans, hrun, hends⟩ := nfsMRead_served_or (show 0 < c.ngMaxReadSize.val by omega)
    hsize c.short c.refuse
    (UInt32.ofInt (rbRequest s c.num).1) hcount
  have hcall : c.run file s = rbReadBuf s c.buf c.num ans := by
    simp only [ReadCall.run, hrun, bind, Except.bind]
  rw [ofInt_toNat] at hends
  rw [hcall]
  rcases hends with hserved | ⟨⟨res2, rfl⟩, -⟩
  · obtain ⟨n, buf', s', hread, hagrees, hsteady⟩ := h.served hsize hnum hheader c.buf hserved
    rw [hread]
    exact ⟨_, buf', s', rfl, hagrees, hsteady⟩
  · rcases rbReadBuf_failed h.coherent h.count hheader c.buf res2
      with hsame | ⟨buf', s', hread, hfail⟩
    · obtain ⟨ans', -, hserved⟩ :=
        nfsMRead_served (show 0 < c.ngMaxReadSize.val by omega) hsize c.short
        (UInt32.ofInt (rbRequest s c.num).1) hcount
      rw [ofInt_toNat] at hserved
      obtain ⟨n, buf', s', hread, hagrees, hsteady⟩ := h.served hsize hnum hheader c.buf hserved
      rw [← hsame ans', hread]
      exact ⟨_, buf', s', rfl, hagrees, hsteady⟩
    · rw [hread]
      refine ⟨_, buf', s', rfl, .failed hfail.pos,
        ⟨hfail.coherent, (rbReadBuf_moved hread).counted h.count, ?_⟩⟩
      exact fun hsome => absurd hfail.gone hsome

end Call

section Run
variable {file : SrvFile} {s : FState} {pool : Pool} {srv : Server} {id fileLen key : Int} {fh : Fh}
  {update header : Bool}

theorem steady_opened (hcount : pool.gNumFreeMBufs = pool.gFreeMBufs.length) :
    Steady file (openedForRead pool srv id fileLen key fh update header) := by
  constructor
  · have hzero : IsLong 0 := by decide
    refine ⟨⟨?_, rfl, rfl, hzero⟩, fun rbh rbn hr hd => ?_⟩
    · cases update
      · exact .inl rfl
      · exact .inr rfl
    · cases header with
      | false => cases hr
      | true =>
          cases hr
          cases hd
  · exact hcount
  · cases header
    · exact fun h => absurd rfl h
    · exact fun h => absurd rfl h

/-- What other open files do to the buffers keeps the invariant. -/
theorem Steady.others (h : Steady file s) (free : List Ptr) (mem : Ptr → Nat → UInt8) :
    Steady file { s with pool := changeOthers (rbufData s.efh) free mem s.pool } := by
  refine ⟨⟨h.coherent.toPlain, fun rbh rbn hr hd => ?_⟩, rfl, h.asked⟩
  have hown : rbufData s.efh = some rbn := (congrArg (·.bind RBufHdr.rbhData) hr).trans hd
  have hold := h.coherent.holds rbh rbn hr hd
  refine ⟨hold.offs, hold.len, hold.within, fun i hi => ?_⟩
  have hmem : (changeOthers (rbufData s.efh) free mem s.pool).mem rbn = s.pool.mem rbn :=
    if_pos hown.symm
  rw [hmem]
  exact hold.bytes i hi

theorem Steady.event (h : Steady file s) (hsize : file.size < 4294967296) {e : Event}
    (hok : EventOk (.ok s) e) :
    ∃ s', eventStep file (.ok s) e = .ok s' ∧ Steady file s' := by
  cases e with
  | read c =>
      by_cases hnum : 0 < c.num
      · obtain ⟨r, buf', s', hrun, -, hsteady⟩ := h.call hsize hnum (hok s rfl hnum)
        refine ⟨s', ?_, hsteady⟩
        simp only [eventStep, bind, Except.bind, if_pos hnum, hrun, Except.map]
      · refine ⟨s, ?_, h⟩
        simp only [eventStep, bind, Except.bind, if_neg hnum]
  | seek pos => exact ⟨_, rfl, ⟨h.coherent.moved (isLong_long pos) _, h.count, h.asked⟩⟩
  | others free mem => exact ⟨_, rfl, h.others free mem⟩

/-- In every run whose reads all have a header where they need one, every read that has one, too,
agrees with plain reading. -/
theorem agrees_run (hsize : file.size < 4294967296)
    (hcount : pool.gNumFreeMBufs = pool.gFreeMBufs.length)
    {es : List Event}
    (hguard : Guarded (eventStep file) EventOk
      (.ok (openedForRead pool srv id fileLen key fh update header)) es) :
    ∃ s, run (eventStep file) (.ok (openedForRead pool srv id fileLen key fh update header)) es =
      .ok s ∧
      ∀ c : ReadCall, 0 < c.num → HasHeader s c.num → Agrees file s c.buf c.num (c.run file s) := by
  have hstep : ∀ (r : Except Fault FState) (e : Event),
    (∃ s, r = .ok s ∧ Steady file s) → EventOk r e →
      ∃ s, eventStep file r e = .ok s ∧ Steady file s := by
    rintro r e ⟨s, rfl, hs⟩ hok
    exact hs.event hsize hok
  obtain ⟨s, hrun, hsteady⟩ := hguard.invariant hstep ⟨_, rfl, steady_opened hcount⟩
  refine ⟨s, hrun, fun c hnum hheader => ?_⟩
  obtain ⟨r, buf', s', -, hagrees, -⟩ := hsteady.call hsize hnum hheader
  exact hagrees

end Run

/-- Two free buffers. -/
def exPool : Pool := ⟨0, 2, 2, [1, 2], 0, 0, none, fun _ => ⟨none, 0, [], 0⟩, fun _ _ => 0, 3⟩

/-- A file of three bytes. -/
def exFile : SrvFile := ⟨fun i => UInt8.ofNat i, 3⟩

def exServer : Server := ⟨fun _ => exFile, fun _ => .done 3, 0, []⟩

/-- A read of `num` bytes of which the request number `bad` is refused. -/
def exCall (num : Int) (bad : Nat) : ReadCall :=
  ⟨num, fun _ => 0, ⟨256, by decide, by decide⟩, fun _ => 0, fun k => if k = bad then
    some (.call 5) else none⟩

/-- Reads from the start, from a buffer, and one that fails. -/
theorem agrees_run_three : ∃ s,
    run (eventStep exFile) (.ok (openedForRead exPool exServer 1 3 1 0 false true))
      [.read (exCall 1 9), .read (exCall 1 9), .others [2] fun _ _ => 1, .seek 7,
        .read (exCall 1 0)] = .ok s ∧
    ∀ c : ReadCall, 0 < c.num → HasHeader s c.num → Agrees exFile s c.buf c.num (c.run exFile s) :=
  agrees_run (by decide) rfl (by decide +kernel)

/-- A small read behind the start of a file whose header could not be allocated. -/
theorem not_agrees_noHeader : ∃ s,
    run (eventStep exFile) (.ok (openedForRead exPool exServer 1 3 1 0 false false))
      [.seek 1] = .ok s ∧
    ¬ Agrees exFile s (exCall 1 9).buf 1 ((exCall 1 9).run exFile s) := by
  refine ⟨_, rfl, fun h => ?_⟩
  have hnull : ((exCall 1 9).run exFile
      ((openedForRead exPool exServer 1 3 1 0 false false).setFilePos (long 1))).toOption.isSome =
        false := by
    decide +kernel
  generalize (exCall 1 9).run exFile
    ((openedForRead exPool exServer 1 3 1 0 false false).setFilePos (long 1)) = r at h hnull
  cases h with
  | done => cases hnull
  | failed => cases hnull

end Anfs.File
