import Anfs.File.Read
import Anfs.Prot.Codec

/-!
# What a reply can overwrite

`nfs_MRead` on the bytes of the replies. `nfsproc_read_buf` lets `xdr_readres` decode a reply
straight into the caller's memory, with the limit of the protocol as the only bound on the
data, and the loop takes the length of the data from an unsigned count.
-/
namespace Anfs.File
open Anfs.Nfs Anfs.Xdr

/-- The numbers of `enum nfsstat`. -/
def nfsstats : List (UInt32 × Nfsstat) :=
  [(NFS_OK, .ok), (1, .perm), (2, .noent), (5, .io), (6, .nxio), (13, .acces),
    (17, .exist), (19, .nodev),
    (20, .notdir), (21, .isdir), (27, .fbig), (28, .nospc), (30, .rofs),
    (63, .nametoolong), (66, .notempty),
    (69, .dquot), (70, .stale), (99, .wflush)]

/-- The status with the number `status`. -/
def nfsstat (status : UInt32) : Nfsstat :=
  match nfsstats.find? fun p => p.1 == status with
  | some p => p.2
  | none => .other status.toNat

/-- `clnt_res` is set to zero before it is decoded. -/
def Readres.zero : Readres := ⟨NFS_OK, ⟨default, []⟩⟩

/-- A READ reply that `xdr_readres` accepts. -/
structure Accepted where
  bytes : List UInt8
  short : bytes.length < 2147483648
  accepts : (xdrReadres (xdrmemDecode bytes) Readres.zero).1 = true

def Accepted.res (r : Accepted) : Readres := (xdrReadres (xdrmemDecode r.bytes) Readres.zero).2.2

/-- What `nfsproc_read_buf` comes to: an error, which `CLIENTERROR` stores, or a reply. -/
inductive ReadReply
  | failed (res2 : Int)
  | accepted (r : Accepted)

/-- The data a reply stores at `Buf`. -/
def ReadReply.data : ReadReply → List UInt8
  | .failed _ => []
  | .accepted r => if r.res.status = NFS_OK then r.res.body.data else []

/-- The variables of `nfs_MRead`: `buf` is how far `Buf` has moved, `size` is the size in the
last reply. Behind them what has been stored, and where, the requests that were sent, the
newest first, and the result. -/
structure MRead where
  buf : Nat
  offset : UInt32
  count : UInt32
  totLen : Int
  size : Option UInt32
  stored : List (Nat × List UInt8)
  requests : List (UInt32 × UInt32)
  ret : Option (Except Int Int)

def MRead.start (offset count : UInt32) : MRead := ⟨0, offset, count, 0, none, [], [], none⟩

/-- A reply with the status `NFS_OK`. -/
def MRead.take (m : MRead) (res : Readokres) : MRead :=
  let len := res.data.length
  let m := { m with
    stored := (m.buf, res.data) :: m.stored
    size := some res.attributes.size }
  if len = 0 then { m with ret := some (.ok m.totLen) }
  else
    { m with
      buf := m.buf + len
      offset := m.offset + UInt32.ofNat len
      count := m.count - UInt32.ofNat len
      totLen := long (m.totLen + len) }

/-- A turn of the loop, with the reply it gets if it sends a request. -/
def MRead.turn (maxRead : UInt32) (m : MRead) (reply : ReadReply) : MRead :=
  if m.ret.isSome then m
  else if m.count = 0 then { m with ret := some (.ok m.totLen) }
  else
    let request := (m.offset, if m.count < maxRead then m.count else maxRead)
    let m := { m with requests := request :: m.requests }
    match reply with
    | .failed res2 => { m with ret := some (.error res2) }
    | .accepted r =>
        if r.res.status ≠ NFS_OK then
          { m with ret := some (.error (nfsErr2IoErrCont (nfsstat r.res.status) .read)) }
        else m.take r.res.body

/-- `nfs_MRead` after `n` turns. -/
def mRead (maxReadSize : UInt32) (replies : Nat → ReadReply) (offset count : UInt32) : Nat → MRead
  | 0 => .start offset count
  | n + 1 => (mRead maxReadSize replies offset count n).turn
      (min maxReadSize (UInt32.ofNat nfsMaxdata)) (replies n)

/-- Nothing has been stored outside the memory, no request reached outside the range, there are
no more requests than bytes, and no more than `count` is returned. -/
structure Contained (offset count : UInt32) (m : MRead) : Prop where
  stored : ∀ p ∈ m.stored, p.1 + p.2.length ≤ count.toNat
  requests : ∀ r ∈ m.requests, ∃ k, r.1 = offset + UInt32.ofNat k ∧ k + r.2.toNat ≤ count.toNat
  turns : m.requests.length ≤ count.toNat
  returned : ∀ n, m.ret = some (.ok n) → n ≤ count.toNat

/-- The bytes in the first `k` replies. -/
def got (replies : Nat → ReadReply) : Nat → Nat
  | 0 => 0
  | k + 1 => got replies k + (replies k).data.length

/-- The condition on the replies: each of those that are asked for has at most as many bytes as
are left to be read. -/
def RepliesFit (replies : Nat → ReadReply) (count : Nat) : Prop :=
  ∀ k, (∀ j < k, (replies j).data ≠ []) → got replies k < count → got replies (k + 1) ≤ count

/-- The loop is at the head of turn number `k`. -/
structure AtTurn (replies : Nat → ReadReply) (offset count : UInt32) (k : Nat)
    (m : MRead) : Prop where
  ret : m.ret = none
  carried : ∀ j < k, (replies j).data ≠ []
  buf : m.buf = got replies k
  offset : m.offset = offset + UInt32.ofNat (got replies k)
  count : m.count.toNat + got replies k = count.toNat
  totLen : m.totLen = long (got replies k)
  turns : m.requests.length = k

section Turn
variable {replies : Nat → ReadReply} {offset count maxRead : UInt32} {k : Nat} {m : MRead}

theorem le_got (hcarried : ∀ j < k, (replies j).data ≠ []) : k ≤ got replies k := by
  induction k with
  | zero => exact Nat.le_refl 0
  | succ k ih =>
      have hlen := List.length_pos_of_ne_nil (hcarried k (Nat.lt_succ_self k))
      have hle := ih fun j hj => hcarried j (Nat.lt_succ_of_lt hj)
      rw [got]
      omega

theorem atTurn_start : AtTurn replies offset count 0 (.start offset count) := by
  constructor
  · rfl
  · exact fun j hj => absurd hj (Nat.not_lt_zero j)
  · rfl
  · exact (UInt32.add_zero offset).symm
  · rfl
  · have hzero : long ((0 : Nat) : Int) = 0 := by decide
    exact hzero.symm
  · rfl

theorem contained_start : Contained offset count (.start offset count) := by
  constructor
  · exact List.forall_mem_nil _
  · exact List.forall_mem_nil _
  · exact Nat.zero_le _
  · exact fun n hn => nomatch hn

theorem turn_ended (hended : m.ret.isSome = true)
    (reply : ReadReply) : m.turn maxRead reply = m := by
  rw [MRead.turn, if_pos hended]

/-- What the request of a turn comes to. -/
inductive Replied (m : MRead) (data : List UInt8) (m' : MRead) : Prop
  | ended (empty : data = []) (ret : m'.ret.isSome = true)
      (returned : ∀ n, m'.ret = some (.ok n) → n = m.totLen)
      (stored : m'.stored = m.stored ∨ m'.stored = (m.buf, []) :: m.stored)
  | goesOn (some : data ≠ []) (ret : m'.ret = none) (stored : m'.stored = (m.buf, data) :: m.stored)
      (buf : m'.buf = m.buf + data.length)
      (offset : m'.offset = m.offset + UInt32.ofNat data.length)
      (count : m'.count = m.count - UInt32.ofNat data.length)
      (totLen : m'.totLen = long (m.totLen + data.length))

theorem MRead.take_replied (hret : m.ret = none) (requests : List (UInt32 × UInt32))
    (res : Readokres) :
    ({ m with requests := requests }.take res).requests = requests ∧
      Replied m res.data ({ m with requests := requests }.take res) := by
  unfold MRead.take
  by_cases hempty : res.data.length = 0
  · have hnil : res.data = [] := List.eq_nil_of_length_eq_zero hempty
    simp only [hempty, if_true]
    refine ⟨trivial, .ended hnil rfl (fun n hn => ?_) (.inr ?_)⟩
    · cases hn
      rfl
    · rw [hnil]
  · simp only [hempty, if_false]
    exact ⟨trivial, .goesOn (fun hnil => hempty (by rw [hnil]; rfl)) hret rfl rfl rfl rfl rfl⟩

theorem turn_requests (hret : m.ret = none) (hcount : m.count ≠ 0) (reply : ReadReply) :
    ∃ request : UInt32 × UInt32, request.1 = m.offset ∧ request.2.toNat ≤ m.count.toNat ∧
      (m.turn maxRead reply).requests = request :: m.requests ∧
      Replied m reply.data (m.turn maxRead reply) := by
  refine ⟨(m.offset, if m.count < maxRead then m.count else maxRead), rfl, ?_, ?_⟩
  · split
    · exact Nat.le_refl _
    · rename_i hle
      exact UInt32.not_lt.mp hle
  · unfold MRead.turn
    rw [if_neg (by rw [hret]; exact Bool.false_ne_true), if_neg hcount]
    cases reply with
    | failed res2 => exact ⟨rfl, .ended rfl rfl (fun n hn => nomatch hn) (.inl rfl)⟩
    | accepted r =>
        unfold ReadReply.data
        by_cases hstatus : r.res.status = NFS_OK
        · simp only [hstatus, ne_eq, not_true_eq_false, if_true, if_false]
          exact MRead.take_replied hret _ r.res.body
        · simp only [hstatus, ne_eq, not_false_eq_true, if_true, if_false]
          exact ⟨trivial, .ended rfl rfl (fun n hn => nomatch hn) (.inl rfl)⟩

/-- A reply that fits takes the loop to the next turn. -/
theorem AtTurn.next {m' : MRead} (h : AtTurn replies offset count k m)
    (hfits : got replies (k + 1) ≤ count.toNat)
    (hrequests : m'.requests.length = m.requests.length + 1) (hdata : (replies k).data ≠ [])
    (hans : Replied m (replies k).data m') : AtTurn replies offset count (k + 1) m' := by
  obtain ⟨hempty, -, -, -⟩ | ⟨-, hret, -, hbuf, hoffset, hcount, htot⟩ := hans
  · exact absurd hempty hdata
  rw [got] at hfits
  have hbound := count.toNat_lt
  have hleft := h.count
  have hlen : (UInt32.ofNat (replies k).data.length).toNat = (replies k).data.length := by
    rw [UInt32.toNat_ofNat']
    exact Nat.mod_eq_of_lt (by omega)
  constructor
  · exact hret
  · intro j hj
    rcases Nat.lt_succ_iff_lt_or_eq.mp hj with hj | rfl
    · exact h.carried j hj
    · exact hdata
  · rw [hbuf, h.buf, got]
  · rw [hoffset, h.offset, got, UInt32.ofNat_add, UInt32.add_assoc]
  · rw [hcount, UInt32.toNat_sub_of_le _ _ (by rw [UInt32.le_iff_toNat_le, hlen]; omega), hlen, got]
    omega
  · rw [htot, h.totLen, got, long_add_long, Int.natCast_add]
  · rw [hrequests, h.turns]

/-- A turn of the loop when the replies fit. -/
theorem AtTurn.turn (h : AtTurn replies offset count k m) (hc : Contained offset count m)
    (hfits : RepliesFit replies count.toNat) :
    Contained offset count (m.turn maxRead (replies k)) ∧
      ((m.turn maxRead (replies k)).ret.isSome = true ∨
        AtTurn replies offset count (k + 1) (m.turn maxRead (replies k))) := by
  have hle := le_got h.carried
  have hleft := h.count
  have htot : m.totLen ≤ count.toNat := by
    have hlong := long_le (Int.natCast_nonneg (got replies k))
    rw [h.totLen]
    omega
  by_cases hcount : m.count = 0
  · have hturn : m.turn maxRead (replies k) = { m with ret := some (.ok m.totLen) } := by
      rw [MRead.turn, if_neg (by rw [h.ret]; exact Bool.false_ne_true), if_pos hcount]
    rw [hturn]
    refine ⟨⟨hc.stored, hc.requests, hc.turns, fun n hn => ?_⟩, .inl rfl⟩
    cases hn
    exact htot
  · have hpos : 0 < m.count.toNat := Nat.pos_of_ne_zero fun hzero => hcount (UInt32.toNat.inj hzero)
    have hnext := hfits k h.carried (by omega)
    obtain ⟨request, hoffset, hasked, hrequests, hans⟩ :=
      @turn_requests maxRead _ h.ret hcount (replies k)
    have hsent : ∀ r ∈ (m.turn maxRead (replies k)).requests,
        ∃ k, r.1 = offset + UInt32.ofNat k ∧ k + r.2.toNat ≤ count.toNat := by
      rw [hrequests]
      refine List.forall_mem_cons.mpr ⟨⟨got replies k, ?_, ?_⟩, hc.requests⟩
      · rw [hoffset, h.offset]
      · omega
    have hturns : (m.turn maxRead (replies k)).requests.length = m.requests.length + 1 := by
      rw [hrequests]
      rfl
    have hmost : (m.turn maxRead (replies k)).requests.length ≤ count.toNat := by
      rw [hturns, h.turns]
      omega
    by_cases hdata : (replies k).data = []
    · obtain ⟨-, hret, hreturned, hstored⟩ | ⟨hsome, -, -, -, -, -, -⟩ := hans
      · refine ⟨⟨?_, hsent, hmost, fun n hn => ?_⟩, .inl hret⟩
        · rcases hstored with hstored | hstored
          · rw [hstored]
            exact hc.stored
          · rw [hstored]
            refine List.forall_mem_cons.mpr ⟨?_, hc.stored⟩
            rw [h.buf, List.length_nil]
            omega
        · rw [hreturned n hn]
          exact htot
      · exact absurd hdata hsome
    · have hat := h.next hnext hturns hdata hans
      obtain ⟨hempty, -, -, -⟩ | ⟨-, hret, hstored, -, -, -, -⟩ := hans
      · exact absurd hempty hdata
      · refine ⟨⟨?_, hsent, hmost, fun n hn => ?_⟩, .inr hat⟩
        · rw [hstored]
          refine List.forall_mem_cons.mpr ⟨?_, hc.stored⟩
          rw [h.buf]
          exact hnext
        · rw [hret] at hn
          cases hn

end Turn

section Run
variable {replies : Nat → ReadReply} {offset count maxReadSize : UInt32}

theorem mRead_contained (hfits : RepliesFit replies count.toNat) (n : Nat) :
    Contained offset count (mRead maxReadSize replies offset count n) ∧
      ((mRead maxReadSize replies offset count n).ret.isSome = true ∨
        AtTurn replies offset count n (mRead maxReadSize replies offset count n)) := by
  induction n with
  | zero => exact ⟨contained_start, .inr atTurn_start⟩
  | succ n ih =>
      obtain ⟨hc, hended | hat⟩ := ih
      · rw [mRead, turn_ended hended]
        exact ⟨hc, .inl hended⟩
      · exact hat.turn hc hfits

/-- Replies that fit end the loop. -/
theorem mRead_ends (hfits : RepliesFit replies count.toNat) :
    (mRead maxReadSize replies offset count (count.toNat + 1)).ret.isSome = true := by
  obtain ⟨-, hended | hat⟩ := @mRead_contained _ offset _ maxReadSize hfits (count.toNat + 1)
  · exact hended
  · have hle := le_got hat.carried
    have hcount := hat.count
    omega

/-- As long as the replies have data that fits, the loop goes on. -/
theorem mRead_atTurn {k : Nat} (hcarried : ∀ j < k, (replies j).data ≠ [])
    (hlt : got replies k < count.toNat) :
    AtTurn replies offset count k (mRead maxReadSize replies offset count k) := by
  induction k with
  | zero => exact atTurn_start
  | succ k ih =>
      have hle : got replies k ≤ got replies (k + 1) := Nat.le_add_right _ _
      have hat := ih (fun j hj => hcarried j (Nat.lt_succ_of_lt hj)) (by omega)
      have hcount : (mRead maxReadSize replies offset count k).count ≠ 0 := by
        intro hzero
        have hleft := hat.count
        rw [hzero, UInt32.toNat_zero] at hleft
        omega
      obtain ⟨request, -, -, hrequests, hans⟩ :=
        @turn_requests (min maxReadSize (UInt32.ofNat nfsMaxdata)) _ hat.ret hcount (replies k)
      have hturns := congrArg List.length hrequests
      exact hat.next (Nat.le_of_lt hlt) hturns (hcarried k (Nat.lt_succ_self k)) hans

/-- `nfs_MRead` stays in bounds and ends exactly for replies that fit. -/
theorem mRead_inBounds_iff :
    ((∀ n, Contained offset count (mRead maxReadSize replies offset count n)) ∧
    ∃ n, (mRead maxReadSize replies offset count n).ret.isSome = true) ↔
      RepliesFit replies count.toNat := by
  constructor
  · rintro ⟨hall, -⟩ k hcarried hlt
    by_cases hdata : (replies k).data = []
    · rw [got, hdata]
      exact Nat.le_of_lt hlt
    · have hat : AtTurn replies offset count k (mRead maxReadSize replies offset count k) :=
        mRead_atTurn hcarried hlt
      have hcount : (mRead maxReadSize replies offset count k).count ≠ 0 := by
        intro hzero
        have hleft := hat.count
        rw [hzero, UInt32.toNat_zero] at hleft
        omega
      obtain ⟨request, -, -, -, hans⟩ :=
        @turn_requests (min maxReadSize (UInt32.ofNat nfsMaxdata)) _ hat.ret hcount (replies k)
      obtain ⟨hempty, -, -, -⟩ | ⟨-, -, hstored, -, -, -, -⟩ := hans
      · exact absurd hempty hdata
      · have hin := (hall (k + 1)).stored (got replies k, (replies k).data) (by
          rw [mRead, hstored, hat.buf]
          exact List.mem_cons_self)
        exact hin
  · intro hfits
    exact ⟨fun n => (mRead_contained hfits n).1, count.toNat + 1, mRead_ends hfits⟩

/-- A reply with the data [1, 2]. -/
def exReply : Accepted := ⟨zeros 72 ++ [0, 0, 0, 2, 1, 2, 0, 0], by decide, by decide +kernel⟩

/-- A read of one byte that is answered by two. -/
theorem mRead_overrun : ¬ ((∀ n, Contained 0 1 (mRead 8192 (fun _ => .accepted exReply) 0 1 n)) ∧
    ∃ n, (mRead 8192 (fun _ => .accepted exReply) 0 1 n).ret.isSome = true) := by
  rintro ⟨hall, -⟩
  have hstored : (mRead 8192 (fun _ => .accepted exReply) 0 1 1).stored =
    [(0, [1, 2])] := by decide +kernel
  have hin := (hall 1).stored (0, [1, 2]) (by rw [hstored]; exact List.mem_cons_self)
  exact absurd hin (by decide)

end Run

/-- The reply as the loop `mReadLoop` takes it. -/
def ReadReply.answer : ReadReply → Except Int ReadRes
  | .failed res2 => .error res2
  | .accepted r => .ok ⟨nfsstat r.res.status, r.res.body.attributes.size, r.res.body.data⟩

/-- The bytes stored so far. -/
def MRead.bytes (m : MRead) : List UInt8 := m.stored.reverse.flatMap Prod.snd

/-- The loop has ended with the answer. -/
inductive EndsWith (m : MRead) : ReadAnswer → Prop
  | done (ret : m.ret = some (.ok (long m.bytes.length))) :
      EndsWith m (.done (fun i => m.bytes.getD i 0) m.bytes.length (long (m.size.getD 0).toNat))
  | failed {res2 : Int} (ret : m.ret = some (.error res2)) : EndsWith m (.failed res2)

section Answer
variable {replies : Nat → ReadReply} {offset count maxReadSize : UInt32} {k : Nat} {m : MRead}

theorem nfsstat_eq_ok_iff {status : UInt32} : nfsstat status = .ok ↔ status = NFS_OK := by
  constructor
  · intro h
    unfold nfsstat at h
    cases hfind : nfsstats.find? fun p => p.1 == status with
    | none => rw [hfind] at h; cases h
    | some p =>
        rw [hfind] at h
        have hnum : p.1 = status := by simpa using List.find?_some hfind
        have htable : ∀ p ∈ nfsstats, p.2 = .ok → p.1 = NFS_OK := by decide
        rw [← hnum]
        exact htable p (List.mem_of_find?_eq_some hfind) h
  · rintro rfl
    rfl

/-- A turn that stores the data of a reply. -/
theorem turn_takes (hret : m.ret = none) (hcount : m.count ≠ 0) {r : Accepted}
    (hstatus : r.res.status = NFS_OK) :
    ∃ requests, m.turn maxReadSize (.accepted r) =
      { m with requests := requests }.take r.res.body := by
  unfold MRead.turn
  rw [if_neg (by rw [hret]; exact Bool.false_ne_true), if_neg hcount]
  simp only [hstatus, ne_eq, not_true_eq_false, if_false]
  exact ⟨_, rfl⟩

theorem take_bytes (m : MRead) (requests : List (UInt32 × UInt32)) (res : Readokres) :
    ({ m with requests := requests }.take res).bytes = m.bytes ++ res.data ∧
      ({ m with requests := requests }.take res).size = some res.attributes.size := by
  unfold MRead.take MRead.bytes
  by_cases hempty : res.data.length = 0
  · simp [hempty]
  · simp [hempty]

theorem endsWith_done (m' : MRead) (hret : m'.ret = some (.ok m.totLen))
    (htot : m.totLen = long m.bytes.length)
    (hbytes : m'.bytes = m.bytes) {size : UInt32} (hsize : m'.size.getD 0 = size) :
    EndsWith m' (.done (fun i => m.bytes.getD i 0) m.bytes.length (long size.toNat)) := by
  rw [← hbytes, ← hsize]
  apply EndsWith.done
  rw [hret, htot, hbytes]

/-- From any turn on the loop does what `mReadLoop` does. -/
theorem mReadLoop_mRead (hfits : RepliesFit replies count.toNat) {fuel : Nat}
    (hm : mRead maxReadSize replies offset count k = m) (hat : AtTurn replies offset count k m)
    (hbytes : m.bytes.length = got replies k) (hfuel : m.count.toNat ≤ fuel) :
    ∃ ans n, mReadLoop (min maxReadSize.toNat nfsMaxdata)
      (fun k _ _ => (replies k).answer) fuel k m.offset
      m.count.toNat m.bytes (m.size.getD 0) = .ok ans ∧
        EndsWith (mRead maxReadSize replies offset count n) ans := by
  induction fuel generalizing k m with
  | zero =>
      have hzero : m.count = 0 := UInt32.toNat.inj (Nat.le_zero.mp hfuel)
      have htot : m.totLen = long m.bytes.length := by rw [hat.totLen, hbytes]
      have hturn : (m.turn (min maxReadSize (UInt32.ofNat nfsMaxdata)) (replies k)) =
          { m with ret := some (.ok m.totLen) } := by
        rw [MRead.turn, if_neg (by rw [hat.ret]; exact Bool.false_ne_true), if_pos hzero]
      unfold mReadLoop
      rw [if_pos (Nat.le_zero.mp hfuel)]
      refine ⟨_, k + 1, rfl, ?_⟩
      rw [mRead, hm, hturn]
      exact endsWith_done { m with ret := some (.ok m.totLen) } rfl htot rfl rfl
  | succ fuel ih =>
      have htot : m.totLen = long m.bytes.length := by rw [hat.totLen, hbytes]
      have hnone : ¬ m.ret.isSome = true := by rw [hat.ret]; exact Bool.false_ne_true
      unfold mReadLoop
      by_cases hzero : m.count = 0
      · have hturn : (m.turn (min maxReadSize (UInt32.ofNat nfsMaxdata)) (replies k)) =
            { m with ret := some (.ok m.totLen) } := by
          rw [MRead.turn, if_neg hnone, if_pos hzero]
        rw [if_pos (by rw [hzero]; rfl)]
        refine ⟨_, k + 1, rfl, ?_⟩
        rw [mRead, hm, hturn]
        exact endsWith_done { m with ret := some (.ok m.totLen) } rfl htot rfl rfl
      · have hpos : m.count.toNat ≠ 0 := fun h => hzero (UInt32.toNat.inj h)
        rw [if_neg hpos]
        have hleft := hat.count
        have hfit := hfits k hat.carried (by omega)
        have hturn : mRead maxReadSize replies offset count (k + 1) =
            m.turn (min maxReadSize (UInt32.ofNat nfsMaxdata)) (replies k) := by
          rw [mRead, hm]
        have hnext : (replies k).data ≠ [] →
            AtTurn replies offset count (k + 1)
              (mRead maxReadSize replies offset count (k + 1)) := by
          intro hdata
          obtain ⟨request, -, -, hrequests, hans⟩ :=
            @turn_requests (min maxReadSize (UInt32.ofNat nfsMaxdata)) _ hat.ret hzero (replies k)
          rw [hturn]
          exact hat.next hfit (congrArg List.length hrequests) hdata hans
        cases hreply : replies k with
        | failed res2 =>
            refine ⟨_, k + 1, rfl, ?_⟩
            rw [hturn, hreply, MRead.turn, if_neg hnone, if_neg hzero]
            exact .failed rfl
        | accepted r =>
            have hanswer : (ReadReply.accepted r).answer =
              .ok ⟨nfsstat r.res.status, r.res.body.attributes.size, r.res.body.data⟩ := rfl
            simp only [hanswer]
            by_cases hstatus : r.res.status = NFS_OK
            · have hdata : (replies k).data = r.res.body.data := by
                rw [hreply, ReadReply.data, if_pos hstatus]
              obtain ⟨requests, htake⟩ :=
                @turn_takes (min maxReadSize (UInt32.ofNat nfsMaxdata)) m hat.ret hzero r hstatus
              obtain ⟨hbytes', hsize'⟩ := take_bytes m requests r.res.body
              rw [hreply, htake] at hturn
              rw [← hturn] at hbytes' hsize'
              rw [got, hdata] at hfit
              rw [hdata] at hnext
              rw [if_neg fun h => h (nfsstat_eq_ok_iff.mpr hstatus)]
              by_cases hempty : r.res.body.data.length = 0
              · have hret : (mRead maxReadSize replies offset count (k + 1)).ret =
                    some (.ok m.totLen) := by
                  rw [hturn, MRead.take]
                  simp only [hempty, if_true]
                have hnil : r.res.body.data = [] := List.eq_nil_of_length_eq_zero hempty
                rw [if_pos hempty]
                refine ⟨_, k + 1, rfl, endsWith_done _ hret htot ?_ ?_⟩
                · rw [hbytes', hnil, List.append_nil]
                · rw [hsize', Option.getD_some]
              · have hat' := hnext fun h => hempty (by rw [h]; rfl)
                have hleft' := hat'.count
                have hgot : got replies (k + 1) = got replies k + r.res.body.data.length := by
                  rw [got, hdata]
                have hoffset : (mRead maxReadSize replies offset count (k + 1)).offset =
                    m.offset + UInt32.ofNat r.res.body.data.length := by
                  rw [hat'.offset, hat.offset, hgot, UInt32.ofNat_add, UInt32.add_assoc]
                have hcount : (mRead maxReadSize replies offset count (k + 1)).count.toNat =
                    m.count.toNat - r.res.body.data.length := by
                  omega
                have hmore :=
                  ih rfl hat' (by rw [hbytes', List.length_append, hbytes, hgot]) (by omega)
                rw [hoffset, hcount, hbytes', hsize', Option.getD_some] at hmore
                rw [if_neg hempty, if_neg (by omega)]
                exact hmore
            · rw [if_pos fun h => hstatus (nfsstat_eq_ok_iff.mp h)]
              refine ⟨_, k + 1, rfl, ?_⟩
              rw [hturn, hreply, MRead.turn, if_neg hnone, if_neg hzero]
              simp only [hstatus, ne_eq, not_false_eq_true, if_true]
              exact .failed rfl

/-- For replies that fit, `nfsMRead` is the loop on the bytes of the replies. -/
theorem nfsMRead_mRead (hfits : RepliesFit replies count.toNat) :
    ∃ ans n, nfsMRead maxReadSize.toNat (fun k _ _ => (replies k).answer) offset
      count.toNat = .ok ans ∧
      EndsWith (mRead maxReadSize replies offset count n) ans :=
  mReadLoop_mRead hfits rfl atTurn_start rfl (Nat.le_refl _)

end Answer

end Anfs.File
