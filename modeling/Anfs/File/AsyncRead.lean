import Anfs.File.Read
import Anfs.Lib.Memory
import Anfs.Lib.Slots

/-!
# Reading with several requests in flight

`nfs_MARead` sends requests for the range from its front to its end, keeps some of them pending
and takes the replies as they come. A reply with less than was asked for ends the sending; only
empty replies may follow it.
-/
namespace Anfs.File
open Anfs.Lib Anfs.Nfs Anfs.Buf

/-- `RNUMASYNC` -/
def rnumasync : Nat := 5

/-- A `struct rargsent`; the reply is decoded to `buf`, counted from `Buf`. -/
structure Rargsent where
  used : Bool
  offset : UInt32
  count : UInt32
  buf : Nat
  deriving DecidableEq, Repr

/-- What the client meets during one call. `send k` is the error of the send number `k`, if it
fails; `order k` picks the pending request that is answered at the wait number `k`, and `reply`
is the answer; `idle` is the error of a wait with nothing pending. -/
structure ReadNet where
  send : Nat → Option Int
  order : Nat → Nat
  reply : ReadReplies
  idle : Int

/-- A reply that has been handled: what was asked for, and how many bytes came. -/
structure Arrival where
  offset : UInt32
  count : UInt32
  got : Nat
  deriving DecidableEq, Repr

/-- The local variables of `nfs_MARead`; `mem` is the memory from the caller's `Buf` on, `buf` how
far `Buf` has moved. `sends` and `waits` count the calls of the client, `arrived` records the
replies handled, the last one first. -/
structure MARVars where
  rhs : List Rargsent
  numpending : Nat
  queue : Nat
  reading : Bool
  eof : Bool
  upperOffs : Int
  fileLen : Int
  totLen : Int
  offset : UInt32
  count : UInt32
  buf : Nat
  mem : Nat → UInt8
  sends : Nat
  waits : Nat
  arrived : List Arrival

/-- What a caller sees: the return value, `*Res2` and `*FileLenP` where they were set, and the
memory; `pending` counts the requests of the call the client still has. -/
structure MARResult where
  ret : Int
  res2 : Option Int
  fileLen : Option Int
  mem : Nat → UInt8
  pending : Nat
  arrived : List Arrival

/-- `clnt_abort`, and the return with an error. -/
def MARVars.abort (v : MARVars) (res2 : Int) : MARResult :=
  ⟨-1, some res2, none, v.mem, 0, v.arrived⟩

/-- The entries in use. -/
def MARVars.inUse (v : MARVars) : List Nat :=
  (List.range v.rhs.length).filter fun i => v.rhs[i]?.any (·.used)

/-- `nfsproc_wait_read_buf`: the entry that is answered, and its reply. -/
def nfsprocWaitReadBuf (net : ReadNet) (v : MARVars) : Except Int (Nat × Rargsent × ReadRes) :=
  match v.inUse[net.order v.waits % v.inUse.length]? with
  | none => .error net.idle
  | some i =>
      match v.rhs[i]? with
      | none => .error net.idle
      | some rh => (net.reply v.waits rh.offset rh.count).map fun res => (i, rh, res)

/-- The variables once the reply has been decoded. -/
def MARVars.received (v : MARVars) (rh : Rargsent) (res : ReadRes) : MARVars :=
  { v with
    waits := v.waits + 1
    mem := if res.status = .ok then store v.mem rh.buf res.data else v.mem
    arrived := ⟨rh.offset, rh.count, res.data.length⟩ :: v.arrived }

def MARVars.release (v : MARVars) (i : Nat) (rh : Rargsent) : MARVars :=
  { v with rhs := v.rhs.set i { rh with used := false }, numpending := v.numpending - 1 }

/-- `TotLen` and `FileLen` with the reply taken into account. -/
def MARVars.add (v : MARVars) (res : ReadRes) : MARVars :=
  { v with
    totLen := long (v.totLen + res.data.length)
    fileLen := long (max (ulong v.fileLen) res.size.toNat) }

/-- `eof` is raised by the reply to `rh`. -/
def MARVars.raise (v : MARVars) (rh : Rargsent) : MARVars :=
  { v with eof := true, reading := false, upperOffs := long (rh.offset + rh.count - 1).toNat }

/-- What is done about a reply; `UpperOffs` is compared as an unsigned number. -/
def MARVars.handle (v : MARVars) (i : Nat) (rh : Rargsent) (res : ReadRes) :
    Except MARResult MARVars :=
  if res.status ≠ .ok then
    if v.eof = true ∨ (rh.offset.toNat : Int) ≤ ulong v.upperOffs then
      .error (v.abort (nfsErr2IoErrCont res.status .read))
    else .ok (v.release i rh)
  else if res.data.length < rh.count.toNat then
    if v.eof = true then
      if res.data.length ≠ 0 then .error (v.abort errorObjectNotFound)
      else .ok ((v.add res).release i rh)
    else .ok (((v.raise rh).add res).release i rh)
  else .ok ((v.add res).release i rh)

/-- The first half of a turn. -/
def MARVars.wait (v : MARVars) (numRPCs : Nat) (net : ReadNet) : Except MARResult MARVars :=
  if (v.reading = true ∧ numRPCs ≤ v.numpending) ∨ (v.reading = false ∧ v.numpending ≠ 0) then
    match nfsprocWaitReadBuf net v with
    | .error res2 => .error (v.abort res2)
    | .ok (i, rh, res) => (v.received rh res).handle i rh res
  else .ok v

/-- The variables after the next request has been sent from the entry `i`. -/
def MARVars.sent (v : MARVars) (i : Nat) (len : UInt32) : MARVars :=
  { v with
    rhs := v.rhs.set i ⟨true, v.offset, len, v.buf⟩
    queue := if v.rhs.length ≤ i + 1 then 0 else i + 1
    numpending := v.numpending + 1
    buf := v.buf + len.toNat
    offset := v.offset + len
    count := v.count - len
    reading := v.reading && v.count - len != 0
    sends := v.sends + 1 }

/-- The second half of a turn. `none` if no entry is free: the search goes round for ever. -/
def MARVars.send (v : MARVars) (maxRead : Nat) (net : ReadNet) :
    Option (Except MARResult MARVars) :=
  if v.reading = true then
    (search (fun rh : Rargsent => !rh.used) v.rhs v.rhs.length v.queue).map fun i =>
      match net.send v.sends with
      | some res2 => .error (v.abort res2)
      | none => .ok (v.sent i (UInt32.ofNat (min v.count.toNat maxRead)))
  else some (.ok v)

/-- The loop of `nfs_MARead`, at most `n` turns of it; `none` if it does not end in them. -/
def maReadLoop (maxRead numRPCs : Nat) (net : ReadNet) : Nat → MARVars → Option MARResult
  | 0, _ => none
  | n + 1, v =>
    if v.reading = false ∧ v.numpending = 0 then
      some ⟨v.totLen, none, some v.fileLen, v.mem, v.numpending, v.arrived⟩
    else
      match v.wait numRPCs net with
      | .error r => some r
      | .ok v =>
          match v.send maxRead net with
          | none => none
          | some (.error r) => some r
          | some (.ok v) => maReadLoop maxRead numRPCs net n v

/-- The variables in front of the loop. -/
def MARVars.start (offset count : UInt32) (mem : Nat → UInt8) : MARVars where
  rhs := List.replicate rnumasync ⟨false, 0, 0, 0⟩
  numpending := 0
  queue := 0
  reading := true
  eof := false
  upperOffs := -1
  fileLen := 0
  totLen := 0
  offset := offset
  count := count
  buf := 0
  mem := mem
  sends := 0
  waits := 0
  arrived := []

/-- `nfs_MARead` into the memory `mem`; `ng_MaxReadSize` is `maxReadSize` and `ng_NumRRPCs` is
`numRPCs`. Every turn sends a request or takes a reply, so that a call that returns does it in
these turns. -/
def nfsMARead (maxReadSize numRPCs : Nat) (net : ReadNet) (offset count : UInt32)
    (mem : Nat → UInt8) :
    Option MARResult :=
  maReadLoop (min maxReadSize nfsMaxdata) numRPCs net (2 * count.toNat + 4)
    (.start offset count mem)

/-- How `nfs_MARead` leaves things when it agrees with what `nfs_MRead` came to. -/
def MARResult.Agrees (r : MARResult) (mem : Nat → UInt8) : ReadAnswer → Prop
  | .done data num fileLen =>
      r.ret = num ∧ r.res2 = none ∧ r.fileLen = some fileLen ∧ r.mem = fun i => if i < num then
        data i else mem i
  | .failed res2 => r.ret = -1 ∧ r.res2 = some res2

/-- No reply without data was handled in front of one that had less than was asked for. -/
def ArrivedInOrder (arrived : List Arrival) : Prop :=
  arrived.Pairwise fun later earlier => earlier.got = 0 → later.got = 0 ∨
    later.count.toNat ≤ later.got

/-- Every reply had all of the file that was asked for. -/
def ArrivedFull (f : SrvFile) (arrived : List Arrival) : Prop :=
  ∀ a ∈ arrived, a.got = min a.count.toNat (f.size - a.offset.toNat)

section Served
variable {f : SrvFile} {net : ReadNet} {short : Nat → Nat} {x total maxRead numRPCs i len : Nat}
  {mem : Nat → UInt8}
  {v w : MARVars} {rh : Rargsent}

/-- What a pending request can bring. -/
def Rargsent.avail (f : SrvFile) (rh : Rargsent) : Nat :=
  if rh.used = true then min rh.count.toNat (f.size - rh.offset.toNat) else 0

/-- What a reply lacks of the file. -/
def Arrival.missing (f : SrvFile) (a : Arrival) : Nat :=
  min a.count.toNat (f.size - a.offset.toNat) - a.got

/-- The file ends inside of the range. -/
def endsIn (f : SrvFile) (offset count : UInt32) : Nat :=
  if offset.toNat < f.size ∧ f.size < offset.toNat + count.toNat then 1 else 0

def Rargsent.endsIn (f : SrvFile) (rh : Rargsent) : Nat :=
  if rh.used = true then File.endsIn f rh.offset rh.count else 0

def Arrival.endsIn (f : SrvFile) (a : Arrival) : Nat := File.endsIn f a.offset a.count

/-- The loop invariant of `nfs_MARead` for the range of `total` bytes at `x`, with a server that
reads from `f`; `mem` is the memory before the call. -/
structure MARInv (f : SrvFile) (x total numRPCs : Nat) (mem : Nat → UInt8)
    (v : MARVars) : Prop where
  length : v.rhs.length = rnumasync
  queue : v.queue < rnumasync
  pending : weigh (·.used.toNat) v.rhs = v.numpending
  room : v.numpending ≤ numRPCs
  buf_le : v.buf ≤ total
  offset : v.offset = UInt32.ofNat (x + v.buf)
  count : v.count.toNat = total - v.buf
  slots : ∀ rh ∈ v.rhs, rh.used = true →
    rh.offset.toNat = x + rh.buf ∧ rh.buf + rh.count.toNat ≤ v.buf ∧ 0 < rh.count.toNat
  reading : v.reading = true ↔ v.eof = false ∧ v.buf < total
  eof : v.eof = true ↔ ∃ a ∈ v.arrived, a.got < a.count.toNat
  arrivals : ∀ a ∈ v.arrived, a.got ≤ min a.count.toNat (f.size - a.offset.toNat) ∧
    a.offset.toNat + a.count.toNat ≤ x + v.buf ∧ 0 < a.count.toNat
  inOrder : ArrivedInOrder v.arrived
  totLen : 0 ≤ v.totLen
  account : v.totLen + weigh (·.missing f) v.arrived + weigh (·.avail f) v.rhs +
    min (total - v.buf) (f.size - (x + v.buf)) = min total (f.size - x)
  oneEnd : weigh (·.endsIn f) v.arrived + weigh (·.endsIn f) v.rhs ≤ if x + v.buf <
    f.size then 0 else 1
  written : ∀ k, v.mem k = mem k ∨ k < v.buf ∧ x + k < f.size ∧ v.mem k = f.bytes (x + k)
  covered : weigh (·.missing f) v.arrived = 0 → ∀ k < v.buf, x + k < f.size →
    v.mem k = f.bytes (x + k) ∨ ∃ rh ∈ v.rhs, rh.used = true ∧ rh.buf ≤ k ∧
      k < rh.buf + rh.count.toNat
  fileLen : v.fileLen = if v.arrived = [] then 0 else long f.size
  busy : 0 < v.buf → v.arrived = [] → 0 < v.numpending

theorem store_fileBytes {offs at' n k : Nat} (hat : at' = x + offs) :
    store mem offs (fileBytes f at' n) k = if offs ≤ k ∧ k < offs + n then
      f.bytes (x + k) else mem k := by
  split
  · next h =>
    rw [store, if_pos h.1, List.getD_eq_getElem?_getD]
    simp only [fileBytes, List.getElem?_map,
      List.getElem?_range (show k - offs < n by omega), Option.map_some,
      Option.getD_some, hat]
    rw [show x + offs + (k - offs) = x + k by omega]
  · next h =>
    apply store_of_notIn
    rw [fileBytes_length]
    omega

theorem MARInv.start (hpos : 0 < total) {offset count : UInt32} (hoffset : offset.toNat = x)
    (hcount : count.toNat = total) :
    MARInv f x total numRPCs mem (.start offset count mem) where
  length := List.length_replicate
  queue := Nat.succ_pos 4
  pending := rfl
  room := Nat.zero_le _
  buf_le := Nat.zero_le _
  offset := by
    show offset = UInt32.ofNat (x + 0)
    rw [Nat.add_zero, ← hoffset, UInt32.ofNat_toNat]
  count := hcount
  slots rh hrh hused := by
    obtain rfl := List.eq_of_mem_replicate hrh
    cases hused
  reading := ⟨fun _ => ⟨rfl, hpos⟩, fun _ => rfl⟩
  eof := ⟨fun h => (Bool.false_ne_true h).elim, fun ⟨_, ha, _⟩ => absurd ha List.not_mem_nil⟩
  arrivals _ ha := absurd ha List.not_mem_nil
  inOrder := List.Pairwise.nil
  totLen := Int.le_refl 0
  account := by
    show (0 : Int) + (0 : Nat) + (0 : Nat) + _ = _
    rw [show (MARVars.start offset count mem).buf = 0 from rfl]
    omega
  oneEnd := Nat.zero_le _
  written _ := .inl rfl
  covered _ k hk := absurd hk (Nat.not_lt_zero k)
  fileLen := rfl
  busy h := absurd h (Nat.lt_irrefl 0)

/-- The reply that the server gives with `len` bytes. -/
def served (f : SrvFile) (rh : Rargsent) (len : Nat) : ReadRes :=
  ⟨.ok, UInt32.ofNat f.size, fileBytes f rh.offset.toNat len⟩

/-- The variables once the reply of `len` bytes to the entry `i` has been taken. -/
def MARVars.take (v : MARVars) (f : SrvFile) (i : Nat) (rh : Rargsent) (len : Nat) : MARVars :=
  { v with
    rhs := v.rhs.set i { rh with used := false }
    numpending := v.numpending - 1
    waits := v.waits + 1
    mem := store v.mem rh.buf (fileBytes f rh.offset.toNat len)
    arrived := ⟨rh.offset, rh.count, len⟩ :: v.arrived
    totLen := v.totLen + len
    fileLen := long f.size }

theorem mem_set_or {rh' : Rargsent} (hi : v.rhs[i]? = some rh) (h : rh' ∈ v.rhs) (rh₁ : Rargsent) :
    rh' = rh ∨ rh' ∈ v.rhs.set i rh₁ := by
  obtain ⟨j, hj⟩ := List.mem_iff_getElem?.mp h
  by_cases hji : j = i
  · rw [hji, hi] at hj
    exact .inl (Option.some.inj hj).symm
  · refine .inr (List.mem_iff_getElem?.mpr ⟨j, ?_⟩)
    rw [List.getElem?_set_ne (Ne.symm hji)]
    exact hj

/-- What the entries weigh when one with the weight `a` is no longer in use. -/
theorem weigh_unused {g : Rargsent → Nat} (hi : v.rhs[i]? = some rh)
    (hzero : g { rh with used := false } = 0) :
    weigh g (v.rhs.set i { rh with used := false }) + g rh = weigh g v.rhs := by
  rw [weigh_set g hi, hzero, Nat.add_zero]

/-- A reply that is taken keeps the invariant. -/
theorem MARInv.take (h : MARInv f x total numRPCs mem v) (hi : v.rhs[i]? = some rh)
    (hused : rh.used = true)
    (hlen : len ≤ min rh.count.toNat (f.size - rh.offset.toNat))
    (horder : v.eof = true → len = 0 ∨ rh.count.toNat ≤ len) {eof reading : Bool} (upperOffs : Int)
    (heof : eof = true ↔ v.eof = true ∨ len < rh.count.toNat)
    (hreading : reading = true ↔ eof = false ∧ v.buf < total) :
    MARInv f x total numRPCs mem { v.take f i rh len with eof, reading, upperOffs } := by
  have hrh := List.mem_of_getElem? hi
  obtain ⟨hoffs, hin, hpos⟩ := h.slots rh hrh hused
  have hpend : weigh (·.used.toNat) (v.rhs.set i { rh with used := false }) + 1 = v.numpending := by
    rw [← h.pending, ← weigh_unused hi rfl, hused, Bool.toNat_true]
  have havail : weigh (·.avail f) (v.rhs.set i { rh with used := false }) +
      min rh.count.toNat (f.size - rh.offset.toNat) = weigh (·.avail f) v.rhs := by
    rw [← weigh_unused hi rfl, Rargsent.avail, if_pos hused]
  have hends : weigh (·.endsIn f) (v.rhs.set i { rh with used := false }) +
    endsIn f rh.offset rh.count =
      weigh (·.endsIn f) v.rhs := by
    rw [← weigh_unused hi rfl, Rargsent.endsIn, if_pos hused]
  have haccount := h.account
  exact {
    length := (List.length_set ..).trans h.length
    queue := h.queue
    pending := Nat.eq_sub_of_add_eq hpend
    room := Nat.le_trans (Nat.sub_le _ _) h.room
    buf_le := h.buf_le
    offset := h.offset
    count := h.count
    slots rh' hrh' hused' := by
      rcases List.mem_or_eq_of_mem_set hrh' with hold | rfl
      · exact h.slots rh' hold hused'
      · cases hused'
    reading := hreading
    eof := by
      show eof = true ↔ ∃ a ∈ _ :: v.arrived, _
      rw [heof, h.eof]
      constructor
      · rintro (⟨a, ha, hlt⟩ | hlt)
        · exact ⟨a, List.mem_cons_of_mem _ ha, hlt⟩
        · exact ⟨_, List.mem_cons_self, hlt⟩
      · rintro ⟨a, ha, hlt⟩
        rcases List.mem_cons.mp ha with rfl | ha
        · exact .inr hlt
        · exact .inl ⟨a, ha, hlt⟩
    arrivals a ha := by
      rcases List.mem_cons.mp ha with rfl | ha
      · refine ⟨hlen, ?_, hpos⟩
        show rh.offset.toNat + rh.count.toNat ≤ x + v.buf
        omega
      · exact h.arrivals a ha
    inOrder := by
      refine List.pairwise_cons.mpr ⟨fun a ha hzero => ?_, h.inOrder⟩
      exact horder (h.eof.mpr ⟨a, ha, by rw [hzero]; exact (h.arrivals a ha).2.2⟩)
    totLen := Int.add_nonneg h.totLen (Int.natCast_nonneg len)
    account := by
      simp only [MARVars.take, weigh, Arrival.missing]
      simp only [Arrival.missing] at haccount
      omega
    oneEnd := by
      refine Nat.le_trans (Nat.le_of_eq ?_) h.oneEnd
      simp only [MARVars.take, weigh, Arrival.endsIn]
      omega
    written k := by
      show store v.mem rh.buf (fileBytes f rh.offset.toNat len) k = mem k ∨
        k < v.buf ∧ x + k < f.size ∧ store v.mem rh.buf (fileBytes f rh.offset.toNat len) k = _
      rw [store_fileBytes hoffs]
      split
      · exact .inr ⟨by omega, by omega, rfl⟩
      · exact h.written k
    covered hfull k hk hkin := by
      show store v.mem rh.buf (fileBytes f rh.offset.toNat len) k = _ ∨ _
      rw [store_fileBytes hoffs]
      simp only [MARVars.take, weigh, Arrival.missing] at hfull
      split
      · exact .inl rfl
      · next hout =>
        rcases h.covered (by simp only [Arrival.missing]; omega) k hk hkin
          with hdone | ⟨rh', hrh', hrest⟩
        · exact .inl hdone
        · rcases mem_set_or hi hrh' { rh with used := false } with rfl | hkept
          · omega
          · exact .inr ⟨rh', hkept, hrest⟩
    fileLen := (if_neg (List.cons_ne_nil _ _)).symm
    busy _ hnil := absurd hnil (List.cons_ne_nil _ _) }

theorem ulong_long {n : Nat} (h : n < 4294967296) : ulong (long n) = n := by
  unfold ulong long
  omega

/-- The code takes the reply so. -/
theorem MARInv.take_eq (h : MARInv f x total numRPCs mem v) (hsize : f.size < 4294967296)
    (htotal : total < 2147483648)
    (hi : v.rhs[i]? = some rh) (hused : rh.used = true)
    (hlen : len ≤ min rh.count.toNat (f.size - rh.offset.toNat)) :
    ((v.received rh (served f rh len)).add (served f rh len)).release i rh = v.take f i rh len := by
  have hgot : (served f rh len).data.length = len := fileBytes_length _ _
  have hsz : ((served f rh len).size.toNat : Int) = f.size := by
    show ((UInt32.ofNat f.size).toNat : Int) = _
    rw [UInt32.toNat_ofNat']
    exact congrArg _ (Nat.mod_eq_of_lt hsize)
  have havail : weigh (·.avail f) (v.rhs.set i { rh with used := false }) +
      min rh.count.toNat (f.size - rh.offset.toNat) = weigh (·.avail f) v.rhs := by
    rw [← weigh_unused hi rfl, Rargsent.avail, if_pos hused]
  have hnonneg := h.totLen
  have haccount := h.account
  have htot : long (v.totLen + len) = v.totLen + len := long_of_isLong ⟨by omega, by omega⟩
  have hfile : long (max (ulong v.fileLen) f.size) = long f.size := by
    rw [h.fileLen]
    split
    · rw [ulong, Int.zero_emod, Int.max_eq_right (Int.natCast_nonneg _)]
    · rw [ulong_long hsize, Int.max_self]
  unfold MARVars.release MARVars.add MARVars.received MARVars.take
  simp only [hgot, hsz, htot, hfile]
  rfl

/-- If requests are pending, one of them is answered. -/
theorem exists_answered (h : 0 < weigh (·.used.toNat) v.rhs) (k : Nat) :
    ∃ i rh, v.inUse[k % v.inUse.length]? = some i ∧ v.rhs[i]? = some rh ∧ rh.used = true := by
  obtain ⟨rh, hrh, hused⟩ := exists_of_weigh_pos h
  obtain ⟨j, hj⟩ := List.mem_iff_getElem?.mp hrh
  have hmem : j ∈ v.inUse := by
    refine List.mem_filter.mpr ⟨List.mem_range.mpr (List.getElem?_eq_some_iff.mp hj).1, ?_⟩
    rw [hj, Option.any_some]
    by_contra hfree
    rw [Bool.not_eq_true] at hfree
    rw [hfree] at hused
    exact Nat.lt_irrefl 0 hused
  have hlt := Nat.mod_lt k (List.length_pos_of_mem hmem)
  have hpick := List.mem_filter.mp (List.getElem_mem hlt)
  obtain ⟨rh', hrh', hused'⟩ := (Option.any_eq_true _ _).mp hpick.2
  exact ⟨_, rh', List.getElem?_eq_getElem hlt, hrh', hused'⟩

/-- The call has failed, and a reply is to blame. -/
structure MARResult.Refused (f : SrvFile) (r : MARResult) : Prop where
  ret : r.ret = -1
  res2 : r.res2 = some errorObjectNotFound
  pending : r.pending = 0
  blame : ¬ (ArrivedInOrder r.arrived ∧ ArrivedFull f r.arrived)

/-- Two replies that are not empty and lack something: the file would end in both ranges. -/
theorem MARInv.blame (h : MARInv f x total numRPCs mem v) (hi : v.rhs[i]? = some rh)
    (hused : rh.used = true)
    (heof : v.eof = true) (hpos : len ≠ 0) (hlt : len < rh.count.toNat) :
    ¬ (ArrivedInOrder (⟨rh.offset, rh.count, len⟩ :: v.arrived) ∧
      ArrivedFull f (⟨rh.offset, rh.count, len⟩ :: v.arrived)) := by
  rintro ⟨horder, hfull⟩
  obtain ⟨a, ha, halt⟩ := h.eof.mp heof
  have hagot : a.got ≠ 0 := by
    intro hzero
    rcases (List.pairwise_cons.mp horder).1 a ha hzero with hnil | hle
    · exact hpos hnil
    · exact Nat.not_lt.mpr hle hlt
  have hends : 1 ≤ endsIn f rh.offset rh.count := by
    have hlen : len = min rh.count.toNat (f.size - rh.offset.toNat) := hfull _ List.mem_cons_self
    unfold endsIn
    rw [if_pos (by omega)]
  have haends : 1 ≤ a.endsIn f := by
    have hlen := hfull a (List.mem_cons_of_mem _ ha)
    unfold Arrival.endsIn endsIn
    rw [if_pos (by omega)]
  have hle := le_weigh (·.endsIn f) ha
  have hle' := le_weigh (·.endsIn f) (List.mem_of_getElem? hi)
  have hone := h.oneEnd
  simp only [Rargsent.endsIn, if_pos hused] at hle'
  simp only [Rargsent.endsIn] at hone
  split at hone <;> omega

/-- The first half of a turn takes a reply, goes on with the next request, or fails for a reason. -/
theorem MARInv.wait (h : MARInv f x total numRPCs mem v) (hserve : net.reply = serveRead f short)
    (hsize : f.size < 4294967296) (htotal : total < 2147483648) (hrpcs : 0 < numRPCs)
    (hturn : ¬ (v.reading = false ∧ v.numpending = 0)) :
    (∃ w, v.wait numRPCs net = .ok w ∧ MARInv f x total numRPCs mem w ∧ w.buf = v.buf ∧
      (w.reading = true → w.numpending < numRPCs) ∧
      (w.numpending < v.numpending ∨ w.numpending = v.numpending ∧ w.reading = true)) ∨
    ∃ r, v.wait numRPCs net = .error r ∧ r.Refused f := by
  unfold MARVars.wait
  split
  · next hwait =>
    have hpend : 0 < v.numpending := by
      rcases hwait with ⟨-, hle⟩ | ⟨-, hne⟩
      · exact Nat.lt_of_lt_of_le hrpcs hle
      · exact Nat.pos_of_ne_zero hne
    obtain ⟨i, rh, hpick, hi, hused⟩ :=
      exists_answered (by rw [h.pending]; exact hpend) (net.order v.waits)
    obtain ⟨len, hlen, hreply⟩ : ∃ len ≤ min rh.count.toNat (f.size - rh.offset.toNat),
        serveRead f short v.waits rh.offset rh.count = .ok (served f rh len) :=
          ⟨_, Nat.sub_le _ _, rfl⟩
    have hans : nfsprocWaitReadBuf net v = .ok (i, rh, served f rh len) := by
      simp only [nfsprocWaitReadBuf, hpick, hi, hserve, hreply]
      rfl
    have hgot : (served f rh len).data.length = len := fileBytes_length _ _
    have htake := h.take_eq hsize htotal hi hused hlen
    have hroom := h.room
    have hdown : v.numpending - 1 < v.numpending := Nat.sub_lt hpend Nat.one_pos
    simp only [hans]
    unfold MARVars.handle
    rw [if_neg (fun hne => hne rfl), hgot]
    split
    · next hlt =>
      split
      · next heof =>
        split
        · next hne =>
          refine .inr ⟨_, rfl, rfl, rfl, rfl, ?_⟩
          have hblame := h.blame hi hused heof hne hlt
          rwa [← hgot] at hblame
        · next hzero =>
          have hidle : v.reading = true → v.numpending - 1 < numRPCs :=
            fun _ => Nat.lt_of_lt_of_le hdown h.room
          refine .inl ⟨_, rfl, ?_, rfl, hidle, .inl hdown⟩
          rw [htake]
          exact h.take hi hused hlen (fun _ =>
            .inl (Nat.eq_zero_of_not_pos fun hp => hzero (Nat.ne_of_gt hp)))
            v.upperOffs ⟨.inl, fun _ => heof⟩ h.reading
      · next heof =>
        refine .inl ⟨_, rfl, ?_, rfl, fun hr => absurd hr Bool.false_ne_true, .inl hdown⟩
        have hraised : MARInv f x total numRPCs mem { v.take f i rh len with
            eof := true, reading := false, upperOffs := long (rh.offset + rh.count - 1).toNat } :=
          h.take hi hused hlen (fun hv => absurd hv heof) _ ⟨fun _ => .inr hlt, fun _ => rfl⟩
            ⟨fun hr => absurd hr Bool.false_ne_true, fun hr => absurd hr.1.symm Bool.false_ne_true⟩
        rw [← htake] at hraised
        exact hraised
    · next hge =>
      have hidle : v.reading = true → v.numpending - 1 < numRPCs :=
        fun _ => Nat.lt_of_lt_of_le hdown h.room
      refine .inl ⟨_, rfl, ?_, rfl, hidle, .inl hdown⟩
      rw [htake]
      exact h.take hi hused hlen (fun _ => .inr (Nat.not_lt.mp hge)) v.upperOffs
        ⟨.inl, fun hor => hor.resolve_right hge⟩ h.reading
  · next hgo =>
    have hreading : v.reading = true := by
      by_contra hr
      rw [Bool.not_eq_true] at hr
      exact hgo (.inr ⟨hr, fun hzero => hturn ⟨hr, hzero⟩⟩)
    have hroom : v.numpending < numRPCs := Nat.lt_of_not_le fun hle => hgo (.inl ⟨hreading, hle⟩)
    exact .inl ⟨v, rfl, h, rfl, fun _ => hroom, .inr ⟨rfl, hreading⟩⟩

/-- The next request keeps the invariant. -/
theorem MARInv.sent (h : MARInv f x total numRPCs mem v) (hend : x + total ≤ 4294967296)
    (hreading : v.reading = true) (hroom : v.numpending < numRPCs) (hi : v.rhs[i]? = some rh)
    (hfree : rh.used = false)
    {n : UInt32} (hpos : 0 < n.toNat) (hn : n.toNat ≤ total - v.buf) :
    MARInv f x total numRPCs mem (v.sent i n) := by
  obtain ⟨heof, hlt⟩ := h.reading.mp hreading
  have hoffset : v.offset.toNat = x + v.buf := by
    rw [h.offset, UInt32.toNat_ofNat']
    exact Nat.mod_eq_of_lt (by omega)
  have hcount : (v.count - n).toNat = total - (v.buf + n.toNat) := by
    rw [UInt32.toNat_sub_of_le _ _ (UInt32.le_iff_toNat_le.mpr (by rw [h.count]; exact hn)),
      h.count, Nat.sub_sub]
  have hweigh := fun g : Rargsent → Nat => weigh_set g hi ⟨true, v.offset, n, v.buf⟩
  have hpend : weigh (·.used.toNat) (v.rhs.set i ⟨true, v.offset, n, v.buf⟩) =
      v.numpending + 1 := by
    have hset := hweigh (·.used.toNat)
    simp only [hfree, Bool.toNat_false, Bool.toNat_true, Nat.add_zero] at hset
    rw [hset, h.pending]
  have havail : weigh (·.avail f) (v.rhs.set i ⟨true, v.offset, n, v.buf⟩) =
      weigh (·.avail f) v.rhs + min n.toNat (f.size - (x + v.buf)) := by
    have hset := hweigh (·.avail f)
    simp only [Rargsent.avail, hfree, Bool.false_eq_true, if_false, if_true, Nat.add_zero, hoffset]
      at hset
    exact hset
  have hends : weigh (·.endsIn f) (v.rhs.set i ⟨true, v.offset, n, v.buf⟩) =
      weigh (·.endsIn f) v.rhs + endsIn f v.offset n := by
    have hset := hweigh (·.endsIn f)
    simp only [Rargsent.endsIn, hfree, Bool.false_eq_true, if_false, if_true, Nat.add_zero] at hset
    exact hset
  have hlast : (v.reading && v.count - n != 0) = true ↔ v.eof = false ∧
      v.buf + n.toNat < total := by
    rw [hreading, Bool.true_and, bne_iff_ne, ne_eq, ← UInt32.toNat_inj, hcount,
      UInt32.toNat_zero, heof]
    constructor
    · exact fun hne => ⟨rfl, by omega⟩
    · rintro ⟨-, hmore⟩
      omega
  have hone := h.oneEnd
  have haccount := h.account
  exact {
    length := (List.length_set ..).trans h.length
    queue := by
      have hlen := h.length
      have hlt := (List.getElem?_eq_some_iff.mp hi).1
      show (if v.rhs.length ≤ i + 1 then 0 else i + 1) < rnumasync
      split
      · exact Nat.succ_pos 4
      · omega
    pending := hpend
    room := hroom
    buf_le := by
      show v.buf + n.toNat ≤ total
      omega
    offset := by
      show v.offset + n = UInt32.ofNat (x + (v.buf + n.toNat))
      rw [h.offset, ← Nat.add_assoc, UInt32.ofNat_add (x + v.buf) n.toNat, UInt32.ofNat_toNat]
    count := hcount
    slots rh' hrh' hused' := by
      rcases List.mem_or_eq_of_mem_set hrh' with hold | rfl
      · obtain ⟨hoffs, hin, hrest⟩ := h.slots rh' hold hused'
        exact ⟨hoffs, Nat.le_trans hin (Nat.le_add_right _ _), hrest⟩
      · exact ⟨hoffset, Nat.le_refl _, hpos⟩
    reading := hlast
    eof := h.eof
    arrivals a ha := by
      obtain ⟨hgot, hin, hrest⟩ := h.arrivals a ha
      refine ⟨hgot, ?_, hrest⟩
      show _ ≤ x + (v.buf + n.toNat)
      omega
    inOrder := h.inOrder
    totLen := h.totLen
    account := by
      simp only [MARVars.sent, havail]
      omega
    oneEnd := by
      show weigh _ v.arrived + weigh (·.endsIn f) (v.rhs.set i ⟨true, v.offset, n, v.buf⟩) ≤
        if x + (v.buf + n.toNat) < f.size then 0 else 1
      rw [hends, endsIn, hoffset]
      split at hone <;> split <;> split <;> omega
    written k := by
      rcases h.written k with hold | ⟨hlt, hrest⟩
      · exact .inl hold
      · exact .inr ⟨Nat.lt_of_lt_of_le hlt (Nat.le_add_right _ _), hrest⟩
    covered hfull k hk hkin := by
      by_cases hnew : k < v.buf
      · rcases h.covered hfull k hnew hkin with hdone | ⟨rh', hrh', hused', hrest⟩
        · exact .inl hdone
        · rcases mem_set_or hi hrh' ⟨true, v.offset, n, v.buf⟩ with rfl | hkept
          · exact absurd (hfree.symm.trans hused') Bool.false_ne_true
          · exact .inr ⟨rh', hkept, hused', hrest⟩
      · refine .inr ⟨_, List.mem_set (List.getElem?_eq_some_iff.mp hi).1 _, rfl,
          Nat.not_lt.mp hnew, hk⟩
    fileLen := h.fileLen
    busy _ _ := Nat.succ_pos _ }

/-- The second half of a turn finds a free entry for the next request. -/
theorem MARInv.send (h : MARInv f x total numRPCs mem v) (hsend : ∀ k, net.send k = none)
    (hend : x + total ≤ 4294967296) (hmax : 0 < maxRead) (hrpcs : numRPCs ≤ rnumasync)
    (hreading : v.reading = true)
    (hroom : v.numpending < numRPCs) :
    ∃ w, v.send maxRead net = some (.ok w) ∧ MARInv f x total numRPCs mem w ∧ v.buf < w.buf ∧
      w.numpending = v.numpending + 1 := by
  have hless : weigh (·.used.toNat) v.rhs < v.rhs.length := by
    rw [h.pending, h.length]
    exact Nat.lt_of_lt_of_le hroom hrpcs
  obtain ⟨rh, hrh, hzero⟩ := exists_of_weigh_lt hless
  have hfree : (!rh.used) = true := by
    cases hu : rh.used with
    | false => rfl
    | true => rw [hu] at hzero; cases hzero
  have hq : v.queue < v.rhs.length := by rw [h.length]; exact h.queue
  obtain ⟨i, hfound⟩ := Option.isSome_iff_exists.mp
    (search_isSome (p := fun rh : Rargsent => !rh.used) hq hrh hfree)
  obtain ⟨rh', hi, hfree'⟩ := search_some hfound
  obtain ⟨heof, hlt⟩ := h.reading.mp hreading
  have hcount := h.count
  have hbound := v.count.toNat_lt
  have hn : (UInt32.ofNat (min v.count.toNat maxRead)).toNat = min v.count.toNat maxRead := by
    rw [UInt32.toNat_ofNat']
    exact Nat.mod_eq_of_lt (Nat.lt_of_le_of_lt (Nat.min_le_left _ _) hbound)
  refine ⟨v.sent i (UInt32.ofNat (min v.count.toNat maxRead)), ?_, ?_, ?_, rfl⟩
  · rw [MARVars.send, if_pos hreading, hfound, Option.map_some, hsend]
  · exact h.sent hend hreading hroom hi (by simpa using hfree') (by omega) (by omega)
  · show v.buf < v.buf + (UInt32.ofNat (min v.count.toNat maxRead)).toNat
    omega

/-- The call has returned with a count. -/
structure MARResult.Read (f : SrvFile) (x total : Nat) (mem : Nat → UInt8)
    (r : MARResult) : Prop where
  pending : r.pending = 0
  res2 : r.res2 = none
  fileLen : r.fileLen = some (long f.size)
  inOrder : ArrivedInOrder r.arrived
  full : ArrivedFull f r.arrived → r.ret = min total (f.size - x) ∧
    r.mem = fun k => if k < min total (f.size - x) then f.bytes (x + k) else mem k
  lacks : ¬ ArrivedFull f r.arrived → r.ret < min total (f.size - x)

/-- Once all is sent, or the end of the file is known, and nothing is pending. -/
theorem MARInv.done (h : MARInv f x total numRPCs mem v) (hpos : 0 < total)
    (hreading : v.reading = false)
    (hnone : v.numpending = 0) :
    MARResult.Read f x total mem ⟨v.totLen, none, some v.fileLen, v.mem,
      v.numpending, v.arrived⟩ := by
  have hunused : ∀ rh ∈ v.rhs, rh.used = false := by
    intro rh hrh
    have hle := le_weigh (·.used.toNat) hrh
    rw [h.pending, hnone] at hle
    cases hu : rh.used with
    | false => rfl
    | true => rw [hu] at hle; exact absurd hle (Nat.not_succ_le_zero 0)
  have havail : weigh (·.avail f) v.rhs = 0 :=
    weigh_eq_zero fun rh hrh => if_neg fun hused =>
      Bool.false_ne_true ((hunused rh hrh).symm.trans hused)
  have hstop : v.eof = true ∨ v.buf = total := by
    cases heof : v.eof with
    | true => exact .inl rfl
    | false =>
        refine .inr (Nat.le_antisymm h.buf_le (Nat.not_lt.mp fun hlt => ?_))
        exact Bool.false_ne_true (hreading.symm.trans (h.reading.mpr ⟨heof, hlt⟩))
  have hbuf := h.buf_le
  have haccount := h.account
  exact {
    pending := hnone
    res2 := rfl
    fileLen := by
      refine congrArg some (h.fileLen.trans (if_neg fun hnil => ?_))
      rcases hstop with heof | hall
      · obtain ⟨a, ha, -⟩ := h.eof.mp heof
        rw [hnil] at ha
        exact List.not_mem_nil ha
      · have hbusy := h.busy (by rw [hall]; exact hpos) hnil
        exact Nat.ne_of_gt hbusy hnone
    inOrder := h.inOrder
    full hfull := by
      have hmissing : weigh (·.missing f) v.arrived = 0 :=
        weigh_eq_zero fun a ha => Nat.sub_eq_zero_of_le (Nat.le_of_eq (hfull a ha).symm)
      have hrest : v.buf = total ∨ f.size ≤ x + v.buf := by
        rcases hstop with heof | hall
        · obtain ⟨a, ha, hlt⟩ := h.eof.mp heof
          have hgot := hfull a ha
          have hin := (h.arrivals a ha).2.1
          exact .inr (by omega)
        · exact .inl hall
      refine ⟨by show v.totLen = _; omega, funext fun k => ?_⟩
      show v.mem k = _
      split
      · next hk =>
        rcases h.covered hmissing k (by omega) (by omega) with hdone | ⟨rh, hrh, hused, -⟩
        · exact hdone
        · exact absurd ((hunused rh hrh).symm.trans hused) Bool.false_ne_true
      · next hk =>
        rcases h.written k with hold | ⟨hlt, hin, -⟩
        · exact hold
        · omega
    lacks hlacks := by
      have hex : ∃ a ∈ v.arrived, 0 < a.missing f := by
        by_contra hnone
        refine hlacks fun a ha => ?_
        have hzero := Nat.eq_zero_of_not_pos fun hp => hnone ⟨a, ha, hp⟩
        exact Nat.le_antisymm (h.arrivals a ha).1 (Nat.le_of_sub_eq_zero hzero)
      obtain ⟨a, ha, hmissing⟩ := hex
      have hle := le_weigh (·.missing f) ha
      show v.totLen < _
      omega }

/-- A call with a server that answers returns, and leaves nothing pending. -/
theorem MARInv.loop (hserve : net.reply = serveRead f short) (hsend : ∀ k, net.send k = none)
    (hsize : f.size < 4294967296) (hpos : 0 < total) (htotal : total < 2147483648)
    (hend : x + total ≤ 4294967296)
    (hmax : 0 < maxRead) (hrpcs : 0 < numRPCs) (hrpcs' : numRPCs ≤ rnumasync) {n : Nat}
    (h : MARInv f x total numRPCs mem v) (hn : 2 * (total - v.buf) + v.numpending < n) :
    ∃ r, maReadLoop maxRead numRPCs net n v = some r ∧ (r.Refused f ∨ r.Read f x total mem) := by
  induction n generalizing v with
  | zero => exact absurd hn (Nat.not_lt_zero _)
  | succ n ih =>
      unfold maReadLoop
      split
      · next hturn => exact ⟨_, rfl, .inr (h.done hpos hturn.1 hturn.2)⟩
      next hturn =>
      rcases h.wait hserve hsize htotal hrpcs hturn with ⟨w, hwait, hinv, hbuf, hroom, hdown⟩ |
        ⟨r, hwait, hrefused⟩
      · rw [hwait]
        by_cases hreading : w.reading = true
        · obtain ⟨u, hsent, hinv', hlt, hup⟩ :=
            hinv.send hsend hend hmax hrpcs' hreading (hroom hreading)
          simp only [hsent]
          have hle := hinv'.buf_le
          exact ih hinv' (by omega)
        · simp only [MARVars.send, if_neg hreading]
          have hless : w.numpending < v.numpending := hdown.resolve_right fun hr => hreading hr.2
          exact ih hinv (by omega)
      · rw [hwait]
        exact ⟨r, rfl, .inl hrefused⟩

end Served

section Agreement
variable {f : SrvFile} {net : ReadNet} {short short' : Nat → Nat} {maxReadSize numRPCs : Nat}
  {offset count : UInt32}

/-- `nfs_MARead` does what `nfs_MRead` does, whatever the order of the replies, just if each of them
brings all of the file that was asked for and no empty one is handled in front of one that is cut
off by the end of the file. Otherwise it fails or returns less. In any case it returns, with nothing
pending. -/
theorem nfsMARead_agrees_iff (mem : Nat → UInt8) (hserve : net.reply = serveRead f short)
    (hsend : ∀ k, net.send k = none) (hmax : 0 < maxReadSize) (hrpcs : 0 < numRPCs)
    (hrpcs' : numRPCs ≤ rnumasync)
    (hpos : 0 < count.toNat) (hcount : count.toNat < 2147483648)
    (hend : offset.toNat + count.toNat ≤ 4294967296)
    (hsize : f.size < 4294967296) :
    ∃ r ans, nfsMARead maxReadSize numRPCs net offset count mem = some r ∧
      nfsMRead maxReadSize (serveRead f short') offset count.toNat = .ok ans ∧ r.pending = 0 ∧
      (r.Agrees mem ans ↔ ArrivedInOrder r.arrived ∧ ArrivedFull f r.arrived) ∧
      (¬ r.Agrees mem ans → r.ret < min count.toNat (f.size - offset.toNat)) := by
  have hstart : MARInv f offset.toNat count.toNat numRPCs mem (.start offset count mem) :=
    MARInv.start hpos rfl rfl
  have hmaxdata : nfsMaxdata = 8192 := rfl
  obtain ⟨r, hrun, hends⟩ := hstart.loop hserve hsend hsize hpos hcount hend
    (show 0 < min maxReadSize nfsMaxdata by omega) hrpcs hrpcs' (n := 2 * count.toNat + 4)
    (Nat.lt_add_of_pos_right (Nat.succ_pos 3))
  obtain ⟨ans, hsync, hreads⟩ := nfsMRead_served hmax hsize short' offset hpos
  obtain ⟨data, fileLen, hans, hfileLen, hdata⟩ := hreads.done
  subst hans
  rw [hfileLen] at hsync
  refine ⟨r, _, hrun, hsync, ?_⟩
  rcases hends with hrefused | hread
  · have hnot :
        ¬ r.Agrees mem (.done data (min count.toNat (f.size - offset.toNat)) (long f.size)) := by
      rintro ⟨hret, -⟩
      rw [hrefused.ret] at hret
      omega
    refine ⟨hrefused.pending, ⟨fun h => absurd h hnot, fun h => absurd h hrefused.blame⟩,
      fun _ => ?_⟩
    rw [hrefused.ret]
    omega
  · have hagrees : ArrivedFull f r.arrived →
        r.Agrees mem (.done data (min count.toNat (f.size - offset.toNat)) (long f.size)) := by
      intro hfull
      obtain ⟨hret, hmem⟩ := hread.full hfull
      refine ⟨hret, hread.res2, hread.fileLen, hmem.trans (funext fun k => ?_)⟩
      split
      · next hk => exact (hdata k hk).symm
      · rfl
    refine ⟨hread.pending, ⟨fun h => ⟨hread.inOrder, ?_⟩, fun h => hagrees h.2⟩, fun hnot => ?_⟩
    · by_contra hlacks
      exact Int.ne_of_lt (hread.lacks hlacks) h.1
    · exact hread.lacks fun hfull => hnot (hagrees hfull)

/-- A file of three bytes. -/
def threeBytes : SrvFile := ⟨fun k => UInt8.ofNat (k + 1), 3⟩

/-- The second of two pending requests is answered first, from the second wait on. -/
def overtaking : ReadNet := ⟨fun _ => none, id, serveRead threeBytes fun _ => 0, 5⟩

theorem nfsMARead_agrees_iff_three :
    ∃ r ans, nfsMARead 2 2 overtaking 0 6 (fun _ => 0) = some r ∧
      nfsMRead 2 (serveRead threeBytes fun _ => 0) 0 6 = .ok ans ∧ r.pending = 0 ∧
      (r.Agrees (fun _ => 0) ans ↔ ArrivedInOrder r.arrived ∧ ArrivedFull threeBytes r.arrived) ∧
      (¬ r.Agrees (fun _ => 0) ans → r.ret < min 6 (3 - 0)) :=
  nfsMARead_agrees_iff (fun _ => 0) rfl (fun _ => rfl) (by decide) (by decide) (by decide)
    (by decide) (by decide)
    (by decide) (by decide)

/-- The empty reply for the offset 4 comes in front of the last byte: the call fails. -/
example : (nfsMARead 2 2 overtaking 0 6 fun _ => 0).map
    (fun r => (r.ret, r.res2, r.arrived.map (·.got))) =
    some (-1, some errorObjectNotFound, [1, 0, 2]) := by decide +kernel

end Agreement

end Anfs.File
