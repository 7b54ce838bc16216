import Anfs.Lib.Patch
import Anfs.Nfs.Error
import Anfs.Rpc.Ledger

/-!
# Writing a block: one request at a time, or several in flight

Both functions cut the block into chunks of at most the configured size. The
asynchronous one keeps up to `ngNumWRPCs` requests pending. It is answered by a list
that holds, in order, what each send and each wait met; a run uses the list up.
-/
namespace Anfs.Nfs
open Anfs.Lib Anfs.Xdr Anfs.Rpc

/-- The `attrstat` of a write reply: its status and the file size it reports. -/
structure AttrStat where
  status : Nfsstat
  size : Nat
  deriving DecidableEq, Repr

structure NFSGlobal where
  ngMaxWriteSize : Nat
  ngNumWRPCs : Int
  deriving DecidableEq, Repr

def nfsprocWrite : UInt32 := 8

/-- The time a call or a wait may take, in seconds. -/
def TIMEOUT : Timeval := ⟨25, 0⟩

/-- The routine and the address under which write results are stored. -/
def xdrAttrstat : Nat := 1
def clntRes : Nat := 1

def maxWrite (ng : NFSGlobal) : Nat := min ng.ngMaxWriteSize nfsMaxdata

/-- The request of `nfsproc_send_writesb_2`. -/
def writesbRequest (auth : Auth) (wargs : WriteArgs) : Request where
  proc := nfsprocWrite
  auth := auth
  xargs xdrs := let r := xdrWriteargssb xdrs wargs; (r.1, r.2.1)
  xresults := xdrAttrstat
  resultsp := clntRes
  userdata := 0
  block := wargs.data

/-- The request of `nfsproc_write_2`. -/
def writeRequest (auth : Auth) (wargs : WriteArgs) : Request where
  proc := nfsprocWrite
  auth := auth
  xargs xdrs := let r := xdrWriteargs xdrs wargs; (r.1, r.2.1)
  xresults := xdrAttrstat
  resultsp := clntRes
  userdata := 0
  block := []

/-- `nfsproc_wait_write_2` on exactly the events `evs`: the result unless the wait failed. -/
def nfsprocWaitWrite2 (cu : McuData) (evs : List (NetEv AttrStat)) :
    Option (Option AttrStat × McuData) :=
  match clntaudpWait cu TIMEOUT evs with
  | some (t, []) =>
      if t.stat = some .success then some (some (t.result.getD ⟨.ok, 0⟩), t.cu)
      else some (none, t.cu)
  | _ => none

/-- What one send or one wait meets. -/
inductive Answer
  | sent (ok : Bool)
  | wait (evs : List (NetEv AttrStat))

/-- The local variables of `nfs_MAWrite`. `buf` is what lies at `Buf` and behind; `sent`
and `ops` record the chunks sent and the operations made on the client. -/
structure MAVars where
  cu : McuData
  wargs : WriteArgs
  offset : UInt32
  buf : List UInt8
  count : Int
  numpending : Int
  fileLen : Int
  sent : List WriteArgs
  ops : List (Op AttrStat)

/-- What a caller of `nfs_MAWrite` sees: the return value, `*Res2` and `*FileLenP` where
they were set, and the client; `rest` are answers not used. -/
structure MAResult where
  ret : Int
  res2 : Option Int
  fileLen : Option Int
  cu : McuData
  sent : List WriteArgs
  ops : List (Op AttrStat)
  rest : List Answer

/-- The length of the next chunk. -/
def chunkLen (ng : NFSGlobal) (count : Int) : Int :=
  if count < maxWrite ng then count else maxWrite ng

/-- `wargs` filled for the next chunk. -/
def MAVars.nextArgs (v : MAVars) (ng : NFSGlobal) : WriteArgs :=
  { v.wargs with offset := v.offset, data := v.buf.take (chunkLen ng v.count).toNat }

/-- The variables after the send of a chunk succeeded. -/
def MAVars.afterSend (v : MAVars) (ng : NFSGlobal) (cu : McuData) (auth : Auth) : MAVars :=
  let len := chunkLen ng v.count
  { v with
    cu := cu
    wargs := v.nextArgs ng
    numpending := v.numpending + 1
    buf := v.buf.drop len.toNat
    offset := v.offset + UInt32.ofInt len
    count := v.count - len
    sent := v.sent ++ [v.nextArgs ng]
    ops := v.ops ++ [.sendsb (writesbRequest auth (v.nextArgs ng)) true] }

/-- The variables after a wait returned a result. -/
def MAVars.afterWait (v : MAVars) (cu : McuData) (evs : List (NetEv AttrStat))
    (res : AttrStat) : MAVars :=
  { v with
    cu := cu
    fileLen := long (max res.size (ulong v.fileLen))
    numpending := v.numpending - 1
    ops := v.ops ++ evs.map (.waitTurn TIMEOUT) }

/-- The loop of `nfs_MAWrite`; `waited` says that this turn has done its wait. Unlike the failures
of a wait, that of a send does not abort what is pending. -/
def maLoop (ng : NFSGlobal) (auth : Auth) (argCount : Int) :
    List Answer → Bool → MAVars → Option MAResult
  | env, waited, v =>
    if v.count = 0 ∧ v.numpending = 0 then
      some ⟨argCount, none, some v.fileLen, v.cu, v.sent, v.ops, env⟩
    else if waited = false ∧ (ng.ngNumWRPCs ≤ v.numpending ∨ v.count = 0) then
      match env with
      | .wait evs :: env =>
          match nfsprocWaitWrite2 v.cu evs with
          | none => none
          | some (none, cu) =>
              some ⟨-1, some (client2IoErr (clntaudpAbort cu)), none, clntaudpAbort cu, v.sent,
                v.ops ++ evs.map (.waitTurn TIMEOUT) ++ [.abort], env⟩
          | some (some res, cu) =>
              if res.status ≠ .ok then
                some ⟨-1, some (nfsErr2IoErrCont res.status .write), none, clntaudpAbort cu,
                  v.sent, v.ops ++ evs.map (.waitTurn TIMEOUT) ++ [.abort], env⟩
              else maLoop ng auth argCount env (v.count ≠ 0) (v.afterWait cu evs res)
      | _ => none
    else
      match env with
      | .sent ok :: env =>
          let x := clntaudpSendsb v.cu (writesbRequest auth (v.nextArgs ng)) ok
          if x.1 ≠ .timedOut then
            some ⟨-1, some (client2IoErr x.2.1), none, x.2.1, v.sent,
              v.ops ++ [.sendsb (writesbRequest auth (v.nextArgs ng)) ok], env⟩
          else maLoop ng auth argCount env false (v.afterSend ng x.2.1 auth)
      | _ => none

/-- `nfs_MAWrite` of the bytes `buf` at `offset`. `wargs` is the local variable before
anything was stored in it. -/
def nfsMAWrite (ng : NFSGlobal) (cu : McuData) (auth : Auth) (fh : List UInt8)
    (wargs : WriteArgs) (offset : UInt32) (buf : List UInt8) (env : List Answer) :
    Option MAResult :=
  maLoop ng auth (long buf.length) env false
    ⟨cu, { wargs with file := fh }, offset, buf, long buf.length, 0, 0, [], []⟩

/-- What one `clnt_call` meets. -/
structure Attempt where
  sent : Bool
  evs : List (NetEv AttrStat)

/-- What one call of `nfsproc_write_2` meets. Behind a timeout comes the next of `again` as long as
`RPCTimeoutReq` is answered with "Retry". -/
structure CallAnswer extends Attempt where
  again : List Attempt

structure MWResult where
  ret : Int
  res2 : Option Int
  fileLen : Option Int
  cu : McuData
  sent : List WriteArgs

/-- `ch_clnt_call`: a call that timed out is made once more if the user says so. -/
def chClntCall (cu : McuData) (r : Request) :
    Attempt → List Attempt → Option (ClntStat × McuData × Option AttrStat)
  | a, [] => clntaudpCall cu r TIMEOUT a.sent a.evs
  | a, next :: again =>
      match clntaudpCall cu r TIMEOUT a.sent a.evs with
      | none => none
      | some (stat, cu, result) =>
          if stat = .success ∨ cu.mcuError ≠ .timedOut then some (stat, cu, result)
          else chClntCall cu r next again

/-- `nfsproc_write_2`: the result unless the call failed. -/
def nfsprocWrite2 (cu : McuData) (auth : Auth) (wargs : WriteArgs) (a : CallAnswer) :
    Option (Option AttrStat × McuData) :=
  match chClntCall cu (writeRequest auth wargs) a.toAttempt a.again with
  | none => none
  | some (stat, cu, result) =>
      some (if stat = .success then some (result.getD ⟨.ok, 0⟩) else none, cu)

/-- The loop of `nfs_MWrite`; `res` is the last result. -/
def mwLoop (ng : NFSGlobal) (auth : Auth) (argCount : Int) :
    List CallAnswer → McuData → WriteArgs → UInt32 → List UInt8 → Int → Option AttrStat →
    List WriteArgs → Option MWResult
  | env, cu, wargs, offset, buf, count, res, sent =>
    if count = 0 then
      some ⟨argCount, none, res.map fun r => long r.size, cu, sent⟩
    else
      match env with
      | [] => none
      | a :: env =>
          let len := chunkLen ng (ulong count)
          let wargs := { wargs with offset := offset, data := buf.take len.toNat }
          match nfsprocWrite2 cu auth wargs a with
          | none => none
          | some (none, cu) => some ⟨-1, some (client2IoErr cu), none, cu, sent⟩
          | some (some res, cu) =>
              if res.status ≠ .ok then
                some ⟨-1, some (nfsErr2IoErrCont res.status .write), none, cu, sent⟩
              else
                mwLoop ng auth argCount env cu wargs (offset + UInt32.ofInt len)
                  (buf.drop len.toNat) (count - len) (some res) (sent ++ [wargs])

/-- `nfs_MWrite` of the bytes `buf` at `offset`. -/
def nfsMWrite (ng : NFSGlobal) (cu : McuData) (auth : Auth) (fh : List UInt8)
    (wargs : WriteArgs) (offset : UInt32) (buf : List UInt8) (env : List CallAnswer) :
    Option MWResult :=
  mwLoop ng auth (long buf.length) env cu { wargs with file := fh } offset buf
    (long buf.length) none []

/-- Offset and data of a write. -/
def writeKey (w : WriteArgs) : UInt32 × List UInt8 := (w.offset, w.data)

/-- A block cut into pieces of at most `m` bytes. -/
def chunks (m : Nat) (offset : UInt32) (buf : List UInt8) : List (UInt32 × List UInt8) :=
  if buf = [] ∨ m = 0 then []
  else (offset, buf.take m) ::
    chunks m (offset + UInt32.ofNat (min m buf.length)) (buf.drop m)
termination_by buf.length
decreasing_by
  rename_i h
  have hpos : 0 < buf.length := List.length_pos_iff.mpr fun hb => h (.inl hb)
  simp only [List.length_drop]
  omega

theorem chunks_nil (m : Nat) (offset : UInt32) : chunks m offset [] = [] := by
  rw [chunks, if_pos (.inl rfl)]

theorem chunks_cons {m : Nat} (hm : 0 < m) (offset : UInt32) {buf : List UInt8}
    (hbuf : buf ≠ []) : chunks m offset buf = (offset, buf.take m) ::
      chunks m (offset + UInt32.ofNat (min m buf.length)) (buf.drop m) := by
  rw [chunks, if_neg]
  rintro (h | h)
  · exact hbuf h
  · omega

/-- The pieces put together are the block. -/
theorem chunks_flatMap {m : Nat} (hm : 0 < m) (offset : UInt32) (buf : List UInt8) :
    (chunks m offset buf).flatMap (·.2) = buf := by
  induction offset, buf using chunks.induct (m := m) with
  | case1 offset buf h =>
      rcases h with rfl | h
      · simp [chunks_nil]
      · omega
  | case2 offset buf h ih =>
      rw [chunks_cons hm offset fun hb => h (.inl hb)]
      simp [ih]

/-- Each piece starts where the one before it ends. -/
def Contiguous : UInt32 → List (UInt32 × List UInt8) → Prop
  | _, [] => True
  | offset, (o, d) :: rest =>
      o = offset ∧ d ≠ [] ∧ Contiguous (offset + UInt32.ofNat d.length) rest

theorem chunks_contiguous {m : Nat} (hm : 0 < m) (offset : UInt32) (buf : List UInt8) :
    Contiguous offset (chunks m offset buf) := by
  induction offset, buf using chunks.induct (m := m) with
  | case1 offset buf h => rw [chunks, if_pos h]; trivial
  | case2 offset buf h ih =>
      have hbuf : buf ≠ [] := fun hb => h (.inl hb)
      rw [chunks_cons hm offset hbuf]
      refine ⟨rfl, fun ht => ?_, by simpa using ih⟩
      rw [List.take_eq_nil_iff] at ht
      rcases ht with ht | ht
      · omega
      · exact hbuf ht

/-- Where a piece lies in the block. -/
theorem mem_chunks {m : Nat} (hm : 0 < m) {offset o : UInt32} {buf d : List UInt8}
    (h : (o, d) ∈ chunks m offset buf) :
    ∃ j, j + d.length ≤ buf.length ∧ o = offset + UInt32.ofNat j ∧
      ∀ i, i < d.length → d[i]? = buf[j + i]? := by
  induction offset, buf using chunks.induct (m := m) with
  | case1 offset buf hb => rw [chunks, if_pos hb] at h; simp at h
  | case2 offset buf hb ih =>
      rw [chunks_cons hm offset fun hn => hb (.inl hn)] at h
      rcases List.mem_cons.mp h with heq | hmem
      · obtain ⟨rfl, rfl⟩ := Prod.mk.inj heq
        refine ⟨0, by rw [List.length_take]; omega, by simp, fun i hi => ?_⟩
        simp only [List.length_take] at hi
        rw [List.getElem?_take_of_lt (by omega), Nat.zero_add]
      · obtain ⟨j, hj, ho, hd⟩ := ih hmem
        simp only [List.length_drop] at hj
        refine ⟨min m buf.length + j, by omega, ?_, fun i hi => ?_⟩
        · rw [ho, UInt32.ofNat_add, UInt32.add_assoc]
        · rw [hd i hi, List.getElem?_drop]
          congr 1
          omega

/-- A file as the server keeps it; bytes behind the end read as they would after a write
further out. -/
structure SrvFile where
  bytes : Nat → UInt8
  size : Nat

/-- The bytes a write request changes. -/
def keyPatch (w : UInt32 × List UInt8) : Patch Nat UInt8 := fun x =>
  if w.1.toNat ≤ x then w.2[x - w.1.toNat]? else none

def keyEnd (w : UInt32 × List UInt8) : Nat := w.1.toNat + w.2.length

/-- The server executes one write. -/
def SrvFile.write (f : SrvFile) (w : UInt32 × List UInt8) : SrvFile :=
  { bytes := (keyPatch w).apply f.bytes, size := max f.size (keyEnd w) }

def SrvFile.writeAll (f : SrvFile) (ws : List (UInt32 × List UInt8)) : SrvFile :=
  ws.foldl SrvFile.write f

theorem SrvFile.writeAll_bytes (f : SrvFile) (ws : List (UInt32 × List UInt8)) :
    (f.writeAll ws).bytes = applyAll (ws.map keyPatch) f.bytes := by
  induction ws generalizing f with
  | nil => rfl
  | cons w ws ih => exact ih (f.write w)

theorem SrvFile.writeAll_size_le {f : SrvFile} {ws : List (UInt32 × List UInt8)} {n : Nat} :
    (f.writeAll ws).size ≤ n ↔ f.size ≤ n ∧ ∀ w ∈ ws, keyEnd w ≤ n := by
  induction ws generalizing f with
  | nil => simp [SrvFile.writeAll]
  | cons w ws ih =>
      have h := ih (f := f.write w)
      simp only [SrvFile.writeAll, List.foldl_cons] at h ⊢
      rw [h, List.forall_mem_cons, ← and_assoc]
      simp only [SrvFile.write, Nat.max_le]

/-- Pieces of one block agree wherever they overlap. -/
theorem chunks_agree {m : Nat} (hm : 0 < m) {offset : UInt32} {buf : List UInt8}
    (hlen : buf.length < 4294967296) {v w : UInt32 × List UInt8}
    (hv : v ∈ chunks m offset buf) (hw : w ∈ chunks m offset buf) {x : Nat} {y z : UInt8}
    (hy : keyPatch v x = some y) (hz : keyPatch w x = some z) : y = z := by
  have key : ∀ {u : UInt32 × List UInt8} {t : UInt8}, u ∈ chunks m offset buf →
      keyPatch u x = some t → ∃ k, buf[k]? = some t ∧ x % 4294967296 =
        (offset.toNat + k) % 4294967296 := by
    intro u t hu ht
    obtain ⟨j, hj, ho, hd⟩ := mem_chunks (d := u.2) hm hu
    simp only [keyPatch] at ht
    split at ht
    · rename_i hle
      have hi := (List.getElem?_eq_some_iff.mp ht).1
      refine ⟨j + (x - u.1.toNat), by rw [← hd _ hi]; exact ht, ?_⟩
      have hnat : u.1.toNat = (offset.toNat + j) % 4294967296 := by
        rw [ho, UInt32.toNat_add, UInt32.toNat_ofNat']
        omega
      omega
    · cases ht
  obtain ⟨k, hk, hkx⟩ := key hv hy
  obtain ⟨l, hl, hlx⟩ := key hw hz
  have hkl := (List.getElem?_eq_some_iff.mp hk).1
  have hll := (List.getElem?_eq_some_iff.mp hl).1
  have : k = l := by omega
  subst this
  exact Option.some.inj (hk.symm.trans hl)

/-- The pieces of a block may be written in any order, and any of them repeatedly. -/
theorem SrvFile.writeAll_chunks {m : Nat} (hm : 0 < m) {offset : UInt32} {buf : List UInt8}
    (hlen : buf.length < 4294967296) {ex : List (UInt32 × List UInt8)}
    (hex : ∀ w, w ∈ ex ↔ w ∈ chunks m offset buf) (f : SrvFile) :
    f.writeAll ex = f.writeAll (chunks m offset buf) := by
  have hbytes : (f.writeAll ex).bytes = (f.writeAll (chunks m offset buf)).bytes := by
    simp only [SrvFile.writeAll_bytes]
    refine applyAll_eq_of_mem_iff (fun p => ?_) ?_ f.bytes
    · simp only [List.mem_map, hex]
    · intro p hp q hq x y z hy hz
      obtain ⟨v, hv, rfl⟩ := List.mem_map.mp hp
      obtain ⟨w, hw, rfl⟩ := List.mem_map.mp hq
      exact chunks_agree hm hlen ((hex v).mp hv) ((hex w).mp hw) hy hz
  have hsize : (f.writeAll ex).size = (f.writeAll (chunks m offset buf)).size := by
    refine Nat.le_antisymm ?_ ?_
    · obtain ⟨h1, h2⟩ := SrvFile.writeAll_size_le.mp
        (Nat.le_refl (f.writeAll (chunks m offset buf)).size)
      exact SrvFile.writeAll_size_le.mpr ⟨h1, fun w hw => h2 w ((hex w).mp hw)⟩
    · obtain ⟨h1, h2⟩ := SrvFile.writeAll_size_le.mp (Nat.le_refl (f.writeAll ex).size)
      exact SrvFile.writeAll_size_le.mpr ⟨h1, fun w hw => h2 w ((hex w).mpr hw)⟩
  cases hf : f.writeAll ex
  cases hg : f.writeAll (chunks m offset buf)
  simp_all

end Anfs.Nfs
