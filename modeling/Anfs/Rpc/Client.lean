import Anfs.Xdr

/-!
# The asynchronous RPC client

One client owns a few slots. A slot keeps the output buffer of the request it
carries; everything in front of the XDR position of that buffer is what a
retransmission sends. The transaction id is the first word of the buffer.

System calls are answered by the environment: `sent` tells whether the socket took
a datagram, a `NetEv` what `select` and `recvfrom` gave. The reply header is decoded
by the RPC library, so a received datagram comes with the outcome of that.
-/
namespace Anfs.Rpc
open Anfs.Lib Anfs.Xdr

inductive ClntStat
  | success
  | cantEncodeArgs
  | cantDecodeRes
  | cantSend
  | cantRecv
  | timedOut
  | versMismatch
  | authError
  | progUnavail
  | progVersMismatch
  | procUnavail
  | cantDecodeArgs
  | systemError
  | failed
  deriving DecidableEq, Repr

/-- The numbers of `enum clnt_stat`. -/
def ClntStat.toInt : ClntStat → Int
  | success => 0
  | cantEncodeArgs => 1
  | cantDecodeRes => 2
  | cantSend => 3
  | cantRecv => 4
  | timedOut => 5
  | versMismatch => 6
  | authError => 7
  | progUnavail => 8
  | progVersMismatch => 9
  | procUnavail => 10
  | cantDecodeArgs => 11
  | systemError => 12
  | failed => 16

structure Timeval where
  tvSec : Int
  tvUsec : Int
  deriving DecidableEq, Repr

/-- The loop that carries whole seconds is a division. -/
def addTimeval (t1 t2 : Timeval) : Timeval :=
  let usec := t1.tvUsec + t2.tvUsec
  if usec < 1000000 then ⟨t1.tvSec + t2.tvSec, usec⟩
  else ⟨t1.tvSec + t2.tvSec + usec / 1000000, usec % 1000000⟩

def lessTimeval (t1 t2 : Timeval) : Bool :=
  t1.tvSec < t2.tvSec || (t1.tvSec == t2.tvSec && t1.tvUsec < t2.tvUsec)

/-- One slot. `scuOutbuf` holds the bytes in front of the stream's position. -/
structure ScuData where
  scuInuse : Bool
  scuOutbuf : List UInt8
  scuResultsp : Nat
  scuUserdata : Nat
  scuTimeWaited : Timeval
  scuNrefreshes : Nat
  deriving DecidableEq, Repr

/-- The private data of a client together with the two result fields of `CLIENT_AUDP`.
`callhdr` is the part of the call header after the transaction id, which creation
writes into every output buffer. -/
structure McuData where
  mcuScu : List ScuData
  mcuNumfreescu : Nat
  mcuWait : Timeval
  mcuTotal : Timeval
  mcuError : ClntStat
  mcuXresults : Nat
  mcuSendsz : Nat
  callhdr : List UInt8
  claResp : Nat
  claUserdata : Nat
  mcuXid : UInt32
  deriving DecidableEq, Repr

def McuData.mcuNumscu (cu : McuData) : Nat := cu.mcuScu.length

/-- Marshalled credentials and verifier, kept in a buffer of `MAX_AUTH_BYTES`. -/
structure Auth where
  auMarshed : List UInt8
  length_le : auMarshed.length ≤ 400

def authMarshall (auth : Auth) (xdrs : XDR) : Bool × XDR :=
  xdrmemPutbytes xdrs auth.auMarshed auth.auMarshed.length

/-- What a caller passes to a send: procedure, credentials, argument routine applied to
its object, result routine, result pointer, user data and the raw data block. -/
structure Request where
  proc : UInt32
  auth : Auth
  xargs : XDR → Bool × XDR
  xresults : Nat
  resultsp : Nat
  userdata : Nat
  block : List UInt8

/-- The RPC library's verdict on a received datagram. -/
inductive Reply (ρ : Type)
  | undecodable
  | accepted (verfValid : Bool) (result : ρ)
  | refused (stat : ClntStat) (hstat : stat ≠ .success) (refreshed sent : Bool)

/-- One turn of the receive loop as the network and the timer answer it. `cb` is what the
timeout callback answers for a slot; with no callback installed it is constantly false. -/
inductive NetEv (ρ : Type)
  | timeout (cb : Nat → Bool) (sent : Bool)
  | selectErr
  | recvErr (wouldblock : Bool)
  | datagram (inbuf : List UInt8) (reply : Reply ρ)

/-- At most five slots. -/
def maxasync : Nat := 5

/-- `clntaudp_bufcreate`, given the transaction id the clock yields and the call header. -/
def clntaudpBufcreate (wait : Timeval) (sendsz numasync : Nat) (xid : UInt32)
    (callhdr : List UInt8) : Option McuData :=
  if maxasync < numasync then none
  else some {
    mcuNumfreescu := numasync
    mcuXid := xid
    mcuScu := List.replicate numasync ⟨false, be32 xid ++ callhdr, 0, 0, ⟨0, 0⟩, 0⟩
    mcuWait := wait
    mcuTotal := ⟨-1, -1⟩
    mcuError := .success
    mcuXresults := 0
    mcuSendsz := (sendsz + 3) / 4 * 4
    callhdr := callhdr
    claResp := 0
    claUserdata := 0 }

/-- Only the high half of the transaction id is counted up. -/
def nextXid (xid : UInt32) : UInt32 := xid + 65536

/-- Procedure, credentials and arguments, written after the call header. -/
def encodeCall (cu : McuData) (r : Request) : Bool × List UInt8 :=
  let xdrs := xdrmemEncode (cu.mcuSendsz - (4 + cu.callhdr.length : Nat))
  match xdrmemPutlong xdrs r.proc with
  | (false, xdrs) => (false, xdrs.xBase)
  | (true, xdrs) =>
      match authMarshall r.auth xdrs with
      | (false, xdrs) => (false, xdrs.xBase)
      | (true, xdrs) => let e := r.xargs xdrs; (e.1, e.2.xBase)

/-- The output buffer a send leaves in its slot. -/
def outbuf (cu : McuData) (r : Request) : List UInt8 :=
  be32 (nextXid cu.mcuXid) ++ cu.callhdr ++ (encodeCall cu r).2

def McuData.setScu (cu : McuData) (i : Nat) (s : ScuData) : McuData :=
  { cu with mcuScu := cu.mcuScu.set i s }

@[simp] theorem McuData.setScu_mcuScu (cu : McuData) (i : Nat) (s : ScuData) :
    (cu.setScu i s).mcuScu = cu.mcuScu.set i s := rfl

@[simp] theorem McuData.setScu_mcuNumfreescu (cu : McuData) (i : Nat) (s : ScuData) :
    (cu.setScu i s).mcuNumfreescu = cu.mcuNumfreescu := rfl

/-- The first slot that is not in use. -/
def freeScu (cu : McuData) : Option Nat := cu.mcuScu.findIdx? fun s => !s.scuInuse

/-- The slot as it is filled before the message is encoded, with the encoded message. -/
def loadScu (cu : McuData) (r : Request) : ScuData :=
  { scuInuse := false, scuOutbuf := outbuf cu r, scuResultsp := r.resultsp,
    scuUserdata := r.userdata, scuTimeWaited := ⟨0, 0⟩, scuNrefreshes := 2 }

/-- The client with slot `i` loaded and the transaction id counted up. -/
def McuData.load (cu : McuData) (i : Nat) (r : Request) : McuData :=
  { cu with
    mcuScu := cu.mcuScu.set i (loadScu cu r)
    mcuXid := nextXid cu.mcuXid
    mcuXresults := r.xresults }

/-- The client once the loaded slot `i` is in use. -/
def McuData.occupy (cu : McuData) (i : Nat) (r : Request) : McuData :=
  { cu.load i r with
    mcuScu := cu.mcuScu.set i { loadScu cu r with scuInuse := true }
    mcuNumfreescu := cu.mcuNumfreescu - 1 }

def McuData.fail (cu : McuData) (stat : ClntStat) : McuData := { cu with mcuError := stat }

/-- Status, client and the datagram handed to the socket. `timedOut` means success. -/
def clntaudpSendsb (cu : McuData) (r : Request) (sent : Bool) :
    ClntStat × McuData × Option (List UInt8) :=
  if cu.mcuNumfreescu = 0 then (.cantEncodeArgs, cu.fail .cantEncodeArgs, none)
  else
    match freeScu cu with
    | none => (.cantEncodeArgs, cu.fail .cantEncodeArgs, none)
    | some i =>
        if cu.mcuNumfreescu ≠ cu.mcuNumscu ∧ cu.mcuXresults ≠ r.xresults then
          (.cantDecodeArgs, cu.fail .cantDecodeArgs, none)
        else if (encodeCall cu r).1 = false then
          (.cantEncodeArgs, (cu.load i r).fail .cantEncodeArgs, none)
        else if sent = false then
          (.cantSend, (cu.load i r).fail .cantSend, some (outbuf cu r ++ r.block))
        else (.timedOut, (cu.occupy i r).fail .timedOut, some (outbuf cu r ++ r.block))

def clntaudpSend (cu : McuData) (r : Request) (sent : Bool) :
    ClntStat × McuData × Option (List UInt8) :=
  clntaudpSendsb cu { r with block := [] } sent

/-- The total timeout of a wait or a call. -/
def effTimeout (cu : McuData) (utimeout : Timeval) : Timeval :=
  if cu.mcuTotal.tvUsec = -1 then utimeout else cu.mcuTotal

/-- The scan after a retry timeout, from slot `i` on: it charges each slot in use that it
passes and stops at the first that has time left or whose callback grants more. -/
def timeoutScan (wait timeout : Timeval) (cb : Nat → Bool) :
    Nat → List ScuData → List ScuData × Option Nat
  | _, [] => ([], none)
  | i, s :: rest =>
      if s.scuInuse then
        let s' := { s with scuTimeWaited := addTimeval s.scuTimeWaited wait }
        if lessTimeval s'.scuTimeWaited timeout || cb i then (s' :: rest, some i)
        else let r := timeoutScan wait timeout cb (i + 1) rest; (s' :: r.1, r.2)
      else let r := timeoutScan wait timeout cb (i + 1) rest; (s :: r.1, r.2)

/-- The first slot in use whose transaction id is the first word of `inbuf`. -/
def matchScu (cu : McuData) (inbuf : List UInt8) : Option Nat :=
  cu.mcuScu.findIdx? fun s => s.scuInuse && inbuf.take 4 == s.scuOutbuf.take 4

/-- What one turn of the loop of `clntaudp_wait` does: the client after it, the status if
it returned, the slot it freed with the result stored for it, the datagram it resent. -/
structure Turn (ρ : Type) where
  cu : McuData
  stat : Option ClntStat
  freed : Option Nat
  result : Option ρ
  resent : Option (Nat × List UInt8)

def McuData.freeSlot (cu : McuData) (i : Nat) (s : ScuData) (stat : ClntStat) : McuData :=
  { cu.setScu i { s with scuInuse := false } with
    mcuNumfreescu := cu.mcuNumfreescu + 1, mcuError := stat }

/-- The end of `clntaudp_wait`, once slot `i` holding `s` is matched by a reply. A refreshed
credential would need a new packet: the call gives up, the slot stays. -/
def deliver {ρ : Type} (cu : McuData) (i : Nat) (s : ScuData) (reply : Reply ρ) : Turn ρ :=
  let cu := { cu with claResp := s.scuResultsp, claUserdata := s.scuUserdata }
  match reply with
  | .undecodable => ⟨cu.freeSlot i s .cantDecodeRes, some .cantDecodeRes, some i, none, none⟩
  | .accepted true result => ⟨cu.freeSlot i s .success, some .success, some i, some result, none⟩
  | .accepted false result =>
      ⟨cu.freeSlot i s .authError, some .authError, some i, some result, none⟩
  | .refused stat _ refreshed _ =>
      if 0 < s.scuNrefreshes ∧ refreshed = true then
        ⟨{ cu.setScu i { s with scuNrefreshes := s.scuNrefreshes - 1 } with
          mcuError := .cantEncodeArgs }, some .cantEncodeArgs, none, none, none⟩
      else ⟨cu.freeSlot i s stat, some stat, some i, none, none⟩

def waitTurn {ρ : Type} (cu : McuData) (utimeout : Timeval) : NetEv ρ → Turn ρ
  | .timeout cb sent =>
      let r := timeoutScan cu.mcuWait (effTimeout cu utimeout) cb 0 cu.mcuScu
      let cu' := { cu with mcuScu := r.1 }
      match r.2 with
      | none => ⟨{ cu' with mcuError := .timedOut }, some .timedOut, none, none, none⟩
      | some i =>
          let resent := cu'.mcuScu[i]?.map fun s => (i, s.scuOutbuf)
          if sent then ⟨cu', none, none, none, resent⟩
          else ⟨{ cu' with mcuError := .cantSend }, some .cantSend, none, none, resent⟩
  | .selectErr => ⟨{ cu with mcuError := .cantRecv }, some .cantRecv, none, none, none⟩
  | .recvErr true => ⟨cu, none, none, none, none⟩
  | .recvErr false => ⟨{ cu with mcuError := .cantRecv }, some .cantRecv, none, none, none⟩
  | .datagram inbuf reply =>
      if inbuf.length < 4 then ⟨cu, none, none, none, none⟩
      else
        match matchScu cu inbuf with
        | none => ⟨cu, none, none, none, none⟩
        | some i =>
            match cu.mcuScu[i]? with
            | none => ⟨cu, none, none, none, none⟩
            | some s => deliver cu i s reply

/-- `clntaudp_wait`: turns until one returns. `none` while it is still waiting. -/
def clntaudpWait {ρ : Type} (cu : McuData) (utimeout : Timeval) :
    List (NetEv ρ) → Option (Turn ρ × List (NetEv ρ))
  | [] => none
  | ev :: evs =>
      let t := waitTurn cu utimeout ev
      match t.stat with
      | some _ => some (t, evs)
      | none => clntaudpWait t.cu utimeout evs

def clntaudpAbort (cu : McuData) : McuData :=
  { cu with
    mcuNumfreescu := cu.mcuNumfreescu + cu.mcuScu.countP fun s => s.scuInuse
    mcuScu := cu.mcuScu.map fun s => { s with scuInuse := false } }

/-- `call_again:` of `clntaudp_call`: the message is encoded in slot 0. -/
def callEncode (cu : McuData) (r : Request) : Bool × McuData :=
  match cu.mcuScu[0]? with
  | none => (false, cu)
  | some s =>
      ((encodeCall cu r).1,
        { cu.setScu 0 { s with scuOutbuf := outbuf cu r } with mcuXid := nextXid cu.mcuXid })

/-- Does the reply carry the transaction id in slot 0? -/
def callMatches (cu : McuData) (inbuf : List UInt8) : Bool :=
  match cu.mcuScu[0]? with
  | none => false
  | some s => inbuf.take 4 == s.scuOutbuf.take 4

/-- The receive loop of `clntaudp_call`. -/
def callLoop {ρ : Type} (r : Request) (timeout : Timeval) :
    List (NetEv ρ) → McuData → Timeval → Nat → Option (ClntStat × McuData × Option ρ)
  | [], _, _, _ => none
  | ev :: evs, cu, waited, nrefreshes =>
      let ret (stat : ClntStat) (result : Option ρ) :=
        some (stat, { cu with mcuError := stat }, result)
      match ev with
      | .timeout _ sent =>
          let waited := addTimeval waited cu.mcuWait
          if lessTimeval waited timeout then
            if sent then callLoop r timeout evs cu waited nrefreshes else ret .cantSend none
          else ret .timedOut none
      | .selectErr => ret .cantRecv none
      | .recvErr true => callLoop r timeout evs cu waited nrefreshes
      | .recvErr false => ret .cantRecv none
      | .datagram inbuf reply =>
          if inbuf.length < 4 ∨ callMatches cu inbuf = false then
            callLoop r timeout evs cu waited nrefreshes
          else
            match reply with
            | .undecodable => ret .cantDecodeRes none
            | .accepted true result => ret .success (some result)
            | .accepted false result => ret .authError (some result)
            | .refused stat _ refreshed sent =>
                if 0 < nrefreshes ∧ refreshed = true then
                  let e := callEncode cu r
                  if e.1 = false then
                    some (.cantEncodeArgs, { e.2 with mcuError := .cantEncodeArgs }, none)
                  else if sent = false then
                    some (.cantSend, { e.2 with mcuError := .cantSend }, none)
                  else callLoop r timeout evs e.2 waited (nrefreshes - 1)
                else ret stat none

/-- `clntaudp_call`: it always works in slot 0. `none` while it is still waiting. -/
def clntaudpCall {ρ : Type} (cu : McuData) (r : Request) (utimeout : Timeval) (sent : Bool)
    (evs : List (NetEv ρ)) : Option (ClntStat × McuData × Option ρ) :=
  let timeout := effTimeout cu utimeout
  let e := callEncode cu r
  if e.1 = false then some (.cantEncodeArgs, { e.2 with mcuError := .cantEncodeArgs }, none)
  else if sent = false then some (.cantSend, { e.2 with mcuError := .cantSend }, none)
  else if timeout = ⟨0, 0⟩ then some (.timedOut, { e.2 with mcuError := .timedOut }, none)
  else callLoop r timeout evs e.2 ⟨0, 0⟩ 2

/-- A slot without the two fields that only pace retransmissions. -/
def ScuData.settle (s : ScuData) : ScuData :=
  { s with scuTimeWaited := ⟨0, 0⟩, scuNrefreshes := 0 }

@[simp] theorem ScuData.settle_scuInuse (s : ScuData) : s.settle.scuInuse = s.scuInuse := rfl

@[simp] theorem ScuData.settle_scuOutbuf (s : ScuData) : s.settle.scuOutbuf = s.scuOutbuf := rfl

theorem freeScu_eq_some {cu : McuData} {i : Nat} (h : freeScu cu = some i) :
    ∃ s, cu.mcuScu[i]? = some s ∧ s.scuInuse = false := by
  obtain ⟨hi, hfree, -⟩ := List.findIdx?_eq_some_iff_getElem.mp h
  exact ⟨cu.mcuScu[i], List.getElem?_eq_getElem hi, by simpa using hfree⟩

theorem matchScu_eq_some {cu : McuData} {inbuf : List UInt8} {i : Nat}
    (h : matchScu cu inbuf = some i) :
    ∃ s, cu.mcuScu[i]? = some s ∧ s.scuInuse = true ∧ inbuf.take 4 = s.scuOutbuf.take 4 := by
  obtain ⟨hi, hmatch, -⟩ := List.findIdx?_eq_some_iff_getElem.mp h
  simp only [Bool.and_eq_true, beq_iff_eq] at hmatch
  exact ⟨cu.mcuScu[i], List.getElem?_eq_getElem hi, hmatch.1, hmatch.2⟩

/-- The scan only charges time. -/
theorem timeoutScan_settle (wait timeout : Timeval) (cb : Nat → Bool) (i : Nat)
    (l : List ScuData) :
    (timeoutScan wait timeout cb i l).1.map ScuData.settle = l.map ScuData.settle := by
  induction l generalizing i with
  | nil => rfl
  | cons s rest ih =>
      simp only [timeoutScan]
      split
      · split
        · rfl
        · simp only [List.map_cons, ih]; rfl
      · simp only [List.map_cons, ih]

/-- The slot picked for a retransmission is in use. -/
theorem timeoutScan_pick {wait timeout : Timeval} {cb : Nat → Bool} {i j : Nat}
    {l : List ScuData} (h : (timeoutScan wait timeout cb i l).2 = some j) :
    ∃ k s, j = i + k ∧ l[k]? = some s ∧ s.scuInuse = true := by
  induction l generalizing i with
  | nil => simp [timeoutScan] at h
  | cons s rest ih =>
      simp only [timeoutScan] at h
      split at h
      · rename_i huse
        split at h
        · exact ⟨0, s, by simpa using h.symm, rfl, huse⟩
        · obtain ⟨k, t, rfl, hk, ht⟩ := ih h
          exact ⟨k + 1, t, by omega, hk, ht⟩
      · obtain ⟨k, t, rfl, hk, ht⟩ := ih h
        exact ⟨k + 1, t, by omega, hk, ht⟩

theorem getElem?_of_map_settle {l l' : List ScuData}
    (h : l'.map ScuData.settle = l.map ScuData.settle)
    {i : Nat} {s' : ScuData} (hs : l'[i]? = some s') :
    ∃ s, l[i]? = some s ∧ s'.settle = s.settle := by
  have hi := congrArg (fun m => m[i]?) h
  simp only [List.getElem?_map, hs, Option.map_some] at hi
  cases hl : l[i]? with
  | none => simp [hl] at hi
  | some s => exact ⟨s, rfl, by simpa [hl] using hi⟩

theorem countP_of_map_settle {l l' : List ScuData}
    (h : l'.map ScuData.settle = l.map ScuData.settle) :
    (l'.countP fun s => !s.scuInuse) = l.countP fun s => !s.scuInuse := by
  have hc := congrArg (List.countP fun s : ScuData => !s.scuInuse) h
  simpa [List.countP_map, Function.comp_def] using hc

/-- A send that reports an error leaves every slot in use alone. -/
structure SendFailed (cu : McuData) (r : Request) (cu' : McuData) : Prop where
  numfree : cu'.mcuNumfreescu = cu.mcuNumfreescu
  scu : cu'.mcuScu = cu.mcuScu ∨ ∃ i s, cu.mcuScu[i]? = some s ∧ s.scuInuse = false ∧
    cu'.mcuScu = cu.mcuScu.set i (loadScu cu r)

/-- A successful send occupies the first free slot. -/
structure SendDone (cu : McuData) (r : Request) (cu' : McuData) (i : Nat) : Prop where
  free : freeScu cu = some i
  pos : 0 < cu.mcuNumfreescu
  numfree : cu'.mcuNumfreescu = cu.mcuNumfreescu - 1
  scu : cu'.mcuScu = cu.mcuScu.set i { loadScu cu r with scuInuse := true }
  xresults : cu'.mcuXresults = r.xresults

theorem clntaudpSendsb_cases (cu : McuData) (r : Request) (sent : Bool) :
    ((clntaudpSendsb cu r sent).1 ≠ .timedOut ∧ SendFailed cu r (clntaudpSendsb cu r sent).2.1) ∨
    ((clntaudpSendsb cu r sent).1 = .timedOut ∧
      (∃ i, SendDone cu r (clntaudpSendsb cu r sent).2.1 i) ∧
      (clntaudpSendsb cu r sent).2.2 = some (outbuf cu r ++ r.block)) := by
  by_cases h0 : cu.mcuNumfreescu = 0
  · simp only [clntaudpSendsb, if_pos h0]
    exact .inl ⟨by simp, ⟨rfl, .inl rfl⟩⟩
  · cases hf : freeScu cu with
    | none =>
        simp only [clntaudpSendsb, if_neg h0, hf]
        exact .inl ⟨by simp, ⟨rfl, .inl rfl⟩⟩
    | some i =>
        obtain ⟨s, hs, hfree⟩ := freeScu_eq_some hf
        have hload : ∀ stat, SendFailed cu r ((cu.load i r).fail stat) := fun stat =>
          ⟨by simp [McuData.load, McuData.fail],
            .inr ⟨i, s, hs, hfree, by simp [McuData.load, McuData.fail]⟩⟩
        simp only [clntaudpSendsb, if_neg h0, hf]
        split
        · exact .inl ⟨by simp, ⟨rfl, .inl rfl⟩⟩
        · split
          · exact .inl ⟨by simp, hload _⟩
          · split
            · exact .inl ⟨by simp, hload _⟩
            · refine .inr ⟨rfl, ⟨i, hf, Nat.pos_of_ne_zero h0, ?_, ?_, ?_⟩, rfl⟩
              · simp [McuData.occupy, McuData.fail]
              · simp [McuData.occupy, McuData.fail]
              · simp [McuData.occupy, McuData.load, McuData.fail]

/-- With a slot free, results of the same type pending and a message that fits, a send
fails only with the socket. -/
theorem clntaudpSendsb_timedOut_iff {cu : McuData} {r : Request} (sent : Bool)
    (hnum : cu.mcuNumfreescu = cu.mcuScu.countP fun s => !s.scuInuse)
    (hpos : 0 < cu.mcuNumfreescu)
    (hres : cu.mcuNumfreescu ≠ cu.mcuNumscu → cu.mcuXresults = r.xresults)
    (henc : (encodeCall cu r).1 = true) :
    (clntaudpSendsb cu r sent).1 = .timedOut ↔ sent = true := by
  have hfree : ∃ i, freeScu cu = some i := by
    cases hf : freeScu cu with
    | some i => exact ⟨i, rfl⟩
    | none =>
        obtain ⟨s, hs, huse⟩ := List.countP_pos_iff.mp (hnum ▸ hpos)
        have := List.findIdx?_eq_none_iff.mp hf s hs
        simp [huse] at this
  obtain ⟨i, hf⟩ := hfree
  have hx : ¬(cu.mcuNumfreescu ≠ cu.mcuNumscu ∧ cu.mcuXresults ≠ r.xresults) := fun h =>
    h.2 (hres h.1)
  simp only [clntaudpSendsb, if_neg (Nat.ne_of_gt hpos), hf, if_neg hx, henc]
  cases sent <;> simp

/-- A turn that frees no slot keeps every slot up to its timers. -/
structure TurnKeeps {ρ : Type} (cu : McuData) (t : Turn ρ) : Prop where
  freed : t.freed = none
  stat : t.stat ≠ some .success
  numfree : t.cu.mcuNumfreescu = cu.mcuNumfreescu
  scu : t.cu.mcuScu.map ScuData.settle = cu.mcuScu.map ScuData.settle

/-- A turn that frees slot `i` has matched its transaction id and hands out its pointers. -/
structure TurnFrees {ρ : Type} (cu : McuData) (ev : NetEv ρ) (t : Turn ρ) (i : Nat)
    (s : ScuData) : Prop where
  freed : t.freed = some i
  slot : cu.mcuScu[i]? = some s
  inuse : s.scuInuse = true
  xid : ∃ inbuf reply, ev = .datagram inbuf reply ∧ inbuf.take 4 = s.scuOutbuf.take 4
  numfree : t.cu.mcuNumfreescu = cu.mcuNumfreescu + 1
  scu : t.cu.mcuScu = cu.mcuScu.set i { s with scuInuse := false }
  resp : t.cu.claResp = s.scuResultsp
  userdata : t.cu.claUserdata = s.scuUserdata
  returned : t.stat ≠ none

theorem set_map_settle {l : List ScuData} {i : Nat} {s s' : ScuData} (hs : l[i]? = some s)
    (h : s'.settle = s.settle) : (l.set i s').map ScuData.settle = l.map ScuData.settle := by
  rw [List.map_set, h]
  apply List.ext_getElem?
  intro j
  rw [List.getElem?_set]
  split
  · rename_i hij
    subst hij
    split
    · simp [hs]
    · rename_i hlt
      exact (List.getElem?_eq_none (by simpa using hlt)).symm
  · rfl

theorem deliver_cases {ρ : Type} {cu : McuData} {inbuf : List UInt8} {i : Nat} {s : ScuData}
    (reply : Reply ρ) (hs : cu.mcuScu[i]? = some s) (huse : s.scuInuse = true)
    (hxid : inbuf.take 4 = s.scuOutbuf.take 4) :
    TurnKeeps cu (deliver cu i s reply) ∨
      TurnFrees cu (.datagram inbuf reply) (deliver cu i s reply) i s := by
  have hx : ∃ inbuf' reply', NetEv.datagram inbuf reply = NetEv.datagram inbuf' reply' ∧
      inbuf'.take 4 = s.scuOutbuf.take 4 := ⟨inbuf, reply, rfl, hxid⟩
  cases reply with
  | undecodable => exact .inr ⟨rfl, hs, huse, hx, rfl, rfl, rfl, rfl, by simp [deliver]⟩
  | accepted verfValid result =>
      cases verfValid with
      | true => exact .inr ⟨rfl, hs, huse, hx, rfl, rfl, rfl, rfl, by simp [deliver]⟩
      | false => exact .inr ⟨rfl, hs, huse, hx, rfl, rfl, rfl, rfl, by simp [deliver]⟩
  | refused stat hstat refreshed sent =>
      by_cases hr : 0 < s.scuNrefreshes ∧ refreshed = true
      · simp only [deliver, if_pos hr]
        exact .inl ⟨rfl, by simp, rfl, set_map_settle hs rfl⟩
      · simp only [deliver, if_neg hr]
        exact .inr ⟨rfl, hs, huse, hx, rfl, rfl, rfl, rfl, by simp⟩

theorem waitTurn_cases {ρ : Type} (cu : McuData) (utimeout : Timeval) (ev : NetEv ρ) :
    TurnKeeps cu (waitTurn cu utimeout ev) ∨
      ∃ i s, TurnFrees cu ev (waitTurn cu utimeout ev) i s := by
  cases ev with
  | timeout cb sent =>
      refine .inl ?_
      have hscan := timeoutScan_settle cu.mcuWait (effTimeout cu utimeout) cb 0 cu.mcuScu
      simp only [waitTurn]
      split
      · exact ⟨rfl, by simp, rfl, hscan⟩
      · split
        · exact ⟨rfl, by simp, rfl, hscan⟩
        · exact ⟨rfl, by simp, rfl, hscan⟩
  | selectErr => exact .inl ⟨rfl, by simp [waitTurn], rfl, rfl⟩
  | recvErr wouldblock =>
      cases wouldblock with
      | true => exact .inl ⟨rfl, by simp [waitTurn], rfl, rfl⟩
      | false => exact .inl ⟨rfl, by simp [waitTurn], rfl, rfl⟩
  | datagram inbuf reply =>
      simp only [waitTurn]
      split
      · exact .inl ⟨rfl, by simp, rfl, rfl⟩
      · cases hm : matchScu cu inbuf with
        | none => exact .inl ⟨rfl, by simp, rfl, rfl⟩
        | some i =>
            obtain ⟨s, hs, huse, hxid⟩ := matchScu_eq_some hm
            simp only [hs]
            rcases deliver_cases reply hs huse hxid with h | h
            · exact .inl h
            · exact .inr ⟨i, s, h⟩

@[simp] theorem deliver_resent {ρ : Type} (cu : McuData) (i : Nat) (s : ScuData)
    (reply : Reply ρ) : (deliver cu i s reply).resent = none := by
  cases reply with
  | undecodable => rfl
  | accepted verfValid result => cases verfValid <;> rfl
  | refused stat hstat refreshed sent => simp only [deliver]; split <;> rfl

/-- What a send reports is kept as the client's error, and is never `RPC_SUCCESS`. -/
theorem clntaudpSendsb_error (cu : McuData) (r : Request) (sent : Bool) :
    (clntaudpSendsb cu r sent).2.1.mcuError = (clntaudpSendsb cu r sent).1 ∧
      (clntaudpSendsb cu r sent).1 ≠ .success := by
  simp only [clntaudpSendsb]
  split
  · simp [McuData.fail]
  · split
    · simp [McuData.fail]
    · split
      · simp [McuData.fail]
      · split
        · simp [McuData.fail]
        · split
          · simp [McuData.fail]
          · simp [McuData.fail]

theorem waitTurn_error {ρ : Type} {cu : McuData} {utimeout : Timeval} {ev : NetEv ρ}
    {stat : ClntStat} (h : (waitTurn cu utimeout ev).stat = some stat) :
    (waitTurn cu utimeout ev).cu.mcuError = stat := by
  cases ev with
  | timeout cb sent =>
      simp only [waitTurn] at h ⊢
      split
      · rename_i hp
        simpa [hp] using h
      · rename_i i hp
        cases sent <;> simp_all
  | selectErr => simpa [waitTurn] using h
  | recvErr wouldblock => cases wouldblock <;> simp_all [waitTurn]
  | datagram inbuf reply =>
      simp only [waitTurn] at h ⊢
      split at h
      · simp at h
      · rename_i hlen
        rw [if_neg hlen]
        cases hm : matchScu cu inbuf with
        | none => simp [hm] at h
        | some i =>
            obtain ⟨s, hs, -⟩ := matchScu_eq_some hm
            simp only [hm, hs] at h ⊢
            cases reply with
            | undecodable => simpa [deliver, McuData.freeSlot] using h
            | accepted verfValid result =>
                cases verfValid <;> simpa [deliver, McuData.freeSlot] using h
            | refused st hst refreshed sent =>
                simp only [deliver] at h ⊢
                split
                · rename_i hr
                  simpa [hr] using h
                · rename_i hr
                  simpa [if_neg hr, McuData.freeSlot] using h

theorem clntaudpWait_error {ρ : Type} {cu : McuData} {utimeout : Timeval} {t : Turn ρ}
    {evs rest : List (NetEv ρ)} (h : clntaudpWait cu utimeout evs = some (t, rest)) :
    t.stat = some t.cu.mcuError := by
  induction evs generalizing cu with
  | nil => simp [clntaudpWait] at h
  | cons ev evs ih =>
      simp only [clntaudpWait] at h
      cases hst : (waitTurn cu utimeout ev).stat with
      | some st =>
          simp only [hst, Option.some.injEq, Prod.mk.injEq] at h
          obtain ⟨rfl, -⟩ := h
          rw [hst, waitTurn_error hst]
      | none =>
          simp only [hst] at h
          exact ih h

/-- A successful turn has stored a result. -/
theorem waitTurn_result {ρ : Type} {cu : McuData} {utimeout : Timeval} {ev : NetEv ρ}
    (h : (waitTurn cu utimeout ev).stat = some .success) :
    (waitTurn cu utimeout ev).result ≠ none := by
  cases ev with
  | timeout cb sent =>
      simp only [waitTurn] at h
      split at h
      · simp at h
      · split at h <;> simp at h
  | selectErr => simp [waitTurn] at h
  | recvErr wouldblock => cases wouldblock <;> simp [waitTurn] at h
  | datagram inbuf reply =>
      simp only [waitTurn] at h ⊢
      split at h
      · simp at h
      · rename_i hlen
        rw [if_neg hlen]
        cases hm : matchScu cu inbuf with
        | none => simp [hm] at h
        | some i =>
            obtain ⟨s, hs, -⟩ := matchScu_eq_some hm
            simp only [hm, hs] at h ⊢
            cases reply with
            | undecodable => simp [deliver] at h
            | accepted verfValid result =>
                cases verfValid with
                | true => simp [deliver]
                | false => simp [deliver] at h
            | refused stat hstat refreshed sent =>
                simp only [deliver] at h
                split at h
                · simp at h
                · exact absurd (Option.some.inj h) hstat

/-- What creation fixed once and for all: the buffer size, the call header, the number of
slots; and the result routine, which only a send changes. -/
structure SameSetup (cu cu' : McuData) : Prop where
  sendsz : cu'.mcuSendsz = cu.mcuSendsz
  callhdr : cu'.callhdr = cu.callhdr
  numscu : cu'.mcuNumscu = cu.mcuNumscu

theorem SameSetup.trans {a b c : McuData} (hab : SameSetup a b) (hbc : SameSetup b c) :
    SameSetup a c :=
  ⟨hbc.sendsz.trans hab.sendsz, hbc.callhdr.trans hab.callhdr, hbc.numscu.trans hab.numscu⟩

theorem clntaudpSendsb_setup (cu : McuData) (r : Request) (sent : Bool) :
    SameSetup cu (clntaudpSendsb cu r sent).2.1 := by
  have hload : ∀ i stat, SameSetup cu ((cu.load i r).fail stat) := fun i stat => by
    constructor <;> simp [McuData.mcuNumscu, McuData.load, McuData.fail]
  have hocc : ∀ i stat, SameSetup cu ((cu.occupy i r).fail stat) := fun i stat => by
    constructor <;> simp [McuData.mcuNumscu, McuData.occupy, McuData.load, McuData.fail]
  have hfail : ∀ stat, SameSetup cu (cu.fail stat) := fun stat => by
    constructor <;> simp [McuData.mcuNumscu, McuData.fail]
  simp only [clntaudpSendsb]
  split
  · exact hfail _
  · split
    · exact hfail _
    · split
      · exact hfail _
      · split
        · exact hload _ _
        · split
          · exact hload _ _
          · exact hocc _ _

theorem waitTurn_setup {ρ : Type} (cu : McuData) (utimeout : Timeval) (ev : NetEv ρ) :
    SameSetup cu (waitTurn cu utimeout ev).cu ∧
      (waitTurn cu utimeout ev).cu.mcuXresults = cu.mcuXresults := by
  have hscan : ∀ cb, ((timeoutScan cu.mcuWait (effTimeout cu utimeout) cb 0 cu.mcuScu).1).length =
      cu.mcuScu.length := fun cb => by
    simpa using congrArg List.length
      (timeoutScan_settle cu.mcuWait (effTimeout cu utimeout) cb 0 cu.mcuScu)
  cases ev with
  | timeout cb sent =>
      simp only [waitTurn]
      split
      · exact ⟨⟨rfl, rfl, hscan cb⟩, rfl⟩
      · split
        · exact ⟨⟨rfl, rfl, hscan cb⟩, rfl⟩
        · exact ⟨⟨rfl, rfl, hscan cb⟩, rfl⟩
  | selectErr => exact ⟨⟨rfl, rfl, rfl⟩, rfl⟩
  | recvErr wouldblock => cases wouldblock <;> exact ⟨⟨rfl, rfl, rfl⟩, rfl⟩
  | datagram inbuf reply =>
      simp only [waitTurn]
      split
      · exact ⟨⟨rfl, rfl, rfl⟩, rfl⟩
      · split
        · exact ⟨⟨rfl, rfl, rfl⟩, rfl⟩
        · split
          · exact ⟨⟨rfl, rfl, rfl⟩, rfl⟩
          · cases reply with
            | undecodable =>
                exact ⟨⟨rfl, rfl, by simp [deliver, McuData.freeSlot, McuData.mcuNumscu]⟩, rfl⟩
            | accepted verfValid result =>
                cases verfValid <;>
                  exact ⟨⟨rfl, rfl, by simp [deliver, McuData.freeSlot, McuData.mcuNumscu]⟩, rfl⟩
            | refused stat hstat refreshed sent =>
                simp only [deliver]
                split
                · exact ⟨⟨rfl, rfl, by simp [McuData.mcuNumscu]⟩, rfl⟩
                · exact ⟨⟨rfl, rfl, by simp [McuData.freeSlot, McuData.mcuNumscu]⟩, rfl⟩

/-- A resent datagram is the output buffer of the slot the scan picked. -/
theorem waitTurn_resent {ρ : Type} {cu : McuData} {utimeout : Timeval} {ev : NetEv ρ} {i : Nat}
    {bytes : List UInt8} (h : (waitTurn cu utimeout ev).resent = some (i, bytes)) :
    ∃ cb sent s, ev = .timeout cb sent ∧
      (timeoutScan cu.mcuWait (effTimeout cu utimeout) cb 0 cu.mcuScu).2 = some i ∧
      cu.mcuScu[i]? = some s ∧ s.scuInuse = true ∧ bytes = s.scuOutbuf := by
  cases ev with
  | timeout cb sent =>
      simp only [waitTurn] at h
      cases hp : (timeoutScan cu.mcuWait (effTimeout cu utimeout) cb 0 cu.mcuScu).2 with
      | none => simp [hp] at h
      | some j =>
          have hres : (((timeoutScan cu.mcuWait (effTimeout cu utimeout) cb 0 cu.mcuScu).1)[j]?.map
              fun s => (j, s.scuOutbuf)) = some (i, bytes) := by
            cases sent <;> simpa [hp] using h
          obtain ⟨s', hs', heq⟩ := Option.map_eq_some_iff.mp hres
          obtain ⟨rfl, rfl⟩ := Prod.mk.injEq .. ▸ heq
          obtain ⟨s, hs, hset⟩ := getElem?_of_map_settle
            (timeoutScan_settle cu.mcuWait (effTimeout cu utimeout) cb 0 cu.mcuScu) hs'
          obtain ⟨k, t, hk, ht, huse⟩ := timeoutScan_pick hp
          simp only [Nat.zero_add] at hk
          subst hk
          rw [hs] at ht
          obtain rfl := Option.some.inj ht
          exact ⟨cb, sent, s, rfl, hp, hs, huse, congrArg (·.scuOutbuf) hset⟩
  | selectErr => simp [waitTurn] at h
  | recvErr wouldblock => cases wouldblock <;> simp [waitTurn] at h
  | datagram inbuf reply =>
      simp only [waitTurn] at h
      split at h
      · simp at h
      · cases hm : matchScu cu inbuf with
        | none => simp [hm] at h
        | some j =>
            obtain ⟨s, hs, -⟩ := matchScu_eq_some hm
            simp [hm, hs] at h

/-- Aborting frees every slot. -/
theorem clntaudpAbort_numfree {cu : McuData}
    (h : cu.mcuNumfreescu = cu.mcuScu.countP fun s => !s.scuInuse) :
    (clntaudpAbort cu).mcuNumfreescu = cu.mcuNumscu := by
  have hsplit := List.length_eq_countP_add_countP (fun s : ScuData => s.scuInuse) (l := cu.mcuScu)
  simp only [clntaudpAbort, h, McuData.mcuNumscu]
  simp only [Bool.not_eq_true, Bool.decide_eq_false] at hsplit
  omega

/-- The synchronous call works in slot 0 alone and does not count it. -/
structure CallSteps (cu cu' : McuData) : Prop where
  numfree : cu'.mcuNumfreescu = cu.mcuNumfreescu
  scu : cu'.mcuScu = cu.mcuScu ∨ ∃ s ob, cu.mcuScu[0]? = some s ∧
    cu'.mcuScu = cu.mcuScu.set 0 { s with scuOutbuf := ob }

theorem CallSteps.refl (cu : McuData) : CallSteps cu cu := ⟨rfl, .inl rfl⟩

theorem CallSteps.trans {a b c : McuData} (hab : CallSteps a b) (hbc : CallSteps b c) :
    CallSteps a c := by
  refine ⟨hbc.numfree.trans hab.numfree, ?_⟩
  rcases hab.scu with h1 | ⟨s, ob, hs, h1⟩
  · rcases hbc.scu with h2 | ⟨t, ob', ht, h2⟩
    · exact .inl (h2.trans h1)
    · rw [h1] at ht h2
      exact .inr ⟨t, ob', ht, h2⟩
  · rcases hbc.scu with h2 | ⟨t, ob', ht, h2⟩
    · exact .inr ⟨s, ob, hs, h2.trans h1⟩
    · rw [h1] at ht h2
      have hlt : 0 < a.mcuScu.length := (List.getElem?_eq_some_iff.mp hs).1
      rw [List.getElem?_set_self hlt] at ht
      obtain rfl := Option.some.inj ht
      exact .inr ⟨s, ob', hs, by rw [h2, List.set_set]⟩

theorem callEncode_steps (cu : McuData) (r : Request) : CallSteps cu (callEncode cu r).2 := by
  cases hs : cu.mcuScu[0]? with
  | none =>
      simp only [callEncode, hs]
      exact .refl cu
  | some s =>
      simp only [callEncode, hs]
      exact ⟨rfl, .inr ⟨s, outbuf cu r, hs, rfl⟩⟩

theorem callLoop_steps {ρ : Type} {r : Request} {timeout : Timeval} {evs : List (NetEv ρ)}
    {cu cu' : McuData} {waited : Timeval} {nrefreshes : Nat} {stat : ClntStat}
    {result : Option ρ}
    (h : callLoop r timeout evs cu waited nrefreshes = some (stat, cu', result)) :
    CallSteps cu cu' := by
  induction evs generalizing cu waited nrefreshes with
  | nil => simp [callLoop] at h
  | cons ev evs ih =>
      have hret : ∀ {st : ClntStat} {res : Option ρ},
          some (st, { cu with mcuError := st }, res) = some (stat, cu', result) →
          CallSteps cu cu' := by
        intro st res he
        cases he
        exact ⟨rfl, .inl rfl⟩
      cases ev with
      | timeout cb sent =>
          simp only [callLoop] at h
          split at h
          · split at h
            · exact ih h
            · exact hret h
          · exact hret h
      | selectErr =>
          simp only [callLoop] at h
          exact hret h
      | recvErr wouldblock =>
          cases wouldblock with
          | true =>
              simp only [callLoop] at h
              exact ih h
          | false =>
              simp only [callLoop] at h
              exact hret h
      | datagram inbuf reply =>
          simp only [callLoop] at h
          split at h
          · exact ih h
          · cases reply with
            | undecodable => exact hret h
            | accepted verfValid res => cases verfValid <;> exact hret h
            | refused st hst refreshed sent =>
                have henc := callEncode_steps cu r
                simp only at h
                split at h
                · split at h
                  · cases h
                    exact henc.trans ⟨rfl, .inl rfl⟩
                  · split at h
                    · cases h
                      exact henc.trans ⟨rfl, .inl rfl⟩
                    · exact henc.trans (ih h)
                · exact hret h

theorem clntaudpCall_steps {ρ : Type} {cu cu' : McuData} {r : Request} {utimeout : Timeval}
    {sent : Bool} {evs : List (NetEv ρ)} {stat : ClntStat} {result : Option ρ}
    (h : clntaudpCall cu r utimeout sent evs = some (stat, cu', result)) : CallSteps cu cu' := by
  have henc := callEncode_steps cu r
  simp only [clntaudpCall] at h
  split at h
  · cases h
    exact henc.trans ⟨rfl, .inl rfl⟩
  · split at h
    · cases h
      exact henc.trans ⟨rfl, .inl rfl⟩
    · split at h
      · cases h
        exact henc.trans ⟨rfl, .inl rfl⟩
      · exact henc.trans (callLoop_steps h)

end Anfs.Rpc
