import Anfs.Nfs.Write

/-!
# Asynchronous writes over a whole call

The requests of one call are numbered from zero in the ledger. While the loop runs, every
chunk sent is either pending in a slot or acknowledged, and the number of pending
requests is the number of slots in use.
-/
namespace Anfs.Nfs
open Anfs.Lib Anfs.Xdr Anfs.Rpc

/-- A client made by `clntaudp_create` on which no request is pending. -/
structure IdleClient (cu : McuData) : Prop where
  numfree : cu.mcuNumfreescu = cu.mcuNumscu
  idle : ∀ s ∈ cu.mcuScu, s.scuInuse = false
  sendsz : cu.mcuSendsz = 8800
  callhdr : cu.callhdr.length = 16

/-- Request number `id` was `req` and was answered with `NFS_OK` by a reply to it. -/
def Acked (n : Node AttrStat) (id : Nat) (req : Request) : Prop :=
  ∃ d ∈ n.led.deliveries, ∃ p, d.req = some p ∧ p.id = id ∧ p.req = req ∧
    d.inbuf.take 4 = p.stored.take 4 ∧ ∃ res, d.result = some res ∧ res.status = .ok

/-- The client and its ledger after the operations `ops`. -/
def replay (cu : McuData) (ops : List (Op AttrStat)) : Node AttrStat :=
  run Node.step (Node.fresh cu) ops

def Answer.isWait : Answer → Bool
  | .wait _ => true
  | .sent _ => false

/-- What the callers of `nfs_MAWrite` rely on, for the call that met `env` and ended in `r`. -/
structure AsyncWriteOk (ng : NFSGlobal) (cu : McuData) (auth : Auth) (fh : List UInt8)
    (offset : UInt32) (buf : List UInt8) (env : List Answer) (r : MAResult) : Prop where
  replayed : (replay cu r.ops).cu = r.cu
  covers : r.ret = buf.length → Contiguous offset (r.sent.map writeKey) ∧
    (r.sent.map writeKey).flatMap (·.2) = buf
  acked : r.ret = buf.length → ∀ k w, r.sent[k]? = some w →
    Acked (replay cu r.ops) k (writesbRequest auth w)
  clean : r.ret = buf.length → (∀ a ∈ env, a ≠ .sent false) ∧
    env.countP Answer.isWait = (replay cu r.ops).led.deliveries.length
  failed : r.ret ≠ buf.length → r.ret = -1 ∧ ∃ e, r.res2 = some e ∧ e ≠ 0
  none_pending : ∀ i, (replay cu r.ops).led.slots i = none
  same_file : r.ret = buf.length → ∀ cuS wargsS envS rS,
    nfsMWrite ng cuS auth fh wargsS offset buf envS = some rS → rS.ret = buf.length →
    ∀ (f : SrvFile) ex, (∀ w, w ∈ ex ↔ w ∈ r.sent.map writeKey) →
      f.writeAll ex = f.writeAll (rS.sent.map writeKey)

/-- The message of a write always fits. -/
theorem encodeCall_writesb {cu : McuData} (hsz : cu.mcuSendsz = 8800)
    (hhdr : cu.callhdr.length = 16) (auth : Auth) {w : WriteArgs} (hw : w.WF) :
    (encodeCall cu (writesbRequest auth w)).1 = true := by
  have hauth := auth.length_le
  have hroom : (xdrmemEncode ((cu.mcuSendsz : Int) - (4 + cu.callhdr.length : Nat))).xHandy =
      8780 := by
    simp only [xdrmemEncode, hsz, hhdr]
    omega
  have hop : (xdrmemEncode ((cu.mcuSendsz : Int) - (4 + cu.callhdr.length : Nat))).xOp =
      .encode := rfl
  simp only [encodeCall]
  generalize xdrmemEncode ((cu.mcuSendsz : Int) - (4 + cu.callhdr.length : Nat)) = xdrs at *
  rw [xdrmemPutlong_eq xdrs _ (by omega) (by omega)]
  simp only [authMarshall, writesbRequest]
  rw [xdrmemPutbytes_eq _ _ _ (Nat.le_refl _) (by simp; omega) (by simp; omega)]
  simp only
  rw [xdrWriteargssb_encode _ w (by simpa using hop) hw (by simp; omega) (by simp; omega)]

theorem IdleClient.inv {cu : McuData} (h : IdleClient cu) :
    (Node.fresh cu : Node AttrStat).Inv where
  numfree := by
    rw [show (Node.fresh cu : Node AttrStat).cu = cu from rfl, h.numfree, McuData.mcuNumscu]
    exact (List.countP_eq_length.mpr fun s hs => by simp [h.idle s hs]).symm
  occupies i s hs := h.idle s (List.mem_of_getElem? hs)
  outside _ _ := rfl
  id_lt := by simp [Node.fresh]
  distinct := by simp [Node.fresh]
  faithful := by simp [Node.fresh]
  old := by simp [Node.fresh]
  once := by simp [Node.fresh]
  wire := by simp [Node.fresh]

section Loop
variable {ng : NFSGlobal} {auth : Auth} {cu₀ : McuData} {fh : List UInt8} {offset : UInt32}
  {buf : List UInt8}

/-- The loop invariant of `nfs_MAWrite`. -/
structure MAInv (ng : NFSGlobal) (auth : Auth) (cu₀ : McuData) (fh : List UInt8)
    (offset : UInt32) (buf : List UInt8) (v : MAVars) : Prop where
  cu : (replay cu₀ v.ops).cu = v.cu
  inv : (replay cu₀ v.ops).Inv
  setup : SameSetup cu₀ v.cu
  numpending : v.numpending + v.cu.mcuNumfreescu = v.cu.mcuNumscu
  count : v.count = v.buf.length
  file : v.wargs.file = fh
  next : (replay cu₀ v.ops).led.next = v.sent.length
  cover : v.sent.map writeKey ++ chunks (maxWrite ng) v.offset v.buf =
    chunks (maxWrite ng) offset buf
  requests : ∀ k w, v.sent[k]? = some w →
    (∃ i p, (replay cu₀ v.ops).led.slots i = some p ∧ p.id = k ∧
      p.req = writesbRequest auth w) ∨ Acked (replay cu₀ v.ops) k (writesbRequest auth w)
  xresults : v.cu.mcuNumfreescu ≠ v.cu.mcuNumscu → v.cu.mcuXresults = xdrAttrstat
  busy : v.sent ≠ [] → v.count ≠ 0 → 1 ≤ v.numpending

theorem replay_append (cu : McuData) (ops ops' : List (Op AttrStat)) :
    replay cu (ops ++ ops') = run Node.step (replay cu ops) ops' := run_append _ _ _ _

theorem MAInv.initial (hcu : IdleClient cu₀) (hlen : buf.length < 2147483648)
    (wargs : WriteArgs) : MAInv ng auth cu₀ fh offset buf
      ⟨cu₀, { wargs with file := fh }, offset, buf, long buf.length, 0, 0, [], []⟩ where
  cu := rfl
  inv := hcu.inv
  setup := ⟨rfl, rfl, rfl⟩
  numpending := by simp [hcu.numfree]
  count := long_of_isLong ⟨by omega, by omega⟩
  file := rfl
  next := rfl
  cover := rfl
  requests := by simp
  xresults h := absurd hcu.numfree h
  busy h := absurd rfl h

theorem chunkLen_eq (ng : NFSGlobal) (n : Nat) :
    chunkLen ng (n : Int) = (min (maxWrite ng) n : Nat) := by
  unfold chunkLen
  split <;> omega

theorem MAInv.numpending_nonneg {v : MAVars} (h : MAInv ng auth cu₀ fh offset buf v) :
    0 ≤ v.numpending := by
  have hle := h.inv.slotProtocol.numfree_le
  have hnum := h.numpending
  rw [h.cu] at hle
  omega

theorem Acked.mono {n n' : Node AttrStat} {id : Nat} {req : Request} (h : Acked n id req)
    (hsub : ∀ d ∈ n.led.deliveries, d ∈ n'.led.deliveries) : Acked n' id req := by
  obtain ⟨d, hd, hrest⟩ := h
  exact ⟨d, hsub d hd, hrest⟩

theorem ofInt_natCast (n : Nat) : UInt32.ofInt (n : Int) = UInt32.ofNat n := by
  apply UInt32.toNat_inj.mp
  rw [UInt32.ofInt, UInt32.toNat_ofNat', UInt32.toNat_ofNat']
  omega

theorem take_min_length (m : Nat) (bs : List UInt8) :
    bs.take (min m bs.length) = bs.take m := List.take_eq_take_iff.mpr (by omega)

theorem drop_min_length (m : Nat) (bs : List UInt8) :
    bs.drop (min m bs.length) = bs.drop m := List.drop_eq_drop_iff.mpr (by omega)

/-- A successful send keeps the invariant. -/
theorem MAInv.send {v : MAVars} (h : MAInv ng auth cu₀ fh offset buf v) (hm : 0 < maxWrite ng)
    (hbuf : v.buf ≠ [])
    (hstat : (clntaudpSendsb v.cu (writesbRequest auth (v.nextArgs ng)) true).1 = .timedOut) :
    MAInv ng auth cu₀ fh offset buf (v.afterSend ng
      (clntaudpSendsb v.cu (writesbRequest auth (v.nextArgs ng)) true).2.1 auth) ∧
    (replay cu₀ (v.afterSend ng
      (clntaudpSendsb v.cu (writesbRequest auth (v.nextArgs ng)) true).2.1 auth).ops).led.deliveries
      = (replay cu₀ v.ops).led.deliveries := by
  have hcu := h.cu
  rw [← hcu] at hstat ⊢
  obtain ⟨i, hdone, hstep⟩ := Node.step_sendsb_done hstat
  have hslot := h.inv.slots_free hdone.free
  have hops : replay cu₀ (v.afterSend ng (clntaudpSendsb (replay cu₀ v.ops).cu
      (writesbRequest auth (v.nextArgs ng)) true).2.1 auth).ops =
      ⟨(clntaudpSendsb (replay cu₀ v.ops).cu (writesbRequest auth (v.nextArgs ng)) true).2.1,
        (replay cu₀ v.ops).led.occupy i (writesbRequest auth (v.nextArgs ng))
          (outbuf (replay cu₀ v.ops).cu (writesbRequest auth (v.nextArgs ng)))
          (outbuf (replay cu₀ v.ops).cu (writesbRequest auth (v.nextArgs ng)) ++
            (writesbRequest auth (v.nextArgs ng)).block)⟩ := by
    simp only [MAVars.afterSend, replay_append, run_cons, run_nil, hstep]
  have hsetup := clntaudpSendsb_setup (replay cu₀ v.ops).cu
    (writesbRequest auth (v.nextArgs ng)) true
  have hlen : chunkLen ng v.count = (min (maxWrite ng) v.buf.length : Nat) := by
    rw [h.count, chunkLen_eq]
  have hnonneg := h.numpending_nonneg
  refine ⟨⟨by rw [hops]; rfl, ?_, ?_, ?_, ?_, h.file, ?_, ?_, ?_, ?_, ?_⟩, by rw [hops]; rfl⟩
  · rw [hops, ← hstep]
    exact h.inv.sendsb _ _
  · exact (hcu ▸ h.setup).trans hsetup
  · have hpos := hdone.pos
    have hnum := h.numpending
    have hscu := hsetup.numscu
    rw [← hcu] at hnum
    simp only [MAVars.afterSend, hdone.numfree, hscu]
    omega
  · simp only [MAVars.afterSend, hlen, List.length_drop, Int.toNat_natCast]
    rw [h.count]
    omega
  · rw [hops]
    simp [Ledger.occupy, MAVars.afterSend, h.next]
  · have hcover := h.cover
    rw [chunks_cons hm v.offset hbuf] at hcover
    simp only [MAVars.afterSend, hlen, Int.toNat_natCast, List.map_append, List.map_cons,
      List.map_nil, List.append_assoc, List.singleton_append]
    rw [← hcover, ofInt_natCast, drop_min_length]
    simp only [writeKey, MAVars.nextArgs, hlen, Int.toNat_natCast, take_min_length]
  · intro k w hk
    rw [hops]
    simp only [MAVars.afterSend] at hk
    by_cases hlast : k < v.sent.length
    · rw [List.getElem?_append_left hlast] at hk
      rcases h.requests k w hk with ⟨j, p, hp, hid, hreq⟩ | hack
      · have hne : j ≠ i := by
          rintro rfl
          simp [hslot] at hp
        exact .inl ⟨j, p, by simpa [Ledger.occupy, Function.update_of_ne hne] using hp, hid, hreq⟩
      · exact .inr (hack.mono fun d hd => hd)
    · rw [List.getElem?_append_right (by omega)] at hk
      have hk0 : k - v.sent.length = 0 := by
        have := (List.getElem?_eq_some_iff.mp hk).1
        simp only [List.length_singleton] at this
        omega
      rw [hk0, List.getElem?_cons_zero, Option.some.injEq] at hk
      subst hk
      refine .inl ⟨i, _, Function.update_self .., ?_, rfl⟩
      simp only [h.next]
      omega
  · intro _
    exact hdone.xresults
  · intro _ _
    simp only [MAVars.afterSend]
    omega

/-- A wait that hands out a result keeps the invariant. -/
theorem MAInv.wait {v : MAVars} (h : MAInv ng auth cu₀ fh offset buf v)
    {evs : List (NetEv AttrStat)} {res : AttrStat} {cu : McuData}
    (hw : nfsprocWaitWrite2 v.cu evs = some (some res, cu)) (hres : res.status = .ok)
    (hbusy : v.count ≠ 0 → 2 ≤ v.numpending) :
    MAInv ng auth cu₀ fh offset buf (v.afterWait cu evs res) ∧
    (replay cu₀ (v.afterWait cu evs res).ops).led.deliveries.length =
      (replay cu₀ v.ops).led.deliveries.length + 1 := by
  obtain ⟨t, ht, hstat, rfl, rfl⟩ : ∃ t, clntaudpWait v.cu TIMEOUT evs = some (t, []) ∧
      t.stat = some .success ∧ t.result.getD ⟨.ok, 0⟩ = res ∧ t.cu = cu := by
    simp only [nfsprocWaitWrite2] at hw
    split at hw
    · rename_i t heq
      split at hw
      · rename_i hs
        simp only [Option.some.injEq, Prod.mk.injEq] at hw
        exact ⟨t, heq, hs, hw.1, hw.2⟩
      · simp at hw
    · cases hw
  have hops : replay cu₀ (v.afterWait t.cu evs (t.result.getD ⟨.ok, 0⟩)).ops =
      run Node.step (replay cu₀ v.ops) (waitOps TIMEOUT evs) := replay_append _ _ _
  have hran := clntaudpWait_ran h.inv (h.cu ▸ ht)
  rcases hran.outcome with ⟨hne, -⟩ | ⟨i, p, d, hp, hreq, hresult, hdel, hslots, hnum⟩
  · exact absurd hstat hne
  refine ⟨⟨by rw [hops]; exact hran.cu, by rw [hops]; exact hran.inv, ?_, ?_, h.count, h.file,
    ?_, h.cover, ?_, ?_, ?_⟩, by rw [hops, hdel, List.length_cons]⟩
  · have := hran.setup
    rw [hran.cu, h.cu] at this
    exact h.setup.trans this
  · have hv := h.numpending
    have hs := hran.setup.numscu
    rw [hran.cu, h.cu] at hnum hs
    simp only [MAVars.afterWait, hnum, hs]
    omega
  · rw [hops, hran.next, h.next]
    rfl
  · intro k w hk
    rw [hops]
    have hack : p.id = k → p.req = writesbRequest auth w →
        Acked (run Node.step (replay cu₀ v.ops) (waitOps TIMEOUT evs)) k
          (writesbRequest auth w) := by
      intro hid hpreq
      have hmem : d ∈ (run Node.step (replay cu₀ v.ops) (waitOps TIMEOUT evs)).led.deliveries := by
        rw [hdel]
        exact List.mem_cons_self
      obtain ⟨p', hp', hxid, -⟩ := hran.inv.faithful d hmem
      obtain rfl := Option.some.inj (hreq.symm.trans hp')
      refine ⟨d, hmem, p, hreq, hid, hpreq, hxid, ?_⟩
      rw [hresult]
      cases hr : t.result with
      | some res => exact ⟨res, rfl, by simpa [hr] using hres⟩
      | none => exact absurd hr (hran.result hstat)
    rcases h.requests k w hk with ⟨j, q, hq, hid, hqreq⟩ | hold
    · by_cases hj : j = i
      · subst hj
        obtain rfl := Option.some.inj (hq.symm.trans hp)
        exact .inr (hack hid hqreq)
      · exact .inl ⟨j, q, by rw [hslots, Function.update_of_ne hj, hq], hid, hqreq⟩
    · refine .inr (hold.mono fun d' hd' => ?_)
      rw [hdel]
      exact List.mem_cons_of_mem _ hd'
  · intro hne
    have hx := hran.xresults
    have hs := hran.setup.numscu
    rw [hran.cu, h.cu] at hx hs hnum
    refine hx.trans (h.xresults fun hall => ?_)
    have hle := hran.inv.slotProtocol.numfree_le
    rw [hran.cu, hs] at hle
    omega
  · intro _ hcount
    have := hbusy hcount
    simp only [MAVars.afterWait]
    omega

/-- How a call ends that has sent at least one chunk. -/
inductive MAEnds (ng : NFSGlobal) (auth : Auth) (cu₀ : McuData) (fh : List UInt8)
    (offset : UInt32) (buf : List UInt8) (argCount : Int) (env : List Answer) (v : MAVars)
    (r : MAResult) : Prop
  | done (v' : MAVars) (inv : MAInv ng auth cu₀ fh offset buf v') (buf_nil : v'.buf = [])
      (idle : v'.numpending = 0) (ret : r.ret = argCount) (sent : r.sent = v'.sent)
      (ops : r.ops = v'.ops) (cu : r.cu = v'.cu) (sends : ∀ a ∈ env, a ≠ .sent false)
      (waits : (replay cu₀ r.ops).led.deliveries.length =
        (replay cu₀ v.ops).led.deliveries.length + env.countP Answer.isWait)
  | aborted (cu : (replay cu₀ r.ops).cu = r.cu) (ret : r.ret = -1)
      (res2 : ∃ e, r.res2 = some e ∧ e ≠ 0) (sends : ∀ a ∈ env, a ≠ .sent false)
      (idle : ∀ i, (replay cu₀ r.ops).led.slots i = none)
  | left (sends : ∃ a ∈ env, a = .sent false)
      (pending : ∃ i, (replay cu₀ r.ops).led.slots i ≠ none)

theorem MAEnds.cons_wait {argCount : Int} {env : List Answer} {v v' : MAVars} {r : MAResult}
    {evs : List (NetEv AttrStat)} (h : MAEnds ng auth cu₀ fh offset buf argCount env v' r)
    (hdel : (replay cu₀ v'.ops).led.deliveries.length =
      (replay cu₀ v.ops).led.deliveries.length + 1) :
    MAEnds ng auth cu₀ fh offset buf argCount (.wait evs :: env) v r := by
  cases h with
  | done v'' inv buf_nil idle ret sent ops cu sends waits =>
      refine .done v'' inv buf_nil idle ret sent ops cu (by simpa using sends) ?_
      rw [waits, hdel, List.countP_cons_of_pos rfl]
      omega
  | aborted cu ret res2 sends idle => exact .aborted cu ret res2 (by simpa using sends) idle
  | left sends pending =>
      obtain ⟨a, ha, hf⟩ := sends
      exact .left ⟨a, List.mem_cons_of_mem _ ha, hf⟩ pending

theorem MAEnds.cons_sent {argCount : Int} {env : List Answer} {v v' : MAVars} {r : MAResult}
    (h : MAEnds ng auth cu₀ fh offset buf argCount env v' r)
    (hdel : (replay cu₀ v'.ops).led.deliveries = (replay cu₀ v.ops).led.deliveries) :
    MAEnds ng auth cu₀ fh offset buf argCount (.sent true :: env) v r := by
  cases h with
  | done v'' inv buf_nil idle ret sent ops cu sends waits =>
      refine .done v'' inv buf_nil idle ret sent ops cu (by simpa using sends) ?_
      rw [waits, hdel, List.countP_cons_of_neg (by simp [Answer.isWait])]
  | aborted cu ret res2 sends idle => exact .aborted cu ret res2 (by simpa using sends) idle
  | left sends pending =>
      obtain ⟨a, ha, hf⟩ := sends
      exact .left ⟨a, List.mem_cons_of_mem _ ha, hf⟩ pending

/-- A failed wait aborts everything. -/
theorem MAInv.waitFailed {v : MAVars} (h : MAInv ng auth cu₀ fh offset buf v)
    {evs : List (NetEv AttrStat)} {o : Option AttrStat} {cu : McuData}
    (hw : nfsprocWaitWrite2 v.cu evs = some (o, cu)) :
    (replay cu₀ (v.ops ++ evs.map (.waitTurn TIMEOUT) ++ [.abort])).cu = clntaudpAbort cu ∧
      (∀ i, (replay cu₀ (v.ops ++ evs.map (.waitTurn TIMEOUT) ++ [.abort])).led.slots i =
        none) ∧ (o = none → cu.mcuError ≠ .success) := by
  obtain ⟨t, ht, hcu, herr⟩ : ∃ t, clntaudpWait v.cu TIMEOUT evs = some (t, []) ∧ t.cu = cu ∧
      (o = none → t.stat ≠ some .success) := by
    simp only [nfsprocWaitWrite2] at hw
    split at hw
    · rename_i t heq
      split at hw
      · simp only [Option.some.injEq, Prod.mk.injEq] at hw
        exact ⟨t, heq, hw.2, by rw [← hw.1]; simp⟩
      · rename_i hs
        simp only [Option.some.injEq, Prod.mk.injEq] at hw
        exact ⟨t, heq, hw.2, fun _ => hs⟩
    · cases hw
  have hran := clntaudpWait_ran h.inv (h.cu ▸ ht)
  have hops : replay cu₀ (v.ops ++ evs.map (.waitTurn TIMEOUT) ++ [.abort]) =
      Node.step (run Node.step (replay cu₀ v.ops) (waitOps TIMEOUT evs)) .abort := by
    simp only [replay_append, run_cons, run_nil, waitOps]
  refine ⟨?_, fun i => by rw [hops]; rfl, fun ho hs => herr ho ?_⟩
  · rw [hops, ← hcu, ← hran.cu]
    rfl
  · rw [clntaudpWait_error ht, hcu, hs]

/-- A send in the loop has a free slot and a message that fits. -/
theorem MAInv.send_iff {v : MAVars} (h : MAInv ng auth cu₀ fh offset buf v)
    (hcu : IdleClient cu₀) (hfh : fh.length = nfsFhsize)
    (hlt : v.numpending < (cu₀.mcuNumscu : Int)) (ok : Bool) :
    (clntaudpSendsb v.cu (writesbRequest auth (v.nextArgs ng)) ok).1 = .timedOut ↔ ok = true := by
  have hinv := h.inv.numfree
  have hnum := h.numpending
  have hscu := h.setup.numscu
  rw [h.cu] at hinv
  refine clntaudpSendsb_timedOut_iff ok hinv (by omega) h.xresults ?_
  refine encodeCall_writesb (h.setup.sendsz.trans hcu.sendsz) (by rw [h.setup.callhdr, hcu.callhdr])
    auth ⟨by simp [MAVars.nextArgs, h.file, hfh], ?_⟩
  simp only [MAVars.nextArgs, h.count, chunkLen_eq, Int.toNat_natCast, List.length_take, maxWrite]
  omega

theorem maLoop_ends (hcu : IdleClient cu₀) (hfh : fh.length = nfsFhsize)
    (hm : 0 < maxWrite ng) (htwo : 2 ≤ ng.ngNumWRPCs) (hle : ng.ngNumWRPCs ≤ cu₀.mcuNumscu)
    {argCount : Int} {env : List Answer} {waited : Bool} {v : MAVars} {r : MAResult}
    (h : MAInv ng auth cu₀ fh offset buf v) (hsent : v.sent ≠ [])
    (hpend : v.numpending ≤ ng.ngNumWRPCs)
    (hwaited : waited = true → v.count ≠ 0 ∧ v.numpending < ng.ngNumWRPCs)
    (hr : maLoop ng auth argCount env waited v = some r) (hrest : r.rest = []) :
    MAEnds ng auth cu₀ fh offset buf argCount env v r := by
  induction env generalizing waited v with
  | nil =>
      unfold maLoop at hr
      split at hr
      · rename_i hdone
        cases hr
        refine .done v h ?_ hdone.2 rfl rfl rfl rfl (by simp) (by simp)
        have := h.count
        exact List.eq_nil_of_length_eq_zero (by omega)
      · split at hr <;> cases hr
  | cons a env ih =>
      unfold maLoop at hr
      split at hr
      · cases hr
        simp at hrest
      · rename_i hgo
        split at hr
        · rename_i hwait
          cases a with
          | sent ok => cases hr
          | wait evs =>
              simp only at hr
              split at hr
              · cases hr
              · rename_i cu hw
                cases hr
                obtain ⟨hcu', hidle, herr⟩ := h.waitFailed hw
                obtain rfl : env = [] := hrest
                exact .aborted hcu' rfl ⟨_, rfl, client2IoErr_ne_zero (herr rfl)⟩ (by simp) hidle
              · rename_i res cu hw
                split at hr
                · rename_i hst
                  cases hr
                  obtain ⟨hcu', hidle, -⟩ := h.waitFailed hw
                  obtain rfl : env = [] := hrest
                  exact .aborted hcu' rfl ⟨_, rfl, nfsErr2IoErrCont_ne_zero hst _⟩ (by simp) hidle
                · rename_i hst
                  have hbusy : v.count ≠ 0 → 2 ≤ v.numpending := by
                    intro hc
                    rcases hwait.2 with h2 | h2
                    · omega
                    · exact absurd h2 hc
                  obtain ⟨hinv, hdel⟩ := h.wait hw (by simpa using hst) hbusy
                  refine (ih hinv hsent ?_ ?_ hr).cons_wait hdel
                  · simp only [MAVars.afterWait]
                    omega
                  · intro hc
                    refine ⟨by simpa [MAVars.afterWait] using hc, ?_⟩
                    simp only [MAVars.afterWait]
                    omega
        · rename_i hnowait
          cases a with
          | wait evs => cases hr
          | sent ok =>
              have hlt : v.count ≠ 0 ∧ v.numpending < ng.ngNumWRPCs := by
                cases waited with
                | true => exact hwaited rfl
                | false =>
                    simp only [true_and, not_or] at hnowait
                    exact ⟨hnowait.2, Int.not_le.mp hnowait.1⟩
              have hbuf : v.buf ≠ [] := by
                intro hb
                have := h.count
                rw [hb] at this
                exact hlt.1 (by simpa using this)
              have hiff := h.send_iff hcu hfh (by omega) ok
              simp only at hr
              split at hr
              · rename_i hst
                have hok : ok = false := by simpa using fun ht => hst (hiff.mpr ht)
                subst hok
                cases hr
                refine .left ⟨_, List.mem_cons_self, rfl⟩ ?_
                have hstep : replay cu₀ (v.ops ++
                    [.sendsb (writesbRequest auth (v.nextArgs ng)) false]) =
                    Node.step (replay cu₀ v.ops)
                      (.sendsb (writesbRequest auth (v.nextArgs ng)) false) := by
                  simp only [replay_append, run_cons, run_nil]
                rw [hstep, Node.step_sendsb_failed (by rw [h.cu]; exact hst)]
                refine h.inv.exists_pending ?_
                have hnum := h.numpending
                have hbusy := h.busy hsent hlt.1
                rw [h.cu]
                omega
              · rename_i hst
                have hok : ok = true := hiff.mp (by simpa using hst)
                subst hok
                obtain ⟨hinv, hdel⟩ := h.send hm hbuf (by simpa using hst)
                refine (ih hinv ?_ ?_ (by simp) hr).cons_sent hdel
                · simp [MAVars.afterSend]
                · simp only [MAVars.afterSend]
                  omega

end Loop

/-- The loop ends: whatever each send meets, and whatever each wait meets as long as it
returns, some finite list of these answers is used up by a run. -/
theorem maLoop_returns {ng : NFSGlobal} {auth : Auth} (hm : 0 < maxWrite ng)
    (hnum : 0 < ng.ngNumWRPCs) (argCount : Int) (onSend : MAVars → Bool)
    (onWait : MAVars → List (NetEv AttrStat))
    (hreturns : ∀ v, nfsprocWaitWrite2 v.cu (onWait v) ≠ none) (v : MAVars) (waited : Bool)
    (hcount : v.count = v.buf.length) (hpend : 0 ≤ v.numpending)
    (hwaited : waited = true → v.count ≠ 0) :
    ∃ env r, maLoop ng auth argCount env waited v = some r ∧ r.rest = [] ∧
      ∀ a ∈ env, (∃ u, a = .sent (onSend u)) ∨ ∃ u, a = .wait (onWait u) := by
  induction hk : 2 * v.buf.length + v.numpending.toNat using Nat.strong_induction_on
    generalizing v waited with
  | _ k ih =>
      by_cases hdone : v.count = 0 ∧ v.numpending = 0
      · exact ⟨[], _, by unfold maLoop; rw [if_pos hdone], rfl, by simp⟩
      by_cases hw : waited = false ∧ (ng.ngNumWRPCs ≤ v.numpending ∨ v.count = 0)
      · have hone : 1 ≤ v.numpending := by omega
        by_cases hgood : ∃ res cu, nfsprocWaitWrite2 v.cu (onWait v) = some (some res, cu) ∧
            res.status = .ok
        · obtain ⟨res, cu, hret, hst⟩ := hgood
          obtain ⟨env, r, hr, hrest, hall⟩ := ih
            (2 * v.buf.length + (v.numpending - 1).toNat) (by omega)
            (v.afterWait cu (onWait v) res) (v.count ≠ 0) hcount
            (by simp only [MAVars.afterWait]; omega) (by simp [MAVars.afterWait]) rfl
          refine ⟨.wait (onWait v) :: env, r, ?_, hrest, by simpa using hall⟩
          unfold maLoop
          rw [if_neg hdone, if_pos hw]
          simpa only [hret, hst, ne_eq, not_true_eq_false, if_false] using hr
        · obtain ⟨r, hr, hrest⟩ : ∃ r, maLoop ng auth argCount [.wait (onWait v)] waited v =
              some r ∧ r.rest = [] := by
            unfold maLoop
            rw [if_neg hdone, if_pos hw]
            cases hret : nfsprocWaitWrite2 v.cu (onWait v) with
            | none => exact absurd hret (hreturns v)
            | some x =>
                obtain ⟨o, cu⟩ := x
                cases o with
                | none =>
                    simp only [hret]
                    exact ⟨_, rfl, rfl⟩
                | some res =>
                    have hst : res.status ≠ .ok := fun h => hgood ⟨res, cu, hret, h⟩
                    simp only [hret, if_pos hst]
                    exact ⟨_, rfl, rfl⟩
          exact ⟨_, r, hr, hrest, by simp⟩
      · have hc : v.count ≠ 0 := by
          cases waited with
          | true => exact hwaited rfl
          | false =>
              simp only [true_and, not_or] at hw
              exact hw.2
        by_cases hst : (clntaudpSendsb v.cu (writesbRequest auth (v.nextArgs ng))
            (onSend v)).1 = .timedOut
        · have hlen : chunkLen ng v.count = (min (maxWrite ng) v.buf.length : Nat) := by
            rw [hcount, chunkLen_eq]
          have hcount' : v.count - chunkLen ng v.count =
              ((v.buf.drop (chunkLen ng v.count).toNat).length : Int) := by
            rw [hlen, hcount, List.length_drop, Int.toNat_natCast]
            omega
          have hless : 2 * (v.buf.drop (chunkLen ng v.count).toNat).length +
              (v.numpending + 1).toNat < k := by
            rw [hlen, List.length_drop, Int.toNat_natCast]
            omega
          obtain ⟨env, r, hr, hrest, hall⟩ := ih _ hless
            (v.afterSend ng (clntaudpSendsb v.cu (writesbRequest auth (v.nextArgs ng))
              (onSend v)).2.1 auth) false hcount' (by simp only [MAVars.afterSend]; omega)
            (by simp) rfl
          refine ⟨.sent (onSend v) :: env, r, ?_, hrest, by simpa using hall⟩
          unfold maLoop
          rw [if_neg hdone, if_neg hw]
          simpa only [hst, ne_eq, not_true_eq_false, if_false] using hr
        · obtain ⟨r, hr, hrest⟩ : ∃ r, maLoop ng auth argCount [.sent (onSend v)] waited v =
              some r ∧ r.rest = [] := by
            unfold maLoop
            rw [if_neg hdone, if_neg hw]
            simp only [if_pos hst]
            exact ⟨_, rfl, rfl⟩
          exact ⟨_, r, hr, hrest, by simp⟩

/-- A synchronous write that succeeds has sent the chunks of the block in order. -/
theorem mwLoop_sent {ng : NFSGlobal} (hm : 0 < maxWrite ng) {auth : Auth} {argCount : Int}
    (harg : argCount ≠ -1) {env : List CallAnswer} {cu : McuData} {wargs : WriteArgs}
    {offset : UInt32} {buf : List UInt8} {count : Int} {res : Option AttrStat}
    {sent : List WriteArgs} {r : MWResult} (hcount : count = buf.length)
    (hlen : buf.length < 2147483648)
    (hr : mwLoop ng auth argCount env cu wargs offset buf count res sent = some r)
    (hret : r.ret = argCount) :
    r.sent.map writeKey = sent.map writeKey ++ chunks (maxWrite ng) offset buf := by
  induction env generalizing cu wargs offset buf count res sent with
  | nil =>
      unfold mwLoop at hr
      split at hr
      · rename_i h0
        cases hr
        have : buf = [] := List.eq_nil_of_length_eq_zero (by omega)
        simp [this, chunks_nil]
      · cases hr
  | cons a env ih =>
      unfold mwLoop at hr
      split at hr
      · rename_i h0
        cases hr
        have : buf = [] := List.eq_nil_of_length_eq_zero (by omega)
        simp [this, chunks_nil]
      · rename_i h0
        have hbuf : buf ≠ [] := by
          rintro rfl
          exact h0 hcount
        have hu : ulong count = (buf.length : Int) := by
          rw [hcount, ulong]
          omega
        have hk : chunkLen ng (ulong count) = (min (maxWrite ng) buf.length : Nat) := by
          rw [hu, chunkLen_eq]
        simp only [hk, Int.toNat_natCast] at hr
        split at hr
        · cases hr
        · cases hr
          exact absurd hret.symm harg
        · rename_i res' cu' hcall
          split at hr
          · cases hr
            exact absurd hret.symm harg
          · rw [ih (by simp only [List.length_drop]; omega)
              (by simp only [List.length_drop]; omega) hr, chunks_cons hm offset hbuf,
              ofInt_natCast, drop_min_length]
            simp [writeKey, take_min_length]

section Call
variable {ng : NFSGlobal} {auth : Auth} {cu : McuData} {fh : List UInt8} {wargs : WriteArgs}
  {offset : UInt32} {buf : List UInt8} {env : List Answer} {r : MAResult}

theorem asyncWriteOk_of_aborted (hlen : buf.length < 2147483648)
    (hcu : (replay cu r.ops).cu = r.cu) (hret : r.ret = -1)
    (hres : ∃ e, r.res2 = some e ∧ e ≠ 0) (hidle : ∀ i, (replay cu r.ops).led.slots i = none) :
    AsyncWriteOk ng cu auth fh offset buf env r := by
  have hne : r.ret ≠ buf.length := by omega
  exact ⟨hcu, fun h => absurd h hne, fun h => absurd h hne, fun h => absurd h hne,
    fun _ => ⟨hret, hres⟩, hidle, fun h => absurd h hne⟩

theorem asyncWriteOk_of_done (hm : 0 < maxWrite ng) (hlen : buf.length < 2147483648)
    {v : MAVars} (h : MAInv ng auth cu fh offset buf v) (hbuf : v.buf = [])
    (hidle : v.numpending = 0) (hret : r.ret = buf.length) (hsent : r.sent = v.sent)
    (hops : r.ops = v.ops) (hcu : r.cu = v.cu) (hclean : ∀ a ∈ env, a ≠ .sent false)
    (hwaits : (replay cu r.ops).led.deliveries.length = env.countP Answer.isWait) :
    AsyncWriteOk ng cu auth fh offset buf env r := by
  have hnone : ∀ i, (replay cu v.ops).led.slots i = none := by
    refine h.inv.no_pending ?_
    have := h.numpending
    rw [h.cu]
    omega
  have hkeys : r.sent.map writeKey = chunks (maxWrite ng) offset buf := by
    have := h.cover
    rwa [hbuf, chunks_nil, List.append_nil, ← hsent] at this
  refine ⟨by rw [hops, hcu, h.cu], fun _ => ?_, fun _ k w hk => ?_,
    fun _ => ⟨hclean, hwaits.symm⟩, fun hne => absurd hret hne, by rw [hops]; exact hnone, ?_⟩
  · rw [hkeys]
    exact ⟨chunks_contiguous hm offset buf, chunks_flatMap hm offset buf⟩
  · rw [hsent] at hk
    rw [hops]
    rcases h.requests k w hk with ⟨i, p, hp, -⟩ | hack
    · rw [hnone i] at hp
      cases hp
    · exact hack
  · intro _ cuS wargsS envS rS hS hretS f ex hex
    have hlong : long buf.length = (buf.length : Int) := long_of_isLong ⟨by omega, by omega⟩
    have hkeysS := mwLoop_sent hm (by omega) hlong hlen hS (by rw [hretS, hlong])
    rw [hkeys] at hex
    rw [hkeysS]
    simpa using SrvFile.writeAll_chunks hm (by omega) hex f

/-- A finished call keeps its promise exactly if no send fails while a chunk sent before is
pending. -/
theorem nfsMAWrite_ok_iff (hcu : IdleClient cu) (hfh : fh.length = nfsFhsize)
    (hm : 0 < ng.ngMaxWriteSize) (htwo : 2 ≤ ng.ngNumWRPCs)
    (hle : ng.ngNumWRPCs ≤ cu.mcuNumscu) (hpos : 0 < buf.length)
    (hlen : buf.length < 2147483648)
    (hr : nfsMAWrite ng cu auth fh wargs offset buf env = some r) (hrest : r.rest = []) :
    AsyncWriteOk ng cu auth fh offset buf env r ↔ ∀ a ∈ env.tail, a ≠ .sent false := by
  have hm' : 0 < maxWrite ng := by simp only [maxWrite, nfsMaxdata]; omega
  have hlong : long buf.length = (buf.length : Int) := long_of_isLong ⟨by omega, by omega⟩
  have hinit : MAInv ng auth cu fh offset buf _ := MAInv.initial hcu hlen wargs
  have hbuf : buf ≠ [] := List.length_pos_iff.mp hpos
  simp only [nfsMAWrite] at hr
  unfold maLoop at hr
  rw [if_neg (by simp only [hlong]; omega), if_neg (by simp only [hlong]; omega)] at hr
  cases env with
  | nil => cases hr
  | cons a env =>
      cases a with
      | wait evs => cases hr
      | sent ok =>
          have hiff := hinit.send_iff hcu hfh (by simp only; omega) ok
          simp only at hr
          split at hr
          · rename_i hst
            have hok : ok = false := by simpa using fun ht => hst (hiff.mpr ht)
            subst hok
            cases hr
            obtain rfl : env = [] := hrest
            have hstep := Node.step_sendsb_failed (n := (Node.fresh cu : Node AttrStat))
              (by exact hst)
            obtain ⟨herr, hne⟩ := clntaudpSendsb_error cu (writesbRequest auth
              (MAVars.nextArgs ⟨cu, { wargs with file := fh }, offset, buf, long buf.length, 0, 0,
                [], []⟩ ng)) false
            refine iff_of_true (asyncWriteOk_of_aborted hlen ?_ rfl ⟨_, rfl, ?_⟩ ?_) (by simp)
            · simp only [replay, List.nil_append, run_cons, run_nil, hstep]
              rfl
            · exact client2IoErr_ne_zero (by rw [herr]; exact hne)
            · intro i
              simp only [replay, List.nil_append, run_cons, run_nil, hstep]
              rfl
          · rename_i hst
            have hok : ok = true := hiff.mp (by simpa using hst)
            subst hok
            obtain ⟨hinv, hdel⟩ := hinit.send hm' hbuf (by simpa using hst)
            have hends := maLoop_ends hcu hfh hm' htwo hle hinv (by simp [MAVars.afterSend])
              (by simp only [MAVars.afterSend]; omega) (by simp) hr hrest
            cases hends with
            | done v' inv buf_nil idle ret sent ops cu' sends waits =>
                refine iff_of_true (asyncWriteOk_of_done hm' hlen inv buf_nil idle
                  (by rw [ret, hlong]) sent ops cu' (by simpa using sends) ?_)
                    (by simpa using sends)
                rw [waits, hdel, List.countP_cons_of_neg (by simp [Answer.isWait])]
                simp [replay, Node.fresh]
            | aborted cu' ret res2 sends idle =>
                exact iff_of_true (asyncWriteOk_of_aborted hlen cu' ret res2 idle)
                  (by simpa using sends)
            | left sends pending =>
                refine iff_of_false (fun h => ?_) (fun h => ?_)
                · obtain ⟨i, hi⟩ := pending
                  exact hi (h.none_pending i)
                · obtain ⟨a, ha, hf⟩ := sends
                  exact h a ha hf

/-- A call of `nfs_MAWrite` on a client without pending requests returns, whatever its sends and
its waits meet, and it keeps its promise exactly if no send fails while a chunk sent before is
pending. -/
theorem asyncWriteOk_iff (hcu : IdleClient cu) (hfh : fh.length = nfsFhsize)
    (hm : 0 < ng.ngMaxWriteSize) (htwo : 2 ≤ ng.ngNumWRPCs)
    (hle : ng.ngNumWRPCs ≤ cu.mcuNumscu) (hpos : 0 < buf.length)
    (hlen : buf.length < 2147483648) :
    (∀ (onSend : MAVars → Bool) (onWait : MAVars → List (NetEv AttrStat)),
      (∀ v, nfsprocWaitWrite2 v.cu (onWait v) ≠ none) →
      ∃ env r, nfsMAWrite ng cu auth fh wargs offset buf env = some r ∧ r.rest = [] ∧
        ∀ a ∈ env, (∃ u, a = .sent (onSend u)) ∨ ∃ u, a = .wait (onWait u)) ∧
    ∀ env r, nfsMAWrite ng cu auth fh wargs offset buf env = some r → r.rest = [] →
      (AsyncWriteOk ng cu auth fh offset buf env r ↔ ∀ a ∈ env.tail, a ≠ .sent false) := by
  refine ⟨fun onSend onWait hreturns => ?_, fun env r hr hrest =>
    nfsMAWrite_ok_iff hcu hfh hm htwo hle hpos hlen hr hrest⟩
  have hm' : 0 < maxWrite ng := by simp only [maxWrite, nfsMaxdata]; omega
  have hlong : long buf.length = (buf.length : Int) := long_of_isLong ⟨by omega, by omega⟩
  refine maLoop_returns hm' (by omega) _ onSend onWait hreturns _ false hlong (Int.le_refl 0) ?_
  intro hwaited
  cases hwaited

end Call

section Example

/-- Chunks of two bytes, two requests in flight. -/
def twoByTwo : NFSGlobal := ⟨2, 2⟩

def nullAuth : Auth := ⟨List.replicate 16 0, Nat.le_of_ble_eq_true rfl⟩

def someFile : List UInt8 := List.replicate 32 7

def emptyArgs : WriteArgs := ⟨[], 0, 0, 0, []⟩

theorem idleClient_threeSlots : IdleClient threeSlots where
  numfree := rfl
  idle := by decide
  sendsz := rfl
  callhdr := rfl

/-- Two chunks, answered in the opposite order. -/
def crossedReplies : List Answer :=
  [.sent true, .sent true,
    .wait [.datagram (be32 131077) (.accepted true ⟨.ok, 3⟩)],
    .wait [.datagram (be32 65541) (.accepted true ⟨.ok, 2⟩)]]

/-- The write of three bytes at offset 0 in the examples. -/
def writeThree (env : List Answer) : Option MAResult :=
  nfsMAWrite twoByTwo threeSlots nullAuth someFile emptyArgs 0 [1, 2, 3] env

theorem asyncWriteOk_iff_crossed :
    ∃ r, writeThree crossedReplies = some r ∧
      (AsyncWriteOk twoByTwo threeSlots nullAuth someFile 0 [1, 2, 3] crossedReplies r ↔
        ∀ a ∈ crossedReplies.tail, a ≠ .sent false) := by
  obtain ⟨r, hr⟩ := Option.isSome_iff_exists.mp
    (show (writeThree crossedReplies).isSome = true by decide)
  have hrest : (writeThree crossedReplies).map (·.rest.length) = some 0 := by decide
  rw [hr] at hrest
  exact ⟨r, hr, (asyncWriteOk_iff idleClient_threeSlots rfl (by decide) (by decide) (by decide)
    (by decide) (by decide)).2 crossedReplies r hr (by simpa using hrest)⟩

/-- The second send fails while the first chunk is pending: its request stays behind. -/
theorem not_asyncWriteOk_second_send :
    ¬ ∀ env r, writeThree env = some r → r.rest = [] →
      AsyncWriteOk twoByTwo threeSlots nullAuth someFile 0 [1, 2, 3] env r := by
  intro h
  obtain ⟨r, hr⟩ := Option.isSome_iff_exists.mp
    (show (writeThree [.sent true, .sent false]).isSome = true by decide)
  have hrest : (writeThree [.sent true, .sent false]).map (·.rest.length) = some 0 := by decide
  have hslot : (writeThree [.sent true, .sent false]).map
      (fun r => ((replay threeSlots r.ops).led.slots 0).isSome) = some true := by decide
  rw [hr] at hrest hslot
  have hnone := (h _ r hr (by simpa using hrest)).none_pending 0
  simp [hnone] at hslot

end Example

end Anfs.Nfs
