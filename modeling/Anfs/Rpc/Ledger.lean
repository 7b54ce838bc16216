import Mathlib.Logic.Function.Basic
import Anfs.Lib.Run
import Anfs.Rpc.Client

/-!
# Requests, slots and replies over whole runs

The ledger is what the asynchronous interface is for: a number for each request put in
flight, the requests pending in each slot, and a record of every result handed to a
caller and every datagram sent again. It is kept beside the client and never read by it.
A step of a run is one operation on the client, or one turn of the loop of a wait.
-/
namespace Anfs.Rpc
open Anfs.Lib Anfs.Xdr

/-- A request in flight: `stored` is what its slot kept, `wire` what the socket got. -/
structure Pending where
  id : Nat
  req : Request
  stored : List UInt8
  wire : List UInt8

/-- A successful return of `clntaudp_wait`: the request pending in the slot it freed, the
reply, and what the caller finds in the client and in the result. -/
structure Delivery (ρ : Type) where
  req : Option Pending
  inbuf : List UInt8
  resp : Nat
  userdata : Nat
  result : Option ρ

/-- A datagram sent again by `clntaudp_wait`, with the request pending in its slot. -/
structure Resend where
  req : Option Pending
  bytes : List UInt8

structure Ledger (ρ : Type) where
  next : Nat
  slots : Nat → Option Pending
  deliveries : List (Delivery ρ)
  resends : List Resend

structure Node (ρ : Type) where
  cu : McuData
  led : Ledger ρ

/-- The bytes `recvfrom` left in the input buffer. -/
def NetEv.inbuf {ρ : Type} : NetEv ρ → List UInt8
  | .datagram inbuf _ => inbuf
  | _ => []

inductive Op (ρ : Type)
  | sendsb (r : Request) (sent : Bool)
  | waitTurn (utimeout : Timeval) (ev : NetEv ρ)
  | abort
  | call (r : Request) (utimeout : Timeval) (sent : Bool) (evs : List (NetEv ρ))
  | setTimeout (t : Timeval)
  | setRetryTimeout (t : Timeval)

variable {ρ : Type}

/-- A client on which nothing was sent. -/
def Node.fresh (cu : McuData) : Node ρ := ⟨cu, ⟨0, fun _ => none, [], []⟩⟩

def Ledger.occupy (led : Ledger ρ) (i : Nat) (r : Request) (stored wire : List UInt8) :
    Ledger ρ :=
  { led with
    next := led.next + 1
    slots := Function.update led.slots i (some ⟨led.next, r, stored, wire⟩) }

def Ledger.release (led : Ledger ρ) (i : Nat) : Ledger ρ :=
  { led with slots := Function.update led.slots i none }

def Ledger.resend (led : Ledger ρ) : Option (Nat × List UInt8) → Ledger ρ
  | none => led
  | some (i, bytes) => { led with resends := ⟨led.slots i, bytes⟩ :: led.resends }

/-- Every successful return is recorded. -/
def Ledger.deliver (led : Ledger ρ) (ev : NetEv ρ) (t : Turn ρ) : Ledger ρ :=
  if t.stat = some .success then
    { led with deliveries :=
        ⟨t.freed.bind led.slots, ev.inbuf, t.cu.claResp, t.cu.claUserdata, t.result⟩ ::
          led.deliveries }
  else led

/-- What a turn leaves in the ledger. -/
def Ledger.turn (led : Ledger ρ) (ev : NetEv ρ) (t : Turn ρ) : Ledger ρ :=
  let led := (led.resend t.resent).deliver ev t
  match t.freed with
  | none => led
  | some i => led.release i

def Node.step (n : Node ρ) : Op ρ → Node ρ
  | .sendsb r sent =>
      let x := clntaudpSendsb n.cu r sent
      match x.1, freeScu n.cu, x.2.2 with
      | .timedOut, some i, some wire => ⟨x.2.1, n.led.occupy i r (outbuf n.cu r) wire⟩
      | _, _, _ => ⟨x.2.1, n.led⟩
  | .waitTurn utimeout ev =>
      let t := Rpc.waitTurn n.cu utimeout ev
      ⟨t.cu, n.led.turn ev t⟩
  | .abort => ⟨clntaudpAbort n.cu, { n.led with slots := fun _ => none }⟩
  | .call r utimeout sent evs =>
      match clntaudpCall n.cu r utimeout sent evs with
      | some (_, cu, _) => ⟨cu, n.led⟩
      | none => n
  | .setTimeout t => ⟨{ n.cu with mcuTotal := t }, n.led⟩
  | .setRetryTimeout t => ⟨{ n.cu with mcuWait := t }, n.led⟩

/-- A slot and its ledger entry agree. -/
def Occupies (s : ScuData) : Option Pending → Prop
  | none => s.scuInuse = false
  | some p => s.scuInuse = true ∧ s.scuOutbuf = p.stored ∧ s.scuResultsp = p.req.resultsp ∧
      s.scuUserdata = p.req.userdata

/-- The delivery was made for a pending request with the reply's transaction id, and gave
out that request's result pointer and user data. -/
def Delivery.Faithful (d : Delivery ρ) : Prop :=
  ∃ p, d.req = some p ∧ d.inbuf.take 4 = p.stored.take 4 ∧ d.resp = p.req.resultsp ∧
    d.userdata = p.req.userdata

/-- What callers of the asynchronous interface rely on. -/
structure SlotProtocol (n : Node ρ) : Prop where
  numfree_eq : n.cu.mcuNumfreescu = n.cu.mcuScu.countP fun s => !s.scuInuse
  numfree_le : n.cu.mcuNumfreescu ≤ n.cu.mcuNumscu
  faithful : ∀ d ∈ n.led.deliveries, d.Faithful
  once : (n.led.deliveries.filterMap fun d => d.req.map (·.id)).Nodup
  not_again : ∀ d ∈ n.led.deliveries, ∀ p, d.req = some p → ∀ i q, n.led.slots i = some q →
    q.id ≠ p.id
  stored : ∀ i p, n.led.slots i = some p → ∃ s, n.cu.mcuScu[i]? = some s ∧
    s.scuInuse = true ∧ s.scuOutbuf = p.stored

/-- No synchronous call while slot 0 carries a request. -/
def CallsApart (n : Node ρ) : Op ρ → Prop
  | .call .. => ∀ s, n.cu.mcuScu[0]? = some s → s.scuInuse = false
  | _ => True

/-- Slots and ledger agree, and request numbers are used once. -/
structure Node.Inv (n : Node ρ) : Prop where
  numfree : n.cu.mcuNumfreescu = n.cu.mcuScu.countP fun s => !s.scuInuse
  occupies : ∀ i s, n.cu.mcuScu[i]? = some s → Occupies s (n.led.slots i)
  outside : ∀ i, n.cu.mcuScu[i]? = none → n.led.slots i = none
  id_lt : ∀ i p, n.led.slots i = some p → p.id < n.led.next
  distinct : ∀ i j p q, n.led.slots i = some p → n.led.slots j = some q → p.id = q.id → i = j
  faithful : ∀ d ∈ n.led.deliveries, d.Faithful
  old : ∀ d ∈ n.led.deliveries, ∀ p, d.req = some p → p.id < n.led.next ∧
    ∀ i q, n.led.slots i = some q → q.id ≠ p.id
  once : (n.led.deliveries.filterMap fun d => d.req.map (·.id)).Nodup
  wire : ∀ i p, n.led.slots i = some p → p.wire = p.stored ++ p.req.block

theorem Node.Inv.slotProtocol {n : Node ρ} (h : n.Inv) : SlotProtocol n where
  numfree_eq := h.numfree
  numfree_le := by rw [h.numfree]; exact List.countP_le_length
  faithful := h.faithful
  once := h.once
  not_again d hd p hp := (h.old d hd p hp).2
  stored i p hp := by
    cases hs : n.cu.mcuScu[i]? with
    | none => simp [h.outside i hs] at hp
    | some s =>
        have := h.occupies i s hs
        rw [hp] at this
        exact ⟨s, rfl, this.1, this.2.1⟩

/-- A slot counted as used carries a request, and only such slots do. -/
theorem Node.Inv.exists_pending {n : Node ρ} (h : n.Inv)
    (hlt : n.cu.mcuNumfreescu < n.cu.mcuNumscu) : ∃ i, n.led.slots i ≠ none := by
  by_contra hnone
  have hfree : ∀ s ∈ n.cu.mcuScu, (!s.scuInuse) = true := by
    intro s hs
    obtain ⟨i, hi⟩ := List.mem_iff_getElem?.mp hs
    have hocc := h.occupies i s hi
    have hslot : n.led.slots i = none := by
      by_contra hne
      exact hnone ⟨i, hne⟩
    rw [hslot] at hocc
    simpa using show s.scuInuse = false from hocc
  have := List.countP_eq_length.mpr hfree
  rw [h.numfree, McuData.mcuNumscu] at hlt
  omega

theorem Node.Inv.no_pending {n : Node ρ} (h : n.Inv)
    (heq : n.cu.mcuNumfreescu = n.cu.mcuNumscu) (i : Nat) : n.led.slots i = none := by
  rw [h.numfree, McuData.mcuNumscu] at heq
  cases hs : n.cu.mcuScu[i]? with
  | none => exact h.outside i hs
  | some s =>
      have hocc := h.occupies i s hs
      have huse := List.countP_eq_length.mp heq s (List.mem_of_getElem? hs)
      cases hp : n.led.slots i with
      | none => rfl
      | some p => rw [hp] at hocc; simp [hocc.1] at huse

theorem Node.inv_fresh {wait : Timeval} {sendsz numasync : Nat} {xid : UInt32}
    {callhdr : List UInt8} {cu : McuData}
    (h : clntaudpBufcreate wait sendsz numasync xid callhdr = some cu) :
    (Node.fresh cu : Node ρ).Inv := by
  simp only [clntaudpBufcreate] at h
  split at h
  · cases h
  · cases h
    refine ⟨?_, fun i s hs => ?_, fun _ _ => rfl, ?_, ?_, ?_, ?_, ?_, ?_⟩
    · simp [Node.fresh, List.countP_replicate]
    · obtain ⟨-, rfl⟩ := List.mem_replicate.mp (List.mem_of_getElem? hs)
      rfl
    all_goals simp [Node.fresh]

/-- Timers, errors and settings do not matter. -/
theorem Node.Inv.settle {n : Node ρ} (h : n.Inv) {cu : McuData}
    (hfree : cu.mcuNumfreescu = n.cu.mcuNumfreescu)
    (hscu : cu.mcuScu.map ScuData.settle = n.cu.mcuScu.map ScuData.settle) :
    Node.Inv ⟨cu, n.led⟩ where
  numfree := by rw [hfree, h.numfree, countP_of_map_settle hscu]
  occupies i s' hs' := by
    obtain ⟨s, hs, heq⟩ := getElem?_of_map_settle hscu hs'
    have hocc := h.occupies i s hs
    cases hp : n.led.slots i with
    | none =>
        rw [hp] at hocc
        exact (congrArg (·.scuInuse) heq).trans (show s.scuInuse = false from hocc)
    | some p =>
        rw [hp] at hocc
        exact ⟨(congrArg (·.scuInuse) heq).trans hocc.1,
          (congrArg (·.scuOutbuf) heq).trans hocc.2.1,
          (congrArg (·.scuResultsp) heq).trans hocc.2.2.1,
          (congrArg (·.scuUserdata) heq).trans hocc.2.2.2⟩
  outside i hi := by
    refine h.outside i (List.getElem?_eq_none ?_)
    have hlen := congrArg List.length hscu
    have hle : cu.mcuScu.length ≤ i := List.getElem?_eq_none_iff.mp hi
    simp only [List.length_map] at hlen
    omega
  id_lt := h.id_lt
  distinct := h.distinct
  faithful := h.faithful
  old := h.old
  once := h.once
  wire := h.wire

/-- A slot that is not in use may be overwritten. -/
theorem Node.Inv.overwrite {n : Node ρ} (h : n.Inv) {cu : McuData} {i : Nat} {s s' : ScuData}
    (hfree : cu.mcuNumfreescu = n.cu.mcuNumfreescu) (hs : n.cu.mcuScu[i]? = some s)
    (huse : s.scuInuse = false) (huse' : s'.scuInuse = false)
    (hscu : cu.mcuScu = n.cu.mcuScu.set i s') : Node.Inv ⟨cu, n.led⟩ := by
  have hlt : i < n.cu.mcuScu.length := (List.getElem?_eq_some_iff.mp hs).1
  have hget : n.cu.mcuScu[i] = s := (List.getElem?_eq_some_iff.mp hs).2
  refine ⟨?_, fun j t ht => ?_, fun j hj => ?_, h.id_lt, h.distinct, h.faithful, h.old, h.once,
    h.wire⟩
  · have hpos : 0 < n.cu.mcuScu.countP fun s => !s.scuInuse :=
      List.countP_pos_iff.mpr ⟨s, List.mem_of_getElem? hs, by simp [huse]⟩
    simp only [hfree, h.numfree, hscu, List.countP_set hlt, hget, huse, huse']
    simp only [Bool.not_false, if_true]
    omega
  · simp only [hscu] at ht
    by_cases hij : i = j
    · subst hij
      rw [List.getElem?_set_self hlt] at ht
      obtain rfl := Option.some.inj ht
      have hocc := h.occupies i s hs
      cases hp : n.led.slots i with
      | none => exact huse'
      | some p => rw [hp] at hocc; simp [hocc.1] at huse
    · rw [List.getElem?_set_ne hij] at ht
      exact h.occupies j t ht
  · refine h.outside j (List.getElem?_eq_none ?_)
    simpa [hscu] using hj

theorem Ledger.occupy_slots {led : Ledger ρ} {i j : Nat} {r : Request}
    {stored wire : List UInt8} {p : Pending}
    (h : (led.occupy i r stored wire).slots j = some p) :
    (j = i ∧ p = ⟨led.next, r, stored, wire⟩) ∨ (j ≠ i ∧ led.slots j = some p) := by
  by_cases hj : j = i
  · subst hj
    simp only [Ledger.occupy, Function.update_self, Option.some.injEq] at h
    exact .inl ⟨rfl, h.symm⟩
  · simp only [Ledger.occupy, Function.update_of_ne hj] at h
    exact .inr ⟨hj, h⟩

theorem Ledger.release_slots {led : Ledger ρ} {i j : Nat} {p : Pending}
    (h : (led.release i).slots j = some p) : j ≠ i ∧ led.slots j = some p := by
  by_cases hj : j = i
  · subst hj
    simp [Ledger.release] at h
  · simp only [Ledger.release, Function.update_of_ne hj] at h
    exact ⟨hj, h⟩

theorem Node.Inv.sendDone {n : Node ρ} (h : n.Inv) {cu : McuData} {r : Request} {i : Nat}
    (hsend : SendDone n.cu r cu i) :
    Node.Inv ⟨cu, n.led.occupy i r (outbuf n.cu r) (outbuf n.cu r ++ r.block)⟩ := by
  obtain ⟨s, hs, huse⟩ := freeScu_eq_some hsend.free
  have hlt : i < n.cu.mcuScu.length := (List.getElem?_eq_some_iff.mp hs).1
  have hget : n.cu.mcuScu[i] = s := (List.getElem?_eq_some_iff.mp hs).2
  refine ⟨?_, fun j t ht => ?_, fun j hj => ?_, fun j p hp => ?_, fun j k p q hp hq hid => ?_,
    h.faithful, fun d hd p hp => ?_, h.once, fun j p hp => ?_⟩
  · have hpos := hsend.pos
    simp only [hsend.numfree, h.numfree, hsend.scu, List.countP_set hlt, hget, huse] at hpos ⊢
    simp
  · simp only [hsend.scu] at ht
    by_cases hij : i = j
    · subst hij
      rw [List.getElem?_set_self hlt] at ht
      obtain rfl := Option.some.inj ht
      simp [Ledger.occupy, Occupies, loadScu]
    · rw [List.getElem?_set_ne hij] at ht
      simpa [Ledger.occupy, Function.update_of_ne (Ne.symm hij)] using h.occupies j t ht
  · have hj' : n.cu.mcuScu[j]? = none := by
      rw [List.getElem?_eq_none_iff] at hj ⊢
      simpa [hsend.scu] using hj
    have hne : j ≠ i := by
      rintro rfl
      simp [hs] at hj'
    simpa [Ledger.occupy, Function.update_of_ne hne] using h.outside j hj'
  · rcases Ledger.occupy_slots hp with ⟨-, rfl⟩ | ⟨-, hp⟩
    · exact Nat.lt_succ_self _
    · exact Nat.lt_succ_of_lt (h.id_lt j p hp)
  · rcases Ledger.occupy_slots hp with ⟨rfl, rfl⟩ | ⟨-, hp'⟩ <;>
      rcases Ledger.occupy_slots hq with ⟨rfl, rfl⟩ | ⟨-, hq'⟩
    · rfl
    · exact absurd hid.symm (Nat.ne_of_lt (h.id_lt k q hq'))
    · exact absurd hid (Nat.ne_of_lt (h.id_lt j p hp'))
    · exact h.distinct j k p q hp' hq' hid
  · obtain ⟨hlt', hne⟩ := h.old d hd p hp
    refine ⟨Nat.lt_succ_of_lt hlt', fun j q hq => ?_⟩
    rcases Ledger.occupy_slots hq with ⟨-, rfl⟩ | ⟨-, hq⟩
    · exact (Nat.ne_of_lt hlt').symm
    · exact hne j q hq
  · rcases Ledger.occupy_slots hp with ⟨-, rfl⟩ | ⟨-, hp⟩
    · rfl
    · exact h.wire j p hp

theorem Node.Inv.resend {n : Node ρ} (h : n.Inv) (o : Option (Nat × List UInt8)) :
    Node.Inv ⟨n.cu, n.led.resend o⟩ := by
  cases o with
  | none => exact h
  | some x => exact ⟨h.1, h.2, h.3, h.4, h.5, h.6, h.7, h.8, h.9⟩

/-- Freeing a slot retires its request, whatever was recorded about it. -/
theorem Node.Inv.freed {n : Node ρ} (h : n.Inv) {ev : NetEv ρ} {t : Turn ρ} {i : Nat}
    {s : ScuData} (ht : TurnFrees n.cu ev t i s) :
    Node.Inv ⟨t.cu, (n.led.deliver ev t).release i⟩ := by
  have hs := ht.slot
  have hlt : i < n.cu.mcuScu.length := (List.getElem?_eq_some_iff.mp hs).1
  have hget : n.cu.mcuScu[i] = s := (List.getElem?_eq_some_iff.mp hs).2
  obtain ⟨inbuf, reply, rfl, hxid⟩ := ht.xid
  obtain ⟨p, hp, hocc⟩ : ∃ p, n.led.slots i = some p ∧ Occupies s (some p) := by
    have hocc := h.occupies i s hs
    cases hp : n.led.slots i with
    | none =>
        rw [hp] at hocc
        exact absurd ht.inuse (by simp [show s.scuInuse = false from hocc])
    | some p => exact ⟨p, rfl, hp ▸ hocc⟩
  obtain ⟨-, hbuf, hresp, hud⟩ := hocc
  have hslots : ∀ j, ((n.led.deliver (.datagram inbuf reply) t).release i).slots j =
      (n.led.release i).slots j := by
    intro j
    simp only [Ledger.deliver]
    split <;> rfl
  have hnext : ((n.led.deliver (.datagram inbuf reply) t).release i).next = n.led.next := by
    simp only [Ledger.deliver]
    split <;> rfl
  have hrel : ∀ j q, ((n.led.deliver (.datagram inbuf reply) t).release i).slots j = some q →
      j ≠ i ∧ n.led.slots j = some q := fun j q hq =>
    Ledger.release_slots (by rwa [hslots] at hq)
  have hdel : ∀ d ∈ (n.led.deliver (.datagram inbuf reply) t).deliveries,
      d ∈ n.led.deliveries ∨ d.req = some p ∧ d.Faithful := by
    intro d hd
    simp only [Ledger.deliver, ht.freed, Option.bind_some, hp] at hd
    split at hd
    · rcases List.mem_cons.mp hd with rfl | hd
      · exact .inr ⟨rfl, p, rfl, by simpa [hbuf, NetEv.inbuf] using hxid, ht.resp.trans hresp,
          ht.userdata.trans hud⟩
      · exact .inl hd
    · exact .inl hd
  refine ⟨?_, fun j u hu => ?_, fun j hj => ?_, fun j q hq => ?_, fun j k q q' hq hq' hid => ?_,
    fun d hd => ?_, fun d hd q hq => ?_, ?_, fun j q hq => h.wire j q (hrel j q hq).2⟩
  · simp only [ht.numfree, h.numfree, ht.scu, List.countP_set hlt, hget, ht.inuse]
    simp
  · simp only [hslots]
    simp only [ht.scu] at hu
    by_cases hij : i = j
    · subst hij
      rw [List.getElem?_set_self hlt] at hu
      obtain rfl := Option.some.inj hu
      simp [Ledger.release, Occupies]
    · rw [List.getElem?_set_ne hij] at hu
      simpa [Ledger.release, Function.update_of_ne (Ne.symm hij)] using h.occupies j u hu
  · simp only [hslots]
    have hj' : n.cu.mcuScu[j]? = none := by
      rw [List.getElem?_eq_none_iff] at hj ⊢
      simpa [ht.scu] using hj
    have hne : j ≠ i := by
      rintro rfl
      simp [hs] at hj'
    simpa [Ledger.release, Function.update_of_ne hne] using h.outside j hj'
  · simp only [hnext]
    exact h.id_lt j q (hrel j q hq).2
  · exact h.distinct j k q q' (hrel j q hq).2 (hrel k q' hq').2 hid
  · rcases hdel d hd with hd | ⟨-, hd⟩
    · exact h.faithful d hd
    · exact hd
  · simp only [hnext]
    rcases hdel d hd with hd | ⟨hd, -⟩
    · obtain ⟨hlt', hne⟩ := h.old d hd q hq
      exact ⟨hlt', fun j q' hq' => hne j q' (hrel j q' hq').2⟩
    · obtain rfl := Option.some.inj (hd.symm.trans hq)
      refine ⟨h.id_lt i p hp, fun j q' hq' hid => ?_⟩
      obtain ⟨hj, hq'⟩ := hrel j q' hq'
      exact hj (h.distinct j i q' p hq' hp hid)
  · simp only [Ledger.release, Ledger.deliver, ht.freed, Option.bind_some, hp]
    split
    · rw [List.filterMap_cons]
      simp only [Option.map_some, List.nodup_cons]
      refine ⟨fun hmem => ?_, h.once⟩
      obtain ⟨d, hd, hid⟩ := List.mem_filterMap.mp hmem
      obtain ⟨q, hq, hqid⟩ := Option.map_eq_some_iff.mp hid
      exact (h.old d hd q hq).2 i p hp hqid.symm
    · exact h.once

theorem Node.Inv.waitTurn {n : Node ρ} (h : n.Inv) (utimeout : Timeval) (ev : NetEv ρ) :
    (n.step (.waitTurn utimeout ev)).Inv := by
  rcases waitTurn_cases n.cu utimeout ev with ht | ⟨i, s, ht⟩
  · have hk := (h.resend (Rpc.waitTurn n.cu utimeout ev).resent).settle ht.numfree ht.scu
    simpa only [Node.step, Ledger.turn, Ledger.deliver, ht.freed, if_neg ht.stat] using hk
  · have hf := (h.resend (Rpc.waitTurn n.cu utimeout ev).resent).freed ht
    simpa only [Node.step, Ledger.turn, ht.freed] using hf

theorem Node.step_sendsb_failed {n : Node ρ} {r : Request} {sent : Bool}
    (hstat : (clntaudpSendsb n.cu r sent).1 ≠ .timedOut) :
    n.step (.sendsb r sent) = ⟨(clntaudpSendsb n.cu r sent).2.1, n.led⟩ := by
  simp only [Node.step]
  split
  · rename_i heq _ _
    exact absurd heq hstat
  · rfl

theorem Node.step_sendsb_done {n : Node ρ} {r : Request} {sent : Bool}
    (hstat : (clntaudpSendsb n.cu r sent).1 = .timedOut) :
    ∃ i, SendDone n.cu r (clntaudpSendsb n.cu r sent).2.1 i ∧
      n.step (.sendsb r sent) = ⟨(clntaudpSendsb n.cu r sent).2.1,
        n.led.occupy i r (outbuf n.cu r) (outbuf n.cu r ++ r.block)⟩ := by
  rcases clntaudpSendsb_cases n.cu r sent with ⟨hne, -⟩ | ⟨-, ⟨i, hdone⟩, hwire⟩
  · exact absurd hstat hne
  · exact ⟨i, hdone, by simp only [Node.step, hstat, hdone.free, hwire]⟩

theorem Node.Inv.sendsb {n : Node ρ} (h : n.Inv) (r : Request) (sent : Bool) :
    (n.step (.sendsb r sent)).Inv := by
  by_cases hstat : (clntaudpSendsb n.cu r sent).1 = .timedOut
  · obtain ⟨i, hdone, hstep⟩ := Node.step_sendsb_done hstat
    rw [hstep]
    exact h.sendDone hdone
  · rw [Node.step_sendsb_failed hstat]
    rcases clntaudpSendsb_cases n.cu r sent with ⟨-, hfail⟩ | ⟨heq, -⟩
    · rcases hfail.scu with hscu | ⟨i, s, hs, huse, hscu⟩
      · exact h.settle hfail.numfree (by rw [hscu])
      · exact h.overwrite hfail.numfree hs huse rfl hscu
    · exact absurd heq hstat

/-- The slot a send is about to take carries no request. -/
theorem Node.Inv.slots_free {n : Node ρ} (h : n.Inv) {i : Nat} (hf : freeScu n.cu = some i) :
    n.led.slots i = none := by
  obtain ⟨s, hs, huse⟩ := freeScu_eq_some hf
  have hocc := h.occupies i s hs
  cases hp : n.led.slots i with
  | none => rfl
  | some p => rw [hp] at hocc; simp [hocc.1] at huse

theorem Node.Inv.abort {n : Node ρ} (h : n.Inv) : (n.step .abort).Inv := by
  refine ⟨?_, fun i s hs => ?_, fun _ _ => rfl, ?_, ?_, h.faithful, fun d hd p hp => ?_, h.once,
    ?_⟩
  · simp only [Node.step, clntaudpAbort_numfree h.numfree, McuData.mcuNumscu]
    simp [clntaudpAbort, List.countP_map, Function.comp_def]
  · simp only [Node.step, clntaudpAbort, List.getElem?_map, Option.map_eq_some_iff] at hs
    obtain ⟨t, -, rfl⟩ := hs
    rfl
  · simp [Node.step]
  · simp [Node.step]
  · exact ⟨(h.old d hd p hp).1, by simp [Node.step]⟩
  · simp [Node.step]

theorem Node.Inv.call {n : Node ρ} (h : n.Inv) (r : Request) (utimeout : Timeval) (sent : Bool)
    (evs : List (NetEv ρ)) (hok : CallsApart n (.call r utimeout sent evs)) :
    (n.step (.call r utimeout sent evs)).Inv := by
  simp only [Node.step]
  split
  · rename_i cu _ hcall
    have hc := clntaudpCall_steps hcall
    rcases hc.scu with hscu | ⟨s, ob, hs, hscu⟩
    · exact h.settle hc.numfree (by rw [hscu])
    · have huse : ({ s with scuOutbuf := ob } : ScuData).scuInuse = false := hok s hs
      exact h.overwrite hc.numfree hs (hok s hs) huse hscu
  · exact h

theorem Node.Inv.step {n : Node ρ} (h : n.Inv) (op : Op ρ) (hok : CallsApart n op) :
    (n.step op).Inv := by
  cases op with
  | sendsb r sent => exact h.sendsb r sent
  | waitTurn utimeout ev => exact h.waitTurn utimeout ev
  | abort => exact h.abort
  | call r utimeout sent evs => exact h.call r utimeout sent evs hok
  | setTimeout t => exact h.settle rfl rfl
  | setRetryTimeout t => exact h.settle rfl rfl

/-- The turns of a wait as operations of a run. -/
def waitOps (utimeout : Timeval) (evs : List (NetEv ρ)) : List (Op ρ) :=
  evs.map (.waitTurn utimeout)

@[simp] theorem waitOps_cons (utimeout : Timeval) (ev : NetEv ρ) (evs : List (NetEv ρ)) :
    waitOps utimeout (ev :: evs) = .waitTurn utimeout ev :: waitOps utimeout evs := rfl

/-- What a wait that returned leaves: the slots it did not free as they were, and one more
delivery if it was successful. -/
structure WaitRan (n : Node ρ) (t : Turn ρ) (n' : Node ρ) : Prop where
  cu : n'.cu = t.cu
  inv : n'.Inv
  setup : SameSetup n.cu n'.cu
  xresults : n'.cu.mcuXresults = n.cu.mcuXresults
  next : n'.led.next = n.led.next
  outcome : (t.stat ≠ some .success ∧ n'.led.deliveries = n.led.deliveries) ∨
    ∃ i p d, n.led.slots i = some p ∧ d.req = some p ∧ d.result = t.result ∧
      n'.led.deliveries = d :: n.led.deliveries ∧
      n'.led.slots = Function.update n.led.slots i none ∧
      n'.cu.mcuNumfreescu = n.cu.mcuNumfreescu + 1
  result : t.stat = some .success → t.result ≠ none

theorem waitTurn_keeps {n : Node ρ} {utimeout : Timeval} {ev : NetEv ρ}
    (ht : TurnKeeps n.cu (waitTurn n.cu utimeout ev)) :
    (n.step (.waitTurn utimeout ev)).led.slots = n.led.slots ∧
      (n.step (.waitTurn utimeout ev)).led.deliveries = n.led.deliveries ∧
      (n.step (.waitTurn utimeout ev)).led.next = n.led.next := by
  simp only [Node.step, Ledger.turn, Ledger.deliver, ht.freed, if_neg ht.stat]
  cases (waitTurn n.cu utimeout ev).resent <;> exact ⟨rfl, rfl, rfl⟩

theorem waitTurn_frees {n : Node ρ} (h : n.Inv) {utimeout : Timeval} {ev : NetEv ρ} {i : Nat}
    {s : ScuData} (ht : TurnFrees n.cu ev (waitTurn n.cu utimeout ev) i s) :
    WaitRan n (waitTurn n.cu utimeout ev) (n.step (.waitTurn utimeout ev)) := by
  obtain ⟨p, hp⟩ : ∃ p, n.led.slots i = some p := by
    have hocc := h.occupies i s ht.slot
    cases hp : n.led.slots i with
    | none =>
        rw [hp] at hocc
        exact absurd ht.inuse (by simp [show s.scuInuse = false from hocc])
    | some p => exact ⟨p, rfl⟩
  obtain ⟨hsetup, hxres⟩ := waitTurn_setup n.cu utimeout ev
  refine ⟨rfl, h.waitTurn utimeout ev, hsetup, hxres, ?_, ?_, waitTurn_result⟩
  · simp only [Node.step, Ledger.turn, Ledger.deliver, ht.freed]
    cases (waitTurn n.cu utimeout ev).resent <;> split <;> rfl
  · by_cases hstat : (waitTurn n.cu utimeout ev).stat = some .success
    · refine .inr ⟨i, p, ⟨some p, ev.inbuf, (waitTurn n.cu utimeout ev).cu.claResp,
        (waitTurn n.cu utimeout ev).cu.claUserdata, (waitTurn n.cu utimeout ev).result⟩, hp, rfl,
        rfl, ?_, ?_, ht.numfree⟩
      · simp only [Node.step, Ledger.turn, Ledger.deliver, ht.freed, if_pos hstat,
          Ledger.release, Option.bind_some]
        cases (waitTurn n.cu utimeout ev).resent <;> simp [Ledger.resend, hp]
      · simp only [Node.step, Ledger.turn, Ledger.deliver, ht.freed, if_pos hstat,
          Ledger.release]
        cases (waitTurn n.cu utimeout ev).resent <;> rfl
    · refine .inl ⟨hstat, ?_⟩
      simp only [Node.step, Ledger.turn, Ledger.deliver, ht.freed, if_neg hstat, Ledger.release]
      cases (waitTurn n.cu utimeout ev).resent <;> rfl

/-- A wait is the run of its turns. -/
theorem clntaudpWait_ran {n : Node ρ} (h : n.Inv) {utimeout : Timeval} {evs : List (NetEv ρ)}
    {t : Turn ρ} (hw : clntaudpWait n.cu utimeout evs = some (t, [])) :
    WaitRan n t (run Node.step n (waitOps utimeout evs)) := by
  induction evs generalizing n with
  | nil => simp [clntaudpWait] at hw
  | cons ev evs ih =>
      simp only [clntaudpWait] at hw
      simp only [waitOps_cons, run_cons]
      rcases waitTurn_cases n.cu utimeout ev with ht | ⟨i, s, ht⟩
      · obtain ⟨hslots, hdel, hnext⟩ := waitTurn_keeps ht
        obtain ⟨hsetup, hxres⟩ := waitTurn_setup n.cu utimeout ev
        have hinv := h.waitTurn utimeout ev
        cases hstat : (waitTurn n.cu utimeout ev).stat with
        | some st =>
            simp only [hstat, Option.some.injEq, Prod.mk.injEq] at hw
            obtain ⟨rfl, rfl⟩ := hw
            exact ⟨rfl, hinv, hsetup, hxres, hnext, .inl ⟨ht.stat, hdel⟩, waitTurn_result⟩
        | none =>
            simp only [hstat] at hw
            have hr := ih hinv hw
            refine ⟨hr.cu, hr.inv, hsetup.trans hr.setup, hr.xresults.trans hxres,
              hr.next.trans hnext, ?_, hr.result⟩
            have hnum : (n.step (.waitTurn utimeout ev)).cu.mcuNumfreescu =
                n.cu.mcuNumfreescu := ht.numfree
            simpa only [hslots, hdel, hnum] using hr.outcome
      · have hran := waitTurn_frees h ht
        cases hstat : (waitTurn n.cu utimeout ev).stat with
        | some st =>
            simp only [hstat, Option.some.injEq, Prod.mk.injEq] at hw
            obtain ⟨rfl, rfl⟩ := hw
            exact hran
        | none => exact absurd hstat ht.returned

/-- In every run of a client in which no synchronous call is made while slot 0 carries a
request, the slots follow the protocol in every state. -/
theorem slotProtocol_of_callsApart {wait : Timeval} {sendsz numasync : Nat} {xid : UInt32}
    {callhdr : List UInt8} {cu : McuData}
    (hcreate : clntaudpBufcreate wait sendsz numasync xid callhdr = some cu) (ops : List (Op ρ))
    (hops : Guarded Node.step CallsApart (Node.fresh cu) ops) :
    SlotProtocol (run Node.step (Node.fresh cu) ops) :=
  (hops.invariant (fun _ op h hok => h.step op hok) (Node.inv_fresh hcreate)).slotProtocol

section Example

/-- A request of procedure `proc` with null credentials and one argument word. -/
def plainRequest (proc arg : UInt32) (resultsp userdata : Nat) : Request where
  proc := proc
  auth := ⟨List.replicate 16 0, by decide⟩
  xargs xdrs := (true, xdrs.put (be32 arg))
  xresults := 1
  resultsp := resultsp
  userdata := userdata
  block := []

/-- A client with the three slots the handler asks for. -/
def threeSlots : McuData where
  mcuNumfreescu := 3
  mcuXid := 5
  mcuScu := List.replicate 3 ⟨false, be32 5 ++ List.replicate 16 0, 0, 0, ⟨0, 0⟩, 0⟩
  mcuWait := ⟨5, 0⟩
  mcuTotal := ⟨-1, -1⟩
  mcuError := .success
  mcuXresults := 0
  mcuSendsz := 8800
  callhdr := List.replicate 16 0
  claResp := 0
  claUserdata := 0

theorem threeSlots_created :
    clntaudpBufcreate ⟨5, 0⟩ 8800 3 5 (List.replicate 16 0) = some threeSlots := rfl

/-- Send, abort, then call: the run meets the condition. -/
theorem slotProtocol_send_abort_call :
    SlotProtocol (run Node.step (Node.fresh threeSlots : Node Unit)
      [.sendsb (plainRequest 8 1 10 20) true, .abort,
        .call (plainRequest 4 2 30 40) ⟨25, 0⟩ true [.selectErr]]) :=
  slotProtocol_of_callsApart threeSlots_created _
    ⟨trivial, trivial, fun s hs => by cases hs; rfl, trivial⟩

/-- A synchronous call made while a request is pending in slot 0 replaces the datagram
stored for it. -/
theorem not_slotProtocol_send_call :
    ¬ ∀ ops : List (Op Unit), SlotProtocol (run Node.step (Node.fresh threeSlots) ops) := by
  intro h
  obtain ⟨s, hs, -, hstored⟩ := (h [.sendsb (plainRequest 8 1 10 20) true,
    .call (plainRequest 4 2 30 40) ⟨25, 0⟩ true [.selectErr]]).stored 0
      ⟨0, plainRequest 8 1 10 20, _, _⟩ rfl
  cases hs
  revert hstored
  decide

end Example

end Anfs.Rpc
