import Anfs.Rpc.Ledger

/-!
# Retransmissions

A wait that runs into the retry timeout sends the output buffer of one slot again. The
buffer does not contain the raw data block of a scatter send.
-/
namespace Anfs.Rpc
open Anfs.Lib Anfs.Xdr

variable {ρ : Type}

/-- Every datagram sent again is the one first sent for the request in its slot. -/
def ResendsFaithful (n : Node ρ) : Prop :=
  ∀ r ∈ n.led.resends, ∃ p, r.req = some p ∧ r.bytes = p.wire

/-- The slot that the scan after a retry timeout picks. -/
def retryPick (cu : McuData) (utimeout : Timeval) (cb : Nat → Bool) : Option Nat :=
  (timeoutScan cu.mcuWait (effTimeout cu utimeout) cb 0 cu.mcuScu).2

/-- A retry timeout picks only slots whose request has no raw data block. -/
def RetriesPlain (n : Node ρ) : Op ρ → Prop
  | .waitTurn utimeout (.timeout cb _) =>
      ∀ i p, retryPick n.cu utimeout cb = some i → n.led.slots i = some p → p.req.block = []
  | _ => True

theorem Node.Inv.resendsFaithful_turn {n : Node ρ} (h : n.Inv) (hr : ResendsFaithful n)
    (utimeout : Timeval) (ev : NetEv ρ) (hok : RetriesPlain n (.waitTurn utimeout ev)) :
    ResendsFaithful (n.step (.waitTurn utimeout ev)) := by
  have hkeep : (n.step (.waitTurn utimeout ev)).led.resends =
      (n.led.resend (Rpc.waitTurn n.cu utimeout ev).resent).resends := by
    simp only [Node.step, Ledger.turn, Ledger.deliver]
    split <;> split <;> rfl
  cases hres : (Rpc.waitTurn n.cu utimeout ev).resent with
  | none =>
      rw [hres] at hkeep
      simpa only [ResendsFaithful, hkeep, Ledger.resend] using hr
  | some x =>
      obtain ⟨i, bytes⟩ := x
      obtain ⟨cb, sent, s, rfl, hpick, hs, huse, rfl⟩ := waitTurn_resent hres
      obtain ⟨p, hp, hbuf⟩ : ∃ p, n.led.slots i = some p ∧ s.scuOutbuf = p.stored := by
        have hocc := h.occupies i s hs
        cases hp : n.led.slots i with
        | none =>
            rw [hp] at hocc
            exact absurd huse (by simp [show s.scuInuse = false from hocc])
        | some p => rw [hp] at hocc; exact ⟨p, rfl, hocc.2.1⟩
      have hwire : p.wire = s.scuOutbuf := by
        rw [h.wire i p hp, hok i p hpick hp, List.append_nil, hbuf]
      intro r hmem
      rw [hkeep, hres] at hmem
      rcases List.mem_cons.mp hmem with rfl | hmem
      · exact ⟨p, hp, hwire.symm⟩
      · exact hr r hmem

theorem resends_sendsb (n : Node ρ) (r : Request) (sent : Bool) :
    (n.step (.sendsb r sent)).led.resends = n.led.resends := by
  simp only [Node.step]
  split <;> rfl

theorem resends_call (n : Node ρ) (r : Request) (utimeout : Timeval) (sent : Bool)
    (evs : List (NetEv ρ)) : (n.step (.call r utimeout sent evs)).led.resends = n.led.resends := by
  simp only [Node.step]
  split <;> rfl

theorem Node.Inv.resendsFaithful {n : Node ρ} (h : n.Inv) (hr : ResendsFaithful n) (op : Op ρ)
    (hok : RetriesPlain n op) : ResendsFaithful (n.step op) := by
  cases op with
  | sendsb r sent => simpa only [ResendsFaithful, resends_sendsb] using hr
  | waitTurn utimeout ev => exact h.resendsFaithful_turn hr utimeout ev hok
  | abort => exact hr
  | call r utimeout sent evs => simpa only [ResendsFaithful, resends_call] using hr
  | setTimeout t => exact hr
  | setRetryTimeout t => exact hr

/-- In every run whose retransmissions pick only requests without a raw data block, and
whose synchronous calls find slot 0 free, everything sent again was sent before. -/
theorem resendsFaithful_of_plain {wait : Timeval} {sendsz numasync : Nat} {xid : UInt32}
    {callhdr : List UInt8} {cu : McuData}
    (hcreate : clntaudpBufcreate wait sendsz numasync xid callhdr = some cu) (ops : List (Op ρ))
    (hops : Guarded Node.step (fun n op => CallsApart n op ∧ RetriesPlain n op)
      (Node.fresh cu) ops) :
    ResendsFaithful (run Node.step (Node.fresh cu) ops) := by
  have hfresh : ResendsFaithful (Node.fresh cu : Node ρ) := by simp [ResendsFaithful, Node.fresh]
  refine (hops.invariant (P := fun n => n.Inv ∧ ResendsFaithful n) (fun n op h hok => ?_)
    ⟨Node.inv_fresh hcreate, hfresh⟩).2
  exact ⟨h.1.step op hok.1, h.1.resendsFaithful h.2 op hok.2⟩

/-- A request without a block survives two retry timeouts. -/
theorem resendsFaithful_two_timeouts :
    ResendsFaithful (run Node.step (Node.fresh threeSlots : Node Unit)
      [.sendsb (plainRequest 8 1 10 20) true,
        .waitTurn ⟨25, 0⟩ (.timeout (fun _ => false) true),
        .waitTurn ⟨25, 0⟩ (.timeout (fun _ => false) true)]) := by
  refine resendsFaithful_of_plain threeSlots_created _
    ⟨⟨trivial, trivial⟩, ⟨trivial, ?_⟩, ⟨trivial, ?_⟩, trivial⟩
  · intro i p hi hp
    cases hi
    cases hp
    rfl
  · intro i p hi hp
    cases hi
    cases hp
    rfl

/-- The first retry timeout after a scatter send loses the data block. -/
theorem not_resendsFaithful_block :
    ¬ ∀ ops : List (Op Unit), ResendsFaithful (run Node.step (Node.fresh threeSlots) ops) := by
  intro h
  obtain ⟨p, hp, hbytes⟩ := h [.sendsb { plainRequest 8 1 10 20 with block := [65] } true,
    .waitTurn ⟨25, 0⟩ (.timeout (fun _ => false) true)] _ List.mem_cons_self
  cases hp
  revert hbytes
  decide

end Anfs.Rpc
