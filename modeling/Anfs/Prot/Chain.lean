import Anfs.Prot.Bytes

/-!
# Chains of objects

A recursive routine codes an object and, through a pointer, the chain behind it. The depth
of the recursion is the length of the chain, for which a decoder finds a bound in the
number of bytes it was given.
-/
namespace Anfs.Xdr
open Anfs.Lib

section Chain
variable {α : Type}

/-- The pointer to a chain of objects, each coded by `p` and followed by such a pointer.
The first argument bounds the depth of the recursion. -/
def xdrChain (zero : α) (p : XdrProc α) : Nat → XdrProc (List α)
  | 0 => fun xdrs objpp => (false, xdrs, objpp)
  | fuel + 1 =>
      xdrPointer zero <|
        (p.field Prod.fst fun e cell => (e, cell.2)).andThen <|
          (xdrChain zero p fuel).field Prod.snd fun next cell => (cell.1, next)

/-- A chain on the wire. -/
def chainBytes (enc : α → List UInt8) : List α → List UInt8
  | [] => be32 (boolWord false)
  | e :: next => be32 (boolWord true) ++ (enc e ++ chainBytes enc next)

variable {zero : α} {p : XdrProc α}

theorem xdrChain_codes (zero : α) {valid : α → Prop} {enc : α → List UInt8}
    (hp : p.Codes valid enc fun v _ => v) (l : List α) :
    ∀ fuel, l.length < fuel →
      (xdrChain zero p fuel).Codes (fun l' => l' = l ∧ ∀ e ∈ l', valid e) (chainBytes enc)
        fun v _ => v := by
  induction l with
  | nil =>
      intro fuel hfuel
      obtain ⟨fuel, rfl⟩ : ∃ n, fuel = n + 1 := ⟨fuel - 1, by omega⟩
      constructor
      · rintro xdrs - hop ⟨rfl, -⟩ hroom hlt
        have hbool := xdrBool_codes.encode xdrs false hop trivial hroom hlt
        simp [xdrChain, xdrPointer, hbool, chainBytes]
      · rintro xdrs - l₀ rest hop ⟨rfl, -⟩ hpriv hroom hlt
        have hbool := xdrBool_codes.decode xdrs false (!l₀.isEmpty) rest hop trivial hpriv hroom hlt
        simp [xdrChain, xdrPointer, hbool, chainBytes]
  | cons e next ih =>
      intro fuel hfuel
      obtain ⟨fuel, rfl⟩ : ∃ n, fuel = n + 1 := ⟨fuel - 1, by omega⟩
      have hhead := hp.field (Prod.fst : α × List α → α) (fun e cell => (e, cell.2)) fun _ => rfl
      have htail := (ih fuel (by simpa using hfuel)).field (Prod.snd : α × List α → List α)
        (fun next cell => (cell.1, next)) fun _ => rfl
      have hcell := hhead.andThen htail
      constructor
      · rintro xdrs - hop ⟨rfl, hv⟩ hroom hlt
        simp only [chainBytes, List.length_append, be32_length, Int.natCast_add] at hroom
        have hbool := xdrBool_codes.encode xdrs true hop trivial (by simp; omega) hlt
        have hmore := hcell.encode (xdrs.put (be32 (boolWord true))) (e, next) hop
          ⟨hv e (by simp), rfl, fun e' he' => hv e' (by simp [he'])⟩ (by simp; omega)
          (by simp; omega)
        simp [xdrChain, xdrPointer, hbool, xdrReference, hop, hmore, chainBytes]
      · rintro xdrs - l₀ rest hop ⟨rfl, hv⟩ hpriv hroom hlt
        simp only [chainBytes, List.length_append, be32_length, Int.natCast_add,
          List.append_assoc] at hroom hpriv
        have hbool := xdrBool_codes.decode xdrs true (!l₀.isEmpty) _ hop trivial hpriv
          (by simp; omega) hlt
        have hmore := hcell.decode (xdrs.advance 4) (e, next) (l₀.headD zero, l₀.tail) rest hop
          ⟨hv e (by simp), rfl, fun e' he' => hv e' (by simp [he'])⟩
          (by simp [hpriv, List.drop_append]) (by simp; omega) (by simp; omega)
        rw [be32_length] at hbool
        simp only [xdrChain, xdrPointer, hbool, xdrReference, XDR.advance_xOp, hop, hmore, if_pos]
        simp [chainBytes]

theorem xdrReference_guards {q : XdrProc (α × List α)} {shape limits : α → Prop}
    (hq : q.Guards (fun cell => ∀ e ∈ cell.1 :: cell.2, shape e)
      fun cell => ∀ e ∈ cell.1 :: cell.2, limits e) :
    ∀ xdrs e next, xdrs.xOp = .encode →
      (xdrReference zero q xdrs (e :: next)).2.1.xOp = .encode ∧
        (xdrReference zero q xdrs (e :: next)).2.2 = e :: next ∧
          ((∀ e' ∈ e :: next, shape e') → (xdrReference zero q xdrs (e :: next)).1 = true →
            ∀ e' ∈ e :: next, limits e') := by
  intro xdrs e next hop
  have hsame := hq.same xdrs (e, next) hop
  simp only [xdrReference, hop, List.headD_cons, List.tail_cons]
  refine ⟨hq.op xdrs _ hop, ?_, fun hshape hok => hq.limits xdrs _ hop hshape hok⟩
  rw [hsame]

theorem xdrPointer_guards {q : XdrProc (α × List α)} {shape limits : α → Prop}
    (hq : q.Guards (fun cell => ∀ e ∈ cell.1 :: cell.2, shape e)
      fun cell => ∀ e ∈ cell.1 :: cell.2, limits e) :
    (xdrPointer zero q).Guards (fun l => ∀ e ∈ l, shape e) fun l => ∀ e ∈ l, limits e := by
  have hsplit : ∀ xdrs l, xdrs.xOp = .encode →
      (xdrPointer zero q xdrs l).2.1.xOp = .encode ∧ (xdrPointer zero q xdrs l).2.2 = l ∧
        ((∀ e ∈ l, shape e) → (xdrPointer zero q xdrs l).1 = true → ∀ e ∈ l, limits e) := by
    intro xdrs l hop
    have hbop := xdrBool_guards.op xdrs (!l.isEmpty) hop
    have hbsame := xdrBool_guards.same xdrs (!l.isEmpty) hop
    unfold xdrPointer
    cases hr : xdrBool xdrs (!l.isEmpty) with
    | mk ok r =>
        obtain ⟨xdrs', moreData⟩ := r
        rw [hr] at hbop hbsame
        simp only at hbop hbsame
        subst hbsame
        cases ok with
        | false => exact ⟨hbop, rfl, fun _ h => by simp at h⟩
        | true =>
            cases l with
            | nil => exact ⟨hbop, rfl, fun _ _ => by simp⟩
            | cons e next => exact xdrReference_guards hq xdrs' e next hbop
  exact ⟨fun xdrs l hop => (hsplit xdrs l hop).1, fun xdrs l hop => (hsplit xdrs l hop).2.1,
    fun xdrs l hop => (hsplit xdrs l hop).2.2⟩

theorem xdrChain_guards {shape limits : α → Prop} (hp : p.Guards shape limits) (fuel : Nat) :
    (xdrChain zero p fuel).Guards (fun l => ∀ e ∈ l, shape e) fun l => ∀ e ∈ l, limits e := by
  induction fuel with
  | zero => exact ⟨fun _ _ hop => hop, fun _ _ _ => rfl, fun _ _ _ _ h => by simp [xdrChain] at h⟩
  | succ fuel ih =>
      have hhead := hp.field (Prod.fst : α × List α → α) (fun e cell => (e, cell.2)) fun _ => rfl
      have htail := ih.field (Prod.snd : α × List α → List α)
        (fun next cell => (cell.1, next)) fun _ => rfl
      refine xdrPointer_guards ((hhead.andThen htail).mono ?_ ?_)
      · intro cell h
        exact ⟨h cell.1 (by simp), fun e he => h e (by simp [he])⟩
      · rintro cell ⟨hfst, hsnd⟩ e he
        obtain rfl | he := List.mem_cons.mp he
        · exact hfst
        · exact hsnd e he

theorem xdrPointer_yields {q : XdrProc (α × List α)} {limits : α → Prop}
    (hq : q.Yields (fun _ => True) fun cell => ∀ e ∈ cell.1 :: cell.2, limits e) :
    (xdrPointer zero q).Yields (fun _ => True) fun l => ∀ e ∈ l, limits e := by
  intro xdrs l hwhole _ hok
  have hbool := xdrBool_yields xdrs (!l.isEmpty) hwhole trivial
  unfold xdrPointer at hok ⊢
  cases hr : xdrBool xdrs (!l.isEmpty) with
  | mk ok r =>
      obtain ⟨xdrs', moreData⟩ := r
      rw [hr] at hbool hok
      cases ok with
      | false => simp at hok
      | true =>
          obtain ⟨m, hm, hadv, -⟩ := hbool rfl
          simp only at hadv
          subst hadv
          cases moreData with
          | false => exact ⟨m, hm, rfl, by simp⟩
          | true =>
              simp only [if_pos, xdrReference, XDR.advance_xOp, hwhole.op] at hok ⊢
              obtain ⟨n, hn, hadv', hlim⟩ := hq _ _ (hwhole.advance hm) trivial hok
              simp only [XDR.advance_xPrivate, List.length_drop] at hn
              exact ⟨m + n, by omega, by rw [hadv', XDR.advance_advance], hlim⟩

theorem xdrChain_yields {limits : α → Prop} (hp : p.Yields (fun _ => True) limits)
    (fuel : Nat) :
    (xdrChain zero p fuel).Yields (fun _ => True) fun l => ∀ e ∈ l, limits e := by
  induction fuel with
  | zero => exact fun _ _ _ _ hok => by simp [xdrChain] at hok
  | succ fuel ih =>
      have hhead := hp.field (Prod.fst : α × List α → α) (fun e cell => (e, cell.2))
        (fun _ => True) (fun _ _ => rfl) fun _ _ h => h
      have htail := ih.field (Prod.snd : α × List α → List α) (fun next cell => (cell.1, next))
        (fun cell => limits cell.1) (fun _ _ => rfl) fun _ _ h => h
      have hcell := (hhead.mono (fun _ h => h) fun _ h => h.2).andThen htail
      exact xdrPointer_yields (hcell.mono (fun _ h => h) fun _ h => List.forall_mem_cons.mpr h)

section Depth
variable {limits : α → Prop}

/-- An encoder's recursion ends with the chain. -/
theorem xdrChain_encode_enough {shape : α → Prop} (hp : p.Guards shape limits) (fuel more : Nat) :
    ∀ xdrs l, xdrs.xOp = .encode → l.length < fuel →
      xdrChain zero p (fuel + more) xdrs l = xdrChain zero p fuel xdrs l := by
  induction fuel with
  | zero => exact fun _ _ _ h => absurd h (Nat.not_lt_zero _)
  | succ fuel ih =>
      intro xdrs l hop hfuel
      have hbop := xdrBool_guards.op xdrs (!l.isEmpty) hop
      have hbsame := xdrBool_guards.same xdrs (!l.isEmpty) hop
      rw [show fuel + 1 + more = fuel + more + 1 by omega]
      simp only [xdrChain, xdrPointer]
      cases hr : xdrBool xdrs (!l.isEmpty) with
      | mk ok r =>
          obtain ⟨xdrs', moreData⟩ := r
          rw [hr] at hbop hbsame
          simp only at hbop hbsame
          subst hbsame
          cases ok with
          | false => rfl
          | true =>
              cases l with
              | nil => rfl
              | cons e next =>
                  have hnext := ih (p xdrs' e).2.1 next (hp.op xdrs' e hbop)
                    (by simpa using hfuel)
                  have hhead := hp.field (Prod.fst : α × List α → α)
                    (fun e cell => (e, cell.2)) fun _ => rfl
                  have hcell : ((p.field Prod.fst fun e cell => (e, cell.2)).andThen
                      ((xdrChain zero p (fuel + more)).field Prod.snd
                        fun next cell => (cell.1, next))) xdrs' (e, next) =
                      ((p.field Prod.fst fun e cell => (e, cell.2)).andThen
                        ((xdrChain zero p fuel).field Prod.snd
                          fun next cell => (cell.1, next))) xdrs' (e, next) := by
                    rw [XdrProc.andThen_encode hhead hbop, XdrProc.andThen_encode hhead hbop]
                    split
                    · simp only [XdrProc.field, hnext]
                    · rfl
                  simp only [xdrReference, hbop, List.headD_cons, List.tail_cons, hcell]

/-- A decoder's recursion ends with the bytes. -/
theorem xdrChain_decode_enough (hp : p.Yields (fun _ => True) limits) (fuel more : Nat) :
    ∀ xdrs l, xdrs.Whole → xdrs.xPrivate.length < fuel →
      xdrChain zero p (fuel + more) xdrs l = xdrChain zero p fuel xdrs l := by
  induction fuel with
  | zero => exact fun _ _ _ h => absurd h (Nat.not_lt_zero _)
  | succ fuel ih =>
      intro xdrs l hwhole hfuel
      rw [show fuel + 1 + more = fuel + more + 1 by omega]
      simp only [xdrChain, xdrPointer]
      by_cases hword : (xdrmemGetlong xdrs 0).1 = true
      · obtain ⟨hlen, hget⟩ := xdrmemGetlong_yields hwhole 0 hword
        have hwhole' := hwhole.advance hlen
        simp only [xdrBool, hwhole.op, hget, xdrReference, XDR.advance_xOp, XdrProc.andThen,
          XdrProc.field]
        split
        · cases hr : p (xdrs.advance 4) (l.headD zero) with
          | mk ok r =>
              have hhead := hp (xdrs.advance 4) (l.headD zero) hwhole' trivial
              rw [hr] at hhead
              cases ok with
              | false => rfl
              | true =>
                  obtain ⟨n, hn, hadv, -⟩ := hhead rfl
                  simp only at hadv
                  have hnext := ih r.1 l.tail (by rw [hadv]; exact hwhole'.advance hn)
                    (by rw [hadv]; simp; omega)
                  simp only [hnext]
        · rfl
      · cases hr : xdrmemGetlong xdrs 0 with
        | mk ok r =>
            rw [hr] at hword
            cases ok with
            | true => exact absurd rfl hword
            | false => simp only [xdrBool, hwhole.op, hr]

end Depth

end Chain

end Anfs.Xdr
