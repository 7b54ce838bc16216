import Anfs.Xdr

/-!
# More XDR routines, and judgements on routines

Booleans, enumerations, strings and inline words. What is proved of a routine is one of
four judgements, each of which is closed under sequencing and under applying a routine to
a field: what it writes and reads back (`Codes`), that it has a fixed size (`Fixed`), which
objects it refuses to encode (`Guards`), and what a successful decoder stores (`Yields`).
-/
namespace Anfs.Xdr
open Anfs.Lib

/-- Open coded in the source, and the same as `xdrULong`. -/
abbrev xdrLong : XdrProc UInt32 := xdrULong

/-- Enumerations are treated as ints. -/
def xdrEnum : XdrProc UInt32 := xdrLong

def xdrBool : XdrProc Bool := fun xdrs bp =>
  match xdrs.xOp with
  | .encode => let r := xdrmemPutlong xdrs (if bp then 1 else 0); (r.1, r.2, bp)
  | .decode =>
      match xdrmemGetlong xdrs 0 with
      | (false, xdrs', _) => (false, xdrs', bp)
      | (true, xdrs', lb) => (true, xdrs', lb ≠ 0)
  | .free => (true, xdrs, bp)

/-- `strlen` of the string stored at `sp`, the bytes of `sp` being followed by a zero. -/
def strlen (sp : List UInt8) : Nat := (sp.takeWhile (· ≠ 0)).length

/-- Null terminated strings. A decoder stores into new memory, which ends with a zero. -/
def xdrString (maxsize : Nat) : XdrProc (List UInt8) := fun xdrs cpp =>
  match xdrUInt xdrs (UInt32.ofNat (strlen cpp)) with
  | (false, xdrs', _) => (false, xdrs', cpp)
  | (true, xdrs', size) =>
      if maxsize < size.toNat then (false, xdrs', cpp)
      else
        match xdrs'.xOp with
        | .decode => xdrOpaque size.toNat xdrs' []
        | .encode => xdrOpaque size.toNat xdrs' cpp
        | .free => (true, xdrs', [])

/-- `xdrmem_inline`: room for `len` bytes, both sides compared as unsigned numbers. -/
def xdrmemInline (xdrs : XDR) (len : Nat) : Option Int :=
  if (len : Int) ≤ ulong xdrs.xHandy then some (long (xdrs.xHandy - len)) else none

/-- The words `ws` put inline. -/
def ixdrPut (xdrs : XDR) (ws : List UInt32) : Bool × XDR :=
  match xdrmemInline xdrs (4 * ws.length) with
  | none => (false, xdrs)
  | some handy => (true, { xdrs with xHandy := handy, xBase := xdrs.xBase ++ ws.flatMap be32 })

/-- Word number `i` of the bytes `buf`. -/
def wordAt (buf : List UInt8) (i : Nat) : UInt32 := ofBe32 (buf.drop (4 * i))

/-- The bytes of `n` words got inline. -/
def ixdrGet (xdrs : XDR) (n : Nat) : Option (XDR × List UInt8) :=
  (xdrmemInline xdrs (4 * n)).map fun handy =>
    ({ xdrs with xHandy := handy, xPrivate := xdrs.xPrivate.drop (4 * n) }, xdrs.xPrivate)

/-- The inline branches of a routine of `n` words, `slow` is its other branch. -/
def xdrInlined {α : Type} (n : Nat) (words : α → List UInt32) (load : List UInt8 → α → α)
    (slow : XdrProc α) : XdrProc α := fun xdrs objp =>
  match xdrs.xOp with
  | .encode => let r := ixdrPut xdrs (words objp); (r.1, r.2, objp)
  | .decode =>
      match ixdrGet xdrs n with
      | none => (false, xdrs, objp)
      | some (xdrs', buf) => (true, xdrs', load buf objp)
  | .free => slow xdrs objp

/-- A result with a status: the body is coded if the status is `NFS_OK`. -/
structure Res (α : Type) where
  status : UInt32
  body : α
  deriving DecidableEq, Repr

def NFS_OK : UInt32 := 0

def xdrRes {α : Type} (p : XdrProc α) : XdrProc (Res α) :=
  (xdrEnum.field (·.status) fun v r => { r with status := v }).andThen fun xdrs r =>
    if r.status = NFS_OK then (p.field (·.body) fun v r => { r with body := v }) xdrs r
    else (true, xdrs, r)

/-- The object at the start of the chain `pp`, which is read into new zeroed memory `zero`
if there is none, and the chain behind it. -/
def xdrReference {α : Type} (zero : α) (proc : XdrProc (α × List α)) : XdrProc (List α) :=
  fun xdrs pp =>
    match xdrs.xOp, pp with
    | .free, [] => (true, xdrs, [])
    | .free, loc :: next => let r := proc xdrs (loc, next); (r.1, r.2.1, [])
    | _, pp =>
        let r := proc xdrs (pp.headD zero, pp.tail)
        (r.1, r.2.1, r.2.2.1 :: r.2.2.2)

/-- A pointer to an object or to nothing; the list holds the chain of objects behind it. -/
def xdrPointer {α : Type} (zero : α) (xdrObj : XdrProc (α × List α)) : XdrProc (List α) :=
  fun xdrs objpp =>
    match xdrBool xdrs (!objpp.isEmpty) with
    | (false, xdrs', _) => (false, xdrs', objpp)
    | (true, xdrs', moreData) =>
        if moreData then xdrReference zero xdrObj xdrs' objpp else (true, xdrs', [])

/-- A stream in use: what is left of the room that `xdrmem_create` was told. -/
structure XDR.Ready (xdrs : XDR) : Prop where
  nonneg : 0 ≤ xdrs.xHandy
  lt : xdrs.xHandy < 2147483648

theorem XDR.Ready.put {xdrs : XDR} (h : xdrs.Ready) {bs : List UInt8}
    (hroom : (bs.length : Int) ≤ xdrs.xHandy) : (xdrs.put bs).Ready where
  nonneg := by simp only [put_xHandy]; omega
  lt := by have := h.lt; simp only [put_xHandy]; omega

theorem XDR.Ready.advance {xdrs : XDR} (h : xdrs.Ready) {n : Nat}
    (hroom : (n : Int) ≤ xdrs.xHandy) : (xdrs.advance n).Ready where
  nonneg := by simp only [advance_xHandy]; omega
  lt := by have := h.lt; simp only [advance_xHandy]; omega

/-- `p` codes exactly `n` words, and fails if there is no room for them. -/
structure XdrProc.Fixed {α : Type} (p : XdrProc α) (n : Nat) (enc : α → List UInt8)
    (load : List UInt8 → α → α) : Prop where
  length : ∀ v, (enc v).length = 4 * n
  encode : ∀ xdrs v, xdrs.xOp = .encode → xdrs.Ready → (4 * n : Int) ≤ xdrs.xHandy →
    p xdrs v = (true, xdrs.put (enc v), v)
  decode : ∀ xdrs v, xdrs.xOp = .decode → xdrs.Ready → (4 * n : Int) ≤ xdrs.xHandy →
    p xdrs v = (true, xdrs.advance (4 * n), load xdrs.xPrivate v)
  short : ∀ xdrs v, xdrs.xOp ≠ .free → xdrs.Ready → xdrs.xHandy < (4 * n : Int) →
    (p xdrs v).1 = false

theorem XdrProc.andThen_fails {α : Type} {p q : XdrProc α} {xdrs : XDR} {v : α}
    (h : (p xdrs v).1 = false) : (p.andThen q xdrs v).1 = false := by
  unfold XdrProc.andThen
  cases hr : p xdrs v with
  | mk ok r =>
      rw [hr] at h
      simp only at h
      subst h
      rfl

section Fixed
variable {α β : Type} {p q : XdrProc α} {m n : Nat} {ep eq : α → List UInt8}
  {lp lq : List UInt8 → α → α}

theorem XdrProc.Fixed.andThen (hp : p.Fixed m ep lp) (hq : q.Fixed n eq lq) :
    (p.andThen q).Fixed (m + n) (fun v => ep v ++ eq v)
      (fun bs v => lq (bs.drop (4 * m)) (lp bs v)) where
  length v := by
    rw [List.length_append, hp.length, hq.length]
    omega
  encode xdrs v hop hready hroom := by
    simp only [Int.natCast_add] at hroom
    have hlen := hp.length v
    have h := hp.encode xdrs v hop hready (by omega)
    simp only [XdrProc.andThen, h]
    rw [hq.encode _ v (by simpa using hop) (hready.put (by omega))
      (by simp only [XDR.put_xHandy, hlen]; omega)]
    simp
  decode xdrs v hop hready hroom := by
    simp only [Int.natCast_add] at hroom
    have h := hp.decode xdrs v hop hready (by omega)
    simp only [XdrProc.andThen, h]
    rw [hq.decode _ _ (by simpa using hop) (hready.advance (by omega))
      (by simp only [XDR.advance_xHandy]; omega)]
    simp [Nat.mul_add]
  short xdrs v hop hready hroom := by
    simp only [Int.natCast_add] at hroom
    by_cases hm : (4 * m : Int) ≤ xdrs.xHandy
    · cases hdir : xdrs.xOp with
      | encode =>
          have hlen := hp.length v
          simp only [XdrProc.andThen, hp.encode xdrs v hdir hready hm]
          exact hq.short _ v (by simp [hdir]) (hready.put (by omega))
            (by simp only [XDR.put_xHandy, hlen]; omega)
      | decode =>
          simp only [XdrProc.andThen, hp.decode xdrs v hdir hready hm]
          exact hq.short _ _ (by simp [hdir]) (hready.advance (by omega))
            (by simp only [XDR.advance_xHandy]; omega)
      | free => exact absurd hdir hop
    · exact XdrProc.andThen_fails (hp.short xdrs v hop hready (by omega))

theorem XdrProc.Fixed.field {p : XdrProc β} {enc : β → List UInt8} {load : List UInt8 → β → β}
    (hp : p.Fixed n enc load) (get : α → β) (set : β → α → α) (hset : ∀ v, set (get v) v = v) :
    (p.field get set).Fixed n (fun v => enc (get v)) (fun bs v => set (load bs (get v)) v) where
  length v := hp.length (get v)
  encode xdrs v hop hready hroom := by
    simp only [XdrProc.field, hp.encode xdrs (get v) hop hready hroom, hset]
  decode xdrs v hop hready hroom := by
    simp only [XdrProc.field, hp.decode xdrs (get v) hop hready hroom]
  short xdrs v hop hready hroom := hp.short xdrs (get v) hop hready hroom

theorem XdrProc.Fixed.congr (hp : p.Fixed m ep lp) (hn : m = n) (henc : ∀ v, ep v = eq v)
    (hload : ∀ bs v, lp bs v = lq bs v) : p.Fixed n eq lq := by
  obtain rfl : ep = eq := funext henc
  obtain rfl : lp = lq := funext fun bs => funext fun v => hload bs v
  subst hn
  exact hp

/-- A routine of fixed size reads back what it writes if its words determine the object. -/
theorem XdrProc.Fixed.codes (hp : p.Fixed n ep lp)
    (hload : ∀ v v₀ rest, lp (ep v ++ rest) v₀ = v) : p.Codes (fun _ => True) ep fun v _ => v where
  encode xdrs v hop _ hroom hlt := by
    have hlen := hp.length v
    exact hp.encode xdrs v hop ⟨by omega, hlt⟩ (by omega)
  decode xdrs v v₀ rest hop _ hpriv hroom hlt := by
    have hlen := hp.length v
    rw [hp.decode xdrs v₀ hop ⟨by omega, hlt⟩ (by omega), hlen, hpriv, hload]

/-- Two codings with the same words succeed on the same streams, and then agree. -/
theorem XdrProc.Fixed.agree (hp : p.Fixed n ep lp) (hq : q.Fixed n ep lp) (xdrs : XDR) (v : α)
    (hop : xdrs.xOp ≠ .free) (hready : xdrs.Ready) :
    (p xdrs v).1 = (q xdrs v).1 ∧ ((p xdrs v).1 = true → p xdrs v = q xdrs v) := by
  by_cases hroom : (4 * n : Int) ≤ xdrs.xHandy
  · have hpq : p xdrs v = q xdrs v := by
      cases hdir : xdrs.xOp with
      | encode => rw [hp.encode xdrs v hdir hready hroom, hq.encode xdrs v hdir hready hroom]
      | decode => rw [hp.decode xdrs v hdir hready hroom, hq.decode xdrs v hdir hready hroom]
      | free => exact absurd hdir hop
    exact ⟨by rw [hpq], fun _ => hpq⟩
  · have hpf := hp.short xdrs v hop hready (by omega)
    have hqf := hq.short xdrs v hop hready (by omega)
    exact ⟨by rw [hpf, hqf], fun ht => by simp [hpf] at ht⟩

end Fixed

theorem long_short {h : Int} {n : Nat} (hnonneg : 0 ≤ h) (hn : n ≤ 2147483648)
    (hshort : h < (n : Int)) : long (h - n) < 0 := by
  rw [long_of_isLong ⟨by omega, by omega⟩]
  omega

theorem xdrmemGetlong_short {xdrs : XDR} (h : xdrs.Ready) (hshort : xdrs.xHandy < 4)
    (lp : UInt32) : (xdrmemGetlong xdrs lp).1 = false := by
  have hneg : long (xdrs.xHandy - 4) < 0 := long_short (n := 4) h.nonneg (by decide) hshort
  simp [xdrmemGetlong, hneg]

theorem xdrmemPutlong_short {xdrs : XDR} (h : xdrs.Ready) (hshort : xdrs.xHandy < 4)
    (lp : UInt32) : (xdrmemPutlong xdrs lp).1 = false := by
  have hneg : long (xdrs.xHandy - 4) < 0 := long_short (n := 4) h.nonneg (by decide) hshort
  simp [xdrmemPutlong, hneg]

theorem xdrmemGetlong_eq (xdrs : XDR) (lp : UInt32) (hroom : 4 ≤ xdrs.xHandy)
    (hlt : xdrs.xHandy < 2147483648) :
    xdrmemGetlong xdrs lp = (true, xdrs.advance 4, ofBe32 xdrs.xPrivate) := by
  obtain ⟨hl, hneg⟩ : long (xdrs.xHandy - 4) = xdrs.xHandy - 4 ∧ ¬ xdrs.xHandy - 4 < 0 :=
    long_room (n := 4) hroom hlt
  simp [xdrmemGetlong, hl, hneg, XDR.advance]

theorem xdrULong_fixed : xdrULong.Fixed 1 be32 fun bs _ => ofBe32 bs where
  length := be32_length
  encode xdrs v hop hready hroom := by
    simp [xdrULong, hop, xdrmemPutlong_eq xdrs v (by omega) hready.lt]
  decode xdrs v hop hready hroom := by
    simp [xdrULong, hop, xdrmemGetlong_eq xdrs v (by omega) hready.lt]
  short xdrs v hop hready hroom := by
    cases hdir : xdrs.xOp with
    | encode => simp [xdrULong, hdir, xdrmemPutlong_short hready (by omega)]
    | decode => simp [xdrULong, hdir, xdrmemGetlong_short hready (by omega)]
    | free => exact absurd hdir hop

theorem flatMap_be32_length (ws : List UInt32) : (ws.flatMap be32).length = 4 * ws.length := by
  induction ws with
  | nil => rfl
  | cons w ws ih =>
      rw [List.flatMap_cons, List.length_append, be32_length, ih, List.length_cons]
      omega

theorem wordAt_cons_zero (w : UInt32) (rest : List UInt8) : wordAt (be32 w ++ rest) 0 = w := by
  simp [wordAt]

theorem wordAt_cons_succ (w : UInt32) (rest : List UInt8) (i : Nat) :
    wordAt (be32 w ++ rest) (i + 1) = wordAt rest i := by
  simp only [wordAt, List.drop_append, be32_length, Nat.mul_add]
  rw [List.drop_eq_nil_of_le (by rw [be32_length]; omega), List.nil_append,
    show 4 * i + 4 * 1 - 4 = 4 * i by omega]

section Inlined
variable {α : Type} {n : Nat} {words : α → List UInt32} {load : List UInt8 → α → α}
  {slow : XdrProc α}

theorem xdrmemInline_eq {xdrs : XDR} (h : xdrs.Ready) (hroom : (n : Int) ≤ xdrs.xHandy) :
    xdrmemInline xdrs n = some (xdrs.xHandy - n) := by
  have hu : ulong xdrs.xHandy = xdrs.xHandy := by
    have := h.nonneg
    have := h.lt
    simp only [ulong]
    omega
  rw [xdrmemInline, hu, if_pos hroom, (long_room hroom h.lt).1]

theorem xdrmemInline_short {xdrs : XDR} (h : xdrs.Ready) (hroom : xdrs.xHandy < (n : Int)) :
    xdrmemInline xdrs n = none := by
  have hu : ulong xdrs.xHandy = xdrs.xHandy := by
    have := h.nonneg
    have := h.lt
    simp only [ulong]
    omega
  rw [xdrmemInline, hu, if_neg (by omega)]

theorem xdrInlined_fixed (hwords : ∀ v, (words v).length = n) :
    (xdrInlined n words load slow).Fixed n (fun v => (words v).flatMap be32) load where
  length v := by rw [flatMap_be32_length, hwords]
  encode xdrs v hop hready hroom := by
    have h := xdrmemInline_eq (n := 4 * (words v).length) hready (by rw [hwords]; omega)
    simp only [xdrInlined, hop, ixdrPut, h, XDR.put, flatMap_be32_length]
  decode xdrs v hop hready hroom := by
    have h := xdrmemInline_eq (n := 4 * n) hready (by omega)
    simp [xdrInlined, hop, ixdrGet, h, XDR.advance]
  short xdrs v hop hready hroom := by
    cases hdir : xdrs.xOp with
    | encode =>
        have h := xdrmemInline_short (n := 4 * (words v).length) hready (by rw [hwords]; omega)
        simp [xdrInlined, hdir, ixdrPut, h]
    | decode =>
        have h := xdrmemInline_short (n := 4 * n) hready (by omega)
        simp [xdrInlined, hdir, ixdrGet, h]
    | free => exact absurd hdir hop

end Inlined

/-- Encoding leaves the object as it is, and accepts an object of the given shape only
within its limits, whatever the room. -/
structure XdrProc.Guards {α : Type} (p : XdrProc α) (shape limits : α → Prop) : Prop where
  op : ∀ xdrs v, xdrs.xOp = .encode → (p xdrs v).2.1.xOp = .encode
  same : ∀ xdrs v, xdrs.xOp = .encode → (p xdrs v).2.2 = v
  limits : ∀ xdrs v, xdrs.xOp = .encode → shape v → (p xdrs v).1 = true → limits v

section Guards
variable {α β : Type} {p q : XdrProc α} {sp sq lp lq : α → Prop}

theorem XdrProc.andThen_encode (hp : p.Guards sp lp) {xdrs : XDR} {v : α}
    (hop : xdrs.xOp = .encode) :
    p.andThen q xdrs v = if (p xdrs v).1 then q (p xdrs v).2.1 v
      else (false, (p xdrs v).2.1, v) := by
  have hsame := hp.same xdrs v hop
  unfold XdrProc.andThen
  cases hr : p xdrs v with
  | mk ok r =>
      rw [hr] at hsame
      simp only at hsame
      cases ok <;> simp [← hsame]

theorem XdrProc.Guards.andThen (hp : p.Guards sp lp) (hq : q.Guards sq lq) :
    (p.andThen q).Guards (fun v => sp v ∧ sq v) (fun v => lp v ∧ lq v) where
  op xdrs v hop := by
    rw [andThen_encode hp hop]
    split
    · exact hq.op _ v (hp.op xdrs v hop)
    · exact hp.op xdrs v hop
  same xdrs v hop := by
    rw [andThen_encode hp hop]
    split
    · exact hq.same _ v (hp.op xdrs v hop)
    · rfl
  limits xdrs v hop hshape hok := by
    rw [andThen_encode hp hop] at hok
    split at hok
    · next h =>
        exact ⟨hp.limits xdrs v hop hshape.1 h,
          hq.limits _ v (hp.op xdrs v hop) hshape.2 hok⟩
    · simp at hok

theorem XdrProc.Guards.field {p : XdrProc β} {shape limits : β → Prop}
    (hp : p.Guards shape limits) (get : α → β) (set : β → α → α)
    (hset : ∀ v, set (get v) v = v) :
    (p.field get set).Guards (fun v => shape (get v)) (fun v => limits (get v)) where
  op xdrs v hop := hp.op xdrs (get v) hop
  same xdrs v hop := by simp only [XdrProc.field, hp.same xdrs (get v) hop, hset]
  limits xdrs v hop := hp.limits xdrs (get v) hop

theorem XdrProc.Guards.mono (hp : p.Guards sp lp) (hs : ∀ v, sq v → sp v)
    (hl : ∀ v, lp v → lq v) : p.Guards sq lq where
  op := hp.op
  same := hp.same
  limits xdrs v hop hshape hok := hl v (hp.limits xdrs v hop (hs v hshape) hok)

end Guards

@[simp] theorem xdrmemPutlong_xOp (xdrs : XDR) (lp : UInt32) :
    (xdrmemPutlong xdrs lp).2.xOp = xdrs.xOp := by
  simp only [xdrmemPutlong]
  split <;> rfl

@[simp] theorem xdrmemPutbytes_xOp (xdrs : XDR) (addr : List UInt8) (len : Nat) :
    (xdrmemPutbytes xdrs addr len).2.xOp = xdrs.xOp := by
  simp only [xdrmemPutbytes]
  split <;> rfl

@[simp] theorem ixdrPut_xOp (xdrs : XDR) (ws : List UInt32) :
    (ixdrPut xdrs ws).2.xOp = xdrs.xOp := by
  simp only [ixdrPut]
  split <;> rfl

theorem xdrULong_guards : xdrULong.Guards (fun _ => True) fun _ => True where
  op xdrs v hop := by simp [xdrULong, hop]
  same xdrs v hop := by simp [xdrULong, hop]
  limits _ _ _ _ _ := trivial

theorem xdrBool_guards : xdrBool.Guards (fun _ => True) fun _ => True where
  op xdrs v hop := by simp [xdrBool, hop]
  same xdrs v hop := by simp [xdrBool, hop]
  limits _ _ _ _ _ := trivial

theorem xdrInlined_guards {α : Type} (n : Nat) (words : α → List UInt32)
    (load : List UInt8 → α → α) (slow : XdrProc α) :
    (xdrInlined n words load slow).Guards (fun _ => True) fun _ => True where
  op xdrs v hop := by simp [xdrInlined, hop]
  same xdrs v hop := by simp [xdrInlined, hop]
  limits _ _ _ _ _ := trivial

theorem xdrOpaque_guards (cnt : Nat) : (xdrOpaque cnt).Guards (fun _ => True) fun _ => True where
  op xdrs v hop := by
    have hput := xdrmemPutbytes_xOp xdrs v cnt
    simp only [xdrOpaque, hop]
    split
    · exact hop
    · split <;> simp_all
      split <;> simp_all
  same xdrs v hop := by
    simp only [xdrOpaque, hop]
    split
    · rfl
    · split
      · rfl
      · split <;> rfl
  limits _ _ _ _ _ := trivial

theorem xdrULong_encode (xdrs : XDR) (v : UInt32) (hop : xdrs.xOp = .encode) :
    xdrULong xdrs v = ((xdrmemPutlong xdrs v).1, (xdrmemPutlong xdrs v).2, v) := by
  simp [xdrULong, hop]

/-- A decoder's stream: the room left counts the bytes in front of it. -/
structure XDR.Whole (xdrs : XDR) : Prop where
  op : xdrs.xOp = .decode
  left : xdrs.xHandy = xdrs.xPrivate.length
  lt : xdrs.xHandy < 2147483648

theorem XDR.Whole.ready {xdrs : XDR} (h : xdrs.Whole) : xdrs.Ready where
  nonneg := by rw [h.left]; omega
  lt := h.lt

theorem XDR.Whole.advance {xdrs : XDR} (h : xdrs.Whole) {n : Nat}
    (hn : n ≤ xdrs.xPrivate.length) : (xdrs.advance n).Whole where
  op := h.op
  left := by
    have := h.left
    simp only [advance_xHandy, advance_xPrivate, List.length_drop]
    omega
  lt := by
    have := h.lt
    simp only [advance_xHandy]
    omega

/-- From an object in `P`, a decoder that succeeds has read some of the bytes it was given,
none past their end, and stores an object in `Q`. -/
def XdrProc.Yields {α : Type} (p : XdrProc α) (P Q : α → Prop) : Prop :=
  ∀ xdrs v, xdrs.Whole → P v → (p xdrs v).1 = true →
    ∃ n, n ≤ xdrs.xPrivate.length ∧ (p xdrs v).2.1 = xdrs.advance n ∧ Q (p xdrs v).2.2

section Yields
variable {α β : Type} {p q : XdrProc α} {P Q R : α → Prop} {n : Nat}

theorem XdrProc.Yields.andThen (hp : p.Yields P Q) (hq : q.Yields Q R) :
    (p.andThen q).Yields P R := by
  intro xdrs v hwhole hv hok
  cases hr : p xdrs v with
  | mk ok r =>
      have hp' := hp xdrs v hwhole hv
      rw [hr] at hp'
      cases ok with
      | false => simp [XdrProc.andThen, hr] at hok
      | true =>
          obtain ⟨m, hm, hadv, hmid⟩ := hp' rfl
          simp only [XdrProc.andThen, hr] at hok ⊢
          simp only at hadv
          rw [hadv] at hok ⊢
          obtain ⟨n, hn, hadv', hpost⟩ := hq _ _ (hwhole.advance hm) hmid hok
          simp only [XDR.advance_xPrivate, List.length_drop] at hn
          exact ⟨m + n, by omega, by rw [hadv', XDR.advance_advance], hpost⟩

/-- The rest of the object, of which `F` is a property, stays as it was. -/
theorem XdrProc.Yields.field {p : XdrProc β} {Q : β → Prop} (hp : p.Yields (fun _ => True) Q)
    (get : α → β) (set : β → α → α) (F : α → Prop) (hget : ∀ b v, get (set b v) = b)
    (hframe : ∀ b v, F v → F (set b v)) :
    (p.field get set).Yields F (fun v => F v ∧ Q (get v)) := by
  intro xdrs v hwhole hv hok
  obtain ⟨n, hn, hadv, hpost⟩ := hp xdrs (get v) hwhole trivial hok
  refine ⟨n, hn, hadv, hframe _ _ hv, ?_⟩
  simpa only [XdrProc.field, hget] using hpost

/-- A routine for a part of the object keeps what holds of the rest. -/
theorem XdrProc.Yields.frame {p : XdrProc β} {Q : β → Prop} (hp : p.Yields (fun _ => True) Q)
    (get : α → β) (set : β → α → α) (F : α → Prop) (hframe : ∀ b v, F v → F (set b v)) :
    (p.field get set).Yields F F := by
  intro xdrs v hwhole hv hok
  obtain ⟨n, hn, hadv, -⟩ := hp xdrs (get v) hwhole trivial hok
  exact ⟨n, hn, hadv, hframe _ _ hv⟩

theorem XdrProc.Yields.mono (hp : p.Yields P Q) {P' Q' : α → Prop} (hP : ∀ v, P' v → P v)
    (hQ : ∀ v, Q v → Q' v) : p.Yields P' Q' := by
  intro xdrs v hwhole hv hok
  obtain ⟨n, hn, hadv, hpost⟩ := hp xdrs v hwhole (hP v hv) hok
  exact ⟨n, hn, hadv, hQ _ hpost⟩

theorem XdrProc.Fixed.yields {enc : α → List UInt8} {load : List UInt8 → α → α}
    (hp : p.Fixed n enc load) (hload : ∀ bs v, P v → Q (load bs v)) : p.Yields P Q := by
  intro xdrs v hwhole hv hok
  have hleft := hwhole.left
  by_cases hroom : (4 * n : Int) ≤ xdrs.xHandy
  · rw [hp.decode xdrs v hwhole.op hwhole.ready hroom]
    exact ⟨4 * n, by omega, rfl, hload _ _ hv⟩
  · have hshort := hp.short xdrs v (by simp [hwhole.op]) hwhole.ready (by omega)
    simp [hshort] at hok

end Yields

end Anfs.Xdr
