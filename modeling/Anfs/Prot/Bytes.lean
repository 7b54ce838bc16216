import Anfs.Prot.Routines
import Mathlib.Data.List.TakeWhile

/-!
# Byte strings, booleans and unions

The judgements of `Anfs.Prot.Routines` for the routines whose size depends on the object.
-/
namespace Anfs.Xdr
open Anfs.Lib

def boolWord (b : Bool) : UInt32 := if b then 1 else 0

theorem xdrBool_codes : xdrBool.Codes (fun _ => True) (fun b => be32 (boolWord b))
    fun v _ => v where
  encode xdrs b hop _ hroom hlt := by
    simp [xdrBool, hop, xdrmemPutlong_eq xdrs _ hroom hlt, boolWord]
  decode xdrs b b₀ rest hop _ hpriv hroom hlt := by
    cases b <;> simp [xdrBool, hop, xdrmemGetlong_eq xdrs _ hroom hlt, hpriv, boolWord]

theorem xdrmemGetlong_yields {xdrs : XDR} (h : xdrs.Whole) (lp : UInt32)
    (hok : (xdrmemGetlong xdrs lp).1 = true) :
    4 ≤ xdrs.xPrivate.length ∧
      xdrmemGetlong xdrs lp = (true, xdrs.advance 4, ofBe32 xdrs.xPrivate) := by
  by_cases hroom : 4 ≤ xdrs.xHandy
  · have hleft := h.left
    exact ⟨by omega, xdrmemGetlong_eq xdrs lp hroom h.lt⟩
  · rw [xdrmemGetlong_short h.ready (by omega)] at hok
    exact absurd hok (by decide)

theorem xdrmemGetbytes_yields {xdrs : XDR} (h : xdrs.Whole) {len : Nat} (hlen : len ≤ 2147483648)
    (hok : (xdrmemGetbytes xdrs len).1 = true) :
    len ≤ xdrs.xPrivate.length ∧
      xdrmemGetbytes xdrs len = (true, xdrs.advance len, xdrs.xPrivate.take len) := by
  by_cases hroom : (len : Int) ≤ xdrs.xHandy
  · have hleft := h.left
    exact ⟨by omega, xdrmemGetbytes_eq xdrs len hroom h.lt⟩
  · have hneg := long_short h.ready.nonneg hlen (show xdrs.xHandy < (len : Int) by omega)
    simp [xdrmemGetbytes, hneg] at hok

theorem xdrBool_yields : xdrBool.Yields (fun _ => True) fun _ => True := by
  intro xdrs b hwhole _ hok
  by_cases hget : (xdrmemGetlong xdrs 0).1 = true
  · obtain ⟨hlen, hget⟩ := xdrmemGetlong_yields hwhole 0 hget
    simp only [xdrBool, hwhole.op, hget]
    exact ⟨4, hlen, rfl, trivial⟩
  · cases hr : xdrmemGetlong xdrs 0 with
    | mk ok r =>
        rw [hr] at hget
        cases ok with
        | true => exact absurd rfl hget
        | false => simp [xdrBool, hwhole.op, hr] at hok

/-- The objects a counted string of bytes stands for: its length is a `u_int`. -/
def IsBytes (bs : List UInt8) : Prop := bs.length < 4294967296

theorem toNat_ofNat_length {bs : List UInt8} (h : IsBytes bs) :
    (UInt32.ofNat bs.length).toNat = bs.length := by
  rw [UInt32.toNat_ofNat']
  exact Nat.mod_eq_of_lt h

theorem xdrBytes_guards (maxsize : Nat) :
    (xdrBytes maxsize).Guards IsBytes fun bs => bs.length ≤ maxsize where
  op xdrs bs hop := by
    have hguards := xdrOpaque_guards (UInt32.ofNat bs.length).toNat
    have hput := xdrmemPutlong_xOp xdrs (UInt32.ofNat bs.length)
    simp only [xdrBytes, xdrUInt, xdrULong_encode xdrs _ hop]
    cases hr : xdrmemPutlong xdrs (UInt32.ofNat bs.length) with
    | mk ok xdrs' =>
        rw [hr, hop] at hput
        simp only at hput
        cases ok with
        | false => exact hput
        | true =>
            simp only [hput]
            split
            · exact hput
            · exact hguards.op xdrs' bs hput
  same xdrs bs hop := by
    have hguards := xdrOpaque_guards (UInt32.ofNat bs.length).toNat
    have hput := xdrmemPutlong_xOp xdrs (UInt32.ofNat bs.length)
    simp only [xdrBytes, xdrUInt, xdrULong_encode xdrs _ hop]
    cases hr : xdrmemPutlong xdrs (UInt32.ofNat bs.length) with
    | mk ok xdrs' =>
        rw [hr, hop] at hput
        simp only at hput
        cases ok with
        | false => rfl
        | true =>
            simp only [hput]
            split
            · rfl
            · exact hguards.same xdrs' bs hput
  limits xdrs bs hop hshape hok := by
    have hput := xdrmemPutlong_xOp xdrs (UInt32.ofNat bs.length)
    simp only [xdrBytes, xdrUInt, xdrULong_encode xdrs _ hop] at hok
    cases hr : xdrmemPutlong xdrs (UInt32.ofNat bs.length) with
    | mk ok xdrs' =>
        rw [hr, hop] at hput
        simp only at hput
        rw [hr] at hok
        cases ok with
        | false => simp at hok
        | true =>
            simp only [hput, toNat_ofNat_length hshape] at hok
            split at hok
            · simp at hok
            · next h => simpa using h

/-- A C string: no zero among its bytes. -/
structure IsString (s : List UInt8) : Prop where
  isBytes : IsBytes s
  nonzero : ∀ c ∈ s, c ≠ 0

theorem strlen_eq {s : List UInt8} (h : ∀ c ∈ s, c ≠ 0) : strlen s = s.length := by
  have : s.takeWhile (· ≠ 0) = s := by
    rw [List.takeWhile_eq_self_iff]
    simpa using h
  rw [strlen, this]

/-- Strings are encoded as the bytes they are made of. -/
theorem xdrString_encode (maxsize : Nat) (xdrs : XDR) (s : List UInt8)
    (hop : xdrs.xOp = .encode) (hs : ∀ c ∈ s, c ≠ 0) :
    xdrString maxsize xdrs s = xdrBytes maxsize xdrs s := by
  have hput := xdrmemPutlong_xOp xdrs (UInt32.ofNat s.length)
  simp only [xdrString, xdrBytes, xdrUInt, strlen_eq hs, xdrULong_encode xdrs _ hop]
  cases hr : xdrmemPutlong xdrs (UInt32.ofNat s.length) with
  | mk ok xdrs' =>
      rw [hr, hop] at hput
      simp only at hput
      cases ok <;> simp [hput]

theorem xdrString_codes {maxsize : Nat} (hmax : maxsize < 4294967296) :
    (xdrString maxsize).Codes (fun s => (∀ c ∈ s, c ≠ 0) ∧ s.length ≤ maxsize) counted
      fun v _ => v where
  encode xdrs s hop hv hroom hlt := by
    rw [xdrString_encode maxsize xdrs s hop hv.1]
    exact (xdrBytes_codes hmax).encode xdrs s hop hv.2 hroom hlt
  decode xdrs s v₀ rest hop hv hpriv hroom hlt := by
    have hnat := toNat_length hv.2 hmax
    simp only [counted, List.length_append, be32_length, Int.natCast_add,
      List.append_assoc] at hroom hpriv
    have hword := xdrULong_codes.decode xdrs (UInt32.ofNat s.length)
      (UInt32.ofNat (strlen v₀)) _ hop trivial hpriv (by simp; omega) hlt
    by_cases h0 : s.length = 0
    · have : s = [] := List.eq_nil_of_length_eq_zero h0
      subst this
      simp [xdrString, hword, hop, counted, padded, pad, xdrOpaque]
    · have hdata := xdrOpaque_decode (xdrs.advance 4) s [] rest h0 (by simpa using hop)
        (by simp [hpriv, List.drop_append]) (by simp; omega) (by simp; omega)
      simp [xdrString, hword, hnat, hop, Nat.not_lt.mpr hv.2, hdata, counted]

theorem xdrString_op (maxsize : Nat) (xdrs : XDR) (s : List UInt8) (hop : xdrs.xOp = .encode) :
    (xdrString maxsize xdrs s).2.1.xOp = .encode ∧ (xdrString maxsize xdrs s).2.2 = s := by
  have hguards := xdrOpaque_guards (UInt32.ofNat (strlen s)).toNat
  have hput := xdrmemPutlong_xOp xdrs (UInt32.ofNat (strlen s))
  simp only [xdrString, xdrUInt, xdrULong_encode xdrs _ hop]
  cases hr : xdrmemPutlong xdrs (UInt32.ofNat (strlen s)) with
  | mk ok xdrs' =>
      rw [hr, hop] at hput
      simp only at hput
      cases ok with
      | false => exact ⟨hput, rfl⟩
      | true =>
          simp only [hput]
          split
          · exact ⟨hput, rfl⟩
          · exact ⟨hguards.op xdrs' s hput, hguards.same xdrs' s hput⟩

theorem xdrString_guards (maxsize : Nat) :
    (xdrString maxsize).Guards IsString fun s => s.length ≤ maxsize where
  op xdrs s hop := (xdrString_op maxsize xdrs s hop).1
  same xdrs s hop := (xdrString_op maxsize xdrs s hop).2
  limits xdrs s hop hshape hok := by
    rw [xdrString_encode maxsize xdrs s hop hshape.nonzero] at hok
    exact (xdrBytes_guards maxsize).limits xdrs s hop hshape.isBytes hok

theorem xdrOpaque_yields {cnt : Nat} (h0 : cnt ≠ 0) (hcnt : cnt ≤ 2147483648) :
    (xdrOpaque cnt).Yields (fun _ => True) fun bs => bs.length = cnt := by
  intro xdrs bs hwhole _ hok
  have hpad := pad_lt cnt
  have hfirst : (xdrmemGetbytes xdrs cnt).1 = true := by
    cases hr : xdrmemGetbytes xdrs cnt with
    | mk ok r =>
        cases ok with
        | true => rfl
        | false => simp [xdrOpaque, h0, hwhole.op, hr] at hok
  obtain ⟨hlen, hget⟩ := xdrmemGetbytes_yields hwhole hcnt hfirst
  have htake : (xdrs.xPrivate.take cnt).length = cnt := by
    rw [List.length_take, Nat.min_eq_left hlen]
  simp only [xdrOpaque, if_neg h0, hwhole.op, hget] at hok ⊢
  split
  · exact ⟨cnt, hlen, rfl, htake⟩
  · next hp =>
      rw [if_neg hp] at hok
      obtain ⟨hlen', hget'⟩ := xdrmemGetbytes_yields (hwhole.advance hlen) (by omega) hok
      simp only [XDR.advance_xPrivate, List.length_drop] at hlen'
      rw [hget']
      exact ⟨cnt + pad cnt, by omega, by simp, htake⟩

theorem xdrULong_yields (P : UInt32 → Prop) : xdrULong.Yields P fun _ => True :=
  xdrULong_fixed.yields fun _ _ _ => trivial

theorem xdrBytes_yields {maxsize : Nat} (hmax : maxsize ≤ 2147483648) :
    (xdrBytes maxsize).Yields (fun _ => True) fun bs => bs.length ≤ maxsize := by
  intro xdrs bs hwhole _ hok
  cases hr : xdrULong xdrs (UInt32.ofNat bs.length) with
  | mk ok r =>
      have hword := xdrULong_yields (fun _ => True) xdrs (UInt32.ofNat bs.length) hwhole trivial
      rw [hr] at hword
      cases ok with
      | false => simp [xdrBytes, xdrUInt, hr] at hok
      | true =>
          obtain ⟨m, hm, hadv, -⟩ := hword rfl
          obtain ⟨xdrs', nodesize⟩ := r
          simp only at hadv
          subst hadv
          simp only [xdrBytes, xdrUInt, hr, XDR.advance_xOp, hwhole.op] at hok ⊢
          split
          · next h => simp [h] at hok
          · next hle =>
              rw [if_neg hle] at hok
              have hsize : nodesize.toNat ≤ maxsize := by simpa using hle
              split
              · exact ⟨m, hm, rfl, Nat.zero_le _⟩
              · next h0 =>
                  rw [if_neg h0] at hok
                  obtain ⟨n, hn, hadv', hlen⟩ := xdrOpaque_yields h0 (by omega) _ bs
                    (hwhole.advance hm) trivial hok
                  simp only [XDR.advance_xPrivate, List.length_drop] at hn
                  exact ⟨m + n, by omega, by rw [hadv', XDR.advance_advance], by omega⟩

theorem xdrString_yields {maxsize : Nat} (hmax : maxsize ≤ 2147483648) :
    (xdrString maxsize).Yields (fun _ => True) fun s => s.length ≤ maxsize := by
  intro xdrs s hwhole _ hok
  cases hr : xdrULong xdrs (UInt32.ofNat (strlen s)) with
  | mk ok r =>
      have hword := xdrULong_yields (fun _ => True) xdrs (UInt32.ofNat (strlen s)) hwhole trivial
      rw [hr] at hword
      cases ok with
      | false => simp [xdrString, xdrUInt, hr] at hok
      | true =>
          obtain ⟨m, hm, hadv, -⟩ := hword rfl
          obtain ⟨xdrs', size⟩ := r
          simp only at hadv
          subst hadv
          simp only [xdrString, xdrUInt, hr, XDR.advance_xOp, hwhole.op] at hok ⊢
          split
          · next h => simp [h] at hok
          · next hle =>
              rw [if_neg hle] at hok
              by_cases h0 : size.toNat = 0
              · simp only [h0, xdrOpaque, if_pos]
                exact ⟨m, hm, rfl, Nat.zero_le _⟩
              · obtain ⟨n, hn, hadv', hlen⟩ := xdrOpaque_yields h0 (by omega) _ []
                  (hwhole.advance hm) trivial hok
                simp only [XDR.advance_xPrivate, List.length_drop] at hn
                exact ⟨m + n, by omega, by rw [hadv', XDR.advance_advance], by omega⟩

theorem xdrNfsFh_guards : xdrNfsFh.Guards (fun _ => True) fun _ => True :=
  xdrOpaque_guards nfsFhsize

theorem xdrNfsFh_yields : xdrNfsFh.Yields (fun _ => True) fun fh => fh.length = nfsFhsize :=
  xdrOpaque_yields (by decide) (by decide)

section Union
variable {α : Type} {p : XdrProc α}

def Res.bytes (enc : α → List UInt8) (r : Res α) : List UInt8 :=
  be32 r.status ++ if r.status = NFS_OK then enc r.body else []

theorem xdrRes_codes {valid : α → Prop} {enc : α → List UInt8}
    (hp : p.Codes valid enc fun v _ => v) :
    (xdrRes p).Codes (fun r => r.status = NFS_OK → valid r.body) (Res.bytes enc)
      (fun r r₀ => if r.status = NFS_OK then r else { r with body := r₀.body }) where
  encode xdrs r hop hv hroom hlt := by
    simp only [Res.bytes, List.length_append, be32_length, Int.natCast_add] at hroom
    have hstatus := xdrULong_codes.encode xdrs r.status hop trivial (by simp; omega) hlt
    simp only [xdrRes, XdrProc.andThen, XdrProc.field, xdrEnum, xdrLong, hstatus, Res.bytes]
    by_cases hok : r.status = NFS_OK
    · simp only [if_pos hok] at hroom ⊢
      rw [hp.encode (xdrs.put (be32 r.status)) r.body hop (hv hok) (by simp; omega)
        (by simp; omega), XDR.put_put]
    · simp only [if_neg hok, List.append_nil]
  decode xdrs r r₀ rest hop hv hpriv hroom hlt := by
    simp only [Res.bytes, List.length_append, be32_length, Int.natCast_add,
      List.append_assoc] at hroom hpriv
    have hstatus := xdrULong_codes.decode xdrs r.status r₀.status _ hop trivial hpriv
      (by simp; omega) hlt
    rw [be32_length] at hstatus
    simp only [xdrRes, XdrProc.andThen, XdrProc.field, xdrEnum, xdrLong, hstatus, Res.bytes]
    by_cases hok : r.status = NFS_OK
    · simp only [if_pos hok] at hroom hpriv ⊢
      rw [hp.decode (xdrs.advance 4) r.body r₀.body rest hop (hv hok)
        (by simp [hpriv, List.drop_append]) (by simp; omega) (by simp; omega)]
      simp
    · simp only [if_neg hok, List.append_nil, be32_length]

theorem xdrRes_guards {shape limits : α → Prop} (hp : p.Guards shape limits) :
    (xdrRes p).Guards (fun r => r.status = NFS_OK → shape r.body)
      (fun r => r.status = NFS_OK → limits r.body) := by
  have hstatus : (xdrEnum.field (fun r : Res α => r.status)
      (fun v r => { r with status := v })).Guards (fun _ => True) (fun _ => True) :=
    xdrULong_guards.field (fun r : Res α => r.status) (fun v r => { r with status := v })
      fun _ => rfl
  have hbody : XdrProc.Guards (fun xdrs (r : Res α) =>
      if r.status = NFS_OK then (p.field (·.body) fun v r => { r with body := v }) xdrs r
      else (true, xdrs, r)) (fun r => r.status = NFS_OK → shape r.body)
      (fun r => r.status = NFS_OK → limits r.body) := by
    constructor
    · intro xdrs r hop
      split
      · exact hp.op xdrs r.body hop
      · exact hop
    · intro xdrs r hop
      split
      · simp only [XdrProc.field, hp.same xdrs r.body hop]
      · rfl
    · intro xdrs r hop hshape hok hst
      rw [if_pos hst] at hok
      exact hp.limits xdrs r.body hop (hshape hst) hok
  exact (hstatus.andThen hbody).mono (fun _ h => ⟨trivial, h⟩) fun _ h => h.2

theorem xdrRes_yields {limits : α → Prop} (hp : p.Yields (fun _ => True) limits) :
    (xdrRes p).Yields (fun _ => True) (fun r => r.status = NFS_OK → limits r.body) := by
  have hstatus : (xdrEnum.field (fun r : Res α => r.status)
      (fun v r => { r with status := v })).Yields (fun _ => True) (fun _ => True) :=
    (xdrULong_fixed.field (fun r : Res α => r.status) (fun v r => { r with status := v })
      fun _ => rfl).yields fun _ _ _ => trivial
  have hbody : XdrProc.Yields (fun xdrs (r : Res α) =>
      if r.status = NFS_OK then (p.field (·.body) fun v r => { r with body := v }) xdrs r
      else (true, xdrs, r)) (fun _ => True) (fun r => r.status = NFS_OK → limits r.body) := by
    intro xdrs r hwhole _ hok
    by_cases hst : r.status = NFS_OK
    · simp only [if_pos hst] at hok ⊢
      obtain ⟨n, hn, hadv, hpost⟩ := hp xdrs r.body hwhole trivial hok
      exact ⟨n, hn, hadv, fun _ => hpost⟩
    · simp only [if_neg hst]
      exact ⟨0, Nat.zero_le _, by simp [XDR.advance], fun h => absurd h hst⟩
  exact hstatus.andThen hbody

end Union

end Anfs.Xdr
