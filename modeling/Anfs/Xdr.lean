import Mathlib.Tactic.Common
import Anfs.Basic
import Anfs.Lib.Wire

/-!
# XDR memory streams and the NFS write arguments

One routine serves both directions: the stream's operation selects whether the
object is written to the stream or filled from it. The remaining room `xHandy`
is a signed integer that is decremented before it is tested.
-/
namespace Anfs.Xdr
open Anfs.Lib

inductive XdrOp
  | encode
  | decode
  | free
  deriving DecidableEq, Repr

/-- A memory stream: `xBase` holds the bytes already behind the position,
`xPrivate` the bytes a decoder still has in front of it. -/
structure XDR where
  xOp : XdrOp
  xHandy : Int
  xBase : List UInt8
  xPrivate : List UInt8
  deriving DecidableEq, Repr

/-- `xdrmem_create` on an output buffer of `size` bytes. -/
def xdrmemEncode (size : Int) : XDR := ⟨.encode, size, [], []⟩

/-- `xdrmem_create` on the received bytes `buf`. -/
def xdrmemDecode (buf : List UInt8) : XDR := ⟨.decode, buf.length, [], buf⟩

/-- The stream after `bs` was written. -/
def XDR.put (xdrs : XDR) (bs : List UInt8) : XDR :=
  { xdrs with xHandy := xdrs.xHandy - bs.length, xBase := xdrs.xBase ++ bs }

/-- The stream after `n` bytes were read. -/
def XDR.advance (xdrs : XDR) (n : Nat) : XDR :=
  { xdrs with xHandy := xdrs.xHandy - n, xPrivate := xdrs.xPrivate.drop n }

@[simp] theorem XDR.put_xOp (xdrs : XDR) (bs : List UInt8) : (xdrs.put bs).xOp = xdrs.xOp := rfl

@[simp] theorem XDR.put_xBase (xdrs : XDR) (bs : List UInt8) :
    (xdrs.put bs).xBase = xdrs.xBase ++ bs := rfl

@[simp] theorem XDR.put_xHandy (xdrs : XDR) (bs : List UInt8) :
    (xdrs.put bs).xHandy = xdrs.xHandy - bs.length := rfl

@[simp] theorem XDR.advance_xOp (xdrs : XDR) (n : Nat) : (xdrs.advance n).xOp = xdrs.xOp := rfl

@[simp] theorem XDR.advance_xHandy (xdrs : XDR) (n : Nat) :
    (xdrs.advance n).xHandy = xdrs.xHandy - n := rfl

@[simp] theorem XDR.advance_xPrivate (xdrs : XDR) (n : Nat) :
    (xdrs.advance n).xPrivate = xdrs.xPrivate.drop n := rfl

@[simp] theorem XDR.put_put (xdrs : XDR) (bs cs : List UInt8) :
    (xdrs.put bs).put cs = xdrs.put (bs ++ cs) := by
  simp only [XDR.put, List.append_assoc, List.length_append, XDR.mk.injEq, true_and, and_true]
  omega

@[simp] theorem XDR.advance_advance (xdrs : XDR) (m n : Nat) :
    (xdrs.advance m).advance n = xdrs.advance (m + n) := by
  simp only [XDR.advance, List.drop_drop, XDR.mk.injEq, and_true, true_and]
  omega

def xdrmemGetlong (xdrs : XDR) (lp : UInt32) : Bool × XDR × UInt32 :=
  let handy := long (xdrs.xHandy - 4)
  if handy < 0 then (false, { xdrs with xHandy := handy }, lp)
  else (true, { xdrs with xHandy := handy, xPrivate := xdrs.xPrivate.drop 4 },
    ofBe32 xdrs.xPrivate)

def xdrmemPutlong (xdrs : XDR) (lp : UInt32) : Bool × XDR :=
  let handy := long (xdrs.xHandy - 4)
  if handy < 0 then (false, { xdrs with xHandy := handy })
  else (true, { xdrs with xHandy := handy, xBase := xdrs.xBase ++ be32 lp })

def xdrmemGetbytes (xdrs : XDR) (len : Nat) : Bool × XDR × List UInt8 :=
  let handy := long (xdrs.xHandy - len)
  if handy < 0 then (false, { xdrs with xHandy := handy }, [])
  else (true, { xdrs with xHandy := handy, xPrivate := xdrs.xPrivate.drop len },
    xdrs.xPrivate.take len)

def xdrmemPutbytes (xdrs : XDR) (addr : List UInt8) (len : Nat) : Bool × XDR :=
  let handy := long (xdrs.xHandy - len)
  if handy < 0 then (false, { xdrs with xHandy := handy })
  else (true, { xdrs with xHandy := handy, xBase := xdrs.xBase ++ addr.take len })

/-- A routine: success, the stream afterwards and the object afterwards. -/
abbrev XdrProc (α : Type) := XDR → α → Bool × XDR × α

/-- `if (!p(xdrs, objp)) return FALSE;` followed by `q`. -/
def XdrProc.andThen {α : Type} (p q : XdrProc α) : XdrProc α := fun xdrs objp =>
  match p xdrs objp with
  | (false, xdrs', objp') => (false, xdrs', objp')
  | (true, xdrs', objp') => q xdrs' objp'

/-- Apply a routine to the component `&objp->field`. -/
def XdrProc.field {α β : Type} (p : XdrProc β) (get : α → β) (set : β → α → α) : XdrProc α :=
  fun xdrs objp =>
    let r := p xdrs (get objp)
    (r.1, r.2.1, set r.2.2 objp)

def xdrULong : XdrProc UInt32 := fun xdrs ulp =>
  match xdrs.xOp with
  | .decode => xdrmemGetlong xdrs ulp
  | .encode => let r := xdrmemPutlong xdrs ulp; (r.1, r.2, ulp)
  | .free => (true, xdrs, ulp)

abbrev xdrUInt : XdrProc UInt32 := xdrULong

/-- For unit alignment. -/
def xdrZero : List UInt8 := [0, 0, 0, 0]

@[simp] theorem xdrZero_length : xdrZero.length = 4 := rfl

theorem xdrZero_take {n : Nat} (h : n ≤ 4) : xdrZero.take n = List.replicate n 0 := by
  rw [show xdrZero = List.replicate 4 0 from rfl, List.take_replicate, Nat.min_eq_left h]

/-- Opaque data of `cnt` bytes; the padding read by a decoder is thrown away. -/
def xdrOpaque (cnt : Nat) : XdrProc (List UInt8) := fun xdrs cp =>
  if cnt = 0 then (true, xdrs, cp)
  else
    match xdrs.xOp with
    | .decode =>
        match xdrmemGetbytes xdrs cnt with
        | (false, xdrs', _) => (false, xdrs', cp)
        | (true, xdrs', bytes) =>
            if pad cnt = 0 then (true, xdrs', bytes)
            else let r := xdrmemGetbytes xdrs' (pad cnt); (r.1, r.2.1, bytes)
    | .encode =>
        match xdrmemPutbytes xdrs cp cnt with
        | (false, xdrs') => (false, xdrs', cp)
        | (true, xdrs') =>
            if pad cnt = 0 then (true, xdrs', cp)
            else
              let r := xdrmemPutbytes xdrs' xdrZero (pad cnt)
              (r.1, r.2, cp)
    | .free => (true, xdrs, cp)

/-- Counted bytes; the count of an object is the length of its data. -/
def xdrBytes (maxsize : Nat) : XdrProc (List UInt8) := fun xdrs cpp =>
  match xdrUInt xdrs (UInt32.ofNat cpp.length) with
  | (false, xdrs', _) => (false, xdrs', cpp)
  | (true, xdrs', nodesize) =>
      if maxsize < nodesize.toNat ∧ xdrs'.xOp ≠ .free then (false, xdrs', cpp)
      else
        match xdrs'.xOp with
        | .decode =>
            if nodesize.toNat = 0 then (true, xdrs', []) else xdrOpaque nodesize.toNat xdrs' cpp
        | .encode => xdrOpaque nodesize.toNat xdrs' cpp
        | .free => (true, xdrs', [])

def xdrNfsFh : XdrProc (List UInt8) := xdrOpaque nfsFhsize

/-- `writeargs`, with the handle and the data block as byte strings. -/
structure WriteArgs where
  file : List UInt8
  beginoffset : UInt32
  offset : UInt32
  totalcount : UInt32
  data : List UInt8
  deriving DecidableEq, Repr

def xdrFile : XdrProc WriteArgs := xdrNfsFh.field (·.file) fun v a => { a with file := v }

def xdrBeginoffset : XdrProc WriteArgs :=
  xdrUInt.field (·.beginoffset) fun v a => { a with beginoffset := v }

def xdrOffset : XdrProc WriteArgs := xdrUInt.field (·.offset) fun v a => { a with offset := v }

def xdrTotalcount : XdrProc WriteArgs :=
  xdrUInt.field (·.totalcount) fun v a => { a with totalcount := v }

def xdrWriteargs : XdrProc WriteArgs :=
  xdrFile.andThen <| xdrBeginoffset.andThen <| xdrOffset.andThen <| xdrTotalcount.andThen <|
    (xdrBytes nfsMaxdata).field (·.data) fun v a => { a with data := v }

/-- The variant that leaves the data block to the sender: only its length is coded.
It has no use as a decoder, which is why the length it would read is dropped. -/
def xdrWriteargssb : XdrProc WriteArgs :=
  xdrFile.andThen <| xdrBeginoffset.andThen <| xdrOffset.andThen <| xdrTotalcount.andThen <|
    xdrUInt.field (fun a => UInt32.ofNat a.data.length) fun _ a => a

/-- The message body that `nfsproc_send_write_2` sends. -/
def writeBody (room : Int) (argp : WriteArgs) : Option (List UInt8) :=
  match xdrWriteargs (xdrmemEncode room) argp with
  | (true, xdrs, _) => some xdrs.xBase
  | (false, _, _) => none

/-- The message body that `nfsproc_send_writesb_2` sends: the encoder's output, then
the second vector of `sendmsg`, which is the data block as it is. -/
def writesbBody (room : Int) (argp : WriteArgs) : Option (List UInt8) :=
  match xdrWriteargssb (xdrmemEncode room) argp with
  | (true, xdrs, _) => some (xdrs.xBase ++ argp.data)
  | (false, _, _) => none

/-- `p` writes `enc v` for `v`, and from these bytes stores `upd v v₀` over `v₀`. -/
structure XdrProc.Codes {α : Type} (p : XdrProc α) (valid : α → Prop) (enc : α → List UInt8)
    (upd : α → α → α) : Prop where
  encode : ∀ xdrs v, xdrs.xOp = .encode → valid v → ((enc v).length : Int) ≤ xdrs.xHandy →
    xdrs.xHandy < 2147483648 → p xdrs v = (true, xdrs.put (enc v), v)
  decode : ∀ xdrs v v₀ rest, xdrs.xOp = .decode → valid v → xdrs.xPrivate = enc v ++ rest →
    ((enc v).length : Int) ≤ xdrs.xHandy → xdrs.xHandy < 2147483648 →
    p xdrs v₀ = (true, xdrs.advance (enc v).length, upd v v₀)

theorem XdrProc.Codes.andThen {α : Type} {p q : XdrProc α} {vp vq : α → Prop}
    {ep eq : α → List UInt8} {up uq : α → α → α} (hp : p.Codes vp ep up) (hq : q.Codes vq eq uq) :
    (p.andThen q).Codes (fun v => vp v ∧ vq v) (fun v => ep v ++ eq v)
      (fun v v₀ => uq v (up v v₀)) where
  encode xdrs v hop hv hroom hlt := by
    simp only [List.length_append, Int.natCast_add] at hroom
    have h := hp.encode xdrs v hop hv.1 (by omega) hlt
    simp only [XdrProc.andThen, h]
    rw [hq.encode _ v (by simpa using hop) hv.2 (by simp; omega) (by simp; omega)]
    simp
  decode xdrs v v₀ rest hop hv hpriv hroom hlt := by
    simp only [List.length_append, Int.natCast_add, List.append_assoc] at hroom hpriv
    have h := hp.decode xdrs v v₀ _ hop hv.1 hpriv (by omega) hlt
    simp only [XdrProc.andThen, h]
    rw [hq.decode _ v (up v v₀) rest (by simpa using hop) hv.2 (by simp [hpriv])
      (by simp; omega) (by simp; omega)]
    simp

theorem XdrProc.Codes.field {α β : Type} {p : XdrProc β} {valid : β → Prop}
    {enc : β → List UInt8} (hp : p.Codes valid enc fun v _ => v) (get : α → β)
    (set : β → α → α) (hset : ∀ v, set (get v) v = v) :
    (p.field get set).Codes (fun v => valid (get v)) (fun v => enc (get v))
      (fun v v₀ => set (get v) v₀) where
  encode xdrs v hop hv hroom hlt := by
    simp only [XdrProc.field, hp.encode xdrs (get v) hop hv hroom hlt, hset]
  decode xdrs v v₀ rest hop hv hpriv hroom hlt := by
    simp only [XdrProc.field, hp.decode xdrs (get v) (get v₀) rest hop hv hpriv hroom hlt]

theorem long_room {h : Int} {n : Nat} (hroom : (n : Int) ≤ h) (hlt : h < 2147483648) :
    long (h - n) = h - n ∧ ¬ h - n < 0 := by
  refine ⟨long_of_isLong ⟨?_, ?_⟩, ?_⟩ <;> omega

theorem xdrmemPutbytes_eq (xdrs : XDR) (bs : List UInt8) (n : Nat) (hn : n ≤ bs.length)
    (hroom : (n : Int) ≤ xdrs.xHandy) (hlt : xdrs.xHandy < 2147483648) :
    xdrmemPutbytes xdrs bs n = (true, xdrs.put (bs.take n)) := by
  obtain ⟨hl, hneg⟩ := long_room hroom hlt
  simp only [xdrmemPutbytes, hl, if_neg hneg, XDR.put, List.length_take, Nat.min_eq_left hn]

theorem xdrmemGetbytes_eq (xdrs : XDR) (n : Nat) (hroom : (n : Int) ≤ xdrs.xHandy)
    (hlt : xdrs.xHandy < 2147483648) :
    xdrmemGetbytes xdrs n = (true, xdrs.advance n, xdrs.xPrivate.take n) := by
  obtain ⟨hl, hneg⟩ := long_room hroom hlt
  simp only [xdrmemGetbytes, hl, if_neg hneg, XDR.advance]

theorem xdrmemPutlong_eq (xdrs : XDR) (lp : UInt32) (hroom : 4 ≤ xdrs.xHandy)
    (hlt : xdrs.xHandy < 2147483648) : xdrmemPutlong xdrs lp = (true, xdrs.put (be32 lp)) := by
  obtain ⟨hl, hneg⟩ : long (xdrs.xHandy - 4) = xdrs.xHandy - 4 ∧ ¬ xdrs.xHandy - 4 < 0 :=
    long_room (n := 4) hroom hlt
  simp [xdrmemPutlong, hl, hneg, XDR.put]

theorem xdrULong_codes : xdrULong.Codes (fun _ => True) be32 fun v _ => v where
  encode xdrs v hop _ hroom hlt := by
    simp [xdrULong, hop, xdrmemPutlong_eq xdrs v hroom hlt]
  decode xdrs v v₀ rest hop _ hpriv hroom hlt := by
    obtain ⟨hl, hneg⟩ : long (xdrs.xHandy - 4) = xdrs.xHandy - 4 ∧ ¬ xdrs.xHandy - 4 < 0 :=
      long_room (n := 4) hroom hlt
    simp [xdrULong, hop, xdrmemGetlong, hl, hneg, XDR.advance, hpriv]

theorem xdrOpaque_encode (xdrs : XDR) (bs : List UInt8) (hop : xdrs.xOp = .encode)
    (hroom : ((padded bs).length : Int) ≤ xdrs.xHandy) (hlt : xdrs.xHandy < 2147483648) :
    xdrOpaque bs.length xdrs bs = (true, xdrs.put (padded bs), bs) := by
  rw [padded_length] at hroom
  by_cases h0 : bs.length = 0
  · have : bs = [] := List.eq_nil_of_length_eq_zero h0
    subst this
    simp [xdrOpaque, padded, pad, XDR.put]
  · have hput := xdrmemPutbytes_eq xdrs bs bs.length (Nat.le_refl _) (by omega) hlt
    rw [List.take_length] at hput
    by_cases hp : pad bs.length = 0
    · simp [xdrOpaque, h0, hop, hput, hp, padded]
    · have hp4 := pad_lt bs.length
      have hzero := xdrmemPutbytes_eq (xdrs.put bs) xdrZero (pad bs.length)
        (by simp; omega) (by simp; omega) (by simp; omega)
      rw [xdrZero_take (by omega)] at hzero
      simp [xdrOpaque, h0, hop, hput, hp, hzero, padded]

theorem xdrOpaque_decode (xdrs : XDR) (bs v₀ rest : List UInt8) (h0 : bs.length ≠ 0)
    (hop : xdrs.xOp = .decode) (hpriv : xdrs.xPrivate = padded bs ++ rest)
    (hroom : ((padded bs).length : Int) ≤ xdrs.xHandy) (hlt : xdrs.xHandy < 2147483648) :
    xdrOpaque bs.length xdrs v₀ = (true, xdrs.advance (padded bs).length, bs) := by
  rw [padded_length] at hroom ⊢
  have hbytes : xdrs.xPrivate.take bs.length = bs := by
    rw [hpriv, padded, List.append_assoc, List.take_left]
  have hget := xdrmemGetbytes_eq xdrs bs.length (by omega) hlt
  rw [hbytes] at hget
  by_cases hp : pad bs.length = 0
  · simp [xdrOpaque, h0, hop, hget, hp]
  · have hskip := xdrmemGetbytes_eq (xdrs.advance bs.length) (pad bs.length)
      (by simp; omega) (by simp; omega)
    simp [xdrOpaque, h0, hop, hget, hp, hskip]

theorem xdrNfsFh_codes :
    xdrNfsFh.Codes (fun fh => fh.length = nfsFhsize) padded fun v _ => v where
  encode xdrs fh hop hv hroom hlt := by
    simpa [xdrNfsFh, hv] using xdrOpaque_encode xdrs fh hop hroom hlt
  decode xdrs fh v₀ rest hop hv hpriv hroom hlt := by
    have h0 : fh.length ≠ 0 := by simp [hv, nfsFhsize]
    simpa [xdrNfsFh, hv] using xdrOpaque_decode xdrs fh v₀ rest h0 hop hpriv hroom hlt

/-- Length word, bytes and padding. -/
def counted (bs : List UInt8) : List UInt8 := be32 (UInt32.ofNat bs.length) ++ padded bs

theorem toNat_length {bs : List UInt8} {m : Nat} (h : bs.length ≤ m) (hm : m < 4294967296) :
    (UInt32.ofNat bs.length).toNat = bs.length := by
  rw [UInt32.toNat_ofNat']; exact Nat.mod_eq_of_lt (by omega)

theorem xdrBytes_codes {maxsize : Nat} (hmax : maxsize < 4294967296) :
    (xdrBytes maxsize).Codes (fun bs => bs.length ≤ maxsize) counted fun v _ => v where
  encode xdrs bs hop hv hroom hlt := by
    have hnat := toNat_length hv hmax
    simp only [counted, List.length_append, be32_length, Int.natCast_add] at hroom
    have hword := xdrULong_codes.encode xdrs (UInt32.ofNat bs.length) hop trivial
      (by simp; omega) hlt
    have hdata := xdrOpaque_encode (xdrs.put (be32 (UInt32.ofNat bs.length))) bs
      (by simpa using hop) (by simp; omega) (by simp; omega)
    simp [xdrBytes, hword, hnat, hop, Nat.not_lt.mpr hv, hdata, counted]
  decode xdrs bs v₀ rest hop hv hpriv hroom hlt := by
    have hnat := toNat_length hv hmax
    simp only [counted, List.length_append, be32_length, Int.natCast_add,
      List.append_assoc] at hroom hpriv
    have hword := xdrULong_codes.decode xdrs (UInt32.ofNat bs.length)
      (UInt32.ofNat v₀.length) _ hop trivial hpriv (by simp; omega) hlt
    by_cases h0 : bs.length = 0
    · have : bs = [] := List.eq_nil_of_length_eq_zero h0
      subst this
      simp [xdrBytes, hword, hop, counted, padded, pad]
    · have hdata := xdrOpaque_decode (xdrs.advance 4) bs v₀ rest h0 (by simpa using hop)
        (by simp [hpriv, List.drop_append]) (by simp; omega) (by simp; omega)
      simp [xdrBytes, hword, hnat, hop, Nat.not_lt.mpr hv, h0, hdata, counted]

theorem XdrProc.Codes.mono {α : Type} {p : XdrProc α} {valid valid' : α → Prop}
    {enc : α → List UInt8} {upd : α → α → α} (hp : p.Codes valid enc upd)
    (h : ∀ v, valid' v → valid v) : p.Codes valid' enc upd where
  encode xdrs v hop hv := hp.encode xdrs v hop (h v hv)
  decode xdrs v v₀ rest hop hv := hp.decode xdrs v v₀ rest hop (h v hv)

/-- A `writeargs` value the handler sends. -/
structure WriteArgs.WF (v : WriteArgs) : Prop where
  file_length : v.file.length = nfsFhsize
  data_length : v.data.length ≤ nfsMaxdata

/-- Everything before the data block, its length word included. -/
def WriteArgs.head (v : WriteArgs) : List UInt8 :=
  padded v.file ++ (be32 v.beginoffset ++ (be32 v.offset ++ (be32 v.totalcount ++
    be32 (UInt32.ofNat v.data.length))))

/-- The XDR form of a `writeargs` value. -/
def WriteArgs.wire (v : WriteArgs) : List UInt8 := v.head ++ padded v.data

theorem WriteArgs.WF.head_length {v : WriteArgs} (h : v.WF) : v.head.length = 48 := by
  simp only [WriteArgs.head, List.length_append, be32_length, padded_length, h.file_length]
  rfl

theorem WriteArgs.WF.wire_length_le {v : WriteArgs} (h : v.WF) : v.wire.length ≤ 8240 := by
  have hd := h.data_length
  simp only [WriteArgs.wire, List.length_append, h.head_length, padded_length, pad,
    nfsMaxdata] at *
  omega

theorem xdrWriteargs_codes : xdrWriteargs.Codes WriteArgs.WF WriteArgs.wire fun v _ => v := by
  have hfile : xdrFile.Codes _ _ _ := xdrNfsFh_codes.field _ _ fun _ => rfl
  have hbegin : xdrBeginoffset.Codes _ _ _ := xdrULong_codes.field _ _ fun _ => rfl
  have hoffset : xdrOffset.Codes _ _ _ := xdrULong_codes.field _ _ fun _ => rfl
  have htotal : xdrTotalcount.Codes _ _ _ := xdrULong_codes.field _ _ fun _ => rfl
  have hdata := (xdrBytes_codes (show nfsMaxdata < 4294967296 by decide)).field
    (fun v : WriteArgs => v.data) (fun v a => { a with data := v }) fun _ => rfl
  have h := hfile.andThen (hbegin.andThen (hoffset.andThen (htotal.andThen hdata)))
  have hwire : WriteArgs.wire = fun v => padded v.file ++ (be32 v.beginoffset ++
      (be32 v.offset ++ (be32 v.totalcount ++ counted v.data))) := by
    funext v
    simp [WriteArgs.wire, WriteArgs.head, counted]
  rw [hwire]
  exact h.mono fun v hv => ⟨hv.file_length, trivial, trivial, trivial, hv.data_length⟩

theorem xdrWriteargssb_encode (xdrs : XDR) (v : WriteArgs) (hop : xdrs.xOp = .encode)
    (hv : v.WF) (hroom : 48 ≤ xdrs.xHandy) (hlt : xdrs.xHandy < 2147483648) :
    xdrWriteargssb xdrs v = (true, xdrs.put v.head, v) := by
  have hfile : xdrFile.Codes _ _ _ := xdrNfsFh_codes.field _ _ fun _ => rfl
  have hbegin : xdrBeginoffset.Codes _ _ _ := xdrULong_codes.field _ _ fun _ => rfl
  have hoffset : xdrOffset.Codes _ _ _ := xdrULong_codes.field _ _ fun _ => rfl
  have htotal : xdrTotalcount.Codes _ _ _ := xdrULong_codes.field _ _ fun _ => rfl
  have hlen := xdrULong_codes.field
    (fun a : WriteArgs => UInt32.ofNat a.data.length) (fun _ a => a) fun _ => rfl
  have h := hfile.andThen (hbegin.andThen (hoffset.andThen (htotal.andThen hlen)))
  have hhead := hv.head_length
  exact h.encode xdrs v hop ⟨hv.file_length, trivial, trivial, trivial, trivial⟩
    (by simp only [WriteArgs.head] at hhead; rw [hhead]; exact hroom) hlt

section Bodies
variable {room : Int} {v : WriteArgs}

theorem writeBody_eq (hv : v.WF) (hroom : 8240 ≤ room) (hlt : room < 2147483648) :
    writeBody room v = some v.wire := by
  have hw := hv.wire_length_le
  have h := xdrWriteargs_codes.encode (xdrmemEncode room) v rfl hv
    (by simp only [xdrmemEncode]; omega) hlt
  simp only [writeBody, h]
  simp [xdrmemEncode]

theorem writesbBody_eq (hv : v.WF) (hroom : 8240 ≤ room) (hlt : room < 2147483648) :
    writesbBody room v = some (v.head ++ v.data) := by
  have h := xdrWriteargssb_encode (xdrmemEncode room) v rfl hv
    (by simp only [xdrmemEncode]; omega) hlt
  simp only [writesbBody, h]
  simp [xdrmemEncode]

/-- A decoder gets back the value from the plain encoding. -/
theorem xdrWriteargs_decode_wire (hv : v.WF) (v₀ : WriteArgs) :
    xdrWriteargs (xdrmemDecode v.wire) v₀ =
      (true, (xdrmemDecode v.wire).advance v.wire.length, v) := by
  have hw := hv.wire_length_le
  exact xdrWriteargs_codes.decode (xdrmemDecode v.wire) v v₀ [] rfl hv
    (by simp [xdrmemDecode]) (Int.le_refl _) (by simp only [xdrmemDecode]; omega)

end Bodies

/-- The body sent with the data block as a second vector is the plain encoding, and a
decoder for the plain encoding returns the value from it, whatever it held before. -/
def FastWriteAgrees (room : Int) (v : WriteArgs) : Prop :=
  ∃ body, writesbBody room v = some body ∧ writeBody room v = some body ∧
    ∀ v₀, ∃ xdrs, xdrWriteargs (xdrmemDecode body) v₀ = (true, xdrs, v)

/-- With room for the largest block in the output buffer, the scatter send puts the plain
encoding on the wire exactly for blocks made of whole XDR units. -/
theorem fastWriteAgrees_iff (room : Int) (v : WriteArgs) (hv : v.WF) (hroom : 8240 ≤ room)
    (hlt : room < 2147483648) : FastWriteAgrees room v ↔ v.data.length % 4 = 0 := by
  rw [← padded_eq_self_iff]
  constructor
  · rintro ⟨body, hfast, hplain, -⟩
    rw [writesbBody_eq hv hroom hlt] at hfast
    rw [writeBody_eq hv hroom hlt, ← hfast] at hplain
    exact List.append_cancel_left (Option.some.inj hplain)
  · intro hpad
    have hwire : v.head ++ v.data = v.wire := by rw [WriteArgs.wire, hpad]
    refine ⟨v.wire, ?_, writeBody_eq hv hroom hlt, fun v₀ => ?_⟩
    · rw [writesbBody_eq hv hroom hlt, hwire]
    · exact ⟨_, xdrWriteargs_decode_wire hv v₀⟩

/-- A block of four bytes, as it comes out of a buffer that was filled word by word. -/
theorem fastWriteAgrees_iff_four_bytes :
    FastWriteAgrees 8356 ⟨List.replicate 32 7, 0, 0, 4, [1, 2, 3, 4]⟩ ↔
      [(1 : UInt8), 2, 3, 4].length % 4 = 0 :=
  fastWriteAgrees_iff 8356 ⟨List.replicate 32 7, 0, 0, 4, [1, 2, 3, 4]⟩
    ⟨by decide, by decide⟩ (by decide) (by decide)

/-- A block of one byte is sent without its three bytes of padding. -/
theorem not_fastWriteAgrees_one_byte :
    ¬ FastWriteAgrees 8356 ⟨List.replicate 32 7, 0, 0, 1, [65]⟩ := by
  rintro ⟨body, hfast, hplain, -⟩
  have h : writesbBody 8356 ⟨List.replicate 32 7, 0, 0, 1, [65]⟩ =
      writeBody 8356 ⟨List.replicate 32 7, 0, 0, 1, [65]⟩ := by rw [hfast, hplain]
  revert h
  decide

end Anfs.Xdr
