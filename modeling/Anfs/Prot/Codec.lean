import Anfs.Prot.Messages

/-!
# The codec of the protocol

For every message: an object within the limits comes back from its encoding, an object
beyond them is not encoded, and no received bytes make a decoder read past their end or
store an object beyond the limits. Memory for decoded strings and entries is taken to be
available; without it a decoder fails.
-/
namespace Anfs.Xdr
open Anfs.Lib

/-- `p` is a codec for the objects in `Shape`, of which it accepts those in `Limits`.
A decoder starts from a zeroed object. -/
structure XdrProc.Codec {α : Type} (p : XdrProc α) (zeroed : α) (Shape Limits : α → Prop) :
    Prop where
  roundTrip : ∀ v, Shape v → Limits v → ∃ bytes : List UInt8,
    (∀ room : Int, bytes.length ≤ room → room < 2147483648 →
      p (xdrmemEncode room) v = (true, (xdrmemEncode room).put bytes, v)) ∧
    ∀ rest, (bytes ++ rest).length < 2147483648 → p (xdrmemDecode (bytes ++ rest)) zeroed =
      (true, (xdrmemDecode (bytes ++ rest)).advance bytes.length, v)
  refuse : ∀ (room : Int) v, Shape v → ¬ Limits v → (p (xdrmemEncode room) v).1 = false
  safe : ∀ buf, buf.length < 2147483648 → (p (xdrmemDecode buf) zeroed).1 = true →
    ∃ n, n ≤ buf.length ∧ (p (xdrmemDecode buf) zeroed).2.1 = (xdrmemDecode buf).advance n ∧
      Limits (p (xdrmemDecode buf) zeroed).2.2

theorem xdrmemDecode_whole {buf : List UInt8} (h : buf.length < 2147483648) :
    (xdrmemDecode buf).Whole where
  op := rfl
  left := rfl
  lt := by simp only [xdrmemDecode]; omega

theorem XdrProc.Codec.of {α : Type} {p : XdrProc α} {zeroed : α}
    {valid Shape Limits : α → Prop} {enc : α → List UInt8} {upd : α → α → α}
    (hcodes : p.Codes valid enc upd) (hguards : p.Guards Shape Limits)
    (hyields : p.Yields (fun _ => True) Limits)
    (hvalid : ∀ v, Shape v → Limits v → valid v) (hupd : ∀ v, Shape v → upd v zeroed = v) :
    p.Codec zeroed Shape Limits where
  roundTrip v hshape hlimits := by
    refine ⟨enc v, fun room hroom hlt => ?_, fun rest hlt => ?_⟩
    · exact hcodes.encode (xdrmemEncode room) v rfl (hvalid v hshape hlimits) hroom hlt
    · have h := hcodes.decode (xdrmemDecode (enc v ++ rest)) v zeroed rest rfl
        (hvalid v hshape hlimits) rfl (by simp only [xdrmemDecode, List.length_append]; omega)
        (by simp only [xdrmemDecode]; omega)
      rw [h, hupd v hshape]
  refuse room v hshape hlimits := by
    cases hr : (p (xdrmemEncode room) v).1 with
    | false => rfl
    | true => exact absurd (hguards.limits (xdrmemEncode room) v rfl hshape hr) hlimits
  safe buf hlt hok := hyields (xdrmemDecode buf) zeroed (xdrmemDecode_whole hlt) trivial hok

theorem xdrFattr_codes :
    xdrFattr.Codes (fun _ => True) (fun a => a.words.flatMap be32) fun v _ => v :=
  xdrFattr_fixed.codes fun v _ rest => Fattr.load_words v rest

theorem xdrSattr_codes :
    xdrSattr.Codes (fun _ => True) (fun a => a.words.flatMap be32) fun v _ => v :=
  xdrSattr_fixed.codes fun v _ rest => Sattr.load_words v rest

theorem xdrStatfsokres_codes :
    xdrStatfsokres.Codes (fun _ => True) (fun a => a.words.flatMap be32) fun v _ => v :=
  xdrStatfsokres_fixed.codes fun v _ rest => Statfsokres.load_words v rest

theorem xdrFattr_guards : xdrFattr.Guards (fun _ => True) fun _ => True :=
  xdrInlined_guards _ _ _ _

theorem xdrSattr_guards : xdrSattr.Guards (fun _ => True) fun _ => True :=
  xdrInlined_guards _ _ _ _

theorem xdrStatfsokres_guards : xdrStatfsokres.Guards (fun _ => True) fun _ => True :=
  xdrInlined_guards _ _ _ _

/-- A file handle, which is an array in the source. -/
def IsFh (fh : List UInt8) : Prop := fh.length = nfsFhsize

def IsCookie (cookie : List UInt8) : Prop := cookie.length = nfsCookiesize

theorem xdrNfscookie_codes : xdrNfscookie.Codes IsCookie padded fun v _ => v where
  encode xdrs cookie hop hv hroom hlt := by
    have h := xdrOpaque_encode xdrs cookie hop hroom hlt
    rwa [hv] at h
  decode xdrs cookie v₀ rest hop hv hpriv hroom hlt := by
    have h0 : cookie.length ≠ 0 := by simp [show cookie.length = 4 from hv]
    have h := xdrOpaque_decode xdrs cookie v₀ rest h0 hop hpriv hroom hlt
    rwa [hv] at h

theorem xdrNfscookie_guards : xdrNfscookie.Guards (fun _ => True) fun _ => True :=
  xdrOpaque_guards nfsCookiesize

theorem xdrNfscookie_yields :
    xdrNfscookie.Yields (fun _ => True) fun cookie => cookie.length = nfsCookiesize :=
  xdrOpaque_yields (by decide) (by decide)

/-- A string that fits under `maxsize`. -/
def FitsString (maxsize : Nat) (s : List UInt8) : Prop :=
  (∀ c ∈ s, c ≠ 0) ∧ s.length ≤ maxsize

theorem xdrFilename_codes : xdrFilename.Codes (FitsString nfsMaxnamlen) counted fun v _ => v :=
  xdrString_codes (by decide)

theorem xdrFilename_yields : xdrFilename.Yields (fun _ => True) fun s => s.length ≤ nfsMaxnamlen :=
  xdrString_yields (by decide)

theorem xdrNfspath_yields : xdrNfspath.Yields (fun _ => True) fun s => s.length ≤ nfsMaxpathlen :=
  xdrString_yields (by decide)

theorem xdrNfspath_codes : xdrNfspath.Codes (FitsString nfsMaxpathlen) counted fun v _ => v :=
  xdrString_codes (by decide)

structure Diropargs.Shape (d : Diropargs) : Prop where
  dir : IsFh d.dir
  name : IsString d.name

def Diropargs.Limits (d : Diropargs) : Prop := d.name.length ≤ nfsMaxnamlen

def Diropargs.bytes (d : Diropargs) : List UInt8 := padded d.dir ++ counted d.name

theorem xdrDiropargs_codes :
    xdrDiropargs.Codes (fun d => d.Shape ∧ d.Limits) Diropargs.bytes fun v _ => v := by
  have hdir := xdrNfsFh_codes.field (fun d : Diropargs => d.dir) (fun v a => { a with dir := v })
    fun _ => rfl
  have hname := xdrFilename_codes.field (fun d : Diropargs => d.name)
    (fun v a => { a with name := v }) fun _ => rfl
  exact (hdir.andThen hname).mono fun d h => ⟨h.1.dir, h.1.name.nonzero, h.2⟩

theorem xdrDiropargs_guards : xdrDiropargs.Guards Diropargs.Shape Diropargs.Limits := by
  have hdir := xdrNfsFh_guards.field (fun d : Diropargs => d.dir)
    (fun v a => { a with dir := v }) fun _ => rfl
  have hname := (xdrString_guards nfsMaxnamlen).field (fun d : Diropargs => d.name)
    (fun v a => { a with name := v }) fun _ => rfl
  exact (hdir.andThen hname).mono (fun d h => ⟨trivial, h.name⟩) fun d h => h.2

theorem xdrDiropargs_yields : xdrDiropargs.Yields (fun _ => True) Diropargs.Limits := by
  have hdir := xdrNfsFh_yields.frame (fun d : Diropargs => d.dir) (fun v a => { a with dir := v })
    (fun _ => True) fun _ _ h => h
  have hname := xdrFilename_yields.field (fun d : Diropargs => d.name)
    (fun v a => { a with name := v }) (fun _ => True) (fun _ _ => rfl) fun _ _ h => h
  exact (hdir.andThen hname).mono (fun _ h => h) fun _ h => h.2

structure Entry.Shape (e : Entry) : Prop where
  name : IsString e.name
  cookie : IsCookie e.cookie

def Entry.Limits (e : Entry) : Prop := e.name.length ≤ nfsMaxnamlen

def Entry.bytes (e : Entry) : List UInt8 :=
  be32 e.fileid ++ (counted e.name ++ padded e.cookie)

theorem xdrEntry_codes : xdrEntry.Codes (fun e => e.Shape ∧ e.Limits) Entry.bytes fun v _ => v := by
  have hfileid := xdrULong_codes.field (fun e : Entry => e.fileid)
    (fun v a => { a with fileid := v }) fun _ => rfl
  have hname := xdrFilename_codes.field (fun e : Entry => e.name)
    (fun v a => { a with name := v }) fun _ => rfl
  have hcookie := xdrNfscookie_codes.field (fun e : Entry => e.cookie)
    (fun v a => { a with cookie := v }) fun _ => rfl
  exact (hfileid.andThen (hname.andThen hcookie)).mono
    fun e h => ⟨trivial, ⟨h.1.name.nonzero, h.2⟩, h.1.cookie⟩

theorem xdrEntry_guards : xdrEntry.Guards Entry.Shape Entry.Limits := by
  have hfileid := xdrULong_guards.field (fun e : Entry => e.fileid)
    (fun v a => { a with fileid := v }) fun _ => rfl
  have hname := (xdrString_guards nfsMaxnamlen).field (fun e : Entry => e.name)
    (fun v a => { a with name := v }) fun _ => rfl
  have hcookie := xdrNfscookie_guards.field (fun e : Entry => e.cookie)
    (fun v a => { a with cookie := v }) fun _ => rfl
  exact (hfileid.andThen (hname.andThen hcookie)).mono
    (fun e h => ⟨trivial, h.name, trivial⟩) fun e h => h.2.1

theorem xdrEntry_yields : xdrEntry.Yields (fun _ => True) Entry.Limits := by
  have hfileid := (xdrULong_yields fun _ => True).frame (fun e : Entry => e.fileid)
    (fun v a => { a with fileid := v }) (fun _ => True) fun _ _ h => h
  have hname := xdrFilename_yields.field (fun e : Entry => e.name)
    (fun v a => { a with name := v }) (fun _ => True) (fun _ _ => rfl) fun _ _ h => h
  have hcookie := xdrNfscookie_yields.frame (fun e : Entry => e.cookie)
    (fun v a => { a with cookie := v }) (fun e => True ∧ e.Limits) fun _ _ h => h
  exact (hfileid.andThen (hname.andThen hcookie)).mono (fun _ h => h) fun _ h => h.2

/-- Four bytes at least for each object of a chain. -/
theorem length_le_chainBytes {α : Type} (enc : α → List UInt8) (l : List α) :
    4 * l.length < (chainBytes enc l).length := by
  induction l with
  | nil => simp [chainBytes]
  | cons e next ih =>
      simp only [chainBytes, List.length_append, be32_length, List.length_cons]
      omega

theorem xdrEntries_codes :
    xdrEntries.Codes (fun l => ∀ e ∈ l, e.Shape ∧ e.Limits) (chainBytes Entry.bytes)
      fun v _ => v where
  encode xdrs l hop hv hroom hlt :=
    (xdrChain_codes Entry.zero xdrEntry_codes l _ (by omega)).encode xdrs l hop
      ⟨rfl, hv⟩ hroom hlt
  decode xdrs l l₀ rest hop hv hpriv hroom hlt := by
    have hbytes := length_le_chainBytes Entry.bytes l
    exact (xdrChain_codes Entry.zero xdrEntry_codes l _ (by omega)).decode xdrs l l₀ rest
      hop ⟨rfl, hv⟩ hpriv
      hroom hlt

theorem xdrEntries_guards :
    xdrEntries.Guards (fun l => ∀ e ∈ l, e.Shape) fun l => ∀ e ∈ l, e.Limits where
  op xdrs l := (xdrChain_guards xdrEntry_guards _).op xdrs l
  same xdrs l := (xdrChain_guards xdrEntry_guards _).same xdrs l
  limits xdrs l := (xdrChain_guards xdrEntry_guards _).limits xdrs l

theorem xdrEntries_yields : xdrEntries.Yields (fun _ => True) fun l => ∀ e ∈ l, e.Limits :=
  fun xdrs l => xdrChain_yields xdrEntry_yields _ xdrs l

/-- The recursion of `xdr_entry` is followed to its end, in both directions. -/
theorem xdrEntries_enough (more : Nat) (xdrs : XDR) (l : List Entry)
    (h : xdrs.xOp = .encode ∨ xdrs.Whole) :
    xdrChain Entry.zero xdrEntry (l.length + xdrs.xHandy.toNat + 1 + more) xdrs l =
      xdrEntries xdrs l := by
  obtain hop | hwhole := h
  · exact xdrChain_encode_enough xdrEntry_guards _ more xdrs l hop (by omega)
  · have hleft := hwhole.left
    exact xdrChain_decode_enough xdrEntry_yields _ more xdrs l hwhole (by omega)

structure Dirlist.Shape (d : Dirlist) : Prop where
  entries : ∀ e ∈ d.entries, e.Shape

def Dirlist.Limits (d : Dirlist) : Prop := ∀ e ∈ d.entries, e.Limits

theorem xdrDirlist_codes :
    xdrDirlist.Codes (fun d => d.Shape ∧ d.Limits)
      (fun d => chainBytes Entry.bytes d.entries ++ be32 (boolWord d.eof)) fun v _ => v := by
  have hentries := xdrEntries_codes.field (fun d : Dirlist => d.entries)
    (fun v a => { a with entries := v }) fun _ => rfl
  have heof := xdrBool_codes.field (fun d : Dirlist => d.eof) (fun v a => { a with eof := v })
    fun _ => rfl
  exact (hentries.andThen heof).mono
    fun d h => ⟨fun e he => ⟨h.1.entries e he, h.2 e he⟩, trivial⟩

theorem xdrDirlist_guards : xdrDirlist.Guards Dirlist.Shape Dirlist.Limits := by
  have hentries := xdrEntries_guards.field (fun d : Dirlist => d.entries)
    (fun v a => { a with entries := v }) fun _ => rfl
  have heof := xdrBool_guards.field (fun d : Dirlist => d.eof) (fun v a => { a with eof := v })
    fun _ => rfl
  exact (hentries.andThen heof).mono (fun d h => ⟨h.entries, trivial⟩) fun d h => h.1

theorem xdrDirlist_yields : xdrDirlist.Yields (fun _ => True) Dirlist.Limits := by
  have hentries := xdrEntries_yields.field (fun d : Dirlist => d.entries)
    (fun v a => { a with entries := v }) (fun _ => True) (fun _ _ => rfl) fun _ _ h => h
  have heof := xdrBool_yields.frame (fun d : Dirlist => d.eof) (fun v a => { a with eof := v })
    (fun d => True ∧ d.Limits) fun _ _ h => h
  exact (hentries.andThen heof).mono (fun _ h => h) fun _ h => h.2

section Results
variable {α : Type} {p : XdrProc α} {sp lp : α → Prop} {enc : α → List UInt8}

/-- The memory of a body that is not coded holds zeros. -/
structure Res.Shape (zeroed : α) (sp : α → Prop) (r : Res α) : Prop where
  body : r.status = NFS_OK → sp r.body
  unused : r.status ≠ NFS_OK → r.body = zeroed

def Res.Limits (lp : α → Prop) (r : Res α) : Prop := r.status = NFS_OK → lp r.body

theorem xdrRes_codec (zeroed : α) (hcodes : p.Codes (fun v => sp v ∧ lp v) enc fun v _ => v)
    (hguards : p.Guards sp lp) (hyields : p.Yields (fun _ => True) lp) :
    (xdrRes p).Codec ⟨NFS_OK, zeroed⟩ (Res.Shape zeroed sp) (Res.Limits lp) := by
  refine XdrProc.Codec.of (xdrRes_codes hcodes) ((xdrRes_guards hguards).mono ?_ fun _ h => h)
    (xdrRes_yields hyields) ?_ ?_
  · exact fun r h => h.body
  · exact fun r hshape hlimits hok => ⟨hshape.body hok, hlimits hok⟩
  · intro r hshape
    split
    · rfl
    · next h =>
        have := hshape.unused h
        cases r
        simp_all

end Results

theorem xdrDiropokres_codes :
    xdrDiropokres.Codes (fun r => IsFh r.file ∧ True)
      (fun r => padded r.file ++ r.attributes.words.flatMap be32) fun v _ => v :=
  (xdrNfsFh_codes.field (fun r : Diropokres => r.file) (fun v a => { a with file := v })
    fun _ => rfl).andThen
    (xdrFattr_codes.field (fun r : Diropokres => r.attributes)
      (fun v a => { a with attributes := v }) fun _ => rfl)

theorem xdrDiropokres_guards : xdrDiropokres.Guards (fun r => IsFh r.file) fun _ => True := by
  have hfile := xdrNfsFh_guards.field (fun r : Diropokres => r.file)
    (fun v a => { a with file := v }) fun _ => rfl
  have hattributes := xdrFattr_guards.field (fun r : Diropokres => r.attributes)
    (fun v a => { a with attributes := v }) fun _ => rfl
  exact (hfile.andThen hattributes).mono (fun _ _ => ⟨trivial, trivial⟩) fun _ _ => trivial

theorem xdrFattr_yields (P : Fattr → Prop) : xdrFattr.Yields P fun _ => True :=
  xdrFattr_fixed.yields fun _ _ _ => trivial

theorem xdrSattr_yields (P : Sattr → Prop) : xdrSattr.Yields P fun _ => True :=
  xdrSattr_fixed.yields fun _ _ _ => trivial

theorem xdrDiropokres_yields : xdrDiropokres.Yields (fun _ => True) fun _ => True :=
  (xdrNfsFh_yields.frame (fun r : Diropokres => r.file) (fun v a => { a with file := v })
    (fun _ => True) fun _ _ h => h).andThen
    ((xdrFattr_yields fun _ => True).frame (fun r : Diropokres => r.attributes)
      (fun v a => { a with attributes := v }) (fun _ => True) fun _ _ h => h)

/-- Data that fits an object of C. -/
structure Readokres.Shape (r : Readokres) : Prop where
  data : IsBytes r.data

def Readokres.Limits (r : Readokres) : Prop := r.data.length ≤ nfsMaxdata

theorem xdrReadokres_codes :
    xdrReadokres.Codes (fun r => r.Shape ∧ r.Limits)
      (fun r => r.attributes.words.flatMap be32 ++ counted r.data) fun v _ => v := by
  have hattributes := xdrFattr_codes.field (fun r : Readokres => r.attributes)
    (fun v a => { a with attributes := v }) fun _ => rfl
  have hdata := (xdrBytes_codes (show nfsMaxdata < 4294967296 by decide)).field
    (fun r : Readokres => r.data) (fun v a => { a with data := v }) fun _ => rfl
  exact (hattributes.andThen hdata).mono fun r h => ⟨trivial, h.2⟩

theorem xdrReadokres_guards : xdrReadokres.Guards Readokres.Shape Readokres.Limits := by
  have hattributes := xdrFattr_guards.field (fun r : Readokres => r.attributes)
    (fun v a => { a with attributes := v }) fun _ => rfl
  have hdata := (xdrBytes_guards nfsMaxdata).field (fun r : Readokres => r.data)
    (fun v a => { a with data := v }) fun _ => rfl
  exact (hattributes.andThen hdata).mono (fun r h => ⟨trivial, h.data⟩) fun r h => h.2

theorem xdrReadokres_yields : xdrReadokres.Yields (fun _ => True) Readokres.Limits := by
  have hattributes := (xdrFattr_yields fun _ => True).frame (fun r : Readokres => r.attributes)
    (fun v a => { a with attributes := v }) (fun _ => True) fun _ _ h => h
  have hdata := (xdrBytes_yields (show nfsMaxdata ≤ 2147483648 by decide)).field
    (fun r : Readokres => r.data) (fun v a => { a with data := v }) (fun _ => True)
    (fun _ _ => rfl) fun _ _ h => h
  exact (hattributes.andThen hdata).mono (fun _ h => h) fun _ h => h.2

def Diropokres.zero : Diropokres := ⟨zeros nfsFhsize, default⟩

theorem xdrDiropres_codec :
    xdrDiropres.Codec ⟨NFS_OK, Diropokres.zero⟩ (Res.Shape Diropokres.zero fun r => IsFh r.file)
      (Res.Limits fun _ => True) :=
  xdrRes_codec _ xdrDiropokres_codes xdrDiropokres_guards xdrDiropokres_yields

theorem xdrAttrstat_codec :
    xdrAttrstat.Codec ⟨NFS_OK, default⟩ (Res.Shape default fun _ => True)
      (Res.Limits fun _ => True) :=
  xdrRes_codec _ (xdrFattr_codes.mono fun _ _ => trivial) xdrFattr_guards
    (xdrFattr_yields fun _ => True)

theorem xdrReadlinkres_codec :
    xdrReadlinkres.Codec ⟨NFS_OK, []⟩ (Res.Shape [] IsString)
      (Res.Limits fun path => path.length ≤ nfsMaxpathlen) :=
  xdrRes_codec _ (xdrNfspath_codes.mono fun _ h => ⟨h.1.nonzero, h.2⟩)
    (xdrString_guards nfsMaxpathlen) xdrNfspath_yields

theorem xdrReadres_codec :
    xdrReadres.Codec ⟨NFS_OK, ⟨default, []⟩⟩ (Res.Shape ⟨default, []⟩ Readokres.Shape)
      (Res.Limits Readokres.Limits) :=
  xdrRes_codec _ xdrReadokres_codes xdrReadokres_guards xdrReadokres_yields

theorem xdrReaddirres_codec :
    xdrReaddirres.Codec ⟨NFS_OK, ⟨[], false⟩⟩ (Res.Shape ⟨[], false⟩ Dirlist.Shape)
      (Res.Limits Dirlist.Limits) :=
  xdrRes_codec _ xdrDirlist_codes xdrDirlist_guards xdrDirlist_yields

theorem xdrStatfsres_codec :
    xdrStatfsres.Codec ⟨NFS_OK, default⟩ (Res.Shape default fun _ => True)
      (Res.Limits fun _ => True) :=
  xdrRes_codec _ (xdrStatfsokres_codes.mono fun _ _ => trivial) xdrStatfsokres_guards
    (xdrStatfsokres_fixed.yields fun _ _ _ => trivial)

theorem xdrFattr_codec : xdrFattr.Codec default (fun _ => True) fun _ => True :=
  .of xdrFattr_codes xdrFattr_guards (xdrFattr_yields _) (fun _ _ _ => trivial) fun _ _ => rfl

theorem xdrSattr_codec : xdrSattr.Codec default (fun _ => True) fun _ => True :=
  .of xdrSattr_codes xdrSattr_guards (xdrSattr_yields _) (fun _ _ _ => trivial) fun _ _ => rfl

def Diropargs.zero : Diropargs := ⟨zeros nfsFhsize, []⟩

theorem xdrDiropargs_codec :
    xdrDiropargs.Codec Diropargs.zero Diropargs.Shape Diropargs.Limits :=
  .of xdrDiropargs_codes xdrDiropargs_guards xdrDiropargs_yields (fun _ h h' => ⟨h, h'⟩)
    fun _ _ => rfl

theorem xdrSattrargs_codec :
    xdrSattrargs.Codec ⟨zeros nfsFhsize, default⟩ (fun a => IsFh a.file) fun _ => True := by
  have hcodes := (xdrNfsFh_codes.field (fun a : Sattrargs => a.file)
    (fun v a => { a with file := v }) fun _ => rfl).andThen
    (xdrSattr_codes.field (fun a : Sattrargs => a.attributes)
      (fun v a => { a with attributes := v }) fun _ => rfl)
  have hguards := (xdrNfsFh_guards.field (fun a : Sattrargs => a.file)
    (fun v a => { a with file := v }) fun _ => rfl).andThen
    (xdrSattr_guards.field (fun a : Sattrargs => a.attributes)
      (fun v a => { a with attributes := v }) fun _ => rfl)
  have hyields := (xdrNfsFh_yields.frame (fun a : Sattrargs => a.file)
    (fun v a => { a with file := v }) (fun _ => True) fun _ _ h => h).andThen
    ((xdrSattr_yields fun _ => True).frame (fun a : Sattrargs => a.attributes)
      (fun v a => { a with attributes := v }) (fun _ => True) fun _ _ h => h)
  exact .of hcodes (hguards.mono (fun _ _ => ⟨trivial, trivial⟩) fun _ _ => trivial) hyields
    (fun _ h _ => ⟨h, trivial⟩) fun _ _ => rfl

theorem xdrReadargs_codec :
    xdrReadargs.Codec ⟨zeros nfsFhsize, 0, 0, 0⟩ (fun a => IsFh a.file) fun _ => True := by
  have hcodes := (xdrNfsFh_codes.field (fun a : Readargs => a.file)
    (fun v a => { a with file := v }) fun _ => rfl).andThen <|
    (xdrULong_codes.field (fun a : Readargs => a.offset)
      (fun v a => { a with offset := v }) fun _ => rfl).andThen <|
    (xdrULong_codes.field (fun a : Readargs => a.count)
      (fun v a => { a with count := v }) fun _ => rfl).andThen <|
    xdrULong_codes.field (fun a : Readargs => a.totalcount)
      (fun v a => { a with totalcount := v }) fun _ => rfl
  have hguards := (xdrNfsFh_guards.field (fun a : Readargs => a.file)
    (fun v a => { a with file := v }) fun _ => rfl).andThen <|
    (xdrULong_guards.field (fun a : Readargs => a.offset)
      (fun v a => { a with offset := v }) fun _ => rfl).andThen <|
    (xdrULong_guards.field (fun a : Readargs => a.count)
      (fun v a => { a with count := v }) fun _ => rfl).andThen <|
    xdrULong_guards.field (fun a : Readargs => a.totalcount)
      (fun v a => { a with totalcount := v }) fun _ => rfl
  have hyields := (xdrNfsFh_yields.frame (fun a : Readargs => a.file)
    (fun v a => { a with file := v }) (fun _ => True) fun _ _ h => h).andThen <|
    ((xdrULong_yields fun _ => True).frame (fun a : Readargs => a.offset)
      (fun v a => { a with offset := v }) (fun _ => True) fun _ _ h => h).andThen <|
    ((xdrULong_yields fun _ => True).frame (fun a : Readargs => a.count)
      (fun v a => { a with count := v }) (fun _ => True) fun _ _ h => h).andThen <|
    (xdrULong_yields fun _ => True).frame (fun a : Readargs => a.totalcount)
      (fun v a => { a with totalcount := v }) (fun _ => True) fun _ _ h => h
  exact .of hcodes (hguards.mono (fun _ _ => ⟨trivial, trivial, trivial, trivial⟩)
    fun _ _ => trivial) hyields (fun _ h _ => ⟨h, trivial, trivial, trivial⟩) fun _ _ => rfl

structure WriteArgs.Shape (a : WriteArgs) : Prop where
  file : IsFh a.file
  data : IsBytes a.data

def WriteArgs.Limits (a : WriteArgs) : Prop := a.data.length ≤ nfsMaxdata

theorem xdrWriteargs_codec :
    xdrWriteargs.Codec ⟨zeros nfsFhsize, 0, 0, 0, []⟩ WriteArgs.Shape WriteArgs.Limits := by
  have hguards := (xdrNfsFh_guards.field (fun a : WriteArgs => a.file)
    (fun v a => { a with file := v }) fun _ => rfl).andThen <|
    (xdrULong_guards.field (fun a : WriteArgs => a.beginoffset)
      (fun v a => { a with beginoffset := v }) fun _ => rfl).andThen <|
    (xdrULong_guards.field (fun a : WriteArgs => a.offset)
      (fun v a => { a with offset := v }) fun _ => rfl).andThen <|
    (xdrULong_guards.field (fun a : WriteArgs => a.totalcount)
      (fun v a => { a with totalcount := v }) fun _ => rfl).andThen <|
    (xdrBytes_guards nfsMaxdata).field (fun a : WriteArgs => a.data)
      (fun v a => { a with data := v }) fun _ => rfl
  have hyields := (xdrNfsFh_yields.frame (fun a : WriteArgs => a.file)
    (fun v a => { a with file := v }) (fun _ => True) fun _ _ h => h).andThen <|
    ((xdrULong_yields fun _ => True).frame (fun a : WriteArgs => a.beginoffset)
      (fun v a => { a with beginoffset := v }) (fun _ => True) fun _ _ h => h).andThen <|
    ((xdrULong_yields fun _ => True).frame (fun a : WriteArgs => a.offset)
      (fun v a => { a with offset := v }) (fun _ => True) fun _ _ h => h).andThen <|
    ((xdrULong_yields fun _ => True).frame (fun a : WriteArgs => a.totalcount)
      (fun v a => { a with totalcount := v }) (fun _ => True) fun _ _ h => h).andThen <|
    (xdrBytes_yields (show nfsMaxdata ≤ 2147483648 by decide)).field
      (fun a : WriteArgs => a.data) (fun v a => { a with data := v }) (fun _ => True)
      (fun _ _ => rfl) fun _ _ h => h
  exact .of xdrWriteargs_codes
    (hguards.mono (fun _ h => ⟨trivial, trivial, trivial, trivial, h.data⟩)
    fun _ h => h.2.2.2.2) (hyields.mono (fun _ h => h) fun _ h => h.2)
    (fun _ h h' => ⟨h.file, h'⟩) fun _ _ => rfl

structure Createargs.Shape (a : Createargs) : Prop where
  where_ : a.where_.Shape

def Createargs.Limits (a : Createargs) : Prop := a.where_.Limits

theorem xdrCreateargs_codec :
    xdrCreateargs.Codec ⟨Diropargs.zero, default⟩ Createargs.Shape Createargs.Limits := by
  have hcodes := (xdrDiropargs_codes.field (fun a : Createargs => a.where_)
    (fun v a => { a with where_ := v }) fun _ => rfl).andThen
    (xdrSattr_codes.field (fun a : Createargs => a.attributes)
      (fun v a => { a with attributes := v }) fun _ => rfl)
  have hguards := (xdrDiropargs_guards.field (fun a : Createargs => a.where_)
    (fun v a => { a with where_ := v }) fun _ => rfl).andThen
    (xdrSattr_guards.field (fun a : Createargs => a.attributes)
      (fun v a => { a with attributes := v }) fun _ => rfl)
  have hyields := (xdrDiropargs_yields.field (fun a : Createargs => a.where_)
    (fun v a => { a with where_ := v }) (fun _ => True) (fun _ _ => rfl) fun _ _ h => h).andThen
    ((xdrSattr_yields fun _ => True).frame (fun a : Createargs => a.attributes)
      (fun v a => { a with attributes := v }) (fun a => True ∧ a.where_.Limits) fun _ _ h => h)
  exact .of hcodes (hguards.mono (fun _ h => ⟨h.where_, trivial⟩) fun _ h => h.1)
    (hyields.mono (fun _ h => h) fun _ h => h.2) (fun _ h h' => ⟨⟨h.where_, h'⟩, trivial⟩)
    fun _ _ => rfl

structure Renameargs.Shape (a : Renameargs) : Prop where
  from_ : a.from_.Shape
  to_ : a.to_.Shape

def Renameargs.Limits (a : Renameargs) : Prop := a.from_.Limits ∧ a.to_.Limits

theorem xdrRenameargs_codec :
    xdrRenameargs.Codec ⟨Diropargs.zero, Diropargs.zero⟩ Renameargs.Shape Renameargs.Limits := by
  have hcodes := (xdrDiropargs_codes.field (fun a : Renameargs => a.from_)
    (fun v a => { a with from_ := v }) fun _ => rfl).andThen
    (xdrDiropargs_codes.field (fun a : Renameargs => a.to_)
      (fun v a => { a with to_ := v }) fun _ => rfl)
  have hguards := (xdrDiropargs_guards.field (fun a : Renameargs => a.from_)
    (fun v a => { a with from_ := v }) fun _ => rfl).andThen
    (xdrDiropargs_guards.field (fun a : Renameargs => a.to_)
      (fun v a => { a with to_ := v }) fun _ => rfl)
  have hyields := (xdrDiropargs_yields.field (fun a : Renameargs => a.from_)
    (fun v a => { a with from_ := v }) (fun _ => True) (fun _ _ => rfl) fun _ _ h => h).andThen
    (xdrDiropargs_yields.field (fun a : Renameargs => a.to_)
      (fun v a => { a with to_ := v }) (fun a => True ∧ a.from_.Limits) (fun _ _ => rfl)
      fun _ _ h => h)
  exact .of hcodes (hguards.mono (fun _ h => ⟨h.from_, h.to_⟩) fun _ h => h)
    (hyields.mono (fun _ h => h) fun _ h => ⟨h.1.2, h.2⟩)
    (fun _ h h' => ⟨⟨h.from_, h'.1⟩, h.to_, h'.2⟩) fun _ _ => rfl

structure Linkargs.Shape (a : Linkargs) : Prop where
  from_ : IsFh a.from_
  to_ : a.to_.Shape

def Linkargs.Limits (a : Linkargs) : Prop := a.to_.Limits

theorem xdrLinkargs_codec :
    xdrLinkargs.Codec ⟨zeros nfsFhsize, Diropargs.zero⟩ Linkargs.Shape Linkargs.Limits := by
  have hcodes := (xdrNfsFh_codes.field (fun a : Linkargs => a.from_)
    (fun v a => { a with from_ := v }) fun _ => rfl).andThen
    (xdrDiropargs_codes.field (fun a : Linkargs => a.to_)
      (fun v a => { a with to_ := v }) fun _ => rfl)
  have hguards := (xdrNfsFh_guards.field (fun a : Linkargs => a.from_)
    (fun v a => { a with from_ := v }) fun _ => rfl).andThen
    (xdrDiropargs_guards.field (fun a : Linkargs => a.to_)
      (fun v a => { a with to_ := v }) fun _ => rfl)
  have hyields := (xdrNfsFh_yields.frame (fun a : Linkargs => a.from_)
    (fun v a => { a with from_ := v }) (fun _ => True) fun _ _ h => h).andThen
    (xdrDiropargs_yields.field (fun a : Linkargs => a.to_)
      (fun v a => { a with to_ := v }) (fun _ => True) (fun _ _ => rfl) fun _ _ h => h)
  exact .of hcodes (hguards.mono (fun _ h => ⟨trivial, h.to_⟩) fun _ h => h.2)
    (hyields.mono (fun _ h => h) fun _ h => h.2) (fun _ h h' => ⟨h.from_, h.to_, h'⟩)
    fun _ _ => rfl

structure Symlinkargs.Shape (a : Symlinkargs) : Prop where
  from_ : a.from_.Shape
  to_ : IsString a.to_

def Symlinkargs.Limits (a : Symlinkargs) : Prop :=
  a.from_.Limits ∧ a.to_.length ≤ nfsMaxpathlen

theorem xdrSymlinkargs_codec :
    xdrSymlinkargs.Codec ⟨Diropargs.zero, [], default⟩ Symlinkargs.Shape Symlinkargs.Limits := by
  have hcodes := (xdrDiropargs_codes.field (fun a : Symlinkargs => a.from_)
    (fun v a => { a with from_ := v }) fun _ => rfl).andThen <|
    (xdrNfspath_codes.field (fun a : Symlinkargs => a.to_)
      (fun v a => { a with to_ := v }) fun _ => rfl).andThen <|
    xdrSattr_codes.field (fun a : Symlinkargs => a.attributes)
      (fun v a => { a with attributes := v }) fun _ => rfl
  have hguards := (xdrDiropargs_guards.field (fun a : Symlinkargs => a.from_)
    (fun v a => { a with from_ := v }) fun _ => rfl).andThen <|
    ((xdrString_guards nfsMaxpathlen).field (fun a : Symlinkargs => a.to_)
      (fun v a => { a with to_ := v }) fun _ => rfl).andThen <|
    xdrSattr_guards.field (fun a : Symlinkargs => a.attributes)
      (fun v a => { a with attributes := v }) fun _ => rfl
  have hyields := (xdrDiropargs_yields.field (fun a : Symlinkargs => a.from_)
    (fun v a => { a with from_ := v }) (fun _ => True) (fun _ _ => rfl) fun _ _ h => h).andThen <|
    (xdrNfspath_yields.field (fun a : Symlinkargs => a.to_) (fun v a => { a with to_ := v })
      (fun a => True ∧ a.from_.Limits) (fun _ _ => rfl) fun _ _ h => h).andThen <|
    (xdrSattr_yields fun _ => True).frame (fun a : Symlinkargs => a.attributes)
      (fun v a => { a with attributes := v })
      (fun a => (True ∧ a.from_.Limits) ∧ a.to_.length ≤ nfsMaxpathlen) fun _ _ h => h
  exact .of hcodes (hguards.mono (fun _ h => ⟨h.from_, h.to_, trivial⟩) fun _ h => ⟨h.1, h.2.1⟩)
    (hyields.mono (fun _ h => h) fun _ h => ⟨h.1.2, h.2⟩)
    (fun _ h h' => ⟨⟨h.from_, h'.1⟩, ⟨h.to_.nonzero, h'.2⟩, trivial⟩) fun _ _ => rfl

structure Readdirargs.Shape (a : Readdirargs) : Prop where
  dir : IsFh a.dir
  cookie : IsCookie a.cookie

theorem xdrReaddirargs_codec :
    xdrReaddirargs.Codec ⟨zeros nfsFhsize, zeros nfsCookiesize, 0⟩ Readdirargs.Shape
      fun _ => True := by
  have hcodes := (xdrNfsFh_codes.field (fun a : Readdirargs => a.dir)
    (fun v a => { a with dir := v }) fun _ => rfl).andThen <|
    (xdrNfscookie_codes.field (fun a : Readdirargs => a.cookie)
      (fun v a => { a with cookie := v }) fun _ => rfl).andThen <|
    xdrULong_codes.field (fun a : Readdirargs => a.count)
      (fun v a => { a with count := v }) fun _ => rfl
  have hguards := (xdrNfsFh_guards.field (fun a : Readdirargs => a.dir)
    (fun v a => { a with dir := v }) fun _ => rfl).andThen <|
    (xdrNfscookie_guards.field (fun a : Readdirargs => a.cookie)
      (fun v a => { a with cookie := v }) fun _ => rfl).andThen <|
    xdrULong_guards.field (fun a : Readdirargs => a.count)
      (fun v a => { a with count := v }) fun _ => rfl
  have hyields := (xdrNfsFh_yields.frame (fun a : Readdirargs => a.dir)
    (fun v a => { a with dir := v }) (fun _ => True) fun _ _ h => h).andThen <|
    (xdrNfscookie_yields.frame (fun a : Readdirargs => a.cookie)
      (fun v a => { a with cookie := v }) (fun _ => True) fun _ _ h => h).andThen <|
    (xdrULong_yields fun _ => True).frame (fun a : Readdirargs => a.count)
      (fun v a => { a with count := v }) (fun _ => True) fun _ _ h => h
  exact .of hcodes (hguards.mono (fun _ _ => ⟨trivial, trivial, trivial⟩) fun _ _ => trivial)
    hyields (fun _ h _ => ⟨h.dir, h.cookie, trivial⟩) fun _ _ => rfl

/-- Every message has a codec, the two codings of attributes and statistics agree, and the
depth that `xdrEntries` allows is all that a list of entries ever takes. -/
structure NfsCodec : Prop where
  fattr : xdrFattr.Codec default (fun _ => True) fun _ => True
  sattr : xdrSattr.Codec default (fun _ => True) fun _ => True
  attrstat : xdrAttrstat.Codec ⟨NFS_OK, default⟩ (Res.Shape default fun _ => True)
    (Res.Limits fun _ => True)
  sattrargs : xdrSattrargs.Codec ⟨zeros nfsFhsize, default⟩ (fun a => IsFh a.file) fun _ => True
  diropargs : xdrDiropargs.Codec Diropargs.zero Diropargs.Shape Diropargs.Limits
  diropres : xdrDiropres.Codec ⟨NFS_OK, Diropokres.zero⟩
    (Res.Shape Diropokres.zero fun r => IsFh r.file) (Res.Limits fun _ => True)
  readlinkres : xdrReadlinkres.Codec ⟨NFS_OK, []⟩ (Res.Shape [] IsString)
    (Res.Limits fun path => path.length ≤ nfsMaxpathlen)
  readargs : xdrReadargs.Codec ⟨zeros nfsFhsize, 0, 0, 0⟩ (fun a => IsFh a.file) fun _ => True
  readres : xdrReadres.Codec ⟨NFS_OK, ⟨default, []⟩⟩ (Res.Shape ⟨default, []⟩ Readokres.Shape)
    (Res.Limits Readokres.Limits)
  writeargs : xdrWriteargs.Codec ⟨zeros nfsFhsize, 0, 0, 0, []⟩ WriteArgs.Shape WriteArgs.Limits
  createargs : xdrCreateargs.Codec ⟨Diropargs.zero, default⟩ Createargs.Shape Createargs.Limits
  renameargs : xdrRenameargs.Codec ⟨Diropargs.zero, Diropargs.zero⟩ Renameargs.Shape
    Renameargs.Limits
  linkargs : xdrLinkargs.Codec ⟨zeros nfsFhsize, Diropargs.zero⟩ Linkargs.Shape Linkargs.Limits
  symlinkargs : xdrSymlinkargs.Codec ⟨Diropargs.zero, [], default⟩ Symlinkargs.Shape
    Symlinkargs.Limits
  readdirargs : xdrReaddirargs.Codec ⟨zeros nfsFhsize, zeros nfsCookiesize, 0⟩ Readdirargs.Shape
    fun _ => True
  readdirres : xdrReaddirres.Codec ⟨NFS_OK, ⟨[], false⟩⟩ (Res.Shape ⟨[], false⟩ Dirlist.Shape)
    (Res.Limits Dirlist.Limits)
  statfsres : xdrStatfsres.Codec ⟨NFS_OK, default⟩ (Res.Shape default fun _ => True)
    (Res.Limits fun _ => True)
  fattrInline : xdrFattr.Agrees xdrFattrSlow
  sattrInline : xdrSattr.Agrees xdrSattrSlow
  statfsokresInline : xdrStatfsokres.Agrees xdrStatfsokresSlow
  depth : ∀ more xdrs l, xdrs.xOp = .encode ∨ xdrs.Whole →
    xdrChain Entry.zero xdrEntry (l.length + xdrs.xHandy.toNat + 1 + more) xdrs l =
      xdrEntries xdrs l

theorem nfsCodec : NfsCodec where
  fattr := xdrFattr_codec
  sattr := xdrSattr_codec
  attrstat := xdrAttrstat_codec
  sattrargs := xdrSattrargs_codec
  diropargs := xdrDiropargs_codec
  diropres := xdrDiropres_codec
  readlinkres := xdrReadlinkres_codec
  readargs := xdrReadargs_codec
  readres := xdrReadres_codec
  writeargs := xdrWriteargs_codec
  createargs := xdrCreateargs_codec
  renameargs := xdrRenameargs_codec
  linkargs := xdrLinkargs_codec
  symlinkargs := xdrSymlinkargs_codec
  readdirargs := xdrReaddirargs_codec
  readdirres := xdrReaddirres_codec
  statfsres := xdrStatfsres_codec
  fattrInline := xdrFattr_agrees
  sattrInline := xdrSattr_agrees
  statfsokresInline := xdrStatfsokres_agrees
  depth := xdrEntries_enough

end Anfs.Xdr
