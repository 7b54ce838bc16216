import Anfs.Buf.Order

/-!
# What a cluster holds

The writes a flush makes of a chain change the server's file as one patch does. Where the
chain is in order the buffers of it patch different blocks, so the patch is put together
from the buffers in any order, and filling a buffer overrides it with the bytes written.
-/
namespace Anfs.Buf
open Anfs.Lib Anfs.Nfs

/-- The patch of a list of writes. -/
def writesPatch (ws : List (UInt32 × List UInt8)) : Patch Nat UInt8 := mergeAll (ws.map keyPatch)

/-- Lists of writes of the same bytes have the same effect. -/
theorem writeAll_congr {f : SrvFile} {ws ws' : List (UInt32 × List UInt8)}
    (hpatch : writesPatch ws = writesPatch ws') (hne : ∀ w ∈ ws, w.2 ≠ [])
    (hne' : ∀ w ∈ ws', w.2 ≠ []) : f.writeAll ws = f.writeAll ws' := by
  have hbytes : (f.writeAll ws).bytes = (f.writeAll ws').bytes := by
    rw [SrvFile.writeAll_bytes, SrvFile.writeAll_bytes, applyAll_eq_merge, applyAll_eq_merge]
    exact congrArg (·.apply f.bytes) hpatch
  have hends : ∀ {vs : List (UInt32 × List UInt8)} {n : Nat}, (∀ w ∈ vs, w.2 ≠ []) →
      ((∀ w ∈ vs, keyEnd w ≤ n) ↔ ∀ x, writesPatch vs x ≠ none → x < n) := by
    intro vs n hvs
    constructor
    · intro hle x hx
      have hex : ¬ ∀ p ∈ vs.map keyPatch, p x = none := fun hall =>
        hx (mergeAll_eq_none.mpr hall)
      simp only [List.forall_mem_map, not_forall] at hex
      obtain ⟨w, hw, hwx⟩ := hex
      have := hle w hw
      simp only [keyPatch] at hwx
      split at hwx
      · rename_i hge
        have hlt : x - w.1.toNat < w.2.length := by
          by_contra hno
          exact hwx (List.getElem?_eq_none (by omega))
        simp only [keyEnd] at this
        omega
      · exact absurd rfl hwx
    · intro hlt w hw
      have hlen : 0 < w.2.length := List.length_pos_iff.mpr (hvs w hw)
      have hlast : writesPatch vs (keyEnd w - 1) ≠ none := by
        intro hnone
        have := mergeAll_eq_none.mp hnone (keyPatch w) (List.mem_map.mpr ⟨w, hw, rfl⟩)
        have hle : w.1.toNat ≤ keyEnd w - 1 := by
          simp only [keyEnd]
          omega
        unfold keyPatch at this
        rw [if_pos hle] at this
        have hout := List.getElem?_eq_none_iff.mp this
        simp only [keyEnd] at hout
        omega
      have := hlt _ hlast
      simp only [keyEnd] at *
      omega
  have hsize : (f.writeAll ws).size = (f.writeAll ws').size := by
    have hiff : ∀ n, (f.writeAll ws).size ≤ n ↔ (f.writeAll ws').size ≤ n := by
      intro n
      rw [SrvFile.writeAll_size_le, SrvFile.writeAll_size_le, hends hne, hends hne', hpatch]
    exact Nat.le_antisymm ((hiff _).mpr (Nat.le_refl _)) ((hiff _).mp (Nat.le_refl _))
  cases h : f.writeAll ws
  cases h' : f.writeAll ws'
  simp_all

/-- The bytes of the file that `cnt` bytes at `buf` written at `pos` change. -/
def bytesPatch (pos : Int) (buf : Nat → UInt8) (cnt : Int) : Patch Nat UInt8 := fun x =>
  if pos ≤ x ∧ (x : Int) < pos + cnt then some (buf (x - pos).toNat) else none

/-- The bytes of the file that a buffer holds. -/
def Block.patch (b : Block) : Patch Nat UInt8 := fun x =>
  if Covers b.info (x - b.fileOffs) then some (b.bytes (x - b.fileOffs).toNat) else none

/-- The bytes of the file that the buffers of `l` hold. -/
def chainPatch (g : Pool) (l : List Ptr) : Patch Nat UInt8 :=
  mergeAll (l.map fun p => (g.blk p).patch)

theorem Block.patch_pos {b : Block} {x : Nat} (h : Covers b.info (x - b.fileOffs)) :
    b.patch x = some (b.bytes (x - b.fileOffs).toNat) := if_pos h

theorem Block.patch_neg {b : Block} {x : Nat} (h : ¬ Covers b.info (x - b.fileOffs)) :
    b.patch x = none := if_neg h

theorem block_getElem? (buf : Nat → UInt8) (n k : Nat) :
    (block buf n)[k]? = if k < n then some (buf k) else none := by
  unfold block
  rw [List.getElem?_map]
  by_cases h : k < n
  · rw [List.getElem?_range h, if_pos h]; rfl
  · rw [if_neg h, List.getElem?_eq_none (by simpa using h)]; rfl

/-- The patch of one write request. -/
theorem keyPatch_block {pos cnt : Int} {buf : Nat → UInt8} (hpos : 0 ≤ pos)
    (hrange : pos < 4294967296) :
    keyPatch (UInt32.ofInt pos, block buf cnt.toNat) = bytesPatch pos buf cnt := by
  have hnat : (UInt32.ofInt pos).toNat = pos.toNat := by
    unfold UInt32.ofInt
    rw [UInt32.toNat_ofNat']
    omega
  funext x
  simp only [keyPatch, bytesPatch, hnat, block_getElem?]
  by_cases h1 : pos.toNat ≤ x
  · rw [if_pos h1]
    by_cases h2 : x - pos.toNat < cnt.toNat
    · rw [if_pos h2, if_pos (by omega)]
      congr 2
      omega
    · rw [if_neg h2, if_neg (by omega)]
  · rw [if_neg h1, if_neg (by omega)]

section Patch
variable {g g' : Pool} {b : Block} {l l₁ l₂ : List Ptr} {p q : Ptr}

theorem keyPatch_interval {fileOffs : Int} {data : Nat → UInt8} {wbi : WBufHdrInfo}
    (h0 : 0 ≤ fileOffs) (hmax : fileOffs + MBUFSIZE ≤ POSMAX)
    (hwbi : 0 ≤ wbi.wbiFrom ∧ wbi.wbiFrom ≤ wbi.wbiTo ∧ wbi.wbiTo ≤ MBUFSIZE - 1) (x : Nat) :
    keyPatch (intervalWrite fileOffs data wbi) x =
      if wbi.wbiFrom ≤ x - fileOffs ∧ x - fileOffs ≤ wbi.wbiTo then
        some (data (x - fileOffs).toNat) else none := by
  simp only [POSMAX, MBUFSIZE] at *
  have hlong : long (fileOffs + wbi.wbiFrom) = fileOffs + wbi.wbiFrom := by
    refine long_of_isLong ?_
    simp only [IsLong]
    omega
  unfold intervalWrite
  rw [hlong, keyPatch_block (by omega) (by omega)]
  unfold bytesPatch
  by_cases hin : wbi.wbiFrom ≤ x - fileOffs ∧ x - fileOffs ≤ wbi.wbiTo
  · have harg : wbi.wbiFrom.toNat + (x - (fileOffs + wbi.wbiFrom)).toNat =
        (x - fileOffs).toNat := by
      omega
    rw [if_pos hin, if_pos (by omega), ← harg]
  · rw [if_neg hin, if_neg (by omega)]

/-- The writes of one buffer. -/
theorem block_writesPatch (h0 : 0 ≤ b.fileOffs) (hmax : b.fileOffs + MBUFSIZE ≤ POSMAX)
    (hnormal : Normal 0 (MBUFSIZE - 1) b.info) : writesPatch b.writes = b.patch := by
  have hkey : ∀ wbi ∈ b.info, ∀ x, keyPatch (intervalWrite b.fileOffs b.bytes wbi) x =
      if wbi.wbiFrom ≤ x - b.fileOffs ∧ x - b.fileOffs ≤ wbi.wbiTo then
        some (b.bytes (x - b.fileOffs).toNat) else none := fun wbi hm x =>
    keyPatch_interval h0 hmax (hnormal.mem hm) x
  have hmap : b.writes.map keyPatch =
      b.info.map fun wbi => keyPatch (intervalWrite b.fileOffs b.bytes wbi) := by
    rw [Block.writes, List.map_map]
    rfl
  funext x
  unfold writesPatch Block.patch
  rw [hmap]
  by_cases hcov : Covers b.info (x - b.fileOffs)
  · rw [if_pos hcov]
    have hall : ∀ r ∈ b.info.map fun wbi => keyPatch (intervalWrite b.fileOffs b.bytes wbi),
        ∀ y, r x = some y → y = b.bytes (x - b.fileOffs).toNat := by
      intro r hr y hy
      obtain ⟨wbi, hm, rfl⟩ := List.mem_map.mp hr
      rw [hkey wbi hm] at hy
      split at hy
      · exact (Option.some.inj hy).symm
      · cases hy
    rcases mergeAll_of_restrict (f := fun x : Nat => b.bytes (x - b.fileOffs).toNat) hall with
      hn | hs
    · obtain ⟨wbi, hm, hin⟩ := hcov
      have hno := mergeAll_eq_none.mp hn _ (List.mem_map.mpr ⟨wbi, hm, rfl⟩)
      rw [hkey wbi hm, if_pos hin] at hno
      cases hno
    · exact hs
  · rw [if_neg hcov]
    refine mergeAll_eq_none.mpr fun r hr => ?_
    obtain ⟨wbi, hm, rfl⟩ := List.mem_map.mp hr
    rw [hkey wbi hm]
    exact if_neg fun hin => hcov ⟨wbi, hm, hin⟩

/-- A chain in order with normal tables, at positions that are not negative. -/
structure Flushable (g : Pool) (l : List Ptr) : Prop where
  ordered : Ordered g l
  normal : ∀ p ∈ l, Normal 0 (MBUFSIZE - 1) (g.blk p).info
  nonneg : ∀ p ∈ l, 0 ≤ g.offs p

/-- The writes of a chain. -/
theorem chain_writesPatch (h : Flushable g l) : writesPatch (chainWrites g l) = chainPatch g l := by
  have hone : ∀ p ∈ l, writesPatch (g.blk p).writes = (g.blk p).patch := fun p hp =>
    block_writesPatch (h.nonneg p hp) (h.ordered.bounded p hp).2 (h.normal p hp)
  clear h
  unfold chainPatch writesPatch chainWrites at *
  induction l with
  | nil => rfl
  | cons p l ih =>
      simp only [List.forall_mem_cons] at hone
      rw [List.flatMap_cons, List.map_append, mergeAll_append, List.map_cons, mergeAll_cons,
        ih hone.2, hone.1]

/-- No write of a chain is empty. -/
theorem chainWrites_ne (h : Flushable g l) : ∀ w ∈ chainWrites g l, w.2 ≠ [] := by
  intro w hw
  obtain ⟨p, hp, hw⟩ := List.mem_flatMap.mp hw
  obtain ⟨wbi, hm, rfl⟩ := List.mem_map.mp hw
  have := (h.normal p hp).mem hm
  have hlen : (intervalWrite (g.blk p).fileOffs (g.blk p).bytes wbi).2.length =
      (wbi.wbiTo - wbi.wbiFrom + 1).toNat := by
    simp [intervalWrite, block]
  intro hnil
  rw [hnil, List.length_nil] at hlen
  omega

/-- What is written to a buffer overrides what it held. -/
theorem put_patch {buf : Nat → UInt8} {offs cnt : Int} (hoffs : 0 ≤ offs) (hcnt : 0 < cnt)
    (hend : offs + cnt ≤ MBUFSIZE) (hnormal : Normal 0 (MBUFSIZE - 1) b.info) :
    (b.put buf offs cnt).patch = (bytesPatch (b.fileOffs + offs) buf cnt).over b.patch := by
  have hcov := (wBufUpdateInfo_spec hnormal hoffs (Int.le_sub_one_of_lt (by omega :
    offs < offs + cnt)) (by omega)).2
  funext x
  have hiff : Covers (b.put buf offs cnt).info (x - (b.put buf offs cnt).fileOffs) ↔ _ :=
    hcov (x - b.fileOffs)
  have hbytes : (b.put buf offs cnt).bytes (x - (b.put buf offs cnt).fileOffs).toNat =
    copyMem b.bytes buf offs cnt (x - b.fileOffs).toNat := rfl
  unfold Patch.over bytesPatch
  by_cases hin : b.fileOffs + offs ≤ x ∧ (x : Int) < b.fileOffs + offs + cnt
  · rw [Block.patch_pos (hiff.mpr (.inr (by omega))), if_pos hin, hbytes]
    simp only [copyMem, Option.some_or]
    rw [if_pos (by omega)]
    congr 2
    omega
  · rw [if_neg hin, Option.none_or]
    by_cases hold : Covers b.info (x - b.fileOffs)
    · have hle := hnormal.le_of_covers hold
      rw [Block.patch_pos (hiff.mpr (.inl hold)), Block.patch_pos hold, hbytes]
      simp only [copyMem]
      rw [if_neg (by omega)]
    · rw [Block.patch_neg hold, Block.patch_neg fun hnew => ?_]
      rcases hiff.mp hnew with hc | hc
      · exact hold hc
      · omega

/-- The blocks of a chain in order do not overlap. -/
theorem Flushable.patch_none (h : Flushable g l) (hp : p ∈ l) (hq : q ∈ l) (hne : q ≠ p) {x : Nat}
    (hin : g.offs p ≤ x ∧ (x : Int) < g.offs p + MBUFSIZE) : (g.blk q).patch x = none := by
  unfold Block.patch
  refine if_neg fun hcov => ?_
  have hle := (h.normal q hq).le_of_covers hcov
  obtain ⟨l₁, l₂, rfl⟩ := List.append_of_mem hp
  have hqe : (g.blk q).fileOffs = g.offs q := rfl
  simp only [List.mem_append, List.mem_cons] at hq
  rcases hq with hq | rfl | hq
  · have := h.ordered.before hq
    omega
  · exact hne rfl
  · have := h.ordered.after hq
    omega

end Patch

section Steps
variable {efh : EFH} {s s' : WState} {l fr : List Ptr} {buf : Nat → UInt8} {num : Int}

theorem Tidy.flushable (h : Tidy s l) (hnonneg : ∀ p ∈ l, 0 ≤ s.pool.offs p) :
    Flushable s.pool l := ⟨h.ordered, h.normal, hnonneg⟩

/-- Filling the buffer aimed at. -/
theorem Aimed.filled_patch {q : Ptr} (h : Aimed s l q) (howns : Owns s ⟨l, [], fr⟩)
    (hnonneg : ∀ p ∈ l, 0 ≤ s.pool.offs p) (hnum : 0 < num) (buf : Nat → UInt8) :
    chainPatch (s.filled q buf (s.fits q num)).pool l =
      (bytesPatch s.wbc.wbcFilePos buf (s.fits q num)).over (chainPatch s.pool l) := by
  obtain ⟨h0, hle⟩ := h.inBuf
  obtain ⟨hpos, -, hfit, -⟩ := h.fits hnum
  have hfl := h.tidy.flushable hnonneg
  have hnd : l.Nodup := by
    have hnd := howns.nodup
    simp only [Hold.hdrs, List.append_nil] at hnd
    exact hnd.of_append_left
  have hput : ((s.filled q buf (s.fits q num)).pool.blk q).patch =
      (bytesPatch s.wbc.wbcFilePos buf (s.fits q num)).over (s.pool.blk q).patch := by
    rw [filled_blk, put_patch h0 hpos hfit (h.tidy.normal q h.mem)]
    congr 2
    simp only [WState.inBuf, Pool.blk_fileOffs]
    omega
  have hmem := h.mem
  have hne : ∀ r ∈ l, r ≠ q → (s.filled q buf (s.fits q num)).pool.blk r = s.pool.blk r :=
    fun r hr hrq => howns.filled_blk_ne hmem hr hrq
  obtain ⟨l₁, l₂, rfl⟩ := List.append_of_mem hmem
  have hq₁ : ∀ r ∈ l₁, r ≠ q := by
    rintro r hr rfl
    exact (List.nodup_append'.mp hnd).2.2 hr (by simp)
  have hq₂ : ∀ r ∈ l₂, r ≠ q := by
    rintro r hr rfl
    have := (List.nodup_append'.mp hnd).2.1
    exact (List.nodup_cons.mp this).1 hr
  have hmap : ∀ k : List Ptr, (∀ r ∈ k, r ∈ l₁ ++ q :: l₂ ∧ r ≠ q) →
      k.map (fun r => ((s.filled q buf (s.fits q num)).pool.blk r).patch) =
        k.map fun r => (s.pool.blk r).patch := fun k hk =>
    List.map_congr_left fun r hr => by rw [hne r (hk r hr).1 (hk r hr).2]
  unfold chainPatch
  rw [List.map_append, List.map_cons, hput, hmap l₁ fun r hr => ⟨by simp [hr], hq₁ r hr⟩,
    hmap l₂ fun r hr => ⟨by simp [hr], hq₂ r hr⟩, mergeAll_override]
  · simp only [List.map_append, List.map_cons]
  · intro r hr x hx
    obtain ⟨p, hp, rfl⟩ := List.mem_map.mp hr
    refine hfl.patch_none hmem (by simp [hp]) (hq₂ p hp) ?_
    unfold bytesPatch at hx
    split at hx
    · rename_i hin
      have h1 := h.le
      simp only [WState.inBuf] at hfit
      omega
    · exact absurd rfl hx

end Steps

/-- The file `fh` after a flush of the chain `l` has succeeded. -/
def WState.ideal (s : WState) (fh : Fh) (l : List Ptr) : SrvFile :=
  (s.srv.file fh).writeAll (chainWrites s.pool l)

/-- The request for `num` bytes at `buf`. -/
def request (pos : Int) (buf : Nat → UInt8) (num : Int) : UInt32 × List UInt8 :=
  (UInt32.ofInt pos, block buf num.toNat)

section Ideal
variable {efh : EFH} {s s' : WState} {l fr : List Ptr} {p : Ptr} {buf : Nat → UInt8} {num : Int}

theorem block_ne_nil (buf : Nat → UInt8) (hnum : 0 < num) : block buf num.toNat ≠ [] := by
  intro hnil
  have := congrArg List.length hnil
  simp only [block, List.length_map, List.length_range, List.length_nil] at this
  omega

theorem write_eq_writeAll (f : SrvFile) (w : UInt32 × List UInt8) :
    f.write w = f.writeAll [w] := rfl

/-- A request in two pieces. -/
theorem write_split (f : SrvFile) {pos cnt : Int} (buf : Nat → UInt8) (hpos : 0 ≤ pos)
    (hcnt : 0 < cnt) (hlt : cnt < num) (hmax : pos + num ≤ POSMAX) :
    (f.write (request pos buf cnt)).write
        (request (pos + cnt) (fun i => buf (cnt.toNat + i)) (num - cnt)) =
      f.write (request pos buf num) := by
  simp only [write_eq_writeAll, ← writeAll_append, POSMAX] at *
  refine writeAll_congr ?_ ?_ ?_
  · simp only [writesPatch, request, List.map_append, List.map_cons, List.map_nil, mergeAll_append,
      mergeAll_cons, mergeAll_nil, Patch.none_over]
    rw [keyPatch_block hpos (by omega), keyPatch_block (by omega) (by omega),
      keyPatch_block hpos (by omega)]
    funext x
    simp only [Patch.over, bytesPatch]
    by_cases h2 : pos + cnt ≤ x ∧ (x : Int) < pos + cnt + (num - cnt)
    · have harg : cnt.toNat + (x - (pos + cnt)).toNat = (x - pos).toNat := by omega
      have h3 : pos ≤ x ∧ (x : Int) < pos + num := by omega
      rw [if_pos h2, if_pos h3, harg, Option.some_or]
    · rw [if_neg h2, Option.none_or]
      by_cases h1 : pos ≤ x ∧ (x : Int) < pos + cnt
      · rw [if_pos h1, if_pos (by omega)]
      · rw [if_neg h1, if_neg (by omega)]
  · intro w hw
    simp only [List.mem_append, List.mem_singleton] at hw
    rcases hw with rfl | rfl
    · exact block_ne_nil _ hcnt
    · exact block_ne_nil _ (by omega)
  · intro w hw
    obtain rfl := List.mem_singleton.mp hw
    exact block_ne_nil _ (by omega)

/-- A buffer overridden is a request made. -/
theorem ideal_write {g g' : Pool} {l' : List Ptr} (f : SrvFile) {pos cnt : Int}
    (hfl : Flushable g l) (hfl' : Flushable g' l') (hpos : 0 ≤ pos) (hcnt : 0 < cnt)
    (hmax : pos < POSMAX)
    (hpatch : chainPatch g' l' = (bytesPatch pos buf cnt).over (chainPatch g l)) :
    f.writeAll (chainWrites g' l') =
      (f.writeAll (chainWrites g l)).write (request pos buf cnt) := by
  rw [write_eq_writeAll, ← writeAll_append]
  refine writeAll_congr ?_ (chainWrites_ne hfl') ?_
  · have happ : writesPatch (chainWrites g l ++ [request pos buf cnt]) =
        (bytesPatch pos buf cnt).over (writesPatch (chainWrites g l)) := by
      simp only [POSMAX] at hmax
      unfold writesPatch request
      rw [List.map_append, mergeAll_append, List.map_cons, List.map_nil, mergeAll_cons,
        mergeAll_nil, Patch.none_over, keyPatch_block hpos (by omega)]
    rw [happ, chain_writesPatch hfl, chain_writesPatch hfl', hpatch]
  · intro w hw
    rcases List.mem_append.mp hw with hw | hw
    · exact chainWrites_ne hfl w hw
    · obtain rfl := List.mem_singleton.mp hw
      exact block_ne_nil _ hcnt

theorem writes_unused {b : Block} (hinfo : b.info = []) : b.writes = [] := by
  rw [Block.writes, hinfo]
  rfl

/-- A flush makes the file what it was to be. -/
theorem Flushed.ideal (h : Flushed efh s l [] fr none s') :
    s'.ideal efh.efhNFSFh [] = s.ideal efh.efhNFSFh l := h.file rfl

theorem Placed.ideal_fresh {pos : Int} {l₁ l₂ fr' : List Ptr}
    (h : Placed efh s (l₁ ++ l₂) fr pos s' p (l₁ ++ p :: l₂) fr') (hnew : p ∉ l₁ ++ l₂)
    (hsrv : s'.srv = s.srv) :
    s'.ideal efh.efhNFSFh (l₁ ++ p :: l₂) = s.ideal efh.efhNFSFh (l₁ ++ l₂) := by
  have hsame : chainWrites s'.pool (l₁ ++ l₂) = chainWrites s.pool (l₁ ++ l₂) := by
    refine chainWrites_congr fun q hq => h.others q ?_ fun heq => hnew (heq ▸ hq)
    simp only [List.mem_append, List.mem_cons] at hq ⊢
    tauto
  have hdrop : chainWrites s'.pool (l₁ ++ p :: l₂) = chainWrites s'.pool (l₁ ++ l₂) := by
    simp only [chainWrites, List.flatMap_append, List.flatMap_cons, writes_unused h.info,
      List.nil_append]
  unfold WState.ideal
  rw [hdrop, hsame, hsrv]

theorem Placed.ideal_flushed {pos : Int} {fr' : List Ptr} (h : Placed efh s l fr pos s' p [p] fr')
    (hfile : s'.srv.file efh.efhNFSFh = (s.srv.file efh.efhNFSFh).writeAll (chainWrites s.pool l)) :
    s'.ideal efh.efhNFSFh [p] = s.ideal efh.efhNFSFh l := by
  unfold WState.ideal
  rw [hfile]
  simp only [chainWrites, List.flatMap_cons, List.flatMap_nil,
    writes_unused h.info, List.append_nil]
  rfl

/-- Finding a buffer to fill changes nothing of what the file is to be. -/
theorem TargetEnds.ideal {q : Ptr} {s₁ : WState} {l' fr' : List Ptr}
    (ht : TargetEnds efh s l fr p (.fill q) s₁ l' fr') :
    s₁.ideal efh.efhNFSFh l' = s.ideal efh.efhNFSFh l := by
  cases ht with
  | here inside => rfl
  | next past covers => rfl
  | @fresh _ new l₁ l₂ fr' room past gap split placed new_notMem srv =>
      subst split
      have hsplit : l₁ ++ p :: q :: l₂ = (l₁ ++ [p]) ++ q :: l₂ := by simp
      have hsplit' : l₁ ++ p :: l₂ = (l₁ ++ [p]) ++ l₂ := by simp
      rw [hsplit, hsplit'] at placed
      rw [hsplit'] at new_notMem
      rw [hsplit, hsplit']
      exact placed.ideal_fresh new_notMem srv
  | flushed placed file => exact placed.ideal_flushed file

theorem SeekEnds.ideal {newPos : Int} {r : Ret} {l' fr' : List Ptr}
    (hs : SeekEnds efh s l fr newPos r s' l' fr') (hr : r.error = none) :
    s'.ideal efh.efhNFSFh l' = s.ideal efh.efhNFSFh l := by
  cases hs with
  | head front ends =>
      cases ends with
      | failed flush => cases hr
      | noMem empty none => rfl
      | @fresh _ p fr' room placed new srv =>
          have hplaced : Placed efh (s.setFilePos newPos) ([] ++ l) fr newPos s' p
            ([] ++ p :: l) fr' := placed
          exact hplaced.ideal_fresh new srv
      | flushed placed file => exact placed.ideal_flushed file
  | tail last behind => rfl
  | inside split le reach => rfl
  | between split before behind => rfl

end Ideal

end Anfs.Buf
