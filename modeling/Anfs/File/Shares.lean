import Mathlib.Data.Int.Range
import Anfs.File.Accounts

/-!
# The shares of the buffer memory

What `DistributeBuffers` makes of a number of buffers of 512 bytes: how the loop over the rest
ends, and when the shares keep their bounds. The memory is computed in a `LONG`, so from 2^22
buffers on it is not that of the buffers any more.
-/
namespace Anfs.File
open Anfs.Buf

/-- The loop that distributes the rest, run until its condition fails. -/
inductive RestShares : Int → Int → Int → Int × Int → Prop
  | done {bufMem attrs dirs : Int} (hrest : bufMem < 0) : RestShares bufMem attrs dirs (attrs, dirs)
  | pair {bufMem attrs dirs : Int} {shares : Int × Int} (hrest : 0 ≤ bufMem)
      (hnext : RestShares (bufMem - (ATTRENTRYSIZE + DIRENTRYSIZE)) (attrs + 1) (dirs + 1) shares) :
      RestShares bufMem attrs dirs shares

/-- The loop ends, and the steps allowed for it are enough. -/
theorem distributeRest_ends {n : Nat} {bufMem : Int} (hn : bufMem < n) (attrs dirs : Int) :
    RestShares bufMem attrs dirs (distributeRest n bufMem attrs dirs) := by
  induction n generalizing bufMem attrs dirs with
  | zero => exact .done hn
  | succ n ih =>
      unfold distributeRest
      split
      · rename_i hrest
        apply RestShares.pair hrest
        apply ih
        unfold ATTRENTRYSIZE DIRENTRYSIZE
        omega
      · exact .done (by omega)

/-- The pairs of entries the loop hands out: the last takes more than is there. -/
def restPairs (bufMem : Int) : Int := if bufMem < 0 then 0 else bufMem / 238 + 1

theorem RestShares.shares {bufMem attrs dirs : Int} {shares : Int × Int}
    (h : RestShares bufMem attrs dirs shares) :
    shares = (attrs + restPairs bufMem, dirs + restPairs bufMem) := by
  induction h with
  | @done bufMem attrs dirs hneg =>
      unfold restPairs
      simp [hneg]
  | @pair bufMem attrs dirs shares hpos _ ih =>
      have hpairs : restPairs bufMem = restPairs (bufMem - (ATTRENTRYSIZE + DIRENTRYSIZE)) + 1 := by
        unfold restPairs ATTRENTRYSIZE DIRENTRYSIZE
        split <;> split <;> omega
      rw [ih, hpairs]
      congr 1 <;> omega

/-- The caches may have more than 200 entries. -/
def Global.bigTimeout (g : Global) : Prop := 4 * 30 ≤ g.gAttrCacheTimeout ∨
    4 * 60 ≤ g.gDirCacheTimeout

instance (g : Global) : Decidable g.bigTimeout := inferInstanceAs (Decidable (_ ∨ _))

/-- The shares before the rest is distributed, and the rest. -/
def firstShares (g : Global) (numBufs : Int) : Int × Int × Int × Int :=
  let bufMem := long (numBufs * 512)
  let mbufs := (bufMem.tdiv 2).tdiv MBUFSIZE
  let attrs := (bufMem.tdiv 4).tdiv ATTRENTRYSIZE
  let dirs := (bufMem.tdiv 4).tdiv DIRENTRYSIZE
  let attrs := if ¬ g.bigTimeout ∧ 200 < attrs then 200 else attrs
  let dirs := if ¬ g.bigTimeout ∧ 200 < dirs then 200 else dirs
  let mbufs := if g.gSlowMedium ∧ 50 < (mbufs * MBUFSIZE).tdiv 8192 then 50 else mbufs
  let bufMem := bufMem - mbufs * MBUFSIZE - attrs * ATTRENTRYSIZE - dirs * DIRENTRYSIZE
  let l := if ¬ g.bigTimeout ∧ ¬ g.gSlowMedium then bufMem.tdiv MBUFSIZE else 0
  (mbufs + l, attrs, dirs, bufMem - l * MBUFSIZE)

theorem distributeBuffers_eq (g : Global) (numBufs : Int) :
    distributeBuffers g numBufs =
      let shares := firstShares g numBufs
      let rest := distributeRest (shares.2.2.2.toNat + 1) shares.2.2.2 shares.2.1 shares.2.2.1
      (shares.1, max rest.1 20, max rest.2 20) := rfl

/-- The memory is a multiple of 512 again after it wrapped. -/
theorem long_mul_512 (n : Int) : ∃ q : Int, long (n * 512) = q * 512 ∧ -4194304 ≤ q ∧ q < 4194304 ∧
    (q = n % 8388608 ∨ q = n % 8388608 - 8388608) := by
  have hn := Int.ediv_mul_add_emod n 8388608
  have hlow : 0 ≤ n % 8388608 := Int.emod_nonneg _ (by decide)
  have hhigh : n % 8388608 < 8388608 := Int.emod_lt_of_pos _ (by decide)
  unfold long
  generalize n / 8388608 = d at *
  generalize n % 8388608 = m at *
  subst hn
  by_cases hm : m < 4194304
  · exact ⟨m, by omega, by omega, hm, .inl rfl⟩
  · exact ⟨m - 8388608, by omega, by omega, by omega, .inr rfl⟩

/-- The quotients of the memory. -/
theorem memory_quotients {q : Int} (hq : 0 ≤ q) :
    ((q * 512).tdiv 2).tdiv MBUFSIZE = q / 32 ∧ ((q * 512).tdiv 4).tdiv ATTRENTRYSIZE = q ∧
      ((q * 512).tdiv 4).tdiv DIRENTRYSIZE = q * 128 / 110 := by
  unfold MBUFSIZE ATTRENTRYSIZE DIRENTRYSIZE
  have htwo : (q * 512).tdiv 2 = q * 256 := by
    rw [Int.tdiv_eq_ediv_of_nonneg (by omega)]
    omega
  have hfour : (q * 512).tdiv 4 = q * 128 := by
    rw [Int.tdiv_eq_ediv_of_nonneg (by omega)]
    omega
  rw [htwo, hfour]
  refine ⟨?_, ?_, ?_⟩
  · rw [Int.tdiv_eq_ediv_of_nonneg (by omega)]
    omega
  · rw [Int.tdiv_eq_ediv_of_nonneg (by omega)]
    omega
  · rw [Int.tdiv_eq_ediv_of_nonneg (by omega)]
    rfl

/-- A non-negative memory is shared out without a loss. -/
structure Shared (q : Int) (shares : Int × Int × Int × Int) : Prop where
  mbufs : 0 ≤ shares.1
  attrs : 0 ≤ shares.2.1
  dirs : 0 ≤ shares.2.2.1
  rest : 0 ≤ shares.2.2.2
  sum : shares.1 * 8192 + shares.2.1 * 128 + shares.2.2.1 * 110 + shares.2.2.2 = q * 512

theorem firstShares_shared {g : Global} {numBufs q : Int} (hq : 0 ≤ q)
    (hmem : long (numBufs * 512) = q * 512) : Shared q (firstShares g numBufs) := by
  obtain ⟨hmbufs, hattrs, hdirs⟩ := memory_quotients hq
  unfold firstShares
  rw [hmem]
  dsimp only
  rw [hmbufs, hattrs, hdirs]
  generalize hm : (if g.gSlowMedium ∧ 50 < (q / 32 * MBUFSIZE).tdiv 8192 then 50 else q / 32) = m
  generalize ha : (if ¬ g.bigTimeout ∧ 200 < q then 200 else q) = a
  generalize hd : (if ¬ g.bigTimeout ∧ 200 < q * 128 / 110 then 200 else q * 128 / 110) = d
  have hslow : (q / 32 * MBUFSIZE).tdiv 8192 = q / 32 := by
    unfold MBUFSIZE
    exact Int.mul_tdiv_cancel _ (by decide)
  rw [hslow] at hm
  have hm' : 0 ≤ m ∧ m ≤ q / 32 := by
    subst hm
    split <;> omega
  have ha' : 0 ≤ a ∧ a ≤ q := by
    subst ha
    split <;> omega
  have hd' : 0 ≤ d ∧ d ≤ q * 128 / 110 := by
    subst hd
    split <;> omega
  have hrest : 0 ≤ q * 512 - m * MBUFSIZE - a * ATTRENTRYSIZE - d * DIRENTRYSIZE := by
    unfold MBUFSIZE ATTRENTRYSIZE DIRENTRYSIZE
    omega
  generalize hr : q * 512 - m * MBUFSIZE - a * ATTRENTRYSIZE - d * DIRENTRYSIZE = r at *
  have hl : 0 ≤ (if ¬ g.bigTimeout ∧ ¬ g.gSlowMedium then r.tdiv MBUFSIZE else 0) ∧
      (if ¬ g.bigTimeout ∧ ¬ g.gSlowMedium then r.tdiv MBUFSIZE else 0) * MBUFSIZE ≤ r := by
    rw [Int.tdiv_eq_ediv_of_nonneg hrest]
    unfold MBUFSIZE
    split <;> omega
  generalize (if ¬ g.bigTimeout ∧ ¬ g.gSlowMedium then r.tdiv MBUFSIZE else 0) = l at *
  unfold MBUFSIZE ATTRENTRYSIZE DIRENTRYSIZE at *
  constructor
  all_goals dsimp only
  all_goals omega

/-- With small timeouts both caches are capped, and nothing is left for a buffer when the caps
do not apply. -/
theorem firstShares_small {g : Global} {numBufs q : Int} (hsmall : ¬ g.bigTimeout) (hq : 0 ≤ q)
    (hmem : long (numBufs * 512) = q * 512) :
    (firstShares g numBufs).2.1 = min q 200 ∧ (firstShares g numBufs).2.2.1 = min
    (q * 128 / 110) 200 ∧
      (q < 172 → (firstShares g numBufs).2.2.2 = q % 32 * 256 + q * 128 % 110) := by
  obtain ⟨hmbufs, hattrs, hdirs⟩ := memory_quotients hq
  have hslow : (q / 32 * MBUFSIZE).tdiv 8192 = q / 32 := Int.mul_tdiv_cancel _ (by decide)
  have hcap (x : Int) : (if ¬ g.bigTimeout ∧ 200 < x then 200 else x) = min x 200 := by
    simp only [hsmall, not_false_eq_true, true_and]
    split <;> omega
  unfold firstShares
  rw [hmem]
  dsimp only
  rw [hmbufs, hattrs, hdirs, hslow, hcap, hcap]
  refine ⟨rfl, rfl, fun hlt => ?_⟩
  have hm : ¬ (g.gSlowMedium = true ∧ 50 < q / 32) := fun h => by omega
  have hr : q * 512 - q / 32 * MBUFSIZE - min q 200 * ATTRENTRYSIZE -
    min (q * 128 / 110) 200 * DIRENTRYSIZE =
      q % 32 * 256 + q * 128 % 110 := by
    unfold MBUFSIZE ATTRENTRYSIZE DIRENTRYSIZE
    omega
  rw [if_neg hm, hr]
  have hl : (if ¬ g.bigTimeout ∧ ¬ g.gSlowMedium then (q % 32 * 256 + q * 128 % 110).tdiv MBUFSIZE
      else 0) = 0 := by
    rw [Int.tdiv_eq_ediv_of_nonneg (by omega)]
    unfold MBUFSIZE
    split <;> omega
  rw [hl]
  omega

/-- A memory that wrapped to a negative one gives negative shares. -/
theorem firstShares_neg {g : Global} {numBufs j : Int} (hj : 0 < j)
    (hmem : long (numBufs * 512) = -j * 512) :
    (firstShares g numBufs).1 = -(j / 32) ∧ (firstShares g numBufs).2.1 = -j ∧
      (firstShares g numBufs).2.2.1 = -(j * 128 / 110) ∧ (firstShares g numBufs).2.2.2 ≤ 0 ∧
      -8192 < (firstShares g numBufs).2.2.2 := by
  obtain ⟨hmbufs, hattrs, hdirs⟩ := memory_quotients (Int.le_of_lt hj)
  have hslow : (-(j / 32) * MBUFSIZE).tdiv 8192 = -(j / 32) := Int.mul_tdiv_cancel _ (by decide)
  have hcap (x : Int) (hx : x ≤ 0) : (if ¬ g.bigTimeout ∧ 200 < x then 200 else x) = x :=
    if_neg fun h => by omega
  unfold firstShares
  rw [hmem]
  dsimp only
  simp only [Int.neg_mul, Int.neg_tdiv, hmbufs, hattrs, hdirs]
  rw [Int.neg_mul, Int.neg_tdiv] at hslow
  rw [hslow, hcap (-j) (by omega), hcap (-(j * 128 / 110)) (by omega)]
  have hm : ¬ (g.gSlowMedium = true ∧ 50 < -(j / 32)) := fun h => by omega
  rw [if_neg hm]
  have hr : -(j * 512) - -(j / 32) * MBUFSIZE - -j * ATTRENTRYSIZE -
    -(j * 128 / 110) * DIRENTRYSIZE =
      -(j % 32 * 256 + j * 128 % 110) := by
    unfold MBUFSIZE ATTRENTRYSIZE DIRENTRYSIZE
    omega
  rw [hr]
  have hl :
      (if ¬ g.bigTimeout ∧ ¬ g.gSlowMedium then (-(j % 32 * 256 + j * 128 % 110)).tdiv MBUFSIZE
      else 0) = 0 := by
    rw [Int.neg_tdiv, Int.tdiv_eq_ediv_of_nonneg (by omega)]
    unfold MBUFSIZE
    split <;> omega
  rw [hl]
  omega

/-- The shares are what they are meant to be. -/
structure WellShared (g : Global) (numBufs : Int) : Prop where
  ends : ∃ shares, RestShares (firstShares g numBufs).2.2.2 (firstShares g numBufs).2.1
    (firstShares g numBufs).2.2.1 shares ∧
      (distributeBuffers g numBufs).2 = (max shares.1 20, max shares.2 20)
  mbufs : 0 ≤ (distributeBuffers g numBufs).1
  attrs : 20 ≤ (distributeBuffers g numBufs).2.1
  dirs : 20 ≤ (distributeBuffers g numBufs).2.2
  memory : (distributeBuffers g numBufs).1 * 8192 + (distributeBuffers g numBufs).2.1 * 128 +
    (distributeBuffers g numBufs).2.2 * 110 ≤ numBufs * 512 + (128 + 110) + (20 * 128 + 20 * 110)
  caps : ¬ g.bigTimeout → (distributeBuffers g numBufs).2.1 ≤ 200 ∧
    (distributeBuffers g numBufs).2.2 ≤ 200

/-- The numbers of buffers it is true for, by the part of them that a `LONG` keeps. -/
def Shareable (g : Global) (numBufs : Int) : Prop :=
  (numBufs % 8388608 < 4194304 ∨ 8388576 < numBufs % 8388608) ∧
    (¬ g.bigTimeout → numBufs % 8388608 ≤ 150 ∨
      160 ≤ numBufs % 8388608 ∧ numBufs % 8388608 ≤ 166 ∨ 8388576 < numBufs % 8388608)

/-- The shares after the loop. -/
theorem distributeBuffers_shares (g : Global) (numBufs : Int) :
    (distributeBuffers g numBufs).1 = (firstShares g numBufs).1 ∧
      (distributeBuffers g numBufs).2.1 =
        max ((firstShares g numBufs).2.1 + restPairs (firstShares g numBufs).2.2.2) 20 ∧
      (distributeBuffers g numBufs).2.2 =
        max ((firstShares g numBufs).2.2.1 + restPairs (firstShares g numBufs).2.2.2) 20 := by
  rw [distributeBuffers_eq]
  dsimp only
  have hends := distributeRest_ends (show (firstShares g numBufs).2.2.2 <
    ((firstShares g numBufs).2.2.2.toNat + 1 : Nat) by omega)
  rw [(hends (firstShares g numBufs).2.1 (firstShares g numBufs).2.2.1).shares]
  exact ⟨rfl, rfl, rfl⟩

/-- The loop ends for every memory, and no share of a cache is below its minimum. -/
theorem distributeBuffers_ends (g : Global) (numBufs : Int) :
    ∃ shares, RestShares (firstShares g numBufs).2.2.2 (firstShares g numBufs).2.1
      (firstShares g numBufs).2.2.1 shares ∧
        (distributeBuffers g numBufs).2 = (max shares.1 20, max shares.2 20) :=
  ⟨_, distributeRest_ends (n := (firstShares g numBufs).2.2.2.toNat + 1) (by omega) _ _, rfl⟩

/-- Below 172 the caps stand in no one's way, but the rest may. -/
theorem caps_iff : ∀ q : Int, 0 ≤ q → q < 172 →
    (max (q + ((q % 32 * 256 + q * 128 % 110) / 238 + 1)) 20 ≤ 200 ∧
    max (q * 128 / 110 + ((q % 32 * 256 + q * 128 % 110) / 238 + 1)) 20 ≤ 200 ↔
      q ≤ 150 ∨ 160 ≤ q ∧ q ≤ 166) := by
  decide +kernel

/-- Shares of a memory that did not turn negative. -/
theorem wellShared_iff_of_nonneg {g : Global} {numBufs q : Int} (hbufs : 0 ≤ numBufs) (hq : 0 ≤ q)
    (hmem : long (numBufs * 512) = q * 512) (hunits : q = numBufs % 8388608) :
    WellShared g numBufs ↔ (¬ g.bigTimeout → q ≤ 150 ∨ 160 ≤ q ∧ q ≤ 166) := by
  have hshared := firstShares_shared (g := g) hq hmem
  obtain ⟨hm, ha, hd⟩ := distributeBuffers_shares g numBufs
  have hpairs : restPairs (firstShares g numBufs).2.2.2 = (firstShares g numBufs).2.2.2 / 238 + 1 :=
    if_neg (Int.not_lt.mpr hshared.rest)
  rw [hpairs] at ha hd
  have hcaps : ¬ g.bigTimeout → ((distributeBuffers g numBufs).2.1 ≤ 200 ∧
      (distributeBuffers g numBufs).2.2 ≤ 200 ↔ q ≤ 150 ∨ 160 ≤ q ∧ q ≤ 166) := by
    intro hsmall
    obtain ⟨hattrs, hdirs, hrest⟩ := firstShares_small hsmall hq hmem
    rw [ha, hd, hattrs, hdirs]
    rcases Int.lt_or_le q 172 with hlt | hge
    · rw [hrest hlt]
      rw [Int.min_eq_left (by omega), Int.min_eq_left (by omega)]
      exact caps_iff q hq hlt
    · have hrest := hshared.rest
      omega
  constructor
  · exact fun h hsmall => (hcaps hsmall).mp (h.caps hsmall)
  · intro h
    obtain ⟨hmbufs, hattrs, hdirs, hrest, hsum⟩ := hshared
    refine ⟨distributeBuffers_ends g numBufs, ?_, ?_, ?_, ?_,
      fun hsmall => (hcaps hsmall).mpr (h hsmall)⟩
    · omega
    · omega
    · omega
    · have hquot := Int.ediv_nonneg hbufs (show (0 : Int) ≤ 8388608 by decide)
      have hle : q ≤ numBufs := by
        have hsplit := Int.ediv_mul_add_emod numBufs 8388608
        omega
      omega

/-- Shares of a memory that did: only less than one buffer's worth below 0 do they stay sound. -/
theorem wellShared_iff_of_neg {g : Global} {numBufs j : Int} (hbufs : 0 ≤ numBufs) (hj : 0 < j)
    (hmem : long (numBufs * 512) = -j * 512) : WellShared g numBufs ↔ j < 32 := by
  obtain ⟨hmbufs, hattrs, hdirs, hrest, hlow⟩ := firstShares_neg (g := g) hj hmem
  obtain ⟨hm, ha, hd⟩ := distributeBuffers_shares g numBufs
  have hpairs : restPairs (firstShares g numBufs).2.2.2 ≤ 1 := by
    unfold restPairs
    split <;> omega
  generalize restPairs (firstShares g numBufs).2.2.2 = pairs at *
  rw [hmbufs] at hm
  rw [hattrs] at ha
  rw [hdirs] at hd
  constructor
  · intro h
    have hnonneg := h.mbufs
    omega
  · intro hlt
    refine ⟨distributeBuffers_ends g numBufs, ?_, ?_, ?_, ?_, fun _ => ⟨?_, ?_⟩⟩
    all_goals omega

theorem wellShared_iff {g : Global} {numBufs : Int} (hbufs : 0 ≤ numBufs) :
    WellShared g numBufs ↔ Shareable g numBufs := by
  obtain ⟨q, hmem, hlow, hhigh, hunits⟩ := long_mul_512 numBufs
  have hnonneg := Int.emod_nonneg numBufs (show (8388608 : Int) ≠ 0 by decide)
  have hlt := Int.emod_lt_of_pos numBufs (show (0 : Int) < 8388608 by decide)
  unfold Shareable
  rcases Int.lt_or_le q 0 with hneg | hpos
  · have hj : long (numBufs * 512) = -(-q) * 512 := by rw [Int.neg_neg, hmem]
    rw [wellShared_iff_of_neg hbufs (by omega) hj]
    generalize numBufs % 8388608 = units at *
    constructor
    · exact fun h => ⟨.inr (by omega), fun _ => by omega⟩
    · rintro ⟨h, -⟩
      omega
  · rw [wellShared_iff_of_nonneg hbufs hpos hmem (by omega)]
    have hq : q = numBufs % 8388608 := by omega
    rw [← hq]
    constructor
    · exact fun h => ⟨.inl hhigh, fun hsmall => by have := h hsmall; omega⟩
    · rintro ⟨-, h⟩ hsmall
      have := h hsmall
      omega

/-- The new count is the sum as long as that is below 2^31. -/
theorem newNumBufs_iff {g : Global} {num : Int}
    (hbufs : 0 ≤ g.gNumBuffers ∧ g.gNumBuffers < 4294967296)
    (hnum : IsLong num) :
    newNumBufs g num = max 0 (g.gNumBuffers + num) ↔ g.gNumBuffers + num < 2147483648 := by
  unfold newNumBufs long
  unfold IsLong at hnum
  dsimp only
  have hlow : -2147483648 ≤ g.gNumBuffers + num := by omega
  have hhigh : g.gNumBuffers + num < 6442450944 := by omega
  generalize g.gNumBuffers + num = sum at *
  clear hnum
  split
  · omega
  · omega

/-- What an `act_MORE_CACHE` of `num` is to keep to. -/
def MoreCacheSound (g : Global) (num : Int) : Prop :=
  newNumBufs g num = max 0 (g.gNumBuffers + num) ∧ WellShared g (newNumBufs g num)

theorem moreCacheSound_iff {g : Global} {num : Int}
    (hbufs : 0 ≤ g.gNumBuffers ∧ g.gNumBuffers < 4294967296) (hnum : IsLong num) :
    MoreCacheSound g num ↔
      g.gNumBuffers + num < 2147483648 ∧ Shareable g (max 0 (g.gNumBuffers + num)) := by
  unfold MoreCacheSound
  rw [newNumBufs_iff hbufs hnum]
  constructor
  · rintro ⟨hlt, hshared⟩
    rw [(newNumBufs_iff hbufs hnum).mpr hlt] at hshared
    exact ⟨hlt, (wellShared_iff (Int.le_max_left ..)).mp hshared⟩
  · rintro ⟨hlt, hshared⟩
    rw [(newNumBufs_iff hbufs hnum).mpr hlt]
    exact ⟨hlt, (wellShared_iff (Int.le_max_left ..)).mpr hshared⟩

theorem moreCacheSound_exGlobal : MoreCacheSound exGlobal 1 ↔
    exGlobal.gNumBuffers + 1 < 2147483648 ∧ Shareable exGlobal (max 0 (exGlobal.gNumBuffers + 1)) :=
  moreCacheSound_iff ⟨by decide, by decide⟩ ⟨by decide, by decide⟩

/-- 119 more buffers give 201 directory entries, 4194272 more negative shares, and 2147483647 more
none at all. -/
theorem exGlobal_not_shared :
    (¬ exGlobal.bigTimeout ∧ ¬ MoreCacheSound exGlobal 119) ∧ ¬ MoreCacheSound exGlobal 4194272 ∧
      ¬ MoreCacheSound exGlobal 2147483647 := by
  refine ⟨⟨by decide, fun h => ?_⟩, fun h => ?_, fun h => ?_⟩
  · have hdirs : (distributeBuffers exGlobal (newNumBufs exGlobal 119)).2.2 =
      201 := by decide +kernel
    have hcap := (h.2.caps (by decide)).2
    omega
  · have hmbufs : (distributeBuffers exGlobal (newNumBufs exGlobal 4194272)).1 =
      -131072 := by decide +kernel
    have hnonneg := h.2.mbufs
    omega
  · have hcount : newNumBufs exGlobal 2147483647 = 0 ∧ exGlobal.gNumBuffers + 2147483647 =
      2147483679 := by decide
    have heq := h.1
    omega

end Anfs.File
