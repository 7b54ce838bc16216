import Anfs.Dir.Examine

/-!
# Times of the server and of AmigaDOS

An `nfstime` counts from the start of 1970, a `DateStamp` from the start of 1978. Neither
conversion of `examine.c` adds or subtracts the days between the two. They undo each other as
long as the seconds fit a `LONG`.
-/
namespace Anfs.Dir
open Anfs.Lib Anfs.Xdr Anfs.Nfs

/-- `DateStamp2timeval`; the sum wraps as the arithmetic of a `LONG` does. -/
def dateStamp2timeval (ds : DateStamp) : Nfstime :=
  { seconds := UInt32.ofInt ((ds.dsDays * 24 * 60 + ds.dsMinute) * 60 + ds.dsTick.tdiv 50)
    useconds := UInt32.ofInt ((ds.dsTick.tmod 50 * 1000000).tdiv 50) }

/-- The days from 1970 to 1978. -/
def daysTo1978 : Int := 8 * 365 + 2

/-- An instant in 1/50 seconds since 1970, rounded down. -/
def nfsInstant (tv : Nfstime) : Int := tv.seconds.toNat * 50 + tv.useconds.toNat / 20000

/-- The same for a date of AmigaDOS. -/
def dosInstant (ds : DateStamp) : Int :=
  ((daysTo1978 + ds.dsDays) * 1440 + ds.dsMinute) * 3000 + ds.dsTick

/-- A date with its minutes and ticks in their ranges. -/
structure DateStamp.Proper (ds : DateStamp) : Prop where
  minute : 0 ≤ ds.dsMinute ∧ ds.dsMinute < 1440
  tick : 0 ≤ ds.dsTick ∧ ds.dsTick < 3000

/-- A time without what is lost in 1/50 seconds. -/
def roundedDown (tv : Nfstime) : Nfstime := ⟨tv.seconds, tv.useconds / 20000 * 20000⟩

/-- The conversions do for this time what they are for. -/
structure Converts (tv : Nfstime) : Prop where
  proper : (timeval2DateStamp tv).Proper
  instant : dosInstant (timeval2DateStamp tv) = nfsInstant tv
  back : ∀ ds : DateStamp, ds.Proper → dosInstant ds = nfsInstant tv →
    dateStamp2timeval ds = roundedDown tv
  roundTrip : dateStamp2timeval (timeval2DateStamp tv) = roundedDown tv

variable {tv : Nfstime}

/-- The tick is always in range, its arithmetic is unsigned. -/
theorem timeval2DateStamp_tick (hu : tv.useconds < 1000000) :
    (timeval2DateStamp tv).dsTick = tv.seconds.toNat % 60 * 50 + tv.useconds.toNat / 20000 := by
  rw [UInt32.lt_iff_toNat_lt] at hu
  have hten : (1000000 : UInt32).toNat = 1000000 := rfl
  have hsum : (tv.seconds % 60 * TICKS_PER_SECOND + tv.useconds / 20000).toNat =
      tv.seconds.toNat % 60 * 50 + tv.useconds.toNat / 20000 := by
    rw [UInt32.toNat_add, UInt32.toNat_mul, UInt32.toNat_mod, UInt32.toNat_div]
    have hsixty : (60 : UInt32).toNat = 60 := rfl
    have hticks : TICKS_PER_SECOND.toNat = 50 := rfl
    have htwenty : (20000 : UInt32).toNat = 20000 := rfl
    rw [hsixty, hticks, htwenty]
    omega
  have hlong : IsLong (tv.seconds.toNat % 60 * 50 + tv.useconds.toNat / 20000 : Nat) := by
    constructor
    all_goals omega
  unfold timeval2DateStamp
  dsimp only
  rw [hsum, long_of_isLong hlong]
  simp

/-- The seconds as the conversion sees them. -/
theorem timeval2DateStamp_days (hu : tv.useconds < 1000000) :
    (timeval2DateStamp tv).dsDays = (long tv.seconds.toNat).tdiv 86400 ∧
      (timeval2DateStamp tv).dsMinute = ((long tv.seconds.toNat).tmod 86400).tdiv 60 := by
  have hdiv : tv.useconds / 1000000 = 0 := by
    rw [UInt32.lt_iff_toNat_lt] at hu
    apply UInt32.toNat.inj
    rw [UInt32.toNat_div]
    exact Nat.div_eq_of_lt hu
  unfold timeval2DateStamp
  dsimp only
  rw [hdiv, UInt32.add_zero]
  exact ⟨rfl, rfl⟩

/-- The days, minutes and seconds of a time. -/
theorem day_split (s : Int) : s / 86400 * 86400 + s % 86400 / 60 * 60 + s % 60 = s := by
  have hday := Int.ediv_mul_add_emod s 86400
  have hminute := Int.ediv_mul_add_emod (s % 86400) 60
  have hsecond : s % 86400 % 60 = s % 60 := Int.emod_emod_of_dvd s (by decide)
  rw [hsecond] at hminute
  rw [Int.add_assoc, hminute, hday]

/-- Before 2038 the seconds are not negative: the date counts the days, minutes and ticks of the
time as if it began in 1978. -/
theorem timeval2DateStamp_early (hu : tv.useconds < 1000000) (hs : tv.seconds.toNat < 2147483648) :
    (timeval2DateStamp tv).dsDays = (tv.seconds.toNat : Int) / 86400 ∧
      (timeval2DateStamp tv).dsMinute = (tv.seconds.toNat : Int) % 86400 / 60 := by
  obtain ⟨hdays, hminute⟩ := timeval2DateStamp_days hu
  have hlong : long tv.seconds.toNat = tv.seconds.toNat := long_of_isLong ⟨by omega, by omega⟩
  rw [hlong] at hdays hminute
  constructor
  · rw [hdays, Int.tdiv_eq_ediv_of_nonneg (Int.natCast_nonneg _)]
  · rw [hminute, Int.tmod_eq_emod_of_nonneg (Int.natCast_nonneg _)]
    exact Int.tdiv_eq_ediv_of_nonneg (Int.emod_nonneg _ (by decide))

/-- Later they are, and so are the days and minutes. -/
theorem timeval2DateStamp_late (hu : tv.useconds < 1000000) (hs : 2147483648 ≤ tv.seconds.toNat) :
    (timeval2DateStamp tv).dsDays = -((4294967296 - tv.seconds.toNat : Int) / 86400) ∧
      (timeval2DateStamp tv).dsMinute = -((4294967296 - tv.seconds.toNat : Int) % 86400 / 60) := by
  obtain ⟨hdays, hminute⟩ := timeval2DateStamp_days hu
  have hlt := tv.seconds.toNat_lt
  have hlong : long tv.seconds.toNat = -(4294967296 - tv.seconds.toNat : Int) := by
    simp only [long]
    omega
  have hnonneg : 0 ≤ (4294967296 - tv.seconds.toNat : Int) := by omega
  rw [hlong, Int.neg_tdiv] at hdays
  rw [hlong, Int.neg_tmod, Int.neg_tdiv] at hminute
  constructor
  · rw [hdays, Int.tdiv_eq_ediv_of_nonneg hnonneg]
  · rw [hminute, Int.tmod_eq_emod_of_nonneg hnonneg]
    exact congrArg Neg.neg (Int.tdiv_eq_ediv_of_nonneg (Int.emod_nonneg _ (by decide)))

/-- Before 2038 the date of a time is eight years late. -/
theorem dosInstant_early (hu : tv.useconds < 1000000) (hs : tv.seconds.toNat < 2147483648) :
    dosInstant (timeval2DateStamp tv) = nfsInstant tv + daysTo1978 * 4320000 := by
  have hsplit := day_split tv.seconds.toNat
  obtain ⟨hdays, hminute⟩ := timeval2DateStamp_early hu hs
  unfold dosInstant nfsInstant daysTo1978
  rw [hdays, hminute, timeval2DateStamp_tick hu]
  generalize (tv.seconds.toNat : Int) / 86400 = d at *
  generalize (tv.seconds.toNat : Int) % 86400 / 60 = m at *
  generalize (tv.seconds.toNat : Int) % 60 = r at *
  generalize (tv.useconds.toNat : Int) / 20000 = u at *
  omega

/-- From 2038 on it is early. -/
theorem dosInstant_late (hu : tv.useconds < 1000000) (hs : 2147483648 ≤ tv.seconds.toNat) :
    dosInstant (timeval2DateStamp tv) < nfsInstant tv := by
  have hd : 0 ≤ (4294967296 - tv.seconds.toNat : Int) / 86400 :=
    Int.ediv_nonneg (by have := tv.seconds.toNat_lt; omega) (by decide)
  have hm : 0 ≤ (4294967296 - tv.seconds.toNat : Int) % 86400 / 60 :=
    Int.ediv_nonneg (Int.emod_nonneg _ (by decide)) (by decide)
  have hr : (tv.seconds.toNat : Int) % 60 < 60 := Int.emod_lt_of_pos _ (by decide)
  obtain ⟨hdays, hminute⟩ := timeval2DateStamp_late hu hs
  unfold dosInstant nfsInstant daysTo1978
  rw [hdays, hminute, timeval2DateStamp_tick hu]
  generalize (4294967296 - tv.seconds.toNat : Int) / 86400 = d at *
  generalize (4294967296 - tv.seconds.toNat : Int) % 86400 / 60 = m at *
  generalize (tv.seconds.toNat : Int) % 60 = r at *
  generalize (tv.useconds.toNat : Int) / 20000 = u at *
  omega

theorem toNat_ofInt (x : Int) : ((UInt32.ofInt x).toNat : Int) = x % 4294967296 := by
  unfold UInt32.ofInt
  rw [UInt32.toNat_ofNat']
  omega

/-- The seconds and 1/50 seconds in a tick. -/
theorem tick_split {r u : Int} (hr : 0 ≤ r) (hu : 0 ≤ u ∧ u < 50) :
    (r * 50 + u).tdiv 50 = r ∧ ((r * 50 + u).tmod 50 * 1000000).tdiv 50 = u * 20000 := by
  have hnonneg : 0 ≤ r * 50 + u := by omega
  rw [Int.tdiv_eq_ediv_of_nonneg hnonneg, Int.tmod_eq_emod_of_nonneg hnonneg]
  constructor
  · omega
  · rw [Int.tdiv_eq_ediv_of_nonneg (by omega)]
    omega

/-- There and back: the seconds are those of the days, the minutes and the tick, what is below
1/50 seconds is lost. -/
theorem dateStamp2timeval_back (hu : tv.useconds < 1000000) :
    ((dateStamp2timeval (timeval2DateStamp tv)).seconds.toNat : Int) =
        (((timeval2DateStamp tv).dsDays * 24 * 60 + (timeval2DateStamp tv).dsMinute) * 60 +
          tv.seconds.toNat % 60) % 4294967296 ∧
      (dateStamp2timeval (timeval2DateStamp tv)).useconds = tv.useconds / 20000 * 20000 := by
  have hfifty : 0 ≤ (tv.useconds.toNat : Int) / 20000 ∧ (tv.useconds.toNat : Int) / 20000 < 50 := by
    rw [UInt32.lt_iff_toNat_lt] at hu
    have hten : (1000000 : UInt32).toNat = 1000000 := rfl
    omega
  have hsixty : 0 ≤ (tv.seconds.toNat : Int) % 60 := Int.emod_nonneg _ (by decide)
  obtain ⟨hseconds, huseconds⟩ := tick_split hsixty hfifty
  unfold dateStamp2timeval
  dsimp only
  rw [timeval2DateStamp_tick hu, hseconds, huseconds]
  constructor
  · exact toNat_ofInt _
  · apply UInt32.toNat.inj
    have htwenty : (20000 : UInt32).toNat = 20000 := rfl
    have hback := toNat_ofInt ((tv.useconds.toNat : Int) / 20000 * 20000)
    rw [UInt32.toNat_mul, UInt32.toNat_div, htwenty]
    omega

/-- A time and what is missing to 2^32 do not both end on a full minute. -/
theorem rest_ne_zero {s k : Int} (hsum : s + k = 4294967296) : k % 60 + s % 60 ≠ 0 := by
  have hk := Int.ediv_mul_add_emod k 60
  have hs := Int.ediv_mul_add_emod s 60
  generalize k / 60 = a at *
  generalize s / 60 = b at *
  generalize k % 60 = r at *
  generalize s % 60 = q at *
  omega

/-- The two conversions undo each other just as long as the seconds fit a `LONG`. -/
theorem roundTrip_iff (hu : tv.useconds < 1000000) :
    dateStamp2timeval (timeval2DateStamp tv) = roundedDown tv ↔ tv.seconds.toNat < 2147483648 := by
  obtain ⟨hseconds, huseconds⟩ := dateStamp2timeval_back hu
  have hlt := tv.seconds.toNat_lt
  constructor
  · intro h
    rw [h] at hseconds
    unfold roundedDown at hseconds
    dsimp only at hseconds
    by_contra hs
    have hsplit := day_split (4294967296 - tv.seconds.toNat)
    obtain ⟨hdays, hminute⟩ := timeval2DateStamp_late hu (Nat.le_of_not_lt hs)
    rw [hdays, hminute] at hseconds
    have hsum : (tv.seconds.toNat : Int) + (4294967296 - tv.seconds.toNat) = 4294967296 := by
      rw [Int.add_comm, Int.sub_add_cancel]
    have hrest := rest_ne_zero hsum
    have hr : 0 ≤ (4294967296 - (tv.seconds.toNat : Int)) % 60 := Int.emod_nonneg _ (by decide)
    have hq : 0 ≤ (tv.seconds.toNat : Int) % 60 := Int.emod_nonneg _ (by decide)
    have hr' : (4294967296 - (tv.seconds.toNat : Int)) % 60 < 60 := Int.emod_lt_of_pos _ (by decide)
    have hq' : (tv.seconds.toNat : Int) % 60 < 60 := Int.emod_lt_of_pos _ (by decide)
    generalize (4294967296 - (tv.seconds.toNat : Int)) / 86400 = d at *
    generalize (4294967296 - (tv.seconds.toNat : Int)) % 86400 / 60 = m at *
    generalize (4294967296 - (tv.seconds.toNat : Int)) % 60 = r at *
    generalize (tv.seconds.toNat : Int) % 60 = q at *
    omega
  · intro hs
    have hsplit := day_split tv.seconds.toNat
    obtain ⟨hdays, hminute⟩ := timeval2DateStamp_early hu hs
    have hback : (dateStamp2timeval (timeval2DateStamp tv)).seconds = tv.seconds := by
      apply UInt32.toNat.inj
      rw [hdays, hminute] at hseconds
      generalize (tv.seconds.toNat : Int) / 86400 = d at *
      generalize (tv.seconds.toNat : Int) % 86400 / 60 = m at *
      generalize (tv.seconds.toNat : Int) % 60 = r at *
      omega
    unfold roundedDown
    rw [← hback, ← huseconds]

/-- Without the days between 1970 and 1978 no time has the date of its instant. -/
theorem not_converts (hu : tv.useconds < 1000000) : ¬ Converts tv := by
  intro h
  have hinstant := h.instant
  rcases Nat.lt_or_ge tv.seconds.toNat 2147483648 with hs | hs
  · rw [dosInstant_early hu hs] at hinstant
    unfold daysTo1978 at hinstant
    omega
  · exact absurd hinstant (Int.ne_of_lt (dosInstant_late hu hs))

theorem not_converts_1978 : (⟨252460800, 0⟩ : Nfstime).useconds < 1000000 ∧
    ¬ Converts ⟨252460800, 0⟩ :=
  ⟨by decide, not_converts (by decide)⟩

/-- The start of 1978 gets the date of the start of 1986. -/
theorem dated_1986 :
    timeval2DateStamp ⟨252460800, 0⟩ = ⟨2922, 0, 0⟩ ∧ ¬ Converts ⟨252460800, 0⟩ := by
  constructor
  · decide +kernel
  · intro h
    have hne : dosInstant (timeval2DateStamp ⟨252460800, 0⟩) ≠ nfsInstant ⟨252460800, 0⟩ := by
      decide +kernel
    exact hne h.instant

end Anfs.Dir
