/-
ReminderExpr.Proofs.CivilDates — days and dates are two names for one thing.

`dayCount` is a closed formula, `CivilDate.ofDay` takes away years and months
one after another. What they share is the first day of every year
(`firstDay`), which grows by the length of the year, and by the same number
of days over any four hundred years; and likewise the first day of every
month within its year. Both loops keep the day that is left plus the first
day they have come to, and end in the year and in the month that it falls in.

* `firstDay_succ`, `firstDay_cycle` — how far apart the first days are;
* `daysBeforeMonth_succ`, `daysBeforeMonth_last` — the months of a year;
* `passYears_reaches`, `passMonths_reaches` — what the two loops keep, and
  where they end;
* `dayCount_ofDay`, `ofDay_dayCount`, `dayCount_lt_iff` — there and back, and
  the order of both;
* `days_are_dates` — all of this for every day of 32 bits and every date.
-/
import ReminderExpr.Value

namespace ReminderExpr.Calendar

/-! ## Years -/

/-- The day on which a year begins. -/
def firstDay (year : Int) : Int :=
  365 * (year - baseYear) + (leapYearsBefore year - leapYearsBefore baseYear)

theorem dayCount_eq (year : Int) (month day : Nat) :
    dayCount year month day = firstDay year + daysBeforeMonth month year + day - 1 :=
  rfl

/-- The next year begins when a year is over. -/
theorem firstDay_succ (year : Int) : firstDay (year + 1) = firstDay year + daysInYear year := by
  unfold firstDay leapYearsBefore daysInYear
  cases hleap : isLeapYear year with
  | true =>
    simp only [isLeapYear, Bool.and_eq_true, Bool.not_eq_true', Bool.and_eq_false_iff,
      beq_iff_eq, beq_eq_false_iff_ne, bne_eq_false_iff_eq] at hleap
    rw [if_pos rfl]
    omega
  | false =>
    simp only [isLeapYear, Bool.and_eq_false_iff, Bool.not_eq_false', Bool.and_eq_true,
      beq_iff_eq, beq_eq_false_iff_ne, bne_iff_ne] at hleap
    rw [if_neg (by decide)]
    omega

/-- Four hundred years always have the same number of days. -/
theorem firstDay_cycle (year cycles : Int) :
    firstDay (year + 400 * cycles) = firstDay year + daysPerCycle * cycles := by
  simp only [firstDay, leapYearsBefore, daysPerCycle]
  omega

theorem firstDay_baseYear : firstDay baseYear = 0 := by decide

/-- A later year begins later. -/
theorem firstDay_mono {year year' : Int} (h : year ≤ year') : firstDay year ≤ firstDay year' := by
  simp only [firstDay, leapYearsBefore]
  omega

/-! ## Months -/

/-- Days that come after some months come on top of them. -/
theorem foldr_daysInMonth (year : Int) (months : List Nat) (days : Nat) :
    months.foldr (fun m days => daysInMonth (m + 1) year + days) days
      = months.foldr (fun m days => daysInMonth (m + 1) year + days) 0 + days := by
  induction months with
  | nil => exact (Nat.zero_add days).symm
  | cons m rest ih => rw [List.foldr_cons, List.foldr_cons, ih, Nat.add_assoc]

/-- The next month begins when a month is over. -/
theorem daysBeforeMonth_succ {month : Nat} (hfirst : 1 ≤ month) (hlast : month < 12) (year : Int) :
    daysBeforeMonth (month + 1) year = daysBeforeMonth month year + daysInMonth month year := by
  have hcount : min (month + 1) 12 - 1 = (min month 12 - 1) + 1 := by omega
  have hmonth : min month 12 - 1 + 1 = month := by omega
  rw [daysBeforeMonth, hcount, List.range_succ, List.foldr_append, foldr_daysInMonth, List.foldr_cons,
    List.foldr_nil, Nat.add_zero, hmonth, daysBeforeMonth]

theorem daysBeforeMonth_first (year : Int) : daysBeforeMonth 1 year = 0 := rfl

/-- A year is over when December is. -/
theorem daysBeforeMonth_last (year : Int) :
    daysBeforeMonth 12 year + daysInMonth 12 year = daysInYear year := by
  unfold daysInYear
  cases hleap : isLeapYear year <;>
    simp [daysBeforeMonth, List.range_succ, daysInMonth, hleap]

/-- A later month begins when an earlier one is over, or later. -/
theorem daysBeforeMonth_add_le {month month' : Nat} (hfirst : 1 ≤ month) (hlt : month < month')
    (hlast : month' ≤ 12) (year : Int) :
    daysBeforeMonth month year + daysInMonth month year ≤ daysBeforeMonth month' year := by
  induction hlt with
  | refl => exact Nat.le_of_eq (daysBeforeMonth_succ hfirst (by omega) year).symm
  | @step next hnext ih =>
    have hpassed : month + 1 ≤ next := hnext
    rw [daysBeforeMonth_succ (by omega) (by omega)]
    exact Nat.le_add_right_of_le (ih (by omega))

/-- Every month is over when its year is. -/
theorem daysBeforeMonth_le_daysInYear {month : Nat} (hfirst : 1 ≤ month) (hlast : month ≤ 12)
    (year : Int) : daysBeforeMonth month year + daysInMonth month year ≤ daysInYear year := by
  rw [← daysBeforeMonth_last]
  rcases Nat.lt_or_eq_of_le hlast with hlt | rfl
  · exact Nat.le_add_right_of_le (daysBeforeMonth_add_le hfirst hlt (Nat.le_refl 12) year)
  · exact Nat.le_refl _

/-! ## The loops -/

theorem passYears_of_lt {year : Int} {day : Nat} (h : day < daysInYear year) (years : Nat) :
    passYears years year day = (year, day) := by
  cases years with
  | zero => rfl
  | succ years => rw [passYears, if_pos h]

/-- Passing over years, and then over more. -/
theorem passYears_add (years more : Nat) (year : Int) (day : Nat) :
    passYears (years + more) year day
      = passYears more (passYears years year day).1 (passYears years year day).2 := by
  induction years generalizing year day with
  | zero => rw [Nat.zero_add, passYears]
  | succ years ih =>
    rw [Nat.succ_add, passYears, passYears]
    split
    · rename_i h
      exact (passYears_of_lt h more).symm
    · exact ih _ _

/-- What passing over years keeps is the day that it started from; and it comes
to the year in which that day falls, if as many years may be passed. -/
theorem passYears_reaches (years : Nat) (year : Int) (day : Nat)
    (h : firstDay year + day < firstDay (year + years + 1)) :
    (passYears years year day).2 < daysInYear (passYears years year day).1
      ∧ firstDay (passYears years year day).1 + (passYears years year day).2
          = firstDay year + day := by
  induction years generalizing year day with
  | zero =>
    have hnext : firstDay (year + (0 : Nat) + 1) = firstDay year + daysInYear year := by
      rw [Int.natCast_zero, Int.add_zero, firstDay_succ]
    have hlt : day < daysInYear year := by omega
    exact ⟨hlt, rfl⟩
  | succ years ih =>
    rw [passYears]
    split
    · rename_i hlt
      exact ⟨hlt, rfl⟩
    · rename_i hge
      have hyear : year + 1 + years + 1 = year + (years + 1 : Nat) + 1 := by omega
      have hkept : firstDay (year + 1) + (day - daysInYear year : Nat) = firstDay year + day := by
        rw [firstDay_succ]
        omega
      have hrest := ih (year + 1) (day - daysInYear year) (by rw [hkept, hyear]; exact h)
      exact ⟨hrest.1, hrest.2.trans hkept⟩

theorem passMonths_of_lt {year : Int} {month day : Nat} (h : day < daysInMonth month year)
    (months : Nat) : passMonths year months month day = (month, day) := by
  cases months with
  | zero => rfl
  | succ months => rw [passMonths, if_pos h]

/-- Passing over months, and then over more. -/
theorem passMonths_add (year : Int) (months more month day : Nat) :
    passMonths year (months + more) month day
      = passMonths year more (passMonths year months month day).1
          (passMonths year months month day).2 := by
  induction months generalizing month day with
  | zero => rw [Nat.zero_add, passMonths]
  | succ months ih =>
    rw [Nat.succ_add, passMonths, passMonths]
    split
    · rename_i h
      exact (passMonths_of_lt h more).symm
    · exact ih _ _

/-- Passing over months up to December keeps the day that it started from, and
comes to the month in which that day of the year falls. -/
theorem passMonths_reaches (year : Int) (months month day : Nat) (hfirst : 1 ≤ month)
    (hlast : month + months = 12) (h : daysBeforeMonth month year + day < daysInYear year) :
    (1 ≤ (passMonths year months month day).1 ∧ (passMonths year months month day).1 ≤ 12)
      ∧ (passMonths year months month day).2
          < daysInMonth (passMonths year months month day).1 year
      ∧ daysBeforeMonth (passMonths year months month day).1 year
          + (passMonths year months month day).2 = daysBeforeMonth month year + day := by
  induction months generalizing month day with
  | zero =>
    obtain rfl : month = 12 := hlast
    rw [← daysBeforeMonth_last] at h
    exact ⟨⟨hfirst, Nat.le_refl 12⟩, Nat.lt_of_add_lt_add_left h, rfl⟩
  | succ months ih =>
    rw [passMonths]
    split
    · rename_i hlt
      exact ⟨⟨hfirst, by omega⟩, hlt, rfl⟩
    · rename_i hge
      have hkept : daysBeforeMonth (month + 1) year + (day - daysInMonth month year)
          = daysBeforeMonth month year + day := by
        rw [daysBeforeMonth_succ hfirst (by omega)]
        omega
      have hrest := ih (month + 1) (day - daysInMonth month year) (by omega) (by omega)
        (by rw [hkept]; exact h)
      exact ⟨hrest.1, hrest.2.1, hrest.2.2.trans hkept⟩

/-! ## Dates -/

namespace CivilDate

/-- The dates that exist, in any year. -/
structure Exists (date : CivilDate) : Prop where
  month : 1 ≤ date.month ∧ date.month ≤ 12
  day : 1 ≤ date.day ∧ date.day ≤ daysInMonth date.month date.year

/-- The order of dates: by the year, then by the month, then by the day. -/
def Before (a b : CivilDate) : Prop :=
  a.year < b.year
    ∨ a.year = b.year ∧ (a.month < b.month ∨ a.month = b.month ∧ a.day < b.day)

/-- The day on which a date falls. -/
def toDay (date : CivilDate) : Int := dayCount date.year date.month date.day

variable {a b date : CivilDate}

/-- A date that is not before another nor after it is that date. -/
theorem before_trichotomy (a b : CivilDate) : a.Before b ∨ a = b ∨ b.Before a := by
  obtain ⟨year, month, day⟩ := a
  obtain ⟨year', month', day'⟩ := b
  simp only [Before, CivilDate.mk.injEq]
  omega

/-- A date falls into its year. -/
theorem Exists.toDay_bounds (h : date.Exists) :
    firstDay date.year ≤ date.toDay ∧ date.toDay < firstDay (date.year + 1) := by
  have hmonth := daysBeforeMonth_le_daysInYear h.month.1 h.month.2 date.year
  have hday := h.day
  rw [toDay, dayCount_eq, firstDay_succ]
  omega

/-- A date before another falls on an earlier day. -/
theorem toDay_lt_of_before (ha : a.Exists) (hb : b.Exists) (h : a.Before b) :
    a.toDay < b.toDay := by
  obtain ⟨year, month, day⟩ := a
  obtain ⟨year', month', day'⟩ := b
  rcases h with hyear | ⟨rfl, hmonth | ⟨rfl, hday⟩⟩
  · calc (CivilDate.mk year month day).toDay
        < firstDay (year + 1) := ha.toDay_bounds.2
      _ ≤ firstDay year' := firstDay_mono hyear
      _ ≤ (CivilDate.mk year' month' day').toDay := hb.toDay_bounds.1
  · have hover := daysBeforeMonth_add_le ha.month.1 hmonth hb.month.2 year
    have hday := ha.day.2
    have hday' := hb.day.1
    simp only [toDay, dayCount_eq] at hday hday' hover ⊢
    omega
  · simp only [toDay, dayCount_eq] at hday ⊢
    omega

/-- Days count as dates do. -/
theorem toDay_lt_iff (ha : a.Exists) (hb : b.Exists) : a.toDay < b.toDay ↔ a.Before b := by
  refine ⟨fun h => ?_, toDay_lt_of_before ha hb⟩
  rcases before_trichotomy a b with hbefore | rfl | hafter
  · exact hbefore
  · exact absurd h (Int.lt_irrefl _)
  · exact absurd h (Int.lt_asymm (toDay_lt_of_before hb ha hafter))

/-- No two dates fall on one day. -/
theorem eq_of_toDay (ha : a.Exists) (hb : b.Exists) (h : a.toDay = b.toDay) : a = b := by
  rcases before_trichotomy a b with hbefore | heq | hafter
  · exact absurd h (Int.ne_of_lt (toDay_lt_of_before ha hb hbefore))
  · exact heq
  · exact absurd h.symm (Int.ne_of_lt (toDay_lt_of_before hb ha hafter))

/-! ### The date of a day -/

/-- The loops that make the date of a day end by themselves: they end in the
year and in the month that the day falls in, and would also do so if they were
allowed more rounds. -/
structure Settled (day : Int) (date : CivilDate) (dayOfYear : Nat) : Prop where
  years : ∀ more, passYears (399 + more) (baseYear + 400 * (day / daysPerCycle))
    (day % daysPerCycle).toNat = (date.year, dayOfYear)
  inYear : dayOfYear < daysInYear date.year
  months : ∀ more, passMonths date.year (11 + more) 1 dayOfYear = (date.month, date.day - 1)
  inMonth : date.day - 1 < daysInMonth date.month date.year

theorem ofDay_settled (day : Int) :
    ∃ dayOfYear, Settled day (ofDay day) dayOfYear ∧ (ofDay day).Exists
      ∧ (ofDay day).toDay = day := by
  have hcycle : 0 ≤ day % daysPerCycle ∧ day % daysPerCycle < daysPerCycle :=
    ⟨Int.emod_nonneg _ (by decide), Int.emod_lt_of_pos _ (by decide)⟩
  have hstart : firstDay (baseYear + 400 * (day / daysPerCycle)) + (day % daysPerCycle).toNat
      = day := by
    rw [firstDay_cycle, firstDay_baseYear, Int.toNat_of_nonneg hcycle.1, Int.zero_add,
      Int.mul_ediv_add_emod]
  have hend : firstDay (baseYear + 400 * (day / daysPerCycle) + (399 : Nat) + 1)
      = firstDay (baseYear + 400 * (day / daysPerCycle)) + daysPerCycle := by
    have hlater : baseYear + 400 * (day / daysPerCycle) + (399 : Nat) + 1
        = baseYear + 400 * (day / daysPerCycle) + 400 * 1 := by omega
    rw [hlater, firstDay_cycle, Int.mul_one]
  obtain ⟨hyear, hyearDay⟩ := passYears_reaches 399 (baseYear + 400 * (day / daysPerCycle))
    (day % daysPerCycle).toNat (by omega)
  have hyears := fun more => passYears_add 399 more (baseYear + 400 * (day / daysPerCycle))
    (day % daysPerCycle).toNat
  unfold ofDay
  generalize passYears 399 (baseYear + 400 * (day / daysPerCycle)) (day % daysPerCycle).toNat
    = reached at *
  obtain ⟨year, dayOfYear⟩ := reached
  obtain ⟨hmonth, hday, hmonthDay⟩ := passMonths_reaches year 11 1 dayOfYear (Nat.le_refl 1) rfl
    (by rw [daysBeforeMonth_first, Nat.zero_add]; exact hyear)
  have hmonths := fun more => passMonths_add year 11 more 1 dayOfYear
  dsimp only
  generalize passMonths year 11 1 dayOfYear = reached' at *
  obtain ⟨month, dayOfMonth⟩ := reached'
  refine ⟨dayOfYear, ⟨fun more => ?_, hyear, fun more => ?_, hday⟩, ⟨hmonth, ?_⟩, ?_⟩
  · rw [hyears, passYears_of_lt hyear]
  · rw [hmonths, passMonths_of_lt hday]
    rfl
  · exact ⟨Nat.le_add_left 1 _, hday⟩
  · rw [daysBeforeMonth_first] at hmonthDay
    simp only [toDay, dayCount_eq] at hyearDay hmonthDay ⊢
    omega

theorem ofDay_exists (day : Int) : (ofDay day).Exists := by
  obtain ⟨_, -, hexists, -⟩ := ofDay_settled day
  exact hexists

/-- The date of a day falls on that day. -/
theorem toDay_ofDay (day : Int) : (ofDay day).toDay = day := by
  obtain ⟨_, -, -, hday⟩ := ofDay_settled day
  exact hday

/-- A date is the date of the day on which it falls. -/
theorem ofDay_toDay (h : date.Exists) : ofDay date.toDay = date :=
  eq_of_toDay (ofDay_exists _) h (toDay_ofDay _)

/-- The years of the days that have 32 bits have 32 bits. -/
theorem fits32_year_ofDay {day : Int} (h : fits32 day = true) :
    fits32 (ofDay day).year = true := by
  obtain ⟨hfrom, hto⟩ := (ofDay_exists day).toDay_bounds
  rw [toDay_ofDay] at hfrom hto
  rw [fits32_iff] at h ⊢
  simp only [firstDay, leapYearsBefore, baseYear] at hfrom hto
  omega

end CivilDate

/-- Every day has one date and every date one day, without end in both
directions.

The date of a day exists and falls on that day; its year has 32 bits if the
day has, and the loops that find it end by themselves. A date that exists is
the date of the day on which it falls. Of two days the earlier one has the
earlier date, and of two dates the earlier one falls on the earlier day. -/
theorem days_are_dates :
    (∀ day : Int,
        (CivilDate.ofDay day).Exists
          ∧ (fits32 day = true → fits32 (CivilDate.ofDay day).year = true)
          ∧ (∃ dayOfYear, CivilDate.Settled day (CivilDate.ofDay day) dayOfYear)
          ∧ dayCount (CivilDate.ofDay day).year (CivilDate.ofDay day).month
              (CivilDate.ofDay day).day = day)
      ∧ (∀ date : CivilDate, date.Exists →
          CivilDate.ofDay (dayCount date.year date.month date.day) = date)
      ∧ (∀ day day' : Int,
          day < day' ↔ (CivilDate.ofDay day).Before (CivilDate.ofDay day'))
      ∧ ∀ date date' : CivilDate, date.Exists → date'.Exists →
          (date.Before date' ↔
            dayCount date.year date.month date.day < dayCount date'.year date'.month date'.day) := by
  refine ⟨fun day => ?_, fun date h => CivilDate.ofDay_toDay h, fun day day' => ?_,
    fun date date' h h' => (CivilDate.toDay_lt_iff h h').symm⟩
  · obtain ⟨dayOfYear, hsettled, hexists, hday⟩ := CivilDate.ofDay_settled day
    exact ⟨hexists, CivilDate.fits32_year_ofDay, ⟨dayOfYear, hsettled⟩, hday⟩
  · rw [← CivilDate.toDay_lt_iff (CivilDate.ofDay_exists day) (CivilDate.ofDay_exists day'),
      CivilDate.toDay_ofDay, CivilDate.toDay_ofDay]

/-- The last day of 32 bits, and the days around the end of a February long
before day 0. -/
theorem dates_far_from_day_zero :
    fits32 0x7fffffff = true ∧ fits32 (CivilDate.ofDay 0x7fffffff).year = true
      ∧ CivilDate.ofDay 0x7fffffff = ⟨5881600, 7, 11⟩
      ∧ (CivilDate.mk 1600 2 29).Exists ∧ (CivilDate.mk 1600 3 1).Exists
      ∧ CivilDate.ofDay (dayCount 1600 2 29) = ⟨1600, 2, 29⟩
      ∧ dayCount 1600 2 29 < dayCount 1600 3 1 := by
  have hlast : fits32 0x7fffffff = true := by decide
  have hleap : (CivilDate.mk 1600 2 29).Exists := ⟨by decide, by decide⟩
  have hspring : (CivilDate.mk 1600 3 1).Exists := ⟨by decide, by decide⟩
  obtain ⟨hday, hdate, -, horder⟩ := days_are_dates
  refine ⟨hlast, (hday _).2.1 hlast, by decide +kernel, hleap, hspring, hdate _ hleap, ?_⟩
  exact (horder _ _ hleap hspring).1 (.inr ⟨rfl, .inl (by decide)⟩)

end ReminderExpr.Calendar
