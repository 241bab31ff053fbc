/-
ReminderExpr.Proofs.DatesOnWords — the calendar, computed with machine words.

Years and days are computed with integers of 64 bits, and division goes toward
zero except where it is floored on purpose; months and weekdays are looked up in
tables; the loops that pass over years and months are given a number of rounds,
and needing more of them is impossible. None of this makes a difference
for days of 32 bits:

* `civilOfDay_eq` — the date of a day;
* `dayOfCivil_eq` — the day of a date;
* `easter_eq`, `easterFrom_eq` — Easter; what is computed for years before 1990
  does not matter, as these have no dates that can be written.
-/
import Mathlib.Tactic.IntervalCases
import ReminderExpr.Calendar.Easter
import ReminderExpr.Proofs.DateGrammar
import ReminderExpr.Proofs.Words

namespace ReminderExpr.Words

open Calendar

/-! ## Years and months -/

def isLeapYear (year : Int) : Bool :=
  year.tmod 4 == 0 && !(year.tmod 100 == 0 && year.tmod 400 != 0)

def daysInYear (year : Int) : Int := if isLeapYear year then 366 else 365

/-- The lengths of the months of a common year. -/
def monthLengths : List Nat := [31, 28, 31, 30, 31, 30, 31, 31, 30, 31, 30, 31]

/-- The days before the months, of a common year and of a leap year. -/
def monthStarts : List (List Int) :=
  [[0, 31, 59, 90, 120, 151, 181, 212, 243, 273, 304, 334],
    [0, 31, 60, 91, 121, 152, 182, 213, 244, 274, 305, 335]]

def daysInMonth (month : Nat) (year : Int) : Checked Nat :=
  if month = 2 ∧ isLeapYear year = true then pure 29
  else if 1 ≤ month ∧ month ≤ 12 then do item monthLengths (← less month 1)
  else pure 0

theorem tmod_eq_zero_iff (n k : Int) : n.tmod k = 0 ↔ n % k = 0 := by
  rw [← Int.dvd_iff_tmod_eq_zero, Int.dvd_iff_emod_eq_zero]

theorem isLeapYear_eq (year : Int) : isLeapYear year = Calendar.isLeapYear year := by
  have hzero : ∀ k : Int, (year.tmod k == 0) = (year % k == 0) := fun k => by
    rw [Bool.eq_iff_iff, beq_iff_eq, beq_iff_eq, tmod_eq_zero_iff]
  rw [isLeapYear, Calendar.isLeapYear, bne, bne, hzero, hzero, hzero]

theorem daysInYear_eq (year : Int) : daysInYear year = Calendar.daysInYear year := by
  rw [daysInYear, Calendar.daysInYear, isLeapYear_eq]
  split <;> rfl

theorem daysInMonth_eq (month : Nat) (year : Int) :
    daysInMonth month year = pure (Calendar.daysInMonth month year) := by
  unfold daysInMonth
  rw [isLeapYear_eq]
  by_cases hmonth : 1 ≤ month ∧ month ≤ 12
  · obtain ⟨hfirst, hlast⟩ := hmonth
    cases hleap : Calendar.isLeapYear year <;> interval_cases month <;>
      simp [Calendar.daysInMonth, hleap, monthLengths, less]
  · rw [if_neg (by omega), if_neg hmonth, Calendar.daysInMonth.eq_def]
    split <;> first | rfl | omega

/-! ## The day of a date -/

/-- The days of a year before the first of a month. -/
def monthStart (month : Nat) (year : Int) : Checked Int := do
  let starts ← item monthStarts (if isLeapYear year then 1 else 0)
  item starts (← less (← clamp month 1 12) 1)

def dayCount (year : Int) (month day : Nat) : Checked Int := do
  let first ← sub baseYear 1
  let last ← sub year 1
  let fourths ← sub (last / 4) (first / 4)
  let hundredths ← sub (last / 100) (first / 100)
  let fourHundredths ← sub (last / 400) (first / 400)
  let monthStart ← monthStart month year
  let days ← mul 365 (← sub year baseYear)
  let days ← add days fourths
  let days ← sub days hundredths
  let days ← add days fourHundredths
  let days ← add days monthStart
  let days ← add days day
  sub days 1

/-- Whether a date can be written; the length of the month is asked for last. -/
def isDate (year : Int) (month day : Nat) : Checked Bool :=
  if baseYear ≤ year ∧ year ≤ lastYear ∧ 1 ≤ month ∧ month ≤ 12 ∧ 1 ≤ day then do
    pure (decide (day ≤ (← daysInMonth month year)))
  else pure false

def dayOfCivil (year : Int) (month day : Nat) : Checked Int := do
  if ← isDate year month day then
    let days ← dayCount year month day
    if fits32 days then pure days else throw .badDate
  else throw .badDate

theorem monthStart_eq {month : Nat} (h : 1 ≤ month ∧ month ≤ 12) (year : Int) :
    monthStart month year = pure (daysBeforeMonth month year : Int) := by
  obtain ⟨hfirst, hlast⟩ := h
  unfold monthStart
  rw [isLeapYear_eq]
  cases hleap : Calendar.isLeapYear year <;> interval_cases month <;>
    simp [monthStarts, less, clamp, daysBeforeMonth, List.range_succ, Calendar.daysInMonth, hleap]

theorem dayCount_eq {year : Int} {month day : Nat} (hyear : baseYear ≤ year ∧ year ≤ lastYear)
    (hmonth : 1 ≤ month ∧ month ≤ 12) (hday : day ≤ 31) :
    dayCount year month day = pure (Calendar.dayCount year month day) := by
  have hstart := daysBeforeMonth_le_daysInYear hmonth.1 hmonth.2 year
  have hlength : Calendar.daysInYear year ≤ 366 := by
    unfold Calendar.daysInYear
    split <;> omega
  unfold dayCount Calendar.dayCount leapYearsBefore
  rw [monthStart_eq hmonth]
  generalize daysBeforeMonth month year = before at hstart ⊢
  simp only [baseYear, lastYear] at hyear ⊢
  simp (disch := omega) only [sub_eq, mul_eq, add_eq, pure_bind]
  congr 1
  omega

/-- The dates that can be written are those that exist in some years. -/
theorem isDate_eq_true_iff {year : Int} {month day : Nat} :
    Calendar.isDate year month day = true ↔
      (baseYear ≤ year ∧ year ≤ lastYear) ∧ CivilDate.Exists ⟨year, month, day⟩ := by
  simp only [Calendar.isDate, Bool.and_eq_true, decide_eq_true_eq, and_assoc]
  constructor
  · rintro ⟨hfrom, hto, hfirst, hlast, hday, hend⟩
    exact ⟨hfrom, hto, ⟨hfirst, hlast⟩, hday, hend⟩
  · rintro ⟨hfrom, hto, ⟨hfirst, hlast⟩, hday, hend⟩
    exact ⟨hfrom, hto, hfirst, hlast, hday, hend⟩

theorem isDate_eq (year : Int) (month day : Nat) :
    isDate year month day = pure (Calendar.isDate year month day) := by
  unfold isDate
  rw [daysInMonth_eq]
  split
  · rename_i hparts
    obtain ⟨hfrom, hto, hfirst, hlast, hday⟩ := hparts
    simp [Calendar.isDate, hfrom, hto, hfirst, hlast, hday]
  · rename_i hparts
    have hno : Calendar.isDate year month day = false := by
      rw [Bool.eq_false_iff]
      intro hdate
      obtain ⟨⟨hfrom, hto⟩, hexists⟩ := isDate_eq_true_iff.1 hdate
      exact hparts ⟨hfrom, hto, hexists.month.1, hexists.month.2, hexists.day.1⟩
    rw [hno]

theorem fits32_dayCount {year : Int} {month day : Nat} (hyear : baseYear ≤ year ∧ year ≤ lastYear)
    (h : CivilDate.Exists ⟨year, month, day⟩) :
    fits32 (Calendar.dayCount year month day) = true := by
  obtain ⟨hfrom, hto⟩ := h.toDay_bounds
  simp only [CivilDate.toDay, firstDay, leapYearsBefore, baseYear, lastYear] at hyear hfrom hto
  rw [fits32_iff]
  omega

theorem dayOfCivil_eq (year : Int) (month day : Nat) :
    dayOfCivil year month day = ofResult (Calendar.dayOfCivil year month day) := by
  unfold dayOfCivil Calendar.dayOfCivil
  rw [isDate_eq, pure_bind]
  split
  · rename_i hdate
    obtain ⟨hyear, hexists⟩ := isDate_eq_true_iff.1 hdate
    have hday : day ≤ 31 := hexists.day.2.trans (daysInMonth_le month year)
    rw [dayCount_eq hyear hexists.month hday, pure_bind, if_pos (fits32_dayCount hyear hexists)]
    rfl
  · rfl

/-- The days of dates that can be written have 32 bits. -/
theorem fits32_of_dayOfCivil {year : Int} {month dayOfMonth : Nat} {day : Int}
    (h : Calendar.dayOfCivil year month dayOfMonth = .ok day) : fits32 day = true := by
  unfold Calendar.dayOfCivil at h
  split at h
  · rename_i hdate
    obtain ⟨hyear, hexists⟩ := isDate_eq_true_iff.1 hdate
    cases h
    exact fits32_dayCount hyear hexists
  · cases h

/-! ## The date of a day -/

/-- Years passed over in some rounds. -/
def passYears : (rounds : Nat) → (year days : Int) → Checked (Int × Int)
  | 0, _, _ => impossible
  | rounds + 1, year, days =>
      if days < daysInYear year then pure (year, days)
      else do
        let days ← sub days (daysInYear year)
        passYears rounds (← add year 1) days

/-- Months passed over in some rounds. -/
def passMonths (year : Int) : (rounds : Nat) → (month : Nat) → (days : Int) → Checked (Nat × Int)
  | 0, _, _ => impossible
  | rounds + 1, month, days => do
      let length ← daysInMonth month year
      if days < length then pure (month, days)
      else do
        let days ← sub days length
        passMonths year rounds (← unsigned32 (month + 1)) days

def civilOfDay (day : Int) : Checked CivilDate := do
  let cycles := day / daysPerCycle
  let days ← sub day (← mul cycles daysPerCycle)
  let year ← add baseYear (← mul cycles 400)
  let (year, days) ← passYears 400 year days
  let (month, days) ← passMonths year 12 1 days
  let year ← whole32 year
  let day ← unsigned32 (← add days 1)
  pure { year, month, day }

theorem passYears_eq {years : Nat} {year : Int} {day : Nat} (hyear : -10000000 ≤ year)
    (hlast : year + years ≤ 10000000) (hday : day ≤ 1000000)
    (hsettled : (Calendar.passYears years year day).2
      < Calendar.daysInYear (Calendar.passYears years year day).1) :
    passYears (years + 1) year day
      = pure ((Calendar.passYears years year day).1,
          ((Calendar.passYears years year day).2 : Int)) := by
  induction years generalizing year day with
  | zero =>
    rw [passYears, daysInYear_eq]
    exact if_pos (Int.ofNat_lt.2 hsettled)
  | succ years ih =>
    rw [passYears, daysInYear_eq, Calendar.passYears]
    rw [Calendar.passYears] at hsettled
    by_cases hlt : day < Calendar.daysInYear year
    · rw [if_pos hlt, if_pos (Int.ofNat_lt.2 hlt)]
    · rw [if_neg hlt] at hsettled ⊢
      have hrest : (day : Int) - Calendar.daysInYear year
          = (day - Calendar.daysInYear year : Nat) := by omega
      rw [if_neg (by omega), sub_eq (by omega), pure_bind, add_eq (by omega), pure_bind, hrest]
      exact ih (by omega) (by omega) (by omega) hsettled

theorem passMonths_eq {months month day : Nat} {year : Int} (hlast : month + months ≤ 12)
    (hday : day ≤ 1000000)
    (hsettled : (Calendar.passMonths year months month day).2
      < Calendar.daysInMonth (Calendar.passMonths year months month day).1 year) :
    passMonths year (months + 1) month day
      = pure ((Calendar.passMonths year months month day).1,
          ((Calendar.passMonths year months month day).2 : Int)) := by
  induction months generalizing month day with
  | zero =>
    rw [passMonths, daysInMonth_eq, pure_bind]
    exact if_pos (Int.ofNat_lt.2 hsettled)
  | succ months ih =>
    rw [passMonths, daysInMonth_eq, pure_bind, Calendar.passMonths]
    rw [Calendar.passMonths] at hsettled
    by_cases hlt : day < Calendar.daysInMonth month year
    · rw [if_pos hlt, if_pos (Int.ofNat_lt.2 hlt)]
    · rw [if_neg hlt] at hsettled ⊢
      have hlength := daysInMonth_le month year
      have hrest : (day : Int) - Calendar.daysInMonth month year
          = (day - Calendar.daysInMonth month year : Nat) := by omega
      have hnext : ((month : Int) + 1).toNat = month + 1 := rfl
      rw [if_neg (by omega), sub_eq (by omega), pure_bind, unsigned32_eq (by omega), pure_bind,
        hrest, hnext]
      exact ih (by omega) (by omega) hsettled

/-- The loops end in time, and year and day have as many bits as they may. -/
theorem civilOfDay_eq {day : Int} (h : fits32 day = true) :
    civilOfDay day = pure (CivilDate.ofDay day) := by
  obtain ⟨dayOfYear, hsettled, hexists, -⟩ := CivilDate.ofDay_settled day
  have hyear := fits32_iff.1 (CivilDate.fits32_year_ofDay h)
  have hcycle : 0 ≤ day % daysPerCycle ∧ day % daysPerCycle < daysPerCycle :=
    ⟨Int.emod_nonneg _ (by decide), Int.emod_lt_of_pos _ (by decide)⟩
  have hdivision := Int.mul_ediv_add_emod day daysPerCycle
  rw [fits32_iff] at h
  generalize CivilDate.ofDay day = date at hsettled hexists hyear ⊢
  obtain ⟨hyears, hinYear, hmonths, hinMonth⟩ := hsettled
  replace hyears := hyears 0
  replace hmonths := hmonths 0
  unfold civilOfDay
  generalize day / daysPerCycle = cycles at hdivision hyears ⊢
  generalize day % daysPerCycle = days at hcycle hdivision hyears
  simp only [daysPerCycle, baseYear] at hcycle hdivision hyears ⊢
  have hdays : day - cycles * 146097 = (days.toNat : Int) := by omega
  have hstart : 1990 + cycles * 400 = 1990 + 400 * cycles := by omega
  rw [mul_eq (by omega), pure_bind, sub_eq (by omega), pure_bind, mul_eq (by omega), pure_bind,
    add_eq (by omega), pure_bind, hdays, hstart,
    passYears_eq (by omega) (by omega) (by omega) (by rw [hyears]; exact hinYear), hyears,
    pure_bind]
  dsimp only
  have hlength : Calendar.daysInYear date.year ≤ 366 := by
    unfold Calendar.daysInYear
    split <;> omega
  have hpassed : passMonths date.year (11 + 1) (1 : Nat) dayOfYear
      = pure (date.month, ((date.day - 1 : Nat) : Int)) := by
    rw [passMonths_eq (by omega) (by omega) (by rw [hmonths]; exact hinMonth), hmonths]
  obtain ⟨hday, hdayEnd⟩ := hexists.day
  have hbound := daysInMonth_le date.month date.year
  have hrest : ((date.day - 1 : Nat) : Int) + 1 = date.day := by omega
  rw [hpassed, pure_bind]
  dsimp only
  rw [whole32_eq hyear, pure_bind, add_eq (by omega), pure_bind, hrest, unsigned32_eq (by omega)]
  rfl

/-! ## Days of the week -/

def weekdayFromMonday (day : Int) : Checked Nat := size (day % 7)

def weekdayFromSunday (day : Int) : Checked Int := do
  pure ((← add day 1) % 7)

theorem weekdayFromMonday_eq (day : Int) :
    weekdayFromMonday day = pure (Calendar.weekday day : Nat) :=
  size_eq (by omega)

theorem weekdayFromSunday_eq {day : Int} (h : fits32 day = true) :
    weekdayFromSunday day = pure (Calendar.weekdayFromSunday day) := by
  rw [fits32_iff] at h
  rw [weekdayFromSunday, add_eq (by omega), pure_bind, Calendar.weekdayFromSunday]

/-! ## Easter -/

/-- The age of the moon, by the golden number and the corrections. -/
def epact (golden moonCorrection droppedLeapYears : Int) : Checked Int := do
  let age ← sub (← add (← add (← mul 11 golden) 20) moonCorrection) droppedLeapYears
  let epact := age % 30
  if epact = 24 ∨ (epact = 25 ∧ golden > 11) then add epact 1 else pure epact

def fullMoon (epact : Int) : Checked Int := do
  let moon ← sub 44 epact
  if moon < 21 then add moon 30 else pure moon

/-- The Sunday after a full moon. -/
def sundayAfter (moon sunday : Int) : Checked Int := do
  sub (← add moon 7) ((← add sunday moon).tmod 7)

/-- Easter of a year as a day of March. -/
def marchDay (year : Int) : Checked Int := do
  let golden ← add (year.tmod 19) 1
  let century ← add (year.tdiv 100) 1
  let droppedLeapYears ← sub ((← mul 3 century).tdiv 4) 12
  let moonCorrection ← sub ((← add (← mul 8 century) 5).tdiv 25) 5
  let sunday ← sub (← sub ((← mul 5 year).tdiv 4) droppedLeapYears) 10
  sundayAfter (← fullMoon (← epact golden moonCorrection droppedLeapYears)) sunday

/-- Easter of a year, by month and day of the month. -/
def easter (year : Int) : Checked (Nat × Nat) := do
  let day ← marchDay year
  let (month, day) ← if day ≤ 31 then pure (3, day) else do pure (4, ← sub day 31)
  pure (month, ← unsigned32 day)

theorem epact_eq {golden moonCorrection droppedLeapYears : Int}
    (hgolden : -100 ≤ golden ∧ golden ≤ 100)
    (hmoon : -1000000000 ≤ moonCorrection ∧ moonCorrection ≤ 1000000000)
    (hdropped : -1000000000 ≤ droppedLeapYears ∧ droppedLeapYears ≤ 1000000000) :
    epact golden moonCorrection droppedLeapYears
      = pure (let raw := (11 * golden + 20 + moonCorrection - droppedLeapYears) % 30
        if raw = 24 ∨ (raw = 25 ∧ golden > 11) then raw + 1 else raw) := by
  unfold epact
  simp (disch := omega) only [mul_eq, add_eq, sub_eq, pure_bind]
  split <;> rfl

theorem fullMoon_eq {epact : Int} (h : 0 ≤ epact ∧ epact ≤ 30) :
    fullMoon epact = pure (if 44 - epact < 21 then 44 - epact + 30 else 44 - epact) := by
  unfold fullMoon
  rw [sub_eq (by omega), pure_bind, add_eq (by omega)]
  split <;> rfl

/-- Division toward zero leaves a remainder of either sign. -/
theorem tdiv_tmod_spec (n : Int) {k : Int} (hk : 0 < k) :
    k * n.tdiv k + n.tmod k = n ∧ -k < n.tmod k ∧ n.tmod k < k :=
  ⟨Int.mul_tdiv_add_tmod n k, Int.lt_tmod_of_pos n hk, Int.tmod_lt_of_pos n hk⟩

theorem sundayAfter_eq {moon sunday : Int} (hmoon : 14 ≤ moon ∧ moon ≤ 50)
    (hsunday : -1000000000 ≤ sunday ∧ sunday ≤ 1000000000) :
    sundayAfter moon sunday = pure (moon + 7 - (sunday + moon).tmod 7)
      ∧ 7 < moon + 7 - (sunday + moon).tmod 7 ∧ moon + 7 - (sunday + moon).tmod 7 < 64 := by
  obtain ⟨-, hlow, hhigh⟩ := tdiv_tmod_spec (sunday + moon) (show (0 : Int) < 7 by decide)
  unfold sundayAfter
  rw [add_eq (by omega), pure_bind, add_eq (by omega), pure_bind, sub_eq (by omega)]
  exact ⟨rfl, by omega, by omega⟩

theorem marchDay_eq {year : Int} (h : 1990 ≤ year ∧ year ≤ 10000000) :
    marchDay year = pure (Easter.marchDay year) := by
  unfold marchDay Easter.marchDay Easter.fullMoon Easter.epact
  simp (disch := omega) only [Int.tmod_eq_emod_of_nonneg, Int.tdiv_eq_ediv_of_nonneg, add_eq,
    sub_eq, mul_eq, pure_bind, epact_eq, fullMoon_eq]
  rw [(sundayAfter_eq (by omega) (by omega)).1, Int.tmod_eq_emod_of_nonneg (by omega)]

/-- For any year, even where the rule is wrong, a day can be computed. -/
theorem exists_marchDay {year : Int} (h : -10000000 ≤ year ∧ year ≤ 10000000) :
    ∃ day, marchDay year = pure day ∧ 7 < day ∧ day < 64 := by
  have hgolden := tdiv_tmod_spec year (show (0 : Int) < 19 by decide)
  have hcentury := tdiv_tmod_spec year (show (0 : Int) < 100 by decide)
  have hdropped := tdiv_tmod_spec (3 * (year.tdiv 100 + 1)) (show (0 : Int) < 4 by decide)
  have hmoon := tdiv_tmod_spec (8 * (year.tdiv 100 + 1) + 5) (show (0 : Int) < 25 by decide)
  have hsunday := tdiv_tmod_spec (5 * year) (show (0 : Int) < 4 by decide)
  unfold marchDay
  simp (disch := omega) only [add_eq, sub_eq, mul_eq, pure_bind, epact_eq, fullMoon_eq]
  exact ⟨_, sundayAfter_eq (by omega) (by omega)⟩

theorem easter_of_marchDay {year day : Int} (hday : marchDay year = pure day)
    (h : 7 < day ∧ day < 64) :
    easter year = pure (if day ≤ 31 then (3, day.toNat) else (4, (day - 31).toNat)) := by
  rw [easter, hday, pure_bind]
  split
  · rw [pure_bind]
    dsimp only
    rw [unsigned32_eq (by omega)]
    rfl
  · rw [sub_eq (by omega), pure_bind, pure_bind]
    dsimp only
    rw [unsigned32_eq (by omega)]
    rfl

def dayOfEaster (year : Int) : Checked Int := do
  let (month, day) ← easter year
  dayOfCivil year month day

/-- Only the years that can be written have dates that can. -/
theorem dayOfCivil_of_year {year : Int} (h : ¬ (1990 ≤ year ∧ year ≤ 2078)) (month day : Nat) :
    Calendar.dayOfCivil year month day = .error .badDate := by
  have hno : Calendar.isDate year month day = false := by
    rw [Bool.eq_false_iff]
    exact fun hdate => h (isDate_eq_true_iff.1 hdate).1
  rw [Calendar.dayOfCivil, hno]
  rfl

theorem ofYear_of_year {year : Int} (h : ¬ (1990 ≤ year ∧ year ≤ 2078)) :
    Easter.ofYear year = .error .badDate := by
  rw [Easter.ofYear]
  split <;> exact dayOfCivil_of_year h _ _

theorem dayOfEaster_eq {year : Int} (h : -10000000 ≤ year ∧ year ≤ 10000000) :
    dayOfEaster year = ofResult (Easter.ofYear year) := by
  obtain ⟨day, hday, hbounds⟩ := exists_marchDay h
  rw [dayOfEaster, easter_of_marchDay hday hbounds, pure_bind]
  dsimp only
  rw [dayOfCivil_eq]
  by_cases hyear : 1990 ≤ year ∧ year ≤ 2078
  · have hsame : Easter.marchDay year = day :=
      Except.ok.inj (Option.some.inj ((marchDay_eq (by omega)).symm.trans hday))
    rw [Easter.ofYear, hsame]
    split <;> rfl
  · rw [dayOfCivil_of_year hyear, ofYear_of_year hyear]

/-- The first Easter of some rounds of years that is not before a day. -/
def easterFrom (notBefore : Option Int) : (rounds : Nat) → (year : Int) → Checked Int
  | 0, _ => impossible
  | rounds + 1, year => do
      let found ← dayOfEaster year
      if notBefore.all (· ≤ found) then pure found
      else easterFrom notBefore rounds (← add year 1)

theorem easterFrom_none {rounds : Nat} {year : Int} (h : 1990 ≤ year ∧ year ≤ 2078) :
    easterFrom none (rounds + 1) year = ofResult (Easter.ofYear year) := by
  rw [easterFrom, dayOfEaster_eq (by omega)]
  cases Easter.ofYear year <;> rfl

/-- The years that cannot be written end the search. -/
theorem easterFrom_of_year {rounds : Nat} {year : Int} (h : -10000000 ≤ year ∧ year ≤ 10000000)
    (hyear : ¬ (1990 ≤ year ∧ year ≤ 2078)) (notBefore : Option Int) :
    easterFrom notBefore (rounds + 1) year = throw .badDate := by
  rw [easterFrom, dayOfEaster_eq h, ofYear_of_year hyear]
  rfl

theorem easterFrom_eq {years rounds : Nat} {year : Int} (hfirst : 1990 ≤ year)
    (hlast : year + years = 2079) (hrounds : years < rounds) (limit : Int) :
    easterFrom (some limit) rounds year
      = ofResult (Easter.searchFrom Easter.ofYear limit years year) := by
  induction years generalizing rounds year with
  | zero =>
    obtain ⟨rounds, rfl⟩ := Nat.exists_eq_succ_of_ne_zero (Nat.ne_of_gt hrounds)
    exact easterFrom_of_year (by omega) (by omega) _
  | succ years ih =>
    obtain ⟨rounds, rfl⟩ := Nat.exists_eq_succ_of_ne_zero (Nat.ne_of_gt (Nat.zero_lt_of_lt hrounds))
    rw [easterFrom, dayOfEaster_eq (by omega), Easter.searchFrom]
    cases Easter.ofYear year with
    | error e => rfl
    | ok found =>
      rw [ofResult_ok, pure_bind, add_eq (by omega), pure_bind,
        ih (by omega) (by omega) (Nat.lt_of_succ_lt_succ hrounds)]
      simp only [Option.all_some, decide_eq_true_eq]
      split <;> rfl

/-- From the year of a day, ninety years are enough. -/
theorem easterFrom_ofDay {day : Int} (h : fits32 day = true) :
    easterFrom (some day) 90 (CivilDate.ofDay day).year = ofResult (Easter.onOrAfter day) := by
  obtain ⟨hfrom, hto⟩ := (CivilDate.ofDay_exists day).toDay_bounds
  rw [CivilDate.toDay_ofDay] at hfrom hto
  rw [fits32_iff] at h
  rw [Easter.onOrAfter, lastYear]
  generalize (CivilDate.ofDay day).year = year at hfrom hto ⊢
  have hnear : -10000000 ≤ year ∧ year ≤ 10000000 := by
    simp only [firstDay, leapYearsBefore, baseYear] at hfrom hto
    omega
  by_cases hyear : 1990 ≤ year ∧ year ≤ 2078
  · exact easterFrom_eq hyear.1 (by omega) (by omega) day
  · rw [easterFrom_of_year hnear hyear]
    cases (2078 + 1 - year).toNat with
    | zero => rfl
    | succ years =>
      rw [Easter.searchFrom, ofYear_of_year hyear]
      rfl

end ReminderExpr.Words
