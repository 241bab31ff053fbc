/-
ReminderExpr.Proofs.EasterFeasts — the next Easter on or after a day.

`Easter.marchDay` goes by golden number, epact and a full moon that is moved for
two epacts, and then to the Sunday after it. The calculation of `Computus.easter`
shares none of these: it has no exceptions, takes the Sunday after the full moon
that is not moved, and goes back a week at the end, if need be. Both agree on all
years, the Sunday is one, and every year has its Easter, so that the Easter of
the year of a day or that of the year after it is the next one.

* `Computus.fullMoon_eq`, `Computus.marchDay_eq` — the two calculations;
* `Computus.toDay_easter`, `Computus.toDay_easter_emod` — Easter as a day, which
  is a Sunday;
* `easterFrom_of_le`, `easterFrom_of_lt` — one round of the search;
* `onOrAfter_spec` — the whole search, which takes two rounds at most;
* `Builtin.finds_next_easter` — what a script gets.
-/
import Mathlib.Order.Bounds.Basic
import ReminderExpr.Proofs.DateCallsOnWords

namespace ReminderExpr

namespace Calendar

/-! ## Easter without exceptions -/

namespace Computus

variable {year : Int}

/-- The days from 21 March to the full moon, by the place of the year among
nineteen years and the corrections for the centuries that have passed. -/
def daysToMoon (year : Int) : Int :=
  let century := year / 100
  let moonShift := (century - (century + 8) / 25 + 1) / 3
  (19 * (year % 19) + century - century / 4 - moonShift + 15) % 30

/-- The days from the day after that full moon to a Sunday. -/
def daysToSunday (year : Int) : Int :=
  (32 + 2 * (year / 100 % 4) + 2 * (year % 100 / 4) - daysToMoon year - year % 100 % 4) % 7

/-- The weeks by which this Sunday is too late. -/
def weeksBack (year : Int) : Int :=
  (year % 19 + 11 * daysToMoon year + 22 * daysToSunday year) / 451

/-- Easter of a year. -/
def easter (year : Int) : CivilDate :=
  let days := daysToMoon year + daysToSunday year - 7 * weeksBack year + 114
  { year, month := (days / 31).toNat, day := (days % 31 + 1).toNat }

/-- The years whose full moon counts as that of the day before. -/
def MoonEarly (year : Int) : Prop :=
  daysToMoon year = 29 ∨ daysToMoon year = 28 ∧ 10 < year % 19

theorem daysToMoon_bounds (year : Int) : 0 ≤ daysToMoon year ∧ daysToMoon year < 30 := by
  simp only [daysToMoon]
  omega

theorem daysToSunday_bounds (year : Int) : 0 ≤ daysToSunday year ∧ daysToSunday year < 7 := by
  unfold daysToSunday
  omega

/-- The Sunday is a week too late if the full moon is a Sunday and counts as the
Saturday before. -/
theorem weeksBack_eq (year : Int) :
    weeksBack year = 1 ∧ MoonEarly year ∧ daysToSunday year = 6
      ∨ weeksBack year = 0 ∧ ¬ (MoonEarly year ∧ daysToSunday year = 6) := by
  have hmoon := daysToMoon_bounds year
  have hsunday := daysToSunday_bounds year
  have hgolden : 0 ≤ year % 19 ∧ year % 19 < 19 := by omega
  unfold weeksBack MoonEarly
  omega

/-- Of four centuries three drop a leap year. -/
theorem droppedLeapYears_eq (year : Int) :
    3 * (year / 100 + 1) / 4 = year / 100 - year / 100 / 4 := by
  omega

/-- Of twenty-five centuries eight move the moon. -/
theorem moonCorrection_eq (year : Int) :
    (8 * (year / 100 + 1) + 5) / 25 = (year / 100 - (year / 100 + 8) / 25 + 1) / 3 := by
  omega

/-- The two epacts that are exceptions are those of the early moons. -/
theorem fullMoon_eq (year : Int) :
    Easter.fullMoon year = 20 + daysToMoon year ∧ MoonEarly year
      ∨ Easter.fullMoon year = 21 + daysToMoon year ∧ ¬ MoonEarly year := by
  have hepact : ((11 * (year % 19 + 1) + 20 + ((8 * (year / 100 + 1) + 5) / 25 - 5)
      - (3 * (year / 100 + 1) / 4 - 12)) % 30 + daysToMoon year) % 30 = 23 := by
    rw [droppedLeapYears_eq, moonCorrection_eq]
    simp only [daysToMoon]
    omega
  have hmoon := daysToMoon_bounds year
  unfold MoonEarly
  rw [Easter.fullMoon, Easter.epact]
  generalize (11 * (year % 19 + 1) + 20 + ((8 * (year / 100 + 1) + 5) / 25 - 5)
    - (3 * (year / 100 + 1) / 4 - 12)) = age at *
  split <;> omega

/-- Both calculations go to the same Sunday. -/
theorem marchDay_eq (year : Int) :
    Easter.marchDay year = 22 + daysToMoon year + daysToSunday year - 7 * weeksBack year := by
  have hsunday : (5 * year / 4 - (3 * (year / 100 + 1) / 4 - 12) - 10
      + (21 + daysToMoon year) + daysToSunday year) % 7 = 6 := by
    have hfourths : 5 * year / 4 = 125 * (year / 100) + 5 * (year % 100 / 4) + year % 100 % 4 := by
      omega
    have hcentury : year / 100 = 4 * (year / 100 / 4) + year / 100 % 4 := by omega
    rw [droppedLeapYears_eq, hfourths]
    unfold daysToSunday
    generalize year % 100 / 4 = leapYears at *
    generalize year % 100 % 4 = rest at *
    generalize year / 100 / 4 = cycles at *
    generalize year / 100 % 4 = centuries at *
    omega
  have hbounds := daysToSunday_bounds year
  have hweeks := weeksBack_eq year
  rw [Easter.marchDay]
  generalize 5 * year / 4 - (3 * (year / 100 + 1) / 4 - 12) - 10 = sunday at *
  rcases fullMoon_eq year with ⟨hmoon, hearly⟩ | ⟨hmoon, hearly⟩ <;>
    simp only [hearly, true_and, false_and, and_false, not_false_eq_true, and_true, false_or]
      at hweeks <;>
    rw [hmoon] <;> omega

/-- Easter is from 22 March to 25 April. -/
theorem marchDay_bounds (year : Int) :
    22 ≤ Easter.marchDay year ∧ Easter.marchDay year ≤ 56 := by
  have hmoon := daysToMoon_bounds year
  have hsunday := daysToSunday_bounds year
  have hweeks := weeksBack_eq year
  rw [MoonEarly] at hweeks
  rw [marchDay_eq]
  omega

theorem easter_eq (year : Int) :
    easter year = if Easter.marchDay year ≤ 31 then ⟨year, 3, (Easter.marchDay year).toNat⟩
      else ⟨year, 4, (Easter.marchDay year - 31).toNat⟩ := by
  have hbounds := marchDay_bounds year
  have hdays : daysToMoon year + daysToSunday year - 7 * weeksBack year + 114
      = Easter.marchDay year + 92 := by
    rw [marchDay_eq]
    omega
  rw [easter, hdays]
  split <;> simp only [CivilDate.mk.injEq, true_and] <;> omega

/-- The full moon of 18 April 2049 is a Sunday and counts as that of the day
before. -/
example : easter 2049 = ⟨2049, 4, 18⟩ := by decide +kernel

theorem easter_exists (year : Int) : (easter year).Exists := by
  have hbounds := marchDay_bounds year
  rw [easter_eq]
  split
  · exact ⟨by simp, by simp only [daysInMonth]; omega⟩
  · exact ⟨by simp, by simp only [daysInMonth]; omega⟩

theorem easter_bounds (year : Int) :
    firstDay year ≤ (easter year).toDay ∧ (easter year).toDay < firstDay (year + 1) :=
  (easter_exists year).toDay_bounds

theorem easter_mono {year year' : Int} (h : year ≤ year') :
    (easter year).toDay ≤ (easter year').toDay := by
  rcases Int.lt_or_eq_of_le h with hlt | rfl
  · apply Int.le_of_lt
    calc (easter year).toDay
        < firstDay (year + 1) := (easter_bounds year).2
      _ ≤ firstDay year' := firstDay_mono hlt
      _ ≤ (easter year').toDay := (easter_bounds year').1
  · exact Int.le_refl _

/-- From March on a year has the same days, leap year or not. -/
theorem firstDay_add_daysBeforeMarch (year : Int) :
    firstDay year + daysBeforeMonth 3 year + 306 = firstDay (year + 1) := by
  rw [firstDay_succ, daysInYear]
  cases hleap : isLeapYear year <;>
    simp [daysBeforeMonth, List.range_succ, daysInMonth, hleap] <;> omega

theorem toDay_easter (year : Int) :
    (easter year).toDay = firstDay (year + 1) - 307 + Easter.marchDay year := by
  have hbounds := marchDay_bounds year
  have hmarch := firstDay_add_daysBeforeMarch year
  have hapril : daysBeforeMonth 4 year = daysBeforeMonth 3 year + 31 :=
    daysBeforeMonth_succ (by decide) (by decide) year
  rw [easter_eq]
  split <;> rw [CivilDate.toDay, dayCount_eq] <;> dsimp only <;> omega

/-- Easter is a Sunday: day 0 is a Monday. -/
theorem toDay_easter_emod (year : Int) : (easter year).toDay % 7 = 6 := by
  have hmarch : (firstDay (year + 1) - 307 + 7
      - (5 * year / 4 - (3 * (year / 100 + 1) / 4 - 12) - 10)) % 7 = 6 := by
    have hfourths : 5 * year / 4 = year + year / 4 := by omega
    have hcycles : year / 400 = year / 100 / 4 := by omega
    rw [droppedLeapYears_eq, hfourths, firstDay, leapYearsBefore, leapYearsBefore, baseYear,
      Int.add_sub_cancel, hcycles]
    generalize year / 4 = fourths
    generalize year / 100 / 4 = cycles
    generalize year / 100 = centuries
    omega
  rw [toDay_easter, Easter.marchDay]
  generalize 5 * year / 4 - (3 * (year / 100 + 1) / 4 - 12) - 10 = sunday at *
  generalize firstDay (year + 1) - 307 = march at *
  omega

/-- In the years whose dates can be written, the day of Easter is what is
computed. -/
theorem ofYear_eq (h : 1990 ≤ year ∧ year ≤ 2078) :
    Easter.ofYear year = .ok (easter year).toDay := by
  have hdate : isDate (easter year).year (easter year).month (easter year).day = true :=
    Words.isDate_eq_true_iff.2 ⟨h, easter_exists year⟩
  have hday : Easter.ofYear year
      = dayOfCivil (easter year).year (easter year).month (easter year).day := by
    rw [easter_eq, Easter.ofYear]
    split <;> rfl
  rw [hday, dayOfCivil, if_pos hdate, CivilDate.toDay]

end Computus

/-! ## The search -/

open Computus

/-- The days of Easter in the years whose dates can be written. -/
def IsFeast (feast : Int) : Prop :=
  ∃ year, 1990 ≤ year ∧ year ≤ 2078 ∧ feast = (easter year).toDay

variable {day year : Int}

theorem IsFeast.fits32 {feast : Int} (h : IsFeast feast) : fits32 feast = true := by
  obtain ⟨year, hfirst, hlast, rfl⟩ := h
  exact Words.fits32_dayCount ⟨hfirst, hlast⟩ (easter_exists year)

/-- A day from day 0 on lies in its year, which is one from 1990 on. -/
theorem year_ofDay (h : 0 ≤ day) :
    1990 ≤ (CivilDate.ofDay day).year ∧ firstDay (CivilDate.ofDay day).year ≤ day
      ∧ day < firstDay ((CivilDate.ofDay day).year + 1) := by
  have hbounds := (CivilDate.ofDay_exists day).toDay_bounds
  rw [CivilDate.toDay_ofDay] at hbounds
  refine ⟨?_, hbounds⟩
  by_contra hyear
  have hnext : firstDay ((CivilDate.ofDay day).year + 1) ≤ firstDay baseYear :=
    firstDay_mono (by rw [baseYear]; omega)
  rw [firstDay_baseYear] at hnext
  omega

/-- A round that finds an Easter that is not before the limit. -/
theorem easterFrom_of_le (h : 1990 ≤ year ∧ year ≤ 2078) (hle : day ≤ (easter year).toDay)
    (rounds : Nat) :
    Words.easterFrom (some day) (rounds + 1) year = pure (easter year).toDay := by
  rw [Words.easterFrom, Words.dayOfEaster_eq (by omega), ofYear_eq h, Words.ofResult_ok, pure_bind]
  exact if_pos (decide_eq_true hle)

/-- A round that finds an Easter before the limit goes on with the next year. -/
theorem easterFrom_of_lt (h : 1990 ≤ year ∧ year ≤ 2078) (hlt : (easter year).toDay < day)
    (rounds : Nat) :
    Words.easterFrom (some day) (rounds + 1) year
      = Words.easterFrom (some day) rounds (year + 1) := by
  rw [Words.easterFrom, Words.dayOfEaster_eq (by omega), ofYear_eq h, Words.ofResult_ok, pure_bind,
    Words.add_eq (by omega), pure_bind]
  exact if_neg (by simpa using hlt)

/-- An Easter is the next one if those of earlier years are over. -/
theorem isLeast_easter (h : 1990 ≤ year ∧ year ≤ 2078) (hle : day ≤ (easter year).toDay)
    (hover : ∀ earlier < year, (easter earlier).toDay < day) :
    IsLeast {feast | IsFeast feast ∧ day ≤ feast} (easter year).toDay := by
  refine ⟨⟨⟨year, h.1, h.2, rfl⟩, hle⟩, ?_⟩
  rintro _ ⟨⟨other, -, -, rfl⟩, hother⟩
  refine easter_mono (Int.not_lt.1 fun hearlier => ?_)
  exact absurd (hover other hearlier) (Int.not_lt.2 hother)

/-- The Easters of the years before that of a day are over. -/
theorem easter_lt_of_year (h : 0 ≤ day) (hyear : year < (CivilDate.ofDay day).year) :
    (easter year).toDay < day :=
  calc (easter year).toDay
      < firstDay (year + 1) := (easter_bounds year).2
    _ ≤ firstDay (CivilDate.ofDay day).year := firstDay_mono hyear
    _ ≤ day := (year_ofDay h).2.1

/-- Two rounds find the next Easter, or that there is none: the first one is for
the year of the day, the second one for the year after it. -/
theorem easterFrom_year (hday : 0 ≤ day) (hfits : fits32 day = true) :
    (∃ feast, IsLeast {feast | IsFeast feast ∧ day ≤ feast} feast
        ∧ ∀ rounds, Words.easterFrom (some day) (rounds + 2) (CivilDate.ofDay day).year
            = pure feast)
      ∨ (∀ feast, IsFeast feast → feast < day)
        ∧ ∀ rounds, Words.easterFrom (some day) (rounds + 2) (CivilDate.ofDay day).year
            = throw .badDate := by
  obtain ⟨hfrom, hfirst, hnext⟩ := year_ofDay hday
  have hover : ∀ earlier < (CivilDate.ofDay day).year, (easter earlier).toDay < day :=
    fun _ h => easter_lt_of_year hday h
  have hnear : (CivilDate.ofDay day).year ≤ 10000000 := by
    rw [fits32_iff] at hfits
    simp only [firstDay, leapYearsBefore, baseYear] at hfirst
    omega
  generalize (CivilDate.ofDay day).year = year at *
  by_cases hlast : year ≤ 2078
  · by_cases hle : day ≤ (easter year).toDay
    · exact .inl ⟨_, isLeast_easter ⟨hfrom, hlast⟩ hle hover,
        fun rounds => easterFrom_of_le ⟨hfrom, hlast⟩ hle _⟩
    · have hround := easterFrom_of_lt ⟨hfrom, hlast⟩ (Int.not_le.1 hle)
      have hpast : ∀ other ≤ year, (easter other).toDay < day := fun other h =>
        Int.lt_of_le_of_lt (easter_mono h) (Int.not_le.1 hle)
      by_cases hlast' : year + 1 ≤ 2078
      · have hle' : day ≤ (easter (year + 1)).toDay :=
          Int.le_trans (Int.le_of_lt hnext) (easter_bounds (year + 1)).1
        refine .inl ⟨_, isLeast_easter ⟨by omega, hlast'⟩ hle'
          fun earlier h => hpast earlier (Int.lt_add_one_iff.1 h), fun rounds => ?_⟩
        rw [hround, easterFrom_of_le ⟨by omega, hlast'⟩ hle']
      · refine .inr ⟨?_, fun rounds => ?_⟩
        · rintro _ ⟨other, -, hother, rfl⟩
          exact hpast other (by omega)
        · rw [hround, Words.easterFrom_of_year (by omega) (by omega)]
  · refine .inr ⟨?_, fun rounds => Words.easterFrom_of_year (by omega) (by omega) _⟩
    rintro _ ⟨other, -, hother, rfl⟩
    exact hover other (by omega)

/-- The search finds the next Easter if there is one, and it takes two rounds at
most. -/
theorem onOrAfter_spec (hday : 0 ≤ day) (hfits : fits32 day = true) :
    (∀ rounds, Words.easterFrom (some day) (rounds + 2) (CivilDate.ofDay day).year
        = Words.ofResult (Easter.onOrAfter day))
      ∧ ((∃ feast, IsLeast {feast | IsFeast feast ∧ day ≤ feast} feast
            ∧ Easter.onOrAfter day = .ok feast)
        ∨ (∀ feast, IsFeast feast → feast < day) ∧ Easter.onOrAfter day = .error .badDate) := by
  have hsearch := Words.easterFrom_ofDay hfits
  rcases easterFrom_year hday hfits with ⟨feast, hleast, hfound⟩ | ⟨hover, hfound⟩
  · have hsame : Easter.onOrAfter day = .ok feast :=
      Option.some.inj (hsearch.symm.trans (hfound 88))
    exact ⟨fun rounds => by rw [hfound, hsame]; rfl, .inl ⟨feast, hleast, hsame⟩⟩
  · have hsame : Easter.onOrAfter day = .error .badDate :=
      Option.some.inj (hsearch.symm.trans (hfound 88))
    exact ⟨fun rounds => by rw [hfound, hsame]; rfl, .inr ⟨hover, hsame⟩⟩

/-- From an Easter on, the next one is itself. -/
theorem onOrAfter_feast (h : IsFeast day) (hday : 0 ≤ day) : Easter.onOrAfter day = .ok day := by
  have hself : IsLeast {feast | IsFeast feast ∧ day ≤ feast} day :=
    ⟨⟨h, Int.le_refl _⟩, fun _ hother => hother.2⟩
  rcases (onOrAfter_spec hday h.fits32).2 with ⟨found, hleast, hfound⟩ | ⟨hover, -⟩
  · rw [hfound, hleast.unique hself]
  · exact absurd (hover day h) (Int.lt_irrefl _)

end Calendar

/-! ## What a script gets -/

open Calendar Dates

variable {v : Value} {day : Int}

/-- The date of a day, and the moments whose date it is. -/
def Value.Dated (v : Value) (day : Int) : Prop :=
  v = .date day ∨ ∃ moment, v = .dateTime moment ∧ moment / 1440 = day

/-- Both ask for the next Easter from the day on. -/
theorem Value.Dated.easter_eq (h : v.Dated day) (hfits : fits32 day = true) :
    Dates.easter v = Easter.onOrAfter day := by
  obtain rfl | ⟨moment, rfl, rfl⟩ := h
  · rfl
  · have hmoment : dayOf (.dateTime moment) = .ok (moment / 1440) := if_pos hfits
    show (dayOf (.dateTime moment) >>= Easter.onOrAfter) = _
    rw [hmoment]
    rfl

namespace Builtin

theorem apply_wkday_feast (environment : Environment) (functions : UserFunctions)
    (h : IsFeast day) : wkday.apply environment functions [.date day] = .ok (.str "Sunday") := by
  obtain ⟨year, -, -, rfl⟩ := h
  have hweekday : weekday (Computus.easter year).toDay = 6 := by
    apply Fin.ext
    show ((Computus.easter year).toDay % 7).toNat = 6
    rw [Computus.toDay_easter_emod]
    rfl
  show (.ok (.str (weekdayName (weekday (Computus.easter year).toDay))) : Result Value) = _
  rw [hweekday]
  rfl

/-- The next Easter is found.

For any day from 1990 on that has 32 bits, given by its date or by a moment of
it, the search ends after two rounds at most. If there is an Easter from that day
on in the years whose dates can be written, the first one is the result; if there
is none, the date is a bad one. The result is a Sunday that is not before the
day, and from it on the next Easter is itself. -/
theorem finds_next_easter (environment : Environment) (functions : UserFunctions)
    (hday : 0 ≤ day) (hfits : fits32 day = true) (hv : v.Dated day) :
    let call := easterdate.apply environment functions
    (∀ rounds, Words.easterFrom (some day) (rounds + 2) (CivilDate.ofDay day).year
        = Words.ofResult (Dates.easter v))
      ∧ ((∃ feast, IsFeast feast ∧ day ≤ feast) →
          ∃ feast, IsLeast {feast | IsFeast feast ∧ day ≤ feast} feast
            ∧ call [v] = .ok (.date feast))
      ∧ ((¬ ∃ feast, IsFeast feast ∧ day ≤ feast) → call [v] = .error .badDate)
      ∧ ∀ result, call [v] = .ok result →
          ∃ feast, result = .date feast ∧ day ≤ feast
            ∧ wkday.apply environment functions [.date feast] = .ok (.str "Sunday")
            ∧ call [.date feast] = .ok (.date feast) := by
  intro call
  have hcall : ∀ v day, v.Dated day → fits32 day = true →
      call [v] = (do .ok (.date (← Easter.onOrAfter day))) := fun v day hv hfits => by
    rw [← hv.easter_eq hfits]
    rfl
  obtain ⟨hrounds, houtcome⟩ := onOrAfter_spec hday hfits
  refine ⟨fun rounds => by rw [hv.easter_eq hfits, hrounds], ?_⟩
  obtain ⟨feast, hleast, hfound⟩ | ⟨hover, hfound⟩ := houtcome
  · have hfeast : call [v] = .ok (.date feast) := by
      rw [hcall v day hv hfits, hfound]
      rfl
    obtain ⟨hisFeast, hle⟩ := hleast.1
    refine ⟨fun _ => ⟨feast, hleast, hfeast⟩, fun hnone => absurd ⟨feast, hisFeast, hle⟩ hnone,
      fun result hresult => ?_⟩
    obtain rfl := Except.ok.inj (hfeast.symm.trans hresult)
    refine ⟨feast, rfl, hle, apply_wkday_feast environment functions hisFeast, ?_⟩
    rw [hcall (.date feast) feast (.inl rfl) hisFeast.fits32,
      onOrAfter_feast hisFeast (Int.le_trans hday hle)]
    rfl
  · have hfails : call [v] = .error .badDate := by
      rw [hcall v day hv hfits, hfound]
      rfl
    refine ⟨fun hsome => ?_, fun _ => hfails, fun result hresult => ?_⟩
    · obtain ⟨feast, hisFeast, hle⟩ := hsome
      exact absurd (hover feast hisFeast) (Int.not_lt.2 hle)
    · rw [hfails] at hresult
      cases hresult

/-- A minute into 1 April 2024 the Easter of that year is over by a day; after
that of 2078 there is none. -/
theorem easter_of_next_year :
    easterdate.apply {} {} [.dateTime 18012961] = .ok (.date 12893)
      ∧ Words.easterFrom (some 12509) 2 2024 = Words.ofResult (.ok 12893)
      ∧ wkday.apply {} {} [.date 12893] = .ok (.str "Sunday")
      ∧ easterdate.apply {} {} [.date 32235] = .error .badDate := by
  have hspring : easterdate.apply {} {} [.dateTime 18012961] = .ok (.date 12893) := by
    decide +kernel
  have hdated : (Value.dateTime 18012961).Dated 12509 := .inr ⟨_, rfl, by decide⟩
  obtain ⟨hrounds, -, -, hresult⟩ := finds_next_easter {} {} (by decide) (by decide) hdated
  obtain ⟨feast, hfeast, -, hsunday, -⟩ := hresult _ hspring
  obtain rfl := Value.date.inj hfeast
  have hover : ¬ ∃ feast, IsFeast feast ∧ 32235 ≤ feast := by
    rintro ⟨_, ⟨year, -, hyear, rfl⟩, hle⟩
    have hlast := Computus.easter_mono hyear
    have hday : (Computus.easter 2078).toDay = 32234 := by decide +kernel
    omega
  have hnone := (finds_next_easter {} {} (by decide) (by decide) (.inl rfl)).2.2.1 hover
  have hyear : (CivilDate.ofDay 12509).year = 2024 := by decide +kernel
  have heaster : Dates.easter (.dateTime 18012961) = .ok 12893 := by decide +kernel
  exact ⟨hspring, by rw [← hyear, ← heaster]; exact hrounds 0, hsunday, hnone⟩

end Builtin

end ReminderExpr
