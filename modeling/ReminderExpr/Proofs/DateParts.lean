/-
ReminderExpr.Proofs.DateParts — what the functions take from dates, moments and
times of the day makes these again.

All of them go by the day and the minute of a value (`dayOf`, `minuteOf`): a
moment made of a day and a minute has both. So the parts of a moment are those
of its date and of its time, and the ways to make it are one. The parts of a day
whose year can be written name it again, since they are its date. The names of
months and of weekdays, and the leap years, go by the parts for every day; of
the weekdays, whose numbers count from Sunday and whose names from Monday, this
takes that both are a week apart.

* `parts_of_dayOf`, `parts_of_minuteOf` — the parts of a value, by its day and
  its minute;
* `dayOfParts_ofDay`, `minutesOfParts_parts` — the parts make the day and the
  minute;
* `dayOf_momentOf`, `minuteOf_momentOf` — the day and the minute of a moment;
* `weekdayName_eq`, `weekdayFromSunday_succ` — the days of the week;
* `date_parts_recompose` — all of this together.
-/
import ReminderExpr.Proofs.BuiltinCalls
import ReminderExpr.Proofs.RoundTrips

namespace ReminderExpr

open Calendar Dates

variable {environment : Environment} {functions : UserFunctions} {v : Value} {day minute : Int}
  {month : Nat}

/-! ## Days and minutes of values -/

namespace Dates

/-- A moment of a day of 32 bits has this day. -/
theorem dayOf_momentOf (hday : fits32 day = true) (hminute : 0 ≤ minute ∧ minute < minutesPerDay) :
    dayOf (.momentOf day minute) = .ok day := by
  show dayOfMoment (day * minutesPerDay + minute) = .ok day
  unfold dayOfMoment
  rw [ediv_minutesPerDay hminute]
  exact if_pos hday

/-- A moment has its minute of the day. -/
theorem minuteOf_momentOf (hminute : 0 ≤ minute ∧ minute < minutesPerDay) :
    minuteOf (.momentOf day minute) = .ok minute :=
  congrArg Except.ok (emod_minutesPerDay hminute)

theorem monthOrDay_int (n : Int) : monthOrDay (.int n)
    = if 0 ≤ n ∧ n < 0x100000000 then .ok n.toNat else .error .badDate := rfl

theorem monthOrDay_natCast {n : Nat} (h : n ≤ 31) : monthOrDay (.int n) = .ok n := by
  rw [monthOrDay_int, if_pos (by omega), Int.toNat_natCast]

/-- The parts of a day make this day, if its year can be written. -/
theorem dayOfParts_ofDay (h : Writable day) :
    dayOfParts (.int (CivilDate.ofDay day).year) (.int (CivilDate.ofDay day).month)
      (.int (CivilDate.ofDay day).day) = .ok day := by
  obtain ⟨hfrom, hto⟩ := writable_iff_year.1 h
  obtain ⟨hmonth, hdayOfMonth⟩ := CivilDate.ofDay_exists day
  have hcount : dayCount (CivilDate.ofDay day).year (CivilDate.ofDay day).month
      (CivilDate.ofDay day).day = day := CivilDate.toDay_ofDay day
  generalize CivilDate.ofDay day = date at *
  have hlength := daysInMonth_le date.month date.year
  have hdate : isDate date.year date.month date.day = true := by
    simp [isDate, baseYear, lastYear, hfrom, hto, hmonth, hdayOfMonth]
  have hparts : dayOfParts (.int date.year) (.int date.month) (.int date.day)
      = dayOfCivil date.year date.month date.day := by
    unfold dayOfParts
    rw [monthOrDay_natCast (by omega), monthOrDay_natCast (by omega)]
    rfl
  rw [hparts, dayOfCivil, if_pos hdate, hcount]

theorem monthLength_ofDay (h : Writable day) :
    monthLength (CivilDate.ofDay day).month (CivilDate.ofDay day).year
      = .ok (daysInMonth (CivilDate.ofDay day).month (CivilDate.ofDay day).year) := by
  obtain ⟨hfrom, hto⟩ := writable_iff_year.1 h
  obtain ⟨hfirst, hlast⟩ := month_ofDay day
  have hknown : (1 : Int) ≤ (CivilDate.ofDay day).month
      ∧ ((CivilDate.ofDay day).month : Int) ≤ 12 ∧ baseYear ≤ (CivilDate.ofDay day).year
      ∧ (CivilDate.ofDay day).year ≤ lastYear :=
    ⟨Int.ofNat_le.2 hfirst, Int.ofNat_le.2 hlast, hfrom, hto⟩
  rw [monthLength, if_pos hknown, Int.toNat_natCast]

/-- The hour and the minute of a time of the day make this time. -/
theorem minutesOfParts_parts (hminute : 0 ≤ minute ∧ minute < minutesPerDay) :
    minutesOfParts (minute.tdiv 60) (minute.tmod 60) = .ok minute := by
  obtain ⟨m, rfl⟩ := Int.eq_ofNat_of_zero_le hminute.1
  have hbound : m < 1440 := Int.ofNat_lt.1 hminute.2
  have hhour : (m : Int).tdiv 60 = (m / 60 : Nat) := rfl
  have hrest : (m : Int).tmod 60 = (m % 60 : Nat) := rfl
  rw [hhour, hrest, minutesOfParts, if_neg (by omega), if_neg (by omega)]
  congr 1
  omega

end Dates

/-! ## Days of the week -/

namespace Calendar

/-- The name of a day of the week is that of its number from Sunday. -/
theorem weekday_weekdayFromSunday (day : Int) : weekday (weekdayFromSunday day + 6) = weekday day := by
  have hweek : ((day + 1) % 7 + 6) % 7 = day % 7 := by omega
  exact Fin.ext (congrArg Int.toNat hweek)

theorem weekdayFromSunday_bounds (day : Int) :
    0 ≤ weekdayFromSunday day ∧ weekdayFromSunday day ≤ 6 := by
  unfold weekdayFromSunday
  omega

/-- The days of the week follow one another, and Saturday is followed by Sunday. -/
theorem weekdayFromSunday_succ (day : Int) :
    weekdayFromSunday (day + 1)
      = if weekdayFromSunday day = 6 then 0 else weekdayFromSunday day + 1 := by
  unfold weekdayFromSunday
  split <;> omega

end Calendar

/-! ## Calls -/

namespace Builtin

/-- A call whose arguments are calls themselves; the first of them that fails
is its failure. -/
def callOn (environment : Environment) (functions : UserFunctions) (b : Builtin)
    (args : List (Result Value)) : Result Value := do
  b.apply environment functions (← args.mapM id)

theorem callOn_ok (environment : Environment) (functions : UserFunctions) (b : Builtin)
    (vs : List Value) :
    b.callOn environment functions (vs.map Except.ok) = b.apply environment functions vs := by
  have hvalues : (vs.map Except.ok).mapM id = (.ok vs : Result (List Value)) := by
    induction vs with
    | nil => rfl
    | cons v vs ih =>
      rw [List.map_cons, List.mapM_cons, ih]
      rfl
  rw [callOn, hvalues]
  rfl

/-- The parts of a value that has a day. -/
theorem parts_of_dayOf (environment : Environment) (functions : UserFunctions) (h : dayOf v = .ok day) :
    year.callOn environment functions [.ok v] = .ok (.int (CivilDate.ofDay day).year)
      ∧ monnum.callOn environment functions [.ok v] = .ok (.int (CivilDate.ofDay day).month)
      ∧ Builtin.day.callOn environment functions [.ok v] = .ok (.int (CivilDate.ofDay day).day)
      ∧ wkdaynum.callOn environment functions [.ok v] = .ok (.int (weekdayFromSunday day)) := by
  have hcivil : civilOf v = .ok (CivilDate.ofDay day) := by
    rw [civilOf, h]
    rfl
  refine ⟨?_, ?_, ?_, ?_⟩
  · show (do .ok (Value.int (← civilOf v).year)) = _
    rw [hcivil]
    rfl
  · show (do .ok (Value.int (← civilOf v).month)) = _
    rw [hcivil]
    rfl
  · show (do .ok (Value.int (← civilOf v).day)) = _
    rw [hcivil]
    rfl
  · show (do .ok (Value.int (weekdayFromSunday (← dayOf v)))) = _
    rw [h]
    rfl

theorem parts_of_date (environment : Environment) (functions : UserFunctions) (day : Int) :
    year.callOn environment functions [.ok (.date day)] = .ok (.int (CivilDate.ofDay day).year)
      ∧ monnum.callOn environment functions [.ok (.date day)]
          = .ok (.int (CivilDate.ofDay day).month)
      ∧ Builtin.day.callOn environment functions [.ok (.date day)]
          = .ok (.int (CivilDate.ofDay day).day)
      ∧ wkdaynum.callOn environment functions [.ok (.date day)]
          = .ok (.int (weekdayFromSunday day)) :=
  parts_of_dayOf environment functions rfl

/-- The parts of a value that has a minute of the day. -/
theorem parts_of_minuteOf (environment : Environment) (functions : UserFunctions) (h : minuteOf v = .ok minute) :
    hour.callOn environment functions [.ok v] = .ok (.int (minute.tdiv 60))
      ∧ Builtin.minute.callOn environment functions [.ok v] = .ok (.int (minute.tmod 60)) := by
  constructor
  · show (do .ok (Value.int ((← minuteOf v).tdiv 60))) = _
    rw [h]
    rfl
  · show (do .ok (Value.int ((← minuteOf v).tmod 60))) = _
    rw [h]
    rfl

theorem apply_date (y m d : Value) : date.apply environment functions [y, m, d]
    = (do .ok (.date (← dayOfParts y m d))) := rfl

theorem apply_daysinmon (m y : Int) : daysinmon.apply environment functions [.int m, .int y]
    = (do .ok (.int (← monthLength m y))) := rfl

theorem apply_datetime (vs : List Value) : datetime.apply environment functions vs = moment vs :=
  rfl

theorem apply_wkday (v : Value) : wkday.apply environment functions [v]
    = (do .ok (.str (← weekdayNameOf v))) := rfl

theorem apply_mon (h : monthOf v = .ok month) {name : String} (hname : monthName month = some name) :
    mon.apply environment functions [v] = .ok (.str name) := by
  unfold apply call?
  dsimp only
  rw [h]
  dsimp only
  rw [hname]
  rfl

/-- The parts of a date make this date. -/
theorem callOn_date_parts (environment : Environment) (functions : UserFunctions)
    (h : Writable day) :
    date.callOn environment functions
        [year.callOn environment functions [.ok (.date day)],
          monnum.callOn environment functions [.ok (.date day)],
          Builtin.day.callOn environment functions [.ok (.date day)]]
      = .ok (.date day) := by
  obtain ⟨hyear, hmonth, hday, -⟩ := parts_of_date environment functions day
  rw [hyear, hmonth, hday]
  refine (callOn_ok environment functions date [_, _, _]).trans ?_
  rw [apply_date, dayOfParts_ofDay h]
  rfl

/-- The length of a date's month. -/
theorem callOn_daysinmon_parts (environment : Environment) (functions : UserFunctions)
    (h : Writable day) :
    daysinmon.callOn environment functions
        [monnum.callOn environment functions [.ok (.date day)],
          year.callOn environment functions [.ok (.date day)]]
      = .ok (.int (daysInMonth (CivilDate.ofDay day).month (CivilDate.ofDay day).year)) := by
  obtain ⟨hyear, hmonth, -, -⟩ := parts_of_date environment functions day
  rw [hyear, hmonth]
  refine (callOn_ok environment functions daysinmon [_, _]).trans ?_
  rw [apply_daysinmon, monthLength_ofDay h]
  rfl

/-- The ways to make a moment of a date and a time of the day are one. -/
theorem callOn_datetime_forms (environment : Environment) (functions : UserFunctions)
    (h : Writable day) (hminute : 0 ≤ minute ∧ minute < minutesPerDay) :
    let call := callOn environment functions
    let d : Result Value := .ok (.date day)
    let t : Result Value := .ok (.time minute)
    let x : Result Value := .ok (.momentOf day minute)
    call datetime [d, t] = x
      ∧ call datetime [d, call hour [t], call Builtin.minute [t]] = x
      ∧ call datetime [call year [d], call monnum [d], call Builtin.day [d], t] = x
      ∧ call datetime [call year [d], call monnum [d], call Builtin.day [d], call hour [t],
          call Builtin.minute [t]] = x := by
  intro call d t x
  obtain ⟨hyear, hmonth, hday, -⟩ := parts_of_date environment functions day
  obtain ⟨hhour, hrest⟩ :=
    parts_of_minuteOf environment functions (rfl : minuteOf (.time minute) = .ok minute)
  have hcall : ∀ vs, call datetime (vs.map .ok) = moment vs :=
    callOn_ok environment functions datetime
  have hclock : momentOfParts day [.int (minute.tdiv 60), .int (minute.tmod 60)]
      = .ok (.momentOf day minute) := by
    rw [momentOfParts, minutesOfParts_parts hminute]
    rfl
  have hparts : ∀ v rest, moment (.int (CivilDate.ofDay day).year
      :: .int (CivilDate.ofDay day).month :: .int (CivilDate.ofDay day).day :: v :: rest)
      = momentOfParts day (v :: rest) := by
    intro v rest
    rw [moment, dayOfParts_ofDay h]
    rfl
  simp only [call, d, t, hyear, hmonth, hday, hhour, hrest]
  refine ⟨rfl, (hcall [_, _, _]).trans hclock, (hcall [_, _, _, _]).trans ?_,
    (hcall [_, _, _, _, _]).trans ?_⟩
  · rw [hparts]
    rfl
  · rw [hparts, hclock]

/-- The name of a date's weekday is that of its number. -/
theorem callOn_wkday (environment : Environment) (functions : UserFunctions) (day : Int) :
    ∃ name, wkday.callOn environment functions [.ok (.date day)] = .ok (.str name)
      ∧ wkday.callOn environment functions
          [wkdaynum.callOn environment functions [.ok (.date day)]] = .ok (.str name) := by
  obtain ⟨-, -, -, hnumber⟩ := parts_of_date environment functions day
  obtain ⟨hfrom, hto⟩ := weekdayFromSunday_bounds day
  have hname : weekdayNameOf (.int (weekdayFromSunday day)) = .ok (weekdayName (weekday day)) := by
    unfold weekdayNameOf
    dsimp only
    rw [if_neg (by omega), if_neg (by omega), weekday_weekdayFromSunday]
  refine ⟨weekdayName (weekday day), rfl, ?_⟩
  rw [hnumber]
  refine (callOn_ok environment functions wkday [_]).trans ?_
  rw [apply_wkday, hname]
  rfl

/-- The name of a date's month is that of its number. -/
theorem callOn_mon (environment : Environment) (functions : UserFunctions) (day : Int) :
    ∃ name, mon.callOn environment functions [.ok (.date day)] = .ok (.str name)
      ∧ mon.callOn environment functions
          [monnum.callOn environment functions [.ok (.date day)]] = .ok (.str name) := by
  obtain ⟨-, hnumber, -, -⟩ := parts_of_date environment functions day
  obtain ⟨name, hname⟩ := Option.isSome_iff_exists.1 (isSome_monthName (month_ofDay day))
  refine ⟨name, (callOn_ok environment functions mon [_]).trans (apply_mon rfl hname), ?_⟩
  rw [hnumber]
  refine (callOn_ok environment functions mon [_]).trans (apply_mon ?_ hname)
  obtain ⟨hfirst, hlast⟩ := month_ofDay day
  unfold monthOf
  dsimp only
  rw [if_neg (by omega), if_neg (by omega), Int.toNat_natCast]

/-- A date and its year agree on whether this is a leap year. -/
theorem callOn_isleap (environment : Environment) (functions : UserFunctions) (day : Int) :
    ∃ leap, isleap.callOn environment functions [.ok (.date day)] = .ok (.ofBool leap)
      ∧ isleap.callOn environment functions
          [year.callOn environment functions [.ok (.date day)]] = .ok (.ofBool leap) := by
  obtain ⟨hyear, -, -, -⟩ := parts_of_date environment functions day
  refine ⟨isLeapYear (CivilDate.ofDay day).year, rfl, ?_⟩
  rw [hyear]
  rfl

end Builtin

/-- A moment of a day of 32 bits is coerced to this day, and to its minute. -/
theorem coerce_momentOf (hday : fits32 day = true)
    (hminute : 0 ≤ minute ∧ minute < minutesPerDay) (separators : Separators) :
    (Value.momentOf day minute).coerce separators .date = .ok (.date day)
      ∧ (Value.momentOf day minute).coerce separators .time = .ok (.time minute) := by
  constructor
  · show (do .ok (Value.date (← dayOf (.momentOf day minute)))) = _
    rw [dayOf_momentOf hday hminute]
    rfl
  · show Except.ok (Value.time ((day * minutesPerDay + minute) % minutesPerDay)) = _
    rw [emod_minutesPerDay hminute]

/-- What functions take from dates and times of the day makes them again.

A date that can be written is the date of its year, month and day, and its day
is one of its month. With a time of the day it makes one moment, whether the
parts of either are given or not; this is coerced to the date and to the time,
and has their parts. For every day, however far from day 0, the names of its
weekday and its month and its leap year go by the numbers that are its parts,
and the weekdays of days that follow one another count from 0 to 6 and start
anew. -/
theorem date_parts_recompose (environment : Environment) (functions : UserFunctions) :
    let call := Builtin.callOn environment functions
    (∀ day minute : Int, Writable day → 0 ≤ minute ∧ minute < 1440 →
        let d : Result Value := .ok (.date day)
        let t : Result Value := .ok (.time minute)
        call .date [call .year [d], call .monnum [d], call .day [d]] = d
          ∧ (∃ k length, call .day [d] = .ok (.int k)
              ∧ call .daysinmon [call .monnum [d], call .year [d]] = .ok (.int length)
              ∧ k ≤ length)
          ∧ ∃ moment : Int,
            let x : Result Value := .ok (.dateTime moment)
            (call .datetime [d, t] = x
                ∧ call .datetime [d, call .hour [t], call .minute [t]] = x
                ∧ call .datetime [call .year [d], call .monnum [d], call .day [d], t] = x
                ∧ call .datetime [call .year [d], call .monnum [d], call .day [d],
                    call .hour [t], call .minute [t]] = x)
              ∧ (∀ separators, (Value.dateTime moment).coerce separators .date = d
                  ∧ (Value.dateTime moment).coerce separators .time = t)
              ∧ (∀ part ∈ [Builtin.year, .monnum, .day, .wkdaynum],
                  ∃ n, call part [x] = .ok (.int n) ∧ call part [d] = .ok (.int n))
              ∧ ∀ part ∈ [Builtin.hour, .minute],
                  ∃ n, call part [x] = .ok (.int n) ∧ call part [t] = .ok (.int n))
      ∧ ∀ day : Int,
        let d : Result Value := .ok (.date day)
        (∃ name, call .wkday [d] = .ok (.str name)
            ∧ call .wkday [call .wkdaynum [d]] = .ok (.str name))
          ∧ (∃ name, call .mon [d] = .ok (.str name)
              ∧ call .mon [call .monnum [d]] = .ok (.str name))
          ∧ (∃ leap, call .isleap [d] = .ok (.ofBool leap)
              ∧ call .isleap [call .year [d]] = .ok (.ofBool leap))
          ∧ ∃ k, call .wkdaynum [d] = .ok (.int k) ∧ (0 ≤ k ∧ k ≤ 6)
              ∧ call .wkdaynum [.ok (.date (day + 1))] = .ok (.int (if k = 6 then 0 else k + 1)) := by
  intro call
  refine ⟨fun day minute hday hminute => ?_, fun day => ?_⟩
  · intro d t
    have hdateParts := Builtin.parts_of_date environment functions day
    have hmomentParts := Builtin.parts_of_dayOf environment functions
      (dayOf_momentOf hday.fits32 hminute)
    have htimeParts := Builtin.parts_of_minuteOf environment functions
      (rfl : minuteOf (.time minute) = .ok minute)
    have hclockParts := Builtin.parts_of_minuteOf environment functions
      (minuteOf_momentOf hminute : minuteOf (.momentOf day minute) = .ok minute)
    refine ⟨Builtin.callOn_date_parts environment functions hday,
      ⟨_, _, hdateParts.2.2.1, Builtin.callOn_daysinmon_parts environment functions hday,
        Int.ofNat_le.2 (CivilDate.ofDay_exists day).day.2⟩,
      day * minutesPerDay + minute,
      Builtin.callOn_datetime_forms environment functions hday hminute,
      coerce_momentOf hday.fits32 hminute, ?_, ?_⟩
    · simp only [List.forall_mem_cons, List.not_mem_nil, false_imp_iff, implies_true, and_true]
      exact ⟨⟨_, hmomentParts.1, hdateParts.1⟩, ⟨_, hmomentParts.2.1, hdateParts.2.1⟩,
        ⟨_, hmomentParts.2.2.1, hdateParts.2.2.1⟩, ⟨_, hmomentParts.2.2.2, hdateParts.2.2.2⟩⟩
    · simp only [List.forall_mem_cons, List.not_mem_nil, false_imp_iff, implies_true, and_true]
      exact ⟨⟨_, hclockParts.1, htimeParts.1⟩, ⟨_, hclockParts.2, htimeParts.2⟩⟩
  · intro d
    refine ⟨Builtin.callOn_wkday environment functions day,
      Builtin.callOn_mon environment functions day,
      Builtin.callOn_isleap environment functions day, weekdayFromSunday day, ?_,
      weekdayFromSunday_bounds day, ?_⟩
    · exact (Builtin.parts_of_date environment functions day).2.2.2
    · rw [← weekdayFromSunday_succ]
      exact (Builtin.parts_of_date environment functions (day + 1)).2.2.2

/-- The last minute of a leap day; and the two days before day 0, the second of
which is a Sunday. -/
theorem leap_day_and_days_before_day_zero :
    let call := Builtin.callOn {} {}
    let leapDay : Result Value := .ok (.date 12477)
    let nameOn := fun day : Int => call .wkday [.ok (.date day)]
    (Writable 12477 ∧ (0 : Int) ≤ 1439 ∧ (1439 : Int) < 1440)
      ∧ (call .year [leapDay] = .ok (.int 2024) ∧ call .monnum [leapDay] = .ok (.int 2)
        ∧ call .day [leapDay] = .ok (.int 29))
      ∧ call .date [call .year [leapDay], call .monnum [leapDay], call .day [leapDay]] = leapDay
      ∧ nameOn (-2) = .ok (.str "Saturday") ∧ nameOn (-1) = .ok (.str "Sunday")
      ∧ ∃ k, call .wkdaynum [.ok (.date (-2))] = .ok (.int k)
          ∧ call .wkdaynum [.ok (.date (-1))] = .ok (.int (if k = 6 then 0 else k + 1)) := by
  intro call leapDay nameOn
  have hwritable : Writable 12477 := by decide +kernel
  obtain ⟨hwritten, hall⟩ := date_parts_recompose {} {}
  obtain ⟨hdate, -⟩ := hwritten 12477 1439 hwritable (by decide)
  obtain ⟨-, -, -, k, hk, -, hnext⟩ := hall (-2)
  exact ⟨⟨hwritable, by decide⟩, by decide +kernel, hdate, by decide +kernel, by decide +kernel,
    k, hk, hnext⟩

end ReminderExpr
