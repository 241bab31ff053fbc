/-
ReminderExpr.Proofs.DateCallsOnWords — functions on dates and times, computed
with machine words.

Moments are multiplied out and added up in 64 bits, names are looked up by
computed places, and what has been computed is cut down to 32 bits.

* `moment_eq` — a day and a time of day put together;
* `weekdayNameOf_eq`, `monthOf_eq`, `monthName_eq` — names;
* `easterOf_eq` — Easter of a year or after a day;
* `trigger_eq` — triggers, shifted from universal time or not.
-/
import ReminderExpr.Proofs.BuiltinCalls
import ReminderExpr.Proofs.CoercionOnWords

namespace ReminderExpr.Words

open Calendar Dates

variable {env : Environment} {functions : UserFunctions} {v : Value} {vs : List Value}

/-! ## Dates and times -/

def monthOrDayAt (vs : List Value) (place : Nat) : Checked Nat := do
  ofResult (monthOrDay (← item vs place))

/-- The day of a year and of the month and the day of the month after it. -/
def dayOfParts (year : Int) (vs : List Value) : Checked Int := do
  let month ← monthOrDayAt vs 1
  let day ← monthOrDayAt vs 2
  dayOfCivil year month day

def civilOf (v : Value) : Checked CivilDate := do civilOfDay (← ofResult (dayOf v))

def minutesOfParts (hour minute : Int) : Checked Int :=
  if hour < 0 ∨ minute < 0 then throw .tooLow
  else if hour > 23 ∨ minute > 59 then throw .tooHigh
  else do whole32 (← add (← mul hour 60) minute)

/-- A day at the front of some arguments, and the place after it. -/
def dayOfArgs (vs : List Value) : Checked (Int × Nat) := do
  match ← item vs 0 with
  | .date day => pure (day, 1)
  | .int year =>
      if 4 ≤ vs.length then do pure (← dayOfParts year vs, 3) else throw .badType
  | _ => throw .badType

def minuteOfParts : List Value → Checked Int
  | [.time minute] => pure minute
  | [.int hour, .int minute] => minutesOfParts hour minute
  | [_] | [_, _] => throw .badType
  | [] => throw .tooFewArgs
  | _ => throw .tooManyArgs

def moment (vs : List Value) : Checked Value := do
  let (day, rest) ← dayOfArgs vs
  momentOf day (← minuteOfParts (← itemsFrom vs rest))

def weekdayOf : Value → Checked Nat
  | .int n =>
      if n < 0 then throw .tooLow
      else if n > 6 then throw .tooHigh
      else do size ((← add n 6).tmod 7)
  | v => do weekdayFromMonday (← ofResult (dayOf v))

def weekdayNameOf (v : Value) : Checked String := do item dayNames (← weekdayOf v)

def monthOf : Value → Checked Nat
  | .int n =>
      if n < 1 then throw .tooLow
      else if n > 12 then throw .tooHigh
      else size n
  | v => do pure (← civilOf v).month

def monthName (month : Nat) : Checked String := do item monthNames (← less month 1)

def monthLength (month year : Int) : Checked Int :=
  if ¬ (1 ≤ month ∧ month ≤ 12) ∨ year < baseYear ∨ year > lastYear then throw .domainError
  else do pure (← daysInMonth (← unsigned32 month) year : Nat)

def yearOf : Value → Checked Int
  | .int year => pure year
  | v => do pure (← civilOf v).year

def leapYearOf (v : Value) : Checked Bool := do pure (isLeapYear (← yearOf v))

/-- Ninety years are those from 1990 to 2078 and one more. -/
def easterOf : Value → Checked Int
  | .int year =>
      if year < baseYear then throw .tooLow
      else if year > lastYear then throw .tooHigh
      else easterFrom none 90 year
  | v => do
      let day ← ofResult (dayOf v)
      easterFrom (some day) 90 (← civilOfDay day).year

theorem fits32_of_dayOfMoment {moment day : Int} (h : dayOfMoment moment = .ok day) :
    fits32 day = true := by
  unfold dayOfMoment at h
  dsimp only at h
  split at h
  · cases h
    assumption
  · cases h

/-- The days of values have 32 bits. -/
theorem fits32_of_dayOf {day : Int} (h : v.InRange) (hday : dayOf v = .ok day) :
    fits32 day = true := by
  cases v with
  | date => cases hday; exact h
  | dateTime moment => exact fits32_of_dayOfMoment hday
  | _ => cases hday

theorem civilOf_eq (h : v.InRange) : civilOf v = ofResult (Dates.civilOf v) :=
  ofResult_bind fun _ hday => civilOfDay_eq (fits32_of_dayOf h hday)

theorem minutesOfParts_eq (hour minute : Int) :
    minutesOfParts hour minute = ofResult (Dates.minutesOfParts hour minute) := by
  unfold minutesOfParts Dates.minutesOfParts
  split
  · rfl
  · split
    · rfl
    · rw [mul_eq (by omega), pure_bind, add_eq (by omega), pure_bind, whole32_eq (by omega)]
      rfl

/-- The minutes that a clock shows have 32 bits. -/
theorem fits32_of_minutesOfParts {hour minute minutes : Int}
    (h : Dates.minutesOfParts hour minute = .ok minutes) : fits32 minutes = true := by
  unfold Dates.minutesOfParts at h
  split at h
  · cases h
  · split at h
    · cases h
    · cases h
      rw [fits32_iff]
      omega

theorem dayOfParts_eq (year : Int) (month day : Value) (vs : List Value) :
    dayOfParts year (.int year :: month :: day :: vs)
      = ofResult (Dates.dayOfParts (.int year) month day) := by
  refine ofResult_bind fun month _ => ofResult_bind fun day _ => ?_
  exact dayOfCivil_eq year month day

theorem fits32_of_dayOfParts {year month dayOfMonth : Value} {day : Int}
    (h : Dates.dayOfParts year month dayOfMonth = .ok day) : fits32 day = true := by
  obtain ⟨_, -, h⟩ := bind_eq_ok_iff.1 h
  obtain ⟨_, -, h⟩ := bind_eq_ok_iff.1 h
  obtain ⟨_, -, h⟩ := bind_eq_ok_iff.1 h
  exact fits32_of_dayOfCivil h

/-- What follows a day makes a moment of it, or does not. -/
theorem momentOf_minuteOfParts {day : Int} (hday : fits32 day = true)
    (h : ∀ v ∈ vs, v.InRange) :
    (minuteOfParts vs >>= momentOf day) = ofResult (momentOfParts day vs) := by
  rcases vs with _ | ⟨v, _ | ⟨w, _ | ⟨u, rest⟩⟩⟩
  · rfl
  · cases v with
    | time minute => exact momentOf_eq hday (h _ List.mem_cons_self)
    | _ => rfl
  · cases v with
    | int hour =>
      cases w with
      | int minute =>
        show (minutesOfParts hour minute >>= momentOf day) = _
        rw [minutesOfParts_eq]
        exact ofResult_bind fun _ hminutes =>
          momentOf_eq hday (fits32_of_minutesOfParts hminutes)
      | _ => rfl
    | _ => rfl
  · cases v with
    | int hour => cases w <;> rfl
    | _ => rfl

theorem moment_eq (h : ∀ v ∈ vs, v.InRange) (hvs : vs ≠ []) :
    moment vs = ofResult (Dates.moment vs) := by
  obtain ⟨v, rest, rfl⟩ := List.exists_cons_of_ne_nil hvs
  have hrest : ∀ u ∈ rest, u.InRange := fun u hu => h u (List.mem_cons_of_mem v hu)
  cases v with
  | date day => exact momentOf_minuteOfParts (h _ List.mem_cons_self) hrest
  | int year =>
    rcases rest with _ | ⟨month, _ | ⟨day, _ | ⟨minute, rest⟩⟩⟩
    · rfl
    · rfl
    · rfl
    · have hparts : dayOfArgs (.int year :: month :: day :: minute :: rest)
          = (ofResult (Dates.dayOfParts (.int year) month day) >>= fun day => pure (day, 3)) := by
        have hlength : 4 ≤ (Value.int year :: month :: day :: minute :: rest).length :=
          Nat.le_add_left 4 rest.length
        rw [dayOfArgs, item_zero, pure_bind]
        dsimp only
        rw [if_pos hlength, dayOfParts_eq]
      rw [moment, hparts, bind_assoc]
      refine ofResult_bind fun first hfirst => ?_
      exact momentOf_minuteOfParts (fits32_of_dayOfParts hfirst) fun u hu =>
        hrest u (List.mem_cons_of_mem _ (List.mem_cons_of_mem _ hu))
  | _ => rfl

theorem item_dayNames (weekday : Fin 7) : item dayNames weekday = pure (weekdayName weekday) :=
  item_eq (List.getElem?_eq_getElem weekday.isLt)

theorem weekdayNameOf_eq (v : Value) :
    weekdayNameOf v = ofResult (Dates.weekdayNameOf v) := by
  have hdated : ∀ r : Result Int,
      ((ofResult r >>= weekdayFromMonday) >>= item dayNames)
        = ofResult (r >>= fun day => .ok (weekdayName (weekday day))) := by
    intro r
    rw [bind_assoc]
    refine ofResult_bind fun day _ => ?_
    rw [weekdayFromMonday_eq, pure_bind]
    exact item_dayNames _
  cases v with
  | int n =>
    rw [weekdayNameOf, weekdayOf, Dates.weekdayNameOf]
    split
    · rfl
    · split
      · rfl
      · rw [add_eq (by omega), pure_bind, Int.tmod_eq_emod_of_nonneg (by omega),
          size_eq (by omega), pure_bind]
        exact item_dayNames (weekday (n + 6))
  | _ => exact hdated _

theorem monthOf_eq (h : v.InRange) : monthOf v = ofResult (Dates.monthOf v) := by
  have hdated : (do pure (← civilOf v).month)
      = ofResult (do .ok (← Dates.civilOf v).month) := by
    rw [civilOf_eq h]
    exact ofResult_bind fun _ _ => rfl
  cases v with
  | int n =>
    rw [monthOf, Dates.monthOf]
    split
    · rfl
    · split
      · rfl
      · exact size_eq (by omega)
  | _ => exact hdated

theorem monthName_eq {month : Nat} {name : String} (h : Calendar.monthName month = some name) :
    monthName month = pure name := by
  unfold Calendar.monthName at h
  split at h
  · cases h
  · rw [monthName, less_eq (by omega), pure_bind, item_eq h]

theorem monthLength_eq (month year : Int) :
    monthLength month year = ofResult (Dates.monthLength month year) := by
  unfold monthLength Dates.monthLength
  split
  · rw [if_neg (by omega)]
    rfl
  · rw [if_pos (by omega), unsigned32_eq (by omega), pure_bind, daysInMonth_eq]
    rfl

theorem leapYearOf_eq (h : v.InRange) :
    leapYearOf v = ofResult (Dates.leapYearOf v) := by
  have hyear : ∀ year, (pure (isLeapYear year) : Checked Bool)
      = ofResult (.ok (Calendar.isLeapYear year)) := fun year => by
    rw [isLeapYear_eq]
    rfl
  have hdated : ((do pure (← civilOf v).year) >>= fun year => pure (isLeapYear year))
      = ofResult (do .ok (Calendar.isLeapYear (← Dates.civilOf v).year)) := by
    rw [civilOf_eq h, bind_assoc]
    exact ofResult_bind fun civil _ => hyear civil.year
  cases v with
  | int year => exact hyear year
  | _ => exact hdated

theorem easterOf_eq (h : v.InRange) : easterOf v = ofResult (Dates.easter v) := by
  cases v with
  | int year =>
    rw [easterOf, Dates.easter]
    split
    · rfl
    · split
      · rfl
      · rename_i hlow hhigh
        simp only [baseYear, lastYear] at hlow hhigh
        exact easterFrom_none (by omega)
  | _ =>
    refine ofResult_bind fun day hday => ?_
    have hrange := fits32_of_dayOf h hday
    rw [civilOfDay_eq hrange, pure_bind, easterFrom_ofDay hrange]

/-! ## Triggers -/

def shiftClock (day minute minutes : Int) : Checked (Int × Int) := do
  let moment ← add (← add (← mul day minutesPerDay) minute) minutes
  let day ← ofResult (dayOfMoment moment)
  pure (day, ← whole32 (moment % minutesPerDay))

def triggerText (day : Int) (minute : Option Int) : Checked String := do
  let civil ← civilOfDay day
  let month ← monthName civil.month
  let dateText := Text.decimal civil.day ++ " " ++ month ++ " " ++ Text.decimal civil.year
  match minute with
  | none => pure dateText
  | some minute => pure (dateText ++ " AT " ++ writtenTime {} minute)

def triggerOf (env : Environment) (day : Int) (minute : Option Int) (shift : Int) :
    Checked Value := do
  if shift = 0 then pure (.str (← triggerText day minute))
  else do
    let minutes ← ofResult (Builtin.utcShift env)
    let (day, minute) ← shiftClock day (minute.getD 0) minutes
    pure (.str (← triggerText day (some minute)))

def trigger (env : Environment) (vs : List Value) : Checked Value := do
  let day ← ofResult (← item vs 0).asDate
  let minute ←
    if 1 < vs.length then do pure (some (← ofResult (← item vs 1).asTime)) else pure none
  let shift ← if vs.length = 3 then intAt vs 2 else pure 0
  triggerOf env day minute shift

/-- Whether the minutes from universal time are within the bounds that scripts
must keep to. -/
def ShiftWithin (env : Environment) : Prop :=
  ∃ minutes, env.systemVariable "MinsFromUTC" = .ok (.int minutes)
    ∧ -780 ≤ minutes ∧ minutes ≤ 780

theorem exists_triggerText {day : Int} (h : fits32 day = true) (minute : Option Int) :
    ∃ text, Dates.triggerText day minute = some text ∧ triggerText day minute = pure text := by
  obtain ⟨name, hname⟩ := Option.isSome_iff_exists.1 (isSome_monthName (month_ofDay day))
  rw [triggerText, civilOfDay_eq h, pure_bind, monthName_eq hname, pure_bind]
  unfold Dates.triggerText
  dsimp only
  rw [hname]
  cases minute with
  | none => exact ⟨_, rfl, rfl⟩
  | some minute => exact ⟨_, rfl, rfl⟩

theorem shiftClock_eq {day minute minutes : Int} (hday : fits32 day = true)
    (hminute : fits32 minute = true) (hminutes : -780 ≤ minutes ∧ minutes ≤ 780) :
    shiftClock day minute minutes = ofResult (Dates.shiftClock day minute minutes) := by
  rw [fits32_iff] at hday hminute
  unfold shiftClock Dates.shiftClock
  simp only [minutesPerDay]
  rw [mul_eq (by omega), pure_bind, add_eq (by omega), pure_bind, add_eq (by omega), pure_bind]
  refine ofResult_bind fun _ _ => ?_
  rw [whole32_eq (by omega)]
  rfl

theorem triggerOf_eq (henv : ShiftWithin env) {day minute : Int} (hday : fits32 day = true)
    (hminute : fits32 minute = true) (shift : Int) :
    triggerOf env day (some minute) shift
      = ofResult ((Builtin.triggerOf env day minute shift).getD (.error .stackError)) := by
  rw [triggerOf, Builtin.triggerOf]
  split
  · obtain ⟨text, htext, hwords⟩ := exists_triggerText hday (some minute)
    rw [htext, hwords]
    rfl
  · obtain ⟨minutes, hminutes, hbounds⟩ := henv
    have hutc : Builtin.utcShift env = .ok minutes := by
      rw [Builtin.utcShift, hminutes]
      rfl
    have hshift : (Builtin.utcShift env >>= Dates.shiftClock day minute)
        = Dates.shiftClock day minute minutes := by
      rw [hutc]
      rfl
    rw [hshift, hutc, ofResult_ok, pure_bind, Option.getD_some, shiftClock_eq hday hminute hbounds]
    cases hshifted : Dates.shiftClock day minute minutes with
    | error e => rfl
    | ok shifted =>
      obtain ⟨day', hday', hsame⟩ := bind_eq_ok_iff.1 hshifted
      cases hsame
      obtain ⟨text, htext, hwords⟩ := exists_triggerText (fits32_of_dayOfMoment hday')
        (some ((day * minutesPerDay + minute + minutes) % minutesPerDay))
      dsimp only
      rw [htext, ofResult_ok, pure_bind]
      dsimp only
      rw [hwords]
      rfl

theorem trigger_eq (henv : ShiftWithin env) (h : ∀ v ∈ vs, v.InRange)
    (hlength : 1 ≤ vs.length ∧ vs.length ≤ 3) :
    trigger env vs = ofResult (Builtin.apply env functions .trigger vs) := by
  rcases vs with _ | ⟨d, _ | ⟨t, _ | ⟨u, _ | ⟨w, vs⟩⟩⟩⟩
  · cases hlength.1
  · cases d with
    | date day =>
      obtain ⟨text, htext, hwords⟩ := exists_triggerText (h _ List.mem_cons_self) none
      show triggerOf env day none 0 = ofResult (((Dates.triggerText day none).map _).getD _)
      rw [htext, triggerOf, if_pos rfl, hwords]
      rfl
    | _ => rfl
  · cases d with
    | date day =>
      cases t with
      | time minute =>
        exact triggerOf_eq henv (h _ List.mem_cons_self)
          (h _ (List.mem_cons_of_mem _ List.mem_cons_self)) 0
      | _ => rfl
    | _ => rfl
  · cases d with
    | date day =>
      cases t with
      | time minute =>
        cases u with
        | int shift =>
          exact triggerOf_eq henv (h _ List.mem_cons_self)
            (h _ (List.mem_cons_of_mem _ List.mem_cons_self)) shift
        | _ => rfl
      | _ => rfl
    | _ => rfl
  · simp only [List.length_cons] at hlength
    omega

end ReminderExpr.Words
