/-
ReminderExpr.Builtin.Dates — what the functions on dates and times compute.
-/
import ReminderExpr.Calendar.Easter
import ReminderExpr.Value.Coercion

namespace ReminderExpr.Dates

open Calendar

/-- The day of a date or a moment. -/
def dayOf : Value → Result Int
  | .date day => .ok day
  | .dateTime moment => dayOfMoment moment
  | _ => .error .badType

/-- The minutes past midnight of a time or a moment. -/
def minuteOf : Value → Result Int
  | .time minute => .ok minute
  | .dateTime moment => .ok (moment % minutesPerDay)
  | _ => .error .badType

/-- The parts of the day of a date or a moment. -/
def civilOf (v : Value) : Result CivilDate := do .ok (CivilDate.ofDay (← dayOf v))

/-- A month or a day of the month given as an integer. -/
def monthOrDay (v : Value) : Result Nat := do
  let n ← v.asInt
  if 0 ≤ n ∧ n < 0x100000000 then .ok n.toNat else .error .badDate

/-- The day of a year, month and day of the month. -/
def dayOfParts (year month day : Value) : Result Int := do
  let year ← year.asInt
  let month ← monthOrDay month
  let day ← monthOrDay day
  dayOfCivil year month day

/-- The minutes past midnight of an hour and a minute. -/
def minutesOfParts (hour minute : Int) : Result Int :=
  if hour < 0 ∨ minute < 0 then .error .tooLow
  else if hour > 23 ∨ minute > 59 then .error .tooHigh
  else .ok (hour * 60 + minute)

/-- A moment of a day and what follows the day among the arguments: a time,
or an hour and a minute. -/
def momentOfParts (day : Int) : List Value → Result Value
  | [.time minute] => .ok (.momentOf day minute)
  | [.int hour, .int minute] => do .ok (.momentOf day (← minutesOfParts hour minute))
  | [_] | [_, _] => .error .badType
  | [] => .error .tooFewArgs
  | _ => .error .tooManyArgs

/-- A moment of a date, or of a year, month and day of the month, and a time
of day. -/
def moment : List Value → Result Value
  | .date day :: rest => momentOfParts day rest
  | .int year :: month :: day :: v :: rest => do
      momentOfParts (← dayOfParts (.int year) month day) (v :: rest)
  | _ => .error .badType

/-- The name of the weekday of a date or a moment, or of a number that counts
from Sunday as 0. -/
def weekdayNameOf : Value → Result String
  | .int n =>
      if n < 0 then .error .tooLow
      else if n > 6 then .error .tooHigh
      else .ok (weekdayName (weekday (n + 6)))
  | v => do .ok (weekdayName (weekday (← dayOf v)))

/-- The month of a date or a moment, or a number of a month. -/
def monthOf : Value → Result Nat
  | .int n =>
      if n < 1 then .error .tooLow
      else if n > 12 then .error .tooHigh
      else .ok n.toNat
  | v => do .ok (← civilOf v).month

/-- The length of a month in a year that can be written. -/
def monthLength (month year : Int) : Result Int :=
  if 1 ≤ month ∧ month ≤ 12 ∧ baseYear ≤ year ∧ year ≤ lastYear then
    .ok (daysInMonth month.toNat year)
  else .error .domainError

/-- Whether a year, or that of a date or a moment, is a leap year. -/
def leapYearOf : Value → Result Bool
  | .int year => .ok (isLeapYear year)
  | v => do .ok (isLeapYear (← civilOf v).year)

/-- Easter of a year, or the first one on or after a date or a moment. -/
def easter : Value → Result Int
  | .int year =>
      if year < baseYear then .error .tooLow
      else if year > lastYear then .error .tooHigh
      else Easter.ofYear year
  | v => do Easter.onOrAfter (← dayOf v)

/-- A day and a time of day shifted by minutes. -/
def shiftClock (day minute minutes : Int) : Result (Int × Int) := do
  let moment := day * minutesPerDay + minute + minutes
  .ok (← dayOfMoment moment, moment % minutesPerDay)

/-- A date, and a time of day if there is one, as a line of reminders gives
its trigger: `5 March 2024 AT 09:30`. `none` if the month has no name. -/
def triggerText (day : Int) (minute : Option Int) : Option String := do
  let civil := CivilDate.ofDay day
  let month ← monthName civil.month
  let dateText := Text.decimal civil.day ++ " " ++ month ++ " " ++ Text.decimal civil.year
  match minute with
  | none => some dateText
  | some minute => some (dateText ++ " AT " ++ writtenTime {} minute)

end ReminderExpr.Dates
