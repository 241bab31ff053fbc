/-
ReminderExpr.Calendar.Easter — the Sunday after the first full moon of
spring, by the Gregorian rule.

`marchDay` counts Easter as a day of March, so that 32 is 1 April; the rule
goes by the golden number, the century's corrections and the epact.
`onOrAfter` is the first Easter that is not before a given day, among the
years whose dates can be written.
-/
import ReminderExpr.Calendar

namespace ReminderExpr.Calendar.Easter

/-- The age of the moon at the start of a year, after the two exceptions
that keep the full moons of one cycle of nineteen years apart. -/
def epact (year : Int) : Int :=
  let golden := year % 19 + 1
  let century := year / 100 + 1
  let droppedLeapYears := 3 * century / 4 - 12
  let moonCorrection := (8 * century + 5) / 25 - 5
  let raw := (11 * golden + 20 + moonCorrection - droppedLeapYears) % 30
  if raw = 24 ∨ (raw = 25 ∧ golden > 11) then raw + 1 else raw

/-- The first full moon on or after 21 March, as a day of March. -/
def fullMoon (year : Int) : Int :=
  let moon := 44 - epact year
  if moon < 21 then moon + 30 else moon

/-- Easter of a year from 1990 on, as a day of March. -/
def marchDay (year : Int) : Int :=
  let century := year / 100 + 1
  let droppedLeapYears := 3 * century / 4 - 12
  let sunday := 5 * year / 4 - droppedLeapYears - 10
  let moon := fullMoon year
  moon + 7 - (sunday + moon) % 7

/-- The day of Easter of a year that can be written. -/
def ofYear (year : Int) : Result Int :=
  let day := marchDay year
  if day ≤ 31 then dayOfCivil year 3 day.toNat else dayOfCivil year 4 (day - 31).toNat

/-- The first of the feasts of the years from `year` on that is not before
`limit`; `years` is how many of them can be written. -/
def searchFrom (feastOf : Int → Result Int) (limit : Int) :
    (years : Nat) → (year : Int) → Result Int
  | 0, _ => .error .badDate
  | years + 1, year =>
      match feastOf year with
      | .error e => .error e
      | .ok found =>
          if limit ≤ found then .ok found else searchFrom feastOf limit years (year + 1)

/-- The first Easter on or after a day; a day before 1990 or after the last
Easter that can be written has none. -/
def onOrAfter (day : Int) : Result Int :=
  let year := (CivilDate.ofDay day).year
  searchFrom ofYear day (lastYear + 1 - year).toNat year

end ReminderExpr.Calendar.Easter
