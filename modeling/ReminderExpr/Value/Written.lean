/-
ReminderExpr.Value.Written — the texts that values are written as.

* `Value.written` — an integer in decimal, a time as `HH:MM`, a date as
  `YYYY/MM/DD`, a moment as a date, an `@` and a time, with the configured
  separators; a string as it is.
* `Value.shown` — the same with a string between quotes and cut off after
  forty characters, as listings show it.
-/
import ReminderExpr.Value
import ReminderExpr.Separators
import ReminderExpr.Text.Decimal

namespace ReminderExpr

open Text

/-- Minutes past midnight as hours and minutes. Both parts carry the sign of
a time before midnight, which no clock shows. -/
def writtenTime (separators : Separators) (minutes : Int) : String :=
  padded 2 (minutes.tdiv 60) ++ separators.time.toString ++ padded 2 (minutes.tmod 60)

/-- A day as year, month and day of the month. -/
def writtenDate (separators : Separators) (day : Int) : String :=
  let civil := Calendar.CivilDate.ofDay day
  padded 4 civil.year ++ separators.date.toString
    ++ padded 2 civil.month ++ separators.date.toString ++ padded 2 civil.day

/-- The day of a moment, for writing: a day that has more than 32 bits is
written as the last one that has not. -/
def writtenDay (moment : Int) : Int :=
  let day := moment / Calendar.minutesPerDay
  if fits32 day then day else 0x7fffffff

namespace Value

/-- The text of a value. -/
def written (separators : Separators) : Value → String
  | .int n => decimal n
  | .str s => s
  | .time minutes => writtenTime separators minutes
  | .date day => writtenDate separators day
  | .dateTime moment =>
      writtenDate separators (writtenDay moment) ++ "@"
        ++ writtenTime separators (moment % Calendar.minutesPerDay)

/-- How many characters of a string a listing shows. -/
def shownLength : Nat := 40

/-- The text of a value in a listing. -/
def shown (separators : Separators) : Value → String
  | .str s =>
      let quoted := "\"" ++ String.ofList (s.toList.take shownLength) ++ "\""
      if shownLength < s.toList.length then quoted ++ "..." else quoted
  | v => v.written separators

end Value

end ReminderExpr
