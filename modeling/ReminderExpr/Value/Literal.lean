/-
ReminderExpr.Value.Literal — values as they are spelled.

* `DateLiteral.read` — a date, with or without a time of day, at the front
  of a text:

      date = digits s digits s digits [ (' ' | '@') time ]
      time = digits t digits

  where `s` separates dates and `t` separates times. What follows is left to
  the caller.
* `readClock` — a time of day that is the whole text.
* `quotedDate` — a date literal that is the whole text, as between quotes.
* `numberOrTime` — a word that starts with a digit: a number, or a time.

Runs of digits may have any length and any number of leading zeros; only the
number they denote is checked. The counters of `readNumber` and of
`DateLiteral.read` stop at a ceiling, far above every number that is accepted;
that of `numberOrTime` gives up at the same ceiling.
-/
import ReminderExpr.Value
import ReminderExpr.Separators
import ReminderExpr.Text.Decimal

namespace ReminderExpr

open Text

/-- The minutes past midnight of an hour and minute that a clock shows. -/
def clockMinutes (hour minute : Nat) : Option Int :=
  if hour ≤ 23 ∧ minute ≤ 59 then some (hour * 60 + minute) else none

/-- The greatest number that `readNumber` and `numberOrTime` count up to: 63
bits, all set. -/
def numberCeiling : Nat := 0x7fffffffffffffff

/-- The greatest number that counts as a month or a day of the month: 32 bits,
all set. -/
def partCeiling : Nat := 0xffffffff

/-- A number at the front of a text, or `missing` if no digit is there. -/
def readNumber (missing : EvalError) (cs : List Char) : Result (Nat × List Char) :=
  match digitRun cs with
  | ([], _) => .error missing
  | (digits, rest) => .ok (cappedValue numberCeiling digits, rest)

/-- What follows a character of a class, or `missing` if none is there. -/
def readChar (missing : EvalError) (isWanted : Char → Bool) : List Char → Result (List Char)
  | [] => .error missing
  | c :: cs => if isWanted c then .ok cs else .error missing

/-- An hour, a separator and a minute at the front of a text. -/
def readTime (separators : Separators) (cs : List Char) : Result (Int × List Char) := do
  let (hour, cs) ← readNumber .badTime cs
  let cs ← readChar .badTime separators.isTimeSeparator cs
  let (minute, cs) ← readNumber .badTime cs
  match clockMinutes hour minute with
  | none => .error .badTime
  | some minutes => .ok (minutes, cs)

/-- A date as written: its day, and the minutes past midnight if given. -/
structure DateLiteral where
  day : Int
  time : Option Int
  deriving DecidableEq, Repr

namespace DateLiteral

/-- A date without a time of day, and a moment with one. -/
def toValue (literal : DateLiteral) : Value :=
  match literal.time with
  | none => .date literal.day
  | some minute => .momentOf literal.day minute

/-- A date at the front of a text, and what follows it. -/
def read (separators : Separators) (cs : List Char) : Result (DateLiteral × List Char) := do
  let (year, cs) ← readNumber .badDate cs
  let cs ← readChar .badDate separators.isDateSeparator cs
  let (month, cs) ← readNumber .badDate cs
  let cs ← readChar .badDate separators.isDateSeparator cs
  let (dayOfMonth, cs) ← readNumber .badDate cs
  let day ← Calendar.dayOfCivil year (min month partCeiling) (min dayOfMonth partCeiling)
  match cs with
  | ' ' :: timeText | '@' :: timeText =>
      let (time, rest) ← readTime separators timeText
      .ok ({ day, time := some time }, rest)
  | rest => .ok ({ day, time := none }, rest)

/-- A date that is the whole text. -/
def readAll? (separators : Separators) (cs : List Char) : Option DateLiteral :=
  match read separators cs with
  | .ok (literal, []) => some literal
  | _ => none

end DateLiteral

/-- A time of day that is the whole text. -/
def readClock (separators : Separators) (cs : List Char) : Option Int :=
  match readTime separators cs with
  | .ok (minutes, []) => some minutes
  | _ => none

/-- The value of the text between the quotes of a date literal. -/
def quotedDate (separators : Separators) (text : String) : Result Value :=
  match DateLiteral.read separators text.toList with
  | .error e => .error e
  | .ok (literal, []) => .ok literal.toValue
  | .ok (_, _ :: _) => .error .badDate

/-- The value of a word that starts with a digit: digits alone are a number,
and digits on both sides of a time separator are a time of day. -/
def numberOrTime (separators : Separators) (word : String) : Result Value :=
  let (digits, rest) := digitRun word.toList
  let number := checkedValue? numberCeiling digits
  match rest with
  | [] =>
      match number with
      | some n => .ok (.int n)
      | none => .error .badNumber
  | c :: minutes =>
      if separators.isTimeSeparator c then
        if minutes.isEmpty || !minutes.all Char.isDigit then .error .badTime
        else match number.filter (· ≤ 23),
            (checkedValue? numberCeiling minutes).filter (· ≤ 59) with
          | some hour, some minute => .ok (.timeOfDay (hour * 60 + minute))
          | _, _ => .error .badTime
      else .error .badNumber

/-- The natural numbers that have 64 bits are those up to the ceiling. -/
theorem le_numberCeiling_iff {n : Nat} : n ≤ numberCeiling ↔ fits64 n = true := by
  rw [numberCeiling, fits64_iff]
  omega

end ReminderExpr
