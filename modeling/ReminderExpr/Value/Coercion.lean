/-
ReminderExpr.Value.Coercion — turning a value into one of another kind.

Any value becomes a string, its text. The other directions are partial:
strings are read in the spelling of the wanted kind, numbers are taken as
days or minutes, and moments split into their day and their time of day.
`Value.coerce` fails with `cantCoerce` for every pair of kinds not listed.
-/
import ReminderExpr.Value.Literal
import ReminderExpr.Value.Written

namespace ReminderExpr

open Text

/-- The greatest number that `readInt?` counts up to: 127 bits, all set. -/
def magnitudeCeiling : Nat := 0x7fffffffffffffffffffffffffffffff

/-- Whether a text starts with a minus sign, and what follows it. -/
def readMinus : List Char → Bool × List Char
  | '-' :: rest => (true, rest)
  | cs => (false, cs)

/-- The integer that a text spells: digits, or none for zero, with or without
a minus sign. It must have 64 bits. -/
def readInt? (cs : List Char) : Option Int :=
  let (negative, digits) := readMinus cs
  if digits.all Char.isDigit then
    match checkedValue? magnitudeCeiling digits with
    | none => none
    | some magnitude =>
        let n : Int := if negative then -magnitude else magnitude
        if fits64 n then some n else none
  else none

/-- The day of a moment. -/
def dayOfMoment (moment : Int) : Result Int :=
  let day := moment / Calendar.minutesPerDay
  if fits32 day then .ok day else .error .dateOverflow

namespace Value

/-- A value as an integer: the number inside it, or what a string spells. -/
def toInt : Value → Result Value
  | .str s =>
      match readInt? s.toList with
      | some n => .ok (.int n)
      | none => .error .cantCoerce
  | .int n | .date n | .time n | .dateTime n => .ok (.int n)

/-- A value as a date: an integer counts days, and a string may spell a
moment, whose time of day is dropped. -/
def toDate (separators : Separators) : Value → Result Value
  | .int n =>
      if n < 0 then .error .tooLow
      else if fits32 n then .ok (.date n) else .error .tooHigh
  | .str s =>
      match DateLiteral.readAll? separators s.toList with
      | some literal => .ok (.date literal.day)
      | none => .error .cantCoerce
  | .dateTime moment => do .ok (.date (← dayOfMoment moment))
  | .date day => .ok (.date day)
  | .time _ => .error .cantCoerce

/-- A value as a time of day: an integer counts minutes, days apart. -/
def toTime (separators : Separators) : Value → Result Value
  | .int n | .dateTime n => .ok (.timeOfDay n)
  | .str s =>
      match readClock separators s.toList with
      | some minutes => .ok (.time minutes)
      | none => .error .cantCoerce
  | .time minutes => .ok (.time minutes)
  | .date _ => .error .cantCoerce

/-- A value as a moment: an integer counts minutes, and a date stands for its
first minute. -/
def toDateTime (separators : Separators) : Value → Result Value
  | .int n => .ok (.dateTime n)
  | .date day => .ok (.momentOf day 0)
  | .str s =>
      match DateLiteral.readAll? separators s.toList with
      | some { day, time := some minute } => .ok (.momentOf day minute)
      | _ => .error .cantCoerce
  | .dateTime moment => .ok (.dateTime moment)
  | .time _ => .error .cantCoerce

/-- A value as one of the wanted kind. -/
def coerce (separators : Separators) (kind : ValueKind) (v : Value) : Result Value :=
  match kind with
  | .int => v.toInt
  | .str => .ok (.str (v.written separators))
  | .date => v.toDate separators
  | .time => v.toTime separators
  | .dateTime => v.toDateTime separators

/-- A value that is of the wanted kind already stays as it is. -/
theorem coerce_kind (separators : Separators) (v : Value) :
    v.coerce separators v.kind = .ok v := by
  cases v <;> rfl

end Value

end ReminderExpr
