/-
ReminderExpr.Builtin.Strings — what the functions on strings compute.

Lengths and positions count characters, and positions count from 1. A range
of positions is cut to the string, so that every pair of integers names one.
-/
import ReminderExpr.Value
import ReminderExpr.Text.Decimal

namespace ReminderExpr.Strings

/-- The character of a code from -128 to 255. Negative codes name the
characters from 128 on, as signed bytes do. -/
def charOfCode (code : Int) : Result Char :=
  if code < -128 then .error .tooLow
  else if code > 255 then .error .tooHigh
  else .ok (Char.ofNat (code % 256).toNat)

/-- The characters of several codes, none of which may be 0. -/
def charsOfCodes : List Value → Result (List Char)
  | [] => .ok []
  | v :: rest => do
      let code ← v.asInt
      if code = 0 then .error .tooLow
      else do
        let c ← charOfCode code
        let cs ← charsOfCodes rest
        .ok (c :: cs)

/-- The string of a list of codes; a single 0 gives the empty string. -/
def stringOfCodes : List Value → Result String
  | [v] => do
      let code ← v.asInt
      let c ← charOfCode code
      .ok (if code = 0 then "" else c.toString)
  | vs => do .ok (String.ofList (← charsOfCodes vs))

/-- How many characters stand before a position, within a text. -/
def before (position : Int) (cs : List Char) : Nat := min (position - 1).toNat cs.length

/-- The characters from a position on. -/
def charsFrom (start : Int) (cs : List Char) : List Char := cs.drop (before start cs)

/-- The characters from one position to another, both included. -/
def charsBetween (start stop : Int) (cs : List Char) : List Char :=
  (cs.take stop.toNat).drop (before start cs)

/-- How many characters of a text stand before the first occurrence of
another. -/
def firstOccurrence? (needle text : List Char) : Option Nat :=
  let slice := (String.ofList text).toSlice
  (slice.find? (String.ofList needle)).map fun found => (slice.sliceTo found).copy.length

/-- The position of the first occurrence at or after a position; 0 if there
is none. -/
def indexFrom (haystack needle : List Char) (start : Int) : Int :=
  match firstOccurrence? needle (charsFrom start haystack) with
  | some passed => before start haystack + passed + 1
  | none => 0

/-- An integer with the ending of its English ordinal. -/
def ordinal (n : Int) : String :=
  let tens := n.natAbs % 100
  let ending :=
    if tens % 10 = 1 ∧ tens ≠ 11 then "st"
    else if tens % 10 = 2 ∧ tens ≠ 12 then "nd"
    else if tens % 10 = 3 ∧ tens ≠ 13 then "rd"
    else "th"
  Text.decimal n ++ ending

end ReminderExpr.Strings
