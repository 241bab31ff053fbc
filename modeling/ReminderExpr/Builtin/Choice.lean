/-
ReminderExpr.Builtin.Choice — the functions that pick one of their arguments.

`iifOf` walks pairs of a condition and a value up to the first true condition
and takes out the value at the place that it has come to; `extreme` keeps the
leftmost of the greatest, or least, of values of one kind; `chosen` picks by
number.
-/
import ReminderExpr.Value

namespace ReminderExpr.Choice

/-- The truth of a condition: an integer other than 0, or a string with a
character in it. -/
def truth : Value → Result Bool
  | .int n => .ok (n != 0)
  | .str s => .ok (s != "")
  | _ => .error .badType

/-- The place of the value after the first true condition, or `last` if no
condition is true; `pairs` is how many pairs of a condition and a value have
been passed over. Conditions after the first true one are not looked at. -/
def pickedPlace (last pairs : Nat) : List Value → Result Nat
  | condition :: _ :: rest => do
      if ← truth condition then .ok (pairs * 2 + 1) else pickedPlace last (pairs + 1) rest
  | _ => .ok last

/-- The value at a place, and the list without it, where the last value has
moved to that place. -/
def swapRemove? (values : List Value) (place : Nat) : Option (Value × List Value) := do
  let v ← values[place]?
  let last ← values.getLast?
  some (v, (values.set place last).dropLast)

/-- The value at a place that has been computed, if the list has such a place. -/
def takeOut? (values : List Value) : Result Nat → Option (Result Value)
  | .error e => some (.error e)
  | .ok place => (swapRemove? values place).map fun (v, _) => .ok v

/-- The first true choice among an odd number of arguments. -/
def iifOf (args : List Value) : Option (Result Value) :=
  if args.length % 2 = 0 then some (.error .iifOdd)
  else takeOut? args (pickedPlace (args.length - 1) 0 args)

/-- The extreme of `best` and the values after it: a value replaces the best
so far if it stands to it as `wanted`. -/
def extremeFrom (wanted : Ordering) (best : Value) : List Value → Result Value
  | [] => .ok best
  | v :: rest =>
      if v.kind ≠ best.kind then .error .badType
      else extremeFrom wanted (if v.order best = wanted then v else best) rest

/-- The extreme of a list of values of one kind. -/
def extreme (wanted : Ordering) : List Value → Option (Result Value)
  | [] => none
  | v :: rest => some (extremeFrom wanted v rest)

/-- The value of a number that counts from 1; numbers outside the list count
as the nearest one inside. -/
def chosen (n : Int) (values : List Value) : Option Value :=
  values[min (n - 1).toNat (values.length - 1)]?

end ReminderExpr.Choice
