/-
ReminderExpr.NameTable — look-up in a table sorted by name.

Operators, built-in functions and system variables each live in an array
whose entries increase by name, case apart (`IsSorted`). `position` finds the
entry of a name by halving the range where it can stand, and `find?` gives
the entry itself. Both ignore the case of ASCII letters.
-/
import ReminderExpr.Name

namespace ReminderExpr.NameTable

variable {α : Type}

/-- Whether each entry's name is greater than the name of the one before it. -/
def isSorted (nameOf : α → String) : List α → Bool
  | a :: b :: rest =>
      Name.compareIgnoreCase (nameOf a) (nameOf b) == .lt && isSorted nameOf (b :: rest)
  | _ => true

/-- The place of `name` among the entries from `low` up to, not including,
`high`. Each of the `rounds` at least halves that range. -/
def positionBetween (nameOf : α → String) (table : Array α) (name : String) :
    (rounds low high : Nat) → Option Nat
  | 0, _, _ => none
  | rounds + 1, low, high =>
      if low < high then
        let middle := low + (high - low) / 2
        match table[middle]? with
        | none => none
        | some entry =>
            match Name.compareIgnoreCase (nameOf entry) name with
            | .eq => some middle
            | .lt => positionBetween nameOf table name rounds (middle + 1) high
            | .gt => positionBetween nameOf table name rounds low middle
      else none

/-- The place of the entry called `name`. A range of `n` entries is empty
after at most `n` halvings, so `n` rounds are enough. -/
def position (nameOf : α → String) (table : Array α) (name : String) : Option Nat :=
  positionBetween nameOf table name table.size 0 table.size

/-- The entry called `name`. -/
def find? (nameOf : α → String) (table : Array α) (name : String) : Option α :=
  (position nameOf table name).bind fun i => table[i]?

end ReminderExpr.NameTable
