/-
ReminderExpr.Separators — the characters between the parts of dates and times.

Writing uses the configured characters. Reading also takes `/` and `-`
between the parts of a date, and `:` and `.` between hours and minutes.
-/
namespace ReminderExpr

/-- The configured separators of dates and of times of day. -/
structure Separators where
  date : Char := '/'
  time : Char := ':'
  deriving DecidableEq, Repr

namespace Separators

/-- Whether a character separates the parts of a date when read. -/
def isDateSeparator (separators : Separators) (c : Char) : Bool :=
  c == '/' || c == '-' || c == separators.date

/-- Whether a character separates hours from minutes when read. -/
def isTimeSeparator (separators : Separators) (c : Char) : Bool :=
  c == ':' || c == '.' || c == separators.time

theorem isDateSeparator_self (separators : Separators) :
    separators.isDateSeparator separators.date = true := by
  simp [isDateSeparator]

theorem isTimeSeparator_self (separators : Separators) :
    separators.isTimeSeparator separators.time = true := by
  simp [isTimeSeparator]

end Separators

end ReminderExpr
