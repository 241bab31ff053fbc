/-
ReminderExpr.Host — what an expression can learn about its surroundings.

The host moves the clocks, computes triggers and reads files between
evaluations; expressions see a snapshot, `HostState`.
-/
import ReminderExpr.Operator.Arithmetic

namespace ReminderExpr

/-- The trigger computed last. -/
structure Trigger where
  day : Int := 0
  /-- Minutes past midnight. -/
  time : Int := 0
  valid : Bool := false
  deriving DecidableEq, Repr

/-- A snapshot of the surroundings. -/
structure HostState where
  /-- The day being processed, which need not be the real one. -/
  today : Int := 0
  realToday : Int := 0
  /-- Minutes past midnight of the day being processed. -/
  now : Int := 0
  realNow : Int := 0
  trigger : Trigger := {}
  separators : Separators := {}
  /-- The longest string, in bytes, that `+` may build; none if not positive. -/
  maxStringLength : Int := 65535
  /-- The file being read; empty for standard input. -/
  fileName : String := ""
  /-- Whether running other programs is forbidden. -/
  runDisabled : Bool := false
  /-- The variables of the process, by name. -/
  processVariables : List (String × String) := []
  deriving DecidableEq, Repr

/-- The days from 1970-01-01 to day 0. -/
def daysBeforeBase : Nat := 7305

/-- The host state at a number of seconds after 1970-01-01 0:00, in universal
time. Both clocks show it; a day before day 0 is taken for day 0. -/
def HostState.atSeconds (seconds : Nat) : HostState :=
  let today : Nat := min (seconds / 86400 - daysBeforeBase) 0x7fffffff
  let now : Nat := seconds % 86400 / 60
  { today, realToday := today, now, realNow := now }

/-- What arithmetic takes from the host. -/
def HostState.arithmetic (host : HostState) : ArithmeticSettings where
  separators := host.separators
  maxStringLength := if 0 < host.maxStringLength then some host.maxStringLength.toNat else none

/-- The clocks start on a day that is not before day 0. -/
theorem HostState.today_atSeconds_nonneg (seconds : Nat) :
    0 ≤ (HostState.atSeconds seconds).today :=
  Int.natCast_nonneg _

end ReminderExpr
