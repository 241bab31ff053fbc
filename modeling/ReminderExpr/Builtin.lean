/-
ReminderExpr.Builtin — the functions that every expression can call.

`Builtin.signature` gives each one its name, how many arguments it accepts
and whether it is constant, that is, whether its value depends on its
arguments alone. `Builtin.table` increases by name, so that
`Builtin.ofName?` finds every function in any case of its letters.
-/
import ReminderExpr.EvalError
import ReminderExpr.NameTable

namespace ReminderExpr

/-- The functions that every expression can call. -/
inductive Builtin
  | abs | args | asc | baseyr | char | choose | coerce | date | datetime | day | daysinmon
  | defined | easterdate | filedir | filename | getenv | hour | iif | index | isleap | language
  | lower | max | min | minute | mon | monnum | now | ord | ostype | plural | realnow | realtoday
  | sgn | strlen | substr | time | today | trigdate | trigger | trigtime | trigvalid | typeof
  | upper | value | version | wkday | wkdaynum | year
  deriving DecidableEq, Repr

/-- How a function is called. -/
structure Signature where
  name : String
  /-- The least number of arguments. -/
  minArgs : Nat
  /-- The greatest number of arguments; `none` sets no limit. -/
  maxArgs : Option Nat
  /-- Whether the value depends on the arguments alone. -/
  constant : Bool := true
  deriving DecidableEq, Repr

/-- Why a number of arguments is refused, if it is. -/
def Signature.checkArity (s : Signature) (count : Nat) : Result Unit :=
  if count < s.minArgs then .error .tooFewArgs
  else if s.maxArgs.any (· < count) then .error .tooManyArgs
  else .ok ()

namespace Builtin

def signature : Builtin → Signature
  | abs => { name := "abs", minArgs := 1, maxArgs := some 1 }
  | args => { name := "args", minArgs := 1, maxArgs := some 1, constant := false }
  | asc => { name := "asc", minArgs := 1, maxArgs := some 1 }
  | baseyr => { name := "baseyr", minArgs := 0, maxArgs := some 0 }
  | char => { name := "char", minArgs := 1, maxArgs := none }
  | choose => { name := "choose", minArgs := 2, maxArgs := none }
  | coerce => { name := "coerce", minArgs := 2, maxArgs := some 2 }
  | date => { name := "date", minArgs := 3, maxArgs := some 3 }
  | datetime => { name := "datetime", minArgs := 2, maxArgs := some 5 }
  | day => { name := "day", minArgs := 1, maxArgs := some 1 }
  | daysinmon => { name := "daysinmon", minArgs := 2, maxArgs := some 2 }
  | defined => { name := "defined", minArgs := 1, maxArgs := some 1, constant := false }
  | easterdate => { name := "easterdate", minArgs := 1, maxArgs := some 1 }
  | filedir => { name := "filedir", minArgs := 0, maxArgs := some 0, constant := false }
  | filename => { name := "filename", minArgs := 0, maxArgs := some 0, constant := false }
  | getenv => { name := "getenv", minArgs := 1, maxArgs := some 1, constant := false }
  | hour => { name := "hour", minArgs := 1, maxArgs := some 1 }
  | iif => { name := "iif", minArgs := 1, maxArgs := none }
  | index => { name := "index", minArgs := 2, maxArgs := some 3 }
  | isleap => { name := "isleap", minArgs := 1, maxArgs := some 1 }
  | language => { name := "language", minArgs := 0, maxArgs := some 0 }
  | lower => { name := "lower", minArgs := 1, maxArgs := some 1 }
  | max => { name := "max", minArgs := 1, maxArgs := none }
  | min => { name := "min", minArgs := 1, maxArgs := none }
  | minute => { name := "minute", minArgs := 1, maxArgs := some 1 }
  | mon => { name := "mon", minArgs := 1, maxArgs := some 1 }
  | monnum => { name := "monnum", minArgs := 1, maxArgs := some 1 }
  | now => { name := "now", minArgs := 0, maxArgs := some 0, constant := false }
  | ord => { name := "ord", minArgs := 1, maxArgs := some 1 }
  | ostype => { name := "ostype", minArgs := 0, maxArgs := some 0 }
  | plural => { name := "plural", minArgs := 1, maxArgs := some 3 }
  | realnow => { name := "realnow", minArgs := 0, maxArgs := some 0, constant := false }
  | realtoday => { name := "realtoday", minArgs := 0, maxArgs := some 0, constant := false }
  | sgn => { name := "sgn", minArgs := 1, maxArgs := some 1 }
  | strlen => { name := "strlen", minArgs := 1, maxArgs := some 1 }
  | substr => { name := "substr", minArgs := 2, maxArgs := some 3 }
  | time => { name := "time", minArgs := 2, maxArgs := some 2 }
  | today => { name := "today", minArgs := 0, maxArgs := some 0, constant := false }
  | trigdate => { name := "trigdate", minArgs := 0, maxArgs := some 0, constant := false }
  | trigger => { name := "trigger", minArgs := 1, maxArgs := some 3, constant := false }
  | trigtime => { name := "trigtime", minArgs := 0, maxArgs := some 0, constant := false }
  | trigvalid => { name := "trigvalid", minArgs := 0, maxArgs := some 0, constant := false }
  | typeof => { name := "typeof", minArgs := 1, maxArgs := some 1 }
  | upper => { name := "upper", minArgs := 1, maxArgs := some 1 }
  | value => { name := "value", minArgs := 1, maxArgs := some 2, constant := false }
  | version => { name := "version", minArgs := 0, maxArgs := some 0 }
  | wkday => { name := "wkday", minArgs := 1, maxArgs := some 1 }
  | wkdaynum => { name := "wkdaynum", minArgs := 1, maxArgs := some 1 }
  | year => { name := "year", minArgs := 1, maxArgs := some 1 }

def name (b : Builtin) : String := b.signature.name

/-- The functions by name. -/
def table : Array Builtin :=
  #[abs, args, asc, baseyr, char, choose, coerce, date, datetime, day, daysinmon, defined,
    easterdate, filedir, filename, getenv, hour, iif, index, isleap, language, lower, max, min,
    minute, mon, monnum, now, ord, ostype, plural, realnow, realtoday, sgn, strlen, substr, time,
    today, trigdate, trigger, trigtime, trigvalid, typeof, upper, value, version, wkday, wkdaynum,
    year]

/-- The function of a name. -/
def ofName? (name : String) : Option Builtin := NameTable.find? Builtin.name table name

/-- The names of functions increase along their table. -/
theorem isSorted_table : NameTable.isSorted Builtin.name table.toList = true := by
  decide +kernel

/-- Every function is in the table. -/
theorem mem_table (b : Builtin) : b ∈ table.toList := by
  cases b <;> decide

end Builtin

end ReminderExpr
