/-
ReminderExpr.Builtin.Apply — calling a built-in function.

`Builtin.call? env functions b vs` is the outcome of calling `b` with the
arguments `vs`; it is `none` where `b` has no rule for as many arguments as
there are. `Signature.checkArity` refuses those calls beforehand, so that
`Builtin.apply` never needs its fallback.
-/
import ReminderExpr.Builtin
import ReminderExpr.Builtin.Choice
import ReminderExpr.Builtin.Dates
import ReminderExpr.Builtin.Strings
import ReminderExpr.Environment
import ReminderExpr.Text.LetterCase
import ReminderExpr.UserFunctions

namespace ReminderExpr.Builtin

open Choice Dates Strings

/-- What `version` answers. -/
def versionText : String := "0.1.0"

/-- The directory part of a file name; `.` for a name without one. -/
def directoryOf (fileName : String) : String :=
  match fileName.toList.reverse.dropWhile (· != '/') with
  | [] => "."
  | _ :: directory => String.ofList directory.reverse

/-- A variable of the process; the empty string if it is not set. -/
def processVariable (host : HostState) (name : String) : String :=
  (host.processVariables.lookup name).getD ""

/-- The variable of a name, or else what is given for its absence. -/
def variableOr (env : Environment) (name : String) (otherwise : Result Value) : Result Value :=
  match env.globals.get? name with
  | some v => .ok v
  | none => otherwise

/-- A word in the singular or the plural. -/
def inNumber (n : Int) (singular plural : String) : Value :=
  .str (if n = 1 then singular else plural)

/-- The minutes by which a trigger given in universal time is shifted. -/
def utcShift (env : Environment) : Result Int := do
  (← env.systemVariable "MinsFromUTC").asInt

/-- The text of a trigger that may be shifted; `none` if a month has no name. -/
def triggerOf (env : Environment) (day : Int) (minute : Int) (shift : Int) :
    Option (Result Value) :=
  if shift = 0 then (triggerText day (some minute)).map fun s => .ok (.str s)
  else
    match utcShift env >>= shiftClock day minute with
    | .error e => some (.error e)
    | .ok (day, minute) => (triggerText day (some minute)).map fun s => .ok (.str s)

/-- The outcome of a call, where the function has a rule for it. -/
def call? (env : Environment) (functions : UserFunctions) :
    Builtin → List Value → Option (Result Value)
  -- Numbers
  | abs, [v] => some do
      let n ← v.asInt
      if fits64 n.natAbs then .ok (.int n.natAbs) else .error (.integerOverflow .abs)
  | sgn, [v] => some do .ok (.int (← v.asInt).sign)
  -- Choices
  | choose, v :: vs =>
      match v.asInt with
      | .error e => some (.error e)
      | .ok n => (chosen n vs).map .ok
  | iif, vs => iifOf vs
  | max, vs => extreme .gt vs
  | min, vs => extreme .lt vs
  -- Kinds
  | coerce, [kind, v] => some do
      match ValueKind.ofName? (← kind.asString) with
      | none => .error .cantCoerce
      | some kind => v.coerce env.host.separators kind
  | typeof, [v] => some (.ok (.str v.kind.name))
  -- Strings
  | asc, [v] => some do
      match (← v.asString).toList with
      | [] => .ok (.int 0)
      | c :: _ => .ok (.int c.toNat)
  | char, vs => some do .ok (.str (← stringOfCodes vs))
  | strlen, [v] => some do .ok (.int (← v.asString).length)
  | lower, [v] => some do .ok (.str (Text.lower (← v.asString)))
  | upper, [v] => some do .ok (.str (Text.upper (← v.asString)))
  | substr, [v, start] => some do
      let s ← v.asString
      .ok (.str (String.ofList (charsFrom (← start.asInt) s.toList)))
  | substr, [v, start, stop] => some do
      let s ← v.asString
      let start ← start.asInt
      .ok (.str (String.ofList (charsBetween start (← stop.asInt) s.toList)))
  | index, [haystack, needle] => some do
      let haystack ← haystack.asString
      .ok (.int (indexFrom haystack.toList (← needle.asString).toList 1))
  | index, [haystack, needle, start] => some do
      let haystack ← haystack.asString
      let needle ← needle.asString
      .ok (.int (indexFrom haystack.toList needle.toList (← start.asInt)))
  | ord, [v] => some do .ok (.str (ordinal (← v.asInt)))
  | plural, [v] => some do .ok (inNumber (← v.asInt) "" "s")
  | plural, [v, word] => some do
      let n ← v.asInt
      let word ← word.asString
      .ok (inNumber n word (word ++ "s"))
  | plural, [v, one, many] => some do
      let n ← v.asInt
      let one ← one.asString
      .ok (inNumber n one (← many.asString))
  -- Dates and times
  | baseyr, [] => some (.ok (.int Calendar.baseYear))
  | date, [y, m, d] => some do .ok (.date (← dayOfParts y m d))
  | time, [h, m] => some do
      let h ← h.asInt
      .ok (.time (← minutesOfParts h (← m.asInt)))
  | datetime, vs => some (moment vs)
  | day, [v] => some do .ok (.int (← civilOf v).day)
  | monnum, [v] => some do .ok (.int (← civilOf v).month)
  | year, [v] => some do .ok (.int (← civilOf v).year)
  | wkdaynum, [v] => some do .ok (.int (Calendar.weekdayFromSunday (← dayOf v)))
  | wkday, [v] => some do .ok (.str (← weekdayNameOf v))
  | mon, [v] =>
      match monthOf v with
      | .error e => some (.error e)
      | .ok month => (Calendar.monthName month).map fun s => .ok (.str s)
  | hour, [v] => some do .ok (.int ((← minuteOf v).tdiv 60))
  | minute, [v] => some do .ok (.int ((← minuteOf v).tmod 60))
  | daysinmon, [m, y] => some do
      let m ← m.asInt
      .ok (.int (← monthLength m (← y.asInt)))
  | isleap, [v] => some do .ok (.ofBool (← leapYearOf v))
  | easterdate, [v] => some do .ok (.date (← easter v))
  -- The program
  | version, [] => some (.ok (.str versionText))
  | ostype, [] => some (.ok (.str "UNIX"))
  | language, [] => some (.ok (.str "English"))
  -- The host
  | today, [] => some (.ok (.date env.host.today))
  | realtoday, [] => some (.ok (.date env.host.realToday))
  | now, [] => some (.ok (.time env.host.now))
  | realnow, [] => some (.ok (.time env.host.realNow))
  | trigdate, [] => some (.ok (.date env.host.trigger.day))
  | trigtime, [] => some (.ok (.time env.host.trigger.time))
  | trigvalid, [] => some (.ok (.ofBool env.host.trigger.valid))
  | filename, [] => some (.ok (.str env.host.fileName))
  | filedir, [] => some (.ok (.str (directoryOf env.host.fileName)))
  | getenv, [v] => some do .ok (.str (processVariable env.host (← v.asString)))
  | trigger, [d] =>
      match d.asDate with
      | .error e => some (.error e)
      | .ok d => (triggerText d none).map fun s => .ok (.str s)
  | trigger, [d, t] =>
      match d.asDate, t.asTime with
      | .error e, _ | _, .error e => some (.error e)
      | .ok d, .ok t => triggerOf env d t 0
  | trigger, [d, t, shift] =>
      match d.asDate, t.asTime, shift.asInt with
      | .error e, _, _ | _, .error e, _ | _, _, .error e => some (.error e)
      | .ok d, .ok t, .ok shift => triggerOf env d t shift
  -- The script
  | defined, [v] => some do .ok (.ofBool (env.globals.contains (← v.asString)))
  | value, [v] => some do
      let s ← v.asString
      variableOr env s (.error (.noSuchVariable s))
  | value, [v, otherwise] => some do variableOr env (← v.asString) (.ok otherwise)
  | args, [v] => some do
      match functions.arity? (← v.asString) with
      | some n => .ok (.int n)
      | none => .ok (.int (-1))
  | _, _ => none

/-- The outcome of a call. -/
def apply (env : Environment) (functions : UserFunctions) (b : Builtin) (vs : List Value) :
    Result Value :=
  (call? env functions b vs).getD (.error .stackError)

end ReminderExpr.Builtin
