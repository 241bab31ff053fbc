/-
ReminderExpr.SystemVariables — the variables whose names start with `$`.

Every system variable has an entry in `SystemVariable.table`: its name
without the `$`, its kind, whether scripts may assign it, and the bounds of
its integers. Most are stored: they start from a value and read as what was
assigned last. The others are views of the host state (`Special`).

* `SystemVariables.get` — the value of a name.
* `SystemVariables.set` — an assignment by a script; it is checked for the
  name, the kind, the right to assign and the bounds, in this order.
* `SystemVariables.hostSet` — an assignment by the host, which is bound by
  neither the right to assign nor the bounds but cannot write views.
* `SystemVariables.listing` — one line per entry.
-/
import ReminderExpr.Host
import ReminderExpr.NameTable

namespace ReminderExpr

/-- The views of the host state. -/
inductive Special
  | dateSep | timeSep | maxStringLen | runOff
  | trigDate | trigDay | trigMonth | trigWeekday | trigYear
  | today | todayDay | todayMonth | todayWeekday | todayYear
  deriving DecidableEq, Repr

namespace Special

/-- The value that a view shows. -/
def read (host : HostState) : Special → Value
  | dateSep => .str host.separators.date.toString
  | timeSep => .str host.separators.time.toString
  | maxStringLen => .int host.maxStringLength
  | runOff => .ofBool host.runDisabled
  | trigDate => .date host.trigger.day
  | trigDay => .int (Calendar.CivilDate.ofDay host.trigger.day).day
  | trigMonth => .int (Calendar.CivilDate.ofDay host.trigger.day).month
  | trigWeekday => .int (Calendar.weekdayFromSunday host.trigger.day)
  | trigYear => .int (Calendar.CivilDate.ofDay host.trigger.day).year
  | today => .date host.today
  | todayDay => .int (Calendar.CivilDate.ofDay host.today).day
  | todayMonth => .int (Calendar.CivilDate.ofDay host.today).month
  | todayWeekday => .int (Calendar.weekdayFromSunday host.today)
  | todayYear => .int (Calendar.CivilDate.ofDay host.today).year

/-- The character of a string of one character, if it is one of `allowed`. -/
def separator (allowed : List Char) : Value → Result Char
  | .str s =>
      match s.toList with
      | [c] => if allowed.contains c then .ok c else .error .badType
      | _ => .error .badType
  | _ => .error .badType

/-- The host state after a view is written; most views cannot be. -/
def write (host : HostState) (value : Value) : Special → Result HostState
  | dateSep => do
      let c ← separator ['/', '-'] value
      .ok { host with separators := { host.separators with date := c } }
  | timeSep => do
      let c ← separator [':', '.'] value
      .ok { host with separators := { host.separators with time := c } }
  | maxStringLen => do
      let n ← value.asInt
      .ok { host with maxStringLength := n }
  | _ => .error .badType

end Special

/-- Where the value of an entry comes from. -/
inductive Access
  /-- Stored, from this integer on. -/
  | int (initial : Int)
  /-- Stored, from this string on. -/
  | str (initial : String)
  /-- A view of the host state. -/
  | special (view : Special)
  deriving DecidableEq, Repr

/-- An entry of the table. -/
structure SystemVariable where
  name : String
  kind : ValueKind
  access : Access
  /-- Whether scripts may assign it. -/
  modifiable : Bool := false
  /-- The least integer that scripts may assign. -/
  min : Option Int := none
  /-- The greatest integer that scripts may assign. -/
  max : Option Int := none
  deriving DecidableEq, Repr

namespace SystemVariable

/-- A stored integer that scripts may assign within bounds. -/
def setting (name : String) (initial : Int) (min max : Option Int) : SystemVariable :=
  { name, kind := .int, access := .int initial, modifiable := true, min, max }

/-- A stored counter or mode that only the host changes. -/
def flag (name : String) : SystemVariable :=
  { name, kind := .int, access := .int 0 }

/-- A stored string that scripts may assign. -/
def text (name initial : String) : SystemVariable :=
  { name, kind := .str, access := .str initial, modifiable := true }

/-- A view that scripts may only read. -/
def view (name : String) (kind : ValueKind) (special : Special) : SystemVariable :=
  { name, kind, access := .special special }

/-- The system variables, by increasing name. -/
def table : Array SystemVariable := #[
  setting "CalcUTC" 1 (some 0) (some 1),
  flag "CalMode",
  flag "Daemon",
  { view "DateSep" .str .dateSep with modifiable := true },
  setting "DefaultPrio" 5000 (some 0) (some 9999),
  flag "DontFork",
  flag "DontQueue",
  flag "DontTrigAts",
  text "EndSent" ".?!",
  text "EndSentIg" "\"')]\x7d>",
  setting "FirstIndent" 0 (some 0) (some 132),
  setting "FoldYear" 0 (some 0) (some 1),
  setting "FormWidth" 72 (some 20) (some 132),
  flag "HushMode",
  flag "IgnoreOnce",
  flag "InfDelta",
  setting "LatDeg" 45 (some (-90)) (some 90),
  setting "LatMin" 24 (some (-59)) (some 59),
  setting "LatSec" 0 (some (-59)) (some 59),
  text "Location" "Ottawa",
  setting "LongDeg" 75 (some (-180)) (some 180),
  setting "LongMin" 39 (some (-59)) (some 59),
  setting "LongSec" 0 (some (-59)) (some 59),
  setting "MaxSatIter" 150 (some 10) none,
  { view "MaxStringLen" .int .maxStringLen with modifiable := true, min := some (-1) },
  setting "MinsFromUTC" 0 (some (-780)) (some 780),
  flag "NextMode",
  flag "NumQueued",
  flag "NumTrig",
  flag "PSCal",
  view "RunOff" .int .runOff,
  flag "SimpleCal",
  flag "SortByDate",
  flag "SortByPrio",
  flag "SortByTime",
  setting "SubsIndent" 0 (some 0) (some 132),
  view "T" .date .trigDate,
  view "Td" .int .trigDay,
  { view "TimeSep" .str .timeSep with modifiable := true },
  view "Tm" .int .trigMonth,
  view "Tw" .int .trigWeekday,
  view "Ty" .int .trigYear,
  view "U" .date .today,
  view "Ud" .int .todayDay,
  view "Um" .int .todayMonth,
  view "Uw" .int .todayWeekday,
  view "Uy" .int .todayYear]

/-- The entry of a name. -/
def find? (name : String) : Option SystemVariable :=
  NameTable.find? SystemVariable.name table name

/-- Why a value may not be assigned by a script, if it may not; `name` is the
spelling under which the variable was addressed. -/
def refusal? (v : SystemVariable) (name : String) (value : Value) : Option EvalError :=
  if value.kind ≠ v.kind then some .badType
  else if !v.modifiable then some (.cantModify name)
  else match value with
    | .int n =>
        if v.max.any (· < n) then some .tooHigh
        else if v.min.any (n < ·) then some .tooLow
        else none
    | _ => none

end SystemVariable

/-- The values that stored system variables have been assigned, by the names
of their entries. -/
structure SystemVariables where
  assigned : List (String × Value) := []
  deriving DecidableEq, Repr

namespace SystemVariables

/-- The value of an entry. -/
def valueOf (vars : SystemVariables) (host : HostState) (v : SystemVariable) : Value :=
  match v.access with
  | .special view => view.read host
  | .int initial => (vars.assigned.lookup v.name).getD (.int initial)
  | .str initial => (vars.assigned.lookup v.name).getD (.str initial)

/-- A stored entry with another value. -/
def store (vars : SystemVariables) (v : SystemVariable) (value : Value) : SystemVariables :=
  { assigned := (v.name, value) :: vars.assigned.filter fun (name, _) => name != v.name }

/-- The value of a name. -/
def get (vars : SystemVariables) (host : HostState) (name : String) : Result Value :=
  match SystemVariable.find? name with
  | none => .error (.noSuchVariable name)
  | some v => .ok (vars.valueOf host v)

/-- An assignment by a script; it changes the stored values or the host. -/
def set (vars : SystemVariables) (host : HostState) (name : String) (value : Value) :
    Result (SystemVariables × HostState) :=
  match SystemVariable.find? name with
  | none => .error (.noSuchVariable name)
  | some v =>
      match v.refusal? name value with
      | some e => .error e
      | none =>
          match v.access with
          | .special view => do .ok (vars, ← view.write host value)
          | _ => .ok (vars.store v value, host)

/-- An assignment by the host. -/
def hostSet (vars : SystemVariables) (name : String) (value : Value) :
    Result SystemVariables :=
  match SystemVariable.find? name with
  | none => .error (.noSuchVariable name)
  | some v =>
      if value.kind ≠ v.kind then .error .badType
      else match v.access with
        | .special _ => .error (.cantModify name)
        | _ => .ok (vars.store v value)

/-- A text with blanks before it, up to a width. -/
def alignedRight (width : Nat) (s : String) : String :=
  String.ofList (List.replicate (width - s.length) ' ') ++ s

/-- A text with blanks after it, up to a width. -/
def alignedLeft (width : Nat) (s : String) : String :=
  s ++ String.ofList (List.replicate (width - s.length) ' ')

/-- The line of an entry: its name and value and, for an integer that scripts
may assign, the bounds. -/
def line (vars : SystemVariables) (host : HostState) (v : SystemVariable) : String :=
  let label := alignedRight Name.significantLength ("$" ++ v.name)
  let shown := (vars.valueOf host v).shown host.separators
  if v.modifiable && v.kind == .int then
    let low := match v.min with
      | none => "(-Inf"
      | some n => "[" ++ Text.decimal n
    let high := match v.max with
      | none => "Inf)"
      | some n => Text.decimal n ++ "]"
    label ++ "  " ++ alignedLeft 10 shown ++ "  " ++ low ++ ", " ++ high
  else label ++ "  " ++ shown

/-- A line per entry, in the order of the table. -/
def listing (vars : SystemVariables) (host : HostState) : List String :=
  SystemVariable.table.toList.map (vars.line host)

end SystemVariables

/-- The names of system variables increase along their table. -/
theorem SystemVariable.isSorted_table :
    NameTable.isSorted SystemVariable.name SystemVariable.table.toList = true := by
  decide +kernel

end ReminderExpr
