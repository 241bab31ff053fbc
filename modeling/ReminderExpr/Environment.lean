/-
ReminderExpr.Environment — all that outlasts an evaluation: the variables of
the script, the system variables and the host behind them.
-/
import ReminderExpr.Variables
import ReminderExpr.SystemVariables

namespace ReminderExpr

/-- All that outlasts an evaluation. -/
structure Environment where
  globals : Variables := {}
  systemVariables : SystemVariables := {}
  host : HostState := {}
  deriving DecidableEq, Repr

namespace Environment

/-- The value of a system variable, named without its `$`. -/
def systemVariable (env : Environment) (name : String) : Result Value :=
  env.systemVariables.get env.host name

/-- A system variable, named without its `$`, assigned by a script. -/
def setSystemVariable (env : Environment) (name : String) (value : Value) : Result Environment := do
  let (systemVariables, host) ← env.systemVariables.set env.host name value
  .ok { env with systemVariables, host }

/-- The value of a name that is not local: a system variable if it starts
with `$`, a variable of the script if not. -/
def lookup (env : Environment) (name : String) : Result Value :=
  match name.toList with
  | '$' :: rest => env.systemVariable (String.ofList rest)
  | _ =>
      match env.globals.get? name with
      | some value => .ok value
      | none => .error (.noSuchVariable name)

end Environment

end ReminderExpr
