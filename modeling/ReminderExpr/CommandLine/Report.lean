/-
ReminderExpr.CommandLine.Report — what a run of the program prints.

A run is a function of the arguments, the host and the bytes of standard
input. Its lines go to standard output or to standard error; a failure is
reported and the run goes on with the next action.

* `Run.action` — one action, after those before it.
* `Run.lines` — the lines of standard input, up to one that cannot be read.
* `report` — a whole run: its lines, and whether nothing failed.
* `execute` — the same from the arguments as given, with the exit code.
-/
import ReminderExpr.CommandLine.Options
import ReminderExpr.Interpreter

namespace ReminderExpr.CommandLine

/-- A line printed to standard output or to standard error. -/
inductive Line
  | out (text : String)
  | err (text : String)
  deriving DecidableEq, Repr

/-- The line of a failure. -/
def failureLine (e : EvalError) : Line :=
  .err ("error[" ++ Text.decimal e.code ++ "]: " ++ e.message)

/-- The lines of a text, without the line feeds that end them. -/
def splitLines : List UInt8 → List (List UInt8)
  | [] => []
  | b :: bytes =>
      if b = 10 then [] :: splitLines bytes
      else match splitLines bytes with
        | [] => [[b]]
        | line :: rest => (b :: line) :: rest

/-- The text of a line, if its bytes are UTF-8. -/
def decode? (line : List UInt8) : Option String := String.fromUTF8? ⟨line.toArray⟩

/-- The state of a run between its actions. -/
structure Run where
  environment : Environment := {}
  functions : UserFunctions := {}
  interpreter : Interpreter := {}
  /-- The lines of standard input that have not been read. -/
  input : List (List UInt8) := []
  /-- What has been printed, the last line first. -/
  printed : List Line := []
  ok : Bool := true

namespace Run

/-- The run after a line is printed. -/
def print (r : Run) (line : Line) : Run := { r with printed := line :: r.printed }

/-- The run after lines are printed that report a failure. -/
def fail (r : Run) (lines : List Line) : Run :=
  { r with printed := lines.reverse ++ r.printed, ok := false }

/-- A user function defined. -/
def define (r : Run) (d : Definition) : Run :=
  match r.functions.define d.name d.parameters d.body with
  | .ok functions => { r with functions }
  | .error e => r.fail [.err ("in definition of " ++ d.name ++ ":"), failureLine e]

/-- The value of an expression printed. -/
def eval (r : Run) (expr : String) : Run :=
  let (result, interpreter) := r.interpreter.evaluateText r.environment r.functions expr
  let r := { r with interpreter }
  match result with
  | .ok v => r.print (.out (v.shown r.environment.host.separators))
  | .error e => r.fail [failureLine e]

/-- A value stored under a name: in a system variable if it starts with `$`. -/
def store (environment : Environment) (name : String) (v : Value) : Result Environment :=
  match name.toList with
  | '$' :: rest => environment.setSystemVariable (String.ofList rest) v
  | _ => do .ok { environment with globals := ← environment.globals.set name v }

/-- The value of an expression stored under a name. -/
def set (r : Run) (name expr : String) : Run :=
  let (result, interpreter) := r.interpreter.evaluateText r.environment r.functions expr
  let r := { r with interpreter }
  match result >>= store r.environment name with
  | .ok environment => { r with environment }
  | .error e => r.fail [.err ("in --set " ++ name ++ ":"), failureLine e]

/-- A line of standard input: blank lines and comments are passed over. -/
def line (r : Run) (text : String) : Run :=
  match Text.trim text.toList with
  | [] => r
  | '#' :: _ => r
  | expr => r.eval (String.ofList expr)

/-- The lines of standard input that are left, up to one that is not UTF-8. -/
def lines (r : Run) : List (List UInt8) → Run
  | [] => { r with input := [] }
  | bytes :: rest =>
      match decode? bytes with
      | some text => (r.line text).lines rest
      | none =>
          { r.fail [.err "error: reading stdin: stream did not contain valid UTF-8"] with
            input := rest }

/-- One action. -/
def action (r : Run) : Action → Run
  | .set name expr => r.set name expr
  | .eval expr => r.eval expr
  | .stdin => r.lines r.input

/-- A line per variable: its name, its value, and whether it is protected. -/
def variableLines (r : Run) : List Line :=
  r.environment.globals.entries.map fun v =>
    .out (SystemVariables.alignedLeft Name.significantLength v.name ++ "  "
      ++ v.value.shown r.environment.host.separators
      ++ if v.preserved then " (preserved)" else "")

/-- A line per system variable. -/
def systemVariableLines (r : Run) : List Line :=
  (r.environment.systemVariables.listing r.environment.host).map .out

end Run

/-- The lines that a run prints, and whether nothing failed. -/
def report (host : HostState) (o : Options) (input : List UInt8) : List Line × Bool :=
  let r : Run := { environment := { host }, input := splitLines input }
  let r := o.definitions.foldl Run.define r
  let r := o.actions.foldl Run.action r
  (r.printed.reverse
    ++ (if o.dumpVars then r.variableLines else [])
    ++ (if o.dumpSysvars then r.systemVariableLines else []), r.ok)

/-- The lines that explain the arguments. -/
def usage : List String :=
  ["Usage: remc [options] EXPR...",
   "",
   "Evaluates each EXPR in order and prints its value.",
   "",
   "Options:",
   "  --set NAME=EXPR        Evaluate EXPR and assign it to variable NAME",
   "  --def NAME(A,B)=BODY   Define a user function",
   "  --dump-vars            Print all variables when done",
   "  --dump-sysvars         Print all system variables when done",
   "  -                      Read expressions from stdin, one per line",
   "  -h, --help             Show this help"]

/-- The lines that the program prints, and its exit code: 0 if nothing
failed, 1 if something did, 2 if the arguments cannot be read. -/
def execute (host : HostState) (args : List String) (input : List UInt8) : List Line × UInt32 :=
  match Options.parse args with
  | .error message =>
      ([.err ("error: " ++ message), .err "Run `remc --help` for usage."], 2)
  | .ok none => (usage.map .out, 0)
  | .ok (some o) =>
      let (lines, ok) := report host o input
      (lines, if ok then 0 else 1)

/-- What the lines put on standard output. -/
def stdoutOf (lines : List Line) : String :=
  String.join (lines.map fun line => match line with
    | .out text => text ++ "\n"
    | .err _ => "")

/-- What the lines put on standard error. -/
def stderrOf (lines : List Line) : String :=
  String.join (lines.map fun line => match line with
    | .err text => text ++ "\n"
    | .out _ => "")

end ReminderExpr.CommandLine
