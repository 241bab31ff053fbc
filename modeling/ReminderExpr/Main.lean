/-
ReminderExpr.Main — the program: evaluates the expressions among its
arguments and prints their values.

All that it does is decided by `CommandLine.execute`; here the clock, the
variables of the process and standard input are read, and the lines printed.
-/
import ReminderExpr.CommandLine.Report
import Std.Time.DateTime.Timestamp

namespace ReminderExpr.CommandLine

/-- The variables of the process in the form in which the system lists them:
`NAME=VALUE`, each ended by a zero byte. -/
def parseProcessVariables (bytes : List UInt8) : List (String × String) :=
  let entries := (bytes.splitBy fun a b => a != 0 && b != 0).filterMap decode?
  entries.filterMap fun entry =>
    (splitOnce '=' entry.toList).map fun (name, value) =>
      (String.ofList name, String.ofList value)

/-- The variables of the process; none where the system does not list them. -/
def readProcessVariables : IO (List (String × String)) := do
  try
    return parseProcessVariables (← IO.FS.readBinFile "/proc/self/environ").toList
  catch _ => return []

/-- Everything on standard input. -/
def readInput : IO (List UInt8) := do
  let stdin ← IO.getStdin
  return (← IO.FS.Stream.readBinToEnd stdin).toList

/-- The lines printed where they belong, in order. -/
def printLines (lines : List Line) : IO Unit :=
  for line in lines do
    match line with
    | .out text => IO.println text
    | .err text => IO.eprintln text

/-- Whether the arguments ask for standard input. -/
def readsInput (args : List String) : Bool :=
  match Options.parse args with
  | .ok (some o) => o.actions.contains .stdin
  | _ => false

/-- The program with its arguments; the result is its exit code. -/
def runProgram (args : List String) : IO UInt32 := do
  let clock ← Std.Time.Timestamp.now
  let host := { HostState.atSeconds clock.toSecondsSinceUnixEpoch.val.toNat with
    processVariables := ← readProcessVariables }
  let input ← if readsInput args then readInput else pure []
  let (lines, code) := execute host args input
  printLines lines
  return code

end ReminderExpr.CommandLine

def main (args : List String) : IO UInt32 := ReminderExpr.CommandLine.runProgram args
