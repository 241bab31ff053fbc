/-
ReminderExpr.Interpreter — evaluating expressions one after another.

An `Interpreter` holds its limits, the two stacks, which are empty between
evaluations, and a flag that stays raised once an evaluation has read
anything but constants. The environment and the functions are only read.

* `evaluate` — one expression at the front of a text.
* `evaluateAll` — expression after expression, up to the end of the text or
  the first failure.
* `evaluateText`, `resolve`, `call`, `invoke` — the value of a text, of a
  name, of a call by name and of a user function.
-/
import ReminderExpr.Evaluation.Termination

namespace ReminderExpr

/-- The value of an expression. -/
structure Evaluation where
  value : Value
  terminator : Terminator
  /-- Whether the value depends on more than the text and the locals. -/
  nonconst : Bool
  deriving DecidableEq, Repr

/-- What evaluations keep between them. -/
structure Interpreter where
  config : Config := {}
  operators : Stack PendingOp := {}
  operands : Stack Value := {}
  nonconst : Bool := false

/-- What an evaluation yields, with the text left and the interpreter after. -/
structure Evaluated where
  result : Result Evaluation
  rest : List Char
  interpreter : Interpreter

namespace Interpreter

/-- What an evaluation reads. -/
def world (i : Interpreter) (environment : Environment) (functions : UserFunctions) : World :=
  { environment, functions, config := i.config }

/-- The interpreter after an evaluation has ended. A failure cuts both stacks
back to the heights they had before. -/
def after (i : Interpreter) (halt : Halt) : Interpreter :=
  let nonconst := i.nonconst || halt.machine.nonconst
  match halt.result with
  | .ok _ =>
      { i with operators := halt.machine.operators, operands := halt.machine.operands, nonconst }
  | .error _ =>
      { i with
        operators := halt.machine.operators.cutTo i.operators.height
        operands := halt.machine.operands.cutTo i.operands.height
        nonconst }

/-- What an evaluation yields that has come to an end. -/
def conclude (i : Interpreter) (halt : Halt) : Evaluated where
  result := halt.result.map fun (value, terminator) =>
    { value, terminator, nonconst := halt.machine.nonconst }
  rest := halt.machine.outerRest
  interpreter := i.after halt

/-- The evaluation of the expression at the front of a scope's text. -/
def evaluateScope (i : Interpreter) (environment : Environment) (functions : UserFunctions)
    (scope : Scope) : Evaluated :=
  i.conclude ((Machine.start scope i.operators i.operands).run (i.world environment functions))

/-- What an evaluation yields, given enough steps. -/
theorem evaluateScope_of_runFor {i : Interpreter} {environment : Environment}
    {functions : UserFunctions} {scope : Scope} {result : Result Evaluation} {rest : List Char}
    (steps : Nat)
    (h : ((Machine.start scope i.operators i.operands).runFor (i.world environment functions)
        steps).map (fun halt => (halt.result.map fun (value, terminator) =>
          ({ value, terminator, nonconst := halt.machine.nonconst } : Evaluation),
        halt.machine.outerRest)) = some (result, rest)) :
    (i.evaluateScope environment functions scope).result = result
      ∧ (i.evaluateScope environment functions scope).rest = rest := by
  obtain ⟨halt, hhalt, heq⟩ := Option.map_eq_some_iff.1 h
  cases heq
  rw [evaluateScope, Machine.run_eq_of_runFor hhalt]
  exact ⟨rfl, rfl⟩

/-- The evaluation of the expression at the front of a text. -/
def evaluate (i : Interpreter) (environment : Environment) (functions : UserFunctions)
    (locals : Locals) (source : List Char) : Evaluated :=
  i.evaluateScope environment functions { rest := source, locals }

/-- Evaluations of one expression after another, until one fails, the text
ends, or nothing has been read. -/
def evaluateAll (i : Interpreter) (environment : Environment) (functions : UserFunctions)
    (locals : Locals) (source : List Char) : List Evaluated :=
  let e := i.evaluate environment functions locals source
  match e.result with
  | .error _ => [e]
  | .ok found =>
      if _h : found.terminator ≠ .endOfText ∧ e.rest.length < source.length then
        e :: e.interpreter.evaluateAll environment functions locals e.rest
      else [e]
termination_by source.length
decreasing_by exact _h.2

/-- The value of a text; what follows its first expression is ignored. -/
def evaluateText (i : Interpreter) (environment : Environment) (functions : UserFunctions)
    (text : String) : Result Value × Interpreter :=
  let e := i.evaluate environment functions {} text.toList
  (e.result.map (·.value), e.interpreter)

/-- The value of a name. -/
def resolve (i : Interpreter) (environment : Environment) (locals : Locals) (name : String) :
    Result Value × Interpreter :=
  let found := Machine.resolve (i.world environment {}) locals name
  (found.1, { i with nonconst := i.nonconst || found.2 })

/-- The value of a function's body. -/
def evaluateBody (i : Interpreter) (environment : Environment) (functions : UserFunctions)
    (f : UserFunction) (locals : Locals) : Result Value × Interpreter :=
  let e := i.evaluateScope environment functions (Machine.bodyScope [] f locals)
  (e.result.map (·.value), e.interpreter)

/-- The value of a user function, called while no other is. -/
def invoke (i : Interpreter) (environment : Environment) (functions : UserFunctions)
    (f : UserFunction) (arguments : List Value) : Result Value × Interpreter :=
  match Machine.bindCall [] f arguments with
  | .error e => (.error e, i)
  | .ok locals => i.evaluateBody environment functions f locals

/-- The value of a call with the top `count` operands as arguments. -/
def call (i : Interpreter) (environment : Environment) (functions : UserFunctions)
    (name : String) (count : Nat) : Result Value × Interpreter :=
  let m := Machine.start { rest := [] } i.operators i.operands
  let (called, m) := m.call (i.world environment functions) name count
  let i := { i with operands := m.operands, nonconst := i.nonconst || m.nonconst }
  match called with
  | .error e => (.error e, i)
  | .ok (.value v) => (.ok v, i)
  | .ok (.body f locals) => i.evaluateBody environment functions f locals

end Interpreter

end ReminderExpr
