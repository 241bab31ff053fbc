/-
ReminderExpr.Session — a sequence of steps over one environment, one table of
functions and one interpreter.

`Session.step` answers a step and gives the session after it. Evaluating
steps change the interpreter alone; the steps of a script change variables,
system variables and functions; the steps of the host change its state. A
step that fails changes nothing but the interpreter's flag.
-/
import ReminderExpr.Interpreter

namespace ReminderExpr

/-- New values for fields of the host state. -/
structure HostChange where
  today : Option Int := none
  realToday : Option Int := none
  now : Option Int := none
  realNow : Option Int := none
  triggerDay : Option Int := none
  triggerTime : Option Int := none
  triggerValid : Option Bool := none
  dateSeparator : Option Char := none
  timeSeparator : Option Char := none
  maxStringLength : Option Int := none
  fileName : Option String := none
  runDisabled : Option Bool := none
  deriving DecidableEq, Repr

/-- The host state after a change. -/
def HostChange.apply (change : HostChange) (host : HostState) : HostState :=
  { host with
    today := change.today.getD host.today
    realToday := change.realToday.getD host.realToday
    now := change.now.getD host.now
    realNow := change.realNow.getD host.realNow
    trigger :=
      { day := change.triggerDay.getD host.trigger.day
        time := change.triggerTime.getD host.trigger.time
        valid := change.triggerValid.getD host.trigger.valid }
    separators :=
      { date := change.dateSeparator.getD host.separators.date
        time := change.timeSeparator.getD host.separators.time }
    maxStringLength := change.maxStringLength.getD host.maxStringLength
    fileName := change.fileName.getD host.fileName
    runDisabled := change.runDisabled.getD host.runDisabled }

/-- The steps of a session. -/
inductive Step
  /-- One expression at the front of a text. -/
  | eval (source : String) (locals : Locals)
  /-- All expressions of a text, up to the first failure. -/
  | evalAll (source : String) (locals : Locals)
  /-- The value of a text. -/
  | evalText (source : String)
  | resolve (name : String) (locals : Locals)
  /-- A call by name while no operands wait. -/
  | call (name : String) (count : Nat)
  /-- A call of a user function; an unknown one if `known` is false. -/
  | invoke (name : String) (arguments : List Value) (known : Bool)
  /-- What the interpreter keeps. -/
  | state
  | define (name : String) (parameters : List String) (body : String)
  | undefine (name : String)
  | function (name : String)
  /-- The value of a text assigned to a variable. -/
  | assign (name : String) (source : String)
  | setVar (name : String) (value : Value)
  | getVar (name : String)
  | deleteVar (name : String)
  | preserve (name : String)
  | clear (all : Bool)
  | vars
  | setSysvar (name : String) (value : Value)
  | getSysvar (name : String)
  | hostSet (name : String) (value : Value)
  | dumpSysvars
  | host (change : HostChange)

/-- What is shown of an evaluation. -/
structure Shown where
  result : Result Evaluation
  /-- The value as listings show it; empty if there is none. -/
  listing : String
  rest : String

/-- The answers of a session. -/
inductive Answer
  | evaluation (e : Shown)
  | evaluations (es : List Shown)
  | value (r : Result Value)
  | done (r : Result Unit)
  | state (config : Config) (operators operands : Nat) (nonconst : Bool)
  | existed (found : Bool)
  /-- A function, its number of parameters, and how many functions there are. -/
  | function (f : Option UserFunction) (arity : Option Nat) (count : Nat) (empty : Bool)
  | variable (v : Option Variable) (contained : Bool)
  /-- Each variable with its value as listings show it. -/
  | globals (vs : List (Variable × String)) (count : Nat) (empty : Bool)
  | lines (ls : List String)

/-- The state between the steps of a session. -/
structure Session where
  environment : Environment := {}
  functions : UserFunctions := {}
  /-- Whether expressions can call the functions of the table. -/
  callsFunctions : Bool := true
  interpreter : Interpreter := {}

namespace Session

/-- The functions that expressions can call. -/
def callable (s : Session) : UserFunctions := if s.callsFunctions then s.functions else {}

/-- What is shown of an evaluation under the separators of the host. -/
def present (s : Session) (e : Evaluated) : Shown where
  result := e.result
  listing := match e.result with
    | .ok found => found.value.shown s.environment.host.separators
    | .error _ => ""
  rest := String.ofList e.rest

/-- The session with another interpreter, and what the interpreter answered. -/
def answering (s : Session) (r : Result Value × Interpreter) : Answer × Session :=
  (.value r.1, { s with interpreter := r.2 })

/-- The session with other variables, if there are any. -/
def withVariables (s : Session) : Result Variables → Answer × Session
  | .ok globals =>
      (.done (.ok ()), { s with environment := { s.environment with globals } })
  | .error e => (.done (.error e), s)

/-- The interpreter after the last of several evaluations. -/
def lastInterpreter (i : Interpreter) (es : List Evaluated) : Interpreter :=
  (es.getLast?.map (·.interpreter)).getD i

/-- The answer to a step, and the session after it. -/
def step (s : Session) : Step → Answer × Session
  | .eval source locals =>
      let e := s.interpreter.evaluate s.environment s.callable locals source.toList
      (.evaluation (s.present e), { s with interpreter := e.interpreter })
  | .evalAll source locals =>
      let es := s.interpreter.evaluateAll s.environment s.callable locals source.toList
      (.evaluations (es.map s.present), { s with interpreter := lastInterpreter s.interpreter es })
  | .evalText source =>
      s.answering (s.interpreter.evaluateText s.environment s.callable source)
  | .resolve name locals => s.answering (s.interpreter.resolve s.environment locals name)
  | .call name count =>
      s.answering (s.interpreter.call s.environment s.callable name count)
  | .invoke name arguments known =>
      match if known then s.functions.find? name else none with
      | none => (.value (.error (.undefinedFunction name)), s)
      | some f =>
          s.answering (s.interpreter.invoke s.environment s.callable f arguments)
  | .state =>
      (.state s.interpreter.config s.interpreter.operators.height s.interpreter.operands.height
        s.interpreter.nonconst, s)
  | .define name parameters body =>
      match s.functions.define name parameters body with
      | .ok functions => (.done (.ok ()), { s with functions })
      | .error e => (.done (.error e), s)
  | .undefine name =>
      (.existed (s.functions.find? name).isSome,
        { s with functions := s.functions.undefine name })
  | .function name =>
      (.function (s.functions.find? name) (s.functions.arity? name) s.functions.size
        s.functions.isEmpty, s)
  | .assign name source =>
      let (result, interpreter) :=
        s.interpreter.evaluateText s.environment s.callable source
      let s := { s with interpreter }
      match result with
      | .error e => (.done (.error e), s)
      | .ok v => s.withVariables (s.environment.globals.set name v)
  | .setVar name v => s.withVariables (s.environment.globals.set name v)
  | .getVar name =>
      (.variable (s.environment.globals.find? name) (s.environment.globals.contains name), s)
  | .deleteVar name =>
      match s.environment.globals.delete name with
      | .ok (v, globals) =>
          (.value (.ok v), { s with environment := { s.environment with globals } })
      | .error e => (.value (.error e), s)
  | .preserve name => s.withVariables (s.environment.globals.preserve name)
  | .clear all => s.withVariables (.ok (s.environment.globals.clear all))
  | .vars =>
      (.globals
        (s.environment.globals.entries.map fun v =>
          (v, v.value.shown s.environment.host.separators))
        s.environment.globals.size s.environment.globals.isEmpty, s)
  | .setSysvar name v =>
      match s.environment.setSystemVariable name v with
      | .ok environment => (.done (.ok ()), { s with environment })
      | .error e => (.done (.error e), s)
  | .getSysvar name => (.value (s.environment.systemVariable name), s)
  | .hostSet name v =>
      match s.environment.systemVariables.hostSet name v with
      | .ok systemVariables =>
          (.done (.ok ()), { s with environment := { s.environment with systemVariables } })
      | .error e => (.done (.error e), s)
  | .dumpSysvars =>
      (.lines (s.environment.systemVariables.listing s.environment.host), s)
  | .host change =>
      (.done (.ok ()),
        { s with environment :=
            { s.environment with host := change.apply s.environment.host } })

/-- The answers to steps taken in order, and the session after them. -/
def run (s : Session) : List Step → List Answer × Session
  | [] => ([], s)
  | st :: rest =>
      let (answer, s) := s.step st
      let (answers, s) := s.run rest
      (answer :: answers, s)

end Session

end ReminderExpr
