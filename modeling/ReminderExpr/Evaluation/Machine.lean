/-
ReminderExpr.Evaluation.Machine — evaluating an expression token by token.

An expression is evaluated as it is read, without a tree. Values wait on a
stack of operands and operators on a stack of their own. A group, an argument
and the body of a user function open a *level*: the level remembers how high
both stacks were (`Heights`) and works above that. What the levels outside
wait for is kept in `Frame`s, and the text being read together with its local
names in a `Scope`.

A level alternates between two phases. In `Phase.atom` it reads unary
operators up to one operand. In `Phase.operator` it reads the token after an
operand and holds it (`Phase.holding`): while the operator on top of the
level's stack is at least as strong as the held token, it is applied; then a
held operator is pushed, and a held terminator ends the level with its value.

* `Machine.step` — one step: reading a token, applying an operator, or
  pushing or ending what is held.
* `Machine.start` — the machine at the front of a text.
* `Machine.runFor` — at most a number of steps.
* `Machine.applyTop_unary`, … — what the steps with a token held come to.
-/
import ReminderExpr.Builtin.Apply
import ReminderExpr.Evaluation.Stack
import ReminderExpr.Token.Lexer

namespace ReminderExpr

/-- The limits of an evaluation, and the character skipped like a blank. -/
structure Config where
  /-- How many operators may wait at once; `none` sets no limit. -/
  operatorDepth : Option Nat := some 30
  /-- How many operands may wait at once; `none` sets no limit. -/
  operandDepth : Option Nat := some 30
  continuation : Option Char := some '\\'
  deriving DecidableEq, Repr

/-- What an evaluation reads and never changes. -/
structure World where
  environment : Environment := {}
  functions : UserFunctions := {}
  config : Config := {}
  deriving DecidableEq, Repr

/-- The lexer of an evaluation. -/
def World.lexer (world : World) : Lexer where
  continuation := world.config.continuation
  timeSeparator := world.environment.host.separators.time

/-- An operator that waits for its operands. -/
inductive PendingOp
  | unary (op : UnaryOp)
  | binary (op : BinaryOp)
  deriving DecidableEq, Repr

def PendingOp.precedence : PendingOp → Nat
  | .unary op => op.precedence
  | .binary op => op.precedence

/-- A token that has been read after an operand. -/
inductive Held
  | binary (op : BinaryOp)
  | terminator (t : Terminator)
  deriving DecidableEq, Repr

/-- Whether an operator that waits is applied before a held token is used. -/
def Held.yieldsTo (held : Held) (waiting : PendingOp) : Bool :=
  match held with
  | .binary op => decide (op.precedence ≤ waiting.precedence)
  | .terminator _ => true

/-- The operators before an operand are applied before any held token is used. -/
theorem Held.yieldsTo_unary (held : Held) (op : UnaryOp) : held.yieldsTo (.unary op) = true := by
  cases held with
  | terminator t => rfl
  | binary held => cases held <;> rfl

/-- What a level does next. -/
inductive Phase
  | atom
  | operator
  | holding (held : Held)
  deriving DecidableEq, Repr

/-- How high both stacks were when a level was opened. -/
structure Heights where
  operators : Nat
  operands : Nat
  deriving DecidableEq, Repr

/-- The text being read, its local names, and the functions whose bodies are
under evaluation, by `UserFunction.key`. -/
structure Scope where
  rest : List Char
  locals : Locals := {}
  active : List String := []
  deriving DecidableEq, Repr

/-- What a level outside waits for. -/
inductive Frame
  /-- The value of a group, to be closed by a parenthesis. -/
  | group (base : Heights)
  /-- One more argument of a call, after `count` others. -/
  | argument (base : Heights) (name : String) (count : Nat)
  /-- The value of a function whose body is a text of its own. -/
  | body (base : Heights) (caller : Scope)
  deriving DecidableEq, Repr

/-- A state of an evaluation. -/
structure Machine where
  scope : Scope
  /-- The levels outside, the innermost first. -/
  frames : List Frame
  /-- The heights at which the current level was opened. -/
  base : Heights
  phase : Phase
  operators : Stack PendingOp
  operands : Stack Value
  /-- Whether anything but constants has been read. -/
  nonconst : Bool

/-- The end of an evaluation: a value and what ended the expression, or a
failure, and the machine as it was then. -/
structure Halt where
  result : Result (Value × Terminator)
  machine : Machine

/-- What a step leads to. -/
inductive Outcome
  | running (m : Machine)
  | halted (h : Halt)

namespace Machine

/-! ## Primitives -/

/-- The end with a failure. -/
def fail (m : Machine) (e : EvalError) : Outcome := .halted { result := .error e, machine := m }

/-- The heights of both stacks. -/
def heights (m : Machine) : Heights := ⟨m.operators.height, m.operands.height⟩

/-- The machine with less left to read. -/
def withRest (m : Machine) (rest : List Char) : Machine :=
  { m with scope := { m.scope with rest } }

/-- The machine with another operator waiting. -/
def pushOperator (world : World) (m : Machine) (op : PendingOp) (phase : Phase) : Outcome :=
  if world.config.operatorDepth.any (· ≤ m.operators.height) then m.fail .operatorStackOverflow
  else .running { m with operators := m.operators.push op, phase }

/-- The machine with another operand, after which an operator is looked for. -/
def deliver (world : World) (m : Machine) (v : Value) : Outcome :=
  if world.config.operandDepth.any (· ≤ m.operands.height) then m.fail .operandStackOverflow
  else .running { m with operands := m.operands.push v, phase := .operator }

/-- The machine with another operand, if there is a value for it. -/
def settle (world : World) (m : Machine) : Result Value → Outcome
  | .ok v => m.deliver world v
  | .error e => m.fail e

/-- A new level that reads on in the same text. -/
def openLevel (m : Machine) (frame : Frame) : Outcome :=
  .running { m with frames := frame :: m.frames, base := m.heights, phase := .atom }

/-! ## Calls -/

/-- What a call comes to. -/
inductive Called
  | value (v : Value)
  /-- The body of a function is to be evaluated. -/
  | body (f : UserFunction) (locals : Locals)

/-- The locals of a call of a user function. A function whose body is under
evaluation is refused before its arguments are counted. -/
def bindCall (active : List String) (f : UserFunction) (arguments : List Value) :
    Result Locals :=
  if active.contains f.key then .error (.recursiveCall f.name) else f.bind arguments

/-- A call of `name` with the top `count` operands as arguments. A built-in
function refuses a wrong number of arguments before any are popped. -/
def call (world : World) (m : Machine) (name : String) (count : Nat) : Result Called × Machine :=
  match Builtin.ofName? name with
  | some builtin =>
      match builtin.signature.checkArity count with
      | .error e => (.error e, m)
      | .ok () =>
          let m := { m with nonconst := m.nonconst || !builtin.signature.constant }
          match m.operands.popMany? count with
          | none => (.error .operandStackUnderflow, m)
          | some (arguments, operands) =>
              (Called.value <$> builtin.apply world.environment world.functions arguments,
                { m with operands })
  | none =>
      match world.functions.find? name with
      | none => (.error (.undefinedFunction name), m)
      | some f =>
          match m.operands.popMany? count with
          | none => (.error .operandStackUnderflow, m)
          | some (arguments, operands) =>
              (Called.body f <$> bindCall m.scope.active f arguments, { m with operands })

/-- The scope in which the body of a function is evaluated. -/
def bodyScope (active : List String) (f : UserFunction) (locals : Locals) : Scope :=
  { rest := f.source, locals, active := f.key :: active }

/-- A call inside an expression: its value is delivered, or the body of the
function is opened as a level of its own. -/
def enter (world : World) (m : Machine) (name : String) (count : Nat) : Outcome :=
  match m.call world name count with
  | (.error e, m) => m.fail e
  | (.ok (.value v), m) => m.deliver world v
  | (.ok (.body f locals), m) =>
      .running { m with
        scope := bodyScope m.scope.active f locals
        frames := .body m.base m.scope :: m.frames
        base := m.heights
        phase := .atom }

/-! ## Reading an operand -/

/-- The value of a name, and whether looking it up makes the expression
depend on more than its text: it does unless the name is local. -/
def resolve (world : World) (locals : Locals) (name : String) : Result Value × Bool :=
  match locals.get? name with
  | some v => (.ok v, false)
  | none => (world.environment.lookup name, true)

/-- Whether a word is a number or a time of day, and not a name. -/
def isNumeral (word : String) : Bool := (word.toList.head?).any Char.isDigit

/-- A word as an operand. -/
def takeWord (world : World) (m : Machine) (word : String) : Outcome :=
  if isNumeral word then
    m.settle world (numberOrTime world.environment.host.separators word)
  else
    let found := resolve world m.scope.locals word
    { m with nonconst := m.nonconst || found.2 }.settle world found.1

/-- A token where an operand is wanted. -/
def takeAtom (world : World) (m : Machine) (t : Token) : Outcome :=
  match t with
  | .endOfText => m.fail .unexpectedEol
  | .leftParen => m.openLevel (.group m.base)
  | .operator spelling =>
      if spelling = "+" then .running m
      else match UnaryOp.ofSpelling? spelling with
        | some op => m.pushOperator world (.unary op) .atom
        | none => m.fail (.illegalChar t.firstChar)
  | .call name =>
      match world.lexer.skipBlanks m.scope.rest with
      | ')' :: rest => (m.withRest rest).enter world name 0
      | rest => (m.withRest rest).openLevel (.argument m.base name 0)
  | .str content => m.deliver world (.str content)
  | .date content => m.settle world (quotedDate world.environment.host.separators content)
  | .word text => m.takeWord world text
  | .comma | .rightParen | .closeBracket => m.fail (.illegalChar t.firstChar)

/-! ## Reading on after an operand -/

/-- A token after an operand, to be held. -/
def takeOperator (m : Machine) (t : Token) : Outcome :=
  match t.terminator? with
  | some terminator => .running { m with phase := .holding (.terminator terminator) }
  | none =>
      match t with
      | .operator spelling =>
          match BinaryOp.ofSpelling? spelling with
          | some op => .running { m with phase := .holding (.binary op) }
          | none => m.fail .expectingBinaryOp
      | _ => m.fail .expectingBinaryOp

/-- The top operator applied to the top operands. -/
def applyTop (world : World) (m : Machine) : Outcome :=
  match m.operators.pop? with
  | none => m.fail .operatorStackUnderflow
  | some (.unary op, operators) =>
      match m.operands.pop? with
      | none => m.fail .operandStackUnderflow
      | some (v, operands) =>
          match op.apply v with
          | .error e => m.fail e
          | .ok result => .running { m with operators, operands := operands.push result }
  | some (.binary op, operators) =>
      match m.operands.pop? with
      | none => m.fail .operandStackUnderflow
      | some (right, operands) =>
          match operands.pop? with
          | none => m.fail .operandStackUnderflow
          | some (left, operands) =>
              match op.apply world.environment.host.arithmetic left right with
              | .error e => m.fail e
              | .ok result => .running { m with operators, operands := operands.push result }

/-- The value of a level handed to the level outside, which resumes as the
terminator lets it. -/
def closeLevel (world : World) (m : Machine) (t : Terminator) (v : Value) : Outcome :=
  match m.frames with
  | [] => .halted { result := .ok (v, t), machine := m }
  | .group base :: frames =>
      if t = .rightParen then { m with frames, base }.deliver world v
      else m.fail .missingRightParen
  | .argument base name count :: frames =>
      match m.deliver world v with
      | .halted h => .halted h
      | .running m =>
          match t with
          | .comma => { m with frames }.openLevel (.argument base name (count + 1))
          | .rightParen => { m with frames, base }.enter world name (count + 1)
          | .endOfText | .closeBracket => m.fail .expectComma
  | .body base caller :: frames => { m with frames, base, scope := caller }.deliver world v

/-- A terminator when all operators of its level have been applied. -/
def takeTerminator (world : World) (m : Machine) (t : Terminator) : Outcome :=
  if m.operands.height ≠ m.base.operands + 1 then m.fail .stackError
  else match m.operands.pop? with
    | none => m.fail .operandStackUnderflow
    | some (v, operands) => { m with operands }.closeLevel world t v

/-- Whether the top operator belongs to the level and is applied before the
held token is used. -/
def mustApply (m : Machine) (held : Held) : Bool :=
  decide (m.base.operators < m.operators.height) && m.operators.top?.any held.yieldsTo

/-- One step with a token held. -/
def takeHeld (world : World) (m : Machine) (held : Held) : Outcome :=
  if m.mustApply held then m.applyTop world
  else match held with
    | .terminator t => m.takeTerminator world t
    | .binary op => m.pushOperator world (.binary op) .atom

/-! ## Steps -/

/-- A token read, and what is done with it. -/
def readThen (world : World) (m : Machine) (use : Machine → Token → Outcome) : Outcome :=
  match world.lexer.next m.scope.rest with
  | (.error e, rest) => (m.withRest rest).fail e.toEvalError
  | (.ok t, rest) => use (m.withRest rest) t

/-- One step of an evaluation. -/
def step (world : World) (m : Machine) : Outcome :=
  match m.phase with
  | .atom => m.readThen world (takeAtom world)
  | .operator => m.readThen world takeOperator
  | .holding held => m.takeHeld world held

/-- At most `steps` steps; `none` if the evaluation has not ended by then. -/
def runFor (world : World) : (steps : Nat) → Machine → Option Halt
  | 0, _ => none
  | steps + 1, m =>
      match m.step world with
      | .halted h => some h
      | .running m => runFor world steps m

/-- The machine at the front of a text, above what the stacks hold. -/
def start (scope : Scope) (operators : Stack PendingOp) (operands : Stack Value) : Machine where
  scope
  frames := []
  base := ⟨operators.height, operands.height⟩
  phase := .atom
  operators
  operands
  nonconst := false

/-- The text left of the outermost scope: the one that the bodies of
functions were entered from. -/
def outerRest (m : Machine) : List Char :=
  m.frames.foldl
    (fun rest frame => match frame with
      | .body _ caller => caller.rest
      | _ => rest)
    m.scope.rest

/-! ## Equations -/

variable {world : World} {m : Machine}

theorem deliver_cases (world : World) (m : Machine) (v : Value) :
    m.deliver world v = m.fail .operandStackOverflow
      ∨ m.deliver world v
        = .running { m with operands := m.operands.push v, phase := .operator } := by
  unfold deliver
  split
  · exact .inl rfl
  · exact .inr rfl

/-- A call whose parenthesis is closed at once has no arguments. -/
theorem takeAtom_call_closed {name : String} {rest : List Char}
    (h : world.lexer.skipBlanks m.scope.rest = ')' :: rest) :
    m.takeAtom world (.call name) = (m.withRest rest).enter world name 0 := by
  simp only [takeAtom, h]

/-- Any other call opens a level for its first argument. -/
theorem takeAtom_call_open {name : String}
    (h : ∀ rest, world.lexer.skipBlanks m.scope.rest ≠ ')' :: rest) :
    m.takeAtom world (.call name)
      = (m.withRest (world.lexer.skipBlanks m.scope.rest)).openLevel
          (.argument m.base name 0) := by
  unfold takeAtom
  dsimp only
  split
  · rename_i rest hrest
    exact absurd hrest (h rest)
  · rfl

theorem takeOperator_terminator {t : Token} {terminator : Terminator}
    (h : t.terminator? = some terminator) :
    m.takeOperator t = .running { m with phase := .holding (.terminator terminator) } := by
  unfold takeOperator
  rw [h]

theorem applyTop_unary {op : UnaryOp} {v : Value} {operators : Stack PendingOp}
    {operands : Stack Value} (hop : m.operators = operators.push (.unary op))
    (hv : m.operands = operands.push v) :
    m.applyTop world = match op.apply v with
      | .error e => m.fail e
      | .ok result => .running { m with operators, operands := operands.push result } := by
  simp only [applyTop, hop, hv, Stack.pop?_push]

theorem applyTop_binary {op : BinaryOp} {left right : Value} {operators : Stack PendingOp}
    {operands : Stack Value} (hop : m.operators = operators.push (.binary op))
    (hv : m.operands = (operands.push left).push right) :
    m.applyTop world = match op.apply world.environment.host.arithmetic left right with
      | .error e => m.fail e
      | .ok result => .running { m with operators, operands := operands.push result } := by
  simp only [applyTop, hop, hv, Stack.pop?_push]

theorem closeLevel_group {t : Terminator} {v : Value} {base : Heights} {frames : List Frame}
    (hf : m.frames = .group base :: frames) :
    m.closeLevel world t v = if t = .rightParen then { m with frames, base }.deliver world v
      else m.fail .missingRightParen := by
  rw [closeLevel, hf]

/-- Where an operand is wanted, the token that is read is taken for one. -/
theorem step_atom {t : Token} {rest : List Char} (hp : m.phase = .atom)
    (hnext : world.lexer.next m.scope.rest = (.ok t, rest)) :
    m.step world = (m.withRest rest).takeAtom world t := by
  unfold step
  rw [hp]
  dsimp only [readThen]
  rw [hnext]

/-- After an operand, the token that is read is to be held. -/
theorem step_operator {t : Token} {rest : List Char} (hp : m.phase = .operator)
    (hnext : world.lexer.next m.scope.rest = (.ok t, rest)) :
    m.step world = (m.withRest rest).takeOperator t := by
  unfold step
  rw [hp]
  dsimp only [readThen]
  rw [hnext]

/-- A text that no token can be read from fails. -/
theorem step_unreadable {e : LexError} {rest : List Char} (hp : ∀ held, m.phase ≠ .holding held)
    (hnext : world.lexer.next m.scope.rest = (.error e, rest)) :
    m.step world = (m.withRest rest).fail e.toEvalError := by
  unfold step
  cases hphase : m.phase with
  | atom | operator =>
    dsimp only [readThen]
    rw [hnext]
  | holding held => exact absurd hphase (hp held)

/-- A terminator at a level without operators closes it. -/
theorem step_terminator {t : Terminator} {v : Value} {operands : Stack Value}
    (hp : m.phase = .holding (.terminator t)) (hops : m.operators.height = m.base.operators)
    (hv : m.operands = operands.push v) (hvals : operands.height = m.base.operands) :
    m.step world = { m with operands }.closeLevel world t v := by
  have hmust : ¬ m.mustApply (.terminator t) = true := by
    simp [mustApply, hops]
  have hstep : m.step world = m.takeHeld world (.terminator t) := by
    unfold step
    rw [hp]
  rw [hstep, takeHeld, if_neg hmust]
  dsimp only [takeTerminator]
  rw [hv, Stack.height_push, hvals, if_neg (not_not_intro rfl), Stack.pop?_push]

/-- An operator of the level that a held token yields to is applied. -/
theorem step_apply {held : Held} {op : PendingOp} {operators : Stack PendingOp}
    (hp : m.phase = .holding held) (hop : m.operators = operators.push op)
    (hmine : m.base.operators < m.operators.height) (hyields : held.yieldsTo op = true) :
    m.step world = m.applyTop world := by
  have hmust : m.mustApply held = true := by
    rw [mustApply, decide_eq_true hmine, hop]
    exact hyields
  unfold step
  rw [hp]
  dsimp only [takeHeld]
  rw [if_pos hmust]

end Machine

end ReminderExpr
