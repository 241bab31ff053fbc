/-
ReminderExpr.Proofs.Descent — evaluation by recursive descent.

The reference for what an expression means: no stacks, but one function for
each kind of phrase, which call each other as the phrases nest. How deep the
calls may nest is an argument of each; what an expression means is what its
calls come to at every depth that suffices (`Yields`).
Strength is settled by precedence climbing: `climb` reads an operand and then
every operator above a minimum, with a right operand climbed to at the
strength of the operator.

The token after an operand is read and classified before anything is applied
to the operand, so that what stands there is refused before what is wrong
with the operand. `Reader` therefore hands that token on beside the value.

* `climb`, `operand`, `rightOperands` — operands and the operators between;
* `level` — an expression up to what ends it;
* `atom`, `arguments`, `invoke`, `body` — the operands and the calls;
* `Descent.evaluate` — the expression at the front of a text;
* `Yields` — what calls of any sufficient depth come to.
-/
import ReminderExpr.Interpreter

namespace ReminderExpr.Descent

/-- What reading changes: the text that is left, and whether anything but
constants has been read. -/
structure Cursor where
  rest : List Char
  nonconst : Bool
  deriving DecidableEq, Repr

/-- Reading a phrase, which may fail, and which may nest too deep. -/
abbrev Reader := ExceptT EvalError (StateT Cursor Option)

/-- A result of an operation on values. -/
def lift {α : Type} (r : Result α) : Reader α := ExceptT.mk (pure r)

/-- The text replaced by what is left of it. -/
def setRest (rest : List Char) : Reader Unit := modify fun c => { c with rest }

/-- The calls would nest deeper than they may. -/
def tooDeep {α : Type} : Reader α := fun _ => none

/-- What depends on more than constants, if `flag` says so. -/
def note (flag : Bool) : Reader Unit := modify fun c => { c with nonconst := c.nonconst || flag }

/-- What is read first decides whether reading goes on. -/
theorem bind_of_found {α β : Type} {x : Reader α} {f : α → Reader β} {c c' : Cursor}
    {r : Result α} (h : x c = some (r, c')) :
    (x >>= f) c = match r with
      | .ok a => f a c'
      | .error e => some (.error e, c') := by
  simp only [Bind.bind, ExceptT.bind, ExceptT.mk, StateT.bind, h, Option.bind]
  cases r <;> rfl

variable (world : World)

/-- The next token. -/
def token : Reader Token := do
  match world.lexer.next (← get).rest with
  | (.error e, rest) =>
      setRest rest
      throw e.toEvalError
  | (.ok t, rest) =>
      setRest rest
      pure t

/-- The token after an operand: a binary operator or what ends the level. -/
def held : Reader Held := do
  let t ← token world
  match t.terminator? with
  | some terminator => pure (.terminator terminator)
  | none =>
      match t with
      | .operator spelling =>
          match BinaryOp.ofSpelling? spelling with
          | some op => pure (.binary op)
          | none => throw .expectingBinaryOp
      | _ => throw .expectingBinaryOp

/-- The operators before an operand applied to it, the innermost first. -/
def prefixed : List UnaryOp → Value → Result Value
  | [], v => .ok v
  | op :: prefixes, v => do prefixed prefixes (← op.apply v)

/-- The value of a word. -/
def word (locals : Locals) (text : String) : Reader Value :=
  if Machine.isNumeral text then
    lift (numberOrTime world.environment.host.separators text)
  else do
    let found := Machine.resolve world locals text
    note found.2
    lift found.1

mutual

/-- An operand with the operators after it that are stronger than `minimum`,
and the token that follows. -/
def climb (depth : Nat) (active : List String) (locals : Locals) (minimum : Nat) :
    Reader (Value × Held) :=
  match depth with
  | 0 => tooDeep
  | depth + 1 => do
      let first ← operand depth active locals []
      rightOperands depth active locals minimum first.1 first.2

/-- An operand with the operators before it, of which `prefixes` have been
read, and the token that follows. -/
def operand (depth : Nat) (active : List String) (locals : Locals) (prefixes : List UnaryOp) :
    Reader (Value × Held) :=
  match depth with
  | 0 => tooDeep
  | depth + 1 => do
      let t ← token world
      match t with
      | .operator spelling =>
          if spelling = "+" then operand depth active locals prefixes
          else match UnaryOp.ofSpelling? spelling with
            | some op => operand depth active locals (op :: prefixes)
            | none => throw (.illegalChar t.firstChar)
      | t => do
          let v ← atom depth active locals t
          let next ← held world
          let v ← lift (prefixed prefixes v)
          pure (v, next)

/-- A left operand with the operators after it that are stronger than
`minimum`, when `next` is the token that follows it. -/
def rightOperands (depth : Nat) (active : List String) (locals : Locals) (minimum : Nat)
    (left : Value) (next : Held) : Reader (Value × Held) :=
  match depth with
  | 0 => tooDeep
  | depth + 1 =>
      match next with
      | .terminator _ => pure (left, next)
      | .binary op =>
          if op.precedence ≤ minimum then pure (left, next)
          else do
            let right ← climb depth active locals op.precedence
            let v ← lift (op.apply world.environment.host.arithmetic left right.1)
            rightOperands depth active locals minimum v right.2

/-- An expression and what ends it. Every binary operator is stronger than 0,
so that none is left over. -/
def level (depth : Nat) (active : List String) (locals : Locals) :
    Reader (Value × Terminator) :=
  match depth with
  | 0 => tooDeep
  | depth + 1 => do
      let found ← climb depth active locals 0
      match found.2 with
      | .terminator t => pure (found.1, t)
      | .binary _ => throw .expectingBinaryOp

/-- An operand that starts with a token. -/
def atom (depth : Nat) (active : List String) (locals : Locals) (t : Token) : Reader Value :=
  match depth with
  | 0 => tooDeep
  | depth + 1 =>
      match t with
      | .leftParen => do
          let found ← level depth active locals
          if found.2 = .rightParen then pure found.1 else throw .missingRightParen
      | .call name => do
          match world.lexer.skipBlanks (← get).rest with
          | ')' :: rest => do
              setRest rest
              invoke depth active name []
          | rest => do
              setRest rest
              let vs ← arguments depth active locals []
              invoke depth active name vs
      | .str content => pure (.str content)
      | .date content => lift (quotedDate world.environment.host.separators content)
      | .word text => word world locals text
      | .endOfText => throw .unexpectedEol
      | .operator _ | .comma | .rightParen | .closeBracket => throw (.illegalChar t.firstChar)

/-- The arguments of a call, of which some have been read. -/
def arguments (depth : Nat) (active : List String) (locals : Locals) (read : List Value) :
    Reader (List Value) :=
  match depth with
  | 0 => tooDeep
  | depth + 1 => do
      let found ← level depth active locals
      match found.2 with
      | .comma => arguments depth active locals (read ++ [found.1])
      | .rightParen => pure (read ++ [found.1])
      | .endOfText | .closeBracket => throw .expectComma

/-- The value of a call. -/
def invoke (depth : Nat) (active : List String) (name : String) (vs : List Value) :
    Reader Value :=
  match depth with
  | 0 => tooDeep
  | depth + 1 =>
      match Builtin.ofName? name with
      | some builtin => do
          lift (builtin.signature.checkArity vs.length)
          note (!builtin.signature.constant)
          lift (builtin.apply world.environment world.functions vs)
      | none =>
          match world.functions.find? name with
          | none => throw (.undefinedFunction name)
          | some f => do
              let locals ← lift (Machine.bindCall active f vs)
              body depth active f locals

/-- The value of the body of a function, a text of its own. -/
def body (depth : Nat) (active : List String) (f : UserFunction) (locals : Locals) :
    Reader Value :=
  match depth with
  | 0 => tooDeep
  | depth + 1 => fun c => do
      let (found, after) ← level depth (f.key :: active) locals { c with rest := f.source }
      pure (found.map Prod.fst, { after with rest := c.rest })

end

/-- The value of the expression at the front of a scope's text, what ends it,
and the text left. -/
def evaluate (depth : Nat) (scope : Scope) : Option (Result Evaluation × List Char) := do
  let (found, after) ←
    level world depth scope.active scope.locals { rest := scope.rest, nonconst := false }
  pure (found.map fun (value, terminator) =>
    { value, terminator, nonconst := after.nonconst }, after.rest)

/-! ## Sufficient depths -/

/-- Calls come to `a` from some depth on. -/
def Yields {α : Type} (calls : Nat → Option α) (a : α) : Prop :=
  ∃ depth, ∀ n, depth ≤ n → calls n = some a

/-- Calls come to one thing only. -/
theorem Yields.unique {α : Type} {calls : Nat → Option α} {a b : α} (ha : Yields calls a)
    (hb : Yields calls b) : a = b := by
  obtain ⟨depth, ha⟩ := ha
  obtain ⟨depth', hb⟩ := hb
  have heq := (ha _ (Nat.le_max_left depth depth')).symm.trans (hb _ (Nat.le_max_right depth depth'))
  exact Option.some.inj heq

/-- What calls come to that may nest one deeper. -/
theorem Yields.succ {α : Type} {calls : Nat → Option α} {a : α}
    (h : Yields (fun n => calls (n + 1)) a) : Yields calls a := by
  obtain ⟨depth, h⟩ := h
  refine ⟨depth + 1, fun n hn => ?_⟩
  obtain ⟨k, rfl⟩ : ∃ k, n = k + 1 := ⟨n - 1, by omega⟩
  exact h k (Nat.le_of_succ_le_succ hn)

end ReminderExpr.Descent
