/-
ReminderExpr.EvalError — why an expression has no value.

* `EvalError` — one constructor per cause; the causes that concern a name or
  a character carry it.
* `EvalError.message` — the English sentence shown to the user.
* `EvalError.code` — the number under which a message catalogue files the
  cause. Codes are stable: two causes never share one.
* `EvalError.isInternal` — the causes that no expression text can provoke.
-/
namespace ReminderExpr

/-- The integer operations whose exact result may leave the 64-bit range. -/
inductive IntOperation
  | addition | subtraction | multiplication | division | remainder | negation | abs
  deriving DecidableEq, Repr

/-- The word by which a message names the operation. -/
def IntOperation.word : IntOperation → String
  | .addition => "addition"
  | .subtraction => "subtraction"
  | .multiplication => "multiplication"
  | .division => "division"
  | .remainder => "remainder"
  | .negation => "negation"
  | .abs => "abs"

/-- The causes of failure, from reading a token to applying an operator. -/
inductive EvalError
  | missingQuote
  | missingRightParen
  | illegalChar (c : Char)
  | expectingBinaryOp
  | expectComma
  | unexpectedEol
  | badNumber
  | badTime
  | badDate
  | operatorStackOverflow
  | operandStackOverflow
  | operatorStackUnderflow
  | operandStackUnderflow
  | stackError
  | badType
  | cantCoerce
  | divisionByZero
  | dateOverflow
  | tooHigh
  | tooLow
  | domainError
  | integerOverflow (operation : IntOperation)
  | tooFewArgs
  | tooManyArgs
  | iifOdd
  | noSuchVariable (name : String)
  | cantModify (name : String)
  | undefinedFunction (name : String)
  | recursiveCall (name : String)
  | badIdentifier
  | noMemory
  | stringTooLong
  | runDisabled
  deriving DecidableEq, Repr

/-- What a fallible operation yields. -/
abbrev Result (α : Type) := Except EvalError α

instance {α : Type} [DecidableEq α] : DecidableEq (Result α)
  | .ok a, .ok b => decidable_of_decidable_of_iff (p := a = b) ⟨congrArg _, Except.ok.inj⟩
  | .error a, .error b => decidable_of_decidable_of_iff (p := a = b) ⟨congrArg _, Except.error.inj⟩
  | .ok _, .error _ => isFalse nofun
  | .error _, .ok _ => isFalse nofun

namespace EvalError

/-- A word between a backquote and an apostrophe, as messages quote names. -/
def quoted (word : String) : String := "`" ++ word ++ "'"

/-- The English rendering of a cause. -/
def message : EvalError → String
  | missingQuote => "Missing quote"
  | missingRightParen => "Missing ')'"
  | illegalChar c => "Illegal character " ++ quoted c.toString
  | expectingBinaryOp => "Expecting binary operator"
  | expectComma => "Expecting comma"
  | unexpectedEol => "Unexpected end of line"
  | badNumber => "Ill-formed number"
  | badTime => "Ill-formed time"
  | badDate => "Bad date specification"
  | operatorStackOverflow => "Expression too complex - too many operators"
  | operandStackOverflow => "Expression too complex - too many operands"
  | operatorStackUnderflow => "Internal error - operator stack underflow"
  | operandStackUnderflow => "Internal error - operand stack underflow"
  | stackError => "Internal error - expression stack mismatch"
  | badType => "Type mismatch"
  | cantCoerce => "Can't coerce"
  | divisionByZero => "Division by zero"
  | dateOverflow => "Date overflow"
  | tooHigh => "Number too high"
  | tooLow => "Number too low"
  | domainError => "Domain error"
  | integerOverflow operation => "Integer overflow in " ++ operation.word
  | tooFewArgs => "Too few arguments"
  | tooManyArgs => "Too many arguments"
  | iifOdd => "IIF needs odd number of arguments"
  | noSuchVariable name => "Undefined variable " ++ quoted name
  | cantModify name => "Can't modify system variable " ++ quoted name
  | undefinedFunction name => "Undefined function " ++ quoted name
  | recursiveCall name => "Recursive function call detected in " ++ quoted name
  | badIdentifier => "Illegal identifier"
  | noMemory => "Out of memory"
  | stringTooLong => "String too long"
  | runDisabled => "Running disabled"

/-- The catalogue number of a cause. -/
def code : EvalError → Nat
  | missingQuote => 2
  | operatorStackOverflow => 3
  | operandStackOverflow => 4
  | missingRightParen => 5
  | undefinedFunction _ => 6
  | illegalChar _ => 7
  | expectingBinaryOp => 8
  | noMemory => 9
  | badNumber => 10
  | operatorStackUnderflow => 11
  | operandStackUnderflow => 12
  | cantCoerce => 13
  | badType => 14
  | dateOverflow => 15
  | stackError => 16
  | divisionByZero => 17
  | noSuchVariable _ => 18
  | unexpectedEol => 19
  | badDate => 24
  | tooFewArgs => 25
  | tooManyArgs => 26
  | badTime => 27
  | tooHigh => 28
  | tooLow => 29
  | runDisabled => 40
  | domainError => 41
  | badIdentifier => 42
  | recursiveCall _ => 43
  | cantModify _ => 45
  | iifOdd => 61
  | expectComma => 63
  | stringTooLong => 101
  | integerOverflow _ => 102

/-- Whether a cause speaks of the evaluator and not of the expression. -/
def isInternal : EvalError → Bool
  | operatorStackUnderflow | operandStackUnderflow | stackError => true
  | _ => false

end EvalError

end ReminderExpr
