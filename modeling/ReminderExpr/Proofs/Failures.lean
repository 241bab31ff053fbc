/-
ReminderExpr.Proofs.Failures — which failures operations on values can cause.

An overflow or underflow of a stack, a mismatch of the stacks and a recursive
call are raised by the machine alone (`EvalError.raisedByMachine`). All other
failures come from reading tokens, from looking names up and from operations
on values; `Ordinary` says of a result that it is no failure of the machine.

* `ordinary_binaryApply`, `ordinary_unaryApply` — the operators;
* `ordinary_quotedDate`, `ordinary_numberOrTime` — literals;
* `ordinary_lookup` — names that are not local.

The built-in functions follow in `Proofs.BuiltinCalls`.
-/
import ReminderExpr.Environment
import ReminderExpr.Token.Lexer
import ReminderExpr.Value.Literal

namespace ReminderExpr

/-- Whether a cause speaks of the stacks, or of the functions under
evaluation. -/
def EvalError.raisedByMachine : EvalError → Bool
  | operatorStackOverflow | operandStackOverflow => true
  | operatorStackUnderflow | operandStackUnderflow | stackError => true
  | recursiveCall _ => true
  | _ => false

/-- Internal errors are raised by the machine. -/
theorem EvalError.raisedByMachine_of_isInternal {e : EvalError} (h : e.isInternal = true) :
    e.raisedByMachine = true := by
  cases e <;> first | rfl | cases h

/-- Whether a result is a value or a failure that the machine does not raise. -/
def Ordinary {α : Type} (r : Result α) : Prop := ∀ e, r = .error e → e.raisedByMachine = false

section Combinators

variable {α β : Type}

@[simp] theorem ordinary_ok (a : α) : Ordinary (.ok a : Result α) := by
  intro e h
  cases h

@[simp] theorem ordinary_error (e : EvalError) :
    Ordinary (.error e : Result α) ↔ e.raisedByMachine = false := by
  constructor
  · intro h
    exact h e rfl
  · rintro h e' ⟨⟩
    exact h

/-- A failure that is handed on. -/
theorem Ordinary.handedOn {x : Result α} {e : EvalError} (hx : Ordinary x) (he : x = .error e) :
    Ordinary (.error e : Result β) :=
  (ordinary_error e).2 (hx e he)

/-- Steps one after another fail only as one of them does. -/
theorem Ordinary.bind {x : Result α} {f : α → Result β} (hx : Ordinary x)
    (hf : ∀ a, Ordinary (f a)) : Ordinary (x >>= f) := by
  cases x with
  | error e => exact (ordinary_error e).2 (hx e rfl)
  | ok a => exact hf a

theorem Ordinary.map {x : Result α} (hx : Ordinary x) (f : α → β) : Ordinary (f <$> x) := by
  cases x with
  | error e => exact (ordinary_error e).2 (hx e rfl)
  | ok a => exact ordinary_ok _

end Combinators

/-! ## Payloads -/

@[simp] theorem ordinary_asInt (v : Value) : Ordinary v.asInt := by
  cases v <;> simp [Value.asInt, EvalError.raisedByMachine]

@[simp] theorem ordinary_asString (v : Value) : Ordinary v.asString := by
  cases v <;> simp [Value.asString, EvalError.raisedByMachine]

@[simp] theorem ordinary_asDate (v : Value) : Ordinary v.asDate := by
  cases v <;> simp [Value.asDate, EvalError.raisedByMachine]

@[simp] theorem ordinary_asTime (v : Value) : Ordinary v.asTime := by
  cases v <;> simp [Value.asTime, EvalError.raisedByMachine]

/-! ## Operators -/

@[simp] theorem ordinary_checked (operation : IntOperation) (n : Int) :
    Ordinary (checked operation n) := by
  unfold checked
  split <;> simp [EvalError.raisedByMachine]

@[simp] theorem ordinary_shiftDate (day days : Int) : Ordinary (shiftDate day days) := by
  unfold shiftDate
  dsimp only
  split <;> simp [EvalError.raisedByMachine]

@[simp] theorem ordinary_shiftMoment (moment minutes : Int) :
    Ordinary (shiftMoment moment minutes) := by
  unfold shiftMoment
  dsimp only
  split <;> simp [EvalError.raisedByMachine]

@[simp] theorem ordinary_oppositeShift (n : Int) : Ordinary (oppositeShift n) := by
  unfold oppositeShift
  split <;> simp [EvalError.raisedByMachine]

@[simp] theorem ordinary_join (settings : ArithmeticSettings) (left right : Value) :
    Ordinary (join settings left right) := by
  unfold join
  dsimp only
  split <;> split <;> simp [EvalError.raisedByMachine]

theorem ordinary_addValues (settings : ArithmeticSettings) (left right : Value) :
    Ordinary (addValues settings left right) := by
  unfold addValues
  split <;> simp [EvalError.raisedByMachine]

theorem ordinary_subValues (left right : Value) : Ordinary (subValues left right) := by
  unfold subValues
  split
  · exact ordinary_checked _ _
  · exact (ordinary_oppositeShift _).bind fun _ => ordinary_shiftDate _ _
  · exact (ordinary_oppositeShift _).bind fun _ => ordinary_shiftMoment _ _
  all_goals simp [EvalError.raisedByMachine]

theorem ordinary_onInts (left right : Value) {operation : Int → Int → Result Value}
    (h : ∀ a b, Ordinary (operation a b)) : Ordinary (onInts left right operation) := by
  unfold onInts
  split
  · exact h _ _
  · simp [EvalError.raisedByMachine]

theorem ordinary_compareValues (op : BinaryOp) (left right : Value) :
    Ordinary (compareValues op left right) := by
  unfold compareValues
  split
  · exact ordinary_ok _
  · split <;> simp [EvalError.raisedByMachine]

/-- A binary operator fails only as operations on values do. -/
theorem ordinary_binaryApply (settings : ArithmeticSettings) (op : BinaryOp)
    (left right : Value) : Ordinary (op.apply settings left right) := by
  cases op with
  | add => exact ordinary_addValues settings left right
  | sub => exact ordinary_subValues left right
  | mul => exact ordinary_onInts left right fun a b => ordinary_checked _ _
  | div =>
    refine ordinary_onInts left right fun a b => ?_
    split <;> simp [EvalError.raisedByMachine]
  | mod =>
    refine ordinary_onInts left right fun a b => ?_
    split
    · simp [EvalError.raisedByMachine]
    · split <;> simp [EvalError.raisedByMachine]
  | and => exact ordinary_onInts left right fun a b => ordinary_ok _
  | or => exact ordinary_onInts left right fun a b => ordinary_ok _
  | _ => exact ordinary_compareValues _ left right

/-- A unary operator fails only as operations on values do. -/
theorem ordinary_unaryApply (op : UnaryOp) (v : Value) : Ordinary (op.apply v) := by
  unfold UnaryOp.apply
  split
  · cases op <;> simp
  · simp [EvalError.raisedByMachine]

/-! ## Literals and names -/

theorem ordinary_readNumber {missing : EvalError} (h : missing.raisedByMachine = false)
    (cs : List Char) : Ordinary (readNumber missing cs) := by
  unfold readNumber
  split
  · exact (ordinary_error missing).2 h
  · exact ordinary_ok _

theorem ordinary_readChar {missing : EvalError} (h : missing.raisedByMachine = false)
    (isWanted : Char → Bool) (cs : List Char) : Ordinary (readChar missing isWanted cs) := by
  unfold readChar
  split
  · exact (ordinary_error missing).2 h
  · split
    · exact ordinary_ok _
    · exact (ordinary_error missing).2 h

theorem ordinary_readTime (separators : Separators) (cs : List Char) :
    Ordinary (readTime separators cs) := by
  refine (ordinary_readNumber rfl cs).bind fun _ => ?_
  refine (ordinary_readChar rfl _ _).bind fun _ => ?_
  refine (ordinary_readNumber rfl _).bind fun _ => ?_
  dsimp only
  split <;> simp [EvalError.raisedByMachine]

@[simp] theorem ordinary_dayOfCivil (year : Int) (month day : Nat) :
    Ordinary (Calendar.dayOfCivil year month day) := by
  unfold Calendar.dayOfCivil
  split <;> simp [EvalError.raisedByMachine]

theorem ordinary_readDate (separators : Separators) (cs : List Char) :
    Ordinary (DateLiteral.read separators cs) := by
  refine (ordinary_readNumber rfl cs).bind fun _ => ?_
  refine (ordinary_readChar rfl _ _).bind fun _ => ?_
  refine (ordinary_readNumber rfl _).bind fun _ => ?_
  refine (ordinary_readChar rfl _ _).bind fun _ => ?_
  refine (ordinary_readNumber rfl _).bind fun _ => ?_
  refine (ordinary_dayOfCivil _ _ _).bind fun _ => ?_
  dsimp only
  split
  · exact (ordinary_readTime separators _).bind fun _ => ordinary_ok _
  · exact (ordinary_readTime separators _).bind fun _ => ordinary_ok _
  · exact ordinary_ok _

/-- A quoted date fails only for what stands between the quotes. -/
theorem ordinary_quotedDate (separators : Separators) (text : String) :
    Ordinary (quotedDate separators text) := by
  have h := ordinary_readDate separators text.toList
  unfold quotedDate
  split
  · rename_i e he
    exact h.handedOn he
  · exact ordinary_ok _
  · simp [EvalError.raisedByMachine]

/-- A number or a time fails only for how it is spelled. -/
theorem ordinary_numberOrTime (separators : Separators) (word : String) :
    Ordinary (numberOrTime separators word) := by
  unfold numberOrTime
  dsimp only
  split
  · split <;> simp [EvalError.raisedByMachine]
  · split
    · split
      · simp [EvalError.raisedByMachine]
      · split <;> simp [EvalError.raisedByMachine]
    · simp [EvalError.raisedByMachine]

@[simp] theorem ordinary_systemVariable (env : Environment) (name : String) :
    Ordinary (env.systemVariable name) := by
  unfold Environment.systemVariable SystemVariables.get
  split <;> simp [EvalError.raisedByMachine]

/-- A name that is not local fails only for being unknown. -/
theorem ordinary_lookup (env : Environment) (name : String) : Ordinary (env.lookup name) := by
  unfold Environment.lookup
  split
  · exact ordinary_systemVariable env _
  · split <;> simp [EvalError.raisedByMachine]

end ReminderExpr
