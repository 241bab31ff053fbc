/-
ReminderExpr.Proofs.LiteralSpelling — values spelled as literals, and evaluated.

Every kind of value has a literal: a number or a time of the day as it is
written, a date or a moment so between single quotes, a string between double
quotes with its quotes and backslashes escaped. Evaluating the literal gives
the value back, whatever else there is to evaluate with. Two reservations are
the language's own: dates are read only of the years that can be written, and
a negative number is read as an operator and a number, which must by itself
have 64 bits, so that the least integer has no literal.

* `Value.literal`, `Value.HasLiteral` — the literals, and the values that have one;
* `forall_mem` of the grammar — which characters the texts consist of;
* `ClockText.operand`, `DateLiteral.Spelled.operand` — times and dates as tokens;
* `Machine.step_minus`, `Machine.step_negation`, `Machine.step_end` — the steps
  of such evaluations;
* `Interpreter.Ready` — what these evaluations ask for, and texts of one operand;
* `literals_evaluate` — all values.
-/
import ReminderExpr.Interpreter
import ReminderExpr.Proofs.RoundTrips

namespace ReminderExpr

open Text Calendar

/-! ## Literals -/

namespace Value

/-- The literal of a value. -/
def literal (separators : Separators) (v : Value) : List Char :=
  match v with
  | .int _ | .time _ => (v.written separators).toList
  | .date _ | .dateTime _ => Token.spelled (.date (v.written separators))
  | .str content => Token.spelled (.str content)

/-- Whether the literal of a value is one. -/
def HasLiteral : Value → Prop
  | .int n => -0x8000000000000000 < n ∧ n < 0x8000000000000000
  | .str _ => True
  | .date day => Writable day
  | .time minute => 0 ≤ minute ∧ minute < minutesPerDay
  | .dateTime minute => Writable (minute / minutesPerDay)

end Value

/-! ## The characters of texts -/

section Characters

variable {separators : Separators} {text rest : List Char} {P : Char → Prop}

theorem Number.forall_mem {n : Nat} (h : Number text n rest)
    (hdigit : ∀ c, c.isDigit = true → P c) (hrest : ∀ c ∈ rest, P c) : ∀ c ∈ text, P c := by
  obtain ⟨-, hall, -⟩ := h
  intro c hc
  rcases List.mem_append.1 hc with hc | hc
  · exact hdigit c (hall c hc)
  · exact hrest c hc

theorem DayText.forall_mem {day : Int} (h : DayText separators text day rest)
    (hdigit : ∀ c, c.isDigit = true → P c)
    (hsep : ∀ c, separators.isDateSeparator c = true → P c) (hrest : ∀ c ∈ rest, P c) :
    ∀ c ∈ text, P c := by
  obtain ⟨hyear, hs, hmonth, hs', hday, -, -⟩ := h
  have hmonths := hday.forall_mem hdigit hrest
  have hyears := hmonth.forall_mem hdigit (List.forall_mem_cons.2 ⟨hsep _ hs', hmonths⟩)
  exact hyear.forall_mem hdigit (List.forall_mem_cons.2 ⟨hsep _ hs, hyears⟩)

theorem ClockText.forall_mem {minutes : Int} (h : ClockText separators text minutes rest)
    (hdigit : ∀ c, c.isDigit = true → P c)
    (hsep : ∀ c, separators.isTimeSeparator c = true → P c) (hrest : ∀ c ∈ rest, P c) :
    ∀ c ∈ text, P c := by
  obtain ⟨hhour, ht, hminute, -⟩ := h
  have hminutes := hminute.forall_mem hdigit hrest
  exact hhour.forall_mem hdigit (List.forall_mem_cons.2 ⟨hsep _ ht, hminutes⟩)

theorem DateLiteral.Spelled.forall_mem {literal : DateLiteral}
    (h : Spelled separators text literal rest) (hdigit : ∀ c, c.isDigit = true → P c)
    (hdate : ∀ c, separators.isDateSeparator c = true → P c)
    (htime : ∀ c, separators.isTimeSeparator c = true → P c) (hstarts : ∀ c, StartsTime c → P c)
    (hrest : ∀ c ∈ rest, P c) : ∀ c ∈ text, P c := by
  cases h with
  | date hday alone => exact hday.forall_mem hdigit hdate hrest
  | moment hday hc hclock =>
    have hafter := hclock.forall_mem hdigit htime hrest
    exact hday.forall_mem hdigit hdate (List.forall_mem_cons.2 ⟨hstarts _ hc, hafter⟩)

/-- A number starts with a digit. -/
theorem Number.exists_cons {n : Nat} (h : Number text n rest) :
    ∃ c cs, text = c :: cs ∧ c.isDigit = true := by
  obtain ⟨hne, hall, -⟩ := h
  rename_i digits
  cases digits with
  | nil => exact absurd rfl hne
  | cons c cs => exact ⟨c, cs ++ rest, rfl, hall c List.mem_cons_self⟩

end Characters

/-! ## Literals are operands -/

theorem toList_decimal (n : Int) :
    (decimal n).toList = (if n < 0 then ['-'] else []) ++ (Nat.repr n.natAbs).toList := by
  have hnone : ∀ length, String.ofList (List.replicate (0 - length) '0') = "" := by
    intro length
    rw [Nat.zero_sub]
    rfl
  rw [decimal, padded, Nat.sub_sub, hnone, String.append_empty, String.toList_append]
  split <;> rfl

/-- A number of more than 63 bits has no value. -/
theorem numberOrTime_repr_refused (separators : Separators) {n : Nat} (h : numberCeiling < n) :
    numberOrTime separators (Nat.repr n) = .error .badNumber := by
  rw [numberOrTime_of_whole (digitRun_repr n), digitsValue_toDigits, if_neg (Nat.not_le_of_lt h)]

section Operands

variable {word : String} {n : Nat} {rest : List Char}

theorem Number.isNumeral (h : Number word.toList n rest) : Machine.isNumeral word = true := by
  obtain ⟨c, cs, htext, hc⟩ := h.exists_cons
  rw [Machine.isNumeral, htext]
  exact hc

theorem Lexer.isWordChar_digit {c : Char} (hc : c.isDigit = true) :
    ({} : Lexer).isWordChar c = true := by
  simp [isWordChar, isNameChar, Char.isAlphanum, hc]

theorem Number.isWord (h : Number word.toList n rest)
    (hall : ∀ c ∈ word.toList, ({} : Lexer).isWordChar c = true) : ({} : Lexer).IsWord word := by
  obtain ⟨c, cs, htext, hc⟩ := h.exists_cons
  refine ⟨c, cs, htext, ?_, fun c hc => hall c (htext ▸ List.mem_cons_of_mem _ hc)⟩
  simp [Lexer.isNameChar, Char.isAlphanum, hc]

variable {separators : Separators}

/-- A time of the day is a word, whose value it is. -/
theorem ClockText.operand {minutes : Int} (h : ClockText separators word.toList minutes [])
    (htime : separators.time = ':' ∨ separators.time = '.') :
    ({} : Lexer).IsWord word ∧ Machine.isNumeral word = true
      ∧ numberOrTime separators word = .ok (.time minutes) := by
  have hseparator : ∀ c, separators.isTimeSeparator c = true → ({} : Lexer).isWordChar c = true := by
    intro c hc
    simp only [Separators.isTimeSeparator, Bool.or_eq_true, beq_iff_eq] at hc
    rcases hc with (rfl | rfl) | rfl
    · rfl
    · rfl
    · rcases htime with htime | htime <;> rw [htime] <;> rfl
  have hword := h.forall_mem (fun c => Lexer.isWordChar_digit) hseparator (List.forall_mem_nil _)
  have hclock := h
  obtain ⟨hhour, -⟩ := h
  have hnumeral := hhour.isNumeral
  exact ⟨hhour.isWord hword, hnumeral, (numberOrTime_eq_ok_iff hnumeral).2 (.inr ⟨_, hclock, rfl⟩)⟩

/-- A date without quotes in it stands between quotes, and is its value. -/
theorem DateLiteral.Spelled.operand {text : String} {literal : DateLiteral}
    (h : Spelled separators text.toList literal [])
    (hdate : separators.date = '/' ∨ separators.date = '-')
    (htime : separators.time = ':' ∨ separators.time = '.') :
    ({} : Lexer).Legible (.date text) ∧ quotedDate separators text = .ok literal.toValue := by
  have hquote : ∀ c ∈ text.toList, c ≠ '\x27' := by
    refine h.forall_mem ?_ ?_ ?_ ?_ (List.forall_mem_nil _)
    · rintro _ hc rfl
      cases hc
    · rintro _ hc rfl
      rcases hdate with hdate | hdate <;> simp [Separators.isDateSeparator, hdate] at hc
    · rintro _ hc rfl
      rcases htime with htime | htime <;> simp [Separators.isTimeSeparator, htime] at hc
    · rintro _ (hc | hc) rfl <;> cases hc
  exact ⟨⟨⟨_, _, rfl, rfl⟩, fun hmem => hquote _ hmem rfl⟩,
    quotedDate_eq_ok_iff.2 ⟨literal, h, rfl⟩⟩

end Operands

/-! ## Tokens -/

namespace Lexer

/-- The default lexer reads alike with the separators that it takes for parts
of words anyway. -/
theorem next_eq_default {lexer : Lexer} (hcontinuation : lexer.continuation = some '\\')
    (htime : lexer.timeSeparator = ':' ∨ lexer.timeSeparator = '.') (cs : List Char) :
    lexer.next cs = ({} : Lexer).next cs := by
  have hskips : lexer.skips = ({} : Lexer).skips := by
    funext c
    rw [skips, hcontinuation]
    rfl
  have hword : lexer.isWordChar = ({} : Lexer).isWordChar := by
    funext c
    show (isNameChar c || c == ':' || c == '.' || c == lexer.timeSeparator)
      = (isNameChar c || c == ':' || c == '.' || c == ':')
    rcases htime with htime | htime
    · rw [htime]
    · rw [htime]
      cases isNameChar c <;> cases c == ':' <;> cases c == '.' <;> rfl
  simp only [next, readToken, readWord, skipBlanks, hskips, hword]

/-- A token alone is read from its spelling, and then the end of the text. -/
theorem next_spelled {t : Token} (ht : ({} : Lexer).Legible t) :
    ∃ rest, ({} : Lexer).next t.spelled = (.ok t, rest)
      ∧ ({} : Lexer).next rest = (.ok .endOfText, []) := by
  have hunread : ({} : Lexer).Unread [t] t.spelled := by
    have hwritten := unread_written {} [t]
    rwa [written_cons, trailing, List.flatMap_nil, List.append_nil] at hwritten
  obtain ⟨rest, hnext, hleft⟩ := next_of_unread hunread ht (by rintro _ - _ ⟨⟩)
  exact ⟨rest, hnext, next_of_unread_nil hleft⟩

theorem next_minus (cs : List Char) : ({} : Lexer).next ('-' :: cs) = (.ok (.operator "-"), cs) :=
  rfl

end Lexer

/-! ## Steps -/

namespace Machine

variable {world : World} {m : Machine} {t : Token} {rest : List Char}

/-- A stack below its limit is not full. -/
theorem not_full {limit : Option Nat} {height : Nat} (h : ∀ depth ∈ limit, height < depth) :
    ¬ limit.any (· ≤ height) = true := by
  cases limit with
  | none => exact Bool.false_ne_true
  | some depth =>
    have hlt : height < depth := h depth rfl
    simpa using hlt

/-- The end of the text is held after an operand. -/
theorem step_end (hp : m.phase = .operator)
    (hnext : world.lexer.next m.scope.rest = (.ok .endOfText, rest)) :
    m.step world = .running { m.withRest rest with phase := .holding (.terminator .endOfText) } :=
  step_operator hp hnext

/-- A minus sign before an operand waits for it. -/
theorem step_minus (hp : m.phase = .atom)
    (hnext : world.lexer.next m.scope.rest = (.ok (.operator "-"), rest))
    (hroom : ∀ depth ∈ world.config.operatorDepth, m.operators.height < depth) :
    m.step world = .running
      { m.withRest rest with operators := m.operators.push (.unary .neg), phase := .atom } :=
  (step_atom hp hnext).trans (if_neg (not_full hroom))

/-- A minus sign is applied to the operand after it, whatever is held then. -/
theorem step_negation {n : Int} {held : Held} {operators : Stack PendingOp} {operands : Stack Value}
    (hp : m.phase = .holding held) (hop : m.operators = operators.push (.unary .neg))
    (hmine : m.base.operators < m.operators.height) (hv : m.operands = operands.push (.int n))
    (hfits : fits64 (-n) = true) :
    m.step world = .running { m with operators, operands := operands.push (.int (-n)) } := by
  have hnegated : UnaryOp.neg.apply (.int n) = .ok (.int (-n)) := if_pos hfits
  rw [step_apply hp hop hmine (held.yieldsTo_unary .neg), applyTop_unary hop hv, hnegated]

/-- A token that is an operand by itself, at the end of the text. -/
theorem run_operand {v : Value} (hp : m.phase = .atom)
    (hnext : world.lexer.next m.scope.rest = (.ok t, rest))
    (hend : world.lexer.next rest = (.ok .endOfText, []))
    (htake : (m.withRest rest).takeAtom world t = (m.withRest rest).settle world (.ok v))
    (hroom : ∀ depth ∈ world.config.operandDepth, m.operands.height < depth) :
    m.run world = Machine.run world
      { m.withRest [] with
        operands := m.operands.push v, phase := .holding (.terminator .endOfText) } := by
  have hdelivered : (m.withRest rest).deliver world v = .running
      { m.withRest rest with operands := m.operands.push v, phase := .operator } :=
    if_neg (not_full hroom)
  have hstep := ((step_atom hp hnext).trans htake).trans hdelivered
  rw [run_of_running hstep, run_of_running (step_end rfl hend)]
  rfl

/-- At the end of the outermost level, its value is that of the evaluation. -/
theorem run_terminator {v : Value} {operands : Stack Value} {terminator : Terminator}
    (hp : m.phase = .holding (.terminator terminator)) (hframes : m.frames = [])
    (hops : m.operators.height = m.base.operators) (hv : m.operands = operands.push v)
    (hvals : operands.height = m.base.operands) :
    m.run world = { result := .ok (v, terminator), machine := { m with operands } } := by
  apply run_of_halted
  rw [step_terminator hp hops hv hvals, closeLevel, hframes]

theorem takeAtom_numeral {word : String} (h : isNumeral word = true) :
    m.takeAtom world (.word word)
      = m.settle world (numberOrTime world.environment.host.separators word) := by
  simp only [takeAtom, takeWord, if_pos h]

end Machine

/-! ## Texts of one operand -/

namespace Interpreter

/-- What an evaluation yields that ends with a value and leaves both stacks as
they were. -/
def yielding (i : Interpreter) (v : Value) : Evaluated where
  result := .ok { value := v, terminator := .endOfText, nonconst := false }
  rest := []
  interpreter := i

/-- What evaluating a literal asks for: that texts are read as by default, and
that there is room for an operator and an operand. -/
structure Ready (i : Interpreter) (environment : Environment) (functions : UserFunctions) :
    Prop where
  lexer : ∀ cs, (i.world environment functions).lexer.next cs = ({} : Lexer).next cs
  operators : ∀ depth ∈ i.config.operatorDepth, i.operators.height < depth
  operands : ∀ depth ∈ i.config.operandDepth, i.operands.height < depth

variable {i : Interpreter} {environment : Environment} {functions : UserFunctions}
  {locals : Locals} {t : Token}

theorem conclude_eq_yielding {halt : Halt} {v : Value} (hresult : halt.result = .ok (v, .endOfText))
    (hops : halt.machine.operators = i.operators) (hvals : halt.machine.operands = i.operands)
    (hconst : halt.machine.nonconst = false) (hrest : halt.machine.outerRest = []) :
    i.conclude halt = i.yielding v := by
  have hafter : i.after halt = i := by
    rw [after, hresult, hops, hvals, hconst, Bool.or_false]
  rw [conclude, hafter, hresult, hconst, hrest]
  rfl

/-- What an evaluation comes to if its machine comes to the end of the
outermost level. -/
theorem evaluate_eq_yielding {source : List Char} {m : Machine} {v : Value}
    (hrun : (Machine.start { rest := source, locals } i.operators i.operands).run
      (i.world environment functions) = m.run (i.world environment functions))
    (hp : m.phase = .holding (.terminator .endOfText)) (hrest : m.scope.rest = [])
    (hframes : m.frames = []) (hbase : m.base = ⟨i.operators.height, i.operands.height⟩)
    (hops : m.operators = i.operators) (hvals : m.operands = i.operands.push v)
    (hconst : m.nonconst = false) :
    i.evaluate environment functions locals source = i.yielding v := by
  have hhalt : m.run (i.world environment functions)
      = { result := .ok (v, .endOfText), machine := { m with operands := i.operands } } :=
    Machine.run_terminator hp hframes (by rw [hops, hbase]) hvals (by rw [hbase])
  rw [evaluate, evaluateScope, hrun, hhalt]
  refine conclude_eq_yielding rfl hops rfl hconst ?_
  rw [Machine.outerRest, hframes]
  exact hrest

namespace Ready

variable (ready : i.Ready environment functions)

include ready

/-- An operand alone is evaluated to its value. -/
theorem evaluate_operand {v : Value} (ht : ({} : Lexer).Legible t)
    (htake : ∀ m : Machine, m.takeAtom (i.world environment functions) t
      = m.settle (i.world environment functions) (.ok v)) :
    i.evaluate environment functions locals t.spelled = i.yielding v := by
  obtain ⟨rest, hnext, hend⟩ := Lexer.next_spelled ht
  exact evaluate_eq_yielding (Machine.run_operand rfl ((ready.lexer _).trans hnext)
    ((ready.lexer _).trans hend) (htake _) ready.operands) rfl rfl rfl rfl rfl rfl rfl

/-- A minus sign at the front of a text waits for the rest. -/
theorem run_minus (source : List Char) :
    (Machine.start { rest := '-' :: source, locals } i.operators i.operands).run
        (i.world environment functions)
      = Machine.run (i.world environment functions)
          { Machine.start { rest := source, locals } i.operators i.operands with
            operators := i.operators.push (.unary .neg) } :=
  Machine.run_of_running
    (Machine.step_minus rfl ((ready.lexer _).trans (Lexer.next_minus source)) ready.operators)

/-- A number is negated by a minus sign before it. -/
theorem evaluate_negated {n : Int} (ht : ({} : Lexer).Legible t)
    (htake : ∀ m : Machine, m.takeAtom (i.world environment functions) t
      = m.settle (i.world environment functions) (.ok (.int n))) (hfits : fits64 (-n) = true) :
    i.evaluate environment functions locals ('-' :: t.spelled) = i.yielding (.int (-n)) := by
  obtain ⟨rest, hnext, hend⟩ := Lexer.next_spelled ht
  apply evaluate_eq_yielding
  case hrun =>
    -- The sign waits below the number, and is applied when the end of the text is held.
    refine Eq.trans (ready.run_minus t.spelled) ?_
    refine Eq.trans (Machine.run_operand rfl ((ready.lexer _).trans hnext)
      ((ready.lexer _).trans hend) (htake _) ready.operands) ?_
    exact Machine.run_of_running (Machine.step_negation rfl rfl (Nat.lt_succ_self _) rfl hfits)
  all_goals rfl

/-- A number that has no value has none after a minus sign either. -/
theorem evaluate_negated_refused {e : EvalError} (ht : ({} : Lexer).Legible t)
    (htake : ∀ m : Machine, m.takeAtom (i.world environment functions) t
      = m.settle (i.world environment functions) (.error e)) :
    (i.evaluate environment functions locals ('-' :: t.spelled)).result = .error e := by
  obtain ⟨rest, hnext, -⟩ := Lexer.next_spelled ht
  obtain ⟨machine, hrun⟩ : ∃ machine,
      (Machine.start { rest := '-' :: t.spelled, locals } i.operators i.operands).run
        (i.world environment functions) = { result := .error e, machine } :=
    ⟨_, Eq.trans (ready.run_minus t.spelled) (Machine.run_of_halted
      ((Machine.step_atom rfl ((ready.lexer _).trans hnext)).trans (htake _)))⟩
  rw [evaluate, evaluateScope, hrun]
  rfl

/-! ## Values -/

/-- A date or a moment between quotes. -/
theorem evaluate_quoted {text : String} {literal : DateLiteral}
    (h : DateLiteral.Spelled environment.host.separators text.toList literal [])
    (hdate : environment.host.separators.date = '/' ∨ environment.host.separators.date = '-')
    (htime : environment.host.separators.time = ':' ∨ environment.host.separators.time = '.') :
    i.evaluate environment functions locals (Token.spelled (.date text))
      = i.yielding literal.toValue := by
  obtain ⟨hlegible, hvalue⟩ := h.operand hdate htime
  exact ready.evaluate_operand hlegible fun m => congrArg (m.settle _) hvalue

/-- An integer other than the least is its digits, after a minus sign if it is
negative. -/
theorem evaluate_int {n : Int} (hfrom : -0x8000000000000000 < n) (hto : n < 0x8000000000000000) :
    i.evaluate environment functions locals (decimal n).toList = i.yielding (.int n) := by
  have hdigits : fits64 n.natAbs = true := fits64_iff.2 (by omega)
  have hlegible := Lexer.legible_word (Lexer.isWord_repr n.natAbs)
  have htake : ∀ m : Machine, m.takeAtom (i.world environment functions) (.word n.natAbs.repr)
      = m.settle (i.world environment functions) (.ok (.int n.natAbs)) := by
    intro m
    rw [Machine.takeAtom_numeral (isNumeral_repr _), numberOrTime_repr _ ⟨_, hdigits⟩]
  rw [toList_decimal]
  by_cases hneg : n < 0
  · have hn : -(n.natAbs : Int) = n := by omega
    have hfits : fits64 (-(n.natAbs : Int)) = true := fits64_iff.2 (by omega)
    have hnegated : i.evaluate environment functions locals ('-' :: n.natAbs.repr.toList)
        = i.yielding (.int (-n.natAbs)) := ready.evaluate_negated hlegible htake hfits
    rw [if_pos hneg]
    rwa [hn] at hnegated
  · have hn : (n.natAbs : Int) = n := by omega
    rw [if_neg hneg, ← hn]
    exact ready.evaluate_operand hlegible htake

/-- The digits of the least integer are no number by themselves. -/
theorem evaluate_least_int :
    (i.evaluate environment functions locals (decimal (-0x8000000000000000)).toList).result
      = .error .badNumber := by
  have htext : (decimal (-0x8000000000000000)).toList
      = '-' :: (Token.word (Nat.repr 0x8000000000000000)).spelled := toList_decimal _
  rw [htext]
  refine ready.evaluate_negated_refused (Lexer.legible_word (Lexer.isWord_repr _)) fun m => ?_
  rw [Machine.takeAtom_numeral (isNumeral_repr _)]
  exact congrArg (m.settle _) (numberOrTime_repr_refused _ (by decide))

end Ready

end Interpreter

/-- The literal of a value evaluates to this value, and to the end of the text,
as a constant, with whatever variables, functions and locals, and leaves the
interpreter as it was. It takes no more than room for one operator and one
operand.

All integers have a literal but the least one, whose digits are no number; and
so have all times of the day, all dates and moments between the years 1990 and
2078, and all strings. -/
theorem literals_evaluate (i : Interpreter) (environment : Environment) (functions : UserFunctions)
    (locals : Locals) (hcontinuation : i.config.continuation = some '\\')
    (hdate : environment.host.separators.date = '/' ∨ environment.host.separators.date = '-')
    (htime : environment.host.separators.time = ':' ∨ environment.host.separators.time = '.')
    (hoperators : ∀ depth ∈ i.config.operatorDepth, i.operators.height < depth)
    (hoperands : ∀ depth ∈ i.config.operandDepth, i.operands.height < depth) :
    (∀ v : Value, v.HasLiteral →
        i.evaluate environment functions locals (v.literal environment.host.separators)
          = { result := .ok { value := v, terminator := .endOfText, nonconst := false },
              rest := [], interpreter := i })
      ∧ (i.evaluate environment functions locals
          ((Value.int (-0x8000000000000000)).literal environment.host.separators)).result
        = .error .badNumber := by
  have ready : i.Ready environment functions :=
    ⟨Lexer.next_eq_default hcontinuation htime, hoperators, hoperands⟩
  have hsep : environment.host.separators.ReadUnder environment.host.separators :=
    (Separators.settable_iff.2 ⟨hdate, htime⟩).readUnder _
  refine ⟨fun v h => ?_, ready.evaluate_least_int⟩
  cases v with
  | int n => exact ready.evaluate_int h.1 h.2
  | str content => exact ready.evaluate_operand (Lexer.legible_str content) fun _ => rfl
  | time minutes =>
    have hclock := clockText_writtenTime hsep.time_whole hsep.time h.1 h.2
    obtain ⟨hword, hnumeral, hvalue⟩ := hclock.operand htime
    refine ready.evaluate_operand (Lexer.legible_word hword) fun m => ?_
    rw [Machine.takeAtom_numeral hnumeral]
    exact congrArg (m.settle _) hvalue
  | date day =>
    have hspelled := (spelled_writtenDate_iff hsep day).2 ⟨h, rfl, rfl⟩
    exact ready.evaluate_quoted hspelled hdate htime
  | dateTime moment =>
    have hspelled := (spelled_written_dateTime_iff hsep moment).2 ⟨h, rfl, rfl⟩
    rw [← momentOf_ediv_emod moment] at hspelled ⊢
    exact ready.evaluate_quoted hspelled hdate htime

/-- A negative number, a moment and a string with a quote and a backslash in
it, on stacks of one entry and under the other separators; and the number that
is none. -/
theorem literals_on_low_stacks :
    let i : Interpreter := { config := { operatorDepth := some 1, operandDepth := some 1 } }
    let environment : Environment := { host := { separators := { date := '-', time := '.' } } }
    let result := fun source : String => (i.evaluate environment {} {} source.toList).result
    (i.config.continuation = some '\\'
        ∧ (environment.host.separators.date = '/' ∨ environment.host.separators.date = '-')
        ∧ (environment.host.separators.time = ':' ∨ environment.host.separators.time = '.')
        ∧ (∀ depth ∈ i.config.operatorDepth, i.operators.height < depth)
        ∧ ∀ depth ∈ i.config.operandDepth, i.operands.height < depth)
      ∧ result "-5" = .ok { value := .int (-5), terminator := .endOfText, nonconst := false }
      ∧ result "'2024-02-29@07.05'"
        = .ok { value := .dateTime 17967305, terminator := .endOfText, nonconst := false }
      ∧ result "\"\\\"\\\\\""
        = .ok { value := .str "\"\\", terminator := .endOfText, nonconst := false }
      ∧ result "-9223372036854775808" = .error .badNumber := by
  intro i environment result
  have hoperators : ∀ depth ∈ i.config.operatorDepth, i.operators.height < depth := by decide
  have hoperands : ∀ depth ∈ i.config.operandDepth, i.operands.height < depth := by decide
  obtain ⟨hvalues, hleast⟩ :=
    literals_evaluate i environment {} {} rfl (.inr rfl) (.inr rfl) hoperators hoperands
  have hresult : ∀ v : Value, v.HasLiteral → ∀ source : String,
      v.literal environment.host.separators = source.toList →
      result source = .ok { value := v, terminator := .endOfText, nonconst := false } := by
    intro v hv source hsource
    show (i.evaluate environment {} {} source.toList).result = _
    rw [← hsource, hvalues v hv]
  refine ⟨⟨rfl, .inr rfl, .inr rfl, hoperators, hoperands⟩, ?_, ?_, ?_, ?_⟩
  · exact hresult (.int (-5)) ⟨by decide, by decide⟩ _ (by decide +kernel)
  · exact hresult (.dateTime 17967305) (by decide +kernel : Writable _) _ (by decide +kernel)
  · exact hresult (.str _) trivial _ (by decide +kernel)
  · have hsource : (Value.int (-0x8000000000000000)).literal environment.host.separators
        = "-9223372036854775808".toList := by decide +kernel
    show (i.evaluate environment {} {} "-9223372036854775808".toList).result = _
    rw [← hsource]
    exact hleast

end ReminderExpr
