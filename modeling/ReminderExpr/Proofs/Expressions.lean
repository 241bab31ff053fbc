/-
ReminderExpr.Proofs.Expressions — expressions as trees.

Evaluation builds no tree; here is the tree that an expression is meant to be.
`Expr.value` is its meaning, computed from the leaves upwards and from left to
right. `Expr.tokens` renders it with parentheses only where its operators
would otherwise take other operands: around the operand of an operator before
it, or a left operand, that is weaker than the operator, and around a right
operand that is no stronger. A `group` is a part of an expression that stands
between parentheses whether they are needed or not.

The tokens of expressions are `Legible`, and the names and spellings in them
lead back to the operators and functions that they stand for.
-/
import ReminderExpr.Evaluation.Machine
import ReminderExpr.Proofs.Spelling

namespace ReminderExpr

/-! ## Trees -/

/-- The integers that are written as digits alone. -/
abbrev Numeral := { n : Nat // fits64 n = true }

/-- The names of variables: the words that do not start with a digit. -/
abbrev VariableName :=
  { name : String // ({} : Lexer).IsWord name ∧ Machine.isNumeral name = false }

/-- Expressions. -/
inductive Expr
  | int (n : Numeral)
  | str (content : String)
  /-- A variable, a local name, or a system variable with its `$`. -/
  | var (name : VariableName)
  | unary (op : UnaryOp) (e : Expr)
  | binary (op : BinaryOp) (left right : Expr)
  | call (b : Builtin) (arguments : List Expr)
  /-- An expression between parentheses. -/
  | group (e : Expr)

namespace Expr

/-- What holds of an expression if it holds of its parts holds of all. -/
@[elab_as_elim] theorem induction {P : Expr → Prop} (int : ∀ n, P (.int n))
    (str : ∀ content, P (.str content)) (var : ∀ name, P (.var name))
    (unary : ∀ op e, P e → P (.unary op e))
    (binary : ∀ op left right, P left → P right → P (.binary op left right))
    (call : ∀ b arguments, (∀ e ∈ arguments, P e) → P (.call b arguments))
    (group : ∀ e, P e → P (.group e)) (e : Expr) : P e :=
  @Expr.rec P (fun es => ∀ e ∈ es, P e) int str var unary binary call group
    (fun _ h => nomatch h) (fun _ _ he hes => List.forall_mem_cons.2 ⟨he, hes⟩) e

/-! ## Values -/

section Values

variable (world : World) (locals : Locals)

mutual

/-- The value of an expression, or the failure of the first part that has none. -/
def value : Expr → Result Value
  | .int n => .ok (.int n)
  | .str content => .ok (.str content)
  | .var name => (Machine.resolve world locals name).1
  | .unary op e => do op.apply (← value e)
  | .binary op left right => do
      let l ← value left
      let r ← value right
      op.apply world.environment.host.arithmetic l r
  | .call b arguments => do
      let vs ← values arguments
      b.signature.checkArity vs.length
      b.apply world.environment world.functions vs
  | .group e => value e

/-- The values of arguments. -/
def values : List Expr → Result (List Value)
  | [] => .ok []
  | e :: es => do
      let v ← value e
      let vs ← values es
      .ok (v :: vs)

end

end Values

/-! ## Texts -/

/-- How strongly an expression holds together: like its outermost operator,
or more strongly than any if it is a single operand. -/
def strength : Expr → Nat
  | .unary op _ => op.precedence
  | .binary op _ _ => op.precedence
  | _ => 23

/-- Tokens between parentheses, if they are needed. -/
def enclosed (needed : Bool) (ts : List Token) : List Token :=
  if needed then .leftParen :: (ts ++ [.rightParen]) else ts

mutual

/-- The tokens of an expression. -/
def tokens : Expr → List Token
  | .int n => [.word (Nat.repr n)]
  | .str content => [.str content]
  | .var name => [.word name]
  | .unary op e =>
      .operator op.spelling :: enclosed (decide (e.strength < op.precedence)) (tokens e)
  | .binary op left right =>
      enclosed (decide (left.strength < op.precedence)) (tokens left)
        ++ .operator op.spelling
          :: enclosed (decide (right.strength ≤ op.precedence)) (tokens right)
  | .call b arguments => .call b.name :: (argumentTokens arguments ++ [.rightParen])
  | .group e => .leftParen :: (tokens e ++ [.rightParen])

/-- The tokens of arguments, with commas between them. -/
def argumentTokens : List Expr → List Token
  | [] => []
  | [e] => tokens e
  | e :: es => tokens e ++ .comma :: argumentTokens es

end

/-- The text of an expression: its tokens with one blank between them. -/
def text (e : Expr) : List Char := written e.tokens

/-- A difference, a product and a call keep the parentheses that they need. -/
example :
    let x : VariableName := ⟨"x", ⟨⟨'x', [], rfl, rfl, List.forall_mem_nil _⟩, rfl⟩⟩
    let difference : Expr := .binary .sub (.int ⟨1, rfl⟩) (.var x)
    (Expr.binary .sub (.unary .neg difference)
        (.binary .sub (.call .max [difference, .str "\"a\""]) difference)).text
      = "- ( 1 - x ) - ( max( 1 - x , \"\\\"a\\\"\" ) - ( 1 - x ) )".toList := by
  cbv

end Expr

/-! ## Operators and functions by name -/

theorem BinaryOp.ofSpelling?_spelling (op : BinaryOp) :
    BinaryOp.ofSpelling? op.spelling = some op := by
  cases op <;> decide

theorem UnaryOp.ofSpelling?_spelling (op : UnaryOp) :
    UnaryOp.ofSpelling? op.spelling = some op := by
  cases op <;> decide

theorem UnaryOp.spelling_ne_plus (op : UnaryOp) : op.spelling ≠ "+" := by
  cases op <;> decide

theorem BinaryOp.precedence_lt (op : BinaryOp) (op' : UnaryOp) :
    op.precedence < op'.precedence := by
  cases op <;> cases op' <;> decide

theorem Builtin.ofName?_name (b : Builtin) : Builtin.ofName? b.name = some b := by
  have hall : ∀ b ∈ Builtin.table.toList, Builtin.ofName? b.name = some b := by decide +kernel
  exact hall b b.mem_table

/-! ## Legible tokens -/

namespace Lexer

/-- A word starts with a character that is not skipped. -/
theorem skips_of_wordStart {c : Char} (h : (isNameChar c || c == '$') = true) :
    ({} : Lexer).skips c = false := by
  have hcode : 48 ≤ c.toNat ∧ c.toNat ≤ 57 ∨ 65 ≤ c.toNat ∧ c.toNat ≤ 90
      ∨ 97 ≤ c.toNat ∧ c.toNat ≤ 122 ∨ c.toNat = 95 ∨ c.toNat = 36 := by
    have hclass : (isNameChar c || c == '$')
        = ((decide (c.val ≥ 65 ∧ c.val ≤ 90)
          || decide (c.val ≥ 97) && decide (c.val ≤ 122)
          || decide (c.val ≥ 48) && decide (c.val ≤ 57) || c == '_') || c == '$') := rfl
    simp only [hclass, Bool.or_eq_true, Bool.and_eq_true, decide_eq_true_eq, beq_iff_eq,
      UInt32.le_iff_toNat_le] at h
    rcases h with (((h | h) | h) | rfl) | rfl
    · exact .inr (.inl h)
    · exact .inr (.inr (.inl h))
    · exact .inl h
    · exact .inr (.inr (.inr (.inl rfl)))
    · exact .inr (.inr (.inr (.inr rfl)))
  have hne : ((some '\\' : Option Char) == some c) = false := by
    rw [beq_eq_false_iff_ne]
    rintro ⟨⟩
    revert hcode
    decide
  simp only [skips, hne, Bool.or_false, Text.isBlank, Text.blankRanges, List.any_cons,
    List.any_nil, Bool.or_eq_false_iff, Bool.and_eq_false_iff, decide_eq_false_iff_not]
  omega

theorem legible_word {text : String} (h : ({} : Lexer).IsWord text) :
    ({} : Lexer).Legible (.word text) := by
  obtain ⟨first, rest, htext, hfirst, hrest⟩ := h
  exact ⟨⟨first, rest, htext, skips_of_wordStart hfirst⟩, ⟨first, rest, htext, hfirst, hrest⟩, rfl⟩

theorem legible_call {name : String} (h : ({} : Lexer).IsWord name) :
    ({} : Lexer).Legible (.call name) := by
  obtain ⟨first, rest, htext, hfirst, hrest⟩ := h
  refine ⟨⟨first, rest ++ ['('], ?_, skips_of_wordStart hfirst⟩,
    ⟨first, rest, htext, hfirst, hrest⟩, rfl, rfl⟩
  rw [Token.spelled, htext]
  rfl

theorem legible_str (content : String) : ({} : Lexer).Legible (.str content) :=
  ⟨⟨_, _, rfl, rfl⟩, trivial⟩

theorem legible_comma : ({} : Lexer).Legible .comma := ⟨⟨_, _, rfl, rfl⟩, trivial⟩

theorem legible_leftParen : ({} : Lexer).Legible .leftParen := ⟨⟨_, _, rfl, rfl⟩, trivial⟩

theorem legible_rightParen : ({} : Lexer).Legible .rightParen := ⟨⟨_, _, rfl, rfl⟩, trivial⟩

theorem legible_binary (op : BinaryOp) : ({} : Lexer).Legible (.operator op.spelling) := by
  cases op <;> exact ⟨⟨_, _, rfl, rfl⟩, by decide⟩

theorem legible_unary (op : UnaryOp) : ({} : Lexer).Legible (.operator op.spelling) := by
  cases op <;> exact ⟨⟨_, _, rfl, rfl⟩, by decide⟩

/-- The names of functions are words. -/
theorem isWord_builtin (b : Builtin) : ({} : Lexer).IsWord b.name := by
  cases b <;> exact ⟨_, _, rfl, rfl, List.all_eq_true.1 rfl⟩

/-- Numbers are words. -/
theorem isWord_repr (n : Nat) : ({} : Lexer).IsWord n.repr := by
  have hdigits : ∀ c ∈ Nat.toDigits 10 n, isNameChar c = true := by
    intro c hc
    have hdigit := Nat.isDigit_of_mem_toDigits (by decide) (by decide) hc
    simp [isNameChar, Char.isAlphanum, hdigit]
  obtain ⟨first, rest, heq⟩ := List.exists_cons_of_ne_nil (Nat.toDigits_ne_nil (n := n) (b := 10))
  rw [heq] at hdigits
  refine ⟨first, rest, ?_, ?_, ?_⟩
  · rw [Nat.repr_eq_ofList_toDigits, String.toList_ofList, heq]
  · rw [hdigits first List.mem_cons_self, Bool.true_or]
  · intro c hc
    simp [isWordChar, hdigits c (List.mem_cons_of_mem first hc)]

/-- Only a parenthesis is spelled like one. -/
theorem Legible.eq_of_paren {lexer : Lexer} {t : Token} {cs : List Char} (ht : lexer.Legible t) :
    (t.spelled = '(' :: cs → t = .leftParen) ∧ (t.spelled = ')' :: cs → t = .rightParen) := by
  have hshape := ht.shape
  have word : ∀ {text : String} (after : List Char), lexer.IsWord text →
      text.toList ++ after ≠ '(' :: cs ∧ text.toList ++ after ≠ ')' :: cs := by
    rintro text after ⟨first, rest, htext, hfirst, -⟩
    rw [htext]
    constructor <;> rintro ⟨⟩ <;> revert hfirst <;> decide
  cases t with
  | word text =>
    have hne := word [] hshape.1
    rw [List.append_nil] at hne
    exact ⟨fun h => absurd h hne.1, fun h => absurd h hne.2⟩
  | call name =>
    have hne := word ['('] hshape.1
    exact ⟨fun h => absurd h hne.1, fun h => absurd h hne.2⟩
  | operator spelling =>
    have hhead : ∀ s ∈ operatorSpellings,
        s.toList.head? ≠ some '(' ∧ s.toList.head? ≠ some ')' := by decide
    have hne := hhead spelling hshape
    exact ⟨fun h => absurd (congrArg List.head? h) hne.1,
      fun h => absurd (congrArg List.head? h) hne.2⟩
  | leftParen => exact ⟨fun _ => rfl, nofun⟩
  | rightParen => exact ⟨nofun, fun _ => rfl⟩
  | _ => exact ⟨nofun, nofun⟩

/-- The text of another token does not start with a parenthesis. -/
theorem Legible.append_ne_open {lexer : Lexer} {t : Token} (ht : lexer.Legible t)
    (hne : t ≠ .leftParen) (after rest : List Char) : t.spelled ++ after ≠ '(' :: rest := by
  intro hopen
  obtain ⟨c, cs, hc, -⟩ := ht.first
  rw [hc] at hopen
  cases hopen
  exact hne (ht.eq_of_paren.1 hc)

/-- A text that starts with another token does not make a call of a word before
it. -/
theorem Legible.not_open {lexer : Lexer} {t : Token} (ht : lexer.Legible t) (hne : t ≠ .leftParen)
    (ts : List Token) (rest : List Char) :
    lexer.skipBlanks (trailing (t :: ts)) ≠ '(' :: rest := by
  rw [(lexer.unread_trailing _).skipBlanks_eq ht]
  exact ht.append_ne_open hne _ rest

end Lexer

/-! ## Numerals -/

/-- Digits are read as the number that they are written for. -/
theorem digitsValue_toDigits (n : Nat) : Text.digitsValue (Nat.toDigits 10 n) = n := by
  have hfold : ∀ (cs : List Char) (acc : Nat),
      Text.digitsValueFrom acc cs = Nat.ofDigitChars 10 cs acc := by
    intro cs
    induction cs with
    | nil => exact fun _ => rfl
    | cons c cs ih => exact fun acc => ih _
  rw [Text.digitsValue, hfold]
  exact Nat.ofDigitChars_toDigits (by decide) (by decide)

/-- The text of a number is one run of digits. -/
theorem digitRun_repr (n : Nat) : Text.digitRun (Nat.repr n).toList = (Nat.toDigits 10 n, []) := by
  have hdigits : ∀ c ∈ Nat.toDigits 10 n, c.isDigit = true :=
    fun c hc => Nat.isDigit_of_mem_toDigits (by decide) (by decide) hc
  rw [Nat.repr_eq_ofList_toDigits, String.toList_ofList, Text.digitRun,
    List.takeWhile_eq_self_iff.2 hdigits, List.dropWhile_eq_nil_iff.2 hdigits]

theorem numberOrTime_repr (separators : Separators) (n : Numeral) :
    numberOrTime separators (Nat.repr n) = .ok (.int n) := by
  unfold numberOrTime
  rw [digitRun_repr]
  dsimp only
  rw [Text.checkedValue?_eq, digitsValue_toDigits, if_pos (le_numberCeiling_iff.2 n.2)]

theorem isNumeral_repr (n : Nat) : Machine.isNumeral n.repr = true := by
  obtain ⟨first, rest, heq⟩ := List.exists_cons_of_ne_nil (Nat.toDigits_ne_nil (n := n) (b := 10))
  have hdigit := Nat.isDigit_of_mem_toDigits (n := n) (b := 10) (c := first) (by decide) (by decide)
    (heq ▸ List.mem_cons_self)
  rw [Machine.isNumeral, Nat.repr_eq_ofList_toDigits, String.toList_ofList, heq]
  exact hdigit

/-! ## How expressions start -/

namespace Expr

theorem strength_pos (e : Expr) : 0 < e.strength := by
  cases e with
  | unary op e => exact Nat.succ_pos _
  | binary op left right => exact op.precedence_pos
  | _ => exact Nat.succ_pos _

/-- An expression starts with a token other than a closing parenthesis. -/
theorem tokens_eq_cons (e : Expr) :
    ∃ t ts, e.tokens = t :: ts ∧ ({} : Lexer).Legible t ∧ t ≠ .rightParen := by
  induction e using Expr.induction with
  | int n => exact ⟨_, _, rfl, Lexer.legible_word (Lexer.isWord_repr n), nofun⟩
  | str content => exact ⟨_, _, rfl, Lexer.legible_str content, nofun⟩
  | var name => exact ⟨_, _, rfl, Lexer.legible_word name.2.1, nofun⟩
  | unary op e ih => exact ⟨_, _, rfl, Lexer.legible_unary op, nofun⟩
  | binary op left right ihl ihr =>
    obtain ⟨t, ts, heq, ht, hne⟩ := ihl
    rw [tokens, enclosed]
    split
    · exact ⟨_, _, rfl, Lexer.legible_leftParen, nofun⟩
    · rw [heq]
      exact ⟨_, _, rfl, ht, hne⟩
  | call b arguments ih => exact ⟨_, _, rfl, Lexer.legible_call (Lexer.isWord_builtin b), nofun⟩
  | group e ih => exact ⟨_, _, rfl, Lexer.legible_leftParen, nofun⟩

theorem argumentTokens_cons (e e' : Expr) (es : List Expr) :
    argumentTokens (e :: e' :: es) = e.tokens ++ .comma :: argumentTokens (e' :: es) := by
  rw [argumentTokens]
  exact nofun

/-- Arguments start like the first one. -/
theorem argumentTokens_eq_cons (e : Expr) (es : List Expr) :
    ∃ t ts, argumentTokens (e :: es) = t :: ts ∧ ({} : Lexer).Legible t ∧ t ≠ .rightParen := by
  obtain ⟨t, ts, heq, ht, hne⟩ := e.tokens_eq_cons
  cases es with
  | nil => exact ⟨t, ts, heq, ht, hne⟩
  | cons e' es =>
    rw [argumentTokens_cons, heq]
    exact ⟨t, _, rfl, ht, hne⟩

end Expr

end ReminderExpr
