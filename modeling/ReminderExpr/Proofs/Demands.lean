/-
ReminderExpr.Proofs.Demands — how much room an expression needs.

How high the stacks rise depends on how an expression is put together, not on
what its operands are. A `Tree` is an expression with its operands as they are
written. While it is evaluated, an operator waits for the operand after it,
and a left operand or an argument lies below what comes later:

* `Tree.operatorDemand`, `Tree.operandDemand` — the room that a tree needs on
  the two stacks;
* `Tree.tokens`, `Tree.text` — its text, with parentheses only where they are
  needed;
* `Lexer.Scans` — the tokens of a text, with any blanks between them;
* `Lexer.scans_of_spread` — what is written with blanks between tokens is read;
* `Tree.scans_text` — the text of a tree consists of its tokens, if these are
  legible. With the standard settings, all but those of its operands are.
-/
import Mathlib.Data.List.Chain
import ReminderExpr.Proofs.Expressions
import ReminderExpr.Proofs.LongerTexts

namespace ReminderExpr

/-! ## Trees -/

/-- An operand of one token: a number, a time of day or a name, a string, or a
date. -/
inductive Leaf
  | word (text : String)
  | str (content : String)
  | date (content : String)

def Leaf.token : Leaf → Token
  | word text => .word text
  | str content => .str content
  | date content => .date content

theorem Leaf.token_ne_rightParen (operand : Leaf) : operand.token ≠ .rightParen := by
  cases operand <;> rintro ⟨⟩

/-- Expressions, by how they are put together. A `+` before an operand is not
an operator. -/
inductive Tree
  | leaf (operand : Leaf)
  | unary (op : UnaryOp) (e : Tree)
  | binary (op : BinaryOp) (left right : Tree)
  | call (b : Builtin) (arguments : List Tree)
  /-- A tree between parentheses, whether they are needed or not. -/
  | group (e : Tree)

namespace Tree

/-- What holds of a tree if it holds of its parts holds of all. -/
@[elab_as_elim] theorem induction {P : Tree → Prop} (leaf : ∀ operand, P (.leaf operand))
    (unary : ∀ op e, P e → P (.unary op e))
    (binary : ∀ op left right, P left → P right → P (.binary op left right))
    (call : ∀ b arguments, (∀ e ∈ arguments, P e) → P (.call b arguments))
    (group : ∀ e, P e → P (.group e)) (e : Tree) : P e :=
  @Tree.rec P (fun es => ∀ e ∈ es, P e) leaf unary binary call group
    (fun _ h => nomatch h) (fun _ _ he hes => List.forall_mem_cons.2 ⟨he, hes⟩) e

/-! ## Room -/

mutual

/-- How many operators wait at once, at most, for their operands. -/
def operatorDemand : Tree → Nat
  | .leaf _ => 0
  | .unary _ e => 1 + operatorDemand e
  | .binary _ left right => max (operatorDemand left) (1 + operatorDemand right)
  | .call _ arguments => argumentsOperatorDemand arguments
  | .group e => operatorDemand e

def argumentsOperatorDemand : List Tree → Nat
  | [] => 0
  | e :: es => max (operatorDemand e) (argumentsOperatorDemand es)

end

mutual

/-- How many operands wait at once, at most, the value of the tree included. -/
def operandDemand : Tree → Nat
  | .leaf _ => 1
  | .unary _ e => operandDemand e
  | .binary _ left right => max (operandDemand left) (1 + operandDemand right)
  | .call _ arguments => max 1 (argumentsOperandDemand 0 arguments)
  | .group e => operandDemand e

/-- The same for arguments, with the values of `count` others below them. -/
def argumentsOperandDemand : Nat → List Tree → Nat
  | _, [] => 0
  | count, e :: es => max (count + operandDemand e) (argumentsOperandDemand (count + 1) es)

end

theorem argumentsOperatorDemand_cons (e : Tree) (es : List Tree) :
    argumentsOperatorDemand (e :: es) = max e.operatorDemand (argumentsOperatorDemand es) := by
  rw [argumentsOperatorDemand]

theorem argumentsOperandDemand_cons (count : Nat) (e : Tree) (es : List Tree) :
    argumentsOperandDemand count (e :: es)
      = max (count + e.operandDemand) (argumentsOperandDemand (count + 1) es) := by
  rw [argumentsOperandDemand]

/-- There must be room for the value of a tree. -/
theorem operandDemand_pos (e : Tree) : 1 ≤ e.operandDemand := by
  induction e using Tree.induction with
  | leaf operand =>
    rw [operandDemand]
  | unary op e ih | group e ih => rwa [operandDemand]
  | binary op left right ihl ihr =>
    rw [operandDemand]
    exact Nat.le_trans ihl (Nat.le_max_left _ _)
  | call b arguments ih =>
    rw [operandDemand]
    exact Nat.le_max_left _ _

/-! ## Texts -/

/-- How strongly a tree holds together. -/
def strength : Tree → Nat
  | .unary op _ => op.precedence
  | .binary op _ _ => op.precedence
  | _ => 23

theorem strength_pos (e : Tree) : 0 < e.strength := by
  cases e with
  | unary op e => exact Nat.succ_pos _
  | binary op left right => exact op.precedence_pos
  | _ => exact Nat.succ_pos _

mutual

/-- The tokens of a tree, with parentheses as in `Expr.tokens`. -/
def tokens : Tree → List Token
  | .leaf operand => [operand.token]
  | .unary op e =>
      .operator op.spelling :: Expr.enclosed (decide (e.strength < op.precedence)) (tokens e)
  | .binary op left right =>
      Expr.enclosed (decide (left.strength < op.precedence)) (tokens left)
        ++ .operator op.spelling
          :: Expr.enclosed (decide (right.strength ≤ op.precedence)) (tokens right)
  | .call b arguments => .call b.name :: (argumentTokens arguments ++ [.rightParen])
  | .group e => .leftParen :: (tokens e ++ [.rightParen])

/-- The tokens of arguments, with commas between them. -/
def argumentTokens : List Tree → List Token
  | [] => []
  | [e] => tokens e
  | e :: es => tokens e ++ .comma :: argumentTokens es

end

/-- The text of a tree: its tokens with one blank between them. -/
def text (e : Tree) : List Char := written e.tokens

/-- The second argument of a call needs room above the first one. -/
example :
    let n (text : String) : Tree := .leaf (.word text)
    let e : Tree := .unary .neg (.binary .sub (n "1")
      (.call .max [n "12:30", .binary .mul (.leaf (.str "a")) (.binary .add (n "x") (n "2"))]))
    e.text = "- ( 1 - max( 12:30 , \"a\" * ( x + 2 ) ) )".toList
      ∧ e.operatorDemand = 4 ∧ e.operandDemand = 5 := by
  cbv

theorem argumentTokens_cons (e e' : Tree) (es : List Tree) :
    argumentTokens (e :: e' :: es) = e.tokens ++ .comma :: argumentTokens (e' :: es) := by
  rw [argumentTokens]
  exact nofun

/-- Arguments start like the first one. -/
theorem argumentTokens_eq_append (e : Tree) (es : List Tree) :
    ∃ ts, argumentTokens (e :: es) = e.tokens ++ ts := by
  cases es with
  | nil => exact ⟨[], (List.append_nil _).symm⟩
  | cons e' es => exact ⟨_, argumentTokens_cons e e' es⟩

/-- A tree starts with a token other than a closing parenthesis. -/
theorem tokens_eq_cons (e : Tree) : ∃ t ts, e.tokens = t :: ts ∧ t ≠ .rightParen := by
  induction e using Tree.induction with
  | leaf operand => exact ⟨_, _, rfl, operand.token_ne_rightParen⟩
  | binary op left right ihl ihr =>
    obtain ⟨t, ts, heq, hne⟩ := ihl
    rw [tokens, Expr.enclosed]
    split
    · exact ⟨_, _, rfl, by rintro ⟨⟩⟩
    · rw [heq]
      exact ⟨_, _, rfl, hne⟩
  | unary op e ih => exact ⟨_, _, rfl, by rintro ⟨⟩⟩
  | call b arguments ih => exact ⟨_, _, rfl, by rintro ⟨⟩⟩
  | group e ih => exact ⟨_, _, rfl, by rintro ⟨⟩⟩

end Tree

/-! ## The tokens of a text -/

namespace Lexer

/-- The tokens that are read from a text, up to its end. -/
inductive Scans (lexer : Lexer) : List Token → List Char → Prop
  | nil {cs : List Char} (h : lexer.next cs = (.ok .endOfText, [])) : Scans lexer [] cs
  | cons {t : Token} {ts : List Token} {cs rest : List Char}
      (h : lexer.next cs = (.ok t, rest)) (hrest : Scans lexer ts rest) : Scans lexer (t :: ts) cs

variable {lexer : Lexer} {t : Token} {ts : List Token} {cs cs' : List Char}

theorem next_skipBlanks (lexer : Lexer) (cs : List Char) :
    lexer.next (lexer.skipBlanks cs) = lexer.next cs := by
  have hskipped : lexer.skipBlanks (lexer.skipBlanks cs) = lexer.skipBlanks cs :=
    List.dropWhile_idempotent lexer.skips cs
  rw [next, next, hskipped]

theorem Scans.skipBlanks (h : lexer.Scans ts cs) : lexer.Scans ts (lexer.skipBlanks cs) := by
  cases h with
  | nil h => exact .nil ((lexer.next_skipBlanks cs).trans h)
  | cons h hrest => exact .cons ((lexer.next_skipBlanks cs).trans h) hrest

/-- A closing parenthesis is the next character but for blanks exactly if it is
the next token. -/
theorem Scans.closes (h : lexer.Scans (.rightParen :: ts) cs) :
    ∃ rest, lexer.skipBlanks cs = ')' :: rest ∧ lexer.Scans ts rest := by
  cases h with
  | cons h hrest =>
    obtain ⟨c, hc, hskipped⟩ := skipBlanks_of_next h rfl nofun
    cases hc
    exact ⟨_, hskipped, hrest⟩

theorem Scans.not_closes (h : lexer.Scans (t :: ts) cs) (hne : t ≠ .rightParen)
    (rest : List Char) : lexer.skipBlanks cs ≠ ')' :: rest := by
  intro hskipped
  cases h with
  | cons h hrest =>
    rw [next, hskipped] at h
    cases h
    exact hne rfl

/-- Blanks before a text change nothing. -/
theorem Scans.of_skipBlanks (h : lexer.Scans ts cs')
    (hskipped : lexer.skipBlanks cs = lexer.skipBlanks cs') : lexer.Scans ts cs := by
  have hnext : lexer.next cs = lexer.next cs' := by
    rw [← next_skipBlanks, hskipped, next_skipBlanks]
  cases h with
  | nil h => exact .nil (hnext.trans h)
  | cons h hrest => exact .cons (hnext.trans h) hrest

/-! ## Texts with blanks between tokens -/

/-- The texts of tokens with a blank between every two of them, and any blanks
after that one. -/
inductive Spread (lexer : Lexer) : List Token → List Char → Prop
  | nil : Spread lexer [] []
  | last (t : Token) : Spread lexer [t] t.spelled
  | cons (t : Token) {u : Token} {ts : List Token} {gap cs : List Char}
      (hgap : ∀ c ∈ gap, lexer.skips c = true) (hrest : Spread lexer (u :: ts) cs) :
      Spread lexer (t :: u :: ts) (t.spelled ++ ' ' :: (gap ++ cs))

/-- The same blanks may stand between all of them. -/
theorem spread_intercalate {gap : List Char} (hgap : ∀ c ∈ gap, lexer.skips c = true)
    (ts : List Token) : lexer.Spread ts ((' ' :: gap).intercalate (ts.map Token.spelled)) := by
  induction ts with
  | nil => exact .nil
  | cons t ts ih =>
    cases ts with
    | nil =>
      rw [List.map_cons, List.map_nil, List.intercalate_singleton]
      exact .last t
    | cons u ts =>
      rw [List.map_cons, List.map_cons, List.intercalate_cons_cons, List.append_assoc]
      exact .cons t hgap ih

theorem spread_written (lexer : Lexer) (ts : List Token) : lexer.Spread ts (written ts) :=
  spread_intercalate (List.forall_mem_nil _) ts

theorem Spread.eq_append (h : lexer.Spread (t :: ts) cs) : ∃ rest, cs = t.spelled ++ rest := by
  cases h with
  | last => exact ⟨[], (List.append_nil _).symm⟩
  | cons => exact ⟨_, rfl⟩

theorem skipBlanks_gap {gap : List Char} (hgap : ∀ c ∈ gap, lexer.skips c = true)
    (cs : List Char) : lexer.skipBlanks (' ' :: (gap ++ cs)) = lexer.skipBlanks cs :=
  (List.dropWhile_cons_of_pos lexer.skips_blank).trans (List.dropWhile_append_of_pos hgap)

theorem Legible.skipBlanks_spelled (ht : lexer.Legible t) (rest : List Char) :
    lexer.skipBlanks (t.spelled ++ rest) = t.spelled ++ rest := by
  obtain ⟨c, cs, hc, hskips⟩ := ht.first
  rw [hc]
  exact List.dropWhile_cons_of_neg (by simp [hskips])

/-- Whether `u` may follow `t`: a parenthesis makes a call of a word before it. -/
def Apart (t u : Token) : Prop := ∀ text, t = .word text → u ≠ .leftParen

/-- Legible tokens with blanks between them are read as they are. -/
theorem scans_of_spread (h : lexer.Spread ts cs) (hlegible : ∀ t ∈ ts, lexer.Legible t)
    (hapart : ts.IsChain Apart) : lexer.Scans ts cs := by
  induction h with
  | nil => exact .nil rfl
  | last t =>
    have ht := hlegible t List.mem_cons_self
    have hskipped : lexer.skipBlanks t.spelled = t.spelled ++ [] := by
      rw [← ht.skipBlanks_spelled [], List.append_nil]
    obtain ⟨rest, hnext, hleft⟩ := next_of_spelled hskipped (.inl rfl) ht fun _ _ _ => nofun
    exact .cons hnext (.of_skipBlanks (.nil rfl) hleft)
  | @cons t u ts gap cs hgap hrest ih =>
    obtain ⟨ht, hts⟩ := List.forall_mem_cons.1 hlegible
    obtain ⟨htu, hchain⟩ := List.isChain_cons_cons.1 hapart
    have hu := hts u List.mem_cons_self
    have hopen : ∀ text, t = .word text → ∀ rest,
        lexer.skipBlanks (' ' :: (gap ++ cs)) ≠ '(' :: rest := by
      intro text htext rest hparen
      obtain ⟨after, rfl⟩ := hrest.eq_append
      rw [skipBlanks_gap hgap, hu.skipBlanks_spelled] at hparen
      exact hu.append_ne_open (htu text htext) after rest hparen
    obtain ⟨rest, hnext, hleft⟩ :=
      next_of_spelled (ht.skipBlanks_spelled _) (.inr ⟨_, rfl⟩) ht hopen
    exact .cons hnext ((ih hts hchain).of_skipBlanks (hleft.trans (skipBlanks_gap hgap cs)))

end Lexer

namespace Tree

open Lexer

section Apart

variable {t u : Token} {ts ts' : List Token}

theorem apart_before (hne : u ≠ .leftParen) (h : ts.IsChain Apart) (h' : (u :: ts').IsChain Apart) :
    (ts ++ u :: ts').IsChain Apart :=
  h.append h' (by rintro t - _ ⟨⟩ text -; exact hne)

theorem apart_after (hne : ∀ text, t ≠ .word text) (h : ts.IsChain Apart) :
    (t :: ts).IsChain Apart :=
  h.cons fun _ _ text ht => absurd ht (hne text)

theorem apart_closed (h : ts.IsChain Apart) : (ts ++ [Token.rightParen]).IsChain Apart :=
  apart_before nofun h (.singleton _)

theorem apart_enclosed {needed : Bool} (h : ts.IsChain Apart) :
    (Expr.enclosed needed ts).IsChain Apart := by
  unfold Expr.enclosed
  split
  · exact apart_after nofun (apart_closed h)
  · exact h

theorem apart_tokens (e : Tree) : e.tokens.IsChain Apart := by
  induction e using Tree.induction with
  | leaf operand => exact .singleton _
  | unary op e ih =>
    rw [tokens]
    exact apart_after nofun (apart_enclosed ih)
  | binary op left right ihl ihr =>
    rw [tokens]
    exact apart_before nofun (apart_enclosed ihl) (apart_after nofun (apart_enclosed ihr))
  | call b arguments ih =>
    rw [tokens]
    refine apart_after nofun (apart_closed ?_)
    induction arguments with
    | nil => exact .nil
    | cons e es ihs =>
      have he := ih e List.mem_cons_self
      have hes := ihs fun e' he' => ih e' (List.mem_cons_of_mem e he')
      cases es with
      | nil => exact he
      | cons e' es =>
        rw [argumentTokens_cons]
        exact apart_before nofun he (apart_after nofun hes)
  | group e ih =>
    rw [tokens]
    exact apart_after nofun (apart_closed ih)

end Apart

section Legible

variable {t : Token} {ts : List Token} {needed : Bool}

theorem mem_enclosed (h : t ∈ ts) : t ∈ Expr.enclosed needed ts := by
  unfold Expr.enclosed
  split
  · exact List.mem_cons_of_mem _ (List.mem_append_left _ h)
  · exact h

theorem legible_closed (h : ∀ t ∈ ts, ({} : Lexer).Legible t) :
    ∀ t ∈ ts ++ [Token.rightParen], ({} : Lexer).Legible t :=
  List.forall_mem_append.2 ⟨h, List.forall_mem_singleton.2 legible_rightParen⟩

theorem legible_enclosed (h : ∀ t ∈ ts, ({} : Lexer).Legible t) :
    ∀ t ∈ Expr.enclosed needed ts, ({} : Lexer).Legible t := by
  unfold Expr.enclosed
  split
  · exact List.forall_mem_cons.2 ⟨legible_leftParen, legible_closed h⟩
  · exact h

/-- With the standard settings, the tokens of a tree are legible if those of its
operands are. -/
theorem legible_tokens {e : Tree}
    (h : ∀ operand : Leaf, operand.token ∈ e.tokens → ({} : Lexer).Legible operand.token) :
    ∀ t ∈ e.tokens, ({} : Lexer).Legible t := by
  induction e using Tree.induction with
  | leaf operand => exact List.forall_mem_singleton.2 (h operand List.mem_cons_self)
  | unary op e ih =>
    have he := ih fun operand hmem => h operand (List.mem_cons_of_mem _ (mem_enclosed hmem))
    exact List.forall_mem_cons.2 ⟨legible_unary op, legible_enclosed he⟩
  | binary op left right ihl ihr =>
    have hl := ihl fun operand hmem => h operand (List.mem_append_left _ (mem_enclosed hmem))
    have hr := ihr fun operand hmem =>
      h operand (List.mem_append_right _ (List.mem_cons_of_mem _ (mem_enclosed hmem)))
    exact List.forall_mem_append.2
      ⟨legible_enclosed hl, List.forall_mem_cons.2 ⟨legible_binary op, legible_enclosed hr⟩⟩
  | call b arguments ih =>
    rw [tokens] at h ⊢
    refine List.forall_mem_cons.2 ⟨legible_call (isWord_builtin b), legible_closed ?_⟩
    have harguments := fun operand hmem =>
      h operand (List.mem_cons_of_mem _ (List.mem_append_left _ hmem))
    clear h
    induction arguments with
    | nil => exact List.forall_mem_nil _
    | cons e es ihs =>
      have ihs := ihs fun e' he' => ih e' (List.mem_cons_of_mem e he')
      have ihe := ih e List.mem_cons_self
      cases es with
      | nil => exact ihe harguments
      | cons e' es =>
        rw [argumentTokens_cons] at harguments ⊢
        have he := ihe fun operand hmem => harguments operand (List.mem_append_left _ hmem)
        have hes := ihs fun operand hmem =>
          harguments operand (List.mem_append_right _ (List.mem_cons_of_mem _ hmem))
        exact List.forall_mem_append.2 ⟨he, List.forall_mem_cons.2 ⟨legible_comma, hes⟩⟩
  | group e ih =>
    have he := ih fun operand hmem =>
      h operand (List.mem_cons_of_mem _ (List.mem_append_left _ hmem))
    exact List.forall_mem_cons.2 ⟨legible_leftParen, legible_closed he⟩

end Legible

/-- The text of a tree consists of its tokens, if they are legible. -/
theorem scans_text {lexer : Lexer} {e : Tree} (h : ∀ t ∈ e.tokens, lexer.Legible t) :
    lexer.Scans e.tokens e.text :=
  scans_of_spread (lexer.spread_written e.tokens) h e.apart_tokens

end Tree

end ReminderExpr
