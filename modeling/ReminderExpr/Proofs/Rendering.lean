/-
ReminderExpr.Proofs.Rendering — the text of an expression evaluates to its
value.

The text is followed through recursive descent, which comes to what the
machine comes to unless a stack overflows. Each function of the descent is
described by the tokens that it takes off a text: `Reads` says that calls
which begin where some tokens are unread come to a result, and leave others
unread. What follows a part of an expression is a token that cannot belong to
it (`Continues`).

* `ReadsOperand`, `ReadsPhrase` — the two roles of tokens in the descent: an
  operand with the operators before it, and operands with operators between;
* `readsOperand_of_atom`, `readsPhrase_binary`, … — one lemma for each way to
  build an expression;
* `readsExpr` — all expressions, by induction on the tree;
* `Interpreter.rendering_evaluates` — whole evaluations.
-/
import ReminderExpr.Proofs.DescentAgreement
import ReminderExpr.Proofs.Expressions

namespace ReminderExpr

open Descent

/-! ## Calls and the tokens that they take -/

section Reads

variable {α β γ : Type} {world : World} {ts ts' ts'' : List Token}

/-- Calls that begin where the tokens `ts` are unread come to `r`. If that is
a value, the tokens `ts'` are unread then. -/
def Reads (world : World) (ts : List Token) (calls : Nat → Reader α) (r : Result α)
    (ts' : List Token) : Prop :=
  ∀ c : Cursor, world.lexer.Unread ts c.rest →
    ∃ c', Yields (fun n => calls n c) (r, c') ∧ ∀ a, r = .ok a → world.lexer.Unread ts' c'.rest

theorem reads_lift (world : World) (ts : List Token) (r : Result α) :
    Reads world ts (fun _ => lift r) r ts :=
  fun c hc => ⟨c, ⟨0, fun _ _ => rfl⟩, fun _ _ => hc⟩

/-- Raising the flag takes no token. -/
theorem reads_note (world : World) (ts : List Token) (flag : Bool) :
    Reads world ts (fun _ => note flag) (.ok ()) ts :=
  fun _ hc => ⟨_, ⟨0, fun _ _ => rfl⟩, fun _ _ => hc⟩

/-- Calls that may nest one deeper. -/
theorem Reads.deeper {calls : Nat → Reader α} {r : Result α}
    (h : Reads world ts (fun n => calls (n + 1)) r ts') : Reads world ts calls r ts' := by
  intro c hc
  obtain ⟨c', hyields, hleft⟩ := h c hc
  exact ⟨c', hyields.succ, hleft⟩

/-- Calls one after another, of which the first may fail. -/
theorem Reads.bind {x : Nat → Reader α} {f : α → Nat → Reader β} {r : Result α}
    {g : α → Result β} (hx : Reads world ts x r ts')
    (hf : ∀ a, r = .ok a → Reads world ts' (f a) (g a) ts'') :
    Reads world ts (fun n => x n >>= fun a => f a n) (r >>= g) ts'' := by
  intro c hc
  obtain ⟨c', ⟨depth, hfound⟩, hleft⟩ := hx c hc
  have hbind := fun n (hn : depth ≤ n) => bind_of_found (f := fun a => f a n) (hfound n hn)
  cases r with
  | error e => exact ⟨c', ⟨depth, hbind⟩, nofun⟩
  | ok a =>
    obtain ⟨c'', ⟨depth', hfound'⟩, hleft'⟩ := hf a rfl c' (hleft a rfl)
    refine ⟨c'', ⟨max depth depth', fun n hn => ?_⟩, hleft'⟩
    have hx := hbind n (Nat.le_trans (Nat.le_max_left ..) hn)
    exact hx.trans (hfound' n (Nat.le_trans (Nat.le_max_right ..) hn))

/-- Calls one after another, of which the first comes to a value. -/
theorem Reads.bind_ok {x : Nat → Reader α} {f : α → Nat → Reader β} {a : α} {r : Result β}
    (hx : Reads world ts x (.ok a) ts') (hf : Reads world ts' (f a) r ts'') :
    Reads world ts (fun n => x n >>= fun a => f a n) r ts'' :=
  Reads.bind (g := fun _ => r) hx (by rintro a ⟨⟩; exact hf)

/-- Calls one after another, of which the first hands `b` on beside its value. -/
theorem Reads.bind_beside {x : Nat → Reader (α × γ)} {f : α × γ → Nat → Reader β} {b : γ}
    {r : Result α} {g : α → Result β}
    (hx : Reads world ts x (r >>= fun a => .ok (a, b)) ts')
    (hf : ∀ a, Reads world ts' (f (a, b)) (g a) ts'') :
    Reads world ts (fun n => x n >>= fun a => f a n) (r >>= g) ts'' := by
  have hbind : Reads world ts (fun n => x n >>= fun a => f a n)
      ((r >>= fun a => Except.ok (a, b)) >>= fun a => g a.1) ts'' := by
    refine hx.bind ?_
    rintro ⟨a, b'⟩ heq
    cases r with
    | error e => cases heq
    | ok a' =>
      cases heq
      exact hf a
  cases r <;> exact hbind

theorem token_of_next {c : Cursor} {t : Token} {rest : List Char}
    (h : world.lexer.next c.rest = (.ok t, rest)) :
    token world c = some (.ok t, { c with rest }) := by
  unfold token
  rw [get_bind, h]
  rfl

/-- Reading takes one token. A word may not stand before a parenthesis. -/
theorem reads_token {t : Token} (ht : world.lexer.Legible t)
    (hopen : ∀ text, t = .word text → ∀ rest, world.lexer.skipBlanks (trailing ts) ≠ '(' :: rest) :
    Reads world (t :: ts) (fun _ => token world) (.ok t) ts := by
  intro c hc
  obtain ⟨rest, hnext, hleft⟩ := Lexer.next_of_unread hc ht hopen
  exact ⟨{ c with rest }, ⟨0, fun _ _ => token_of_next hnext⟩, fun _ _ => hleft⟩

/-- The end of the text is read where no token is left. -/
theorem reads_end (world : World) : Reads world [] (fun _ => token world) (.ok .endOfText) [] := by
  intro c hc
  have hnext := Lexer.next_of_unread_nil hc
  exact ⟨{ c with rest := [] }, ⟨0, fun _ _ => token_of_next hnext⟩, fun _ _ => rfl⟩

end Reads

/-! ## What follows an operand -/

/-- The token `next` stands after an operand, and `later` after that: the end
of the text, a comma, a closing parenthesis or a binary operator. -/
inductive Continues : List Token → Held → List Token → Prop
  | endOfText : Continues [] (.terminator .endOfText) []
  | comma (later : List Token) : Continues (.comma :: later) (.terminator .comma) later
  | rightParen (later : List Token) :
      Continues (.rightParen :: later) (.terminator .rightParen) later
  | binary (op : BinaryOp) (later : List Token) :
      Continues (.operator op.spelling :: later) (.binary op) later

section Phrases

variable {world : World} {active : List String} {locals : Locals} {ts later left : List Token}
  {next : Held}

/-- What follows an operand does not make a call of it. -/
theorem Continues.not_open (h : Continues later next left) (rest : List Char) :
    ({} : Lexer).skipBlanks (trailing later) ≠ '(' :: rest := by
  cases h with
  | endOfText => exact nofun
  | comma => exact Lexer.legible_comma.not_open nofun _ rest
  | rightParen => exact Lexer.legible_rightParen.not_open nofun _ rest
  | binary op => exact (Lexer.legible_binary op).not_open nofun _ rest

theorem reads_held (hlexer : world.lexer = {}) (h : Continues later next left) :
    Reads world later (fun _ => held world) (.ok next) left := by
  unfold held
  cases h with
  | endOfText => exact (reads_end world).bind_ok (reads_lift world _ (.ok _))
  | comma =>
    have hcomma : world.lexer.Legible .comma := hlexer ▸ Lexer.legible_comma
    exact (reads_token hcomma (by rintro _ ⟨⟩)).bind_ok (reads_lift world _ (.ok _))
  | rightParen =>
    have hparen : world.lexer.Legible .rightParen := hlexer ▸ Lexer.legible_rightParen
    exact (reads_token hparen (by rintro _ ⟨⟩)).bind_ok (reads_lift world _ (.ok _))
  | binary op =>
    have hop : world.lexer.Legible (.operator op.spelling) := hlexer ▸ Lexer.legible_binary op
    refine (reads_token hop (by rintro _ ⟨⟩)).bind_ok ?_
    dsimp only [Token.terminator?]
    rw [op.ofSpelling?_spelling]
    exact reads_lift world _ (.ok _)

/-! ## Operands and phrases -/

/-- The tokens `ts` are those of an operand, which comes to `r`: the operators
before it are then applied to its value. -/
def ReadsOperand (world : World) (active : List String) (locals : Locals) (ts : List Token)
    (r : Result Value) : Prop :=
  ∀ ⦃later next left⦄ (prefixes : List UnaryOp), Continues later next left →
    Reads world (ts ++ later) (fun n => operand world n active locals prefixes)
      (r >>= fun v => prefixed prefixes v >>= fun v => .ok (v, next)) left

/-- The tokens `ts` are those of a phrase that holds together with some
strength and comes to `r`: after it, climbing goes on with the operators that
follow, as long as these are no stronger. -/
def ReadsPhrase (world : World) (active : List String) (locals : Locals) (ts : List Token)
    (strength : Nat) (r : Result Value) : Prop :=
  ∀ ⦃later next left left' minimum⦄ ⦃outcome : Value → Result (Value × Held)⦄,
    Continues later next left → next.Within strength → minimum < strength →
    (∀ v, Reads world left (fun n => rightOperands world n active locals minimum v next)
      (outcome v) left') →
    Reads world (ts ++ later) (fun n => climb world n active locals minimum) (r >>= outcome) left'

/-- An operand is a phrase of any strength. -/
theorem ReadsOperand.phrase {r : Result Value} (h : ReadsOperand world active locals ts r)
    (strength : Nat) : ReadsPhrase world active locals ts strength r := by
  intro later next left left' minimum outcome hnext _ _ hright
  apply Reads.deeper
  simp only [climb]
  exact (h [] hnext).bind_beside hright

/-- A phrase is one of less strength, too. -/
theorem ReadsPhrase.weaken {strength strength' : Nat} {r : Result Value}
    (h : ReadsPhrase world active locals ts strength r) (hle : strength' ≤ strength) :
    ReadsPhrase world active locals ts strength' r := by
  intro later next left left' minimum outcome hnext hwithin hlt hright
  exact h hnext (hwithin.mono hle) (Nat.lt_of_lt_of_le hlt hle) hright

/-- Climbing ends before an operator that is not above the minimum. -/
theorem reads_rightOperands {minimum : Nat} (hwithin : next.Within minimum) (v : Value) :
    Reads world ts (fun n => rightOperands world n active locals minimum v next) (.ok (v, next))
      ts := by
  apply Reads.deeper
  cases next with
  | terminator t =>
    simp only [rightOperands]
    exact reads_lift world ts (.ok _)
  | binary op =>
    have hle : op.precedence ≤ minimum := hwithin
    simp only [rightOperands, if_pos hle]
    exact reads_lift world ts (.ok _)

/-- A phrase that ends a level. -/
theorem ReadsPhrase.level {strength : Nat} {r : Result Value} {t : Terminator}
    (h : ReadsPhrase world active locals ts strength r) (hpos : 0 < strength)
    (hnext : Continues later (.terminator t) left) :
    Reads world (ts ++ later) (fun n => level world n active locals)
      (r >>= fun v => .ok (v, t)) left := by
  have hclimb : Reads world (ts ++ later) (fun n => climb world n active locals 0)
      (r >>= fun v => .ok (v, .terminator t)) left :=
    h hnext trivial hpos (reads_rightOperands trivial)
  apply Reads.deeper
  simp only [Descent.level]
  exact hclimb.bind_beside fun v => reads_lift world left (.ok (v, t))

/-! ## Ways to build an expression -/

/-- A token that starts an operand, with what belongs to it. -/
theorem readsOperand_of_atom (hlexer : world.lexer = {}) {t : Token} {r : Result Value}
    (ht : ({} : Lexer).Legible t) (hoperator : ∀ spelling, t ≠ .operator spelling)
    (hword : ∀ text, t = .word text → ts = [])
    (hatom : ∀ later, Reads world (ts ++ later) (fun n => atom world n active locals t) r later) :
    ReadsOperand world active locals (t :: ts) r := by
  intro later next left prefixes hnext
  have hopen : ∀ text, t = .word text → ∀ rest,
      world.lexer.skipBlanks (trailing (ts ++ later)) ≠ '(' :: rest := by
    intro text heq rest
    rw [hword text heq, hlexer]
    exact hnext.not_open rest
  have hrest : Reads world (ts ++ later)
      (fun n => do
        let v ← atom world n active locals t
        let next ← held world
        let v ← lift (prefixed prefixes v)
        pure (v, next))
      (r >>= fun v => prefixed prefixes v >>= fun v => .ok (v, next)) left := by
    refine (hatom later).bind fun v _ => ?_
    refine (reads_held hlexer hnext).bind_ok ?_
    exact (reads_lift world left (prefixed prefixes v)).bind
      fun v _ => reads_lift world left (.ok (v, next))
  apply Reads.deeper
  simp only [operand]
  refine (reads_token (hlexer ▸ ht) hopen).bind_ok ?_
  cases t with
  | operator spelling => exact absurd rfl (hoperator spelling)
  | _ => exact hrest

/-- An operator before an operand is applied before those that stand before
it. -/
theorem ReadsOperand.unary (hlexer : world.lexer = {}) {r : Result Value}
    (h : ReadsOperand world active locals ts r) (op : UnaryOp) :
    ReadsOperand world active locals (.operator op.spelling :: ts) (r >>= op.apply) := by
  intro later next left prefixes hnext
  have hop : world.lexer.Legible (.operator op.spelling) := hlexer ▸ Lexer.legible_unary op
  have heq : (r >>= fun v => prefixed (op :: prefixes) v >>= fun v => .ok (v, next))
      = (r >>= op.apply) >>= fun v => prefixed prefixes v >>= fun v => Except.ok (v, next) := by
    rw [bind_assoc]
    refine congrArg (r >>= ·) (funext fun v => ?_)
    exact bind_assoc (op.apply v) (prefixed prefixes) _
  apply Reads.deeper
  simp only [operand]
  refine (reads_token hop (by rintro _ ⟨⟩)).bind_ok ?_
  dsimp only
  rw [← heq, op.ofSpelling?_spelling]
  simp only [if_neg op.spelling_ne_plus]
  exact h (op :: prefixes) hnext

/-- A phrase between parentheses is an operand. -/
theorem ReadsPhrase.group (hlexer : world.lexer = {}) {strength : Nat} {r : Result Value}
    (h : ReadsPhrase world active locals ts strength r) (hpos : 0 < strength) :
    ReadsOperand world active locals (.leftParen :: (ts ++ [.rightParen])) r := by
  refine readsOperand_of_atom hlexer Lexer.legible_leftParen (by rintro _ ⟨⟩)
    (by rintro _ ⟨⟩) fun later => ?_
  have hr : (r >>= fun v => .ok v) = r := bind_pure r
  apply Reads.deeper
  simp only [atom]
  rw [← hr, List.append_assoc]
  exact (h.level hpos (.rightParen later)).bind_beside fun v => reads_lift world later (.ok v)

/-- Two phrases with an operator between them: the left one is no weaker than
the operator, and the right one is stronger. -/
theorem readsPhrase_binary {op : BinaryOp} {lefts rights : List Token}
    {l r : Result Value} (hl : ReadsPhrase world active locals lefts op.precedence l)
    (hr : ReadsPhrase world active locals rights (op.precedence + 1) r) :
    ReadsPhrase world active locals (lefts ++ .operator op.spelling :: rights) op.precedence
      (l >>= fun a => r >>= fun b => op.apply world.environment.host.arithmetic a b) := by
  intro later next left left' minimum outcome hnext hwithin hlt hright
  rw [List.append_assoc, List.cons_append, bind_assoc]
  refine hl (.binary op (rights ++ later)) (Nat.le_refl _) hlt fun a => ?_
  -- The right operand ends where an operator follows that is no stronger.
  have hclimb : Reads world (rights ++ later)
      (fun n => climb world n active locals op.precedence) (r >>= fun b => .ok (b, next)) left :=
    hr hnext (hwithin.mono (Nat.le_succ _)) (Nat.lt_succ_self _) (reads_rightOperands hwithin)
  apply Reads.deeper
  simp only [rightOperands, if_neg (Nat.not_le_of_lt hlt)]
  rw [bind_assoc]
  refine hclimb.bind_beside fun b => ?_
  exact (reads_lift world left (op.apply world.environment.host.arithmetic a b)).bind
    fun v _ => hright v

/-! ## Calls -/

/-- A call of a function that every expression can call. -/
theorem reads_invoke (b : Builtin) (vs : List Value) :
    Reads world ts (fun n => invoke world n active b.name vs)
      (b.signature.checkArity vs.length >>= fun _ =>
        b.apply world.environment world.functions vs) ts := by
  apply Reads.deeper
  simp only [invoke, b.ofName?_name]
  refine (reads_lift world ts _).bind fun _ _ => ?_
  exact (reads_note world ts _).bind_ok (reads_lift world ts _)

/-- The arguments of a call, of which some have been read. -/
theorem reads_arguments {e : Expr} {es : List Expr}
    (h : ∀ e' ∈ e :: es,
      ReadsPhrase world active locals e'.tokens e'.strength (e'.value world locals))
    (read : List Value) :
    Reads world (Expr.argumentTokens (e :: es) ++ .rightParen :: later)
      (fun n => arguments world n active locals read)
      (Expr.values world locals (e :: es) >>= fun vs => .ok (read ++ vs)) later := by
  induction es generalizing e read with
  | nil =>
    have he := h e List.mem_cons_self
    have hvalues : (Expr.values world locals [e] >>= fun vs => .ok (read ++ vs))
        = e.value world locals >>= fun v => .ok (read ++ [v]) := by
      simp only [Expr.values]
      cases e.value world locals <;> rfl
    rw [hvalues]
    apply Reads.deeper
    simp only [arguments]
    exact (he.level e.strength_pos (.rightParen later)).bind_beside
      fun v => reads_lift world later (.ok (read ++ [v]))
  | cons e' es ih =>
    have he := h e List.mem_cons_self
    have hvalues : (Expr.values world locals (e :: e' :: es) >>= fun vs => .ok (read ++ vs))
        = e.value world locals >>= fun v =>
          Expr.values world locals (e' :: es) >>= fun vs => .ok (read ++ [v] ++ vs) := by
      rw [Expr.values]
      cases e.value world locals with
      | error e => rfl
      | ok v =>
        cases Expr.values world locals (e' :: es) with
        | error e => rfl
        | ok vs => exact congrArg Except.ok (List.append_cons read v vs)
    rw [hvalues, Expr.argumentTokens_cons, List.append_assoc, List.cons_append]
    apply Reads.deeper
    simp only [arguments]
    refine (he.level e.strength_pos (.comma _)).bind_beside fun v => ?_
    exact ih (fun e'' he'' => h e'' (List.mem_cons_of_mem e he'')) (read ++ [v])

/-- A call with all its arguments. -/
theorem readsOperand_call (hlexer : world.lexer = {}) (b : Builtin) {es : List Expr}
    (h : ∀ e ∈ es, ReadsPhrase world active locals e.tokens e.strength (e.value world locals)) :
    ReadsOperand world active locals (Expr.call b es).tokens
      ((Expr.call b es).value world locals) := by
  rw [Expr.tokens, Expr.value]
  refine readsOperand_of_atom hlexer (Lexer.legible_call (Lexer.isWord_builtin b))
    (by rintro _ ⟨⟩) (by rintro _ ⟨⟩) fun later => ?_
  apply Reads.deeper
  intro c hc
  cases es with
  | nil =>
    have hparen : world.lexer.Legible .rightParen := hlexer ▸ Lexer.legible_rightParen
    have hclosed : world.lexer.skipBlanks c.rest = ')' :: trailing later := hc.skipBlanks_eq hparen
    simp only [atom_call_closed hclosed]
    exact reads_invoke b [] { c with rest := trailing later } (Lexer.unread_trailing _ later)
  | cons e es =>
    rw [List.append_assoc] at hc
    have hopen : ∀ rest, world.lexer.skipBlanks c.rest ≠ ')' :: rest := by
      obtain ⟨t, ts, heq, ht, hne⟩ := Expr.argumentTokens_eq_cons e es
      obtain ⟨first, cs, hfirst, -⟩ := ht.first
      intro rest hrest
      rw [heq, hlexer] at hc
      rw [hlexer, hc.skipBlanks_eq ht, hfirst] at hrest
      cases hrest
      exact hne (ht.eq_of_paren.2 hfirst)
    have hvalues : (Expr.values world locals (e :: es) >>= fun vs => .ok ([] ++ vs))
        = Expr.values world locals (e :: es) := bind_pure _
    have harguments : Reads world (Expr.argumentTokens (e :: es) ++ .rightParen :: later)
        (fun n => arguments world n active locals []) (Expr.values world locals (e :: es)) later :=
      hvalues ▸ reads_arguments h []
    simp only [atom_call_open hopen]
    exact (harguments.bind fun vs _ => reads_invoke b vs) _ hc.skipBlanks

/-! ## Single operands -/

theorem readsOperand_int (hlexer : world.lexer = {}) (n : Numeral) :
    ReadsOperand world active locals (Expr.int n).tokens ((Expr.int n).value world locals) := by
  rw [Expr.tokens, Expr.value]
  refine readsOperand_of_atom hlexer (Lexer.legible_word (Lexer.isWord_repr n))
    (by rintro _ ⟨⟩) (fun _ _ => rfl) fun later => ?_
  apply Reads.deeper
  simp only [atom, Descent.word, if_pos (isNumeral_repr n), numberOrTime_repr]
  exact reads_lift world later _

theorem readsOperand_str (hlexer : world.lexer = {}) (content : String) :
    ReadsOperand world active locals (Expr.str content).tokens
      ((Expr.str content).value world locals) := by
  rw [Expr.tokens, Expr.value]
  refine readsOperand_of_atom hlexer (Lexer.legible_str content) (by rintro _ ⟨⟩)
    (by rintro _ ⟨⟩) fun later => ?_
  apply Reads.deeper
  simp only [atom]
  exact reads_lift world later (.ok _)

theorem readsOperand_var (hlexer : world.lexer = {}) (name : VariableName) :
    ReadsOperand world active locals (Expr.var name).tokens
      ((Expr.var name).value world locals) := by
  rw [Expr.tokens, Expr.value]
  refine readsOperand_of_atom hlexer (Lexer.legible_word name.2.1)
    (by rintro _ ⟨⟩) (fun _ _ => rfl) fun later => ?_
  apply Reads.deeper
  simp only [atom, Descent.word, name.2.2, Bool.false_eq_true, if_false]
  exact (reads_note world later _).bind_ok (reads_lift world later _)

/-! ## All expressions -/

/-- The tokens of an expression are those of a phrase of its strength, and
those of an operand if it is no weaker than the operators before an operand. -/
structure ReadsExpr (world : World) (active : List String) (locals : Locals) (e : Expr) : Prop where
  phrase : ReadsPhrase world active locals e.tokens e.strength (e.value world locals)
  operand : ∀ op : UnaryOp, op.precedence ≤ e.strength →
    ReadsOperand world active locals e.tokens (e.value world locals)

theorem ReadsOperand.expr {e : Expr}
    (h : ReadsOperand world active locals e.tokens (e.value world locals)) :
    ReadsExpr world active locals e where
  phrase := h.phrase e.strength
  operand _ _ := h

/-- Parentheses that are not left out make a phrase as strong as needed. -/
theorem ReadsExpr.enclosed_phrase (hlexer : world.lexer = {}) {e : Expr} {needed : Bool}
    {strength : Nat} (h : ReadsExpr world active locals e)
    (hstrong : needed = false → strength ≤ e.strength) :
    ReadsPhrase world active locals (Expr.enclosed needed e.tokens) strength
      (e.value world locals) := by
  cases needed with
  | false => exact h.phrase.weaken (hstrong rfl)
  | true => exact (h.phrase.group hlexer e.strength_pos).phrase strength

theorem ReadsExpr.enclosed_operand (hlexer : world.lexer = {}) {e : Expr}
    (h : ReadsExpr world active locals e) (op : UnaryOp) :
    ReadsOperand world active locals
      (Expr.enclosed (decide (e.strength < op.precedence)) e.tokens) (e.value world locals) := by
  by_cases hweak : e.strength < op.precedence
  · rw [decide_eq_true hweak]
    exact h.phrase.group hlexer e.strength_pos
  · rw [decide_eq_false hweak]
    exact h.operand op (Nat.le_of_not_lt hweak)

/-- Every expression is read from its tokens, and comes to its value. -/
theorem readsExpr (hlexer : world.lexer = {}) (e : Expr) : ReadsExpr world active locals e := by
  induction e using Expr.induction with
  | int n => exact (readsOperand_int hlexer n).expr
  | str content => exact (readsOperand_str hlexer content).expr
  | var name => exact (readsOperand_var hlexer name).expr
  | unary op e ih =>
    have hunary := (ih.enclosed_operand hlexer op).unary hlexer op
    rw [← Expr.value, ← Expr.tokens] at hunary
    exact hunary.expr
  | binary op left right ihl ihr =>
    constructor
    · rw [Expr.tokens, Expr.value]
      apply readsPhrase_binary
      · exact ihl.enclosed_phrase hlexer fun h => Nat.le_of_not_lt (of_decide_eq_false h)
      · exact ihr.enclosed_phrase hlexer fun h => Nat.lt_of_not_le (of_decide_eq_false h)
    · -- Every operator between operands is weaker than those before one.
      intro op' hle
      exact absurd hle (Nat.not_le_of_lt (op.precedence_lt op'))
  | call b arguments ih => exact (readsOperand_call hlexer b fun e he => (ih e he).phrase).expr
  | group e ih =>
    have hgroup := ih.phrase.group hlexer e.strength_pos
    rw [← Expr.value, ← Expr.tokens] at hgroup
    exact hgroup.expr

end Phrases

/-! ## Evaluations -/

/-- Recursive descent over the text of an expression comes to its value. -/
theorem yields_text {world : World} (hlexer : world.lexer = {}) (locals : Locals) (e : Expr) :
    ∃ nonconst rest, Yields (fun depth => Descent.evaluate world depth { rest := e.text, locals })
      ((e.value world locals).map fun value => { value, terminator := .endOfText, nonconst },
        rest) := by
  have hunread : world.lexer.Unread (e.tokens ++ []) e.text := by
    rw [List.append_nil]
    exact Lexer.unread_written world.lexer e.tokens
  have hexpr : ReadsExpr world [] locals e := readsExpr hlexer e
  have hlevel := hexpr.phrase.level e.strength_pos .endOfText
  obtain ⟨c, ⟨depth, hfound⟩, -⟩ := hlevel { rest := e.text, nonconst := false } hunread
  refine ⟨c.nonconst, c.rest, depth, fun n hn => ?_⟩
  have hfound : level world n [] locals { rest := e.text, nonconst := false }
      = some (e.value world locals >>= fun v => .ok (v, .endOfText), c) := hfound n hn
  dsimp only [Descent.evaluate]
  rw [hfound]
  cases e.value world locals <;> rfl

namespace Interpreter

/-- The text of an expression evaluates to the value of the expression, at the
end of the text, or fails like the first part of the expression that has no
value, unless a stack overflows. -/
theorem rendering_evaluates (i : Interpreter) (environment : Environment)
    (functions : UserFunctions) (locals : Locals) (e : Expr)
    (hcontinuation : i.config.continuation = some '\\')
    (htime : environment.host.separators.time = ':')
    (hops : (i.evaluate environment functions locals e.text).result
      ≠ .error .operatorStackOverflow)
    (hvals : (i.evaluate environment functions locals e.text).result
      ≠ .error .operandStackOverflow) :
    (i.evaluate environment functions locals e.text).result.map
        (fun found => (found.value, found.terminator))
      = (e.value (i.world environment functions) locals).map fun v => (v, .endOfText) := by
  have hlexer : (i.world environment functions).lexer = {} := by
    simp only [world, World.lexer, hcontinuation, htime]
  have hlimits : ¬ Overflows ((Machine.start { rest := e.text, locals } i.operators
      i.operands).run (i.world environment functions)).result := by
    rintro ⟨error, herror, hover⟩
    simp only [evaluate, evaluateScope, conclude, herror, Except.map] at hops hvals
    cases error <;> first | exact hops rfl | exact hvals rfl | cases hover
  have hmachine := Descent.yields_evaluate (i.world environment functions)
    { rest := e.text, locals } i.operators i.operands
  rw [Machine.run_unlimited hlimits] at hmachine
  obtain ⟨nonconst, rest, hdescent⟩ := yields_text hlexer locals e
  have hresult : (i.evaluate environment functions locals e.text).result
      = (e.value (i.world environment functions) locals).map fun value =>
        { value, terminator := .endOfText, nonconst } :=
    congrArg Prod.fst (hmachine.unique hdescent)
  rw [hresult]
  cases e.value (i.world environment functions) locals <;> rfl

/-- A variable, a sign before a difference and a call with two arguments. -/
theorem rendered_difference :
    let x : VariableName := ⟨"x", ⟨⟨'x', [], rfl, rfl, List.forall_mem_nil _⟩, rfl⟩⟩
    let e : Expr := .binary .sub (.binary .sub (.int ⟨10, rfl⟩) (.var x))
      (.call .max [.unary .neg (.binary .sub (.int ⟨3, rfl⟩) (.int ⟨4, rfl⟩)), .group (.var x)])
    let i : Interpreter := {}
    let locals := Locals.ofList [("x", .int 3)]
    e.text = "10 - x - max( - ( 3 - 4 ) , ( x ) )".toList
      ∧ (i.evaluate {} {} locals e.text).result.map
          (fun found => (found.value, found.terminator)) = .ok (.int 4, .endOfText) := by
  intro x e i locals
  have htext : e.text = "10 - x - max( - ( 3 - 4 ) , ( x ) )".toList := by
    cbv
  have hfound : (i.evaluateScope {} {} { rest := e.text, locals }).result
        = .ok { value := .int 4, terminator := .endOfText, nonconst := false }
      ∧ (i.evaluateScope {} {} { rest := e.text, locals }).rest = [] := by
    rw [htext]
    exact evaluateScope_of_runFor 60 (by decide +kernel)
  have hvalue : e.value (i.world {} {}) locals = .ok (.int 4) := by
    decide +kernel
  have h := rendering_evaluates i {} {} locals e rfl rfl
    (by rw [evaluate, hfound.1]; rintro ⟨⟩) (by rw [evaluate, hfound.1]; rintro ⟨⟩)
  rw [hvalue] at h
  exact ⟨htext, h⟩

end Interpreter

end ReminderExpr
