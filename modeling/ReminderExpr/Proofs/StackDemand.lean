/-
ReminderExpr.Proofs.StackDemand — the stacks rise as high as an expression
demands.

When an operand is read, the operators before it wait, and nothing else that
waits on the stacks belongs to it. When the operator after it is read, those
that are no weaker have been applied. So the height that the stacks reach while
a part of an expression is evaluated, above the height they had before, depends
on that part alone: it is the demand of its tree.

* `Machine.Passes` — the heights that a stretch of a run reaches;
* `Outcome.RisesTo` — stretches that may fail, one after another;
* `NeedsOperand`, `NeedsPhrase` — what the two roles of tokens need;
* `NeedsOperand.unary`, `needsPhrase_binary`, … — one lemma for each way to
  build a tree, and `needs_tree` for all trees;
* `Interpreter.stack_demand_is_exact` — whole evaluations.
-/
import ReminderExpr.Proofs.Demands
import ReminderExpr.Proofs.History
import ReminderExpr.Proofs.Peaks
import ReminderExpr.Proofs.Rendering

namespace ReminderExpr

open Machine
open Descent (Cursor)

/-! ## The heights of a stretch -/

namespace Machine

variable {world : World} {m n k : Machine} {P Q P' Q' : Nat}

/-- The machine with another level, which its text goes on in. -/
def opened (m : Machine) (frame : Frame) : Machine :=
  { m with frames := frame :: m.frames, base := m.heights, phase := .atom }

/-- Steps from `m` to `n`. The states on the way, `m` and `n` among them, have
at most `P` operators and `Q` operands, and some have as many. -/
inductive Passes (world : World) : Machine → Machine → Nat → Nat → Prop
  | here (m : Machine) : Passes world m m m.operators.height m.operands.height
  | step {m m' n : Machine} {P Q : Nat} (hstep : m.step world = .running m')
      (hrest : Passes world m' n P Q) :
      Passes world m n (max m.operators.height P) (max m.operands.height Q)

theorem Passes.height_le (h : m.Passes world n P Q) :
    m.operators.height ≤ P ∧ m.operands.height ≤ Q := by
  cases h with
  | here => exact ⟨Nat.le_refl _, Nat.le_refl _⟩
  | step hstep hrest => exact ⟨Nat.le_max_left _ _, Nat.le_max_left _ _⟩

/-- Two stretches, one after the other. -/
theorem Passes.trans (h : m.Passes world n P Q) (h' : n.Passes world k P' Q') :
    m.Passes world k (max P P') (max Q Q') := by
  induction h with
  | here m =>
    obtain ⟨hP, hQ⟩ := h'.height_le
    rwa [Nat.max_eq_right hP, Nat.max_eq_right hQ]
  | step hstep hrest ih =>
    rw [Nat.max_assoc, Nat.max_assoc]
    exact .step hstep (ih h')

theorem Passes.leads (h : m.Passes world n P Q) :
    (Outcome.running m).Leads world (.running n) := by
  induction h with
  | here m => exact .refl
  | step hstep hrest ih => exact .head ⟨_, rfl, hstep.symm⟩ ih

/-- The heights of a stretch up to the end of a run are the greatest ones. -/
theorem Passes.greatest {halt : Halt} (h : m.Passes world n P Q)
    (hend : n.step world = .halted halt) :
    IsGreatest (m.operatorHeights world) P ∧ IsGreatest (m.operandHeights world) Q := by
  induction h with
  | here m => exact ⟨greatest_of_halted _ hend, greatest_of_halted _ hend⟩
  | step hstep hrest ih =>
    obtain ⟨hP, hQ⟩ := ih hend
    exact ⟨greatest_of_running _ hstep hP, greatest_of_running _ hstep hQ⟩

end Machine

/-! ## Stretches that may fail -/

section RisesTo

variable {world : World} {o : Outcome} {m : Machine} {P Q P' Q' : Nat}
  {next next' : Machine → Prop}

/-- From an outcome, an evaluation fails, or it goes on to a state that `next`
describes and passes the heights `P` and `Q`. -/
def Outcome.RisesTo (world : World) (o : Outcome) (P Q : Nat) (next : Machine → Prop) : Prop :=
  (∃ e, (o.finish world).result = .error e)
    ∨ ∃ m n, o = .running m ∧ m.Passes world n P Q ∧ next n

theorem Outcome.risesTo_fail (m : Machine) (e : EvalError) :
    (m.fail e).RisesTo world P Q next :=
  .inl ⟨e, rfl⟩

theorem Outcome.risesTo_here (h : next m) :
    (Outcome.running m).RisesTo world m.operators.height m.operands.height next :=
  .inr ⟨m, m, rfl, .here m, h⟩

theorem Outcome.RisesTo.step (hstep : m.step world = o) (h : o.RisesTo world P Q next) :
    (Outcome.running m).RisesTo world (max m.operators.height P) (max m.operands.height Q)
      next := by
  subst hstep
  rcases h with ⟨e, he⟩ | ⟨m', n, hstep, hpasses, hn⟩
  · rw [Outcome.finish_step] at he
    exact .inl ⟨e, he⟩
  · exact .inr ⟨m, n, rfl, .step hstep hpasses, hn⟩

theorem Outcome.RisesTo.bind (h : o.RisesTo world P Q next)
    (h' : ∀ n, next n → (Outcome.running n).RisesTo world P' Q' next') :
    o.RisesTo world (max P P') (max Q Q') next' := by
  rcases h with he | ⟨m, n, rfl, hpasses, hn⟩
  · exact .inl he
  · rcases h' n hn with ⟨e, he⟩ | ⟨_, k, ⟨⟩, hpasses', hk⟩
    · exact .inl ⟨e, hpasses.leads.finish_eq ▸ he⟩
    · exact .inr ⟨m, k, rfl, hpasses.trans hpasses', hk⟩

theorem Outcome.RisesTo.of_eq (h : o.RisesTo world P Q next) (hP : P = P') (hQ : Q = Q') :
    o.RisesTo world P' Q' next :=
  hP ▸ hQ ▸ h

end RisesTo

/-! ## Operands and phrases -/

section Needs

variable {world : World} {m : Machine} {ts later left : List Token} {next : Held} {t : Token}
  {O V O' V' strength : Nat}

/-- The value of what has been read lies on the operands of `m`, and the tokens
`left` have not been read yet. -/
def Machine.Received (world : World) (m : Machine) (phase : Phase) (left : List Token)
    (n : Machine) : Prop :=
  ∃ c v, n = m.received c v phase ∧ world.lexer.Scans left c.rest

/-- The tokens `ts` are those of an operand that needs room for `O` operators
and `V` operands, whatever waits below. -/
def NeedsOperand (world : World) (ts : List Token) (O V : Nat) : Prop :=
  ∀ ⦃m : Machine⦄ ⦃later next left⦄, m.phase = .atom →
    world.lexer.Scans (ts ++ later) m.scope.rest → Continues later next left →
    m.base.operators ≤ m.operators.height →
    (Outcome.running m).RisesTo world (m.operators.height + O) (m.operands.height + V)
      (m.Received world (.holding next) left)

/-- The tokens `ts` are those of a phrase that holds together with some
strength: it has been evaluated when a token is held that is no stronger. -/
def NeedsPhrase (world : World) (ts : List Token) (strength O V : Nat) : Prop :=
  ∀ ⦃m : Machine⦄ ⦃later next left minimum⦄, m.phase = .atom →
    world.lexer.Scans (ts ++ later) m.scope.rest → Continues later next left →
    m.Bounded minimum → minimum < strength → next.Within strength →
    (Outcome.running m).RisesTo world (m.operators.height + O) (m.operands.height + V)
      (m.Received world (.holding next) left)

/-- An operand is a phrase of any strength. -/
theorem NeedsOperand.phrase (h : NeedsOperand world ts O V) (strength : Nat) :
    NeedsPhrase world ts strength O V :=
  fun _ _ _ _ _ hp hscan hnext hbounded _ _ => h hp hscan hnext hbounded.base_le

/-- A phrase is one of less strength, too. -/
theorem NeedsPhrase.weaken {strength' : Nat} (h : NeedsPhrase world ts strength O V)
    (hle : strength' ≤ strength) : NeedsPhrase world ts strength' O V :=
  fun _ _ _ _ _ hp hscan hnext hbounded hlt hwithin =>
    h hp hscan hnext hbounded (Nat.lt_of_lt_of_le hlt hle) (Held.Within.mono hwithin hle)

/-- The token after an operand is held. -/
theorem step_continues (hp : m.phase = .operator) (hscan : world.lexer.Scans later m.scope.rest)
    (h : Continues later next left) :
    ∃ rest, m.step world = .running { m.withRest rest with phase := .holding next }
      ∧ world.lexer.Scans left rest := by
  have terminator : ∀ {t : Token} {held : Terminator} {rest : List Char},
      world.lexer.next m.scope.rest = (.ok t, rest) → t.terminator? = some held →
      m.step world = .running { m.withRest rest with phase := .holding (.terminator held) } :=
    fun hread ht => (step_operator hp hread).trans (takeOperator_terminator ht)
  cases h with
  | endOfText =>
    cases hscan with
    | nil hread => exact ⟨_, terminator hread rfl, .nil rfl⟩
  | comma =>
    cases hscan with
    | cons hread hrest => exact ⟨_, terminator hread rfl, hrest⟩
  | rightParen =>
    cases hscan with
    | cons hread hrest => exact ⟨_, terminator hread rfl, hrest⟩
  | binary op =>
    cases hscan with
    | cons hread hrest =>
      refine ⟨_, (step_operator hp hread).trans ?_, hrest⟩
      unfold takeOperator
      dsimp only [Token.terminator?]
      rw [op.ofSpelling?_spelling]

/-! ## Parts of a stretch -/

/-- After a value, the next token is held. -/
theorem risesTo_held {c : Cursor} {v : Value} (hscan : world.lexer.Scans later c.rest)
    (hnext : Continues later next left) :
    (Outcome.running (m.received c v .operator)).RisesTo world m.operators.height
      (m.operands.height + 1) (m.Received world (.holding next) left) := by
  obtain ⟨rest, hstep, hleft⟩ := step_continues (m := m.received c v .operator) rfl hscan hnext
  have hheld : m.Received world (.holding next) left
      (m.received ⟨rest, c.nonconst⟩ v (.holding next)) := ⟨_, _, rfl, hleft⟩
  exact ((Outcome.risesTo_here hheld).step hstep).of_eq (Nat.max_self _) (Nat.max_self _)

theorem risesTo_settle (r : Result Value) (hscan : world.unlimited.lexer.Scans left m.scope.rest) :
    (m.settle world.unlimited r).RisesTo world.unlimited m.operators.height (m.operands.height + 1)
      (m.Received world.unlimited .operator left) := by
  cases r with
  | error e => exact Outcome.risesTo_fail m e
  | ok v =>
    have hvalue : m.Received world.unlimited .operator left (m.received m.cursor v .operator) :=
      ⟨_, _, rfl, hscan⟩
    exact Outcome.risesTo_here hvalue

/-- The operator before an operand is applied when a token is held. -/
theorem risesTo_unary {op : UnaryOp} {c : Cursor} {v : Value}
    (hbase : m.base.operators ≤ m.operators.height) (hscan : world.lexer.Scans left c.rest) :
    (Outcome.running ((m.awaiting (.unary op)).received c v (.holding next))).RisesTo world
      (m.operators.height + 1) (m.operands.height + 1) (m.Received world (.holding next) left) := by
  refine Outcome.RisesTo.of_eq (P := max (m.operators.height + 1) m.operators.height)
    (Q := max (m.operands.height + 1) (m.operands.height + 1))
    (.step (step_apply rfl rfl (Nat.lt_succ_of_le hbase) (next.yieldsTo_unary op)) ?_)
    (Nat.max_eq_left (Nat.le_succ _)) (Nat.max_self _)
  rw [applyTop_unary rfl rfl]
  cases op.apply v with
  | error e => exact Outcome.risesTo_fail _ e
  | ok v => exact Outcome.risesTo_here ⟨c, v, rfl, hscan⟩

/-- The operator between two operands is applied when a token is held that is no
stronger. -/
theorem risesTo_binary {op : BinaryOp} {c c' : Cursor} {l r : Value}
    (hbase : m.base.operators ≤ m.operators.height) (hwithin : next.Within op.precedence)
    (hscan : world.lexer.Scans left c'.rest) :
    (Outcome.running (((m.received c l .atom).awaiting (.binary op)).received c' r
        (.holding next))).RisesTo world
      (m.operators.height + 1) (m.operands.height + 2) (m.Received world (.holding next) left) := by
  refine Outcome.RisesTo.of_eq (P := max (m.operators.height + 1) m.operators.height)
    (Q := max (m.operands.height + 2) (m.operands.height + 1))
    (.step (step_apply rfl rfl (Nat.lt_succ_of_le hbase) (Held.yieldsTo_of_within hwithin)) ?_)
    (Nat.max_eq_left (Nat.le_succ _)) (Nat.max_eq_left (Nat.le_succ _))
  rw [applyTop_binary rfl rfl]
  cases op.apply world.environment.host.arithmetic l r with
  | error e => exact Outcome.risesTo_fail _ e
  | ok v => exact Outcome.risesTo_here ⟨c', v, rfl, hscan⟩

/-! ## Ways to build a tree -/

/-- A token that starts an operand, with what belongs to it. -/
theorem needsOperand_of_atom (hV : 1 ≤ V)
    (h : ∀ (m : Machine) (later : List Token), world.lexer.Scans (ts ++ later) m.scope.rest →
      (m.takeAtom world t).RisesTo world (m.operators.height + O) (m.operands.height + V)
        (m.Received world .operator later)) :
    NeedsOperand world (t :: ts) O V := by
  intro m later next left hp hscan hnext _
  cases hscan with
  | @cons _ _ _ rest hread hrest =>
    have hheld : ∀ n, (m.withRest rest).Received world .operator later n →
        (Outcome.running n).RisesTo world m.operators.height (m.operands.height + 1)
          (m.Received world (.holding next) left) := by
      rintro _ ⟨c, v, rfl, hlater⟩
      exact risesTo_held hlater hnext
    refine (((h _ later hrest).bind hheld).step (step_atom hp hread)).of_eq ?_ ?_
    · show max m.operators.height (max (m.operators.height + O) _) = _
      omega
    · show max m.operands.height (max (m.operands.height + V) _) = _
      omega

theorem needsOperand_leaf (operand : Leaf) :
    NeedsOperand world.unlimited [operand.token] 0 1 := by
  refine needsOperand_of_atom (Nat.le_refl 1) fun m later hscan => ?_
  cases operand with
  | word text =>
    dsimp only [Leaf.token, takeAtom, takeWord]
    split
    · exact risesTo_settle _ hscan
    · exact risesTo_settle (m := { m with nonconst := _ }) _ hscan
  | str content => exact risesTo_settle (.ok (.str content)) hscan
  | date content => exact risesTo_settle _ hscan

theorem takeAtom_unary (m : Machine) (op : UnaryOp) :
    m.takeAtom world.unlimited (.operator op.spelling) = .running (m.awaiting (.unary op)) := by
  unfold takeAtom
  dsimp only
  rw [if_neg op.spelling_ne_plus, op.ofSpelling?_spelling]
  rfl

/-- While its operand is evaluated, an operator waits. -/
theorem NeedsOperand.unary (h : NeedsOperand world.unlimited ts O V) (hV : 1 ≤ V)
    (op : UnaryOp) :
    NeedsOperand world.unlimited (.operator op.spelling :: ts) (1 + O) V := by
  intro m later next left hp hscan hnext hbase
  cases hscan with
  | @cons _ _ _ rest hread hrest =>
    have hpush : m.step world.unlimited = .running ((m.withRest rest).awaiting (.unary op)) :=
      (step_atom hp hread).trans (takeAtom_unary _ op)
    have hoperand := h (m := (m.withRest rest).awaiting (.unary op)) rfl hrest hnext
      (Nat.le_succ_of_le hbase)
    have happlied : ∀ n, ((m.withRest rest).awaiting (.unary op)).Received world.unlimited
          (.holding next) left n →
        (Outcome.running n).RisesTo world.unlimited (m.operators.height + 1)
          (m.operands.height + 1) (m.Received world.unlimited (.holding next) left) := by
      rintro _ ⟨c, v, rfl, hleft⟩
      exact risesTo_unary hbase hleft
    refine ((hoperand.bind happlied).step hpush).of_eq ?_ ?_
    · show max m.operators.height (max (m.operators.height + 1 + O) _) = _
      omega
    · show max m.operands.height (max (m.operands.height + V) _) = _
      omega

/-- While its right operand is evaluated, an operator waits with the left one.
The left one is a phrase no weaker than the operator, and the right one is
stronger. -/
theorem needsPhrase_binary {op : BinaryOp} {lefts rights : List Token}
    (hl : NeedsPhrase world.unlimited lefts op.precedence O V)
    (hr : NeedsPhrase world.unlimited rights (op.precedence + 1) O' V') (hV : 1 ≤ V') :
    NeedsPhrase world.unlimited (lefts ++ .operator op.spelling :: rights) op.precedence
      (max O (1 + O')) (max V (1 + V')) := by
  intro m later next left minimum hp hscan hnext hbounded hlt hwithin
  rw [List.append_assoc, List.cons_append] at hscan
  have hleft := hl hp hscan (.binary op (rights ++ later)) hbounded hlt (Nat.le_refl op.precedence)
  have hright : ∀ n, m.Received world.unlimited (.holding (.binary op)) (rights ++ later) n →
      (Outcome.running n).RisesTo world.unlimited
        (max m.operators.height (max (m.operators.height + 1 + O') (m.operators.height + 1)))
        (max (m.operands.height + 1)
          (max (m.operands.height + 1 + V') (m.operands.height + 2)))
        (m.Received world.unlimited (.holding next) left) := by
    rintro _ ⟨c, l, rfl, hrest⟩
    -- With the operator on top, the right phrase ends before one that is no stronger.
    have hwaits : ((m.received c l .atom).awaiting (.binary op)).Bounded op.precedence :=
      bounded_awaiting (m := m.received c l .atom) hbounded.base_le (.binary op)
    have hphrase := hr (m := (m.received c l .atom).awaiting (.binary op)) rfl hrest hnext hwaits
      (Nat.lt_succ_self _) (hwithin.mono (Nat.le_succ _))
    refine .step (step_push rfl ⟨hbounded.base_le, hbounded.top_le⟩ hlt) (hphrase.bind ?_)
    rintro _ ⟨c', r, rfl, hrest'⟩
    exact risesTo_binary hbounded.base_le hwithin hrest'
  refine (hleft.bind hright).of_eq ?_ ?_ <;> omega

/-- A phrase that ends a level, and what its end leads to. -/
theorem NeedsPhrase.level {t : Terminator} {P Q : Nat} {goal : Machine → Prop}
    (h : NeedsPhrase world ts strength O V) (hV : 1 ≤ V) (hpos : 0 < strength)
    (hp : m.phase = .atom) (hb : m.base = m.heights)
    (hscan : world.lexer.Scans (ts ++ later) m.scope.rest)
    (hnext : Continues later (.terminator t) left)
    (hclose : ∀ c v, world.lexer.Scans left c.rest →
      (({ m with phase := .holding (.terminator t) }.moved c).closeLevel world t v).RisesTo world
        P Q goal) :
    (Outcome.running m).RisesTo world (max (m.operators.height + O) P)
      (max (m.operands.height + V) Q) goal := by
  have hphrase := h hp hscan hnext (bounded_of_opened hb 0) hpos trivial
  have hend : ∀ n, m.Received world (.holding (.terminator t)) left n →
      (Outcome.running n).RisesTo world (max m.operators.height P)
        (max (m.operands.height + 1) Q) goal := by
    rintro _ ⟨c, v, rfl, hleft⟩
    exact .step (step_received hb c v t) (hclose c v hleft)
  refine (hphrase.bind hend).of_eq ?_ ?_ <;> omega

/-- A phrase between parentheses is an operand. -/
theorem NeedsPhrase.group (h : NeedsPhrase world.unlimited ts strength O V) (hV : 1 ≤ V)
    (hpos : 0 < strength) :
    NeedsOperand world.unlimited (.leftParen :: (ts ++ [.rightParen])) O V := by
  refine needsOperand_of_atom hV fun m later hscan => ?_
  rw [List.append_assoc] at hscan
  refine Outcome.RisesTo.of_eq (h.level (m := m.opened (.group m.base)) (P := m.operators.height)
    (Q := m.operands.height + 1) hV hpos rfl rfl hscan (.rightParen later) fun c v hleft => ?_)
    ?_ ?_
  · rw [closeLevel_group rfl, if_pos rfl]
    exact Outcome.risesTo_here ⟨c, v, rfl, hleft⟩
  · show max (m.operators.height + O) _ = _
    omega
  · show max (m.operands.height + V) _ = _
    omega

/-- A call of a function that every expression can call, when the arguments lie
on the operands. -/
theorem risesTo_enter (b : Builtin) (vs : List Value) {below : Stack Value}
    (hvals : m.operands.entries = vs.reverse ++ below.entries)
    (hscan : world.unlimited.lexer.Scans left m.scope.rest) :
    (m.enter world.unlimited b.name vs.length).RisesTo world.unlimited m.operators.height
      (below.height + 1)
      (Received world.unlimited { m with operands := below } .operator left) := by
  obtain ⟨operands, hpop, hentries⟩ := Stack.popMany?_eq_some hvals
  obtain rfl : operands = below := Stack.ext hentries
  rw [List.length_reverse, List.reverse_reverse] at hpop
  unfold enter call
  rw [b.ofName?_name]
  dsimp only
  cases b.signature.checkArity vs.length with
  | error e => exact Outcome.risesTo_fail m e
  | ok u =>
    dsimp only
    rw [hpop]
    dsimp only
    cases b.apply world.unlimited.environment world.unlimited.functions vs with
    | error e => exact Outcome.risesTo_fail _ e
    | ok v => exact Outcome.risesTo_here ⟨⟨m.scope.rest, _⟩, v, rfl, hscan⟩

/-- After the last argument, the function is called. -/
theorem risesTo_closeLevel (b : Builtin) (vs : List Value) {below : Stack Value} {base : Heights}
    {frames : List Frame} {c : Cursor} (v : Value)
    (hf : m.frames = .argument base b.name vs.length :: frames)
    (hvals : m.operands.entries = vs.reverse ++ below.entries)
    (hscan : world.unlimited.lexer.Scans left c.rest) :
    (closeLevel world.unlimited (m.moved c) .rightParen v).RisesTo world.unlimited
      m.operators.height (below.height + 1)
      (Received world.unlimited { m with frames, base, operands := below } .operator left) := by
  have hclose : closeLevel world.unlimited (m.moved c) .rightParen v = _ := closeLevel_argument hf
  have hcall := risesTo_enter (m := { m with
    frames, base, operands := m.operands.push v, phase := .operator }.moved c) b (vs ++ [v])
    (Stack.entries_push_of_above hvals v) hscan
  rw [List.length_append] at hcall
  rw [hclose]
  exact hcall

/-- The arguments of a call, of which some have been evaluated and lie on the
operands, and the call itself. -/
theorem risesTo_arguments (b : Builtin) {e : Tree} {es : List Tree}
    (h : ∀ e' ∈ e :: es, NeedsPhrase world.unlimited e'.tokens e'.strength e'.operatorDemand
      e'.operandDemand)
    (vs : List Value) (below : Stack Value) {base : Heights} {frames : List Frame}
    (hp : m.phase = .atom) (hb : m.base = m.heights)
    (hf : m.frames = .argument base b.name vs.length :: frames)
    (hvals : m.operands.entries = vs.reverse ++ below.entries)
    (hscan : world.unlimited.lexer.Scans (Tree.argumentTokens (e :: es) ++ .rightParen :: later)
      m.scope.rest) :
    (Outcome.running m).RisesTo world.unlimited
      (m.operators.height + Tree.argumentsOperatorDemand (e :: es))
      (below.height + Tree.argumentsOperandDemand vs.length (e :: es))
      (Received world.unlimited { m with frames, base, operands := below } .operator later) := by
  -- On the arguments after the first one; the values of those before it are `vs`.
  induction es generalizing e vs m with
  | nil =>
    have hheight := Stack.height_of_above hvals
    have hV := e.operandDemand_pos
    refine ((h e List.mem_cons_self).level (P := m.operators.height) (Q := below.height + 1) hV
      e.strength_pos hp hb hscan (.rightParen later) fun c v hleft => ?_).of_eq ?_ ?_
    · exact risesTo_closeLevel (m := { m with phase := .holding (.terminator .rightParen) }) b vs v
        hf hvals hleft
    · rw [Tree.argumentsOperatorDemand_cons, Tree.argumentsOperatorDemand]
      omega
    · rw [Tree.argumentsOperandDemand_cons, Tree.argumentsOperandDemand]
      omega
  | cons e' es ih =>
    have hheight := Stack.height_of_above hvals
    rw [Tree.argumentTokens_cons, List.append_assoc, List.cons_append] at hscan
    refine ((h e List.mem_cons_self).level
      (P := m.operators.height + Tree.argumentsOperatorDemand (e' :: es))
      (Q := below.height + Tree.argumentsOperandDemand (vs.length + 1) (e' :: es))
      e.operandDemand_pos e.strength_pos hp hb hscan (.comma _) fun c v hleft => ?_).of_eq ?_ ?_
    · have hclose : closeLevel world.unlimited ({ m with
          phase := .holding (.terminator .comma) }.moved c) .comma v = _ :=
        closeLevel_argument hf
      have hrest := ih (m := ({ m with frames, operands := m.operands.push v }.moved c).opened
          (.argument base b.name (vs ++ [v]).length))
        (fun e'' he'' => h e'' (List.mem_cons_of_mem e he'')) (vs ++ [v]) rfl rfl rfl
        (Stack.entries_push_of_above hvals v) hleft
      rw [List.length_append] at hrest
      rw [hclose]
      exact hrest
    · rw [Tree.argumentsOperatorDemand_cons e (e' :: es)]
      omega
    · rw [Tree.argumentsOperandDemand_cons _ e (e' :: es)]
      omega

/-- A call with all its arguments. -/
theorem needsOperand_call (b : Builtin) {es : List Tree}
    (h : ∀ e ∈ es, NeedsPhrase world.unlimited e.tokens e.strength e.operatorDemand
      e.operandDemand) :
    NeedsOperand world.unlimited (Tree.call b es).tokens (Tree.call b es).operatorDemand
      (Tree.call b es).operandDemand := by
  rw [Tree.tokens, Tree.operatorDemand, Tree.operandDemand]
  refine needsOperand_of_atom (Nat.le_max_left 1 _) fun m later hscan => ?_
  cases es with
  | nil =>
    obtain ⟨rest, hclosed, hrest⟩ := hscan.closes
    rw [takeAtom_call_closed hclosed]
    exact risesTo_enter (m := m.withRest rest) b [] rfl hrest
  | cons e es =>
    rw [List.append_assoc] at hscan
    have hopen : ∀ rest, world.unlimited.lexer.skipBlanks m.scope.rest ≠ ')' :: rest := by
      obtain ⟨t, ts, heq, hne⟩ := e.tokens_eq_cons
      obtain ⟨ts', heq'⟩ := e.argumentTokens_eq_append es
      rw [heq', heq] at hscan
      exact hscan.not_closes hne
    rw [takeAtom_call_open hopen]
    have harguments := risesTo_arguments
      (m := (m.withRest (world.unlimited.lexer.skipBlanks m.scope.rest)).opened
        (.argument m.base b.name 0))
      b h [] m.operands rfl rfl rfl rfl hscan.skipBlanks
    refine Outcome.RisesTo.of_eq harguments rfl ?_
    rw [List.length_nil, Tree.argumentsOperandDemand_cons]
    have hV := e.operandDemand_pos
    omega

/-! ## All trees -/

/-- The tokens of a tree are those of a phrase of its strength, and those of an
operand if it is no weaker than the operators before an operand. They need the
room that the tree demands. -/
structure NeedsTree (world : World) (e : Tree) : Prop where
  phrase : NeedsPhrase world e.tokens e.strength e.operatorDemand e.operandDemand
  operand : ∀ op : UnaryOp, op.precedence ≤ e.strength →
    NeedsOperand world e.tokens e.operatorDemand e.operandDemand

theorem NeedsOperand.tree {e : Tree}
    (h : NeedsOperand world e.tokens e.operatorDemand e.operandDemand) : NeedsTree world e where
  phrase := h.phrase e.strength
  operand _ _ := h

/-- Parentheses that are not left out need no room. -/
theorem NeedsTree.enclosed_phrase {e : Tree} {needed : Bool} (h : NeedsTree world.unlimited e)
    (hstrong : needed = false → strength ≤ e.strength) :
    NeedsPhrase world.unlimited (Expr.enclosed needed e.tokens) strength e.operatorDemand
      e.operandDemand := by
  cases needed with
  | false => exact h.phrase.weaken (hstrong rfl)
  | true => exact (h.phrase.group e.operandDemand_pos e.strength_pos).phrase strength

theorem NeedsTree.enclosed_operand {e : Tree} (h : NeedsTree world.unlimited e) (op : UnaryOp) :
    NeedsOperand world.unlimited (Expr.enclosed (decide (e.strength < op.precedence)) e.tokens)
      e.operatorDemand e.operandDemand := by
  by_cases hweak : e.strength < op.precedence
  · rw [decide_eq_true hweak]
    exact h.phrase.group e.operandDemand_pos e.strength_pos
  · rw [decide_eq_false hweak]
    exact h.operand op (Nat.le_of_not_lt hweak)

/-- Every tree needs the room that it demands. -/
theorem needs_tree (world : World) (e : Tree) : NeedsTree world.unlimited e := by
  induction e using Tree.induction with
  | leaf operand => exact (needsOperand_leaf operand).tree
  | unary op e ih =>
    apply NeedsOperand.tree
    rw [Tree.tokens, Tree.operatorDemand, Tree.operandDemand]
    exact (ih.enclosed_operand op).unary e.operandDemand_pos op
  | binary op left right ihl ihr =>
    constructor
    · rw [Tree.tokens, Tree.operatorDemand, Tree.operandDemand]
      refine needsPhrase_binary ?_ ?_ right.operandDemand_pos
      · exact ihl.enclosed_phrase fun h => Nat.le_of_not_lt (of_decide_eq_false h)
      · exact ihr.enclosed_phrase fun h => Nat.lt_of_not_le (of_decide_eq_false h)
    · -- Every operator between operands is weaker than those before one.
      intro op' hle
      exact absurd hle (Nat.not_le_of_lt (op.precedence_lt op'))
  | call b arguments ih => exact (needsOperand_call b fun e he => (ih e he).phrase).tree
  | group e ih =>
    apply NeedsOperand.tree
    rw [Tree.tokens, Tree.operatorDemand, Tree.operandDemand]
    exact ih.phrase.group e.operandDemand_pos e.strength_pos

end Needs

/-! ## Evaluations -/

/-- The greatest heights of an evaluation without limits that comes to a value,
where the text is that of a tree. -/
theorem Machine.greatest_of_scans {world : World} {scope : Scope} {e : Tree}
    (hscan : world.lexer.Scans e.tokens scope.rest)
    (hfree : ∀ error, ((start scope .empty .empty).run world.unlimited).result ≠ .error error) :
    IsGreatest ((start scope .empty .empty).operatorHeights world.unlimited) e.operatorDemand
      ∧ IsGreatest ((start scope .empty .empty).operandHeights world.unlimited)
        e.operandDemand := by
  have hscan : world.unlimited.lexer.Scans (e.tokens ++ []) scope.rest := by
    rw [List.append_nil]
    exact hscan
  rcases (needs_tree world e).phrase (m := start scope .empty .empty) rfl hscan .endOfText
    (bounded_of_opened rfl 0) e.strength_pos trivial with
    ⟨error, herror⟩ | ⟨_, _, ⟨⟩, hpasses, c, v, rfl, -⟩
  · exact absurd herror (hfree error)
  · have hend : ((start scope .empty .empty).received c v (.holding (.terminator .endOfText))).step
        world.unlimited = _ := step_received rfl c v .endOfText
    have hheights := hpasses.greatest hend
    have hops : (start scope .empty .empty).operators.height + e.operatorDemand
        = e.operatorDemand := Nat.zero_add _
    have hvals : (start scope .empty .empty).operands.height + e.operandDemand
        = e.operandDemand := Nat.zero_add _
    rwa [hops, hvals] at hheights

namespace Interpreter

/-- The interpreter with limits of the stacks. -/
def limited (i : Interpreter) (operatorDepth operandDepth : Nat) : Interpreter :=
  { i with config := { i.config with
      operatorDepth := some operatorDepth, operandDepth := some operandDepth } }

/-- The room that an expression needs is exactly the demand of its tree. Take a
text of the tokens of the tree, such as the one with a blank between any two of
them, and suppose that it has a value without limits. With as much room on both
stacks as the tree demands, it has the same value; otherwise a stack overflows
that has less room than that. -/
theorem stack_demand_is_exact (i : Interpreter) (hrest : i.AtRest) (environment : Environment)
    (functions : UserFunctions) (locals : Locals) (e : Tree) :
    let lexer := (i.world environment functions).lexer
    ((∀ t ∈ e.tokens, lexer.Legible t) → lexer.Scans e.tokens e.text)
      ∧ ∀ text found, lexer.Scans e.tokens text →
          (i.unlimited.evaluate environment functions locals text).result = .ok found →
          ∀ p q,
            let result := ((i.limited p q).evaluate environment functions locals text).result
            (e.operatorDemand ≤ p ∧ e.operandDemand ≤ q → result = .ok found)
              ∧ (¬ (e.operatorDemand ≤ p ∧ e.operandDemand ≤ q) →
                p < e.operatorDemand ∧ result = .error .operatorStackOverflow
                  ∨ q < e.operandDemand ∧ result = .error .operandStackOverflow) := by
  intro lexer
  refine ⟨Tree.scans_text, fun text found hscan hfree p q => ?_⟩
  obtain ⟨config, operators, operands, nonconst⟩ := i
  obtain ⟨rfl, rfl⟩ := hrest
  let i : Interpreter := { config, operators := .empty, operands := .empty, nonconst }
  intro result
  have hvalue : ∀ error, ((start { rest := text, locals } .empty .empty).run
      (i.world environment functions).unlimited).result ≠ .error error := by
    intro error herror
    have hfailed : (i.unlimited.evaluate environment functions locals text).result
        = .error error := congrArg (Except.map _) herror
    rw [hfree] at hfailed
    cases hfailed
  obtain ⟨⟨⟨top, htop, hO⟩, hOle⟩, ⟨top', htop', hV⟩, hVle⟩ := greatest_of_scans hscan hvalue
  rcases (i.limited p q).result_within_or_beyond environment functions { rest := text, locals }
      (fun _ _ => Nat.zero_le _) (fun _ _ => Nat.zero_le _) with
    ⟨⟨hsame, -⟩, hadm⟩ | ⟨m, m', error, hm, hstep, hcrossed, herror⟩
  · -- Nothing has overflowed, so that the states of the greatest heights were within the limits.
    have hp : e.operatorDemand ≤ p := hO ▸ (hadm top htop).operators p rfl
    have hq : e.operandDemand ≤ q := hV ▸ (hadm top' htop').operands q rfl
    exact ⟨fun _ => hsame.trans hfree, fun hnot => absurd ⟨hp, hq⟩ hnot⟩
  · -- The state beyond a limit is one of the run without limits, no higher than the demand.
    have hm' := (reaches_of_within hm).tail hstep
    cases hcrossed with
    | operators hops hvals =>
      obtain ⟨_, ⟨⟩, hlt⟩ := hops
      have hp := Nat.lt_of_lt_of_le hlt (hOle ⟨m', hm', rfl⟩)
      exact ⟨fun h => absurd h.1 (Nat.not_le_of_lt hp), fun _ => .inl ⟨hp, herror⟩⟩
    | operands hops hvals =>
      obtain ⟨_, ⟨⟩, hlt⟩ := hvals
      have hq := Nat.lt_of_lt_of_le hlt (hVle ⟨m', hm', rfl⟩)
      exact ⟨fun h => absurd h.2 (Nat.not_le_of_lt hq), fun _ => .inr ⟨hq, herror⟩⟩

/-- The arguments of a call in a difference: three operators wait at once, and
four operands. -/
theorem demand_of_second_argument :
    let number (text : String) : Tree := .leaf (.word text)
    let e : Tree := .binary .sub (number "10") (.call .max [number "2",
      .binary .mul (.unary .neg (.binary .add (number "x") (number "1"))) (number "2")])
    let i : Interpreter := {}
    let locals := Locals.ofList [("x", .int 3)]
    let found : Evaluation := { value := .int 8, terminator := .endOfText, nonconst := false }
    e.text = "10 - max( 2 , - ( x + 1 ) * 2 )".toList
      ∧ ((i.limited 3 4).evaluate {} {} locals e.text).result = .ok found
      ∧ ((i.limited 2 4).evaluate {} {} locals e.text).result = .error .operatorStackOverflow
      ∧ ((i.limited 3 3).evaluate {} {} locals e.text).result = .error .operandStackOverflow := by
  intro number e i locals found
  have htext : e.text = "10 - max( 2 , - ( x + 1 ) * 2 )".toList := by
    cbv
  have hdemand : e.operatorDemand = 3 ∧ e.operandDemand = 4 := by
    cbv
  have hword : ∀ operand : Leaf, operand.token ∈ e.tokens →
      ∃ text ∈ ["10", "2", "x", "1"], operand = .word text := by
    have htokens : e.tokens = [.word "10", .operator "-", .call "max", .word "2", .comma,
        .operator "-", .leftParen, .word "x", .operator "+", .word "1", .rightParen,
        .operator "*", .word "2", .rightParen] := by
      cbv
    intro operand hmem
    rw [htokens] at hmem
    cases operand with
    | word text =>
      refine ⟨text, ?_, rfl⟩
      simp only [Leaf.token, List.mem_cons, Token.word.injEq, reduceCtorEq, List.not_mem_nil,
        false_or, or_false] at hmem ⊢
      grind
    | str content | date content => simp [Leaf.token] at hmem
  have hlegible : ∀ t ∈ e.tokens, ({} : Lexer).Legible t := by
    refine Tree.legible_tokens fun operand hmem => ?_
    obtain ⟨text, htext, rfl⟩ := hword operand hmem
    refine Lexer.legible_word ?_
    simp only [List.mem_cons, List.not_mem_nil, or_false] at htext
    rcases htext with rfl | rfl | rfl | rfl
    · exact Lexer.isWord_repr 10
    · exact Lexer.isWord_repr 2
    · exact ⟨'x', [], rfl, rfl, List.forall_mem_nil _⟩
    · exact Lexer.isWord_repr 1
  have hfree : (i.unlimited.evaluateScope {} {} { rest := e.text, locals }).result = .ok found
      ∧ (i.unlimited.evaluateScope {} {} { rest := e.text, locals }).rest = [] := by
    rw [htext]
    exact evaluateScope_of_runFor 60 (by decide +kernel)
  obtain ⟨hscan, hroom⟩ := stack_demand_is_exact i ⟨rfl, rfl⟩ {} {} locals e
  have hroom := hroom e.text found (hscan hlegible) hfree.1
  rw [hdemand.1, hdemand.2] at hroom
  refine ⟨htext, (hroom 3 4).1 (by decide), ?_, ?_⟩
  · rcases (hroom 2 4).2 (by decide) with ⟨-, h⟩ | ⟨hlt, -⟩
    · exact h
    · exact absurd hlt (by decide)
  · rcases (hroom 3 3).2 (by decide) with ⟨hlt, -⟩ | ⟨-, h⟩
    · exact absurd hlt (by decide)
    · exact h

end Interpreter

end ReminderExpr
