/-
ReminderExpr.Proofs.Limits — what the limits of the stacks change.

A limit is looked at only before a push, and a push beyond it ends the
evaluation with an overflow. So a step is the same without limits, or it is an
overflow, and then the step without limits crosses the limit
(`overflowsOr_step`). An evaluation that does not end with an overflow takes the
same steps as one without limits (`run_unlimited`).
-/
import ReminderExpr.Proofs.StackDiscipline

namespace ReminderExpr

/-- What an evaluation reads, without limits of the stacks. -/
def World.unlimited (world : World) : World :=
  { world with config := { world.config with operatorDepth := none, operandDepth := none } }

/-- Whether a failure is the overflow of a stack. -/
def EvalError.isOverflow : EvalError → Bool
  | operatorStackOverflow | operandStackOverflow => true
  | _ => false

/-- Whether a result is the overflow of a stack. -/
def Overflows {α : Type} (r : Result α) : Prop := ∃ e, r = .error e ∧ e.isOverflow = true

/-- One stack of a machine is beyond its limit, and the other one is not; the
failure names the stack. -/
inductive World.Crossed (world : World) (m : Machine) : EvalError → Prop
  | operators (hops : ∃ depth ∈ world.config.operatorDepth, depth < m.operators.height)
      (hvals : ∀ depth ∈ world.config.operandDepth, m.operands.height ≤ depth) :
      Crossed world m .operatorStackOverflow
  | operands (hops : ∀ depth ∈ world.config.operatorDepth, m.operators.height ≤ depth)
      (hvals : ∃ depth ∈ world.config.operandDepth, depth < m.operands.height) :
      Crossed world m .operandStackOverflow

/-- The outcome `o` of a step is the outcome `o'` that it has without limits, or
it is an overflow; if the stacks of `m` were within the limits, `o'` goes on
beyond the one that has overflowed. -/
def Outcome.OverflowsOr (world : World) (m : Machine) (o o' : Outcome) : Prop :=
  o = o' ∨ ∃ h e, o = .halted h ∧ h.result = .error e ∧ e.isOverflow = true
    ∧ (world.Admits m → ∃ m', o' = .running m' ∧ world.Crossed m' e)

/-- Lower stacks are within the limits as well. -/
theorem World.Admits.lower {world : World} {m n : Machine} (h : world.Admits m)
    (hops : n.operators.height ≤ m.operators.height)
    (hvals : n.operands.height ≤ m.operands.height) : world.Admits n where
  operators depth hdepth := Nat.le_trans hops (h.operators depth hdepth)
  operands depth hdepth := Nat.le_trans hvals (h.operands depth hdepth)

namespace Machine

variable (world : World) {m n : Machine} {o o' : Outcome}

theorem overflowsOr_lower (h : o.OverflowsOr world n o')
    (hops : n.operators.height ≤ m.operators.height)
    (hvals : n.operands.height ≤ m.operands.height) : o.OverflowsOr world m o' := by
  rcases h with h | ⟨halt, e, ho, he, hover, hcross⟩
  · exact .inl h
  · exact .inr ⟨halt, e, ho, he, hover, fun hadm => hcross (hadm.lower hops hvals)⟩

theorem overflowsOr_pushOperator (m : Machine) (op : PendingOp) (phase : Phase) :
    (m.pushOperator world op phase).OverflowsOr world m
      (m.pushOperator world.unlimited op phase) := by
  unfold pushOperator
  split
  · rename_i hfull
    obtain ⟨depth, hdepth, hle⟩ := (Option.any_eq_true _ _).1 hfull
    refine .inr ⟨_, _, rfl, rfl, rfl, fun hadm => ⟨_, rfl, .operators ⟨depth, hdepth, ?_⟩ ?_⟩⟩
    · exact Nat.lt_succ_of_le (of_decide_eq_true hle)
    · exact hadm.operands
  · exact .inl rfl

theorem overflowsOr_deliver (m : Machine) (v : Value) :
    (m.deliver world v).OverflowsOr world m (m.deliver world.unlimited v) := by
  unfold deliver
  split
  · rename_i hfull
    obtain ⟨depth, hdepth, hle⟩ := (Option.any_eq_true _ _).1 hfull
    refine .inr ⟨_, _, rfl, rfl, rfl, fun hadm => ⟨_, rfl, .operands ?_ ⟨depth, hdepth, ?_⟩⟩⟩
    · exact hadm.operators
    · exact Nat.lt_succ_of_le (of_decide_eq_true hle)
  · exact .inl rfl

/-- A value that takes the place of an operand finds room, within the limits. -/
theorem deliver_popped (hlt : n.operands.height < m.operands.height) (v : Value) :
    n.deliver world v = n.deliver world.unlimited v
      ∨ n.deliver world v = n.fail .operandStackOverflow ∧ ¬ world.Admits m := by
  unfold deliver
  split
  · rename_i hfull
    obtain ⟨depth, hdepth, hle⟩ := (Option.any_eq_true _ _).1 hfull
    refine .inr ⟨rfl, fun hadm => ?_⟩
    have hroom := hadm.operands depth hdepth
    have hle := of_decide_eq_true hle
    omega
  · exact .inl rfl

theorem overflowsOr_deliver_popped (hlt : n.operands.height < m.operands.height) (v : Value) :
    (n.deliver world v).OverflowsOr world m (n.deliver world.unlimited v) := by
  rcases deliver_popped world hlt v with h | ⟨h, hfull⟩
  · exact .inl h
  · exact .inr ⟨_, _, h, rfl, rfl, fun hadm => absurd hadm hfull⟩

theorem overflowsOr_settle (m : Machine) (r : Result Value) :
    (m.settle world r).OverflowsOr world m (m.settle world.unlimited r) := by
  cases r with
  | error e => exact .inl rfl
  | ok v => exact overflowsOr_deliver world m v

/-- A call puts nothing on the stacks. -/
theorem heights_call_le (m : Machine) (name : String) (count : Nat) :
    (m.call world name count).2.operators.height ≤ m.operators.height
      ∧ (m.call world name count).2.operands.height ≤ m.operands.height := by
  have popped : ∀ {arguments operands}, m.operands.popMany? count = some (arguments, operands) →
      operands.height ≤ m.operands.height := by
    intro arguments operands h
    unfold Stack.popMany? at h
    split at h
    · cases h
      exact Nat.sub_le _ _
    · cases h
  unfold call
  split
  · split
    · exact ⟨Nat.le_refl _, Nat.le_refl _⟩
    · dsimp only
      split
      · exact ⟨Nat.le_refl _, Nat.le_refl _⟩
      · rename_i hpop
        exact ⟨Nat.le_refl _, popped hpop⟩
  · split
    · exact ⟨Nat.le_refl _, Nat.le_refl _⟩
    · split
      · exact ⟨Nat.le_refl _, Nat.le_refl _⟩
      · rename_i hpop
        exact ⟨Nat.le_refl _, popped hpop⟩

theorem overflowsOr_enter (m : Machine) (name : String) (count : Nat) :
    (m.enter world name count).OverflowsOr world m (m.enter world.unlimited name count) := by
  have hcall : m.call world.unlimited name count = m.call world name count := rfl
  obtain ⟨hops, hvals⟩ := heights_call_le world m name count
  unfold enter
  rw [hcall]
  split
  · exact .inl rfl
  · rename_i h
    rw [h] at hops hvals
    exact overflowsOr_lower world (overflowsOr_deliver world _ _) hops hvals
  · exact .inl rfl

theorem overflowsOr_takeWord (m : Machine) (text : String) :
    (m.takeWord world text).OverflowsOr world m (m.takeWord world.unlimited text) := by
  unfold takeWord
  split
  · exact overflowsOr_settle world m _
  · have h := overflowsOr_settle world
      { m with nonconst := m.nonconst || (resolve world m.scope.locals text).2 }
      (resolve world m.scope.locals text).1
    exact overflowsOr_lower world h (Nat.le_refl _) (Nat.le_refl _)

theorem overflowsOr_takeAtom (m : Machine) (t : Token) :
    (m.takeAtom world t).OverflowsOr world m (m.takeAtom world.unlimited t) := by
  have hlexer : world.unlimited.lexer = world.lexer := rfl
  unfold takeAtom
  rw [hlexer]
  split
  · exact .inl rfl
  · exact .inl rfl
  · split
    · exact .inl rfl
    · split
      · exact overflowsOr_pushOperator world m _ _
      · exact .inl rfl
  · split
    · rename_i rest _
      exact overflowsOr_lower world (overflowsOr_enter world (m.withRest rest) _ 0)
        (Nat.le_refl _) (Nat.le_refl _)
    · exact .inl rfl
  · exact overflowsOr_deliver world m _
  · exact overflowsOr_settle world m _
  · exact overflowsOr_takeWord world m _
  all_goals exact .inl rfl

/-- The value of a level is taken off the operands before it is handed on. -/
theorem overflowsOr_closeLevel {operands : Stack Value} {v : Value}
    (hv : m.operands = operands.push v) (t : Terminator) :
    ({ m with operands }.closeLevel world t v).OverflowsOr world m
      ({ m with operands }.closeLevel world.unlimited t v) := by
  have hlt : operands.height < m.operands.height := by
    rw [hv, Stack.height_push]
    exact Nat.lt_succ_self _
  unfold closeLevel
  split
  · exact .inl rfl
  · split
    · exact overflowsOr_deliver_popped world hlt v
    · exact .inl rfl
  · rename_i base name count frames _
    rcases deliver_popped (n := { m with operands }) world hlt v with hd | ⟨hd, hfull⟩
    · have hd' : { m with operands }.deliver world.unlimited v
          = .running { m with operands := operands.push v, phase := .operator } := rfl
      rw [hd, hd']
      cases t with
      | comma => exact .inl rfl
      | rightParen =>
        have h := overflowsOr_enter world
          { m with frames, base, operands := operands.push v, phase := .operator } name (count + 1)
        have hheight : (operands.push v).height = m.operands.height := congrArg Stack.height hv.symm
        exact overflowsOr_lower world h (Nat.le_refl _) (Nat.le_of_eq hheight)
      | endOfText => exact .inl rfl
      | closeBracket => exact .inl rfl
    · rw [hd]
      exact .inr ⟨_, _, rfl, rfl, rfl, fun hadm => absurd hadm hfull⟩
  · exact overflowsOr_deliver_popped world hlt v

theorem overflowsOr_takeHeld (m : Machine) (held : Held) :
    (m.takeHeld world held).OverflowsOr world m (m.takeHeld world.unlimited held) := by
  unfold takeHeld
  split
  · exact .inl rfl
  · split
    · unfold takeTerminator
      split
      · exact .inl rfl
      · split
        · exact .inl rfl
        · rename_i v operands hpop
          exact overflowsOr_closeLevel world (Stack.ext (Stack.pop?_eq_some_iff.1 hpop)) _
    · exact overflowsOr_pushOperator world m _ _

/-- A step is the same without limits, or it is an overflow; then a step without
limits crosses the limit. -/
theorem overflowsOr_step (m : Machine) :
    (m.step world).OverflowsOr world m (m.step world.unlimited) := by
  have hlexer : world.unlimited.lexer = world.lexer := rfl
  unfold step readThen
  rw [hlexer]
  split
  · split
    · exact .inl rfl
    · rename_i t rest _
      exact overflowsOr_lower world (overflowsOr_takeAtom world (m.withRest rest) t)
        (Nat.le_refl _) (Nat.le_refl _)
  · split
    · exact .inl rfl
    · exact .inl rfl
  · exact overflowsOr_takeHeld world m _

/-- A run that does not overflow is the same without limits. -/
theorem run_unlimited {world : World} (h : ¬ Overflows (m.run world).result) :
    m.run world.unlimited = m.run world := by
  induction m using (wellFounded_smaller world).induction with
  | h m ih =>
    rcases overflowsOr_step world m with hstep | ⟨halt, e, hstep, he, hover, -⟩
    · cases hm : m.step world with
      | halted halt =>
        rw [run_of_halted hm, run_of_halted (hstep ▸ hm)]
      | running m' =>
        rw [run_of_running hm] at h ⊢
        rw [run_of_running (hstep ▸ hm)]
        exact ih m' (smaller_of_step hm) h
    · rw [run_of_halted hstep] at h
      exact absurd ⟨e, he, hover⟩ h

end Machine

end ReminderExpr
