/-
ReminderExpr.Proofs.Unguarded — evaluation without the guard against recursion.

`Machine.stepUnguarded` takes a step as if no function were under evaluation,
so that it enters every body that is called. An evaluation in which no call is
refused takes the same steps with and without the guard: the machines differ
only in what they hold to be under evaluation, which `erase` forgets.

* `stepUnguarded`, `unguardedAfter` — the evaluator without the guard;
* `erase_step` — a step is the same without the guard, or it refuses a call;
* `unguarded_of_run` — the same of a whole run.
-/
import ReminderExpr.Proofs.Levels

namespace ReminderExpr

/-! ## Forgetting what is under evaluation -/

/-- The scope with no function under evaluation. -/
def Scope.erase (s : Scope) : Scope := { s with active := [] }

def Frame.erase : Frame → Frame
  | .body base caller => .body base caller.erase
  | frame => frame

/-- The machine with no function under evaluation. -/
def Machine.erase (m : Machine) : Machine :=
  { m with scope := m.scope.erase, frames := m.frames.map Frame.erase }

def Outcome.erase : Outcome → Outcome
  | .running m => .running m.erase
  | .halted h => .halted { h with machine := h.machine.erase }

/-- Whether an evaluation has ended with the refusal of a call. -/
def Outcome.Refused (o : Outcome) : Prop :=
  ∃ h name, o = .halted h ∧ h.result = .error (.recursiveCall name)

namespace Machine

/-- A step that takes no function to be under evaluation. -/
def stepUnguarded (world : World) (m : Machine) : Outcome := m.erase.step world

/-- What a number of such steps leads to. -/
def unguardedAfter (world : World) (m : Machine) : (steps : Nat) → Outcome
  | 0 => .running m
  | steps + 1 =>
      match m.unguardedAfter world steps with
      | .running m => m.stepUnguarded world
      | .halted h => .halted h

variable {world : World} {m n : Machine}

theorem unguardedAfter_succ_of_running {steps : Nat}
    (h : m.unguardedAfter world steps = .running n) :
    m.unguardedAfter world (steps + 1) = n.stepUnguarded world := by
  rw [unguardedAfter, h]

/-- Steps after some steps. -/
theorem unguardedAfter_add {steps : Nat} (h : m.unguardedAfter world steps = .running n)
    (more : Nat) : m.unguardedAfter world (steps + more) = n.unguardedAfter world more := by
  induction more with
  | zero => exact h
  | succ more ih =>
    show (match m.unguardedAfter world (steps + more) with
      | .running m => m.stepUnguarded world
      | .halted h => .halted h) = _
    rw [ih]
    rfl

/-- An evaluation that has ended stays as it is. -/
theorem unguardedAfter_of_halted {steps : Nat} {halt : Halt}
    (h : m.unguardedAfter world steps = .halted halt) (more : Nat) :
    m.unguardedAfter world (steps + more) = .halted halt := by
  induction more with
  | zero => exact h
  | succ more ih =>
    show (match m.unguardedAfter world (steps + more) with
      | .running m => m.stepUnguarded world
      | .halted h => .halted h) = _
    rw [ih]

/-! ## Steps that are not refused -/

theorem map_erase_erase (frames : List Frame) :
    (frames.map Frame.erase).map Frame.erase = frames.map Frame.erase := by
  rw [List.map_map]
  apply List.map_congr_left
  intro frame _
  cases frame <;> rfl

theorem erase_erase (m : Machine) : m.erase.erase = m.erase := by
  simp only [erase, Scope.erase, map_erase_erase]

theorem outermost_map_erase (frames : List Frame) (rest : List Char) :
    outermost (frames.map Frame.erase) rest = outermost frames rest := by
  induction frames generalizing rest with
  | nil => rfl
  | cons frame frames ih => cases frame <;> exact ih _

theorem outerRest_erase (m : Machine) : m.erase.outerRest = m.outerRest := by
  rw [outerRest_eq, outerRest_eq]
  exact outermost_map_erase m.frames m.scope.rest

theorem erase_fail (m : Machine) (e : EvalError) : (m.fail e).erase = (m.erase.fail e).erase := by
  simp only [fail, Outcome.erase, erase_erase]

theorem erase_deliver (m : Machine) (v : Value) :
    (m.deliver world v).erase = (m.erase.deliver world v).erase := by
  have hvals : m.erase.operands = m.operands := rfl
  unfold deliver
  rw [hvals]
  split
  · exact erase_fail m _
  · exact congrArg Outcome.running (erase_erase _).symm

theorem erase_pushOperator (m : Machine) (op : PendingOp) (phase : Phase) :
    (m.pushOperator world op phase).erase = (m.erase.pushOperator world op phase).erase := by
  have hops : m.erase.operators = m.operators := rfl
  unfold pushOperator
  rw [hops]
  split
  · exact erase_fail m _
  · exact congrArg Outcome.running (erase_erase _).symm

theorem erase_settle (m : Machine) (r : Result Value) :
    (m.settle world r).erase = (m.erase.settle world r).erase := by
  cases r with
  | error e => exact erase_fail m e
  | ok v => exact erase_deliver m v

theorem erase_openLevel (m : Machine) (frame : Frame) :
    (m.openLevel frame).erase = (m.erase.openLevel frame).erase := by
  apply congrArg Outcome.running
  simp only [erase, List.map_cons, map_erase_erase]
  rfl

theorem erase_takeOperator (m : Machine) (t : Token) :
    (m.takeOperator t).erase = (m.erase.takeOperator t).erase := by
  unfold takeOperator
  split
  · exact congrArg Outcome.running (erase_erase _).symm
  · split
    · split
      · exact congrArg Outcome.running (erase_erase _).symm
      · exact erase_fail m _
    · exact erase_fail m _

theorem erase_applyTop (m : Machine) :
    (m.applyTop world).erase = (m.erase.applyTop world).erase := by
  have hops : m.erase.operators = m.operators := rfl
  have hvals : m.erase.operands = m.operands := rfl
  unfold applyTop
  rw [hops, hvals]
  split
  · exact erase_fail m _
  · split
    · exact erase_fail m _
    · split
      · exact erase_fail m _
      · exact congrArg Outcome.running (erase_erase _).symm
  · split
    · exact erase_fail m _
    · split
      · exact erase_fail m _
      · split
        · exact erase_fail m _
        · exact congrArg Outcome.running (erase_erase _).symm

/-! ## Calls, which the guard may refuse -/

theorem erase_enter (m : Machine) (name : String) (count : Nat) :
    (m.enter world name count).Refused
      ∨ (m.enter world name count).erase = (m.erase.enter world name count).erase := by
  have hvals : m.erase.operands = m.operands := rfl
  unfold enter call
  rw [hvals]
  cases hb : Builtin.ofName? name with
  | some builtin =>
    right
    dsimp only
    cases hc : builtin.signature.checkArity count with
    | error e => exact erase_fail m e
    | ok u =>
      dsimp only
      cases hm : m.operands.popMany? count with
      | none => exact erase_fail { m with nonconst := _ } _
      | some popped =>
        obtain ⟨arguments, operands⟩ := popped
        dsimp only
        cases builtin.apply world.environment world.functions arguments with
        | error e => exact erase_fail { m with nonconst := _, operands } e
        | ok v => exact erase_deliver { m with nonconst := _, operands } v
  | none =>
    dsimp only
    cases hf : world.functions.find? name with
    | none => exact .inr (erase_fail m _)
    | some f =>
      dsimp only
      cases hm : m.operands.popMany? count with
      | none => exact .inr (erase_fail m _)
      | some popped =>
        obtain ⟨arguments, operands⟩ := popped
        dsimp only
        by_cases hactive : m.scope.active.contains f.key = true
        · left
          rw [bindCall, if_pos hactive]
          exact ⟨_, f.name, rfl, rfl⟩
        · right
          rw [bindCall, if_neg hactive, bindCall, if_neg nofun]
          cases f.bind arguments with
          | error e => exact erase_fail { m with operands } e
          | ok locals =>
            apply congrArg Outcome.running
            simp only [erase, List.map_cons, map_erase_erase]
            rfl

theorem erase_takeAtom (m : Machine) (t : Token) :
    (m.takeAtom world t).Refused
      ∨ (m.takeAtom world t).erase = (m.erase.takeAtom world t).erase := by
  have hrest : m.erase.scope.rest = m.scope.rest := rfl
  unfold takeAtom
  rw [hrest]
  cases t with
  | endOfText => exact .inr (erase_fail m _)
  | leftParen => exact .inr (erase_openLevel m _)
  | operator spelling =>
    right
    dsimp only
    split
    · exact congrArg Outcome.running (erase_erase _).symm
    · split
      · exact erase_pushOperator m _ _
      · exact erase_fail m _
  | call name =>
    dsimp only
    split
    · exact erase_enter (m.withRest _) name 0
    · exact .inr (erase_openLevel (m.withRest _) _)
  | str content => exact .inr (erase_deliver m _)
  | date content => exact .inr (erase_settle m _)
  | word text =>
    right
    dsimp only [takeWord]
    split
    · exact erase_settle m _
    · exact erase_settle { m with nonconst := m.nonconst || (resolve world m.scope.locals text).2 } _
  | comma => exact .inr (erase_fail m _)
  | rightParen => exact .inr (erase_fail m _)
  | closeBracket => exact .inr (erase_fail m _)

theorem erase_closeLevel (m : Machine) (t : Terminator) (v : Value) :
    (m.closeLevel world t v).Refused
      ∨ (m.closeLevel world t v).erase = (m.erase.closeLevel world t v).erase := by
  have hframes : m.erase.frames = m.frames.map Frame.erase := rfl
  unfold closeLevel
  rw [hframes]
  cases hm : m.frames with
  | nil => exact .inr (congrArg (fun m => Outcome.halted ⟨.ok (v, t), m⟩) (erase_erase m).symm)
  | cons frame frames =>
    cases frame with
    | group base =>
      right
      dsimp only [List.map_cons, Frame.erase]
      split
      · exact erase_deliver { m with frames, base } v
      · exact erase_fail m _
    | argument base name count =>
      dsimp only [List.map_cons, Frame.erase]
      by_cases hfull : world.config.operandDepth.any (· ≤ m.operands.height) = true
      · have hd : m.deliver world v = m.fail .operandStackOverflow := if_pos hfull
        have hd' : m.erase.deliver world v = m.erase.fail .operandStackOverflow := if_pos hfull
        rw [hd, hd']
        exact .inr (erase_fail m _)
      · have hd : m.deliver world v = .running
            { m with operands := m.operands.push v, phase := .operator } := if_neg hfull
        have hd' : m.erase.deliver world v = .running
            { m.erase with operands := m.operands.push v, phase := .operator } := if_neg hfull
        rw [hd, hd']
        cases t with
        | comma =>
          exact .inr (erase_openLevel
            { m with frames, operands := m.operands.push v, phase := .operator } _)
        | rightParen =>
          exact erase_enter
            { m with frames, base, operands := m.operands.push v, phase := .operator } name _
        | endOfText | closeBracket =>
          exact .inr (erase_fail { m with operands := m.operands.push v, phase := .operator } _)
    | body base caller => exact .inr (erase_deliver { m with frames, base, scope := caller } v)

theorem erase_takeHeld (m : Machine) (held : Held) :
    (m.takeHeld world held).Refused
      ∨ (m.takeHeld world held).erase = (m.erase.takeHeld world held).erase := by
  have hmust : m.erase.mustApply held = m.mustApply held := rfl
  unfold takeHeld
  rw [hmust]
  split
  · exact .inr (erase_applyTop m)
  · cases held with
    | binary op => exact .inr (erase_pushOperator m _ _)
    | terminator t =>
      have hvals : m.erase.operands = m.operands := rfl
      have hbase : m.erase.base = m.base := rfl
      dsimp only [takeTerminator]
      rw [hvals, hbase]
      split
      · exact .inr (erase_fail m _)
      · cases m.operands.pop? with
        | none => exact .inr (erase_fail m _)
        | some popped => exact erase_closeLevel { m with operands := popped.2 } t popped.1

/-! ## Steps and runs -/

/-- A step is the same without the guard, or it refuses a call. -/
theorem erase_step (m : Machine) :
    (m.step world).Refused ∨ (m.step world).erase = (m.stepUnguarded world).erase := by
  have hrest : m.erase.scope.rest = m.scope.rest := rfl
  have hphase : m.erase.phase = m.phase := rfl
  unfold stepUnguarded step readThen
  rw [hrest, hphase]
  cases m.phase with
  | holding held => exact erase_takeHeld m held
  | atom =>
    dsimp only
    split
    · exact .inr (erase_fail (m.withRest _) _)
    · exact erase_takeAtom (m.withRest _) _
  | operator =>
    dsimp only
    split
    · exact .inr (erase_fail (m.withRest _) _)
    · exact .inr (erase_takeOperator (m.withRest _) _)

theorem stepUnguarded_erase (m : Machine) :
    m.erase.stepUnguarded world = m.stepUnguarded world := by
  unfold stepUnguarded
  rw [erase_erase]

/-- An evaluation in which no call is refused ends in the same way without
the guard. -/
theorem unguarded_of_run (hn : n.erase = m.erase)
    (h : ∀ name, (m.run world).result ≠ .error (.recursiveCall name)) :
    ∃ steps halt, n.unguardedAfter world steps = .halted halt
      ∧ halt.result = (m.run world).result
      ∧ halt.machine.erase = (m.run world).machine.erase := by
  induction m using (wellFounded_smaller world).induction generalizing n with
  | h m ih =>
    have hsame : n.stepUnguarded world = m.stepUnguarded world := by
      rw [← stepUnguarded_erase, hn, stepUnguarded_erase]
    have hstep : (m.step world).Refused ∨ _ := erase_step m
    rcases hstep with ⟨halt, name, hm, hrefused⟩ | herase
    · rw [run_of_halted hm] at h
      exact absurd hrefused (h name)
    · rw [← hsame] at herase
      cases hm : m.step world with
      | halted halt =>
        rw [hm] at herase
        rw [run_of_halted hm]
        cases hn : n.stepUnguarded world with
        | running n' =>
          rw [hn] at herase
          cases herase
        | halted halt' =>
          rw [hn] at herase
          have heq := Outcome.halted.inj herase
          exact ⟨1, halt', hn, (congrArg Halt.result heq).symm, (congrArg Halt.machine heq).symm⟩
      | running m' =>
        rw [hm] at herase
        rw [run_of_running hm] at h ⊢
        cases hn : n.stepUnguarded world with
        | halted halt' =>
          rw [hn] at herase
          cases herase
        | running n' =>
          rw [hn] at herase
          obtain ⟨steps, halt, hhalt, hresult⟩ :=
            ih m' (smaller_of_step hm) (Outcome.running.inj herase).symm h
          have hone : n.unguardedAfter world 1 = .running n' := hn
          refine ⟨1 + steps, halt, ?_, hresult⟩
          rw [unguardedAfter_add hone, hhalt]

end Machine

end ReminderExpr
