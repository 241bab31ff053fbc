/-
ReminderExpr.Proofs.Peaks — how high the stacks rise decides what limits do.

Without limits, the stacks of an evaluation rise to some greatest heights. An
evaluation whose limits are not below them takes the same steps to the same
end; any other one ends at the first step that crosses a limit, with the
overflow of the stack that has crossed it.

* `exists_greatest` — the states of a run have a greatest height;
* `run_within_or_beyond` — a run with limits beside the run without them;
* `Interpreter.result_of_raised` — limits that are raised;
* `Interpreter.limits_are_transparent` — whole evaluations.
-/
import Mathlib.Order.Bounds.Defs
import ReminderExpr.Proofs.Limits

namespace ReminderExpr

namespace Machine

variable {world : World} {m m' : Machine}

/-! ## Greatest heights -/

/-- The heights that the operators of a run reach. -/
def operatorHeights (world : World) (m : Machine) : Set Nat :=
  { height | ∃ n, m.Reaches world n ∧ n.operators.height = height }

/-- The heights that the operands of a run reach. -/
def operandHeights (world : World) (m : Machine) : Set Nat :=
  { height | ∃ n, m.Reaches world n ∧ n.operands.height = height }

/-- The states of a run that ends at once. -/
theorem eq_of_reaches_halted {halt : Halt} (hm : m.step world = .halted halt)
    (h : m.Reaches world m') : m' = m := by
  rcases Relation.ReflTransGen.cases_head h with rfl | ⟨n, hn, -⟩
  · rfl
  · rw [hm] at hn
    cases hn

/-- The states of a run are its first one and those of the rest. -/
theorem reaches_of_running {n : Machine} (hm : m.step world = .running m') :
    m.Reaches world n ↔ n = m ∨ m'.Reaches world n := by
  constructor
  · intro h
    rcases Relation.ReflTransGen.cases_head h with rfl | ⟨n, hn, h⟩
    · exact .inl rfl
    · rw [hm] at hn
      cases hn
      exact .inr h
  · rintro (rfl | h)
    · exact .refl
    · exact .head hm h

/-- The greatest value of what is counted of the states of a run, where it ends
and one step earlier. -/
theorem greatest_of_halted (count : Machine → Nat) {halt : Halt}
    (hm : m.step world = .halted halt) :
    IsGreatest { c | ∃ n, m.Reaches world n ∧ count n = c } (count m) := by
  refine ⟨⟨m, .refl, rfl⟩, ?_⟩
  rintro c ⟨n, hn, rfl⟩
  exact Nat.le_of_eq (congrArg count (eq_of_reaches_halted hm hn))

theorem greatest_of_running (count : Machine → Nat) {peak : Nat} (hm : m.step world = .running m')
    (h : IsGreatest { c | ∃ n, m'.Reaches world n ∧ count n = c } peak) :
    IsGreatest { c | ∃ n, m.Reaches world n ∧ count n = c } (max (count m) peak) := by
  obtain ⟨⟨top, htop, hpeak⟩, hbound⟩ := h
  constructor
  · rcases Nat.le_total peak (count m) with hle | hle
    · exact ⟨m, .refl, (Nat.max_eq_left hle).symm⟩
    · exact ⟨top, (reaches_of_running hm).2 (.inr htop), by rw [hpeak, Nat.max_eq_right hle]⟩
  · rintro c ⟨n, hn, rfl⟩
    rcases (reaches_of_running hm).1 hn with rfl | hn
    · exact Nat.le_max_left _ _
    · exact Nat.le_trans (hbound ⟨n, hn, rfl⟩) (Nat.le_max_right _ _)

/-- A run ends, so that whatever is counted of its states has a greatest value. -/
theorem exists_greatest (world : World) (count : Machine → Nat) (m : Machine) :
    ∃ peak, IsGreatest { c | ∃ n, m.Reaches world n ∧ count n = c } peak := by
  induction m using (wellFounded_smaller world).induction with
  | h m ih =>
    cases hm : m.step world with
    | halted halt => exact ⟨count m, greatest_of_halted count hm⟩
    | running m' =>
      obtain ⟨peak, hpeak⟩ := ih m' (smaller_of_step hm)
      exact ⟨max (count m) peak, greatest_of_running count hm hpeak⟩

/-! ## Runs with and without limits -/

/-- Any number of steps without limits that stay within the limits. -/
abbrev ReachesWithin (world : World) : Machine → Machine → Prop :=
  Relation.ReflTransGen fun m m' => m.step world.unlimited = .running m' ∧ world.Admits m'

/-- A run is the same without limits and stays within them, or it ends with an
overflow where the run without limits first crosses one. -/
theorem run_within_or_beyond {ops : List PendingOp} {vals : List Value}
    (h : m.Poised world ops vals m.phase.extra) :
    (m.run world = m.run world.unlimited
        ∧ ∀ n, m.Reaches world.unlimited n → world.Admits n)
      ∨ ∃ n n' e, m.ReachesWithin world n ∧ n.step world.unlimited = .running n'
          ∧ world.Crossed n' e ∧ (m.run world).result = .error e := by
  induction m using (wellFounded_smaller world).induction with
  | h m ih =>
    rcases overflowsOr_step world m with hsame | ⟨halt, e, hm, he, -, hcross⟩
    · cases hm : m.step world with
      | halted halt =>
        rw [hm] at hsame
        refine .inl ⟨?_, fun n hn => ?_⟩
        · rw [run_of_halted hm, run_of_halted hsame.symm]
        · rw [eq_of_reaches_halted hsame.symm hn]
          exact h.admitted
      | running m' =>
        have hm' : m'.Poised world ops vals m'.phase.extra := by
          have hsound := sound_step h
          rwa [hm] at hsound
        rw [hm] at hsame
        rw [run_of_running hm, run_of_running hsame.symm]
        rcases ih m' (smaller_of_step hm) hm' with
          ⟨hrun, hadm⟩ | ⟨n, n', e, hn, hstep, hcrossed, he⟩
        · refine .inl ⟨hrun, fun n hn => ?_⟩
          rcases (reaches_of_running hsame.symm).1 hn with rfl | hn
          · exact h.admitted
          · exact hadm n hn
        · exact .inr ⟨n, n', e, .head ⟨hsame.symm, hm'.admitted⟩ hn, hstep, hcrossed, he⟩
    · obtain ⟨m', hm', hcrossed⟩ := hcross h.admitted
      refine .inr ⟨m, m', e, .refl, hm', hcrossed, ?_⟩
      rw [run_of_halted hm, he]

theorem reaches_of_within (h : m.ReachesWithin world m') : m.Reaches world.unlimited m' :=
  h.lift id fun _ _ hs => hs.1

end Machine

/-! ## Evaluations -/

/-- Limits raised or left as they are, with the same character skipped. -/
structure Config.RaisedTo (config config' : Config) : Prop where
  operators : ∀ depth' ∈ config'.operatorDepth, ∃ depth ∈ config.operatorDepth, depth ≤ depth'
  operands : ∀ depth' ∈ config'.operandDepth, ∃ depth ∈ config.operandDepth, depth ≤ depth'
  continuation : config.continuation = config'.continuation

/-- What is within limits is within raised ones. -/
theorem World.Admits.raised {world : World} {config : Config} {m : Machine}
    (h : world.Admits m) (hraised : world.config.RaisedTo config) :
    { world with config }.Admits m where
  operators depth' hdepth' := by
    obtain ⟨depth, hdepth, hle⟩ := hraised.operators depth' hdepth'
    exact Nat.le_trans (h.operators depth hdepth) hle
  operands depth' hdepth' := by
    obtain ⟨depth, hdepth, hle⟩ := hraised.operands depth' hdepth'
    exact Nat.le_trans (h.operands depth hdepth) hle

/-- What has crossed a limit is not within the limits. -/
theorem World.Crossed.not_admits {world : World} {m : Machine} {e : EvalError}
    (h : world.Crossed m e) : ¬ world.Admits m := by
  intro hadm
  cases h with
  | operators hops hvals =>
    obtain ⟨depth, hdepth, hlt⟩ := hops
    exact absurd (hadm.operators depth hdepth) (Nat.not_le_of_lt hlt)
  | operands hops hvals =>
    obtain ⟨depth, hdepth, hlt⟩ := hvals
    exact absurd (hadm.operands depth hdepth) (Nat.not_le_of_lt hlt)

theorem World.Crossed.isOverflow {world : World} {m : Machine} {e : EvalError}
    (h : world.Crossed m e) : e.isOverflow = true := by
  cases h <;> rfl

namespace Interpreter

/-- The interpreter without limits. -/
def unlimited (i : Interpreter) : Interpreter :=
  { i with config := { i.config with operatorDepth := none, operandDepth := none } }

/-- An evaluation with limits beside the same one without. -/
theorem result_within_or_beyond (i : Interpreter) (environment : Environment)
    (functions : UserFunctions) (scope : Scope)
    (hops : ∀ depth ∈ i.config.operatorDepth, i.operators.height ≤ depth)
    (hvals : ∀ depth ∈ i.config.operandDepth, i.operands.height ≤ depth) :
    let world := i.world environment functions
    let start := Machine.start scope i.operators i.operands
    (((i.evaluateScope environment functions scope).result
            = (i.unlimited.evaluateScope environment functions scope).result
          ∧ (i.evaluateScope environment functions scope).rest
            = (i.unlimited.evaluateScope environment functions scope).rest)
        ∧ ∀ m, start.Reaches world.unlimited m → world.Admits m)
      ∨ ∃ m m' e, start.ReachesWithin world m ∧ m.step world.unlimited = .running m'
          ∧ world.Crossed m' e
          ∧ (i.evaluateScope environment functions scope).result = .error e := by
  intro world start
  have hstart : start.Poised world i.operators.entries i.operands.entries start.phase.extra :=
    Machine.poised_start scope hops hvals
  rcases Machine.run_within_or_beyond hstart with
    ⟨hrun, hadm⟩ | ⟨m, m', e, hm, hstep, hcrossed, he⟩
  · refine .inl ⟨?_, hadm⟩
    have hfree : i.unlimited.evaluateScope environment functions scope
        = i.unlimited.conclude (start.run world.unlimited) := rfl
    rw [hfree, ← hrun]
    exact ⟨rfl, rfl⟩
  · refine .inr ⟨m, m', e, hm, hstep, hcrossed, ?_⟩
    simp only [evaluateScope, conclude]
    rw [he]
    rfl

/-- Raised limits leave a result that is not an overflow as it is. -/
theorem result_of_raised (i : Interpreter) (environment : Environment)
    (functions : UserFunctions) (scope : Scope)
    (hops : ∀ depth ∈ i.config.operatorDepth, i.operators.height ≤ depth)
    (hvals : ∀ depth ∈ i.config.operandDepth, i.operands.height ≤ depth)
    {config : Config} (hraised : i.config.RaisedTo config)
    (hresult : ¬ Overflows (i.evaluateScope environment functions scope).result) :
    ({ i with config }.evaluateScope environment functions scope).result
        = (i.evaluateScope environment functions scope).result
      ∧ ({ i with config }.evaluateScope environment functions scope).rest
        = (i.evaluateScope environment functions scope).rest := by
  rcases i.result_within_or_beyond environment functions scope hops hvals with
    ⟨⟨hsame, hrest⟩, hadm⟩ | ⟨m, m', e, -, -, hcrossed, he⟩
  · have hstart : (i.world environment functions).Admits
        (Machine.start scope i.operators i.operands) := ⟨hops, hvals⟩
    have hfree : { i with config }.unlimited = i.unlimited := by
      simp only [unlimited, hraised.continuation]
    have hworld : ({ i with config }.world environment functions).unlimited
        = (i.world environment functions).unlimited := by
      simp only [world, World.unlimited, hraised.continuation]
    rcases { i with config }.result_within_or_beyond environment functions scope
        (hstart.raised hraised).operators (hstart.raised hraised).operands with
      ⟨⟨hsame', hrest'⟩, -⟩ | ⟨m, m', e, hm, hstep, hcrossed, -⟩
    · rw [hfree] at hsame' hrest'
      exact ⟨hsame'.trans hsame.symm, hrest'.trans hrest.symm⟩
    · have hm' := (Machine.reaches_of_within hm).tail hstep
      rw [hworld] at hm'
      exact absurd ((hadm m' hm').raised hraised) hcrossed.not_admits
  · exact absurd ⟨e, he, hcrossed.isOverflow⟩ hresult

/-- The limits of the stacks are transparent. Let `P` and `Q` be the greatest
heights that the operators and the operands reach without limits. If neither
is beyond its limit, the evaluation comes to what it comes to without limits;
if one is, it fails with the overflow of the stack that first crosses its
limit. So raising the limits changes no result but an overflow. -/
theorem limits_are_transparent (i : Interpreter) (environment : Environment)
    (functions : UserFunctions) (scope : Scope)
    (hops : ∀ depth ∈ i.config.operatorDepth, i.operators.height ≤ depth)
    (hvals : ∀ depth ∈ i.config.operandDepth, i.operands.height ≤ depth) :
    let world := i.world environment functions
    let start := Machine.start scope i.operators i.operands
    let limited := i.evaluateScope environment functions scope
    let free := i.unlimited.evaluateScope environment functions scope
    (∃ P Q, IsGreatest (start.operatorHeights world.unlimited) P
      ∧ IsGreatest (start.operandHeights world.unlimited) Q
      ∧ ((∀ depth ∈ i.config.operatorDepth, P ≤ depth) →
          (∀ depth ∈ i.config.operandDepth, Q ≤ depth) →
          limited.result = free.result ∧ limited.rest = free.rest)
      ∧ (¬ ((∀ depth ∈ i.config.operatorDepth, P ≤ depth)
            ∧ ∀ depth ∈ i.config.operandDepth, Q ≤ depth) →
          ∃ m m' e, start.ReachesWithin world m ∧ m.step world.unlimited = .running m'
            ∧ world.Crossed m' e ∧ limited.result = .error e))
    ∧ ∀ config, i.config.RaisedTo config → ¬ Overflows limited.result →
        ({ i with config }.evaluateScope environment functions scope).result = limited.result
          ∧ ({ i with config }.evaluateScope environment functions scope).rest = limited.rest := by
  intro world start limited free
  have hcases := i.result_within_or_beyond environment functions scope hops hvals
  constructor
  · obtain ⟨P, hP⟩ := Machine.exists_greatest world.unlimited (fun m => m.operators.height) start
    obtain ⟨Q, hQ⟩ := Machine.exists_greatest world.unlimited (fun m => m.operands.height) start
    refine ⟨P, Q, hP, hQ, fun hPle hQle => ?_, fun hbeyond => ?_⟩
    · rcases hcases with ⟨hsame, -⟩ | ⟨m, m', e, hm, hstep, hcrossed, -⟩
      · exact hsame
      · have hm' := (Machine.reaches_of_within hm).tail hstep
        refine absurd ⟨fun depth hdepth => ?_, fun depth hdepth => ?_⟩ hcrossed.not_admits
        · exact Nat.le_trans (hP.2 ⟨m', hm', rfl⟩) (hPle depth hdepth)
        · exact Nat.le_trans (hQ.2 ⟨m', hm', rfl⟩) (hQle depth hdepth)
    · rcases hcases with ⟨-, hadm⟩ | hcrossing
      · refine absurd ⟨fun depth hdepth => ?_, fun depth hdepth => ?_⟩ hbeyond
        · obtain ⟨m, hm, rfl⟩ := hP.1
          exact (hadm m hm).operators depth hdepth
        · obtain ⟨m, hm, rfl⟩ := hQ.1
          exact (hadm m hm).operands depth hdepth
      · exact hcrossing
  · intro config hraised hresult
    exact i.result_of_raised environment functions scope hops hvals hraised hresult

/-- A call in a group needs room for four operators and five operands, its body
included. With less it overflows, and with more it comes to the same. -/
theorem room_for_nested_call :
    let functions : UserFunctions := ⟨[{ name := "half", parameters := ["n"], body := "[n/2]" }]⟩
    let i : Interpreter := { config := { operatorDepth := some 4, operandDepth := some 5 } }
    let narrow : Interpreter := { config := { operatorDepth := some 3, operandDepth := some 5 } }
    let scope : Scope := { rest := "1+2*(3-half(8))".toList }
    let found : Evaluation := { value := .int (-1), terminator := .endOfText, nonconst := false }
    (i.evaluateScope {} functions scope).result = .ok found
      ∧ (∀ config, i.config.RaisedTo config →
          ({ i with config }.evaluateScope {} functions scope).result = .ok found)
      ∧ (narrow.evaluateScope {} functions scope).result = .error .operatorStackOverflow := by
  intro functions i narrow scope found
  have hfound : (i.evaluateScope {} functions scope).result = .ok found
      ∧ (i.evaluateScope {} functions scope).rest = [] :=
    evaluateScope_of_runFor 60 (by decide +kernel)
  have hnarrow : (narrow.evaluateScope {} functions scope).result = .error .operatorStackOverflow
      ∧ (narrow.evaluateScope {} functions scope).rest = ")".toList :=
    evaluateScope_of_runFor 60 (by decide +kernel)
  have h := i.limits_are_transparent {} functions scope (fun _ _ => Nat.zero_le _)
    (fun _ _ => Nat.zero_le _)
  refine ⟨hfound.1, fun config hraised => ?_, hnarrow.1⟩
  have hresult : ¬ Overflows (i.evaluateScope {} functions scope).result := by
    rintro ⟨e, he, -⟩
    rw [hfound.1] at he
    cases he
  exact (h.2 config hraised hresult).1.trans hfound.1

end Interpreter

end ReminderExpr
