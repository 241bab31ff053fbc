/-
ReminderExpr.Proofs.History — what a session remembers of its evaluations.

Of all that an evaluation has done, only the sticky flag outlasts it. So a
session after some steps is the session that has taken no step but those that
change variables, system variables, functions or the host, with its flag
raised at most.

* `evaluateScope_keeps` — an evaluation changes nothing of an interpreter but
  the flag;
* `step_raised`, `run_raised` — a raised flag is passed on, and nothing else
  depends on it;
* `run_changes` — a history, and the changing steps of it;
* `Session.evaluation_is_pure` — all of this for every history.
-/
import ReminderExpr.Session
import ReminderExpr.Proofs.Limits
import ReminderExpr.Proofs.Release

namespace ReminderExpr

/-! ## Interpreters -/

namespace Interpreter

variable {i : Interpreter} {environment : Environment} {functions : UserFunctions}

/-- A newly built interpreter with the same configuration. -/
def fresh (i : Interpreter) : Interpreter :=
  { config := i.config, operators := .empty, operands := .empty }

/-- The interpreter with its flag up, if `flag` is or it was. -/
def raised (i : Interpreter) (flag : Bool) : Interpreter :=
  { i with nonconst := i.nonconst || flag }

/-- Both stacks are empty. -/
structure AtRest (i : Interpreter) : Prop where
  operators : i.operators = .empty
  operands : i.operands = .empty

theorem fresh_atRest (i : Interpreter) : i.fresh.AtRest := ⟨rfl, rfl⟩

theorem AtRest.raised (h : i.AtRest) (flag : Bool) : (i.raised flag).AtRest :=
  ⟨h.operators, h.operands⟩

/-- At rest, all that is left of what has been evaluated is the flag. -/
theorem AtRest.eq_fresh_raised (h : i.AtRest) : i = i.fresh.raised i.nonconst := by
  obtain ⟨config, operators, operands, nonconst⟩ := i
  obtain ⟨rfl, rfl⟩ := h
  simp [fresh, Interpreter.raised, Stack.empty]

theorem raised_raised (i : Interpreter) (flag flag' : Bool) :
    (i.raised flag).raised flag' = i.raised (flag || flag') := by
  simp only [raised, Bool.or_assoc]

theorem raised_false (i : Interpreter) : i.raised false = i := by
  simp [raised]

end Interpreter

/-- The evaluation with the flag up in the interpreter after it. -/
def Evaluated.raised (e : Evaluated) (flag : Bool) : Evaluated :=
  { e with interpreter := e.interpreter.raised flag }

namespace Interpreter

variable {i : Interpreter} {environment : Environment} {functions : UserFunctions}

/-! ### The flag is passed on -/

/-- An evaluation passes the flag on, and nothing else depends on it. -/
theorem evaluateScope_raised (i : Interpreter) (flag : Bool) (environment : Environment)
    (functions : UserFunctions) (scope : Scope) :
    (i.raised flag).evaluateScope environment functions scope
      = (i.evaluateScope environment functions scope).raised flag := by
  have hafter : ∀ halt : Halt, (i.raised flag).after halt = (i.after halt).raised flag := by
    intro halt
    unfold after
    split <;> simp only [raised, Bool.or_right_comm]
  have hworld : (i.raised flag).world environment functions = i.world environment functions := rfl
  unfold evaluateScope conclude
  rw [hworld, hafter]
  rfl

theorem evaluateAll_raised (i : Interpreter) (flag : Bool) (environment : Environment)
    (functions : UserFunctions) (locals : Locals) (source : List Char) :
    (i.raised flag).evaluateAll environment functions locals source
      = (i.evaluateAll environment functions locals source).map (·.raised flag) := by
  induction hn : source.length using Nat.strongRecOn generalizing i source with
  | ind n ih =>
    have he := i.evaluateScope_raised flag environment functions { rest := source, locals }
    rw [evaluateAll.eq_def (i.raised flag), evaluateAll.eq_def i, evaluate, he, evaluate]
    generalize i.evaluateScope environment functions { rest := source, locals } = e
    obtain ⟨result, rest, interpreter⟩ := e
    cases result with
    | error e => rfl
    | ok found =>
      dsimp only [Evaluated.raised]
      split
      · rename_i hmore
        rw [ih rest.length (hn ▸ hmore.2) interpreter rest rfl]
        rfl
      · rfl

theorem evaluateText_raised (i : Interpreter) (flag : Bool) (environment : Environment)
    (functions : UserFunctions) (text : String) :
    (i.raised flag).evaluateText environment functions text
      = ((i.evaluateText environment functions text).1,
        (i.evaluateText environment functions text).2.raised flag) := by
  unfold evaluateText evaluate
  rw [evaluateScope_raised]
  rfl

theorem resolve_raised (i : Interpreter) (flag : Bool) (environment : Environment)
    (locals : Locals) (name : String) :
    (i.raised flag).resolve environment locals name
      = ((i.resolve environment locals name).1,
        (i.resolve environment locals name).2.raised flag) := by
  unfold resolve
  dsimp only [raised]
  rw [Bool.or_right_comm]
  rfl

theorem evaluateBody_raised (i : Interpreter) (flag : Bool) (environment : Environment)
    (functions : UserFunctions) (f : UserFunction) (locals : Locals) :
    (i.raised flag).evaluateBody environment functions f locals
      = ((i.evaluateBody environment functions f locals).1,
        (i.evaluateBody environment functions f locals).2.raised flag) := by
  unfold evaluateBody
  rw [evaluateScope_raised]
  rfl

theorem invoke_raised (i : Interpreter) (flag : Bool) (environment : Environment)
    (functions : UserFunctions) (f : UserFunction) (arguments : List Value) :
    (i.raised flag).invoke environment functions f arguments
      = ((i.invoke environment functions f arguments).1,
        (i.invoke environment functions f arguments).2.raised flag) := by
  unfold invoke
  split
  · rfl
  · exact evaluateBody_raised i flag environment functions f _

theorem call_raised (i : Interpreter) (flag : Bool) (environment : Environment)
    (functions : UserFunctions) (name : String) (count : Nat) :
    (i.raised flag).call environment functions name count
      = ((i.call environment functions name count).1,
        (i.call environment functions name count).2.raised flag) := by
  have hstart : Machine.call ((i.raised flag).world environment functions)
        (Machine.start { rest := [] } (i.raised flag).operators (i.raised flag).operands)
        name count
      = Machine.call (i.world environment functions)
        (Machine.start { rest := [] } i.operators i.operands) name count := rfl
  unfold call
  dsimp only
  rw [hstart]
  generalize Machine.call _ _ _ _ = called
  obtain ⟨r, m⟩ := called
  have hflag : { i.raised flag with
        operands := m.operands, nonconst := (i.raised flag).nonconst || m.nonconst }
      = { i with operands := m.operands, nonconst := i.nonconst || m.nonconst }.raised flag := by
    simp only [raised, Bool.or_right_comm]
  dsimp only
  rw [hflag]
  cases r with
  | error e => rfl
  | ok c =>
    cases c with
    | value v => rfl
    | body f locals => exact evaluateBody_raised _ flag environment functions f locals

/-! ### Nothing else is kept -/

/-- An evaluation from empty stacks changes nothing of the interpreter but the
flag. -/
theorem evaluateScope_keeps (h : i.AtRest) (environment : Environment)
    (functions : UserFunctions) (scope : Scope) :
    ∃ flag, (i.evaluateScope environment functions scope).interpreter = i.raised flag := by
  obtain ⟨hops, hvals⟩ := h
  have hstart : (Machine.start scope i.operators i.operands).Poised
      (i.world environment functions) i.operators.entries i.operands.entries
      (Machine.start scope i.operators i.operands).phase.extra :=
    Machine.poised_start scope (fun _ _ => by rw [hops]; exact Nat.zero_le _)
      (fun _ _ => by rw [hvals]; exact Nat.zero_le _)
  have hrun := Machine.sound_run hstart
  refine ⟨((Machine.start scope i.operators i.operands).run
    (i.world environment functions)).machine.nonconst, ?_⟩
  unfold evaluateScope conclude after raised
  dsimp only
  split
  · rename_i hv
    rw [Outcome.Sound, hv] at hrun
    rw [Stack.ext hrun.2.1, Stack.ext hrun.2.2]
  · rw [Stack.cutTo_eq_of_suffix hrun.1.operators, Stack.cutTo_eq_of_suffix hrun.1.operands]

theorem evaluateBody_keeps (h : i.AtRest) (environment : Environment) (functions : UserFunctions)
    (f : UserFunction) (locals : Locals) :
    ∃ flag, (i.evaluateBody environment functions f locals).2 = i.raised flag :=
  evaluateScope_keeps h environment functions _

theorem evaluateAll_keeps (h : i.AtRest) (environment : Environment) (functions : UserFunctions)
    (locals : Locals) (source : List Char) :
    ∃ flag, Session.lastInterpreter i (i.evaluateAll environment functions locals source)
      = i.raised flag := by
  induction hn : source.length using Nat.strongRecOn generalizing i source with
  | ind n ih =>
    obtain ⟨flag, he⟩ := evaluateScope_keeps h environment functions { rest := source, locals }
    rw [evaluateAll, evaluate]
    generalize i.evaluateScope environment functions { rest := source, locals } = e at he
    obtain ⟨result, rest, interpreter⟩ := e
    dsimp only at he
    subst he
    cases result with
    | error e => exact ⟨flag, rfl⟩
    | ok found =>
      dsimp only
      split
      · rename_i hmore
        obtain ⟨flag', hlast⟩ := ih rest.length (hn ▸ hmore.2) (h.raised flag) rest rfl
        refine ⟨flag || flag', ?_⟩
        rw [← raised_raised, ← hlast]
        unfold Session.lastInterpreter
        rw [List.getLast?_cons]
        cases (evaluateAll _ _ _ _ _).getLast? <;> rfl
      · exact ⟨flag, rfl⟩

theorem invoke_keeps (h : i.AtRest) (environment : Environment) (functions : UserFunctions)
    (f : UserFunction) (arguments : List Value) :
    ∃ flag, (i.invoke environment functions f arguments).2 = i.raised flag := by
  unfold invoke
  split
  · exact ⟨false, (raised_false i).symm⟩
  · exact evaluateBody_keeps h environment functions f _

theorem call_keeps (h : i.AtRest) (environment : Environment) (functions : UserFunctions)
    (name : String) (count : Nat) :
    ∃ flag, (i.call environment functions name count).2 = i.raised flag := by
  have hle := (Machine.heights_call_le (i.world environment functions)
    (Machine.start { rest := [] } i.operators i.operands) name count).2
  unfold call
  dsimp only
  generalize Machine.call _ _ _ _ = called at hle ⊢
  obtain ⟨r, m⟩ := called
  have hoperands : m.operands = i.operands := by
    have hzero : m.operands.height = 0 := by
      rw [h.operands] at hle
      exact Nat.le_zero.1 hle
    rw [m.operands.height_eq, List.length_eq_zero_iff] at hzero
    rw [h.operands]
    exact Stack.ext hzero
  have hflag : { i with operands := m.operands, nonconst := i.nonconst || m.nonconst }
      = i.raised m.nonconst := by
    rw [hoperands]
    rfl
  dsimp only
  rw [hflag]
  cases r with
  | error e => exact ⟨_, rfl⟩
  | ok c =>
    cases c with
    | value v => exact ⟨_, rfl⟩
    | body f locals =>
      obtain ⟨flag, hbody⟩ :=
        evaluateBody_keeps (h.raised m.nonconst) environment functions f locals
      refine ⟨m.nonconst || flag, ?_⟩
      rw [← raised_raised]
      exact hbody

end Interpreter

/-! ## Steps of a session -/

/-- The steps that only evaluate. -/
def Step.evaluates : Step → Bool
  | .eval .. | .evalAll .. | .evalText _ | .resolve .. | .call .. | .invoke .. => true
  | _ => false

/-- The steps that may change variables, system variables, functions or the
host; all others evaluate or show something. -/
def Step.changes : Step → Bool
  | .define .. | .undefine _ | .assign .. | .setVar .. | .deleteVar _ | .preserve _ | .clear _
  | .setSysvar .. | .hostSet .. | .host _ => true
  | _ => false

theorem Step.changes_of_evaluates {st : Step} (h : st.evaluates = true) : st.changes = false := by
  cases st <;> first | rfl | cases h

/-- The answer with the flag that it shows up, if `flag` is or it was. -/
def Answer.raised (a : Answer) (flag : Bool) : Answer :=
  match a with
  | .state config operators operands nonconst =>
      .state config operators operands (nonconst || flag)
  | a => a

/-- The answer without the flag that it shows. -/
def Answer.unflagged : Answer → Answer
  | .state config operators operands _ => .state config operators operands false
  | a => a

@[simp] theorem Answer.unflagged_raised (a : Answer) (flag : Bool) :
    (a.raised flag).unflagged = a.unflagged := by
  cases a <;> rfl

namespace Session

variable {s : Session} {st : Step}

/-- The session with a newly built interpreter. -/
def fresh (s : Session) : Session := { s with interpreter := s.interpreter.fresh }

def raised (s : Session) (flag : Bool) : Session :=
  { s with interpreter := s.interpreter.raised flag }

theorem raised_raised (s : Session) (flag flag' : Bool) :
    (s.raised flag).raised flag' = s.raised (flag || flag') := by
  simp only [raised, Interpreter.raised_raised]

theorem raised_false (s : Session) : s.raised false = s := by
  rw [raised, Interpreter.raised_false]

theorem eq_fresh_raised (h : s.interpreter.AtRest) :
    s = s.fresh.raised s.interpreter.nonconst := by
  unfold raised fresh
  dsimp only
  rw [← h.eq_fresh_raised]

/-- Only the answer to `state` shows the flag. -/
theorem answer_raised_of_evaluates (h : st.evaluates = true) (flag : Bool) :
    ((s.step st).1).raised flag = (s.step st).1 := by
  cases st with
  | invoke name arguments known =>
    unfold step
    dsimp only
    split <;> rfl
  | eval => rfl
  | evalAll => rfl
  | evalText => rfl
  | resolve => rfl
  | call => rfl
  | _ => cases h

theorem withVariables_raised (s : Session) (flag : Bool) (r : Result Variables) :
    (s.raised flag).withVariables r
      = ((s.withVariables r).1.raised flag, (s.withVariables r).2.raised flag) := by
  cases r <;> rfl

/-- A step passes the flag on, and nothing depends on it but the answer that
shows it. -/
theorem step_raised (s : Session) (flag : Bool) (st : Step) :
    (s.raised flag).step st = ((s.step st).1.raised flag, (s.step st).2.raised flag) := by
  have hcallable : (s.raised flag).callable = s.callable := rfl
  have hpresent : (s.raised flag).present = s.present := rfl
  have hinterpreter : (s.raised flag).interpreter = s.interpreter.raised flag := rfl
  have henvironment : (s.raised flag).environment = s.environment := rfl
  have hfunctions : (s.raised flag).functions = s.functions := rfl
  cases st with
  | eval source locals =>
    simp only [step, hcallable, hpresent, hinterpreter, henvironment, Interpreter.evaluate,
      Interpreter.evaluateScope_raised]
    rfl
  | evalAll source locals =>
    simp only [step, hcallable, hpresent, hinterpreter, henvironment,
      Interpreter.evaluateAll_raised, List.map_map]
    unfold lastInterpreter
    rw [List.getLast?_map]
    cases (Interpreter.evaluateAll _ _ _ _ _).getLast? <;> rfl
  | evalText source =>
    simp only [step, hcallable, hinterpreter, henvironment, Interpreter.evaluateText_raised]
    rfl
  | resolve name locals =>
    simp only [step, hinterpreter, henvironment, Interpreter.resolve_raised]
    rfl
  | call name count =>
    simp only [step, hcallable, hinterpreter, henvironment, Interpreter.call_raised]
    rfl
  | invoke name arguments known =>
    simp only [step, hcallable, hinterpreter, henvironment, hfunctions]
    split
    · rfl
    · rw [Interpreter.invoke_raised]
      rfl
  | assign name source =>
    simp only [step, hcallable, hinterpreter, henvironment, Interpreter.evaluateText_raised]
    generalize s.interpreter.evaluateText s.environment s.callable source = r
    obtain ⟨result, interpreter⟩ := r
    cases result with
    | error e => rfl
    | ok v => exact withVariables_raised { s with interpreter } flag _
  | define name parameters body =>
    simp only [step, hfunctions]
    split <;> rfl
  | setVar name v => exact withVariables_raised s flag _
  | preserve name => exact withVariables_raised s flag _
  | clear all => rfl
  | deleteVar name =>
    simp only [step, henvironment]
    split <;> rfl
  | setSysvar name v =>
    simp only [step, henvironment]
    split <;> rfl
  | hostSet name v =>
    simp only [step, henvironment]
    split <;> rfl
  | _ => rfl

/-- A step that is not to change anything changes at most the flag. -/
theorem step_of_not_changes (h : s.interpreter.AtRest) (hst : st.changes = false) :
    ∃ flag, (s.step st).2 = s.raised flag := by
  have unchanged : ∃ flag, s = s.raised flag := ⟨false, (raised_false s).symm⟩
  have kept : ∀ {i : Interpreter}, (∃ flag, i = s.interpreter.raised flag) →
      ∃ flag, { s with interpreter := i } = s.raised flag := by
    rintro i ⟨flag, rfl⟩
    exact ⟨flag, rfl⟩
  cases st with
  | eval source locals => exact kept (Interpreter.evaluateScope_keeps h _ _ _)
  | evalAll source locals => exact kept (Interpreter.evaluateAll_keeps h _ _ _ _)
  | evalText source => exact kept (Interpreter.evaluateScope_keeps h _ _ _)
  | resolve name locals => exact kept ⟨_, rfl⟩
  | call name count => exact kept (Interpreter.call_keeps h _ _ _ _)
  | invoke name arguments known =>
    unfold step
    dsimp only
    split
    · exact unchanged
    · exact kept (Interpreter.invoke_keeps h _ _ _ _)
  | state => exact unchanged
  | function name => exact unchanged
  | getVar name => exact unchanged
  | vars => exact unchanged
  | getSysvar name => exact unchanged
  | dumpSysvars => exact unchanged
  | _ => cases hst

/-- A step leaves both stacks empty and the configuration as it was. -/
theorem step_interpreter (h : s.interpreter.AtRest) (st : Step) :
    ∃ flag, (s.step st).2.interpreter = s.interpreter.raised flag := by
  have unchanged : ∃ flag, s.interpreter = s.interpreter.raised flag :=
    ⟨false, (Interpreter.raised_false _).symm⟩
  have stored : ∀ (t : Session) (r : Result Variables),
      (t.withVariables r).2.interpreter = t.interpreter := by
    intro t r
    cases r <;> rfl
  by_cases hst : st.changes = false
  · obtain ⟨flag, hflag⟩ := step_of_not_changes h hst
    exact ⟨flag, congrArg (·.interpreter) hflag⟩
  · cases st with
    | assign name source =>
      obtain ⟨flag, hflag⟩ := Interpreter.evaluateScope_keeps h s.environment s.callable
        { rest := source.toList }
      refine ⟨flag, ?_⟩
      rw [← hflag]
      simp only [step]
      split
      · rfl
      · exact stored _ _
    | define name parameters body =>
      simp only [step]
      split <;> exact unchanged
    | setVar name v => exact (stored s _) ▸ unchanged
    | preserve name => exact (stored s _) ▸ unchanged
    | clear all => exact unchanged
    | deleteVar name =>
      simp only [step]
      split <;> exact unchanged
    | setSysvar name v =>
      simp only [step]
      split <;> exact unchanged
    | hostSet name v =>
      simp only [step]
      split <;> exact unchanged
    | undefine name => exact unchanged
    | host change => exact unchanged
    | _ => exact absurd rfl hst

theorem step_atRest (h : s.interpreter.AtRest) (st : Step) :
    (s.step st).2.interpreter.AtRest := by
  obtain ⟨flag, hflag⟩ := step_interpreter h st
  rw [hflag]
  exact h.raised flag

/-! ## Histories -/

/-- The steps of a history pass a raised flag on. -/
theorem run_raised (s : Session) (flag : Bool) (steps : List Step) :
    (s.raised flag).run steps
      = ((s.run steps).1.map (·.raised flag), (s.run steps).2.raised flag) := by
  induction steps generalizing s with
  | nil => rfl
  | cons st steps ih =>
    simp only [run, step_raised, ih, List.map_cons]

/-- A history leaves both stacks empty and the configuration as it was, and
lowers no flag. -/
theorem run_interpreter (h : s.interpreter.AtRest) (steps : List Step) :
    ∃ flag, (s.run steps).2.interpreter = s.interpreter.raised flag := by
  induction steps generalizing s with
  | nil => exact ⟨false, (Interpreter.raised_false _).symm⟩
  | cons st steps ih =>
    obtain ⟨flag, hflag⟩ := step_interpreter h st
    obtain ⟨flag', hflag'⟩ := ih (step_atRest h st)
    refine ⟨flag || flag', ?_⟩
    rw [← Interpreter.raised_raised, ← hflag]
    exact hflag'

theorem run_atRest (h : s.interpreter.AtRest) (steps : List Step) :
    (s.run steps).2.interpreter.AtRest := by
  obtain ⟨flag, hflag⟩ := run_interpreter h steps
  rw [hflag]
  exact h.raised flag

/-- A history comes to what its changing steps come to, but for the flag. -/
theorem run_changes (h : s.interpreter.AtRest) (steps : List Step) :
    ∃ flag, (s.run steps).2 = (s.run (steps.filter Step.changes)).2.raised flag := by
  induction steps generalizing s with
  | nil => exact ⟨false, (raised_false s).symm⟩
  | cons st steps ih =>
    cases hst : st.changes with
    | false =>
      obtain ⟨flag, hstep⟩ := step_of_not_changes h hst
      obtain ⟨flag', hrest⟩ := ih h
      refine ⟨flag' || flag, ?_⟩
      have hskip : (st :: steps).filter Step.changes = steps.filter Step.changes :=
        List.filter_cons_of_neg (by simp [hst])
      calc (s.run (st :: steps)).2
          = ((s.step st).2.run steps).2 := rfl
        _ = (s.run steps).2.raised flag := by rw [hstep, run_raised]
        _ = (s.run ((st :: steps).filter Step.changes)).2.raised (flag' || flag) := by
            rw [hrest, raised_raised, hskip]
    | true =>
      obtain ⟨flag, hrest⟩ := ih (step_atRest h st)
      refine ⟨flag, ?_⟩
      rw [List.filter_cons_of_pos hst]
      exact hrest

/-- Whatever has come before, a step answers what it answers with a newly
built interpreter, but for the flag. -/
theorem unflagged_step_fresh (h : s.interpreter.AtRest) (st : Step) :
    (s.step st).1.unflagged = (s.fresh.step st).1.unflagged := by
  calc (s.step st).1.unflagged
      = ((s.fresh.raised s.interpreter.nonconst).step st).1.unflagged := by
        rw [← eq_fresh_raised h]
    _ = (s.fresh.step st).1.unflagged := by rw [step_raised, Answer.unflagged_raised]

theorem step_fresh_of_evaluates (h : s.interpreter.AtRest) {st : Step}
    (hst : st.evaluates = true) : (s.step st).1 = (s.fresh.step st).1 := by
  calc (s.step st).1
      = ((s.fresh.raised s.interpreter.nonconst).step st).1 := by rw [← eq_fresh_raised h]
    _ = (s.fresh.step st).1 := by rw [step_raised, answer_raised_of_evaluates hst]

theorem unflagged_run_raised (s : Session) (flag : Bool) (steps : List Step) :
    ((s.raised flag).run steps).1.map Answer.unflagged = (s.run steps).1.map Answer.unflagged := by
  rw [run_raised, List.map_map]
  exact List.map_congr_left fun a _ => Answer.unflagged_raised a flag

/-- Steps that change nothing are answered one by one, and the steps after
them are answered as without them. -/
theorem run_block (h : s.interpreter.AtRest) {block : List Step}
    (hblock : ∀ st ∈ block, st.changes = false) (later : List Step) :
    (s.run (block ++ later)).1.map Answer.unflagged
      = block.map (fun st => (s.fresh.step st).1.unflagged)
        ++ (s.run later).1.map Answer.unflagged := by
  induction block with
  | nil => rfl
  | cons st block ih =>
    obtain ⟨flag, hstep⟩ := step_of_not_changes h (hblock st List.mem_cons_self)
    have hrest : ((s.step st).2.run (block ++ later)).1.map Answer.unflagged
        = (s.run (block ++ later)).1.map Answer.unflagged := by
      rw [hstep, unflagged_run_raised]
    calc (s.run (st :: block ++ later)).1.map Answer.unflagged
        = (s.step st).1.unflagged
            :: ((s.step st).2.run (block ++ later)).1.map Answer.unflagged := rfl
      _ = (s.fresh.step st).1.unflagged :: (s.run (block ++ later)).1.map Answer.unflagged := by
          rw [unflagged_step_fresh h, hrest]
      _ = _ := by
          rw [ih fun st' hst' => hblock st' (List.mem_cons_of_mem st hst')]
          rfl

/-- Evaluations are pure, whatever steps have been taken since the interpreter
was built. Both stacks are empty, no function is active that was not so before
an evaluation, and the flag never falls. An evaluating step leaves environment,
functions and configuration as they are, and answers what it answers with a
newly built interpreter.

So steps that change nothing are each answered by themselves, in whatever
order they come, and not noticed by later ones; and the answer to any step
depends on no earlier ones but the changing ones. The flag that `state` shows
is left out of these answers. -/
theorem evaluation_is_pure (start : Session) (history : List Step) :
    let s := (start.fresh.run history).2
    (s.interpreter.operators = .empty ∧ s.interpreter.operands = .empty
        ∧ s.interpreter.config = start.interpreter.config)
      ∧ (∀ scope, ((Machine.start scope s.interpreter.operators s.interpreter.operands).run
            (s.interpreter.world s.environment s.callable)).machine.outerActive = scope.active)
      ∧ (∀ st, s.interpreter.nonconst = true → (s.step st).2.interpreter.nonconst = true)
      ∧ (∀ st, st.evaluates = true →
          (s.step st).2.environment = s.environment ∧ (s.step st).2.functions = s.functions
            ∧ (s.step st).2.callsFunctions = s.callsFunctions
            ∧ (s.step st).2.interpreter.config = s.interpreter.config
            ∧ (s.step st).1 = (s.fresh.step st).1)
      ∧ (∀ block later, (∀ st ∈ block, st.changes = false) →
          (s.run (block ++ later)).1.map Answer.unflagged
            = block.map (fun st => (s.fresh.step st).1.unflagged)
              ++ (s.run later).1.map Answer.unflagged)
      ∧ ∀ history', history'.filter Step.changes = history.filter Step.changes →
          ∀ st, ((start.fresh.run history').2.step st).1.unflagged = (s.step st).1.unflagged := by
  intro s
  have hstart : start.fresh.interpreter.AtRest := start.interpreter.fresh_atRest
  have hrest : s.interpreter.AtRest := run_atRest hstart history
  refine ⟨⟨hrest.operators, hrest.operands, ?_⟩, ?_, ?_, ?_, ?_, ?_⟩
  · obtain ⟨flag, hflag⟩ := run_interpreter hstart history
    simp only [s, hflag]
    rfl
  · intro scope
    exact Machine.outerActive_run _ _
  · intro st hraised
    obtain ⟨flag, hflag⟩ := step_interpreter hrest st
    rw [hflag, Interpreter.raised, hraised, Bool.true_or]
  · intro st hst
    obtain ⟨flag, hstep⟩ := step_of_not_changes hrest (Step.changes_of_evaluates hst)
    rw [hstep]
    exact ⟨rfl, rfl, rfl, rfl, step_fresh_of_evaluates hrest hst⟩
  · intro block later hblock
    exact run_block hrest hblock later
  · intro history' hsame st
    obtain ⟨flag, hflag⟩ := run_changes hstart history
    obtain ⟨flag', hflag'⟩ := run_changes hstart history'
    simp only [s, hflag, hflag', hsame, step_raised, Answer.unflagged_raised]

end Session

end ReminderExpr
