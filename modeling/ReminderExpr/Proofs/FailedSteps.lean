/-
ReminderExpr.Proofs.FailedSteps — a step that answers an error has changed
nothing.

Each kind of step looks for its failures at a point of its own: a definition
after every parameter, an assignment after its expression and again at the
name, a system variable after reading the character that is to be written to
the host. Wherever that is, nothing has been stored by then.

* `Answer.failed` — the answers that show an error;
* `Session.step_of_failed` — such a step raises the flag at most;
* `Session.failure_changes_nothing` — all of this after every history, with
  what it means for an assignment and for the steps that follow.
-/
import ReminderExpr.Proofs.History

namespace ReminderExpr

/-- Whether an evaluation has come to an error. -/
def Shown.failed (e : Shown) : Bool :=
  match e.result with
  | .ok _ => false
  | .error _ => true

/-- Whether an answer shows an error, be it that of the last of several
evaluations. -/
def Answer.failed : Answer → Bool
  | .evaluation e => e.failed
  | .evaluations es => es.any Shown.failed
  | .value (.error _) => true
  | .done (.error _) => true
  | _ => false

namespace Session

variable {s : Session} {st : Step}

theorem withVariables_of_failed {r : Result Variables}
    (h : (s.withVariables r).1.failed = true) : (s.withVariables r).2 = s := by
  cases r with
  | error e => rfl
  | ok globals => cases h

/-- An assignment that fails has evaluated its expression at most. -/
theorem assign_of_failed (h : s.interpreter.AtRest) {name source : String}
    (hf : (s.step (.assign name source)).1.failed = true) :
    ∃ flag, (s.step (.assign name source)).2 = s.raised flag := by
  obtain ⟨flag, hflag⟩ := Interpreter.evaluateScope_keeps h s.environment s.callable
    { rest := source.toList }
  have hkept : (s.interpreter.evaluateText s.environment s.callable source).2
      = s.interpreter.raised flag := hflag
  refine ⟨flag, ?_⟩
  simp only [step] at hf ⊢
  rw [hkept] at hf ⊢
  cases hr : (s.interpreter.evaluateText s.environment s.callable source).1 with
  | error e => rfl
  | ok v =>
    rw [hr] at hf
    exact withVariables_of_failed hf

/-- A step that answers an error changes at most the flag. -/
theorem step_of_failed (h : s.interpreter.AtRest) (hf : (s.step st).1.failed = true) :
    ∃ flag, (s.step st).2 = s.raised flag := by
  have unchanged : ∀ {t : Session}, t = s → ∃ flag, t = s.raised flag := by
    rintro t rfl
    exact ⟨false, (raised_false t).symm⟩
  cases hst : st.changes with
  | false => exact step_of_not_changes h hst
  | true =>
    cases st with
    | assign name source => exact assign_of_failed h hf
    | setVar name v => exact unchanged (withVariables_of_failed hf)
    | preserve name => exact unchanged (withVariables_of_failed hf)
    | define name parameters body =>
      simp only [step] at hf ⊢
      split at hf
      · cases hf
      · exact unchanged rfl
    | deleteVar name =>
      simp only [step] at hf ⊢
      split at hf
      · cases hf
      · exact unchanged rfl
    | setSysvar name v =>
      simp only [step] at hf ⊢
      split at hf
      · cases hf
      · exact unchanged rfl
    | hostSet name v =>
      simp only [step] at hf ⊢
      split at hf
      · cases hf
      · exact unchanged rfl
    | undefine name => cases hf
    | clear all => cases hf
    | host change => cases hf
    | _ => cases hst

/-- An assignment fails if its expression does, and if its target is no name. -/
theorem failed_assign {name source : String}
    (h : (∃ e, (s.interpreter.evaluateText s.environment s.callable source).1 = .error e)
      ∨ Name.isValid name = false) :
    (s.step (.assign name source)).1.failed = true := by
  simp only [step]
  cases hr : (s.interpreter.evaluateText s.environment s.callable source).1 with
  | error e => rfl
  | ok v =>
    have hname : Name.isValid name = false := by
      rcases h with ⟨e, he⟩ | hname
      · rw [hr] at he
        cases he
      · exact hname
    have hset : s.environment.globals.set name v = .error .badIdentifier := by
      rw [Variables.set, hname]
      rfl
    dsimp only
    rw [hset]
    rfl

/-- After any history, a step that answers an error leaves the variables with
their names, values and protection, the system variables, the host and the
functions as they were, and with them all that the interpreter keeps but the
flag, which does not fall. No function is left active either, and every later
step is answered as if the failed one had not been taken, but for the flag that
`state` shows.

An assignment whose expression fails, or whose target is no name, is such a
step: it stores nothing. -/
theorem failure_changes_nothing (start : Session) (history : List Step) :
    let s := (start.fresh.run history).2
    (∀ st, (s.step st).1.failed = true →
        (s.step st).2.environment = s.environment
          ∧ (s.step st).2.functions = s.functions
          ∧ (s.step st).2.callsFunctions = s.callsFunctions
          ∧ (s.step st).2.interpreter.config = s.interpreter.config
          ∧ (s.step st).2.interpreter.operators = s.interpreter.operators
          ∧ (s.step st).2.interpreter.operands = s.interpreter.operands
          ∧ (s.interpreter.nonconst = true → (s.step st).2.interpreter.nonconst = true)
          ∧ ∀ later, ((s.step st).2.run later).1.map Answer.unflagged
              = (s.run later).1.map Answer.unflagged)
      ∧ (∀ scope, ((Machine.start scope s.interpreter.operators s.interpreter.operands).run
            (s.interpreter.world s.environment s.callable)).machine.outerActive = scope.active)
      ∧ ∀ name source,
          (∃ e, (s.interpreter.evaluateText s.environment s.callable source).1 = .error e)
              ∨ Name.isValid name = false →
            (s.step (.assign name source)).1.failed = true
              ∧ (s.step (.assign name source)).2.environment = s.environment := by
  intro s
  have hrest : s.interpreter.AtRest := run_atRest start.interpreter.fresh_atRest history
  refine ⟨fun st hfailed => ?_, fun scope => Machine.outerActive_run _ _,
    fun name source hrefused => ?_⟩
  · obtain ⟨flag, hstep⟩ := step_of_failed hrest hfailed
    rw [hstep]
    refine ⟨rfl, rfl, rfl, rfl, rfl, rfl, fun hup => ?_, fun later => ?_⟩
    · show (s.interpreter.nonconst || flag) = true
      rw [hup, Bool.true_or]
    · exact unflagged_run_raised s flag later
  · have hfailed := failed_assign (s := s) hrefused
    obtain ⟨flag, hstep⟩ := step_of_failed hrest hfailed
    rw [hstep]
    exact ⟨hfailed, rfl⟩

/-- An assignment that fails at its last name, after a call and a look-up,
leaves the protected variable that it was to replace. -/
theorem total_survives_failed_assignment :
    let history : List Step :=
      [.setVar "total" (.int 3), .preserve "total", .define "double" ["x"] "[x*2]",
        .setSysvar "DateSep" (.str "-")]
    let s := (({} : Session).fresh.run history).2
    let st : Step := .assign "Total" "double(total)+spare"
    (s.step st).1.failed = true
      ∧ (s.step st).2.environment = s.environment
      ∧ s.environment.globals.find? "TOTAL"
          = some { name := "total", value := .int 3, preserved := true } := by
  intro history s st
  have hspare : (s.interpreter.evaluateText s.environment s.callable "double(total)+spare").1
      = .error (.noSuchVariable "spare") := by
    have hends : (s.interpreter.evaluateScope s.environment s.callable
          { rest := "double(total)+spare".toList }).result = .error (.noSuchVariable "spare")
        ∧ (s.interpreter.evaluateScope s.environment s.callable
          { rest := "double(total)+spare".toList }).rest = [] :=
      Interpreter.evaluateScope_of_runFor 40 (by decide +kernel)
    exact congrArg (fun r : Result Evaluation => r.map (·.value)) hends.1
  have h := failure_changes_nothing {} history
  obtain ⟨hfailed, henv⟩ := h.2.2 "Total" "double(total)+spare" (.inl ⟨_, hspare⟩)
  exact ⟨hfailed, (h.1 st hfailed).1, by decide +kernel⟩

end Session

end ReminderExpr
