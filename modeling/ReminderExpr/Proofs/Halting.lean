/-
ReminderExpr.Proofs.Halting — evaluations end, and so does repeating them.

`Evaluation.Termination` orders the states of an evaluation; here the order
is turned into what a caller sees. A run takes finitely many steps
(`exists_runFor_eq_run`). A function is entered only while its body is not
under evaluation, so that no more bodies wait for one another than there were
functions to enter (`length_callers_le`). And an evaluation that succeeds has
read something (`rest_lt_of_evaluate`), so that one after another reaches the
end of the text (`evaluateAllFor_eq`).
-/
import ReminderExpr.Interpreter
import ReminderExpr.Proofs.Levels

namespace ReminderExpr

namespace Machine

variable {world : World} {m m' : Machine}

/-! ## Every run ends -/

/-- Some number of steps takes a run to its end. -/
theorem exists_runFor_eq_run (world : World) (m : Machine) :
    ∃ steps, m.runFor world steps = some (m.run world) := by
  induction m using (wellFounded_smaller world).induction with
  | h m ih =>
    cases hstep : m.step world with
    | halted halt =>
      refine ⟨1, ?_⟩
      rw [run_of_halted hstep]
      simp [runFor, hstep]
    | running m' =>
      obtain ⟨steps, hsteps⟩ := ih m' (smaller_of_step hstep)
      refine ⟨steps + 1, ?_⟩
      rw [run_of_running hstep]
      simp [runFor, hstep, hsteps]

/-! ## Bodies under evaluation -/

/-- Of a scope and its callers, each leaves room for the bodies above it:
the functions it may still enter and the bodies below it are at most `limit`. -/
def FewBodies (world : World) (limit : Nat) : List Scope → Prop
  | [] => True
  | s :: callers =>
      (world.idle s.active).length + callers.length ≤ limit ∧ FewBodies world limit callers

/-- A step leaves room for as many bodies as before. -/
theorem fewBodies_of_change {limit : Nat} (h : LevelChange world m m')
    (hm : FewBodies world limit (m.scope :: m.callers)) :
    FewBodies world limit (m'.scope :: m'.callers) := by
  cases h with
  | within rest closed opened frames hclosed hopened hf hf' hscope _ =>
    rw [callers_of_within hclosed hf] at hm
    rw [callers_of_within hopened hf', hscope]
    exact hm
  | enters f rest base closed frames hclosed hf hf' hactive hfound hidle _ _ =>
    rw [callers_of_within hclosed hf] at hm
    have hc : m'.callers = { m.scope with rest } :: frames.filterMap Frame.caller? := by
      rw [callers, hf']
      rfl
    obtain ⟨name, hname⟩ := hfound
    have hlt := World.idle_cons_lt (UserFunctions.mem_of_find?_eq_some hname) hidle
    rw [hc]
    refine ⟨?_, hm.1, hm.2⟩
    have hle := hm.1
    simp only [hactive, List.length_cons]
    omega
  | leaves base caller hf hscope =>
    have hc : m.callers = m'.scope :: m'.callers := by
      rw [callers, hf, hscope]
      rfl
    rw [hc] at hm
    exact hm.2

/-- No more bodies are under evaluation than there were functions to enter. -/
theorem length_callers_le {scope : Scope} {operators : Stack PendingOp} {operands : Stack Value}
    (h : (start scope operators operands).Reaches world m) :
    m.callers.length ≤ (world.idle scope.active).length := by
  have hfew : FewBodies world (world.idle scope.active).length (m.scope :: m.callers) := by
    refine invariant_of_reaches (P := fun m => FewBodies world _ (m.scope :: m.callers)) h ?_ ?_
    · intro a b ha hstep
      obtain ⟨rest, -, -, change⟩ := levelChange_of_step hstep
      exact fewBodies_of_change change ha
    · exact ⟨Nat.le_refl _, trivial⟩
  have hle := hfew.1
  omega

/-! ## A value ends the outermost level -/

/-- Whether an outcome can only end with a failure. -/
def OnlyFails (o : Outcome) : Prop := ∀ h, o = .halted h → ∃ e, h.result = .error e

theorem onlyFails_running : OnlyFails (.running m) := by
  intro h hh
  cases hh

theorem onlyFails_fail {e : EvalError} : OnlyFails (m.fail e) := by
  intro h hh
  cases hh
  exact ⟨e, rfl⟩

theorem onlyFails_pushOperator {op : PendingOp} {phase : Phase} :
    OnlyFails (m.pushOperator world op phase) := by
  unfold pushOperator
  split
  · exact onlyFails_fail
  · exact onlyFails_running

theorem onlyFails_deliver {v : Value} : OnlyFails (m.deliver world v) := by
  unfold deliver
  split
  · exact onlyFails_fail
  · exact onlyFails_running

theorem onlyFails_settle {r : Result Value} : OnlyFails (m.settle world r) := by
  cases r with
  | error e => exact onlyFails_fail
  | ok v => exact onlyFails_deliver

theorem onlyFails_enter {name : String} {count : Nat} :
    OnlyFails (m.enter world name count) := by
  unfold enter
  split
  · exact onlyFails_fail
  · exact onlyFails_deliver
  · exact onlyFails_running

theorem onlyFails_takeAtom {t : Token} : OnlyFails (m.takeAtom world t) := by
  unfold takeAtom
  split
  · exact onlyFails_fail
  · exact onlyFails_running
  · split
    · exact onlyFails_running
    · split
      · exact onlyFails_pushOperator
      · exact onlyFails_fail
  · split
    · exact onlyFails_enter
    · exact onlyFails_running
  · exact onlyFails_deliver
  · exact onlyFails_settle
  · unfold takeWord
    split
    · exact onlyFails_settle
    · exact onlyFails_settle
  all_goals exact onlyFails_fail

theorem onlyFails_takeOperator {t : Token} : OnlyFails (m.takeOperator t) := by
  unfold takeOperator
  split
  · exact onlyFails_running
  · split
    · split
      · exact onlyFails_running
      · exact onlyFails_fail
    · exact onlyFails_fail

theorem onlyFails_applyTop : OnlyFails (m.applyTop world) := by
  unfold applyTop
  split
  · exact onlyFails_fail
  · split
    · exact onlyFails_fail
    · split
      · exact onlyFails_fail
      · exact onlyFails_running
  · split
    · exact onlyFails_fail
    · split
      · exact onlyFails_fail
      · split
        · exact onlyFails_fail
        · exact onlyFails_running

/-- A level that is not the outermost one hands its value on. -/
theorem onlyFails_closeLevel {t : Terminator} {v : Value} (hf : m.frames ≠ []) :
    OnlyFails (m.closeLevel world t v) := by
  unfold closeLevel
  split
  · rename_i hnil
    exact absurd hnil hf
  · split
    · exact onlyFails_deliver
    · exact onlyFails_fail
  · split
    · rename_i halt hd
      intro h hh
      cases hh
      exact onlyFails_deliver halt hd
    · split
      · exact onlyFails_running
      · exact onlyFails_enter
      · exact onlyFails_fail
      · exact onlyFails_fail
  · exact onlyFails_deliver

/-- A step that ends an evaluation with a value holds the terminator that
ended the outermost level. -/
theorem of_step_ok {halt : Halt} {v : Value} {t : Terminator}
    (h : m.step world = .halted halt) (hok : halt.result = .ok (v, t)) :
    m.frames = [] ∧ m.phase = .holding (.terminator t)
      ∧ halt.machine.frames = [] ∧ halt.machine.scope = m.scope := by
  have absurdly : ∀ {o : Outcome}, OnlyFails o → o = .halted halt → False := by
    intro o ho h
    obtain ⟨e, he⟩ := ho halt h
    rw [hok] at he
    cases he
  unfold step at h
  split at h
  · unfold readThen at h
    split at h
    · exact (absurdly onlyFails_fail h).elim
    · exact (absurdly onlyFails_takeAtom h).elim
  · unfold readThen at h
    split at h
    · exact (absurdly onlyFails_fail h).elim
    · exact (absurdly onlyFails_takeOperator h).elim
  · rename_i held hp
    unfold takeHeld at h
    split at h
    · exact (absurdly onlyFails_applyTop h).elim
    · split at h
      · rename_i t'
        unfold takeTerminator at h
        split at h
        · exact (absurdly onlyFails_fail h).elim
        · split at h
          · exact (absurdly onlyFails_fail h).elim
          · rename_i w operands _
            by_cases hf : m.frames = []
            · simp only [closeLevel, hf] at h
              cases h
              cases hok
              exact ⟨hf, hp, rfl, rfl⟩
            · exact (absurdly (onlyFails_closeLevel (m := { m with operands }) hf) h).elim
      · exact (absurdly onlyFails_pushOperator h).elim

/-- An evaluation that comes to a value has read something. -/
theorem outerRest_lt_of_run {scope : Scope} {operators : Stack PendingOp}
    {operands : Stack Value} {v : Value} {t : Terminator}
    (h : ((start scope operators operands).run world).result = .ok (v, t)) :
    ((start scope operators operands).run world).machine.outerRest.length
      < scope.rest.length := by
  obtain ⟨last, hreach, hlast⟩ := exists_last_of_run world (start scope operators operands)
  obtain ⟨hframes, hphase, hframes', hscope'⟩ := of_step_ok hlast h
  -- The first step looks for an operand, so it is not the last one.
  rcases Relation.ReflTransGen.cases_head hreach with heq | ⟨first, hfirst, hreach⟩
  · rw [← heq] at hphase
    cases hphase
  · obtain ⟨rest, -, hlt, change⟩ := levelChange_of_step hfirst
    calc ((start scope operators operands).run world).machine.outerRest.length
        = last.outerRest.length := by rw [outerRest_eq, outerRest_eq, hframes', hframes, hscope']
      _ ≤ first.outerRest.length :=
          invariant_of_reaches (P := fun m => m.outerRest.length ≤ first.outerRest.length) hreach
            (fun ha hstep => Nat.le_trans (outerRest_le_of_step hstep) ha) (Nat.le_refl _)
      _ ≤ rest.length := outerRest_le_of_change change
      _ < scope.rest.length := hlt rfl

end Machine

/-! ## Repeated evaluation -/

namespace Interpreter

variable {environment : Environment} {functions : UserFunctions} {locals : Locals}

/-- Evaluations of one expression after another until one fails or the text
ends; `none` if that takes more than `evaluations`. -/
def evaluateAllFor (environment : Environment) (functions : UserFunctions) (locals : Locals) :
    (evaluations : Nat) → Interpreter → List Char → Option (List Evaluated)
  | 0, _, _ => none
  | evaluations + 1, i, source =>
      let e := i.evaluate environment functions locals source
      match e.result with
      | .error _ => some [e]
      | .ok found =>
          if found.terminator = .endOfText then some [e]
          else (evaluateAllFor environment functions locals evaluations e.interpreter e.rest).map
            (e :: ·)

theorem rest_lt_of_evaluate {i : Interpreter} {source : List Char} {found : Evaluation}
    (h : (i.evaluate environment functions locals source).result = .ok found) :
    (i.evaluate environment functions locals source).rest.length < source.length := by
  unfold evaluate evaluateScope conclude at h ⊢
  dsimp only at h ⊢
  generalize hr : (Machine.run _ _).result = r at h
  cases r with
  | error e => cases h
  | ok p => exact Machine.outerRest_lt_of_run hr

/-- Repeated evaluation stops by itself: no more evaluations are made than
the text has characters, and one for its end. -/
theorem evaluateAllFor_eq {evaluations : Nat} {i : Interpreter} {source : List Char}
    (h : source.length < evaluations) :
    evaluateAllFor environment functions locals evaluations i source
      = some (i.evaluateAll environment functions locals source) := by
  induction evaluations generalizing i source with
  | zero => exact absurd h (Nat.not_lt_zero _)
  | succ evaluations ih =>
    rw [evaluateAllFor, evaluateAll]
    cases hr : (i.evaluate environment functions locals source).result with
    | error e => rfl
    | ok found =>
      have hlt := rest_lt_of_evaluate hr
      by_cases hend : found.terminator = .endOfText
      · simp [hend]
      · have hrest := ih (i := (i.evaluate environment functions locals source).interpreter)
          (show (i.evaluate environment functions locals source).rest.length < evaluations by omega)
        simp [hend, hlt, hrest]

/-- Every evaluation ends, whatever the functions call: some number of steps
takes it to its end, at every moment the bodies under evaluation are no more
than the functions that were not active at the start, and evaluating again
and again from one text stops at a failure or at the end of the text. -/
theorem evaluation_ends (i : Interpreter) (environment : Environment)
    (functions : UserFunctions) (scope : Scope) (locals : Locals) (source : List Char) :
    let world := i.world environment functions
    let start := Machine.start scope i.operators i.operands
    (∃ steps, start.runFor world steps = some (start.run world))
      ∧ (∀ m, start.Reaches world m → m.callers.length ≤ (world.idle scope.active).length)
      ∧ evaluateAllFor environment functions locals (source.length + 1) i source
          = some (i.evaluateAll environment functions locals source) := by
  intro world start
  refine ⟨Machine.exists_runFor_eq_run world start, ?_, ?_⟩
  · intro m hreach
    exact Machine.length_callers_le hreach
  · exact evaluateAllFor_eq (Nat.lt_succ_self _)

end Interpreter

end ReminderExpr
