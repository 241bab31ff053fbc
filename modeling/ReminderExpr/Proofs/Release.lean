/-
ReminderExpr.Proofs.Release — an evaluation leaves every body that it enters.

A function is active while its body is under evaluation, and calls of it are
refused as long. `Machine.outerActive` gives the functions that stay active
when all bodies are left: those that were so where the evaluation began. No
step changes them (`outerActive_step`), whether it reads on, enters a body,
leaves one or ends the evaluation with a failure; so no evaluation does
(`outerActive_run`).
-/
import ReminderExpr.Proofs.Levels

namespace ReminderExpr

/-- The machine that an outcome shows. -/
def Outcome.machine : Outcome → Machine
  | .running m => m
  | .halted h => h.machine

namespace Machine

variable {world : World} {m : Machine}

/-- The functions that are active once all bodies under evaluation are left. -/
def outerActive (m : Machine) : List String :=
  (m.callers.map (·.active)).getLastD m.scope.active

@[simp] theorem machine_fail (m : Machine) (e : EvalError) : (m.fail e).machine = m := rfl

@[simp] theorem outerActive_withRest (m : Machine) (rest : List Char) :
    (m.withRest rest).outerActive = m.outerActive := rfl

/-- Levels opened and closed in one text do not matter. -/
theorem outerActive_of_same {n : Machine} (hc : n.callers = m.callers)
    (ha : n.scope.active = m.scope.active) : n.outerActive = m.outerActive := by
  rw [outerActive, outerActive, hc, ha]

@[simp] theorem outerActive_deliver (m : Machine) (v : Value) :
    (m.deliver world v).machine.outerActive = m.outerActive := by
  unfold deliver
  split <;> rfl

@[simp] theorem outerActive_settle (m : Machine) (r : Result Value) :
    (m.settle world r).machine.outerActive = m.outerActive := by
  cases r with
  | error e => rfl
  | ok v => exact outerActive_deliver m v

@[simp] theorem outerActive_pushOperator (m : Machine) (op : PendingOp) (phase : Phase) :
    (m.pushOperator world op phase).machine.outerActive = m.outerActive := by
  unfold pushOperator
  split <;> rfl

theorem outerActive_openLevel (m : Machine) {frame : Frame} (h : frame.caller? = none) :
    (m.openLevel frame).machine.outerActive = m.outerActive := by
  refine outerActive_of_same ?_ rfl
  simp only [openLevel, Outcome.machine, callers, List.filterMap_cons, h]

/-- A body that is entered has its caller to return to. -/
@[simp] theorem outerActive_enter (m : Machine) (name : String) (count : Nat) :
    (m.enter world name count).machine.outerActive = m.outerActive := by
  have hc := call_snd world m name count
  unfold enter
  generalize m.call world name count = called at hc
  obtain ⟨r, n⟩ := called
  obtain ⟨hs, hf, -⟩ := hc
  have hn : n.outerActive = m.outerActive := by
    simp only at hs hf
    rw [outerActive, outerActive, callers, callers, hs, hf]
  cases r with
  | error e => exact hn
  | ok c =>
    cases c with
    | value v => rw [← hn]; exact outerActive_deliver n v
    | body f locals =>
      rw [← hn]
      exact List.getLastD_cons

theorem outerActive_takeAtom (m : Machine) (t : Token) :
    (m.takeAtom world t).machine.outerActive = m.outerActive := by
  unfold takeAtom
  split
  · rfl
  · exact outerActive_openLevel m rfl
  · split
    · rfl
    · split
      · exact outerActive_pushOperator m _ _
      · rfl
  · split
    · rw [outerActive_enter, outerActive_withRest]
    · rw [outerActive_openLevel _ rfl, outerActive_withRest]
  · exact outerActive_deliver m _
  · exact outerActive_settle m _
  · unfold takeWord
    split
    · exact outerActive_settle m _
    · exact outerActive_settle _ _
  all_goals rfl

theorem outerActive_takeOperator (m : Machine) (t : Token) :
    (m.takeOperator t).machine.outerActive = m.outerActive := by
  unfold takeOperator
  split
  · rfl
  · split
    · split <;> rfl
    · rfl

theorem outerActive_applyTop (m : Machine) :
    (m.applyTop world).machine.outerActive = m.outerActive := by
  unfold applyTop
  split
  · rfl
  · split
    · rfl
    · split <;> rfl
  · split
    · rfl
    · split
      · rfl
      · split <;> rfl

/-- A body that is left gives way to its caller. -/
theorem outerActive_closeLevel (m : Machine) (t : Terminator) (v : Value) :
    (m.closeLevel world t v).machine.outerActive = m.outerActive := by
  have closed : ∀ {frame : Frame} {frames : List Frame} {base : Heights} {n : Machine},
      m.frames = frame :: frames → frame.caller? = none → n.scope = m.scope →
      { n with frames, base }.outerActive = m.outerActive := by
    intro frame frames base n hf hframe hs
    refine outerActive_of_same ?_ (congrArg _ hs)
    simp only [callers, hf, List.filterMap_cons, hframe]
  unfold closeLevel
  split
  · rfl
  · rename_i base frames hf
    split
    · rw [outerActive_deliver, closed hf rfl rfl]
    · rfl
  · rename_i base name count frames hf
    split
    · rename_i halt hd
      rw [← hd, outerActive_deliver]
    · rename_i n hd
      have hs : n.scope = m.scope := by
        rw [of_deliver hd]
      have hn : n.outerActive = m.outerActive := by
        rw [of_deliver hd]
        rfl
      split
      · rw [outerActive_openLevel _ rfl, closed hf rfl hs]
      · rw [outerActive_enter, closed hf rfl hs]
      all_goals exact hn
  · rename_i base caller frames hf
    have hcallers : m.callers = caller :: frames.filterMap Frame.caller? := by
      rw [callers, hf]
      rfl
    rw [outerActive_deliver, outerActive, outerActive, hcallers, List.map_cons,
      List.getLastD_cons]
    rfl

theorem outerActive_takeHeld (m : Machine) (held : Held) :
    (m.takeHeld world held).machine.outerActive = m.outerActive := by
  unfold takeHeld
  split
  · exact outerActive_applyTop m
  · split
    · unfold takeTerminator
      split
      · rfl
      · split
        · rfl
        · exact outerActive_closeLevel _ _ _
    · exact outerActive_pushOperator m _ _

/-- No step changes which functions are active outside of the bodies under
evaluation. -/
theorem outerActive_step (m : Machine) :
    (m.step world).machine.outerActive = m.outerActive := by
  have read : ∀ {use : Machine → Token → Outcome},
      (∀ n t, (use n t).machine.outerActive = n.outerActive) →
      (m.readThen world use).machine.outerActive = m.outerActive := by
    intro use huse
    unfold readThen
    split
    · rfl
    · rw [huse, outerActive_withRest]
  unfold step
  split
  · exact read outerActive_takeAtom
  · exact read outerActive_takeOperator
  · exact outerActive_takeHeld m _

/-- When an evaluation has ended, with a value or a failure, no function is
active that was not so before. -/
theorem outerActive_run (world : World) (m : Machine) :
    (m.run world).machine.outerActive = m.outerActive := by
  induction m using (wellFounded_smaller world).induction with
  | h m ih =>
    have hm : (m.step world).machine.outerActive = m.outerActive := outerActive_step m
    cases hstep : m.step world with
    | halted halt =>
      rw [hstep] at hm
      rw [run_of_halted hstep]
      exact hm
    | running n =>
      rw [hstep] at hm
      rw [run_of_running hstep, ih n (smaller_of_step hstep)]
      exact hm

end Machine

end ReminderExpr
