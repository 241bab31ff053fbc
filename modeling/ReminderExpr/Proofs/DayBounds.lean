/-
ReminderExpr.Proofs.DayBounds — times within the day, and dates since day 0.

Times of day and dates are bounded where they are made: a clock shows no more
than 24 hours, adding to a time wraps around midnight, and a date before day 0
is refused. Both bounds carry over to all that a session answers and keeps,
with one exception for dates: the date of a moment before day 0, which `coerce`
does not refuse. All dates before day 0 come from there.

* `Session.times_stay_within_day` — every time of a session lies in its day;
* `Session.origin_of_early_date` — where a date before day 0 comes from;
* `Session.early_date_of_moment` — a session in which one is answered.
-/
import ReminderExpr.Proofs.SessionValues

namespace ReminderExpr

instance Value.decidableWithinDay : DecidablePred Value.WithinDay
  | .time minute => inferInstanceAs (Decidable (0 ≤ minute ∧ minute < Calendar.minutesPerDay))
  | .int _ | .str _ | .date _ | .dateTime _ => isTrue trivial

instance Value.decidableSinceDayZero : DecidablePred Value.SinceDayZero
  | .date day => inferInstanceAs (Decidable (0 ≤ day))
  | .int _ | .str _ | .time _ | .dateTime _ => isTrue trivial

namespace Session

/-! ## Times -/

/-- In a session that starts with times within the day and is given no others,
all times lie within the day, after any history: those that the variables hold
and the host shows, those that a step answers and leaves, and those that any of
its evaluations holds or hands to a function. -/
theorem times_stay_within_day (start : Session) (history : List Step) (st : Step)
    (hstart : ∀ v ∈ start.environment.values, v.WithinDay)
    (hgiven : ∀ st' ∈ st :: history, ∀ v ∈ st'.values, v.WithinDay) :
    let s := (start.fresh.run history).2
    (∀ v ∈ s.environment.values, v.WithinDay)
      ∧ (∀ v ∈ (s.step st).1.values, v.WithinDay)
      ∧ (∀ v ∈ (s.step st).2.environment.values, v.WithinDay)
      ∧ ∀ m, s.Visits st m →
          m.Holds Value.WithinDay
            ∧ ∀ name arguments, m.passed? = some (name, arguments) →
                ∀ v ∈ arguments, v.WithinDay := by
  intro s
  have hregular : ∀ v : Value, v.Regular → v.WithinDay := fun _ h => h.withinDay
  have hspared : ∀ m : Machine, m.Spares Value.WithinDay := fun _ _ _ hw => hw
  have hfresh : start.fresh.interpreter.AtRest := start.interpreter.fresh_atRest
  have hheld : ∀ v ∈ s.environment.values, v.WithinDay :=
    held_run (s := start.fresh) hregular hstart hfresh
      (fun st' hst' => hgiven st' (List.mem_cons_of_mem st hst'))
      fun _ _ _ _ m _ => hspared m
  have hstep : s.Confines Value.WithinDay st :=
    confines_step hregular hheld (run_atRest hfresh history) (hgiven st List.mem_cons_self)
      fun m _ => hspared m
  refine ⟨hheld, hstep.answered, hstep.held, fun m hm => ⟨hstep.visited m hm, ?_⟩⟩
  intro name arguments hpassed v hv
  exact (hstep.visited m hm).operands v (Machine.mem_of_passed? hpassed hv)

/-- A function adds the greatest integer to a time that a variable holds. -/
theorem time_after_wrapping :
    let history : List Step :=
      [.setVar "start" (.time 1430), .define "later" ["t", "n"] "[t+n]"]
    let st : Step := .eval "later(start, 9223372036854775807)" {}
    let s := (({} : Session).fresh.run history).2
    (s.step st).1.values = [.time 1077]
      ∧ (∀ v ∈ ({} : Session).environment.values, v.WithinDay)
      ∧ (∀ st' ∈ st :: history, ∀ v ∈ st'.values, v.WithinDay)
      ∧ ∀ v ∈ (s.step st).1.values, v.WithinDay := by
  intro history st s
  have hstart : ∀ v ∈ ({} : Session).environment.values, v.WithinDay := by decide
  have hgiven : ∀ st' ∈ st :: history, ∀ v ∈ st'.values, v.WithinDay := by decide
  refine ⟨?_, hstart, hgiven, (times_stay_within_day {} history st hstart hgiven).2.1⟩
  have hends : (s.interpreter.evaluateScope s.environment s.callable
        { rest := "later(start, 9223372036854775807)".toList }).result
        = .ok { value := .time 1077, terminator := .endOfText, nonconst := true }
      ∧ (s.interpreter.evaluateScope s.environment s.callable
        { rest := "later(start, 9223372036854775807)".toList }).rest = [] :=
    Interpreter.evaluateScope_of_runFor 40 (by decide +kernel)
  exact congrArg (fun r : Result Evaluation => (r.map Evaluation.value).toOption.toList) hends.1

/-! ## Dates -/

/-- In a session that starts with dates since day 0 and is given no others, a
date before day 0 that a step answers, leaves or holds comes from a coercion:
in this step or an earlier one, an evaluation has come to a call that makes a
date of a moment before day 0. -/
theorem origin_of_early_date (start : Session) (history : List Step) (st : Step) (day : Int)
    (hstart : ∀ v ∈ start.environment.values, v.SinceDayZero)
    (hgiven : ∀ st' ∈ st :: history, ∀ v ∈ st'.values, v.SinceDayZero) (hday : day < 0)
    (hearly : let s := (start.fresh.run history).2
      .date day ∈ (s.step st).1.values ∨ .date day ∈ (s.step st).2.environment.values
        ∨ ∃ m, s.Visits st m ∧ .date day ∈ m.operands.entries) :
    ∃ before st' after m, history ++ [st] = before ++ st' :: after
      ∧ (start.fresh.run before).2.Visits st' m ∧ m.CoercesEarly := by
  refine Classical.byContradiction fun hnone => ?_
  have hspared : ∀ before st' after, history ++ [st] = before ++ st' :: after →
      ∀ m, (start.fresh.run before).2.Visits st' m → m.Spares Value.SinceDayZero :=
    fun before st' after hsplit m hm hcoerces =>
      absurd ⟨before, st', after, m, hsplit, hm, hcoerces⟩ hnone
  have hregular : ∀ v : Value, v.Regular → v.SinceDayZero := fun _ h => h.sinceDayZero
  have hfresh : start.fresh.interpreter.AtRest := start.interpreter.fresh_atRest
  have hheld : ∀ v ∈ (start.fresh.run history).2.environment.values, v.SinceDayZero :=
    held_run (s := start.fresh) hregular hstart hfresh
      (fun st' hst' => hgiven st' (List.mem_cons_of_mem st hst'))
      fun before st' after hsplit =>
        hspared before st' (after ++ [st]) (by rw [hsplit, List.append_assoc, List.cons_append])
  have hstep : (start.fresh.run history).2.Confines Value.SinceDayZero st :=
    confines_step hregular hheld (run_atRest hfresh history) (hgiven st List.mem_cons_self)
      (hspared history st [] rfl)
  have hlate : (Value.date day).SinceDayZero := by
    rcases hearly with hanswered | hleft | ⟨m, hm, hmem⟩
    · exact hstep.answered _ hanswered
    · exact hstep.held _ hleft
    · exact (hstep.visited m hm).operands _ hmem
  exact absurd hlate (Int.not_le.2 hday)

/-- The minute before day 0 is a moment, and its date is answered. -/
theorem early_date_of_moment :
    let st : Step := .eval "coerce(\"date\", coerce(\"datetime\", -1))" {}
    let s := (({} : Session).fresh.run []).2
    .date (-1) ∈ (s.step st).1.values
      ∧ ∃ before st' after m, [] ++ [st] = before ++ st' :: after
          ∧ (({} : Session).fresh.run before).2.Visits st' m ∧ m.CoercesEarly := by
  intro st s
  have hends : (s.interpreter.evaluateScope s.environment s.callable
        { rest := "coerce(\"date\", coerce(\"datetime\", -1))".toList }).result
        = .ok { value := .date (-1), terminator := .endOfText, nonconst := false }
      ∧ (s.interpreter.evaluateScope s.environment s.callable
        { rest := "coerce(\"date\", coerce(\"datetime\", -1))".toList }).rest = [] :=
    Interpreter.evaluateScope_of_runFor 40 (by decide +kernel)
  have hanswered : (s.step st).1.values = [.date (-1)] :=
    congrArg (fun r : Result Evaluation => (r.map Evaluation.value).toOption.toList) hends.1
  have hmem : .date (-1) ∈ (s.step st).1.values := by
    rw [hanswered]
    exact List.mem_singleton_self _
  exact ⟨hmem, origin_of_early_date {} [] st (-1) (by decide) (by decide) (by decide)
    (.inl hmem)⟩

end Session

end ReminderExpr
