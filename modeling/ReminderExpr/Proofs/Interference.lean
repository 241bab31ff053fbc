/-
ReminderExpr.Proofs.Interference — what the expressions of a run do to each
other.

An expression among the actions, or in a line of standard input, is one of the
tasks of the run (`ReminderExpr.Proofs.Tasks`). Without it the other tasks are
the same, and so is what they print.

* `report_of_failed` — the report of a run with a task that fails;
* `LosesOnly`, `losesOnly_of_tasks` — two reports, one without an expression;
* `actionTasks_at_line`, `actionTasks_of_unreached` — the lines of standard
  input that actions get to, and those that they do not;
* `splitLines_without` — standard input without one of its lines;
* `evaluations_do_not_interfere` — all of this for the program's report.
-/
import ReminderExpr.Proofs.Tasks

namespace ReminderExpr.CommandLine

/-! ## Reports without a task -/

variable {o o' : Options} {input input' : List UInt8} {early later : List Task}

/-- A task that fails prints its failure, and those after it do what they would
have done without it. -/
theorem report_of_failed {t : Task} (host : HostState)
    (htasks : o.tasks input = early ++ t :: later) :
    let s := ({ environment := { host } } : Shell).after early
    (s.attempt t).ok = false →
      report host o input
        = (({ environment := { host } } : Shell).lines early ++ (s.attempt t).lines
            ++ s.lines later ++ (s.after later).dump o, false) := by
  intro s hfailed
  have hkept : (s.attempt t).shell = s := Shell.shell_of_failed hfailed
  have hlines : s.lines (t :: later) = (s.attempt t).lines ++ s.lines later := by
    rw [Shell.lines_cons, hkept]
  have hok : s.ok (t :: later) = false := by
    rw [Shell.ok_cons, hfailed, Bool.false_and]
  rw [report_eq, htasks, Shell.lines_append, hlines, Shell.after_append, Shell.after_cons, hkept,
    Shell.ok_append, hok, Bool.and_false, List.append_assoc _ (s.attempt t).lines]

/-- Two reports of a run that begins with a shell, of which the second lacks an
expression that stands between tasks: it lacks the line of that expression and
nothing else. -/
structure LosesOnly (start : Shell) (o : Options) (early : List Task) (expr : String)
    (later : List Task) (whole rest : List Line × Bool) : Prop where
  whole : whole
    = (start.lines early ++ (start.after early).valueLine expr :: (start.after early).lines later
        ++ ((start.after early).after later).dump o,
      start.ok early && ((start.after early).value expr).isOk && (start.after early).ok later)
  rest : rest
    = (start.lines early ++ (start.after early).lines later
        ++ ((start.after early).after later).dump o,
      start.ok early && (start.after early).ok later)

theorem losesOnly_of_tasks {expr : String} (host : HostState)
    (htasks : o.tasks input = early ++ .evaluate expr :: later)
    (hrest : o'.tasks input' = early ++ later)
    (hvars : o'.dumpVars = o.dumpVars) (hsysvars : o'.dumpSysvars = o.dumpSysvars) :
    LosesOnly { environment := { host } } o early expr later (report host o input)
      (report host o' input') := by
  have hdump : ∀ s : Shell, s.dump o' = s.dump o := by
    intro s
    rw [Shell.dump, Shell.dump, hvars, hsysvars]
  constructor
  · rw [report_eq, htasks, Shell.lines_append, Shell.lines_cons, Shell.after_append,
      Shell.after_cons, Shell.ok_append, Shell.ok_cons, Bool.and_assoc]
    rfl
  · rw [report_eq, hrest, Shell.lines_append, Shell.after_append, Shell.ok_append, hdump]

/-! ## Where expressions come from -/

variable {before after : List (List UInt8)} {bytes : List UInt8} {actions : List Action}

theorem actionTasks_append (lines : List (List UInt8)) (actions more : List Action) :
    actionTasks lines (actions ++ more)
      = actionTasks lines actions ++ actionTasks (linesLeft lines actions) more := by
  induction actions generalizing lines with
  | nil => rfl
  | cons a rest ih =>
    cases a <;> simp only [List.cons_append, actionTasks, linesLeft, ih, List.append_assoc]

/-- How many of some lines cannot be read. As many readings of standard input
end in them. -/
def unreadableIn (lines : List (List UInt8)) : Nat :=
  lines.countP fun bytes => (decode? bytes).isNone

theorem unreadableIn_cons (bytes : List UInt8) (rest : List (List UInt8)) :
    unreadableIn (bytes :: rest)
      = unreadableIn rest + if (decode? bytes).isNone then 1 else 0 :=
  List.countP_cons

/-- One reading goes through lines that can all be read. -/
theorem lineTasks_of_readable (h : unreadableIn before = 0) (more : List (List UInt8)) :
    lineTasks (before ++ more)
        = ((lineTasks before).1 ++ (lineTasks more).1, (lineTasks more).2)
      ∧ (lineTasks before).2 = [] := by
  induction before with
  | nil => exact ⟨rfl, rfl⟩
  | cons bytes rest ih =>
    rw [unreadableIn_cons] at h
    cases hdecode : decode? bytes with
    | none =>
      rw [hdecode] at h
      cases Nat.eq_zero_of_add_eq_zero_left h
    | some text =>
      obtain ⟨htasks, hleft⟩ := ih (Nat.eq_zero_of_add_eq_zero_right h)
      rw [List.cons_append, lineTasks, lineTasks, hdecode]
      refine ⟨?_, hleft⟩
      dsimp only
      rw [htasks, List.append_assoc]

/-- One reading ends in the first line that cannot be read. -/
theorem lineTasks_of_unreadable (h : 0 < unreadableIn before) (more : List (List UInt8)) :
    lineTasks (before ++ more) = ((lineTasks before).1, (lineTasks before).2 ++ more)
      ∧ unreadableIn before = unreadableIn (lineTasks before).2 + 1 := by
  induction before with
  | nil => cases h
  | cons bytes rest ih =>
    rw [unreadableIn_cons] at h ⊢
    cases hdecode : decode? bytes with
    | none =>
      rw [List.cons_append, lineTasks, lineTasks, hdecode]
      exact ⟨rfl, rfl⟩
    | some text =>
      rw [hdecode] at h
      obtain ⟨htasks, hleft⟩ := ih h
      rw [List.cons_append, lineTasks, lineTasks, hdecode]
      refine ⟨?_, hleft⟩
      dsimp only
      rw [htasks]

/-- Actions do not get to the lines after as many unreadable ones as they read
standard input. -/
theorem actionTasks_of_unreached (h : actions.count .stdin ≤ unreadableIn before)
    (more : List (List UInt8)) :
    actionTasks (before ++ more) actions = actionTasks before actions
      ∧ linesLeft (before ++ more) actions = linesLeft before actions ++ more
      ∧ unreadableIn (linesLeft before actions) + actions.count .stdin = unreadableIn before := by
  induction actions generalizing before with
  | nil => exact ⟨rfl, rfl, rfl⟩
  | cons a rest ih =>
    cases a with
    | set name expr =>
      obtain ⟨htasks, hleft, hcount⟩ := ih h
      exact ⟨congrArg _ htasks, hleft, hcount⟩
    | eval expr =>
      obtain ⟨htasks, hleft, hcount⟩ := ih h
      exact ⟨congrArg _ htasks, hleft, hcount⟩
    | stdin =>
      rw [List.count_cons_self] at h ⊢
      obtain ⟨hline, hone⟩ := lineTasks_of_unreadable (Nat.lt_of_lt_of_le (Nat.succ_pos _) h) more
      have hrest : rest.count .stdin ≤ unreadableIn (lineTasks before).2 := by omega
      obtain ⟨htasks, hleft, hcount⟩ := ih hrest
      simp only [actionTasks, linesLeft, hline]
      exact ⟨congrArg _ htasks, hleft, by omega⟩

/-- The tasks of a run whose actions get to a line: those up to the line, and
those from there. -/
theorem actionTasks_at_line {first second : List Action}
    (h : first.count .stdin = unreadableIn before) (more : List (List UInt8)) :
    actionTasks (before ++ more) (first ++ .stdin :: second)
      = actionTasks before (first ++ [.stdin]) ++ actionTasks more (.stdin :: second) := by
  obtain ⟨htasks, hleft, hcount⟩ := actionTasks_of_unreached (Nat.le_of_eq h) more
  have hreadable : unreadableIn (linesLeft before first) = 0 := by omega
  obtain ⟨hlines, -⟩ := lineTasks_of_readable hreadable more
  rw [actionTasks_append, actionTasks_append, htasks, hleft]
  simp only [actionTasks, hlines, List.append_nil, List.append_assoc]

theorem actionTasks_unreadable (h : decode? bytes = none) (second : List Action) :
    actionTasks (bytes :: after) (.stdin :: second) = .unreadable :: actionTasks after second := by
  rw [actionTasks, lineTasks, h]
  rfl

theorem actionTasks_evaluated {text expr : String} (h : decode? bytes = some text)
    (hexpr : expressionOf? text = some expr) (second : List Action) :
    actionTasks (bytes :: after) (.stdin :: second)
      = .evaluate expr :: actionTasks after (.stdin :: second) := by
  rw [actionTasks, lineTasks, h]
  dsimp only
  rw [hexpr]
  rfl

/-- The reading of standard input, of those in some actions, before which there
are as many as a number says. -/
theorem exists_reading {n : Nat} (h : n < actions.count .stdin) :
    ∃ first second, actions = first ++ .stdin :: second ∧ first.count .stdin = n := by
  induction actions generalizing n with
  | nil => cases h
  | cons a rest ih =>
    by_cases ha : a = .stdin
    · subst ha
      cases n with
      | zero => exact ⟨[], rest, rfl, rfl⟩
      | succ n =>
        rw [List.count_cons_self] at h
        obtain ⟨first, second, rfl, hcount⟩ := ih (Nat.lt_of_succ_lt_succ h)
        exact ⟨.stdin :: first, second, rfl, by rw [List.count_cons_self, hcount]⟩
    · rw [List.count_cons_of_ne ha] at h
      obtain ⟨first, second, rfl, hcount⟩ := ih h
      exact ⟨a :: first, second, rfl, by rw [List.count_cons_of_ne ha, hcount]⟩

/-! ## Standard input without one of its lines -/

/-- The bytes of lines, each with a line feed after it. -/
def joinLines (lines : List (List UInt8)) : List UInt8 := lines.flatMap (· ++ [10])

theorem splitLines_append {line : List UInt8} (h : 10 ∉ line) (rest : List UInt8) :
    splitLines (line ++ 10 :: rest) = line :: splitLines rest := by
  induction line with
  | nil => rfl
  | cons b bytes ih =>
    have hb : b ≠ 10 := fun hb => h (hb ▸ List.mem_cons_self)
    rw [List.cons_append, splitLines, if_neg hb, ih (fun hmem => h (List.mem_cons_of_mem b hmem))]

theorem splitLines_joinLines {lines : List (List UInt8)} (h : ∀ line ∈ lines, 10 ∉ line) :
    splitLines (joinLines lines) = lines := by
  induction lines with
  | nil => rfl
  | cons line rest ih =>
    rw [List.forall_mem_cons] at h
    have hjoin : joinLines (line :: rest) = line ++ 10 :: joinLines rest := by
      simp only [joinLines, List.flatMap_cons, List.append_assoc, List.singleton_append]
    rw [hjoin, splitLines_append h.1, ih h.2]

theorem not_mem_of_mem_splitLines {line : List UInt8} (h : line ∈ splitLines input) :
    10 ∉ line := by
  induction input generalizing line with
  | nil => cases h
  | cons b bytes ih =>
    rw [splitLines] at h
    by_cases hb : b = 10
    · rw [if_pos hb] at h
      rcases List.mem_cons.1 h with rfl | h
      · exact List.not_mem_nil
      · exact ih h
    · rw [if_neg hb] at h
      have hb' : (10 : UInt8) ≠ b := fun h => hb h.symm
      cases hlines : splitLines bytes with
      | nil =>
        rw [hlines] at h
        rw [List.mem_singleton.1 h, List.mem_singleton]
        exact hb'
      | cons first rest =>
        rw [hlines] at h ih
        rcases List.mem_cons.1 h with rfl | h
        · exact List.not_mem_cons_of_ne_of_not_mem hb' (ih List.mem_cons_self)
        · exact ih (List.mem_cons_of_mem first h)

/-- There is standard input for the lines that are left without one. -/
theorem splitLines_without (h : splitLines input = before ++ bytes :: after) :
    splitLines (joinLines (before ++ after)) = before ++ after := by
  refine splitLines_joinLines fun line hline => ?_
  have hmem : line ∈ splitLines input := by
    rw [h]
    exact ((List.sublist_cons_self bytes after).append_left before).mem hline
  exact not_mem_of_mem_splitLines hmem

/-! ## The whole program -/

/-- A run prints what its tasks print, each in turn, and then the listings; it
succeeds if all tasks do. The tasks do not depend on each other's outcome, and
after one that fails the others do what they would have done without it. An
expression among the actions adds its own line and nothing else, and so does an
expression in a line of standard input that some action gets to. An action that
comes to an unreadable line ends there with a failure, and the actions after it
go on with the lines after that one; lines after more unreadable ones than that
are not read at all. -/
theorem evaluations_do_not_interfere (host : HostState) (o : Options) (input : List UInt8) :
    let start : Shell := { environment := { host } }
    let defined := o.definitions.map Task.define
    report host o input
        = (start.lines (o.tasks input) ++ (start.after (o.tasks input)).dump o,
          (start.attempts (o.tasks input)).all (·.ok))
      ∧ (∀ early t later, o.tasks input = early ++ t :: later →
          let s := start.after early
          (s.attempt t).ok = false →
            report host o input
              = (start.lines early ++ (s.attempt t).lines ++ s.lines later
                  ++ (s.after later).dump o, false))
      ∧ (∀ before expr after, o.actions = before ++ .eval expr :: after →
          LosesOnly start o
            (defined ++ actionTasks (splitLines input) before) expr
            (actionTasks (linesLeft (splitLines input) before) after)
            (report host o input) (report host { o with actions := before ++ after } input))
      ∧ (∀ before bytes after, splitLines input = before ++ bytes :: after →
          unreadableIn before < o.actions.count .stdin →
          ∃ first second, o.actions = first ++ .stdin :: second
            ∧ first.count .stdin = unreadableIn before
            ∧ (decode? bytes = none →
                o.tasks input = defined ++ actionTasks before (first ++ [.stdin])
                  ++ .unreadable :: actionTasks after second)
            ∧ ∀ text expr, decode? bytes = some text → expressionOf? text = some expr →
                splitLines (joinLines (before ++ after)) = before ++ after
                  ∧ ∀ input', splitLines input' = before ++ after →
                      LosesOnly start o
                        (defined ++ actionTasks before (first ++ [.stdin])) expr
                        (actionTasks after (.stdin :: second))
                        (report host o input) (report host o input'))
      ∧ ∀ before after, splitLines input = before ++ after →
          o.actions.count .stdin ≤ unreadableIn before →
            o.tasks input = defined ++ actionTasks before o.actions := by
  intro start defined
  refine ⟨report_eq host o input, fun early t later htasks => report_of_failed host htasks,
    fun before expr after hactions => ?_, fun before bytes after hlines hread => ?_,
    fun before after hlines hunread => ?_⟩
  · refine losesOnly_of_tasks host ?_ ?_ rfl rfl
    · rw [Options.tasks, hactions, actionTasks_append, List.append_assoc]
      rfl
    · rw [Options.tasks, actionTasks_append, List.append_assoc]
  · obtain ⟨first, second, hactions, hcount⟩ := exists_reading hread
    have htasks : ∀ more input', splitLines input' = before ++ more →
        o.tasks input' = defined ++ actionTasks before (first ++ [.stdin])
          ++ actionTasks more (.stdin :: second) := by
      intro more input' hinput
      rw [Options.tasks, hinput, hactions, actionTasks_at_line hcount, List.append_assoc]
    refine ⟨first, second, hactions, hcount, fun hdecode => ?_,
      fun text expr hdecode hexpr => ⟨splitLines_without hlines, fun input' hinput => ?_⟩⟩
    · rw [htasks _ input hlines, actionTasks_unreadable hdecode]
    · refine losesOnly_of_tasks host ?_ (htasks after input' hinput) rfl rfl
      rw [htasks _ input hlines, actionTasks_evaluated hdecode hexpr]
  · rw [Options.tasks, hlines, (actionTasks_of_unreached hunread after).1]

/-- After an assignment, an expression that fails, and standard input with an
expression in its second line, of which each can be left out by itself. -/
theorem sums_do_not_interfere :
    let o : Options := { actions := [.set "x" "2*3", .eval "1+", .stdin], dumpVars := true }
    let input : List UInt8 := [35, 10, 120, 43, 49]
    let early : List Task := [.assign "x" "2*3"]
    let s := ({} : Shell).after early
    s.value "1+" = .error .unexpectedEol
      ∧ s.value "x+1" = .ok (.int 7)
      ∧ report {} o input
          = (({} : Shell).lines early ++ [s.valueLine "1+"] ++ s.lines [.evaluate "x+1"]
              ++ s.dump o, false)
      ∧ LosesOnly {} o early "1+" [.evaluate "x+1"] (report {} o input)
          (report {} { o with actions := [.set "x" "2*3", .stdin] } input)
      ∧ LosesOnly {} o (early ++ [.evaluate "1+"]) "x+1" [] (report {} o input)
          (report {} o [35, 10]) := by
  intro o input early s
  have hset : Shell.value {} "2*3" = .ok (.int 6) := Shell.value_of_runFor 40 (by decide +kernel)
  have hs : s = { environment := { globals := ⟨[{ name := "x", value := .int 6 }]⟩ } } := by
    show (Shell.attempt {} (.assign "x" "2*3")).shell = _
    rw [Shell.attempt, hset]
    rfl
  have hsum : s.value "1+" = .error .unexpectedEol := by
    rw [hs]
    exact Shell.value_of_runFor 40 (by decide +kernel)
  have hx : s.value "x+1" = .ok (.int 7) := by
    rw [hs]
    exact Shell.value_of_runFor 40 (by decide +kernel)
  obtain ⟨-, hfailed, haction, hline, -⟩ := evaluations_do_not_interfere {} o input
  have htasks : o.tasks input = early ++ .evaluate "1+" :: [.evaluate "x+1"] := by decide +kernel
  have hwhole := hfailed early (.evaluate "1+") [.evaluate "x+1"] htasks (congrArg Except.isOk hsum)
  refine ⟨hsum, hx, hwhole, ?_, ?_⟩
  · exact haction [.set "x" "2*3"] "1+" [.stdin] rfl
  · obtain ⟨first, second, hactions, hcount, -, hremove⟩ :=
      hline [[35]] [120, 43, 49] [] (by decide +kernel) (by decide +kernel)
    have hfirst : first = [.set "x" "2*3", .eval "1+"] ∧ second = [] := by
      rcases first with _ | ⟨a, _ | ⟨b, _ | ⟨c, rest⟩⟩⟩ <;> simp_all [o]
    obtain ⟨rfl, rfl⟩ := hfirst
    exact (hremove "x+1" "x+1" (by decide +kernel) (by decide +kernel)).2 [35, 10]
      (by decide +kernel)

end ReminderExpr.CommandLine
