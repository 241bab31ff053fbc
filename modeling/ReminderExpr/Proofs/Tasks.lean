/-
ReminderExpr.Proofs.Tasks — a run of the program as its tasks.

The arguments and the lines of standard input alone say what a run attempts
(`Options.tasks`): every definition, every assignment, every expression, and
one failure for each line that cannot be read. No task is left out because
another has failed. A task sees of those before it only the environment and
the functions (`Shell`), never the interpreter that evaluates them all.

* `Task`, `Options.tasks`, `Shell.attempt` — tasks, and each by itself;
* `Shell.shell_of_failed` — a task that fails leaves no trace;
* `Run.Shows`, `Run.Did` — a run beside its tasks, with `did_*` for each part
  of the run;
* `report_eq` — a run prints what its tasks print, one after another.
-/
import ReminderExpr.CommandLine.Report
import ReminderExpr.Proofs.History

namespace ReminderExpr

/-- An interpreter that has evaluated nothing. -/
def Interpreter.initial : Interpreter := { operators := .empty, operands := .empty }

namespace CommandLine

/-! ## Tasks -/

/-- One thing that a run attempts. -/
inductive Task
  | define (d : Definition)
  | assign (name expr : String)
  | evaluate (expr : String)
  /-- A line of standard input that cannot be read. -/
  | unreadable
  deriving DecidableEq, Repr

/-- The expression of a line of standard input; blank lines and comments have
none. -/
def expressionOf? (text : String) : Option String :=
  match Text.trim text.toList with
  | [] => none
  | '#' :: _ => none
  | expr => some (String.ofList expr)

/-- The tasks of the lines that one reading of standard input comes to, and the
lines that it leaves: those after one that cannot be read. -/
def lineTasks : List (List UInt8) → List Task × List (List UInt8)
  | [] => ([], [])
  | bytes :: rest =>
      match decode? bytes with
      | none => ([.unreadable], rest)
      | some text =>
          let (tasks, left) := lineTasks rest
          ((expressionOf? text).toList.map .evaluate ++ tasks, left)

/-- The tasks of actions in order. -/
def actionTasks (lines : List (List UInt8)) : List Action → List Task
  | [] => []
  | .set name expr :: rest => .assign name expr :: actionTasks lines rest
  | .eval expr :: rest => .evaluate expr :: actionTasks lines rest
  | .stdin :: rest => (lineTasks lines).1 ++ actionTasks (lineTasks lines).2 rest

/-- The lines that actions leave. -/
def linesLeft (lines : List (List UInt8)) : List Action → List (List UInt8)
  | [] => lines
  | .stdin :: rest => linesLeft (lineTasks lines).2 rest
  | _ :: rest => linesLeft lines rest

/-- All that a run attempts, in order. It depends on what there is to do, and
not on what comes of it. -/
def Options.tasks (o : Options) (input : List UInt8) : List Task :=
  o.definitions.map .define ++ actionTasks (splitLines input) o.actions

/-- What later tasks see of earlier ones. -/
structure Shell where
  environment : Environment := {}
  functions : UserFunctions := {}

/-- What a task prints, whether it succeeds, and what later ones see. -/
structure Attempt where
  lines : List Line
  ok : Bool
  shell : Shell

namespace Shell

/-- The value of an expression for an interpreter that has evaluated nothing
else. -/
def value (s : Shell) (expr : String) : Result Value :=
  (Interpreter.initial.evaluateText s.environment s.functions expr).1

/-- The line of an expression: its value on standard output, or its failure on
standard error. -/
def valueLine (s : Shell) (expr : String) : Line :=
  match s.value expr with
  | .ok v => .out (v.shown s.environment.host.separators)
  | .error e => failureLine e

/-- An attempt to change the shell; a failure is reported and changes nothing. -/
def alter (s : Shell) (heading : String) : Result Shell → Attempt
  | .ok s' => { lines := [], ok := true, shell := s' }
  | .error e => { lines := [.err heading, failureLine e], ok := false, shell := s }

/-- A task by itself. -/
def attempt (s : Shell) : Task → Attempt
  | .define d =>
      s.alter ("in definition of " ++ d.name ++ ":")
        ((s.functions.define d.name d.parameters d.body).map fun functions => { s with functions })
  | .assign name expr =>
      s.alter ("in --set " ++ name ++ ":")
        ((s.value expr >>= Run.store s.environment name).map fun environment =>
          { s with environment })
  | .evaluate expr => { lines := [s.valueLine expr], ok := (s.value expr).isOk, shell := s }
  | .unreadable =>
      { lines := [.err "error: reading stdin: stream did not contain valid UTF-8"]
        ok := false
        shell := s }

/-- Tasks one after another. -/
def attempts (s : Shell) : List Task → List Attempt
  | [] => []
  | t :: rest => s.attempt t :: (s.attempt t).shell.attempts rest

/-- What is left of tasks. -/
def after (s : Shell) (tasks : List Task) : Shell :=
  tasks.foldl (fun s t => (s.attempt t).shell) s

/-- The lines of tasks. -/
def lines (s : Shell) (tasks : List Task) : List Line := (s.attempts tasks).flatMap (·.lines)

/-- Whether no task fails. -/
def ok (s : Shell) (tasks : List Task) : Bool := (s.attempts tasks).all (·.ok)

/-- The listings that options ask for. -/
def dump (s : Shell) (o : Options) : List Line :=
  let r : Run := { environment := s.environment, interpreter := .initial }
  (if o.dumpVars then r.variableLines else [])
    ++ if o.dumpSysvars then r.systemVariableLines else []

variable {s : Shell}

/-- The value of an expression, given enough steps. -/
theorem value_of_runFor {expr : String} {found : Result Value} (steps : Nat)
    (h : ((Machine.start { rest := expr.toList } Interpreter.initial.operators
          Interpreter.initial.operands).runFor
        (Interpreter.initial.world s.environment s.functions) steps).map
          (fun halt => halt.result.map (·.1)) = some found) :
    s.value expr = found := by
  obtain ⟨halt, hhalt, rfl⟩ := Option.map_eq_some_iff.1 h
  have hends : (Interpreter.initial.evaluateScope s.environment s.functions
      { rest := expr.toList }).result = (Interpreter.initial.conclude halt).result := by
    rw [Interpreter.evaluateScope, Machine.run_eq_of_runFor hhalt]
  refine (congrArg (fun r : Result Evaluation => r.map (·.value)) hends).trans ?_
  rw [Interpreter.conclude]
  cases halt.result <;> rfl

theorem after_cons (s : Shell) (t : Task) (rest : List Task) :
    s.after (t :: rest) = (s.attempt t).shell.after rest :=
  rfl

theorem after_append (s : Shell) (tasks more : List Task) :
    s.after (tasks ++ more) = (s.after tasks).after more :=
  List.foldl_append

theorem attempts_append (s : Shell) (tasks more : List Task) :
    s.attempts (tasks ++ more) = s.attempts tasks ++ (s.after tasks).attempts more := by
  induction tasks generalizing s with
  | nil => rfl
  | cons t rest ih => simp only [List.cons_append, attempts, ih, after_cons]

theorem lines_append (s : Shell) (tasks more : List Task) :
    s.lines (tasks ++ more) = s.lines tasks ++ (s.after tasks).lines more := by
  rw [lines, attempts_append, List.flatMap_append, lines, lines]

theorem ok_append (s : Shell) (tasks more : List Task) :
    s.ok (tasks ++ more) = (s.ok tasks && (s.after tasks).ok more) := by
  rw [ok, attempts_append, List.all_append, ok, ok]

theorem lines_cons (s : Shell) (t : Task) (rest : List Task) :
    s.lines (t :: rest) = (s.attempt t).lines ++ (s.attempt t).shell.lines rest :=
  rfl

theorem ok_cons (s : Shell) (t : Task) (rest : List Task) :
    s.ok (t :: rest) = ((s.attempt t).ok && (s.attempt t).shell.ok rest) :=
  rfl

/-- What fails leaves everything as it was. -/
theorem shell_of_failed {t : Task} (h : (s.attempt t).ok = false) : (s.attempt t).shell = s := by
  have altered : ∀ heading r, (s.alter heading r).ok = false → (s.alter heading r).shell = s := by
    intro heading r hr
    cases r with
    | ok s' => cases hr
    | error e => rfl
  cases t with
  | define d => exact altered _ _ h
  | assign name expr => exact altered _ _ h
  | evaluate expr => rfl
  | unreadable => rfl

end Shell

/-! ## A run beside its tasks -/

namespace Run

variable {r r' r'' : Run} {s : Shell} {tasks more : List Task}

/-- A run sees what a task sees, and has an interpreter that has kept nothing
but its flag. -/
structure Shows (r : Run) (s : Shell) : Prop where
  environment : r.environment = s.environment
  functions : r.functions = s.functions
  interpreter : ∃ flag, r.interpreter = Interpreter.initial.raised flag

/-- From one run to another, tasks have been done that started from a shell. -/
structure Did (r : Run) (s : Shell) (tasks : List Task) (r' : Run) : Prop where
  shows : r'.Shows (s.after tasks)
  printed : r'.printed = (s.lines tasks).reverse ++ r.printed
  ok : r'.ok = (r.ok && s.ok tasks)

theorem Did.nil (h : r.Shows s) : Did r s [] r := ⟨h, rfl, (Bool.and_true _).symm⟩

theorem Did.append (h : Did r s tasks r') (h' : Did r' (s.after tasks) more r'') :
    Did r s (tasks ++ more) r'' := by
  refine ⟨?_, ?_, ?_⟩
  · rw [Shell.after_append]
    exact h'.shows
  · rw [h'.printed, h.printed, Shell.lines_append, List.reverse_append, List.append_assoc]
  · rw [h'.ok, h.ok, Shell.ok_append, Bool.and_assoc]

/-- One task done. -/
theorem did_one {t : Task} (hshows : r'.Shows (s.attempt t).shell)
    (hprinted : r'.printed = (s.attempt t).lines.reverse ++ r.printed)
    (hok : r'.ok = (r.ok && (s.attempt t).ok)) : Did r s [t] r' := by
  refine ⟨hshows, ?_, ?_⟩
  · rw [hprinted, Shell.lines, Shell.attempts, Shell.attempts, List.flatMap_singleton]
  · rw [hok, Shell.ok, Shell.attempts, Shell.attempts, List.all_cons, List.all_nil, Bool.and_true]

/-- However much has been evaluated before, an expression has the value that it
has by itself. -/
theorem evaluateText_of_shows (h : r.Shows s) (expr : String) :
    (r.interpreter.evaluateText r.environment r.functions expr).1 = s.value expr
      ∧ ∃ flag, (r.interpreter.evaluateText r.environment r.functions expr).2
          = Interpreter.initial.raised flag := by
  obtain ⟨flag, hflag⟩ := h.interpreter
  obtain ⟨flag', hkept⟩ := Interpreter.evaluateScope_keeps (i := .initial) ⟨rfl, rfl⟩ s.environment
    s.functions { rest := expr.toList }
  rw [hflag, h.environment, h.functions, Interpreter.evaluateText_raised]
  refine ⟨rfl, flag' || flag, ?_⟩
  rw [← Interpreter.raised_raised, ← hkept]
  rfl

/-- A change done. -/
theorem did_changed {t : Task} {heading : String} {s' : Shell}
    (hattempt : s.attempt t = s.alter heading (.ok s')) (hshows : r'.Shows s')
    (hprinted : r'.printed = r.printed) (hok : r'.ok = r.ok) : Did r s [t] r' := by
  refine did_one ?_ ?_ ?_ <;> rw [hattempt]
  · exact hshows
  · exact hprinted
  · exact hok.trans (Bool.and_true _).symm

/-- A change refused. -/
theorem did_refused {t : Task} {heading : String} {e : EvalError}
    (hattempt : s.attempt t = s.alter heading (.error e)) (hshows : r'.Shows s)
    (hprinted : r'.printed = r.printed) : Did r s [t] (r'.fail [.err heading, failureLine e]) := by
  refine did_one ?_ ?_ ?_ <;> rw [hattempt]
  · exact ⟨hshows.environment, hshows.functions, hshows.interpreter⟩
  · exact congrArg ([failureLine e, .err heading] ++ ·) hprinted
  · exact (Bool.and_false _).symm

theorem did_define (h : r.Shows s) (d : Definition) : Did r s [.define d] (r.define d) := by
  have hattempt : s.attempt (.define d) = s.alter ("in definition of " ++ d.name ++ ":")
      ((s.functions.define d.name d.parameters d.body).map fun functions =>
        { s with functions }) := rfl
  unfold define
  rw [h.functions]
  cases hdefine : s.functions.define d.name d.parameters d.body with
  | ok functions =>
    rw [hdefine] at hattempt
    exact did_changed hattempt ⟨h.environment, rfl, h.interpreter⟩ rfl rfl
  | error e =>
    rw [hdefine] at hattempt
    exact did_refused hattempt h rfl

theorem did_eval (h : r.Shows s) (expr : String) : Did r s [.evaluate expr] (r.eval expr) := by
  obtain ⟨hvalue, hkept⟩ := evaluateText_of_shows h expr
  have hattempt : s.attempt (.evaluate expr)
      = { lines := [s.valueLine expr], ok := (s.value expr).isOk, shell := s } := rfl
  unfold eval
  generalize r.interpreter.evaluateText r.environment r.functions expr = evaluated at hvalue hkept
  obtain ⟨result, interpreter⟩ := evaluated
  dsimp only at hvalue hkept ⊢
  subst hvalue
  cases hresult : s.value expr with
  | ok v =>
    refine did_one ?_ ?_ ?_ <;> rw [hattempt]
    · exact ⟨h.environment, h.functions, hkept⟩
    · simp only [Shell.valueLine, hresult, ← h.environment]
      rfl
    · rw [hresult]
      exact (Bool.and_true _).symm
  | error e =>
    refine did_one ?_ ?_ ?_ <;> rw [hattempt]
    · exact ⟨h.environment, h.functions, hkept⟩
    · simp only [Shell.valueLine, hresult]
      rfl
    · rw [hresult]
      exact (Bool.and_false _).symm

theorem did_set (h : r.Shows s) (name expr : String) :
    Did r s [.assign name expr] (r.set name expr) := by
  obtain ⟨hvalue, hkept⟩ := evaluateText_of_shows h expr
  have hattempt : s.attempt (.assign name expr) = s.alter ("in --set " ++ name ++ ":")
      ((s.value expr >>= store s.environment name).map fun environment =>
        { s with environment }) := rfl
  unfold set
  generalize r.interpreter.evaluateText r.environment r.functions expr = evaluated at hvalue hkept
  obtain ⟨result, interpreter⟩ := evaluated
  dsimp only at hvalue hkept ⊢
  rw [hvalue, h.environment]
  cases hstore : s.value expr >>= store s.environment name with
  | ok environment =>
    rw [hstore] at hattempt
    exact did_changed hattempt ⟨rfl, h.functions, hkept⟩ rfl rfl
  | error e =>
    rw [hstore] at hattempt
    exact did_refused hattempt ⟨rfl, h.functions, hkept⟩ rfl

theorem did_line (h : r.Shows s) (text : String) :
    Did r s ((expressionOf? text).toList.map .evaluate) (r.line text) := by
  unfold line expressionOf?
  generalize Text.trim text.toList = cs
  cases cs with
  | nil => exact .nil h
  | cons c cs =>
    by_cases hc : c = '#'
    · subst hc
      exact .nil h
    · -- Neither match can take the text for a comment.
      have hother : ∀ tail, c :: cs = '#' :: tail → False := fun _ htail =>
        hc (List.cons.inj htail).1
      simp only
      exact did_eval h _

theorem did_lines (h : r.Shows s) (lines : List (List UInt8)) :
    Did r s (lineTasks lines).1 (r.lines lines) := by
  induction lines generalizing r s with
  | nil => exact ⟨⟨h.environment, h.functions, h.interpreter⟩, rfl, (Bool.and_true _).symm⟩
  | cons bytes rest ih =>
    rw [lineTasks, Run.lines]
    cases decode? bytes with
    | none =>
      exact ⟨⟨h.environment, h.functions, h.interpreter⟩, rfl, (Bool.and_false _).symm⟩
    | some text =>
      have hline := did_line h text
      exact hline.append (ih hline.shows)

/-! ### What is left of standard input -/

theorem input_eval (r : Run) (expr : String) : (r.eval expr).input = r.input := by
  unfold eval
  dsimp only
  split <;> rfl

theorem input_set (r : Run) (name expr : String) : (r.set name expr).input = r.input := by
  unfold set
  dsimp only
  split <;> rfl

theorem input_lines (r : Run) (lines : List (List UInt8)) :
    (r.lines lines).input = (lineTasks lines).2 := by
  induction lines generalizing r with
  | nil => rfl
  | cons bytes rest ih =>
    rw [lineTasks, Run.lines]
    cases decode? bytes with
    | none => rfl
    | some text => exact ih _

theorem input_define (r : Run) (d : Definition) : (r.define d).input = r.input := by
  unfold define
  split <;> rfl

/-! ### Runs -/

theorem did_definitions (h : r.Shows s) (ds : List Definition) :
    Did r s (ds.map .define) (ds.foldl define r) ∧ (ds.foldl define r).input = r.input := by
  induction ds generalizing r s with
  | nil => exact ⟨.nil h, rfl⟩
  | cons d rest ih =>
    have hd := did_define h d
    obtain ⟨hrest, hinput⟩ := ih hd.shows
    exact ⟨hd.append hrest, hinput.trans (input_define r d)⟩

theorem did_actions (h : r.Shows s) (actions : List Action) :
    Did r s (actionTasks r.input actions) (actions.foldl action r) := by
  induction actions generalizing r s with
  | nil => exact .nil h
  | cons a rest ih =>
    cases a with
    | set name expr =>
      have hset := did_set h name expr
      have hrest := ih hset.shows
      rw [input_set] at hrest
      exact hset.append hrest
    | eval expr =>
      have heval := did_eval h expr
      have hrest := ih heval.shows
      rw [input_eval] at hrest
      exact heval.append hrest
    | stdin =>
      have hlines := did_lines h r.input
      have hrest := ih hlines.shows
      rw [input_lines] at hrest
      exact hlines.append hrest

end Run

/-! ## Reports -/

/-- A run prints what its tasks print, one after another, and then the listings
of what they have left; it succeeds if none of them fails. -/
theorem report_eq (host : HostState) (o : Options) (input : List UInt8) :
    let start : Shell := { environment := { host } }
    report host o input
      = (start.lines (o.tasks input) ++ (start.after (o.tasks input)).dump o,
        start.ok (o.tasks input)) := by
  intro start
  have hstart : Run.Shows { environment := { host }, input := splitLines input } start :=
    ⟨rfl, rfl, false, rfl⟩
  obtain ⟨hdefined, hinput⟩ := Run.did_definitions hstart o.definitions
  have hacted := Run.did_actions hdefined.shows o.actions
  rw [hinput] at hacted
  have hrun := hdefined.append hacted
  unfold report
  dsimp only
  generalize o.actions.foldl Run.action _ = r at hrun
  rw [hrun.printed, hrun.ok, List.append_nil, List.reverse_reverse, List.append_assoc]
  refine Prod.ext ?_ rfl
  simp only [Shell.dump, Run.variableLines, Run.systemVariableLines, hrun.shows.environment,
    Shell.after_append, Options.tasks]

end CommandLine

end ReminderExpr
