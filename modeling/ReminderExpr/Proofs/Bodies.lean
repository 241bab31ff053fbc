/-
ReminderExpr.Proofs.Bodies — the body of a function is evaluated as a text of
its own.

While a body is under evaluation, the levels outside wait below its levels and
are not looked at. So every step inside a body is the step of an evaluation
that has no levels outside (`step_inside`), and all of its steps together lead
from the call to the delivery of the value that this evaluation comes to, or
to its failure:

* `Machine.inside` — an evaluation for whose value others wait;
* `Halt.returned` — what its end leads to for them;
* `step_inside`, `leads_inside` — steps and runs;
* `call_function`, `enter_function` — calls of user functions, with what the
  body can see.
-/
import ReminderExpr.Proofs.DescentAgreement

namespace ReminderExpr

/-- What waits for the value of a body: the text that the call stands in, and
the levels there. -/
structure Return where
  base : Heights
  caller : Scope
  frames : List Frame

/-- The evaluation of a body whose value is waited for. -/
def Machine.inside (r : Return) (m : Machine) : Machine :=
  { m with frames := m.frames ++ .body r.base r.caller :: r.frames }

/-- What the end of a body leads to: its value is delivered where the call
stands, whatever has ended the body, and a failure is the failure of all. -/
def Halt.returned (world : World) (r : Return) (h : Halt) : Outcome :=
  match h.result with
  | .ok (v, _) =>
      { h.machine with base := r.base, scope := r.caller, frames := r.frames }.deliver world v
  | .error e => (h.machine.inside r).fail e

/-- What an outcome of the evaluation of a body leads to. -/
def Outcome.inside (world : World) (r : Return) : Outcome → Outcome
  | .running m => .running (m.inside r)
  | .halted h => h.returned world r

namespace Machine

variable {world : World} {r : Return} {m m' : Machine}

/-! ## Steps -/

theorem inside_deliver (m : Machine) (v : Value) :
    (m.inside r).deliver world v = (m.deliver world v).inside world r := by
  have hvals : (m.inside r).operands = m.operands := rfl
  unfold deliver
  rw [hvals]
  split <;> rfl

theorem inside_pushOperator (m : Machine) (op : PendingOp) (phase : Phase) :
    (m.inside r).pushOperator world op phase = (m.pushOperator world op phase).inside world r := by
  have hops : (m.inside r).operators = m.operators := rfl
  unfold pushOperator
  rw [hops]
  split <;> rfl

theorem inside_settle (m : Machine) (v : Result Value) :
    (m.inside r).settle world v = (m.settle world v).inside world r := by
  cases v with
  | error e => rfl
  | ok v => exact inside_deliver m v

theorem inside_enter (m : Machine) (name : String) (count : Nat) :
    (m.inside r).enter world name count = (m.enter world name count).inside world r := by
  have hcall : (m.inside r).call world name count
      = ((m.call world name count).1, (m.call world name count).2.inside r) := by
    have hvals : (m.inside r).operands = m.operands := rfl
    unfold call
    rw [hvals]
    split
    · split
      · rfl
      · dsimp only
        split <;> rfl
    · split
      · rfl
      · split <;> rfl
  unfold enter
  rw [hcall]
  obtain ⟨called, m'⟩ := m.call world name count
  cases called with
  | error e => rfl
  | ok called =>
    cases called with
    | value v => exact inside_deliver m' v
    | body f locals => rfl

theorem inside_takeAtom (m : Machine) (t : Token) :
    (m.inside r).takeAtom world t = (m.takeAtom world t).inside world r := by
  have hrest : (m.inside r).scope.rest = m.scope.rest := rfl
  unfold takeAtom
  rw [hrest]
  cases t with
  | operator spelling =>
    dsimp only
    split
    · rfl
    · split
      · exact inside_pushOperator m _ _
      · rfl
  | call name =>
    dsimp only
    split
    · exact inside_enter (m.withRest _) name 0
    · rfl
  | str content => exact inside_deliver m _
  | date content => exact inside_settle m _
  | word text =>
    dsimp only [takeWord]
    split
    · exact inside_settle m _
    · exact inside_settle
        { m with nonconst := m.nonconst || (resolve world m.scope.locals text).2 } _
  | endOfText | leftParen | comma | rightParen | closeBracket => rfl

theorem inside_takeOperator (m : Machine) (t : Token) :
    (m.inside r).takeOperator t = (m.takeOperator t).inside world r := by
  unfold takeOperator
  split
  · rfl
  · split
    · split <;> rfl
    · rfl

theorem inside_applyTop (m : Machine) :
    (m.inside r).applyTop world = (m.applyTop world).inside world r := by
  have hops : (m.inside r).operators = m.operators := rfl
  have hvals : (m.inside r).operands = m.operands := rfl
  unfold applyTop
  rw [hops, hvals]
  split
  · rfl
  · split
    · rfl
    · split <;> rfl
  · split
    · rfl
    · split
      · rfl
      · split <;> rfl

/-- The last level of a body is closed by the delivery of its value; the
others are closed inside. -/
theorem inside_closeLevel (m : Machine) (t : Terminator) (v : Value) :
    (m.inside r).closeLevel world t v = (m.closeLevel world t v).inside world r := by
  have hframes : (m.inside r).frames = m.frames ++ .body r.base r.caller :: r.frames := rfl
  unfold closeLevel
  rw [hframes]
  cases hm : m.frames with
  | nil => rfl
  | cons frame frames =>
    cases frame with
    | group base =>
      dsimp only [List.cons_append]
      split
      · exact inside_deliver { m with frames, base } v
      · rfl
    | argument base name count =>
      dsimp only [List.cons_append]
      rw [inside_deliver]
      obtain hfull | hroom := m.deliver_cases world v
      · rw [hfull]
        rfl
      · rw [hroom]
        cases t with
        | rightParen =>
          exact inside_enter
            { m with operands := m.operands.push v, phase := .operator, frames, base } name _
        | comma | endOfText | closeBracket => rfl
    | body base caller => exact inside_deliver { m with frames, base, scope := caller } v

theorem inside_takeHeld (m : Machine) (held : Held) :
    (m.inside r).takeHeld world held = (m.takeHeld world held).inside world r := by
  have hmust : (m.inside r).mustApply held = m.mustApply held := rfl
  unfold takeHeld
  rw [hmust]
  split
  · exact inside_applyTop m
  · cases held with
    | binary op => exact inside_pushOperator m _ _
    | terminator t =>
      have hvals : (m.inside r).operands = m.operands := rfl
      have hbase : (m.inside r).base = m.base := rfl
      dsimp only [takeTerminator]
      rw [hvals, hbase]
      split
      · rfl
      · split
        · rfl
        · rename_i v operands _
          exact inside_closeLevel { m with operands } t v

/-- A step inside a body is a step of an evaluation of its own. -/
theorem step_inside (m : Machine) : (m.inside r).step world = (m.step world).inside world r := by
  have hphase : (m.inside r).phase = m.phase := rfl
  have hrest : (m.inside r).scope.rest = m.scope.rest := rfl
  unfold step
  rw [hphase]
  split
  · unfold readThen
    rw [hrest]
    split
    · rfl
    · exact inside_takeAtom (m.withRest _) _
  · unfold readThen
    rw [hrest]
    split
    · rfl
    · exact inside_takeOperator (m.withRest _) _
  · exact inside_takeHeld m _

/-! ## Runs -/

/-- A body comes to what its evaluation returns. -/
theorem leads_inside (world : World) (r : Return) (m : Machine) :
    (Outcome.running (m.inside r)).Leads world ((m.run world).returned world r) := by
  induction m using (wellFounded_smaller world).induction with
  | h m ih =>
    have hfirst : (Outcome.running (m.inside r)).Leads world ((m.inside r).step world) := .step _
    rw [step_inside] at hfirst
    cases hstep : m.step world with
    | halted halt =>
      rw [hstep] at hfirst
      rw [run_of_halted hstep]
      exact hfirst
    | running m' =>
      rw [hstep] at hfirst
      rw [run_of_running hstep]
      exact hfirst.trans (ih m' (smaller_of_step hstep))

/-! ## Calls -/

/-- The evaluation of the body of a function that is called where `m` stands. -/
def body (m : Machine) (f : UserFunction) (locals : Locals) : Machine :=
  { start (bodyScope m.scope.active f locals) m.operators m.operands with nonconst := m.nonconst }

/-- What waits for the value of a call where `m` stands. -/
def returning (m : Machine) : Return := ⟨m.base, m.scope, m.frames⟩

/-- A call of a user function, with as many operands as it has parameters, is
the evaluation of its body with the operands bound to them. -/
theorem enter_function {name : String} {count : Nat} {f : UserFunction} {arguments : List Value}
    {operands : Stack Value} {locals : Locals} (hbuiltin : Builtin.ofName? name = none)
    (hfound : world.functions.find? name = some f)
    (hpopped : m.operands.popMany? count = some (arguments, operands))
    (hidle : m.scope.active.contains f.key = false) (hbound : f.bind arguments = .ok locals) :
    m.enter world name count
      = .running (({ m with operands }.body f locals).inside m.returning) := by
  have hbind : bindCall m.scope.active f arguments = .ok locals := by
    rw [bindCall, hidle, hbound]
    rfl
  simp only [enter, call, hbuiltin, hfound, hpopped, hbind, Functor.map, Except.map]
  rfl

end Machine

end ReminderExpr
