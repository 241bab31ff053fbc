/-
ReminderExpr.Proofs.Independence — a value that is not marked as dependent is
the same in every environment.

An evaluation raises its flag where it looks up a name that is not local and
where it calls a function that is not constant. All else that a step takes
from the environment are the separators and the longest string that `+` may
build (`Environment.Akin`). So, while the flag is down, akin environments lead
to the same state, and once raised it stays so:

* `Builtin.apply_eq_of_constant` — a constant function of akin environments;
* `Outcome.Independent` — what a step in one environment says of another;
* `independent_step`, `run_eq_of_const` — steps and runs;
* `Interpreter.constant_is_independent` — whole evaluations.
-/
import ReminderExpr.Interpreter
import ReminderExpr.Proofs.ConstantFunctions
import ReminderExpr.Proofs.Levels

namespace ReminderExpr

/-! ## Akin environments -/

/-- Whether two environments show the same to constant expressions. -/
structure Environment.Akin (environment environment' : Environment) : Prop where
  separators : environment.host.separators = environment'.host.separators
  maxStringLength : environment.host.maxStringLength = environment'.host.maxStringLength

theorem Environment.Akin.arithmetic {environment environment' : Environment}
    (h : environment.Akin environment') :
    environment.host.arithmetic = environment'.host.arithmetic := by
  simp only [HostState.arithmetic, h.separators, h.maxStringLength]

/-- A constant function comes to the same in akin environments: only `coerce`
reads them, for the separators. -/
theorem Builtin.apply_eq_of_constant {b : Builtin} (hb : b.signature.constant = true)
    {environment environment' : Environment} (h : environment.Akin environment')
    (functions : UserFunctions) (vs : List Value) :
    b.apply environment functions vs = b.apply environment' functions vs := by
  by_cases hne : b = coerce
  · subst hne
    exact (apply_coerce_eq_or vs).resolve_right fun hsep => hsep.1 h.separators
  · exact apply_eq_of_constant_of_ne hb hne vs

/-- What an evaluation reads, with another environment. -/
def World.inside (world : World) (environment : Environment) : World := { world with environment }

/-! ## The flag -/

/-- Whether anything but constants has been read. -/
def Outcome.nonconst : Outcome → Bool
  | .running m => m.nonconst
  | .halted h => h.machine.nonconst

/-- What an outcome in one environment says of the outcome in another: it is
the same unless the flag is up. A flag that was `raised` before is up. -/
structure Outcome.Independent (raised : Bool) (o o' : Outcome) : Prop where
  same : o.nonconst = false → o' = o
  kept : raised = true → o.nonconst = true

theorem Outcome.Independent.of_eq {raised : Bool} {o o' : Outcome} (hsame : o' = o)
    (hflag : o.nonconst = raised) : o.Independent raised o' where
  same _ := hsame
  kept h := hflag.trans h

namespace Machine

variable {world : World} {environment : Environment} {m m' : Machine}

@[simp] theorem nonconst_running (m : Machine) : (Outcome.running m).nonconst = m.nonconst := rfl

@[simp] theorem nonconst_fail (m : Machine) (e : EvalError) :
    (m.fail e).nonconst = m.nonconst := rfl

@[simp] theorem nonconst_deliver (m : Machine) (v : Value) :
    (m.deliver world v).nonconst = m.nonconst := by
  unfold deliver
  split <;> rfl

@[simp] theorem nonconst_settle (m : Machine) (r : Result Value) :
    (m.settle world r).nonconst = m.nonconst := by
  cases r with
  | error e => rfl
  | ok v => exact nonconst_deliver m v

@[simp] theorem nonconst_pushOperator (m : Machine) (op : PendingOp) (phase : Phase) :
    (m.pushOperator world op phase).nonconst = m.nonconst := by
  unfold pushOperator
  split <;> rfl

theorem nonconst_enter (m : Machine) (name : String) (count : Nat) :
    (m.enter world name count).nonconst = (m.call world name count).2.nonconst := by
  unfold enter
  split
  · rename_i h
    rw [h, nonconst_fail]
  · rename_i h
    rw [h, nonconst_deliver]
  · rename_i h
    rw [h, nonconst_running]

theorem nonconst_takeOperator (m : Machine) (t : Token) :
    (m.takeOperator t).nonconst = m.nonconst := by
  unfold takeOperator
  split
  · rfl
  · split
    · split <;> rfl
    · rfl

/-! ## Calls and operators -/

/-- A call keeps a raised flag, and raises it unless it is the same in akin
environments. -/
theorem independent_call (h : world.environment.Akin environment) (m : Machine) (name : String)
    (count : Nat) :
    ((m.call world name count).2.nonconst = false →
        m.call (world.inside environment) name count = m.call world name count)
      ∧ (m.nonconst = true → (m.call world name count).2.nonconst = true) := by
  unfold call
  cases Builtin.ofName? name with
  | none =>
    dsimp only [World.inside]
    cases world.functions.find? name with
    | none => exact ⟨fun _ => rfl, id⟩
    | some f =>
      dsimp only
      cases m.operands.popMany? count with
      | none => exact ⟨fun _ => rfl, id⟩
      | some popped => exact ⟨fun _ => rfl, id⟩
  | some builtin =>
    dsimp only [World.inside]
    cases builtin.signature.checkArity count with
    | error e => exact ⟨fun _ => rfl, id⟩
    | ok u =>
      dsimp only
      cases m.operands.popMany? count with
      | none => exact ⟨fun _ => rfl, fun hm => by rw [hm, Bool.true_or]⟩
      | some popped =>
        refine ⟨fun hflag => ?_, fun hm => by rw [hm, Bool.true_or]⟩
        rw [Bool.or_eq_false_iff, Bool.not_eq_false'] at hflag
        dsimp only
        rw [Builtin.apply_eq_of_constant hflag.2 h]

theorem independent_enter (h : world.environment.Akin environment) (m : Machine) (name : String)
    (count : Nat) :
    (m.enter world name count).Independent m.nonconst
      (m.enter (world.inside environment) name count) := by
  obtain ⟨hsame, hkept⟩ := independent_call h m name count
  rw [← nonconst_enter] at hsame hkept
  refine ⟨fun hflag => ?_, hkept⟩
  unfold enter
  rw [hsame hflag]
  rfl

theorem independent_applyTop (h : world.environment.Akin environment) (m : Machine) :
    (m.applyTop world).Independent m.nonconst (m.applyTop (world.inside environment)) := by
  apply Outcome.Independent.of_eq
  · unfold applyTop World.inside
    rw [h.arithmetic]
  · unfold applyTop
    split
    · rfl
    · split
      · rfl
      · split <;> rfl
    · split
      · rfl
      · split
        · rfl
        · split <;> rfl

/-! ## Operands and levels -/

/-- A name that is not local raises the flag. -/
theorem independent_takeWord (h : world.environment.Akin environment) (m : Machine)
    (text : String) :
    (m.takeWord world text).Independent m.nonconst
      (m.takeWord (world.inside environment) text) := by
  unfold takeWord
  split
  · apply Outcome.Independent.of_eq
    · rw [h.separators]
      rfl
    · rw [nonconst_settle]
  · unfold resolve
    cases m.scope.locals.get? text with
    | some v =>
      apply Outcome.Independent.of_eq
      · rfl
      · simp
    | none => constructor <;> simp

theorem independent_takeAtom (h : world.environment.Akin environment) (m : Machine) (t : Token) :
    (m.takeAtom world t).Independent m.nonconst
      (m.takeAtom (world.inside environment) t) := by
  have hlexer : (world.inside environment).lexer = world.lexer := by
    simp only [World.lexer, World.inside, h.separators]
  unfold takeAtom
  rw [hlexer]
  cases t with
  | operator spelling =>
    apply Outcome.Independent.of_eq
    · rfl
    · dsimp only
      split
      · rfl
      · split
        · exact nonconst_pushOperator m _ _
        · rfl
  | call name =>
    dsimp only
    split
    · rename_i rest _
      exact independent_enter h (m.withRest rest) name 0
    · exact .of_eq rfl rfl
  | str content => exact .of_eq rfl (nonconst_deliver m _)
  | date content =>
    apply Outcome.Independent.of_eq
    · rw [h.separators]
      rfl
    · exact nonconst_settle m _
  | word text => exact independent_takeWord h m text
  | endOfText | comma | closeBracket | leftParen | rightParen => exact .of_eq rfl rfl

theorem independent_closeLevel (h : world.environment.Akin environment) (m : Machine)
    (t : Terminator) (v : Value) :
    (m.closeLevel world t v).Independent m.nonconst
      (m.closeLevel (world.inside environment) t v) := by
  unfold closeLevel
  split
  · exact .of_eq rfl rfl
  · split
    · exact .of_eq rfl (nonconst_deliver _ _)
    · exact .of_eq rfl rfl
  · rename_i base name count frames _
    have hdeliver : m.deliver (world.inside environment) v = m.deliver world v := rfl
    rw [hdeliver]
    rcases deliver_cases world m v with hd | hd
    · rw [hd]
      exact .of_eq rfl rfl
    · rw [hd]
      cases t with
      | comma => exact .of_eq rfl rfl
      | rightParen =>
        exact independent_enter h
          { m with frames, base, operands := m.operands.push v, phase := .operator } name _
      | endOfText | closeBracket => exact .of_eq rfl rfl
  · exact .of_eq rfl (nonconst_deliver _ _)

theorem independent_takeHeld (h : world.environment.Akin environment) (m : Machine) (held : Held) :
    (m.takeHeld world held).Independent m.nonconst
      (m.takeHeld (world.inside environment) held) := by
  unfold takeHeld
  split
  · exact independent_applyTop h m
  · split
    · unfold takeTerminator
      split
      · exact .of_eq rfl rfl
      · split
        · exact .of_eq rfl rfl
        · rename_i v operands _
          exact independent_closeLevel h { m with operands } _ v
    · exact .of_eq rfl (nonconst_pushOperator m _ _)

/-! ## Steps and runs -/

/-- A step keeps a raised flag, and raises it unless it is the same in akin
environments. -/
theorem independent_step (h : world.environment.Akin environment) (m : Machine) :
    (m.step world).Independent m.nonconst (m.step (world.inside environment)) := by
  have hlexer : (world.inside environment).lexer = world.lexer := by
    simp only [World.lexer, World.inside, h.separators]
  unfold step readThen
  rw [hlexer]
  split
  · split
    · exact .of_eq rfl rfl
    · rename_i t rest _
      exact independent_takeAtom h (m.withRest rest) t
  · split
    · exact .of_eq rfl rfl
    · rename_i t rest _
      exact .of_eq rfl (nonconst_takeOperator (m.withRest rest) t)
  · exact independent_takeHeld h m _

/-- A flag that is up stays up to the end. -/
theorem nonconst_run (hm : m.nonconst = true) : (m.run world).machine.nonconst = true := by
  have akin : world.environment.Akin world.environment := ⟨rfl, rfl⟩
  obtain ⟨last, hreach, hlast⟩ := exists_last_of_run world m
  have hlast' : last.nonconst = true :=
    invariant_of_reaches hreach
      (fun {a b} ha hstep => by
        have := (independent_step akin a).kept ha
        rwa [hstep] at this)
      hm
  have := (independent_step akin last).kept hlast'
  rwa [hlast] at this

/-- An evaluation that ends with the flag down ends in the same way in every
akin environment. -/
theorem run_eq_of_const (h : world.environment.Akin environment)
    (hconst : (m.run world).machine.nonconst = false) :
    m.run (world.inside environment) = m.run world := by
  induction m using (wellFounded_smaller world).induction with
  | h m ih =>
    have hstep := independent_step h m
    cases hm : m.step world with
    | halted halt =>
      rw [run_of_halted hm] at hconst ⊢
      rw [hm] at hstep
      exact run_of_halted (hstep.same hconst)
    | running m' =>
      rw [run_of_running hm] at hconst ⊢
      rw [hm] at hstep
      have hm' : m'.nonconst = false := by
        cases hflag : m'.nonconst with
        | false => rfl
        | true => rw [nonconst_run hflag] at hconst; cases hconst
      rw [run_of_running (hstep.same hm')]
      exact ih m' (smaller_of_step hm) hconst

end Machine

/-! ## Evaluations -/

/-- A value that an evaluation does not mark as dependent is found in every
environment with the same separators and the same longest string, however else
that differs: with the same end, the same text left and no mark either. -/
theorem Interpreter.constant_is_independent (i : Interpreter)
    (environment environment' : Environment) (functions : UserFunctions) (scope : Scope)
    (found : Evaluation) (hsep : environment.host.separators = environment'.host.separators)
    (hmax : environment.host.maxStringLength = environment'.host.maxStringLength)
    (hfound : (i.evaluateScope environment functions scope).result = .ok found)
    (hconst : found.nonconst = false) :
    (i.evaluateScope environment' functions scope).result = .ok found
      ∧ (i.evaluateScope environment' functions scope).rest
        = (i.evaluateScope environment functions scope).rest := by
  have hrun : (Machine.start scope i.operators i.operands).run (i.world environment' functions)
      = (Machine.start scope i.operators i.operands).run (i.world environment functions) := by
    have hakin : (i.world environment functions).environment.Akin environment' := ⟨hsep, hmax⟩
    refine Machine.run_eq_of_const hakin ?_
    simp only [evaluateScope, conclude] at hfound
    cases hr : ((Machine.start scope i.operators i.operands).run
        (i.world environment functions)).result with
    | error e =>
      rw [hr] at hfound
      cases hfound
    | ok a =>
      rw [hr] at hfound
      cases hfound
      exact hconst
  have heq : i.evaluateScope environment' functions scope
      = i.evaluateScope environment functions scope := congrArg i.conclude hrun
  rw [heq]
  exact ⟨hfound, rfl⟩

/-- A function that calls another one keeps its value when the variables of
the script take the names of its parameters, the location is moved and the
day changes. -/
theorem Interpreter.volume_is_independent :
    let functions : UserFunctions := ⟨[
      { name := "area", parameters := ["w", "h"], body := "[w*h" },
      { name := "volume", parameters := ["w", "h", "d"], body := "AREA(w,h)*d]" }]⟩
    let i : Interpreter := {}
    let environment : Environment :=
      { globals := ⟨[{ name := "d", value := .str "no depth" }, { name := "w", value := .int 7 }]⟩
        systemVariables := ⟨[("LatDeg", .int (-33))]⟩
        host := { today := 12345, now := 600, fileName := "a/b", runDisabled := true } }
    let found : Evaluation := { value := .str "24 m3", terminator := .comma, nonconst := false }
    (i.evaluate {} functions {} "volume(2,3,4)+\" m3\", w".toList).result = .ok found
      ∧ (i.evaluate environment functions {} "volume(2,3,4)+\" m3\", w".toList).result = .ok found
      ∧ (i.evaluate environment functions {} "volume(2,3,4)+\" m3\", w".toList).rest
        = " w".toList := by
  intro functions i environment found
  have hfound : (i.evaluate {} functions {} "volume(2,3,4)+\" m3\", w".toList).result = .ok found
      ∧ (i.evaluate {} functions {} "volume(2,3,4)+\" m3\", w".toList).rest = " w".toList :=
    evaluateScope_of_runFor 60 (by decide +kernel)
  have h := i.constant_is_independent {} environment functions
    { rest := "volume(2,3,4)+\" m3\", w".toList } found rfl rfl hfound.1 rfl
  exact ⟨hfound.1, h.1, h.2.trans hfound.2⟩

end ReminderExpr
