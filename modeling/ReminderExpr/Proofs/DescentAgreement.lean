/-
ReminderExpr.Proofs.DescentAgreement — the machine evaluates as recursive
descent does.

A call of one of the functions of `Descent` corresponds to a stretch of the
machine's run: from the state in which the phrase begins to the one in which
its value lies on the operands. `Follows` says so of one call. The call and
the stretch succeed or fail together, and what the levels outside have put on
the stacks is not touched.

* `Outcome.Leads` — steps from one outcome to another;
* `later_induction` — induction on the rest of a run;
* `Follows.bind` — stretches one after another;
* `follows_enter`, `follows_takeAtom` — calls and operands;
* `agrees` — all functions of `Descent`, by induction on the rest of the run;
* `Interpreter.evaluation_descends` — whole evaluations.
-/
import ReminderExpr.Proofs.Descent
import ReminderExpr.Proofs.Levels
import ReminderExpr.Proofs.Limits

namespace ReminderExpr

open Descent

/-! ## Stretches of a run -/

namespace Outcome

/-- Any number of steps from one outcome to another. -/
def Leads (world : World) : Outcome → Outcome → Prop :=
  Relation.ReflTransGen fun o o' => ∃ m, o = .running m ∧ o' = m.step world

/-- The end that an outcome comes to. -/
def finish (world : World) : Outcome → Halt
  | .running m => m.run world
  | .halted h => h

variable {world : World} {o o' : Outcome}

theorem Leads.step (m : Machine) : (Outcome.running m).Leads world (m.step world) :=
  .single ⟨m, rfl, rfl⟩

theorem finish_step (m : Machine) : (m.step world).finish world = m.run world := by
  cases h : m.step world with
  | running m' => exact (Machine.run_of_running h).symm
  | halted halt => exact (Machine.run_of_halted h).symm

theorem Leads.finish_eq (h : o.Leads world o') : o.finish world = o'.finish world := by
  induction h with
  | refl => rfl
  | tail _ hstep ih =>
    obtain ⟨m, rfl, rfl⟩ := hstep
    rw [ih, finish_step]
    rfl

end Outcome

namespace Machine

variable {world : World} {m m' : Machine}

/-- The machine with another operator waiting, where an operand is wanted for
it. -/
def awaiting (m : Machine) (op : PendingOp) : Machine :=
  { m with operators := m.operators.push op, phase := .atom }

/-- A machine that another one comes to after at least one step. -/
def Later (world : World) (m m' : Machine) : Prop := (m.step world).Leads world (.running m')

theorem Later.of_leads (h : (Outcome.running m).Leads world (.running m')) (hne : m ≠ m') :
    m.Later world m' := by
  rcases Relation.ReflTransGen.cases_head h with heq | ⟨o, ⟨n, hn, rfl⟩, hl⟩
  · cases heq
    exact absurd rfl hne
  · cases hn
    exact hl

/-- What holds of a machine if it holds of all later ones holds of all. -/
theorem later_induction (world : World) {P : Machine → Prop}
    (h : ∀ m, (∀ m', m.Later world m' → P m') → P m) (m : Machine) : P m := by
  have wf : WellFounded fun m' m : Machine => m.step world = .running m' :=
    Subrelation.wf smaller_of_step (wellFounded_smaller world)
  have reached : ∀ {o o' : Outcome}, o.Leads world o' → ∀ {m m' : Machine},
      m.step world = o → o' = .running m' →
      Relation.TransGen (fun m' m : Machine => m.step world = .running m') m' m := by
    intro o o' hl
    induction hl with
    | refl =>
      intro m m' hm ho'
      exact .single (hm.trans ho')
    | tail _ hstep ih =>
      intro m m' hm ho'
      obtain ⟨n, rfl, rfl⟩ := hstep
      exact .head ho' (ih hm rfl)
  induction m using wf.transGen.induction with
  | h m ih => exact h m fun m' hlater => ih m' (reached hlater rfl rfl)

/-- The place that a machine has come to in its text. -/
def cursor (m : Machine) : Cursor := ⟨m.scope.rest, m.nonconst⟩

/-- The machine at another place in its text. -/
def moved (m : Machine) (c : Cursor) : Machine :=
  { m with scope := { m.scope with rest := c.rest }, nonconst := c.nonconst }

/-- The machine at another place in its text, where a value has been found. -/
def received (m : Machine) (c : Cursor) (v : Value) (phase : Phase) : Machine :=
  { m.moved c with operands := m.operands.push v, phase }

end Machine

open Machine

/-! ## Calls that follow a stretch -/

section Follows

variable {world : World} {out : List Char → List Char} {o o' : Outcome} {α β : Type}

/-- Calls, by how deep they may nest, come to a value while the machine goes
from `o` to an outcome that `next` describes, or both fail in the same way.
`out` gives the text left of the outermost scope. -/
def Follows (world : World) (out : List Char → List Char) (o : Outcome)
    (calls : Nat → Option (Result α × Cursor)) (next : α → Cursor → Outcome → Prop) : Prop :=
  ∃ r c, Yields calls (r, c) ∧ match r with
    | .ok a => ∃ o', o.Leads world o' ∧ next a c o'
    | .error e => (o.finish world).result = .error e
        ∧ (o.finish world).machine.outerRest = out c.rest

theorem Follows.of_leads {calls : Nat → Option (Result α × Cursor)}
    {next : α → Cursor → Outcome → Prop} (hl : o.Leads world o')
    (h : Follows world out o' calls next) : Follows world out o calls next := by
  obtain ⟨r, c, hfound, h⟩ := h
  refine ⟨r, c, hfound, ?_⟩
  cases r with
  | ok a =>
    obtain ⟨o'', hl', hnext⟩ := h
    exact ⟨o'', hl.trans hl', hnext⟩
  | error e => rwa [hl.finish_eq]

theorem Follows.step {m : Machine} {calls : Nat → Option (Result α × Cursor)}
    {next : α → Cursor → Outcome → Prop} (h : Follows world out (m.step world) calls next) :
    Follows world out (.running m) calls next :=
  .of_leads (Outcome.Leads.step m) h

/-- Calls that may nest one deeper. -/
theorem Follows.deeper {calls : Nat → Option (Result α × Cursor)}
    {next : α → Cursor → Outcome → Prop}
    (h : Follows world out o (fun n => calls (n + 1)) next) : Follows world out o calls next := by
  obtain ⟨r, c, hfound, h⟩ := h
  exact ⟨r, c, hfound.succ, h⟩

theorem Follows.pure {a : α} {c : Cursor} {next : α → Cursor → Outcome → Prop}
    (h : next a c o) : Follows world out o (fun _ => (Pure.pure a : Reader α) c) next :=
  ⟨.ok a, c, ⟨0, fun _ _ => rfl⟩, o, .refl, h⟩

theorem Follows.throw {e : EvalError} {m : Machine} {c : Cursor}
    {next : α → Cursor → Outcome → Prop} (h : m.outerRest = out c.rest) :
    Follows world out (m.fail e) (fun _ => (MonadExcept.throw e : Reader α) c) next :=
  ⟨.error e, c, ⟨0, fun _ _ => rfl⟩, rfl, h⟩

/-- Calls one after another follow stretches one after another. -/
theorem Follows.bind {x : Nat → Reader α} {f : α → Nat → Reader β} {c : Cursor}
    {next : α → Cursor → Outcome → Prop} {next' : β → Cursor → Outcome → Prop}
    (hx : Follows world out o (fun n => x n c) next)
    (hf : ∀ a c' o', o.Leads world o' → next a c' o' →
      Follows world out o' (fun n => f a n c') next') :
    Follows world out o (fun n => (x n >>= fun a => f a n) c) next' := by
  obtain ⟨r, c', ⟨depth, hfound⟩, h⟩ := hx
  have hbind := fun n (hn : depth ≤ n) => bind_of_found (f := fun a => f a n) (hfound n hn)
  cases r with
  | ok a =>
    obtain ⟨o', hl, hnext⟩ := h
    obtain ⟨r, c'', ⟨depth', hfound'⟩, h⟩ := hf a c' o' hl hnext
    -- Both calls have come to something at the greater one of their depths.
    have hboth : Yields (fun n => (x n >>= fun a => f a n) c) (r, c'') := by
      refine ⟨max depth depth', fun n hn => ?_⟩
      have hx := hbind n (Nat.le_trans (Nat.le_max_left ..) hn)
      exact hx.trans (hfound' n (Nat.le_trans (Nat.le_max_right ..) hn))
    exact .of_leads hl ⟨r, c'', hboth, h⟩
  | error e => exact ⟨.error e, c', ⟨depth, hbind⟩, h⟩

end Follows

/-! ## The parts of a call -/

section Reader

variable {α β : Type} {world : World} {c : Cursor}

@[simp] theorem lift_ok_bind {a : α} {f : α → Reader β} : (lift (.ok a) >>= f) c = f a c := rfl

@[simp] theorem note_bind {flag : Bool} {f : Unit → Reader β} :
    (note flag >>= f) c = f () { c with nonconst := c.nonconst || flag } := rfl

@[simp] theorem get_bind {f : Cursor → Reader β} : (get >>= f) c = f c c := rfl

theorem token_bind {f : Token → Reader β} :
    (token world >>= f) c = match world.lexer.next c.rest with
      | (.error e, rest) => (throw e.toEvalError : Reader β) { c with rest }
      | (.ok t, rest) => f t { c with rest } := by
  have htoken : token world c = match world.lexer.next c.rest with
      | (.error e, rest) => (throw e.toEvalError : Reader Token) { c with rest }
      | (.ok t, rest) => (pure t : Reader Token) { c with rest } := by
    unfold token
    rw [get_bind]
    obtain ⟨e | t, rest⟩ := world.lexer.next c.rest <;> rfl
  simp only [Bind.bind, ExceptT.bind, ExceptT.mk, StateT.bind, htoken]
  obtain ⟨e | t, rest⟩ := world.lexer.next c.rest <;> rfl

end Reader

/-! ## Pushing -/

section Follows

variable {world : World} {m : Machine}

theorem pushOperator_unlimited (m : Machine) (op : PendingOp) :
    m.pushOperator world.unlimited op .atom = .running (m.awaiting op) := rfl

/-- A failure of the machine, where the call throws it. -/
theorem follows_fail {α : Type} (m : Machine) {e : EvalError}
    {next : α → Cursor → Outcome → Prop} :
    Follows world.unlimited (outermost m.frames) (m.fail e)
      (fun _ => (throw e : Reader α) m.cursor) next :=
  .throw (outerRest_eq m)

theorem follows_settle {r : Result Value} :
    Follows world.unlimited (outermost m.frames) (m.settle world.unlimited r)
      (fun _ => lift r m.cursor)
      fun v c o => o = .running (m.received c v .operator) := by
  cases r with
  | error e => exact follows_fail m
  | ok v => exact .pure rfl

/-- The token after an operand. -/
theorem follows_held (hp : m.phase = .operator) :
    Follows world.unlimited (outermost m.frames) (.running m)
      (fun _ => held world m.cursor)
      fun held c o => o = .running ({ m with phase := .holding held }.moved c) := by
  apply Follows.step
  have hlexer : world.unlimited.lexer = world.lexer := rfl
  unfold held step readThen
  rw [hp, hlexer, token_bind]
  dsimp only [cursor]
  obtain ⟨e | t, rest⟩ := world.lexer.next m.scope.rest
  · exact follows_fail (m.withRest rest)
  · dsimp only [takeOperator]
    cases t.terminator? with
    | some terminator => exact .pure rfl
    | none =>
      cases t with
      | operator spelling =>
        dsimp only
        cases BinaryOp.ofSpelling? spelling with
        | some op => exact .pure rfl
        | none => exact follows_fail (m.withRest rest)
      | _ => exact follows_fail (m.withRest rest)

end Follows

/-! ## The functions of the descent -/

/-- Whether a held token leaves the operators of a minimal strength alone. -/
def Held.Within (minimum : Nat) : Held → Prop
  | .terminator _ => True
  | .binary op => op.precedence ≤ minimum

theorem Held.Within.mono {held : Held} {minimum minimum' : Nat} (h : held.Within minimum)
    (hle : minimum ≤ minimum') : held.Within minimum' := by
  cases held with
  | terminator t => trivial
  | binary op => exact Nat.le_trans h hle

/-- Whether a level waits with no operator stronger than `minimum` on top. -/
structure Machine.Bounded (minimum : Nat) (m : Machine) : Prop where
  base_le : m.base.operators ≤ m.operators.height
  top_le : m.base.operators < m.operators.height →
    ∀ op ∈ m.operators.top?, op.precedence ≤ minimum

/-- Climbing to a right operand or over a whole expression follows the machine. -/
def Climbs (world : World) (m : Machine) : Prop := ∀ {minimum}, m.phase = .atom →
  m.Bounded minimum →
    Follows world.unlimited (outermost m.frames) (.running m)
      (fun n => climb world n m.scope.active m.scope.locals minimum m.cursor)
      fun a c o => o = .running (m.received c a.1 (.holding a.2)) ∧ a.2.Within minimum

/-- What the calls that can begin at a machine follow. -/
structure Agrees (world : World) (m : Machine) : Prop where
  climb : Climbs world m
  /-- An operand, when the operators before it lie on the stack. -/
  operand : ∀ (prefixes : List UnaryOp) {operators : Stack PendingOp}, m.phase = .atom →
    m.operators.entries = prefixes.map PendingOp.unary ++ operators.entries →
    m.base.operators ≤ operators.height →
    Follows world.unlimited (outermost m.frames) (.running m)
      (fun n => operand world n m.scope.active m.scope.locals prefixes m.cursor)
      fun a c o => o = .running ({ m with operators }.received c a.1 (.holding a.2))
  /-- The operators after an operand that lies on the stack. -/
  rightOperands : ∀ {minimum left next} {operands : Stack Value}, m.phase = .holding next →
    m.operands = operands.push left → m.Bounded minimum →
    Follows world.unlimited (outermost m.frames) (.running m)
      (fun n => rightOperands world n m.scope.active m.scope.locals minimum left next m.cursor)
      fun a c o => o = .running ({ m with operands }.received c a.1 (.holding a.2))
        ∧ a.2.Within minimum
  /-- The rest of the arguments of a call, up to the call. -/
  arguments : ∀ (read : List Value) (below : Stack Value) {base name frames}, m.phase = .atom →
    m.base = m.heights → m.frames = .argument base name read.length :: frames →
    m.operands.entries = read.reverse ++ below.entries →
    Follows world.unlimited (outermost m.frames) (.running m)
      (fun n => arguments world n m.scope.active m.scope.locals read m.cursor)
      fun vs c o => ∃ operands : Stack Value,
        operands.entries = vs.reverse ++ below.entries
        ∧ o = Machine.enter world.unlimited
          ({ m with frames, base, operands, phase := .operator }.moved c) name vs.length

section Functions

variable {world : World} {m : Machine}

theorem closeLevel_argument {t : Terminator} {v : Value} {base : Heights} {name : String}
    {count : Nat} {frames : List Frame} (hf : m.frames = .argument base name count :: frames) :
    m.closeLevel world.unlimited t v =
      match t with
      | .comma =>
          { m with frames, operands := m.operands.push v, phase := .operator }.openLevel
            (.argument base name (count + 1))
      | .rightParen =>
          { m with frames, base, operands := m.operands.push v, phase := .operator }.enter
            world.unlimited name (count + 1)
      | .endOfText | .closeBracket =>
          { m with operands := m.operands.push v, phase := .operator }.fail .expectComma := by
  cases m
  cases hf
  cases t <;> rfl

/-- A level that has just been opened has no operators. -/
theorem bounded_of_opened (hb : m.base = m.heights) (minimum : Nat) : m.Bounded minimum := by
  constructor
  · rw [hb]
    exact Nat.le_refl _
  · rw [hb]
    exact fun hlt => absurd hlt (Nat.lt_irrefl _)

/-- An operator that waits bounds what is read for it. -/
theorem bounded_awaiting (hbase : m.base.operators ≤ m.operators.height) (op : PendingOp) :
    (m.awaiting op).Bounded op.precedence := by
  constructor
  · exact Nat.le_succ_of_le hbase
  · rintro - waiting ⟨⟩
    exact Nat.le_refl _

/-- A terminator after the value of a level closes it. -/
theorem step_received (hb : m.base = m.heights) (c : Cursor) (v : Value) (t : Terminator) :
    (m.received c v (.holding (.terminator t))).step world
      = ({ m with phase := .holding (.terminator t) }.moved c).closeLevel world t v := by
  rw [step_terminator rfl (by rw [received, moved, hb]; rfl) rfl
    (by rw [received, moved, hb]; rfl)]
  rfl

/-- A level, up to the step that closes it. -/
theorem follows_level (h : Climbs world m) (hp : m.phase = .atom) (hb : m.base = m.heights) :
    Follows world.unlimited (outermost m.frames) (.running m)
      (fun n => level world n m.scope.active m.scope.locals m.cursor)
      fun a c o => o = Machine.closeLevel world.unlimited
        ({ m with phase := .holding (.terminator a.2) }.moved c) a.2 a.1 := by
  apply Follows.deeper
  simp only [level]
  refine (h hp (bounded_of_opened hb 0)).bind ?_
  rintro ⟨v, next⟩ c o' - ⟨rfl, hwithin⟩
  cases next with
  | binary op => exact absurd hwithin (Nat.not_le_of_lt op.precedence_pos)
  | terminator t =>
    apply Follows.step
    rw [step_received hb]
    exact .pure rfl

/-- The body of a function, when its level has been opened. -/
theorem follows_body {f : UserFunction} {locals : Locals}
    (h : Climbs world { m with
      scope := bodyScope m.scope.active f locals
      frames := .body m.base m.scope :: m.frames
      base := m.heights
      phase := .atom }) :
    Follows world.unlimited (outermost m.frames)
      (.running { m with
        scope := bodyScope m.scope.active f locals
        frames := .body m.base m.scope :: m.frames
        base := m.heights
        phase := .atom })
      (fun n => body world n m.scope.active f locals m.cursor)
      fun v c o => o = .running (m.received c v .operator) := by
  apply Follows.deeper
  obtain ⟨r, c, ⟨depth, hfound⟩, hr⟩ := follows_level h rfl rfl
  refine ⟨r.map Prod.fst, { c with rest := m.scope.rest }, ⟨depth, ?_⟩, ?_⟩
  · intro n hn
    have hlevel : level world n (f.key :: m.scope.active) locals
        { rest := f.source, nonconst := m.nonconst } = some (r, c) := hfound n hn
    simp only [body, cursor, hlevel]
    rfl
  · cases r with
    | error e => exact hr
    | ok a =>
      obtain ⟨o, hl, rfl⟩ := hr
      exact ⟨_, hl, rfl⟩

/-- A call, when its arguments lie on the stack. -/
theorem follows_enter {name : String} (vs : List Value) {below : Stack Value}
    (hvals : m.operands.entries = vs.reverse ++ below.entries)
    (ih : ∀ m', (m.enter world.unlimited name vs.length).Leads world.unlimited (.running m') →
      Agrees world m') :
    Follows world.unlimited (outermost m.frames) (m.enter world.unlimited name vs.length)
      (fun n => invoke world n m.scope.active name vs m.cursor)
      fun v c o => o = .running ({ m with operands := below }.received c v .operator) := by
  obtain ⟨operands, hpop, hentries⟩ := Stack.popMany?_eq_some hvals
  obtain rfl : operands = below := Stack.ext hentries
  rw [List.length_reverse, List.reverse_reverse] at hpop
  apply Follows.deeper
  unfold enter call at ih ⊢
  simp only [invoke]
  cases hb : Builtin.ofName? name with
  | some builtin =>
    dsimp only
    cases hc : builtin.signature.checkArity vs.length with
    | error e => exact follows_fail m
    | ok u =>
      dsimp only
      rw [hpop]
      simp only [lift_ok_bind, note_bind]
      have happly : builtin.apply world.unlimited.environment world.unlimited.functions vs
          = builtin.apply world.environment world.functions vs := rfl
      rw [happly]
      cases builtin.apply world.environment world.functions vs with
      | error e => exact follows_fail { m with nonconst := _, operands }
      | ok v => exact .pure rfl
  | none =>
    have hfind : world.unlimited.functions.find? name = world.functions.find? name := rfl
    rw [hb, hfind] at ih
    dsimp only at ih ⊢
    rw [hfind]
    cases hf : world.functions.find? name with
    | none => exact follows_fail m
    | some f =>
      rw [hf] at ih
      dsimp only at ih ⊢
      rw [hpop] at ih ⊢
      dsimp only at ih ⊢
      cases hbind : bindCall m.scope.active f vs with
      | error e => exact follows_fail { m with operands }
      | ok locals =>
        rw [hbind] at ih
        exact follows_body (m := { m with operands }) (ih _ .refl).climb

theorem atom_call_closed {depth : Nat} {active : List String} {locals : Locals} {name : String}
    {rest : List Char} {c : Cursor} (h : world.lexer.skipBlanks c.rest = ')' :: rest) :
    atom world (depth + 1) active locals (.call name) c
      = invoke world depth active name [] { c with rest } := by
  rw [atom, get_bind, h]
  rfl

theorem atom_call_open {depth : Nat} {active : List String} {locals : Locals} {name : String}
    {c : Cursor} (h : ∀ rest, world.lexer.skipBlanks c.rest ≠ ')' :: rest) :
    atom world (depth + 1) active locals (.call name) c
      = (arguments world depth active locals [] >>= fun vs => invoke world depth active name vs)
          { c with rest := world.lexer.skipBlanks c.rest } := by
  rw [atom, get_bind]
  show _ = (setRest (world.lexer.skipBlanks c.rest) >>= fun _ =>
    arguments world depth active locals [] >>= fun vs => invoke world depth active name vs) c
  refine congrFun ?_ c
  split
  · rename_i rest hrest
    exact absurd hrest (h rest)
  · rfl

/-- An operand, from the token with which it starts. -/
theorem follows_takeAtom {t : Token} (hoperator : ∀ spelling, t ≠ .operator spelling)
    (ih : ∀ m', (m.takeAtom world.unlimited t).Leads world.unlimited (.running m') →
      Agrees world m') :
    Follows world.unlimited (outermost m.frames) (m.takeAtom world.unlimited t)
      (fun n => atom world n m.scope.active m.scope.locals t m.cursor)
      fun v c o => o = .running (m.received c v .operator) := by
  apply Follows.deeper
  cases t with
  | operator spelling => exact absurd rfl (hoperator spelling)
  | leftParen =>
    simp only [atom]
    refine (follows_level (ih _ .refl).climb rfl rfl).bind ?_
    rintro ⟨v, t⟩ c o - rfl
    rw [closeLevel_group rfl]
    split
    · exact .pure rfl
    · exact .throw (outerRest_eq _)
  | call name =>
    by_cases hclosed : ∃ rest, world.lexer.skipBlanks m.scope.rest = ')' :: rest
    · obtain ⟨rest, hrest⟩ := hclosed
      have hentered : m.takeAtom world.unlimited (.call name)
          = (m.withRest rest).enter world.unlimited name 0 := takeAtom_call_closed hrest
      rw [hentered] at ih ⊢
      simp only [atom_call_closed (c := m.cursor) hrest]
      exact follows_enter (m := m.withRest rest) [] rfl ih
    · have hopen : ∀ rest, world.lexer.skipBlanks m.scope.rest ≠ ')' :: rest :=
        fun rest hrest => hclosed ⟨rest, hrest⟩
      have hopened : m.takeAtom world.unlimited (.call name)
          = (m.withRest (world.lexer.skipBlanks m.scope.rest)).openLevel
              (.argument m.base name 0) := takeAtom_call_open hopen
      rw [hopened] at ih ⊢
      simp only [atom_call_open (c := m.cursor) hopen]
      refine ((ih _ .refl).arguments [] m.operands rfl rfl rfl rfl).bind ?_
      rintro vs c o hl ⟨operands, hoperands, rfl⟩
      exact follows_enter vs hoperands fun m' hlater => ih m' (hl.trans hlater)
  | str content =>
    simp only [atom]
    exact .pure rfl
  | date content =>
    simp only [atom]
    exact follows_settle
  | word text =>
    simp only [atom]
    unfold takeAtom word
    dsimp only [takeWord]
    split
    · exact follows_settle
    · rw [note_bind]
      exact follows_settle
        (m := { m with nonconst := m.nonconst || (resolve world m.scope.locals text).2 })
  | endOfText | comma | rightParen | closeBracket =>
    simp only [atom]
    exact follows_fail m

/-- The operators before an operand, which are applied once a token is held. -/
theorem follows_prefixed {next : Held} {v : Value} {prefixes : List UnaryOp}
    {operators : Stack PendingOp} {operands : Stack Value} (hp : m.phase = .holding next)
    (hv : m.operands = operands.push v)
    (hops : m.operators.entries = prefixes.map PendingOp.unary ++ operators.entries)
    (hbase : m.base.operators ≤ operators.height) :
    Follows world.unlimited (outermost m.frames) (.running m)
      (fun _ => lift (prefixed prefixes v) m.cursor)
      fun v c o => o = .running ({ m with operators, operands := operands.push v }.moved c) := by
  induction prefixes generalizing m v with
  | nil =>
    obtain rfl : m.operators = operators := Stack.ext hops
    refine .pure ?_
    rw [← hv]
    rfl
  | cons op prefixes ih =>
    obtain ⟨upper, hupper, hrest⟩ := Stack.eq_push_of_entries hops
    have hrest : upper.entries = prefixes.map PendingOp.unary ++ operators.entries := hrest
    have hle : operators.height ≤ upper.height := by
      rw [upper.height_eq, operators.height_eq, hrest, List.length_append]
      exact Nat.le_add_left _ _
    apply Follows.step
    rw [step_apply hp hupper (by rw [hupper, Stack.height_push]; omega) (next.yieldsTo_unary op),
      applyTop_unary hupper hv]
    unfold prefixed
    cases op.apply v with
    | error e => exact follows_fail m
    | ok v =>
      exact ih (m := { m with operators := upper, operands := operands.push v }) hp rfl hrest hbase

theorem follows_operand (ih : ∀ m', m.Later world.unlimited m' → Agrees world m')
    (prefixes : List UnaryOp) {operators : Stack PendingOp} (hp : m.phase = .atom)
    (hops : m.operators.entries = prefixes.map PendingOp.unary ++ operators.entries)
    (hbase : m.base.operators ≤ operators.height) :
    Follows world.unlimited (outermost m.frames) (.running m)
      (fun n => operand world n m.scope.active m.scope.locals prefixes m.cursor)
      fun a c o => o = .running ({ m with operators }.received c a.1 (.holding a.2)) := by
  have hlexer : world.unlimited.lexer = world.lexer := rfl
  apply Follows.step
  apply Follows.deeper
  unfold Later at ih
  simp only [operand, token_bind]
  unfold step readThen at ih ⊢
  rw [hp, hlexer] at ih ⊢
  dsimp only [cursor] at ih ⊢
  generalize world.lexer.next m.scope.rest = reading at ih ⊢
  obtain ⟨e | t, rest⟩ := reading
  · exact follows_fail (m.withRest rest)
  dsimp only at ih ⊢
  by_cases hoperator : ∃ spelling, t = .operator spelling
  · obtain ⟨spelling, rfl⟩ := hoperator
    unfold takeAtom at ih ⊢
    dsimp only at ih ⊢
    split
    · rename_i hplus
      rw [if_pos hplus] at ih
      exact (ih _ .refl).operand prefixes hp hops hbase
    · rename_i hplus
      rw [if_neg hplus] at ih
      cases hop : UnaryOp.ofSpelling? spelling with
      | none => exact follows_fail (m.withRest rest)
      | some op =>
        rw [hop] at ih
        have hops' : .unary op :: m.operators.entries
            = (op :: prefixes).map PendingOp.unary ++ operators.entries :=
          congrArg (List.cons (.unary op)) hops
        exact (ih _ .refl).operand (op :: prefixes) rfl hops' hbase
  · have hne : ∀ spelling, t ≠ .operator spelling := fun spelling h => hoperator ⟨spelling, h⟩
    simp only
    refine (follows_takeAtom hne ih).bind ?_
    rintro v c₁ o - rfl
    refine (follows_held (m := (m.withRest rest).received c₁ v .operator) rfl).bind ?_
    rintro next c₂ o - rfl
    refine (follows_prefixed (m := (m.withRest rest).received c₂ v (.holding next))
      rfl rfl hops hbase).bind ?_
    rintro v c o - rfl
    exact .pure rfl

theorem Held.yieldsTo_of_within {held : Held} {op : BinaryOp}
    (h : held.Within op.precedence) : held.yieldsTo (.binary op) = true := by
  cases held with
  | terminator t => rfl
  | binary held => exact decide_eq_true h

/-- An operator above the minimum of a level waits for its right operand. -/
theorem step_push {minimum : Nat} {op : BinaryOp} (hp : m.phase = .holding (.binary op))
    (hbounded : m.Bounded minimum) (hlt : minimum < op.precedence) :
    m.step world = m.pushOperator world (.binary op) .atom := by
  have hmust : ¬ m.mustApply (.binary op) = true := by
    unfold mustApply
    rw [Bool.and_eq_true, decide_eq_true_eq, Option.any_eq_true]
    rintro ⟨hmine, waiting, htop, hyields⟩
    have hle := hbounded.top_le hmine waiting htop
    exact absurd (of_decide_eq_true hyields) (by omega)
  unfold step
  rw [hp]
  dsimp only [takeHeld]
  rw [if_neg hmust]

theorem follows_rightOperands {minimum : Nat} {left : Value} {next : Held}
    {operands : Stack Value} (ih : ∀ m', m.Later world.unlimited m' → Agrees world m')
    (hp : m.phase = .holding next) (hv : m.operands = operands.push left)
    (hbounded : m.Bounded minimum) :
    Follows world.unlimited (outermost m.frames) (.running m)
      (fun n => rightOperands world n m.scope.active m.scope.locals minimum left next m.cursor)
      fun a c o => o = .running ({ m with operands }.received c a.1 (.holding a.2))
        ∧ a.2.Within minimum := by
  have hsame : Outcome.running m
      = .running ({ m with operands }.received m.cursor left (.holding next)) := by
    unfold received
    rw [← hv, ← hp]
    rfl
  apply Follows.deeper
  cases next with
  | terminator t =>
    simp only [rightOperands]
    exact .pure ⟨hsame, trivial⟩
  | binary op =>
    simp only [rightOperands]
    split
    · rename_i hle
      exact .pure ⟨hsame, hle⟩
    · rename_i hlt
      have hstep : m.step world.unlimited = _ := step_push hp hbounded (Nat.lt_of_not_le hlt)
      rw [pushOperator_unlimited] at hstep
      have hupper := bounded_awaiting hbounded.base_le (.binary op)
      apply Follows.step
      rw [hstep]
      refine ((ih _ (by rw [Later, hstep]; exact .refl)).climb rfl hupper).bind ?_
      rintro ⟨right, next⟩ c o hl ⟨rfl, hwithin⟩
      have happly : step world.unlimited
          ((m.awaiting (.binary op)).received c right (.holding next)) = _ :=
        step_apply rfl rfl (Nat.lt_succ_of_le hbounded.base_le) (Held.yieldsTo_of_within hwithin)
      rw [applyTop_binary rfl (congrArg (Stack.push · right) hv)] at happly
      have hl' := hl.trans (Outcome.Leads.step _)
      apply Follows.step
      rw [happly] at hl' ⊢
      dsimp only
      have hsettings : world.unlimited.environment = world.environment := rfl
      rw [hsettings] at hl' ⊢
      cases hr : op.apply world.environment.host.arithmetic left right with
      | error e => exact .throw (outerRest_eq _)
      | ok v =>
        rw [hr] at hl'
        rw [← hstep] at hl'
        exact (ih _ hl').rightOperands rfl rfl ⟨hbounded.base_le, hbounded.top_le⟩

theorem follows_climb (ih : ∀ m', m.Later world.unlimited m' → Agrees world m') :
    Climbs world m := by
  intro minimum hp hbounded
  apply Follows.deeper
  simp only [climb]
  refine (follows_operand ih [] hp rfl hbounded.base_le).bind ?_
  rintro ⟨v, next⟩ c o hl rfl
  have hne : m ≠ { m with operators := m.operators }.received c v (.holding next) := by
    intro heq
    have hphase := congrArg phase heq
    rw [hp] at hphase
    cases hphase
  have hagrees := ih _ (.of_leads hl hne)
  exact hagrees.rightOperands rfl rfl ⟨hbounded.base_le, hbounded.top_le⟩

theorem follows_arguments (ih : ∀ m', m.Later world.unlimited m' → Agrees world m')
    (read : List Value) (below : Stack Value) {base : Heights} {name : String}
    {frames : List Frame} (hp : m.phase = .atom)
    (hb : m.base = m.heights) (hf : m.frames = .argument base name read.length :: frames)
    (hvals : m.operands.entries = read.reverse ++ below.entries) :
    Follows world.unlimited (outermost m.frames) (.running m)
      (fun n => arguments world n m.scope.active m.scope.locals read m.cursor)
      fun vs c o => ∃ operands : Stack Value,
        operands.entries = vs.reverse ++ below.entries
        ∧ o = Machine.enter world.unlimited
          ({ m with frames, base, operands, phase := .operator }.moved c) name vs.length := by
  apply Follows.deeper
  simp only [arguments]
  refine (follows_level (follows_climb ih) hp hb).bind ?_
  rintro ⟨v, t⟩ c o hl rfl
  have hclose : closeLevel world.unlimited ({ m with phase := .holding (.terminator t) }.moved c)
      t v = _ := closeLevel_argument hf
  rw [hclose] at hl ⊢
  have hread := Stack.entries_push_of_above hvals v
  cases t with
  | comma =>
    have hlater := ih _ (.of_leads hl fun heq => by
      have hframes := congrArg Machine.frames heq
      rw [hf] at hframes
      simp at hframes)
    have hlength : Frame.argument base name (read.length + 1) :: frames
        = .argument base name (read ++ [v]).length :: frames := by
      rw [List.length_append]
      rfl
    have hout : outermost m.frames = outermost frames := by
      rw [hf]
      rfl
    rw [hout]
    exact hlater.arguments (read ++ [v]) below rfl rfl hlength hread
  | rightParen =>
    refine .pure ⟨m.operands.push v, hread, ?_⟩
    rw [List.length_append]
    rfl
  | endOfText => exact .throw (outerRest_eq _)
  | closeBracket => exact .throw (outerRest_eq _)

/-- The calls that can begin at a machine follow it, by induction on the rest
of its run. -/
theorem agrees (world : World) (m : Machine) : Agrees world m :=
  later_induction world.unlimited
    (fun _ ih =>
      { climb := follows_climb ih
        operand := follows_operand ih
        rightOperands := follows_rightOperands ih
        arguments := follows_arguments ih })
    m

end Functions

/-! ## Evaluations -/

/-- What recursive descent makes of a text is what the machine makes of it
without limits, whatever the stacks hold. -/
theorem Descent.yields_evaluate (world : World) (scope : Scope) (operators : Stack PendingOp)
    (operands : Stack Value) :
    let halt := (Machine.start scope operators operands).run world.unlimited
    Yields (fun depth => Descent.evaluate world depth scope)
      (halt.result.map fun (value, terminator) =>
          { value, terminator, nonconst := halt.machine.nonconst },
        halt.machine.outerRest) := by
  intro halt
  obtain ⟨r, c, ⟨depth, hfound⟩, hr⟩ :=
    follows_level (m := start scope operators operands) (agrees world _).climb rfl rfl
  refine ⟨depth, fun n hn => ?_⟩
  have hlevel : level world n scope.active scope.locals
      { rest := scope.rest, nonconst := false } = some (r, c) := hfound n hn
  dsimp only [Descent.evaluate]
  rw [hlevel]
  cases r with
  | error e =>
    obtain ⟨hresult, hrest⟩ := hr
    have hresult : halt.result = .error e := hresult
    have hrest : halt.machine.outerRest = c.rest := hrest
    rw [hresult, hrest]
    rfl
  | ok a =>
    obtain ⟨o, hl, rfl⟩ := hr
    have hhalt : halt = _ := hl.finish_eq
    rw [hhalt]
    rfl

/-- An evaluation that does not overflow the stacks comes to what recursive
descent comes to: the same value, end and flag or the same failure, with the
same text left. -/
theorem Interpreter.evaluation_descends (i : Interpreter) (environment : Environment)
    (functions : UserFunctions) (scope : Scope)
    (hops : (i.evaluateScope environment functions scope).result ≠ .error .operatorStackOverflow)
    (hvals : (i.evaluateScope environment functions scope).result
      ≠ .error .operandStackOverflow) :
    Yields (fun depth => Descent.evaluate (i.world environment functions) depth scope)
      ((i.evaluateScope environment functions scope).result,
        (i.evaluateScope environment functions scope).rest) := by
  have hlimits : ¬ Overflows ((start scope i.operators i.operands).run
      (i.world environment functions)).result := by
    rintro ⟨e, he, hover⟩
    simp only [evaluateScope, conclude, he, Except.map] at hops hvals
    cases e <;> first | exact hops rfl | exact hvals rfl | cases hover
  have hyields := Descent.yields_evaluate (i.world environment functions) scope i.operators
    i.operands
  rw [run_unlimited hlimits] at hyields
  exact hyields

/-- A call of a user function between operators of several strengths, with a
sign before it and an argument after which the text goes on. -/
theorem Interpreter.descent_of_mixed_strengths :
    let functions : UserFunctions := ⟨[{ name := "square", parameters := ["n"], body := "[n*n]" }]⟩
    let i : Interpreter := {}
    Yields (fun depth => Descent.evaluate (i.world {} functions) depth
        { rest := "1+-square(2+1)*2==-17, x".toList })
      (.ok { value := .int 1, terminator := .comma, nonconst := false }, " x".toList) := by
  intro functions i
  have h : (i.evaluateScope {} functions { rest := "1+-square(2+1)*2==-17, x".toList }).result
        = .ok { value := .int 1, terminator := .comma, nonconst := false }
      ∧ (i.evaluateScope {} functions { rest := "1+-square(2+1)*2==-17, x".toList }).rest
        = " x".toList :=
    evaluateScope_of_runFor 80 (by decide +kernel)
  rw [← h.1, ← h.2]
  apply evaluation_descends <;> rw [h.1] <;> exact nofun

end ReminderExpr
