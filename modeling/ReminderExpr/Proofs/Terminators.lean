/-
ReminderExpr.Proofs.Terminators — what ends an expression ends it wherever the
expression stands.

Let an evaluation come to a value at the end of its text. Where the same text
is followed by a comma, a closing parenthesis or a closing bracket, and by
anything after that, the evaluation takes the same steps up to the end, and
takes the character for the end: nothing of it has been read before, and nothing
after it is read (`Outcome.CarriesOn`). The steps inside the bodies of functions
are the same because a body is a text of its own.

* `carriesOn_end` — the outermost level, once the end of the text is held;
* `carriesOn_enter`, … — the parts of a step;
* `carriesOn_run` — runs, by induction on the rest of the run;
* `Interpreter.evaluate_before` — evaluations;
* `Interpreter.terminators_are_local` — these, and lists of expressions.
-/
import ReminderExpr.Proofs.Bodies
import ReminderExpr.Proofs.Halting
import ReminderExpr.Proofs.History
import ReminderExpr.Proofs.LongerTexts

namespace ReminderExpr

/-- The machine with another terminator held, and `q` left after it. -/
def Machine.endedBy (t : Terminator) (q : List Char) (m : Machine) : Machine :=
  { m.withRest q with phase := .holding (.terminator t) }

/-- The end of an evaluation whose expression is ended by `t` instead. -/
def Halt.endedBy (t : Terminator) (q : List Char) (h : Halt) : Halt where
  result := h.result.map fun (v, _) => (v, t)
  machine := h.machine.endedBy t q

/-- Where one outcome comes to a value at the end of its text, the other comes
to the same value, ended by `t` instead. -/
def Outcome.CarriesOn (world : World) (t : Terminator) (q : List Char) (o o' : Outcome) : Prop :=
  ∀ v, (o.finish world).result = .ok (v, .endOfText) →
    o'.finish world = (o.finish world).endedBy t q

/-- The machine with more text behind the one it reads. -/
def Machine.followedBy (more : List Char) (m : Machine) : Machine :=
  m.withRest (m.scope.rest ++ more)

namespace Machine

variable {world : World} {c : Char} {t : Terminator} {q : List Char} {m n : Machine}

/-! ## The end of the text -/

theorem carriesOn_fail (m : Machine) (e : EvalError) (o : Outcome) :
    (m.fail e).CarriesOn world t q o := nofun

theorem carriesOn_of_step (h : (m.step world).CarriesOn world t q (n.step world)) :
    (Outcome.running m).CarriesOn world t q (.running n) := by
  intro v hv
  show n.run world = (m.run world).endedBy t q
  rw [← Outcome.finish_step n, ← Outcome.finish_step m]
  refine h v ?_
  rw [Outcome.finish_step]
  exact hv

/-- Applying an operator looks at the stacks alone. -/
theorem applyTop_alike (world : World) (hops : n.operators = m.operators)
    (hvals : n.operands = m.operands) :
    (∃ e, m.applyTop world = m.fail e)
      ∨ ∃ operators operands, m.applyTop world = .running { m with operators, operands }
          ∧ n.applyTop world = .running { n with operators, operands } := by
  unfold applyTop
  rw [hops, hvals]
  split
  · exact .inl ⟨_, rfl⟩
  · split
    · exact .inl ⟨_, rfl⟩
    · split
      · exact .inl ⟨_, rfl⟩
      · exact .inr ⟨_, _, rfl, rfl⟩
  · split
    · exact .inl ⟨_, rfl⟩
    · split
      · exact .inl ⟨_, rfl⟩
      · split
        · exact .inl ⟨_, rfl⟩
        · exact .inr ⟨_, _, rfl, rfl⟩

/-- At the end of the text only the outermost level can be closed, and any
terminator closes it. -/
theorem carriesOn_closeLevel_end (hf : Frame.AreWithin m.frames) (v : Value) :
    (m.closeLevel world .endOfText v).CarriesOn world t q
      ((m.endedBy t q).closeLevel world t v) := by
  have hframes : (m.endedBy t q).frames = m.frames := rfl
  unfold closeLevel
  rw [hframes]
  cases hm : m.frames with
  | nil => exact fun _ _ => rfl
  | cons frame frames =>
    cases frame with
    | group base => exact carriesOn_fail m _ _
    | argument base name count =>
      dsimp only
      obtain hfull | hroom := m.deliver_cases world v
      · rw [hfull]
        exact carriesOn_fail m _ _
      · rw [hroom]
        exact carriesOn_fail _ _ _
    | body base caller =>
      rw [hm] at hf
      cases hf

/-- Once the end of the text is held, any terminator might be. -/
theorem carriesOn_end (hp : m.phase = .holding (.terminator .endOfText)) (hf : Frame.AreWithin m.frames) :
    (Outcome.running m).CarriesOn world t q (.running (m.endedBy t q)) := by
  induction m using (wellFounded_smaller world).induction with
  | h m ih =>
    have hstep : m.step world = m.takeHeld world (.terminator .endOfText) := by
      rw [step, hp]
    have hstep' : (m.endedBy t q).step world = (m.endedBy t q).takeHeld world (.terminator t) := rfl
    have hmust : (m.endedBy t q).mustApply (.terminator t)
        = m.mustApply (.terminator .endOfText) := rfl
    apply carriesOn_of_step
    rw [hstep, hstep', takeHeld, takeHeld, hmust]
    by_cases happly : m.mustApply (.terminator .endOfText) = true
    · rw [if_pos happly, if_pos happly]
      obtain ⟨e, hfail⟩ | ⟨operators, operands, hm, hn⟩ :=
        applyTop_alike world (m := m) (n := m.endedBy t q) rfl rfl
      · rw [hfail]
        exact carriesOn_fail m e _
      · have hsmaller : m.step world = .running { m with operators, operands } := by
          rw [hstep, takeHeld, if_pos happly, hm]
        rw [hm, hn]
        exact ih _ (smaller_of_step hsmaller) hp hf
    · have hvals : (m.endedBy t q).operands = m.operands := rfl
      have hbase : (m.endedBy t q).base = m.base := rfl
      rw [if_neg happly, if_neg happly]
      dsimp only [takeTerminator]
      rw [hvals, hbase]
      split
      · exact carriesOn_fail m _ _
      · split
        · exact carriesOn_fail m _ _
        · rename_i v operands _
          exact carriesOn_closeLevel_end (m := { m with operands }) hf v

/-- An operand is not found where nothing is left. -/
theorem carriesOn_of_nothing (hp : m.phase = .atom) (hrest : m.scope.rest = []) (o : Outcome) :
    (Outcome.running m).CarriesOn world t q o := by
  have hstep : m.step world = (m.withRest []).fail .unexpectedEol := by
    rw [step, hp]
    dsimp only [readThen]
    rw [hrest]
    rfl
  intro v hv
  rw [show (Outcome.running m).finish world = m.run world from rfl, run_of_halted hstep] at hv
  cases hv

/-! ## Before the end -/

/-- What is known of the machines that come after `first`. -/
def LaterCarryOn (world : World) (c : Char) (t : Terminator) (q : List Char) (first : Machine) :
    Prop :=
  ∀ n, first.Later world n → Frame.AreWithin n.frames →
    n.phase ≠ .holding (.terminator .endOfText) →
    (Outcome.running n).CarriesOn world t q (.running (n.followedBy (c :: q)))

section Steps

variable {first : Machine}

theorem carriesOn_deliver (ih : LaterCarryOn world c t q first) (hf : Frame.AreWithin n.frames)
    {v : Value} (hl : (first.step world).Leads world (n.deliver world v)) :
    (n.deliver world v).CarriesOn world t q ((n.followedBy (c :: q)).deliver world v) := by
  have hvals : (n.followedBy (c :: q)).operands = n.operands := rfl
  unfold deliver at hl ⊢
  rw [hvals]
  split
  · exact carriesOn_fail n _ _
  · rename_i hroom
    rw [if_neg hroom] at hl
    exact ih _ hl hf nofun

theorem carriesOn_settle (ih : LaterCarryOn world c t q first) (hf : Frame.AreWithin n.frames)
    {r : Result Value} (hl : (first.step world).Leads world (n.settle world r)) :
    (n.settle world r).CarriesOn world t q ((n.followedBy (c :: q)).settle world r) := by
  cases r with
  | error e => exact carriesOn_fail n e _
  | ok v => exact carriesOn_deliver ih hf hl

theorem carriesOn_pushOperator (ih : LaterCarryOn world c t q first)
    (hf : Frame.AreWithin n.frames) {op : PendingOp}
    (hl : (first.step world).Leads world (n.pushOperator world op .atom)) :
    (n.pushOperator world op .atom).CarriesOn world t q
      ((n.followedBy (c :: q)).pushOperator world op .atom) := by
  have hops : (n.followedBy (c :: q)).operators = n.operators := rfl
  unfold pushOperator at hl ⊢
  rw [hops]
  split
  · exact carriesOn_fail n _ _
  · rename_i hroom
    rw [if_neg hroom] at hl
    exact ih _ hl hf nofun

/-- A body does not see the text that its call stands in. -/
theorem carriesOn_body (ih : LaterCarryOn world c t q first) (hf : Frame.AreWithin n.frames)
    {f : UserFunction} {locals : Locals}
    (hl : (first.step world).Leads world (.running ((n.body f locals).inside n.returning))) :
    (Outcome.running ((n.body f locals).inside n.returning)).CarriesOn world t q
      (.running ((n.body f locals).inside (n.followedBy (c :: q)).returning)) := by
  have hreturned := leads_inside world n.returning (n.body f locals)
  have hreturned' := leads_inside world (n.followedBy (c :: q)).returning (n.body f locals)
  have hl' := hl.trans hreturned
  intro v
  rw [hreturned.finish_eq, hreturned'.finish_eq]
  refine (?_ : Outcome.CarriesOn world t q _ _) v
  unfold Halt.returned at hl' ⊢
  generalize (n.body f locals).run world = halt at hl' ⊢
  obtain ⟨result, machine⟩ := halt
  cases result with
  | error e => exact carriesOn_fail _ e _
  | ok ended =>
    exact carriesOn_deliver
      (n := { machine with base := n.base, scope := n.scope, frames := n.frames }) ih hf hl'

theorem carriesOn_enter (ih : LaterCarryOn world c t q first) (hf : Frame.AreWithin n.frames)
    {name : String} {count : Nat}
    (hl : (first.step world).Leads world (n.enter world name count)) :
    (n.enter world name count).CarriesOn world t q
      ((n.followedBy (c :: q)).enter world name count) := by
  have hcall : (n.followedBy (c :: q)).call world name count
      = ((n.call world name count).1, (n.call world name count).2.followedBy (c :: q)) := by
    have hvals : (n.followedBy (c :: q)).operands = n.operands := rfl
    unfold call
    rw [hvals]
    split
    · split
      · rfl
      · dsimp only
        split <;> rfl
    · split
      · rfl
      · split <;> rfl
  have hframes := (call_snd world n name count).2.1
  unfold enter at hl ⊢
  rw [hcall]
  generalize n.call world name count = called at hl hframes ⊢
  obtain ⟨r, n'⟩ := called
  replace hf : Frame.AreWithin n'.frames := by
    rw [hframes]
    exact hf
  cases r with
  | error e => exact carriesOn_fail n' e _
  | ok called =>
    cases called with
    | value v => exact carriesOn_deliver ih hf hl
    | body f locals => exact carriesOn_body ih hf hl

theorem carriesOn_takeAtom (hends : world.lexer.Ends c t) (ih : LaterCarryOn world c t q first)
    (hf : Frame.AreWithin n.frames) (hp : n.phase = .atom) {token : Token}
    (hl : (first.step world).Leads world (n.takeAtom world token)) :
    (n.takeAtom world token).CarriesOn world t q
      ((n.followedBy (c :: q)).takeAtom world token) := by
  cases token with
  | leftParen => exact ih _ hl hf nofun
  | operator spelling =>
    dsimp only [takeAtom] at hl ⊢
    split
    · rename_i hplus
      rw [if_pos hplus] at hl
      exact ih _ hl hf (hp ▸ nofun)
    · rename_i hplus
      rw [if_neg hplus] at hl
      split
      · rename_i op hop
        rw [hop] at hl
        exact carriesOn_pushOperator ih hf hl
      · exact carriesOn_fail n _ _
  | call name =>
    have hskipped := hends.skipBlanks_append n.scope.rest q
    cases hs : world.lexer.skipBlanks n.scope.rest with
    | nil =>
      -- Nothing is left for the first argument, whether or not one might be found behind.
      rw [takeAtom_call_open (by simp [hs]), hs]
      exact carriesOn_of_nothing rfl rfl _
    | cons d rest =>
      rw [hs] at hskipped
      by_cases hd : d = ')'
      · subst hd
        rw [takeAtom_call_closed hs] at hl ⊢
        rw [takeAtom_call_closed (m := n.followedBy (c :: q)) hskipped]
        exact carriesOn_enter (n := n.withRest rest) ih hf hl
      · have hopen : ∀ rest', world.lexer.skipBlanks n.scope.rest ≠ ')' :: rest' := by
          rintro rest' heq
          rw [hs] at heq
          exact hd (List.cons.inj heq).1
        have hopen' : ∀ rest',
            world.lexer.skipBlanks (n.followedBy (c :: q)).scope.rest ≠ ')' :: rest' := by
          rintro rest' heq
          exact hd (List.cons.inj (hskipped.symm.trans heq)).1
        rw [takeAtom_call_open hopen] at hl ⊢
        rw [takeAtom_call_open hopen']
        have hrest : world.lexer.skipBlanks (n.followedBy (c :: q)).scope.rest
            = world.lexer.skipBlanks n.scope.rest ++ c :: q := hends.skipBlanks_append _ q
        rw [hrest]
        exact ih _ hl hf nofun
  | str content => exact carriesOn_deliver ih hf hl
  | date content => exact carriesOn_settle ih hf hl
  | word text =>
    dsimp only [takeAtom, takeWord] at hl ⊢
    split
    · rename_i hnumeral
      rw [if_pos hnumeral] at hl
      exact carriesOn_settle ih hf hl
    · rename_i hname
      rw [if_neg hname] at hl
      exact carriesOn_settle (n := { n with
        nonconst := n.nonconst || (resolve world n.scope.locals text).2 }) ih hf hl
  | endOfText | comma | rightParen | closeBracket => exact carriesOn_fail n _ _

theorem carriesOn_takeOperator (ih : LaterCarryOn world c t q first)
    (hf : Frame.AreWithin n.frames) {token : Token} (htoken : token ≠ .endOfText)
    (hl : (first.step world).Leads world (n.takeOperator token)) :
    (n.takeOperator token).CarriesOn world t q ((n.followedBy (c :: q)).takeOperator token) := by
  cases token with
  | endOfText => exact absurd rfl htoken
  | comma | rightParen | closeBracket => exact ih _ hl hf nofun
  | operator spelling =>
    dsimp only [takeOperator, Token.terminator?] at hl ⊢
    cases hop : BinaryOp.ofSpelling? spelling with
    | none => exact carriesOn_fail n _ _
    | some op =>
      rw [hop] at hl
      exact ih _ hl hf nofun
  | leftParen | call name | str content | date content | word text =>
    exact carriesOn_fail n _ _

/-- The levels inside are closed alike, and the outermost one is not closed by
anything but the end of the text. -/
theorem carriesOn_closeLevel (ih : LaterCarryOn world c t q first)
    (hf : Frame.AreWithin n.frames) {terminator : Terminator} (hterminator : terminator ≠ .endOfText)
    {v : Value} (hl : (first.step world).Leads world (n.closeLevel world terminator v)) :
    (n.closeLevel world terminator v).CarriesOn world t q
      ((n.followedBy (c :: q)).closeLevel world terminator v) := by
  have hframes : (n.followedBy (c :: q)).frames = n.frames := rfl
  have hvals : (n.followedBy (c :: q)).operands = n.operands := rfl
  unfold closeLevel deliver at hl ⊢
  rw [hframes, hvals]
  cases hn : n.frames with
  | nil =>
    rintro w hw
    cases hw
    exact absurd rfl hterminator
  | cons frame frames =>
    rw [hn] at hf hl
    cases frame with
    | group base =>
      dsimp only at hl ⊢
      by_cases hright : terminator = .rightParen
      · rw [if_pos hright] at hl ⊢
        rw [if_pos hright]
        exact carriesOn_deliver (n := { n with frames, base }) ih hf hl
      · rw [if_neg hright]
        exact carriesOn_fail n _ _
    | argument base name count =>
      dsimp only at hl ⊢
      by_cases hfull : world.config.operandDepth.any (· ≤ n.operands.height) = true
      · rw [if_pos hfull, if_pos hfull]
        exact carriesOn_fail n _ _
      · rw [if_neg hfull] at hl
        rw [if_neg hfull, if_neg hfull]
        cases terminator with
        | comma => exact ih _ hl hf nofun
        | rightParen =>
          exact carriesOn_enter (n := { n with
            operands := n.operands.push v, phase := .operator, frames, base }) ih hf hl
        | endOfText | closeBracket => exact carriesOn_fail _ _ _
    | body base caller => cases hf

theorem carriesOn_takeHeld (ih : LaterCarryOn world c t q first) (hf : Frame.AreWithin n.frames)
    {held : Held} (hheld : held ≠ .terminator .endOfText) (hp : n.phase = .holding held)
    (hl : (first.step world).Leads world (n.takeHeld world held)) :
    (n.takeHeld world held).CarriesOn world t q
      ((n.followedBy (c :: q)).takeHeld world held) := by
  have hmust : (n.followedBy (c :: q)).mustApply held = n.mustApply held := rfl
  unfold takeHeld at hl ⊢
  rw [hmust]
  split
  · rename_i happly
    rw [if_pos happly] at hl
    obtain ⟨e, hfail⟩ | ⟨operators, operands, hn, hn'⟩ :=
      applyTop_alike world (m := n) (n := n.followedBy (c :: q)) rfl rfl
    · rw [hfail]
      exact carriesOn_fail n e _
    · rw [hn] at hl ⊢
      rw [hn']
      exact ih _ hl hf fun h => hheld (Phase.holding.inj (hp.symm.trans h))
  · rename_i happly
    rw [if_neg happly] at hl
    cases held with
    | binary op => exact carriesOn_pushOperator ih hf hl
    | terminator terminator =>
      have hvals : (n.followedBy (c :: q)).operands = n.operands := rfl
      have hbase : (n.followedBy (c :: q)).base = n.base := rfl
      dsimp only [takeTerminator] at hl ⊢
      rw [hvals, hbase]
      split
      · exact carriesOn_fail n _ _
      · rename_i hheight
        rw [if_neg hheight] at hl
        split
        · exact carriesOn_fail n _ _
        · rename_i v operands hpop
          rw [hpop] at hl
          exact carriesOn_closeLevel (n := { n with operands }) ih hf
            (fun h => hheld (congrArg Held.terminator h)) hl

end Steps

/-! ## Runs -/

/-- A run to the end of its text carries on where more text follows. -/
theorem carriesOn_run (hends : world.lexer.Ends c t) (m : Machine) (hf : Frame.AreWithin m.frames)
    (hp : m.phase ≠ .holding (.terminator .endOfText)) :
    (Outcome.running m).CarriesOn world t q (.running (m.followedBy (c :: q))) := by
  induction m using later_induction world with
  | h m ih =>
    have hlater : LaterCarryOn world c t q m := ih
    have hphase' : (m.followedBy (c :: q)).phase = m.phase := rfl
    apply carriesOn_of_step
    cases hphase : m.phase with
    | atom =>
      rw [hphase] at hphase'
      rcases hread : world.lexer.next m.scope.rest with ⟨e | token, rest⟩
      · rw [step_unreadable (by simp [hphase]) hread]
        exact carriesOn_fail _ _ _
      · have hstep := step_atom hphase hread
        by_cases htoken : token = .endOfText
        · subst htoken
          rw [hstep]
          exact carriesOn_fail _ _ _
        · rw [hstep, step_atom hphase' (hends.next_append hread htoken q)]
          exact carriesOn_takeAtom (n := m.withRest rest) hends hlater hf hphase (hstep ▸ .refl)
    | operator =>
      rw [hphase] at hphase'
      rcases hread : world.lexer.next m.scope.rest with ⟨e | token, rest⟩
      · rw [step_unreadable (by simp [hphase]) hread]
        exact carriesOn_fail _ _ _
      · have hstep := step_operator hphase hread
        by_cases htoken : token = .endOfText
        · subst htoken
          obtain ⟨token, hread', hterminator⟩ := hends.next_end hread q
          rw [hstep, takeOperator_terminator rfl, step_operator hphase' hread',
            takeOperator_terminator hterminator]
          exact carriesOn_end (m := { m.withRest rest with
            phase := .holding (.terminator .endOfText) }) rfl hf
        · rw [hstep, step_operator hphase' (hends.next_append hread htoken q)]
          exact carriesOn_takeOperator (n := m.withRest rest) hlater hf htoken (hstep ▸ .refl)
    | holding held =>
      have hstep : m.step world = m.takeHeld world held := by rw [step, hphase]
      have hstep' : (m.followedBy (c :: q)).step world
          = (m.followedBy (c :: q)).takeHeld world held := by rw [step, hphase', hphase]
      rw [hstep, hstep']
      exact carriesOn_takeHeld hlater hf (fun h => hp (hphase.trans (congrArg Phase.holding h)))
        hphase (hstep ▸ .refl)

end Machine

/-! ## Evaluations -/

/-- A run that comes to a value leaves both stacks as they were, and no levels. -/
theorem Machine.stacks_of_ok {world : World} {scope : Scope} {operators : Stack PendingOp}
    {operands : Stack Value} {v : Value} {t : Terminator}
    (h : ((start scope operators operands).run world).result = .ok (v, t)) :
    ((start scope operators operands).run world).machine.operators = operators
      ∧ ((start scope operators operands).run world).machine.operands = operands
      ∧ ((start scope operators operands).run world).machine.frames = [] := by
  have hfree : ¬ Overflows ((start scope operators operands).run world).result := by
    rintro ⟨e, he, -⟩
    cases h.symm.trans he
  have hstart : (start scope operators operands).Poised world.unlimited operators.entries
      operands.entries (start scope operators operands).phase.extra :=
    poised_start scope nofun nofun
  have hsound := sound_run hstart
  rw [run_unlimited hfree, Outcome.Sound, h] at hsound
  obtain ⟨last, -, hlast⟩ := exists_last_of_run world (start scope operators operands)
  exact ⟨Stack.ext hsound.2.1, Stack.ext hsound.2.2, (of_step_ok hlast h).2.2.1⟩

namespace Interpreter

variable {i : Interpreter} {environment : Environment} {functions : UserFunctions}
  {locals : Locals} {c : Char} {t : Terminator} {e : List Char} {found : Evaluation}

/-- An evaluation that comes to a value comes from such a run. -/
theorem evaluate_eq_ok (h : (i.evaluate environment functions locals e).result = .ok found) :
    ∃ m : Machine, (Machine.start { rest := e, locals } i.operators i.operands).run
        (i.world environment functions)
        = { result := .ok (found.value, found.terminator), machine := m }
      ∧ m.nonconst = found.nonconst ∧ m.operators = i.operators ∧ m.operands = i.operands
      ∧ m.frames = [] := by
  have hstacks := @Machine.stacks_of_ok (i.world environment functions) { rest := e, locals }
    i.operators i.operands
  unfold evaluate evaluateScope conclude at h
  dsimp only at h
  generalize (Machine.start { rest := e, locals } i.operators i.operands).run
    (i.world environment functions) = halt at h hstacks
  obtain ⟨result, m⟩ := halt
  cases result with
  | error e => cases h
  | ok ended =>
    cases h
    exact ⟨m, rfl, rfl, hstacks rfl⟩

/-- An expression that has a value has it as well before a character that ends
expressions, and what follows that character is left. -/
theorem evaluate_before (hends : (i.world environment functions).lexer.Ends c t)
    (hok : (i.evaluate environment functions locals e).result = .ok found)
    (hend : found.terminator = .endOfText) (q : List Char) :
    i.evaluate environment functions locals (e ++ c :: q)
      = { result := .ok { found with terminator := t }, rest := q,
          interpreter := i.raised found.nonconst } := by
  obtain ⟨m, hrun, hflag, hops, hvals, hframes⟩ := evaluate_eq_ok hok
  rw [hend] at hrun
  have hcarries := Machine.carriesOn_run (q := q) hends
    (Machine.start { rest := e, locals } i.operators i.operands) Frame.areWithin_nil nofun
    found.value (congrArg Halt.result hrun)
  have hlonger : (Machine.start { rest := e ++ c :: q, locals } i.operators i.operands).run
      (i.world environment functions)
        = { result := .ok (found.value, t), machine := m.endedBy t q } :=
    hcarries.trans (congrArg (Halt.endedBy t q) hrun)
  have hrest : (m.endedBy t q).outerRest = q := by
    rw [Machine.outerRest_eq, show (m.endedBy t q).frames = [] from hframes]
    rfl
  unfold evaluate evaluateScope conclude after
  rw [hlonger]
  dsimp only [Except.map]
  rw [hrest, show (m.endedBy t q).nonconst = found.nonconst from hflag,
    show (m.endedBy t q).operators = i.operators from hops,
    show (m.endedBy t q).operands = i.operands from hvals]
  rfl

/-- Expressions with commas between them are evaluated one after another, each
as if it were alone. -/
theorem evaluateAll_joined (hends : (i.world environment functions).lexer.Ends ',' .comma)
    {texts : List (List Char)} (hne : texts ≠ [])
    (h : ∀ e ∈ texts, ∃ found, (i.evaluate environment functions locals e).result = .ok found
      ∧ found.terminator = .endOfText) :
    (i.evaluateAll environment functions locals ([','].intercalate texts)).map
        (fun r => r.result.map fun found => (found.value, found.nonconst))
        = texts.map (fun e => (i.evaluate environment functions locals e).result.map
          fun found => (found.value, found.nonconst))
      ∧ (i.evaluateAll environment functions locals ([','].intercalate texts)).map
          (fun r => r.result.map fun found => found.terminator)
        = List.replicate (texts.length - 1) (.ok .comma) ++ [.ok .endOfText] := by
  induction texts with
  | nil => exact absurd rfl hne
  | cons e texts ih =>
    obtain ⟨found, hfound, hend⟩ := h e List.mem_cons_self
    cases texts with
    | nil =>
      have hall : i.evaluateAll environment functions locals ([','].intercalate [e])
          = [i.evaluate environment functions locals e] := by
        rw [List.intercalate_singleton, evaluateAll, hfound]
        exact dif_neg fun hmore => hmore.1 hend
      rw [hall]
      simp [hfound, Except.map, hend]
    | cons e' texts =>
      have hjoined : [','].intercalate (e :: e' :: texts)
          = e ++ ',' :: [','].intercalate (e' :: texts) := by
        rw [List.intercalate_cons_cons, List.append_assoc, List.singleton_append]
      obtain ⟨hvalues, hterminators⟩ := ih (List.cons_ne_nil e' texts)
        fun e he => h e (List.mem_cons_of_mem _ he)
      have hall : i.evaluateAll environment functions locals ([','].intercalate (e :: e' :: texts))
          = { result := .ok { found with terminator := .comma },
              rest := [','].intercalate (e' :: texts), interpreter := i.raised found.nonconst }
            :: (i.evaluateAll environment functions locals
              ([','].intercalate (e' :: texts))).map (·.raised found.nonconst) := by
        rw [hjoined, evaluateAll, evaluate_before hends hfound hend]
        dsimp only
        have hshorter : ([','].intercalate (e' :: texts)).length
            < (e ++ ',' :: [','].intercalate (e' :: texts)).length := by
          rw [List.length_append, List.length_cons]
          omega
        rw [dif_pos ⟨by decide, hshorter⟩, evaluateAll_raised]
      have hraised : ∀ r : Evaluated, (r.raised found.nonconst).result = r.result := fun _ => rfl
      simp only [hall, List.map_cons, List.map_map, Function.comp_def, hraised]
      rw [hvalues, hterminators, hfound]
      exact ⟨rfl, rfl⟩

/-- Terminators are local. An expression that has a value at the end of its
text has the same value, and depends on as much, before a comma, a closing
parenthesis or a closing bracket, which then is what ends it; whatever text
follows is left. The character must be neither the one that is skipped like a
blank nor the one that separates hours and minutes.

So the values of expressions with commas between them are those that they have
alone, one after another, and the last one is ended by the end of the text. -/
theorem terminators_are_local (i : Interpreter) (environment : Environment)
    (functions : UserFunctions) (locals : Locals) :
    (∀ e found, (i.evaluate environment functions locals e).result = .ok found →
        found.terminator = .endOfText →
        ∀ c t, Terminator.ofChar? c = some t → i.config.continuation ≠ some c →
          environment.host.separators.time ≠ c → ∀ q,
          (i.evaluate environment functions locals (e ++ c :: q)).result
              = .ok { found with terminator := t }
            ∧ (i.evaluate environment functions locals (e ++ c :: q)).rest = q)
      ∧ (i.config.continuation ≠ some ',' → environment.host.separators.time ≠ ',' →
          ∀ texts : List (List Char), texts ≠ [] →
          (∀ e ∈ texts, ∃ found, (i.evaluate environment functions locals e).result = .ok found
            ∧ found.terminator = .endOfText) →
          let results := i.evaluateAll environment functions locals ([','].intercalate texts)
          results.map (fun r => r.result.map fun found => (found.value, found.nonconst))
              = texts.map (fun e => (i.evaluate environment functions locals e).result.map
                fun found => (found.value, found.nonconst))
            ∧ results.map (fun r => r.result.map fun found => found.terminator)
              = List.replicate (texts.length - 1) (.ok .comma) ++ [.ok .endOfText]) := by
  constructor
  · intro e found hok hend c t hc hskipped htime q
    have hends : (i.world environment functions).lexer.Ends c t :=
      Lexer.ends_of_ne hc hskipped htime
    rw [evaluate_before hends hok hend q]
    exact ⟨rfl, rfl⟩
  · intro hskipped htime texts hne h
    have hends : (i.world environment functions).lexer.Ends ',' .comma :=
      Lexer.ends_of_ne rfl hskipped htime
    exact evaluateAll_joined hends hne h

/-- A call with blanks where its parenthesis might stand, and the body of a
function that has no end of its own, before a bracket and a quote; the same
expression between two others. -/
theorem call_before_bracket :
    let functions : UserFunctions :=
      { functions := [{ name := "half", parameters := ["n"], body := "[n / 2] ignored" }] }
    let locals : Locals := .ofList [("x", .int 9)]
    let evaluated := ({} : Interpreter).evaluate {} functions locals
    let texts := ["1 + 1".toList, "half(x * 2) - x ".toList, "\"a)\"".toList]
    (evaluated ("half(x * 2) - x ".toList ++ ']' :: "\" (".toList)).result
        = .ok { value := .int 0, terminator := .closeBracket, nonconst := false }
      ∧ (evaluated ("half(x * 2) - x ".toList ++ ']' :: "\" (".toList)).rest = "\" (".toList
      ∧ (({} : Interpreter).evaluateAll {} functions locals ([','].intercalate texts)).map
          (fun r => r.result.map fun found => (found.value, found.nonconst))
        = [.ok (.int 2, false), .ok (.int 0, false), .ok (.str "a)", false)] := by
  intro functions locals evaluated texts
  have hsum : (evaluated "1 + 1".toList).result
        = .ok { value := .int 2, terminator := .endOfText, nonconst := false }
      ∧ (evaluated "1 + 1".toList).rest = [] := evaluateScope_of_runFor 60 (by decide +kernel)
  have hcall : (evaluated "half(x * 2) - x ".toList).result
        = .ok { value := .int 0, terminator := .endOfText, nonconst := false }
      ∧ (evaluated "half(x * 2) - x ".toList).rest = [] :=
    evaluateScope_of_runFor 60 (by decide +kernel)
  have htext : (evaluated "\"a)\"".toList).result
        = .ok { value := .str "a)", terminator := .endOfText, nonconst := false }
      ∧ (evaluated "\"a)\"".toList).rest = [] := evaluateScope_of_runFor 60 (by decide +kernel)
  obtain ⟨hbefore, hlist⟩ := terminators_are_local {} {} functions locals
  obtain ⟨hresult, hrest⟩ := hbefore _ _ hcall.1 rfl ']' .closeBracket rfl (by decide) (by decide)
    "\" (".toList
  have hvalues := (hlist (by decide) (by decide) texts (List.cons_ne_nil _ _)
    (List.forall_mem_cons.2 ⟨⟨_, hsum.1, rfl⟩, List.forall_mem_cons.2 ⟨⟨_, hcall.1, rfl⟩,
      List.forall_mem_singleton.2 ⟨_, htext.1, rfl⟩⟩⟩)).1
  refine ⟨hresult, hrest, hvalues.trans ?_⟩
  show [(evaluated "1 + 1".toList).result.map _,
    (evaluated "half(x * 2) - x ".toList).result.map _,
    (evaluated "\"a)\"".toList).result.map _] = _
  rw [hsum.1, hcall.1, htext.1]
  rfl

end Interpreter

end ReminderExpr
