/-
ReminderExpr.Proofs.SameTokens — a text counts by its tokens alone.

Two texts of the same tokens are read alike: token by token, and what is left
of the one consists of the same tokens as what is left of the other. So two
machines that differ in such texts — the text that is read, and those that the
callers of functions will go on with — stay so, step by step, and come to the
same end (`Machine.ReadsAlike`).

* `SameTokens.next`, `SameTokens.closes` — reading;
* `readsAlike_enter`, … — the parts of a step;
* `readsAlike_step`, `readsAlike_run` — steps and runs;
* `Interpreter.texts_have_normal_forms` — the tokens of a text written again.
-/
import ReminderExpr.Proofs.NormalForms
import ReminderExpr.Interpreter

namespace ReminderExpr

/-! ## Reading -/

/-- Two texts that are equal, or consist of the same tokens. -/
def Lexer.SameTokens (lexer : Lexer) (cs cs' : List Char) : Prop :=
  cs = cs' ∨ ∃ ts, lexer.tokens cs = .ok ts ∧ lexer.tokens cs' = .ok ts

namespace Lexer.SameTokens

variable {lexer : Lexer} {cs cs' : List Char} {rest : List Char}

/-- The same is read from both texts, and the rests consist of the same tokens. -/
theorem next (h : lexer.SameTokens cs cs') :
    (lexer.next cs').1 = (lexer.next cs).1
      ∧ lexer.SameTokens (lexer.next cs).2 (lexer.next cs').2 := by
  obtain rfl | ⟨ts, hts, hts'⟩ := h
  · exact ⟨rfl, .inl rfl⟩
  · obtain ⟨rfl, hnext⟩ | ⟨t, ts, rest, rfl, -, hnext, hrest⟩ := next_of_tokens hts
    · obtain ⟨-, hnext'⟩ | ⟨_, _, _, ⟨⟩, -⟩ := next_of_tokens hts'
      rw [hnext, hnext']
      exact ⟨rfl, .inl rfl⟩
    · obtain ⟨⟨⟩, -⟩ | ⟨_, _, rest', ⟨⟩, -, hnext', hrest'⟩ := next_of_tokens hts'
      rw [hnext, hnext']
      exact ⟨rfl, .inr ⟨ts, hrest, hrest'⟩⟩

/-- If the one text starts with a closing parenthesis, blanks apart, so does the
other. -/
theorem closes (h : lexer.SameTokens cs cs') (hcloses : lexer.skipBlanks cs = ')' :: rest) :
    ∃ rest', lexer.skipBlanks cs' = ')' :: rest' ∧ lexer.SameTokens rest rest' := by
  have hnext : lexer.next cs = (.ok .rightParen, rest) := by
    rw [Lexer.next, hcloses]
    rfl
  obtain ⟨hread, hrest⟩ := h.next
  rw [hnext] at hread hrest
  generalize hnext' : lexer.next cs' = reading at hread hrest
  obtain ⟨r, rest'⟩ := reading
  cases hread
  obtain ⟨c, hc, hskipped⟩ := skipBlanks_of_next hnext' rfl (by simp)
  cases hc
  exact ⟨_, hskipped, hrest⟩

theorem symm (h : lexer.SameTokens cs cs') : lexer.SameTokens cs' cs := by
  obtain rfl | ⟨ts, hts, hts'⟩ := h
  · exact .inl rfl
  · exact .inr ⟨ts, hts', hts⟩

theorem skipBlanks (h : lexer.SameTokens cs cs') :
    lexer.SameTokens (lexer.skipBlanks cs) (lexer.skipBlanks cs') := by
  have hskipped : ∀ {cs ts}, lexer.tokens cs = .ok ts →
      lexer.tokens (lexer.skipBlanks cs) = .ok ts := by
    intro cs ts hts
    obtain ⟨hscans, hend⟩ := scans_of_tokens hts
    exact tokens_of_scans hscans.skipBlanks hend
  obtain rfl | ⟨ts, hts, hts'⟩ := h
  · exact .inl rfl
  · exact .inr ⟨ts, hskipped hts, hskipped hts'⟩

end Lexer.SameTokens

/-! ## Machines -/

/-- Scopes that differ in texts of the same tokens. -/
inductive Scope.ReadsAlike (lexer : Lexer) (s : Scope) : Scope → Prop
  | intro {rest : List Char} (h : lexer.SameTokens s.rest rest) : ReadsAlike lexer s { s with rest }

/-- Levels whose callers go on with texts of the same tokens. -/
inductive Frame.ReadsAlike (lexer : Lexer) : Frame → Frame → Prop
  | group (base : Heights) : ReadsAlike lexer (.group base) (.group base)
  | argument (base : Heights) (name : String) (count : Nat) :
      ReadsAlike lexer (.argument base name count) (.argument base name count)
  | body (base : Heights) {caller caller' : Scope} (h : caller.ReadsAlike lexer caller') :
      ReadsAlike lexer (.body base caller) (.body base caller')

/-- Machines that differ in texts of the same tokens. -/
inductive Machine.ReadsAlike (lexer : Lexer) (m : Machine) : Machine → Prop
  | intro {scope : Scope} {frames : List Frame} (hscope : m.scope.ReadsAlike lexer scope)
      (hframes : List.Forall₂ (Frame.ReadsAlike lexer) m.frames frames) :
      ReadsAlike lexer m { m with scope, frames }

/-- Outcomes that go on alike, or have ended with the same result. -/
inductive Outcome.ReadsAlike (lexer : Lexer) : Outcome → Outcome → Prop
  | running {m m' : Machine} (h : m.ReadsAlike lexer m') :
      ReadsAlike lexer (.running m) (.running m')
  | halted (result : Result (Value × Terminator)) {m m' : Machine} (h : m.ReadsAlike lexer m') :
      ReadsAlike lexer (.halted ⟨result, m⟩) (.halted ⟨result, m'⟩)

namespace Machine

variable {world : World} {lexer : Lexer} {m m' : Machine}

theorem ReadsAlike.rest (h : m.ReadsAlike lexer m') :
    lexer.SameTokens m.scope.rest m'.scope.rest := by
  obtain ⟨⟨hrest⟩, -⟩ := h
  exact hrest

theorem ReadsAlike.base (h : m.ReadsAlike lexer m') : m'.base = m.base := by
  obtain ⟨-, -⟩ := h
  rfl

theorem ReadsAlike.stacks (h : m.ReadsAlike lexer m') :
    m'.operators = m.operators ∧ m'.operands = m.operands := by
  obtain ⟨-, -⟩ := h
  exact ⟨rfl, rfl⟩

theorem ReadsAlike.frames (h : m.ReadsAlike lexer m') :
    List.Forall₂ (Frame.ReadsAlike lexer) m.frames m'.frames := by
  obtain ⟨-, hframes⟩ := h
  exact hframes

theorem ReadsAlike.withRest (h : m.ReadsAlike lexer m') {rest rest' : List Char}
    (hrest : lexer.SameTokens rest rest') :
    (m.withRest rest).ReadsAlike lexer (m'.withRest rest') := by
  obtain ⟨⟨-⟩, hframes⟩ := h
  exact ⟨.intro hrest, hframes⟩

theorem ReadsAlike.withStacks (h : m.ReadsAlike lexer m') (operators : Stack PendingOp)
    (operands : Stack Value) :
    { m with operators, operands }.ReadsAlike lexer { m' with operators, operands } := by
  obtain ⟨hscope, hframes⟩ := h
  exact ⟨hscope, hframes⟩

theorem ReadsAlike.atLevel (h : m.ReadsAlike lexer m') {frames frames' : List Frame}
    (hframes : List.Forall₂ (Frame.ReadsAlike lexer) frames frames') (base : Heights) :
    { m with frames, base }.ReadsAlike lexer { m' with frames := frames', base } := by
  obtain ⟨hscope, -⟩ := h
  exact ⟨hscope, hframes⟩

/-! ## The parts of a step -/

theorem readsAlike_fail (h : m.ReadsAlike lexer m') (e : EvalError) :
    (m.fail e).ReadsAlike lexer (m'.fail e) :=
  .halted _ h

theorem readsAlike_deliver (h : m.ReadsAlike lexer m') (v : Value) :
    (m.deliver world v).ReadsAlike lexer (m'.deliver world v) := by
  obtain ⟨hscope, hframes⟩ := h
  unfold deliver
  split
  · exact .halted _ ⟨hscope, hframes⟩
  · exact .running ⟨hscope, hframes⟩

theorem readsAlike_settle (h : m.ReadsAlike lexer m') (r : Result Value) :
    (m.settle world r).ReadsAlike lexer (m'.settle world r) := by
  cases r with
  | error e => exact readsAlike_fail h e
  | ok v => exact readsAlike_deliver h v

theorem readsAlike_pushOperator (h : m.ReadsAlike lexer m') (op : PendingOp) (phase : Phase) :
    (m.pushOperator world op phase).ReadsAlike lexer (m'.pushOperator world op phase) := by
  obtain ⟨hscope, hframes⟩ := h
  unfold pushOperator
  split
  · exact .halted _ ⟨hscope, hframes⟩
  · exact .running ⟨hscope, hframes⟩

theorem readsAlike_openLevel (h : m.ReadsAlike lexer m') {frame frame' : Frame}
    (hframe : frame.ReadsAlike lexer frame') :
    (m.openLevel frame).ReadsAlike lexer (m'.openLevel frame') := by
  obtain ⟨hscope, hframes⟩ := h
  exact .running ⟨hscope, .cons hframe hframes⟩

/-- A call looks at the stacks, and at the functions under evaluation. -/
theorem readsAlike_call (world : World) (h : m.ReadsAlike lexer m') (name : String) (count : Nat) :
    (m'.call world name count).1 = (m.call world name count).1
      ∧ (m.call world name count).2.ReadsAlike lexer (m'.call world name count).2 := by
  obtain ⟨⟨hrest⟩, hframes⟩ := h
  unfold call
  dsimp only
  split
  · split
    · exact ⟨rfl, .intro hrest, hframes⟩
    · split <;> exact ⟨rfl, .intro hrest, hframes⟩
  · split
    · exact ⟨rfl, .intro hrest, hframes⟩
    · split <;> exact ⟨rfl, .intro hrest, hframes⟩

/-- The body of a function is the same text wherever the call stands. -/
theorem readsAlike_enter (h : m.ReadsAlike lexer m') (name : String) (count : Nat) :
    (m.enter world name count).ReadsAlike lexer (m'.enter world name count) := by
  obtain ⟨hcalled, halike⟩ := readsAlike_call world h name count
  unfold enter
  generalize m.call world name count = called at hcalled halike ⊢
  generalize m'.call world name count = called' at hcalled halike ⊢
  obtain ⟨r, n⟩ := called
  obtain ⟨r', n'⟩ := called'
  cases hcalled
  cases r with
  | error e => exact readsAlike_fail halike e
  | ok called =>
    cases called with
    | value v => exact readsAlike_deliver halike v
    | body f locals =>
      obtain ⟨⟨hrest⟩, hframes⟩ := halike
      exact .running ⟨.intro (.inl rfl), .cons (.body _ (.intro hrest)) hframes⟩

theorem readsAlike_takeCall (h : m.ReadsAlike world.lexer m') (name : String) :
    (m.takeAtom world (.call name)).ReadsAlike world.lexer (m'.takeAtom world (.call name)) := by
  have hrest : world.lexer.SameTokens m.scope.rest m'.scope.rest := h.rest
  by_cases hcloses : ∃ after, world.lexer.skipBlanks m.scope.rest = ')' :: after
  · obtain ⟨after, hcloses⟩ := hcloses
    obtain ⟨after', hcloses', hafter⟩ := hrest.closes hcloses
    rw [takeAtom_call_closed hcloses, takeAtom_call_closed hcloses']
    exact readsAlike_enter (h.withRest hafter) name 0
  · have hopen : ∀ after', world.lexer.skipBlanks m'.scope.rest ≠ ')' :: after' := by
      intro after' hcloses'
      obtain ⟨after, hafter, -⟩ := hrest.symm.closes hcloses'
      exact hcloses ⟨after, hafter⟩
    rw [takeAtom_call_open (not_exists.1 hcloses), takeAtom_call_open hopen, h.base]
    exact readsAlike_openLevel (h.withRest hrest.skipBlanks) (.argument m.base name 0)

theorem readsAlike_takeWord (h : m.ReadsAlike lexer m') (text : String) :
    (m.takeWord world text).ReadsAlike lexer (m'.takeWord world text) := by
  obtain ⟨⟨hrest⟩, hframes⟩ := h
  unfold takeWord
  split
  · exact readsAlike_settle ⟨.intro hrest, hframes⟩ _
  · exact readsAlike_settle (m := { m with
      nonconst := m.nonconst || (resolve world m.scope.locals text).2 })
      ⟨.intro hrest, hframes⟩ _

theorem readsAlike_takeAtom (h : m.ReadsAlike world.lexer m') (t : Token) :
    (m.takeAtom world t).ReadsAlike world.lexer (m'.takeAtom world t) := by
  cases t with
  | leftParen =>
    dsimp only [takeAtom]
    rw [h.base]
    exact readsAlike_openLevel h (.group m.base)
  | operator spelling =>
    dsimp only [takeAtom]
    split
    · exact .running h
    · split
      · exact readsAlike_pushOperator h _ _
      · exact readsAlike_fail h _
  | call name => exact readsAlike_takeCall h name
  | str content => exact readsAlike_deliver h _
  | date content => exact readsAlike_settle h _
  | word text => exact readsAlike_takeWord h text
  | endOfText | comma | rightParen | closeBracket => exact readsAlike_fail h _

theorem readsAlike_takeOperator (h : m.ReadsAlike lexer m') (t : Token) :
    (m.takeOperator t).ReadsAlike lexer (m'.takeOperator t) := by
  have hheld : ∀ held, (Outcome.running { m with phase := .holding held }).ReadsAlike lexer
      (.running { m' with phase := .holding held }) := by
    intro held
    obtain ⟨hscope, hframes⟩ := h
    exact .running ⟨hscope, hframes⟩
  unfold takeOperator
  split
  · exact hheld _
  · split
    · split
      · exact hheld _
      · exact readsAlike_fail h _
    · exact readsAlike_fail h _

theorem readsAlike_applyTop (h : m.ReadsAlike lexer m') :
    (m.applyTop world).ReadsAlike lexer (m'.applyTop world) := by
  obtain ⟨hops, hvals⟩ := h.stacks
  unfold applyTop
  rw [hops, hvals]
  split
  · exact readsAlike_fail h _
  · split
    · exact readsAlike_fail h _
    · split
      · exact readsAlike_fail h _
      · exact .running (h.withStacks _ _)
  · split
    · exact readsAlike_fail h _
    · split
      · exact readsAlike_fail h _
      · split
        · exact readsAlike_fail h _
        · exact .running (h.withStacks _ _)

/-- What waits outside is resumed alike: a caller, where its own text goes on. -/
theorem readsAlike_closeLevel (h : m.ReadsAlike lexer m') (t : Terminator) (v : Value) :
    (m.closeLevel world t v).ReadsAlike lexer (m'.closeLevel world t v) := by
  have hframes := h.frames
  unfold closeLevel
  generalize m.frames = frames at hframes ⊢
  generalize m'.frames = frames' at hframes ⊢
  cases hframes with
  | nil => exact .halted _ h
  | @cons _ _ frames frames' hframe hframes =>
    cases hframe with
    | group base =>
      dsimp only
      split
      · exact readsAlike_deliver (h.atLevel hframes base) v
      · exact readsAlike_fail h _
    | argument base name count =>
      have hdelivered : (m.deliver world v).ReadsAlike lexer (m'.deliver world v) :=
        readsAlike_deliver h v
      dsimp only
      generalize m.deliver world v = o at hdelivered ⊢
      generalize m'.deliver world v = o' at hdelivered ⊢
      cases hdelivered with
      | halted result h => exact .halted result h
      | @running n n' h =>
        cases t with
        | comma =>
          obtain ⟨hscope, -⟩ := h
          exact readsAlike_openLevel (m := { n with frames }) ⟨hscope, hframes⟩
            (.argument base name (count + 1))
        | rightParen => exact readsAlike_enter (h.atLevel hframes base) name (count + 1)
        | endOfText | closeBracket => exact readsAlike_fail h _
    | body base hcaller =>
      obtain ⟨-, -⟩ := h
      exact readsAlike_deliver (m := { m with frames := _, base, scope := _ }) ⟨hcaller, hframes⟩ v

theorem readsAlike_takeTerminator (h : m.ReadsAlike lexer m') (t : Terminator) :
    (m.takeTerminator world t).ReadsAlike lexer (m'.takeTerminator world t) := by
  obtain ⟨hscope, hframes⟩ := h
  unfold takeTerminator
  dsimp only
  split
  · exact .halted _ ⟨hscope, hframes⟩
  · split
    · exact .halted _ ⟨hscope, hframes⟩
    · rename_i v operands _
      exact readsAlike_closeLevel (m := { m with operands }) ⟨hscope, hframes⟩ t v

theorem readsAlike_takeHeld (h : m.ReadsAlike lexer m') (held : Held) :
    (m.takeHeld world held).ReadsAlike lexer (m'.takeHeld world held) := by
  have hmust : m'.mustApply held = m.mustApply held := by
    obtain ⟨-, -⟩ := h
    rfl
  unfold takeHeld
  rw [hmust]
  split
  · exact readsAlike_applyTop h
  · cases held with
    | binary op => exact readsAlike_pushOperator h _ _
    | terminator t => exact readsAlike_takeTerminator h t

/-- The same token is read, and used alike if it is used. -/
theorem readsAlike_readThen (h : m.ReadsAlike world.lexer m') {use : Machine → Token → Outcome}
    (huse : ∀ {n n' : Machine}, n.ReadsAlike world.lexer n' →
      ∀ t, (use n t).ReadsAlike world.lexer (use n' t)) :
    (m.readThen world use).ReadsAlike world.lexer (m'.readThen world use) := by
  obtain ⟨hread, hleft⟩ := h.rest.next
  unfold readThen
  generalize world.lexer.next m.scope.rest = reading at hread hleft ⊢
  generalize world.lexer.next m'.scope.rest = reading' at hread hleft ⊢
  obtain ⟨r, rest⟩ := reading
  obtain ⟨r', rest'⟩ := reading'
  cases hread
  cases r with
  | error e => exact readsAlike_fail (h.withRest hleft) _
  | ok t => exact huse (h.withRest hleft) t

/-! ## Steps and runs -/

theorem readsAlike_step (h : m.ReadsAlike world.lexer m') :
    (m.step world).ReadsAlike world.lexer (m'.step world) := by
  have hphase : m'.phase = m.phase := by
    obtain ⟨-, -⟩ := h
    rfl
  unfold step
  rw [hphase]
  split
  · exact readsAlike_readThen h readsAlike_takeAtom
  · exact readsAlike_readThen h readsAlike_takeOperator
  · exact readsAlike_takeHeld h _

/-- Machines that differ in texts of the same tokens come to the same end. -/
theorem readsAlike_run (h : m.ReadsAlike world.lexer m') :
    (Outcome.halted (m.run world)).ReadsAlike world.lexer (.halted (m'.run world)) := by
  induction m using (wellFounded_smaller world).induction generalizing m' with
  | h m ih =>
    have hstep := readsAlike_step h
    generalize hm : m.step world = o at hstep
    generalize hm' : m'.step world = o' at hstep
    cases hstep with
    | halted result halike =>
      rw [run_of_halted hm, run_of_halted hm']
      exact .halted result halike
    | running halike =>
      rw [run_of_running hm, run_of_running hm']
      exact ih _ (smaller_of_step hm) halike

end Machine

/-! ## Evaluations -/

namespace Interpreter

/-- Texts of the same tokens have the same value, or none for the same reason. -/
theorem evaluate_sameTokens {i : Interpreter} {environment : Environment}
    {functions : UserFunctions} {text text' : List Char}
    (h : (i.world environment functions).lexer.SameTokens text text') (locals : Locals) :
    (i.evaluate environment functions locals text').result
      = (i.evaluate environment functions locals text).result := by
  have hstart : (Machine.start { rest := text, locals } i.operators i.operands).ReadsAlike
      (i.world environment functions).lexer
      (Machine.start { rest := text', locals } i.operators i.operands) := ⟨.intro h, .nil⟩
  have hrun := Machine.readsAlike_run hstart
  unfold evaluate evaluateScope conclude
  generalize (Machine.start { rest := text, locals } i.operators i.operands).run
    (i.world environment functions) = halt at hrun ⊢
  generalize (Machine.start { rest := text', locals } i.operators i.operands).run
    (i.world environment functions) = halt' at hrun ⊢
  cases hrun with
  | halted result halike =>
    obtain ⟨-, -⟩ := halike
    rfl

/-- Texts have normal forms. With `:` or `.` between hours and minutes, and any
character or none skipped like a blank, the tokens of a text can be written with
one blank between them, and are read again; so are they with more blanks after
each of these. Hence the text comes to the same value in all these forms, ended by
the same and dependent on as much, or fails for the same reason. -/
theorem texts_have_normal_forms (lexer : Lexer)
    (htime : lexer.timeSeparator = ':' ∨ lexer.timeSeparator = '.') {text : List Char}
    {ts : List Token} (h : lexer.tokens text = .ok ts) :
    lexer.tokens (written ts) = .ok ts
      ∧ (∀ text', lexer.Spread ts text' → lexer.tokens text' = .ok ts)
      ∧ ∀ (i : Interpreter) (environment : Environment) (functions : UserFunctions)
          (locals : Locals), (i.world environment functions).lexer = lexer →
          (i.evaluate environment functions locals (written ts)).result
              = (i.evaluate environment functions locals text).result
            ∧ ∀ text', lexer.Spread ts text' →
              (i.evaluate environment functions locals text').result
                = (i.evaluate environment functions locals text).result := by
  have hspread : ∀ text', lexer.Spread ts text' → lexer.tokens text' = .ok ts :=
    fun text' => Lexer.tokens_of_spread (Lexer.plain_of_timeSeparator htime) h
  have hwritten := hspread _ (lexer.spread_written ts)
  refine ⟨hwritten, hspread, ?_⟩
  rintro i environment functions locals rfl
  exact ⟨evaluate_sameTokens (.inr ⟨ts, h, hwritten⟩) locals, fun text' htext' =>
    evaluate_sameTokens (.inr ⟨ts, h, hspread text' htext'⟩) locals⟩

/-- With `-` skipped like a blank, it still stands in strings and dates. -/
theorem minus_between_tokens :
    let lexer : Lexer := { continuation := some '-' }
    let i : Interpreter := { config := { continuation := some '-' } }
    let text := "strlen -( \"say \\\"hi\\\" \\\\-\" )+max(1-,2)>=year('2024-01-31')".toList
    let ts : List Token := [.call "strlen", .str "say \"hi\" \\-", .rightParen, .operator "+",
      .call "max", .word "1", .comma, .word "2", .rightParen, .operator ">=", .call "year",
      .date "2024-01-31", .rightParen]
    let text' := [' ', '-', '\t'].intercalate (ts.map Token.spelled)
    lexer.tokens text = .ok ts
      ∧ written ts
        = "strlen( \"say \\\"hi\\\" \\\\-\" ) + max( 1 , 2 ) >= year( '2024-01-31' )".toList
      ∧ lexer.tokens text' = .ok ts
      ∧ (i.evaluate {} {} {} text').result
        = .ok { value := .int 0, terminator := .endOfText, nonconst := false } := by
  intro lexer i text ts text'
  have htokens : lexer.tokens text = .ok ts := by
    refine Lexer.tokens_of_scans ?_ (by decide)
    exact .cons rfl (.cons rfl (.cons rfl (.cons rfl (.cons rfl (.cons rfl (.cons rfl (.cons rfl
      (.cons rfl (.cons rfl (.cons rfl (.cons rfl (.cons rfl (.nil rfl)))))))))))))
  have hresult : (i.evaluate {} {} {} text).result
        = .ok { value := .int 0, terminator := .endOfText, nonconst := false }
      ∧ (i.evaluate {} {} {} text).rest = [] := evaluateScope_of_runFor 60 (by decide +kernel)
  have hspread : lexer.Spread ts text' := by
    refine Lexer.spread_intercalate (List.forall_mem_cons.2 ⟨rfl, ?_⟩) ts
    exact List.forall_mem_singleton.2 rfl
  obtain ⟨-, hread, hevaluated⟩ := texts_have_normal_forms lexer (.inl rfl) htokens
  exact ⟨htokens, by decide, hread text' hspread,
    ((hevaluated i {} {} {} rfl).2 text' hspread).trans hresult.1⟩

end Interpreter

end ReminderExpr
