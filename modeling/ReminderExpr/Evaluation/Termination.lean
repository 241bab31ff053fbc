/-
ReminderExpr.Evaluation.Termination — every evaluation ends.

A character read costs one unit of potential, and a function entered costs
the whole text of its body; but no function is entered while its body is
under evaluation. So a scope in which `k` functions may still be entered is
worth the length of its text times a `k`-th power that outgrows every body.

* `Machine.potential` — the worth of all scopes, the current one and those
  that wait; a held token counts as a character.
* `Machine.Smaller` — the order in which steps descend: by potential, then
  from looking for an operator to holding it, then by the operators waiting.
* `Machine.smaller_of_step` — every step descends.
* `Machine.run` — steps until the evaluation ends.
* `Machine.run_eq_of_runFor` — what it ends with, given enough steps.
-/
import ReminderExpr.Evaluation.Machine

namespace ReminderExpr

/-! ## Worth of texts -/

/-- A length that no body reaches. -/
def World.bodyLimit (world : World) : Nat :=
  world.functions.functions.foldr (fun f limit => max (f.source.length + 2) limit) 2

/-- The functions that may still be entered. -/
def World.idle (world : World) (active : List String) : List UserFunction :=
  world.functions.functions.filter fun f => !active.contains f.key

/-- What a character of a text is worth. -/
def Scope.weight (world : World) (s : Scope) : Nat :=
  Nat.pow world.bodyLimit (world.idle s.active).length

/-- What a text is worth; its end counts as one character. -/
def Scope.potential (world : World) (s : Scope) : Nat := (s.rest.length + 1) * s.weight world

/-- What the text of a level that waits is worth. -/
def Frame.potential (world : World) : Frame → Nat
  | .body _ caller => caller.potential world
  | _ => 0

/-- What the texts of all levels that wait are worth. -/
def Frame.potentials (world : World) (frames : List Frame) : Nat :=
  frames.foldr (fun frame sum => frame.potential world + sum) 0

theorem Frame.potentials_cons (world : World) (frame : Frame) (frames : List Frame) :
    Frame.potentials world (frame :: frames)
      = frame.potential world + Frame.potentials world frames := rfl

/-- What a phase is worth: a held token counts as a character of its text. -/
def Phase.potential (weight : Nat) : Phase → Nat
  | .holding (.terminator .endOfText) => 0
  | .holding _ => weight
  | _ => 0

/-- How far a phase is from using the next token. -/
def Phase.rank : Phase → Nat
  | .operator => 1
  | _ => 0

namespace Machine

/-- What all that is left to read is worth. -/
def potential (world : World) (m : Machine) : Nat :=
  m.scope.potential world + m.phase.potential (m.scope.weight world)
    + Frame.potentials world m.frames

/-- The measure by which steps descend. -/
def measure (world : World) (m : Machine) : Nat × Nat × Nat :=
  (m.potential world, m.phase.rank, m.operators.height)

/-- The order in which steps descend. -/
def Smaller (world : World) (m m' : Machine) : Prop :=
  Prod.Lex (· < ·) (Prod.Lex (· < ·) (· < ·)) (m.measure world) (m'.measure world)

theorem wellFounded_smaller (world : World) : WellFounded (Smaller world) :=
  InvImage.wf (measure world)
    (Prod.lex Nat.lt_wfRel (Prod.lex Nat.lt_wfRel Nat.lt_wfRel)).wf

theorem smaller_of_potential {world : World} {m m' : Machine}
    (h : m.potential world < m'.potential world) : Smaller world m m' :=
  .left _ _ h

end Machine

/-! ## Bodies -/

theorem World.length_source_lt_bodyLimit {world : World} {f : UserFunction}
    (h : f ∈ world.functions.functions) : f.source.length + 2 ≤ world.bodyLimit := by
  unfold World.bodyLimit
  generalize world.functions.functions = functions at h ⊢
  induction functions with
  | nil => cases h
  | cons g gs ih =>
    simp only [List.foldr_cons]
    rcases List.mem_cons.1 h with rfl | h
    · omega
    · have := ih h
      omega

theorem World.two_le_bodyLimit (world : World) : 2 ≤ world.bodyLimit := by
  unfold World.bodyLimit
  induction world.functions.functions with
  | nil => exact Nat.le_refl 2
  | cons g gs ih => simp only [List.foldr_cons]; omega

/-- Entering a function leaves fewer that may be entered. -/
theorem World.idle_cons_lt {world : World} {active : List String} {f : UserFunction}
    (hf : f ∈ world.functions.functions) (ha : active.contains f.key = false) :
    (world.idle (f.key :: active)).length < (world.idle active).length := by
  have hsub : world.idle (f.key :: active)
      = (world.idle active).filter fun g => !(g.key == f.key) := by
    simp only [World.idle, List.filter_filter, List.contains_cons, Bool.not_or]
  rw [hsub, List.length_filter_lt_length_iff_exists]
  exact ⟨f, List.mem_filter.2 ⟨hf, by rw [ha]; rfl⟩, by simp⟩

theorem Scope.weight_pos (world : World) (s : Scope) : 0 < s.weight world :=
  Nat.pow_pos (Nat.lt_of_lt_of_le (by decide) world.two_le_bodyLimit)

theorem Scope.potential_pos (world : World) (s : Scope) : 0 < s.potential world :=
  Nat.mul_pos (Nat.succ_pos _) (s.weight_pos world)

/-- The body of a function that may be entered is worth less than a character
of the text that calls it. -/
theorem Scope.potential_bodyScope_lt {world : World} {s : Scope} {f : UserFunction}
    (locals : Locals) (hf : f ∈ world.functions.functions)
    (ha : s.active.contains f.key = false) :
    (Machine.bodyScope s.active f locals).potential world < s.weight world := by
  have hlt := World.idle_cons_lt hf ha
  have hlen := World.length_source_lt_bodyLimit hf
  have hpos : 0 < world.bodyLimit := Nat.lt_of_lt_of_le (by decide) world.two_le_bodyLimit
  calc (Machine.bodyScope s.active f locals).potential world
      = (f.source.length + 1) * world.bodyLimit ^ (world.idle (f.key :: s.active)).length := rfl
    _ < world.bodyLimit * world.bodyLimit ^ (world.idle (f.key :: s.active)).length :=
        Nat.mul_lt_mul_of_pos_right (by omega) (Nat.pow_pos hpos)
    _ = world.bodyLimit ^ ((world.idle (f.key :: s.active)).length + 1) := by
        rw [Nat.pow_succ, Nat.mul_comm]
    _ ≤ world.bodyLimit ^ (world.idle s.active).length :=
        Nat.pow_le_pow_right hpos hlt

/-! ## What the parts of a step do -/

namespace Machine

variable {world : World} {m m' : Machine}

theorem fail_ne_running {e : EvalError} : m.fail e ≠ .running m' := by
  simp [fail]

theorem of_pushOperator {op : PendingOp} {phase : Phase}
    (h : m.pushOperator world op phase = .running m') :
    m' = { m with operators := m.operators.push op, phase } := by
  unfold pushOperator at h
  split at h
  · exact absurd h fail_ne_running
  · exact (Outcome.running.inj h).symm

theorem of_deliver {v : Value} (h : m.deliver world v = .running m') :
    m' = { m with operands := m.operands.push v, phase := .operator } := by
  unfold deliver at h
  split at h
  · exact absurd h fail_ne_running
  · exact (Outcome.running.inj h).symm

theorem of_settle {r : Result Value} (h : m.settle world r = .running m') :
    ∃ v, m' = { m with operands := m.operands.push v, phase := .operator } := by
  cases r with
  | error e => exact absurd h fail_ne_running
  | ok v => exact ⟨v, of_deliver h⟩

/-- A call keeps the text, the levels and the phase. -/
theorem call_snd (world : World) (m : Machine) (name : String) (count : Nat) :
    (m.call world name count).2.scope = m.scope
      ∧ (m.call world name count).2.frames = m.frames
      ∧ (m.call world name count).2.phase = m.phase := by
  unfold call
  split
  · split
    · exact ⟨rfl, rfl, rfl⟩
    · dsimp only
      split <;> exact ⟨rfl, rfl, rfl⟩
  · split
    · exact ⟨rfl, rfl, rfl⟩
    · split <;> exact ⟨rfl, rfl, rfl⟩

/-- A call that comes to a body comes to that of a function of the table
which is not under evaluation. -/
theorem of_call_body {name : String} {count : Nat} {f : UserFunction} {locals : Locals}
    (h : (m.call world name count).1 = .ok (.body f locals)) :
    f ∈ world.functions.functions ∧ m.scope.active.contains f.key = false := by
  unfold call at h
  split at h
  · split at h
    · cases h
    · dsimp only at h
      split at h
      · cases h
      · rename_i b _ _ _ _ args _ _
        dsimp only at h
        cases hb : b.apply world.environment world.functions args <;>
          simp [hb, Functor.map, Except.map] at h
  · split at h
    · cases h
    · rename_i g hg
      split at h
      · cases h
      · rename_i args ops _
        dsimp only at h
        cases hb : bindCall m.scope.active g args with
        | error e => simp [hb, Functor.map, Except.map] at h
        | ok l =>
          simp only [hb, Functor.map, Except.map, Except.ok.injEq, Called.body.injEq] at h
          obtain ⟨rfl, -⟩ := h
          unfold bindCall at hb
          split at hb
          · cases hb
          · rename_i ha
            exact ⟨UserFunctions.mem_of_find?_eq_some hg, by simpa using ha⟩

/-- The potential of a machine that holds no token. -/
theorem potential_eq (h : m.phase.potential (m.scope.weight world) = 0) :
    m.potential world
      = m.scope.potential world + Frame.potentials world m.frames := by
  simp [potential, h]

/-- Entering a function costs less than a character of the calling text. -/
theorem potential_enter_lt {name : String} {count : Nat}
    (h : m.enter world name count = .running m') :
    m'.potential world < m.scope.potential world + m.scope.weight world
      + Frame.potentials world m.frames := by
  have hw := m.scope.weight_pos world
  have hc := call_snd world m name count
  have hb : ∀ {f locals}, (m.call world name count).1 = .ok (.body f locals) →
      f ∈ world.functions.functions ∧ m.scope.active.contains f.key = false :=
    of_call_body
  unfold enter at h
  generalize m.call world name count = called at h hc hb
  obtain ⟨r, m₁⟩ := called
  obtain ⟨hs, hf, -⟩ := hc
  simp only at hs hf hb
  cases r with
  | error e => exact absurd h fail_ne_running
  | ok c =>
    cases c with
    | value v =>
      rw [of_deliver h, potential_eq rfl]
      simp only [hs, hf]
      omega
    | body f locals =>
      obtain ⟨hmem, ha⟩ := hb rfl
      have hlt := Scope.potential_bodyScope_lt locals hmem ha
      have he := Outcome.running.inj h
      subst he
      rw [potential_eq rfl]
      simp only [hs, hf, Frame.potentials_cons, Frame.potential]
      omega

/-! ## Every step descends -/

/-- Reading a token that is not the end of a text pays for a character. -/
theorem potential_withRest (world : World) {rest : List Char}
    (h : rest.length < m.scope.rest.length) :
    (m.withRest rest).scope.potential world + m.scope.weight world
      ≤ m.scope.potential world := by
  have : (rest.length + 1 + 1) * m.scope.weight world
      ≤ (m.scope.rest.length + 1) * m.scope.weight world :=
    Nat.mul_le_mul_right _ (by omega)
  rw [Nat.add_mul (rest.length + 1) 1, Nat.one_mul] at this
  exact this

theorem potential_withRest_le (world : World) {rest : List Char}
    (h : rest.length ≤ m.scope.rest.length) :
    (m.withRest rest).scope.potential world ≤ m.scope.potential world :=
  Nat.mul_le_mul_right _ (Nat.succ_le_succ h)

/-- Using a token where an operand is wanted costs less than a character. -/
theorem potential_takeAtom_lt {t : Token} (hp : m.phase = .atom)
    (h : m.takeAtom world t = .running m') :
    m'.potential world < m.scope.potential world + m.scope.weight world
      + Frame.potentials world m.frames := by
  have hw := m.scope.weight_pos world
  have h0 : m.phase.potential (m.scope.weight world) = 0 := by rw [hp]; rfl
  have settled : ∀ {m₁ : Machine} {r : Result Value}, m₁.settle world r = .running m' →
      m₁.scope = m.scope → m₁.frames = m.frames →
      m'.potential world = m.scope.potential world
        + Frame.potentials world m.frames := by
    intro m₁ r h hs hf
    obtain ⟨v, rfl⟩ := of_settle h
    rw [potential_eq rfl]
    simp only [hs, hf]
  unfold takeAtom at h
  split at h
  · exact absurd h fail_ne_running
  · cases h
    rw [potential_eq rfl]
    simp only [Frame.potentials_cons, Frame.potential]
    omega
  · split at h
    · cases h
      rw [potential_eq h0]
      omega
    · split at h
      · rw [of_pushOperator h, potential_eq rfl]
        simp only
        omega
      · exact absurd h fail_ne_running
  · have hle := world.lexer.length_skipBlanks_le m.scope.rest
    split at h
    · rename_i rest hb
      rw [hb, List.length_cons] at hle
      have h1 := potential_withRest (m := m) world (show rest.length < _ by omega)
      have h2 := potential_enter_lt h
      have h3 : (m.withRest rest).scope.weight world = m.scope.weight world := rfl
      have h4 : (m.withRest rest).frames = m.frames := rfl
      rw [h3, h4] at h2
      omega
    · have h1 := potential_withRest_le (m := m) world hle
      cases h
      rw [potential_eq rfl]
      simp only [Frame.potentials_cons, Frame.potential]
      simp only [withRest] at h1 ⊢
      omega
  · rw [settled (r := .ok _) h rfl rfl]; omega
  · rw [settled h rfl rfl]; omega
  · unfold takeWord at h
    split at h
    · rw [settled h rfl rfl]; omega
    · dsimp only at h
      rw [settled h rfl rfl]; omega
  all_goals exact absurd h fail_ne_running

/-- Ending a level pays with the terminator, or with the text of the body
that it ends. -/
theorem potential_closeLevel_lt {t : Terminator} {v : Value}
    (hp : m.phase = .holding (.terminator t)) (h : m.closeLevel world t v = .running m') :
    m'.potential world < m.potential world := by
  have hw := m.scope.weight_pos world
  unfold closeLevel at h
  split at h
  · cases h
  · rename_i base frames hf
    split at h
    · rename_i ht
      rw [of_deliver h, potential_eq rfl]
      simp [potential, hp, hf, ht, Phase.potential, Frame.potentials_cons, Frame.potential]
      omega
    · exact absurd h fail_ne_running
  · rename_i base name count frames hf
    split at h
    · cases h
    · rename_i m₁ hd
      have hd := of_deliver hd
      split at h
      · cases h
        subst hd
        rw [potential_eq rfl]
        simp [potential, hp, hf, Phase.potential, Frame.potentials_cons, Frame.potential]
        omega
      · have h2 := potential_enter_lt h
        subst hd
        simp [potential, hp, hf, Phase.potential, Frame.potentials_cons, Frame.potential] at h2 ⊢
        omega
      all_goals exact absurd h fail_ne_running
  · rename_i base caller frames hf
    have hs := m.scope.potential_pos world
    rw [of_deliver h, potential_eq rfl]
    simp only [potential, hf, Frame.potentials_cons, Frame.potential]
    omega

/-- Applying an operator leaves one fewer waiting and all else to be read. -/
theorem of_applyTop (h : m.applyTop world = .running m') :
    m'.scope = m.scope ∧ m'.frames = m.frames ∧ m'.phase = m.phase
      ∧ m'.operators.height < m.operators.height := by
  have below : ∀ {op : PendingOp} {operators : Stack PendingOp},
      m.operators.pop? = some (op, operators) → operators.height < m.operators.height := by
    intro op operators hpop
    rw [Stack.pop?_eq_some_iff] at hpop
    rw [operators.height_eq, m.operators.height_eq, hpop]
    exact Nat.lt_succ_self _
  unfold applyTop at h
  split at h
  · exact absurd h fail_ne_running
  · rename_i hpop
    split at h
    · exact absurd h fail_ne_running
    · split at h
      · exact absurd h fail_ne_running
      · cases h
        exact ⟨rfl, rfl, rfl, below hpop⟩
  · rename_i hpop
    split at h
    · exact absurd h fail_ne_running
    · split at h
      · exact absurd h fail_ne_running
      · split at h
        · exact absurd h fail_ne_running
        · cases h
          exact ⟨rfl, rfl, rfl, below hpop⟩

/-- Using a token where an operand is wanted descends. -/
theorem smaller_of_readAtom (hp : m.phase = .atom)
    (h : m.readThen world (takeAtom world) = .running m') : Smaller world m' m := by
  have hw := m.scope.weight_pos world
  have h0 : m.phase.potential (m.scope.weight world) = 0 := by rw [hp]; rfl
  unfold readThen at h
  split at h
  · exact absurd h fail_ne_running
  · rename_i t rest hn
    by_cases ht : t = .endOfText
    · subst ht
      exact absurd h fail_ne_running
    · have hlt := world.lexer.length_next_lt m.scope.rest (by rw [hn]; simpa using ht)
      simp only [hn] at hlt
      have h1 := potential_withRest world hlt
      have h2 := potential_takeAtom_lt (m := m.withRest rest) hp h
      have h3 : (m.withRest rest).scope.weight world = m.scope.weight world := rfl
      have h4 : (m.withRest rest).frames = m.frames := rfl
      rw [h3, h4] at h2
      apply smaller_of_potential
      rw [potential_eq h0]
      omega

/-- A token after an operand is held, the end of the text as such. -/
theorem of_takeOperator {t : Token} (h : m.takeOperator t = .running m') :
    ∃ held, m' = { m with phase := .holding held }
      ∧ (t = .endOfText → held = .terminator .endOfText) := by
  unfold takeOperator at h
  split at h
  · rename_i terminator hterm
    cases h
    refine ⟨_, rfl, ?_⟩
    rintro rfl
    cases hterm
    rfl
  · split at h
    · split at h
      · cases h
        exact ⟨_, rfl, by simp⟩
      · exact absurd h fail_ne_running
    · exact absurd h fail_ne_running

/-- A held token is worth no more than the text that it has been read from. -/
theorem potential_holding_le {t : Token} {rest : List Char} {held : Held}
    (h0 : m.phase.potential (m.scope.weight world) = 0)
    (hn : world.lexer.next m.scope.rest = (.ok t, rest))
    (hend : t = .endOfText → held = .terminator .endOfText) :
    Machine.potential world { m.withRest rest with phase := .holding held }
      ≤ m.potential world := by
  rw [potential_eq (m := m) h0]
  by_cases ht : t = .endOfText
  · have hle := world.lexer.length_next_le m.scope.rest
    simp only [hn] at hle
    have h1 := potential_withRest_le world hle
    simp only [potential, hend ht, Phase.potential, withRest] at h1 ⊢
    omega
  · have hlt := world.lexer.length_next_lt m.scope.rest (by rw [hn]; simpa using ht)
    simp only [hn] at hlt
    have h1 := potential_withRest world hlt
    have h2 : (Phase.holding held).potential (m.scope.weight world)
        ≤ m.scope.weight world := by
      unfold Phase.potential
      split <;> omega
    have h3 : ({ m.withRest rest with phase := .holding held } : Machine).scope.weight world
        = m.scope.weight world := rfl
    simp only [potential, h3]
    simp only [withRest] at h1 ⊢
    omega

/-- Holding a token descends: if not by potential, then by the phase. -/
theorem smaller_of_readOperator (hp : m.phase = .operator)
    (h : m.readThen world takeOperator = .running m') : Smaller world m' m := by
  have h0 : m.phase.potential (m.scope.weight world) = 0 := by rw [hp]; rfl
  unfold readThen at h
  split at h
  · exact absurd h fail_ne_running
  · rename_i t rest hn
    obtain ⟨held, rfl, hend⟩ := of_takeOperator h
    rcases Nat.lt_or_eq_of_le (potential_holding_le h0 hn hend) with hlt | heq
    · exact smaller_of_potential hlt
    · unfold Smaller measure
      rw [heq, hp]
      exact .right _ (.left _ _ Nat.zero_lt_one)

/-- Using a held token descends: applying an operator by their number, and
everything else by potential. -/
theorem smaller_of_takeHeld {held : Held} (hp : m.phase = .holding held)
    (h : m.takeHeld world held = .running m') : Smaller world m' m := by
  have hw := m.scope.weight_pos world
  unfold takeHeld at h
  split at h
  · obtain ⟨hs, hf, hph, hlt⟩ := of_applyTop h
    have hpot : m'.potential world = m.potential world := by
      simp only [potential, hs, hf, hph]
    unfold Smaller measure
    rw [hpot, hph]
    exact .right _ (.right _ hlt)
  · split at h
    · rename_i t
      unfold takeTerminator at h
      split at h
      · exact absurd h fail_ne_running
      · split at h
        · exact absurd h fail_ne_running
        · rename_i v operands _
          exact smaller_of_potential
            (potential_closeLevel_lt (m := { m with operands }) hp h)
    · apply smaller_of_potential
      rw [of_pushOperator h, potential_eq rfl]
      simp only [potential, hp, Phase.potential]
      omega

/-- Every step descends. -/
theorem smaller_of_step (h : m.step world = .running m') : Smaller world m' m := by
  unfold step at h
  split at h
  · rename_i hp
    exact smaller_of_readAtom hp h
  · rename_i hp
    exact smaller_of_readOperator hp h
  · rename_i held hp
    exact smaller_of_takeHeld hp h

/-! ## Runs -/

/-- Steps until the evaluation ends. -/
def run (world : World) (m : Machine) : Halt :=
  match _h : m.step world with
  | .halted halt => halt
  | .running m' => run world m'
termination_by (wellFounded_smaller world).wrap m
decreasing_by exact smaller_of_step _h

theorem run_of_halted {halt : Halt} (h : m.step world = .halted halt) :
    m.run world = halt := by
  rw [run]
  split
  · rename_i halt' h'
    rw [h] at h'
    exact (Outcome.halted.inj h').symm
  · rename_i m' h'
    rw [h] at h'
    cases h'

theorem run_of_running (h : m.step world = .running m') : m.run world = m'.run world := by
  rw [run]
  split
  · rename_i halt' h'
    rw [h] at h'
    cases h'
  · rename_i m'' h'
    rw [h] at h'
    rw [Outcome.running.inj h']

/-- An evaluation that ends within a number of steps ends as its run does. -/
theorem run_eq_of_runFor {steps : Nat} {halt : Halt} (h : m.runFor world steps = some halt) :
    m.run world = halt := by
  induction steps generalizing m with
  | zero => cases h
  | succ steps ih =>
    unfold runFor at h
    split at h
    · rename_i halt' hstep
      rw [run_of_halted hstep]
      exact Option.some.inj h
    · rename_i m' hstep
      rw [run_of_running hstep]
      exact ih h

end Machine

end ReminderExpr
