/-
ReminderExpr.Proofs.Levels — what a step of an evaluation does to its levels.

A step reads on in the current text, enters the body of a function or leaves
one; `LevelChange` lists the three, and `levelChange_of_step` shows that there
are no others. Everything about the order of levels is derived from it:

* `callers` — the scopes whose calls wait, one for every body under
  evaluation;
* `outerRest_le_of_step` — no step lengthens the text left of the outermost
  scope;
* `suffix_of_append` — closing levels of a text leaves the body of that text open.
-/
import Mathlib.Logic.Relation
import ReminderExpr.Evaluation.Termination

namespace ReminderExpr

/-- The scope that waits for the value of a body. -/
def Frame.caller? : Frame → Option Scope
  | .body _ caller => some caller
  | _ => none

/-- Whether levels belong to the text in which they were opened. -/
def Frame.AreWithin (frames : List Frame) : Prop := frames.filterMap Frame.caller? = []

theorem Frame.areWithin_nil : Frame.AreWithin [] := rfl

theorem Frame.areWithin_group (base : Heights) : Frame.AreWithin [.group base] := rfl

theorem Frame.areWithin_argument (base : Heights) (name : String) (count : Nat) :
    Frame.AreWithin [.argument base name count] := rfl

namespace Machine

variable {world : World} {m m' : Machine}

/-- Any number of steps. -/
abbrev Reaches (world : World) : Machine → Machine → Prop :=
  Relation.ReflTransGen fun m m' => m.step world = .running m'

/-- The scopes whose calls wait for the value of a body, the innermost first. -/
def callers (m : Machine) : List Scope := m.frames.filterMap Frame.caller?

/-- A machine at the front of the body of a function. -/
structure Opens (f : UserFunction) (m : Machine) : Prop where
  phase : m.phase = .atom
  rest : m.scope.rest = f.source
  base : m.base = m.heights
  frames : ∃ base caller frames, m.frames = .body base caller :: frames

/-- What a step does to the levels. -/
inductive LevelChange (world : World) (m m' : Machine) : Prop
  /-- It reads on in the same text, where it may close and open levels. -/
  | within (rest : List Char) (closed opened frames : List Frame)
      (hclosed : Frame.AreWithin closed) (hopened : Frame.AreWithin opened)
      (hm : m.frames = closed ++ frames) (hm' : m'.frames = opened ++ frames)
      (hscope : m'.scope = { m.scope with rest })
      (hrest : rest.length ≤ m.scope.rest.length)
  /-- It enters the body of a function that is not under evaluation. -/
  | enters (f : UserFunction) (rest : List Char) (base : Heights) (closed frames : List Frame)
      (hclosed : Frame.AreWithin closed) (hm : m.frames = closed ++ frames)
      (hm' : m'.frames = .body base { m.scope with rest } :: frames)
      (hactive : m'.scope.active = f.key :: m.scope.active)
      (hfound : ∃ name, world.functions.find? name = some f)
      (hidle : m.scope.active.contains f.key = false) (hopens : Opens f m')
      (hrest : rest.length ≤ m.scope.rest.length)
  /-- It leaves the body of a function. -/
  | leaves (base : Heights) (caller : Scope)
      (hm : m.frames = .body base caller :: m'.frames) (hscope : m'.scope = caller)

/-! ## The parts of a step -/

/-- The levels change in the same way for machines that share them. -/
theorem LevelChange.of_same {n : Machine} (hf : n.frames = m.frames) (hs : n.scope = m.scope)
    (h : LevelChange world n m') : LevelChange world m m' := by
  cases h with
  | within rest closed opened frames hclosed hopened hm hm' hscope hrest =>
    rw [hf] at hm
    rw [hs] at hscope hrest
    exact .within rest closed opened frames hclosed hopened hm hm' hscope hrest
  | enters f rest base closed frames hclosed hm hm' hactive hfound hidle hopens hrest =>
    rw [hf] at hm
    rw [hs] at hm' hactive hidle hrest
    exact .enters f rest base closed frames hclosed hm hm' hactive hfound hidle hopens hrest
  | leaves base caller hm hscope =>
    rw [hf] at hm
    exact .leaves base caller hm hscope

/-- A step that changes no frames and no scope reads on. -/
theorem LevelChange.of_eq (hf : m'.frames = m.frames) (hs : m'.scope = m.scope) :
    LevelChange world m m' :=
  .within m.scope.rest [] [] m.frames Frame.areWithin_nil Frame.areWithin_nil rfl hf hs
    (Nat.le_refl _)

/-- A call that comes to a body has found its function. -/
theorem found_of_call {name : String} {count : Nat} {f : UserFunction} {locals : Locals}
    (h : (m.call world name count).1 = .ok (.body f locals)) :
    world.functions.find? name = some f := by
  unfold call at h
  split at h
  · split at h
    · cases h
    · dsimp only at h
      split at h
      · cases h
      · rename_i b _ _ _ _ args _ _
        dsimp only at h
        cases hb : b.apply world.environment world.functions args <;>
          simp [hb, Functor.map, Except.map] at h
  · split at h
    · cases h
    · rename_i g hg
      split at h
      · cases h
      · rename_i args ops _
        dsimp only at h
        cases hb : bindCall m.scope.active g args with
        | error e => simp [hb, Functor.map, Except.map] at h
        | ok l =>
          simp only [hb, Functor.map, Except.map, Except.ok.injEq, Called.body.injEq] at h
          obtain ⟨rfl, -⟩ := h
          exact hg

/-- A call delivers a value in its own level or enters a body. -/
theorem levelChange_of_enter {name : String} {count : Nat}
    (h : m.enter world name count = .running m') :
    (m'.frames = m.frames ∧ m'.scope = m.scope)
      ∨ ∃ f base, m'.frames = .body base m.scope :: m.frames
          ∧ m'.scope.active = f.key :: m.scope.active
          ∧ world.functions.find? name = some f
          ∧ m.scope.active.contains f.key = false ∧ Opens f m' := by
  have hc := call_snd world m name count
  have hb : ∀ {f locals}, (m.call world name count).1 = .ok (.body f locals) →
      world.functions.find? name = some f ∧ m.scope.active.contains f.key = false :=
    fun h => ⟨found_of_call h, (of_call_body h).2⟩
  unfold enter at h
  generalize m.call world name count = called at h hc hb
  obtain ⟨r, m₁⟩ := called
  obtain ⟨hs, hf, -⟩ := hc
  simp only at hs hf hb
  cases r with
  | error e => exact absurd h fail_ne_running
  | ok c =>
    cases c with
    | value v =>
      rw [of_deliver h]
      exact .inl ⟨hf, hs⟩
    | body f locals =>
      obtain ⟨hfound, hidle⟩ := hb rfl
      cases h
      refine .inr ⟨f, m₁.base, ?_, ?_, hfound, hidle, ?_⟩
      · simp only [hs, hf]
      · simp only [bodyScope, hs]
      · exact ⟨rfl, rfl, rfl, _, _, _, rfl⟩

/-- Entering from a machine that has closed levels of its own text. -/
theorem LevelChange.of_enter {name : String} {count : Nat} {rest : List Char} (n : Machine)
    (closed : List Frame) (hclosed : Frame.AreWithin closed)
    (hm : m.frames = closed ++ n.frames) (hn : n.scope = { m.scope with rest })
    (hrest : rest.length ≤ m.scope.rest.length)
    (h : n.enter world name count = .running m') : LevelChange world m m' := by
  rcases levelChange_of_enter h with ⟨hf, hs⟩ | ⟨f, base, hf, hactive, hfound, hidle, hopens⟩
  · exact .within rest closed [] n.frames hclosed Frame.areWithin_nil hm hf (hs.trans hn) hrest
  · rw [hn] at hf hactive hidle
    exact .enters f rest base closed n.frames hclosed hm hf hactive ⟨name, hfound⟩ hidle
      hopens hrest

theorem levelChange_of_takeAtom {t : Token} (h : m.takeAtom world t = .running m') :
    LevelChange world m m' := by
  have settled : ∀ {m₁ : Machine} {r : Result Value}, m₁.settle world r = .running m' →
      m₁.frames = m.frames → m₁.scope = m.scope → LevelChange world m m' := by
    intro m₁ r h hf hs
    obtain ⟨v, rfl⟩ := of_settle h
    exact .of_eq hf hs
  unfold takeAtom at h
  split at h
  · exact absurd h fail_ne_running
  · cases h
    exact .within m.scope.rest [] [.group m.base] m.frames Frame.areWithin_nil
      (Frame.areWithin_group _) rfl rfl rfl (Nat.le_refl _)
  · split at h
    · cases h
      exact .of_eq rfl rfl
    · split at h
      · rw [of_pushOperator h]
        exact .of_eq rfl rfl
      · exact absurd h fail_ne_running
  · have hle := world.lexer.length_skipBlanks_le m.scope.rest
    split at h
    · rename_i name _ rest hb
      rw [hb, List.length_cons] at hle
      exact .of_enter (m.withRest rest) [] Frame.areWithin_nil rfl rfl (by omega) h
    · cases h
      exact .within _ [] [.argument m.base _ 0] m.frames Frame.areWithin_nil
        (Frame.areWithin_argument _ _ _) rfl rfl rfl hle
  · exact settled (r := .ok _) h rfl rfl
  · exact settled h rfl rfl
  · unfold takeWord at h
    split at h
    · exact settled h rfl rfl
    · exact settled h rfl rfl
  all_goals exact absurd h fail_ne_running

theorem levelChange_of_takeOperator {t : Token} (h : m.takeOperator t = .running m') :
    LevelChange world m m' := by
  unfold takeOperator at h
  split at h
  · cases h
    exact .of_eq rfl rfl
  · split at h
    · split at h
      · cases h
        exact .of_eq rfl rfl
      · exact absurd h fail_ne_running
    · exact absurd h fail_ne_running

theorem levelChange_of_closeLevel {t : Terminator} {v : Value}
    (h : m.closeLevel world t v = .running m') : LevelChange world m m' := by
  unfold closeLevel at h
  split at h
  · cases h
  · rename_i base frames hf
    split at h
    · rw [of_deliver h]
      exact .within m.scope.rest [.group base] [] frames (Frame.areWithin_group _)
        Frame.areWithin_nil hf rfl rfl (Nat.le_refl _)
    · exact absurd h fail_ne_running
  · rename_i base name count frames hf
    split at h
    · cases h
    · rename_i m₁ hd
      have hd := of_deliver hd
      split at h
      · cases h
        subst hd
        exact .within m.scope.rest [.argument base name count]
          [.argument base name (count + 1)] frames (Frame.areWithin_argument _ _ _)
          (Frame.areWithin_argument _ _ _) hf rfl rfl (Nat.le_refl _)
      · subst hd
        exact .of_enter
          { m with operands := m.operands.push v, phase := .operator, frames, base }
          [.argument base name count] (Frame.areWithin_argument _ _ _) hf rfl
          (Nat.le_refl m.scope.rest.length) h
      all_goals exact absurd h fail_ne_running
  · rename_i base caller frames hf
    rw [of_deliver h]
    exact .leaves base caller hf rfl

theorem levelChange_of_takeHeld {held : Held} (h : m.takeHeld world held = .running m') :
    LevelChange world m m' := by
  unfold takeHeld at h
  split at h
  · obtain ⟨hs, hf, -, -⟩ := of_applyTop h
    exact .of_eq hf hs
  · split at h
    · rename_i t
      unfold takeTerminator at h
      split at h
      · exact absurd h fail_ne_running
      · split at h
        · exact absurd h fail_ne_running
        · rename_i v operands _
          exact .of_same (n := { m with operands }) rfl rfl (levelChange_of_closeLevel h)
    · rw [of_pushOperator h]
      exact .of_eq rfl rfl

/-! ## Steps -/

/-- A step takes something off the text, at least one character if it looks
for an operand, and then changes the levels in one of the three ways. -/
theorem levelChange_of_step (h : m.step world = .running m') :
    ∃ rest : List Char, rest.length ≤ m.scope.rest.length
      ∧ (m.phase = .atom → rest.length < m.scope.rest.length)
      ∧ LevelChange world (m.withRest rest) m' := by
  unfold step at h
  split at h
  · unfold readThen at h
    split at h
    · exact absurd h fail_ne_running
    · rename_i t rest hn
      by_cases ht : t = .endOfText
      · subst ht
        exact absurd h fail_ne_running
      · have hlt := world.lexer.length_next_lt m.scope.rest (by rw [hn]; simpa using ht)
        rw [hn] at hlt
        exact ⟨rest, Nat.le_of_lt hlt, fun _ => hlt, levelChange_of_takeAtom h⟩
  · rename_i hp
    unfold readThen at h
    split at h
    · exact absurd h fail_ne_running
    · rename_i t rest hn
      have hle := world.lexer.length_next_le m.scope.rest
      rw [hn] at hle
      exact ⟨rest, hle, by simp [hp], levelChange_of_takeOperator h⟩
  · rename_i held hp
    exact ⟨m.scope.rest, Nat.le_refl _, by simp [hp], levelChange_of_takeHeld h⟩

/-! ## The text left of the outermost scope -/

/-- What is left of the outermost text when `rest` is left of the current one. -/
def outermost (frames : List Frame) (rest : List Char) : List Char :=
  frames.foldl (fun rest frame => (frame.caller?.map (·.rest)).getD rest) rest

theorem outerRest_eq (m : Machine) : m.outerRest = outermost m.frames m.scope.rest := by
  unfold outerRest outermost
  congr 1
  funext rest frame
  cases frame <;> rfl

theorem outermost_append (opened frames : List Frame) (rest : List Char)
    (h : Frame.AreWithin opened) : outermost (opened ++ frames) rest = outermost frames rest := by
  induction opened generalizing rest with
  | nil => rfl
  | cons frame opened ih =>
    cases frame with
    | body base caller => cases h
    | group base => exact ih rest h
    | argument base name count => exact ih rest h

theorem length_outermost_le (frames : List Frame) {rest rest' : List Char}
    (h : rest.length ≤ rest'.length) :
    (outermost frames rest).length ≤ (outermost frames rest').length := by
  induction frames generalizing rest rest' with
  | nil => exact h
  | cons frame frames ih =>
    cases frame with
    | body base caller => exact Nat.le_refl _
    | group base => exact ih h
    | argument base name count => exact ih h

theorem outerRest_le_of_change (h : LevelChange world m m') :
    m'.outerRest.length ≤ m.outerRest.length := by
  rw [outerRest_eq, outerRest_eq]
  cases h with
  | within rest closed opened frames hclosed hopened hm hm' hscope hrest =>
    rw [hm, hm', outermost_append _ _ _ hclosed, outermost_append _ _ _ hopened, hscope]
    exact length_outermost_le frames hrest
  | enters f rest base closed frames hclosed hm hm' _ _ _ _ hrest =>
    rw [hm, hm', outermost_append _ _ _ hclosed]
    exact length_outermost_le frames hrest
  | leaves base caller hm hscope =>
    rw [hm, ← hscope]
    exact Nat.le_refl (outermost m'.frames m'.scope.rest).length

/-- No step lengthens what is left of the outermost text. -/
theorem outerRest_le_of_step (h : m.step world = .running m') :
    m'.outerRest.length ≤ m.outerRest.length := by
  obtain ⟨rest, hle, -, change⟩ := levelChange_of_step h
  have h' : (m.withRest rest).outerRest.length ≤ m.outerRest.length := by
    rw [outerRest_eq, outerRest_eq]
    exact length_outermost_le m.frames hle
  exact Nat.le_trans (outerRest_le_of_change change) h'

/-! ## Bodies stay where they are -/

/-- Closing levels of a text does not reach the body of that text. -/
theorem suffix_of_append {closed frames bottom : List Frame} {base : Heights} {caller : Scope}
    (hclosed : Frame.AreWithin closed) (h : .body base caller :: bottom <:+ closed ++ frames) :
    .body base caller :: bottom <:+ frames := by
  induction closed with
  | nil => exact h
  | cons frame closed ih =>
    cases frame with
    | body base caller => cases hclosed
    | group base =>
      rcases List.suffix_cons_iff.1 h with h | h
      · cases h
      · exact ih hclosed h
    | argument base name count =>
      rcases List.suffix_cons_iff.1 h with h | h
      · cases h
      · exact ih hclosed h

/-! ## Bodies under evaluation -/

theorem callers_of_within {closed frames : List Frame} (hclosed : Frame.AreWithin closed)
    (hm : m.frames = closed ++ frames) : m.callers = frames.filterMap Frame.caller? := by
  have : closed.filterMap Frame.caller? = [] := hclosed
  rw [callers, hm, List.filterMap_append, this, List.nil_append]

/-- A step enters at most one body. -/
theorem length_callers_le_of_step (h : m.step world = .running m') :
    m'.callers.length ≤ m.callers.length + 1 := by
  obtain ⟨rest, -, -, change⟩ := levelChange_of_step h
  have hcallers : (m.withRest rest).callers = m.callers := rfl
  cases change with
  | within rest closed opened frames hclosed hopened hm hm' hscope hrest =>
    rw [← hcallers, callers_of_within hclosed hm, callers_of_within hopened hm']
    exact Nat.le_succ _
  | enters f rest base closed frames hclosed hm hm' hactive hfound hidle hopens hrest =>
    rw [← hcallers, callers_of_within hclosed hm, callers, hm']
    exact Nat.le_refl _
  | leaves base caller hm hscope =>
    have hleft : (m.withRest rest).callers = caller :: m'.callers := by
      rw [callers, hm]
      rfl
    rw [← hcallers, hleft, List.length_cons]
    omega

/-! ## Runs -/

/-- A run ends with the last of the steps that lead to its end. -/
theorem exists_last_of_run (world : World) (m : Machine) :
    ∃ last, m.Reaches world last ∧ last.step world = .halted (m.run world) := by
  induction m using (wellFounded_smaller world).induction with
  | h m ih =>
    cases hstep : m.step world with
    | halted halt =>
      rw [run_of_halted hstep]
      exact ⟨m, .refl, hstep⟩
    | running m' =>
      obtain ⟨last, hreach, hlast⟩ := ih m' (smaller_of_step hstep)
      rw [run_of_running hstep]
      exact ⟨last, .head hstep hreach, hlast⟩

/-- What every step keeps holds wherever a run leads. -/
theorem invariant_of_reaches {P : Machine → Prop} (h : m.Reaches world m')
    (hstep : ∀ {a b}, P a → a.step world = .running b → P b) (hm : P m) : P m' := by
  induction h with
  | refl => exact hm
  | tail _ hs ih => exact hstep ih hs

end Machine

end ReminderExpr
