/-
ReminderExpr.Proofs.Replay — control does not depend on values.

All arguments of a call are evaluated, those of choices too, so that values
only decide whether a step fails. Two machines are `Alike` if they have the
same to read, in the same phase and at the same levels, above what lies below
them (`Below`); what the operands are does not matter.

* `Outcome.Replays` — what a step of one machine means for a machine alike: it
  takes the step as well, or fails; where the first one refuses a recursive
  call, the other enters the body;
* `replays_step` — every step is replayed;
* `ReachesAbove` — runs that stay above what lies below.
-/
import Mathlib.Data.List.Forall2
import ReminderExpr.Proofs.BuiltinCalls
import ReminderExpr.Proofs.Levels

namespace ReminderExpr

/-! ## Machines alike -/

/-- What lies below the levels that are compared. -/
structure Below where
  operators : List PendingOp
  frames : List Frame

/-- Whether what lies below ends where a text ends: at the bottom, or at the
body of a function. -/
def Below.Whole (l : Below) : Prop :=
  l.frames = [] ∨ ∃ base caller frames, l.frames = .body base caller :: frames

/-- The same number of operators above what lies below. -/
def Heights.Alike (l r : Below) (b b' : Heights) : Prop :=
  ∃ k, b.operators = k + l.operators.length ∧ b'.operators = k + r.operators.length

/-- Levels that wait for the same. -/
inductive Frame.Alike (l r : Below) : Frame → Frame → Prop
  | group {b b' : Heights} (hb : Heights.Alike l r b b') : Alike l r (.group b) (.group b')
  | argument {b b' : Heights} {name : String} {count : Nat} (hb : Heights.Alike l r b b') :
      Alike l r (.argument b name count) (.argument b' name count)
  | body {b b' : Heights} {s s' : Scope} (hb : Heights.Alike l r b b') (hrest : s.rest = s'.rest) :
      Alike l r (.body b s) (.body b' s')

/-- Machines with the same to do above what lies below them. -/
structure Machine.Alike (l r : Below) (m n : Machine) : Prop where
  rest : m.scope.rest = n.scope.rest
  phase : m.phase = n.phase
  frames : ∃ F G, m.frames = F ++ l.frames ∧ n.frames = G ++ r.frames
    ∧ List.Forall₂ (Frame.Alike l r) F G
  base : Heights.Alike l r m.base n.base
  operators : ∃ O, m.operators.entries = O ++ l.operators ∧ n.operators.entries = O ++ r.operators

/-- Whether an evaluation has failed. -/
def Outcome.Fails (o : Outcome) : Prop := ∃ h e, o = .halted h ∧ h.result = .error e

/-- Whether a failure is the refusal of a recursive call. -/
def EvalError.isRefusal : EvalError → Bool
  | recursiveCall _ => true
  | _ => false

/-- One outcome replays another one: where that goes on above `l`, it goes on
alike, and where that refuses a function, it enters it; or it fails. `active`
are the functions under evaluation. -/
structure Outcome.Replays (world : World) (l r : Below) (active : List String)
    (o p : Outcome) : Prop where
  running : ∀ m, o = .running m → l.frames <:+ m.frames →
    p.Fails ∨ ∃ n, p = .running n ∧ Machine.Alike l r m n
  refused : ∀ h name, o = .halted h → h.result = .error (.recursiveCall name) →
    p.Fails ∨ ∃ f n, p = .running n ∧ f.name = name
      ∧ (∃ name, world.functions.find? name = some f) ∧ active.contains f.key = true
      ∧ Machine.Opens f n ∧ ∃ base caller F, n.frames = .body base caller :: F ++ r.frames

namespace Machine

variable {world : World} {l r : Below} {active : List String} {m n : Machine} {o p : Outcome}

/-- Alike machines have as many operators above what lies below. -/
theorem Alike.heights (h : Alike l r m n) : Heights.Alike l r m.heights n.heights := by
  obtain ⟨O, hm, hn⟩ := h.operators
  refine ⟨O.length, ?_, ?_⟩
  · rw [Machine.heights, m.operators.height_eq, hm, List.length_append]
  · rw [Machine.heights, n.operators.height_eq, hn, List.length_append]

/-- Machines that open the same function are alike above themselves. -/
theorem alike_of_opens {f : UserFunction} (hm : Opens f m) (hn : Opens f n) :
    Alike ⟨m.operators.entries, m.frames⟩ ⟨n.operators.entries, n.frames⟩ m n where
  rest := hm.rest.trans hn.rest.symm
  phase := hm.phase.trans hn.phase.symm
  frames := ⟨[], [], rfl, rfl, .nil⟩
  base := by
    rw [hm.base, hn.base]
    exact ⟨0, by simp [Machine.heights, m.operators.height_eq],
      by simp [Machine.heights, n.operators.height_eq]⟩
  operators := ⟨[], rfl, rfl⟩

/-! ## Outcomes that are replayed -/

theorem fails_fail {e : EvalError} : (m.fail e).Fails := ⟨_, e, rfl, rfl⟩

theorem replays_of_fails (h : p.Fails) : o.Replays world l r active p :=
  ⟨fun _ _ _ => .inl h, fun _ _ _ _ => .inl h⟩

theorem replays_running (h : Alike l r m n) :
    (Outcome.running m).Replays world l r active (.running n) where
  running := by
    rintro m' ⟨⟩ -
    exact .inr ⟨n, rfl, h⟩
  refused := by
    rintro h name ⟨⟩

/-- A failure other than a refusal leaves nothing to replay. -/
theorem replays_fail {e : EvalError} (he : e.isRefusal = false) :
    (m.fail e).Replays world l r active p where
  running := by
    rintro m' ⟨⟩
  refused := by
    rintro h name ⟨⟩ heq
    cases heq
    cases he

/-- Operations on values do not refuse functions. -/
theorem isRefusal_of_ordinary {α : Type} {x : Result α} (hx : Ordinary x) {e : EvalError}
    (h : x = .error e) : e.isRefusal = false := by
  have he := hx e h
  cases e <;> first | rfl | cases he

theorem replays_pushOperator (h : Alike l r m n) (op : PendingOp) (phase : Phase) :
    (m.pushOperator world op phase).Replays world l r active (n.pushOperator world op phase) := by
  unfold pushOperator
  split
  · exact replays_fail rfl
  · split
    · exact replays_of_fails fails_fail
    · obtain ⟨O, hm, hn⟩ := h.operators
      refine replays_running ⟨h.rest, rfl, h.frames, h.base, op :: O, ?_, ?_⟩
      · rw [Stack.entries_push, hm, List.cons_append]
      · rw [Stack.entries_push, hn, List.cons_append]

theorem replays_deliver (h : Alike l r m n) (v v' : Value) :
    (m.deliver world v).Replays world l r active (n.deliver world v') := by
  unfold deliver
  split
  · exact replays_fail rfl
  · split
    · exact replays_of_fails fails_fail
    · exact replays_running ⟨h.rest, rfl, h.frames, h.base, h.operators⟩

theorem replays_settle (h : Alike l r m n) {x y : Result Value} (hx : Ordinary x) :
    (m.settle world x).Replays world l r active (n.settle world y) := by
  cases x with
  | error e => exact replays_fail (isRefusal_of_ordinary hx rfl)
  | ok v =>
    cases y with
    | error e => exact replays_of_fails fails_fail
    | ok v' => exact replays_deliver h v v'

theorem replays_openLevel (h : Alike l r m n) {frame frame' : Frame}
    (hf : Frame.Alike l r frame frame') :
    (m.openLevel frame).Replays world l r active (n.openLevel frame') := by
  obtain ⟨F, G, hm, hn, hFG⟩ := h.frames
  refine replays_running ⟨h.rest, rfl, ⟨frame :: F, frame' :: G, ?_, ?_, .cons hf hFG⟩,
    h.heights, h.operators⟩
  · rw [hm, List.cons_append]
  · rw [hn, List.cons_append]

/-! ## Calls -/

/-- A function is refused because it is under evaluation. -/
theorem of_bindCall_error {f : UserFunction} {arguments : List Value} {name : String}
    (h : bindCall active f arguments = .error (.recursiveCall name)) :
    f.name = name ∧ active.contains f.key = true := by
  unfold bindCall at h
  split at h
  · rename_i hactive
    exact ⟨EvalError.recursiveCall.inj (Except.error.inj h), hactive⟩
  · unfold UserFunction.bind at h
    split at h
    · cases h
    · split at h
      · cases h
      · cases h

/-- The body of a function entered from machines alike. -/
theorem alike_bodies (h : Alike l r m n) (f : UserFunction) (locals locals' : Locals) :
    Alike l r
      { m with
        scope := bodyScope m.scope.active f locals
        frames := .body m.base m.scope :: m.frames
        base := m.heights
        phase := .atom }
      { n with
        scope := bodyScope n.scope.active f locals'
        frames := .body n.base n.scope :: n.frames
        base := n.heights
        phase := .atom } := by
  obtain ⟨F, G, hm, hn, hFG⟩ := h.frames
  refine ⟨rfl, rfl, ⟨_ :: F, _ :: G, ?_, ?_, .cons (.body h.base h.rest) hFG⟩, h.heights,
    h.operators⟩
  · rw [hm, List.cons_append]
  · rw [hn, List.cons_append]

theorem replays_enter_builtin (h : Alike l r m n) {name : String} {builtin : Builtin}
    (hb : Builtin.ofName? name = some builtin) (count : Nat) :
    (m.enter world name count).Replays world l r active (n.enter world name count) := by
  unfold enter call
  rw [hb]
  dsimp only
  cases hc : builtin.signature.checkArity count with
  | error e => exact replays_fail (isRefusal_of_ordinary (ordinary_checkArity _ _) hc)
  | ok u =>
    dsimp only
    cases hm : m.operands.popMany? count with
    | none => exact replays_fail rfl
    | some popped =>
      obtain ⟨arguments, operands⟩ := popped
      have ho : Ordinary (builtin.apply world.environment world.functions arguments) :=
        Builtin.ordinary_apply (by rw [Stack.length_of_popMany? hm, hc])
      dsimp only
      cases ha : builtin.apply world.environment world.functions arguments with
      | error e => exact replays_fail (isRefusal_of_ordinary ho ha)
      | ok v =>
        cases hn : n.operands.popMany? count with
        | none => exact replays_of_fails fails_fail
        | some popped' =>
          obtain ⟨arguments', operands'⟩ := popped'
          dsimp only
          cases builtin.apply world.environment world.functions arguments' with
          | error e => exact replays_of_fails fails_fail
          | ok v' =>
            have popped : Alike l r
                { m with nonconst := m.nonconst || !builtin.signature.constant, operands }
                { n with
                  nonconst := n.nonconst || !builtin.signature.constant
                  operands := operands' } :=
              ⟨h.rest, h.phase, h.frames, h.base, h.operators⟩
            exact replays_deliver popped v v'

/-- Whether a user function is entered depends on its arguments in number only,
and on what is under evaluation. -/
theorem replays_enter_function (h : Alike l r m n) {name : String}
    (hb : Builtin.ofName? name = none) (count : Nat) :
    (m.enter world name count).Replays world l r m.scope.active (n.enter world name count) := by
  unfold enter call
  rw [hb]
  dsimp only
  cases hf : world.functions.find? name with
  | none => exact replays_fail rfl
  | some f =>
    dsimp only
    cases hm : m.operands.popMany? count with
    | none => exact replays_fail rfl
    | some popped =>
      obtain ⟨arguments, operands⟩ := popped
      cases hn : n.operands.popMany? count with
      | none => exact replays_of_fails fails_fail
      | some popped' =>
        obtain ⟨arguments', operands'⟩ := popped'
        dsimp only
        cases hbind' : bindCall n.scope.active f arguments' with
        | error e => exact replays_of_fails fails_fail
        | ok locals' =>
          cases hbind : bindCall m.scope.active f arguments with
          | ok locals =>
            exact replays_running (alike_bodies
              (m := { m with operands }) (n := { n with operands := operands' })
              ⟨h.rest, h.phase, h.frames, h.base, h.operators⟩ f locals locals')
          | error e =>
            refine ⟨by rintro m' ⟨⟩, ?_⟩
            rintro halt refused ⟨⟩ ⟨⟩
            obtain ⟨hname, hactive⟩ := of_bindCall_error hbind
            obtain ⟨F, G, -, hG, -⟩ := h.frames
            refine .inr ⟨f, _, rfl, hname, ⟨name, hf⟩, hactive, ⟨rfl, rfl, rfl, _, _, _, rfl⟩,
              n.base, n.scope, G, ?_⟩
            rw [hG, List.cons_append]

theorem replays_enter (h : Alike l r m n) (name : String) (count : Nat) :
    (m.enter world name count).Replays world l r m.scope.active (n.enter world name count) := by
  cases hb : Builtin.ofName? name with
  | some builtin => exact replays_enter_builtin h hb count
  | none => exact replays_enter_function h hb count

/-! ## Tokens -/

theorem alike_withRest (h : Alike l r m n) (rest : List Char) :
    Alike l r (m.withRest rest) (n.withRest rest) :=
  ⟨rfl, h.phase, h.frames, h.base, h.operators⟩

theorem replays_takeAtom (h : Alike l r m n) (t : Token) :
    (m.takeAtom world t).Replays world l r m.scope.active (n.takeAtom world t) := by
  unfold takeAtom
  rw [← h.rest]
  cases t with
  | endOfText => exact replays_fail rfl
  | leftParen => exact replays_openLevel h (.group h.base)
  | operator spelling =>
    dsimp only
    split
    · exact replays_running h
    · split
      · exact replays_pushOperator h _ _
      · exact replays_fail rfl
  | call name =>
    dsimp only
    split
    · rename_i rest _
      exact replays_enter (alike_withRest h rest) name 0
    · exact replays_openLevel (alike_withRest h _) (.argument h.base)
  | str content => exact replays_deliver h _ _
  | date content => exact replays_settle h (ordinary_quotedDate _ _)
  | word text =>
    dsimp only [takeWord]
    split
    · exact replays_settle h (ordinary_numberOrTime _ _)
    · have noted : Alike l r
          { m with nonconst := m.nonconst || (resolve world m.scope.locals text).2 }
          { n with nonconst := n.nonconst || (resolve world n.scope.locals text).2 } :=
        ⟨h.rest, h.phase, h.frames, h.base, h.operators⟩
      refine replays_settle noted ?_
      unfold resolve
      split
      · exact ordinary_ok _
      · exact ordinary_lookup _ _
  | comma => exact replays_fail rfl
  | rightParen => exact replays_fail rfl
  | closeBracket => exact replays_fail rfl

theorem replays_takeOperator (h : Alike l r m n) (t : Token) :
    (m.takeOperator t).Replays world l r active (n.takeOperator t) := by
  unfold takeOperator
  split
  · exact replays_running ⟨h.rest, rfl, h.frames, h.base, h.operators⟩
  · split
    · split
      · exact replays_running ⟨h.rest, rfl, h.frames, h.base, h.operators⟩
      · exact replays_fail rfl
    · exact replays_fail rfl

/-! ## Held tokens -/

/-- The same operators of a level yield to a held token. -/
theorem mustApply_eq (h : Alike l r m n) (held : Held) : m.mustApply held = n.mustApply held := by
  obtain ⟨k, hm, hn⟩ := h.base
  obtain ⟨O, hmO, hnO⟩ := h.operators
  have hmh : m.operators.height = O.length + l.operators.length := by
    rw [m.operators.height_eq, hmO, List.length_append]
  have hnh : n.operators.height = O.length + r.operators.length := by
    rw [n.operators.height_eq, hnO, List.length_append]
  unfold mustApply
  rw [hm, hn, hmh, hnh]
  by_cases hlt : k < O.length
  · cases O with
    | nil => cases hlt
    | cons op O => simp [Stack.top?, hmO, hnO]
  · have hml : ¬ k + l.operators.length < O.length + l.operators.length := by omega
    have hnl : ¬ k + r.operators.length < O.length + r.operators.length := by omega
    rw [decide_eq_false hml, decide_eq_false hnl, Bool.false_and, Bool.false_and]

theorem replays_applyTop (h : Alike l r m n) (hmine : m.base.operators < m.operators.height) :
    (m.applyTop world).Replays world l r active (n.applyTop world) := by
  obtain ⟨k, hm, -⟩ := h.base
  obtain ⟨O, hmO, hnO⟩ := h.operators
  cases O with
  | nil =>
    rw [hm, m.operators.height_eq, hmO, List.nil_append] at hmine
    omega
  | cons op O =>
    obtain ⟨mops, hmops, hmO⟩ := Stack.eq_push_of_entries hmO
    obtain ⟨nops, hnops, hnO⟩ := Stack.eq_push_of_entries hnO
    have applied : ∀ operands operands',
        Alike l r { m with operators := mops, operands }
          { n with operators := nops, operands := operands' } := fun _ _ =>
      ⟨h.rest, h.phase, h.frames, h.base, O, hmO, hnO⟩
    unfold applyTop
    rw [hmops, hnops, Stack.pop?_push, Stack.pop?_push]
    cases op with
    | unary op =>
      dsimp only
      split
      · exact replays_fail rfl
      · split
        · rename_i e he
          exact replays_fail (isRefusal_of_ordinary (ordinary_unaryApply op _) he)
        · split
          · exact replays_of_fails fails_fail
          · split
            · exact replays_of_fails fails_fail
            · exact replays_running (applied _ _)
    | binary op =>
      dsimp only
      split
      · exact replays_fail rfl
      · split
        · exact replays_fail rfl
        · split
          · rename_i e he
            exact replays_fail (isRefusal_of_ordinary (ordinary_binaryApply _ op _ _) he)
          · split
            · exact replays_of_fails fails_fail
            · split
              · exact replays_of_fails fails_fail
              · split
                · exact replays_of_fails fails_fail
                · exact replays_running (applied _ _)

/-- What closes below the levels that are compared is not replayed. -/
theorem replays_closeLevel_below (hl : l.Whole) (hm : m.frames = l.frames) (t : Terminator)
    (v : Value) : (m.closeLevel world t v).Replays world l r active p := by
  unfold closeLevel
  rw [hm]
  rcases hl with hl | ⟨base, caller, frames, hl⟩
  · rw [hl]
    exact ⟨by rintro m' ⟨⟩, by rintro halt name ⟨⟩ ⟨⟩⟩
  · rw [hl]
    dsimp only [deliver]
    split
    · exact replays_fail rfl
    · refine ⟨?_, by rintro halt name ⟨⟩⟩
      rintro m' ⟨⟩ hsuffix
      rw [hl] at hsuffix
      have hlen := hsuffix.length_le
      rw [List.length_cons] at hlen
      exact absurd hlen (Nat.not_succ_le_self _)

theorem replays_closeLevel (hl : l.Whole) (h : Alike l r m n) (t : Terminator) (v v' : Value) :
    (m.closeLevel world t v).Replays world l r m.scope.active (n.closeLevel world t v') := by
  obtain ⟨F, G, hm, hn, hFG⟩ := h.frames
  cases hFG with
  | nil => exact replays_closeLevel_below hl hm t v
  | @cons frame frame' F G hframe hFG =>
    have resumed : ∀ {b b' : Heights} (operands operands' : Stack Value) (phase : Phase),
        Heights.Alike l r b b' →
        Alike l r { m with frames := F ++ l.frames, base := b, operands, phase }
          { n with frames := G ++ r.frames, base := b', operands := operands', phase } :=
      fun _ _ _ hb => ⟨h.rest, rfl, ⟨F, G, rfl, rfl, hFG⟩, hb, h.operators⟩
    unfold closeLevel
    rw [hm, hn]
    cases hframe with
    | group hb =>
      dsimp only [List.cons_append]
      split
      · rw [h.phase]
        exact replays_deliver (resumed m.operands n.operands n.phase hb) _ _
      · exact replays_fail rfl
    | @argument b b' name count hb =>
      dsimp only [List.cons_append]
      rcases deliver_cases world m v with hmd | hmd
      · rw [hmd]
        exact replays_fail rfl
      rcases deliver_cases world n v' with hnd | hnd
      · rw [hnd]
        exact replays_of_fails fails_fail
      rw [hmd, hnd]
      dsimp only
      cases t with
      | comma =>
        have opened : Alike l r
            { m with frames := F ++ l.frames, operands := m.operands.push v, phase := .operator }
            { n with
              frames := G ++ r.frames
              operands := n.operands.push v'
              phase := .operator } :=
          resumed _ _ _ h.base
        exact replays_openLevel opened (.argument hb)
      | rightParen => exact replays_enter (resumed _ _ .operator hb) name (count + 1)
      | endOfText => exact replays_fail rfl
      | closeBracket => exact replays_fail rfl
    | @body b b' s s' hb hrest =>
      rw [h.phase]
      have left : Alike l r { m with frames := F ++ l.frames, base := b, scope := s, phase := n.phase }
          { n with frames := G ++ r.frames, base := b', scope := s' } :=
        ⟨hrest, rfl, ⟨F, G, rfl, rfl, hFG⟩, hb, h.operators⟩
      exact replays_deliver left _ _

theorem replays_takeTerminator (hl : l.Whole) (h : Alike l r m n) (t : Terminator) :
    (m.takeTerminator world t).Replays world l r m.scope.active (n.takeTerminator world t) := by
  unfold takeTerminator
  split
  · exact replays_fail rfl
  · split
    · exact replays_fail rfl
    · rename_i v operands _
      split
      · exact replays_of_fails fails_fail
      · split
        · exact replays_of_fails fails_fail
        · rename_i v' operands' _
          exact replays_closeLevel (m := { m with operands }) (n := { n with operands := operands' })
            hl ⟨h.rest, h.phase, h.frames, h.base, h.operators⟩ t v v'

theorem replays_takeHeld (hl : l.Whole) (h : Alike l r m n) (held : Held) :
    (m.takeHeld world held).Replays world l r m.scope.active (n.takeHeld world held) := by
  unfold takeHeld
  rw [← mustApply_eq h held]
  split
  · rename_i hmust
    unfold mustApply at hmust
    rw [Bool.and_eq_true, decide_eq_true_eq] at hmust
    exact replays_applyTop h hmust.1
  · split
    · exact replays_takeTerminator hl h _
    · exact replays_pushOperator h _ _

/-! ## Steps and runs -/

/-- A step is replayed by every machine alike. -/
theorem replays_step (hl : l.Whole) (h : Alike l r m n) :
    (m.step world).Replays world l r m.scope.active (n.step world) := by
  have lexFails : ∀ e : LexError, e.toEvalError.isRefusal = false := by
    intro e
    cases e <;> rfl
  unfold step readThen
  rw [← h.phase, ← h.rest]
  cases m.phase with
  | atom =>
    dsimp only
    split
    · exact replays_fail (lexFails _)
    · rename_i t rest _
      exact replays_takeAtom (alike_withRest h rest) t
  | operator =>
    dsimp only
    split
    · exact replays_fail (lexFails _)
    · rename_i t rest _
      exact replays_takeOperator (alike_withRest h rest) t
  | holding held => exact replays_takeHeld hl h held

/-- Any number of steps that stay above some levels. -/
abbrev ReachesAbove (world : World) (frames : List Frame) : Machine → Machine → Prop :=
  Relation.ReflTransGen fun m m' => m.step world = .running m' ∧ frames <:+ m'.frames

end Machine

end ReminderExpr
