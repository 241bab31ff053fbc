/-
ReminderExpr.Proofs.StackDiscipline — what an evaluation leaves on the stacks.

Above the heights at which a level was opened, the operands are those that
the pending binary operators of the level still need, the arguments that have
been read, and one more after an operand. `Waiting` says so of the levels
outside, `Poised` of the whole machine. From it follows that no step finds a
stack too low:

* `sound_step` — a step keeps the machine balanced, or ends the evaluation
  with the entries of the beginning still in place and no internal error;
* `sound_of_reaches` — the same of every state on the way;
* `Interpreter.evaluation_keeps_stacks` — an evaluation leaves both stacks
  as they were, whatever it comes to.
-/
import ReminderExpr.Interpreter
import ReminderExpr.Proofs.BuiltinCalls
import ReminderExpr.Proofs.Levels

namespace ReminderExpr

/-! ## Levels that wait -/

def PendingOp.isBinary : PendingOp → Bool
  | .unary _ => false
  | .binary _ => true

/-- How many operators take their second operand from above them. -/
def binaries (operators : List PendingOp) : Nat := operators.countP PendingOp.isBinary

@[simp] theorem binaries_nil : binaries [] = 0 := rfl

@[simp] theorem binaries_unary (op : UnaryOp) (operators : List PendingOp) :
    binaries (.unary op :: operators) = binaries operators := by
  simp [binaries, PendingOp.isBinary]

@[simp] theorem binaries_binary (op : BinaryOp) (operators : List PendingOp) :
    binaries (.binary op :: operators) = binaries operators + 1 := by
  rw [binaries, List.countP_cons_of_pos rfl]
  rfl

/-- The heights to which a level that waits returns. -/
def Frame.base : Frame → Heights
  | .group base => base
  | .argument base _ _ => base
  | .body base _ => base

/-- The operands that a level keeps for a call while it waits. -/
def Frame.arguments : Frame → Nat
  | .argument _ _ count => count
  | _ => 0

/-- The levels that wait account for the stacks below the current level, down
to the entries `ops₀` and `vals₀` that were there at the beginning. -/
inductive Waiting (ops₀ : List PendingOp) (vals₀ : List Value) :
    List Frame → Heights → List PendingOp → List Value → Prop
  | outermost : Waiting ops₀ vals₀ [] ⟨ops₀.length, vals₀.length⟩ ops₀ vals₀
  | level {frame : Frame} {frames : List Frame} {ops : List PendingOp} {vals : List Value}
      {O : List PendingOp} {V : List Value} (h : Waiting ops₀ vals₀ frames frame.base ops vals)
      (hlen : V.length = binaries O + frame.arguments) :
      Waiting ops₀ vals₀ (frame :: frames) ⟨(O ++ ops).length, (V ++ vals).length⟩
        (O ++ ops) (V ++ vals)

section Levels

variable {ops₀ ops : List PendingOp} {vals₀ vals : List Value} {frames : List Frame}
  {base : Heights}

theorem Waiting.base_eq (h : Waiting ops₀ vals₀ frames base ops vals) :
    base = ⟨ops.length, vals.length⟩ := by
  cases h <;> rfl

theorem Waiting.operators_suffix (h : Waiting ops₀ vals₀ frames base ops vals) :
    ops₀ <:+ ops := by
  induction h with
  | outermost => exact List.suffix_rfl
  | level _ _ ih => exact ih.trans (List.suffix_append _ _)

theorem Waiting.operands_suffix (h : Waiting ops₀ vals₀ frames base ops vals) :
    vals₀ <:+ vals := by
  induction h with
  | outermost => exact List.suffix_rfl
  | level _ _ ih => exact ih.trans (List.suffix_append _ _)

end Levels

/-! ## Balanced machines -/

/-- Both stacks are within the limits of an evaluation. -/
structure World.Admits (world : World) (m : Machine) : Prop where
  operators : ∀ depth ∈ world.config.operatorDepth, m.operators.height ≤ depth
  operands : ∀ depth ∈ world.config.operandDepth, m.operands.height ≤ depth

/-- The entries that were on the stacks at the beginning are still at the
bottom of them, and the limits are kept. -/
structure Machine.Keeps (world : World) (ops₀ : List PendingOp) (vals₀ : List Value)
    (m : Machine) : Prop where
  operators : ops₀ <:+ m.operators.entries
  operands : vals₀ <:+ m.operands.entries
  admitted : world.Admits m

/-- How many operands a level has beyond those that its operators need. -/
def Phase.extra : Phase → Nat
  | .atom => 0
  | _ => 1

/-- The current level has `extra` operands more than its operators need, and
the levels outside account for the rest. -/
structure Machine.Poised (world : World) (ops₀ : List PendingOp) (vals₀ : List Value)
    (extra : Nat) (m : Machine) : Prop where
  levels : ∃ ops vals O V, Waiting ops₀ vals₀ m.frames m.base ops vals
    ∧ m.operators.entries = O ++ ops ∧ m.operands.entries = V ++ vals
    ∧ V.length = binaries O + extra
  admitted : world.Admits m

/-- A step leads on to a balanced machine, or to an end with the entries of
the beginning and without an internal error. -/
def Outcome.Sound (world : World) (ops₀ : List PendingOp) (vals₀ : List Value) : Outcome → Prop
  | .running m => m.Poised world ops₀ vals₀ m.phase.extra
  | .halted h => h.machine.Keeps world ops₀ vals₀
      ∧ match h.result with
        | .ok _ => h.machine.operators.entries = ops₀ ∧ h.machine.operands.entries = vals₀
        | .error e => e.isInternal = false

namespace Machine

variable {world : World} {ops₀ : List PendingOp} {vals₀ : List Value} {m m' : Machine}
  {extra : Nat}

theorem Poised.keeps (h : m.Poised world ops₀ vals₀ extra) : m.Keeps world ops₀ vals₀ := by
  obtain ⟨⟨ops, vals, O, V, hw, hops, hvals, -⟩, hadm⟩ := h
  constructor
  · rw [hops]
    exact hw.operators_suffix.trans (List.suffix_append _ _)
  · rw [hvals]
    exact hw.operands_suffix.trans (List.suffix_append _ _)
  · exact hadm

/-! ## Failures -/

theorem sound_fail {e : EvalError} (h : m.Keeps world ops₀ vals₀) (he : e.isInternal = false) :
    (m.fail e).Sound world ops₀ vals₀ :=
  ⟨h, he⟩

/-- Failures of operations on values are not internal. -/
theorem isInternal_of_ordinary {α : Type} {r : Result α} (h : Ordinary r) {e : EvalError}
    (he : r = .error e) : e.isInternal = false := by
  cases hi : e.isInternal with
  | false => rfl
  | true =>
    have := EvalError.raisedByMachine_of_isInternal hi
    rw [h e he] at this
    cases this

/-! ## Pushing -/

theorem sound_pushOperator {op : PendingOp} {n : Nat} (h : m.Poised world ops₀ vals₀ n)
    (hn : n = if op.isBinary then 1 else 0) :
    (m.pushOperator world op .atom).Sound world ops₀ vals₀ := by
  unfold pushOperator
  split
  · exact sound_fail h.keeps rfl
  · rename_i hroom
    obtain ⟨⟨ops, vals, O, V, hw, hops, hvals, hlen⟩, hadm⟩ := h
    refine ⟨⟨ops, vals, op :: O, V, hw, ?_, hvals, ?_⟩, ?_, hadm.operands⟩
    · simp [hops]
    · cases op with
      | unary op => simpa [PendingOp.isBinary, Phase.extra, hn] using hlen
      | binary op => simpa [PendingOp.isBinary, Phase.extra, hn] using hlen
    · intro depth hdepth
      simp only [Option.any_eq_true, decide_eq_true_eq, not_exists, not_and] at hroom
      have := hroom depth hdepth
      rw [Stack.height_push]
      omega

theorem sound_deliver {v : Value} (h : m.Poised world ops₀ vals₀ 0) :
    (m.deliver world v).Sound world ops₀ vals₀ := by
  unfold deliver
  split
  · exact sound_fail h.keeps rfl
  · rename_i hroom
    obtain ⟨⟨ops, vals, O, V, hw, hops, hvals, hlen⟩, hadm⟩ := h
    refine ⟨⟨ops, vals, O, v :: V, hw, hops, ?_, ?_⟩, hadm.operators, ?_⟩
    · simp [hvals]
    · simpa [Phase.extra] using hlen
    · intro depth hdepth
      simp only [Option.any_eq_true, decide_eq_true_eq, not_exists, not_and] at hroom
      have := hroom depth hdepth
      rw [Stack.height_push]
      omega

theorem sound_settle {r : Result Value} (h : m.Poised world ops₀ vals₀ 0) (hr : Ordinary r) :
    (m.settle world r).Sound world ops₀ vals₀ := by
  cases r with
  | error e => exact sound_fail h.keeps (isInternal_of_ordinary hr rfl)
  | ok v => exact sound_deliver h

/-- A level opened above a balanced one, to which its frame returns. -/
theorem sound_openLevel {frame : Frame}
    (h : { m with base := frame.base }.Poised world ops₀ vals₀ frame.arguments) :
    (m.openLevel frame).Sound world ops₀ vals₀ := by
  obtain ⟨⟨ops, vals, O, V, hw, hops, hvals, hlen⟩, hadm⟩ := h
  have hheights : m.heights = ⟨(O ++ ops).length, (V ++ vals).length⟩ := by
    rw [heights, m.operators.height_eq, m.operands.height_eq, hops, hvals]
  refine ⟨⟨O ++ ops, V ++ vals, [], [], ?_, hops, hvals, rfl⟩, ⟨hadm.operators, hadm.operands⟩⟩
  simp only [hheights]
  exact .level hw hlen

/-! ## Calls -/

/-- Arguments that are there are popped. -/
theorem popMany?_of_poised {count : Nat} (h : m.Poised world ops₀ vals₀ count) :
    ∃ arguments operands, m.operands.popMany? count = some (arguments, operands)
      ∧ arguments.length = count
      ∧ ∀ nonconst, { m with operands, nonconst }.Poised world ops₀ vals₀ 0 := by
  obtain ⟨⟨ops, vals, O, V, hw, hops, hvals, hlen⟩, hadm⟩ := h
  have hcount : (V.take count).length = count := by
    rw [List.length_take]
    omega
  rw [← List.take_append_drop count V, List.append_assoc] at hvals
  obtain ⟨operands, hpop, hentries⟩ := Stack.popMany?_eq_some hvals
  rw [hcount] at hpop
  refine ⟨_, operands, hpop, by rw [List.length_reverse, hcount], fun nonconst => ?_⟩
  have hdrop : (V.drop count).length = binaries O := by
    rw [List.length_drop]
    omega
  have hle : operands.height ≤ m.operands.height := by
    rw [operands.height_eq, hentries, m.operands.height_eq, hvals]
    simp only [List.length_append]
    omega
  exact ⟨⟨ops, vals, O, V.drop count, hw, hops, hentries, hdrop⟩, hadm.operators,
    fun depth hdepth => Nat.le_trans hle (hadm.operands depth hdepth)⟩

theorem isInternal_bindCall {active : List String} {f : UserFunction} {arguments : List Value}
    {e : EvalError} (h : bindCall active f arguments = .error e) : e.isInternal = false := by
  unfold bindCall at h
  split at h
  · cases h
    rfl
  · unfold UserFunction.bind at h
    split at h
    · cases h
      rfl
    · split at h
      · cases h
        rfl
      · cases h

/-- A call finds its arguments, and takes no more than them. -/
theorem poised_call (name : String) {count : Nat} (h : m.Poised world ops₀ vals₀ count) :
    match m.call world name count with
    | (.ok _, n) => n.Poised world ops₀ vals₀ 0
    | (.error e, n) => n.Keeps world ops₀ vals₀ ∧ e.isInternal = false := by
  obtain ⟨arguments, operands, hpop, hlen, hleft⟩ := popMany?_of_poised h
  unfold call
  cases hb : Builtin.ofName? name with
  | some builtin =>
    dsimp only
    cases ha : builtin.signature.checkArity count with
    | error e =>
      exact ⟨h.keeps, isInternal_of_ordinary (ordinary_checkArity _ _) ha⟩
    | ok u =>
      dsimp only
      rw [hpop]
      dsimp only
      have ho : Ordinary (builtin.apply world.environment world.functions arguments) :=
        Builtin.ordinary_apply (by rw [hlen, ha])
      cases hr : builtin.apply world.environment world.functions arguments with
      | error e => exact ⟨(hleft _).keeps, isInternal_of_ordinary ho hr⟩
      | ok v => exact hleft _
  | none =>
    dsimp only
    cases hf : world.functions.find? name with
    | none => exact ⟨h.keeps, rfl⟩
    | some f =>
      dsimp only
      rw [hpop]
      dsimp only
      cases hr : bindCall m.scope.active f arguments with
      | error e => exact ⟨(hleft m.nonconst).keeps, isInternal_bindCall hr⟩
      | ok locals => exact hleft m.nonconst

theorem sound_enter {name : String} {count : Nat} (h : m.Poised world ops₀ vals₀ count) :
    (m.enter world name count).Sound world ops₀ vals₀ := by
  have hc := poised_call name h
  unfold enter
  generalize m.call world name count = called at hc
  obtain ⟨r, n⟩ := called
  cases r with
  | error e => exact sound_fail hc.1 hc.2
  | ok c =>
    cases c with
    | value v => exact sound_deliver hc
    | body f locals =>
      have h0 : (n.openLevel (.body n.base n.scope)).Sound world ops₀ vals₀ :=
        sound_openLevel hc
      exact ⟨h0.levels, ⟨h0.admitted.operators, h0.admitted.operands⟩⟩

/-! ## Tokens -/

theorem sound_takeAtom {t : Token} (h : m.Poised world ops₀ vals₀ 0) (hp : m.phase = .atom) :
    (m.takeAtom world t).Sound world ops₀ vals₀ := by
  unfold takeAtom
  split
  · exact sound_fail h.keeps rfl
  · exact sound_openLevel h
  · split
    · rw [Outcome.Sound, hp]
      exact h
    · split
      · exact sound_pushOperator h rfl
      · exact sound_fail h.keeps rfl
  · split
    · exact sound_enter ⟨h.levels, h.admitted.operators, h.admitted.operands⟩
    · exact sound_openLevel ⟨h.levels, h.admitted.operators, h.admitted.operands⟩
  · exact sound_deliver h
  · exact sound_settle h (ordinary_quotedDate _ _)
  · unfold takeWord
    split
    · exact sound_settle h (ordinary_numberOrTime _ _)
    · refine sound_settle ⟨h.levels, h.admitted.operators, h.admitted.operands⟩ ?_
      unfold resolve
      split
      · exact ordinary_ok _
      · exact ordinary_lookup _ _
  all_goals exact sound_fail h.keeps rfl

theorem sound_takeOperator {t : Token} (h : m.Poised world ops₀ vals₀ 1) :
    (m.takeOperator t).Sound world ops₀ vals₀ := by
  unfold takeOperator
  split
  · exact ⟨h.levels, h.admitted.operators, h.admitted.operands⟩
  · split
    · split
      · exact ⟨h.levels, h.admitted.operators, h.admitted.operands⟩
      · exact sound_fail h.keeps rfl
    · exact sound_fail h.keeps rfl

/-! ## Held tokens -/

/-- Applying an operator of the current level leaves one operand for those
that it takes. -/
theorem sound_applyTop (h : m.Poised world ops₀ vals₀ 1) (hp : m.phase.extra = 1)
    (hmine : m.base.operators < m.operators.height) :
    (m.applyTop world).Sound world ops₀ vals₀ := by
  have hkeeps := h.keeps
  obtain ⟨⟨ops, vals, O, V, hw, hops, hvals, hlen⟩, hadm⟩ := h
  have applied : ∀ {O' : List PendingOp} {V' : List Value} {op : PendingOp}
      {operators : Stack PendingOp} {operands : Stack Value} (result : Value),
      m.operators = operators.push op → operators.entries = O' ++ ops →
      operands.entries = V' ++ vals → V'.length = binaries O' →
      operands.height < m.operands.height →
      Outcome.Sound world ops₀ vals₀
        (.running { m with operators, operands := operands.push result }) := by
    intro O' V' op operators operands result hop hops' hvals' hlen' hlt
    refine ⟨⟨ops, vals, O', result :: V', hw, hops', ?_, ?_⟩, fun depth hdepth => ?_,
      fun depth hdepth => ?_⟩
    · simp [hvals']
    · simp [hlen', hp]
    · have := hadm.operators depth hdepth
      rw [hop, Stack.height_push] at this
      exact Nat.le_trans (Nat.le_succ _) this
    · exact Nat.le_trans (Nat.succ_le_of_lt hlt) (hadm.operands depth hdepth)
  cases O with
  | nil =>
    rw [hw.base_eq, m.operators.height_eq, hops] at hmine
    exact absurd hmine (Nat.lt_irrefl _)
  | cons op O =>
    obtain ⟨operators, hop, hops'⟩ := Stack.eq_push_of_entries hops
    cases op with
    | unary op =>
      rw [binaries_unary] at hlen
      obtain ⟨v, V, rfl⟩ := List.exists_cons_of_length_eq_add_one hlen
      obtain ⟨operands, hv, hvals'⟩ := Stack.eq_push_of_entries hvals
      rw [applyTop_unary hop hv]
      split
      · rename_i e he
        exact sound_fail hkeeps (isInternal_of_ordinary (ordinary_unaryApply op v) he)
      · refine applied _ hop hops' hvals' (Nat.succ.inj hlen) ?_
        rw [hv, Stack.height_push]
        exact Nat.lt_succ_self _
    | binary op =>
      rw [binaries_binary] at hlen
      obtain ⟨right, V, rfl⟩ := List.exists_cons_of_length_eq_add_one hlen
      obtain ⟨left, V, rfl⟩ := List.exists_cons_of_length_eq_add_one (Nat.succ.inj hlen)
      obtain ⟨upper, hv, hvals'⟩ := Stack.eq_push_of_entries hvals
      obtain ⟨operands, rfl, hvals''⟩ := Stack.eq_push_of_entries hvals'
      rw [applyTop_binary hop hv]
      split
      · rename_i e he
        exact sound_fail hkeeps (isInternal_of_ordinary (ordinary_binaryApply _ op left right) he)
      · refine applied _ hop hops' hvals'' (Nat.succ.inj (Nat.succ.inj hlen)) ?_
        rw [hv, Stack.height_push, Stack.height_push]
        omega

/-- The value of a level that has been emptied goes to the level outside. -/
theorem sound_closeLevel {ops : List PendingOp} {vals : List Value} {t : Terminator} {v : Value}
    (hw : Waiting ops₀ vals₀ m.frames m.base ops vals) (hops : m.operators.entries = ops)
    (hvals : m.operands.entries = vals) (hadm : world.Admits m) :
    (m.closeLevel world t v).Sound world ops₀ vals₀ := by
  have hkeeps : m.Keeps world ops₀ vals₀ :=
    ⟨hops ▸ hw.operators_suffix, hvals ▸ hw.operands_suffix, hadm⟩
  generalize hf : m.frames = frames at hw
  generalize hb : m.base = base at hw
  cases hw with
  | outermost =>
    unfold closeLevel
    rw [hf]
    exact ⟨hkeeps, hops, hvals⟩
  | @level frame frames ops vals O V hw hlen =>
    have outside : ∀ scope, Poised world ops₀ vals₀ frame.arguments
        { m with frames, base := frame.base, scope } := fun scope =>
      ⟨⟨ops, vals, O, V, hw, hops, hvals, hlen⟩, hadm.operators, hadm.operands⟩
    unfold closeLevel
    rw [hf]
    cases frame with
    | group base =>
      dsimp only
      split
      · exact sound_deliver (outside m.scope)
      · exact sound_fail hkeeps rfl
    | argument base name count =>
      have hd : (m.deliver world v).Sound world ops₀ vals₀ :=
        sound_deliver ⟨⟨_, _, [], [], hf ▸ hb ▸ .level hw hlen, hops, hvals, rfl⟩, hadm⟩
      dsimp only
      cases hm : m.deliver world v with
      | halted h => rwa [hm] at hd
      | running m₁ =>
        rw [hm] at hd
        have hm₁ := of_deliver hm
        have called : { m₁ with frames, base }.Poised world ops₀ vals₀ (count + 1) := by
          refine ⟨⟨ops, vals, O, v :: V, hw, ?_, ?_, congrArg (· + 1) hlen⟩, ?_⟩
          · rw [hm₁, hops]
          · rw [hm₁, Stack.entries_push, hvals, List.cons_append]
          · exact ⟨hd.admitted.operators, hd.admitted.operands⟩
        dsimp only
        split
        · exact sound_openLevel called
        · exact sound_enter called
        all_goals exact sound_fail hd.keeps rfl
    | body base caller => exact sound_deliver (outside caller)

/-- Operators that do not yield to a terminator belong to levels outside. -/
theorem le_base_of_not_mustApply {t : Terminator} (h : ¬ m.mustApply (.terminator t) = true) :
    m.operators.height ≤ m.base.operators := by
  apply Nat.le_of_not_lt
  intro hlt
  apply h
  have hne : m.operators.entries ≠ [] := by
    intro he
    rw [m.operators.height_eq, he] at hlt
    exact absurd hlt (Nat.not_lt_zero _)
  obtain ⟨op, rest, hentries⟩ := List.exists_cons_of_ne_nil hne
  simp [mustApply, hlt, Stack.top?, hentries, Held.yieldsTo]

theorem sound_takeTerminator {t : Terminator} (h : m.Poised world ops₀ vals₀ 1)
    (hnone : m.operators.height ≤ m.base.operators) :
    (m.takeTerminator world t).Sound world ops₀ vals₀ := by
  obtain ⟨⟨ops, vals, O, V, hw, hops, hvals, hlen⟩, hadm⟩ := h
  have hO : O = [] := by
    rw [hw.base_eq, m.operators.height_eq, hops, List.length_append] at hnone
    exact List.length_eq_zero_iff.1 (by dsimp only at hnone; omega)
  subst hO
  obtain ⟨v, V, rfl⟩ := List.exists_cons_of_length_eq_add_one hlen
  have hV : V = [] := List.length_eq_zero_iff.1 (Nat.succ.inj hlen)
  subst hV
  obtain ⟨operands, hv, hvals'⟩ := Stack.eq_push_of_entries hvals
  have hheight : m.operands.height = m.base.operands + 1 := by
    rw [hw.base_eq, m.operands.height_eq, hvals]
    rfl
  unfold takeTerminator
  rw [if_neg (not_not_intro hheight), hv, Stack.pop?_push]
  refine sound_closeLevel (m := { m with operands }) hw hops hvals'
    ⟨hadm.operators, fun depth hdepth => ?_⟩
  have := hadm.operands depth hdepth
  rw [hv, Stack.height_push] at this
  exact Nat.le_trans (Nat.le_succ _) this

theorem sound_takeHeld {held : Held} (h : m.Poised world ops₀ vals₀ 1)
    (hp : m.phase = .holding held) : (m.takeHeld world held).Sound world ops₀ vals₀ := by
  unfold takeHeld
  split
  · rename_i hmust
    refine sound_applyTop h (by rw [hp]; rfl) ?_
    unfold mustApply at hmust
    rw [Bool.and_eq_true, decide_eq_true_eq] at hmust
    exact hmust.1
  · split
    · rename_i hmust
      exact sound_takeTerminator h (le_base_of_not_mustApply hmust)
    · exact sound_pushOperator h rfl

/-! ## Steps and runs -/

/-- A step of a balanced machine leads to a balanced machine, or to an end
with the entries of the beginning and no internal error. -/
theorem sound_step (h : m.Poised world ops₀ vals₀ m.phase.extra) :
    (m.step world).Sound world ops₀ vals₀ := by
  have read : ∀ {use : Machine → Token → Outcome},
      (∀ rest t, (use (m.withRest rest) t).Sound world ops₀ vals₀) →
      (m.readThen world use).Sound world ops₀ vals₀ := by
    intro use huse
    unfold readThen
    split
    · rename_i e rest _
      refine sound_fail ⟨h.keeps.operators, h.keeps.operands, h.admitted.operators,
        h.admitted.operands⟩ ?_
      cases e <;> rfl
    · exact huse _ _
  unfold step
  split
  · rename_i hp
    rw [hp] at h
    refine read fun rest t => sound_takeAtom ?_ hp
    exact ⟨h.levels, h.admitted.operators, h.admitted.operands⟩
  · rename_i hp
    rw [hp] at h
    refine read fun rest t => sound_takeOperator ?_
    exact ⟨h.levels, h.admitted.operators, h.admitted.operands⟩
  · rename_i held hp
    rw [hp] at h
    exact sound_takeHeld h hp

/-- Balance is kept on every run. -/
theorem poised_of_reaches (h : m.Poised world ops₀ vals₀ m.phase.extra)
    (hreach : m.Reaches world m') : m'.Poised world ops₀ vals₀ m'.phase.extra :=
  invariant_of_reaches (P := fun m => m.Poised world ops₀ vals₀ m.phase.extra) hreach
    (fun {a b} ha hstep => by
      have := sound_step ha
      rwa [hstep] at this)
    h

/-- Every run of a balanced machine ends soundly. -/
theorem sound_run (h : m.Poised world ops₀ vals₀ m.phase.extra) :
    (Outcome.halted (m.run world)).Sound world ops₀ vals₀ := by
  obtain ⟨last, hreach, hlast⟩ := exists_last_of_run world m
  have := sound_step (poised_of_reaches h hreach)
  rwa [hlast] at this

theorem poised_start (scope : Scope) {operators : Stack PendingOp} {operands : Stack Value}
    (hops : ∀ depth ∈ world.config.operatorDepth, operators.height ≤ depth)
    (hvals : ∀ depth ∈ world.config.operandDepth, operands.height ≤ depth) :
    (start scope operators operands).Poised world operators.entries operands.entries
      (start scope operators operands).phase.extra := by
  refine ⟨⟨_, _, [], [], ?_, rfl, rfl, rfl⟩, hops, hvals⟩
  simp only [start, operators.height_eq, operands.height_eq]
  exact .outermost

end Machine

/-! ## Evaluations -/

namespace Interpreter

/-- An evaluation leaves both stacks with the entries they held before,
whether it succeeds or fails. On the way, and where it ends, those entries
stay in place and the limits are kept, and it never fails with an internal
error. -/
theorem evaluation_keeps_stacks (i : Interpreter) (environment : Environment)
    (functions : UserFunctions) (scope : Scope)
    (hops : ∀ depth ∈ i.config.operatorDepth, i.operators.height ≤ depth)
    (hvals : ∀ depth ∈ i.config.operandDepth, i.operands.height ≤ depth) :
    let world := i.world environment functions
    let start := Machine.start scope i.operators i.operands
    let evaluated := i.evaluateScope environment functions scope
    (evaluated.interpreter.operators = i.operators
        ∧ evaluated.interpreter.operands = i.operands)
      ∧ (∀ m, start.Reaches world m → m.Keeps world i.operators.entries i.operands.entries)
      ∧ (start.run world).machine.Keeps world i.operators.entries i.operands.entries
      ∧ ∀ e, evaluated.result = .error e →
          e ≠ .operatorStackUnderflow ∧ e ≠ .operandStackUnderflow ∧ e ≠ .stackError := by
  intro world start evaluated
  have hstart : start.Poised world i.operators.entries i.operands.entries start.phase.extra :=
    Machine.poised_start scope hops hvals
  have hrun := Machine.sound_run hstart
  refine ⟨?_, fun m hreach => (Machine.poised_of_reaches hstart hreach).keeps, hrun.1, ?_⟩
  · have hentries := hrun.2
    simp only [evaluated, evaluateScope, conclude, after]
    split
    · rename_i v hv
      rw [hv] at hentries
      exact ⟨Stack.ext hentries.1, Stack.ext hentries.2⟩
    · exact ⟨Stack.cutTo_eq_of_suffix hrun.1.operators, Stack.cutTo_eq_of_suffix hrun.1.operands⟩
  · intro e he
    have hinternal := hrun.2
    simp only [evaluated, evaluateScope, conclude] at he
    cases hr : (start.run world).result with
    | ok v =>
      rw [hr] at he
      cases he
    | error e' =>
      rw [hr] at he hinternal
      cases he
      refine ⟨?_, ?_, ?_⟩ <;> rintro rfl <;> cases hinternal

/-- An evaluation in the middle of a sum, which fails in a group in the body of
a call, leaves the operator and the operand of the sum. -/
theorem stacks_after_failed_body :
    let functions : UserFunctions := ⟨[{ name := "twice", parameters := ["x"], body := "x*(" }]⟩
    let i : Interpreter :=
      { operators := Stack.empty.push (.binary .add), operands := Stack.empty.push (.int 1) }
    let e := i.evaluateScope {} functions { rest := "2*twice(1+3)".toList }
    e.interpreter.operators = i.operators ∧ e.interpreter.operands = i.operands
      ∧ e.result = .error .unexpectedEol := by
  intro functions i e
  have hops : ∀ depth ∈ i.config.operatorDepth, i.operators.height ≤ depth := by decide
  have hvals : ∀ depth ∈ i.config.operandDepth, i.operands.height ≤ depth := by decide
  have h := evaluation_keeps_stacks i {} functions { rest := "2*twice(1+3)".toList } hops hvals
  refine ⟨h.1.1, h.1.2, ?_⟩
  have hfailed : e.result = .error .unexpectedEol ∧ e.rest = [] :=
    evaluateScope_of_runFor 40 (by decide +kernel)
  exact hfailed.1

end Interpreter

end ReminderExpr
