/-
ReminderExpr.Proofs.RecursionGuard — the guard against recursion is exact.

A function is refused while its body is under evaluation. What has led from
the front of that body to the refused call can be replayed from every later
entry into the body, since control does not depend on values: each pass either
fails or enters the body once more, one level deeper. So nothing that is
refused would have had a value.

* `Tracked` — every function under evaluation has been entered, and the run
  has stayed above its body since;
* `replayed` — a run replayed without the guard;
* `exists_deeper` — from the front of a refused body to the next entry;
* `Interpreter.guard_is_exact` — whole evaluations.
-/
import ReminderExpr.Interpreter
import ReminderExpr.Proofs.Replay
import ReminderExpr.Proofs.Unguarded

namespace ReminderExpr

/-- Whether an evaluation has more than `bound` bodies under evaluation, or has
failed. -/
def Outcome.Exceeds (bound : Nat) : Outcome → Prop
  | .running m => bound < m.callers.length
  | .halted h => ∃ e, h.result = .error e

namespace Machine

variable {world : World} {m m' n : Machine}

/-! ## Where the functions under evaluation were entered -/

/-- Every function under evaluation has its body among `frames`, and the run
to `m` has not left that body since it was entered. -/
def Backed (world : World) (m : Machine) (active : List String) (frames : List Frame) : Prop :=
  ∀ key ∈ active, ∃ f e, f.key = key ∧ (∃ name, world.functions.find? name = some f)
    ∧ Opens f e ∧ e.frames <:+ frames ∧ ReachesAbove world e.frames e m

/-- The functions under evaluation are backed, in the current scope and in
all those that wait. -/
structure Tracked (world : World) (m : Machine) : Prop where
  current : Backed world m m.scope.active m.frames
  waiting : ∀ base caller below, .body base caller :: below <:+ m.frames →
    Backed world m caller.active below

/-- A step that keeps the bodies keeps what backs the functions. -/
theorem Backed.step {active : List String} {frames frames' : List Frame}
    (h : Backed world m active frames) (hstep : m.step world = .running m')
    (hkeep : ∀ base caller below, .body base caller :: below <:+ frames →
      .body base caller :: below <:+ frames')
    (hsuffix : frames' <:+ m'.frames) : Backed world m' active frames' := by
  intro key hkey
  obtain ⟨f, e, hf, hfound, hopens, hbelow, hreach⟩ := h key hkey
  obtain ⟨base, caller, below, hframes⟩ := hopens.frames
  rw [hframes] at hbelow
  have hbelow' := hkeep _ _ _ hbelow
  rw [← hframes] at hbelow'
  exact ⟨f, e, hf, hfound, hopens, hbelow', hreach.tail ⟨hstep, hbelow'.trans hsuffix⟩⟩

/-- Steps keep track of the functions under evaluation. -/
theorem tracked_of_step (h : Tracked world m) (hstep : m.step world = .running m') :
    Tracked world m' := by
  obtain ⟨rest, -, -, change⟩ := levelChange_of_step hstep
  -- What backs a scope that waits before and after the step stays where it is.
  have waits : ∀ base caller below, .body base caller :: below <:+ m.frames →
      .body base caller :: below <:+ m'.frames → Backed world m' caller.active below :=
    fun base caller below hbefore hafter =>
      (h.waiting base caller below hbefore).step hstep (fun _ _ _ hbody => hbody)
        ((List.suffix_cons _ _).trans hafter)
  cases change with
  | within rest closed opened frames hclosed hopened hm hm' hscope hrest =>
    have hm : m.frames = closed ++ frames := hm
    constructor
    · rw [hscope]
      refine h.current.step hstep (fun base caller below hbody => ?_) List.suffix_rfl
      rw [hm] at hbody
      rw [hm']
      exact (suffix_of_append hclosed hbody).trans (List.suffix_append _ _)
    · intro base caller below hbody
      refine waits base caller below ?_ hbody
      rw [hm'] at hbody
      rw [hm]
      exact (suffix_of_append hopened hbody).trans (List.suffix_append _ _)
  | enters f rest base closed frames hclosed hm hm' hactive hfound hidle hopens hrest =>
    have hm : m.frames = closed ++ frames := hm
    have hframes : frames <:+ m'.frames := by
      rw [hm']
      exact List.suffix_cons _ _
    have caller : Backed world m' m.scope.active frames := by
      refine h.current.step hstep (fun base caller below hbody => ?_) hframes
      rw [hm] at hbody
      exact suffix_of_append hclosed hbody
    constructor
    · rw [hactive]
      intro key hkey
      rcases List.mem_cons.1 hkey with rfl | hkey
      · exact ⟨f, m', rfl, hfound, hopens, List.suffix_rfl, .refl⟩
      · obtain ⟨g, e, hg, hfound, hopens, hbelow, hreach⟩ := caller key hkey
        exact ⟨g, e, hg, hfound, hopens, hbelow.trans hframes, hreach⟩
    · intro base' caller' below hbody
      have hcases := hbody
      rw [hm', List.suffix_cons_iff] at hcases
      rcases hcases with heq | hbody'
      · cases heq
        exact caller
      · refine waits base' caller' below ?_ hbody
        rw [hm]
        exact hbody'.trans (List.suffix_append _ _)
  | leaves base caller hm hscope =>
    have hm : m.frames = .body base caller :: m'.frames := hm
    constructor
    · rw [hscope]
      have htop : .body base caller :: m'.frames <:+ m.frames := ⟨[], hm.symm⟩
      exact (h.waiting base caller m'.frames htop).step hstep (fun _ _ _ hbody => hbody)
        List.suffix_rfl
    · intro base' caller' below hbody
      refine waits base' caller' below ?_ hbody
      rw [hm]
      exact hbody.trans (List.suffix_cons _ _)

/-- Where no function is under evaluation at the start, all are tracked. -/
theorem tracked_of_reaches {scope : Scope} {operators : Stack PendingOp} {operands : Stack Value}
    (hactive : scope.active = []) (h : (start scope operators operands).Reaches world m) :
    Tracked world m := by
  refine invariant_of_reaches h tracked_of_step ⟨?_, ?_⟩
  · intro key hkey
    rw [start, hactive] at hkey
    cases hkey
  · intro base caller below hbody
    cases List.suffix_nil.1 hbody

/-! ## Runs replayed without the guard -/

theorem frameAlike_erase {l r : Below} {frame frame' : Frame} (h : Frame.Alike l r frame frame') :
    Frame.Alike l r frame frame'.erase := by
  cases h with
  | group hb => exact .group hb
  | argument hb => exact .argument hb
  | body hb hrest => exact .body hb hrest

/-- The functions under evaluation make no difference to being alike. -/
theorem alike_erase {l r : Below} (hr : r.frames.map Frame.erase = r.frames)
    (h : Alike l r m n) : Alike l r m n.erase := by
  obtain ⟨F, G, hm, hn, hFG⟩ := h.frames
  refine ⟨h.rest, h.phase, ⟨F, G.map Frame.erase, hm, ?_, ?_⟩, h.base, h.operators⟩
  · rw [erase, hn, List.map_append, hr]
  · rw [List.forall₂_map_right_iff]
    exact hFG.imp fun _ _ hframe => frameAlike_erase hframe

/-- A run that stays above some levels is replayed without the guard, or
that fails. -/
theorem replayed {l r : Below} (hl : l.Whole) (hr : r.frames.map Frame.erase = r.frames)
    (hreach : ReachesAbove world l.frames m m') (h : Alike l r m n.erase) :
    (∃ steps, (n.unguardedAfter world steps).Fails)
      ∨ ∃ steps n', n.unguardedAfter world steps = .running n' ∧ Alike l r m' n'.erase := by
  induction hreach with
  | refl => exact .inr ⟨0, n, rfl, h⟩
  | tail _ hstep ih =>
    rcases ih with hfails | ⟨steps, u, hu, halike⟩
    · exact .inl hfails
    · have hnext := unguardedAfter_succ_of_running hu
      rcases (replays_step hl halike).running _ hstep.1 hstep.2 with hfails | ⟨u', hu', halike'⟩
      · refine .inl ⟨steps + 1, ?_⟩
        rw [hnext]
        exact hfails
      · exact .inr ⟨steps + 1, u', hnext.trans hu', alike_erase hr halike'⟩

/-- Where a call is refused, the body of the function is entered without the
guard, or that fails. -/
theorem entered_of_refused {l r : Below} (hl : l.Whole) {halt : Halt} {name : String}
    (hstep : m.step world = .halted halt) (hrefused : halt.result = .error (.recursiveCall name))
    (h : Alike l r m n.erase) :
    (n.stepUnguarded world).Fails
      ∨ ∃ f n', n.stepUnguarded world = .running n' ∧ f.name = name
        ∧ (∃ name, world.functions.find? name = some f)
        ∧ m.scope.active.contains f.key = true ∧ Opens f n'
        ∧ ∃ base caller F, n'.frames = .body base caller :: F ++ r.frames :=
  (replays_step hl h).refused halt name hstep hrefused

theorem length_callers_map_erase (frames : List Frame) :
    ((frames.map Frame.erase).filterMap Frame.caller?).length
      = (frames.filterMap Frame.caller?).length := by
  induction frames with
  | nil => rfl
  | cons frame frames ih =>
    cases frame with
    | body base caller => exact congrArg (· + 1) ih
    | group base => exact ih
    | argument base name count => exact ih

/-- From every entry into a refused body, the evaluator without the guard
comes to another entry into it one level deeper, or fails. -/
theorem exists_deeper {f : UserFunction} {e g x : Machine} {halt : Halt} (he : Opens f e)
    (hreach : ReachesAbove world e.frames e g) (hstep : g.step world = .halted halt)
    (hrefused : halt.result = .error (.recursiveCall f.name))
    (hfound : ∃ name, world.functions.find? name = some f) (hx : Opens f x) :
    (∃ steps, (x.unguardedAfter world steps).Fails)
      ∨ ∃ steps y, x.unguardedAfter world steps = .running y ∧ Opens f y
        ∧ x.callers.length < y.callers.length := by
  have hx' : Opens f x.erase := by
    obtain ⟨base, caller, frames, hframes⟩ := hx.frames
    refine ⟨hx.phase, hx.rest, hx.base, base, caller.erase, frames.map Frame.erase, ?_⟩
    rw [erase, hframes]
    rfl
  have hl : Below.Whole ⟨e.operators.entries, e.frames⟩ := .inr he.frames
  rcases replayed hl (map_erase_erase x.frames) hreach (alike_of_opens he hx') with
    hfails | ⟨steps, n, hn, halike⟩
  · exact .inl hfails
  have hnext := unguardedAfter_succ_of_running hn
  rcases entered_of_refused hl hstep hrefused halike with
    hfails | ⟨f', y, hy, hname, ⟨name', hfound'⟩, -, hopens, base, caller, F, hframes⟩
  · refine .inl ⟨steps + 1, ?_⟩
    rw [hnext]
    exact hfails
  · obtain ⟨name, hfound⟩ := hfound
    have hsame : f' = f := by
      refine UserFunctions.eq_of_find? hfound' hfound ?_
      rw [UserFunction.key, hname, UserFunction.key]
    rw [hsame] at hopens
    refine .inr ⟨steps + 1, y, hnext.trans hy, hopens, ?_⟩
    have hlength := length_callers_map_erase x.frames
    rw [callers, callers, hframes, List.filterMap_append, List.length_append, ← hlength]
    show _ < (caller :: F.filterMap Frame.caller?).length + _
    rw [List.length_cons]
    exact Nat.lt_add_of_pos_left (Nat.succ_pos _)

/-! ## No end with a value -/

theorem exceeds_of_fails {o : Outcome} {bound : Nat} (h : o.Fails) : o.Exceeds bound := by
  obtain ⟨halt, e, rfl, he⟩ := h
  exact ⟨e, he⟩

/-- What goes deeper again and again exceeds every depth. -/
theorem exceeds_of_deeper {P : Machine → Prop}
    (hdeeper : ∀ x, P x → (∃ steps, (x.unguardedAfter world steps).Fails)
      ∨ ∃ steps y, x.unguardedAfter world steps = .running y ∧ P y
        ∧ x.callers.length < y.callers.length)
    (bound : Nat) {x : Machine} (hx : P x) :
    ∃ steps, (x.unguardedAfter world steps).Exceeds bound := by
  have missing : ∀ (k : Nat) (x : Machine), P x → bound < x.callers.length + k →
      ∃ steps, (x.unguardedAfter world steps).Exceeds bound := by
    intro k
    induction k with
    | zero =>
      intro x _ hlt
      exact ⟨0, hlt⟩
    | succ k ih =>
      intro x hx hlt
      rcases hdeeper x hx with ⟨steps, hfails⟩ | ⟨steps, y, hy, hPy, hdeep⟩
      · exact ⟨steps, exceeds_of_fails hfails⟩
      · obtain ⟨more, hmore⟩ := ih y hPy (by omega)
        refine ⟨steps + more, ?_⟩
        rw [unguardedAfter_add hy]
        exact hmore
  exact missing (bound + 1) x hx (by omega)

theorem length_callers_unguardedAfter {steps : Nat}
    (h : m.unguardedAfter world steps = .running n) :
    n.callers.length ≤ m.callers.length + steps := by
  induction steps generalizing n with
  | zero =>
    cases h
    exact Nat.le_refl _
  | succ steps ih =>
    cases hm : m.unguardedAfter world steps with
    | halted halt =>
      rw [unguardedAfter, hm] at h
      cases h
    | running u =>
      rw [unguardedAfter_succ_of_running hm] at h
      have hle : n.callers.length ≤ u.erase.callers.length + 1 := length_callers_le_of_step h
      have herase : u.erase.callers.length = u.callers.length := length_callers_map_erase u.frames
      have hu := ih hm
      omega

/-- What exceeds every depth, or fails, does not end with a value. -/
theorem error_of_exceeds (h : ∀ bound, ∃ steps, (m.unguardedAfter world steps).Exceeds bound)
    {steps : Nat} {halt : Halt} (hhalt : m.unguardedAfter world steps = .halted halt) :
    ∃ e, halt.result = .error e := by
  obtain ⟨more, hmore⟩ := h (m.callers.length + steps)
  rcases Nat.le_total steps more with hle | hle
  · obtain ⟨rest, rfl⟩ := Nat.exists_eq_add_of_le hle
    rw [unguardedAfter_of_halted hhalt] at hmore
    exact hmore
  · cases hm : m.unguardedAfter world more with
    | running n =>
      rw [hm] at hmore
      have hfew := length_callers_unguardedAfter hm
      have hmany : m.callers.length + steps < n.callers.length := hmore
      omega
    | halted halt' =>
      obtain ⟨rest, rfl⟩ := Nat.exists_eq_add_of_le hle
      rw [unguardedAfter_of_halted hm] at hhalt
      cases hhalt
      rw [hm] at hmore
      exact hmore

/-- An evaluation that is refused exceeds every depth without the guard, or
fails. -/
theorem exceeds_of_refused {scope : Scope} {operators : Stack PendingOp}
    {operands : Stack Value} {name : String} (hactive : scope.active = [])
    (h : ((start scope operators operands).run world).result = .error (.recursiveCall name))
    (bound : Nat) :
    ∃ steps, ((start scope operators operands).unguardedAfter world steps).Exceeds bound := by
  obtain ⟨g, hreach, hstep⟩ := exists_last_of_run world (start scope operators operands)
  have hl : Below.Whole ⟨operators.entries, []⟩ := .inl rfl
  have habove : ReachesAbove world [] (start scope operators operands) g :=
    hreach.lift id fun _ _ hs => ⟨hs, List.nil_suffix⟩
  have halike : Alike ⟨operators.entries, []⟩ ⟨operators.entries, []⟩
      (start scope operators operands) (start scope operators operands).erase := by
    refine ⟨rfl, rfl, ⟨[], [], rfl, rfl, .nil⟩, ⟨0, ?_, ?_⟩, [], rfl, rfl⟩
    · rw [Nat.zero_add, ← operators.height_eq]
      rfl
    · rw [Nat.zero_add, ← operators.height_eq]
      rfl
  rcases replayed hl rfl habove halike with ⟨steps, hfails⟩ | ⟨steps, n, hn, halike⟩
  · exact ⟨steps, exceeds_of_fails hfails⟩
  have hnext := unguardedAfter_succ_of_running hn
  rcases entered_of_refused hl hstep h halike with
    hfails | ⟨f, x, hx, hname, ⟨found, hfound⟩, hcontains, hopens, -⟩
  · refine ⟨steps + 1, exceeds_of_fails ?_⟩
    rw [hnext]
    exact hfails
  -- The function that is refused was entered on the way, and its body not left since.
  obtain ⟨f', e, hkey, ⟨found', hfound'⟩, he, -, hsince⟩ :=
    (tracked_of_reaches hactive hreach).current f.key (List.contains_iff_mem.1 hcontains)
  obtain rfl : f' = f := UserFunctions.eq_of_find? hfound' hfound hkey
  rw [← hname] at h
  obtain ⟨more, hmore⟩ := exceeds_of_deeper (fun x hx => exists_deeper he hsince hstep h ⟨_, hfound⟩ hx)
    bound hopens
  refine ⟨steps + 1 + more, ?_⟩
  rw [unguardedAfter_add (hnext.trans hx)]
  exact hmore

end Machine

/-! ## Evaluations -/

namespace Interpreter

/-- What an evaluation yields does not tell which functions were under
evaluation where it ended. -/
theorem conclude_eq_of_erase (i : Interpreter) {h h' : Halt} (hresult : h.result = h'.result)
    (herase : h.machine.erase = h'.machine.erase) : i.conclude h = i.conclude h' := by
  have hops := congrArg Machine.operators herase
  have hvals := congrArg Machine.operands herase
  have hnonconst := congrArg Machine.nonconst herase
  dsimp only [Machine.erase] at hops hvals hnonconst
  have hrest : h.machine.outerRest = h'.machine.outerRest := by
    rw [← Machine.outerRest_erase, herase, Machine.outerRest_erase]
  unfold conclude after
  rw [hresult, hops, hvals, hnonconst, hrest]

/-- The guard against recursion refuses nothing that has a value. Where no
call is refused, the evaluation is the same without the guard; where one is
refused, the evaluator without the guard exceeds every depth of calls or
fails, so that it never ends with a value. -/
theorem guard_is_exact (i : Interpreter) (environment : Environment) (functions : UserFunctions)
    (locals : Locals) (source : List Char) :
    let world := i.world environment functions
    let start := Machine.start { rest := source, locals } i.operators i.operands
    let evaluated := i.evaluate environment functions locals source
    ((∀ name, evaluated.result ≠ .error (.recursiveCall name)) →
      ∃ steps halt, start.unguardedAfter world steps = .halted halt
        ∧ i.conclude halt = evaluated)
    ∧ ∀ name, evaluated.result = .error (.recursiveCall name) →
      (∀ bound, ∃ steps, (start.unguardedAfter world steps).Exceeds bound)
      ∧ ∀ steps halt, start.unguardedAfter world steps = .halted halt →
        ∃ e, halt.result = .error e := by
  intro world start evaluated
  have hresult : ∀ name, evaluated.result = .error (.recursiveCall name)
      ↔ (start.run world).result = .error (.recursiveCall name) := by
    intro name
    simp only [evaluated, evaluate, evaluateScope, conclude]
    cases (start.run world).result <;> simp [Except.map]
  constructor
  · intro hguarded
    obtain ⟨steps, halt, hhalt, hsame, herase⟩ := Machine.unguarded_of_run
      (n := start) (m := start) rfl fun name hname => hguarded name ((hresult name).2 hname)
    exact ⟨steps, halt, hhalt, conclude_eq_of_erase i hsame herase⟩
  · intro name hname
    have hexceeds : ∀ bound, ∃ steps, (start.unguardedAfter world steps).Exceeds bound :=
      Machine.exceeds_of_refused rfl ((hresult name).1 hname)
    exact ⟨hexceeds, fun steps halt => Machine.error_of_exceeds hexceeds⟩

/-- Two functions that call each other, one of them by its name in capitals,
are refused, and without the guard they call each other for ever. -/
theorem mutual_recursion_is_refused :
    let functions : UserFunctions := ⟨[
      { name := "ping", parameters := ["n"], body := "pong(n+1)" },
      { name := "pong", parameters := ["n"], body := "[PING(n)*2" }]⟩
    let i : Interpreter := {}
    (i.evaluate {} functions {} "1+ping(3)".toList).result = .error (.recursiveCall "ping")
      ∧ ∀ bound, ∃ steps, ((Machine.start { rest := "1+ping(3)".toList } i.operators
          i.operands).unguardedAfter (i.world {} functions) steps).Exceeds bound := by
  intro functions i
  have hrefused : (i.evaluate {} functions {} "1+ping(3)".toList).result
        = .error (.recursiveCall "ping")
      ∧ (i.evaluate {} functions {} "1+ping(3)".toList).rest = [] :=
    evaluateScope_of_runFor 40 (by decide +kernel)
  refine ⟨hrefused.1, ?_⟩
  exact ((i.guard_is_exact {} functions {} "1+ping(3)".toList).2 "ping" hrefused.1).1

end Interpreter

end ReminderExpr
