/-
ReminderExpr.Proofs.Inventory — a property of all values that an evaluation
holds.

The values that a machine holds are its operands and the values of local
names: those of the text being read, and those of the texts whose calls wait
for it. A property that regular values have, and that all values of the
environment have, stays with all that is held from step to step. The one thing
that can break it is the date that `coerce` makes of a moment before day 0.

* `Machine.passed?` — the arguments that the next step hands to a function;
* `Machine.CoercesEarly` — whether it makes a date of a moment before day 0;
* `Machine.Holds` — a property of all that is held;
* `confined_step`, `holds_of_reaches`, `confined_run` — a step, any number of
  steps, and whole runs.
-/
import ReminderExpr.Proofs.Levels
import ReminderExpr.Proofs.ValueOrigins

namespace ReminderExpr

/-- The values of local names. -/
def Locals.values (locals : Locals) : List Value := locals.bindings.map (·.2)

theorem Locals.mem_values_of_get? {locals : Locals} {name : String} {v : Value}
    (h : locals.get? name = some v) : v ∈ locals.values := by
  obtain ⟨binding, hbinding, rfl⟩ := Option.map_eq_some_iff.1 h
  exact List.mem_map_of_mem (List.mem_of_find?_eq_some hbinding)

/-- The values of the locals of a call are arguments of the call. -/
theorem UserFunction.mem_of_bind {f : UserFunction} {arguments : List Value} {locals : Locals}
    (h : f.bind arguments = .ok locals) {v : Value} (hv : v ∈ locals.values) :
    v ∈ arguments := by
  unfold UserFunction.bind at h
  split at h
  · cases h
  · split at h
    · cases h
    · cases h
      simp only [Locals.values, Locals.ofList, List.map_map] at hv
      obtain ⟨pair, hpair, rfl⟩ := List.mem_map.1 hv
      exact (List.of_mem_zip hpair).2

/-! ## Popped operands -/

namespace Stack

variable {α : Type} {s t : Stack α}

/-- What is popped was on the stack, and so was what is left. -/
theorem mem_of_popMany? {count : Nat} {popped : List α}
    (h : s.popMany? count = some (popped, t)) : popped ⊆ s.entries ∧ t.entries ⊆ s.entries := by
  unfold popMany? at h
  split at h
  · cases h
    exact ⟨fun v hv => List.mem_of_mem_take (List.mem_reverse.1 hv),
      fun v hv => List.mem_of_mem_drop hv⟩
  · cases h

theorem mem_of_pop? {a : α} (h : s.pop? = some (a, t)) :
    a ∈ s.entries ∧ t.entries ⊆ s.entries := by
  rw [pop?_eq_some_iff] at h
  rw [h]
  exact ⟨List.mem_cons_self, List.subset_cons_self a t.entries⟩

end Stack

/-! ## What a machine holds -/

/-- Whether a call makes a date of a moment before day 0. -/
def IsEarlyCoercion (name : String) (arguments : List Value) : Prop :=
  Builtin.ofName? name = some .coerce ∧ ∃ kindName moment,
    arguments = [.str kindName, .dateTime moment] ∧ ValueKind.ofName? kindName = some .date
      ∧ moment < 0

namespace Machine

/-- The function that the next step calls, with the arguments that it is
handed; a call without arguments hands nothing on. -/
def passed? (m : Machine) : Option (String × List Value) :=
  match m.phase, m.frames with
  | .holding (.terminator .rightParen), .argument _ name count :: _ =>
      if m.mustApply (.terminator .rightParen) then none
      else (m.operands.popMany? (count + 1)).map fun popped => (name, popped.1)
  | _, _ => none

/-- Whether the next step makes a date of a moment before day 0. -/
def CoercesEarly (m : Machine) : Prop :=
  ∃ name arguments, m.passed? = some (name, arguments) ∧ IsEarlyCoercion name arguments

/-- A property of all values that a machine holds. -/
structure Holds (P : Value → Prop) (m : Machine) : Prop where
  operands : ∀ v ∈ m.operands.entries, P v
  locals : ∀ v ∈ m.scope.locals.values, P v
  callers : ∀ caller ∈ m.callers, ∀ v ∈ caller.locals.values, P v

end Machine

/-- A property of the value that an evaluation ends with, or of all values
that it holds. -/
def Outcome.Confined (P : Value → Prop) : Outcome → Prop
  | .running m => m.Holds P
  | .halted h => Gives (fun found => P found.1) h.result

namespace Machine

variable {world : World} {m m' : Machine} {P : Value → Prop}

/-- The property is not broken by the date of a moment before day 0: the next
step makes no such date, or that has the property too. -/
def Spares (P : Value → Prop) (m : Machine) : Prop :=
  m.CoercesEarly → ∀ w : Value, w.WithinDay → P w

/-! ## The parts of a step -/

theorem confined_fail (e : EvalError) : (m.fail e).Confined P := gives_error e

theorem Holds.withRest (h : m.Holds P) (rest : List Char) : (m.withRest rest).Holds P :=
  ⟨h.operands, h.locals, h.callers⟩

/-- Operands taken off leave the others. -/
theorem Holds.popped (h : m.Holds P) {operands : Stack Value}
    (hsub : operands.entries ⊆ m.operands.entries) : Holds P { m with operands } :=
  ⟨fun v hv => h.operands v (hsub hv), h.locals, h.callers⟩

theorem Holds.pushed (h : m.Holds P) {v : Value} (hv : P v) (phase : Phase) :
    Holds P { m with operands := m.operands.push v, phase } :=
  ⟨List.forall_mem_cons.2 ⟨hv, h.operands⟩, h.locals, h.callers⟩

/-- The callers that wait for the levels outside wait for all levels. -/
theorem callers_of_frames {frame : Frame} {frames : List Frame}
    (hframes : m.frames = frame :: frames) :
    frames.filterMap Frame.caller? ⊆ m.callers := by
  rw [callers, hframes]
  exact ((List.sublist_cons_self frame frames).filterMap Frame.caller?).subset

/-- A level that is closed holds nothing on. -/
theorem Holds.closed (h : m.Holds P) {frame : Frame} {frames : List Frame}
    (hframes : m.frames = frame :: frames) (base : Heights) :
    Holds P { m with frames, base } :=
  ⟨h.operands, h.locals, fun caller hc => h.callers caller (callers_of_frames hframes hc)⟩

/-- A body that ends gives way to the text that called it. -/
theorem Holds.returned (h : m.Holds P) {base : Heights} {caller : Scope} {frames : List Frame}
    (hframes : m.frames = .body base caller :: frames) :
    Holds P { m with frames, base, scope := caller } := by
  have hcaller : caller ∈ m.callers := by
    rw [Machine.callers, hframes]
    exact List.mem_cons_self
  exact ⟨h.operands, h.callers caller hcaller, (h.closed hframes base).callers⟩

theorem confined_deliver (h : m.Holds P) {v : Value} (hv : P v) :
    (m.deliver world v).Confined P := by
  unfold deliver
  split
  · exact confined_fail _
  · exact h.pushed hv .operator

theorem confined_settle (h : m.Holds P) {r : Result Value} (hr : Gives P r) :
    (m.settle world r).Confined P := by
  cases r with
  | error e => exact confined_fail e
  | ok v => exact confined_deliver h ((gives_ok v).1 hr)

theorem confined_pushOperator (h : m.Holds P) (op : PendingOp) (phase : Phase) :
    (m.pushOperator world op phase).Confined P := by
  unfold pushOperator
  split
  · exact confined_fail _
  · exact ⟨h.operands, h.locals, h.callers⟩

theorem confined_openLevel (h : m.Holds P) (frame : Frame) (hframe : frame.caller? = none) :
    (m.openLevel frame).Confined P := by
  refine ⟨h.operands, h.locals, fun caller hcaller => h.callers caller ?_⟩
  rwa [callers, List.filterMap_cons_none hframe] at hcaller

/-- What a step hands to a function are operands. -/
theorem mem_of_passed? {name : String} {arguments : List Value}
    (h : m.passed? = some (name, arguments)) : arguments ⊆ m.operands.entries := by
  unfold passed? at h
  split at h
  · split at h
    · cases h
    · obtain ⟨popped, hpopped, heq⟩ := Option.map_eq_some_iff.1 h
      cases heq
      exact (Stack.mem_of_popMany? hpopped).1
  · cases h

theorem holds_start {scope : Scope} (hlocals : ∀ v ∈ scope.locals.values, P v) :
    (start scope .empty .empty).Holds P :=
  ⟨nofun, hlocals, nofun⟩

/-- A call while no operands wait hands nothing on. -/
theorem not_early_of_empty {name : String} {count : Nat} {arguments : List Value}
    {operands : Stack Value} (h : Stack.empty.popMany? count = some (arguments, operands)) :
    ¬ IsEarlyCoercion name arguments := by
  rintro ⟨-, _, _, rfl, -⟩
  exact absurd ((Stack.mem_of_popMany? h).1 List.mem_cons_self) (by simp)

/-- A step that hands arguments to a function calls it when these are the top
operands, unless it fails before. -/
theorem step_of_passed? {name : String} {arguments : List Value}
    (h : m.passed? = some (name, arguments)) :
    (∃ halt e, m.step world = .halted halt ∧ halt.result = .error e)
      ∨ ∃ (n : Machine) (operands : Stack Value),
          m.step world = n.enter world name arguments.length
          ∧ n.operands.popMany? arguments.length = some (arguments, operands) := by
  unfold passed? at h
  split at h
  · rename_i base name' count frames hphase hframes
    split at h
    · cases h
    · rename_i hready
      obtain ⟨⟨popped, below⟩, hpopped, heq⟩ := Option.map_eq_some_iff.1 h
      cases heq
      have hlength := Stack.length_of_popMany? hpopped
      have hstep : m.step world = m.takeTerminator world .rightParen := by
        rw [step, hphase]
        exact if_neg hready
      rw [hstep, takeTerminator]
      split
      · exact .inl ⟨_, _, rfl, rfl⟩
      · split
        · exact .inl ⟨_, _, rfl, rfl⟩
        · rename_i v operands hpop
          have hpush : operands.push v = m.operands :=
            Stack.ext (Stack.pop?_eq_some_iff.1 hpop).symm
          unfold closeLevel
          dsimp only
          rw [hframes]
          dsimp only
          rcases deliver_cases world { m with operands } v with hd | hd
          · rw [hframes] at hd
            rw [hd]
            exact .inl ⟨_, _, rfl, rfl⟩
          · rw [hframes] at hd
            rw [hd, hlength]
            refine .inr ⟨_, below, rfl, ?_⟩
            rw [hpush]
            exact hpopped
  · cases h

section Steps

variable (hregular : ∀ v : Value, v.Regular → P v)
  (hheld : ∀ v ∈ world.environment.values, P v)

include hregular

/-! ## Operators -/

theorem confined_applyTop (h : m.Holds P) : (m.applyTop world).Confined P := by
  unfold applyTop
  split
  · exact confined_fail _
  · split
    · exact confined_fail _
    · rename_i hpop
      split
      · exact confined_fail _
      · rename_i hresult
        have hrest := h.popped (Stack.mem_of_pop? hpop).2
        have hpushed := hrest.pushed (hregular _ (regular_unaryApply _ _ _ hresult)) m.phase
        exact ⟨hpushed.operands, hpushed.locals, hpushed.callers⟩
  · split
    · exact confined_fail _
    · rename_i hright
      split
      · exact confined_fail _
      · rename_i hleft
        split
        · exact confined_fail _
        · rename_i hresult
          have hrest := h.popped
            (List.Subset.trans (Stack.mem_of_pop? hleft).2 (Stack.mem_of_pop? hright).2)
          have hpushed :=
            hrest.pushed (hregular _ (regular_binaryApply _ _ _ _ _ hresult)) m.phase
          exact ⟨hpushed.operands, hpushed.locals, hpushed.callers⟩

include hheld

/-! ## Calls -/

/-- A call takes its value from what is held, or the locals of the body that
is to be evaluated. -/
theorem confined_call (h : m.Holds P) {name : String} {count : Nat}
    (hspared : ∀ arguments operands, m.operands.popMany? count = some (arguments, operands) →
      IsEarlyCoercion name arguments → ∀ w : Value, w.WithinDay → P w) :
    (m.call world name count).2.Holds P
      ∧ (∀ v, (m.call world name count).1 = .ok (.value v) → P v)
      ∧ ∀ f locals, (m.call world name count).1 = .ok (.body f locals) →
          ∀ v ∈ locals.values, P v := by
  unfold call
  split
  · rename_i builtin hbuiltin
    split
    · exact ⟨h, nofun, nofun⟩
    · dsimp only
      split
      · exact ⟨⟨h.operands, h.locals, h.callers⟩, nofun, nofun⟩
      · rename_i arguments operands hpop
        obtain ⟨harguments, hoperands⟩ := Stack.mem_of_popMany? hpop
        have hpopped := h.popped hoperands
        refine ⟨⟨hpopped.operands, hpopped.locals, hpopped.callers⟩, fun v hv => ?_,
          fun f locals hbody => ?_⟩
        · cases happly : builtin.apply world.environment world.functions arguments with
          | error e =>
            rw [happly] at hv
            cases hv
          | ok w =>
            rw [happly] at hv
            cases hv
            cases Builtin.origin_of_apply happly with
            | regular hw => exact hregular _ hw
            | argument hw => exact h.operands _ (harguments hw)
            | held hw => exact hheld _ hw
            | early hb hvs hkind hcoerce hw =>
              subst hb
              obtain ⟨rfl, moment, rfl, hmoment⟩ := hcoerce
              exact hspared arguments operands hpop
                ⟨hbuiltin, _, moment, hvs, hkind, hmoment⟩ _ hw
        · cases happly : builtin.apply world.environment world.functions arguments <;>
            rw [happly] at hbody <;> cases hbody
  · split
    · exact ⟨h, nofun, nofun⟩
    · rename_i f _
      split
      · exact ⟨h, nofun, nofun⟩
      · rename_i arguments operands hpop
        obtain ⟨harguments, hoperands⟩ := Stack.mem_of_popMany? hpop
        refine ⟨h.popped hoperands, fun v hv => ?_, fun f' locals hbody v hv => ?_⟩
        · cases hbind : bindCall m.scope.active f arguments <;>
            rw [hbind] at hv <;> cases hv
        · cases hbind : bindCall m.scope.active f arguments with
          | error e =>
            rw [hbind] at hbody
            cases hbody
          | ok bound =>
            rw [hbind] at hbody
            cases hbody
            unfold bindCall at hbind
            split at hbind
            · cases hbind
            · exact h.operands _ (harguments (UserFunction.mem_of_bind hbind hv))

theorem confined_enter (h : m.Holds P) {name : String} {count : Nat}
    (hspared : ∀ arguments operands, m.operands.popMany? count = some (arguments, operands) →
      IsEarlyCoercion name arguments → ∀ w : Value, w.WithinDay → P w) :
    (m.enter world name count).Confined P := by
  obtain ⟨hm, hvalue, hbody⟩ := confined_call hregular hheld h hspared
  unfold enter
  split
  · exact confined_fail _
  · rename_i hcall
    rw [hcall] at hm hvalue
    exact confined_deliver hm (hvalue _ rfl)
  · rename_i f locals n hcall
    rw [hcall] at hm hbody
    refine ⟨hm.operands, hbody f locals rfl, fun caller hcaller => ?_⟩
    rcases List.mem_cons.1 hcaller with rfl | hcaller
    · exact hm.locals
    · exact hm.callers caller hcaller

/-! ## Reading -/

theorem confined_takeWord (h : m.Holds P) (text : String) :
    (m.takeWord world text).Confined P := by
  unfold takeWord
  split
  · exact confined_settle h fun v hv => hregular v (regular_numberOrTime _ _ v hv)
  · have hflagged : Holds P
        { m with nonconst := m.nonconst || (resolve world m.scope.locals text).2 } :=
      ⟨h.operands, h.locals, h.callers⟩
    refine confined_settle hflagged fun v hv => ?_
    unfold resolve at hv
    split at hv
    · rename_i hlocal
      cases hv
      exact h.locals _ (Locals.mem_values_of_get? hlocal)
    · exact (Environment.lookup_regular_or_mem hv).elim (hregular v) (hheld v)

theorem confined_takeAtom (h : m.Holds P) (t : Token) : (m.takeAtom world t).Confined P := by
  unfold takeAtom
  split
  · exact confined_fail _
  · exact confined_openLevel h (.group m.base) rfl
  · split
    · exact h
    · split
      · exact confined_pushOperator h _ _
      · exact confined_fail _
  · rename_i name
    split
    · rename_i rest _
      refine confined_enter hregular hheld (h.withRest rest) fun arguments _ hpop hearly => ?_
      -- A call without arguments coerces nothing.
      obtain ⟨-, _, _, rfl, -⟩ := hearly
      exact absurd (Stack.length_of_popMany? hpop) (by simp)
    · exact confined_openLevel (h.withRest _) (.argument m.base name 0) rfl
  · exact confined_deliver h (hregular _ (Value.regular_str _))
  · exact confined_settle h fun v hv => hregular v (regular_quotedDate _ _ v hv)
  · exact confined_takeWord hregular hheld h _
  all_goals exact confined_fail _

omit hregular hheld in
theorem confined_takeOperator (h : m.Holds P) (t : Token) : (m.takeOperator t).Confined P := by
  unfold takeOperator
  split
  · exact ⟨h.operands, h.locals, h.callers⟩
  · split
    · split
      · exact ⟨h.operands, h.locals, h.callers⟩
      · exact confined_fail _
    · exact confined_fail _

/-! ## Levels -/

theorem confined_closeLevel (h : m.Holds P) {t : Terminator} {v : Value} (hv : P v)
    (hspared : ∀ base name count frames, m.frames = .argument base name count :: frames →
      t = .rightParen → ∀ arguments operands,
        (m.operands.push v).popMany? (count + 1) = some (arguments, operands) →
          IsEarlyCoercion name arguments → ∀ w : Value, w.WithinDay → P w) :
    (m.closeLevel world t v).Confined P := by
  unfold closeLevel
  split
  · exact (gives_ok _).2 hv
  · rename_i base frames hframes
    split
    · exact confined_deliver (h.closed hframes base) hv
    · exact confined_fail _
  · rename_i base name count frames hframes
    split
    · rename_i halt hdeliver
      have hconfined : (m.deliver world v).Confined P := confined_deliver h hv
      rwa [hdeliver] at hconfined
    · rename_i n hdeliver
      rw [of_deliver hdeliver]
      have hpushed := h.pushed hv .operator
      split
      · exact confined_openLevel (hpushed.closed hframes m.base)
          (.argument base name (count + 1)) rfl
      · exact confined_enter hregular hheld (hpushed.closed hframes base)
          (hspared base name count frames hframes rfl)
      · exact confined_fail _
      · exact confined_fail _
  · rename_i base caller frames hframes
    exact confined_deliver (h.returned hframes) hv

theorem confined_takeHeld (h : m.Holds P) {held : Held} (hphase : m.phase = .holding held)
    (hspared : m.Spares P) : (m.takeHeld world held).Confined P := by
  unfold takeHeld
  split
  · exact confined_applyTop hregular h
  · rename_i hready
    split
    · rename_i t
      unfold takeTerminator
      split
      · exact confined_fail _
      · split
        · exact confined_fail _
        · rename_i v operands hpop
          obtain ⟨hv, hsub⟩ := Stack.mem_of_pop? hpop
          refine confined_closeLevel hregular hheld (h.popped hsub) (h.operands v hv) ?_
          rintro base name count frames hframes rfl arguments rest hmany hearly
          -- The value that is handed on was the top operand before.
          have hpush : operands.push v = m.operands :=
            Stack.ext (Stack.pop?_eq_some_iff.1 hpop).symm
          refine hspared ⟨name, arguments, ?_, hearly⟩
          rw [hpush] at hmany
          have hframes : m.frames = .argument base name count :: frames := hframes
          simp only [passed?, hphase, hframes, if_neg hready, hmany, Option.map_some]
    · exact confined_pushOperator h _ _

/-! ## Steps and runs -/

/-- A step keeps a property of all that is held. -/
theorem confined_step (h : m.Holds P) (hspared : m.Spares P) : (m.step world).Confined P := by
  unfold step readThen
  split
  · split
    · exact confined_fail _
    · rename_i rest _
      exact confined_takeAtom hregular hheld (h.withRest rest) _
  · split
    · exact confined_fail _
    · rename_i rest _
      exact confined_takeOperator (h.withRest rest) _
  · rename_i hphase
    exact confined_takeHeld hregular hheld h hphase hspared

/-- What is held has the property wherever an evaluation gets to. -/
theorem holds_of_reaches (h : m.Holds P) (hspared : ∀ n, m.Reaches world n → n.Spares P)
    (hreach : m.Reaches world m') : m'.Holds P := by
  induction hreach with
  | refl => exact h
  | tail hfirst hstep ih =>
    have hnext := confined_step hregular hheld ih (hspared _ hfirst)
    rwa [hstep] at hnext

/-- The value that an evaluation ends with has the property. -/
theorem confined_run (h : m.Holds P) (hspared : ∀ n, m.Reaches world n → n.Spares P) :
    Gives (fun found => P found.1) (m.run world).result := by
  obtain ⟨last, hreach, hlast⟩ := exists_last_of_run world m
  have hend := confined_step hregular hheld
    (holds_of_reaches hregular hheld h hspared hreach) (hspared last hreach)
  rwa [hlast] at hend

end Steps

end Machine

end ReminderExpr
