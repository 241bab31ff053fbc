/-
ReminderExpr.Proofs.SessionValues — the values that pass through a session.

Values come into a session with its steps (`Step.values`) and leave it with
its answers (`Answer.values`); between steps they are held by variables, system
variables and the host (`Environment.values`), and during a step by the
machines that it visits (`Session.Visits`). A property of regular values, of
what is held at first and of what comes in is therefore one of all that is
held or answered later, unless a moment before day 0 is coerced to a date.

* `Session.scopes` — the evaluations that a step starts;
* `Interpreter.gives_evaluateScope`, … — a property of what is evaluated;
* `Session.Confines` — a property of all that a step answers and leaves;
* `Session.confines_step`, `Session.held_run` — steps and histories.
-/
import ReminderExpr.Proofs.History
import ReminderExpr.Proofs.Inventory
import ReminderExpr.Proofs.Settings

namespace ReminderExpr

/-! ## Values that come in and go out -/

/-- The dates and times that a change of the host brings in. -/
def HostChange.values (change : HostChange) : List Value :=
  change.today.toList.map .date ++ change.realToday.toList.map .date
    ++ change.now.toList.map .time ++ change.realNow.toList.map .time
    ++ change.triggerDay.toList.map .date ++ change.triggerTime.toList.map .time

/-- The values that a step brings in from outside. What system variables are
assigned is left out: they accept no dates and no times. -/
def Step.values : Step → List Value
  | .eval _ locals | .evalAll _ locals | .resolve _ locals => locals.values
  | .invoke _ arguments _ => arguments
  | .setVar _ v => [v]
  | .host change => change.values
  | _ => []

/-- The value that is shown of an evaluation, if it has one. -/
def Shown.values (e : Shown) : List Value := (e.result.map (·.value)).toOption.toList

/-- The values that an answer shows. -/
def Answer.values : Answer → List Value
  | .evaluation e => e.values
  | .evaluations es => es.flatMap Shown.values
  | .value r => r.toOption.toList
  | .variable v _ => v.toList.map (·.value)
  | .globals vs _ _ => vs.map (·.1.value)
  | _ => []

/-! ## Changes of the environment -/

namespace Variables

variable {vars vars' : Variables} {name : String} {v w : Value}

theorem mem_insertEntry {entry u : Variable} {entries : List Variable}
    (h : u ∈ insertEntry entry entries) : u = entry ∨ u ∈ entries := by
  induction entries with
  | nil => exact .inl (List.mem_singleton.1 h)
  | cons head rest ih =>
    unfold insertEntry at h
    split at h
    · rcases List.mem_cons.1 h with rfl | h
      · exact .inr List.mem_cons_self
      · exact (ih h).imp_right (List.mem_cons_of_mem head)
    · exact List.mem_cons.1 h

/-- Protecting an entry keeps all values. -/
theorem values_protected :
    (vars.modify name fun u => { u with preserved := true }).values = vars.values := by
  simp only [values, modify, List.map_map]
  refine List.map_congr_left fun u _ => ?_
  dsimp only [Function.comp]
  split <;> rfl

theorem mem_values_of_set (h : vars.set name v = .ok vars') (hw : w ∈ vars'.values) :
    w = v ∨ w ∈ vars.values := by
  unfold set at h
  split at h
  · cases h
  · split at h
    · cases h
      obtain ⟨changed, hchanged, rfl⟩ := List.mem_map.1 hw
      obtain ⟨u, hu, rfl⟩ := List.mem_map.1 hchanged
      dsimp only
      split
      · exact .inl rfl
      · exact .inr (List.mem_map_of_mem hu)
    · cases h
      obtain ⟨u, hu, rfl⟩ := List.mem_map.1 hw
      rcases mem_insertEntry hu with rfl | hu
      · exact .inl rfl
      · exact .inr (List.mem_map_of_mem hu)

theorem mem_values_of_delete (h : vars.delete name = .ok (v, vars')) :
    v ∈ vars.values ∧ vars'.values ⊆ vars.values := by
  unfold delete at h
  split at h
  · cases h
  · rename_i hfound
    cases h
    obtain ⟨entry, hentry, rfl⟩ := Option.map_eq_some_iff.1 hfound
    refine ⟨List.mem_map_of_mem (List.mem_of_find?_eq_some hentry), ?_⟩
    exact List.map_subset _ List.filter_sublist.subset

theorem mem_values_of_preserve (h : vars.preserve name = .ok vars') (hw : w ∈ vars'.values) :
    w = .int 0 ∨ w ∈ vars.values := by
  unfold preserve at h
  split at h
  · cases h
    rw [values_protected] at hw
    exact .inr hw
  · cases hset : vars.set name (.int 0) with
    | error e =>
      rw [hset] at h
      cases h
    | ok created =>
      rw [hset] at h
      cases h
      rw [values_protected] at hw
      exact mem_values_of_set hset hw

theorem values_clear (all : Bool) : (vars.clear all).values ⊆ vars.values := by
  unfold clear
  cases all with
  | true => exact List.nil_subset _
  | false => exact List.map_subset _ List.filter_sublist.subset

end Variables

namespace SystemVariables

/-- A system variable that is stored is an integer or a string. -/
theorem regular_of_stored {name : String} {v : SystemVariable} {value : Value}
    (hfound : SystemVariable.find? name = some v) (hkind : value.kind = v.kind)
    (hview : v.isView = false) : value.Regular := by
  have hv := (SystemVariable.find?_eq_some_iff.1 hfound).1
  rw [← SystemVariable.kind_access v hv] at hkind
  unfold SystemVariable.isView at hview
  cases haccess : v.access with
  | special view =>
    rw [haccess] at hview
    cases hview
  | int initial =>
    rw [haccess] at hkind
    cases value <;> first | exact Value.regular_int _ | cases hkind
  | str initial =>
    rw [haccess] at hkind
    cases value <;> first | exact Value.regular_str _ | cases hkind

theorem mem_values_of_store {vars : SystemVariables} {v : SystemVariable} {value w : Value}
    (h : w ∈ (vars.store v value).values) : w = value ∨ w ∈ vars.values := by
  rcases List.mem_cons.1 h with h | h
  · exact .inl h
  · obtain ⟨entry, hentry, rfl⟩ := List.mem_map.1 h
    exact .inr (List.mem_map_of_mem (List.mem_filter.1 hentry).1)

end SystemVariables

/-- No view that can be written shows a date or a time. -/
theorem Special.readings_write {host host' : HostState} {value : Value} {view : Special}
    (h : view.write host value = .ok host') : host'.readings = host.readings := by
  cases view with
  | dateSep =>
    obtain ⟨c, -, -, rfl⟩ := of_write_separator h
    rfl
  | timeSep =>
    obtain ⟨c, -, -, rfl⟩ := of_write_separator h
    rfl
  | maxStringLen =>
    simp only [write] at h
    cases value with
    | int n =>
      cases h
      rfl
    | _ => cases h
  | _ => cases h

/-- A change of the host shows what it brings in and what was shown before. -/
theorem HostChange.mem_readings_apply {change : HostChange} {host : HostState} {w : Value}
    (h : w ∈ (change.apply host).readings) : w ∈ change.values ∨ w ∈ host.readings := by
  have field : ∀ {make : Int → Value} {new : Option Int} {old : Int},
      new.toList.map make ⊆ change.values → make old ∈ host.readings →
        make (new.getD old) ∈ change.values ∨ make (new.getD old) ∈ host.readings := by
    intro make new old hnew hold
    cases new with
    | none => exact .inr hold
    | some n => exact .inl (hnew List.mem_cons_self)
  simp only [HostState.readings, List.mem_cons, List.not_mem_nil, or_false] at h
  rcases h with rfl | rfl | rfl | rfl | rfl | rfl <;>
    exact field (fun v hv => by simp [values, hv]) (by simp [HostState.readings])

/-! ## Evaluations -/

/-- The texts at whose fronts evaluations of one expression after another
start, if they are `es`. -/
def evaluatedTexts (source : List Char) (es : List Evaluated) : List (List Char) :=
  source :: es.dropLast.map (·.rest)

/-- A call by name while no operands wait leaves none. -/
theorem Machine.operands_call_empty (world : World) (name : String) (count : Nat) :
    ((Machine.start { rest := [] } .empty .empty).call world name count).2.operands = .empty := by
  have hle := (Machine.heights_call_le world (Machine.start { rest := [] } .empty .empty)
    name count).2
  generalize ((Machine.start { rest := [] } .empty .empty).call world name count).2.operands
    = operands at hle ⊢
  have hzero : operands.height = 0 := Nat.le_zero.1 hle
  rw [operands.height_eq, List.length_eq_zero_iff] at hzero
  exact Stack.ext hzero

namespace Interpreter

variable {i : Interpreter} {environment : Environment} {functions : UserFunctions}
  {P : Value → Prop}

theorem evaluatedTexts_cons {source : List Char} (e : Evaluated) {es : List Evaluated}
    (h : es ≠ []) : evaluatedTexts source (e :: es) = source :: evaluatedTexts e.rest es := by
  rw [evaluatedTexts, List.dropLast_cons_of_ne_nil h, evaluatedTexts, List.map_cons]

theorem evaluateAll_ne_nil (i : Interpreter) (locals : Locals) (source : List Char) :
    i.evaluateAll environment functions locals source ≠ [] := by
  rw [evaluateAll]
  split
  · exact List.cons_ne_nil _ _
  · split <;> exact List.cons_ne_nil _ _

section Confined

variable (hregular : ∀ v : Value, v.Regular → P v) (hheld : ∀ v ∈ environment.values, P v)

include hregular hheld

/-- The value of an expression has the property. -/
theorem gives_evaluateScope (h : i.AtRest) {scope : Scope}
    (hlocals : ∀ v ∈ scope.locals.values, P v)
    (hspared : ∀ m, (Machine.start scope .empty .empty).Reaches (i.world environment functions) m →
      m.Spares P) :
    Gives (fun found : Evaluation => P found.value)
      (i.evaluateScope environment functions scope).result := by
  have hend : Gives (fun found => P found.1)
      ((Machine.start scope .empty .empty).run (i.world environment functions)).result :=
    Machine.confined_run hregular hheld (Machine.holds_start hlocals) hspared
  rw [evaluateScope, h.operators, h.operands]
  exact Gives.map fun found hfound => hend found hfound

/-- The values of expressions one after another have it. -/
theorem gives_evaluateAll (h : i.AtRest) {locals : Locals} {source : List Char}
    (hlocals : ∀ v ∈ locals.values, P v)
    (hspared : ∀ rest ∈ evaluatedTexts source
        (i.evaluateAll environment functions locals source),
      ∀ m, (Machine.start { rest, locals } .empty .empty).Reaches
        (i.world environment functions) m → m.Spares P) :
    ∀ e ∈ i.evaluateAll environment functions locals source,
      Gives (fun found : Evaluation => P found.value) e.result := by
  induction hn : source.length using Nat.strongRecOn generalizing i source with
  | ind n ih =>
    have hfirst : Gives (fun found : Evaluation => P found.value)
        (i.evaluateScope environment functions { rest := source, locals }).result :=
      gives_evaluateScope hregular hheld h hlocals (hspared source List.mem_cons_self)
    obtain ⟨flag, hkept⟩ := evaluateScope_keeps h environment functions
      { rest := source, locals }
    rw [evaluateAll, evaluate] at hspared ⊢
    generalize i.evaluateScope environment functions { rest := source, locals } = e
      at hfirst hkept hspared ⊢
    obtain ⟨result, rest, interpreter⟩ := e
    dsimp only at hkept
    subst hkept
    cases result with
    | error e => exact List.forall_mem_singleton.2 hfirst
    | ok found =>
      dsimp only at hspared ⊢
      split at hspared
      · rename_i hmore
        rw [dif_pos hmore]
        refine List.forall_mem_cons.2 ⟨hfirst, ih rest.length (hn ▸ hmore.2)
          (h.raised flag) ?_ rfl⟩
        intro text htext
        rw [evaluatedTexts_cons _ (evaluateAll_ne_nil _ _ _)] at hspared
        exact hspared text (List.mem_cons_of_mem _ htext)
      · rename_i hlast
        rw [dif_neg hlast]
        exact List.forall_mem_singleton.2 hfirst

theorem gives_evaluateText (h : i.AtRest) {text : String}
    (hspared : ∀ m, (Machine.start { rest := text.toList } .empty .empty).Reaches
      (i.world environment functions) m → m.Spares P) :
    Gives P (i.evaluateText environment functions text).1 :=
  Gives.map (gives_evaluateScope hregular hheld h nofun hspared)

theorem gives_evaluateBody (h : i.AtRest) {f : UserFunction} {locals : Locals}
    (hlocals : ∀ v ∈ locals.values, P v)
    (hspared : ∀ m, (Machine.start (Machine.bodyScope [] f locals) .empty .empty).Reaches
      (i.world environment functions) m → m.Spares P) :
    Gives P (i.evaluateBody environment functions f locals).1 :=
  Gives.map (gives_evaluateScope hregular hheld h hlocals hspared)

/-- A call by name while no operands wait gives a value that has it, or the
locals of a body. -/
theorem confined_call_empty (i : Interpreter) (functions : UserFunctions) (name : String)
    (count : Nat) :
    let called := ((Machine.start { rest := [] } .empty .empty).call
      (i.world environment functions) name count).1
    (∀ v, called = .ok (.value v) → P v)
      ∧ ∀ f locals, called = .ok (.body f locals) → ∀ v ∈ locals.values, P v := by
  intro called
  have hnothing : (Machine.start { rest := [] } .empty .empty).Holds P :=
    Machine.holds_start nofun
  exact (Machine.confined_call hregular hheld hnothing
    fun _ _ hpop hearly => absurd hearly (Machine.not_early_of_empty hpop)).2

/-- The value of a call by name has it. -/
theorem gives_call (h : i.AtRest) {name : String} {count : Nat}
    (hspared : ∀ f locals,
      ((Machine.start { rest := [] } .empty .empty).call (i.world environment functions)
          name count).1 = .ok (.body f locals) →
        ∀ m, (Machine.start (Machine.bodyScope [] f locals) .empty .empty).Reaches
          (i.world environment functions) m → m.Spares P) :
    Gives P (i.call environment functions name count).1 := by
  obtain ⟨hvalue, hbody⟩ := confined_call_empty hregular hheld i functions name count
  have hempty := Machine.operands_call_empty (i.world environment functions) name count
  unfold call
  rw [h.operators, h.operands]
  dsimp only
  generalize Machine.call _ _ _ _ = called at hvalue hbody hempty hspared ⊢
  obtain ⟨r, m⟩ := called
  cases r with
  | error e => exact gives_error e
  | ok c =>
    cases c with
    | value v => exact (gives_ok v).2 (hvalue v rfl)
    | body f locals =>
      let after : Interpreter :=
        { config := i.config, operators := .empty, operands := m.operands,
          nonconst := i.nonconst || m.nonconst }
      have hafter : after.AtRest := ⟨rfl, hempty⟩
      exact gives_evaluateBody hregular hheld hafter (hbody f locals rfl) (hspared f locals rfl)

end Confined

end Interpreter

/-! ## Steps -/

namespace Session

/-- The scopes of the evaluations that a step starts, one after another, each
on empty stacks. -/
def scopes (s : Session) : Step → List Scope
  | .eval source locals => [{ rest := source.toList, locals }]
  | .evalAll source locals =>
      (evaluatedTexts source.toList
        (s.interpreter.evaluateAll s.environment s.callable locals source.toList)).map
          fun rest => { rest, locals }
  | .evalText source | .assign _ source => [{ rest := source.toList }]
  | .call name count =>
      match ((Machine.start { rest := [] } .empty .empty).call
          (s.interpreter.world s.environment s.callable) name count).1 with
      | .ok (.body f locals) => [Machine.bodyScope [] f locals]
      | _ => []
  | .invoke name arguments known =>
      match if known then s.functions.find? name else none with
      | none => []
      | some f =>
          match Machine.bindCall [] f arguments with
          | .ok locals => [Machine.bodyScope [] f locals]
          | .error _ => []
  | _ => []

/-- Whether a machine is a state of an evaluation that a step starts. -/
def Visits (s : Session) (st : Step) (m : Machine) : Prop :=
  ∃ scope ∈ s.scopes st, (Machine.start scope .empty .empty).Reaches
    (s.interpreter.world s.environment s.callable) m

/-- A property of all values that a step answers, leaves and holds meanwhile. -/
structure Confines (P : Value → Prop) (s : Session) (st : Step) : Prop where
  held : ∀ v ∈ (s.step st).2.environment.values, P v
  answered : ∀ v ∈ (s.step st).1.values, P v
  visited : ∀ m, s.Visits st m → m.Holds P

variable {s : Session} {st : Step} {P : Value → Prop}

section Confined

variable (hregular : ∀ v : Value, v.Regular → P v) (hheld : ∀ v ∈ s.environment.values, P v)

include hregular hheld

/-- The local names of all evaluations that a step starts have values with the
property, if what the step brings in has it. -/
theorem locals_of_scopes (hvalues : ∀ v ∈ st.values, P v) :
    ∀ scope ∈ s.scopes st, ∀ v ∈ scope.locals.values, P v := by
  have nothing : ∀ v ∈ ({} : Locals).values, P v := nofun
  intro scope hscope
  cases st with
  | eval source locals =>
    rw [List.mem_singleton.1 hscope]
    exact hvalues
  | evalAll source locals =>
    obtain ⟨rest, -, rfl⟩ := List.mem_map.1 hscope
    exact hvalues
  | evalText source =>
    rw [List.mem_singleton.1 hscope]
    exact nothing
  | assign name source =>
    rw [List.mem_singleton.1 hscope]
    exact nothing
  | call name count =>
    have hbody :=
      (Interpreter.confined_call_empty hregular hheld s.interpreter s.callable name count).2
    simp only [scopes] at hscope
    split at hscope
    · rename_i f locals hcall
      rw [List.mem_singleton.1 hscope]
      exact hbody f locals hcall
    · cases hscope
  | invoke name arguments known =>
    simp only [scopes] at hscope
    split at hscope
    · cases hscope
    · split at hscope
      · rename_i locals hbind
        rw [List.mem_singleton.1 hscope]
        unfold Machine.bindCall at hbind
        split at hbind
        · cases hbind
        · exact fun v hv => hvalues v (UserFunction.mem_of_bind hbind hv)
      · cases hscope
  | _ => cases hscope

theorem holds_of_visits (hvalues : ∀ v ∈ st.values, P v)
    (hspared : ∀ m, s.Visits st m → m.Spares P) {m : Machine} (h : s.Visits st m) :
    m.Holds P := by
  obtain ⟨scope, hscope, hreach⟩ := h
  exact Machine.holds_of_reaches hregular hheld
    (Machine.holds_start (locals_of_scopes hregular hheld hvalues scope hscope))
    (fun n hn => hspared n ⟨scope, hscope, hn⟩) hreach

/-! ### What is left -/

omit hregular in
theorem held_withVariables {r : Result Variables}
    (h : ∀ vars, r = .ok vars → ∀ v ∈ vars.values, P v) :
    ∀ v ∈ (s.withVariables r).2.environment.values, P v := by
  cases r with
  | error e => exact hheld
  | ok vars =>
    have hparts := Environment.forall_values.1 hheld
    exact Environment.forall_values.2 ⟨h vars rfl, hparts.2⟩

omit hregular in
/-- A variable that is set to a value with the property. -/
theorem values_of_set (name : String) {v : Value} (hv : P v) :
    ∀ vars, s.environment.globals.set name v = .ok vars → ∀ w ∈ vars.values, P w := by
  intro vars hset w hw
  rcases Variables.mem_values_of_set hset hw with rfl | hw
  · exact hv
  · exact (Environment.forall_values.1 hheld).1 w hw

/-- A system variable that scripts may assign shows no date and no time. -/
theorem held_set {name : String} {value : Value} {vars : SystemVariables} {host : HostState}
    (h : s.environment.systemVariables.set s.environment.host name value = .ok (vars, host)) :
    ∀ v ∈ ({ s.environment with systemVariables := vars, host } : Environment).values, P v := by
  obtain ⟨hglobals, hstored, hreadings⟩ := Environment.forall_values.1 hheld
  obtain ⟨entry, hfound, hrefusal, hplace⟩ := SystemVariables.of_set h
  have hkind := (SystemVariable.of_refusal? hrefusal).1
  rcases hplace with ⟨hview, rfl, rfl⟩ | ⟨view, -, rfl, hwrite⟩
  · refine Environment.forall_values.2 ⟨hglobals, fun w hw => ?_, hreadings⟩
    rcases SystemVariables.mem_values_of_store hw with rfl | hw
    · exact hregular w (SystemVariables.regular_of_stored hfound hkind hview)
    · exact hstored w hw
  · exact Environment.forall_values.2
      ⟨hglobals, hstored, (Special.readings_write hwrite).symm ▸ hreadings⟩

/-- What a step leaves has the property. -/
theorem held_step (h : s.interpreter.AtRest) (hvalues : ∀ v ∈ st.values, P v)
    (hspared : ∀ m, s.Visits st m → m.Spares P) :
    ∀ v ∈ (s.step st).2.environment.values, P v := by
  obtain ⟨hglobals, hstored, hreadings⟩ := Environment.forall_values.1 hheld
  by_cases hst : st.changes = false
  · obtain ⟨flag, hstep⟩ := step_of_not_changes h hst
    rw [hstep]
    exact hheld
  · cases st with
    | define name parameters body =>
      simp only [step]
      split <;> exact hheld
    | undefine name => exact hheld
    | assign name source =>
      have hresult : Gives P (s.interpreter.evaluateText s.environment s.callable source).1 :=
        Interpreter.gives_evaluateText hregular hheld h fun m hm =>
          hspared m ⟨_, List.mem_singleton_self _, hm⟩
      simp only [step]
      split
      · exact hheld
      · rename_i v hv
        have hset := values_of_set hheld name (hresult v hv)
        let after := (s.interpreter.evaluateText s.environment s.callable source).2
        exact held_withVariables (s := { s with interpreter := after }) hheld hset
    | setVar name v =>
      exact held_withVariables hheld
        (values_of_set hheld name (hvalues v (List.mem_singleton_self v)))
    | deleteVar name =>
      simp only [step]
      split
      · rename_i hdelete
        have hsub := (Variables.mem_values_of_delete hdelete).2
        exact Environment.forall_values.2
          ⟨fun w hw => hglobals w (hsub hw), hstored, hreadings⟩
      · exact hheld
    | preserve name =>
      refine held_withVariables hheld fun vars hvars w hw => ?_
      rcases Variables.mem_values_of_preserve hvars hw with rfl | hw
      · exact hregular _ (Value.regular_int 0)
      · exact hglobals w hw
    | clear all =>
      refine held_withVariables hheld fun vars hvars w hw => ?_
      cases hvars
      exact hglobals w (Variables.values_clear all hw)
    | setSysvar name v =>
      simp only [step]
      split
      · rename_i env henv
        cases hset : s.environment.systemVariables.set s.environment.host name v with
        | error e =>
          simp only [Environment.setSystemVariable, hset] at henv
          cases henv
        | ok after =>
          simp only [Environment.setSystemVariable, hset] at henv
          cases henv
          exact held_set hregular hheld hset
      · exact hheld
    | hostSet name v =>
      simp only [step]
      split
      · rename_i vars hvars
        obtain ⟨entry, hfound, hkind, hview, rfl⟩ := SystemVariables.of_hostSet hvars
        refine Environment.forall_values.2 ⟨hglobals, fun w hw => ?_, hreadings⟩
        rcases SystemVariables.mem_values_of_store hw with rfl | hw
        · exact hregular w (SystemVariables.regular_of_stored hfound hkind hview)
        · exact hstored w hw
      · exact hheld
    | host change =>
      refine Environment.forall_values.2 ⟨hglobals, hstored, fun w hw => ?_⟩
      exact (HostChange.mem_readings_apply hw).elim (hvalues w) (hreadings w)
    | _ => exact absurd rfl hst

/-! ### What is answered -/

omit hregular hheld in
theorem forall_toList {r : Result Value} (h : Gives P r) : ∀ v ∈ r.toOption.toList, P v := by
  cases r with
  | error e => exact List.forall_mem_nil _
  | ok w => exact List.forall_mem_singleton.2 ((gives_ok w).1 h)

omit hregular hheld in
theorem forall_shown {e : Evaluated}
    (h : Gives (fun found : Evaluation => P found.value) e.result) :
    ∀ v ∈ (s.present e).values, P v :=
  forall_toList (Gives.map h)

omit hregular hheld in
theorem forall_values_withVariables {r : Result Variables} :
    ∀ v ∈ (s.withVariables r).1.values, P v := by
  cases r <;> exact List.forall_mem_nil _

/-- What a step answers has the property. -/
theorem answered_step (h : s.interpreter.AtRest) (hvalues : ∀ v ∈ st.values, P v)
    (hspared : ∀ m, s.Visits st m → m.Spares P) :
    ∀ v ∈ (s.step st).1.values, P v := by
  have hglobals := (Environment.forall_values.1 hheld).1
  cases st with
  | eval source locals =>
    refine forall_shown (Interpreter.gives_evaluateScope hregular hheld h hvalues fun m hm => ?_)
    exact hspared m ⟨_, List.mem_singleton_self _, hm⟩
  | evalAll source locals =>
    have hall := Interpreter.gives_evaluateAll hregular hheld h hvalues fun rest hrest m hm =>
      hspared m ⟨_, List.mem_map_of_mem hrest, hm⟩
    intro v hv
    obtain ⟨shown, hshown, hv⟩ := List.mem_flatMap.1 hv
    obtain ⟨e, he, rfl⟩ := List.mem_map.1 hshown
    exact forall_shown (hall e he) v hv
  | evalText source =>
    refine forall_toList (Interpreter.gives_evaluateText hregular hheld h fun m hm => ?_)
    exact hspared m ⟨_, List.mem_singleton_self _, hm⟩
  | resolve name locals =>
    refine forall_toList fun v hv => ?_
    simp only [Interpreter.resolve, Machine.resolve] at hv
    split at hv
    · rename_i hlocal
      cases hv
      exact hvalues _ (Locals.mem_values_of_get? hlocal)
    · exact (Environment.lookup_regular_or_mem hv).elim (hregular v) (hheld v)
  | call name count =>
    refine forall_toList (Interpreter.gives_call hregular hheld h fun f locals hcall m hm => ?_)
    refine hspared m ⟨Machine.bodyScope [] f locals, ?_, hm⟩
    simp only [scopes, hcall, List.mem_singleton]
  | invoke name arguments known =>
    simp only [step]
    split
    · exact List.forall_mem_nil _
    · rename_i f hfound
      refine forall_toList ?_
      unfold Interpreter.invoke
      split
      · exact gives_error _
      · rename_i locals hbind
        have hscope : Machine.bodyScope [] f locals ∈ s.scopes (.invoke name arguments known) := by
          simp only [scopes, hfound, hbind, List.mem_singleton]
        exact Interpreter.gives_evaluateBody hregular hheld h
          (locals_of_scopes hregular hheld hvalues _ hscope)
          fun m hm => hspared m ⟨_, hscope, hm⟩
  | getVar name =>
    intro v hv
    obtain ⟨entry, hentry, rfl⟩ := List.mem_map.1 hv
    exact hglobals _ (List.mem_map_of_mem (List.mem_of_find?_eq_some (Option.mem_toList.1 hentry)))
  | vars =>
    intro v hv
    obtain ⟨pair, hpair, rfl⟩ := List.mem_map.1 hv
    obtain ⟨entry, hentry, rfl⟩ := List.mem_map.1 hpair
    exact hglobals _ (List.mem_map_of_mem hentry)
  | deleteVar name =>
    simp only [step]
    split
    · rename_i hdelete
      exact List.forall_mem_singleton.2
        (hglobals _ (Variables.mem_values_of_delete hdelete).1)
    · exact List.forall_mem_nil _
  | getSysvar name =>
    refine forall_toList fun v hv => ?_
    exact (Environment.systemVariable_regular_or_mem hv).elim (hregular v) (hheld v)
  | setVar name v => exact forall_values_withVariables
  | preserve name => exact forall_values_withVariables
  | assign name source =>
    simp only [step]
    split
    · exact List.forall_mem_nil _
    · exact forall_values_withVariables
  | define name parameters body =>
    simp only [step]
    split <;> exact List.forall_mem_nil _
  | setSysvar name v =>
    simp only [step]
    split <;> exact List.forall_mem_nil _
  | hostSet name v =>
    simp only [step]
    split <;> exact List.forall_mem_nil _
  | state | undefine _ | function _ | clear _ | dumpSysvars | host _ => exact List.forall_mem_nil _

/-! ### Steps and histories -/

/-- What a step answers, leaves and holds has the property. -/
theorem confines_step (h : s.interpreter.AtRest) (hvalues : ∀ v ∈ st.values, P v)
    (hspared : ∀ m, s.Visits st m → m.Spares P) : s.Confines P st where
  held := held_step hregular hheld h hvalues hspared
  answered := answered_step hregular hheld h hvalues hspared
  visited _ := holds_of_visits hregular hheld hvalues hspared

/-- What is held after a history has the property. -/
theorem held_run (h : s.interpreter.AtRest) {history : List Step}
    (hvalues : ∀ st ∈ history, ∀ v ∈ st.values, P v)
    (hspared : ∀ before st after, history = before ++ st :: after →
      ∀ m, (s.run before).2.Visits st m → m.Spares P) :
    ∀ v ∈ (s.run history).2.environment.values, P v := by
  induction history generalizing s with
  | nil => exact hheld
  | cons st rest ih =>
    refine ih (s := (s.step st).2) ?_ (step_atRest h st)
      (fun st' hst' => hvalues st' (List.mem_cons_of_mem st hst')) ?_
    · exact held_step hregular hheld h (hvalues st List.mem_cons_self)
        (hspared [] st rest rfl)
    · rintro before st' after rfl
      exact hspared (st :: before) st' after rfl

end Confined

end Session

end ReminderExpr
