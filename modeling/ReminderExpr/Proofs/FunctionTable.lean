/-
ReminderExpr.Proofs.FunctionTable — the functions of a script are a map, and
their parameters stand for the arguments in their places.

The table is a list in which a name finds the first function with its key. Seen
from outside it is a map from names, however spelled, to functions
(`FunctionMap`): defining and undefining change the map at one name. The
functions in it have names that can be defined, and parameters of which no two
are one name (`UserFunction.WellFormed`), though a definition is checked by
its full spellings and kept by what counts of them.

So a name finds at most one parameter of a call (`bind_binds`), and finds it
wherever the text of the body is read, since the locals there are those of the
call from the first step to the last (`outerLocals_of_reaches`).

* `checkParameters_eq` — which parameters can be defined;
* `toMap_change`, `tidy_change` — one operation on the table and on the map;
* `UserFunction.Binds` — what names stand for inside a body;
* `parameters_bind_by_position` — all sequences of operations, and all calls.
-/
import ReminderExpr.Proofs.Bodies
import ReminderExpr.Proofs.NameClasses

namespace ReminderExpr

/-! ## Definitions of functions -/

namespace UserFunction

/-- Whether names can be the parameters of one function. -/
def Declarable (names : List String) : Prop :=
  (∀ p ∈ names, Name.isValid p = true) ∧ names.Pairwise fun p q => Name.same p q = false

instance (names : List String) : Decidable (Declarable names) :=
  inferInstanceAs (Decidable ((∀ p ∈ names, _) ∧ List.Pairwise _ names))

/-- What is kept of a definition: the spellings are cut to what counts, and the
names still are those that can be defined together. -/
structure WellFormed (f : UserFunction) : Prop where
  name : Name.isValid f.name = true ∧ Name.significant f.name = f.name
  parameters : Declarable f.parameters
  cut : ∀ p ∈ f.parameters, Name.significant p = p

/-- The function that is kept of a definition. -/
def kept (name : String) (parameters : List String) (body : String) : UserFunction :=
  { name := Name.significant name, parameters := parameters.map Name.significant, body }

/-- The parameters of a definition are accepted one by one if they can be
defined together, and with those accepted before. -/
theorem checkParameters_eq (accepted names : List String) :
    checkParameters accepted names
      = if Declarable names ∧ ∀ q ∈ accepted, ∀ p ∈ names, Name.same q p = false then
          .ok (accepted ++ names.map Name.significant)
        else .error .badIdentifier := by
  induction names generalizing accepted with
  | nil => simp [checkParameters, Declarable]
  | cons p names ih =>
    rw [checkParameters, ih]
    by_cases hp : Name.isValid p = true ∧ ∀ q ∈ accepted, Name.same q p = false
    · have hcheck : ¬((!Name.isValid p || accepted.any fun q => Name.same q p) = true) := by
        simpa using hp
      rw [if_neg hcheck]
      refine if_congr ?_ (by simp) rfl
      simp only [Declarable, List.forall_mem_append, List.forall_mem_singleton,
        List.forall_mem_cons, List.pairwise_cons, Name.same_significant]
      constructor
      · rintro ⟨⟨hvalid, hdistinct⟩, hbefore, hrest⟩
        exact ⟨⟨⟨hp.1, hvalid⟩, hrest, hdistinct⟩, fun q hq => ⟨hp.2 q hq, hbefore q hq⟩⟩
      · rintro ⟨⟨⟨-, hvalid⟩, hrest, hdistinct⟩, hbefore⟩
        exact ⟨⟨hvalid, hdistinct⟩, fun q hq => (hbefore q hq).2, hrest⟩
    · have hcheck : (!Name.isValid p || accepted.any fun q => Name.same q p) = true := by
        simp only [not_and_or, not_forall, Bool.not_eq_true, Bool.not_eq_false] at hp
        simpa using hp
      rw [if_pos hcheck, if_neg]
      rintro ⟨⟨hvalid, -⟩, hnot⟩
      exact hp ⟨hvalid p List.mem_cons_self, fun q hq => hnot q hq p List.mem_cons_self⟩

/-- What is kept of names that can be defined together can be, too. -/
theorem declarable_significant {names : List String} (h : Declarable names) :
    Declarable (names.map Name.significant) := by
  refine ⟨List.forall_mem_map.2 fun p hp => Name.isValid_significant (h.1 p hp), ?_⟩
  exact List.pairwise_map.2 (h.2.imp (Name.same_significant_both _ _).trans)

theorem wellFormed_kept {name body : String} {parameters : List String}
    (hname : Name.isValid name = true) (hparameters : Declarable parameters) :
    (kept name parameters body).WellFormed where
  name := ⟨Name.isValid_significant hname, Name.significant_significant name⟩
  parameters := declarable_significant hparameters
  cut := List.forall_mem_map.2 fun p _ => Name.significant_significant p

end UserFunction

/-! ## Maps -/

/-- The function of every name. -/
abbrev FunctionMap : Type := NameClass → Option UserFunction

/-- The operations that change functions. -/
inductive FunctionChange
  | define (name : String) (parameters : List String) (body : String)
  | undefine (name : String)
  deriving DecidableEq, Repr

namespace FunctionMap

open UserFunction

def empty : FunctionMap := fun _ => none

/-- The map with another function, or none, at a name. -/
def put (m : FunctionMap) (name : String) (f : Option UserFunction) : FunctionMap :=
  Function.update m (Name.classOf name) f

/-- A function put at its name, whatever was there. -/
def define (m : FunctionMap) (name : String) (parameters : List String) (body : String) :
    Result FunctionMap :=
  if Name.isValid name = true ∧ Declarable parameters then
    .ok (m.put name (some (kept name parameters body)))
  else .error .badIdentifier

/-- The map after an operation, and whether there was a function to be undefined. -/
def change (m : FunctionMap) : FunctionChange → Result (Option Bool × FunctionMap)
  | .define name parameters body => (m.define name parameters body).map fun m => (none, m)
  | .undefine name => .ok (some (m (Name.classOf name)).isSome, m.put name none)

theorem ext_put {m m' : FunctionMap} {name : String} {f : Option UserFunction}
    (h : ∀ other, m' (Name.classOf other)
      = if Name.same other name = true then f else m (Name.classOf other)) : m' = m.put name f := by
  funext c
  induction c using Quotient.inductionOn with
  | h other => exact (h other).trans (Name.update_classOf m name other f).symm

end FunctionMap

namespace UserFunctions

open UserFunction

variable {table table' : UserFunctions} {name : String}

/-- The table after an operation, and whether there was a function to be undefined. -/
def change (table : UserFunctions) : FunctionChange → Result (Option Bool × UserFunctions)
  | .define name parameters body =>
      (table.define name parameters body).map fun table => (none, table)
  | .undefine name => .ok (some (table.find? name).isSome, table.undefine name)

/-! ## The map of a table -/

theorem find?_eq (table : UserFunctions) (name : String) :
    table.find? name = Name.find? UserFunction.name table.functions name := rfl

/-- The function that each name finds. -/
def toMap (table : UserFunctions) : FunctionMap := fun c =>
  Quotient.liftOn c table.find? fun name other h => by
    rw [find?_eq, find?_eq, Name.find?_congr h]

theorem toMap_empty : toMap {} = FunctionMap.empty :=
  funext fun c => Quotient.inductionOn c fun _ => rfl

/-- The functions that a name does not find are found as before. -/
theorem find?_without (table : UserFunctions) (name other : String) :
    find? { functions := table.without name } other
      = if Name.same other name = true then none else table.find? other := by
  have hothers : table.without name
      = table.functions.filter fun f => !(Name.key f.name == Name.key name) := by
    simp only [without, UserFunction.key, bne]
  rw [find?_eq, find?_eq, hothers, Name.find?_others]

theorem toMap_undefine : (table.undefine name).toMap = table.toMap.put name none :=
  FunctionMap.ext_put (table.find?_without name)

/-- A function in front of the others is found first. -/
theorem toMap_define {f : UserFunction} (hf : f.key = Name.key name) :
    toMap { functions := f :: table.without name } = table.toMap.put name (some f) := by
  refine FunctionMap.ext_put fun other => ?_
  have hfront : toMap { functions := f :: table.without name } (Name.classOf other)
      = (f :: table.without name).find? fun g => g.key == Name.key other := rfl
  rw [hfront, List.find?_cons, hf]
  split
  · rename_i hkey
    rw [if_pos (Name.same_comm.trans (Name.key_eq_iff.1 (beq_iff_eq.1 hkey)))]
  · rename_i hkey
    have hsame : ¬Name.same other name = true := fun hsame =>
      ne_of_beq_false hkey (Name.key_eq_iff.2 (Name.same_comm.trans hsame))
    have hothers := table.find?_without name other
    rw [if_neg hsame] at hothers
    rw [if_neg hsame]
    exact hothers

theorem define_eq (table : UserFunctions) (name : String) (parameters : List String)
    (body : String) :
    table.define name parameters body
      = if Name.isValid name = true ∧ Declarable parameters then
          .ok { functions := kept name parameters body :: table.without name }
        else .error .badIdentifier := by
  have hchecked : UserFunction.checkParameters [] parameters
      = if Declarable parameters then .ok (parameters.map Name.significant)
        else .error .badIdentifier := by
    simpa using checkParameters_eq [] parameters
  rw [define, hchecked]
  cases Name.isValid name with
  | false => rfl
  | true =>
    simp only [Bool.not_true, Bool.false_eq_true, if_false, true_and]
    split <;> rfl

/-- An operation changes the table as it changes the map. -/
theorem toMap_change (table : UserFunctions) (c : FunctionChange) :
    table.toMap.change c = (table.change c).map fun (answer, table) => (answer, table.toMap) := by
  cases c with
  | define name parameters body =>
    rw [change, FunctionMap.change, define_eq, FunctionMap.define]
    split
    · have hkey : (kept name parameters body).key = Name.key name := Name.key_significant name
      simp only [Except.map, toMap_define hkey]
    · rfl
  | undefine name =>
    simp only [change, FunctionMap.change, Except.map, toMap_undefine]
    rfl

/-! ## Tidy tables -/

/-- What the operations keep of the list. -/
structure Tidy (table : UserFunctions) : Prop where
  wellFormed : ∀ f ∈ table.functions, f.WellFormed
  distinct : Name.Distinct UserFunction.name table.functions

theorem tidy_empty : Tidy {} := ⟨nofun, .nil⟩

theorem Tidy.without (h : table.Tidy) (name : String) :
    Tidy { functions := table.without name } where
  wellFormed f hf := h.wellFormed f (List.mem_of_mem_filter hf)
  distinct := List.Pairwise.filter _ h.distinct

/-- Operations keep tables tidy. -/
theorem tidy_change (h : table.Tidy) {c : FunctionChange} {answer : Option Bool}
    (hc : table.change c = .ok (answer, table')) : table'.Tidy := by
  cases c with
  | define name parameters body =>
    rw [change, define_eq] at hc
    split at hc
    · rename_i hvalid
      cases hc
      have hothers := h.without name
      refine ⟨List.forall_mem_cons.2 ⟨wellFormed_kept hvalid.1 hvalid.2, hothers.wellFormed⟩,
        List.pairwise_cons.2 ⟨fun g hg => ?_, hothers.distinct⟩⟩
      -- The functions that stay have another key.
      have hkey : g.key ≠ Name.key name := bne_iff_ne.1 (List.mem_filter.1 hg).2
      refine (Name.same_significant name g.name).trans (Bool.eq_false_iff.2 fun hsame => ?_)
      exact hkey (Name.key_eq_iff.2 hsame).symm
    · cases hc
  | undefine name =>
    cases hc
    exact h.without name

theorem Tidy.toMap_eq_some (h : table.Tidy) (c : NameClass) (f : UserFunction) :
    table.toMap c = some f ↔ f ∈ table.functions ∧ Name.classOf f.name = c := by
  induction c using Quotient.inductionOn with
  | h name =>
    have hfound : table.find? name = some f
        ↔ f ∈ table.functions ∧ Name.same f.name name = true := h.distinct.find?_eq_some_iff
    rw [← Name.classOf_eq_iff] at hfound
    exact hfound

theorem Tidy.isEmpty_iff (h : table.Tidy) : table.isEmpty = true ↔ ∀ c, table.toMap c = none := by
  rw [isEmpty, List.isEmpty_iff]
  constructor
  · intro hnil c
    refine Option.eq_none_iff_forall_ne_some.2 fun f hf => ?_
    rw [h.toMap_eq_some, hnil] at hf
    cases hf.1
  · intro hnone
    refine List.eq_nil_iff_forall_not_mem.2 fun f hf => ?_
    have hfound := (h.toMap_eq_some _ f).2 ⟨hf, rfl⟩
    rw [hnone] at hfound
    cases hfound

end UserFunctions

/-- What operations in order answer, and what they leave; one that fails leaves
what was there. -/
def FunctionChange.run {σ : Type} (change : σ → FunctionChange → Result (Option Bool × σ))
    (s : σ) : List FunctionChange → List (Result (Option Bool)) × σ
  | [] => ([], s)
  | c :: rest =>
      let answer := change s c
      let (answers, last) := run change ((answer.toOption.map (·.2)).getD s) rest
      (answer.map (·.1) :: answers, last)

namespace UserFunctions

variable {table : UserFunctions}

/-- Operations in order answer on the table what they answer on its map, and
keep it tidy. -/
theorem toMap_run (h : table.Tidy) (changes : List FunctionChange) :
    FunctionChange.run FunctionMap.change table.toMap changes
        = ((FunctionChange.run change table changes).1,
          (FunctionChange.run change table changes).2.toMap)
      ∧ (FunctionChange.run change table changes).2.Tidy := by
  induction changes generalizing table with
  | nil => exact ⟨rfl, h⟩
  | cons c rest ih =>
    unfold FunctionChange.run
    rw [toMap_change]
    cases hc : table.change c with
    | error e =>
      obtain ⟨hrest, htidy⟩ := ih h
      exact ⟨congrArg (fun r => (_ :: r.1, r.2)) hrest, htidy⟩
    | ok changed =>
      obtain ⟨hrest, htidy⟩ := ih (tidy_change h hc)
      exact ⟨congrArg (fun r => (_ :: r.1, r.2)) hrest, htidy⟩

end UserFunctions

/-! ## Names inside a body -/

namespace UserFunction

variable {names : List String} {arguments : List Value} {spelling : String}

/-- What the names in the body of a function stand for: each parameter, in any
spelling, for the argument in its place, and every other name for what it
stands for where there are no locals. -/
structure Binds (f : UserFunction) (arguments : List Value) (locals : Locals) : Prop where
  parameter : ∀ (k : Nat) (hk : k < f.parameters.length) (hk' : k < arguments.length)
    (spelling : String), Name.same spelling f.parameters[k] = true →
    ∀ world, Machine.resolve world locals spelling = (.ok arguments[k], false)
  other : ∀ spelling, (∀ p ∈ f.parameters, Name.same spelling p = false) →
    ∀ world, Machine.resolve world locals spelling = Machine.resolve world {} spelling

/-- The first parameter that a spelling stands for is the only one. -/
theorem get?_of_same (hdistinct : names.Pairwise fun p q => Name.same p q = false) {k : Nat}
    (hk : k < names.length) (hk' : k < arguments.length) (hsame : Name.same spelling names[k] = true) :
    (Locals.ofList (names.zip arguments)).get? spelling = some arguments[k] := by
  have hfirst : ∀ p : String, Name.same (Name.significant p) spelling = Name.same spelling p :=
    fun p => (Name.same_significant p spelling).trans Name.same_comm
  induction names generalizing arguments k with
  | nil => cases hk
  | cons p names ih =>
    cases arguments with
    | nil => cases hk'
    | cons v arguments =>
      obtain ⟨hp, hdistinct⟩ := List.pairwise_cons.1 hdistinct
      cases k with
      | zero =>
        rw [List.getElem_cons_zero] at hsame
        simp [Locals.get?, Locals.ofList, hfirst, hsame]
      | succ k =>
        rw [List.getElem_cons_succ] at hsame
        have hother : Name.same spelling p = false := by
          refine Bool.eq_false_iff.2 fun hspelling => ?_
          have hdifferent := hp _ (List.getElem_mem (Nat.lt_of_succ_lt_succ hk))
          rw [Name.same_trans (Name.same_comm.trans hspelling) hsame] at hdifferent
          cases hdifferent
        have hrest := ih hdistinct (Nat.lt_of_succ_lt_succ hk) (Nat.lt_of_succ_lt_succ hk') hsame
        simpa [Locals.get?, Locals.ofList, hfirst, hother] using hrest

theorem get?_of_not_same (h : ∀ p ∈ names, Name.same spelling p = false) :
    (Locals.ofList (names.zip arguments)).get? spelling = none := by
  rw [Locals.get?, Option.map_eq_none_iff, List.find?_eq_none]
  intro binding hbinding
  obtain ⟨⟨p, v⟩, hpair, rfl⟩ := List.mem_map.1 hbinding
  dsimp only
  rw [Name.same_significant, Name.same_comm, h p (List.of_mem_zip hpair).1]
  exact Bool.false_ne_true

/-- As many arguments as there are parameters are bound, each to its own. -/
theorem bind_binds {f : UserFunction} (h : f.WellFormed) (hcount : arguments.length = f.arity) :
    ∃ locals, f.bind arguments = .ok locals ∧ f.Binds arguments locals := by
  refine ⟨.ofList (f.parameters.zip arguments), ?_, fun k hk hk' spelling hsame world => ?_,
    fun spelling hother world => ?_⟩
  · rw [bind, hcount, if_neg (Nat.lt_irrefl _), if_neg (Nat.lt_irrefl _)]
  · rw [Machine.resolve, get?_of_same h.parameters.2 hk hk' hsame]
  · rw [Machine.resolve, get?_of_not_same hother]
    rfl

end UserFunction

namespace Machine

variable {world : World} {m m' : Machine}

/-- The locals of the outermost text. -/
def outerLocals (m : Machine) : Locals := (m.callers.map (·.locals)).getLastD m.scope.locals

theorem outerLocals_of_change (h : LevelChange world m m') : m'.outerLocals = m.outerLocals := by
  cases h with
  | within rest closed opened frames hclosed hopened hm hm' hscope hrest =>
    rw [outerLocals, outerLocals, callers_of_within hclosed hm, callers_of_within hopened hm',
      hscope]
  | enters f rest base closed frames hclosed hm hm' _ _ _ _ hrest =>
    have hcallers : m'.callers = { m.scope with rest } :: frames.filterMap Frame.caller? := by
      rw [callers, hm']
      rfl
    rw [outerLocals, outerLocals, callers_of_within hclosed hm, hcallers, List.map_cons,
      List.getLastD_cons]
  | leaves base caller hm hscope =>
    have hcallers : m.callers = caller :: m'.callers := by
      rw [callers, hm]
      rfl
    rw [outerLocals, outerLocals, hcallers, List.map_cons, List.getLastD_cons, hscope]

/-- The locals of a text are the same wherever the text is read. -/
theorem outerLocals_of_reaches (h : m.Reaches world m') : m'.outerLocals = m.outerLocals := by
  refine invariant_of_reaches (P := fun m' => m'.outerLocals = m.outerLocals) h ?_ rfl
  intro a b ha hstep
  obtain ⟨rest, -, -, change⟩ := levelChange_of_step hstep
  have hread : (a.withRest rest).outerLocals = a.outerLocals := rfl
  rw [outerLocals_of_change change, hread, ha]

end Machine

namespace UserFunctions

open Machine

/-- A call of a function of the table comes to what its body returns. -/
theorem Tidy.leads_call {world : World} (h : world.functions.Tidy) {f : UserFunction}
    (hf : f ∈ world.functions.functions) {m : Machine} {name : String} {arguments : List Value}
    {below : Stack Value} {locals : Locals} (hname : Name.same name f.name = true)
    (hbuiltin : Builtin.ofName? name = none)
    (hargs : m.operands.entries = arguments.reverse ++ below.entries)
    (hidle : m.scope.active.contains f.key = false) (hbound : f.bind arguments = .ok locals) :
    (m.enter world name arguments.length).Leads world
      ((({ m with operands := below }.body f locals).run world).returned world m.returning) := by
  have hfound : world.functions.find? name = some f :=
    h.distinct.find?_eq_some_iff.2 ⟨hf, Name.same_comm.trans hname⟩
  obtain ⟨rest, hpopped, hrest⟩ := Stack.popMany?_eq_some hargs
  rw [List.length_reverse, List.reverse_reverse, Stack.ext hrest] at hpopped
  rw [enter_function hbuiltin hfound hpopped hidle hbound]
  exact leads_inside world _ _

/-- After any definitions on a table that was empty, the table is the map that
the same definitions make of the empty map, from names to functions. The
functions in it have names that can be defined, and parameters that can be
defined together; no two have one name.

A call of one of them with as many arguments as it has parameters, wherever it
stands and whichever functions wait for it, is the evaluation of its body.
Wherever that evaluation reads the text of the body, each parameter stands for
the argument in its place, in any spelling and whatever variables there are,
and leaves the flag as it is; other names stand for what they do without
locals. The locals where the call stands have no part in it: the call comes to
what the evaluation of the body returns, with any of them. -/
theorem parameters_bind_by_position (changes : List FunctionChange) :
    let (answers, table) := FunctionChange.run change {} changes
    let (answers', map) := FunctionChange.run FunctionMap.change FunctionMap.empty changes
    answers = answers'
      ∧ (∀ name, table.find? name = map (Name.classOf name)
          ∧ table.arity? name = (map (Name.classOf name)).map UserFunction.arity)
      ∧ table.size = {c : NameClass | (map c).isSome}.ncard
      ∧ (table.isEmpty = true ↔ ∀ c, map c = none)
      ∧ (∀ f ∈ table.functions, f.WellFormed)
      ∧ table.functions.Pairwise (fun f g => Name.same f.name g.name = false)
      ∧ ∀ f ∈ table.functions, ∀ arguments : List Value, arguments.length = f.arity →
          ∃ locals, f.bind arguments = .ok locals ∧ f.Binds arguments locals
            ∧ ∀ (world : World) (m : Machine) (name : String) (below : Stack Value),
              world.functions = table → Name.same name f.name = true →
              Builtin.ofName? name = none →
              m.operands.entries = arguments.reverse ++ below.entries →
              m.scope.active.contains f.key = false →
              let body := { m with operands := below }.body f locals
              (∀ m', body.Reaches world m' → m'.callers = [] → m'.scope.locals = locals)
                ∧ ∀ outside : Locals,
                  let caller := { m with scope := { m.scope with locals := outside } }
                  (caller.enter world name arguments.length).Leads world
                    ((body.run world).returned world caller.returning) := by
  obtain ⟨hrun, htidy⟩ := toMap_run tidy_empty changes
  rw [toMap_empty] at hrun
  rw [hrun]
  generalize FunctionChange.run change {} changes = reached at htidy
  obtain ⟨answers, table⟩ := reached
  dsimp only at htidy ⊢
  refine ⟨rfl, fun name => ⟨rfl, rfl⟩, htidy.distinct.length_eq_ncard htidy.toMap_eq_some,
    htidy.isEmpty_iff, htidy.wellFormed, htidy.distinct, fun f hf arguments hcount => ?_⟩
  obtain ⟨locals, hbound, hbinds⟩ := UserFunction.bind_binds (htidy.wellFormed f hf) hcount
  refine ⟨locals, hbound, hbinds, fun world m name below hworld hname hbuiltin hargs hidle => ?_⟩
  subst hworld
  refine ⟨fun m' hreach hcallers => ?_, fun outside => ?_⟩
  · have hlocals := outerLocals_of_reaches hreach
    rw [outerLocals, hcallers] at hlocals
    exact hlocals
  · exact htidy.leads_call hf (m := { m with scope := { m.scope with locals := outside } })
      hname hbuiltin hargs hidle hbound

/-- A parameter is found by a longer spelling, and before the variable of its
name; the second definition is refused, and the last one undone. The local of
the caller is seen by the argument that names it, and not by the body. -/
theorem parameters_in_other_spellings :
    let changes : List FunctionChange :=
      [.define "Scale_to_twelve" ["Factor_of_scaling", "x"] "factor_of_sc * X",
        .define "twice" ["x", "X"] "x + X", .define "half" ["x"] "x / 2", .undefine "HALF"]
    let f : UserFunction := ⟨"Scale_to_twe", ["Factor_of_sc", "x"], "factor_of_sc * X"⟩
    let environment : Environment := { globals := { entries := [{ name := "X", value := .int 100 }] } }
    let e := ({} : Interpreter).evaluate environment { functions := [f] }
      (.ofList [("x", .int 7), ("factor_of_sc", .int 5)]) "scale_to_twelfth(3, x)".toList
    FunctionChange.run change {} changes
        = ([.ok none, .error .badIdentifier, .ok none, .ok (some true)], { functions := [f] })
      ∧ (∃ locals, f.bind [.int 3, .int 7] = .ok locals
          ∧ ∀ world, Machine.resolve world locals "FACTOR_OF_SCALES" = (.ok (.int 3), false))
      ∧ e.result = .ok { value := .int 21, terminator := .endOfText, nonconst := false }
        ∧ e.rest = [] := by
  intro changes f environment e
  have hrun : FunctionChange.run change {} changes
      = ([.ok none, .error .badIdentifier, .ok none, .ok (some true)], { functions := [f] }) := by
    decide +kernel
  refine ⟨hrun, ?_, Interpreter.evaluateScope_of_runFor 60 (by decide +kernel)⟩
  have hbinds := parameters_bind_by_position changes
  rw [hrun] at hbinds
  generalize FunctionChange.run FunctionMap.change FunctionMap.empty changes = reached at hbinds
  obtain ⟨-, -, -, -, -, -, hcalls⟩ := hbinds
  obtain ⟨locals, hbound, hnames, -⟩ := hcalls f List.mem_cons_self [.int 3, .int 7] rfl
  exact ⟨locals, hbound, hnames.parameter 0 Nat.zero_lt_two Nat.zero_lt_two _ (by decide +kernel)⟩

end UserFunctions

end ReminderExpr
