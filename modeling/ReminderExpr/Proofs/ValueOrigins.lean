/-
ReminderExpr.Proofs.ValueOrigins — where the values of expressions come from.

Operators and literals make regular values: a time that a clock shows, or a
date on or after day 0, whatever they are given. Built-in functions make such
values too, or hand on what they have been given or have looked up; the one
exception is `coerce`, which also turns a moment before day 0 into its date.

* `Value.Regular` — a time within the day, a date since day 0, or anything
  of another kind;
* `regular_binaryApply`, `regular_quotedDate`, … — what operators and literals
  make;
* `regular_coerce` — what coercion makes, and its exception;
* `Environment.values` — the values that names and functions look up;
* `Builtin.origin_of_apply` — the origins of the value of a built-in function.
-/
import ReminderExpr.Proofs.BuiltinCalls

namespace ReminderExpr

open Calendar

/-! ## Regular values -/

/-- Whether a value, if it is a time, is one that a clock shows. -/
def Value.WithinDay : Value → Prop
  | .time minute => 0 ≤ minute ∧ minute < minutesPerDay
  | _ => True

/-- Whether a value, if it is a date, is not before day 0. -/
def Value.SinceDayZero : Value → Prop
  | .date day => 0 ≤ day
  | _ => True

/-- A value that a literal could spell, or one of a kind that has no bounds. -/
structure Value.Regular (v : Value) : Prop where
  withinDay : v.WithinDay
  sinceDayZero : v.SinceDayZero

@[simp] theorem Value.regular_int (n : Int) : (Value.int n).Regular := ⟨trivial, trivial⟩

@[simp] theorem Value.regular_str (s : String) : (Value.str s).Regular := ⟨trivial, trivial⟩

@[simp] theorem Value.regular_dateTime (t : Int) : (Value.dateTime t).Regular :=
  ⟨trivial, trivial⟩

theorem Value.regular_date {day : Int} (h : 0 ≤ day) : (Value.date day).Regular := ⟨trivial, h⟩

theorem Value.regular_time {minute : Int} (h : 0 ≤ minute ∧ minute < minutesPerDay) :
    (Value.time minute).Regular :=
  ⟨h, trivial⟩

/-- Wrapping around midnight makes a time of day of any number of minutes. -/
@[simp] theorem Value.regular_timeOfDay (minutes : Int) : (Value.timeOfDay minutes).Regular :=
  Value.regular_time
    ⟨Int.emod_nonneg _ (by decide), Int.emod_lt_of_pos _ (by decide)⟩

/-! ## Values of results -/

/-- Whether a result, if it has a value, has one of a certain sort. -/
def Gives {α : Type} (P : α → Prop) (r : Result α) : Prop := ∀ a, r = .ok a → P a

section Combinators

variable {α β : Type} {P : β → Prop}

@[simp] theorem gives_ok (b : β) : Gives P (.ok b) ↔ P b :=
  ⟨fun h => h b rfl, by rintro h _ ⟨⟩; exact h⟩

@[simp] theorem gives_error (e : EvalError) : Gives P (.error e) := nofun

/-- What steps one after another give is what the last one gives. -/
theorem Gives.bind {x : Result α} {f : α → Result β} (h : ∀ a, x = .ok a → Gives P (f a)) :
    Gives P (x >>= f) := by
  cases x with
  | error e => exact gives_error e
  | ok a => exact h a rfl

theorem Gives.map {f : α → β} {x : Result α} (h : ∀ a, x = .ok a → P (f a)) :
    Gives P (x.map f) := by
  cases x with
  | error e => exact gives_error e
  | ok a => exact (gives_ok _).2 (h a rfl)

end Combinators

/-! ## Operators -/

@[simp] theorem regular_checked (operation : IntOperation) (n : Int) :
    Gives Value.Regular (checked operation n) := by
  unfold checked
  split <;> simp

@[simp] theorem regular_shiftDate (day days : Int) :
    Gives Value.Regular (shiftDate day days) := by
  unfold shiftDate
  dsimp only
  split
  · rename_i h
    exact (gives_ok _).2 (Value.regular_date h.1)
  · exact gives_error _

@[simp] theorem regular_shiftMoment (moment minutes : Int) :
    Gives Value.Regular (shiftMoment moment minutes) := by
  unfold shiftMoment
  dsimp only
  split <;> simp

@[simp] theorem regular_join (settings : ArithmeticSettings) (left right : Value) :
    Gives Value.Regular (join settings left right) := by
  unfold join
  dsimp only
  split <;> split <;> simp

theorem regular_addValues (settings : ArithmeticSettings) (left right : Value) :
    Gives Value.Regular (addValues settings left right) := by
  unfold addValues
  split <;> simp

theorem regular_subValues (left right : Value) : Gives Value.Regular (subValues left right) := by
  unfold subValues
  split
  · exact regular_checked _ _
  · exact Gives.bind fun _ _ => regular_shiftDate _ _
  · exact Gives.bind fun _ _ => regular_shiftMoment _ _
  all_goals simp

theorem regular_onInts (left right : Value) {operation : Int → Int → Result Value}
    (h : ∀ a b, Gives Value.Regular (operation a b)) :
    Gives Value.Regular (onInts left right operation) := by
  unfold onInts
  split
  · exact h _ _
  · exact gives_error _

theorem regular_compareValues (op : BinaryOp) (left right : Value) :
    Gives Value.Regular (compareValues op left right) := by
  unfold compareValues
  split
  · simp [Value.ofBool]
  · split <;> simp [Value.ofBool]

/-- A binary operator makes a regular value, even of operands that are not. -/
theorem regular_binaryApply (settings : ArithmeticSettings) (op : BinaryOp)
    (left right : Value) : Gives Value.Regular (op.apply settings left right) := by
  cases op with
  | add => exact regular_addValues settings left right
  | sub => exact regular_subValues left right
  | mul => exact regular_onInts left right fun a b => regular_checked _ _
  | div =>
    refine regular_onInts left right fun a b => ?_
    split <;> simp
  | mod =>
    refine regular_onInts left right fun a b => ?_
    split
    · exact gives_error _
    · split <;> simp
  | and => exact regular_onInts left right fun a b => by simp [Value.ofBool]
  | or => exact regular_onInts left right fun a b => by simp [Value.ofBool]
  | _ => exact regular_compareValues _ left right

/-- A unary operator makes an integer. -/
theorem regular_unaryApply (op : UnaryOp) (v : Value) : Gives Value.Regular (op.apply v) := by
  unfold UnaryOp.apply
  split
  · cases op <;> simp [Value.ofBool]
  · exact gives_error _

/-! ## Literals -/

/-- A clock shows minutes of the day. -/
theorem withinDay_of_clockMinutes {hour minute : Nat} {m : Int}
    (h : clockMinutes hour minute = some m) : 0 ≤ m ∧ m < minutesPerDay := by
  unfold clockMinutes at h
  split at h
  · cases h
    have : minutesPerDay = 1440 := rfl
    omega
  · cases h

/-- A date that can be written is not before day 0. -/
theorem dayOfCivil_nonneg {year : Int} {month dayOfMonth : Nat} {day : Int}
    (h : dayOfCivil year month dayOfMonth = .ok day) : 0 ≤ day := by
  unfold dayOfCivil at h
  split at h
  · rename_i hdate
    cases h
    simp only [isDate, Bool.and_eq_true, decide_eq_true_eq, and_assoc] at hdate
    obtain ⟨hyear, -, -, -, hday, -⟩ := hdate
    unfold dayCount leapYearsBefore
    generalize daysBeforeMonth month year = before
    simp only [baseYear] at hyear ⊢
    omega
  · cases h

theorem withinDay_of_readTime {separators : Separators} {cs rest : List Char} {minute : Int}
    (h : readTime separators cs = .ok (minute, rest)) : 0 ≤ minute ∧ minute < minutesPerDay := by
  have gives : Gives (fun read : Int × List Char => 0 ≤ read.1 ∧ read.1 < minutesPerDay)
      (readTime separators cs) := by
    refine Gives.bind fun _ _ => Gives.bind fun _ _ => Gives.bind fun _ _ => ?_
    dsimp only
    split
    · exact gives_error _
    · rename_i hclock
      exact (gives_ok _).2 (withinDay_of_clockMinutes hclock)
  exact gives _ h

/-- A date at the front of a text is not before day 0. -/
theorem day_nonneg_of_read {separators : Separators} {cs rest : List Char}
    {literal : DateLiteral} (h : DateLiteral.read separators cs = .ok (literal, rest)) :
    0 ≤ literal.day := by
  have gives : Gives (fun read : DateLiteral × List Char => 0 ≤ read.1.day)
      (DateLiteral.read separators cs) := by
    refine Gives.bind fun _ _ => Gives.bind fun _ _ => Gives.bind fun _ _ => ?_
    refine Gives.bind fun _ _ => Gives.bind fun _ _ => Gives.bind fun day hday => ?_
    have hnonneg := dayOfCivil_nonneg hday
    dsimp only
    split
    · exact Gives.bind fun _ _ => (gives_ok _).2 hnonneg
    · exact Gives.bind fun _ _ => (gives_ok _).2 hnonneg
    · exact (gives_ok _).2 hnonneg
  exact gives _ h

theorem DateLiteral.regular_toValue {literal : DateLiteral} (h : 0 ≤ literal.day) :
    literal.toValue.Regular := by
  unfold toValue
  split
  · exact Value.regular_date h
  · simp [Value.momentOf]

/-- The text between the quotes of a date literal spells a regular value. -/
theorem regular_quotedDate (separators : Separators) (text : String) :
    Gives Value.Regular (quotedDate separators text) := by
  unfold quotedDate
  split
  · exact gives_error _
  · rename_i hread
    exact (gives_ok _).2 (DateLiteral.regular_toValue (day_nonneg_of_read hread))
  · exact gives_error _

/-- A word that starts with a digit spells a regular value. -/
theorem regular_numberOrTime (separators : Separators) (word : String) :
    Gives Value.Regular (numberOrTime separators word) := by
  unfold numberOrTime
  dsimp only
  split
  · split <;> simp
  · split
    · split
      · exact gives_error _
      · split
        · exact (gives_ok _).2 (Value.regular_timeOfDay _)
        · exact gives_error _
    · exact gives_error _

/-! ## Coercion -/

theorem day_nonneg_of_readAll? {separators : Separators} {cs : List Char}
    {literal : DateLiteral} (h : DateLiteral.readAll? separators cs = some literal) :
    0 ≤ literal.day := by
  unfold DateLiteral.readAll? at h
  split at h
  · rename_i hread
    cases h
    exact day_nonneg_of_read hread
  · cases h

theorem withinDay_of_readClock {separators : Separators} {cs : List Char} {minute : Int}
    (h : readClock separators cs = some minute) : 0 ≤ minute ∧ minute < minutesPerDay := by
  unfold readClock at h
  split at h
  · rename_i hread
    cases h
    exact withinDay_of_readTime hread
  · cases h

/-- The date of a moment that is not before day 0 is not so either. -/
theorem dayOfMoment_nonneg {moment day : Int} (h : dayOfMoment moment = .ok day)
    (hmoment : 0 ≤ moment) : 0 ≤ day := by
  unfold dayOfMoment at h
  dsimp only at h
  split at h
  · cases h
    exact Int.ediv_nonneg hmoment (by decide)
  · cases h

/-- Whether a coercion makes a date of a moment before day 0. -/
def CoercesEarlyMoment (kind : ValueKind) (v : Value) : Prop :=
  kind = .date ∧ ∃ moment, v = .dateTime moment ∧ moment < 0

/-- Coercion makes a regular value, or leaves the value as it is; only the
date of a moment before day 0 is neither. -/
theorem regular_coerce {separators : Separators} {kind : ValueKind} {v w : Value}
    (h : v.coerce separators kind = .ok w) :
    w.Regular ∨ w = v ∨ CoercesEarlyMoment kind v ∧ w.WithinDay := by
  cases kind with
  | int =>
    have gives : Gives Value.Regular v.toInt := by
      unfold Value.toInt
      split
      · split <;> simp
      all_goals simp
    exact .inl (gives w h)
  | str =>
    cases h
    exact .inl (Value.regular_str _)
  | date =>
    simp only [Value.coerce] at h
    cases v with
    | int n =>
      simp only [Value.toDate] at h
      split at h
      · cases h
      · rename_i hn
        split at h
        · cases h
          exact .inl (Value.regular_date (by omega))
        · cases h
    | str s =>
      simp only [Value.toDate] at h
      split at h
      · rename_i hread
        cases h
        exact .inl (Value.regular_date (day_nonneg_of_readAll? hread))
      · cases h
    | date day =>
      cases h
      exact .inr (.inl rfl)
    | time minute => cases h
    | dateTime moment =>
      simp only [Value.toDate] at h
      cases hday : dayOfMoment moment with
      | error e =>
        rw [hday] at h
        cases h
      | ok day =>
        rw [hday] at h
        cases h
        by_cases hmoment : 0 ≤ moment
        · exact .inl (Value.regular_date (dayOfMoment_nonneg hday hmoment))
        · exact .inr (.inr ⟨⟨rfl, moment, rfl, by omega⟩, trivial⟩)
  | time =>
    simp only [Value.coerce] at h
    cases v with
    | str s =>
      simp only [Value.toTime] at h
      split at h
      · rename_i hread
        cases h
        exact .inl (Value.regular_time (withinDay_of_readClock hread))
      · cases h
    | time minute =>
      cases h
      exact .inr (.inl rfl)
    | date day => cases h
    | int n =>
      cases h
      exact .inl (Value.regular_timeOfDay _)
    | dateTime moment =>
      cases h
      exact .inl (Value.regular_timeOfDay _)
  | dateTime =>
    have gives : Gives Value.Regular (v.toDateTime separators) := by
      unfold Value.toDateTime
      split
      · simp
      · simp [Value.momentOf]
      · split <;> simp [Value.momentOf]
      all_goals simp
    exact .inl (gives w h)

/-! ## What is looked up -/

def Variables.values (vars : Variables) : List Value := vars.entries.map (·.value)

def SystemVariables.values (vars : SystemVariables) : List Value := vars.assigned.map (·.2)

/-- The dates and times that the host shows. -/
def HostState.readings (host : HostState) : List Value :=
  [.date host.today, .date host.realToday, .time host.now, .time host.realNow,
    .date host.trigger.day, .time host.trigger.time]

/-- The values that an environment holds: those of the variables, those
assigned to system variables and the readings of the host. -/
def Environment.values (env : Environment) : List Value :=
  env.globals.values ++ env.systemVariables.values ++ env.host.readings

section Environments

variable {env : Environment} {v : Value}

/-- What is held is held in one of three places. -/
theorem Environment.forall_values {P : Value → Prop} :
    (∀ v ∈ env.values, P v) ↔
      (∀ v ∈ env.globals.values, P v) ∧ (∀ v ∈ env.systemVariables.values, P v)
        ∧ ∀ v ∈ env.host.readings, P v := by
  simp only [values, List.forall_mem_append, and_assoc]

theorem Environment.mem_values_of_reading (h : v ∈ env.host.readings) : v ∈ env.values :=
  List.mem_append_right _ h

theorem Environment.mem_values_of_global {entry : Variable} (h : entry ∈ env.globals.entries) :
    entry.value ∈ env.values :=
  List.mem_append_left _ (List.mem_append_left _ (List.mem_map_of_mem h))

/-- The value of a variable is held. -/
theorem Environment.mem_values_of_get? {name : String} (h : env.globals.get? name = some v) :
    v ∈ env.values := by
  obtain ⟨entry, hentry, rfl⟩ := Option.map_eq_some_iff.1 h
  exact mem_values_of_global (List.mem_of_find?_eq_some hentry)

theorem Environment.mem_values_of_assigned {name : String}
    (h : env.systemVariables.assigned.lookup name = some v) : v ∈ env.values := by
  refine List.mem_append_left _ (List.mem_append_right _ ?_)
  obtain ⟨before, after, hsplit, -⟩ := List.lookup_eq_some_iff.1 h
  rw [SystemVariables.values, hsplit]
  simp

/-- A view shows an integer, a string or a date of the host. -/
theorem Special.read_regular_or_mem (host : HostState) (view : Special) :
    (view.read host).Regular ∨ view.read host ∈ host.readings := by
  cases view <;> simp [read, HostState.readings, Value.ofBool]

/-- A system variable is regular or holds what the environment holds. -/
theorem Environment.systemVariable_regular_or_mem {name : String}
    (h : env.systemVariable name = .ok v) : v.Regular ∨ v ∈ env.values := by
  have stored : ∀ {key : String} {initial : Value}, initial.Regular →
      ((env.systemVariables.assigned.lookup key).getD initial).Regular
        ∨ (env.systemVariables.assigned.lookup key).getD initial ∈ env.values := by
    intro key initial hinitial
    cases hkey : env.systemVariables.assigned.lookup key with
    | none => exact .inl hinitial
    | some w => exact .inr (mem_values_of_assigned hkey)
  unfold systemVariable SystemVariables.get at h
  split at h
  · cases h
  · cases h
    unfold SystemVariables.valueOf
    split
    · exact (Special.read_regular_or_mem _ _).imp_right mem_values_of_reading
    · exact stored (Value.regular_int _)
    · exact stored (Value.regular_str _)

/-- A name that is not local stands for a regular value or for one that the
environment holds. -/
theorem Environment.lookup_regular_or_mem {name : String} (h : env.lookup name = .ok v) :
    v.Regular ∨ v ∈ env.values := by
  unfold lookup at h
  split at h
  · exact systemVariable_regular_or_mem h
  · split at h
    · rename_i hfound
      cases h
      exact .inr (mem_values_of_get? hfound)
    · cases h

end Environments

/-! ## Built-in functions -/

namespace Builtin

open Choice Dates Strings

/-- Where the value of a built-in function comes from. -/
inductive Origin (env : Environment) (b : Builtin) (arguments : List Value) : Value → Prop
  | regular {v : Value} (h : v.Regular) : Origin env b arguments v
  | argument {v : Value} (h : v ∈ arguments) : Origin env b arguments v
  | held {v : Value} (h : v ∈ env.values) : Origin env b arguments v
  /-- The date of a moment before day 0. -/
  | early {name : String} {kind : ValueKind} {v w : Value} (hb : b = .coerce)
      (harguments : arguments = [.str name, v]) (hkind : ValueKind.ofName? name = some kind)
      (h : CoercesEarlyMoment kind v) (hw : w.WithinDay) : Origin env b arguments w

variable {env : Environment} {b : Builtin} {vs : List Value}

theorem origin_int (n : Int) : Origin env b vs (.int n) := .regular (Value.regular_int n)

theorem origin_str (s : String) : Origin env b vs (.str s) := .regular (Value.regular_str s)

/-! ### Dates and times -/

theorem dayOfParts_nonneg {year month dayOfMonth : Value} {day : Int}
    (h : dayOfParts year month dayOfMonth = .ok day) : 0 ≤ day := by
  have gives : Gives (fun day : Int => 0 ≤ day) (dayOfParts year month dayOfMonth) :=
    Gives.bind fun _ _ => Gives.bind fun _ _ => Gives.bind fun _ _ => fun _ => dayOfCivil_nonneg
  exact gives _ h

theorem withinDay_of_minutesOfParts {hour minute m : Int}
    (h : minutesOfParts hour minute = .ok m) : 0 ≤ m ∧ m < minutesPerDay := by
  unfold minutesOfParts at h
  split at h
  · cases h
  · split at h
    · cases h
    · cases h
      have : minutesPerDay = 1440 := rfl
      omega

theorem regular_moment (vs : List Value) : Gives Value.Regular (moment vs) := by
  have parts : ∀ day vs, Gives Value.Regular (momentOfParts day vs) := by
    intro day vs
    unfold momentOfParts
    split
    · simp [Value.momentOf]
    · exact Gives.bind fun _ _ => by simp [Value.momentOf]
    all_goals simp
  unfold moment
  split
  · exact parts _ _
  · exact Gives.bind fun _ _ => parts _ _
  · exact gives_error _

/-- Every Easter that can be written is after day 0. -/
theorem easterOfYear_nonneg {year day : Int} (h : Easter.ofYear year = .ok day) : 0 ≤ day := by
  unfold Easter.ofYear at h
  dsimp only at h
  split at h
  · exact dayOfCivil_nonneg h
  · exact dayOfCivil_nonneg h

theorem easterSearch_nonneg {feastOf : Int → Result Int}
    (hfeast : ∀ {year day}, feastOf year = .ok day → 0 ≤ day) {limit : Int} {years : Nat}
    {year day : Int} (h : Easter.searchFrom feastOf limit years year = .ok day) : 0 ≤ day := by
  induction years generalizing year with
  | zero => cases h
  | succ years ih =>
    unfold Easter.searchFrom at h
    split at h
    · cases h
    · rename_i hfound
      split at h
      · cases h
        exact hfeast hfound
      · exact ih h

theorem easter_nonneg {v : Value} {day : Int} (h : easter v = .ok day) : 0 ≤ day := by
  have gives : Gives (fun day : Int => 0 ≤ day) (easter v) := by
    unfold easter
    split
    · split
      · exact gives_error _
      · split
        · exact gives_error _
        · exact fun _ => easterOfYear_nonneg
    · exact Gives.bind fun _ _ => fun _ => easterSearch_nonneg easterOfYear_nonneg
  exact gives _ h

/-! ### Choices -/

theorem mem_of_firstTrue : ∀ {vs : List Value} {v : Value},
    firstTrue vs = some (.ok v) → v ∈ vs
  | [], _, h => by cases h
  | [w], v, h => by
      cases h
      exact List.mem_cons_self
  | condition :: w :: rest, v, h => by
      unfold firstTrue at h
      split at h
      · cases h
      · cases h
        exact List.mem_cons_of_mem _ List.mem_cons_self
      · exact List.mem_cons_of_mem _ (List.mem_cons_of_mem _ (mem_of_firstTrue h))

theorem mem_of_iifOf {v : Value} (h : iifOf vs = some (.ok v)) : v ∈ vs := by
  rw [iifOf_eq] at h
  split at h
  · cases h
  · exact mem_of_firstTrue h

theorem mem_of_extremeFrom {wanted : Ordering} {best v : Value} {vs : List Value}
    (h : extremeFrom wanted best vs = .ok v) : v ∈ best :: vs := by
  induction vs generalizing best with
  | nil =>
    cases h
    exact List.mem_cons_self
  | cons w vs ih =>
    unfold extremeFrom at h
    split at h
    · cases h
    · have hmem := ih h
      split at hmem
      · exact List.mem_cons_of_mem _ hmem
      · rcases List.mem_cons.1 hmem with rfl | hmem
        · exact List.mem_cons_self
        · exact List.mem_cons_of_mem _ (List.mem_cons_of_mem _ hmem)

theorem mem_of_extreme {wanted : Ordering} {v : Value} (h : extreme wanted vs = some (.ok v)) :
    v ∈ vs := by
  cases vs with
  | nil => cases h
  | cons w vs => exact mem_of_extremeFrom (Option.some.inj h)

theorem mem_of_chosen {n : Int} {v : Value} (h : chosen n vs = some v) : v ∈ vs :=
  List.mem_of_getElem? h

/-! ### All rules -/

theorem gives_of_map_str {o : Option String} {r : Result Value}
    (h : (o.map fun s => .ok (.str s)) = some r) : Gives (Origin env b vs) r := by
  cases o with
  | none => cases h
  | some s =>
    cases h
    exact (gives_ok _).2 (origin_str s)

theorem gives_of_argument {r : Result Value} (h : ∀ v, r = .ok v → v ∈ vs) :
    Gives (Origin env b vs) r :=
  fun v hv => .argument (h v hv)

theorem gives_of_triggerOf {day minute shift : Int} {r : Result Value}
    (h : triggerOf env day minute shift = some r) : Gives (Origin env b vs) r := by
  unfold triggerOf at h
  split at h
  · exact gives_of_map_str h
  · split at h
    · cases h
      exact gives_error _
    · exact gives_of_map_str h

theorem gives_variableOr {name : String} {otherwise : Result Value}
    (h : Gives (Origin env b vs) otherwise) :
    Gives (Origin env b vs) (variableOr env name otherwise) := by
  unfold variableOr
  split
  · rename_i hfound
    exact (gives_ok _).2 (.held (Environment.mem_values_of_get? hfound))
  · exact h

/-- What `coerce` gives is regular, or its second argument, or the date of a
moment before day 0. -/
theorem gives_coerce (env : Environment) (kind v : Value) :
    Gives (Origin env .coerce [kind, v]) (do
      match ValueKind.ofName? (← kind.asString) with
      | none => .error .cantCoerce
      | some kind => v.coerce env.host.separators kind) := by
  refine Gives.bind fun name hname => ?_
  have hkind : kind = .str name := by
    cases kind <;> cases hname
    rfl
  subst hkind
  split
  · exact gives_error _
  · rename_i found hfound
    intro w hw
    rcases regular_coerce hw with hregular | rfl | ⟨hearly, hwithin⟩
    · exact .regular hregular
    · exact .argument (by simp)
    · exact .early rfl rfl hfound hearly hwithin

/-- The rule of every built-in function. -/
theorem origin_of_call? {functions : UserFunctions} {r : Result Value}
    (h : call? env functions b vs = some r) : Gives (Origin env b vs) r := by
  unfold call? at h
  split at h
  -- A rule that reads its arguments in turn ends with an integer or a string.
  all_goals try
    cases h
    repeat with_reducible refine Gives.bind fun _ _ => ?_
    with_reducible first
    | exact (gives_ok _).2 (origin_int _)
    | exact (gives_ok _).2 (origin_str _)
  · cases h
    refine Gives.bind fun _ _ => ?_
    split <;> simp [origin_int]
  · split at h
    · cases h
      exact gives_error _
    · obtain ⟨w, hw, rfl⟩ := Option.map_eq_some_iff.1 h
      exact (gives_ok _).2 (.argument (List.mem_cons_of_mem _ (mem_of_chosen hw)))
  · exact gives_of_argument fun _ hv => mem_of_iifOf (hv ▸ h)
  · exact gives_of_argument fun _ hv => mem_of_extreme (hv ▸ h)
  · exact gives_of_argument fun _ hv => mem_of_extreme (hv ▸ h)
  · cases h
    exact gives_coerce _ _ _
  · cases h
    refine Gives.bind fun _ _ => ?_
    split <;> simp [origin_int]
  · cases h
    refine Gives.bind fun _ hday => (gives_ok _).2 (.regular (Value.regular_date ?_))
    exact dayOfParts_nonneg hday
  · cases h
    refine Gives.bind fun _ _ => Gives.bind fun _ _ => Gives.bind fun _ hminutes => ?_
    exact (gives_ok _).2 (.regular (Value.regular_time (withinDay_of_minutesOfParts hminutes)))
  · cases h
    exact fun _ hv => .regular (regular_moment _ _ hv)
  · split at h
    · cases h
      exact gives_error _
    · exact gives_of_map_str h
  · cases h
    refine Gives.bind fun _ hday => (gives_ok _).2 (.regular (Value.regular_date ?_))
    exact easter_nonneg hday
  -- Six functions show a date or a time of the host.
  iterate 6
    · cases h
      refine (gives_ok _).2 (.held (Environment.mem_values_of_reading ?_))
      simp [HostState.readings]
  · split at h
    · cases h
      exact gives_error _
    · exact gives_of_map_str h
  · split at h
    · cases h
      exact gives_error _
    · cases h
      exact gives_error _
    · exact gives_of_triggerOf h
  · split at h
    · cases h
      exact gives_error _
    · cases h
      exact gives_error _
    · cases h
      exact gives_error _
    · exact gives_of_triggerOf h
  · cases h
    exact Gives.bind fun _ _ => gives_variableOr (gives_error _)
  · cases h
    exact Gives.bind fun _ _ => gives_variableOr ((gives_ok _).2 (.argument (by simp)))
  · cases h
    refine Gives.bind fun _ _ => ?_
    split <;> simp [origin_int]
  · cases h

/-- The value of a call is regular, or one of its arguments, or held by the
environment, or the date that `coerce` makes of a moment before day 0. -/
theorem origin_of_apply {functions : UserFunctions} {v : Value}
    (h : b.apply env functions vs = .ok v) : Origin env b vs v := by
  unfold apply at h
  cases hcall : call? env functions b vs with
  | none => simp [hcall] at h
  | some r =>
    rw [hcall] at h
    exact origin_of_call? hcall v h

end Builtin

end ReminderExpr
