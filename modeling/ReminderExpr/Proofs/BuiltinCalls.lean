/-
ReminderExpr.Proofs.BuiltinCalls — calls of built-in functions have an
ordinary outcome.

A call whose number of arguments passes `Signature.checkArity` is one that
the function has a rule for (`isSome_call?`), and no rule fails with a cause
that only the machine raises (`ordinary_of_call?`). Together they say that
the fallback of `Builtin.apply` is never needed (`ordinary_apply`).
-/
import ReminderExpr.Proofs.Failures
import ReminderExpr.Proofs.FirstTrue

namespace ReminderExpr

open Calendar

/-! ## The number of arguments -/

/-- The numbers of arguments that a function accepts. -/
theorem Signature.checkArity_eq_ok_iff (s : Signature) (count : Nat) :
    s.checkArity count = .ok () ↔ s.minArgs ≤ count ∧ ∀ most ∈ s.maxArgs, count ≤ most := by
  unfold checkArity
  split
  · rename_i h
    simp only [reduceCtorEq, false_iff, not_and]
    omega
  · rename_i hmin
    cases hmax : s.maxArgs with
    | none => simpa using hmin
    | some most =>
      by_cases hlt : most < count
      · simp [hlt]
      · simp only [Option.any_some, hlt, decide_false, Bool.false_eq_true, if_false, true_iff]
        refine ⟨by omega, ?_⟩
        rintro most' ⟨⟩
        omega

@[simp] theorem ordinary_checkArity (s : Signature) (count : Nat) :
    Ordinary (s.checkArity count) := by
  unfold Signature.checkArity
  split
  · simp [EvalError.raisedByMachine]
  · split <;> simp [EvalError.raisedByMachine]

/-! ## Months have names -/

theorem passMonths_bounds (year : Int) (months month day : Nat) :
    month ≤ (passMonths year months month day).1
      ∧ (passMonths year months month day).1 ≤ month + months := by
  induction months generalizing month day with
  | zero => exact ⟨Nat.le_refl _, Nat.le_refl _⟩
  | succ months ih =>
    unfold passMonths
    split
    · exact ⟨Nat.le_refl _, Nat.le_add_right _ _⟩
    · have h := ih (month + 1) (day - daysInMonth month year)
      omega

/-- The month of a day is one of the twelve. -/
theorem month_ofDay (day : Int) :
    1 ≤ (CivilDate.ofDay day).month ∧ (CivilDate.ofDay day).month ≤ 12 :=
  passMonths_bounds _ 11 1 _

/-- The twelve months have names. -/
theorem isSome_monthName {month : Nat} (h : 1 ≤ month ∧ month ≤ 12) :
    (monthName month).isSome := by
  have hlt : month - 1 < monthNames.length := by
    show month - 1 < 12
    omega
  unfold monthName
  rw [if_neg (by omega), List.getElem?_eq_getElem hlt]
  rfl

namespace Dates

/-- The text of a trigger can be written for every day. -/
theorem isSome_triggerText (day : Int) (minute : Option Int) :
    (triggerText day minute).isSome := by
  obtain ⟨month, hmonth⟩ := Option.isSome_iff_exists.1 (isSome_monthName (month_ofDay day))
  unfold triggerText
  dsimp only
  rw [hmonth]
  cases minute <;> rfl

theorem month_civilOf {v : Value} {civil : CivilDate} (h : civilOf v = .ok civil) :
    1 ≤ civil.month ∧ civil.month ≤ 12 := by
  unfold civilOf at h
  cases hd : dayOf v with
  | error e =>
    rw [hd] at h
    cases h
  | ok day =>
    rw [hd] at h
    cases h
    exact month_ofDay day

/-- A month that has been accepted is one of the twelve. -/
theorem monthOf_bounds {v : Value} {month : Nat} (h : monthOf v = .ok month) :
    1 ≤ month ∧ month ≤ 12 := by
  cases v with
  | int n =>
    simp only [monthOf] at h
    split at h
    · cases h
    · split at h
      · cases h
      · cases h
        omega
  | _ =>
    simp only [monthOf] at h
    generalize hc : civilOf _ = civil at h
    cases civil with
    | error e => cases h
    | ok civil =>
      cases h
      exact month_civilOf hc

end Dates

/-! ## Every accepted call has a rule -/

namespace Builtin

open Choice Dates Strings

/-- A walk over an odd number of arguments ends with a choice or a failure. -/
theorem isSome_firstTrue : ∀ {vs : List Value}, vs.length % 2 = 1 → (firstTrue vs).isSome
  | [], h => absurd h (by decide)
  | [_], _ => rfl
  | _ :: _ :: rest, h => by
      unfold firstTrue
      split
      · rfl
      · rfl
      · exact isSome_firstTrue (by simp only [List.length_cons] at h; omega)

theorem isSome_iifOf (vs : List Value) : (iifOf vs).isSome := by
  rw [iifOf_eq]
  split
  · rfl
  · exact isSome_firstTrue (by omega)

/-- A number picks one of the values, if there are any. -/
theorem isSome_chosen (n : Int) {vs : List Value} (h : vs ≠ []) : (chosen n vs).isSome := by
  have hpos : 0 < vs.length := List.length_pos_iff.2 h
  have hlt : Min.min (n - 1).toNat (vs.length - 1) < vs.length := by omega
  unfold chosen
  rw [List.getElem?_eq_getElem hlt]
  rfl

theorem isSome_triggerOf (env : Environment) (day minute shift : Int) :
    (triggerOf env day minute shift).isSome := by
  unfold triggerOf
  split
  · rw [Option.isSome_map]
    exact isSome_triggerText _ _
  · split
    · rfl
    · rw [Option.isSome_map]
      exact isSome_triggerText _ _

theorem isSome_choose (env : Environment) (functions : UserFunctions) (v w : Value)
    (vs : List Value) : (call? env functions .choose (v :: w :: vs)).isSome := by
  cases v with
  | int n =>
    show ((chosen n (w :: vs)).map Except.ok : Option (Result Value)).isSome
    rw [Option.isSome_map]
    exact isSome_chosen n (List.cons_ne_nil w vs)
  | _ => rfl

theorem isSome_mon (env : Environment) (functions : UserFunctions) (v : Value) :
    (call? env functions .mon [v]).isSome := by
  unfold call?
  dsimp only
  cases hmonth : monthOf v with
  | error e => rfl
  | ok month =>
    dsimp only
    rw [Option.isSome_map]
    exact isSome_monthName (monthOf_bounds hmonth)

theorem isSome_trigger_day (env : Environment) (functions : UserFunctions) (d : Value) :
    (call? env functions .trigger [d]).isSome := by
  cases d with
  | date day =>
    show ((triggerText day none).map fun s => .ok (.str s) : Option (Result Value)).isSome
    rw [Option.isSome_map]
    exact isSome_triggerText day none
  | _ => rfl

theorem isSome_trigger_time (env : Environment) (functions : UserFunctions) (d t : Value) :
    (call? env functions .trigger [d, t]).isSome := by
  cases d with
  | date day =>
    cases t with
    | time minute => exact isSome_triggerOf env day minute 0
    | _ => rfl
  | _ => rfl

theorem isSome_trigger_shift (env : Environment) (functions : UserFunctions) (d t u : Value) :
    (call? env functions .trigger [d, t, u]).isSome := by
  cases d with
  | date day =>
    cases t with
    | time minute =>
      cases u with
      | int shift => exact isSome_triggerOf env day minute shift
      | _ => rfl
    | _ => rfl
  | _ => rfl

/-- Every call with an accepted number of arguments has a rule. -/
theorem isSome_call? (env : Environment) (functions : UserFunctions) (b : Builtin)
    (vs : List Value) (h : b.signature.checkArity vs.length = .ok ()) :
    (call? env functions b vs).isSome := by
  rw [Signature.checkArity_eq_ok_iff] at h
  obtain ⟨hmin, hmax⟩ := h
  cases b with
  | iif => exact isSome_iifOf vs
  | choose =>
    rcases vs with _ | ⟨v, _ | ⟨w, vs⟩⟩
    · simp [signature] at hmin
    · simp [signature] at hmin
    · exact isSome_choose env functions v w vs
  | mon =>
    rcases vs with _ | ⟨v, _ | ⟨w, vs⟩⟩
    · simp [signature] at hmin
    · exact isSome_mon env functions v
    · have hmany := hmax 1 rfl
      simp only [List.length_cons] at hmany
      omega
  | trigger =>
    rcases vs with _ | ⟨d, _ | ⟨t, _ | ⟨u, _ | ⟨w, vs⟩⟩⟩⟩
    · simp [signature] at hmin
    · exact isSome_trigger_day env functions d
    · exact isSome_trigger_time env functions d t
    · exact isSome_trigger_shift env functions d t u
    · have hmany := hmax 3 rfl
      simp only [List.length_cons] at hmany
      omega
  | _ =>
    -- All others have a rule for every list of an accepted length.
    rcases vs with _ | ⟨v, _ | ⟨w, _ | ⟨u, _ | ⟨t, vs⟩⟩⟩⟩ <;>
      first
      | rfl
      | (simp [signature] at hmin; done)
      | (have hmany := hmax _ rfl
         simp only [List.length_cons] at hmany
         omega)

/-! ## No rule fails as the machine does -/

@[simp] theorem ordinary_dayOfMoment (moment : Int) : Ordinary (dayOfMoment moment) := by
  unfold dayOfMoment
  dsimp only
  split <;> simp [EvalError.raisedByMachine]

theorem ordinary_coerce (separators : Separators) (kind : ValueKind) (v : Value) :
    Ordinary (v.coerce separators kind) := by
  cases kind with
  | int =>
    simp only [Value.coerce]
    unfold Value.toInt
    split
    · split <;> simp [EvalError.raisedByMachine]
    all_goals exact ordinary_ok _
  | str => exact ordinary_ok _
  | date =>
    simp only [Value.coerce]
    unfold Value.toDate
    split
    · split
      · simp [EvalError.raisedByMachine]
      · split <;> simp [EvalError.raisedByMachine]
    · split <;> simp [EvalError.raisedByMachine]
    · exact (ordinary_dayOfMoment _).bind fun _ => ordinary_ok _
    · exact ordinary_ok _
    · simp [EvalError.raisedByMachine]
  | time =>
    simp only [Value.coerce]
    unfold Value.toTime
    split
    · exact ordinary_ok _
    · exact ordinary_ok _
    · split <;> simp [EvalError.raisedByMachine]
    · exact ordinary_ok _
    · simp [EvalError.raisedByMachine]
  | dateTime =>
    simp only [Value.coerce]
    unfold Value.toDateTime
    split
    · exact ordinary_ok _
    · exact ordinary_ok _
    · split <;> simp [EvalError.raisedByMachine]
    · exact ordinary_ok _
    · simp [EvalError.raisedByMachine]

/-! ### Dates and times -/

@[simp] theorem ordinary_dayOf (v : Value) : Ordinary (dayOf v) := by
  cases v <;> simp [dayOf, EvalError.raisedByMachine]

@[simp] theorem ordinary_minuteOf (v : Value) : Ordinary (minuteOf v) := by
  cases v <;> simp [minuteOf, EvalError.raisedByMachine]

@[simp] theorem ordinary_civilOf (v : Value) : Ordinary (civilOf v) :=
  (ordinary_dayOf v).bind fun _ => ordinary_ok _

theorem ordinary_monthOrDay (v : Value) : Ordinary (monthOrDay v) := by
  refine (ordinary_asInt v).bind fun _ => ?_
  split <;> simp [EvalError.raisedByMachine]

@[simp] theorem ordinary_dayOfParts (year month day : Value) :
    Ordinary (dayOfParts year month day) := by
  refine (ordinary_asInt year).bind fun _ => ?_
  refine (ordinary_monthOrDay month).bind fun _ => ?_
  exact (ordinary_monthOrDay day).bind fun _ => ordinary_dayOfCivil _ _ _

@[simp] theorem ordinary_minutesOfParts (hour minute : Int) :
    Ordinary (minutesOfParts hour minute) := by
  unfold minutesOfParts
  split
  · simp [EvalError.raisedByMachine]
  · split <;> simp [EvalError.raisedByMachine]

theorem ordinary_momentOfParts (day : Int) (vs : List Value) :
    Ordinary (momentOfParts day vs) := by
  unfold momentOfParts
  split
  · exact ordinary_ok _
  · exact (ordinary_minutesOfParts _ _).bind fun _ => ordinary_ok _
  all_goals simp [EvalError.raisedByMachine]

@[simp] theorem ordinary_moment (vs : List Value) : Ordinary (moment vs) := by
  unfold moment
  split
  · exact ordinary_momentOfParts _ _
  · exact (ordinary_dayOfParts _ _ _).bind fun _ => ordinary_momentOfParts _ _
  · simp [EvalError.raisedByMachine]

@[simp] theorem ordinary_weekdayNameOf (v : Value) : Ordinary (weekdayNameOf v) := by
  unfold weekdayNameOf
  split
  · split
    · simp [EvalError.raisedByMachine]
    · split <;> simp [EvalError.raisedByMachine]
  · exact (ordinary_dayOf _).bind fun _ => ordinary_ok _

@[simp] theorem ordinary_monthOf (v : Value) : Ordinary (monthOf v) := by
  unfold monthOf
  split
  · split
    · simp [EvalError.raisedByMachine]
    · split <;> simp [EvalError.raisedByMachine]
  · exact (ordinary_civilOf _).bind fun _ => ordinary_ok _

@[simp] theorem ordinary_monthLength (month year : Int) : Ordinary (monthLength month year) := by
  unfold monthLength
  split <;> simp [EvalError.raisedByMachine]

@[simp] theorem ordinary_leapYearOf (v : Value) : Ordinary (leapYearOf v) := by
  unfold leapYearOf
  split
  · exact ordinary_ok _
  · exact (ordinary_civilOf _).bind fun _ => ordinary_ok _

theorem ordinary_easterOfYear (year : Int) : Ordinary (Easter.ofYear year) := by
  unfold Easter.ofYear
  generalize Easter.marchDay year = day
  dsimp only
  split <;> exact ordinary_dayOfCivil _ _ _

theorem ordinary_easterSearch {feastOf : Int → Result Int} (h : ∀ year, Ordinary (feastOf year))
    (limit : Int) (years : Nat) (year : Int) :
    Ordinary (Easter.searchFrom feastOf limit years year) := by
  induction years generalizing year with
  | zero => simp [Easter.searchFrom, EvalError.raisedByMachine]
  | succ years ih =>
    unfold Easter.searchFrom
    split
    · rename_i e he
      exact (h year).handedOn he
    · split
      · exact ordinary_ok _
      · exact ih _

@[simp] theorem ordinary_easter (v : Value) : Ordinary (easter v) := by
  unfold easter
  split
  · split
    · simp [EvalError.raisedByMachine]
    · split
      · simp [EvalError.raisedByMachine]
      · exact ordinary_easterOfYear _
  · exact (ordinary_dayOf _).bind fun _ => ordinary_easterSearch ordinary_easterOfYear _ _ _

theorem ordinary_shiftClock (day minute minutes : Int) :
    Ordinary (shiftClock day minute minutes) :=
  (ordinary_dayOfMoment _).bind fun _ => ordinary_ok _

/-! ### Strings and choices -/

theorem ordinary_charOfCode (code : Int) : Ordinary (charOfCode code) := by
  unfold charOfCode
  split
  · simp [EvalError.raisedByMachine]
  · split <;> simp [EvalError.raisedByMachine]

theorem ordinary_charsOfCodes (vs : List Value) : Ordinary (charsOfCodes vs) := by
  induction vs with
  | nil => exact ordinary_ok _
  | cons v vs ih =>
    refine (ordinary_asInt v).bind fun _ => ?_
    split
    · simp [EvalError.raisedByMachine]
    · refine (ordinary_charOfCode _).bind fun _ => ?_
      exact ih.bind fun _ => ordinary_ok _

@[simp] theorem ordinary_stringOfCodes (vs : List Value) : Ordinary (stringOfCodes vs) := by
  unfold stringOfCodes
  split
  · refine (ordinary_asInt _).bind fun _ => ?_
    exact (ordinary_charOfCode _).bind fun _ => ordinary_ok _
  · exact (ordinary_charsOfCodes vs).bind fun _ => ordinary_ok _

theorem ordinary_truth (v : Value) : Ordinary (truth v) := by
  cases v <;> simp [truth, EvalError.raisedByMachine]

theorem ordinary_of_firstTrue : ∀ {vs : List Value} {r : Result Value},
    firstTrue vs = some r → Ordinary r
  | [], _, h => by simp [firstTrue] at h
  | [v], r, h => by
      simp only [firstTrue, Option.some.injEq] at h
      rw [← h]
      exact ordinary_ok v
  | v :: _ :: rest, r, h => by
      unfold firstTrue at h
      split at h
      · rename_i e he
        cases h
        exact (ordinary_truth v).handedOn he
      · cases h
        exact ordinary_ok _
      · exact ordinary_of_firstTrue h

theorem ordinary_extremeFrom (wanted : Ordering) (best : Value) (vs : List Value) :
    Ordinary (extremeFrom wanted best vs) := by
  induction vs generalizing best with
  | nil => exact ordinary_ok _
  | cons v vs ih =>
    unfold extremeFrom
    split
    · simp [EvalError.raisedByMachine]
    · exact ih _

theorem ordinary_of_extreme {wanted : Ordering} {vs : List Value} {r : Result Value}
    (h : extreme wanted vs = some r) : Ordinary r := by
  cases vs with
  | nil => cases h
  | cons v vs =>
    cases h
    exact ordinary_extremeFrom wanted v vs

/-! ### All rules -/

theorem ordinary_of_map {α : Type} {o : Option α} {f : α → Value} {r : Result Value}
    (h : (o.map fun a => .ok (f a)) = some r) : Ordinary r := by
  cases o with
  | none => cases h
  | some a =>
    cases h
    exact ordinary_ok _

theorem ordinary_of_triggerOf {env : Environment} {day minute shift : Int} {r : Result Value}
    (h : triggerOf env day minute shift = some r) : Ordinary r := by
  unfold triggerOf at h
  split at h
  · exact ordinary_of_map h
  · split at h
    · rename_i e he
      cases h
      refine (Ordinary.bind ?_ fun _ => ordinary_shiftClock _ _ _).handedOn he
      exact (ordinary_systemVariable env _).bind fun _ => ordinary_asInt _
    · exact ordinary_of_map h

theorem ordinary_variableOr {env : Environment} {name : String} {otherwise : Result Value}
    (h : Ordinary otherwise) : Ordinary (variableOr env name otherwise) := by
  unfold variableOr
  split
  · exact ordinary_ok _
  · exact h

theorem ordinary_of_iifOf {vs : List Value} {r : Result Value} (h : iifOf vs = some r) :
    Ordinary r := by
  rw [iifOf_eq] at h
  split at h
  · cases h
    simp [EvalError.raisedByMachine]
  · exact ordinary_of_firstTrue h

/-- No built-in function fails with a cause that only the machine raises. -/
theorem ordinary_of_call? {env : Environment} {functions : UserFunctions} {b : Builtin}
    {vs : List Value} {r : Result Value} (h : call? env functions b vs = some r) :
    Ordinary r := by
  unfold call? at h
  split at h
  -- A rule that reads its arguments in turn fails only as one of them does.
  all_goals try
    cases h
    repeat with_reducible refine Ordinary.bind (by simp) fun _ => ?_
    with_reducible exact ordinary_ok _
  · cases h
    refine (ordinary_asInt _).bind fun _ => ?_
    split <;> simp [EvalError.raisedByMachine]
  · split at h
    · rename_i e he
      cases h
      exact (ordinary_asInt _).handedOn he
    · exact ordinary_of_map h
  · exact ordinary_of_iifOf h
  · exact ordinary_of_extreme h
  · exact ordinary_of_extreme h
  · cases h
    refine (ordinary_asString _).bind fun _ => ?_
    split
    · simp [EvalError.raisedByMachine]
    · exact ordinary_coerce _ _ _
  · cases h
    refine (ordinary_asString _).bind fun _ => ?_
    split <;> exact ordinary_ok _
  · cases h
    exact ordinary_moment _
  · split at h
    · rename_i e he
      cases h
      exact (ordinary_monthOf _).handedOn he
    · exact ordinary_of_map h
  · split at h
    · rename_i e he
      cases h
      exact (ordinary_asDate _).handedOn he
    · exact ordinary_of_map h
  · split at h
    · rename_i e he
      cases h
      exact (ordinary_asDate _).handedOn he
    · rename_i e he _
      cases h
      exact (ordinary_asTime _).handedOn he
    · exact ordinary_of_triggerOf h
  · split at h
    · rename_i e he
      cases h
      exact (ordinary_asDate _).handedOn he
    · rename_i e he _
      cases h
      exact (ordinary_asTime _).handedOn he
    · rename_i e he _ _
      cases h
      exact (ordinary_asInt _).handedOn he
    · exact ordinary_of_triggerOf h
  · cases h
    refine (ordinary_asString _).bind fun _ => ?_
    exact ordinary_variableOr ((ordinary_error _).2 rfl)
  · cases h
    refine (ordinary_asString _).bind fun _ => ?_
    exact ordinary_variableOr (ordinary_ok _)
  · cases h
    refine (ordinary_asString _).bind fun _ => ?_
    split <;> exact ordinary_ok _
  · cases h

/-- A call with an accepted number of arguments fails only as its rule does. -/
theorem ordinary_apply {env : Environment} {functions : UserFunctions} {b : Builtin}
    {vs : List Value} (h : b.signature.checkArity vs.length = .ok ()) :
    Ordinary (b.apply env functions vs) := by
  obtain ⟨r, hr⟩ := Option.isSome_iff_exists.1 (isSome_call? env functions b vs h)
  unfold apply
  rw [hr]
  exact ordinary_of_call? hr

end Builtin

end ReminderExpr
