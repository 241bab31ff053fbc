/-
ReminderExpr.Proofs.ConstantFunctions — what the functions marked as constant
take from their surroundings.

A function is marked as constant if its value depends on its arguments alone.
This is so of all that are marked but one: `coerce` writes and reads dates and
times of day with the separators of the host. Nothing else of the environment
reaches a constant function, and the separators reach `coerce` only where one
of the two kinds is that of strings.

* `Value.coerce_eq_of_not_crosses` — coercions that see no separator;
* `Value.written_eq_iff` — when a value has the same text under two pairs of
  separators;
* `Builtin.call?_eq_of_constant_of_ne` — the functions other than `coerce`;
* `Builtin.constant_functions_read_separators` — all of them.
-/
import ReminderExpr.Interpreter
import ReminderExpr.Proofs.WrittenForms

namespace ReminderExpr

/-! ## Texts and separators -/

namespace Value

variable {separators separators' : Separators}

/-- Whether making a value one of some kind writes or reads the text of a date
or of a time of day. -/
def crossesText (v : Value) (kind : ValueKind) : Bool :=
  match v, kind with
  | .date _, .str | .time _, .str | .dateTime _, .str => true
  | .str _, .date | .str _, .time | .str _, .dateTime => true
  | _, _ => false

/-- The separators that the text of a value shows. -/
def separatorsShown (separators : Separators) : Value → List Char
  | .int _ | .str _ => []
  | .date _ => [separators.date]
  | .time _ => [separators.time]
  | .dateTime _ => [separators.date, separators.time]

/-- A coercion that neither writes nor reads such a text sees no separator. -/
theorem coerce_eq_of_not_crosses (separators separators' : Separators) {v : Value}
    {kind : ValueKind} (h : v.crossesText kind = false) :
    v.coerce separators kind = v.coerce separators' kind := by
  cases v with
  | int n => cases kind <;> rfl
  | str s =>
    cases kind with
    | int => rfl
    | str => rfl
    | date | time | dateTime => cases h
  | date n | time n | dateTime n =>
    cases kind with
    | str => cases h
    | int | date | time | dateTime => rfl

theorem toList_writtenDate (separators : Separators) (day : Int) :
    (writtenDate separators day).toList
      = (Text.padded 4 (Calendar.CivilDate.ofDay day).year).toList ++ separators.date ::
        ((Text.padded 2 (Calendar.CivilDate.ofDay day).month).toList ++ separators.date ::
          (Text.padded 2 (Calendar.CivilDate.ofDay day).day).toList) := by
  simp [writtenDate, Char.toString_eq_singleton]

theorem toList_writtenTime (separators : Separators) (minutes : Int) :
    (writtenTime separators minutes).toList
      = (Text.padded 2 (minutes.tdiv 60)).toList ++ separators.time ::
        (Text.padded 2 (minutes.tmod 60)).toList := by
  simp [writtenTime, Char.toString_eq_singleton]

theorem writtenDate_eq_iff {day : Int} :
    writtenDate separators day = writtenDate separators' day
      ↔ separators.date = separators'.date := by
  constructor
  · intro h
    have htext := congrArg String.toList h
    rw [toList_writtenDate, toList_writtenDate] at htext
    exact (List.cons.inj (List.append_cancel_left htext)).1
  · intro h
    simp only [writtenDate, h]

theorem writtenTime_eq_iff {minutes : Int} :
    writtenTime separators minutes = writtenTime separators' minutes
      ↔ separators.time = separators'.time := by
  constructor
  · intro h
    have htext := congrArg String.toList h
    rw [toList_writtenTime, toList_writtenTime] at htext
    exact (List.cons.inj (List.append_cancel_left htext)).1
  · intro h
    simp only [writtenTime, h]

/-- A value has the same text under two pairs of separators if the text shows
the same ones of them. -/
theorem written_eq_iff {v : Value} :
    v.written separators = v.written separators'
      ↔ v.separatorsShown separators = v.separatorsShown separators' := by
  cases v with
  | int n => exact ⟨fun _ => rfl, fun _ => rfl⟩
  | str s => exact ⟨fun _ => rfl, fun _ => rfl⟩
  | date day => simp [written, separatorsShown, writtenDate_eq_iff]
  | time minutes => simp [written, separatorsShown, writtenTime_eq_iff]
  | dateTime moment =>
    constructor
    · intro h
      have htext := congrArg String.toList h
      rw [toList_written_dateTime, toList_written_dateTime] at htext
      -- The days are written at the same length, so that the times stand in the same place.
      have hlength : (writtenDate separators (writtenDay moment)).toList.length
          = (writtenDate separators' (writtenDay moment)).toList.length := by
        simp only [toList_writtenDate, List.length_append, List.length_cons]
      obtain ⟨hday, htime⟩ := List.append_inj htext hlength
      have hdate := writtenDate_eq_iff.1 (String.toList_injective hday)
      have htime := writtenTime_eq_iff.1 (String.toList_injective (List.cons.inj htime).2)
      simp only [separatorsShown, hdate, htime]
    · intro h
      obtain ⟨hdate, htime⟩ := List.cons.inj h
      simp only [written, writtenDate, writtenTime, hdate, (List.cons.inj htime).1]

end Value

/-! ## Functions -/

namespace Builtin

variable {b : Builtin} {environment environment' : Environment}
  {functions functions' : UserFunctions}

/-- The rules of all constant functions but `coerce` look at the arguments
alone. -/
theorem call?_eq_of_constant_of_ne (hb : b.signature.constant = true) (hne : b ≠ coerce)
    (vs : List Value) : b.call? environment functions vs = b.call? environment' functions' vs := by
  cases b with
  | coerce => exact absurd rfl hne
  | _ =>
    first
    | cases hb; done
    | rcases vs with _ | ⟨v, _ | ⟨w, _ | ⟨u, _ | ⟨t, vs⟩⟩⟩⟩ <;> rfl

theorem apply_eq_of_constant_of_ne (hb : b.signature.constant = true) (hne : b ≠ coerce)
    (vs : List Value) : b.apply environment functions vs = b.apply environment' functions' vs := by
  rw [apply, apply, call?_eq_of_constant_of_ne hb hne]

/-- A call of `coerce` with the name of a kind is the coercion to it. -/
theorem apply_coerce {name : String} {kind : ValueKind} (h : ValueKind.ofName? name = some kind)
    (v : Value) :
    coerce.apply environment functions [.str name, v]
      = v.coerce environment.host.separators kind := by
  simp only [apply, call?, Value.asString, bind, Except.bind, h, Option.getD_some]

/-- It is refused if the name is that of no kind. -/
theorem apply_coerce_of_unknown {name : String} (h : ValueKind.ofName? name = none) (v : Value) :
    coerce.apply environment functions [.str name, v] = .error .cantCoerce := by
  simp only [apply, call?, Value.asString, bind, Except.bind, h, Option.getD_some]

/-- A call of `coerce` comes to the same, or it is a coercion that writes or
reads a text under different separators. -/
theorem apply_coerce_eq_or (vs : List Value) :
    coerce.apply environment functions vs = coerce.apply environment' functions' vs
      ∨ environment.host.separators ≠ environment'.host.separators
        ∧ ∃ name v kind, vs = [.str name, v] ∧ ValueKind.ofName? name = some kind
          ∧ v.crossesText kind = true := by
  rcases vs with _ | ⟨first, _ | ⟨v, _ | ⟨w, vs⟩⟩⟩
  · exact .inl rfl
  · exact .inl rfl
  · cases first with
    | str name =>
      cases hkind : ValueKind.ofName? name with
      | none =>
        exact .inl (by rw [apply_coerce_of_unknown hkind, apply_coerce_of_unknown hkind])
      | some kind =>
        rw [apply_coerce hkind, apply_coerce hkind]
        cases hcrosses : v.crossesText kind with
        | false => exact .inl (v.coerce_eq_of_not_crosses _ _ hcrosses)
        | true =>
          by_cases hsep : environment.host.separators = environment'.host.separators
          · exact .inl (by rw [hsep])
          · exact .inr ⟨hsep, name, v, kind, rfl, hkind, hcrosses⟩
    | _ => exact .inl rfl
  · exact .inl rfl

/-- The functions marked as constant come to the same in any two environments,
and with any two tables of functions, except that `coerce` uses the separators
of the host: where it makes a string of a date, a time of day or a moment, or
one of these of a string. A string that it makes is the same exactly if the
separators that the text shows are. So the mark is right, for all functions
together, exactly as long as the separators stay as they are. -/
theorem constant_functions_read_separators (environment environment' : Environment)
    (functions functions' : UserFunctions) :
    (∀ b : Builtin, b.signature.constant = true → ∀ vs,
        b.apply environment functions vs = b.apply environment' functions' vs
          ∨ b = coerce ∧ environment.host.separators ≠ environment'.host.separators
            ∧ ∃ name v kind, vs = [.str name, v] ∧ ValueKind.ofName? name = some kind
              ∧ v.crossesText kind = true)
      ∧ (∀ name v, ValueKind.ofName? name = some .str →
          (coerce.apply environment functions [.str name, v]
              = coerce.apply environment' functions' [.str name, v]
            ↔ v.separatorsShown environment.host.separators
              = v.separatorsShown environment'.host.separators))
      ∧ ((∀ b : Builtin, b.signature.constant = true → ∀ vs,
            b.signature.checkArity vs.length = .ok () →
            b.apply environment functions vs = b.apply environment' functions' vs)
          ↔ environment.host.separators = environment'.host.separators) := by
  have hsame : ∀ b : Builtin, b.signature.constant = true → ∀ vs,
      b.apply environment functions vs = b.apply environment' functions' vs
        ∨ b = coerce ∧ environment.host.separators ≠ environment'.host.separators
          ∧ ∃ name v kind, vs = [.str name, v] ∧ ValueKind.ofName? name = some kind
            ∧ v.crossesText kind = true := by
    intro b hb vs
    by_cases hne : b = coerce
    · subst hne
      exact (apply_coerce_eq_or vs).imp_right fun h => ⟨rfl, h⟩
    · exact .inl (apply_eq_of_constant_of_ne hb hne vs)
  have hwritten : ∀ name v, ValueKind.ofName? name = some .str →
      (coerce.apply environment functions [.str name, v]
          = coerce.apply environment' functions' [.str name, v]
        ↔ v.separatorsShown environment.host.separators
          = v.separatorsShown environment'.host.separators) := by
    intro name v hkind
    rw [apply_coerce hkind, apply_coerce hkind, ← Value.written_eq_iff]
    exact ⟨fun h => Value.str.inj (Except.ok.inj h), fun h => congrArg (Except.ok ∘ Value.str) h⟩
  refine ⟨hsame, hwritten, fun h => ?_, fun h b hb vs _ => ?_⟩
  · -- The text of a moment shows both separators.
    have hmoment := h coerce rfl [.str "STRING", .dateTime 0] rfl
    obtain ⟨hdate, htime⟩ := List.cons.inj ((hwritten "STRING" _ (by decide)).1 hmoment)
    exact congrArg₂ Separators.mk hdate (List.cons.inj htime).1
  · exact (hsame b hb vs).resolve_right fun ⟨_, hne, _⟩ => hne h

/-- Under another separator of times, an expression that is marked as constant
has another value; the greatest of three numbers is the same on another day. -/
theorem clock_text_in_two_environments :
    let environment : Environment := { host := { today := 7000, separators := { time := '.' } } }
    let shown := fun (environment : Environment) =>
      ({} : Interpreter).evaluate environment {} {} "coerce(\"string\", time(7, 5))".toList
    Builtin.coerce.signature.constant = true
      ∧ coerce.apply {} {} [.str "string", .time 425]
        ≠ coerce.apply environment {} [.str "string", .time 425]
      ∧ ((shown {}).result
          = .ok { value := .str "07:05", terminator := .endOfText, nonconst := false }
        ∧ (shown {}).rest = [])
      ∧ ((shown environment).result
          = .ok { value := .str "07.05", terminator := .endOfText, nonconst := false }
        ∧ (shown environment).rest = [])
      ∧ max.apply {} {} [.int 3, .int 8, .int 5] = max.apply environment {} [.int 3, .int 8, .int 5]
      := by
  intro environment shown
  obtain ⟨hsame, hwritten, -⟩ := constant_functions_read_separators {} environment {} {}
  refine ⟨rfl, fun heq => ?_, ?_, ?_, ?_⟩
  · have htime := (hwritten "string" (.time 425) (by decide)).1 heq
    revert htime
    decide
  · exact Interpreter.evaluateScope_of_runFor 30 (by decide +kernel)
  · exact Interpreter.evaluateScope_of_runFor 30 (by decide +kernel)
  · exact (hsame max rfl _).resolve_right fun ⟨hne, _⟩ => nomatch hne

end Builtin

end ReminderExpr
