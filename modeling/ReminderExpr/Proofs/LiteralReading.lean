/-
ReminderExpr.Proofs.LiteralReading — literals and the coercion of strings read
alike.

A word of an expression that starts with a digit, and the text between the
quotes of a date, are read by readers of their own; a string is coerced by
others. They count differently: one gives up beyond 63 bits, another beyond
127, a third stops at a ceiling and goes on. All of them accept the texts of
one grammar, with the same values.

* `number_whole_iff` — numbers that are a whole text;
* `readInt?_eq_some_iff`, `readClock_eq_some_iff`, `readAll?_eq_some_iff` — what
  coercion accepts;
* `numberOrTime_eq_ok_iff`, `quotedDate_eq_ok_iff` — what literals are;
* `literals_agree_with_coercion` — the two side by side.
-/
import ReminderExpr.Evaluation.Machine
import ReminderExpr.Proofs.IntegerTexts

namespace ReminderExpr

open Text Calendar

variable {separators : Separators} {text : List Char} {word : String}

/-! ## Whole texts -/

/-- A whole text is a number if it consists of digits. -/
theorem number_whole_iff {n : Nat} :
    Number text n [] ↔
      text ≠ [] ∧ (∀ c ∈ text, c.isDigit = true) ∧ digitsValue text = n := by
  constructor
  · intro h
    obtain ⟨hne, hvalue, hrest⟩ := number_iff.1 h
    have htext : (digitRun text).1 = text := by
      have happend := digitRun_append text
      rwa [hrest, List.append_nil] at happend
    rw [htext] at hne hvalue
    exact ⟨hne, List.dropWhile_eq_nil_iff.1 hrest, hvalue⟩
  · rintro ⟨hne, hall, rfl⟩
    have hnumber : Number (text ++ []) (digitsValue text) [] := .run hne hall nofun
    rwa [List.append_nil] at hnumber

theorem DateLiteral.readAll?_eq_some_iff {literal : DateLiteral} :
    readAll? separators text = some literal ↔ Spelled separators text literal [] := by
  rw [← read_eq_ok_iff]
  unfold readAll?
  split
  · rename_i hread
    rw [hread, Option.some.injEq, Except.ok.injEq, Prod.mk.injEq]
    exact (and_iff_left rfl).symm
  · rename_i hother
    exact ⟨nofun, fun hread => absurd hread (hother literal)⟩

theorem readClock_eq_some_iff {minutes : Int} :
    readClock separators text = some minutes ↔ ClockText separators text minutes [] := by
  rw [← readTime_eq_ok_iff]
  unfold readClock
  split
  · rename_i hread
    rw [hread, Option.some.injEq, Except.ok.injEq, Prod.mk.injEq]
    exact (and_iff_left rfl).symm
  · rename_i hother
    exact ⟨nofun, fun hread => absurd hread (hother minutes)⟩

/-- A clock shows no more than the minutes of a day. -/
theorem ClockText.withinDay {minutes : Int} {rest : List Char}
    (h : ClockText separators text minutes rest) : 0 ≤ minutes ∧ minutes < minutesPerDay := by
  obtain ⟨-, -, -, hshown⟩ := h
  have hday : minutesPerDay = 1440 := rfl
  omega

theorem DateLiteral.Spelled.withinDay {day minute : Int} {rest : List Char}
    (h : Spelled separators text ⟨day, some minute⟩ rest) : 0 ≤ minute ∧ minute < minutesPerDay := by
  cases h with
  | moment hday hc htime => exact htime.withinDay

/-! ## Words that start with a digit -/

/-- A text that starts with a digit is an integer if it is a number of 63 bits. -/
theorem readInt?_eq_some_iff {c : Char} (hc : c.isDigit = true) {cs : List Char} {n : Int} :
    readInt? (c :: cs) = some n ↔ ∃ m, Number (c :: cs) m [] ∧ m ≤ numberCeiling ∧ n = m := by
  rw [readInt?_eq_some_iff_spells]
  simp only [number_whole_iff]
  constructor
  · rintro ⟨hspells, hfits⟩
    cases hspells with
    | plain hall =>
      exact ⟨_, ⟨List.cons_ne_nil _ _, hall, rfl⟩, le_numberCeiling_iff.2 hfits, rfl⟩
    | minus hall => cases hc
  · rintro ⟨_, ⟨-, hall, rfl⟩, hle, rfl⟩
    exact ⟨.plain hall, le_numberCeiling_iff.1 hle⟩

/-- A number with a bound, counted without giving up below it. -/
theorem filter_checkedValue? {limit bound : Nat} (h : bound ≤ limit) (digits : List Char) :
    (checkedValue? limit digits).filter (· ≤ bound)
      = if digitsValue digits ≤ bound then some (digitsValue digits) else none := by
  rw [checkedValue?_eq]
  by_cases hbound : digitsValue digits ≤ bound
  · rw [if_pos (Nat.le_trans hbound h), if_pos hbound]
    exact Option.filter_some_pos (decide_eq_true hbound)
  · rw [if_neg hbound]
    split
    · exact Option.filter_some_neg (by simpa using hbound)
    · rfl

/-- After the first number of a text, the rest decides whether it is a time. -/
theorem Number.clockText_iff {rest afterHour : List Char} {hour : Nat} {t : Char} {minutes : Int}
    (h : Number text hour (t :: afterHour)) :
    ClockText separators text minutes rest ↔
      separators.isTimeSeparator t = true ∧ ∃ minute : Nat, Number afterHour minute rest
        ∧ (hour ≤ 23 ∧ minute ≤ 59) ∧ minutes = hour * 60 + minute := by
  constructor
  · rintro ⟨hhour, ht, hminute, hshown⟩
    obtain ⟨rfl, heq⟩ := h.unique hhour
    cases heq
    exact ⟨ht, _, hminute, hshown, rfl⟩
  · rintro ⟨ht, minute, hminute, hshown, rfl⟩
    exact .parts h ht hminute hshown

/-- The first character of a numeral. -/
theorem digit_of_isNumeral (h : Machine.isNumeral word = true) :
    ∃ c cs, word.toList = c :: cs ∧ c.isDigit = true := by
  unfold Machine.isNumeral at h
  cases hword : word.toList with
  | nil =>
    rw [hword] at h
    cases h
  | cons c cs =>
    rw [hword] at h
    exact ⟨c, cs, rfl, h⟩

/-- A word that starts with a digit starts with a number. -/
theorem number_of_isNumeral {digits rest : List Char} (h : Machine.isNumeral word = true)
    (hrun : digitRun word.toList = (digits, rest)) :
    Number word.toList (digitsValue digits) rest := by
  obtain ⟨c, cs, hword, hc⟩ := digit_of_isNumeral h
  refine number_iff.2 ⟨?_, by rw [hrun], by rw [hrun]⟩
  rw [hword, digitRun, List.takeWhile_cons_of_pos hc]
  exact List.cons_ne_nil _ _

/-- Digits alone are a number, unless it has more than 63 bits. -/
theorem numberOrTime_of_whole {digits : List Char} (hrun : digitRun word.toList = (digits, [])) :
    numberOrTime separators word
      = if digitsValue digits ≤ numberCeiling then .ok (.int (digitsValue digits))
        else .error .badNumber := by
  unfold numberOrTime
  rw [hrun]
  dsimp only
  rw [checkedValue?_eq]
  by_cases hle : digitsValue digits ≤ numberCeiling
  · rw [if_pos hle, if_pos hle]
  · rw [if_neg hle, if_neg hle]

/-- Digits and a separator of times are a time if digits follow and both
numbers are such that a clock shows them. -/
theorem numberOrTime_of_separated {digits minutes : List Char} {t : Char}
    (hrun : digitRun word.toList = (digits, t :: minutes))
    (ht : separators.isTimeSeparator t = true) {v : Value} :
    numberOrTime separators word = .ok v ↔
      ((minutes ≠ [] ∧ ∀ c ∈ minutes, c.isDigit = true)
        ∧ digitsValue digits ≤ 23 ∧ digitsValue minutes ≤ 59)
      ∧ v = .time (digitsValue digits * 60 + digitsValue minutes) := by
  have hdigits : (minutes.isEmpty || !minutes.all Char.isDigit) = true
      ↔ ¬ (minutes ≠ [] ∧ ∀ c ∈ minutes, c.isDigit = true) := by
    rw [Bool.or_eq_true, List.isEmpty_iff, Bool.not_eq_true', ← Bool.not_eq_true, List.all_eq_true,
      ne_eq, Classical.not_and_iff_not_or_not, Classical.not_not]
  unfold numberOrTime
  rw [hrun]
  dsimp only
  rw [if_pos ht, filter_checkedValue? (by decide), filter_checkedValue? (by decide)]
  by_cases hall : minutes ≠ [] ∧ ∀ c ∈ minutes, c.isDigit = true
  · rw [if_neg (fun h => hdigits.1 h hall)]
    by_cases hshown : digitsValue digits ≤ 23 ∧ digitsValue minutes ≤ 59
    · have hwrapped : Value.timeOfDay (digitsValue digits * 60 + digitsValue minutes)
          = .time (digitsValue digits * 60 + digitsValue minutes) := by
        have hday : minutesPerDay = 1440 := rfl
        rw [Value.timeOfDay, Int.emod_eq_of_lt (by omega) (by omega)]
      rw [if_pos hshown.1, if_pos hshown.2]
      dsimp only
      rw [hwrapped, Except.ok.injEq, eq_comm]
      exact (and_iff_right ⟨hall, hshown⟩).symm
    · refine ⟨fun h => ?_, fun h => absurd h.1.2 hshown⟩
      by_cases hhour : digitsValue digits ≤ 23
      · rw [if_pos hhour, if_neg (fun hminute => hshown ⟨hhour, hminute⟩)] at h
        cases h
      · rw [if_neg hhour] at h
        cases h
  · rw [if_pos (hdigits.2 hall)]
    exact ⟨nofun, fun h => absurd h.1.1 hall⟩

/-- Digits are followed by nothing but a separator of times. -/
theorem numberOrTime_of_other {digits minutes : List Char} {t : Char}
    (hrun : digitRun word.toList = (digits, t :: minutes))
    (ht : ¬ separators.isTimeSeparator t = true) :
    numberOrTime separators word = .error .badNumber := by
  unfold numberOrTime
  rw [hrun]
  exact if_neg ht

/-- A word that starts with a digit is a number of 63 bits or a time of day. -/
theorem numberOrTime_eq_ok_iff (hword : Machine.isNumeral word = true) {v : Value} :
    numberOrTime separators word = .ok v ↔
      (∃ n : Nat, Number word.toList n [] ∧ n ≤ numberCeiling ∧ v = .int n)
        ∨ ∃ minutes, ClockText separators word.toList minutes [] ∧ v = .time minutes := by
  obtain ⟨digits, rest, hrun⟩ : ∃ digits rest, digitRun word.toList = (digits, rest) := ⟨_, _, rfl⟩
  have hnumber := number_of_isNumeral hword hrun
  cases rest with
  | nil =>
    have hnoclock : ∀ minutes, ¬ ClockText separators word.toList minutes [] := by
      rintro minutes ⟨hhour, -⟩
      cases (hnumber.unique hhour).2
    rw [numberOrTime_of_whole hrun]
    constructor
    · intro h
      split at h
      · rename_i hle
        cases h
        exact .inl ⟨_, hnumber, hle, rfl⟩
      · cases h
    · rintro (⟨n, hn, hle, rfl⟩ | ⟨minutes, hclock, -⟩)
      · obtain ⟨rfl, -⟩ := hnumber.unique hn
        exact if_pos hle
      · exact absurd hclock (hnoclock minutes)
  | cons t minutes =>
    have hnowhole : ∀ n, ¬ Number word.toList n [] := by
      intro n hn
      cases (hnumber.unique hn).2
    simp only [hnumber.clockText_iff, number_whole_iff]
    by_cases ht : separators.isTimeSeparator t = true
    · rw [numberOrTime_of_separated hrun ht]
      constructor
      · rintro ⟨⟨⟨hne, hall⟩, hshown⟩, rfl⟩
        exact .inr ⟨_, ⟨ht, _, ⟨hne, hall, rfl⟩, hshown, rfl⟩, rfl⟩
      · rintro (⟨n, hn, -⟩ | ⟨_, ⟨-, _, ⟨hne, hall, rfl⟩, hshown, rfl⟩, rfl⟩)
        · exact absurd (number_whole_iff.2 hn) (hnowhole n)
        · exact ⟨⟨⟨hne, hall⟩, hshown⟩, rfl⟩
    · rw [numberOrTime_of_other hrun ht]
      refine ⟨nofun, ?_⟩
      rintro (⟨n, hn, -⟩ | ⟨_, ⟨htime, -⟩, -⟩)
      · exact absurd (number_whole_iff.2 hn) (hnowhole n)
      · exact absurd htime ht

/-! ## Strings that are coerced -/

theorem coerce_time_eq_ok_iff {v : Value} :
    (Value.str word).coerce separators .time = .ok v ↔
      ∃ minutes, ClockText separators word.toList minutes [] ∧ v = .time minutes := by
  simp only [← readClock_eq_some_iff]
  show (Value.str word).toTime separators = .ok v ↔ _
  unfold Value.toTime
  dsimp only
  cases readClock separators word.toList with
  | none => exact ⟨nofun, by rintro ⟨_, ⟨⟩, -⟩⟩
  | some n => exact ⟨by rintro ⟨⟩; exact ⟨n, rfl, rfl⟩, by rintro ⟨_, ⟨⟩, rfl⟩; rfl⟩

theorem coerce_date_eq_ok_iff {v : Value} :
    (Value.str word).coerce separators .date = .ok v ↔
      ∃ literal, DateLiteral.Spelled separators word.toList literal [] ∧ v = .date literal.day := by
  simp only [← DateLiteral.readAll?_eq_some_iff]
  show (Value.str word).toDate separators = .ok v ↔ _
  unfold Value.toDate
  dsimp only
  cases DateLiteral.readAll? separators word.toList with
  | none => exact ⟨nofun, by rintro ⟨_, ⟨⟩, -⟩⟩
  | some literal => exact ⟨by rintro ⟨⟩; exact ⟨_, rfl, rfl⟩, by rintro ⟨_, ⟨⟩, rfl⟩; rfl⟩

theorem coerce_dateTime_eq_ok_iff {v : Value} :
    (Value.str word).coerce separators .dateTime = .ok v ↔
      ∃ day minute, DateLiteral.Spelled separators word.toList ⟨day, some minute⟩ []
        ∧ v = .momentOf day minute := by
  simp only [← DateLiteral.readAll?_eq_some_iff]
  show (Value.str word).toDateTime separators = .ok v ↔ _
  unfold Value.toDateTime
  dsimp only
  split
  · rename_i day minute hread
    rw [hread]
    exact ⟨by rintro ⟨⟩; exact ⟨_, _, rfl, rfl⟩, by rintro ⟨_, _, ⟨⟩, rfl⟩; rfl⟩
  · rename_i hother
    exact ⟨nofun, fun ⟨day, minute, hread, _⟩ => absurd hread (hother day minute)⟩

/-- A quoted date is one that is the whole text. -/
theorem quotedDate_eq_ok_iff {v : Value} :
    quotedDate separators word = .ok v ↔
      ∃ literal, DateLiteral.Spelled separators word.toList literal [] ∧ v = literal.toValue := by
  simp only [← DateLiteral.read_eq_ok_iff]
  unfold quotedDate
  split
  · rename_i hread
    simp [hread]
  · rename_i hread
    simp [hread, eq_comm]
  · rename_i hread
    simp [hread]

/-! ## Side by side -/

theorem exists_error_iff {α : Type} {r : Result α} :
    (∃ e, r = .error e) ↔ ∀ a, r ≠ .ok a := by
  cases r with
  | error e => exact ⟨fun _ => nofun, fun _ => ⟨e, rfl⟩⟩
  | ok a => exact ⟨by rintro ⟨_, ⟨⟩⟩, fun h => absurd rfl (h a)⟩

/-- A word that starts with a digit has the values that it can be coerced to. -/
theorem numberOrTime_eq_ok_iff_coerce (hword : Machine.isNumeral word = true) {v : Value} :
    numberOrTime separators word = .ok v ↔
      (Value.str word).coerce separators .int = .ok v
        ∨ (Value.str word).coerce separators .time = .ok v := by
  obtain ⟨c, cs, htext, hc⟩ := digit_of_isNumeral hword
  rw [numberOrTime_eq_ok_iff hword, coerce_int_eq_ok_iff, coerce_time_eq_ok_iff, htext]
  refine or_congr ?_ Iff.rfl
  constructor
  · rintro ⟨n, hn, hle, rfl⟩
    exact ⟨n, (readInt?_eq_some_iff hc).2 ⟨n, hn, hle, rfl⟩, rfl⟩
  · rintro ⟨n, hn, rfl⟩
    obtain ⟨m, hm, hle, rfl⟩ := (readInt?_eq_some_iff hc).1 hn
    exact ⟨m, hm, hle, rfl⟩

/-- A quoted text is a moment if it can be coerced to one, and that one. -/
theorem quotedDate_eq_moment_iff {moment : Int} :
    quotedDate separators word = .ok (.dateTime moment) ↔
      (Value.str word).coerce separators .dateTime = .ok (.dateTime moment) := by
  rw [quotedDate_eq_ok_iff, coerce_dateTime_eq_ok_iff]
  constructor
  · rintro ⟨⟨day, time⟩, hspelled, hvalue⟩
    cases time with
    | none => cases hvalue
    | some minute => exact ⟨day, minute, hspelled, hvalue⟩
  · rintro ⟨day, minute, hspelled, hvalue⟩
    exact ⟨_, hspelled, hvalue⟩

/-- A text can be coerced to the date of what it is between quotes. -/
theorem coerce_date_eq_iff {day : Int} :
    (Value.str word).coerce separators .date = .ok (.date day) ↔
      quotedDate separators word = .ok (.date day)
        ∨ ∃ moment, quotedDate separators word = .ok (.dateTime moment)
            ∧ moment / minutesPerDay = day := by
  rw [coerce_date_eq_ok_iff]
  simp only [quotedDate_eq_ok_iff]
  constructor
  · rintro ⟨⟨day, time⟩, hspelled, ⟨⟩⟩
    cases time with
    | none => exact .inl ⟨_, hspelled, rfl⟩
    | some minute =>
      exact .inr ⟨_, ⟨_, hspelled, rfl⟩, ediv_minutesPerDay hspelled.withinDay⟩
  · rintro (⟨⟨_, time⟩, hspelled, hvalue⟩ | ⟨moment, ⟨⟨day, time⟩, hspelled, hvalue⟩, rfl⟩)
    · cases time with
      | none =>
        cases hvalue
        exact ⟨_, hspelled, rfl⟩
      | some minute => cases hvalue
    · cases time with
      | none => cases hvalue
      | some minute =>
        cases hvalue
        exact ⟨_, hspelled, congrArg Value.date (ediv_minutesPerDay hspelled.withinDay)⟩

/-- The literals of expressions and the coercion of strings agree, whatever the
separators are.

A word that starts with a digit is a number exactly if it can be coerced to
that integer, and a time of day exactly if it can be coerced to that time; it
has no value if it can be coerced to neither. A text between the quotes of a
date is a moment exactly if it can be coerced to that moment, and it can be
coerced to the date that it is, or to that of the moment that it is; it has no
value if it can be coerced to neither. -/
theorem literals_agree_with_coercion (separators : Separators) :
    (∀ word, Machine.isNumeral word = true →
        (∀ n, numberOrTime separators word = .ok (.int n) ↔
            (Value.str word).coerce separators .int = .ok (.int n))
          ∧ (∀ minutes, numberOrTime separators word = .ok (.time minutes) ↔
              (Value.str word).coerce separators .time = .ok (.time minutes))
          ∧ ((∃ e, numberOrTime separators word = .error e) ↔
              (∃ e, (Value.str word).coerce separators .int = .error e)
                ∧ ∃ e, (Value.str word).coerce separators .time = .error e))
      ∧ ∀ text,
        (∀ moment, quotedDate separators text = .ok (.dateTime moment) ↔
            (Value.str text).coerce separators .dateTime = .ok (.dateTime moment))
          ∧ (∀ day, (Value.str text).coerce separators .date = .ok (.date day) ↔
              quotedDate separators text = .ok (.date day)
                ∨ ∃ moment, quotedDate separators text = .ok (.dateTime moment)
                    ∧ moment / minutesPerDay = day)
          ∧ ((∃ e, quotedDate separators text = .error e) ↔
              (∃ e, (Value.str text).coerce separators .date = .error e)
                ∧ ∃ e, (Value.str text).coerce separators .dateTime = .error e) := by
  refine ⟨fun word hword => ⟨fun n => ?_, fun minutes => ?_, ?_⟩,
    fun text => ⟨fun _ => quotedDate_eq_moment_iff, fun _ => coerce_date_eq_iff, ?_⟩⟩
  · rw [numberOrTime_eq_ok_iff_coerce hword, or_iff_left]
    rw [coerce_time_eq_ok_iff]
    rintro ⟨_, -, ⟨⟩⟩
  · rw [numberOrTime_eq_ok_iff_coerce hword, or_iff_right]
    rw [coerce_int_eq_ok_iff]
    rintro ⟨_, -, ⟨⟩⟩
  · simp only [exists_error_iff, ne_eq, numberOrTime_eq_ok_iff_coerce hword, not_or]
    exact forall_and
  · simp only [exists_error_iff, ne_eq, quotedDate_eq_ok_iff, coerce_date_eq_ok_iff,
      coerce_dateTime_eq_ok_iff]
    constructor
    · intro h
      refine ⟨?_, ?_⟩
      · rintro _ ⟨literal, hspelled, -⟩
        exact h _ ⟨literal, hspelled, rfl⟩
      · rintro _ ⟨day, minute, hspelled, -⟩
        exact h _ ⟨_, hspelled, rfl⟩
    · rintro ⟨hnodate, -⟩ _ ⟨literal, hspelled, -⟩
      exact hnodate _ ⟨literal, hspelled, rfl⟩

/-- A time of day with a separator of its own, and a number of one bit too many. -/
theorem time_and_number_with_zeros :
    let separators : Separators := { time := 'h' }
    Machine.isNumeral "0007h05" = true ∧ Machine.isNumeral "09223372036854775808" = true
      ∧ (Value.str "0007h05").coerce separators .time = .ok (.time 425)
      ∧ numberOrTime separators "0007h05" = .ok (.time 425)
      ∧ ∃ e, numberOrTime separators "09223372036854775808" = .error e := by
  intro separators
  have hclock : Machine.isNumeral "0007h05" = true := by decide +kernel
  have hlong : Machine.isNumeral "09223372036854775808" = true := by decide +kernel
  have htime : (Value.str "0007h05").coerce separators .time = .ok (.time 425) := by
    decide +kernel
  obtain ⟨hwords, -⟩ := literals_agree_with_coercion separators
  refine ⟨hclock, hlong, htime, ((hwords _ hclock).2.1 425).2 htime, (hwords _ hlong).2.2.2 ?_⟩
  exact ⟨⟨.cantCoerce, by decide +kernel⟩, ⟨.cantCoerce, by decide +kernel⟩⟩

end ReminderExpr
