/-
ReminderExpr.Proofs.WrittenForms — what the texts of numbers, dates and times
consist of.

A number is written as a run of digits, with a minus sign before it if need be;
a date and a time of day as numbers with one separator between them. A number
at the front of a text is there in one way only, since its run of digits is
whole; and so is, if no separator is a digit, all that is made of numbers.

* `Signed`, `CivilText` — integers and dates of any year at the front of a text,
  beside `Number` and `ClockText`;
* `Number.unique`, `Signed.unique`, `CivilText.unique`, `ClockText.unique` — one
  text, one reading;
* `signed_padded`, `civilText_writtenDate`, `clockText_writtenTime` — values are
  written in these forms;
* `CivilText.dayText_iff` — when the text of a date is one that is read as a date.
-/
import ReminderExpr.Proofs.DateGrammar
import ReminderExpr.Proofs.Expressions
import ReminderExpr.Value.Coercion

namespace ReminderExpr

open Text Calendar

variable {text rest rest' : List Char} {separators : Separators}

/-! ## Forms -/

/-- An integer at the front of a text, with or without a minus sign, and what
follows it. -/
inductive Signed : List Char → Int → List Char → Prop
  | plain {text rest : List Char} {n : Nat} (h : Number text n rest) : Signed text n rest
  | minus {text rest : List Char} {n : Nat} (h : Number text n rest) :
      Signed ('-' :: text) (-n) rest

/-- A date of any year at the front of a text, its parts divided by `s`, and
what follows it. -/
inductive CivilText (s : Char) : List Char → CivilDate → List Char → Prop
  | parts {text afterYear afterMonth rest : List Char} {year : Int} {month day : Nat}
      (hyear : Signed text year (s :: afterYear)) (hmonth : Number afterYear month (s :: afterMonth))
      (hday : Number afterMonth day rest) : CivilText s text ⟨year, month, day⟩ rest

/-! ## One text, one reading -/

theorem Number.unique {n n' : Nat} (h : Number text n rest) (h' : Number text n' rest') :
    n = n' ∧ rest = rest' := by
  obtain ⟨-, rfl, rfl⟩ := number_iff.1 h
  obtain ⟨-, rfl, rfl⟩ := number_iff.1 h'
  exact ⟨rfl, rfl⟩

/-- A text that starts with a minus sign does not start with a number. -/
theorem not_number_minus (n : Nat) : ¬ Number ('-' :: text) n rest := by
  intro h
  exact (number_iff.1 h).1 rfl

theorem Signed.unique {n n' : Int} (h : Signed text n rest) (h' : Signed text n' rest') :
    n = n' ∧ rest = rest' := by
  cases h with
  | plain h =>
    cases h' with
    | plain h' =>
      obtain ⟨rfl, rfl⟩ := h.unique h'
      exact ⟨rfl, rfl⟩
    | minus h' => exact absurd h (not_number_minus _)
  | minus h =>
    cases h' with
    | plain h' => exact absurd h' (not_number_minus _)
    | minus h' =>
      obtain ⟨rfl, rfl⟩ := h.unique h'
      exact ⟨rfl, rfl⟩

theorem CivilText.unique {s : Char} {date date' : CivilDate} (h : CivilText s text date rest)
    (h' : CivilText s text date' rest') : date = date' ∧ rest = rest' := by
  obtain ⟨hyear, hmonth, hday⟩ := h
  obtain ⟨hyear', hmonth', hday'⟩ := h'
  obtain ⟨rfl, heq⟩ := hyear.unique hyear'
  obtain rfl := (List.cons.inj heq).2
  obtain ⟨rfl, heq⟩ := hmonth.unique hmonth'
  obtain rfl := (List.cons.inj heq).2
  obtain ⟨rfl, rfl⟩ := hday.unique hday'
  exact ⟨rfl, rfl⟩

theorem ClockText.unique {minutes minutes' : Int} (h : ClockText separators text minutes rest)
    (h' : ClockText separators text minutes' rest') : minutes = minutes' ∧ rest = rest' := by
  obtain ⟨hhour, -, hminute, -⟩ := h
  obtain ⟨hhour', -, hminute', -⟩ := h'
  obtain ⟨rfl, heq⟩ := hhour.unique hhour'
  obtain rfl := (List.cons.inj heq).2
  obtain ⟨rfl, rfl⟩ := hminute.unique hminute'
  exact ⟨rfl, rfl⟩

/-! ## Numbers as they are written -/

/-- Zeros before a number do not count. -/
theorem digitsValue_zeros (zeros : Nat) (digits : List Char) :
    digitsValue (List.replicate zeros '0' ++ digits) = digitsValue digits := by
  induction zeros with
  | zero => rfl
  | succ zeros ih => exact ih

/-- The digits of a number, with zeros before them. -/
theorem number_zeros (zeros n : Nat) (hrest : ∀ c ∈ rest.head?, c.isDigit = false) :
    Number (List.replicate zeros '0' ++ Nat.toDigits 10 n ++ rest) n rest := by
  have hne : List.replicate zeros '0' ++ Nat.toDigits 10 n ≠ [] := by
    simp [Nat.toDigits_ne_nil]
  have hall : ∀ c ∈ List.replicate zeros '0' ++ Nat.toDigits 10 n, c.isDigit = true := by
    intro c hc
    rcases List.mem_append.1 hc with hzero | hdigit
    · rw [List.eq_of_mem_replicate hzero]
      rfl
    · exact Nat.isDigit_of_mem_toDigits (by decide) (by decide) hdigit
  have hnumber := Number.run hne hall hrest
  rwa [digitsValue_zeros, digitsValue_toDigits] at hnumber

/-- The text of an integer: its sign, zeros and its digits. -/
theorem toList_padded (width : Nat) (n : Int) :
    ∃ zeros, (padded width n).toList
      = (if n < 0 then ['-'] else []) ++ (List.replicate zeros '0' ++ Nat.toDigits 10 n.natAbs) := by
  refine ⟨width - (if n < 0 then "-" else "").length - n.natAbs.repr.length, ?_⟩
  unfold padded
  rw [String.toList_append, String.toList_append, String.toList_ofList, List.append_assoc,
    Nat.repr_eq_ofList_toDigits, String.toList_ofList]
  split <;> rfl

theorem signed_padded (width : Nat) (n : Int) (hrest : ∀ c ∈ rest.head?, c.isDigit = false) :
    Signed ((padded width n).toList ++ rest) n rest := by
  obtain ⟨zeros, htext⟩ := toList_padded width n
  have hnumber := number_zeros zeros n.natAbs hrest
  rw [htext]
  by_cases hneg : n < 0
  · have hn : n = -(n.natAbs : Int) := by omega
    have hsigned := Signed.minus hnumber
    rw [← hn] at hsigned
    rw [if_pos hneg, List.append_assoc]
    exact hsigned
  · have hn : n = (n.natAbs : Int) := by omega
    have hsigned := Signed.plain hnumber
    rw [← hn] at hsigned
    rw [if_neg hneg, List.nil_append]
    exact hsigned

theorem number_padded (width n : Nat) (hrest : ∀ c ∈ rest.head?, c.isDigit = false) :
    Number ((padded width n).toList ++ rest) n rest := by
  obtain ⟨zeros, htext⟩ := toList_padded width n
  rw [htext, if_neg (by omega), List.nil_append]
  exact number_zeros zeros n hrest

/-! ## Dates and times as they are written -/

theorem civilText_writtenDate (hsep : separators.date.isDigit = false) (day : Int)
    (hrest : ∀ c ∈ rest.head?, c.isDigit = false) :
    CivilText separators.date ((writtenDate separators day).toList ++ rest) (.ofDay day) rest := by
  have hwhole : ∀ after : List Char, ∀ c ∈ (separators.date :: after).head?, c.isDigit = false := by
    rintro after c ⟨⟩
    exact hsep
  have htext : (writtenDate separators day).toList ++ rest
      = (padded 4 (CivilDate.ofDay day).year).toList ++ separators.date ::
        ((padded 2 (CivilDate.ofDay day).month).toList ++ separators.date ::
          ((padded 2 (CivilDate.ofDay day).day).toList ++ rest)) := by
    simp [writtenDate]
  rw [htext]
  exact .parts (signed_padded 4 _ (hwhole _)) (number_padded 2 _ (hwhole _))
    (number_padded 2 _ hrest)

/-- A time of the day is written as a clock shows it. -/
theorem clockText_writtenTime {reading : Separators} (hsep : separators.time.isDigit = false)
    (hread : reading.isTimeSeparator separators.time = true) {minutes : Int} (hfrom : 0 ≤ minutes)
    (hto : minutes < 1440) :
    ClockText reading (writtenTime separators minutes).toList minutes [] := by
  obtain ⟨m, rfl⟩ := Int.eq_ofNat_of_zero_le hfrom
  have htext : (writtenTime separators m).toList
      = (padded 2 (m / 60 : Nat)).toList ++ separators.time ::
        ((padded 2 (m % 60 : Nat)).toList ++ []) := by
    have hhour : (m : Int).tdiv 60 = (m / 60 : Nat) := rfl
    have hminute : (m : Int).tmod 60 = (m % 60 : Nat) := rfl
    rw [writtenTime, hhour, hminute]
    simp
  have hwhole : ∀ c ∈ (separators.time :: ((padded 2 (m % 60 : Nat)).toList ++ [])).head?,
      c.isDigit = false := by
    rintro c ⟨⟩
    exact hsep
  have hminutes : (m : Int) = (m / 60 : Nat) * 60 + (m % 60 : Nat) := by omega
  rw [htext, hminutes]
  exact .parts (number_padded 2 (m / 60) hwhole) hread (number_padded 2 (m % 60) nofun) (by omega)

/-! ## Moments as they are written -/

/-- The minute of the day of any moment. -/
theorem minute_withinDay (moment : Int) :
    0 ≤ moment % minutesPerDay ∧ moment % minutesPerDay < minutesPerDay :=
  ⟨Int.emod_nonneg _ (by decide), Int.emod_lt_of_pos _ (by decide)⟩

/-- The day of a moment is the day that it was made of. -/
theorem ediv_minutesPerDay {day minute : Int} (h : 0 ≤ minute ∧ minute < minutesPerDay) :
    (day * minutesPerDay + minute) / minutesPerDay = day := by
  rw [Int.add_comm, Int.add_mul_ediv_right _ _ (by decide), Int.ediv_eq_zero_of_lt h.1 h.2,
    Int.zero_add]

/-- The minute of a moment is the minute that it was made of. -/
theorem emod_minutesPerDay {day minute : Int} (h : 0 ≤ minute ∧ minute < minutesPerDay) :
    (day * minutesPerDay + minute) % minutesPerDay = minute := by
  rw [Int.add_comm, Int.add_mul_emod_self_right, Int.emod_eq_of_lt h.1 h.2]

/-- A moment is that of its day and its minute. -/
theorem momentOf_ediv_emod (moment : Int) :
    Value.momentOf (moment / minutesPerDay) (moment % minutesPerDay) = .dateTime moment :=
  congrArg Value.dateTime (Int.ediv_mul_add_emod moment minutesPerDay)

theorem writtenDay_of_fits {moment : Int} (h : fits32 (moment / minutesPerDay) = true) :
    writtenDay moment = moment / minutesPerDay := by
  unfold writtenDay
  exact if_pos h

theorem writtenDay_of_not_fits {moment : Int} (h : ¬ fits32 (moment / minutesPerDay) = true) :
    writtenDay moment = 0x7fffffff := by
  unfold writtenDay
  exact if_neg h

/-- The text of a moment: its day, an `@`, and its minute of the day. -/
theorem toList_written_dateTime (separators : Separators) (moment : Int) :
    ((Value.dateTime moment).written separators).toList
      = (writtenDate separators (writtenDay moment)).toList
        ++ '@' :: (writtenTime separators (moment % minutesPerDay)).toList := by
  simp [Value.written]

/-! ## Dates that are read -/

/-- The text of a date is read as one if its year can be written, and as no
other date. -/
theorem CivilText.dayText_iff {s : Char} {date : CivilDate} {day : Int}
    (h : CivilText s text date rest) (hs : separators.isDateSeparator s = true)
    (hexists : date.Exists) :
    DayText separators text day rest' ↔
      (1990 ≤ date.year ∧ date.year ≤ 2078) ∧ day = date.toDay ∧ rest' = rest := by
  obtain ⟨hyear, hmonth, hday⟩ := h
  rename_i afterYear afterMonth year month dayOfMonth
  constructor
  · rintro ⟨hyear', -, hmonth', -, hday', hwritten, -⟩
    obtain ⟨rfl, heq⟩ := hyear.unique (.plain hyear')
    obtain rfl := (List.cons.inj heq).2
    obtain ⟨rfl, heq⟩ := hmonth.unique hmonth'
    obtain rfl := (List.cons.inj heq).2
    obtain ⟨rfl, rfl⟩ := hday.unique hday'
    exact ⟨⟨Int.ofNat_le.2 hwritten.1, Int.ofNat_le.2 hwritten.2⟩, rfl, rfl⟩
  · rintro ⟨⟨hfrom, hto⟩, rfl, rfl⟩
    -- A year that can be written has no minus sign.
    cases hyear with
    | plain hyear =>
      exact .parts hyear hs hmonth hs hday ⟨Int.ofNat_le.1 hfrom, Int.ofNat_le.1 hto⟩ hexists
    | minus hyear =>
      dsimp only at hfrom
      omega

end ReminderExpr
