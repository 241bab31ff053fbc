/-
ReminderExpr.Proofs.DateGrammar — which texts are read as dates.

The grammar speaks of whole runs of digits and of the exact numbers that they
denote, be they ever so long. The reader takes what it finds character by
character, counts only up to a ceiling, and checks the parts when all of them
have been read. Both agree because a run that a digit follows is not whole, so
that no separator can be a digit where it counts; and because a number above
the ceiling is no year, no month, no day and no time either way.

* `Number`, `DayText`, `ClockText`, `DateLiteral.Spelled` — the grammar;
* `readNumber_eq_ok_iff`, `readTime_eq_ok_iff`, `readDay_eq_ok_iff` — one
  reader after another, and what it accepts;
* `FailsWith` — the readers that have one failure only;
* `DateLiteral.read_follows_grammar` — dates and moments at the front of a
  text, what is left, and which failure all other texts are answered with.
-/
import ReminderExpr.Proofs.CivilDates
import ReminderExpr.Value.Literal

namespace ReminderExpr

open Text Calendar

/-! ## The grammar -/

/-- A whole run of digits at the front of a text, the number that it denotes,
and what follows it. -/
inductive Number : List Char → Nat → List Char → Prop
  | run {digits rest : List Char} (nonempty : digits ≠ [])
      (all : ∀ c ∈ digits, c.isDigit = true) (whole : ∀ c ∈ rest.head?, c.isDigit = false) :
      Number (digits ++ rest) (digitsValue digits) rest

/-- Year, month and day of the month at the front of a text, with separators of
dates between them; the day they name, and what follows. The date exists and
lies in the years that can be written. -/
inductive DayText (separators : Separators) : List Char → Int → List Char → Prop
  | parts {text afterYear afterMonth rest : List Char} {year month day : Nat} {s s' : Char}
      (hyear : Number text year (s :: afterYear)) (hs : separators.isDateSeparator s = true)
      (hmonth : Number afterYear month (s' :: afterMonth))
      (hs' : separators.isDateSeparator s' = true) (hday : Number afterMonth day rest)
      (written : 1990 ≤ year ∧ year ≤ 2078) (date : CivilDate.Exists ⟨year, month, day⟩) :
      DayText separators text (dayCount year month day) rest

/-- Hour and minute at the front of a text, with a separator of times between
them; the minutes past midnight that a clock shows so, and what follows. -/
inductive ClockText (separators : Separators) : List Char → Int → List Char → Prop
  | parts {text afterHour rest : List Char} {hour minute : Nat} {t : Char}
      (hhour : Number text hour (t :: afterHour)) (ht : separators.isTimeSeparator t = true)
      (hminute : Number afterHour minute rest) (shown : hour ≤ 23 ∧ minute ≤ 59) :
      ClockText separators text (hour * 60 + minute) rest

/-- The characters that lead from a date to a time of day. -/
def StartsTime (c : Char) : Prop := c = ' ' ∨ c = '@'

/-- A date at the front of a text, alone or with a time of day. -/
inductive DateLiteral.Spelled (separators : Separators) :
    List Char → DateLiteral → List Char → Prop
  | date {text rest : List Char} {day : Int} (hday : DayText separators text day rest)
      (alone : ∀ c ∈ rest.head?, ¬StartsTime c) : Spelled separators text ⟨day, none⟩ rest
  | moment {text timeText rest : List Char} {day minutes : Int} {c : Char}
      (hday : DayText separators text day (c :: timeText)) (hc : StartsTime c)
      (htime : ClockText separators timeText minutes rest) :
      Spelled separators text ⟨day, some minutes⟩ rest

/-! ## Results -/

theorem bind_eq_ok_iff {α β : Type} {x : Result α} {f : α → Result β} {b : β} :
    x >>= f = .ok b ↔ ∃ a, x = .ok a ∧ f a = .ok b := by
  cases x with
  | error e => exact ⟨nofun, by rintro ⟨_, h, -⟩; cases h⟩
  | ok a => exact ⟨fun h => ⟨a, rfl, h⟩, by rintro ⟨_, ⟨⟩, h⟩; exact h⟩

/-- Whether a result, if it is a failure, is a certain one. -/
def FailsWith {α : Type} (e : EvalError) (r : Result α) : Prop := ∀ e', r = .error e' → e' = e

section FailsWith

variable {α β : Type} {e : EvalError}

theorem failsWith_ok (a : α) : FailsWith e (.ok a) := nofun

theorem failsWith_error : FailsWith e (.error e : Result α) := by
  rintro _ ⟨⟩
  rfl

theorem FailsWith.bind {x : Result α} {f : α → Result β} (h : FailsWith e x)
    (hf : ∀ a, FailsWith e (f a)) : FailsWith e (x >>= f) := by
  cases x with
  | error e' =>
    rintro _ ⟨⟩
    exact h e' rfl
  | ok a => exact hf a

/-- What has one failure only fails with it exactly when it has no value. -/
theorem FailsWith.eq_error_iff {x : Result α} (h : FailsWith e x) {e' : EvalError} :
    x = .error e' ↔ e' = e ∧ ∀ a, x ≠ .ok a := by
  cases x with
  | error e'' =>
    obtain rfl := h e'' rfl
    exact ⟨fun heq => ⟨(Except.error.inj heq).symm, nofun⟩, fun heq => heq.1 ▸ rfl⟩
  | ok a => exact ⟨nofun, fun hnone => absurd rfl (hnone.2 a)⟩

/-- What has one value, or one failure, and when. -/
theorem FailsWith.eq_ite {r : Result α} (h : FailsWith e r) {p : Prop} [Decidable p] {a : α}
    (hvalue : ∀ b, r = .ok b ↔ p ∧ b = a) : r = if p then .ok a else .error e := by
  by_cases hp : p
  · rw [if_pos hp]
    exact (hvalue a).2 ⟨hp, rfl⟩
  · rw [if_neg hp]
    exact h.eq_error_iff.2 ⟨rfl, fun b hb => hp ((hvalue b).1 hb).1⟩

end FailsWith

/-! ## Numbers -/

/-- The run of digits that is cut off is whole. -/
theorem number_iff {text rest : List Char} {n : Nat} :
    Number text n rest ↔
      (digitRun text).1 ≠ [] ∧ digitsValue (digitRun text).1 = n ∧ (digitRun text).2 = rest := by
  constructor
  · rintro ⟨hnonempty, hall, hwhole⟩
    rename_i digits
    have hrest : rest.takeWhile Char.isDigit = [] ∧ rest.dropWhile Char.isDigit = rest := by
      cases rest with
      | nil => exact ⟨rfl, rfl⟩
      | cons c cs => simp [hwhole c rfl]
    have hrun : digitRun (digits ++ rest) = (digits, rest) := by
      rw [digitRun, List.takeWhile_append_of_pos hall, List.dropWhile_append_of_pos hall,
        hrest.1, hrest.2, List.append_nil]
    rw [hrun]
    exact ⟨hnonempty, rfl, rfl⟩
  · rintro ⟨hnonempty, rfl, rfl⟩
    have hwhole : ∀ c ∈ (digitRun text).2.head?, c.isDigit = false := by
      intro c hc
      have hhead := List.head?_dropWhile_not Char.isDigit text
      rw [digitRun] at hc
      rw [hc] at hhead
      simpa using hhead
    have hnumber := Number.run hnonempty (List.all_eq_true.1 List.all_takeWhile) hwhole
    rwa [digitRun_append] at hnumber

/-- A number is read as far as the counter goes. -/
theorem readNumber_eq_ok_iff {missing : EvalError} {text rest : List Char} {n : Nat} :
    readNumber missing text = .ok (n, rest) ↔
      ∃ m, Number text m rest ∧ n = min m numberCeiling := by
  simp only [number_iff]
  unfold readNumber
  split
  · rename_i hrun
    simp [hrun]
  · rename_i digits rest' hnonempty hrun
    have hdigits : digits ≠ [] := hnonempty
    simp only [hrun, Except.ok.injEq, Prod.mk.injEq, cappedValue_eq]
    constructor
    · rintro ⟨rfl, rfl⟩
      exact ⟨_, ⟨hdigits, rfl, rfl⟩, rfl⟩
    · rintro ⟨m, ⟨-, rfl, rfl⟩, rfl⟩
      exact ⟨rfl, rfl⟩

theorem failsWith_readNumber (missing : EvalError) (text : List Char) :
    FailsWith missing (readNumber missing text) := by
  unfold readNumber
  split
  · exact failsWith_error
  · exact failsWith_ok _

theorem readChar_eq_ok_iff {missing : EvalError} {isWanted : Char → Bool}
    {text rest : List Char} :
    readChar missing isWanted text = .ok rest ↔ ∃ c, isWanted c = true ∧ text = c :: rest := by
  cases text with
  | nil => simp [readChar]
  | cons c cs =>
    rw [readChar]
    split
    · rename_i hwanted
      constructor
      · rintro ⟨⟩
        exact ⟨c, hwanted, rfl⟩
      · rintro ⟨_, -, ⟨⟩⟩
        rfl
    · rename_i hwanted
      refine ⟨nofun, ?_⟩
      rintro ⟨_, hc, ⟨⟩⟩
      exact absurd hc hwanted

theorem failsWith_readChar (missing : EvalError) (isWanted : Char → Bool) (text : List Char) :
    FailsWith missing (readChar missing isWanted text) := by
  unfold readChar
  split
  · exact failsWith_error
  · split
    · exact failsWith_ok _
    · exact failsWith_error

/-- A counter that has come no farther than a number below its ceiling has not
been stopped. -/
theorem capped_number {n bound : Nat} (hbound : bound < numberCeiling)
    (h : n ≤ bound ∨ min n numberCeiling ≤ bound) : min n numberCeiling = n := by
  omega

theorem capped_part {n bound : Nat} (hbound : bound < partCeiling)
    (h : n ≤ bound ∨ min (min n numberCeiling) partCeiling ≤ bound) :
    min (min n numberCeiling) partCeiling = n := by
  simp only [numberCeiling, partCeiling] at *
  omega

/-! ## Times of day -/

/-- A clock shows what it shows of counters that have been stopped. -/
theorem clockMinutes_eq_some_iff {hour minute : Nat} {minutes : Int} :
    clockMinutes (min hour numberCeiling) (min minute numberCeiling) = some minutes ↔
      (hour ≤ 23 ∧ minute ≤ 59) ∧ minutes = hour * 60 + minute := by
  unfold clockMinutes
  split
  · rename_i hshown
    have hhour : min hour numberCeiling = hour := capped_number (by decide) (.inr hshown.1)
    have hminute : min minute numberCeiling = minute := capped_number (by decide) (.inr hshown.2)
    rw [hhour, hminute] at hshown
    rw [hhour, hminute, Option.some.injEq]
    exact ⟨fun h => ⟨hshown, h.symm⟩, fun h => h.2.symm⟩
  · rename_i hnone
    refine ⟨nofun, ?_⟩
    rintro ⟨⟨hhour, hminute⟩, -⟩
    rw [capped_number (by decide) (.inl hhour), capped_number (by decide) (.inl hminute)] at hnone
    exact absurd ⟨hhour, hminute⟩ hnone

theorem readTime_eq_ok_iff {separators : Separators} {text rest : List Char} {minutes : Int} :
    readTime separators text = .ok (minutes, rest) ↔ ClockText separators text minutes rest := by
  unfold readTime
  simp only [bind_eq_ok_iff, Prod.exists, readNumber_eq_ok_iff, readChar_eq_ok_iff]
  constructor
  · rintro ⟨_, _, ⟨hour, hhour, rfl⟩, afterHour, ⟨t, ht, rfl⟩, _, _, ⟨minute, hminute, rfl⟩, h⟩
    split at h
    · cases h
    · rename_i hclock
      cases h
      obtain ⟨hshown, rfl⟩ := clockMinutes_eq_some_iff.1 hclock
      exact .parts hhour ht hminute hshown
  · rintro ⟨hhour, ht, hminute, hshown⟩
    refine ⟨_, _, ⟨_, hhour, rfl⟩, _, ⟨_, ht, rfl⟩, _, _, ⟨_, hminute, rfl⟩, ?_⟩
    rw [clockMinutes_eq_some_iff.2 ⟨hshown, rfl⟩]

theorem failsWith_readTime (separators : Separators) (text : List Char) :
    FailsWith .badTime (readTime separators text) := by
  refine (failsWith_readNumber _ _).bind fun _ => (failsWith_readChar _ _ _).bind fun _ => ?_
  refine (failsWith_readNumber _ _).bind fun _ => ?_
  dsimp only
  split
  · exact failsWith_error
  · exact failsWith_ok _

/-! ## Days -/

theorem daysInMonth_le (month : Nat) (year : Int) : daysInMonth month year ≤ 31 := by
  unfold daysInMonth
  split
  all_goals try split
  all_goals decide

/-- The parts of a date are checked alike on counters that have been stopped. -/
theorem dayOfCivil_eq_ok_iff {year month dayOfMonth : Nat} {day : Int} :
    dayOfCivil (min year numberCeiling : Nat) (min (min month numberCeiling) partCeiling)
        (min (min dayOfMonth numberCeiling) partCeiling) = .ok day ↔
      ((1990 ≤ year ∧ year ≤ 2078) ∧ CivilDate.Exists ⟨year, month, dayOfMonth⟩)
        ∧ day = dayCount year month dayOfMonth := by
  constructor
  · intro h
    unfold dayOfCivil at h
    split at h
    · rename_i hdate
      simp only [isDate, Bool.and_eq_true, decide_eq_true_eq, and_assoc] at hdate
      obtain ⟨hfrom, hto, hfirst, hlast, hday, hend⟩ := hdate
      have hbound : 2078 < numberCeiling := by decide
      have hyear : min year numberCeiling = year :=
        capped_number hbound (.inr (Int.ofNat_le.1 hto))
      have hmonth := capped_part (by decide) (.inr hlast)
      have hdayOfMonth :=
        capped_part (by decide) (.inr (Nat.le_trans hend (daysInMonth_le _ _)))
      rw [hyear] at h hfrom hto hend
      rw [hmonth] at h hfirst hlast hend
      rw [hdayOfMonth] at h hday hend
      cases h
      exact ⟨⟨⟨Int.ofNat_le.1 hfrom, Int.ofNat_le.1 hto⟩, ⟨hfirst, hlast⟩, hday, hend⟩, rfl⟩
    · cases h
  · rintro ⟨⟨⟨hfrom, hto⟩, ⟨hfirst, hlast⟩, hday, hend⟩, rfl⟩
    have hyear : min year numberCeiling = year := capped_number (by decide) (.inl hto)
    have hmonth := capped_part (by decide) (.inl hlast)
    have hdayOfMonth := capped_part (by decide) (.inl (Nat.le_trans hend (daysInMonth_le _ _)))
    have hdate : isDate year month dayOfMonth = true := by
      simp only [isDate, Bool.and_eq_true, decide_eq_true_eq, and_assoc]
      exact ⟨Int.ofNat_le.2 hfrom, Int.ofNat_le.2 hto, hfirst, hlast, hday, hend⟩
    dsimp only at hmonth hdayOfMonth
    rw [hyear, hmonth, hdayOfMonth, dayOfCivil, if_pos hdate]

theorem failsWith_dayOfCivil (year : Int) (month dayOfMonth : Nat) :
    FailsWith .badDate (dayOfCivil year month dayOfMonth) := by
  unfold dayOfCivil
  split
  · exact failsWith_ok _
  · exact failsWith_error

namespace DateLiteral

/-- The day at the front of a text, and what follows it. -/
def readDay (separators : Separators) (cs : List Char) : Result (Int × List Char) := do
  let (year, cs) ← readNumber .badDate cs
  let cs ← readChar .badDate separators.isDateSeparator cs
  let (month, cs) ← readNumber .badDate cs
  let cs ← readChar .badDate separators.isDateSeparator cs
  let (dayOfMonth, cs) ← readNumber .badDate cs
  let day ← dayOfCivil year (min month partCeiling) (min dayOfMonth partCeiling)
  .ok (day, cs)

/-- What is made of a day, with what follows it. -/
def readAfterDay (separators : Separators) (day : Int) :
    List Char → Result (DateLiteral × List Char)
  | ' ' :: timeText | '@' :: timeText => do
      let (time, rest) ← readTime separators timeText
      .ok ({ day, time := some time }, rest)
  | rest => .ok ({ day, time := none }, rest)

/-- A date is read by its day, and then by what follows it. -/
theorem read_eq (separators : Separators) (text : List Char) :
    read separators text
      = readDay separators text >>= fun (day, rest) => readAfterDay separators day rest := by
  unfold read readDay
  simp only [bind_assoc]
  rfl

theorem readDay_eq_ok_iff {separators : Separators} {text rest : List Char} {day : Int} :
    readDay separators text = .ok (day, rest) ↔ DayText separators text day rest := by
  unfold readDay
  simp only [bind_eq_ok_iff, Prod.exists, readNumber_eq_ok_iff, readChar_eq_ok_iff]
  constructor
  · rintro ⟨_, _, ⟨year, hyear, rfl⟩, _, ⟨s, hs, rfl⟩, _, _, ⟨month, hmonth, rfl⟩, _,
      ⟨s', hs', rfl⟩, _, _, ⟨dayOfMonth, hday, rfl⟩, _, hcivil, ⟨⟩⟩
    obtain ⟨⟨hwritten, hexists⟩, rfl⟩ := dayOfCivil_eq_ok_iff.1 hcivil
    exact .parts hyear hs hmonth hs' hday hwritten hexists
  · rintro ⟨hyear, hs, hmonth, hs', hday, hwritten, hexists⟩
    exact ⟨_, _, ⟨_, hyear, rfl⟩, _, ⟨_, hs, rfl⟩, _, _, ⟨_, hmonth, rfl⟩, _, ⟨_, hs', rfl⟩, _, _,
      ⟨_, hday, rfl⟩, _, dayOfCivil_eq_ok_iff.2 ⟨⟨hwritten, hexists⟩, rfl⟩, rfl⟩

theorem failsWith_readDay (separators : Separators) (text : List Char) :
    FailsWith .badDate (readDay separators text) := by
  refine (failsWith_readNumber _ _).bind fun _ => (failsWith_readChar _ _ _).bind fun _ => ?_
  refine (failsWith_readNumber _ _).bind fun _ => (failsWith_readChar _ _ _).bind fun _ => ?_
  refine (failsWith_readNumber _ _).bind fun _ => (failsWith_dayOfCivil _ _ _).bind fun _ => ?_
  exact failsWith_ok _

/-- A time follows the character that leads to it. -/
theorem readAfterDay_of_starts {c : Char} (hc : StartsTime c) (separators : Separators)
    (day : Int) (timeText : List Char) :
    readAfterDay separators day (c :: timeText)
      = (readTime separators timeText).bind fun (time, rest) =>
          .ok ({ day, time := some time }, rest) := by
  rcases hc with rfl | rfl <;> rfl

theorem readAfterDay_alone {rest : List Char} (h : ∀ c ∈ rest.head?, ¬StartsTime c)
    (separators : Separators) (day : Int) :
    readAfterDay separators day rest = .ok ({ day, time := none }, rest) := by
  unfold readAfterDay
  split
  · exact absurd (.inl rfl) (h ' ' rfl)
  · exact absurd (.inr rfl) (h '@' rfl)
  · rfl

/-- What follows a day either leads to a time or does not. -/
theorem starts_or_alone (rest : List Char) :
    (∃ c timeText, rest = c :: timeText ∧ StartsTime c) ∨ ∀ c ∈ rest.head?, ¬StartsTime c := by
  cases rest with
  | nil => exact .inr nofun
  | cons c timeText =>
    by_cases hc : StartsTime c
    · exact .inl ⟨c, timeText, rfl, hc⟩
    · exact .inr (by rintro _ ⟨⟩; exact hc)

theorem read_eq_ok_iff {separators : Separators} {text rest : List Char} {literal : DateLiteral} :
    read separators text = .ok (literal, rest) ↔ Spelled separators text literal rest := by
  rw [read_eq, bind_eq_ok_iff]
  constructor
  · rintro ⟨⟨day, after⟩, hday, hafter⟩
    rw [readDay_eq_ok_iff] at hday
    rcases starts_or_alone after with ⟨c, timeText, rfl, hc⟩ | halone
    · dsimp only at hafter
      rw [readAfterDay_of_starts hc] at hafter
      obtain ⟨⟨minutes, rest'⟩, htime, ⟨⟩⟩ := bind_eq_ok_iff.1 hafter
      exact .moment hday hc (readTime_eq_ok_iff.1 htime)
    · dsimp only at hafter
      rw [readAfterDay_alone halone] at hafter
      cases hafter
      exact .date hday halone
  · rintro (⟨hday, halone⟩ | ⟨hday, hc, htime⟩)
    · exact ⟨_, readDay_eq_ok_iff.2 hday, readAfterDay_alone halone separators _⟩
    · refine ⟨_, readDay_eq_ok_iff.2 hday, ?_⟩
      dsimp only
      rw [readAfterDay_of_starts hc, readTime_eq_ok_iff.2 htime]
      rfl

/-- Where no day stands, nothing is read. -/
theorem read_eq_error_of_no_day {separators : Separators} {text : List Char}
    (h : ∀ day rest, ¬DayText separators text day rest) :
    read separators text = .error .badDate := by
  have hday : readDay separators text = .error .badDate :=
    (failsWith_readDay separators text).eq_error_iff.2
      ⟨rfl, fun (day, rest) hread => h day rest (readDay_eq_ok_iff.1 hread)⟩
  rw [read_eq, hday]
  rfl

/-- After a day, a time of day fails as it does by itself. -/
theorem read_eq_error_of_starts {separators : Separators} {text timeText : List Char} {day : Int}
    {c : Char} (hday : DayText separators text day (c :: timeText)) (hc : StartsTime c)
    {e : EvalError} :
    read separators text = .error e ↔
      e = .badTime ∧ ∀ minutes rest, ¬ClockText separators timeText minutes rest := by
  have hfailed : read separators text = .error e ↔ readTime separators timeText = .error e := by
    rw [read_eq, readDay_eq_ok_iff.2 hday]
    show readAfterDay separators day (c :: timeText) = .error e ↔ _
    rw [readAfterDay_of_starts hc]
    cases readTime separators timeText with
    | error e' => simp only [Except.bind, Except.error.injEq]
    | ok read => exact ⟨nofun, nofun⟩
  rw [hfailed, (failsWith_readTime separators timeText).eq_error_iff]
  simp only [Prod.forall, ne_eq, readTime_eq_ok_iff]

/-- What is read at the front of a text as a date is what the grammar says, and
nothing else: three whole runs of digits of any length, whose exact numbers
are those of a date that exists in the years 1990 to 2078, with separators of
dates between them; and, if a blank or an `@` follows, two more, whose numbers
a clock shows, with a separator of times between them. The text that is left
is what follows.

All other texts fail: with `badDate` if no such day stands at their front, and
with `badTime` if one does, and what leads to a time of day leads to none. -/
theorem read_follows_grammar (separators : Separators) (text : List Char) :
    (∀ literal rest,
        read separators text = .ok (literal, rest) ↔ Spelled separators text literal rest)
      ∧ ∀ e, read separators text = .error e ↔
          (e = .badDate ∧ ∀ day rest, ¬DayText separators text day rest)
            ∨ e = .badTime ∧ ∃ day c timeText, DayText separators text day (c :: timeText)
                ∧ StartsTime c ∧ ∀ minutes rest, ¬ClockText separators timeText minutes rest := by
  refine ⟨fun literal rest => read_eq_ok_iff, fun e => ?_⟩
  by_cases hsome : ∃ day rest, DayText separators text day rest
  · obtain ⟨day, rest, hday⟩ := hsome
    constructor
    · intro hfailed
      rcases starts_or_alone rest with ⟨c, timeText, rfl, hc⟩ | halone
      · obtain ⟨he, hnotime⟩ := (read_eq_error_of_starts hday hc).1 hfailed
        exact .inr ⟨he, day, c, timeText, hday, hc, hnotime⟩
      · rw [read_eq_ok_iff.2 (.date hday halone)] at hfailed
        cases hfailed
    · rintro (⟨-, hnone⟩ | ⟨he, day', c, timeText, hday', hc, hnotime⟩)
      · exact absurd hday (hnone _ _)
      · exact (read_eq_error_of_starts hday' hc).2 ⟨he, hnotime⟩
  · have hnone : ∀ day rest, ¬DayText separators text day rest :=
      fun day rest hday => hsome ⟨day, rest, hday⟩
    rw [read_eq_error_of_no_day hnone, Except.error.injEq]
    constructor
    · rintro rfl
      exact .inl ⟨rfl, hnone⟩
    · rintro (⟨rfl, -⟩ | ⟨-, day, c, timeText, hday, -⟩)
      · rfl
      · exact absurd ⟨_, _, hday⟩ hsome

-- Leading zeros do not count, however many they are; a month that would be
-- February if only 64 bits of it were kept is none.
example :
    read {} "2024-00000000000000000000002-29@7:05!".toList
      = .ok ({ day := 12477, time := some 425 }, ['!']) := by
  decide +kernel

example : read {} "2024-18446744073709551618-29".toList = .error .badDate := by decide +kernel

end DateLiteral

end ReminderExpr
