/-
ReminderExpr.Proofs.CoercionOnWords — coercion, computed with machine words.

Strings are read with days and minutes of 64 bits and with a number of 128 bits
for integers; dates and times are written by way of the date of a day. None
of this makes a difference for values that have as many bits as their kind
allows:

* `readInt?_eq`, `readClock_eq`, `readAll?_eq` — what strings are read as;
* `momentOf_eq` — the moment at a minute of a day;
* `written_eq` — the texts that values are written as;
* `coerce_eq` — values as ones of another kind.
-/
import ReminderExpr.Proofs.DatesOnWords
import ReminderExpr.Proofs.LiteralReading
import ReminderExpr.Value.Coercion

namespace ReminderExpr.Words

open Calendar Text

/-! ## Integers in strings -/

/-- The number denoted by a list of digits, read after those of `shown`, unless
it has more than 127 bits. -/
def countDigits (shown : Nat) : List Char → Checked (Option Nat)
  | [] => pure (some shown)
  | c :: cs => do
      let digit ← less c.toNat '0'.toNat
      if 10 * shown ≤ magnitudeCeiling ∧ 10 * shown + digit ≤ magnitudeCeiling then
        countDigits (10 * shown + digit) cs
      else pure none

def readInt? (cs : List Char) : Checked (Option Int) :=
  let (negative, digits) := readMinus cs
  if digits.all Char.isDigit then do
    match ← countDigits 0 digits with
    | none => pure none
    | some magnitude =>
        let n ← if negative then whole128 (-magnitude) else pure (magnitude : Int)
        pure (if fits64 n then some n else none)
  else pure none

theorem countDigits_eq {cs : List Char} (h : cs.all Char.isDigit = true) (shown : Nat) :
    countDigits shown cs = pure (cs.foldlM (addDigit? magnitudeCeiling) shown) := by
  induction cs generalizing shown with
  | nil => rfl
  | cons c cs ih =>
    rw [List.all_cons, Bool.and_eq_true] at h
    have hc : '0'.toNat ≤ c.toNat := by
      have hdigit := h.1
      simp only [Char.isDigit, Bool.and_eq_true, decide_eq_true_eq] at hdigit
      exact UInt32.le_iff_toNat_le.1 hdigit.1
    rw [countDigits, less_eq hc, pure_bind, List.foldlM_cons, addDigit?]
    split
    · exact ih h.2 _
    · rfl

theorem readInt?_eq (cs : List Char) : readInt? cs = pure (ReminderExpr.readInt? cs) := by
  unfold readInt? ReminderExpr.readInt?
  generalize readMinus cs = read
  obtain ⟨negative, digits⟩ := read
  dsimp only
  by_cases hdigits : digits.all Char.isDigit = true
  · rw [if_pos hdigits, if_pos hdigits, countDigits_eq hdigits, pure_bind]
    show _ = pure (match checkedValue? magnitudeCeiling digits with
      | none => none
      | some magnitude => _)
    cases hvalue : checkedValue? magnitudeCeiling digits with
    | none =>
      rw [checkedValue?] at hvalue
      rw [hvalue]
    | some magnitude =>
      have hbound : magnitude ≤ magnitudeCeiling := by
        rw [checkedValue?_eq] at hvalue
        split at hvalue
        · cases hvalue
          assumption
        · cases hvalue
      rw [checkedValue?] at hvalue
      rw [magnitudeCeiling] at hbound
      rw [hvalue]
      dsimp only
      rw [whole128_eq (by omega)]
      cases negative <;> rfl
  · rw [if_neg hdigits, if_neg hdigits]

/-! ## Dates and times in strings -/

def clockMinutes (hour minute : Int) : Checked (Option Int) :=
  if (0 ≤ hour ∧ hour ≤ 23) ∧ 0 ≤ minute ∧ minute ≤ 59 then do
    let minutes ← add (← mul hour 60) minute
    pure (if fits32 minutes then some minutes else none)
  else pure none

def readTime (separators : Separators) (cs : List Char) : Checked (Int × List Char) := do
  let (hour, cs) ← ofResult (readNumber .badTime cs)
  let cs ← ofResult (readChar .badTime separators.isTimeSeparator cs)
  let (minute, cs) ← ofResult (readNumber .badTime cs)
  match ← clockMinutes hour minute with
  | none => throw .badTime
  | some minutes => pure (minutes, cs)

def readDate (separators : Separators) (cs : List Char) :
    Checked (DateLiteral × List Char) := do
  let (year, cs) ← ofResult (readNumber .badDate cs)
  let cs ← ofResult (readChar .badDate separators.isDateSeparator cs)
  let (month, cs) ← ofResult (readNumber .badDate cs)
  let cs ← ofResult (readChar .badDate separators.isDateSeparator cs)
  let (dayOfMonth, cs) ← ofResult (readNumber .badDate cs)
  let day ← dayOfCivil year (min month partCeiling) (min dayOfMonth partCeiling)
  match cs with
  | [] => pure ({ day, time := none }, [])
  | c :: timeText =>
      if c = ' ' ∨ c = '@' then do
        let (time, rest) ← readTime separators timeText
        pure ({ day, time := some time }, rest)
      else pure ({ day, time := none }, c :: timeText)

/-- What is read, if it is the whole text. -/
def whole? {α : Type} (read : Checked (α × List Char)) : Checked (Option α) := do
  match ← attempt read with
  | .ok (a, []) => pure (some a)
  | _ => pure none

theorem clockMinutes_eq (hour minute : Nat) :
    clockMinutes hour minute = pure (ReminderExpr.clockMinutes hour minute) := by
  unfold clockMinutes ReminderExpr.clockMinutes
  split
  · rename_i hshown
    rw [mul_eq (by omega), pure_bind, add_eq (by omega), pure_bind,
      if_pos (fits32_iff.2 (by omega)), if_pos (by omega)]
  · rw [if_neg (by omega)]

theorem readTime_eq (separators : Separators) (cs : List Char) :
    readTime separators cs = ofResult (ReminderExpr.readTime separators cs) := by
  refine ofResult_bind fun hour _ => ofResult_bind fun cs _ => ofResult_bind fun minute _ => ?_
  dsimp only
  rw [clockMinutes_eq, pure_bind]
  cases ReminderExpr.clockMinutes hour.1 minute.1 <;> rfl

theorem readDate_eq (separators : Separators) (cs : List Char) :
    readDate separators cs = ofResult (DateLiteral.read separators cs) := by
  refine ofResult_bind fun year _ => ofResult_bind fun cs _ => ofResult_bind fun month _ => ?_
  refine ofResult_bind fun cs _ => ofResult_bind fun dayOfMonth _ => ?_
  dsimp only
  rw [dayOfCivil_eq]
  refine ofResult_bind fun day _ => ?_
  rcases dayOfMonth.2 with _ | ⟨c, timeText⟩
  · rfl
  · dsimp only
    by_cases hstarts : c = ' ' ∨ c = '@'
    · rw [if_pos hstarts, readTime_eq]
      rcases hstarts with rfl | rfl
      · exact ofResult_bind fun time _ => rfl
      · exact ofResult_bind fun time _ => rfl
    · rw [if_neg hstarts]
      split
      · rename_i hspace
        cases hspace
        exact absurd (.inl rfl) hstarts
      · rename_i hat
        cases hat
        exact absurd (.inr rfl) hstarts
      · rfl

theorem readClock_eq (separators : Separators) (cs : List Char) :
    whole? (readTime separators cs) = pure (readClock separators cs) := by
  rw [readTime_eq, whole?, attempt_ofResult, pure_bind, readClock]
  rcases ReminderExpr.readTime separators cs with _ | ⟨minutes, _ | _⟩ <;> rfl

theorem readAll?_eq (separators : Separators) (cs : List Char) :
    whole? (readDate separators cs) = pure (DateLiteral.readAll? separators cs) := by
  rw [readDate_eq, whole?, attempt_ofResult, pure_bind, DateLiteral.readAll?]
  rcases DateLiteral.read separators cs with _ | ⟨literal, _ | _⟩ <;> rfl

/-! ## Moments -/

def momentOf (day minute : Int) : Checked Value := do
  pure (.dateTime (← add (← mul day minutesPerDay) minute))

theorem momentOf_eq {day minute : Int} (hday : fits32 day = true) (hminute : fits32 minute = true) :
    momentOf day minute = pure (.momentOf day minute) := by
  rw [fits32_iff] at hday hminute
  unfold momentOf Value.momentOf
  simp only [minutesPerDay]
  rw [mul_eq (by omega), pure_bind, add_eq (by omega), pure_bind]

/-- The minutes of a day have 32 bits. -/
theorem fits32_of_withinDay {minute : Int} (h : 0 ≤ minute ∧ minute < minutesPerDay) :
    fits32 minute = true := by
  have hday : minutesPerDay = 1440 := rfl
  rw [fits32_iff]
  omega

/-- The dates of texts have days of 32 bits. -/
theorem fits32_of_dayText {separators : Separators} {text rest : List Char} {day : Int}
    (h : DayText separators text day rest) : fits32 day = true := by
  cases h with
  | parts hyear hs hmonth hs' hday written date =>
    exact fits32_dayCount ⟨Int.ofNat_le.2 written.1, Int.ofNat_le.2 written.2⟩ date

/-- A day and a time of day that are read are those of a moment. -/
theorem momentOf_of_readAll? {separators : Separators} {cs : List Char} {day minute : Int}
    (h : DateLiteral.readAll? separators cs = some ⟨day, some minute⟩) :
    momentOf day minute = pure (.momentOf day minute) := by
  have hspelled := DateLiteral.readAll?_eq_some_iff.1 h
  refine momentOf_eq ?_ (fits32_of_withinDay hspelled.withinDay)
  cases hspelled with
  | moment hday hc htime => exact fits32_of_dayText hday

/-! ## Written forms -/

def writtenDate (separators : Separators) (day : Int) : Checked String := do
  let civil ← civilOfDay day
  pure (padded 4 civil.year ++ separators.date.toString
    ++ padded 2 civil.month ++ separators.date.toString ++ padded 2 civil.day)

def written (separators : Separators) : Value → Checked String
  | .int n => pure (decimal n)
  | .str s => pure s
  | .time minutes => pure (writtenTime separators minutes)
  | .date day => writtenDate separators day
  | .dateTime moment => do
      let day := moment / minutesPerDay
      let minutes ← whole32 (moment % minutesPerDay)
      let date ← writtenDate separators (if fits32 day then day else 0x7fffffff)
      pure (date ++ "@" ++ writtenTime separators minutes)

theorem writtenDate_eq {day : Int} (h : fits32 day = true) (separators : Separators) :
    writtenDate separators day = pure (ReminderExpr.writtenDate separators day) := by
  rw [writtenDate, civilOfDay_eq h, pure_bind]
  rfl

/-- Within a day there are few minutes. -/
theorem whole32_minutesOfDay (moment : Int) :
    whole32 (moment % minutesPerDay) = pure (moment % minutesPerDay) := by
  simp only [minutesPerDay]
  exact whole32_eq (by omega)

theorem written_eq {v : Value} (h : v.InRange) (separators : Separators) :
    written separators v = pure (v.written separators) := by
  cases v with
  | date day => exact writtenDate_eq h separators
  | dateTime moment =>
    have hday : fits32 (writtenDay moment) = true := by
      unfold writtenDay
      dsimp only
      split
      · assumption
      · rfl
    rw [written, whole32_minutesOfDay, pure_bind]
    exact congrArg (· >>= _) (writtenDate_eq hday separators)
  | _ => rfl

/-! ## Coercion -/

def toInt : Value → Checked Value
  | .str s => do
      match ← readInt? s.toList with
      | some n => pure (.int n)
      | none => throw .cantCoerce
  | .int n | .date n | .time n | .dateTime n => pure (.int n)

def toDate (separators : Separators) : Value → Checked Value
  | .int n =>
      if n < 0 then throw .tooLow
      else if fits32 n then pure (.date n) else throw .tooHigh
  | .str s => do
      match ← whole? (readDate separators s.toList) with
      | some literal => pure (.date literal.day)
      | none => throw .cantCoerce
  | .dateTime moment => do pure (.date (← ofResult (dayOfMoment moment)))
  | .date _ | .time _ => throw .cantCoerce

def toTime (separators : Separators) : Value → Checked Value
  | .int n | .dateTime n => do pure (.time (← whole32 (n % minutesPerDay)))
  | .str s => do
      match ← whole? (readTime separators s.toList) with
      | some minutes => pure (.time minutes)
      | none => throw .cantCoerce
  | .date _ | .time _ => throw .cantCoerce

def toDateTime (separators : Separators) : Value → Checked Value
  | .int n => pure (.dateTime n)
  | .date day => momentOf day 0
  | .str s => do
      match ← whole? (readDate separators s.toList) with
      | some { day, time := some minute } => momentOf day minute
      | _ => throw .cantCoerce
  | .dateTime _ | .time _ => throw .cantCoerce

def coerce (separators : Separators) (kind : ValueKind) (v : Value) : Checked Value :=
  if v.kind = kind then pure v
  else match kind with
    | .int => toInt v
    | .str => do pure (.str (← written separators v))
    | .date => toDate separators v
    | .time => toTime separators v
    | .dateTime => toDateTime separators v

theorem toInt_eq (v : Value) : toInt v = ofResult v.toInt := by
  cases v with
  | str s =>
    rw [toInt, Value.toInt, readInt?_eq, pure_bind]
    cases ReminderExpr.readInt? s.toList <;> rfl
  | _ => rfl

theorem toDate_eq {v : Value} (h : v.kind ≠ .date) (separators : Separators) :
    toDate separators v = ofResult (v.toDate separators) := by
  cases v with
  | int n =>
    rw [toDate, Value.toDate]
    split
    · rfl
    · split <;> rfl
  | str s =>
    rw [toDate, Value.toDate, readAll?_eq, pure_bind]
    cases DateLiteral.readAll? separators s.toList <;> rfl
  | dateTime moment => exact ofResult_bind fun day _ => rfl
  | date day => exact absurd rfl h
  | time minutes => rfl

theorem toTime_eq {v : Value} (h : v.kind ≠ .time) (separators : Separators) :
    toTime separators v = ofResult (v.toTime separators) := by
  cases v with
  | int n =>
    rw [toTime, whole32_minutesOfDay]
    rfl
  | dateTime moment =>
    rw [toTime, whole32_minutesOfDay]
    rfl
  | str s =>
    rw [toTime, Value.toTime, readClock_eq, pure_bind]
    cases readClock separators s.toList <;> rfl
  | time minutes => exact absurd rfl h
  | date day => rfl

theorem toDateTime_eq {v : Value} (h : v.kind ≠ .dateTime) (hrange : v.InRange)
    (separators : Separators) :
    toDateTime separators v = ofResult (v.toDateTime separators) := by
  cases v with
  | date day => exact momentOf_eq hrange rfl
  | str s =>
    rw [toDateTime, Value.toDateTime, readAll?_eq, pure_bind]
    rcases hread : DateLiteral.readAll? separators s.toList with _ | ⟨day, _ | minute⟩
    · rfl
    · rfl
    · exact momentOf_of_readAll? hread
  | dateTime moment => exact absurd rfl h
  | _ => rfl

theorem coerce_eq {v : Value} (h : v.InRange) (separators : Separators) (kind : ValueKind) :
    coerce separators kind v = ofResult (v.coerce separators kind) := by
  unfold coerce
  split
  · rename_i hkind
    rw [← hkind, Value.coerce_kind]
    rfl
  · rename_i hkind
    cases kind with
    | int => exact toInt_eq v
    | str =>
      dsimp only
      rw [written_eq h]
      rfl
    | date => exact toDate_eq hkind separators
    | time => exact toTime_eq hkind separators
    | dateTime => exact toDateTime_eq hkind h separators

end ReminderExpr.Words
