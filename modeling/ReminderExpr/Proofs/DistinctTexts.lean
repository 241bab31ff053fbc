/-
ReminderExpr.Proofs.DistinctTexts — values of one kind that are written alike.

No two integers are, no two dates, however far from day 0, and no two times of
the day; all that is asked of the separators is that none of them is a digit.
Of moments this holds as far as their days have 32 bits. All days beyond, after
and before, are written as the last one that has: a moment that coercion
refuses to make a date is written as if it had one.

* `decimal_inj`, `writtenDate_append_inj`, `writtenTime_inj` — texts that are
  the same;
* `writtenDay_eq_iff` — days that are written as the same;
* `texts_tell_values_apart` — values, kind by kind.
-/
import ReminderExpr.Proofs.WrittenForms

namespace ReminderExpr

open Text Calendar

variable {separators : Separators} {a b : Int}

/-! ## Texts that are the same -/

theorem decimal_inj (h : decimal a = decimal b) : a = b := by
  have ha : Signed ((decimal a).toList ++ []) a [] := signed_padded 0 a nofun
  have hb : Signed ((decimal b).toList ++ []) b [] := signed_padded 0 b nofun
  rw [h] at ha
  exact (ha.unique hb).1

/-- A date is told apart from all others by its text, and where this ends. -/
theorem writtenDate_append_inj (hsep : separators.date.isDigit = false) {after after' : List Char}
    (hafter : ∀ c ∈ after.head?, c.isDigit = false)
    (hafter' : ∀ c ∈ after'.head?, c.isDigit = false)
    (h : (writtenDate separators a).toList ++ after = (writtenDate separators b).toList ++ after') :
    a = b ∧ after = after' := by
  have ha := civilText_writtenDate hsep a hafter
  have hb := civilText_writtenDate hsep b hafter'
  rw [h] at ha
  obtain ⟨hcivil, hrest⟩ := ha.unique hb
  refine ⟨?_, hrest⟩
  rw [← CivilDate.toDay_ofDay a, hcivil, CivilDate.toDay_ofDay]

theorem writtenDate_inj (hsep : separators.date.isDigit = false)
    (h : writtenDate separators a = writtenDate separators b) : a = b := by
  have htext : (writtenDate separators a).toList ++ [] = (writtenDate separators b).toList ++ [] := by
    rw [h]
  exact (writtenDate_append_inj hsep (by simp) (by simp) htext).1

theorem writtenTime_inj (hsep : separators.time.isDigit = false) (ha : 0 ≤ a ∧ a < 1440)
    (hb : 0 ≤ b ∧ b < 1440) (h : writtenTime separators a = writtenTime separators b) : a = b := by
  have hread := separators.isTimeSeparator_self
  have hclock := clockText_writtenTime hsep hread ha.1 ha.2
  have hclock' := clockText_writtenTime hsep hread hb.1 hb.2
  rw [h] at hclock
  exact (hclock.unique hclock').1

/-! ## Moments -/

/-- Moments are written alike if their days are, and at the same minute. -/
theorem written_dateTime_eq_iff (hdate : separators.date.isDigit = false)
    (htime : separators.time.isDigit = false) :
    (Value.dateTime a).written separators = (Value.dateTime b).written separators ↔
      writtenDay a = writtenDay b ∧ a % minutesPerDay = b % minutesPerDay := by
  constructor
  · intro h
    have htext := congrArg String.toList h
    rw [toList_written_dateTime, toList_written_dateTime] at htext
    have hat : ∀ timeText : List Char, ∀ c ∈ ('@' :: timeText).head?, c.isDigit = false := by
      rintro timeText c ⟨⟩
      rfl
    obtain ⟨hday, hrest⟩ := writtenDate_append_inj hdate (hat _) (hat _) htext
    have hminute := String.toList_injective (List.cons.inj hrest).2
    exact ⟨hday, writtenTime_inj htime (minute_withinDay a) (minute_withinDay b) hminute⟩
  · rintro ⟨hday, hminute⟩
    rw [Value.written, Value.written, hday, hminute]

/-- Different days are written as the same only if this is the last one of 32
bits. -/
theorem writtenDay_eq_iff :
    writtenDay a = writtenDay b ↔
      a / minutesPerDay = b / minutesPerDay
        ∨ writtenDay a = 0x7fffffff ∧ writtenDay b = 0x7fffffff := by
  constructor
  · intro h
    by_cases ha : fits32 (a / minutesPerDay) = true
    · by_cases hb : fits32 (b / minutesPerDay) = true
      · rw [writtenDay_of_fits ha, writtenDay_of_fits hb] at h
        exact .inl h
      · have hlast := writtenDay_of_not_fits hb
        exact .inr ⟨h.trans hlast, hlast⟩
    · have hlast := writtenDay_of_not_fits ha
      exact .inr ⟨hlast, h.symm.trans hlast⟩
  · rintro (hday | ⟨ha, hb⟩)
    · unfold writtenDay
      rw [hday]
    · rw [ha, hb]

/-- A moment is made of its day and its minute. -/
theorem moment_eq_iff :
    a = b ↔ a / minutesPerDay = b / minutesPerDay ∧ a % minutesPerDay = b % minutesPerDay := by
  constructor
  · rintro rfl
    exact ⟨rfl, rfl⟩
  · rintro ⟨hday, hminute⟩
    have hmoment := momentOf_ediv_emod a
    rw [hday, hminute, momentOf_ediv_emod] at hmoment
    exact (Value.dateTime.inj hmoment).symm

/-- What coercion to a date refuses is a day of more than 32 bits. -/
theorem coerce_moment_date_eq (moment : Int) :
    (Value.dateTime moment).coerce separators .date
      = if fits32 (moment / minutesPerDay) then .ok (.date (moment / minutesPerDay))
        else .error .dateOverflow := by
  show (do .ok (Value.date (← dayOfMoment moment)) : Result Value) = _
  unfold dayOfMoment
  dsimp only
  split <;> rfl

/-! ## All kinds -/

/-- Values of one kind are told apart by their texts, if no separator is a
digit: any two integers, any two dates, any two times of the day, and any two
moments that are not both written with the last day of 32 bits. That day itself
is written so; and so is, with the minute of its own, every moment whose day has
more bits, which is every moment that cannot be coerced to a date. -/
theorem texts_tell_values_apart (separators : Separators)
    (hdate : separators.date.isDigit = false) (htime : separators.time.isDigit = false) :
    (∀ a b, (Value.int a).written separators = (Value.int b).written separators ↔ a = b)
      ∧ (∀ a b, (Value.date a).written separators = (Value.date b).written separators ↔ a = b)
      ∧ (∀ a b, (0 ≤ a ∧ a < 1440) → (0 ≤ b ∧ b < 1440) →
          ((Value.time a).written separators = (Value.time b).written separators ↔ a = b))
      ∧ (∀ a b, (Value.dateTime a).written separators = (Value.dateTime b).written separators ↔
          a = b ∨ a % minutesPerDay = b % minutesPerDay
            ∧ writtenDay a = 0x7fffffff ∧ writtenDay b = 0x7fffffff)
      ∧ ∀ moment e, (Value.dateTime moment).coerce separators .date = .error e →
          e = .dateOverflow ∧ (Value.dateTime moment).written separators
            = (Value.momentOf 0x7fffffff (moment % minutesPerDay)).written separators := by
  refine ⟨fun a b => ⟨decimal_inj, fun h => by rw [h]⟩,
    fun a b => ⟨writtenDate_inj hdate, fun h => by rw [h]⟩,
    fun a b ha hb => ⟨writtenTime_inj htime ha hb, fun h => by rw [h]⟩, fun a b => ?_,
    fun moment e hrefused => ?_⟩
  · rw [written_dateTime_eq_iff hdate htime, writtenDay_eq_iff, or_and_right, ← moment_eq_iff,
      @and_comm (a % minutesPerDay = b % minutesPerDay)]
  · rw [coerce_moment_date_eq] at hrefused
    split at hrefused
    · cases hrefused
    · rename_i hover
      cases hrefused
      have hday := @ediv_minutesPerDay 0x7fffffff _ (minute_withinDay moment)
      have hminute := @emod_minutesPerDay 0x7fffffff _ (minute_withinDay moment)
      refine ⟨rfl, (written_dateTime_eq_iff hdate htime).2 ⟨?_, hminute.symm⟩⟩
      rw [writtenDay_of_not_fits hover, writtenDay_of_fits, hday]
      rw [hday]
      rfl

/-- A moment long before day 0, and one long after, that are written alike:
neither has a date. -/
theorem far_moments_are_written_alike :
    (({} : Separators).date.isDigit = false ∧ ({} : Separators).time.isDigit = false)
      ∧ (Value.dateTime (-3092376454560)).coerce {} .date = .error .dateOverflow
      ∧ (Value.dateTime (-3092376454560)).written {} = (Value.dateTime 3092376451680).written {}
      ∧ (Value.dateTime 3092376451680).written {} = "5881600/07/11@00:00"
      ∧ (Value.date 2147483646).written {} ≠ (Value.date 2147483647).written {} := by
  have htexts := texts_tell_values_apart {} rfl rfl
  refine ⟨⟨rfl, rfl⟩, by decide +kernel, ?_, by decide +kernel, ?_⟩
  · exact (htexts.2.2.2.1 _ _).2 (.inr (by decide +kernel))
  · intro h
    exact absurd ((htexts.2.1 _ _).1 h) (by decide)

end ReminderExpr
