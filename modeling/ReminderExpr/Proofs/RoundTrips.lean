/-
ReminderExpr.Proofs.RoundTrips — values made strings, and made values again.

Coercion to a string writes dates with any year; coercion back reads only those
of the years that can be written in an expression. Within them nothing is lost,
and a date outside of them is refused, never taken for another one. All that is
asked of the separators is that none of them is a digit; and if they are such
as scripts may configure, the string is read alike under all others.

* `Calendar.Writable` — the days whose dates are read;
* `spelled_writtenDate_iff`, `spelled_written_dateTime_iff` — what the texts of
  dates and moments spell;
* `reread_date`, `reread_moment`, `reread_time` — one kind after another;
* `texts_lead_back` — all of them.
-/
import ReminderExpr.Proofs.LiteralReading
import ReminderExpr.Proofs.Settings

namespace ReminderExpr

open Text Calendar

/-! ## Days that can be written -/

namespace Calendar

/-- The days from 1 January 1990 to 31 December 2078. -/
def Writable (day : Int) : Prop := dayCount 1990 1 1 ≤ day ∧ day ≤ dayCount 2078 12 31

instance (day : Int) : Decidable (Writable day) := inferInstanceAs (Decidable (_ ∧ _))

variable {day moment : Int}

/-- The days that can be written are those of the years that can be. -/
theorem writable_iff_year :
    Writable day ↔ 1990 ≤ (CivilDate.ofDay day).year ∧ (CivilDate.ofDay day).year ≤ 2078 := by
  obtain ⟨hfrom, hto⟩ := (CivilDate.ofDay_exists day).toDay_bounds
  rw [CivilDate.toDay_ofDay] at hfrom hto
  generalize (CivilDate.ofDay day).year = year at *
  -- From here on the day is known only by the first days of its year and the next.
  have hfirst : dayCount 1990 1 1 = firstDay 1990 := by decide +kernel
  have hlast : dayCount 2078 12 31 = firstDay 2079 - 1 := by decide +kernel
  rw [Writable, hfirst, hlast]
  constructor
  · rintro ⟨hlow, hhigh⟩
    constructor
    · by_contra hearly
      have hover : firstDay (year + 1) ≤ firstDay 1990 := firstDay_mono (by omega)
      omega
    · by_contra hlate
      have hover : firstDay 2079 ≤ firstDay year := firstDay_mono (by omega)
      omega
  · rintro ⟨hlow, hhigh⟩
    have hafter : firstDay 1990 ≤ firstDay year := firstDay_mono hlow
    have hbefore : firstDay (year + 1) ≤ firstDay 2079 := firstDay_mono (by omega)
    omega

theorem Writable.fits32 (h : Writable day) : fits32 day = true := by
  have hfirst : dayCount 1990 1 1 = 0 := by decide +kernel
  have hlast : dayCount 2078 12 31 = 32506 := by decide +kernel
  rw [Writable, hfirst, hlast] at h
  exact fits32_iff.2 (by omega)

/-- A moment whose day has more than 32 bits is written with another day, but
with none whose year could be read. -/
theorem writable_writtenDay_iff :
    Writable (writtenDay moment) ↔ Writable (moment / minutesPerDay) := by
  by_cases hfits : ReminderExpr.fits32 (moment / minutesPerDay) = true
  · rw [writtenDay_of_fits hfits]
  · have hlast : ¬ Writable 0x7fffffff := by decide +kernel
    rw [writtenDay_of_not_fits hfits]
    exact ⟨fun h => absurd h hlast, fun h => absurd h.fits32 hfits⟩

end Calendar

/-! ## What texts spell -/

/-- Whether texts with some separators in them are read under others: none of
them is a digit, and all of them are separators there as well. -/
structure Separators.ReadUnder (writing reading : Separators) : Prop where
  date_whole : writing.date.isDigit = false
  time_whole : writing.time.isDigit = false
  date : reading.isDateSeparator writing.date = true
  time : reading.isTimeSeparator writing.time = true

section Spelled

variable {writing reading : Separators} {rest : List Char} {literal : DateLiteral}
  (hsep : writing.ReadUnder reading)

include hsep

/-- The text of a date is read as this date, if its year can be written. -/
theorem dayText_writtenDate_iff (day : Int) {after : List Char}
    (hafter : ∀ c ∈ after.head?, c.isDigit = false) {day' : Int} :
    DayText reading ((writtenDate writing day).toList ++ after) day' rest ↔
      Writable day ∧ day' = day ∧ rest = after := by
  have hcivil := civilText_writtenDate hsep.date_whole day hafter
  rw [hcivil.dayText_iff hsep.date (CivilDate.ofDay_exists day), CivilDate.toDay_ofDay,
    ← writable_iff_year]

/-- The text of a date spells this date, if its year can be written. -/
theorem spelled_writtenDate_iff (day : Int) :
    DateLiteral.Spelled reading (writtenDate writing day).toList literal rest ↔
      Writable day ∧ literal = ⟨day, none⟩ ∧ rest = [] := by
  have hday : ∀ day' rest', DayText reading (writtenDate writing day).toList day' rest' ↔
      Writable day ∧ day' = day ∧ rest' = [] := by
    intro day' rest'
    rw [← dayText_writtenDate_iff hsep day (by simp), List.append_nil]
  constructor
  · rintro (⟨htext, -⟩ | ⟨htext, -, -⟩)
    · obtain ⟨hwritable, rfl, rfl⟩ := (hday _ _).1 htext
      exact ⟨hwritable, rfl, rfl⟩
    · cases ((hday _ _).1 htext).2.2
  · rintro ⟨hwritable, rfl, rfl⟩
    exact .date ((hday _ _).2 ⟨hwritable, rfl, rfl⟩) nofun

/-- The text of a date and a time of day spells both, if the year can be
written. -/
theorem spelled_writtenMoment_iff (day : Int) {minutes : Int} (hfrom : 0 ≤ minutes)
    (hto : minutes < 1440) :
    DateLiteral.Spelled reading
        ((writtenDate writing day).toList ++ '@' :: (writtenTime writing minutes).toList)
        literal rest ↔
      Writable day ∧ literal = ⟨day, some minutes⟩ ∧ rest = [] := by
  have hday : ∀ day' rest', DayText reading
      ((writtenDate writing day).toList ++ '@' :: (writtenTime writing minutes).toList) day' rest' ↔
        Writable day ∧ day' = day ∧ rest' = '@' :: (writtenTime writing minutes).toList := by
    intro day' rest'
    refine dayText_writtenDate_iff hsep day ?_
    rintro c ⟨⟩
    rfl
  have hclock : ClockText reading (writtenTime writing minutes).toList minutes [] :=
    clockText_writtenTime hsep.time_whole hsep.time hfrom hto
  constructor
  · rintro (⟨htext, halone⟩ | ⟨htext, -, hminutes⟩)
    · obtain ⟨-, -, rfl⟩ := (hday _ _).1 htext
      exact absurd (.inr rfl) (halone '@' rfl)
    · obtain ⟨hwritable, rfl, heq⟩ := (hday _ _).1 htext
      cases heq
      obtain ⟨rfl, rfl⟩ := hminutes.unique hclock
      exact ⟨hwritable, rfl, rfl⟩
  · rintro ⟨hwritable, rfl, rfl⟩
    exact .moment ((hday _ _).2 ⟨hwritable, rfl, rfl⟩) (.inr rfl) hclock

/-- The text of a moment spells its day and its minute, if the year can be
written. -/
theorem spelled_written_dateTime_iff (moment : Int) :
    DateLiteral.Spelled reading ((Value.dateTime moment).written writing).toList literal rest ↔
      Writable (moment / minutesPerDay)
        ∧ literal = ⟨moment / minutesPerDay, some (moment % minutesPerDay)⟩ ∧ rest = [] := by
  obtain ⟨hfrom, hto⟩ := minute_withinDay moment
  rw [toList_written_dateTime, spelled_writtenMoment_iff hsep _ hfrom hto, writable_writtenDay_iff]
  refine and_congr_right fun hwritable => ?_
  rw [writtenDay_of_fits hwritable.fits32]

end Spelled

/-! ## There and back -/

/-- A value made a string, and made one of its kind again, perhaps under other
separators. -/
def Value.reread (writing reading : Separators) (v : Value) : Result Value := do
  let text ← v.coerce writing .str
  text.coerce reading v.kind

section Reread

variable {writing reading : Separators}

theorem reread_eq (v : Value) :
    v.reread writing reading = (Value.str (v.written writing)).coerce reading v.kind := rfl

variable (hsep : writing.ReadUnder reading)

include hsep

theorem reread_date (day : Int) :
    (Value.date day).reread writing reading
      = if Writable day then .ok (.date day) else .error .cantCoerce := by
  rw [reread_eq]
  refine (failsWith_coerce_str reading .date _).eq_ite fun v => ?_
  rw [coerce_date_eq_ok_iff]
  simp only [Value.written, spelled_writtenDate_iff hsep]
  constructor
  · rintro ⟨_, ⟨hwritable, rfl, -⟩, rfl⟩
    exact ⟨hwritable, rfl⟩
  · rintro ⟨hwritable, rfl⟩
    exact ⟨_, ⟨hwritable, rfl, trivial⟩, rfl⟩

theorem reread_time {minutes : Int} (hfrom : 0 ≤ minutes) (hto : minutes < 1440) :
    (Value.time minutes).reread writing reading = .ok (.time minutes) := by
  rw [reread_eq, Value.kind, coerce_time_eq_ok_iff]
  exact ⟨minutes, clockText_writtenTime hsep.time_whole hsep.time hfrom hto, rfl⟩

theorem reread_moment (moment : Int) :
    (Value.dateTime moment).reread writing reading
      = if Writable (moment / minutesPerDay) then .ok (.dateTime moment)
        else .error .cantCoerce := by
  rw [reread_eq]
  refine (failsWith_coerce_str reading .dateTime _).eq_ite fun v => ?_
  rw [coerce_dateTime_eq_ok_iff]
  simp only [spelled_written_dateTime_iff hsep]
  constructor
  · rintro ⟨_, _, ⟨hwritable, ⟨⟩, -⟩, rfl⟩
    exact ⟨hwritable, momentOf_ediv_emod moment⟩
  · rintro ⟨hwritable, rfl⟩
    exact ⟨_, _, ⟨hwritable, rfl, trivial⟩, (momentOf_ediv_emod moment).symm⟩

end Reread

/-- Texts written under some separators lead back under others: dates and
moments if their years can be written and to no other value if not, times of
the day always. -/
structure LeadsBack (writing reading : Separators) : Prop where
  date (day : Int) : (Value.date day).reread writing reading
    = if Writable day then .ok (.date day) else .error .cantCoerce
  moment (moment : Int) : (Value.dateTime moment).reread writing reading
    = if Writable (moment / minutesPerDay) then .ok (.dateTime moment) else .error .cantCoerce
  time (minutes : Int) (hfrom : 0 ≤ minutes) (hto : minutes < 1440) :
    (Value.time minutes).reread writing reading = .ok (.time minutes)

/-- Texts lead back where their separators are read. -/
theorem Separators.ReadUnder.leadsBack {writing reading : Separators}
    (hsep : writing.ReadUnder reading) : LeadsBack writing reading where
  date := reread_date hsep
  moment := reread_moment hsep
  time _ := reread_time hsep

/-! ## Separators that scripts may set -/

namespace Separators

/-- Whether a script may assign these characters to the system variables of
the separators. -/
def Settable (separators : Separators) : Prop :=
  (({} : Environment).setSystemVariable "DateSep" (.str separators.date.toString)).isOk = true
    ∧ (({} : Environment).setSystemVariable "TimeSep" (.str separators.time.toString)).isOk = true

instance (separators : Separators) : Decidable separators.Settable :=
  inferInstanceAs (Decidable (_ ∧ _))

variable {separators : Separators}

theorem isOk_separator (allowed : List Char) (c : Char) :
    (Special.separator allowed (.str c.toString)).isOk = allowed.contains c := by
  have htext : c.toString.toList = [c] := by simp
  unfold Special.separator
  dsimp only
  rw [htext]
  dsimp only
  split
  · rename_i hallowed
    rw [hallowed]
    rfl
  · rename_i hrefused
    rw [Bool.not_eq_true] at hrefused
    rw [hrefused]
    rfl

/-- A string is assigned to an entry that is a view if the view can be written. -/
theorem isOk_set_view {name : String} {view : Special}
    (h : SystemVariable.find? name
      = some { SystemVariable.view name .str view with modifiable := true })
    (env : Environment) (text : String) :
    (env.setSystemVariable name (.str text)).isOk = (view.write env.host (.str text)).isOk := by
  have hset : env.systemVariables.set env.host name (.str text)
      = (do .ok (env.systemVariables, ← view.write env.host (.str text))) := by
    rw [SystemVariables.set, h]
    rfl
  rw [Environment.setSystemVariable, hset]
  cases view.write env.host (.str text) <;> rfl

theorem isOk_write_dateSep (host : HostState) (c : Char) :
    (Special.dateSep.write host (.str c.toString)).isOk = ['/', '-'].contains c := by
  rw [← isOk_separator, Special.write]
  cases Special.separator ['/', '-'] (.str c.toString) <;> rfl

theorem isOk_write_timeSep (host : HostState) (c : Char) :
    (Special.timeSep.write host (.str c.toString)).isOk = [':', '.'].contains c := by
  rw [← isOk_separator, Special.write]
  cases Special.separator [':', '.'] (.str c.toString) <;> rfl

/-- Scripts may set the separators that are always read. -/
theorem settable_iff :
    separators.Settable ↔ (separators.date = '/' ∨ separators.date = '-')
      ∧ (separators.time = ':' ∨ separators.time = '.') := by
  rw [Settable, isOk_set_view SystemVariable.find?_dateSep,
    isOk_set_view SystemVariable.find?_timeSep, isOk_write_dateSep, isOk_write_timeSep]
  simp

/-- Separators that are no digits are read under themselves. -/
theorem readUnder_self (hdate : separators.date.isDigit = false)
    (htime : separators.time.isDigit = false) : separators.ReadUnder separators :=
  ⟨hdate, htime, separators.isDateSeparator_self, separators.isTimeSeparator_self⟩

/-- Separators that scripts may set are read under all others. -/
theorem Settable.readUnder (h : separators.Settable) (reading : Separators) :
    separators.ReadUnder reading := by
  obtain ⟨hdate, htime⟩ := settable_iff.1 h
  constructor
  case date_whole => rcases hdate with hdate | hdate <;> rw [hdate] <;> rfl
  case time_whole => rcases htime with htime | htime <;> rw [htime] <;> rfl
  case date => rcases hdate with hdate | hdate <;> simp [isDateSeparator, hdate]
  case time => rcases htime with htime | htime <;> simp [isTimeSeparator, htime]

end Separators

/-- Whatever the separators are, if none of them is a digit, texts lead back
under them to what they were written from: a date or a moment between the
years 1990 and 2078 to itself, every other one to no value, a time of the day
to itself. If scripts may set these separators, all other ones do as well for
reading, digits included. -/
theorem texts_lead_back (separators : Separators) (hdate : separators.date.isDigit = false)
    (htime : separators.time.isDigit = false) :
    LeadsBack separators separators
      ∧ (separators.Settable → ∀ reading, LeadsBack separators reading) :=
  ⟨(Separators.readUnder_self hdate htime).leadsBack,
    fun hsettable reading => (hsettable.readUnder reading).leadsBack⟩

/-- An `@` between the parts of a date leads back where it is configured; a
moment that is too late for its text leads nowhere; and dashes and dots lead
back even where a digit is configured. -/
theorem texts_with_odd_separators :
    let odd : Separators := { date := '@', time := ' ' }
    let dashes : Separators := { date := '-', time := '.' }
    let digits : Separators := { date := '7', time := '0' }
    (odd.date.isDigit = false ∧ odd.time.isDigit = false) ∧ dashes.Settable
      ∧ (Value.dateTime 17967305).written odd = "2024@02@29@07 05"
      ∧ (Value.dateTime 17967305).reread odd odd = .ok (.dateTime 17967305)
      ∧ (Value.dateTime 3092376453120).reread odd odd = .error .cantCoerce
      ∧ (Value.date 12477).reread dashes digits = .ok (.date 12477) := by
  intro odd dashes digits
  have hsettable : dashes.Settable := Separators.settable_iff.2 ⟨.inr rfl, .inr rfl⟩
  have hodd := (texts_lead_back odd rfl rfl).1
  have hdashes := (texts_lead_back dashes rfl rfl).2 hsettable digits
  refine ⟨⟨rfl, rfl⟩, hsettable, by decide +kernel, ?_, ?_, ?_⟩
  · rw [hodd.moment, if_pos (by decide +kernel)]
  · rw [hodd.moment, if_neg (by decide +kernel)]
  · rw [hdashes.date, if_pos (by decide +kernel)]

end ReminderExpr
