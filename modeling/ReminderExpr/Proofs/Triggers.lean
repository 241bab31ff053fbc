/-
ReminderExpr.Proofs.Triggers — triggers that are given in universal time.

A date and a time of the day are one number of minutes, and a number of minutes
is one date and time of the day (`FallsOn`): a shift adds to the number, and the
day and the minute that it then falls on are those of the trigger. What is
written names a date and a time of the day, and no others: the numbers in it are
whole, and the name of the month ends at a blank.

* `fallsOn_iff`, `existsUnique_fallsOn` — the day and the minute of a number of
  minutes;
* `NamesMoment`, `NamesMoment.unique` — the texts of triggers;
* `Builtin.apply_trigger_utc` — a trigger in universal time by its shift;
* `Builtin.universal_time_shifts_exactly` — triggers with and without a shift.
-/
import ReminderExpr.Proofs.CallsOnWords
import ReminderExpr.Proofs.WrittenForms

namespace ReminderExpr

open Calendar Dates Text

variable {environment : Environment} {functions : UserFunctions}
  {day minute day' minute' minutes offset : Int}

/-! ## Minutes since day 0 -/

/-- The day and the minute of this day on which a number of minutes falls. -/
structure FallsOn (minutes day minute : Int) : Prop where
  sum : day * 1440 + minute = minutes
  clock : 0 ≤ minute ∧ minute < 1440

theorem fallsOn_iff :
    FallsOn minutes day minute ↔ minutes / 1440 = day ∧ minutes % 1440 = minute := by
  constructor
  · rintro ⟨rfl, hclock⟩
    exact ⟨ediv_minutesPerDay hclock, emod_minutesPerDay hclock⟩
  · rintro ⟨rfl, rfl⟩
    exact ⟨Int.ediv_mul_add_emod minutes 1440, minute_withinDay minutes⟩

theorem existsUnique_fallsOn (minutes : Int) :
    ∃! moment : Int × Int, FallsOn minutes moment.1 moment.2 := by
  refine ⟨(minutes / 1440, minutes % 1440), fallsOn_iff.2 ⟨rfl, rfl⟩, fun moment h => ?_⟩
  obtain ⟨hday, hminute⟩ := fallsOn_iff.1 h
  exact Prod.ext hday.symm hminute.symm

/-- A shift leads to the day and the minute that the sum falls on, if the day
has 32 bits. -/
theorem shiftClock_eq_ite (h : FallsOn (day * 1440 + minute + offset) day' minute') :
    shiftClock day minute offset
      = if fits32 day' then .ok (day', minute') else .error .dateOverflow := by
  obtain ⟨hday, hminute⟩ := fallsOn_iff.1 h
  have hmoment : dayOfMoment (day * 1440 + minute + offset)
      = if fits32 day' then .ok day' else .error .dateOverflow := by
    rw [← hday]
    rfl
  show (do .ok (← dayOfMoment (day * 1440 + minute + offset),
    (day * 1440 + minute + offset) % 1440)) = _
  rw [hmoment, hminute]
  split <;> rfl

/-! ## Texts of triggers -/

/-- The text of a trigger that names an existing date and a time that a clock
shows. -/
structure NamesMoment (text : String) (date : CivilDate) (hour minute : Nat) : Prop where
  existing : date.Exists
  clock : hour < 24 ∧ minute < 60
  written : ∃ month, monthName date.month = some month
    ∧ text = decimal date.day ++ " " ++ month ++ " " ++ decimal date.year ++ " AT "
        ++ (padded 2 hour ++ ":" ++ padded 2 minute)

/-- No name of a month has a blank in it, and no two are the same. -/
theorem monthNames_apart : (∀ name ∈ monthNames, ' ' ∉ name.toList) ∧ monthNames.Nodup := by
  decide

theorem monthName_eq_some_iff {month : Nat} {name : String} :
    monthName month = some name ↔ month ≠ 0 ∧ monthNames[month - 1]? = some name := by
  unfold monthName
  split <;> simp_all

/-- The name of a month is what stands before the first blank. -/
theorem takeWhile_monthName {month : Nat} {name : String} (h : monthName month = some name)
    (after : List Char) : (name.toList ++ ' ' :: after).takeWhile (· != ' ') = name.toList := by
  have hname := monthNames_apart.1 name (List.mem_of_getElem? (monthName_eq_some_iff.1 h).2)
  have hplain : ∀ c ∈ name.toList, (c != ' ') = true := by
    intro c hc
    exact bne_iff_ne.2 fun hblank => hname (hblank ▸ hc)
  rw [List.takeWhile_append_of_pos hplain]
  simp

theorem month_unique {month month' : Nat} {name name' : String} {after after' : List Char}
    (hname : monthName month = some name) (hname' : monthName month' = some name')
    (h : name.toList ++ ' ' :: after = name'.toList ++ ' ' :: after') :
    month = month' ∧ after = after' := by
  have hsame : name.toList = name'.toList := by
    rw [← takeWhile_monthName hname after, h, takeWhile_monthName hname']
  rw [hsame] at h
  obtain ⟨hpos, hplace⟩ := monthName_eq_some_iff.1 hname
  obtain ⟨hpos', hplace'⟩ := monthName_eq_some_iff.1 hname'
  rw [String.toList_injective hsame, ← hplace'] at hplace
  have hlt := (List.getElem?_eq_some_iff.1 hplace').1
  have hsame := (List.getElem?_inj hlt monthNames_apart.2).1 hplace.symm
  exact ⟨by omega, (List.cons.inj (List.append_cancel_left h)).2⟩

/-- A number is told apart from all others by its text, and where this ends. -/
theorem padded_append_inj (width : Nat) {n n' : Int} {after after' : List Char}
    (hafter : ∀ c ∈ after.head?, c.isDigit = false)
    (hafter' : ∀ c ∈ after'.head?, c.isDigit = false)
    (h : (padded width n).toList ++ after = (padded width n').toList ++ after') :
    n = n' ∧ after = after' := by
  have hn := signed_padded width n hafter
  rw [h] at hn
  exact hn.unique (signed_padded width n' hafter')

/-- The characters of the text of a trigger. -/
theorem toList_momentText (day month year hour minute : String) :
    (day ++ " " ++ month ++ " " ++ year ++ " AT " ++ (hour ++ ":" ++ minute)).toList
      = day.toList ++ ' ' :: (month.toList ++ ' ' :: (year.toList ++ ' ' :: 'A' :: 'T' :: ' ' ::
          (hour.toList ++ ':' :: (minute.toList ++ [])))) := by
  simp

/-- A text names one date and one time. -/
theorem NamesMoment.unique {text : String} {date date' : CivilDate}
    {hour minute hour' minute' : Nat}
    (h : NamesMoment text date hour minute) (h' : NamesMoment text date' hour' minute') :
    date = date' ∧ hour = hour' ∧ minute = minute' := by
  obtain ⟨-, -, name, hname, htext⟩ := h
  obtain ⟨-, -, name', hname', htext'⟩ := h'
  have hsame := congrArg String.toList (htext.symm.trans htext')
  rw [toList_momentText, toList_momentText] at hsame
  have hblank : ∀ after : List Char, ∀ c ∈ (' ' :: after).head?, c.isDigit = false := by
    rintro after c ⟨⟩
    rfl
  have hcolon : ∀ after : List Char, ∀ c ∈ (':' :: after).head?, c.isDigit = false := by
    rintro after c ⟨⟩
    rfl
  obtain ⟨hday, hsame⟩ := padded_append_inj 0 (hblank _) (hblank _) hsame
  obtain ⟨hmonth, hsame⟩ := month_unique hname hname' (List.cons.inj hsame).2
  obtain ⟨hyear, hsame⟩ := padded_append_inj 0 (hblank _) (hblank _) hsame
  simp only [List.cons.injEq, true_and] at hsame
  obtain ⟨hhour, hsame⟩ := padded_append_inj 2 (hcolon _) (hcolon _) hsame
  obtain ⟨hminute, -⟩ := padded_append_inj 2 (by simp) (by simp) (List.cons.inj hsame).2
  obtain ⟨year, month, day⟩ := date
  obtain ⟨year', month', day'⟩ := date'
  dsimp only at hday hmonth hyear
  refine ⟨?_, Int.ofNat.inj hhour, Int.ofNat.inj hminute⟩
  rw [hmonth, hyear, Int.ofNat.inj hday]

theorem writtenTime_natCast (minute : Nat) :
    writtenTime {} minute = padded 2 (minute / 60 : Nat) ++ ":" ++ padded 2 (minute % 60 : Nat) :=
  rfl

/-- The text of a day and a time of the day names both. -/
theorem exists_namesMoment (day : Int) (hclock : 0 ≤ minute ∧ minute < 1440) :
    ∃ text date hour min, triggerText day (some minute) = some text
      ∧ NamesMoment text date hour min ∧ date.toDay = day ∧ minute = hour * 60 + min := by
  obtain ⟨name, hname⟩ := Option.isSome_iff_exists.1 (isSome_monthName (month_ofDay day))
  obtain ⟨m, rfl⟩ := Int.eq_ofNat_of_zero_le hclock.1
  refine ⟨_, CivilDate.ofDay day, m / 60, m % 60, ?_,
    ⟨CivilDate.ofDay_exists day, by omega, name, hname, rfl⟩, CivilDate.toDay_ofDay day, by omega⟩
  unfold triggerText
  dsimp only
  rw [hname, writtenTime_natCast]
  rfl

/-! ## The shift -/

namespace Builtin

theorem utcShift_of_reads (h : environment.systemVariable "MinsFromUTC" = .ok (.int offset)) :
    utcShift environment = .ok offset := by
  rw [utcShift, h]
  rfl

theorem apply_trigger (environment : Environment) (functions : UserFunctions) (day minute : Int) :
    trigger.apply environment functions [.date day, .time minute]
      = ((triggerText day (some minute)).map fun s => .ok (.str s)).getD (.error .stackError) :=
  rfl

/-- A trigger in universal time is that of the day and the minute that the shift
leads to, if there are any. -/
theorem apply_trigger_utc (functions : UserFunctions)
    (hreads : environment.systemVariable "MinsFromUTC" = .ok (.int offset)) {utc : Int}
    (hutc : utc ≠ 0) :
    trigger.apply environment functions [.date day, .time minute, .int utc] = (do
      let (day, minute) ← shiftClock day minute offset
      trigger.apply environment functions [.date day, .time minute]) := by
  show (triggerOf environment day minute utc).getD _ = _
  have hshift : (utcShift environment >>= shiftClock day minute)
      = shiftClock day minute offset := by
    rw [utcShift_of_reads hreads]
    rfl
  rw [triggerOf, if_neg hutc, hshift]
  cases shiftClock day minute offset <;> rfl

/-- Triggers in universal time are shifted exactly.

A script may assign to `$MinsFromUTC`, in any spelling, only minutes from -780
to 780. While it reads as what has been assigned, a trigger with a third
argument other than 0 is the trigger of the one day and the one minute of that
day on which the sum of its minutes and the shift falls, if that day has 32
bits; its text names the date of the day and the time of the minute, and no
others. If the day has more bits, there is no trigger but a `dateOverflow`. With
0 as the third argument a trigger is the one without it, whatever `$MinsFromUTC`
is. -/
theorem universal_time_shifts_exactly (functions : UserFunctions) {before after : Environment}
    {name : String} (hname : Name.equalIgnoreCase name "MinsFromUTC" = true)
    (hset : before.setSystemVariable name (.int offset) = .ok after)
    (hreads : environment.systemVariable "MinsFromUTC" = after.systemVariable "MinsFromUTC") :
    let call := trigger.apply environment functions
    (-780 ≤ offset ∧ offset ≤ 780)
      ∧ (∀ day minute utc : Int, utc ≠ 0 →
          (∃! moment : Int × Int,
              FallsOn (day * 1440 + minute + offset) moment.1 moment.2)
            ∧ ∀ day' minute', FallsOn (day * 1440 + minute + offset) day' minute' →
                (fits32 day' = true →
                    call [.date day, .time minute, .int utc] = call [.date day', .time minute']
                      ∧ ∃ text date hour min,
                          call [.date day', .time minute'] = .ok (.str text)
                            ∧ NamesMoment text date hour min
                            ∧ date.toDay = day' ∧ minute' = hour * 60 + min
                            ∧ ∀ date' hour' min', NamesMoment text date' hour' min' →
                                date' = date ∧ hour' = hour ∧ min' = min)
                  ∧ (fits32 day' = false →
                    call [.date day, .time minute, .int utc] = .error .dateOverflow))
      ∧ ∀ (here there : Environment) (day minute : Int),
          trigger.apply here functions [.date day, .time minute, .int 0]
            = trigger.apply there functions [.date day, .time minute] := by
  intro call
  have hoffset : environment.systemVariable "MinsFromUTC" = .ok (.int offset) := by
    rw [hreads, before.systemVariable_of_set hset, if_pos hname]
  obtain ⟨_, ⟨⟩, hbounds⟩ := Words.shift_of_set hname hset
  refine ⟨hbounds, fun day minute utc hutc => ⟨existsUnique_fallsOn _, fun day' minute' h => ?_⟩,
    fun here there day minute => rfl⟩
  have hcall : call [.date day, .time minute, .int utc] = (do
      let (day, minute) ← shiftClock day minute offset
      call [.date day, .time minute]) := apply_trigger_utc functions hoffset hutc
  rw [shiftClock_eq_ite h] at hcall
  refine ⟨fun hfits => ⟨?_, ?_⟩, fun hfits => ?_⟩
  · rw [hcall, if_pos hfits]
    rfl
  · obtain ⟨text, date, hour, min, htext, hnames, hday, hminute⟩ :=
      exists_namesMoment day' h.clock
    refine ⟨text, date, hour, min, ?_, hnames, hday, hminute, fun date' hour' min' hnames' =>
      hnames'.unique hnames⟩
    rw [show call [.date day', .time minute'] = _ from apply_trigger environment functions _ _,
      htext]
    rfl
  · rw [hcall, hfits]
    rfl

/-- Half an hour before midnight at the end of a year is after midnight an hour
further east; on the last day of 32 bits there is nothing after it. -/
theorem trigger_over_new_year :
    ∃ environment : Environment,
      ({} : Environment).setSystemVariable "minsfromutc" (.int 60) = .ok environment
        ∧ trigger.apply environment {} [.date 12417, .time 1410, .int (-7)]
            = .ok (.str "1 January 2024 AT 00:30")
        ∧ trigger.apply environment {} [.date 0x7fffffff, .time 1380, .int 1]
            = .error .dateOverflow := by
  have hset : ({} : Environment).setSystemVariable "minsfromutc" (.int 60)
      = .ok { systemVariables := { assigned := [("MinsFromUTC", .int 60)] } } := by
    decide +kernel
  obtain ⟨-, hshift, -⟩ := universal_time_shifts_exactly {} (by decide) hset rfl
  obtain ⟨-, hyear⟩ := hshift 12417 1410 (-7) (by decide)
  obtain ⟨-, hlast⟩ := hshift 0x7fffffff 1380 1 (by decide)
  refine ⟨_, hset, ?_, (hlast 0x80000000 0 ⟨by decide, by decide⟩).2 (by decide)⟩
  rw [((hyear 12418 30 ⟨by decide, by decide⟩).1 (by decide)).1]
  decide +kernel

end Builtin

end ReminderExpr
