/-
ReminderExpr.Proofs.Shifts — dates, moments and times of the day, and the
amounts by which they are shifted.

Dates and moments are points on a line: an amount added and taken away is exact,
or it leaves the points that there are, which begin with day 0. A difference of
two points is the amount that leads from one to the other; but a point before
day 0, from which one can set out, is not one to which one can come back. An
amount is taken away by adding the opposite one, which the least integer has
not. Times of the day lie on a circle: every amount leads to a time, and back.

* `shiftDate_eq`, `shiftMoment_eq`, `oppositeShift_eq` — one step each;
* `ShiftsExactly` — what holds of points on a line, and `shiftsExactly_of_steps`
  the argument, which is the same for both;
* `TurnsExactly` — what holds of the clock;
* `shifts_are_exact` — all three kinds.
-/
import Mathlib.Logic.Basic
import ReminderExpr.Operator.Arithmetic

namespace ReminderExpr

open Calendar

variable {settings : ArithmeticSettings} {point : Int → Value} {last x n : Int}

/-! ## Single steps -/

theorem shiftDate_eq (day days : Int) :
    shiftDate day days
      = if 0 ≤ day + days ∧ day + days ≤ 0x7fffffff then .ok (.date (day + days))
        else .error .dateOverflow := by
  refine if_congr ?_ rfl rfl
  rw [fits32_iff]
  omega

theorem shiftMoment_eq (moment minutes : Int) :
    shiftMoment moment minutes
      = if 0 ≤ moment + minutes ∧ moment + minutes ≤ 0x7fffffffffffffff then
          .ok (.dateTime (moment + minutes))
        else .error .dateOverflow := by
  refine if_congr ?_ rfl rfl
  rw [fits64_iff]
  omega

/-- Every amount but the least one has an opposite. -/
theorem oppositeShift_eq (hn : (Value.int n).InRange) :
    oppositeShift n
      = if n ≠ -0x8000000000000000 then .ok (-n) else .error .dateOverflow := by
  have hbits := fits64_iff.1 hn
  refine if_congr ?_ rfl rfl
  rw [fits64_iff]
  omega

/-! ## Points on a line -/

/-- What shifts make of points of time, the last of which is `last`, and of
those before day 0. -/
structure ShiftsExactly (settings : ArithmeticSettings) (point : Int → Value) (last : Int) :
    Prop where
  /-- A sum is exact, or there is no such point. -/
  add (x n : Int) : BinaryOp.add.apply settings (point x) (.int n)
    = if 0 ≤ x + n ∧ x + n ≤ last then .ok (point (x + n)) else .error .dateOverflow
  add_comm (x n : Int) : BinaryOp.add.apply settings (.int n) (point x)
    = BinaryOp.add.apply settings (point x) (.int n)
  /-- So is what is left, unless the amount is the least integer. -/
  sub (x n : Int) (hn : (Value.int n).InRange) : BinaryOp.sub.apply settings (point x) (.int n)
    = if n ≠ -0x8000000000000000 ∧ 0 ≤ x - n ∧ x - n ≤ last then .ok (point (x - n))
      else .error .dateOverflow
  /-- The difference of a sum and a point is the amount. -/
  difference (x n : Int) (y : Value) (hx : (point x).InRange) (hn : (Value.int n).InRange)
    (h : BinaryOp.add.apply settings (point x) (.int n) = .ok y) :
    BinaryOp.sub.apply settings y (point x) = .ok (.int n)
  /-- The amount leads back, if not to a point before day 0. -/
  back (x n : Int) (y : Value) (hx : (point x).InRange) (hn : (Value.int n).InRange)
    (h : BinaryOp.add.apply settings (point x) (.int n) = .ok y) :
    BinaryOp.sub.apply settings y (.int n)
      = if 0 ≤ x then .ok (point x) else .error .dateOverflow

/-- An amount taken away is its opposite added. -/
theorem opposite_shift {shift : Int → Result Value} (hn : (Value.int n).InRange)
    (hshift : ∀ m, shift m
      = if 0 ≤ x + m ∧ x + m ≤ last then .ok (point (x + m)) else .error .dateOverflow) :
    (do shift (← oppositeShift n))
      = if n ≠ -0x8000000000000000 ∧ 0 ≤ x - n ∧ x - n ≤ last then .ok (point (x - n))
        else .error .dateOverflow := by
  rw [oppositeShift_eq hn]
  by_cases hleast : n ≠ -0x8000000000000000
  · rw [if_pos hleast]
    show shift (-n) = _
    simp [hshift, hleast, Int.sub_eq_add_neg]
  · rw [if_neg hleast, if_neg fun h => hleast h.1]
    rfl

/-- Sums, and what is left, make up the rest. -/
theorem shiftsExactly_of_steps
    (hadd : ∀ x n, BinaryOp.add.apply settings (point x) (.int n)
      = if 0 ≤ x + n ∧ x + n ≤ last then .ok (point (x + n)) else .error .dateOverflow)
    (hcomm : ∀ x n, BinaryOp.add.apply settings (.int n) (point x)
      = BinaryOp.add.apply settings (point x) (.int n))
    (hsub : ∀ x n, (Value.int n).InRange → BinaryOp.sub.apply settings (point x) (.int n)
      = if n ≠ -0x8000000000000000 ∧ 0 ≤ x - n ∧ x - n ≤ last then .ok (point (x - n))
        else .error .dateOverflow)
    (hdifference : ∀ x n, (Value.int n).InRange →
      BinaryOp.sub.apply settings (point (x + n)) (point x) = .ok (.int n))
    (hrange : ∀ x, (point x).InRange → x ≤ last) (hlast : last ≤ 0x7fffffffffffffff) :
    ShiftsExactly settings point last where
  add := hadd
  add_comm := hcomm
  sub := hsub
  difference x n y _ hn h := by
    rw [hadd] at h
    split at h
    · cases h
      exact hdifference x n hn
    · cases h
  back x n y hx hn h := by
    rw [hadd] at h
    split at h
    · rename_i hsum
      cases h
      have hbound := hrange x hx
      rw [hsub _ _ hn, Int.add_sub_cancel]
      refine if_congr ?_ rfl rfl
      -- A sum with the least integer is at most `last` less 2^63, which is before day 0.
      omega
    · cases h

theorem dates_shift_exactly (settings : ArithmeticSettings) :
    ShiftsExactly settings .date 0x7fffffff := by
  refine shiftsExactly_of_steps shiftDate_eq (fun _ _ => rfl)
    (fun x n hn => opposite_shift hn (shiftDate_eq x)) (fun x n _ => ?_) (fun x hx => ?_)
    (by decide)
  · show Except.ok (Value.int (x + n - x)) = _
    rw [Int.add_comm, Int.add_sub_cancel]
  · have hbits := fits32_iff.1 hx
    omega

theorem moments_shift_exactly (settings : ArithmeticSettings) :
    ShiftsExactly settings .dateTime 0x7fffffffffffffff := by
  refine shiftsExactly_of_steps shiftMoment_eq (fun _ _ => rfl)
    (fun x n hn => opposite_shift hn (shiftMoment_eq x)) (fun x n hn => ?_) (fun x hx => ?_)
    (by decide)
  · show checked .subtraction (x + n - x) = _
    rw [Int.add_comm, Int.add_sub_cancel]
    exact if_pos hn
  · have hbits := fits64_iff.1 hx
    omega

/-! ## The clock -/

/-- What shifts make of times of the day. -/
structure TurnsExactly (settings : ArithmeticSettings) : Prop where
  add (t n : Int) : BinaryOp.add.apply settings (.time t) (.int n) = .ok (.time ((t + n) % 1440))
  add_comm (t n : Int) : BinaryOp.add.apply settings (.int n) (.time t)
    = BinaryOp.add.apply settings (.time t) (.int n)
  sub (t n : Int) : BinaryOp.sub.apply settings (.time t) (.int n) = .ok (.time ((t - n) % 1440))
  /-- An amount leads back. -/
  back (t n : Int) (ht : 0 ≤ t ∧ t < 1440) :
    (do BinaryOp.sub.apply settings (← BinaryOp.add.apply settings (.time t) (.int n)) (.int n))
      = .ok (.time t)
  /-- Amounts may be added in any order. -/
  swap (t m n : Int) :
    (do BinaryOp.add.apply settings (← BinaryOp.add.apply settings (.time t) (.int m)) (.int n))
      = do BinaryOp.add.apply settings (← BinaryOp.add.apply settings (.time t) (.int n)) (.int m)

theorem times_turn_exactly (settings : ArithmeticSettings) : TurnsExactly settings where
  add _ _ := rfl
  add_comm _ _ := rfl
  sub _ _ := rfl
  back t n ht := by
    show Except.ok (Value.time (((t + n) % 1440 - n) % 1440)) = _
    rw [Int.emod_sub_emod, Int.add_sub_cancel, Int.emod_eq_of_lt ht.1 ht.2]
  swap t m n := by
    show Except.ok (Value.time (((t + m) % 1440 + n) % 1440))
      = .ok (.time (((t + n) % 1440 + m) % 1440))
    rw [Int.emod_add_emod, Int.emod_add_emod, Int.add_right_comm]

/-- Shifts of dates, moments and times of the day are exact.

A date and a moment with an amount of days or of minutes added or taken away is
the date or the moment that the integers have it, if that is not before day 0
and has 32 bits or 64; everything else is a `dateOverflow`, and so is the least
integer taken away. A sum less what it was made of gives the amount; less the
amount it gives what it was made of, if that is not before day 0. A time of the
day is shifted around the clock, by every amount; the amount taken away again
leads back, and two amounts may be added in either order. -/
theorem shifts_are_exact (settings : ArithmeticSettings) :
    ShiftsExactly settings .date 0x7fffffff
      ∧ ShiftsExactly settings .dateTime 0x7fffffffffffffff
      ∧ TurnsExactly settings :=
  ⟨dates_shift_exactly settings, moments_shift_exactly settings, times_turn_exactly settings⟩

/-- A date before day 0, which a sum leads away from and nothing leads back to;
the least integer, taken from a moment so early that the difference would be
one, and from a time of the day. -/
theorem shifts_around_day_zero :
    ((Value.date (-5)).InRange ∧ (Value.int 12).InRange)
      ∧ BinaryOp.add.apply {} (.date (-5)) (.int 12) = .ok (.date 7)
      ∧ BinaryOp.sub.apply {} (.date 7) (.date (-5)) = .ok (.int 12)
      ∧ BinaryOp.sub.apply {} (.date 7) (.int 12) = .error .dateOverflow
      ∧ BinaryOp.sub.apply {} (.dateTime (-1)) (.int (-0x8000000000000000)) = .error .dateOverflow
      ∧ BinaryOp.sub.apply {} (.time 1439) (.int (-0x8000000000000000)) = .ok (.time 1087) := by
  obtain ⟨hdates, hmoments, htimes⟩ := shifts_are_exact {}
  have hday : (Value.date (-5)).InRange := rfl
  have hdays : (Value.int 12).InRange := rfl
  have hleast : (Value.int (-0x8000000000000000)).InRange := by
    show fits64 (-0x8000000000000000) = true
    decide
  have hsum : BinaryOp.add.apply {} (.date (-5)) (.int 12) = .ok (.date 7) := by
    rw [hdates.add]
    decide
  refine ⟨⟨hday, hdays⟩, hsum, hdates.difference _ _ _ hday hdays hsum,
    hdates.back _ _ _ hday hdays hsum, ?_, ?_⟩
  · rw [hmoments.sub _ _ hleast]
    decide
  · rw [htimes.sub]
    decide

end ReminderExpr
