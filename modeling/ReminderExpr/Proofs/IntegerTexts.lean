/-
ReminderExpr.Proofs.IntegerTexts — which strings are integers.

A string is coerced to an integer if it consists of digits, of which there may
be none, with or without a minus sign before them. What they denote is counted
without the sign, in 127 bits, and checked with it, in 64: so a number that the
counter gives up on has too many bits either way, and the least integer, whose
opposite has 64 bits no more, is read like all others.

* `SpellsInt` — the grammar, with the integer that a text denotes;
* `readInt?_of_readMinus`, `readInt?_eq_some_iff_spells` — what the reader makes
  of the digits, and of a text;
* `spellsInt_decimal` — integers are written in this grammar;
* `coerce_int_eq_ok_iff_spells`, `failsWith_coerce_str` — strings that are
  coerced, and how they fail;
* `integers_convert_exactly` — both directions of the coercion.
-/
import ReminderExpr.Proofs.WrittenForms

namespace ReminderExpr

open Text

/-- A text of digits, with or without a minus sign, and the integer that it
denotes; no digits denote zero. -/
inductive SpellsInt : List Char → Int → Prop
  | plain {digits : List Char} (all : ∀ c ∈ digits, c.isDigit = true) :
      SpellsInt digits (digitsValue digits)
  | minus {digits : List Char} (all : ∀ c ∈ digits, c.isDigit = true) :
      SpellsInt ('-' :: digits) (-digitsValue digits)

variable {text digits : List Char} {negative : Bool} {n : Int} {separators : Separators}
  {word : String}

/-! ## Reading -/

theorem readMinus_of_ne (h : ∀ rest, text ≠ '-' :: rest) : readMinus text = (false, text) := by
  unfold readMinus
  split
  · rename_i rest
    exact absurd rfl (h rest)
  · rfl

/-- What follows the sign is read if it consists of digits, and if the number
has 64 bits with its sign. -/
theorem readInt?_of_readMinus (h : readMinus text = (negative, digits)) :
    readInt? text = some n ↔
      (∀ c ∈ digits, c.isDigit = true)
        ∧ n = (if negative then -(digitsValue digits : Int) else digitsValue digits)
        ∧ fits64 n = true := by
  unfold readInt?
  rw [h]
  dsimp only
  by_cases hall : digits.all Char.isDigit = true
  · rw [if_pos hall, checkedValue?_eq, and_iff_right (List.all_eq_true.1 hall)]
    generalize digitsValue digits = magnitude
    by_cases hle : magnitude ≤ magnitudeCeiling
    · rw [if_pos hle]
      dsimp only
      generalize (if negative then -(magnitude : Int) else magnitude) = signed
      by_cases hfits : fits64 signed = true
      · rw [if_pos hfits, Option.some.injEq]
        exact ⟨fun heq => ⟨heq.symm, heq ▸ hfits⟩, fun heq => heq.1.symm⟩
      · rw [if_neg hfits]
        exact ⟨nofun, fun heq => absurd (heq.1 ▸ heq.2) hfits⟩
    · rw [if_neg hle]
      refine ⟨nofun, fun ⟨heq, hfits⟩ => absurd hfits ?_⟩
      -- The counter gives up far above the numbers of 64 bits.
      have hbeyond : 0x8000000000000000 < magnitude :=
        Nat.lt_trans (by decide) (Nat.lt_of_not_le hle)
      rw [fits64_iff]
      split at heq <;> omega
  · rw [if_neg hall]
    exact ⟨nofun, fun h => absurd (List.all_eq_true.2 h.1) hall⟩

/-- A text is read if it spells an integer of 64 bits, and as this integer. -/
theorem readInt?_eq_some_iff_spells :
    readInt? text = some n ↔ SpellsInt text n ∧ fits64 n = true := by
  by_cases hminus : ∃ rest, text = '-' :: rest
  · obtain ⟨rest, rfl⟩ := hminus
    rw [readInt?_of_readMinus (rfl : readMinus ('-' :: rest) = (true, rest)), if_pos rfl]
    constructor
    · rintro ⟨hall, rfl, hfits⟩
      exact ⟨.minus hall, hfits⟩
    · rintro ⟨hspells, hfits⟩
      cases hspells with
      | plain hall => cases hall '-' List.mem_cons_self
      | minus hall => exact ⟨hall, rfl, hfits⟩
  · rw [not_exists] at hminus
    rw [readInt?_of_readMinus (readMinus_of_ne hminus), if_neg Bool.false_ne_true]
    constructor
    · rintro ⟨hall, rfl, hfits⟩
      exact ⟨.plain hall, hfits⟩
    · rintro ⟨hspells, hfits⟩
      cases hspells with
      | plain hall => exact ⟨hall, rfl, hfits⟩
      | minus hall => exact absurd rfl (hminus _)

/-! ## Writing -/

/-- An integer that is a whole text is spelled by it. -/
theorem Signed.spellsInt (h : Signed text n []) : SpellsInt text n := by
  cases h with
  | plain h =>
    cases h with
    | run _ all _ =>
      rw [List.append_nil]
      exact .plain all
  | minus h =>
    cases h with
    | run _ all _ =>
      rw [List.append_nil]
      exact .minus all

theorem spellsInt_decimal (n : Int) : SpellsInt (decimal n).toList n := by
  have hwritten : Signed ((padded 0 n).toList ++ []) n [] := signed_padded 0 n nofun
  rw [List.append_nil] at hwritten
  exact hwritten.spellsInt

/-! ## Coercing -/

theorem coerce_int_eq_ok_iff {v : Value} :
    (Value.str word).coerce separators .int = .ok v ↔
      ∃ n, readInt? word.toList = some n ∧ v = .int n := by
  show (Value.str word).toInt = .ok v ↔ _
  unfold Value.toInt
  dsimp only
  cases readInt? word.toList with
  | none => exact ⟨nofun, by rintro ⟨_, ⟨⟩, -⟩⟩
  | some n => exact ⟨by rintro ⟨⟩; exact ⟨n, rfl, rfl⟩, by rintro ⟨_, ⟨⟩, rfl⟩; rfl⟩

/-- A string that cannot be coerced fails alike for all kinds. -/
theorem failsWith_coerce_str (separators : Separators) (kind : ValueKind) (text : String) :
    FailsWith .cantCoerce ((Value.str text).coerce separators kind) := by
  cases kind with
  | str => exact failsWith_ok _
  | int | date | time | dateTime =>
    simp only [Value.coerce, Value.toInt, Value.toDate, Value.toTime, Value.toDateTime]
    split
    · exact failsWith_ok _
    · exact failsWith_error

/-- A string is an integer if it spells one of 64 bits. -/
theorem coerce_int_eq_ok_iff_spells {v : Value} :
    (Value.str word).coerce separators .int = .ok v ↔
      ∃ n, SpellsInt word.toList n ∧ (Value.int n).InRange ∧ v = .int n := by
  rw [coerce_int_eq_ok_iff]
  simp only [readInt?_eq_some_iff_spells, and_assoc]
  rfl

/-- Coercions between integers and strings are exact, whatever the separators.

An integer of 64 bits made a string, and made an integer again, is that integer.
A string is an integer exactly if it consists of digits, with or without a minus
sign before them, and denotes one of 64 bits, which it then is; every other
string cannot be coerced. -/
theorem integers_convert_exactly (writing reading : Separators) :
    (∀ n, (Value.int n).InRange →
        (do (← (Value.int n).coerce writing .str).coerce reading .int) = .ok (.int n))
      ∧ ∀ s : String,
        (∀ v, (Value.str s).coerce reading .int = .ok v ↔
            ∃ n, SpellsInt s.toList n ∧ (Value.int n).InRange ∧ v = .int n)
          ∧ ∀ e, (Value.str s).coerce reading .int = .error e ↔
              e = .cantCoerce ∧ ∀ n, SpellsInt s.toList n → ¬ (Value.int n).InRange := by
  refine ⟨fun n hn => ?_, fun s => ⟨fun v => coerce_int_eq_ok_iff_spells, fun e => ?_⟩⟩
  · show (Value.str (decimal n)).coerce reading .int = .ok (.int n)
    exact coerce_int_eq_ok_iff_spells.2 ⟨n, spellsInt_decimal n, hn, rfl⟩
  · rw [(failsWith_coerce_str reading .int s).eq_error_iff]
    refine and_congr_right fun _ => ?_
    constructor
    · intro hnone n hspells hfits
      exact hnone _ (coerce_int_eq_ok_iff_spells.2 ⟨n, hspells, hfits, rfl⟩)
    · intro hnone v hv
      obtain ⟨n, hspells, hfits, -⟩ := coerce_int_eq_ok_iff_spells.1 hv
      exact hnone n hspells hfits

/-- The least integer there and back; a sign without digits, and the least
integer with zeros before it; and the same number without a sign, which is one
too many. -/
theorem least_integer_and_zeros :
    (Value.int (-0x8000000000000000)).InRange
      ∧ (Value.int (-0x8000000000000000)).written {} = "-9223372036854775808"
      ∧ (do (← (Value.int (-0x8000000000000000)).coerce {} .str).coerce {} .int)
          = .ok (.int (-0x8000000000000000))
      ∧ (Value.str "-").coerce {} .int = .ok (.int 0)
      ∧ SpellsInt "-0000000000000000000000000000000009223372036854775808".toList
          (-0x8000000000000000)
      ∧ ∀ n, SpellsInt "9223372036854775808".toList n → ¬ (Value.int n).InRange := by
  have hleast : (Value.int (-0x8000000000000000)).InRange := by
    show fits64 (-0x8000000000000000) = true
    decide
  obtain ⟨hthere, hstrings⟩ := integers_convert_exactly {} {}
  refine ⟨hleast, by decide +kernel, hthere _ hleast, ?_, ?_, ?_⟩
  · exact ((hstrings "-").1 _).2 ⟨0, .minus nofun, rfl, rfl⟩
  · obtain ⟨n, hspells, -, heq⟩ := ((hstrings _).1 (.int (-0x8000000000000000))).1
      (by decide +kernel : (Value.str "-0000000000000000000000000000000009223372036854775808").coerce
        {} .int = .ok (.int (-0x8000000000000000)))
    rwa [Value.int.inj heq]
  · exact (((hstrings "9223372036854775808").2 .cantCoerce).1 (by decide +kernel)).2

end ReminderExpr
