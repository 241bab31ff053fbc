/-
ReminderExpr.Proofs.Substrings — parts of strings, by their positions.

Positions count characters from 1. `charsAt` picks the characters of a text
whose positions are wanted, one by one; the parts that functions cut out are
those whose positions lie in a range. A search looks for the first position at
which the part as long as the needle is the needle.

* `charsBetween_eq_charsAt`, `charsFrom_eq_charsAt` — cutting out, as a choice
  of positions;
* `charsBetween_append_charsFrom` — two parts that make up a text;
* `charsBetween_eq_needle_iff` — where a part is the needle;
* `indexFrom_isLeast`, `indexFrom_eq_zero` — what a search answers;
* `substrings_are_coherent` — the functions of expressions.
-/
import Mathlib.Order.Bounds.Basic
import Mathlib.Tactic.IntervalCases
import ReminderExpr.Builtin.Apply
import ReminderExpr.Proofs.Occurrences

namespace ReminderExpr

namespace Strings

variable {cs needle : List Char} {start stop : Int}

/-! ## Characters by their positions -/

/-- The characters of a text that starts at a position, at those wanted. -/
def charsAtFrom (wanted : Int → Prop) [DecidablePred wanted] : (first : Int) → List Char → List Char
  | _, [] => []
  | first, c :: cs =>
      if wanted first then c :: charsAtFrom wanted (first + 1) cs
      else charsAtFrom wanted (first + 1) cs

/-- The characters of a text at the positions wanted; positions count from 1. -/
def charsAt (wanted : Int → Prop) [DecidablePred wanted] (cs : List Char) : List Char :=
  charsAtFrom wanted 1 cs

/-- The characters in a range of positions stand next to one another. -/
theorem charsAtFrom_range (low high first : Int) (cs : List Char) :
    charsAtFrom (fun position => low ≤ position ∧ position ≤ high) first cs
      = (cs.take (high + 1 - first).toNat).drop (low - first).toNat := by
  induction cs generalizing first with
  | nil => simp [charsAtFrom]
  | cons c cs ih =>
    rw [charsAtFrom, ih]
    by_cases hhigh : first ≤ high
    · have htake : (high + 1 - first).toNat = (high + 1 - (first + 1)).toNat + 1 := by omega
      rw [htake, List.take_succ_cons]
      by_cases hlow : low ≤ first
      · have hdrop : (low - first).toNat = 0 := by omega
        have hdrop' : (low - (first + 1)).toNat = 0 := by omega
        rw [if_pos ⟨hlow, hhigh⟩, hdrop, hdrop', List.drop_zero, List.drop_zero]
      · have hdrop : (low - first).toNat = (low - (first + 1)).toNat + 1 := by omega
        rw [if_neg (fun h => hlow h.1), hdrop, List.drop_succ_cons]
    · have htake : (high + 1 - first).toNat = 0 := by omega
      have htake' : (high + 1 - (first + 1)).toNat = 0 := by omega
      rw [if_neg (fun h => hhigh h.2), htake, htake']
      simp

/-- The characters from a position on are all that follow the others. -/
theorem charsAtFrom_from (low first : Int) (cs : List Char) :
    charsAtFrom (fun position => low ≤ position) first cs = cs.drop (low - first).toNat := by
  induction cs generalizing first with
  | nil => simp [charsAtFrom]
  | cons c cs ih =>
    rw [charsAtFrom, ih]
    by_cases hlow : low ≤ first
    · have hdrop : (low - first).toNat = 0 := by omega
      have hdrop' : (low - (first + 1)).toNat = 0 := by omega
      rw [if_pos hlow, hdrop, hdrop', List.drop_zero, List.drop_zero]
    · have hdrop : (low - first).toNat = (low - (first + 1)).toNat + 1 := by omega
      rw [if_neg hlow, hdrop, List.drop_succ_cons]

/-! ## Parts -/

/-- A position beyond the end of a text leaves nothing of it, nor of its parts. -/
theorem drop_before {part : List Char} (h : part.length ≤ cs.length) :
    part.drop (before start cs) = part.drop (start - 1).toNat := by
  rw [List.drop_eq_drop_iff, before]
  omega

theorem charsFrom_eq (start : Int) (cs : List Char) :
    charsFrom start cs = cs.drop (start - 1).toNat :=
  drop_before (Nat.le_refl _)

theorem charsBetween_eq (start stop : Int) (cs : List Char) :
    charsBetween start stop cs = (cs.take stop.toNat).drop (start - 1).toNat :=
  drop_before (List.length_take_le' _ cs)

/-- A part of a text goes by the positions in it. -/
theorem charsBetween_eq_charsAt (start stop : Int) (cs : List Char) :
    charsBetween start stop cs
      = charsAt (fun p => max start 1 ≤ p ∧ p ≤ min stop cs.length) cs := by
  have htake : cs.take (min stop cs.length + 1 - 1).toNat = cs.take stop.toNat := by
    rw [List.take_eq_take_iff]
    omega
  have hdrop : (max start 1 - 1).toNat = (start - 1).toNat := by omega
  rw [charsAt, charsAtFrom_range, htake, hdrop, charsBetween_eq]

theorem charsFrom_eq_charsAt (start : Int) (cs : List Char) :
    charsFrom start cs = charsAt (fun p => max start 1 ≤ p) cs := by
  have hdrop : (max start 1 - 1).toNat = (start - 1).toNat := by omega
  rw [charsAt, charsAtFrom_from, hdrop, charsFrom_eq]

/-- A text is what stands up to a position, and what comes after it. The next
position may stop at a limit that lies beyond the text or beyond the position. -/
theorem charsBetween_append_charsFrom {limit : Int} (h : min stop cs.length < limit) :
    charsBetween 1 stop cs ++ charsFrom (min (stop + 1) limit) cs = cs := by
  have hrest : cs.drop (min (stop + 1) limit - 1).toNat = cs.drop stop.toNat := by
    rw [List.drop_eq_drop_iff]
    omega
  rw [charsBetween_eq, charsFrom_eq, hrest]
  exact List.take_append_drop _ cs

/-! ## Searches -/

/-- A part as long as a needle is the needle where the text goes on with it. -/
theorem charsBetween_eq_needle_iff (hstart : 1 ≤ start) :
    charsBetween start (start + needle.length - 1) cs = needle
      ↔ needle <+: cs.drop (start - 1).toNat := by
  have hstop : (start + needle.length - 1).toNat = (start - 1).toNat + needle.length := by omega
  rw [charsBetween_eq, hstop, List.drop_take, Nat.add_sub_cancel_left, List.prefix_iff_eq_take]
  exact eq_comm

/-- The positions at which a needle is found, from a position on; there is
one behind the end of the text, which an empty needle may be found at. -/
def occurrences (needle cs : List Char) (start : Int) : Set Int :=
  {p | max 1 (min start (cs.length + 1)) ≤ p
    ∧ charsBetween p (p + needle.length - 1) cs = needle}

/-- A needle is found where the text goes on with it. -/
theorem mem_occurrences_iff {p : Int} : p ∈ occurrences needle cs start ↔
    ∃ k : Nat, p = before start cs + k + 1 ∧ needle <+: (charsFrom start cs).drop k := by
  have hfirst : max 1 (min start (cs.length + 1)) = before start cs + 1 := by
    unfold before
    omega
  rw [occurrences, Set.mem_ofPred_eq, hfirst]
  constructor
  · rintro ⟨hp, hneedle⟩
    refine ⟨(p - (before start cs + 1)).toNat, by omega, ?_⟩
    rw [charsBetween_eq_needle_iff (by omega)] at hneedle
    rw [charsFrom, List.drop_drop]
    convert hneedle using 2
    omega
  · rintro ⟨k, rfl, hneedle⟩
    refine ⟨by omega, (charsBetween_eq_needle_iff (by omega)).2 ?_⟩
    rw [charsFrom, List.drop_drop] at hneedle
    convert hneedle using 2
    omega

/-- A search answers with the first position at which the needle is found. -/
theorem indexFrom_isLeast {passed : Nat}
    (h : firstOccurrence? needle (charsFrom start cs) = some passed) :
    IsLeast (occurrences needle cs start) (indexFrom cs needle start) := by
  obtain ⟨-, hhere, hbefore⟩ := firstOccurrence?_eq_some_iff.1 h
  have hindex : indexFrom cs needle start = before start cs + passed + 1 := by
    rw [indexFrom, h]
  rw [hindex]
  refine ⟨mem_occurrences_iff.2 ⟨passed, rfl, hhere⟩, fun p hp => ?_⟩
  obtain ⟨k, rfl, hneedle⟩ := mem_occurrences_iff.1 hp
  have hle : passed ≤ k := Nat.le_of_not_lt fun hlt => hbefore k hlt hneedle
  omega

/-- A needle that a search does not find is found nowhere. -/
theorem occurrences_eq_empty (h : firstOccurrence? needle (charsFrom start cs) = none) :
    occurrences needle cs start = ∅ := by
  refine Set.eq_empty_of_forall_notMem fun p hp => ?_
  obtain ⟨k, -, hneedle⟩ := mem_occurrences_iff.1 hp
  exact firstOccurrence?_eq_none_iff.1 h
    (hneedle.isInfix.trans (List.drop_suffix k _).isInfix)

/-- A search answers 0 if and only if the needle is found nowhere, and else
with the first position at which it is. -/
theorem indexFrom_spec (needle cs : List Char) (start : Int) :
    (indexFrom cs needle start = 0 ↔ occurrences needle cs start = ∅)
      ∧ ((occurrences needle cs start).Nonempty →
        IsLeast (occurrences needle cs start) (indexFrom cs needle start)) := by
  cases h : firstOccurrence? needle (charsFrom start cs) with
  | none =>
    have hempty := occurrences_eq_empty h
    have hindex : indexFrom cs needle start = 0 := by rw [indexFrom, h]
    simp [hempty, hindex]
  | some passed =>
    have hleast := indexFrom_isLeast h
    have hne : indexFrom cs needle start ≠ 0 := by
      rw [indexFrom, h]
      dsimp only
      omega
    exact ⟨iff_of_false hne (Set.Nonempty.ne_empty ⟨_, hleast.1⟩), fun _ => hleast⟩

end Strings

namespace Builtin

open Strings

variable (environment : Environment) (functions : UserFunctions) (s n : String)

theorem apply_substr_between (a b : Int) :
    substr.apply environment functions [.str s, .int a, .int b]
      = .ok (.str (String.ofList (charsBetween a b s.toList))) := rfl

theorem apply_substr_from (a : Int) : substr.apply environment functions [.str s, .int a]
    = .ok (.str (String.ofList (charsFrom a s.toList))) := rfl

theorem apply_index_from (a : Int) : index.apply environment functions [.str s, .str n, .int a]
    = .ok (.int (indexFrom s.toList n.toList a)) := rfl

/-- Where a part is the needle, the needle is found. -/
theorem substr_eq_needle_iff (p : Int) :
    substr.apply environment functions [.str s, .int p, .int (p + n.length - 1)] = .ok (.str n)
      ↔ charsBetween p (p + n.toList.length - 1) s.toList = n.toList := by
  rw [apply_substr_between, String.length_toList]
  simp only [Except.ok.injEq, Value.str.injEq]
  rw [← String.toList_inj, String.toList_ofList]

end Builtin

open Strings

/-- Parts of strings, and what is found in strings, go by the same positions.

A part consists of the characters whose positions lie in its range, cut to the
string. The parts up to a position and from the next one make up the string;
the next position is the greatest integer at most, which no string is long
enough to reach. A needle is searched for from a position on, cut to those in
the string and the one behind its end: the answer is the first position at
which the part as long as the needle is the needle, and 0 if there is none.
Without a position the search starts from the first. -/
theorem substrings_are_coherent (environment : Environment) (functions : UserFunctions)
    (s n : String) :
    let call := Builtin.apply environment functions
    let part := fun a b : Int => call .substr [.str s, .int a, .int b]
    let rest := fun a : Int => call .substr [.str s, .int a]
    let found := fun a : Int => call .index [.str s, .str n, .int a]
    let places := fun a : Int => {p : Int | max 1 (min a (s.length + 1)) ≤ p
      ∧ part p (p + n.length - 1) = .ok (.str n)}
    (call .strlen [.str s] = .ok (.int s.length) ∧ call .strlen [.str n] = .ok (.int n.length))
      ∧ (∀ a b, part a b = .ok (.str (String.ofList
          (charsAt (fun p => max a 1 ≤ p ∧ p ≤ min b s.length) s.toList))))
      ∧ (∀ a, rest a = .ok (.str (String.ofList (charsAt (fun p => max a 1 ≤ p) s.toList))))
      ∧ (∀ k : Int, min k s.length < 0x7fffffffffffffff → ∃ front back,
          part 1 k = .ok (.str front) ∧ rest (min (k + 1) 0x7fffffffffffffff) = .ok (.str back)
            ∧ front ++ back = s)
      ∧ (∀ a, ∃ r, found a = .ok (.int r) ∧ (r = 0 ↔ places a = ∅)
          ∧ ((places a).Nonempty → IsLeast (places a) r))
      ∧ call .index [.str s, .str n] = found 1 := by
  intro call part rest found places
  have hplaces : ∀ a, places a = occurrences n.toList s.toList a := by
    intro a
    ext p
    have hneedle := Builtin.substr_eq_needle_iff environment functions s n p
    simp only [places, part, call, occurrences, Set.mem_ofPred_eq, hneedle, String.length_toList]
  refine ⟨⟨rfl, rfl⟩, fun a b => ?_, fun a => ?_, fun k hk => ?_, fun a => ?_, rfl⟩
  · rw [← String.length_toList, ← charsBetween_eq_charsAt]
    rfl
  · rw [← charsFrom_eq_charsAt]
    rfl
  · rw [← String.length_toList] at hk
    refine ⟨_, _, rfl, rfl, ?_⟩
    rw [← String.ofList_append, charsBetween_append_charsFrom hk, String.ofList_toList]
  · rw [hplaces]
    exact ⟨_, rfl, indexFrom_spec n.toList s.toList a⟩

/-- Cuts of a text with characters of several bytes, at the least and at the
greatest integer and within, and a search in it. -/
theorem substrings_of_wide_characters :
    let s := "añ→añ"
    let call := Builtin.apply {} {}
    let part := fun a b : Int => call .substr [.str s, .int a, .int b]
    let splits := fun k : Int => ∃ front back, part 1 k = .ok (.str front)
      ∧ call .substr [.str s, .int (min (k + 1) 0x7fffffffffffffff)] = .ok (.str back)
      ∧ front ++ back = s
    (∀ k : Int, min k s.length < 0x7fffffffffffffff)
      ∧ (splits (-0x8000000000000000) ∧ splits 2 ∧ splits 0x7fffffffffffffff)
      ∧ (part 2 3 = .ok (.str "ñ→") ∧ part 5 2 = .ok (.str ""))
      ∧ call .index [.str s, .str "añ", .int 2] = .ok (.int 4) := by
  intro s call part splits
  obtain ⟨-, -, -, hsplits, hfound, -⟩ := substrings_are_coherent {} {} s "añ"
  obtain ⟨r, hr, -, hleast⟩ := hfound 2
  obtain ⟨⟨hfrom, hthere⟩, hfirst⟩ := hleast ⟨4, by decide, by decide⟩
  have hshort : ∀ k : Int, min k s.length < 0x7fffffffffffffff := by
    intro k
    have hlength : (s.length : Int) = 5 := by decide
    omega
  have hto : r ≤ 4 := hfirst ⟨by decide, by decide⟩
  have hr4 : r = 4 := by
    have hfrom' : 2 ≤ r := le_trans (by decide) hfrom
    interval_cases r
    · exact absurd hthere (by decide)
    · exact absurd hthere (by decide)
    · rfl
  exact ⟨hshort, ⟨hsplits _ (hshort _), hsplits _ (hshort _), hsplits _ (hshort _)⟩, by decide,
    hr4 ▸ hr⟩

end ReminderExpr
