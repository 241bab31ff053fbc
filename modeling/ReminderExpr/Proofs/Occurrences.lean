/-
ReminderExpr.Proofs.Occurrences — what a search in a text finds.

Positions of a string are counted in bytes, and a search gives the first one at
which the string goes on with another. Counted in characters these positions
are the numbers up to the length of the text, in the same order; so the first
one is where the text goes on with the other, and before which it does not.

* `passed_lt_passed`, `exists_passed` — positions, by the characters before them;
* `find?_eq_some_iff` — the position that a search gives;
* `firstOccurrence?_eq_some_iff`, `firstOccurrence?_eq_none_iff` — the same of
  characters.
-/
import Mathlib.Data.String.Basic
import ReminderExpr.Builtin.Strings

namespace ReminderExpr.Strings

open String.Slice.Pattern.Model

variable {s : String.Slice} {p q : s.Pos} {word : String} {needle text : List Char} {n : Nat}

/-! ## Positions -/

/-- How many characters stand before a position. -/
def passed (p : s.Pos) : Nat := (s.sliceTo p).copy.length

theorem passed_eq {before after : String} (h : p.Splits before after) :
    passed p = before.toList.length := by
  rw [passed, p.splits.eq_left h, String.length_toList]

theorem passed_le (p : s.Pos) : passed p ≤ s.copy.toList.length := by
  rw [p.splits.eq_append, String.toList_append, List.length_append, passed_eq p.splits]
  exact Nat.le_add_right _ _

/-- As many characters as there are stand before some position. -/
theorem exists_passed (h : n ≤ s.copy.toList.length) : ∃ p : s.Pos, passed p = n := by
  have hsplit : s.copy
      = String.ofList (s.copy.toList.take n) ++ String.ofList (s.copy.toList.drop n) := by
    rw [← String.ofList_append, List.take_append_drop, String.ofList_toList]
  refine ⟨.ofEqAppend hsplit, ?_⟩
  rw [passed_eq (String.Slice.Pos.splits_ofEqAppend hsplit), String.toList_ofList,
    List.length_take_of_le h]

theorem passed_mono (h : q ≤ p) : passed q ≤ passed p := by
  obtain ⟨between, hleft, -⟩ := (q.splits.le_iff_exists_eq_append p.splits).1 h
  rw [passed, passed, hleft, String.length_append]
  exact Nat.le_add_right _ _

theorem passed_lt_passed : passed q < passed p ↔ q < p := by
  constructor
  · intro h
    exact Std.not_le.1 fun hle => Nat.not_le.2 h (passed_mono hle)
  · intro h
    obtain ⟨between, hne, hleft, -⟩ := (q.splits.lt_iff_exists_eq_append p.splits).1 h
    have hsome : between.length ≠ 0 := fun hnone => hne (String.length_eq_zero_iff.1 hnone)
    rw [passed, passed, hleft, String.length_append]
    omega

/-- The characters after a position. -/
theorem toList_sliceFrom (p : s.Pos) :
    (s.sliceFrom p).copy.toList = s.copy.toList.drop (passed p) := by
  rw [passed_eq p.splits]
  conv => rhs; rw [p.splits.eq_append]
  rw [String.toList_append, List.drop_left]

/-- Where a string goes on with a word, its characters do. -/
theorem exists_splits_iff (p : s.Pos) : (∃ before after, p.Splits before (word ++ after)) ↔
    word.toList <+: s.copy.toList.drop (passed p) := by
  rw [← toList_sliceFrom]
  constructor
  · rintro ⟨before, after, h⟩
    rw [p.splits.eq_right h, String.toList_append]
    exact List.prefix_append _ _
  · rintro ⟨rest, h⟩
    refine ⟨_, String.ofList rest, p.splits.of_eq rfl ?_⟩
    rw [← String.toList_inj, String.toList_append, String.toList_ofList, h]

/-! ## Searches -/

/-- The empty word is found where a string starts. -/
theorem find?_empty (s : String.Slice) : s.find? "" = some s.startPos := by
  rw [String.Slice.find?, ← Std.Iter.findSome?_toList, ForwardStringSearcher.toSearcher_empty,
    ForwardSliceSearcher.toList_emptyBefore_eq]
  split <;> rfl

/-- A search gives the first position at which a string goes on with a word. -/
theorem find?_eq_some_iff : s.find? word = some p ↔
    word.toList <+: s.copy.toList.drop (passed p)
      ∧ ∀ q < p, ¬ word.toList <+: s.copy.toList.drop (passed q) := by
  by_cases hword : word = ""
  · subst hword
    rw [find?_empty, Option.some.injEq]
    constructor
    · rintro rfl
      exact ⟨List.nil_prefix, fun q hq => absurd hq String.Slice.Pos.not_lt_startPos⟩
    · rintro ⟨-, hbefore⟩
      by_contra hne
      exact hbefore s.startPos (Std.lt_of_le_of_ne p.startPos_le hne) List.nil_prefix
  · have hstrict := ForwardStringSearcher.strictPatternModel hword
    have hlawful := ForwardStringSearcher.lawfulToForwardSearcherModel hword
    rw [String.Slice.Pattern.Model.find?_eq_some_iff]
    simp only [ForwardStringSearcher.matchesAt_iff_splits, exists_splits_iff]

/-- The first occurrence of a text is where another goes on with it, and before
which it does not. -/
theorem firstOccurrence?_eq_some_iff : firstOccurrence? needle text = some n ↔
    n ≤ text.length ∧ needle <+: text.drop n ∧ ∀ k < n, ¬ needle <+: text.drop k := by
  have hcopy : (String.ofList text).toSlice.copy.toList = text := by
    rw [String.copy_toSlice, String.toList_ofList]
  show Option.map passed _ = some n ↔ _
  rw [Option.map_eq_some_iff]
  simp only [find?_eq_some_iff, hcopy, String.toList_ofList]
  constructor
  · rintro ⟨found, ⟨hhere, hbefore⟩, rfl⟩
    have hfound := hcopy ▸ passed_le found
    refine ⟨hfound, hhere, fun k hk => ?_⟩
    obtain ⟨q, rfl⟩ := exists_passed (hcopy.symm ▸ hk.le.trans hfound)
    exact hbefore q (passed_lt_passed.1 hk)
  · rintro ⟨hn, hhere, hbefore⟩
    obtain ⟨found, rfl⟩ := exists_passed (hcopy.symm ▸ hn)
    exact ⟨found, ⟨hhere, fun q hq => hbefore _ (passed_lt_passed.2 hq)⟩, rfl⟩

/-- A text has no occurrence in another if it is no part of it. -/
theorem firstOccurrence?_eq_none_iff :
    firstOccurrence? needle text = none ↔ ¬ needle <:+: text := by
  show Option.map passed _ = none ↔ _
  rw [Option.map_eq_none_iff, String.Slice.find?_eq_none_iff,
    String.Slice.contains_string_eq_false_iff, String.copy_toSlice, String.toList_ofList,
    String.toList_ofList]

end ReminderExpr.Strings
