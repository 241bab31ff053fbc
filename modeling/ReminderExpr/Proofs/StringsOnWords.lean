/-
ReminderExpr.Proofs.StringsOnWords — parts of texts, cut out by bytes.

Positions are turned into bytes before a text is cut, and back after one has
been searched. Every cut is between two characters and has its ends in order:

* `offsetOf_eq`, `occurrence?_eq`, `lastOffset?_eq` — the bytes at which texts are
  cut stand before some number of characters;
* `partFrom_eq`, `partBetween_eq`, `indexFrom_eq`, `directoryOf_eq` — so they can
  be cut there;
* `ordinal_eq` — ordinals, for integers of 64 bits.
-/
import ReminderExpr.Builtin.Apply
import ReminderExpr.Proofs.Occurrences
import ReminderExpr.Proofs.Words

namespace ReminderExpr.Words

open Strings

variable {cs : List Char}

/-! ## Positions -/

/-- The bytes at which the characters of a text start. -/
def charOffsets (offset : Nat) : List Char → List Nat
  | [] => []
  | c :: cs => offset :: charOffsets (offset + c.utf8Size) cs

/-- The byte at which a position starts; no text in memory is so long that it
would matter where numbers of 64 bits end. -/
def offsetOf (position : Int) (cs : List Char) : Nat :=
  ((charOffsets 0 cs)[(position - 1).toNat]?).getD (byteLength cs)

theorem getD_charOffsets (offset n : Nat) (cs : List Char) :
    ((charOffsets offset cs)[n]?).getD (offset + byteLength cs)
      = offset + byteLength (cs.take n) := by
  induction cs generalizing offset n with
  | nil => simp [charOffsets]
  | cons c cs ih =>
    cases n with
    | zero => rfl
    | succ n =>
      have hrest := ih (offset + c.utf8Size) n
      rw [Nat.add_assoc, Nat.add_assoc] at hrest
      exact hrest

/-- A position starts after the characters before it. -/
theorem offsetOf_eq (position : Int) (cs : List Char) :
    offsetOf position cs = byteLength (cs.take (before position cs)) := by
  have h := getD_charOffsets 0 (position - 1).toNat cs
  rw [Nat.zero_add, Nat.zero_add, List.take_eq_take_min] at h
  exact h

theorem before_le (position : Int) (cs : List Char) : before position cs ≤ cs.length :=
  Nat.min_le_right _ _

/-! ## Parts -/

/-- The characters from a position on. -/
def partFrom (start : Int) (cs : List Char) : Checked (List Char) :=
  slice cs (offsetOf start cs) (byteLength cs)

/-- The characters from one position to another, both included. -/
def partBetween (start stop : Int) (cs : List Char) : Checked (List Char) :=
  slice cs (offsetOf start cs) (max (offsetOf (stop + 1) cs) (offsetOf start cs))

theorem partFrom_eq (start : Int) (cs : List Char) :
    partFrom start cs = pure (charsFrom start cs) := by
  have h := slice_eq (before_le start cs) (Nat.le_refl cs.length)
  rwa [List.take_length, ← offsetOf_eq] at h

theorem max_byteLength (i j : Nat) (cs : List Char) :
    max (byteLength (cs.take i)) (byteLength (cs.take j)) = byteLength (cs.take (max i j)) := by
  rcases Nat.le_total i j with h | h
  · rw [Nat.max_eq_right h, Nat.max_eq_right (byteLength_mono h cs)]
  · rw [Nat.max_eq_left h, Nat.max_eq_left (byteLength_mono h cs)]

theorem partBetween_eq (start stop : Int) (cs : List Char) :
    partBetween start stop cs = pure (charsBetween start stop cs) := by
  rw [partBetween, offsetOf_eq, offsetOf_eq, max_byteLength,
    slice_eq (Nat.le_max_right _ _) (Nat.max_le.2 ⟨before_le _ _, before_le _ _⟩), charsBetween,
    List.drop_take, List.drop_take]
  have hlength : (cs.drop (before start cs)).length = cs.length - before start cs :=
    List.length_drop
  rw [List.take_eq_take_min, List.take_eq_take_min (i := stop.toNat - before start cs), hlength]
  congr 2
  unfold before
  omega

/-! ## Occurrences -/

/-- The byte at which a text first occurs in another. -/
def occurrence? (needle text : List Char) : Option Nat :=
  ((String.ofList text).toSlice.find? (String.ofList needle)).map fun found => found.offset.byteIdx

/-- The position of the first occurrence from a byte on; 0 if there is none. -/
def indexFrom (haystack needle : List Char) (start : Nat) : Checked Int := do
  match occurrence? needle (← slice haystack start (byteLength haystack)) with
  | none => pure 0
  | some found => do
      let passed ← slice haystack 0 (start + found)
      pure (passed.length + 1 : Nat)

theorem byteLength_toList (s : String) : byteLength s.toList = s.utf8ByteSize := by
  conv => rhs; rw [← String.ofList_toList (s := s), String.utf8ByteSize_ofList]
  generalize s.toList = cs
  induction cs with
  | nil => rfl
  | cons c cs ih =>
    rw [String.utf8Len_cons, ← ih, Nat.add_comm]
    rfl

/-- The characters before a position. -/
theorem take_passed {s : String.Slice} (p : s.Pos) :
    s.copy.toList.take (passed p) = (s.sliceTo p).copy.toList := by
  have h := congrArg String.toList p.splits.eq_append
  rw [String.toList_append] at h
  rw [h, passed_eq p.splits, List.take_left]

/-- A text first occurs after the characters that are passed over. -/
theorem occurrence?_eq (needle text : List Char) :
    occurrence? needle text
      = (firstOccurrence? needle text).map fun n => byteLength (text.take n) := by
  show Option.map _ _ = Option.map _ (Option.map passed _)
  rw [Option.map_map]
  refine Option.map_congr fun found _ => ?_
  have htake := take_passed found
  rw [String.copy_toSlice, String.toList_ofList] at htake
  rw [Function.comp_apply, htake, byteLength_toList, found.splits.offset_eq_rawEndPos]
  rfl

theorem byteLength_take_add (i j : Nat) (cs : List Char) :
    byteLength (cs.take i) + byteLength ((cs.drop i).take j) = byteLength (cs.take (i + j)) := by
  rw [List.take_add, byteLength_append]

theorem indexFrom_eq (haystack needle : List Char) (start : Int) :
    indexFrom haystack needle (offsetOf start haystack)
      = pure (Strings.indexFrom haystack needle start) := by
  rw [indexFrom, Strings.indexFrom, ← partFrom, partFrom_eq, pure_bind, occurrence?_eq]
  cases hfound : firstOccurrence? needle (charsFrom start haystack) with
  | none => rfl
  | some n =>
    have hn := (firstOccurrence?_eq_some_iff.1 hfound).1
    rw [charsFrom, List.length_drop] at hn
    have hstart := before_le start haystack
    have hslice : slice haystack 0 (byteLength (haystack.take (before start haystack + n)))
        = pure (haystack.take (before start haystack + n)) :=
      slice_eq (Nat.zero_le _) (by omega)
    dsimp only [Option.map_some]
    rw [offsetOf_eq, charsFrom, byteLength_take_add, hslice, pure_bind,
      List.length_take_of_le (by omega)]
    rfl

/-! ## Directories -/

/-- The byte at which a character last occurs. -/
def lastOffset? (c : Char) (offset : Nat) : List Char → Option Nat
  | [] => none
  | d :: cs =>
      (lastOffset? c (offset + d.utf8Size) cs).or (if d = c then some offset else none)

def directoryOf (fileName : String) : Checked String :=
  match lastOffset? '/' 0 fileName.toList with
  | none => pure "."
  | some slash => do pure (String.ofList (← slice fileName.toList 0 slash))

/-- A character last occurs after what is left when the text is taken off
up to it from its end. -/
theorem lastOffset?_eq (c : Char) (offset : Nat) (cs : List Char) :
    lastOffset? c offset cs = match cs.reverse.dropWhile (· != c) with
      | [] => none
      | _ :: passed => some (offset + byteLength passed.reverse) := by
  induction cs generalizing offset with
  | nil => rfl
  | cons d cs ih =>
    rw [lastOffset?, ih, List.reverse_cons, List.dropWhile_append]
    cases hrest : cs.reverse.dropWhile (· != c) with
    | nil =>
      by_cases hd : d = c
      · simp [hd, byteLength]
      · simp [hd]
    | cons slash passed =>
      simp [byteLength, Nat.add_assoc]

theorem directoryOf_eq (fileName : String) :
    directoryOf fileName = pure (Builtin.directoryOf fileName) := by
  rw [directoryOf, Builtin.directoryOf, lastOffset?_eq]
  have hsuffix := List.dropWhile_suffix (· != '/') (l := fileName.toList.reverse)
  cases hdrop : fileName.toList.reverse.dropWhile (· != '/') with
  | nil => rfl
  | cons slash passed =>
    rw [hdrop] at hsuffix
    obtain ⟨after, hafter⟩ := hsuffix
    have hname : fileName.toList = passed.reverse ++ (slash :: after.reverse) := by
      rw [← List.reverse_inj, ← hafter]
      simp
    have hend : passed.reverse.length ≤ fileName.toList.length := by
      rw [hname, List.length_append]
      exact Nat.le_add_right _ _
    have hslice := slice_eq (Nat.zero_le _) hend
    have htake : fileName.toList.take passed.reverse.length = passed.reverse := by
      rw [hname, List.take_left]
    rw [htake] at hslice
    dsimp only
    rw [Nat.zero_add]
    exact congrArg (· >>= _) hslice

/-! ## Ordinals -/

def ordinal (n : Int) : Checked String := do
  let tens ← whole64 (n.tmod 100).natAbs
  let ending :=
    if tens.tmod 10 = 1 ∧ tens ≠ 11 then "st"
    else if tens.tmod 10 = 2 ∧ tens ≠ 12 then "nd"
    else if tens.tmod 10 = 3 ∧ tens ≠ 13 then "rd"
    else "th"
  pure (Text.decimal n ++ ending)

theorem ordinal_eq (n : Int) : ordinal n = pure (Strings.ordinal n) := by
  have htens : (n.tmod 100).natAbs = n.natAbs % 100 := Int.natAbs_tmod n 100
  unfold ordinal Strings.ordinal
  rw [whole64_eq (by omega), pure_bind, htens]
  dsimp only
  rw [Int.tmod_eq_emod_of_nonneg (Int.natCast_nonneg _)]
  norm_cast

end ReminderExpr.Words
