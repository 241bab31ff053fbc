/-
ReminderExpr.Proofs.NamesOnBytes — names, cut and compared by their bytes.

What counts of a name is cut off at the byte where its thirteenth character
starts, and the case of letters is changed and compared byte by byte. A byte of
a character outside ASCII is at least 128, so that it is no letter and none is
changed inside of such a character (`Folds.map_bytes`). Then names are cut where
they can be, a name in upper case still is a text, and the order of bytes is that
of characters:

* `significant_eq`, `key_eq` — what counts of a name, and its key;
* `compareIgnoreCase_eq` — the order of spellings, case apart;
* `same_eq` — spellings of one name.
-/
import Mathlib
import ReminderExpr.Proofs.ByteOrder
import ReminderExpr.Proofs.Casing
import ReminderExpr.Proofs.StringsOnWords

namespace ReminderExpr.Words

open Text

/-! ## What counts -/

/-- What counts of a name: what stands before the byte at which the character
after it starts, if there is one. -/
def significant (name : String) : Checked String :=
  match (charOffsets 0 name.toList)[Name.significantLength]? with
  | some stop => do pure (String.ofList (← slice name.toList 0 stop))
  | none => pure name

theorem getElem?_charOffsets (offset n : Nat) (cs : List Char) :
    (charOffsets offset cs)[n]?
      = if n < cs.length then some (offset + byteLength (cs.take n)) else none := by
  induction cs generalizing offset n with
  | nil => rfl
  | cons c cs ih =>
    cases n with
    | zero => rfl
    | succ n =>
      rw [charOffsets, List.getElem?_cons_succ, ih, List.take_succ_cons, byteLength, Nat.add_assoc]
      simp only [List.length_cons, Nat.add_lt_add_iff_right]

theorem significant_eq (name : String) : significant name = pure (Name.significant name) := by
  rw [significant, getElem?_charOffsets, Name.significant]
  generalize Name.significantLength = count
  split_ifs with hlong
  · have hslice := slice_eq (Nat.zero_le count) (Nat.le_of_lt hlong)
    rw [List.take_zero, List.drop_zero] at hslice
    dsimp only
    rw [Nat.zero_add]
    exact congrArg (· >>= _) hslice
  · dsimp only
    rw [List.take_of_length_le (Nat.le_of_not_lt hlong), String.ofList_toList]

/-! ## Case, byte by byte -/

/-- A byte in lower case. -/
def lowerByte (b : UInt8) : UInt8 := if 65 ≤ b ∧ b ≤ 90 then b + 32 else b

/-- A byte in upper case. -/
def upperByte (b : UInt8) : UInt8 := if 97 ≤ b ∧ b ≤ 122 then b - 32 else b

/-- What is done to bytes does to characters in ASCII what is done to them, and to
no others. -/
structure Folds (onBytes : UInt8 → UInt8) (onChars : Char → Char) : Prop where
  ascii : ∀ c : Char, c.toNat < 128 →
    String.utf8EncodeChar (onChars c) = [onBytes (UInt8.ofNat c.toNat)]
  otherChars : ∀ c : Char, 128 ≤ c.toNat → onChars c = c
  otherBytes : ∀ b : UInt8, 128 ≤ b.toNat → onBytes b = b

/-- What holds of the first characters, one by one, holds of ASCII. -/
theorem forall_ascii {p : Char → Prop} (h : ∀ n < 128, p (Char.ofNat n)) (c : Char)
    (hc : c.toNat < 128) : p c :=
  Char.ofNat_toNat c ▸ h c.toNat hc

theorem folds_lower : Folds lowerByte Char.toLower where
  ascii := forall_ascii (by decide +kernel)
  otherChars c hc := by
    refine Char.toLower_eq_of_not_isUpper fun h => ?_
    have hbounds := Name.isUpper_iff.1 h
    omega
  otherBytes b hb := by
    rw [lowerByte, if_neg]
    simp only [UInt8.le_iff_toNat_le, UInt8.reduceToNat]
    omega

theorem folds_upper : Folds upperByte Char.toUpper where
  ascii := forall_ascii (by decide +kernel)
  otherChars c hc := by
    refine Char.toUpper_eq_of_not_isLower fun h => ?_
    simp only [Char.isLower, ge_iff_le, UInt32.le_iff_toNat_le, Bool.and_eq_true,
      decide_eq_true_eq] at h
    have hlast : c.toNat ≤ 122 := h.2
    omega
  otherBytes b hb := by
    rw [upperByte, if_neg]
    simp only [UInt8.le_iff_toNat_le, UInt8.reduceToNat]
    omega

/-- The bytes of a form whose mark is outside ASCII are outside ASCII. -/
theorem le_of_mem_byteForm {mark tails code : Nat} (hmark : 128 ≤ mark)
    (hfits : mark + code / 64 ^ tails < 256) {b : UInt8} (hb : b ∈ byteForm mark tails code) :
    128 ≤ b.toNat := by
  induction tails generalizing code with
  | zero =>
    rw [Nat.pow_zero, Nat.div_one] at hfits
    obtain rfl := List.mem_singleton.1 hb
    rw [toNat_ofNat_of_lt hfits]
    omega
  | succ tails ih =>
    rw [Nat.pow_succ', ← Nat.div_div_eq_div_mul] at hfits
    rcases List.mem_append.1 hb with hb | hb
    · exact ih hfits hb
    · obtain rfl := List.mem_singleton.1 hb
      rw [toNat_ofNat_of_lt (by omega)]
      omega

/-- No byte of a character outside ASCII is in ASCII. -/
theorem le_of_mem_utf8EncodeChar {c : Char} (hc : 128 ≤ c.toNat) {b : UInt8}
    (hb : b ∈ String.utf8EncodeChar c) : 128 ≤ b.toNat := by
  rw [utf8EncodeChar_eq] at hb
  have hmark : 128 ≤ (formOf c.toNat).1 := by
    unfold formOf
    split_ifs <;> dsimp only <;> omega
  have hfits : (formOf c.toNat).1 + c.toNat / 64 ^ (formOf c.toNat).2 < 256 := by
    have hlast := toNat_lt c
    unfold formOf
    split_ifs <;> dsimp only <;> omega
  exact le_of_mem_byteForm hmark hfits hb

section Folds

variable {onBytes : UInt8 → UInt8} {onChars : Char → Char}

theorem Folds.map_encode (h : Folds onBytes onChars) (c : Char) :
    (String.utf8EncodeChar c).map onBytes = String.utf8EncodeChar (onChars c) := by
  by_cases hc : c.toNat < 128
  · have hself : String.utf8EncodeChar c = [UInt8.ofNat c.toNat] := by
      rw [utf8EncodeChar_eq, formOf, if_pos (by omega), byteForm, Nat.zero_add]
    rw [hself, h.ascii c hc, List.map_singleton]
  · have hc : 128 ≤ c.toNat := Nat.le_of_not_lt hc
    rw [h.otherChars c hc]
    have hbytes : ∀ b ∈ String.utf8EncodeChar c, onBytes b = b := fun b hb =>
      h.otherBytes b (le_of_mem_utf8EncodeChar hc hb)
    exact (List.map_congr_left hbytes).trans (List.map_id' _)

/-- Doing it to the bytes of a text is doing it to its characters. -/
theorem Folds.map_bytes (h : Folds onBytes onChars) (s : String) :
    (bytes s).map onBytes = bytes (String.ofList (s.toList.map onChars)) := by
  rw [bytes_eq, bytes_eq, String.toList_ofList, List.map_flatMap, List.flatMap_map]
  exact congrArg (List.flatMap · s.toList) (funext h.map_encode)

end Folds

/-! ## Keys -/

/-- The text of some bytes. -/
def textOf (bs : List UInt8) : Checked String :=
  match String.fromUTF8? bs.toByteArray with
  | some s => pure s
  | none => impossible

/-- The key of a name: the bytes of what counts of it, in upper case. -/
def key (name : String) : Checked String := do
  textOf ((bytes (← significant name)).map upperByte)

theorem textOf_bytes (s : String) : textOf (bytes s) = pure s := by
  have hread : String.fromUTF8? s.toUTF8 = some s := by
    unfold String.fromUTF8?
    rw [String.toUTF8_eq_toByteArray, dif_pos s.isValidUTF8]
    rfl
  have hbytes : (bytes s).toByteArray = s.toUTF8 := by
    rw [bytes, ByteArray.ext_iff, List.data_toByteArray, Array.toArray_toList]
  rw [textOf, hbytes, hread]

/-- A name in upper case is a text, which is its key. -/
theorem key_eq (name : String) : key name = pure (Name.key name) := by
  rw [key, significant_eq, pure_bind, folds_upper.map_bytes, textOf_bytes, Name.key]

/-! ## Comparisons -/

/-- The order of two spellings: that of their bytes in lower case. -/
def compareIgnoreCase (a b : String) : Ordering :=
  compare ((bytes a).map lowerByte) ((bytes b).map lowerByte)

/-- Whether there are as many bytes on both sides, and the same, case apart. -/
def equalIgnoreCase (xs ys : List UInt8) : Bool :=
  xs.length == ys.length && (xs.zip ys).all fun (x, y) => lowerByte x == lowerByte y

/-- Whether what counts of two spellings has the same bytes, case apart. -/
def same (a b : String) : Checked Bool := do
  pure (equalIgnoreCase (bytes (← significant a)) (bytes (← significant b)))

theorem equalIgnoreCase_iff {xs ys : List UInt8} :
    equalIgnoreCase xs ys = true ↔ xs.map lowerByte = ys.map lowerByte := by
  induction xs generalizing ys with
  | nil => cases ys <;> simp [equalIgnoreCase]
  | cons x xs ih =>
    cases ys with
    | nil => simp [equalIgnoreCase]
    | cons y ys =>
      rw [List.map_cons, List.map_cons, List.cons.injEq, ← ih]
      simp only [equalIgnoreCase, List.length_cons, List.zip_cons_cons, List.all_cons,
        Bool.and_eq_true, beq_iff_eq, Nat.add_right_cancel_iff]
      tauto

section Order

variable {α β : Type} [Ord α] [LT α] [Std.LawfulLTCmp (compare : α → α → Ordering)]
  [Std.LawfulEqCmp (compare : α → α → Ordering)] [Ord β] [LT β]
  [Std.LawfulLTCmp (compare : β → β → Ordering)] [Std.LawfulEqCmp (compare : β → β → Ordering)]

/-- Lists compare as the order of lists has them. -/
theorem compare_lt_iff {xs ys : List α} : compare xs ys = .lt ↔ xs < ys := by
  induction xs generalizing ys with
  | nil => cases ys <;> simp
  | cons x xs ih =>
    cases ys with
    | nil => simp
    | cons y ys =>
      rw [List.compare_cons_cons, Ordering.then_eq_lt, ih, List.cons_lt_cons_iff,
        Std.LawfulLTCmp.eq_lt_iff_lt, Std.LawfulEqCmp.compare_eq_iff_eq]

/-- Lists of two kinds compare alike if they are ordered alike. -/
theorem compare_eq_compare {xs ys : List α} {us vs : List β} (h : xs < ys ↔ us < vs)
    (h' : ys < xs ↔ vs < us) : compare xs ys = compare us vs := by
  rw [← compare_lt_iff, ← compare_lt_iff] at h h'
  rw [← Std.OrientedCmp.gt_iff_lt, ← Std.OrientedCmp.gt_iff_lt] at h'
  cases hxs : compare xs ys <;> cases hus : compare us vs <;> simp_all

end Order

theorem compare_bytes (s t : String) : compare (bytes s) (bytes t) = compare s.toList t.toList :=
  compare_eq_compare (bytes_lt_iff.trans String.lt_iff_toList_lt)
    (bytes_lt_iff.trans String.lt_iff_toList_lt)

theorem map_lowerByte (s : String) :
    (bytes s).map lowerByte = bytes (String.ofList (Name.folded s)) :=
  folds_lower.map_bytes s

/-- Spellings are ordered by their bytes as by their characters. -/
theorem compareIgnoreCase_eq (a b : String) :
    compareIgnoreCase a b = Name.compareIgnoreCase a b := by
  rw [compareIgnoreCase, map_lowerByte, map_lowerByte, compare_bytes, String.toList_ofList,
    String.toList_ofList, Name.compareIgnoreCase]

theorem equalIgnoreCase_bytes (s t : String) :
    equalIgnoreCase (bytes s) (bytes t) = Name.equalIgnoreCase s t := by
  have heq : compareIgnoreCase s t = .eq
      ↔ (bytes s).map lowerByte = (bytes t).map lowerByte := by
    rw [compareIgnoreCase, Std.LawfulEqCmp.compare_eq_iff_eq]
  rw [Bool.eq_iff_iff, equalIgnoreCase_iff, ← heq, compareIgnoreCase_eq, Name.equalIgnoreCase,
    beq_iff_eq]

/-- Spellings are one name by their bytes as by their characters. -/
theorem same_eq (a b : String) : same a b = pure (Name.same a b) := by
  rw [same, significant_eq, significant_eq, pure_bind, pure_bind, equalIgnoreCase_bytes, Name.same]

end ReminderExpr.Words
