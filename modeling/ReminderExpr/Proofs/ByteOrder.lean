/-
ReminderExpr.Proofs.ByteOrder — texts compare by their bytes as by their
characters.

A character is kept as one to four bytes. The first byte carries a mark that
grows with their number, and the highest bits of the character's code; each
byte after it carries six more bits. So of two characters the one with the
greater code has a greater first byte, or the same number of bytes, of which
the first that differs is greater. It is never the end of one of them that
decides, so that what follows in a text has no part in it.

* `byteForm_append_lt`, `formOf_lt` — codes with the same number of bytes, and
  with different ones;
* `utf8EncodeChar_append_lt` — two characters, whatever follows them;
* `bytes_lt_iff`, `codes_lt_iff` — whole texts.
-/
import Mathlib.Data.String.Basic

namespace ReminderExpr.Text

/-- The bytes in which a text is kept. -/
def bytes (s : String) : List UInt8 := s.toUTF8.data.toList

/-- The codes of the characters of a text. -/
def codes (s : String) : List Nat := s.toList.map Char.toNat

theorem bytes_eq (s : String) : bytes s = s.toList.flatMap String.utf8EncodeChar := by
  have hbytes : s.toUTF8 = s.toList.utf8Encode := by
    rw [String.toUTF8_eq_toByteArray, ← String.toByteArray_ofList, String.ofList_toList]
  rw [bytes, hbytes, List.utf8Encode, List.data_toByteArray]

/-! ## The bytes of a character -/

/-- A code as bytes: six bits in each of the last ones, and what is left on top of the
mark of the first one. -/
def byteForm (mark : Nat) : (tails : Nat) → (code : Nat) → List UInt8
  | 0, code => [UInt8.ofNat (mark + code)]
  | tails + 1, code => byteForm mark tails (code / 64) ++ [UInt8.ofNat (128 + code % 64)]

/-- The mark of the first byte of a character, and how many bytes follow it. -/
def formOf (code : Nat) : Nat × Nat :=
  if code ≤ 0x7f then (0, 0)
  else if code ≤ 0x7ff then (192, 1)
  else if code ≤ 0xffff then (224, 2)
  else (240, 3)

theorem toNat_lt (c : Char) : c.toNat < 0x110000 := by
  have hvalid := c.valid
  simp only [UInt32.isValidChar, Nat.isValidChar] at hvalid
  show c.val.toNat < 0x110000
  omega

theorem toNat_ofNat_of_lt {n : Nat} (h : n < 256) : (UInt8.ofNat n).toNat = n := by
  rw [UInt8.toNat_ofNat']
  exact Nat.mod_eq_of_lt h

/-- Bytes compare as their numbers do. -/
theorem ofNat_lt_ofNat {m n : Nat} (h : m < n) (hn : n < 256) : UInt8.ofNat m < UInt8.ofNat n := by
  rw [UInt8.lt_iff_toNat_lt, toNat_ofNat_of_lt (by omega), toNat_ofNat_of_lt hn]
  exact h

/-- A character is kept in its form. -/
theorem utf8EncodeChar_eq (c : Char) :
    String.utf8EncodeChar c = byteForm (formOf c.toNat).1 (formOf c.toNat).2 c.toNat := by
  show _ = byteForm (formOf c.val.toNat).1 (formOf c.val.toNat).2 c.val.toNat
  have hlast : c.val.toNat < 0x110000 := toNat_lt c
  unfold String.utf8EncodeChar formOf
  generalize c.val.toNat = code at *
  dsimp only
  split_ifs
  all_goals
    simp only [byteForm, List.cons_append, List.nil_append, List.cons.injEq, and_true]
  · simp
  · refine ⟨congrArg _ ?_, congrArg _ ?_⟩ <;> omega
  · refine ⟨congrArg _ ?_, congrArg _ ?_, congrArg _ ?_⟩ <;> omega
  · refine ⟨congrArg _ ?_, congrArg _ ?_, congrArg _ ?_, congrArg _ ?_⟩ <;> omega

theorem byteForm_eq_cons (mark tails code : Nat) :
    ∃ rest, byteForm mark tails code = UInt8.ofNat (mark + code / 64 ^ tails) :: rest := by
  induction tails generalizing code with
  | zero => exact ⟨[], by simp [byteForm]⟩
  | succ tails ih =>
    obtain ⟨rest, hrest⟩ := ih (code / 64)
    refine ⟨rest ++ [UInt8.ofNat (128 + code % 64)], ?_⟩
    rw [byteForm, hrest, List.cons_append, Nat.div_div_eq_div_mul, Nat.pow_succ']

/-- In one form the greater of two codes has the greater bytes. -/
theorem byteForm_append_lt {mark tails code code' : Nat} (h : code < code')
    (hfits : mark + code' / 64 ^ tails < 256) (s t : List UInt8) :
    byteForm mark tails code ++ s < byteForm mark tails code' ++ t := by
  induction tails generalizing code code' s t with
  | zero =>
    rw [Nat.pow_zero, Nat.div_one] at hfits
    exact List.cons_lt_cons_iff.2 (.inl (ofNat_lt_ofNat (by omega) hfits))
  | succ tails ih =>
    rw [Nat.pow_succ', ← Nat.div_div_eq_div_mul] at hfits
    rw [byteForm, byteForm, List.append_assoc, List.append_assoc]
    by_cases hhigh : code / 64 < code' / 64
    · exact ih hhigh hfits _ _
    · -- The bits before the last six are the same, so that the last byte decides.
      have hsame : code / 64 = code' / 64 := by omega
      rw [hsame]
      exact List.append_left_lt (List.cons_lt_cons_iff.2 (.inl (ofNat_lt_ofNat (by omega) (by omega))))

/-- The bytes of a greater code have the same form, or start with a greater byte. -/
theorem formOf_lt {code code' : Nat} (h : code < code') (hlast : code' < 0x110000) :
    (formOf code').1 + code' / 64 ^ (formOf code').2 < 256
      ∧ (formOf code = formOf code'
        ∨ (formOf code).1 + code / 64 ^ (formOf code).2
          < (formOf code').1 + code' / 64 ^ (formOf code').2) := by
  unfold formOf
  split_ifs <;> simp <;> omega

/-- A greater character has greater bytes, whatever follows. -/
theorem utf8EncodeChar_append_lt {c d : Char} (h : c < d) (s t : List UInt8) :
    String.utf8EncodeChar c ++ s < String.utf8EncodeChar d ++ t := by
  have hcode : c.toNat < d.toNat := h
  obtain ⟨hfits, hform | hfirst⟩ := formOf_lt hcode (toNat_lt d)
  · rw [utf8EncodeChar_eq, utf8EncodeChar_eq, hform]
    exact byteForm_append_lt hcode hfits s t
  · obtain ⟨rest, hrest⟩ := byteForm_eq_cons (formOf c.toNat).1 (formOf c.toNat).2 c.toNat
    obtain ⟨rest', hrest'⟩ := byteForm_eq_cons (formOf d.toNat).1 (formOf d.toNat).2 d.toNat
    rw [utf8EncodeChar_eq, utf8EncodeChar_eq, hrest, hrest']
    exact List.cons_lt_cons_iff.2 (.inl (ofNat_lt_ofNat hfirst hfits))

/-! ## The bytes of a text -/

theorem flatMap_utf8EncodeChar_lt {cs ds : List Char} (h : cs < ds) :
    cs.flatMap String.utf8EncodeChar < ds.flatMap String.utf8EncodeChar := by
  induction cs generalizing ds with
  | nil =>
    cases ds with
    | nil => exact absurd h (List.lt_irrefl [])
    | cons d ds =>
      obtain ⟨rest, hrest⟩ := byteForm_eq_cons (formOf d.toNat).1 (formOf d.toNat).2 d.toNat
      rw [List.flatMap_cons, utf8EncodeChar_eq, hrest]
      exact List.nil_lt_cons _ _
  | cons c cs ih =>
    cases ds with
    | nil => exact absurd h (List.not_lt_nil _)
    | cons d ds =>
      rw [List.flatMap_cons, List.flatMap_cons]
      rcases List.cons_lt_cons_iff.1 h with hless | ⟨rfl, hless⟩
      · exact utf8EncodeChar_append_lt hless _ _
      · exact List.append_left_lt (ih hless)

/-- Texts compare by their bytes as they do by their characters. -/
theorem bytes_lt_iff {s t : String} : bytes s < bytes t ↔ s < t := by
  have hmono : ∀ {s t : String}, s < t → bytes s < bytes t := by
    intro s t h
    rw [bytes_eq, bytes_eq]
    exact flatMap_utf8EncodeChar_lt (String.lt_iff_toList_lt.1 h)
  refine ⟨fun h => ?_, hmono⟩
  rcases lt_trichotomy s t with hless | rfl | hmore
  · exact hless
  · exact absurd h (List.lt_irrefl _)
  · exact absurd h (List.lt_asymm (hmono hmore))

/-- Texts compare by the codes of their characters. -/
theorem codes_lt_iff {s t : String} : codes s < codes t ↔ s < t := by
  rw [String.lt_iff_toList_lt, codes, codes]
  generalize s.toList = cs
  generalize t.toList = ds
  induction cs generalizing ds with
  | nil => cases ds <;> simp
  | cons c cs ih =>
    cases ds with
    | nil => simp
    | cons d ds =>
      rw [List.map_cons, List.map_cons, List.cons_lt_cons_iff, List.cons_lt_cons_iff, ih,
        Char.toNat_inj]
      rfl

end ReminderExpr.Text
