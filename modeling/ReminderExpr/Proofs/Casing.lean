/-
ReminderExpr.Proofs.Casing — spellings that differ in case alone.

An ASCII letter is one letter as a capital and in its small form; every other
character is the same as itself only (`SameLetter`). Two spellings have the same
lower-case letters exactly if they are the same letters, place by place
(`Recased`), so that this is what every comparison of names goes by.

* `toLower_eq_iff`, `folded_eq_iff` — what lower case forgets;
* `compare_eq_iff_recased`, `same_iff_recased` — spellings that compare as equal,
  and spellings of one name;
* `Recased.getElem?_eq` — characters outside ASCII keep their places.
-/
import Mathlib
import ReminderExpr.Name

namespace ReminderExpr.Name

variable {a b : String} {c d : Char}

/-! ## Letters -/

/-- A character and itself, or the capital and the small form of an ASCII letter,
whose codes are 32 apart. -/
def SameLetter (c d : Char) : Prop :=
  c = d ∨ (c.isUpper = true ∧ d.toNat = c.toNat + 32) ∨ (d.isUpper = true ∧ c.toNat = d.toNat + 32)

instance (c d : Char) : Decidable (SameLetter c d) :=
  inferInstanceAs (Decidable (_ ∨ (_ ∧ _) ∨ (_ ∧ _)))

theorem isUpper_iff : c.isUpper = true ↔ 65 ≤ c.toNat ∧ c.toNat ≤ 90 := by
  simp only [Char.isUpper, decide_eq_true_eq, ge_iff_le, UInt32.le_iff_toNat_le]
  rfl

theorem toNat_toLower (c : Char) :
    c.toLower.toNat = if c.isUpper = true then c.toNat + 32 else c.toNat := by
  split
  · rename_i h
    have hbounds := isUpper_iff.1 h
    rw [Char.toLower_eq_of_isUpper h, Char.toNat_ofNat, if_pos]
    exact .inl (by omega)
  · rename_i h
    rw [Char.toLower_eq_of_not_isUpper h]

/-- Characters have one lower case exactly if they are the same letter. -/
theorem toLower_eq_iff : c.toLower = d.toLower ↔ SameLetter c d := by
  rw [← Char.toNat_inj, toNat_toLower, toNat_toLower, SameLetter, ← Char.toNat_inj]
  simp only [isUpper_iff]
  split_ifs <;> omega

/-- A character outside ASCII is the same as itself only. -/
theorem SameLetter.eq_of_not_ascii (h : SameLetter c d) (hc : 128 ≤ c.toNat) : c = d := by
  simp only [SameLetter, isUpper_iff] at h
  rcases h with rfl | h | h
  · rfl
  · omega
  · omega

/-! ## Spellings -/

/-- Spellings with the same letters, place by place. -/
def Recased (a b : String) : Prop := List.Forall₂ SameLetter a.toList b.toList

instance (a b : String) : Decidable (Recased a b) :=
  inferInstanceAs (Decidable (List.Forall₂ _ _ _))

theorem folded_eq_iff : folded a = folded b ↔ Recased a b := by
  rw [folded, folded, ← List.forall₂_eq_eq_eq, List.forall₂_map_left_iff, List.forall₂_map_right_iff]
  exact ⟨List.Forall₂.imp fun _ _ => toLower_eq_iff.1, List.Forall₂.imp fun _ _ => toLower_eq_iff.2⟩

theorem equalIgnoreCase_iff_recased : equalIgnoreCase a b = true ↔ Recased a b :=
  equalIgnoreCase_iff.trans folded_eq_iff

/-- Spellings compare as equal exactly if they differ in case alone. -/
theorem compare_eq_iff_recased : compareIgnoreCase a b = .eq ↔ Recased a b := by
  rw [← equalIgnoreCase_iff_recased, equalIgnoreCase, beq_iff_eq]

/-- Spellings are one name exactly if what counts of them differs in case alone. -/
theorem same_iff_recased : same a b = true ↔ Recased (significant a) (significant b) :=
  equalIgnoreCase_iff_recased

/-- A character outside ASCII keeps its place in every casing. -/
theorem Recased.getElem?_eq (h : Recased a b) {i : Nat} (hi : a.toList[i]? = some c)
    (hc : 128 ≤ c.toNat) : b.toList[i]? = some c := by
  obtain ⟨hlength, hletters⟩ := List.forall₂_iff_get.1 h
  obtain ⟨hlt, rfl⟩ := List.getElem?_eq_some_iff.1 hi
  have hsame := hletters i hlt (hlength ▸ hlt)
  exact List.getElem?_eq_some_iff.2 ⟨hlength ▸ hlt, (hsame.eq_of_not_ascii hc).symm⟩

end ReminderExpr.Name
