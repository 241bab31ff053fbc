/-
ReminderExpr.Proofs.NameClasses — the names that spellings stand for.

Stores file a name under its upper-case key, locals compare two spellings
directly, and listings order them by their lower-case letters. All three see
the same names: two spellings have one key, or are equal where they are
compared, exactly when they stand for one name (`NameClass`).

* `key_eq_iff` — keys and comparisons agree;
* `NameClass`, `classOf_eq_iff` — names, apart from how they are spelled;
* `isValid_significant`, `compare_eq_iff_same` — the spellings that are kept;
* `Distinct` — entries with a name each, of which no two are one name.
-/
import Mathlib
import ReminderExpr.Proofs.TableLookup

namespace ReminderExpr

namespace Name

variable {a b c : String}

/-! ## Spellings of one name -/

/-- Letters that agree in lower case agree in upper case, and conversely. -/
theorem map_toLower_eq_iff {cs ds : List Char} :
    cs.map Char.toLower = ds.map Char.toLower ↔ cs.map Char.toUpper = ds.map Char.toUpper := by
  have upper : ∀ es : List Char, (es.map Char.toLower).map Char.toUpper = es.map Char.toUpper :=
    fun es => by simp
  have lower : ∀ es : List Char, (es.map Char.toUpper).map Char.toLower = es.map Char.toLower :=
    fun es => by simp
  constructor
  · intro h
    rw [← upper cs, h, upper]
  · intro h
    rw [← lower cs, h, lower]

theorem same_iff : same a b = true ↔ folded (significant a) = folded (significant b) :=
  equalIgnoreCase_iff

/-- Spellings are filed under one key exactly if they are one name. -/
theorem key_eq_iff : key a = key b ↔ same a b = true := by
  rw [same_iff, folded, folded, map_toLower_eq_iff, key, key, String.ofList_inj]

theorem same_comm : same a b = same b a := by
  rw [Bool.eq_iff_iff, ← key_eq_iff, ← key_eq_iff, eq_comm]

theorem same_trans (hab : same a b = true) (hbc : same b c = true) : same a c = true :=
  key_eq_iff.1 ((key_eq_iff.2 hab).trans (key_eq_iff.2 hbc))

/-- The part that counts stands for the whole name. -/
theorem same_significant (a b : String) : same (significant a) b = same a b := by
  rw [same, same, significant_significant]

theorem same_significant_both (a b : String) :
    same (significant a) (significant b) = same a b := by
  rw [same, same, significant_significant, significant_significant]

theorem same_significant_self (a : String) : same (significant a) a = true :=
  (same_significant a a).trans (same_refl a)

/-! ## Names -/

/-- Two spellings are equal as names. -/
def setoid : Setoid String where
  r a b := same a b = true
  iseqv := ⟨same_refl, fun h => same_comm ▸ h, same_trans⟩

end Name

/-- A name, apart from how it is spelled. -/
def NameClass : Type := Quotient Name.setoid

namespace Name

variable {a b : String}

instance : DecidableEq NameClass :=
  letI : ∀ a b : String, Decidable (setoid a b) := fun a b =>
    inferInstanceAs (Decidable (same a b = true))
  inferInstanceAs (DecidableEq (Quotient setoid))

/-- The name that a spelling stands for. -/
def classOf (name : String) : NameClass := Quotient.mk setoid name

theorem classOf_eq_iff : classOf a = classOf b ↔ same a b = true := Quotient.eq

/-- A map from names that is changed at one of them, seen from a spelling. -/
theorem update_classOf {α : Type} (m : NameClass → α) (name other : String) (v : α) :
    Function.update m (classOf name) v (classOf other)
      = if same other name = true then v else m (classOf other) := by
  rw [Function.update_apply]
  exact if_congr classOf_eq_iff rfl rfl

/-! ## Spellings that are kept -/

/-- What counts of a name that can be defined can be defined. -/
theorem isValid_significant {name : String} (h : isValid name = true) :
    isValid (significant name) = true := by
  have htaken : (significant name).toList = name.toList.take 12 := by
    simp [significant, significantLength]
  unfold isValid at h ⊢
  rw [htaken]
  cases hname : name.toList with
  | nil =>
    rw [hname] at h
    cases h
  | cons c cs =>
    rw [hname] at h
    simp only [Bool.and_eq_true, List.all_eq_true, List.take_succ_cons] at h ⊢
    exact ⟨h.1, fun d hd => h.2 d (List.mem_of_mem_take hd)⟩

/-- Spellings that are cut to what counts are one name exactly if nothing but
their case orders them alike. -/
theorem compare_eq_iff_same (ha : significant a = a) (hb : significant b = b) :
    compareIgnoreCase a b = .eq ↔ same a b = true := by
  rw [same, ha, hb, equalIgnoreCase, beq_iff_eq]

/-! ## Entries filed by name -/

section Entries

variable {α : Type} {nameOf : α → String} {entries : List α}

/-- Whether no two entries have one name. -/
def Distinct (nameOf : α → String) (entries : List α) : Prop :=
  entries.Pairwise fun a b => same (nameOf a) (nameOf b) = false

theorem Distinct.eq_of_same (h : Distinct nameOf entries) {a b : α} (ha : a ∈ entries)
    (hb : b ∈ entries) (hsame : same (nameOf a) (nameOf b) = true) : a = b := by
  have hsymm : Std.Symm fun a b : α => same (nameOf a) (nameOf b) = false :=
    ⟨fun _ _ h => same_comm ▸ h⟩
  refine Classical.byContradiction fun hne => ?_
  rw [List.Pairwise.forall h ha hb hne] at hsame
  cases hsame

/-- The entry that a name finds. -/
def find? (nameOf : α → String) (entries : List α) (name : String) : Option α :=
  entries.find? fun a => key (nameOf a) == key name

theorem find?_congr {name other : String} (h : same name other = true) :
    find? nameOf entries name = find? nameOf entries other := by
  rw [find?, find?, key_eq_iff.2 h]

/-- The entry that a name finds is the one of that name. -/
theorem Distinct.find?_eq_some_iff (h : Distinct nameOf entries) {name : String} {a : α} :
    find? nameOf entries name = some a ↔ a ∈ entries ∧ same (nameOf a) name = true := by
  have hsame : ∀ {b}, find? nameOf entries name = some b → same (nameOf b) name = true :=
    fun hb => key_eq_iff.1 (beq_iff_eq.1 (List.find?_some (p := fun b => key (nameOf b) == key name) hb))
  constructor
  · intro ha
    exact ⟨List.mem_of_find?_eq_some ha, hsame ha⟩
  · rintro ⟨hmem, haname⟩
    cases hb : find? nameOf entries name with
    | none => exact absurd (beq_iff_eq.2 (key_eq_iff.2 haname)) (List.find?_eq_none.1 hb a hmem)
    | some b =>
      rw [h.eq_of_same (List.mem_of_find?_eq_some hb) hmem
        (same_trans (hsame hb) (same_comm ▸ haname))]

/-- Names find the same when the entry of another name is taken out. -/
theorem find?_others (name other : String) :
    find? nameOf (entries.filter fun a => !(key (nameOf a) == key name)) other
      = if same other name = true then none else find? nameOf entries other := by
  rw [find?, find?, List.find?_filter]
  split
  · rename_i hsame
    rw [List.find?_eq_none, key_eq_iff.2 hsame]
    intro a _
    cases key (nameOf a) == key name <;> decide
  · rename_i hsame
    refine congrArg (List.find? · entries) (funext fun a => ?_)
    cases ha : key (nameOf a) == key other with
    | false => simp only [Bool.false_eq_true, and_false, decide_false]
    | true =>
      have hother : key (nameOf a) ≠ key name := fun heq =>
        hsame (key_eq_iff.1 ((beq_iff_eq.1 ha).symm.trans heq))
      simp only [beq_false_of_ne hother, Bool.not_false, and_self, decide_true]

/-- There are as many entries as names that find one. -/
theorem Distinct.length_eq_ncard (h : Distinct nameOf entries) {m : NameClass → Option α}
    (hm : ∀ c a, m c = some a ↔ a ∈ entries ∧ classOf (nameOf a) = c) :
    entries.length = {c : NameClass | (m c).isSome}.ncard := by
  have hnodup : (entries.map fun a => classOf (nameOf a)).Nodup := by
    refine List.pairwise_map.2 (List.Pairwise.imp (fun {a b} hsame heq => ?_) h)
    rw [classOf_eq_iff.1 heq] at hsame
    cases hsame
  have hnames : {c : NameClass | (m c).isSome}
      = ((entries.map fun a => classOf (nameOf a)).toFinset : Set NameClass) := by
    ext c
    simp only [Set.mem_ofPred_eq, Option.isSome_iff_exists, hm, List.coe_toFinset, List.mem_map]
  rw [hnames, Set.ncard_coe_finset, List.toFinset_card_of_nodup hnodup, List.length_map]

end Entries

end Name

end ReminderExpr
