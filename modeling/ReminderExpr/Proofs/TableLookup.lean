/-
ReminderExpr.Proofs.TableLookup — what is found in a table sorted by name.

Names are ordered by their letters, case apart, and adjacent entries that
increase make the whole table increase. So of the entries on one side of the
middle none can be called by a name that belongs on the other side, and halving
the range loses no entry.

* `pairwise_of_isSorted` — the order of adjacent entries is that of all;
* `positionBetween_sound`, `positionBetween_complete` — the halving of a range;
* `position_eq_some_iff`, `find?_eq_some_iff` — what is found, and where.
-/
import ReminderExpr.NameTable

namespace ReminderExpr

/-- The order of spellings, case apart, is that of their lower-case letters. -/
instance Name.transCmp_compareIgnoreCase : Std.TransCmp Name.compareIgnoreCase :=
  inferInstanceAs (Std.TransCmp (compareOn Name.folded))

namespace NameTable

variable {α : Type} {nameOf : α → String} {table : Array α} {name : String}

/-- Of two entries, the first has the smaller name. -/
def Before (nameOf : α → String) (a b : α) : Prop :=
  Name.compareIgnoreCase (nameOf a) (nameOf b) = .lt

theorem Before.trans {a b c : α} (hab : Before nameOf a b) (hbc : Before nameOf b c) :
    Before nameOf a c :=
  Std.TransCmp.lt_trans hab hbc

/-- Entries increase along a table if adjacent ones do. -/
theorem pairwise_of_isSorted : ∀ {entries : List α}, isSorted nameOf entries = true →
    entries.Pairwise (Before nameOf)
  | [], _ => .nil
  | [a], _ => List.pairwise_singleton _ a
  | a :: b :: rest, h => by
      simp only [isSorted, Bool.and_eq_true, beq_iff_eq] at h
      obtain ⟨hab, hrest⟩ := h
      have ih := pairwise_of_isSorted hrest
      refine List.pairwise_cons.2 ⟨fun c hc => ?_, ih⟩
      rcases List.mem_cons.1 hc with rfl | hc
      · exact hab
      · exact Before.trans hab ((List.pairwise_cons.1 ih).1 c hc)

/-- Entries at increasing places of a sorted table have increasing names. -/
theorem before_of_lt (h : isSorted nameOf table.toList = true) {i j : Nat} {a b : α}
    (hij : i < j) (ha : table[i]? = some a) (hb : table[j]? = some b) : Before nameOf a b := by
  rw [← Array.getElem?_toList] at ha hb
  obtain ⟨hi, rfl⟩ := List.getElem?_eq_some_iff.1 ha
  obtain ⟨hj, rfl⟩ := List.getElem?_eq_some_iff.1 hb
  exact List.pairwise_iff_getElem.1 (pairwise_of_isSorted h) i j hi hj hij

/-- Where a name stands is read off any entry that is called by it. -/
theorem compare_of_equal {a b : α} (ha : Name.equalIgnoreCase (nameOf a) name = true) :
    Name.compareIgnoreCase (nameOf b) name = Name.compareIgnoreCase (nameOf b) (nameOf a) := by
  rw [Name.equalIgnoreCase_iff] at ha
  simp only [Name.compareIgnoreCase, ha]

/-- What a range is halved down to is called by the name. -/
theorem positionBetween_sound {rounds low high i : Nat}
    (h : positionBetween nameOf table name rounds low high = some i) :
    ∃ a, table[i]? = some a ∧ Name.equalIgnoreCase (nameOf a) name = true := by
  induction rounds generalizing low high with
  | zero => cases h
  | succ rounds ih =>
    simp only [positionBetween] at h
    split at h
    · split at h
      · cases h
      · rename_i a ha
        split at h
        · rename_i heq
          cases h
          exact ⟨a, ha, by simp [Name.equalIgnoreCase, heq]⟩
        · exact ih h
        · exact ih h
    · cases h

/-- An entry of a range that is called by the name is found, in as many rounds
as the range has entries. -/
theorem positionBetween_complete (h : isSorted nameOf table.toList = true) {a : α} {i : Nat}
    (ha : table[i]? = some a) (heq : Name.equalIgnoreCase (nameOf a) name = true)
    {rounds low high : Nat} (hlow : low ≤ i) (hhigh : i < high) (hsize : high ≤ table.size)
    (hrounds : high - low ≤ rounds) :
    positionBetween nameOf table name rounds low high = some i := by
  induction rounds generalizing low high with
  | zero => omega
  | succ rounds ih =>
    have hrange : low < high := by omega
    simp only [positionBetween, if_pos hrange]
    generalize hmiddle : low + (high - low) / 2 = middle
    have hmem : middle < table.size := by omega
    rw [Array.getElem?_eq_getElem hmem]
    have hb : table[middle]? = some table[middle] := Array.getElem?_eq_getElem hmem
    dsimp only
    rw [compare_of_equal heq]
    rcases Nat.lt_trichotomy middle i with hlt | rfl | hgt
    · have hbefore : Before nameOf table[middle] a := before_of_lt h hlt hb ha
      rw [show Name.compareIgnoreCase (nameOf table[middle]) (nameOf a) = .lt from hbefore]
      exact ih hlt hhigh hsize (by omega)
    · rw [hb] at ha
      cases ha
      rw [show Name.compareIgnoreCase (nameOf table[middle]) (nameOf table[middle]) = .eq from
        Std.ReflCmp.compare_self]
    · have hafter : Before nameOf a table[middle] := before_of_lt h hgt ha hb
      rw [show Name.compareIgnoreCase (nameOf table[middle]) (nameOf a) = .gt from
        Std.OrientedCmp.gt_of_lt hafter]
      exact ih hlow hgt (by omega) (by omega)

/-- The place of a name in a sorted table is that of the entry called by it. -/
theorem position_eq_some_iff (h : isSorted nameOf table.toList = true) {i : Nat} :
    position nameOf table name = some i ↔
      ∃ a, table[i]? = some a ∧ Name.equalIgnoreCase (nameOf a) name = true := by
  refine ⟨positionBetween_sound, ?_⟩
  rintro ⟨a, ha, heq⟩
  have hi : i < table.size := (Array.getElem?_eq_some_iff.1 ha).1
  exact positionBetween_complete h ha heq (Nat.zero_le i) hi (Nat.le_refl _) (Nat.sub_le _ _)

/-- An entry is found in a sorted table under all spellings of its name, and
under no others. -/
theorem find?_eq_some_iff (h : isSorted nameOf table.toList = true) {a : α} :
    find? nameOf table name = some a ↔
      a ∈ table.toList ∧ Name.equalIgnoreCase (nameOf a) name = true := by
  unfold find?
  rw [Option.bind_eq_some_iff]
  constructor
  · rintro ⟨i, hi, ha⟩
    obtain ⟨b, hb, heq⟩ := (position_eq_some_iff h).1 hi
    rw [hb] at ha
    cases ha
    exact ⟨Array.mem_toList_iff.2 (Array.mem_of_getElem? hb), heq⟩
  · rintro ⟨hmem, heq⟩
    obtain ⟨i, hi⟩ := Array.mem_iff_getElem?.1 (Array.mem_toList_iff.1 hmem)
    exact ⟨i, (position_eq_some_iff h).2 ⟨a, hi, heq⟩, hi⟩

/-- Spellings that are equal, case apart, find the same. -/
theorem find?_congr (h : isSorted nameOf table.toList = true) {name' : String}
    (hname : Name.equalIgnoreCase name name' = true) :
    find? nameOf table name = find? nameOf table name' := by
  refine Option.ext fun a => ?_
  rw [find?_eq_some_iff h, find?_eq_some_iff h, Name.equalIgnoreCase_iff,
    Name.equalIgnoreCase_iff, Name.equalIgnoreCase_iff.1 hname]

end NameTable

end ReminderExpr
