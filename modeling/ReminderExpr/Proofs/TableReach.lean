/-
ReminderExpr.Proofs.TableReach — every entry of a table is found under every
casing of its name, and under nothing else.

A table is searched by halving, and any search that keeps to what is expected of
one (`SearchResult`) answers the same: no two entries of a sorted table have one
name, so that a name has one place or none. This needs the order of spellings to
be one order for all entries, capitals, small letters and signs.

* `place_unique`, `position_eq_none_iff` — the place of a name, if it has one;
* `exists_searchResult`, `SearchResult.toOption_eq` — every search comes to something,
  and to the same;
* `compareIgnoreCase_isLE_total`, `compareIgnoreCase_isLE_trans` — the order;
* `entries_reached_by_casings` — the tables of operators, functions and system
  variables.
-/
import ReminderExpr.Builtin
import ReminderExpr.Operator
import ReminderExpr.Proofs.NamesOnBytes
import ReminderExpr.Proofs.TableLookup
import ReminderExpr.SystemVariables

namespace ReminderExpr

namespace Name

variable {a b c : String}

theorem compareIgnoreCase_swap (a b : String) :
    compareIgnoreCase b a = (compareIgnoreCase a b).swap :=
  Std.OrientedCmp.eq_swap

theorem compareIgnoreCase_isLE_total (a b : String) :
    (compareIgnoreCase a b).isLE = true ∨ (compareIgnoreCase b a).isLE = true := by
  rw [compareIgnoreCase_swap a b]
  cases compareIgnoreCase a b <;> decide

theorem compareIgnoreCase_isLE_trans (hab : (compareIgnoreCase a b).isLE = true)
    (hbc : (compareIgnoreCase b c).isLE = true) : (compareIgnoreCase a c).isLE = true :=
  Std.TransCmp.isLE_trans hab hbc

end Name

/-! ## Tables -/

namespace NameTable

variable {α : Type} {nameOf : α → String} {table : Array α} {name : String}

/-- What may come of searching a table by a comparison: the place of an entry that
compares as equal, or the place where one would belong. -/
inductive SearchResult (compared : α → Ordering) (table : Array α) : Except Nat Nat → Prop
  | found {i : Nat} {a : α} (entry : table[i]? = some a) (equal : compared a = .eq) :
      SearchResult compared table (.ok i)
  | absent {i : Nat} (inside : i ≤ table.size)
      (below : ∀ j a, j < i → table[j]? = some a → compared a = .lt)
      (above : ∀ j a, i ≤ j → table[j]? = some a → compared a = .gt) :
      SearchResult compared table (.error i)

/-- No two places of a sorted table have entries of one name. -/
theorem place_unique (h : isSorted nameOf table.toList = true) {i j : Nat} {a b : α}
    (ha : table[i]? = some a) (hb : table[j]? = some b) (haname : Name.Recased (nameOf a) name)
    (hbname : Name.Recased (nameOf b) name) : i = j := by
  have heq : Name.compareIgnoreCase (nameOf a) (nameOf b) = .eq := by
    rw [Name.compare_eq_iff_recased, ← Name.folded_eq_iff, Name.folded_eq_iff.2 haname,
      Name.folded_eq_iff.2 hbname]
  rcases Nat.lt_trichotomy i j with hlt | rfl | hgt
  · cases heq.symm.trans (before_of_lt h hlt ha hb)
  · rfl
  · rw [Name.compareIgnoreCase_swap, show Name.compareIgnoreCase (nameOf b) (nameOf a) = .lt from
      before_of_lt h hgt hb ha] at heq
    cases heq

theorem position_eq_some_iff_recased (h : isSorted nameOf table.toList = true) {i : Nat} :
    position nameOf table name = some i
      ↔ ∃ a, table[i]? = some a ∧ Name.Recased (nameOf a) name := by
  simp only [position_eq_some_iff h, Name.equalIgnoreCase_iff_recased]

theorem position_eq_none_iff (h : isSorted nameOf table.toList = true) :
    position nameOf table name = none ↔ ∀ a ∈ table.toList, ¬Name.Recased (nameOf a) name := by
  rw [Option.eq_none_iff_forall_ne_some]
  constructor
  · intro hnone a ha hname
    obtain ⟨i, hi⟩ := Array.mem_iff_getElem?.1 (Array.mem_toList_iff.1 ha)
    exact hnone i ((position_eq_some_iff_recased h).2 ⟨a, hi, hname⟩)
  · intro hnone i hi
    obtain ⟨a, ha, hname⟩ := (position_eq_some_iff_recased h).1 hi
    exact hnone a (Array.mem_toList_iff.2 (Array.mem_of_getElem? ha)) hname

theorem find?_eq_some_iff_recased (h : isSorted nameOf table.toList = true) {a : α} :
    find? nameOf table name = some a ↔ a ∈ table.toList ∧ Name.Recased (nameOf a) name := by
  rw [find?_eq_some_iff h, Name.equalIgnoreCase_iff_recased]

/-- The place of the first entry that is not before a name, or of the end. -/
def firstNotBefore (nameOf : α → String) (table : Array α) (name : String) : Nat :=
  table.toList.findIdx fun a => Name.compareIgnoreCase (nameOf a) name != .lt

theorem firstNotBefore_le : firstNotBefore nameOf table name ≤ table.size :=
  List.findIdx_le_length

theorem compare_of_lt_firstNotBefore {i : Nat} {a : α}
    (hi : i < firstNotBefore nameOf table name) (ha : table[i]? = some a) :
    Name.compareIgnoreCase (nameOf a) name = .lt := by
  rw [← Array.getElem?_toList] at ha
  obtain ⟨hlt, rfl⟩ := List.getElem?_eq_some_iff.1 ha
  simpa using List.not_of_lt_findIdx hi

theorem compare_firstNotBefore {a : α} (ha : table[firstNotBefore nameOf table name]? = some a) :
    Name.compareIgnoreCase (nameOf a) name ≠ .lt := by
  rw [← Array.getElem?_toList] at ha
  obtain ⟨hlt, rfl⟩ := List.getElem?_eq_some_iff.1 ha
  exact bne_iff_ne.1 (List.findIdx_getElem (w := hlt))

/-- From an entry on that is after a name, all entries are. -/
theorem compare_of_le (h : isSorted nameOf table.toList = true) {i j : Nat} {a b : α}
    (ha : table[i]? = some a) (hafter : Name.compareIgnoreCase (nameOf a) name = .gt)
    (hij : i ≤ j) (hb : table[j]? = some b) : Name.compareIgnoreCase (nameOf b) name = .gt := by
  rcases Nat.eq_or_lt_of_le hij with rfl | hlt
  · cases ha.symm.trans hb
    exact hafter
  · have hname : Name.compareIgnoreCase name (nameOf a) = .lt := Std.OrientedCmp.lt_of_gt hafter
    exact Std.OrientedCmp.gt_of_lt (Std.TransCmp.lt_trans hname (before_of_lt h hlt ha hb))

/-- A sorted table can be searched: the first entry that is not before the name has
it, or stands where it would belong. -/
theorem exists_searchResult (h : isSorted nameOf table.toList = true) (name : String) :
    ∃ r, SearchResult (fun a => Name.compareIgnoreCase (nameOf a) name) table r := by
  have hbelow : ∀ j a, j < firstNotBefore nameOf table name → table[j]? = some a →
      Name.compareIgnoreCase (nameOf a) name = .lt := fun _ _ => compare_of_lt_firstNotBefore
  cases hentry : table[firstNotBefore nameOf table name]? with
  | none =>
    refine ⟨.error _, .absent firstNotBefore_le hbelow fun j b hj hb => ?_⟩
    have hend := Array.getElem?_eq_none_iff.1 hentry
    have hlt := (Array.getElem?_eq_some_iff.1 hb).1
    omega
  | some a =>
    cases ha : Name.compareIgnoreCase (nameOf a) name with
    | lt => exact absurd ha (compare_firstNotBefore hentry)
    | eq => exact ⟨.ok _, .found hentry ha⟩
    | gt =>
      exact ⟨.error _, .absent firstNotBefore_le hbelow fun _ _ => compare_of_le h hentry ha⟩

/-- However a sorted table is searched, a name is found where it is. -/
theorem SearchResult.toOption_eq {r : Except Nat Nat}
    (hr : SearchResult (fun a => Name.compareIgnoreCase (nameOf a) name) table r)
    (h : isSorted nameOf table.toList = true) : r.toOption = position nameOf table name := by
  cases hr with
  | found entry equal =>
    exact ((position_eq_some_iff_recased h).2
      ⟨_, entry, Name.compare_eq_iff_recased.1 equal⟩).symm
  | absent inside below above =>
    refine ((position_eq_none_iff h).2 fun a ha hname => ?_).symm
    obtain ⟨j, hj⟩ := Array.mem_iff_getElem?.1 (Array.mem_toList_iff.1 ha)
    have heq := Name.compare_eq_iff_recased.2 hname
    rcases Nat.lt_or_ge j _ with hlt | hge
    · cases heq.symm.trans (below j a hlt hj)
    · cases heq.symm.trans (above j a hge hj)

end NameTable

/-- Every binary operator is in the table. -/
theorem BinaryOp.mem_table (op : BinaryOp) : op ∈ table.toList := by
  cases op <;> decide

/-- Every unary operator is in the table. -/
theorem UnaryOp.mem_table (op : UnaryOp) : op ∈ table.toList := by
  cases op <;> decide

namespace NameTable

/-- In a table whose adjacent entries increase, a name is at the place of the entry
of which it is a casing; there is at most one such place, and the name is missing
exactly if there is none. Every search that answers with the place of an equal
entry, or else with the place where one would belong, answers this.

Spellings are ordered by their bytes in lower case. Any two are in order one way or
the other, order is passed on, and equal are those that differ in case alone.

The operators, the functions and the system variables are found under all casings
of their names, and under no other spellings. -/
theorem entries_reached_by_casings :
    (∀ (α : Type) (nameOf : α → String) (table : Array α),
        isSorted nameOf table.toList = true → ∀ name : String,
        (∀ i, position nameOf table name = some i
            ↔ ∃ a, table[i]? = some a ∧ Name.Recased (nameOf a) name)
          ∧ (∀ (i j : Nat) (a b : α), table[i]? = some a → table[j]? = some b →
              Name.Recased (nameOf a) name → Name.Recased (nameOf b) name → i = j)
          ∧ (position nameOf table name = none
              ↔ ∀ a ∈ table.toList, ¬Name.Recased (nameOf a) name)
          ∧ (∀ a, find? nameOf table name = some a
              ↔ a ∈ table.toList ∧ Name.Recased (nameOf a) name)
          ∧ (∃ r, SearchResult (fun a => Name.compareIgnoreCase (nameOf a) name) table r)
          ∧ ∀ r, SearchResult (fun a => Name.compareIgnoreCase (nameOf a) name) table r →
              r.toOption = position nameOf table name)
      ∧ (∀ a b, Name.compareIgnoreCase a b = Words.compareIgnoreCase a b
          ∧ Name.compareIgnoreCase b a = (Name.compareIgnoreCase a b).swap
          ∧ ((Name.compareIgnoreCase a b).isLE = true ∨ (Name.compareIgnoreCase b a).isLE = true)
          ∧ (∀ c, (Name.compareIgnoreCase a b).isLE = true →
              (Name.compareIgnoreCase b c).isLE = true → (Name.compareIgnoreCase a c).isLE = true)
          ∧ (Name.compareIgnoreCase a b = .eq ↔ Name.Recased a b))
      ∧ ∀ name,
          (∀ op, BinaryOp.ofSpelling? name = some op ↔ Name.Recased op.spelling name)
          ∧ (∀ op, UnaryOp.ofSpelling? name = some op ↔ Name.Recased op.spelling name)
          ∧ (∀ f, Builtin.ofName? name = some f ↔ Name.Recased f.name name)
          ∧ ∀ v, SystemVariable.find? name = some v
              ↔ v ∈ SystemVariable.table.toList ∧ Name.Recased v.name name := by
  refine ⟨fun α nameOf table h name => ⟨fun i => position_eq_some_iff_recased h,
      fun i j a b => place_unique h, position_eq_none_iff h, fun a => find?_eq_some_iff_recased h,
      exists_searchResult h name, fun r hr => hr.toOption_eq h⟩,
    fun a b => ⟨(Words.compareIgnoreCase_eq a b).symm, Name.compareIgnoreCase_swap a b,
      Name.compareIgnoreCase_isLE_total a b, fun c => Name.compareIgnoreCase_isLE_trans,
      Name.compare_eq_iff_recased⟩,
    fun name => ⟨fun op => ?_, fun op => ?_, fun f => ?_, fun v => ?_⟩⟩
  · rw [BinaryOp.ofSpelling?, find?_eq_some_iff_recased BinaryOp.isSorted_table,
      and_iff_right op.mem_table]
  · rw [UnaryOp.ofSpelling?, find?_eq_some_iff_recased UnaryOp.isSorted_table,
      and_iff_right op.mem_table]
  · rw [Builtin.ofName?, find?_eq_some_iff_recased Builtin.isSorted_table,
      and_iff_right f.mem_table]
  · exact find?_eq_some_iff_recased SystemVariable.isSorted_table

/-- Case apart, a sign can come before `_`, and `_` comes before the letters, though
capitals are before it as they are written. -/
theorem found_between_signs_and_letters :
    let table := #["&&", "_tmp", "Beta", "gamma"]
    isSorted id table.toList = true
      ∧ position id table "bETA" = some 2
      ∧ SearchResult (fun a => Name.compareIgnoreCase a "betas") table (.error 3)
      ∧ position id table "betas" = none
      ∧ SystemVariable.find? "mINSfROMutc"
          = some (.setting "MinsFromUTC" 0 (some (-780)) (some 780)) := by
  intro table
  have hsorted : isSorted id table.toList = true := by decide +kernel
  obtain ⟨htables, -, hnames⟩ := entries_reached_by_casings
  obtain ⟨hposition, -⟩ := htables String id table hsorted "bETA"
  obtain ⟨-, -, -, -, -, hsearch⟩ := htables String id table hsorted "betas"
  have hbelow : ∀ j < 3, ∀ a ∈ table[j]?, Name.compareIgnoreCase a "betas" = .lt := by
    decide +kernel
  have hresult : SearchResult (fun a => Name.compareIgnoreCase a "betas") table (.error 3) := by
    refine .absent (by decide) (fun j a hj ha => hbelow j hj a ha) fun j a hj ha => ?_
    have hlast : j < 4 := (Array.getElem?_eq_some_iff.1 ha).1
    obtain rfl : j = 3 := by omega
    cases ha
    decide +kernel
  refine ⟨hsorted, (hposition 2).2 ⟨"Beta", rfl, by decide +kernel⟩, hresult,
    (hsearch _ hresult).symm, ((hnames _).2.2.2 _).2 ⟨by decide +kernel, by decide +kernel⟩⟩

end NameTable

end ReminderExpr
