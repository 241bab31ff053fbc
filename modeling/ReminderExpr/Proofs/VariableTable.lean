/-
ReminderExpr.Proofs.VariableTable — the variables of a script are a map.

The table keeps a list of entries in the order of their names. Seen from
outside it is a map from names, however spelled, to variables (`NameMap`): the
map that a name finds its variable in is changed by every operation on the
table as maps are changed, at one name at a time. That the list can be seen so
rests on what the operations keep of it: its names can be defined, are cut to
what counts, and increase (`Variables.Tidy`), so that no name has two entries.

* `NameMap` — the map, and the operations on it;
* `toMap_modify`, `toMap_insert`, `toMap_filter` — how each way of changing the
  list changes the map;
* `Tidy` — what the list is like, with `size_eq_ncard` and `eq_mergeSort`;
* `Mirrors`, with `mirrors_change` — one operation on the table and on the map;
* `Variables.table_is_map` — all sequences of operations.
-/
import ReminderExpr.Proofs.NameClasses
import ReminderExpr.Variables

namespace ReminderExpr

/-! ## Maps -/

/-- The variable of every name. -/
abbrev NameMap : Type := NameClass → Option Variable

/-- The operations that change variables. -/
inductive VariableChange
  | set (name : String) (value : Value)
  | preserve (name : String)
  | delete (name : String)
  | clear (all : Bool)
  deriving DecidableEq, Repr

namespace NameMap

def empty : NameMap := fun _ => none

/-- The map with another variable, or none, at a name. -/
def put (m : NameMap) (name : String) (v : Option Variable) : NameMap :=
  Function.update m (Name.classOf name) v

/-- A name set to a value. A variable that is there keeps the spelling first
set, and its protection. -/
def set (m : NameMap) (name : String) (value : Value) : Result NameMap :=
  if Name.isValid name then
    .ok (m.put name (match m (Name.classOf name) with
      | some v => some { v with value }
      | none => some { name := Name.significant name, value, preserved := false }))
  else .error .badIdentifier

/-- A name protected, and set to 0 first if it has no variable. -/
def preserve (m : NameMap) (name : String) : Result NameMap :=
  match m (Name.classOf name) with
  | some v => .ok (m.put name (some { v with preserved := true }))
  | none =>
      if Name.isValid name then
        .ok (m.put name
          (some { name := Name.significant name, value := .int 0, preserved := true }))
      else .error .badIdentifier

/-- The value of a name, and the map without it. -/
def delete (m : NameMap) (name : String) : Result (Value × NameMap) :=
  match m (Name.classOf name) with
  | some v => .ok (v.value, m.put name none)
  | none => .error (.noSuchVariable name)

/-- No names, or those whose variables are protected. -/
def clear (m : NameMap) (all : Bool) : NameMap :=
  if all then empty else fun c => (m c).filter (·.preserved)

/-- The map after an operation, with the value that the operation yields. -/
def change (m : NameMap) : VariableChange → Result (Option Value × NameMap)
  | .set name value => (m.set name value).map fun m => (none, m)
  | .preserve name => (m.preserve name).map fun m => (none, m)
  | .delete name => (m.delete name).map fun (value, m) => (some value, m)
  | .clear all => .ok (none, m.clear all)

theorem put_of_same {m : NameMap} {name other : String} {v : Option Variable}
    (h : Name.same other name = true) : m.put name v (Name.classOf other) = v :=
  (Name.update_classOf m name other v).trans (if_pos h)

theorem put_of_not_same {m : NameMap} {name other : String} {v : Option Variable}
    (h : ¬Name.same other name = true) :
    m.put name v (Name.classOf other) = m (Name.classOf other) :=
  (Name.update_classOf m name other v).trans (if_neg h)

theorem put_put (m : NameMap) (name : String) (v w : Option Variable) :
    (m.put name v).put name w = m.put name w :=
  Function.update_idem _ _ _

theorem set_of_valid {m : NameMap} {name : String} {value : Value}
    (h : Name.isValid name = true) :
    m.set name value = .ok (m.put name (match m (Name.classOf name) with
      | some v => some { v with value }
      | none => some { name := Name.significant name, value, preserved := false })) := by
  rw [set, if_pos h]

theorem set_of_invalid {m : NameMap} {name : String} {value : Value}
    (h : Name.isValid name = false) : m.set name value = .error .badIdentifier := by
  rw [set, h]
  rfl

/-- Maps that give every spelling the same are the same. -/
theorem ext_names {m m' : NameMap}
    (h : ∀ name, m (Name.classOf name) = m' (Name.classOf name)) : m = m' :=
  funext fun c => Quotient.inductionOn c h

end NameMap

namespace Variables

variable {vars vars' : Variables} {name other : String} {value : Value}

/-- The table after an operation, with the value that the operation yields. -/
def change (vars : Variables) : VariableChange → Result (Option Value × Variables)
  | .set name value => (vars.set name value).map fun vars => (none, vars)
  | .preserve name => (vars.preserve name).map fun vars => (none, vars)
  | .delete name => (vars.delete name).map fun (value, vars) => (some value, vars)
  | .clear all => .ok (none, vars.clear all)

/-! ## The map of a table -/

theorem isNamed_iff {v : Variable} : isNamed name v = true ↔ Name.same v.name name = true := by
  rw [isNamed, beq_iff_eq, Name.key_eq_iff]

theorem isNamed_congr (h : Name.same name other = true) : isNamed name = isNamed other := by
  funext v
  rw [isNamed, isNamed, Name.key_eq_iff.2 h]

theorem find?_congr (h : Name.same name other = true) : vars.find? name = vars.find? other := by
  rw [find?, find?, isNamed_congr h]

theorem isNamed_of_find? {v : Variable} (h : vars.find? name = some v) : isNamed name v = true :=
  List.find?_some h

/-- The variable that each name finds. -/
def toMap (vars : Variables) : NameMap := fun c =>
  Quotient.liftOn c vars.find? fun _ _ h => find?_congr h

theorem toMap_classOf (vars : Variables) (name : String) :
    vars.toMap (Name.classOf name) = vars.find? name :=
  rfl

theorem toMap_empty : toMap {} = NameMap.empty := NameMap.ext_names fun _ => rfl

theorem name_changed {f : Variable → Variable} (hname : ∀ v, (f v).name = v.name) (v : Variable) :
    (if isNamed name v then f v else v).name = v.name := by
  split
  · exact hname v
  · rfl

/-- What is called by one name is called by no other. -/
theorem not_isNamed {v : Variable} (hv : isNamed other v = true)
    (hsame : ¬Name.same other name = true) : isNamed name v = false := by
  refine Bool.eq_false_iff.2 fun h => hsame ?_
  exact Name.same_trans (Name.same_comm ▸ isNamed_iff.1 hv) (isNamed_iff.1 h)

theorem find?_modify {f : Variable → Variable} (hname : ∀ v, (f v).name = v.name) :
    (vars.modify name f).find? other
      = (vars.find? other).map fun v => if isNamed name v then f v else v := by
  have hnamed : isNamed other ∘ (fun v => if isNamed name v then f v else v)
      = isNamed other := by
    funext v
    show isNamed other (if isNamed name v then f v else v) = isNamed other v
    rw [isNamed, name_changed hname, isNamed]
  rw [find?, modify, List.find?_map, hnamed, find?]

/-- An entry that is changed, and keeps its name, is changed in the map. -/
theorem toMap_modify (vars : Variables) (name : String) {f : Variable → Variable}
    (hname : ∀ v, (f v).name = v.name) :
    (vars.modify name f).toMap = vars.toMap.put name ((vars.find? name).map f) := by
  refine NameMap.ext_names fun other => ?_
  rw [toMap_classOf, find?_modify hname]
  by_cases hsame : Name.same other name = true
  · rw [NameMap.put_of_same hsame, find?_congr hsame]
    refine Option.map_congr fun v hv => ?_
    rw [if_pos (isNamed_of_find? hv)]
  · rw [NameMap.put_of_not_same hsame, toMap_classOf]
    refine (Option.map_congr fun v hv => ?_).trans Option.map_id'
    rw [if_neg (Bool.eq_false_iff.1 (not_isNamed (isNamed_of_find? hv) hsame))]

theorem find?_insertEntry {p : Variable → Bool} {entry : Variable} {entries : List Variable}
    (h : p entry = true → ∀ v ∈ entries, p v = false) :
    (insertEntry entry entries).find? p = if p entry then some entry else entries.find? p := by
  induction entries with
  | nil => cases hp : p entry <;> simp [insertEntry, hp]
  | cons v rest ih =>
    have hrest := ih fun hp w hw => h hp w (List.mem_cons_of_mem v hw)
    rw [insertEntry]
    split
    · rw [List.find?_cons, List.find?_cons, hrest]
      cases hp : p entry with
      | true => rw [h hp v List.mem_cons_self]
      | false => rfl
    · rw [List.find?_cons]
      cases p entry <;> rfl

/-- A new entry is put into the map. -/
theorem toMap_insert {entry : Variable} (hname : Name.same entry.name name = true)
    (hnew : vars.find? name = none) :
    toMap { entries := insertEntry entry vars.entries } = vars.toMap.put name (some entry) := by
  refine NameMap.ext_names fun other => ?_
  have hfound : ∀ v ∈ vars.entries, isNamed name v = false := by
    simpa using List.find?_eq_none.1 hnew
  rw [toMap_classOf, find?, find?_insertEntry]
  · by_cases hsame : Name.same other name = true
    · rw [NameMap.put_of_same hsame, isNamed_congr hsame, if_pos (isNamed_iff.2 hname)]
    · have hother : ¬isNamed other entry = true := fun h =>
        hsame (Name.same_trans (Name.same_comm ▸ isNamed_iff.1 h) hname)
      rw [NameMap.put_of_not_same hsame, if_neg hother]
      rfl
  · intro hentry v hv
    have hsame := Name.same_trans (Name.same_comm ▸ isNamed_iff.1 hentry) hname
    rw [isNamed_congr hsame, hfound v hv]

/-- Entries taken out are taken out of the map. -/
theorem toMap_filter :
    toMap { entries := vars.entries.filter fun v => !isNamed name v } = vars.toMap.put name none := by
  refine NameMap.ext_names fun other => (Name.find?_others name other).trans ?_
  split
  · rename_i hsame
    rw [NameMap.put_of_same hsame]
  · rename_i hsame
    rw [NameMap.put_of_not_same hsame]
    rfl

/-! ## Tidy tables -/

/-- What the operations keep of the list: the names can be defined, are cut to
the characters that count, and increase. -/
structure Tidy (vars : Variables) : Prop where
  names : ∀ v ∈ vars.entries, Name.isValid v.name = true ∧ Name.significant v.name = v.name
  increasing : vars.entries.Pairwise (NameTable.Before Variable.name)

theorem tidy_empty : Tidy {} := ⟨nofun, .nil⟩

/-- No two entries are called by one name. -/
theorem Tidy.not_same (h : vars.Tidy) : Name.Distinct Variable.name vars.entries := by
  refine h.increasing.imp_of_mem fun {v w} hv hw hbefore => ?_
  refine Bool.eq_false_iff.2 fun hsame => ?_
  rw [← Name.compare_eq_iff_same (h.names v hv).2 (h.names w hw).2] at hsame
  cases hbefore.symm.trans hsame

/-- What a name finds is the entry that is called by it. -/
theorem Tidy.find?_eq_some_iff (h : vars.Tidy) {v : Variable} :
    vars.find? name = some v ↔ v ∈ vars.entries ∧ Name.same v.name name = true :=
  h.not_same.find?_eq_some_iff

/-- The entries are the variables of the map, each at its own name. -/
theorem Tidy.mem_entries_iff (h : vars.Tidy) {v : Variable} :
    v ∈ vars.entries ↔ vars.toMap (Name.classOf v.name) = some v := by
  rw [toMap_classOf, h.find?_eq_some_iff]
  exact ⟨fun hmem => ⟨hmem, Name.same_refl _⟩, fun hmem => hmem.1⟩

theorem Tidy.toMap_eq_some (h : vars.Tidy) {c : NameClass} {v : Variable} :
    vars.toMap c = some v ↔ v ∈ vars.entries ∧ Name.classOf v.name = c := by
  induction c using Quotient.inductionOn with
  | h name =>
    show vars.find? name = some v ↔ _ ∧ Name.classOf v.name = Name.classOf name
    rw [h.find?_eq_some_iff, Name.classOf_eq_iff]

/-- There are as many entries as names that have a variable. -/
theorem Tidy.size_eq_ncard (h : vars.Tidy) :
    vars.size = {c : NameClass | (vars.toMap c).isSome}.ncard :=
  h.not_same.length_eq_ncard fun _ _ => h.toMap_eq_some

/-- In whatever order the entries are kept, sorting them by name gives the
listing. -/
theorem Tidy.eq_mergeSort (h : vars.Tidy) {kept : List Variable} (hperm : kept.Perm vars.entries) :
    kept.mergeSort (fun v w => (Name.compareIgnoreCase v.name w.name).isLE) = vars.entries := by
  have htotal : ∀ v w : Variable, ((Name.compareIgnoreCase v.name w.name).isLE
      || (Name.compareIgnoreCase w.name v.name).isLE) = true := by
    intro v w
    have hswap : Name.compareIgnoreCase v.name w.name
        = (Name.compareIgnoreCase w.name v.name).swap := Std.OrientedCmp.eq_swap
    rw [hswap]
    cases Name.compareIgnoreCase w.name v.name <;> rfl
  have htrans : ∀ u v w : Variable, (Name.compareIgnoreCase u.name v.name).isLE = true →
      (Name.compareIgnoreCase v.name w.name).isLE = true →
      (Name.compareIgnoreCase u.name w.name).isLE = true := fun _ _ _ => Std.TransCmp.isLE_trans
  have hsorted := List.pairwise_mergeSort htrans htotal kept
  have hentries : vars.entries.Pairwise fun v w =>
      (Name.compareIgnoreCase v.name w.name).isLE = true := by
    refine h.increasing.imp fun {v w} hbefore => ?_
    rw [show Name.compareIgnoreCase v.name w.name = .lt from hbefore]
    rfl
  refine List.Perm.eq_of_pairwise (fun v w hv hw hvw hwv => ?_) hsorted hentries
    ((List.mergeSort_perm _ _).trans hperm)
  have hv := hperm.mem_iff.1 ((List.mergeSort_perm _ _).mem_iff.1 hv)
  refine h.not_same.eq_of_same hv hw ?_
  rw [← Name.compare_eq_iff_same (h.names v hv).2 (h.names w hw).2]
  exact Std.OrientedCmp.isLE_antisymm hvw hwv

theorem insertEntry_perm (entry : Variable) (entries : List Variable) :
    (insertEntry entry entries).Perm (entry :: entries) := by
  induction entries with
  | nil => exact .refl _
  | cons v rest ih =>
    rw [insertEntry]
    split
    · exact (ih.cons v).trans (.swap entry v rest)
    · exact .refl _

/-- An entry goes where its name belongs. -/
theorem increasing_insertEntry {entry : Variable} {entries : List Variable}
    (h : entries.Pairwise (NameTable.Before Variable.name))
    (hnew : ∀ v ∈ entries, Name.compareIgnoreCase v.name entry.name ≠ .eq) :
    (insertEntry entry entries).Pairwise (NameTable.Before Variable.name) := by
  induction entries with
  | nil => exact List.pairwise_singleton _ entry
  | cons v rest ih =>
    obtain ⟨hv, hrest⟩ := List.pairwise_cons.1 h
    rw [insertEntry]
    split
    · rename_i hbefore
      refine List.pairwise_cons.2 ⟨fun w hw => ?_, ih hrest fun w hw =>
        hnew w (List.mem_cons_of_mem v hw)⟩
      rcases List.mem_cons.1 ((insertEntry_perm entry rest).mem_iff.1 hw) with rfl | hw
      · exact eq_of_beq hbefore
      · exact hv w hw
    · rename_i hafter
      have hbefore : NameTable.Before Variable.name entry v := by
        refine Std.OrientedCmp.lt_of_gt ?_
        cases hc : Name.compareIgnoreCase v.name entry.name with
        | lt => simp [hc] at hafter
        | eq => exact absurd hc (hnew v List.mem_cons_self)
        | gt => rfl
      refine List.pairwise_cons.2 ⟨fun w hw => ?_, h⟩
      rcases List.mem_cons.1 hw with rfl | hw
      · exact hbefore
      · exact hbefore.trans (hv w hw)

/-! ## Operations -/

theorem Tidy.modify (h : vars.Tidy) {f : Variable → Variable} (hname : ∀ v, (f v).name = v.name) :
    (vars.modify name f).Tidy := by
  refine ⟨fun w hw => ?_, List.pairwise_map.2 (h.increasing.imp fun hbefore => ?_)⟩
  · obtain ⟨v, hv, rfl⟩ := List.mem_map.1 hw
    rw [name_changed hname]
    exact h.names v hv
  · rw [NameTable.Before, name_changed hname, name_changed hname]
    exact hbefore

theorem Tidy.filter (h : vars.Tidy) (p : Variable → Bool) :
    Tidy { entries := vars.entries.filter p } :=
  ⟨fun v hv => h.names v (List.mem_of_mem_filter hv), h.increasing.filter p⟩

theorem Tidy.insert (h : vars.Tidy) (hvalid : Name.isValid name = true)
    (hnew : vars.find? name = none) :
    Tidy { entries := insertEntry { name := Name.significant name, value } vars.entries } := by
  have hcut := Name.significant_significant name
  refine ⟨fun v hv => ?_, increasing_insertEntry h.increasing fun v hv heq => ?_⟩
  · rcases List.mem_cons.1 ((insertEntry_perm _ _).mem_iff.1 hv) with rfl | hv
    · exact ⟨Name.isValid_significant hvalid, hcut⟩
    · exact h.names v hv
  · rw [Name.compare_eq_iff_same (h.names v hv).2 hcut, Name.same_comm,
      Name.same_significant] at heq
    exact List.find?_eq_none.1 hnew v hv (isNamed_iff.2 (Name.same_comm ▸ heq))

theorem set_of_found {v : Variable} (hvalid : Name.isValid name = true)
    (hv : vars.find? name = some v) :
    vars.set name value = .ok (vars.modify name fun v => { v with value }) := by
  rw [set, hvalid, contains, hv]
  rfl

theorem set_of_new (hvalid : Name.isValid name = true) (hnew : vars.find? name = none) :
    vars.set name value
      = .ok { entries := insertEntry { name := Name.significant name, value } vars.entries } := by
  rw [set, hvalid, contains, hnew]
  rfl

/-- A name that has no variable gets one. -/
theorem exists_set_of_new (h : vars.Tidy) (hvalid : Name.isValid name = true)
    (hnew : vars.find? name = none) (value : Value) :
    ∃ added, vars.set name value = .ok added ∧ added.Tidy
      ∧ added.toMap = vars.toMap.put name (some { name := Name.significant name, value }) :=
  ⟨_, set_of_new hvalid hnew, h.insert hvalid hnew,
    toMap_insert (Name.same_significant_self name) hnew⟩

theorem set_of_invalid (hvalid : Name.isValid name = false) :
    vars.set name value = .error .badIdentifier := by
  rw [set, hvalid]
  rfl

theorem preserve_of_found {v : Variable} (hv : vars.find? name = some v) :
    vars.preserve name = .ok (vars.modify name fun v => { v with preserved := true }) := by
  rw [preserve, contains, hv]
  rfl

theorem preserve_of_new (hnew : vars.find? name = none) :
    vars.preserve name = (vars.set name (.int 0)).map fun vars =>
      vars.modify name fun v => { v with preserved := true } := by
  rw [preserve, contains, hnew]
  rw [if_neg (by decide)]
  cases vars.set name (.int 0) <;> rfl

/-- What an operation has come to on a map and on a table: the same failure,
or the same value, a tidy table and its map. -/
inductive Mirrors {α : Type} : Result (α × NameMap) → Result (α × Variables) → Prop
  | failed (e : EvalError) : Mirrors (.error e) (.error e)
  | done (a : α) {vars : Variables} (tidy : vars.Tidy) {m : NameMap} (hm : m = vars.toMap) :
      Mirrors (.ok (a, m)) (.ok (a, vars))

theorem Mirrors.map {α β : Type} {map : Result (α × NameMap)} {table : Result (α × Variables)}
    (h : Mirrors map table) (f : α → β) :
    Mirrors (map.map fun (a, m) => (f a, m)) (table.map fun (a, vars) => (f a, vars)) := by
  cases h with
  | failed e => exact .failed e
  | done a tidy hm => exact .done (f a) tidy hm

/-- Setting a name sets it in the map. -/
theorem mirrors_set (h : vars.Tidy) (name : String) (value : Value) :
    Mirrors (vars.toMap.change (.set name value)) (vars.change (.set name value)) := by
  cases hvalid : Name.isValid name with
  | false =>
    rw [change, NameMap.change, set_of_invalid hvalid, NameMap.set_of_invalid hvalid]
    exact .failed _
  | true =>
    rw [change, NameMap.change, NameMap.set_of_valid hvalid, toMap_classOf]
    cases hv : vars.find? name with
    | some v =>
      have hname : ∀ v : Variable, ({ v with value } : Variable).name = v.name := fun _ => rfl
      have hmap := toMap_modify vars name hname
      rw [hv] at hmap
      rw [set_of_found hvalid hv]
      exact .done none (h.modify hname) hmap.symm
    | none =>
      obtain ⟨added, hset, htidy, hadded⟩ := exists_set_of_new h hvalid hv value
      rw [hset]
      exact .done none htidy hadded.symm

/-- Protecting a name protects it in the map. -/
theorem mirrors_preserve (h : vars.Tidy) (name : String) :
    Mirrors (vars.toMap.change (.preserve name)) (vars.change (.preserve name)) := by
  have hname : ∀ v : Variable, ({ v with preserved := true } : Variable).name = v.name :=
    fun _ => rfl
  rw [change, NameMap.change, NameMap.preserve, toMap_classOf]
  cases hv : vars.find? name with
  | some v =>
    have hmap := toMap_modify vars name hname
    rw [hv] at hmap
    rw [preserve_of_found hv]
    exact .done none (h.modify hname) hmap.symm
  | none =>
    rw [preserve_of_new hv]
    cases hvalid : Name.isValid name with
    | false =>
      rw [set_of_invalid hvalid]
      exact .failed _
    | true =>
      obtain ⟨added, hset, htidy, hadded⟩ := exists_set_of_new h hvalid hv (.int 0)
      have hmap := toMap_modify added name hname
      rw [← toMap_classOf, hadded, NameMap.put_of_same (Name.same_refl name), NameMap.put_put]
        at hmap
      rw [hset]
      exact .done none (htidy.modify hname) hmap.symm

/-- Taking a name out takes it out of the map. -/
theorem mirrors_delete (h : vars.Tidy) (name : String) :
    Mirrors (vars.toMap.change (.delete name)) (vars.change (.delete name)) := by
  have hdeleted : Mirrors (vars.toMap.delete name) (vars.delete name) := by
    rw [NameMap.delete, delete, get?, toMap_classOf]
    cases vars.find? name with
    | none => exact .failed _
    | some v => exact .done v.value (h.filter _) toMap_filter.symm
  exact hdeleted.map some

/-- Clearing the table clears the map. -/
theorem mirrors_clear (h : vars.Tidy) (all : Bool) :
    Mirrors (vars.toMap.change (.clear all)) (vars.change (.clear all)) := by
  show Mirrors (.ok (none, vars.toMap.clear all)) (.ok (none, vars.clear all))
  cases all with
  | true => exact .done none tidy_empty toMap_empty.symm
  | false =>
    have hkept : (vars.clear false).Tidy := h.filter _
    refine .done none hkept (funext fun c => Option.ext fun v => ?_)
    rw [hkept.toMap_eq_some]
    simp only [NameMap.clear, Bool.false_eq_true, if_false,
      Option.filter_eq_some_iff, h.toMap_eq_some, clear, List.mem_filter]
    exact and_right_comm

/-- One operation on the table and on its map. -/
theorem mirrors_change (h : vars.Tidy) (c : VariableChange) :
    Mirrors (vars.toMap.change c) (vars.change c) := by
  cases c with
  | set name value => exact mirrors_set h name value
  | preserve name => exact mirrors_preserve h name
  | delete name => exact mirrors_delete h name
  | clear all => exact mirrors_clear h all

end Variables

/-! ## Sequences of operations -/

/-- What operations in order yield, and what they leave; one that fails leaves
what was there. -/
def VariableChange.run {σ : Type} (change : σ → VariableChange → Result (Option Value × σ))
    (s : σ) : List VariableChange → List (Result (Option Value)) × σ
  | [] => ([], s)
  | c :: rest =>
      let answer := change s c
      let (answers, last) := run change ((answer.toOption.map (·.2)).getD s) rest
      (answer.map (·.1) :: answers, last)

namespace Variables

variable {vars : Variables}

/-- Operations in order yield on the table what they yield on its map. -/
theorem mirrors_run (h : vars.Tidy) (changes : List VariableChange) :
    VariableChange.run NameMap.change vars.toMap changes
        = ((VariableChange.run change vars changes).1,
          (VariableChange.run change vars changes).2.toMap)
      ∧ (VariableChange.run change vars changes).2.Tidy := by
  induction changes generalizing vars with
  | nil => exact ⟨rfl, h⟩
  | cons c rest ih =>
    have hc := mirrors_change h c
    unfold VariableChange.run
    generalize vars.toMap.change c = answer at hc
    generalize vars.change c = answer' at hc
    cases hc with
    | failed e =>
      obtain ⟨hrest, htidy⟩ := ih h
      exact ⟨congrArg (fun r => (_ :: r.1, r.2)) hrest, htidy⟩
    | done a tidy hm =>
      obtain ⟨hrest, htidy⟩ := ih tidy
      rw [hm]
      exact ⟨congrArg (fun r => (_ :: r.1, r.2)) hrest, htidy⟩

/-- After any operations on a table that was empty, the table is the map that
the same operations make of the empty map, from names to variables.

Each operation has yielded what it yields on the map: a deletion the value that
the name had, and the same failures otherwise. Every spelling finds what its
name has in the map, and there are as many entries as names that have a
variable. The names of the entries can be defined, are no longer than what
counts, and are all different. The listing shows every variable once, by
strictly increasing name, which is the order that sorting gives in whatever
order the entries are kept. -/
theorem table_is_map (changes : List VariableChange) :
    let (answers, vars) := VariableChange.run change {} changes
    let (answers', m) := VariableChange.run NameMap.change NameMap.empty changes
    answers = answers'
      ∧ (∀ name, vars.find? name = m (Name.classOf name)
          ∧ vars.get? name = (m (Name.classOf name)).map (·.value)
          ∧ vars.contains name = (m (Name.classOf name)).isSome)
      ∧ vars.size = {c : NameClass | (m c).isSome}.ncard
      ∧ (∀ v ∈ vars.entries, Name.isValid v.name = true ∧ v.name.length ≤ 12)
      ∧ vars.entries.Pairwise (fun v w => Name.same v.name w.name = false)
      ∧ (∀ v, v ∈ vars.entries ↔ m (Name.classOf v.name) = some v)
      ∧ vars.entries.Pairwise (fun v w => Name.compareIgnoreCase v.name w.name = .lt)
      ∧ ∀ kept : List Variable, kept.Perm vars.entries →
          kept.mergeSort (fun v w => (Name.compareIgnoreCase v.name w.name).isLE)
            = vars.entries := by
  obtain ⟨hrun, htidy⟩ := mirrors_run tidy_empty changes
  rw [toMap_empty] at hrun
  rw [hrun]
  generalize VariableChange.run change {} changes = reached at htidy
  obtain ⟨answers, vars⟩ := reached
  dsimp only at htidy ⊢
  refine ⟨rfl, fun name => ⟨rfl, rfl, rfl⟩, htidy.size_eq_ncard, fun v hv => ?_, htidy.not_same,
    fun v => htidy.mem_entries_iff, htidy.increasing, fun kept hkept => htidy.eq_mergeSort hkept⟩
  obtain ⟨hvalid, hcut⟩ := htidy.names v hv
  refine ⟨hvalid, ?_⟩
  rw [← hcut, Name.significant, String.length_ofList]
  exact List.length_take_le _ _

-- The second name is the first one in what counts: its value is stored, and its
-- spelling is not.
example :
    VariableChange.run change {} [.set "Very_Long_Name_1" (.int 1), .set "VERY_LONG_NAME_2" (.int 2)]
      = ([.ok none, .ok none],
        ⟨[{ name := "Very_Long_Na", value := .int 2, preserved := false }]⟩) := by
  decide +kernel

end Variables

end ReminderExpr
