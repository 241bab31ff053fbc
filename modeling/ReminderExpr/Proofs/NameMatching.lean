/-
ReminderExpr.Proofs.NameMatching — wherever names are matched, the same
spellings are one name.

Variables and functions are filed under keys in upper case, locals are compared
one by one in lower case, and listings go by an order that ignores case. Each of
them cuts names to what counts first, and a name that is cut already stays as it
is. So a name that is bound in one way is found by the spellings that find it
when it is bound in another.

* `same_iff_compare`, `getElem?_of_same` — what spellings of one name share;
* `Variables.get?_of_set`, `UserFunctions.find?_of_define`, `Locals.get?_bind` —
  what is found after a binding;
* `spellings_match_alike` — all of it, for two spellings.
-/
import ReminderExpr.Proofs.FunctionTable
import ReminderExpr.Proofs.NamesOnBytes
import ReminderExpr.Proofs.VariableTable

namespace ReminderExpr

namespace Name

variable {a b : String} {c : Char}

theorem same_iff_compare :
    same a b = true ↔ compareIgnoreCase (significant a) (significant b) = .eq := by
  rw [same, equalIgnoreCase, beq_iff_eq]

theorem same_significant_right (a b : String) : same a (significant b) = same a b := by
  rw [same_comm, same_significant, same_comm]

theorem getElem?_significant {i : Nat} (h : i < significantLength) (a : String) :
    (significant a).toList[i]? = a.toList[i]? := by
  rw [significant, String.toList_ofList, List.getElem?_take_of_lt h]

/-- In all spellings of a name, each character outside ASCII that counts stands in
its place. -/
theorem getElem?_of_same (h : same a b = true) {i : Nat} (hi : i < significantLength)
    (hc : 128 ≤ c.toNat) (ha : a.toList[i]? = some c) : b.toList[i]? = some c := by
  rw [← getElem?_significant hi] at ha ⊢
  exact (same_iff_recased.1 h).getElem?_eq ha hc

end Name

/-! ## Bindings -/

namespace Variables

variable {vars vars' : Variables} {name : String} {value : Value}

/-- A name that can be defined is put into the map with its value. -/
theorem exists_set (hvalid : Name.isValid name = true) (vars : Variables) (value : Value) :
    ∃ vars' v, vars.set name value = .ok vars' ∧ v.value = value
      ∧ vars'.toMap = vars.toMap.put name (some v) := by
  cases hv : vars.find? name with
  | some v =>
    have hname : ∀ v : Variable, ({ v with value } : Variable).name = v.name := fun _ => rfl
    have hmap := toMap_modify vars name hname
    rw [hv] at hmap
    exact ⟨_, { v with value }, set_of_found hvalid hv, rfl, hmap⟩
  | none =>
    exact ⟨_, _, set_of_new hvalid hv, rfl, toMap_insert (Name.same_significant_self name) hv⟩

theorem get?_eq_toMap (vars : Variables) (name : String) :
    vars.get? name = (vars.toMap (Name.classOf name)).map (·.value) := rfl

/-- A value that has been set is found under every spelling of its name. -/
theorem get?_of_set (h : vars.set name value = .ok vars') (other : String) :
    vars'.get? other = if Name.same name other = true then some value else vars.get? other := by
  have hvalid : Name.isValid name = true := by
    cases hvalid : Name.isValid name with
    | true => rfl
    | false => cases (set_of_invalid hvalid).symm.trans h
  obtain ⟨_, v, hset, hvalue, hmap⟩ := exists_set hvalid vars value
  obtain rfl := Except.ok.inj (hset.symm.trans h)
  rw [get?_eq_toMap, hmap, NameMap.put, Name.update_classOf, Name.same_comm,
    apply_ite (Option.map _), Option.map_some, hvalue, get?_eq_toMap]

end Variables

namespace UserFunctions

open UserFunction

variable {table table' : UserFunctions} {name body : String} {parameters : List String}

/-- A function that has been defined is found under every spelling of its name. -/
theorem find?_of_define (h : table.define name parameters body = .ok table') (other : String) :
    table'.find? other
      = if Name.same name other = true then some (kept name parameters body)
        else table.find? other := by
  rw [define_eq] at h
  split at h
  · obtain rfl := Except.ok.inj h
    have hkey : (kept name parameters body).key = Name.key name := Name.key_significant name
    have hmap : toMap { functions := kept name parameters body :: table.without name }
        = table.toMap.put name (some (kept name parameters body)) := toMap_define hkey
    rw [Name.same_comm]
    exact (congrFun hmap (Name.classOf other)).trans (Name.update_classOf _ _ _ _)
  · cases h

end UserFunctions

/-- A local is found under every spelling of its name that finds no earlier one. -/
theorem Locals.get?_bind (locals : Locals) (name other : String) (value : Value) :
    (locals.bind name value).get? other
      = (locals.get? other).or (if Name.same name other = true then some value else none) := by
  have hlast : ∀ p : String × Value → Bool,
      p (Name.significant name, value) = Name.same name other →
      ([(Name.significant name, value)].find? p).map (·.2)
        = if Name.same name other = true then some value else none := by
    intro p hp
    rw [List.find?_singleton, hp, apply_ite (Option.map _)]
    rfl
  rw [get?, get?, bind, List.find?_append, Option.map_or]
  exact congrArg _ (hlast _ (Name.same_significant name other))

/-! ## Matching -/

namespace Name

open UserFunction (Declarable kept)

/-- Cutting two spellings to what counts, their keys and their comparisons come out
of the bytes as they do of the characters.

The spellings are one name exactly if their keys are equal, if what counts of them
compares as equal, and if it has the same letters in its places; where a character
outside ASCII counts, both have it. This is an equivalence of spellings, and what
counts of a spelling can stand for it on either side.

What is bound under the first spelling, as a variable, as a function or as a
local that no earlier one hides, is found under the second one if they are one
name. If they are not, the second one finds what it did before, and so it does
when a function of the first is undefined. -/
theorem spellings_match_alike (a b : String) :
    (Words.significant a = pure (significant a) ∧ Words.key a = pure (key a)
        ∧ Words.same a b = pure (same a b)
        ∧ Words.compareIgnoreCase a b = compareIgnoreCase a b)
      ∧ (same a b = true ↔ key a = key b)
      ∧ (same a b = true ↔ compareIgnoreCase (significant a) (significant b) = .eq)
      ∧ (same a b = true ↔ List.Forall₂ SameLetter (a.toList.take 12) (b.toList.take 12))
      ∧ (same a b = true → ∀ i < 12, ∀ c, 128 ≤ c.toNat →
          (a.toList[i]? = some c ↔ b.toList[i]? = some c))
      ∧ Equivalence (fun a b => same a b = true)
      ∧ same (significant a) b = same a b ∧ same a (significant b) = same a b
      ∧ (∀ (vars : Variables) (value : Value),
          (isValid a = true → ∃ vars', vars.set a value = .ok vars')
            ∧ ∀ vars', vars.set a value = .ok vars' →
              vars'.get? b = if same a b = true then some value else vars.get? b)
      ∧ (∀ (table : UserFunctions) (parameters : List String) (body : String),
          (isValid a = true → Declarable parameters →
              ∃ table', table.define a parameters body = .ok table')
            ∧ (∀ table', table.define a parameters body = .ok table' →
              table'.find? b
                = if same a b = true then some (kept a parameters body) else table.find? b)
            ∧ (table.undefine a).find? b = if same a b = true then none else table.find? b)
      ∧ ∀ (locals : Locals) (value : Value),
          (locals.bind a value).get? b
            = (locals.get? b).or (if same a b = true then some value else none) := by
  refine ⟨⟨Words.significant_eq a, Words.key_eq a, Words.same_eq a b, Words.compareIgnoreCase_eq a b⟩,
    key_eq_iff.symm, same_iff_compare, ?_, fun hsame i hi c hc => ⟨?_, ?_⟩, setoid.iseqv,
    same_significant a b, same_significant_right a b, fun vars value => ⟨fun hvalid => ?_, ?_⟩,
    fun table parameters body => ⟨fun hvalid hparameters => ?_, ?_, ?_⟩, ?_⟩
  · rw [same_iff_recased, Recased, significant, significant, String.toList_ofList,
      String.toList_ofList, significantLength]
  · exact getElem?_of_same hsame hi hc
  · exact getElem?_of_same (same_comm ▸ hsame) hi hc
  · obtain ⟨vars', _, hset, _⟩ := Variables.exists_set hvalid vars value
    exact ⟨vars', hset⟩
  · exact fun vars' h => Variables.get?_of_set h b
  · rw [UserFunctions.define_eq, if_pos ⟨hvalid, hparameters⟩]
    exact ⟨_, rfl⟩
  · exact fun table' h => UserFunctions.find?_of_define h b
  · rw [same_comm]
    exact table.find?_without a b
  · exact fun locals value => locals.get?_bind a b value

/-- Names that differ after their twelfth character are one name, in every case of
their letters: a variable, a function and a local of the one are found by the
other. The twelfth character itself is the same umlaut on both sides. -/
theorem binding_in_other_spellings :
    let a := "Very_Long_Name_1"
    let b := "VERY_LONG_NAME_2"
    isValid a = true ∧ Declarable ["x"] ∧ same a b = true
      ∧ (∃ vars', ({} : Variables).set a (.int 7) = .ok vars' ∧ vars'.get? b = some (.int 7))
      ∧ (∃ table', ({} : UserFunctions).define a ["x"] "x + 1" = .ok table'
          ∧ table'.find? b = some ⟨"Very_Long_Na", ["x"], "x + 1"⟩)
      ∧ (({} : Locals).bind a (.int 7)).get? b = some (.int 7)
      ∧ same "Größenangabä_1" "GRößENANGABä" = true
      ∧ "GRößENANGABä".toList[11]? = some 'ä' := by
  intro a b
  have hvalid : isValid a = true := by decide +kernel
  have hparameters : Declarable ["x"] := by decide +kernel
  have hsame : same a b = true := by decide +kernel
  have humlauts : same "Größenangabä_1" "GRößENANGABä" = true := by decide +kernel
  obtain ⟨-, -, -, -, -, -, -, -, hvars, hfunctions, hlocals⟩ := spellings_match_alike a b
  obtain ⟨-, -, -, -, hplaces, -⟩ := spellings_match_alike "Größenangabä_1" "GRößENANGABä"
  obtain ⟨vars', hset⟩ := (hvars {} (.int 7)).1 hvalid
  obtain ⟨table', hdefine⟩ := (hfunctions {} ["x"] "x + 1").1 hvalid hparameters
  refine ⟨hvalid, hparameters, hsame, ⟨vars', hset, ?_⟩, ⟨table', hdefine, ?_⟩, ?_, humlauts, ?_⟩
  · rw [(hvars {} (.int 7)).2 vars' hset, if_pos hsame]
  · rw [(hfunctions {} ["x"] "x + 1").2.1 table' hdefine, if_pos hsame]
    decide +kernel
  · rw [hlocals, if_pos hsame]
    rfl
  · exact (hplaces humlauts 11 (by decide) 'ä' (by decide)).1 (by decide +kernel)

-- Umlauts are told apart by case.
example : same "größe" "GRÖßE" = false := by decide +kernel

end Name

end ReminderExpr
