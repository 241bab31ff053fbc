/-
ReminderExpr.Proofs.FirstTrue — the choice of `iif` as a recursion.

`iifOf` counts pairs, computes a place and takes the value out there.
`firstTrue` takes the list apart instead: the pair at the front gives the
choice or is dropped. What the walk keeps is that the pairs passed over stand
before the rest of the list, two values each; so the place that it computes is
one in the whole list, whichever values stand before it.

* `takeOut?_ok` — a value taken out is the one at the place, though the values
  behind it are moved;
* `takeOut?_pickedPlace` — the walk from any pair on;
* `Value.Holds`, `Value.Fails` — conditions;
* `Builtin.iif_selects_first_true` — the choice for all lists of arguments.
-/
import ReminderExpr.Builtin.Apply

namespace ReminderExpr

variable {environment : Environment} {functions : UserFunctions} {v : Value} {vs : List Value}

namespace Choice

/-- The value after the first true condition, or the last value if no
condition is true. -/
def firstTrue : List Value → Option (Result Value)
  | [] => none
  | [otherwise] => some (.ok otherwise)
  | condition :: v :: rest =>
      match truth condition with
      | .error e => some (.error e)
      | .ok true => some (.ok v)
      | .ok false => firstTrue rest

/-! ## Taking a value out -/

theorem swapRemove?_eq_none {place : Nat} (h : vs[place]? = none) :
    swapRemove? vs place = none := by
  rw [swapRemove?, h]
  rfl

/-- Whatever becomes of the rest, the value removed is the one at the place. -/
theorem exists_swapRemove?_eq_some {place : Nat} (h : vs[place]? = some v) :
    ∃ rest, swapRemove? vs place = some (v, rest) := by
  have hne : vs ≠ [] := by
    rintro rfl
    cases h
  rw [swapRemove?, h, List.getLast?_eq_some_getLast hne]
  exact ⟨_, rfl⟩

/-- The value taken out is the one at the place. -/
theorem takeOut?_ok (vs : List Value) (place : Nat) :
    takeOut? vs (.ok place) = (vs[place]?).map .ok := by
  rw [takeOut?]
  cases hplace : vs[place]? with
  | none =>
    rw [swapRemove?_eq_none hplace]
    rfl
  | some v =>
    obtain ⟨rest, hremoved⟩ := exists_swapRemove?_eq_some hplace
    rw [hremoved]
    rfl

theorem takeOut?_append (before : List Value) (v : Value) (after : List Value) :
    takeOut? (before ++ v :: after) (.ok before.length) = some (.ok v) := by
  rw [takeOut?_ok, List.getElem?_append_right (Nat.le_refl _), Nat.sub_self]
  rfl

/-! ## The walk -/

/-- Behind the pairs that have been passed over, the walk comes to the place of
the first true choice of what is left. -/
theorem takeOut?_pickedPlace (before : List Value) {after : List Value} {pairs : Nat}
    (hbefore : before.length = pairs * 2) (hodd : after.length % 2 = 1) :
    takeOut? (before ++ after) (pickedPlace ((before ++ after).length - 1) pairs after)
      = firstTrue after := by
  fun_induction firstTrue after generalizing before pairs with
  | case1 => cases hodd
  | case2 otherwise =>
    have hlast : (before ++ [otherwise]).length - 1 = before.length := by simp
    rw [pickedPlace, hlast]
    · exact takeOut?_append before otherwise []
    · nofun
  | case3 condition v rest e he =>
    rw [pickedPlace, he]
    rfl
  | case4 condition v rest htrue =>
    have hplace := takeOut?_append (before ++ [condition]) v rest
    rw [List.length_append, hbefore, List.append_assoc] at hplace
    rw [pickedPlace, htrue]
    exact hplace
  | case5 condition v rest hfalse ih =>
    have hpassed : (before ++ [condition, v]).length = (pairs + 1) * 2 := by
      rw [List.length_append, hbefore, Nat.add_mul]
      rfl
    have hrest : rest.length % 2 = 1 := by
      simp only [List.length_cons] at hodd
      omega
    have hstep := ih (before ++ [condition, v]) hpassed hrest
    rw [List.append_assoc] at hstep
    rw [pickedPlace, hfalse]
    exact hstep

/-- The choice is that of the recursion. -/
theorem iifOf_eq (vs : List Value) :
    iifOf vs = if vs.length % 2 = 0 then some (.error .iifOdd) else firstTrue vs := by
  unfold iifOf
  split
  · rfl
  · rename_i hodd
    exact takeOut?_pickedPlace [] rfl (Nat.mod_two_ne_zero.1 hodd)

end Choice

/-! ## Conditions -/

/-- An integer other than 0, or a string that is not empty. -/
def Value.Holds : Value → Prop
  | .int n => n ≠ 0
  | .str s => s ≠ ""
  | _ => False

/-- The integer 0, or the empty string. -/
def Value.Fails : Value → Prop
  | .int n => n = 0
  | .str s => s = ""
  | _ => False

namespace Choice

theorem truth_of_holds (h : v.Holds) : truth v = .ok true := by
  cases v with
  | int n => exact congrArg Except.ok (bne_iff_ne.2 h)
  | str s => exact congrArg Except.ok (bne_iff_ne.2 h)
  | _ => cases h

theorem truth_of_fails (h : v.Fails) : truth v = .ok false := by
  cases v with
  | int n => exact congrArg Except.ok (bne_eq_false_iff_eq.2 h)
  | str s => exact congrArg Except.ok (bne_eq_false_iff_eq.2 h)
  | _ => cases h

theorem truth_of_neither (hholds : ¬ v.Holds) (hfails : ¬ v.Fails) : truth v = .error .badType := by
  cases v with
  | int n => exact absurd hfails hholds
  | str s => exact absurd hfails hholds
  | _ => rfl

/-- The arguments that some pairs of a condition and a value make up. -/
def argumentsOf (pairs : List (Value × Value)) : List Value :=
  pairs.flatMap fun (condition, v) => [condition, v]

/-- Two arguments more do not make an odd number of them even. -/
theorem length_argumentsOf_append (pairs : List (Value × Value)) :
    (argumentsOf pairs ++ vs).length % 2 = vs.length % 2 := by
  induction pairs with
  | nil => rfl
  | cons pair pairs ih =>
    have hlength : (argumentsOf (pair :: pairs) ++ vs).length
        = (argumentsOf pairs ++ vs).length + 2 := rfl
    rw [hlength, Nat.add_mod_right]
    exact ih

end Choice

namespace Builtin

open Choice

variable {condition : Value} {rest : List Value} {passed : List (Value × Value)}

/-! ## The choice -/

theorem apply_iif_odd (environment : Environment) (functions : UserFunctions)
    (hodd : vs.length % 2 = 1) :
    iif.apply environment functions vs = (firstTrue vs).getD (.error .stackError) := by
  show (iifOf vs).getD _ = _
  rw [iifOf_eq, if_neg (by omega)]

theorem apply_iif_even (environment : Environment) (functions : UserFunctions)
    (heven : vs.length % 2 = 0) : iif.apply environment functions vs = .error .iifOdd := by
  show (iifOf vs).getD _ = _
  rw [iifOf_eq, if_pos heven]
  rfl

theorem apply_iif_cons (environment : Environment) (functions : UserFunctions)
    (condition v : Value) (hodd : rest.length % 2 = 1) :
    iif.apply environment functions (condition :: v :: rest) = match truth condition with
      | .error e => .error e
      | .ok true => .ok v
      | .ok false => iif.apply environment functions rest := by
  have hwhole : (condition :: v :: rest).length % 2 = 1 := by
    simp only [List.length_cons]
    omega
  rw [apply_iif_odd environment functions hwhole, apply_iif_odd environment functions hodd,
    firstTrue]
  split <;> rfl

theorem apply_iif_of_holds (hodd : rest.length % 2 = 1) (h : condition.Holds) :
    iif.apply environment functions (condition :: v :: rest) = .ok v := by
  rw [apply_iif_cons environment functions condition v hodd, truth_of_holds h]

theorem apply_iif_of_fails (hodd : rest.length % 2 = 1) (h : condition.Fails) :
    iif.apply environment functions (condition :: v :: rest)
      = iif.apply environment functions rest := by
  rw [apply_iif_cons environment functions condition v hodd, truth_of_fails h]

theorem apply_iif_of_neither (hodd : rest.length % 2 = 1) (hholds : ¬ condition.Holds)
    (hfails : ¬ condition.Fails) :
    iif.apply environment functions (condition :: v :: rest) = .error .badType := by
  rw [apply_iif_cons environment functions condition v hodd, truth_of_neither hholds hfails]

/-- A condition at the front gives the choice, leaves it to the arguments behind
the first two, or is no condition. -/
theorem apply_iif_by_kind (environment : Environment) (functions : UserFunctions)
    (condition v : Value) (hodd : rest.length % 2 = 1) :
    iif.apply environment functions (condition :: v :: rest) = match condition with
      | .int n => if n ≠ 0 then .ok v else iif.apply environment functions rest
      | .str s => if s ≠ "" then .ok v else iif.apply environment functions rest
      | .date _ | .time _ | .dateTime _ => .error .badType := by
  cases condition with
  | int n =>
    by_cases hn : n = 0
    · have hfails : (Value.int n).Fails := hn
      exact (apply_iif_of_fails hodd hfails).trans (if_neg (not_not_intro hn)).symm
    · have hholds : (Value.int n).Holds := hn
      exact (apply_iif_of_holds hodd hholds).trans (if_pos hn).symm
  | str s =>
    by_cases hs : s = ""
    · have hfails : (Value.str s).Fails := hs
      exact (apply_iif_of_fails hodd hfails).trans (if_neg (not_not_intro hs)).symm
    · have hholds : (Value.str s).Holds := hs
      exact (apply_iif_of_holds hodd hholds).trans (if_pos hs).symm
  | _ => exact apply_iif_of_neither hodd id id

/-- Pairs whose conditions fail do not count, whatever their values are. -/
theorem apply_iif_passed (hpassed : ∀ pair ∈ passed, pair.1.Fails) (hodd : vs.length % 2 = 1) :
    iif.apply environment functions (argumentsOf passed ++ vs)
      = iif.apply environment functions vs := by
  induction passed with
  | nil => rfl
  | cons pair passed ih =>
    obtain ⟨hpair, hrest⟩ := List.forall_mem_cons.1 hpassed
    have hlength : (argumentsOf passed ++ vs).length % 2 = 1 :=
      (length_argumentsOf_append passed).trans hodd
    exact (apply_iif_of_fails hlength hpair).trans (ih hrest)

/-- The choice of `iif` is that of the first true condition.

A single argument is the choice. A condition at the front of an odd number of
arguments that is an integer other than 0 or a string that is not empty makes
the value after it the choice; 0 or an empty string leaves the choice to the
arguments behind the two; a condition of any other kind is a `badType`. So, if
all conditions before one fail, this one decides by itself: neither the values
that are passed over nor anything behind the chosen value counts, of whatever
kinds they are. An even number of arguments is an `iifOdd`, whatever they are. -/
theorem iif_selects_first_true (environment : Environment) (functions : UserFunctions) :
    let choice := iif.apply environment functions
    (∀ otherwise, choice [otherwise] = .ok otherwise)
      ∧ (∀ condition v rest, rest.length % 2 = 1 →
          choice (condition :: v :: rest) = match condition with
            | .int n => if n ≠ 0 then .ok v else choice rest
            | .str s => if s ≠ "" then .ok v else choice rest
            | .date _ | .time _ | .dateTime _ => .error .badType)
      ∧ (∀ passed : List (Value × Value), (∀ pair ∈ passed, pair.1.Fails) →
          (∀ otherwise, choice (argumentsOf passed ++ [otherwise]) = .ok otherwise)
            ∧ ∀ condition v rest, rest.length % 2 = 1 →
                (condition.Holds →
                    choice (argumentsOf passed ++ condition :: v :: rest) = .ok v)
                  ∧ (¬ condition.Holds → ¬ condition.Fails →
                    choice (argumentsOf passed ++ condition :: v :: rest) = .error .badType))
      ∧ ∀ vs, vs.length % 2 = 0 → choice vs = .error .iifOdd := by
  intro choice
  have hsingle : ∀ otherwise, choice [otherwise] = .ok otherwise := by
    intro otherwise
    have hodd : [otherwise].length % 2 = 1 := rfl
    exact apply_iif_odd environment functions hodd
  refine ⟨hsingle,
    fun condition v rest hodd => apply_iif_by_kind environment functions condition v hodd,
    fun passed hpassed => ⟨fun otherwise => ?_, fun condition v rest hodd => ?_⟩,
    fun vs heven => apply_iif_even environment functions heven⟩
  · exact (apply_iif_passed hpassed rfl).trans (hsingle otherwise)
  · have hwhole : (condition :: v :: rest).length % 2 = 1 := by
      simp only [List.length_cons]
      omega
    refine ⟨fun hholds => ?_, fun hholds hfails => ?_⟩
    · exact (apply_iif_passed hpassed hwhole).trans (apply_iif_of_holds hodd hholds)
    · exact (apply_iif_passed hpassed hwhole).trans (apply_iif_of_neither hodd hholds hfails)

/-- An empty string and 0 are passed over with values of other kinds; the choice
is a moment, and dates behind it that would be no conditions do not matter. The
first of them is no condition when its turn comes. -/
theorem choice_before_dates :
    let passed : List (Value × Value) := [(.str "", .date 5), (.int 0, .time 3)]
    (∀ pair ∈ passed, pair.1.Fails)
      ∧ iif.apply {} {}
            (argumentsOf passed ++ .str "0" :: .dateTime 7 :: [.date 1, .int 2, .date 3])
          = .ok (.dateTime 7)
      ∧ iif.apply {} {} (argumentsOf passed ++ .date 1 :: .int 2 :: [.date 3]) = .error .badType
      ∧ iif.apply {} {} [.date 1, .int 2] = .error .iifOdd := by
  intro passed
  obtain ⟨-, -, hchoice, heven⟩ := iif_selects_first_true {} {}
  have hpassed : ∀ pair ∈ passed, pair.1.Fails := by
    simp [passed, Value.Fails]
  obtain ⟨-, hcondition⟩ := hchoice passed hpassed
  have htext : (Value.str "0").Holds := by
    show "0" ≠ ""
    decide
  exact ⟨hpassed, (hcondition _ _ _ rfl).1 htext, (hcondition _ _ _ rfl).2 id id, heven _ rfl⟩

end Builtin

end ReminderExpr
