/-
ReminderExpr.Proofs.ValueOrder — comparisons order values, and extremes go by
the order.

`Value.order` compares the numbers of two values, and their texts where they
have no number: as such it is a total preorder of all values, of every kind.
On the values of one kind nothing but a value itself is equal to it. The
comparisons read this order; `max` and `min` walk a list with the best value so
far, which every value before it is short of, and which no value after it is
beyond (`Choice.Foremost`).

* `order_eq_compareLex` — the order, by numbers and texts;
* `holds_iff_of_kind`, `fails_iff_of_kind`, `apply_of_kind_ne` — what the
  comparisons make of it;
* `Foremost.passed`, `Foremost.kept`, `foremost_of_extremeFrom` — one value more
  in front of a list, and the walk along it;
* `comparisons_order_values` — all of this together.
-/
import ReminderExpr.Builtin.Apply
import ReminderExpr.Proofs.ByteOrder

namespace ReminderExpr

/-! ## The order of values -/

namespace Value

/-- The text of a string; other values have none. -/
def text : Value → String
  | .str s => s
  | _ => ""

/-- Values are ordered by their numbers, and where there are none by their texts. -/
theorem order_eq_compareLex : Value.order = compareLex (compareOn number?) (compareOn text) := by
  funext a b
  have hgreater : ∀ n : Int, compare (some n) none = .gt := fun _ => rfl
  have hless : ∀ n : Int, compare none (some n) = .lt := fun _ => rfl
  cases a <;> cases b <;> simp [order, compareLex, compareOn, number?, text, hgreater, hless]

instance : Std.TransCmp Value.order := order_eq_compareLex ▸ inferInstance

@[simp] theorem order_self (a : Value) : a.order a = .eq := Std.ReflCmp.compare_self

variable {a b : Value}

/-- Values of one kind that the order does not tell apart are the same. -/
theorem order_eq_eq_iff (h : a.kind = b.kind) : a.order b = .eq ↔ a = b := by
  cases a <;> cases b <;> cases h <;> simp [order, number?]

theorem order_str_eq_lt_iff {s t : String} : (str s).order (str t) = .lt ↔ s < t :=
  compare_lt_iff_lt

end Value

variable {settings : ArithmeticSettings} {op op' : BinaryOp} {a b c : Value}

/-! ## Comparisons -/

namespace BinaryOp

/-- Whether a comparison of two values is true. -/
def Holds (settings : ArithmeticSettings) (op : BinaryOp) (a b : Value) : Prop :=
  op.apply settings a b = .ok (.int 1)

/-- Whether a comparison of two values is false. -/
def Fails (settings : ArithmeticSettings) (op : BinaryOp) (a b : Value) : Prop :=
  op.apply settings a b = .ok (.int 0)

instance : Decidable (op.Holds settings a b) := inferInstanceAs (Decidable (_ = _))

instance : Decidable (op.Fails settings a b) := inferInstanceAs (Decidable (_ = _))

/-- The operators that compare. -/
def compares : BinaryOp → Bool
  | .eq | .notEq | .lt | .ltEq | .gt | .gtEq => true
  | _ => false

theorem apply_eq_compareValues (h : op.compares = true) (a b : Value) :
    op.apply settings a b = compareValues op a b := by
  cases op <;> first | rfl | cases h

/-- Comparing two values of one kind is true or false as their order has it. -/
theorem apply_of_kind (h : op.compares = true) (hkind : a.kind = b.kind) :
    op.apply settings a b = .ok (.ofBool (op.accepts (a.order b))) := by
  rw [apply_eq_compareValues h]
  exact if_pos hkind

/-- Values of two kinds are unequal, and have no order. -/
theorem apply_of_kind_ne (h : op.compares = true) (hkind : a.kind ≠ b.kind) :
    op.apply settings a b
      = if op = eq then .ok (.int 0) else if op = notEq then .ok (.int 1)
        else .error .badType := by
  rw [apply_eq_compareValues h]
  unfold compareValues
  rw [if_neg hkind]
  cases op <;> rfl

theorem holds_iff_of_kind (h : op.compares = true) (hkind : a.kind = b.kind) :
    op.Holds settings a b ↔ op.accepts (a.order b) = true := by
  rw [Holds, apply_of_kind h hkind]
  cases op.accepts (a.order b) <;> simp [Value.ofBool]

theorem fails_iff_of_kind (h : op.compares = true) (hkind : a.kind = b.kind) :
    op.Fails settings a b ↔ op.accepts (a.order b) = false := by
  rw [Fails, apply_of_kind h hkind]
  cases op.accepts (a.order b) <;> simp [Value.ofBool]

/-- A comparison other than `!=` that is true is one of values of one kind. -/
theorem holds_iff (h : op.compares = true) (hne : op ≠ notEq) :
    op.Holds settings a b ↔ a.kind = b.kind ∧ op.accepts (a.order b) = true := by
  by_cases hkind : a.kind = b.kind
  · rw [holds_iff_of_kind h hkind, and_iff_right hkind]
  · rw [Holds, apply_of_kind_ne h hkind, if_neg hne]
    split <;> simp [hkind]

theorem lt_holds_iff : lt.Holds settings a b ↔ a.kind = b.kind ∧ a.order b = .lt := by
  rw [holds_iff rfl (by decide), accepts, beq_iff_eq]

theorem lt_trans_of_holds (hab : lt.Holds settings a b) (hbc : lt.Holds settings b c) :
    lt.Holds settings a c := by
  rw [lt_holds_iff] at *
  exact ⟨hab.1.trans hbc.1, Std.TransCmp.lt_trans hab.2 hbc.2⟩

theorem eq_holds_iff : eq.Holds settings a b ↔ a = b := by
  rw [holds_iff rfl (by decide), accepts, beq_iff_eq]
  constructor
  · rintro ⟨hkind, horder⟩
    exact (Value.order_eq_eq_iff hkind).1 horder
  · rintro rfl
    exact ⟨rfl, a.order_self⟩

/-- Of two values of one kind, exactly one is less than, equal to or greater than
the other. -/
theorem exactly_one_of_kind (settings : ArithmeticSettings) (hkind : a.kind = b.kind) :
    lt.Holds settings a b ∧ eq.Fails settings a b ∧ gt.Fails settings a b
      ∨ lt.Fails settings a b ∧ eq.Holds settings a b ∧ gt.Fails settings a b
      ∨ lt.Fails settings a b ∧ eq.Fails settings a b ∧ gt.Holds settings a b := by
  have hholds : ∀ op : BinaryOp, op.compares = true →
      (op.Holds settings a b ↔ op.accepts (a.order b) = true) :=
    fun _ h => holds_iff_of_kind h hkind
  have hfails : ∀ op : BinaryOp, op.compares = true →
      (op.Fails settings a b ↔ op.accepts (a.order b) = false) :=
    fun _ h => fails_iff_of_kind h hkind
  rw [hholds lt rfl, hfails lt rfl, hholds eq rfl, hfails eq rfl, hholds gt rfl, hfails gt rfl]
  cases a.order b <;> decide

/-- Whether one comparison of two values is true exactly if another is false. -/
def Opposite (settings : ArithmeticSettings) (op op' : BinaryOp) (a b : Value) : Prop :=
  (op.Holds settings a b ↔ op'.Fails settings a b)
    ∧ (op.Fails settings a b ↔ op'.Holds settings a b)

theorem opposite_of_accepts (h : op.compares = true) (h' : op'.compares = true)
    (haccepts : ∀ o, op.accepts o = !op'.accepts o) (hkind : a.kind = b.kind) :
    op.Opposite settings op' a b := by
  rw [Opposite, holds_iff_of_kind h hkind, holds_iff_of_kind h' hkind, fails_iff_of_kind h hkind,
    fails_iff_of_kind h' hkind, haccepts]
  simp

end BinaryOp

variable {wanted : Ordering} {v : Value} {rest vs : List Value}

/-! ## Extremes -/

namespace Value

/-- What is beyond a value is beyond all that this value is beyond. -/
theorem beyond_trans (hwanted : wanted ≠ .eq) (hab : a.order b = wanted)
    (hbc : b.order c = wanted) : a.order c = wanted := by
  cases wanted with
  | lt => exact Std.TransCmp.lt_trans hab hbc
  | eq => exact absurd rfl hwanted
  | gt => exact Std.TransCmp.gt_trans hab hbc

/-- What is beyond a value is beyond all that are not. -/
theorem beyond_of_not_beyond (hwanted : wanted ≠ .eq) (hab : a.order b = wanted)
    (hcb : c.order b ≠ wanted) : a.order c = wanted := by
  cases wanted with
  | lt =>
    have hle := Std.OrientedCmp.isLE_of_isGE (Ordering.isGE_iff_ne_lt.2 hcb)
    exact Std.TransCmp.lt_of_lt_of_isLE hab hle
  | eq => exact absurd rfl hwanted
  | gt =>
    have hge := Std.OrientedCmp.isGE_of_isLE (Ordering.isLE_iff_ne_gt.2 hcb)
    exact Std.TransCmp.gt_of_gt_of_isGE hab hge

end Value

namespace Choice

/-- How the extreme of some values stands among them: it is beyond all before
it, and none after it is beyond it. -/
def Foremost (wanted : Ordering) (v : Value) (vs : List Value) : Prop :=
  ∃ before after, vs = before ++ v :: after
    ∧ (∀ w ∈ before, v.order w = wanted) ∧ ∀ w ∈ after, w.order v ≠ wanted

theorem foremost_singleton (wanted : Ordering) (v : Value) : Foremost wanted v [v] :=
  ⟨[], [], rfl, nofun, nofun⟩

/-- A value before those that the foremost is among, and that the first of them
is beyond. -/
theorem Foremost.passed (hwanted : wanted ≠ .eq) (h : Foremost wanted v (b :: rest))
    (hb : b.order a = wanted) : Foremost wanted v (a :: b :: rest) := by
  obtain ⟨before, after, hvs, hbefore, hafter⟩ := h
  refine ⟨a :: before, after, congrArg (a :: ·) hvs, List.forall_mem_cons.2 ⟨?_, hbefore⟩, hafter⟩
  cases before with
  | nil =>
    cases hvs
    exact hb
  | cons first before =>
    cases hvs
    exact Value.beyond_trans hwanted (hbefore b List.mem_cons_self) hb

/-- A value that is not beyond the first one comes right after it. -/
theorem Foremost.kept (hwanted : wanted ≠ .eq) (h : Foremost wanted v (a :: rest))
    (hb : b.order a ≠ wanted) : Foremost wanted v (a :: b :: rest) := by
  obtain ⟨before, after, hvs, hbefore, hafter⟩ := h
  cases before with
  | nil =>
    cases hvs
    exact ⟨[], b :: rest, rfl, nofun, List.forall_mem_cons.2 ⟨hb, hafter⟩⟩
  | cons first before =>
    cases hvs
    have hfirst := hbefore a List.mem_cons_self
    refine ⟨a :: b :: before, after, rfl, ?_, hafter⟩
    simp only [List.forall_mem_cons] at hbefore ⊢
    exact ⟨hfirst, Value.beyond_of_not_beyond hwanted hfirst hb, hbefore.2⟩

/-- The extreme of values of one kind is the foremost of them. -/
theorem foremost_of_extremeFrom (hwanted : wanted ≠ .eq) (best : Value) (rest : List Value)
    (hkind : ∀ w ∈ rest, w.kind = best.kind) :
    ∃ v, extremeFrom wanted best rest = .ok v ∧ Foremost wanted v (best :: rest) := by
  induction rest generalizing best with
  | nil => exact ⟨best, rfl, foremost_singleton wanted best⟩
  | cons w rest ih =>
    obtain ⟨hw, hrest⟩ := List.forall_mem_cons.1 hkind
    rw [extremeFrom, if_neg (by simp [hw])]
    by_cases hbeyond : w.order best = wanted
    · rw [if_pos hbeyond]
      obtain ⟨v, hv, hforemost⟩ := ih w fun u hu => (hrest u hu).trans hw.symm
      exact ⟨v, hv, hforemost.passed hwanted hbeyond⟩
    · rw [if_neg hbeyond]
      obtain ⟨v, hv, hforemost⟩ := ih best hrest
      exact ⟨v, hv, hforemost.kept hwanted hbeyond⟩

/-- The extreme of values of several kinds is refused. -/
theorem extremeFrom_of_mixed (wanted : Ordering) (best : Value) (rest : List Value)
    (hkind : ∃ w ∈ rest, w.kind ≠ best.kind) :
    extremeFrom wanted best rest = .error .badType := by
  induction rest generalizing best with
  | nil =>
    obtain ⟨w, hw, -⟩ := hkind
    cases hw
  | cons w rest ih =>
    rw [extremeFrom]
    by_cases hw : w.kind = best.kind
    · rw [if_neg (by simp [hw])]
      obtain ⟨u, hu, hother⟩ := hkind
      -- Whichever value is the best so far, it is of the first one's kind.
      refine ih _ ⟨u, ?_, ?_⟩
      · exact (List.mem_cons.1 hu).resolve_left fun h => hother (h ▸ hw)
      · split
        · rwa [hw]
        · exact hother
    · rw [if_pos hw]

/-- The leftmost of some values that compares so with all of them. -/
def leftmost (settings : ArithmeticSettings) (op : BinaryOp) (vs : List Value) : Option Value :=
  vs.find? fun v => vs.all fun w => decide (op.Holds settings v w)

/-- The foremost of some values of one kind is the leftmost one that no value is
beyond. -/
theorem Foremost.leftmost_eq (hcompares : op.compares = true)
    (haccepts : ∀ o, op.accepts o = (o.swap != wanted)) (hwanted : wanted ≠ .eq)
    (hkind : ∀ a ∈ vs, ∀ b ∈ vs, a.kind = b.kind) (h : Foremost wanted v vs) :
    leftmost settings op vs = some v := by
  have hholds : ∀ a ∈ vs, ∀ b ∈ vs, op.Holds settings a b ↔ b.order a ≠ wanted := by
    intro a ha b hb
    rw [BinaryOp.holds_iff_of_kind hcompares (hkind a ha b hb), haccepts,
      ← Std.OrientedCmp.eq_swap, bne_iff_ne]
  obtain ⟨before, after, rfl, hbefore, hafter⟩ := h
  have hv : v ∈ before ++ v :: after := by simp
  refine List.find?_eq_some_iff_append.2 ⟨?_, before, after, rfl, fun w hw => ?_⟩
  · simp only [List.all_eq_true, decide_eq_true_eq]
    intro w hw
    rw [hholds v hv w hw]
    rcases List.mem_append.1 hw with hpassed | hlater
    · intro hbeyond
      have hself := Value.beyond_trans hwanted (hbefore w hpassed) hbeyond
      rw [Value.order_self] at hself
      exact hwanted hself.symm
    · rcases List.mem_cons.1 hlater with rfl | hlater
      · rw [Value.order_self]
        exact hwanted.symm
      · exact hafter w hlater
  · have hmem : w ∈ before ++ v :: after := List.mem_append_left _ hw
    simp only [Bool.not_eq_true', List.all_eq_false, decide_eq_true_eq]
    exact ⟨v, hv, fun h => (hholds w hmem v hv).1 h (hbefore w hw)⟩

theorem extreme_eq (wanted : Ordering) (hvs : vs ≠ []) :
    ∃ best rest, vs = best :: rest ∧ extreme wanted vs = some (extremeFrom wanted best rest) := by
  cases vs with
  | nil => exact absurd rfl hvs
  | cons best rest => exact ⟨best, rest, rfl, rfl⟩

end Choice

namespace Builtin

open Choice

/-- Whether a function gives the leftmost of its arguments that compares so with
all of them, and refuses arguments of several kinds and no others. -/
def PicksLeftmost (settings : ArithmeticSettings) (environment : Environment)
    (functions : UserFunctions) (b : Builtin) (op : BinaryOp) : Prop :=
  ∀ vs, vs ≠ [] →
    ((∀ v ∈ vs, ∀ w ∈ vs, v.kind = w.kind) →
      ∃ v, leftmost settings op vs = some v ∧ b.apply environment functions vs = .ok v)
    ∧ (b.apply environment functions vs = .error .badType ↔ ∃ v ∈ vs, ∃ w ∈ vs, v.kind ≠ w.kind)

theorem picksLeftmost_of_extreme {environment : Environment} {functions : UserFunctions}
    {b : Builtin} (hb : ∀ vs, b.apply environment functions vs
      = (extreme wanted vs).getD (.error .stackError))
    (hcompares : op.compares = true) (haccepts : ∀ o, op.accepts o = (o.swap != wanted))
    (hwanted : wanted ≠ .eq) : b.PicksLeftmost settings environment functions op := by
  intro vs hvs
  obtain ⟨best, rest, rfl, hextreme⟩ := extreme_eq wanted hvs
  rw [hb, hextreme, Option.getD_some]
  constructor
  · intro hkind
    obtain ⟨v, hv, hforemost⟩ := foremost_of_extremeFrom hwanted best rest fun w hw =>
      hkind w (List.mem_cons_of_mem _ hw) best List.mem_cons_self
    exact ⟨v, hforemost.leftmost_eq hcompares haccepts hwanted hkind, hv⟩
  · constructor
    · intro hrefused
      by_contra hsame
      simp only [not_exists, not_and, not_not] at hsame
      obtain ⟨v, hv, -⟩ := foremost_of_extremeFrom hwanted best rest fun w hw =>
        hsame w (List.mem_cons_of_mem _ hw) best List.mem_cons_self
      rw [hv] at hrefused
      cases hrefused
    · rintro ⟨v, hv, w, hw, hother⟩
      refine extremeFrom_of_mixed wanted best rest ?_
      by_contra hsame
      simp only [not_exists, not_and, not_not] at hsame
      have hall : ∀ u ∈ best :: rest, u.kind = best.kind := List.forall_mem_cons.2 ⟨rfl, hsame⟩
      exact hother ((hall v hv).trans (hall w hw).symm)

end Builtin

/-- Comparison orders the values of every kind totally, strings by their bytes,
which is by the codes of their characters; and the extremes of values go by it.

Of two values of one kind exactly one is less than, equal to or greater than
the other, `<=`, `>=` and `!=` say the opposite of `>`, `<` and `==`, and only a
value itself is equal to it. Values of two kinds are unequal and have no order.
The greatest of some values of one kind is the leftmost one that is not less
than any, the least one the leftmost one that is not greater; they are refused
exactly if two of them have different kinds. -/
theorem comparisons_order_values (settings : ArithmeticSettings) (environment : Environment)
    (functions : UserFunctions) :
    (∀ a b : Value, a.kind = b.kind →
        (BinaryOp.lt.Holds settings a b ∧ BinaryOp.eq.Fails settings a b
            ∧ BinaryOp.gt.Fails settings a b
          ∨ BinaryOp.lt.Fails settings a b ∧ BinaryOp.eq.Holds settings a b
            ∧ BinaryOp.gt.Fails settings a b
          ∨ BinaryOp.lt.Fails settings a b ∧ BinaryOp.eq.Fails settings a b
            ∧ BinaryOp.gt.Holds settings a b)
        ∧ BinaryOp.ltEq.Opposite settings .gt a b ∧ BinaryOp.gtEq.Opposite settings .lt a b
        ∧ BinaryOp.notEq.Opposite settings .eq a b)
      ∧ (∀ a b c : Value, BinaryOp.lt.Holds settings a b → BinaryOp.lt.Holds settings b c →
          BinaryOp.lt.Holds settings a c)
      ∧ (∀ a b : Value, BinaryOp.eq.Holds settings a b ↔ a = b)
      ∧ (∀ s t : String,
          (BinaryOp.lt.Holds settings (.str s) (.str t) ↔ Text.bytes s < Text.bytes t)
            ∧ (Text.bytes s < Text.bytes t ↔ Text.codes s < Text.codes t))
      ∧ (∀ a b : Value, a.kind ≠ b.kind →
          BinaryOp.eq.Fails settings a b ∧ BinaryOp.notEq.Holds settings a b
            ∧ ∀ op ∈ [BinaryOp.lt, .ltEq, .gt, .gtEq], op.apply settings a b = .error .badType)
      ∧ Builtin.max.PicksLeftmost settings environment functions .gtEq
      ∧ Builtin.min.PicksLeftmost settings environment functions .ltEq := by
  refine ⟨fun a b hkind => ⟨?_, ?_, ?_, ?_⟩, fun a b c => BinaryOp.lt_trans_of_holds,
    fun a b => BinaryOp.eq_holds_iff, fun s t => ⟨?_, ?_⟩, fun a b hkind => ⟨?_, ?_, ?_⟩, ?_, ?_⟩
  · exact BinaryOp.exactly_one_of_kind settings hkind
  · exact BinaryOp.opposite_of_accepts rfl rfl (by decide) hkind
  · exact BinaryOp.opposite_of_accepts rfl rfl (by decide) hkind
  · exact BinaryOp.opposite_of_accepts rfl rfl (fun _ => rfl) hkind
  · rw [BinaryOp.lt_holds_iff, Value.order_str_eq_lt_iff, Text.bytes_lt_iff]
    exact and_iff_right rfl
  · rw [Text.bytes_lt_iff, Text.codes_lt_iff]
  · exact BinaryOp.apply_of_kind_ne rfl hkind
  · exact BinaryOp.apply_of_kind_ne rfl hkind
  · simp only [List.forall_mem_cons, List.not_mem_nil, false_imp_iff, implies_true, and_true]
    exact ⟨BinaryOp.apply_of_kind_ne rfl hkind, BinaryOp.apply_of_kind_ne rfl hkind,
      BinaryOp.apply_of_kind_ne rfl hkind, BinaryOp.apply_of_kind_ne rfl hkind⟩
  · exact Builtin.picksLeftmost_of_extreme (fun _ => rfl) rfl (by decide) (by decide)
  · exact Builtin.picksLeftmost_of_extreme (fun _ => rfl) rfl (by decide) (by decide)

/-- Texts of wide characters, in an order that is not that of their last bytes,
and values of two kinds. -/
theorem extremes_of_wide_characters :
    let narrow : Value := .str "\uffff"
    let wide : Value := .str "😀"
    narrow.kind = wide.kind ∧ BinaryOp.lt.Holds {} narrow wide
      ∧ Builtin.max.apply {} {} [narrow, wide, narrow] = .ok wide
      ∧ Builtin.min.apply {} {} [.int 2, .int 1, .date 0] = .error .badType := by
  intro narrow wide
  obtain ⟨-, -, -, htext, -, hmax, hmin⟩ := comparisons_order_values {} {} {}
  refine ⟨rfl, ?_, ?_, ?_⟩
  · exact (htext _ _).1.2 ((htext _ _).2.2 (by decide +kernel))
  · obtain ⟨v, hv, happly⟩ := (hmax [narrow, wide, narrow] nofun).1 (by decide +kernel)
    have hwide : Choice.leftmost {} .gtEq [narrow, wide, narrow] = some wide := by decide +kernel
    rw [happly, Option.some.inj (hv.symm.trans hwide)]
  · exact (hmin [.int 2, .int 1, .date 0] nofun).2.2 (by decide +kernel)

end ReminderExpr
