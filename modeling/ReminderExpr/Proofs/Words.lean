/-
ReminderExpr.Proofs.Words — computing with machine words.

A `Checked` computation yields a value or a failure, or is `impossible`: it
would leave the range of its words or of the data that it looks at, or need a
substitute for a number that its word does not hold. Integers have 32, 64 or 128
bits; sizes and positions are natural numbers, and every sum of them below is at
most one more than the length of a text or a list in memory. Texts are addressed
by bytes.

Each operation comes with the equation that holds where it is possible, so that
a computation is found possible by rewriting.
-/
import Mathlib.Data.List.Basic
import ReminderExpr.Value

namespace ReminderExpr.Words

/-- A computation with a value, a failure, or neither. -/
abbrev Checked (α : Type) := ExceptT EvalError Option α

variable {α β : Type}

/-- What cannot be computed. -/
def impossible : Checked α := ExceptT.mk none

/-- A value or a failure as a computation. -/
def ofResult (r : Result α) : Checked α := ExceptT.mk (some r)

@[simp] theorem ofResult_ok (a : α) : ofResult (.ok a) = pure a := rfl

/-- What follows a result may be computed, if it is possible for the value that
the result has. -/
theorem ofResult_bind {r : Result α} {f : α → Checked β} {g : α → Result β}
    (h : ∀ a, r = .ok a → f a = ofResult (g a)) : (ofResult r >>= f) = ofResult (r >>= g) := by
  cases r with
  | error e => rfl
  | ok a => exact h a rfl

theorem ofResult_map {m : Checked α} {r : Result α} (h : m = ofResult r) {f : α → β} :
    (m >>= fun a => pure (f a)) = ofResult (r >>= fun a => .ok (f a)) := by
  rw [h]
  exact ofResult_bind fun _ _ => rfl

/-- A computation whose failure is looked at. -/
def attempt (m : Checked α) : Checked (Result α) := ExceptT.mk (m.run.map .ok)

@[simp] theorem attempt_ofResult (r : Result α) : attempt (ofResult r) = pure r := rfl

/-! ## Integers -/

/-- An integer of 64 bits. -/
def whole64 (n : Int) : Checked Int := if fits64 n then pure n else impossible

/-- An integer of 32 bits. -/
def whole32 (n : Int) : Checked Int := if fits32 n then pure n else impossible

/-- An integer of 128 bits. -/
def whole128 (n : Int) : Checked Int :=
  if -0x80000000000000000000000000000000 ≤ n ∧ n < 0x80000000000000000000000000000000 then pure n
  else impossible

def add (a b : Int) : Checked Int := whole64 (a + b)

def sub (a b : Int) : Checked Int := whole64 (a - b)

def mul (a b : Int) : Checked Int := whole64 (a * b)

/-- An integer as a number of 32 bits without a sign. -/
def unsigned32 (n : Int) : Checked Nat :=
  if 0 ≤ n ∧ n < 0x100000000 then pure n.toNat else impossible

/-- An integer of 64 bits as a size or a position. -/
def size (n : Int) : Checked Nat := if 0 ≤ n then pure n.toNat else impossible

theorem whole64_eq {n : Int} (h : -0x8000000000000000 ≤ n ∧ n < 0x8000000000000000) :
    whole64 n = pure n :=
  if_pos (fits64_iff.2 h)

theorem whole32_eq {n : Int} (h : -0x80000000 ≤ n ∧ n < 0x80000000) : whole32 n = pure n :=
  if_pos (fits32_iff.2 h)

theorem whole128_eq {n : Int}
    (h : -0x80000000000000000000000000000000 ≤ n ∧ n < 0x80000000000000000000000000000000) :
    whole128 n = pure n :=
  if_pos h

theorem add_eq {a b : Int} (h : -0x8000000000000000 ≤ a + b ∧ a + b < 0x8000000000000000) :
    add a b = pure (a + b) :=
  whole64_eq h

theorem sub_eq {a b : Int} (h : -0x8000000000000000 ≤ a - b ∧ a - b < 0x8000000000000000) :
    sub a b = pure (a - b) :=
  whole64_eq h

theorem mul_eq {a b : Int} (h : -0x8000000000000000 ≤ a * b ∧ a * b < 0x8000000000000000) :
    mul a b = pure (a * b) :=
  whole64_eq h

theorem unsigned32_eq {n : Int} (h : 0 ≤ n ∧ n < 0x100000000) : unsigned32 n = pure n.toNat :=
  if_pos h

theorem size_eq {n : Int} (h : 0 ≤ n) : size n = pure n.toNat := if_pos h

/-! ## Sizes, positions and lists -/

/-- A difference of sizes or positions. -/
def less (a b : Nat) : Checked Nat := if b ≤ a then pure (a - b) else impossible

/-- The nearest number between two bounds. -/
def clamp (n least most : Nat) : Checked Nat :=
  if least ≤ most then pure (max least (min n most)) else impossible

/-- The item of a list at a position. -/
def item (xs : List α) (position : Nat) : Checked α :=
  match xs[position]? with
  | some x => pure x
  | none => impossible

/-- The items of a list from a position on. -/
def itemsFrom (xs : List α) (position : Nat) : Checked (List α) :=
  if position ≤ xs.length then pure (xs.drop position) else impossible

theorem less_eq {a b : Nat} (h : b ≤ a) : less a b = pure (a - b) := if_pos h

theorem clamp_eq {n least most : Nat} (h : least ≤ most) :
    clamp n least most = pure (max least (min n most)) :=
  if_pos h

theorem item_eq {xs : List α} {position : Nat} {x : α} (h : xs[position]? = some x) :
    item xs position = pure x := by
  rw [item, h]

@[simp] theorem item_zero (x : α) (xs : List α) : item (x :: xs) 0 = pure x := rfl

@[simp] theorem item_succ (x : α) (xs : List α) (position : Nat) :
    item (x :: xs) (position + 1) = item xs position := rfl

/-! ## Arguments -/

def intAt (vs : List Value) (place : Nat) : Checked Int := do
  ofResult (← item vs place).asInt

def stringAt (vs : List Value) (place : Nat) : Checked String := do
  ofResult (← item vs place).asString

@[simp] theorem intAt_zero (v : Value) (vs : List Value) :
    intAt (v :: vs) 0 = ofResult v.asInt := rfl

/-! ## Texts -/

/-- The bytes of a text. -/
def byteLength : List Char → Nat
  | [] => 0
  | c :: cs => c.utf8Size + byteLength cs

/-- How many characters stand before a byte; none if it is inside a character or
beyond the end. -/
def charsBefore? : List Char → (offset : Nat) → Option Nat
  | _, 0 => some 0
  | [], _ + 1 => none
  | c :: cs, offset + 1 =>
      if c.utf8Size ≤ offset + 1 then (charsBefore? cs (offset + 1 - c.utf8Size)).map (· + 1)
      else none

/-- The characters from one byte of a text to another. -/
def slice (cs : List Char) (start stop : Nat) : Checked (List Char) :=
  match charsBefore? cs start, charsBefore? cs stop with
  | some i, some j => if start ≤ stop then pure ((cs.take j).drop i) else impossible
  | _, _ => impossible

theorem byteLength_append (cs cs' : List Char) :
    byteLength (cs ++ cs') = byteLength cs + byteLength cs' := by
  induction cs with
  | nil => exact (Nat.zero_add _).symm
  | cons c cs ih => rw [List.cons_append, byteLength, byteLength, ih, Nat.add_assoc]

theorem byteLength_mono {i j : Nat} (h : i ≤ j) (cs : List Char) :
    byteLength (cs.take i) ≤ byteLength (cs.take j) := by
  obtain ⟨k, rfl⟩ := Nat.exists_eq_add_of_le h
  rw [List.take_add, byteLength_append]
  exact Nat.le_add_right _ _

/-- A text can be cut before each of its characters. -/
theorem charsBefore?_byteLength {i : Nat} {cs : List Char} (h : i ≤ cs.length) :
    charsBefore? cs (byteLength (cs.take i)) = some i := by
  induction cs generalizing i with
  | nil =>
    obtain rfl : i = 0 := Nat.le_zero.1 h
    rfl
  | cons c cs ih =>
    cases i with
    | zero => rfl
    | succ i =>
      have hpos := c.utf8Size_pos
      have hlength : byteLength ((c :: cs).take (i + 1))
          = c.utf8Size + byteLength (cs.take i) := rfl
      obtain ⟨offset, hoffset⟩ : ∃ offset, c.utf8Size + byteLength (cs.take i) = offset + 1 :=
        ⟨c.utf8Size + byteLength (cs.take i) - 1, by omega⟩
      rw [hlength, hoffset, charsBefore?, if_pos (by omega), ← hoffset, Nat.add_sub_cancel_left,
        ih (Nat.le_of_succ_le_succ h)]
      rfl

/-- A text can be cut out between two of its characters. -/
theorem slice_eq {i j : Nat} {cs : List Char} (hij : i ≤ j) (hj : j ≤ cs.length) :
    slice cs (byteLength (cs.take i)) (byteLength (cs.take j)) = pure ((cs.take j).drop i) := by
  rw [slice, charsBefore?_byteLength (Nat.le_trans hij hj), charsBefore?_byteLength hj]
  exact if_pos (byteLength_mono hij cs)

end ReminderExpr.Words
