/-
ReminderExpr.Text.Decimal — runs of ASCII digits and zero-padded numbers.

Reading: `digitRun` cuts the longest run of ASCII digits off the front of a
text, and `digitsValue` is the exact natural number that a run denotes, of
any length and with any number of leading zeros. `cappedValue` is that number
as a counter shows it that stops at a ceiling, and `checkedValue?` as one shows
it that gives up beyond a limit.

Writing: `padded width n` writes an integer in decimal with zeros between
its sign and its digits, so that the whole text, the sign included, has at
least `width` characters; `decimal n` writes it without such zeros.
-/
namespace ReminderExpr.Text

/-- The leading digits of a text, and what follows them. -/
def digitRun (cs : List Char) : List Char × List Char :=
  (cs.takeWhile Char.isDigit, cs.dropWhile Char.isDigit)

/-- The number denoted by a list of digits, read after the digits of `acc`. -/
def digitsValueFrom (acc : Nat) : List Char → Nat
  | [] => acc
  | c :: cs => digitsValueFrom (10 * acc + (c.toNat - '0'.toNat)) cs

/-- The number denoted by a list of digits; none denote zero. -/
def digitsValue (digits : List Char) : Nat := digitsValueFrom 0 digits

/-- What a counter that stops at `ceiling` shows after one more digit. -/
def countDigit (ceiling shown : Nat) (c : Char) : Nat :=
  min (min (10 * shown) ceiling + (c.toNat - '0'.toNat)) ceiling

/-- The number denoted by a list of digits, or `ceiling` if it is greater. -/
def cappedValue (ceiling : Nat) (digits : List Char) : Nat :=
  digits.foldl (countDigit ceiling) 0

/-- What a counter that gives up beyond `limit` shows after one more digit. -/
def addDigit? (limit shown : Nat) (c : Char) : Option Nat :=
  let tens := 10 * shown
  let sum := tens + (c.toNat - '0'.toNat)
  if tens ≤ limit ∧ sum ≤ limit then some sum else none

/-- The number denoted by a list of digits, unless it is beyond `limit`. -/
def checkedValue? (limit : Nat) (digits : List Char) : Option Nat :=
  digits.foldlM (addDigit? limit) 0

/-- An integer in decimal, zeros filling it up to `width` characters. -/
def padded (width : Nat) (n : Int) : String :=
  let sign := if n < 0 then "-" else ""
  let digits := Nat.repr n.natAbs
  sign ++ String.ofList (List.replicate (width - sign.length - digits.length) '0') ++ digits

/-- An integer in decimal. -/
def decimal (n : Int) : String := padded 0 n

/-- The two parts of a digit run make up the text. -/
theorem digitRun_append (cs : List Char) : (digitRun cs).1 ++ (digitRun cs).2 = cs :=
  List.takeWhile_append_dropWhile

theorem countDigit_min (ceiling shown : Nat) (c : Char) :
    countDigit ceiling (min shown ceiling) c
      = min (10 * shown + (c.toNat - '0'.toNat)) ceiling := by
  unfold countDigit
  generalize c.toNat - '0'.toNat = digit
  omega

/-- A counter that stops at its ceiling is exact below it. -/
theorem cappedValue_eq (ceiling : Nat) (digits : List Char) :
    cappedValue ceiling digits = min (digitsValue digits) ceiling := by
  have counted : ∀ acc : Nat, digits.foldl (countDigit ceiling) (min acc ceiling)
      = min (digitsValueFrom acc digits) ceiling := by
    induction digits with
    | nil => exact fun acc => rfl
    | cons c cs ih =>
      intro acc
      rw [List.foldl_cons, countDigit_min]
      exact ih _
  rw [cappedValue, digitsValue, ← counted, Nat.zero_min]

theorem addDigit?_eq (limit shown : Nat) (c : Char) :
    addDigit? limit shown c
      = if 10 * shown + (c.toNat - '0'.toNat) ≤ limit
        then some (10 * shown + (c.toNat - '0'.toNat)) else none := by
  have hcheck : (10 * shown ≤ limit ∧ 10 * shown + (c.toNat - '0'.toNat) ≤ limit)
      ↔ 10 * shown + (c.toNat - '0'.toNat) ≤ limit :=
    ⟨And.right, fun h => ⟨Nat.le_of_add_right_le h, h⟩⟩
  simp only [addDigit?, hcheck]

theorem digitsValueFrom_cons (acc : Nat) (c : Char) (cs : List Char) :
    digitsValueFrom acc (c :: cs) = digitsValueFrom (10 * acc + (c.toNat - '0'.toNat)) cs := by
  rw [digitsValueFrom.eq_def]

/-- More digits do not make a number smaller. -/
theorem le_digitsValueFrom (acc : Nat) (digits : List Char) :
    acc ≤ digitsValueFrom acc digits := by
  induction digits generalizing acc with
  | nil => exact Nat.le_refl acc
  | cons c cs ih =>
    refine Nat.le_trans ?_ (ih _)
    omega

/-- A counter that gives up beyond its limit is exact up to it. -/
theorem checkedValue?_eq (limit : Nat) (digits : List Char) :
    checkedValue? limit digits
      = if digitsValue digits ≤ limit then some (digitsValue digits) else none := by
  have checked : ∀ acc : Nat, acc ≤ limit → digits.foldlM (addDigit? limit) acc
      = if digitsValueFrom acc digits ≤ limit then some (digitsValueFrom acc digits)
        else none := by
    induction digits with
    | nil =>
      intro acc hacc
      exact (if_pos hacc).symm
    | cons c cs ih =>
      intro acc _
      rw [List.foldlM_cons, addDigit?_eq, digitsValueFrom_cons]
      generalize 10 * acc + (c.toNat - '0'.toNat) = next
      by_cases hnext : next ≤ limit
      · rw [if_pos hnext]
        exact ih next hnext
      · -- What follows a number beyond the limit does not bring it back.
        have hover : ¬ digitsValueFrom next cs ≤ limit :=
          fun hle => hnext (Nat.le_trans (le_digitsValueFrom next cs) hle)
        rw [if_neg hnext, if_neg hover]
        rfl
  exact checked 0 (Nat.zero_le limit)

end ReminderExpr.Text
