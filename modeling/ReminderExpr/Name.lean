/-
ReminderExpr.Name — when two spellings are one name.

A name counts up to its first twelve characters, and ASCII letters count
alike in either case. Letters outside ASCII are told apart by case.

* `significant` — the part of a spelling that counts, as written.
* `key` — the part that counts, in upper case; stores file entries by it.
* `same` — whether two spellings are one name.
* `compareIgnoreCase` — the order of whole spellings, case apart: by the
  code points of their lower-case letters.
* `isValid` — the spellings that can be defined.
-/
namespace ReminderExpr.Name

/-- How many characters of a name count. -/
def significantLength : Nat := 12

/-- The part of a name that counts, as written. -/
def significant (name : String) : String :=
  String.ofList (name.toList.take significantLength)

/-- The part of a name that counts, in upper case. -/
def key (name : String) : String :=
  String.ofList ((significant name).toList.map Char.toUpper)

/-- A spelling in lower case; only ASCII letters have one. -/
def folded (name : String) : List Char := name.toList.map Char.toLower

/-- The order of two spellings, case apart. -/
def compareIgnoreCase (a b : String) : Ordering := compare (folded a) (folded b)

/-- Whether two spellings are equal, case apart. -/
def equalIgnoreCase (a b : String) : Bool := compareIgnoreCase a b == .eq

/-- Whether two spellings are one name. -/
def same (a b : String) : Bool := equalIgnoreCase (significant a) (significant b)

/-- The characters a name may start with: ASCII letters and `_`. -/
def isStart (c : Char) : Bool := c.isAlpha || c == '_'

/-- The characters a name may go on with: ASCII letters, ASCII digits and `_`. -/
def isContinue (c : Char) : Bool := c.isAlphanum || c == '_'

/-- Whether a spelling can be defined as a name. -/
def isValid (name : String) : Bool :=
  match name.toList with
  | [] => false
  | c :: cs => isStart c && cs.all isContinue

/-- Spellings that are equal, case apart, have the same lower-case letters. -/
theorem equalIgnoreCase_iff {a b : String} :
    equalIgnoreCase a b = true ↔ folded a = folded b := by
  simp [equalIgnoreCase, compareIgnoreCase]

/-- A name is itself. -/
theorem same_refl (a : String) : same a a = true := by
  simp [same, equalIgnoreCase_iff]

/-- Cutting a name to the part that counts twice cuts it once. -/
theorem significant_significant (name : String) :
    significant (significant name) = significant name := by
  simp [significant, List.take_take]

/-- The part that counts is filed where the whole name is. -/
theorem key_significant (name : String) : key (significant name) = key name := by
  simp [key, significant_significant]

end ReminderExpr.Name
