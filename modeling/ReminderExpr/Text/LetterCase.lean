/-
ReminderExpr.Text.LetterCase — texts in upper and in lower case.

The mappings are those of the Unicode standard, without any language's own
rules: a character may become several (`ß` becomes `SS`), and a capital sigma
at the end of a word becomes `ς` and elsewhere `σ`. A sigma ends a word if a
cased letter stands before it and none after it, characters with the property
Case_Ignorable apart.
-/
import ReminderExpr.Text.LetterCase.Tables

namespace ReminderExpr.Text

namespace LetterCase

/-- The image of a code point under the rows of a mapping. -/
def shifted (rows : List (Nat × Nat × Nat × Nat)) (code : Nat) : Nat :=
  match rows.find? fun (first, last, _, _) => decide (first ≤ code) && decide (code ≤ last) with
  | some (first, _, step, image) =>
      if (code - first) % step = 0 then image + (code - first) else code
  | none => code

/-- The image of a character under rows and expansions. -/
def mapped (rows : List (Nat × Nat × Nat × Nat)) (expansions : List (Nat × List Nat))
    (c : Char) : List Char :=
  match expansions.lookup c.toNat with
  | some codes => codes.map Char.ofNat
  | none => [Char.ofNat (shifted rows c.toNat)]

/-- The upper-case form of a character. -/
def upperOf (c : Char) : List Char := mapped upperShifts upperExpansions c

/-- The lower-case form of a character, its neighbours apart. -/
def lowerOf (c : Char) : List Char := mapped lowerShifts lowerExpansions c

/-- Whether a code point lies in one of the ranges. -/
def inRanges (ranges : List (Nat × Nat)) (c : Char) : Bool :=
  ranges.any fun (first, last) => decide (first ≤ c.toNat) && decide (c.toNat ≤ last)

/-- Whether the first character that is not ignorable has case. -/
def startsCased (cs : List Char) : Bool :=
  match cs.dropWhile (inRanges caseIgnorable) with
  | [] => false
  | c :: _ => inRanges cased c

/-- The capital sigma. -/
def capitalSigma : Char := Char.ofNat 0x3A3

/-- The lower-case sigma between the texts before (reversed) and after it. -/
def lowerSigma (before after : List Char) : Char :=
  if startsCased before && !startsCased after then Char.ofNat 0x3C2 else Char.ofNat 0x3C3

/-- The characters still to map, put in lower case after those `before`
(reversed), with what is mapped so far in `done` (reversed). -/
def lowerFrom (before done : List Char) : List Char → List Char
  | [] => done.reverse
  | c :: after =>
      let form := if c = capitalSigma then [lowerSigma before after] else lowerOf c
      lowerFrom (c :: before) (form.reverse ++ done) after

end LetterCase

/-- A text in upper case. -/
def upper (s : String) : String := String.ofList (s.toList.flatMap LetterCase.upperOf)

/-- A text in lower case. -/
def lower (s : String) : String := String.ofList (LetterCase.lowerFrom [] [] s.toList)

end ReminderExpr.Text
