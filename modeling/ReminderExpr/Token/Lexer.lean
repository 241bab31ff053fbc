/-
ReminderExpr.Token.Lexer — reading tokens off the front of a text.

`Lexer.next` skips blanks and reads one token; it gives the token, or the
reason why there is none, together with the text that is left. The text left
is a proper part of the text read from, unless nothing but blanks remained:

* `Lexer.length_next_lt` — a token other than the end shortens the text;
* `Lexer.length_next_le` — no outcome lengthens it.

Blanks are the characters of `Text.isBlank` and the continuation character.
Words run over ASCII letters, digits, `_`, `:`, `.` and the configured time
separator, so that numbers and times of day are words too.
-/
import ReminderExpr.EvalError
import ReminderExpr.Token
import ReminderExpr.Text.Blank

namespace ReminderExpr

/-- Why no token can be read. -/
inductive LexError
  | missingQuote
  | illegalChar (c : Char)
  deriving DecidableEq, Repr

/-- The same cause, as a reason why an expression has no value. -/
def LexError.toEvalError : LexError → EvalError
  | .missingQuote => .missingQuote
  | .illegalChar c => .illegalChar c

/-- The characters that a configuration lets the lexer treat specially. -/
structure Lexer where
  /-- A character skipped like a blank. -/
  continuation : Option Char := some '\\'
  /-- A character accepted in words. -/
  timeSeparator : Char := ':'
  deriving DecidableEq, Repr

namespace Lexer

/-- What reading a token yields, and the text that is left. -/
abbrev Reading := Except LexError Token × List Char

/-- Whether a character is skipped between tokens. -/
def skips (lexer : Lexer) (c : Char) : Bool :=
  Text.isBlank c || lexer.continuation == some c

/-- The text from its first character that is not skipped. -/
def skipBlanks (lexer : Lexer) (cs : List Char) : List Char := cs.dropWhile lexer.skips

/-- The characters of names. -/
def isNameChar (c : Char) : Bool := c.isAlphanum || c == '_'

/-- The characters that may follow in a word. -/
def isWordChar (lexer : Lexer) (c : Char) : Bool :=
  isNameChar c || c == ':' || c == '.' || c == lexer.timeSeparator

/-- The character that a backslash and `c` stand for in a string. -/
def unescaped (c : Char) : Char :=
  match c with
  | 'a' => '\x07'
  | 'b' => '\x08'
  | 'f' => '\x0c'
  | 'n' => '\n'
  | 'r' => '\r'
  | 't' => '\t'
  | 'v' => '\x0b'
  | c => c

/-- The rest of a string after its opening quote; `content` is what has been
read of it, the last character first. -/
def readString (content : List Char) : List Char → Reading
  | [] => (.error .missingQuote, [])
  | '\x22' :: rest => (.ok (.str (String.ofList content.reverse)), rest)
  | '\\' :: c :: rest => readString (unescaped c :: content) rest
  | ['\\'] => (.error .missingQuote, [])
  | c :: rest => readString (c :: content) rest

/-- The rest of a date after its opening quote. -/
def readDate (cs : List Char) : Reading :=
  match cs.dropWhile (· != '\x27') with
  | [] => (.error .missingQuote, [])
  | _ :: rest => (.ok (.date (String.ofList (cs.takeWhile (· != '\x27')))), rest)

/-- A word or a call whose first character is `first`. -/
def readWord (lexer : Lexer) (first : Char) (cs : List Char) : Reading :=
  let text := String.ofList (first :: cs.takeWhile lexer.isWordChar)
  match lexer.skipBlanks (cs.dropWhile lexer.isWordChar) with
  | '(' :: rest => (.ok (.call text), rest)
  | rest => (.ok (.word text), rest)

/-- An operator of one character, or of two if `second` follows. -/
def readOperator (first second : Char) : List Char → Reading
  | c :: rest =>
      if c = second then (.ok (.operator (String.ofList [first, c])), rest)
      else (.ok (.operator (String.ofList [first])), c :: rest)
  | [] => (.ok (.operator (String.ofList [first])), [])

/-- The token whose first character is `first`. -/
def readToken (lexer : Lexer) (first : Char) (rest : List Char) : Reading :=
  match first with
  | ',' => (.ok .comma, rest)
  | ']' => (.ok .closeBracket, rest)
  | '(' => (.ok .leftParen, rest)
  | ')' => (.ok .rightParen, rest)
  | '+' | '-' | '*' | '/' | '%' => (.ok (.operator (String.ofList [first])), rest)
  | '&' | '|' | '=' => readOperator first first rest
  | '!' | '>' | '<' => readOperator first '=' rest
  | '\x22' => readString [] rest
  | '\x27' => readDate rest
  | c =>
      if isNameChar c || c == '$' then lexer.readWord c rest
      else (.error (.illegalChar c), rest)

/-- The first token of a text, and the text after it. -/
def next (lexer : Lexer) (cs : List Char) : Reading :=
  match lexer.skipBlanks cs with
  | [] => (.ok .endOfText, [])
  | first :: rest => lexer.readToken first rest

/-! ## Reading makes progress -/

theorem length_dropWhile_le (p : Char → Bool) (cs : List Char) :
    (cs.dropWhile p).length ≤ cs.length :=
  (List.dropWhile_sublist p).length_le

theorem length_skipBlanks_le (lexer : Lexer) (cs : List Char) :
    (lexer.skipBlanks cs).length ≤ cs.length :=
  length_dropWhile_le _ cs

theorem length_readString_le (content cs : List Char) :
    (readString content cs).2.length ≤ cs.length := by
  fun_induction readString content cs <;> simp_all <;> omega

theorem length_readDate_le (cs : List Char) : (readDate cs).2.length ≤ cs.length := by
  have h := length_dropWhile_le (· != '\x27') cs
  unfold readDate
  split
  · simp
  · rename_i rest hd
    simp only [hd, List.length_cons] at h
    simp only
    omega

theorem length_readWord_le (lexer : Lexer) (first : Char) (cs : List Char) :
    (lexer.readWord first cs).2.length ≤ cs.length := by
  have h := length_skipBlanks_le lexer (cs.dropWhile lexer.isWordChar)
  have h' := length_dropWhile_le lexer.isWordChar cs
  unfold readWord
  split
  · rename_i rest hd
    simp only [hd, List.length_cons] at h
    simp only
    omega
  · simp only
    omega

theorem length_readOperator_le (first second : Char) (cs : List Char) :
    (readOperator first second cs).2.length ≤ cs.length := by
  unfold readOperator
  split
  · split <;> simp
  · simp

theorem length_readToken_le (lexer : Lexer) (first : Char) (rest : List Char) :
    (lexer.readToken first rest).2.length ≤ rest.length := by
  unfold readToken
  split <;> try exact Nat.le_refl _
  · exact length_readOperator_le _ _ _
  · exact length_readOperator_le _ _ _
  · exact length_readOperator_le _ _ _
  · exact length_readOperator_le _ _ _
  · exact length_readOperator_le _ _ _
  · exact length_readOperator_le _ _ _
  · exact length_readString_le _ _
  · exact length_readDate_le _
  · split
    · exact length_readWord_le _ _ _
    · exact Nat.le_refl _

/-- What a reading leaves is no longer than the text read from. -/
theorem length_next_le (lexer : Lexer) (cs : List Char) :
    (lexer.next cs).2.length ≤ cs.length := by
  have h := length_skipBlanks_le lexer cs
  unfold next
  split
  · simp
  · rename_i first rest hs
    have := length_readToken_le lexer first rest
    simp only [hs, List.length_cons] at h
    omega

/-- A reading that does not find the end of the text leaves less of it. -/
theorem length_next_lt (lexer : Lexer) (cs : List Char)
    (h : (lexer.next cs).1 ≠ .ok .endOfText) : (lexer.next cs).2.length < cs.length := by
  have hs := length_skipBlanks_le lexer cs
  unfold next at h ⊢
  split
  · rename_i heq
    simp [heq] at h
  · rename_i first rest heq
    have := length_readToken_le lexer first rest
    simp only [heq, List.length_cons] at hs
    omega

end Lexer

end ReminderExpr
