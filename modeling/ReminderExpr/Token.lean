/-
ReminderExpr.Token — the words of an expression.

A token carries its own text: an operator its spelling, a string and a date
what stands between the quotes, a word itself, a call the name before the
parenthesis. A comma, a closing parenthesis or bracket and the end of the
text end an expression (`Token.terminator?`).
-/
namespace ReminderExpr

/-- What ends an expression. -/
inductive Terminator
  | endOfText | comma | rightParen | closeBracket
  deriving DecidableEq, Repr

/-- The words of an expression. -/
inductive Token
  | endOfText
  | comma
  | closeBracket
  | leftParen
  | rightParen
  /-- One or two operator characters; not every spelling is an operator. -/
  | operator (spelling : String)
  /-- A string between double quotes, its escapes replaced. -/
  | str (content : String)
  /-- A date between single quotes. -/
  | date (content : String)
  /-- A name, a system variable with its `$`, a number or a time of day. -/
  | word (text : String)
  /-- A word and the opening parenthesis after it. -/
  | call (name : String)
  deriving DecidableEq, Repr

namespace Token

/-- The text that a token carries. -/
def text : Token → String
  | endOfText => ""
  | comma => ","
  | closeBracket => "]"
  | leftParen => "("
  | rightParen => ")"
  | operator s | str s | date s | word s | call s => s

/-- A token as a diagnostic shows it. -/
def shown : Token → String
  | endOfText => "<end>"
  | str s => "\"" ++ s ++ "\""
  | date s => "'" ++ s ++ "'"
  | call s => s ++ "("
  | t => t.text

/-- The first character of a token's text; a blank if it has none. -/
def firstChar (t : Token) : Char := t.text.toList.headD ' '

/-- How a token ends an expression, if it does. -/
def terminator? : Token → Option Terminator
  | endOfText => some .endOfText
  | comma => some .comma
  | closeBracket => some .closeBracket
  | rightParen => some .rightParen
  | _ => none

end Token

end ReminderExpr
