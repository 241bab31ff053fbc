/-
ReminderExpr.Proofs.Spelling — tokens spelled out, and read again.

`Token.spelled` is the text of one token: strings stand between double quotes
with a backslash before every quote and backslash, a call is its name and a
parenthesis. `written` puts one blank between the tokens of a list. Reading
takes the tokens off such a text one by one (`next_of_spelled`,
`next_of_unread`), if each is `Legible`; and a word must not stand before an
opening parenthesis, with which it would be read as a call.

A reading may stop before or behind the blank between two tokens. `Unread`
therefore says of a text that it is that of some tokens, leading blanks apart.
-/
import Mathlib.Data.List.DropRight
import ReminderExpr.Token.Lexer

namespace ReminderExpr

/-! ## Spelling -/

/-- How a character is spelled inside a string. -/
def Token.escaped (c : Char) : List Char := if c = '\x22' ∨ c = '\\' then ['\\', c] else [c]

/-- The text of a token. -/
def Token.spelled : Token → List Char
  | .str content => '\x22' :: (content.toList.flatMap escaped ++ ['\x22'])
  | .date content => '\x27' :: (content.toList ++ ['\x27'])
  | .call name => name.toList ++ ['(']
  | t => t.text.toList

/-- The text of tokens, with one blank between them. -/
def written (ts : List Token) : List Char := [' '].intercalate (ts.map Token.spelled)

/-- The text of tokens after another one. -/
def trailing (ts : List Token) : List Char := ts.flatMap fun t => ' ' :: t.spelled

theorem trailing_cons (t : Token) (ts : List Token) :
    trailing (t :: ts) = ' ' :: (t.spelled ++ trailing ts) := by
  simp [trailing]

theorem written_cons (t : Token) (ts : List Token) :
    written (t :: ts) = t.spelled ++ trailing ts := by
  induction ts generalizing t with
  | nil => simp [written, trailing]
  | cons u ts ih =>
    have hu : written (t :: u :: ts) = t.spelled ++ [' '] ++ written (u :: ts) := by
      simp only [written, List.map_cons, List.intercalate_cons_cons]
    rw [hu, ih u, trailing_cons, List.append_assoc]
    rfl

/-- After a token stands nothing or a blank. -/
theorem trailing_cases (ts : List Token) : trailing ts = [] ∨ ∃ cs, trailing ts = ' ' :: cs := by
  cases ts with
  | nil => exact .inl rfl
  | cons t ts => exact .inr ⟨_, trailing_cons t ts⟩

/-! ## Words -/

/-- The spellings of operators and of what might have become one. -/
def operatorSpellings : List String :=
  ["+", "-", "*", "/", "%", "&", "&&", "|", "||", "=", "==", "!", "!=", "<", "<=", ">", ">="]

namespace Lexer

variable {lexer : Lexer} {t : Token} {ts : List Token} {cs after : List Char}

/-- A spelling that is read as one word. -/
def IsWord (lexer : Lexer) (text : String) : Prop :=
  ∃ first rest, text.toList = first :: rest ∧ (isNameChar first || first == '$') = true
    ∧ ∀ c ∈ rest, lexer.isWordChar c = true

/-- A token that is read from its spelling, if what follows lets it be. -/
structure Legible (lexer : Lexer) (t : Token) : Prop where
  first : ∃ c cs, t.spelled = c :: cs ∧ lexer.skips c = false
  shape : match t with
    | .endOfText | .comma | .closeBracket | .leftParen | .rightParen | .str _ => True
    | .operator spelling => spelling ∈ operatorSpellings
    | .date content => '\x27' ∉ content.toList
    | .word text => lexer.IsWord text ∧ lexer.isWordChar ' ' = false
    | .call name => lexer.IsWord name ∧ lexer.isWordChar '(' = false ∧ lexer.skips '(' = false

/-! ## Blanks -/

theorem skips_blank (lexer : Lexer) : lexer.skips ' ' = true := rfl

/-- A text of which the tokens `ts` have not been read yet. -/
def Unread (lexer : Lexer) (ts : List Token) (cs : List Char) : Prop :=
  lexer.skipBlanks cs = lexer.skipBlanks (trailing ts)

theorem unread_trailing (lexer : Lexer) (ts : List Token) : lexer.Unread ts (trailing ts) := rfl

theorem unread_written (lexer : Lexer) (ts : List Token) : lexer.Unread ts (written ts) := by
  cases ts with
  | nil => rfl
  | cons t ts =>
    rw [Unread, written_cons, trailing_cons]
    exact (List.dropWhile_cons_of_pos lexer.skips_blank).symm

theorem Unread.skipBlanks (h : lexer.Unread ts cs) : lexer.Unread ts (lexer.skipBlanks cs) :=
  (List.dropWhile_idempotent lexer.skips cs).trans h

/-- Blanks apart, an unread text starts with its first token. -/
theorem Unread.skipBlanks_eq (h : lexer.Unread (t :: ts) cs) (ht : lexer.Legible t) :
    lexer.skipBlanks cs = t.spelled ++ trailing ts := by
  obtain ⟨c, rest, hc, hskips⟩ := ht.first
  rw [h, trailing_cons, hc]
  unfold Lexer.skipBlanks
  rw [List.dropWhile_cons_of_pos lexer.skips_blank, List.cons_append,
    List.dropWhile_cons_of_neg (by simp [hskips])]

/-- The end of a text is read where no tokens are unread. -/
theorem next_of_unread_nil (h : lexer.Unread [] cs) : lexer.next cs = (.ok .endOfText, []) := by
  have hnil : lexer.skipBlanks cs = [] := h
  rw [next, hnil]

/-! ## Reading what is spelled -/

/-- A string is read as what it was spelled from. -/
theorem readString_escaped (done content rest : List Char) :
    readString done (content.flatMap Token.escaped ++ '\x22' :: rest)
      = (.ok (.str (String.ofList (done.reverse ++ content))), rest) := by
  induction content generalizing done with
  | nil => simp [readString]
  | cons c content ih =>
    rw [List.flatMap_cons, List.append_assoc]
    by_cases hc : c = '\x22' ∨ c = '\\'
    · have hunescaped : unescaped c = c := by
        rcases hc with rfl | rfl <;> rfl
      rw [Token.escaped, if_pos hc, List.cons_append, List.cons_append, List.nil_append, readString,
        hunescaped, ih]
      simp
    · have hplain : ∀ cs, readString done (c :: cs) = readString (c :: done) cs := by
        intro cs
        rw [not_or] at hc
        rw [readString.eq_def]
        split <;> simp_all
      rw [Token.escaped, if_neg hc, List.singleton_append, hplain, ih]
      simp

theorem readDate_quoted {content : List Char} (h : '\x27' ∉ content) (rest : List Char) :
    readDate (content ++ '\x27' :: rest) = (.ok (.date (String.ofList content)), rest) := by
  have hne : ∀ c ∈ content, (c != '\x27') = true := by
    intro c hc
    rw [bne_iff_ne]
    rintro rfl
    exact h hc
  unfold readDate
  rw [List.dropWhile_append_of_pos hne, List.takeWhile_append_of_pos hne]
  simp

/-- A word is read up to what cannot be part of it. -/
theorem takeWhile_word {rest : List Char} (hrest : ∀ c ∈ rest, lexer.isWordChar c = true)
    (hafter : ∀ c ∈ after.head?, lexer.isWordChar c = false) :
    (rest ++ after).takeWhile lexer.isWordChar = rest
      ∧ (rest ++ after).dropWhile lexer.isWordChar = after := by
  rw [List.takeWhile_append_of_pos hrest, List.dropWhile_append_of_pos hrest]
  cases after with
  | nil => simp
  | cons c after =>
    have hc : ¬ lexer.isWordChar c = true := by simp [hafter c rfl]
    rw [List.takeWhile_cons_of_neg hc, List.dropWhile_cons_of_neg hc, List.append_nil]
    exact ⟨rfl, rfl⟩

/-- What starts like a word is read as one. -/
theorem readToken_word {first : Char} (h : (isNameChar first || first == '$') = true)
    (rest : List Char) : lexer.readToken first rest = lexer.readWord first rest := by
  unfold readToken
  split <;> first | exact absurd h (by decide) | exact if_pos h

/-- A word is read together with the blanks after it. -/
theorem next_word {text : String} (h : lexer.skipBlanks cs = text.toList ++ after)
    (hafter : after = [] ∨ ∃ rest, after = ' ' :: rest) (hword : lexer.IsWord text)
    (hblank : lexer.isWordChar ' ' = false) (hopen : ∀ rest, lexer.skipBlanks after ≠ '(' :: rest) :
    lexer.next cs = (.ok (.word text), lexer.skipBlanks after) := by
  obtain ⟨first, rest, htext, hfirst, hrest⟩ := hword
  have hstop : ∀ c ∈ after.head?, lexer.isWordChar c = false := by
    rcases hafter with rfl | ⟨cs, rfl⟩
    · simp
    · rintro c ⟨⟩
      exact hblank
  obtain ⟨htake, hdrop⟩ := takeWhile_word hrest hstop
  have hofList : String.ofList (first :: rest) = text := by
    rw [← htext, String.ofList_toList]
  rw [next, h, htext, List.cons_append]
  dsimp only
  rw [readToken_word hfirst, readWord, htake, hdrop, hofList]
  split
  · rename_i rest hparen
    exact absurd hparen (hopen rest)
  · rfl

/-- A call is read up to behind its parenthesis. -/
theorem next_call {name : String} (h : lexer.skipBlanks cs = name.toList ++ '(' :: after)
    (hword : lexer.IsWord name) (hparen : lexer.isWordChar '(' = false)
    (hskips : lexer.skips '(' = false) : lexer.next cs = (.ok (.call name), after) := by
  obtain ⟨first, rest, htext, hfirst, hrest⟩ := hword
  have hstop : ∀ c ∈ ('(' :: after).head?, lexer.isWordChar c = false := by
    rintro c ⟨⟩
    exact hparen
  obtain ⟨htake, hdrop⟩ := takeWhile_word hrest hstop
  have hofList : String.ofList (first :: rest) = name := by
    rw [← htext, String.ofList_toList]
  have hstays : lexer.skipBlanks ('(' :: after) = '(' :: after :=
    List.dropWhile_cons_of_neg (by simp [hskips])
  rw [next, h, htext, List.cons_append]
  dsimp only
  rw [readToken_word hfirst, readWord, htake, hdrop, hofList, hstays]
  rfl

theorem next_operator {spelling : String} (h : lexer.skipBlanks cs = spelling.toList ++ after)
    (hafter : after = [] ∨ ∃ rest, after = ' ' :: rest) (hspelling : spelling ∈ operatorSpellings) :
    lexer.next cs = (.ok (.operator spelling), after) := by
  rw [next, h]
  simp only [operatorSpellings, List.mem_cons, List.not_mem_nil, or_false] at hspelling
  rcases hafter with rfl | ⟨rest, rfl⟩
  · rcases hspelling with rfl | rfl | rfl | rfl | rfl | rfl | rfl | rfl | rfl | rfl | rfl | rfl
      | rfl | rfl | rfl | rfl | rfl <;> rfl
  · rcases hspelling with rfl | rfl | rfl | rfl | rfl | rfl | rfl | rfl | rfl | rfl | rfl | rfl
      | rfl | rfl | rfl | rfl | rfl <;> rfl

/-- A legible token is read off its text, where nothing or a blank follows it.
A word may not stand before an opening parenthesis. -/
theorem next_of_spelled (h : lexer.skipBlanks cs = t.spelled ++ after)
    (hafter : after = [] ∨ ∃ rest, after = ' ' :: rest) (ht : lexer.Legible t)
    (hopen : ∀ text, t = .word text → ∀ rest, lexer.skipBlanks after ≠ '(' :: rest) :
    ∃ rest, lexer.next cs = (.ok t, rest) ∧ lexer.skipBlanks rest = lexer.skipBlanks after := by
  have hshape := ht.shape
  cases t with
  | endOfText =>
    obtain ⟨c, cs, hc, -⟩ := ht.first
    cases hc
  | word text =>
    exact ⟨_, next_word h hafter hshape.1 hshape.2 (hopen text rfl),
      List.dropWhile_idempotent lexer.skips after⟩
  | call name =>
    rw [Token.spelled, List.append_assoc] at h
    exact ⟨after, next_call h hshape.1 hshape.2.1 hshape.2.2, rfl⟩
  | operator spelling => exact ⟨after, next_operator h hafter hshape, rfl⟩
  | str content =>
    refine ⟨after, ?_, rfl⟩
    rw [Token.spelled, List.cons_append, List.append_assoc] at h
    rw [next, h]
    have hread := readString_escaped [] content.toList after
    rw [List.reverse_nil, List.nil_append, String.ofList_toList] at hread
    exact hread
  | date content =>
    refine ⟨after, ?_, rfl⟩
    rw [Token.spelled, List.cons_append, List.append_assoc] at h
    rw [next, h]
    have hread := readDate_quoted hshape after
    rw [String.ofList_toList] at hread
    exact hread
  | comma | closeBracket | leftParen | rightParen =>
    refine ⟨after, ?_, rfl⟩
    rw [next, h]
    rfl

/-- Reading takes one legible token off an unread text. -/
theorem next_of_unread (h : lexer.Unread (t :: ts) cs) (ht : lexer.Legible t)
    (hopen : ∀ text, t = .word text → ∀ rest, lexer.skipBlanks (trailing ts) ≠ '(' :: rest) :
    ∃ rest, lexer.next cs = (.ok t, rest) ∧ lexer.Unread ts rest :=
  next_of_spelled (h.skipBlanks_eq ht) (trailing_cases ts) ht hopen

end Lexer

end ReminderExpr
