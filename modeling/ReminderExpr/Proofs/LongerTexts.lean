/-
ReminderExpr.Proofs.LongerTexts — reading tokens where more text follows.

A token that is read off a text is read as well where a character that ends
expressions follows, and anything after that: such a character is neither a
blank nor a part of a word or of an operator (`Lexer.Ends`), so that no reading
runs on into it. Where the text alone has come to its end, that character is
read in place of the end.

* `Lexer.GoesOn` — a reading, and the same reading of a longer text;
* `goesOn_readString`, …, `Ends.goesOn_readToken` — all kinds of tokens;
* `Ends.next_append`, `Ends.next_end` — the first token of a text.
-/
import ReminderExpr.Token.Lexer

namespace ReminderExpr

/-- The terminator that a character stands for. -/
def Terminator.ofChar? : Char → Option Terminator
  | ',' => some .comma
  | ')' => some .rightParen
  | ']' => some .closeBracket
  | _ => none

/-- Whether a token carries no text of its own. -/
def Token.isFixed : Token → Bool
  | .operator _ | .str _ | .date _ | .word _ | .call _ => false
  | _ => true

namespace Lexer

/-- A character that ends expressions wherever it is met between tokens: it is
neither skipped nor taken for a part of a word. -/
structure Ends (lexer : Lexer) (c : Char) (t : Terminator) : Prop where
  stands : Terminator.ofChar? c = some t
  skips : lexer.skips c = false
  word : lexer.isWordChar c = false

/-- A reading and the same one of a text with more after it: if a token is
read, it is read there too, and the rest is longer. -/
def GoesOn (more : List Char) (r r' : Reading) : Prop :=
  ∀ token, r.1 = .ok token → r' = (.ok token, r.2 ++ more)

variable {lexer : Lexer} {c : Char} {t : Terminator} {token : Token} {cs more rest q : List Char}

theorem ends_of_ne (h : Terminator.ofChar? c = some t) (hskipped : lexer.continuation ≠ some c)
    (htime : lexer.timeSeparator ≠ c) : lexer.Ends c t := by
  have hchar : c = ',' ∨ c = ')' ∨ c = ']' := by
    unfold Terminator.ofChar? at h
    split at h
    · exact .inl rfl
    · exact .inr (.inl rfl)
    · exact .inr (.inr rfl)
    · cases h
  have hcontinuation : (lexer.continuation == some c) = false := beq_false_of_ne hskipped
  have hseparator : (c == lexer.timeSeparator) = false := beq_false_of_ne (Ne.symm htime)
  refine ⟨h, ?_, ?_⟩
  · rw [skips, hcontinuation, Bool.or_false]
    rcases hchar with rfl | rfl | rfl <;> rfl
  · rw [isWordChar, hseparator, Bool.or_false]
    rcases hchar with rfl | rfl | rfl <;> rfl

theorem Ends.ne (h : lexer.Ends c t) {d : Char} (hd : Terminator.ofChar? d = none) : c ≠ d := by
  rintro rfl
  cases hd.symm.trans h.stands

/-! ## Parts of tokens -/

/-- A run of characters that ends within a text, or before what follows it, is
the same in the longer text. -/
theorem takeWhile_dropWhile_append (p : Char → Bool) (cs more : List Char)
    (h : cs.dropWhile p ≠ [] ∨ ∀ c ∈ more.head?, p c = false) :
    (cs ++ more).takeWhile p = cs.takeWhile p
      ∧ (cs ++ more).dropWhile p = cs.dropWhile p ++ more := by
  induction cs with
  | nil =>
    cases more with
    | nil => exact ⟨rfl, rfl⟩
    | cons c more =>
      have hc : ¬ p c = true := by simpa using h
      exact ⟨List.takeWhile_cons_of_neg hc, List.dropWhile_cons_of_neg hc⟩
  | cons d cs ih =>
    by_cases hd : p d = true
    · rw [List.dropWhile_cons_of_pos hd] at h ⊢
      obtain ⟨htake, hdrop⟩ := ih h
      rw [List.cons_append, List.takeWhile_cons_of_pos hd, List.takeWhile_cons_of_pos hd,
        List.dropWhile_cons_of_pos hd, htake]
      exact ⟨rfl, hdrop⟩
    · rw [List.cons_append, List.takeWhile_cons_of_neg hd, List.takeWhile_cons_of_neg hd,
        List.dropWhile_cons_of_neg hd, List.dropWhile_cons_of_neg hd]
      exact ⟨rfl, rfl⟩

theorem Ends.skipBlanks_append (h : lexer.Ends c t) (cs q : List Char) :
    lexer.skipBlanks (cs ++ c :: q) = lexer.skipBlanks cs ++ c :: q :=
  (takeWhile_dropWhile_append _ cs _ (.inr (by rintro _ ⟨⟩; exact h.skips))).2

theorem goesOn_ok (token : Token) (rest : List Char) :
    GoesOn more (.ok token, rest) (.ok token, rest ++ more) := by
  rintro _ ⟨⟩
  rfl

theorem goesOn_readString (content cs more : List Char) :
    GoesOn more (readString content cs) (readString content (cs ++ more)) := by
  fun_induction readString content cs with
  | case1 =>
    rintro token ⟨⟩
  | case2 content rest => exact goesOn_ok _ _
  | case3 content c rest ih => exact ih
  | case4 =>
    rintro token ⟨⟩
  | case5 content c rest hquote hescape hlast ih =>
    have hc : c ≠ '\\' := by
      rintro rfl
      cases rest with
      | nil => exact hlast rfl rfl
      | cons d rest => exact hescape d rest rfl rfl
    have hplain : readString content (c :: rest ++ more)
        = readString (c :: content) (rest ++ more) := by
      rw [List.cons_append, readString.eq_def]
      split <;> simp_all
    rw [hplain]
    exact ih

theorem goesOn_readDate (cs more : List Char) :
    GoesOn more (readDate cs) (readDate (cs ++ more)) := by
  unfold readDate
  cases hd : cs.dropWhile (· != '\x27') with
  | nil => nofun
  | cons d rest =>
    obtain ⟨htake, hdrop⟩ := takeWhile_dropWhile_append _ cs more
      (.inl (by rw [hd]; exact List.cons_ne_nil d rest))
    rw [htake, hdrop, hd]
    exact goesOn_ok _ _

/-- Looking for a parenthesis after a word goes no further than to a character
that ends expressions. -/
theorem Ends.goesOn_readWord (h : lexer.Ends c t) (first : Char) (cs : List Char) :
    GoesOn (c :: q) (lexer.readWord first cs) (lexer.readWord first (cs ++ c :: q)) := by
  obtain ⟨htake, hdrop⟩ := takeWhile_dropWhile_append lexer.isWordChar cs (c :: q)
    (.inr (by rintro _ ⟨⟩; exact h.word))
  unfold readWord
  rw [htake, hdrop, h.skipBlanks_append]
  cases lexer.skipBlanks (cs.dropWhile lexer.isWordChar) with
  | nil =>
    dsimp only [List.nil_append]
    split
    · rename_i heq
      cases heq
      exact absurd rfl (h.ne rfl)
    · exact goesOn_ok _ _
  | cons d rest =>
    dsimp only [List.cons_append]
    split
    · rename_i heq
      cases heq
      exact goesOn_ok _ _
    · rename_i hne
      split
      · rename_i heq
        cases heq
        exact absurd rfl (hne _)
      · exact goesOn_ok _ _

theorem Ends.goesOn_readOperator (h : lexer.Ends c t) {second : Char}
    (hsecond : Terminator.ofChar? second = none) (first : Char) (cs : List Char) :
    GoesOn (c :: q) (readOperator first second cs) (readOperator first second (cs ++ c :: q)) := by
  cases cs with
  | nil =>
    rw [List.nil_append, readOperator, readOperator, if_neg (h.ne hsecond)]
    exact goesOn_ok _ _
  | cons d rest =>
    rw [List.cons_append, readOperator, readOperator]
    split <;> exact goesOn_ok _ _

/-! ## Tokens -/

theorem Ends.goesOn_readToken (h : lexer.Ends c t) (first : Char) (cs : List Char) :
    GoesOn (c :: q) (lexer.readToken first cs) (lexer.readToken first (cs ++ c :: q)) := by
  unfold readToken
  split <;> try exact goesOn_ok _ _
  · exact h.goesOn_readOperator rfl _ cs
  · exact h.goesOn_readOperator rfl _ cs
  · exact h.goesOn_readOperator rfl _ cs
  · exact h.goesOn_readOperator rfl _ cs
  · exact h.goesOn_readOperator rfl _ cs
  · exact h.goesOn_readOperator rfl _ cs
  · exact goesOn_readString _ _ _
  · exact goesOn_readDate _ _
  · split
    · exact h.goesOn_readWord _ cs
    · nofun

/-- A token without a text of its own is read from one character, which it
stands for. -/
theorem text_of_readToken {first : Char} (hfixed : token.isFixed = true)
    (h : (lexer.readToken first cs).1 = .ok token) :
    token.text.toList = [first] ∧ (lexer.readToken first cs).2 = cs := by
  have operator : ∀ first second cs, (readOperator first second cs).1 ≠ .ok token := by
    intro first second cs
    unfold readOperator
    split
    · split <;> (rintro ⟨⟩; cases hfixed)
    · rintro ⟨⟩
      cases hfixed
  have string : ∀ content cs, (readString content cs).1 ≠ .ok token := by
    intro content cs
    fun_induction readString content cs with
    | case1 | case4 =>
      rintro ⟨⟩
    | case2 =>
      rintro ⟨⟩
      cases hfixed
    | case3 content c rest ih => exact ih
    | case5 content c rest _ _ _ ih => exact ih
  unfold readToken at h ⊢
  split at h <;> try first
    | exact absurd h (operator _ _ _)
    | (cases h; exact ⟨rfl, rfl⟩)
  · exact absurd h (string _ _)
  · unfold readDate at h
    split at h <;> cases h
    cases hfixed
  · split at h
    · unfold readWord at h
      dsimp only at h
      split at h <;> (cases h; cases hfixed)
    · cases h

/-- No character is read as the end of the text. -/
theorem readToken_ne_endOfText (lexer : Lexer) (first : Char) (cs : List Char) :
    (lexer.readToken first cs).1 ≠ .ok .endOfText :=
  fun h => absurd (text_of_readToken rfl h).1 (List.cons_ne_nil first []).symm

/-- Blanks apart, a text starts with the character that such a token stands for. -/
theorem skipBlanks_of_next (h : lexer.next cs = (.ok token, rest)) (hfixed : token.isFixed = true)
    (hend : token ≠ .endOfText) :
    ∃ c, token.text.toList = [c] ∧ lexer.skipBlanks cs = c :: rest := by
  unfold next at h
  split at h
  · cases h
    exact absurd rfl hend
  · rename_i first rest' hskipped
    obtain ⟨htext, hleft⟩ := text_of_readToken hfixed (congrArg Prod.fst h)
    rw [h] at hleft
    exact ⟨first, htext, by rw [hskipped, ← hleft]⟩

/-- A token is read as well where a character that ends expressions follows
the text, and anything after it. -/
theorem Ends.next_append (h : lexer.Ends c t) (hread : lexer.next cs = (.ok token, rest))
    (hend : token ≠ .endOfText) (q : List Char) :
    lexer.next (cs ++ c :: q) = (.ok token, rest ++ c :: q) := by
  unfold next at hread ⊢
  rw [h.skipBlanks_append]
  cases hskipped : lexer.skipBlanks cs with
  | nil =>
    rw [hskipped] at hread
    cases hread
    exact absurd rfl hend
  | cons first rest' =>
    rw [hskipped] at hread
    have hfirst : lexer.readToken first rest' = (.ok token, rest) := hread
    have hgoesOn := h.goesOn_readToken (q := q) first rest' token
    rw [hfirst] at hgoesOn
    exact hgoesOn rfl

/-- In place of the end of the text, that character is read. -/
theorem Ends.next_end (h : lexer.Ends c t) (hread : lexer.next cs = (.ok .endOfText, rest))
    (q : List Char) :
    ∃ token, lexer.next (cs ++ c :: q) = (.ok token, q) ∧ token.terminator? = some t := by
  have hskipped : lexer.skipBlanks cs = [] := by
    unfold next at hread
    split at hread
    · rename_i hnil
      exact hnil
    · rename_i first rest' _
      exact absurd (congrArg Prod.fst hread) (lexer.readToken_ne_endOfText first rest')
  have hstands := h.stands
  unfold next
  rw [h.skipBlanks_append, hskipped]
  unfold Terminator.ofChar? at hstands
  split at hstands <;> cases hstands <;> exact ⟨_, rfl, rfl⟩

end Lexer

end ReminderExpr
