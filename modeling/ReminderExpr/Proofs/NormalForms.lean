/-
ReminderExpr.Proofs.NormalForms — the tokens of a text, written again.

`Lexer.tokens` are the tokens of a whole text. With `:` or `.` between hours and
minutes, neither a blank nor a parenthesis is part of a word; then every token
that is read from a text is legible, and no word stands before a parenthesis, so
that the tokens can be written with blanks between them and read again.

* `next_of_tokens`, `scans_of_tokens`, `tokens_of_scans` — the tokens of a text
  one by one;
* `legible_of_next`, `not_open_of_next` — what is read can be written;
* `tokens_of_spread` — and read again.
-/
import ReminderExpr.Proofs.Demands

namespace ReminderExpr.Lexer

variable {lexer : Lexer} {c first : Char} {t : Token} {ts : List Token}
  {cs cs' rest after : List Char}

/-! ## The tokens of a text -/

/-- The tokens of a text up to its end, or the reason why one cannot be read. -/
def tokens (lexer : Lexer) (cs : List Char) : Except LexError (List Token) :=
  match _h : lexer.next cs with
  | (.error e, _) => .error e
  | (.ok t, rest) =>
      if _hend : t = .endOfText then .ok []
      else do .ok (t :: (← lexer.tokens rest))
termination_by cs.length
decreasing_by
  have hlt := length_next_lt lexer cs
  rw [_h] at hlt
  exact hlt fun heq => _hend (Except.ok.inj heq)

theorem tokens_of_error {e : LexError} (h : lexer.next cs = (.error e, rest)) :
    lexer.tokens cs = .error e := by
  rw [tokens]
  split
  · rename_i h'
    cases h'.symm.trans h
    rfl
  · rename_i h'
    cases h'.symm.trans h

theorem tokens_of_end (h : lexer.next cs = (.ok .endOfText, rest)) : lexer.tokens cs = .ok [] := by
  rw [tokens]
  split
  · rename_i h'
    cases h'.symm.trans h
  · rename_i h'
    cases h'.symm.trans h
    exact dif_pos rfl

theorem tokens_of_ok (h : lexer.next cs = (.ok t, rest)) (hend : t ≠ .endOfText) :
    lexer.tokens cs = (do .ok (t :: (← lexer.tokens rest))) := by
  rw [tokens]
  split
  · rename_i h'
    cases h'.symm.trans h
  · rename_i h'
    cases h'.symm.trans h
    exact dif_neg hend

/-- A reading that finds the end leaves nothing. -/
theorem rest_of_end (h : lexer.next cs = (.ok .endOfText, rest)) : rest = [] := by
  unfold next at h
  split at h
  · exact (Prod.mk.inj h).2.symm
  · exact absurd (congrArg Prod.fst h) (readToken_ne_endOfText lexer _ _)

/-- Either a text has no tokens, or one is read first and then the others. -/
theorem next_of_tokens (h : lexer.tokens cs = .ok ts) :
    (ts = [] ∧ lexer.next cs = (.ok .endOfText, []))
      ∨ ∃ t ts' rest, ts = t :: ts' ∧ t ≠ .endOfText ∧ lexer.next cs = (.ok t, rest)
        ∧ lexer.tokens rest = .ok ts' := by
  rcases hnext : lexer.next cs with ⟨e | t, rest⟩
  · cases (tokens_of_error hnext).symm.trans h
  · by_cases hend : t = .endOfText
    · subst hend
      cases (tokens_of_end hnext).symm.trans h
      exact .inl ⟨rfl, by rw [rest_of_end hnext]⟩
    · rw [tokens_of_ok hnext hend] at h
      cases hrest : lexer.tokens rest with
      | error e =>
        rw [hrest] at h
        cases h
      | ok ts' =>
        rw [hrest] at h
        cases h
        exact .inr ⟨t, ts', rest, rfl, hend, rfl, hrest⟩

theorem scans_of_tokens (h : lexer.tokens cs = .ok ts) : lexer.Scans ts cs ∧ .endOfText ∉ ts := by
  induction ts generalizing cs with
  | nil =>
    obtain ⟨-, hnext⟩ | ⟨_, _, _, ⟨⟩, -⟩ := next_of_tokens h
    exact ⟨.nil hnext, List.not_mem_nil⟩
  | cons t ts ih =>
    obtain ⟨⟨⟩, -⟩ | ⟨_, _, rest, ⟨⟩, hend, hnext, hrest⟩ := next_of_tokens h
    obtain ⟨hscans, hends⟩ := ih hrest
    exact ⟨.cons hnext hscans, List.not_mem_cons_of_ne_of_not_mem (Ne.symm hend) hends⟩

theorem tokens_of_scans (h : lexer.Scans ts cs) (hend : .endOfText ∉ ts) :
    lexer.tokens cs = .ok ts := by
  induction h with
  | nil h => exact tokens_of_end h
  | cons h hrest ih =>
    obtain ⟨ht, hts⟩ := List.ne_and_not_mem_of_not_mem_cons hend
    rw [tokens_of_ok h (Ne.symm ht), ih hts]
    rfl

/-! ## What is read can be written -/

/-- Skipping stops at a character that is not skipped. -/
theorem skips_of_skipBlanks (h : lexer.skipBlanks cs = c :: rest) : lexer.skips c = false := by
  have hhead := List.head?_dropWhile_not lexer.skips cs
  rw [show cs.dropWhile lexer.skips = c :: rest from h] at hhead
  simpa using hhead

/-- Neither a blank nor a parenthesis is part of a word, if `:` or `.` stands
between hours and minutes. -/
structure Plain (lexer : Lexer) : Prop where
  blank : lexer.isWordChar ' ' = false
  paren : lexer.isWordChar '(' = false

theorem plain_of_timeSeparator (h : lexer.timeSeparator = ':' ∨ lexer.timeSeparator = '.') :
    lexer.Plain := by
  constructor <;> rcases h with h | h <;> rw [isWordChar, h] <;> rfl

theorem legible_of_readOperator {second : Char} (hfirst : lexer.skips first = false)
    (hone : String.ofList [first] ∈ operatorSpellings)
    (htwo : String.ofList [first, second] ∈ operatorSpellings)
    (h : (readOperator first second cs).1 = .ok t) : lexer.Legible t := by
  unfold readOperator at h
  split at h
  · rename_i d rest
    split at h
    · rename_i hd
      subst hd
      cases h
      exact ⟨⟨first, [d], String.toList_ofList, hfirst⟩, htwo⟩
    · cases h
      exact ⟨⟨first, [], String.toList_ofList, hfirst⟩, hone⟩
  · cases h
    exact ⟨⟨first, [], String.toList_ofList, hfirst⟩, hone⟩

theorem exists_str_of_readString {content : List Char} (h : (readString content cs).1 = .ok t) :
    ∃ s, t = .str s := by
  fun_induction readString content cs with
  | case1 | case4 => cases h
  | case2 =>
    cases h
    exact ⟨_, rfl⟩
  | case3 content c rest ih => exact ih h
  | case5 content c rest _ _ _ ih => exact ih h

theorem legible_of_readDate (hfirst : lexer.skips '\x27' = false) (h : (readDate cs).1 = .ok t) :
    lexer.Legible t := by
  unfold readDate at h
  split at h
  · cases h
  · cases h
    refine ⟨⟨_, _, rfl, hfirst⟩, fun hquote => ?_⟩
    rw [String.toList_ofList] at hquote
    simpa using List.mem_takeWhile_imp hquote

theorem legible_of_readWord (hplain : lexer.Plain) (hfirst : lexer.skips first = false)
    (hstart : (isNameChar first || first == '$') = true)
    (h : (lexer.readWord first cs).1 = .ok t) : lexer.Legible t := by
  have hword : lexer.IsWord (String.ofList (first :: cs.takeWhile lexer.isWordChar)) :=
    ⟨first, _, String.toList_ofList, hstart, fun c hc => List.mem_takeWhile_imp hc⟩
  unfold readWord at h
  dsimp only at h
  split at h
  · rename_i rest hparen
    cases h
    refine ⟨⟨first, cs.takeWhile lexer.isWordChar ++ ['('], ?_, hfirst⟩, hword, hplain.paren,
      skips_of_skipBlanks hparen⟩
    rw [Token.spelled, String.toList_ofList]
    rfl
  · cases h
    exact ⟨⟨first, _, String.toList_ofList, hfirst⟩, hword, hplain.blank⟩

/-- Every token that is read is legible. -/
theorem legible_of_readToken (hplain : lexer.Plain) (hfirst : lexer.skips first = false)
    (h : (lexer.readToken first rest).1 = .ok t) : lexer.Legible t := by
  unfold readToken at h
  split at h
  case h_1 | h_2 | h_3 | h_4 =>
    cases h
    exact ⟨⟨_, _, rfl, hfirst⟩, trivial⟩
  case h_5 | h_6 | h_7 | h_8 | h_9 =>
    cases h
    refine ⟨⟨_, _, rfl, hfirst⟩, ?_⟩
    show _ ∈ operatorSpellings
    decide
  case h_10 | h_11 | h_12 | h_13 | h_14 | h_15 =>
    exact legible_of_readOperator hfirst (by decide) (by decide) h
  case h_16 =>
    obtain ⟨s, rfl⟩ := exists_str_of_readString h
    exact ⟨⟨_, _, rfl, hfirst⟩, trivial⟩
  case h_17 => exact legible_of_readDate hfirst h
  case h_18 =>
    split at h
    · rename_i hstart
      exact legible_of_readWord hplain hfirst hstart h
    · cases h

theorem legible_of_next (hplain : lexer.Plain) (h : lexer.next cs = (.ok t, rest))
    (hend : t ≠ .endOfText) : lexer.Legible t := by
  unfold next at h
  split at h
  · cases h
    exact absurd rfl hend
  · rename_i first rest' hskipped
    exact legible_of_readToken hplain (skips_of_skipBlanks hskipped) (congrArg Prod.fst h)

theorem readWord_of_word {text : String} (h : lexer.readToken first cs = (.ok (.word text), rest)) :
    lexer.readWord first cs = (.ok (.word text), rest) := by
  have operator : ∀ second, readOperator first second cs ≠ (.ok (.word text), rest) := by
    intro second
    unfold readOperator
    split
    · split <;> nofun
    · nofun
  unfold readToken at h
  split at h <;> try first
    | exact absurd h (operator _)
    | cases h
  case h_16 =>
    obtain ⟨s, hs⟩ := exists_str_of_readString (congrArg Prod.fst h)
    cases hs
  case h_17 =>
    unfold readDate at h
    split at h <;> cases h
  case h_18 =>
    split at h
    · exact h
    · cases h

/-- A word is read as one only where no parenthesis stands behind it. -/
theorem not_open_of_next {text : String} (h : lexer.next cs = (.ok (.word text), rest))
    (after : List Char) : lexer.skipBlanks rest ≠ '(' :: after := by
  unfold next at h
  split at h
  · cases h
  · have hread := readWord_of_word h
    unfold readWord at hread
    dsimp only at hread
    split at hread
    · cases hread
    · rename_i hopen
      cases hread
      rw [show lexer.skipBlanks (lexer.skipBlanks _) = lexer.skipBlanks _ from
        List.dropWhile_idempotent lexer.skips _]
      exact hopen after

/-- The tokens of a text can be written, and read one after another. -/
theorem Scans.legible (hplain : lexer.Plain) (h : lexer.Scans ts cs) (hend : .endOfText ∉ ts) :
    ∀ t ∈ ts, lexer.Legible t := by
  induction h with
  | nil h => exact List.forall_mem_nil _
  | cons h hrest ih =>
    obtain ⟨ht, hts⟩ := List.ne_and_not_mem_of_not_mem_cons hend
    exact List.forall_mem_cons.2 ⟨legible_of_next hplain h (Ne.symm ht), ih hts⟩

theorem Scans.apart (h : lexer.Scans ts cs) : ts.IsChain Apart := by
  induction h with
  | nil h => exact .nil
  | cons h hrest ih =>
    refine ih.cons fun u hu text ht hparen => ?_
    subst ht
    cases hrest with
    | nil => cases hu
    | cons hnext _ =>
      cases hu
      rw [hparen] at hnext
      obtain ⟨c, hc, hopen⟩ := skipBlanks_of_next hnext rfl nofun
      cases hc
      exact not_open_of_next h _ hopen

/-! ## The normal form -/

/-- The tokens of a text can be written with any blanks between them, and are
read again. -/
theorem tokens_of_spread (hplain : lexer.Plain) (h : lexer.tokens cs = .ok ts)
    (hspread : lexer.Spread ts cs') : lexer.tokens cs' = .ok ts := by
  obtain ⟨hscans, hend⟩ := scans_of_tokens h
  exact tokens_of_scans (scans_of_spread hspread (hscans.legible hplain hend) hscans.apart) hend

end ReminderExpr.Lexer
