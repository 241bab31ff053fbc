/-
ReminderExpr.Proofs.LexerOnBytes — the lexer, over a text and an offset.

A text is read through two operations on the offset of its next unread
character: one looks at that character, the other one passes over it. The offset
counts bytes, and what is unread is cut out of the text at the offset, which is
impossible inside a character. The scanning loops have a number of rounds, and
needing more of them is impossible, too.

What is unread determines what is read (`Leaves`): tokens, errors and what is
left are those of `Lexer.next`, wherever in a text the unread part begins.

* `leaves_peek`, `leaves_advance`, `Leaves.bind` — the two operations, and what
  is made of them;
* `leaves_skipBlank`, `leaves_wordText`, `leaves_scanString`, `leaves_scanDate` —
  the loops, which pass over one character in each round;
* `leaves_nextToken`, `leaves_peekNonBlank` — the lexer.
-/
import Mathlib.Data.List.TakeWhile
import ReminderExpr.Proofs.Words
import ReminderExpr.Token.Lexer

namespace ReminderExpr.Words

/-! ## Texts and offsets -/

/-- A text and the offset of its next unread character. -/
structure Source where
  text : List Char
  offset : Nat
  deriving DecidableEq, Repr

namespace Source

/-- A text of which nothing has been read. -/
def ofText (text : List Char) : Source := { text, offset := 0 }

/-- A text that has been read up to some of its characters. -/
def between (before after : List Char) : Source :=
  { text := before ++ after, offset := byteLength before }

/-- What is unread, if the offset is not inside a character. -/
def remaining (source : Source) : Option (List Char) :=
  (charsBefore? source.text source.offset).map source.text.drop

theorem remaining_between (before after : List Char) :
    (between before after).remaining = some after := by
  have hcut : charsBefore? (before ++ after) (byteLength before) = some before.length := by
    have hlength : before.length ≤ (before ++ after).length := by simp
    have hbytes := charsBefore?_byteLength hlength
    rwa [List.take_left] at hbytes
  show (charsBefore? (before ++ after) (byteLength before)).map (before ++ after).drop = _
  rw [hcut, Option.map_some, List.drop_left]

end Source

/-- What is computed while reading a source; none if it is impossible. -/
abbrev Scan := StateT Source Option

/-- The next character, without passing over it. -/
def peek : Scan (Option Char) := fun source => do
  let remaining ← source.remaining
  some (remaining.head?, source)

/-- The next character, passed over. -/
def advance : Scan (Option Char) := do
  match ← peek with
  | none => pure none
  | some c =>
      modify fun source => { source with offset := source.offset + c.utf8Size }
      pure (some c)

/-! ## The lexer -/

section

variable (lexer : Lexer)

def skipBlank : (rounds : Nat) → Scan Unit
  | 0 => failure
  | rounds + 1 => do
      if (← peek).any lexer.skips then
        let _ ← advance
        skipBlank rounds

def peekNonBlank (rounds : Nat) : Scan (Option Char) := do
  skipBlank lexer rounds
  peek

/-- The characters of a word after those in `text`. -/
def wordText : (rounds : Nat) → (text : String) → Scan String
  | 0, _ => failure
  | rounds + 1, text => do
      match (← peek).filter lexer.isWordChar with
      | none => pure text
      | some c =>
          let _ ← advance
          wordText rounds (text.push c)

/-- A word, or a call if a parenthesis is next. -/
def wordOrCall (text : String) : Scan Token := do
  if (← peek) = some '(' then
    let _ ← advance
    pure (.call text)
  else pure (.word text)

def scanWord (rounds : Nat) (first : Char) : Scan Token := do
  let text ← wordText lexer rounds (String.singleton first)
  skipBlank lexer rounds
  wordOrCall text

/-- The rest of a string of which `text` has been read. -/
def scanString : (rounds : Nat) → (text : String) → Scan (Except LexError String)
  | 0, _ => failure
  | rounds + 1, text => do
      match ← advance with
      | none => pure (.error .missingQuote)
      | some '\x22' => pure (.ok text)
      | some '\\' =>
          match ← advance with
          | none => pure (.error .missingQuote)
          | some escaped => scanString rounds (text.push (Lexer.unescaped escaped))
      | some c => scanString rounds (text.push c)

/-- The rest of a date of which `text` has been read. -/
def scanDate : (rounds : Nat) → (text : String) → Scan (Except LexError String)
  | 0, _ => failure
  | rounds + 1, text => do
      match ← advance with
      | none => pure (.error .missingQuote)
      | some '\x27' => pure (.ok text)
      | some c => scanDate rounds (text.push c)

/-- An operator of one character, or of two if `second` is next. -/
def scanOperator (first second : Char) : Scan Token := do
  if (← peek) = some second then
    let _ ← advance
    pure (.operator ((String.singleton first).push second))
  else pure (.operator (String.singleton first))

/-- The token whose first character has been passed over. -/
def scanToken (rounds : Nat) (first : Char) : Scan (Except LexError Token) :=
  match first with
  | ',' => pure (.ok .comma)
  | ']' => pure (.ok .closeBracket)
  | '(' => pure (.ok .leftParen)
  | ')' => pure (.ok .rightParen)
  | '+' | '-' | '*' | '/' | '%' => pure (.ok (.operator (String.singleton first)))
  | '&' | '|' | '=' => .ok <$> scanOperator first first
  | '!' | '>' | '<' => .ok <$> scanOperator first '='
  | '\x22' => Except.map Token.str <$> scanString rounds ""
  | '\x27' => Except.map Token.date <$> scanDate rounds ""
  | c =>
      if Lexer.isNameChar c || c == '$' then .ok <$> scanWord lexer rounds c
      else pure (.error (.illegalChar c))

def nextToken (rounds : Nat) : Scan (Except LexError Token) := do
  skipBlank lexer rounds
  match ← advance with
  | none => pure (.ok .endOfText)
  | some first => scanToken lexer rounds first

end

/-! ## What is left -/

/-- Wherever in a text it is that `cs` is unread, a scan yields `a`, and of `cs`
it leaves `rest`. -/
def Leaves {α : Type} (m : Scan α) (cs : List Char) (a : α) (rest : List Char) : Prop :=
  ∃ taken, cs = taken ++ rest
    ∧ ∀ before, m (.between before cs) = some (a, .between (before ++ taken) rest)

variable {α β : Type} {cs mid rest : List Char} {a : α} {b : β} {m : Scan α} {f : α → Scan β}

theorem leaves_pure (a : α) (cs : List Char) : Leaves (pure a) cs a cs :=
  ⟨[], rfl, fun before => by rw [List.append_nil]; rfl⟩

theorem Leaves.bind (h : Leaves m cs a mid) (h' : Leaves (f a) mid b rest) :
    Leaves (m >>= f) cs b rest := by
  obtain ⟨taken, rfl, hm⟩ := h
  obtain ⟨taken', rfl, hf⟩ := h'
  refine ⟨taken ++ taken', (List.append_assoc _ _ _).symm, fun before => ?_⟩
  show (m (.between before (taken ++ (taken' ++ rest))) >>= fun p => f p.1 p.2) = _
  rw [hm, Option.bind_eq_bind, Option.bind_some, hf, List.append_assoc]

theorem Leaves.map (h : Leaves m cs a rest) (g : α → β) : Leaves (g <$> m) cs (g a) rest := by
  rw [map_eq_pure_bind]
  exact h.bind (leaves_pure (g a) rest)

theorem Leaves.ok (h : Leaves m cs a rest) :
    Leaves (Except.ok <$> m : Scan (Except LexError α)) cs (.ok a) rest :=
  h.map Except.ok

theorem leaves_peek (cs : List Char) : Leaves peek cs cs.head? cs := by
  refine ⟨[], rfl, fun before => ?_⟩
  show ((Source.between before cs).remaining >>= fun remaining => some (remaining.head?, _)) = _
  rw [Source.remaining_between, List.append_nil]
  rfl

theorem leaves_advance_nil : Leaves advance [] none [] :=
  (leaves_peek []).bind (leaves_pure none [])

theorem leaves_advance_cons (c : Char) (cs : List Char) : Leaves advance (c :: cs) (some c) cs := by
  refine (leaves_peek (c :: cs)).bind ⟨[c], rfl, fun before => ?_⟩
  have hafter : Source.between (before ++ [c]) cs
      = { text := before ++ c :: cs, offset := byteLength before + c.utf8Size } := by
    rw [Source.between, byteLength_append, List.append_assoc]
    rfl
  rw [hafter]
  rfl

/-! ## The loops -/

variable {lexer : Lexer} {rounds : Nat}

theorem leaves_skipBlank (lexer : Lexer) (h : cs.length < rounds) :
    Leaves (skipBlank lexer rounds) cs () (lexer.skipBlanks cs) := by
  induction rounds generalizing cs with
  | zero => exact absurd h (Nat.not_lt_zero _)
  | succ rounds ih =>
    refine (leaves_peek cs).bind ?_
    cases cs with
    | nil => exact leaves_pure () []
    | cons c cs =>
      rw [List.head?_cons, Option.any_some, Lexer.skipBlanks, List.dropWhile_cons]
      by_cases hskips : lexer.skips c = true
      · rw [if_pos hskips, if_pos hskips]
        exact (leaves_advance_cons c cs).bind (ih (Nat.lt_of_succ_lt_succ h))
      · rw [if_neg hskips, if_neg hskips]
        exact leaves_pure () (c :: cs)

theorem push_ofList (text : List Char) (c : Char) :
    (String.ofList text).push c = String.ofList (text ++ [c]) :=
  String.toList_injective (by simp)

theorem leaves_wordText (lexer : Lexer) (h : cs.length < rounds) (text : List Char) :
    Leaves (wordText lexer rounds (String.ofList text)) cs
      (String.ofList (text ++ cs.takeWhile lexer.isWordChar)) (cs.dropWhile lexer.isWordChar) := by
  induction rounds generalizing cs text with
  | zero => exact absurd h (Nat.not_lt_zero _)
  | succ rounds ih =>
    refine (leaves_peek cs).bind ?_
    cases cs with
    | nil =>
      rw [List.takeWhile_nil, List.append_nil]
      exact leaves_pure _ []
    | cons c cs =>
      rw [List.head?_cons, Option.filter_some, List.takeWhile_cons, List.dropWhile_cons]
      by_cases hword : lexer.isWordChar c = true
      · rw [if_pos hword, if_pos hword, if_pos hword]
        refine (leaves_advance_cons c cs).bind ?_
        have hnext := ih (Nat.lt_of_succ_lt_succ h) (text ++ [c])
        rw [List.append_assoc, ← push_ofList] at hnext
        exact hnext
      · rw [if_neg hword, if_neg hword, if_neg hword, List.append_nil]
        exact leaves_pure _ (c :: cs)

theorem leaves_scanString (h : cs.length < rounds) (content : List Char) :
    ∃ outcome, Leaves (scanString rounds (String.ofList content.reverse)) cs outcome
        (Lexer.readString content cs).2
      ∧ (Lexer.readString content cs).1 = outcome.map .str := by
  induction rounds generalizing content cs with
  | zero => exact absurd h (Nat.not_lt_zero _)
  | succ rounds ih =>
    -- The cases are those of `readString`; a backslash is the last character or not.
    fun_cases Lexer.readString content cs with
    | case1 => exact ⟨_, leaves_advance_nil.bind (leaves_pure _ []), rfl⟩
    | case2 rest => exact ⟨_, (leaves_advance_cons _ rest).bind (leaves_pure _ rest), rfl⟩
    | case3 c rest =>
      have hrest : rest.length < rounds := by
        simp only [List.length_cons] at h
        omega
      obtain ⟨outcome, hleaves, houtcome⟩ := ih hrest (Lexer.unescaped c :: content)
      rw [List.reverse_cons, ← push_ofList] at hleaves
      exact ⟨outcome, (leaves_advance_cons _ _).bind ((leaves_advance_cons _ _).bind hleaves),
        houtcome⟩
    | case4 =>
      exact ⟨_, (leaves_advance_cons _ []).bind (leaves_advance_nil.bind (leaves_pure _ [])), rfl⟩
    | case5 c rest hquote hescape hlast =>
      obtain ⟨outcome, hleaves, houtcome⟩ := ih (Nat.lt_of_succ_lt_succ h) (c :: content)
      rw [List.reverse_cons, ← push_ofList] at hleaves
      refine ⟨outcome, (leaves_advance_cons _ _).bind ?_, houtcome⟩
      have hplain : c ≠ '\\' := fun hc => by
        cases rest with
        | nil => exact hlast hc rfl
        | cons c' rest => exact hescape c' rest hc rfl
      split <;> rename_i hc
      · cases hc
      · exact absurd (Option.some.inj hc) hquote
      · exact absurd (Option.some.inj hc) hplain
      · cases hc
        exact hleaves

/-- A date ends at its first quote, if it has one. -/
theorem quotedDate_eq (cs : List Char) :
    Lexer.readDate cs
      = (if '\x27' ∈ cs then .ok (.date (String.ofList (cs.takeWhile (· != '\x27'))))
          else .error .missingQuote, (cs.dropWhile (· != '\x27')).tail) := by
  have hnone : cs.dropWhile (· != '\x27') = [] ↔ '\x27' ∉ cs := by
    rw [List.dropWhile_eq_nil_iff]
    exact ⟨fun h hquote => absurd (h _ hquote) (by decide),
      fun h c hc => bne_iff_ne.2 fun hquote => h (hquote ▸ hc)⟩
  unfold Lexer.readDate
  split
  · rename_i hd
    rw [hd, if_neg (hnone.1 hd)]
    rfl
  · rename_i c rest hd
    rw [if_pos, hd]
    · rfl
    · by_contra hmem
      rw [hnone.2 hmem] at hd
      cases hd

theorem leaves_scanDate (h : cs.length < rounds) (text : List Char) :
    Leaves (scanDate rounds (String.ofList text)) cs
      (if '\x27' ∈ cs then .ok (String.ofList (text ++ cs.takeWhile (· != '\x27')))
        else .error .missingQuote)
      (cs.dropWhile (· != '\x27')).tail := by
  induction rounds generalizing cs text with
  | zero => exact absurd h (Nat.not_lt_zero _)
  | succ rounds ih =>
    cases cs with
    | nil => exact leaves_advance_nil.bind (leaves_pure _ [])
    | cons c cs =>
      refine (leaves_advance_cons c cs).bind ?_
      by_cases hquote : c = '\x27'
      · subst hquote
        simpa using leaves_pure _ cs
      · have hnext := ih (Nat.lt_of_succ_lt_succ h) (text ++ [c])
        rw [List.append_assoc, ← push_ofList] at hnext
        simpa [hquote, Ne.symm hquote] using hnext

/-! ## Tokens -/

theorem leaves_str (h : cs.length < rounds) :
    Leaves (Except.map Token.str <$> scanString rounds "") cs (Lexer.readString [] cs).1
      (Lexer.readString [] cs).2 := by
  obtain ⟨outcome, hleaves, houtcome⟩ := leaves_scanString h []
  rw [houtcome]
  exact hleaves.map _

theorem leaves_date (h : cs.length < rounds) :
    Leaves (Except.map Token.date <$> scanDate rounds "") cs (Lexer.readDate cs).1
      (Lexer.readDate cs).2 := by
  have hleaves := (leaves_scanDate h []).map (Except.map Token.date)
  rw [quotedDate_eq]
  split at hleaves <;> rename_i hquote
  · rwa [if_pos hquote]
  · rwa [if_neg hquote]

theorem leaves_call (text : String) (cs : List Char) :
    Leaves (wordOrCall text) ('(' :: cs) (.call text) cs := by
  refine (leaves_peek _).bind ?_
  rw [if_pos List.head?_cons]
  exact (leaves_advance_cons '(' cs).bind (leaves_pure _ cs)

theorem leaves_noCall (text : String) (h : ∀ rest, cs ≠ '(' :: rest) :
    Leaves (wordOrCall text) cs (.word text) cs := by
  refine (leaves_peek cs).bind ?_
  rw [if_neg fun hopen => ?_]
  · exact leaves_pure _ cs
  · obtain ⟨rest, rfl⟩ := List.head?_eq_some_iff.1 hopen
    exact h rest rfl

theorem leaves_word (lexer : Lexer) (h : cs.length < rounds) (first : Char) :
    Leaves (Except.ok <$> scanWord lexer rounds first) cs (lexer.readWord first cs).1
      (lexer.readWord first cs).2 := by
  have hrest : (cs.dropWhile lexer.isWordChar).length < rounds :=
    Nat.lt_of_le_of_lt (Lexer.length_dropWhile_le _ cs) h
  have hblanks := leaves_skipBlank lexer hrest
  have htext := leaves_wordText lexer h [first]
  unfold Lexer.readWord
  generalize lexer.skipBlanks (cs.dropWhile lexer.isWordChar) = rest at hblanks ⊢
  split
  · exact (htext.bind (hblanks.bind (leaves_call _ _))).ok
  · rename_i hclosed
    exact (htext.bind (hblanks.bind (leaves_noCall _ hclosed))).ok

theorem leaves_operator (first second : Char) (cs : List Char) :
    Leaves (Except.ok <$> scanOperator first second) cs (Lexer.readOperator first second cs).1
      (Lexer.readOperator first second cs).2 := by
  have hpair : (String.singleton first).push second = String.ofList [first, second] :=
    push_ofList [first] second
  fun_cases Lexer.readOperator first second cs with
  | case1 rest =>
    refine ((leaves_peek _).bind ?_).ok
    rw [if_pos List.head?_cons, hpair]
    exact (leaves_advance_cons second rest).bind (leaves_pure _ rest)
  | case2 c rest hother =>
    refine ((leaves_peek _).bind ?_).ok
    rw [if_neg (by simpa using hother)]
    exact leaves_pure _ (c :: rest)
  | case3 =>
    refine ((leaves_peek []).bind ?_).ok
    exact leaves_pure _ []

theorem leaves_scanToken (lexer : Lexer) (h : cs.length < rounds) (first : Char) :
    Leaves (scanToken lexer rounds first) cs (lexer.readToken first cs).1
      (lexer.readToken first cs).2 := by
  unfold scanToken
  split
  case h_18 =>
    have hother : lexer.readToken first cs = if Lexer.isNameChar first || first == '$'
        then lexer.readWord first cs else (.error (.illegalChar first), cs) := by
      rw [Lexer.readToken.eq_18] <;> assumption
    rw [hother]
    split
    · exact leaves_word lexer h first
    · exact leaves_pure _ cs
  case h_16 => exact leaves_str h
  case h_17 => exact leaves_date h
  all_goals first | exact leaves_pure _ cs | exact leaves_operator _ _ cs

theorem leaves_nextToken (lexer : Lexer) (h : cs.length < rounds) :
    Leaves (nextToken lexer rounds) cs (lexer.next cs).1 (lexer.next cs).2 := by
  have hblanks := leaves_skipBlank lexer h
  have hlength := Lexer.length_skipBlanks_le lexer cs
  unfold Lexer.next
  generalize lexer.skipBlanks cs = rest at hblanks hlength ⊢
  cases rest with
  | nil =>
    refine hblanks.bind (leaves_advance_nil.bind ?_)
    exact leaves_pure _ []
  | cons first rest =>
    have hrest : rest.length < rounds := by
      simp only [List.length_cons] at hlength
      omega
    exact hblanks.bind ((leaves_advance_cons first rest).bind (leaves_scanToken lexer hrest first))

theorem leaves_peekNonBlank (lexer : Lexer) (h : cs.length < rounds) :
    Leaves (peekNonBlank lexer rounds) cs (lexer.skipBlanks cs).head? (lexer.skipBlanks cs) :=
  (leaves_skipBlank lexer h).bind (leaves_peek _)

end ReminderExpr.Words
