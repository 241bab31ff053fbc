/-
ReminderExpr.Proofs.TextPartition — the calls of the lexer share out the text.

A call of the lexer passes over a slice of the text, from the offset before it to
the offset after it. What follows from what is unread is said of traces
(`Trace`): calls one after another, each of which begins where the one before it
ended. Blanks that are skipped before a call are skipped by it otherwise.

* `Trace.nextCalls_eq`, `exists_trace` — calls of the lexer are traces, and there
  are as many of them as one likes;
* `Trace.consumed_append`, `Trace.slice_ne_nil`, `Trace.after_end` — what a trace
  passes over;
* `exists_trace_end` — how soon the end or an error is reached;
* `Reached.exists_between`, `nextToken_after_peek` — where offsets are, and that
  looking ahead makes no difference;
* `calls_partition_text` — all of this for any lexer and any text.
-/
import ReminderExpr.Proofs.LexerOnBytes
import ReminderExpr.Proofs.NormalForms

namespace ReminderExpr.Words

/-! ## Calls -/

/-- What a call of the lexer yields, and the part of the text that it passes
over. -/
structure Call where
  outcome : Except LexError Token
  slice : List Char
  deriving DecidableEq

/-- The part of the text from an offset to the offset of what is unread. -/
def sliceFrom (start : Nat) : Scan (List Char) := fun source => do
  let cut ← (slice source.text start source.offset).run
  let slice ← cut.toOption
  some (slice, source)

def nextCall (lexer : Lexer) (rounds : Nat) : Scan Call := do
  let start := (← get).offset
  let outcome ← nextToken lexer rounds
  let slice ← sliceFrom start
  pure { outcome, slice }

/-- Calls one after another. -/
def nextCalls (lexer : Lexer) (rounds : Nat) : (count : Nat) → Scan (List Call)
  | 0 => pure []
  | count + 1 => do
      let first ← nextCall lexer rounds
      let others ← nextCalls lexer rounds count
      pure (first :: others)

/-- What some calls pass over. -/
def consumed (calls : List Call) : List Char := calls.flatMap Call.slice

/-- Calls one after another, by what is unread before and after them. -/
inductive Trace (lexer : Lexer) : List Char → List Call → List Char → Prop
  | nil (cs : List Char) : Trace lexer cs [] cs
  | cons {outcome : Except LexError Token} {slice mid rest : List Char} {calls : List Call}
      (hnext : lexer.next (slice ++ mid) = (outcome, mid)) (hcalls : Trace lexer mid calls rest) :
      Trace lexer (slice ++ mid) ({ outcome, slice } :: calls) rest

variable {lexer : Lexer} {rounds : Nat} {cs mid rest before : List Char} {calls : List Call}

theorem length_unread_lt {after : List Char} (h : (before ++ after).length < rounds) :
    after.length < rounds := by
  rw [List.length_append] at h
  omega

theorem sliceFrom_between (before slice rest : List Char) :
    sliceFrom (byteLength before) (.between (before ++ slice) rest)
      = some (slice, .between (before ++ slice) rest) := by
  have hcut : Words.slice (before ++ slice ++ rest) (byteLength before)
      (byteLength (before ++ slice)) = pure slice := by
    have hstop : (before ++ slice).length ≤ (before ++ slice ++ rest).length := by simp
    have hstart : before.length ≤ (before ++ slice).length := by simp
    have hslice := slice_eq hstart hstop
    rw [List.take_left, List.drop_left, List.append_assoc before, List.take_left,
      ← List.append_assoc] at hslice
    exact hslice
  rw [sliceFrom, Source.between, hcut]
  rfl

/-- A call passes over the slice up to what the lexer leaves. -/
theorem nextCall_between {outcome : Except LexError Token} {slice : List Char}
    (hrounds : (slice ++ mid).length < rounds)
    (hnext : lexer.next (slice ++ mid) = (outcome, mid)) (before : List Char) :
    nextCall lexer rounds (.between before (slice ++ mid))
      = some ({ outcome, slice }, .between (before ++ slice) mid) := by
  obtain ⟨taken, htaken, hreads⟩ := leaves_nextToken lexer hrounds
  rw [hnext] at htaken hreads
  obtain rfl := List.append_cancel_right htaken
  have hslice := sliceFrom_between before slice mid
  calc nextCall lexer rounds (.between before (slice ++ mid))
      = (do
          let (outcome, source) ← nextToken lexer rounds (.between before (slice ++ mid))
          let (slice, source) ← sliceFrom (byteLength before) source
          some ({ outcome, slice }, source)) := rfl
    _ = some ({ outcome, slice }, .between (before ++ slice) mid) := by
        simp only [hreads, hslice, Option.bind_eq_bind, Option.bind_some]

theorem Trace.nextCalls_eq (h : Trace lexer cs calls rest) (hrounds : cs.length < rounds)
    (before : List Char) :
    nextCalls lexer rounds calls.length (.between before cs)
      = some (calls, .between (before ++ consumed calls) rest) := by
  induction h generalizing before with
  | nil cs =>
    rw [consumed, List.flatMap_nil, List.append_nil]
    rfl
  | @cons outcome slice mid rest calls hnext hcalls ih =>
    have hcall := nextCall_between hrounds hnext before
    have hothers := ih (length_unread_lt hrounds) (before ++ slice)
    rw [List.append_assoc] at hothers
    calc nextCalls lexer rounds (calls.length + 1) (.between before (slice ++ mid))
        = (do
            let (first, source) ← nextCall lexer rounds (.between before (slice ++ mid))
            let (others, source) ← nextCalls lexer rounds calls.length source
            some (first :: others, source)) := rfl
      _ = some ({ outcome, slice } :: calls,
            .between (before ++ (slice ++ consumed calls)) rest) := by
          simp only [hcall, hothers, Option.bind_eq_bind, Option.bind_some]

/-- What the lexer leaves is the end of what is unread. -/
theorem exists_slice (lexer : Lexer) (cs : List Char) :
    ∃ slice, cs = slice ++ (lexer.next cs).2 := by
  obtain ⟨slice, hslice, -⟩ := leaves_nextToken lexer (Nat.lt_succ_self cs.length)
  exact ⟨slice, hslice⟩

/-- A text can be read by any number of calls. -/
theorem exists_trace (lexer : Lexer) (count : Nat) (cs : List Char) :
    ∃ calls rest, calls.length = count ∧ Trace lexer cs calls rest := by
  induction count generalizing cs with
  | zero => exact ⟨[], cs, rfl, .nil cs⟩
  | succ count ih =>
    obtain ⟨slice, hslice⟩ := exists_slice lexer cs
    obtain ⟨calls, rest, hcount, hcalls⟩ := ih (lexer.next cs).2
    generalize hreading : lexer.next cs = reading at hslice hcalls
    obtain ⟨outcome, mid⟩ := reading
    subst hslice
    refine ⟨{ outcome, slice } :: calls, rest, ?_, .cons hreading hcalls⟩
    rw [List.length_cons, hcount]

theorem Trace.consumed_append (h : Trace lexer cs calls rest) : cs = consumed calls ++ rest := by
  induction h with
  | nil cs => rfl
  | @cons outcome slice mid rest calls hnext hcalls ih =>
    rw [consumed, List.flatMap_cons, List.append_assoc]
    exact congrArg _ ih

/-- Only a call that finds the end may pass over nothing. -/
theorem Trace.slice_ne_nil (h : Trace lexer cs calls rest) {call : Call} (hcall : call ∈ calls)
    (hend : call.outcome ≠ .ok .endOfText) : call.slice ≠ [] := by
  induction h with
  | nil cs => cases hcall
  | @cons outcome slice mid rest calls hnext hcalls ih =>
    rcases List.mem_cons.1 hcall with rfl | hcall
    · intro hnil
      have hshorter := Lexer.length_next_lt lexer (slice ++ mid) (by rw [hnext]; exact hend)
      dsimp only at hnil
      rw [hnext, hnil] at hshorter
      exact Nat.lt_irrefl _ hshorter
    · exact ih hcall

/-- At the end of a text there are only ends. -/
theorem Trace.of_nil (h : Trace lexer cs calls rest) (hcs : cs = []) :
    ∀ call ∈ calls, call = { outcome := .ok .endOfText, slice := [] } := by
  induction h with
  | nil cs => exact List.forall_mem_nil _
  | @cons outcome slice mid rest calls hnext hcalls ih =>
    obtain ⟨rfl, rfl⟩ := List.append_eq_nil_iff.1 hcs
    obtain ⟨rfl, -⟩ := Prod.mk.inj hnext
    exact List.forall_mem_cons.2 ⟨rfl, ih rfl⟩

/-- The call that finds the end has passed over the rest of the text, and the
calls after it find the end, too. -/
theorem Trace.after_end (h : Trace lexer cs calls rest) {earlier later : List Call} {call : Call}
    (hcalls : calls = earlier ++ call :: later) (hend : call.outcome = .ok .endOfText) :
    consumed (earlier ++ [call]) = cs
      ∧ ∀ next ∈ later, next = { outcome := .ok .endOfText, slice := [] } := by
  induction h generalizing earlier with
  | nil cs => simp at hcalls
  | @cons outcome slice mid rest calls hnext htrace ih =>
    cases earlier with
    | nil =>
      obtain ⟨rfl, rfl⟩ := List.cons.inj hcalls
      dsimp only at hend
      subst hend
      obtain rfl := Lexer.rest_of_end hnext
      exact ⟨by simp [consumed], htrace.of_nil rfl⟩
    | cons first earlier =>
      obtain ⟨rfl, rfl⟩ := List.cons.inj hcalls
      obtain ⟨hconsumed, hlater⟩ := ih rfl
      refine ⟨?_, hlater⟩
      rw [← hconsumed]
      rfl

/-- The end or an error is found after no more tokens than there are characters. -/
theorem exists_trace_end (lexer : Lexer) (cs : List Char) :
    ∃ calls last rest, Trace lexer cs (calls ++ [last]) rest ∧ calls.length ≤ cs.length
      ∧ (∀ call ∈ calls, ∃ token, token ≠ .endOfText ∧ call.outcome = .ok token)
      ∧ ∀ token, last.outcome = .ok token → token = .endOfText := by
  induction hlength : cs.length using Nat.strong_induction_on generalizing cs with
  | _ length ih =>
    subst hlength
    obtain ⟨slice, hslice⟩ := exists_slice lexer cs
    have hshorter := Lexer.length_next_lt lexer cs
    generalize hreading : lexer.next cs = reading at hslice hshorter
    obtain ⟨outcome, mid⟩ := reading
    subst hslice
    by_cases htoken : ∃ token, token ≠ .endOfText ∧ outcome = .ok token
    · obtain ⟨token, hend, rfl⟩ := htoken
      have hmid := hshorter fun h => hend (Except.ok.inj h)
      obtain ⟨calls, last, rest, htrace, hcount, htokens, hlast⟩ := ih mid.length hmid mid rfl
      refine ⟨{ outcome := .ok token, slice } :: calls, last, rest, .cons hreading htrace, ?_, ?_,
        hlast⟩
      · exact Nat.succ_le_of_lt (Nat.lt_of_le_of_lt hcount hmid)
      · exact List.forall_mem_cons.2 ⟨⟨token, hend, rfl⟩, htokens⟩
    · refine ⟨[], { outcome, slice }, mid, .cons hreading (.nil mid), Nat.zero_le _,
        List.forall_mem_nil _, fun token h => ?_⟩
      by_contra hend
      exact htoken ⟨token, hend, h⟩

/-! ## Offsets -/

/-- The sources that are reached from the start of a text by reading tokens and
by looking ahead. -/
inductive Reached (lexer : Lexer) (rounds : Nat) (text : List Char) : Source → Prop
  | start : Reached lexer rounds text (.ofText text)
  | token {source source' : Source} {outcome : Except LexError Token}
      (h : Reached lexer rounds text source)
      (hread : nextToken lexer rounds source = some (outcome, source')) :
      Reached lexer rounds text source'
  | ahead {source source' : Source} {c : Option Char} (h : Reached lexer rounds text source)
      (hlook : peekNonBlank lexer rounds source = some (c, source')) :
      Reached lexer rounds text source'

variable {α : Type} {m m' : Scan α} {a : α} {text : List Char} {source source' : Source}

/-- A scan that leaves some of what is unread leads to between two characters. -/
theorem Leaves.exists_between (h : Leaves m cs a rest) {b : α}
    (hm : m (.between before cs) = some (b, source')) :
    ∃ before' after, before ++ cs = before' ++ after ∧ source' = .between before' after := by
  obtain ⟨taken, rfl, hreads⟩ := h
  obtain ⟨-, rfl⟩ := Prod.mk.inj (Option.some.inj ((hreads before).symm.trans hm))
  exact ⟨before ++ taken, rest, (List.append_assoc _ _ _).symm, rfl⟩

/-- All offsets are between characters. -/
theorem Reached.exists_between (h : Reached lexer rounds text source)
    (hrounds : text.length < rounds) :
    ∃ before after, text = before ++ after ∧ source = .between before after := by
  induction h with
  | start => exact ⟨[], text, rfl, rfl⟩
  | token h hread ih =>
    obtain ⟨before, after, rfl, rfl⟩ := ih
    exact (leaves_nextToken lexer (length_unread_lt hrounds)).exists_between hread
  | ahead h hlook ih =>
    obtain ⟨before, after, rfl, rfl⟩ := ih
    exact (leaves_peekNonBlank lexer (length_unread_lt hrounds)).exists_between hlook

theorem Leaves.congr (h : Leaves m cs a rest) (h' : Leaves m' cs a rest) (before : List Char) :
    m (.between before cs) = m' (.between before cs) := by
  obtain ⟨taken, htaken, hm⟩ := h
  obtain ⟨taken', htaken', hm'⟩ := h'
  obtain rfl := List.append_cancel_right (htaken.symm.trans htaken')
  rw [hm, hm']

theorem nextToken_after_peek (hrounds : cs.length < rounds) (before : List Char) :
    (do let _ ← peekNonBlank lexer rounds; nextToken lexer rounds) (.between before cs)
      = nextToken lexer rounds (.between before cs) := by
  have hskipped : (lexer.skipBlanks cs).length < rounds :=
    Nat.lt_of_le_of_lt (Lexer.length_skipBlanks_le lexer cs) hrounds
  have hahead := leaves_nextToken lexer hskipped
  rw [Lexer.next_skipBlanks] at hahead
  exact Leaves.congr ((leaves_peekNonBlank lexer hrounds).bind hahead)
    (leaves_nextToken lexer hrounds) before

/-! ## All calls -/

/-- The calls of the lexer share out the text, whatever the continuation
character and the time separator are.

No scanning loop takes more rounds than the text has characters, and one. From
all sources that are reached by reading tokens and by looking ahead the lexer
reads on: their offsets are between characters, so that nothing is ever cut
inside one; what a call yields and leaves is what the lexer yields and leaves for
the unread part of the text; and it is the same after looking ahead. The slices of
any number of calls make up the text that has been read, and only a call that
finds the end may have an empty one. When the end is found, the slices make up
all of the text, and all calls that follow find the end at the same offset. The
end or an error is found after no more tokens than the text has characters. -/
theorem calls_partition_text (lexer : Lexer) (hrounds : text.length < rounds) :
    (∀ source, Reached lexer rounds text source →
        ∃ before after, text = before ++ after ∧ source = .between before after
          ∧ (∃ slice, after = slice ++ (lexer.next after).2
              ∧ nextToken lexer rounds source
                = some ((lexer.next after).1, .between (before ++ slice) (lexer.next after).2))
          ∧ (do let _ ← peekNonBlank lexer rounds; nextToken lexer rounds) source
              = nextToken lexer rounds source)
      ∧ (∀ count, ∃ calls rest,
          calls.length = count ∧ text = consumed calls ++ rest
            ∧ nextCalls lexer rounds count (.ofText text)
                = some (calls, { text, offset := byteLength (consumed calls) })
            ∧ (∀ call ∈ calls, call.outcome ≠ .ok .endOfText → call.slice ≠ [])
            ∧ ∀ earlier call later, calls = earlier ++ call :: later →
                call.outcome = .ok .endOfText →
                  consumed (earlier ++ [call]) = text
                    ∧ ∀ next ∈ later, next = { outcome := .ok .endOfText, slice := [] })
      ∧ ∃ calls last source,
          calls.length ≤ text.length
            ∧ nextCalls lexer rounds (calls.length + 1) (.ofText text)
                = some (calls ++ [last], source)
            ∧ (∀ call ∈ calls, ∃ token, token ≠ .endOfText ∧ call.outcome = .ok token)
            ∧ ∀ token, last.outcome = .ok token → token = .endOfText := by
  refine ⟨fun source hreached => ?_, fun count => ?_, ?_⟩
  · obtain ⟨before, after, rfl, rfl⟩ := hreached.exists_between hrounds
    have hafter := length_unread_lt hrounds
    obtain ⟨slice, hslice, hreads⟩ := leaves_nextToken lexer hafter
    exact ⟨before, after, rfl, rfl, ⟨slice, hslice, hreads before⟩,
      nextToken_after_peek hafter before⟩
  · obtain ⟨calls, rest, hcount, htrace⟩ := exists_trace lexer count text
    have hrun := htrace.nextCalls_eq hrounds []
    have hsource : Source.between (consumed calls) rest
        = { text, offset := byteLength (consumed calls) } := by
      rw [Source.between, ← htrace.consumed_append]
    rw [hcount, List.nil_append, hsource] at hrun
    exact ⟨calls, rest, hcount, htrace.consumed_append, hrun,
      fun call hcall => htrace.slice_ne_nil hcall,
      fun earlier call later hcalls hend => htrace.after_end hcalls hend⟩
  · obtain ⟨calls, last, rest, htrace, hcount, htokens, hlast⟩ := exists_trace_end lexer text
    have hrun := htrace.nextCalls_eq hrounds []
    rw [List.length_append] at hrun
    exact ⟨calls, last, _, hcount, hrun, htokens, hlast⟩

/-- A quote that is skipped and a parenthesis that stands in words; the last
character is an illegal one of two bytes. -/
theorem calls_with_unusual_settings :
    let lexer : Lexer := { continuation := some '\x22', timeSeparator := '(' }
    let calls : List Call :=
      [⟨.ok (.word "a(1"), ['a', '(', '1', ' ', '\x22']⟩, ⟨.ok (.operator "+"), ['+']⟩,
        ⟨.ok (.operator "=="), [' ', '=', '=']⟩, ⟨.error (.illegalChar '§'), ['§']⟩,
        ⟨.ok .endOfText, []⟩]
    nextCalls lexer 11 5 (.ofText (consumed calls)) = some (calls, ⟨consumed calls, 11⟩)
      ∧ ∀ call ∈ calls, call.outcome ≠ .ok .endOfText → call.slice ≠ [] := by
  intro lexer calls
  have hrun : nextCalls lexer 11 5 (.ofText (consumed calls))
      = some (calls, ⟨consumed calls, 11⟩) := by
    decide +kernel
  have hrounds : (consumed calls).length < 11 := by decide
  obtain ⟨-, hcalls, -⟩ := calls_partition_text lexer hrounds
  obtain ⟨calls', rest, -, -, hrun', hslices, -⟩ := hcalls 5
  obtain ⟨rfl, -⟩ := Prod.mk.inj (Option.some.inj (hrun'.symm.trans hrun))
  exact ⟨hrun, hslices⟩

end ReminderExpr.Words
