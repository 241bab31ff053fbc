/-
ReminderExpr.Proofs.ArgumentReading — arguments are read as what they were
written for.

An `Item` is one thing that the arguments of a run can ask for, and
`Item.arguments` are the one or two arguments that ask for it. Items follow one
another in any order. Reading takes the arguments of one item off the front and
leaves those of the others, so that a value after an option may look like an
option itself.

* `splitOnce_append`, `splitAll_intercalate`, `Text.trim_of_bare` — cutting a
  text where it was joined;
* `parseSet_joined`, `parseDefinition_joined` — the values of options;
* `Options.parseFrom_item` — the arguments of one item, whatever follows;
* `Options.arguments_read_back` — those of a list of items.
-/
import Mathlib.Data.List.Basic
import ReminderExpr.CommandLine.Options

namespace ReminderExpr

/-! ## Cutting texts -/

namespace Text

/-- A text without blanks at either end. -/
def Bare (cs : List Char) : Prop :=
  (∀ c ∈ cs.head?, isBlank c = false) ∧ ∀ c ∈ cs.getLast?, isBlank c = false

instance (cs : List Char) : Decidable (Bare cs) :=
  decidable_of_iff (cs.head?.all (!isBlank ·) = true ∧ cs.getLast?.all (!isBlank ·) = true) (by
    simp [Bare, Option.all_eq_true])

theorem dropWhile_of_head {p : Char → Bool} {cs : List Char} (h : ∀ c ∈ cs.head?, p c = false) :
    cs.dropWhile p = cs := by
  cases cs with
  | nil => rfl
  | cons c cs => exact List.dropWhile_cons_of_neg (by simp [h c rfl])

theorem trim_of_bare {cs : List Char} (h : Bare cs) : trim cs = cs := by
  have hlast : ∀ c ∈ cs.reverse.head?, isBlank c = false := by
    rw [List.head?_reverse]
    exact h.2
  rw [trim, trimStart, dropWhile_of_head h.1, trimEnd, dropWhile_of_head hlast,
    List.reverse_reverse]

end Text

namespace CommandLine

open Text

variable {c : Char} {before after piece : List Char} {pieces : List (List Char)}

/-- A text is cut where it was joined, if what stands before does not hold the
character itself. -/
theorem splitOnce_append (h : c ∉ before) (after : List Char) :
    splitOnce c (before ++ c :: after) = some (before, after) := by
  have hne : ∀ d ∈ before, (d != c) = true := fun d hd => bne_iff_ne.2 fun heq => h (heq ▸ hd)
  rw [splitOnce, List.dropWhile_append_of_pos hne, List.takeWhile_append_of_pos hne]
  simp

theorem splitAll_of_not_mem (h : c ∉ piece) : splitAll c piece = [piece] := by
  induction piece with
  | nil => rfl
  | cons d piece ih =>
    obtain ⟨hd, hpiece⟩ := List.ne_and_not_mem_of_not_mem_cons h
    rw [splitAll, if_neg (Ne.symm hd), ih hpiece]

theorem splitAll_append (h : c ∉ piece) (after : List Char) :
    splitAll c (piece ++ c :: after) = piece :: splitAll c after := by
  induction piece with
  | nil => exact if_pos rfl
  | cons d piece ih =>
    obtain ⟨hd, hpiece⟩ := List.ne_and_not_mem_of_not_mem_cons h
    rw [List.cons_append, splitAll, if_neg (Ne.symm hd), ih hpiece]

/-- A text is cut into the pieces that it was joined from. -/
theorem splitAll_intercalate (hne : pieces ≠ []) (h : ∀ piece ∈ pieces, c ∉ piece) :
    splitAll c ([c].intercalate pieces) = pieces := by
  induction pieces with
  | nil => exact absurd rfl hne
  | cons piece pieces ih =>
    obtain ⟨hpiece, hpieces⟩ := List.forall_mem_cons.1 h
    cases pieces with
    | nil => rw [List.intercalate_singleton, splitAll_of_not_mem hpiece]
    | cons piece' pieces =>
      rw [List.intercalate_cons_cons, List.append_assoc, List.singleton_append,
        splitAll_append hpiece, ih (List.cons_ne_nil _ _) hpieces]

/-! ## Items -/

/-- One thing that arguments can ask for. -/
inductive Item
  | set (name expr : String)
  | eval (expr : String)
  | stdin
  | define (d : Definition)
  | dumpVars
  | dumpSysvars
  deriving DecidableEq, Repr

/-- A definition as the value of an option: its parameters stand between
parentheses, with commas between them. -/
def Definition.joined (d : Definition) : String :=
  d.name ++ "(" ++ ",".intercalate d.parameters ++ ")=" ++ d.body

/-- A definition whose parts can be told apart when they are joined. -/
structure Definition.Separable (d : Definition) : Prop where
  name : Bare d.name.toList ∧ '(' ∉ d.name.toList ∧ ')' ∉ d.name.toList
  parameters : ∀ p ∈ d.parameters,
    Bare p.toList ∧ p.toList ≠ [] ∧ ',' ∉ p.toList ∧ ')' ∉ p.toList
  body : Bare d.body.toList

instance (d : Definition) : Decidable d.Separable :=
  decidable_of_iff (_ ∧ _ ∧ _)
    ⟨fun ⟨name, parameters, body⟩ => ⟨name, parameters, body⟩, fun h => ⟨h.1, h.2, h.3⟩⟩

namespace Item

/-- The arguments that ask for an item. -/
def arguments : Item → List String
  | set name expr => ["--set", name ++ "=" ++ expr]
  | eval expr => [expr]
  | stdin => ["-"]
  | define d => ["--def", d.joined]
  | dumpVars => ["--dump-vars"]
  | dumpSysvars => ["--dump-sysvars"]

/-- An item whose arguments can ask for nothing else. -/
def Plain : Item → Prop
  | set name _ => Bare name.toList ∧ '=' ∉ name.toList
  | eval expr => expr ≠ "-" ∧ expr ≠ "-h" ∧ ¬ ['-', '-'] <+: expr.toList
  | define d => d.Separable
  | stdin | dumpVars | dumpSysvars => True

instance : DecidablePred Plain
  | set _ _ => inferInstanceAs (Decidable (_ ∧ _))
  | eval _ => inferInstanceAs (Decidable (_ ∧ _ ∧ _))
  | define d => inferInstanceAs (Decidable d.Separable)
  | stdin | dumpVars | dumpSysvars => isTrue trivial

/-- The action that an item is. -/
def action? : Item → Option Action
  | set name expr => some (.set name expr)
  | eval expr => some (.eval expr)
  | stdin => some .stdin
  | define _ | dumpVars | dumpSysvars => none

/-- The definition that an item is. -/
def definition? : Item → Option Definition
  | define d => some d
  | _ => none

end Item

/-! ## The values of options -/

theorem parseSet_joined {name expr : String} (h : (Item.set name expr).Plain) :
    parseSet (name ++ "=" ++ expr) = .ok (.set name expr) := by
  have hsplit : splitOnce '=' (name ++ "=" ++ expr).toList = some (name.toList, expr.toList) := by
    rw [String.toList_append, String.toList_append, List.append_assoc]
    exact splitOnce_append h.2 expr.toList
  rw [parseSet, hsplit]
  dsimp only
  rw [trim_of_bare h.1, String.ofList_toList, String.ofList_toList]

/-- The parameters between the parentheses are those that were joined. -/
theorem readParameters_joined {parameters : List String}
    (h : ∀ p ∈ parameters, Bare p.toList ∧ p.toList ≠ [] ∧ ',' ∉ p.toList ∧ ')' ∉ p.toList) :
    (((splitAll ',' (",".intercalate parameters).toList).map trim).filter
      fun p => !p.isEmpty).map String.ofList = parameters := by
  by_cases hnone : parameters = []
  · subst hnone
    rfl
  · have hpieces : splitAll ',' (",".intercalate parameters).toList
        = parameters.map String.toList := by
      rw [String.toList_intercalate]
      refine splitAll_intercalate (mt List.map_eq_nil_iff.1 hnone) ?_
      exact List.forall_mem_map.2 fun p hp => (h p hp).2.2.1
    have htrimmed : (parameters.map String.toList).map trim = parameters.map String.toList := by
      rw [List.map_map]
      exact List.map_congr_left fun p hp => trim_of_bare (h p hp).1
    have hkept : (parameters.map String.toList).filter (fun p => !p.isEmpty)
        = parameters.map String.toList := by
      refine List.filter_eq_self.2 (List.forall_mem_map.2 fun p hp => ?_)
      simpa using (h p hp).2.1
    rw [hpieces, htrimmed, hkept, List.map_map]
    simp [Function.comp_def]

/-- What is joined with commas holds no other character than its parts. -/
theorem not_mem_intercalate {parts : List String} (hcomma : c ≠ ',')
    (h : ∀ p ∈ parts, c ∉ p.toList) : c ∉ (",".intercalate parts).toList := by
  rw [String.toList_intercalate]
  induction parts with
  | nil => exact List.not_mem_nil
  | cons p parts ih =>
    obtain ⟨hp, hparts⟩ := List.forall_mem_cons.1 h
    cases parts with
    | nil =>
      rw [List.map_singleton, List.intercalate_singleton]
      exact hp
    | cons p' parts =>
      have hrest := ih hparts
      simp only [List.map_cons, List.intercalate_cons_cons, List.mem_append] at hrest ⊢
      rintro ((hmem | hmem) | hmem)
      · exact hp hmem
      · exact hcomma (List.mem_singleton.1 hmem)
      · exact hrest hmem

theorem parseDefinition_joined {d : Definition} (h : d.Separable) :
    parseDefinition d.joined = .ok d := by
  obtain ⟨hname, hopen, hclosing⟩ := h.name
  have htext : d.joined.toList = (d.name.toList ++ '(' :: (",".intercalate d.parameters).toList)
      ++ ')' :: '=' :: d.body.toList := by
    simp [Definition.joined]
  have hparameters : ')' ∉ (",".intercalate d.parameters).toList :=
    not_mem_intercalate (by decide) fun p hp => (h.parameters p hp).2.2.2
  have hhead : ')' ∉ d.name.toList ++ '(' :: (",".intercalate d.parameters).toList := by
    rw [List.mem_append, List.mem_cons]
    rintro (hmem | hmem | hmem)
    · exact hclosing hmem
    · cases hmem
    · exact hparameters hmem
  have hbody : trimStart ('=' :: d.body.toList) = '=' :: d.body.toList := rfl
  rw [parseDefinition, htext, splitOnce_append hhead]
  dsimp only [Option.bind_eq_bind, Option.bind_some]
  rw [splitOnce_append hopen, hbody]
  dsimp only [Option.bind_some]
  rw [trim_of_bare hname, readParameters_joined h.parameters]
  show Except.ok (⟨String.ofList d.name.toList, d.parameters, String.ofList (trim d.body.toList)⟩ :
    Definition) = .ok d
  rw [trim_of_bare h.body, String.ofList_toList, String.ofList_toList]

/-! ## Lists of items -/

namespace Options

/-- The options with what an item asks for, after what was asked for before. -/
def withItem (o : Options) : Item → Options
  | .set name expr => o.addAction (.set name expr)
  | .eval expr => o.addAction (.eval expr)
  | .stdin => o.addAction .stdin
  | .define d => o.addDefinition d
  | .dumpVars => { o with dumpVars := true }
  | .dumpSysvars => { o with dumpSysvars := true }

/-- An expression that does not look like an option is read as one to print. -/
theorem parseFrom_eval {expr : String} (h : (Item.eval expr).Plain) (o : Options)
    (rest : List String) :
    o.parseFrom (expr :: rest) = (o.addAction (.eval expr)).parseFrom rest := by
  obtain ⟨hstdin, hhelp, hoption⟩ := h
  have hother : ∀ s more, ['-', '-'] <+: s.toList → expr :: rest ≠ s :: more := by
    rintro s more hs heq
    rw [(List.cons.inj heq).1] at hoption
    exact hoption hs
  rw [parseFrom.eq_def]
  split <;> rename_i heq
  · cases heq
  · exact absurd (List.cons.inj heq).1 hhelp
  · exact absurd heq (hother _ _ (by decide))
  · exact absurd heq (hother _ _ (by decide))
  · exact absurd heq (hother _ _ (by decide))
  · exact absurd heq (hother _ _ (by decide))
  · exact absurd heq (hother _ _ (by decide))
  · exact absurd (List.cons.inj heq).1 hstdin
  · cases heq
    split
    · rename_i after hdashes
      exact absurd ⟨after, hdashes.symm⟩ hoption
    · rfl

/-- The arguments of one item are read first, and what follows them as if it
stood alone. -/
theorem parseFrom_item {item : Item} (h : item.Plain) (o : Options) (rest : List String) :
    o.parseFrom (item.arguments ++ rest) = (o.withItem item).parseFrom rest := by
  cases item with
  | set name expr =>
    rw [Item.arguments, List.cons_append, List.singleton_append, parseFrom, parseSet_joined h]
    rfl
  | define d =>
    rw [Item.arguments, List.cons_append, List.singleton_append, parseFrom,
      parseDefinition_joined h]
    rfl
  | eval expr => exact parseFrom_eval h o rest
  | stdin | dumpVars | dumpSysvars => rfl

/-- The arguments of items are read one item after another. -/
theorem parseFrom_items {items : List Item} (h : ∀ item ∈ items, item.Plain) (o : Options) :
    o.parseFrom (items.flatMap Item.arguments) = .ok (some (items.foldl withItem o)) := by
  induction items generalizing o with
  | nil => rfl
  | cons item items ih =>
    obtain ⟨hitem, hitems⟩ := List.forall_mem_cons.1 h
    rw [List.flatMap_cons, parseFrom_item hitem, ih hitems, List.foldl_cons]

/-- All that items ask for, in their order. -/
def ofItems (items : List Item) : Options where
  actions := items.filterMap Item.action?
  definitions := items.filterMap Item.definition?
  dumpVars := decide (Item.dumpVars ∈ items)
  dumpSysvars := decide (Item.dumpSysvars ∈ items)

theorem foldl_withItem (items : List Item) (o : Options) :
    items.foldl withItem o = {
      actions := o.actions ++ (ofItems items).actions
      definitions := o.definitions ++ (ofItems items).definitions
      dumpVars := o.dumpVars || (ofItems items).dumpVars
      dumpSysvars := o.dumpSysvars || (ofItems items).dumpSysvars } := by
  induction items generalizing o with
  | nil => simp [ofItems]
  | cons item items ih =>
    rw [List.foldl_cons, ih]
    cases item <;>
      simp [ofItems, withItem, addAction, addDefinition, List.filterMap_cons, Item.action?,
        Item.definition?]

/-- There is nothing to do if and only if all items are definitions. -/
theorem isIdle_ofItems (items : List Item) :
    (ofItems items).isIdle = true ↔ ∀ item ∈ items, item.definition? ≠ none := by
  simp only [isIdle, ofItems, Bool.and_eq_true, Bool.not_eq_true', decide_eq_false_iff_not,
    List.isEmpty_iff, List.filterMap_eq_nil_iff]
  constructor
  · rintro ⟨⟨hactions, hvars⟩, hsysvars⟩ item hitem
    cases item with
    | define d => exact Option.some_ne_none d
    | set name expr => cases hactions _ hitem
    | eval expr => cases hactions _ hitem
    | stdin => cases hactions _ hitem
    | dumpVars => exact absurd hitem hvars
    | dumpSysvars => exact absurd hitem hsysvars
  · intro h
    refine ⟨⟨fun item hitem => ?_, fun hvars => h _ hvars rfl⟩, fun hsysvars => h _ hsysvars rfl⟩
    have hdefinition := h item hitem
    cases item with
    | define d => rfl
    | set | eval | stdin | dumpVars | dumpSysvars => exact absurd rfl hdefinition

/-- Arguments are read back as the items that they were written for.

Items of any kinds follow one another in any order. If one of them is not a
definition, reading gives all actions and all definitions in their order, and
says which listings are wanted. Definitions alone leave nothing to do. The
values of assignments, and bodies, may hold any characters. -/
theorem arguments_read_back (items : List Item) (h : ∀ item ∈ items, item.Plain) :
    ((∃ item ∈ items, item.definition? = none) →
        Options.parse (items.flatMap Item.arguments) = .ok (some (.ofItems items)))
      ∧ ((∀ item ∈ items, item.definition? ≠ none) →
        Options.parse (items.flatMap Item.arguments) = .ok none) := by
  have hread : Options.parse (items.flatMap Item.arguments)
      = .ok (if (ofItems items).isIdle then none else some (ofItems items)) := by
    rw [Options.parse, parseFrom_items h, foldl_withItem]
    rfl
  constructor
  · rintro ⟨item, hitem, hnone⟩
    have hbusy : ¬ (ofItems items).isIdle = true :=
      fun hidle => (isIdle_ofItems items).1 hidle item hitem hnone
    rw [hread, if_neg hbusy]
  · intro hall
    rw [hread, if_pos ((isIdle_ofItems items).2 hall)]

/-- An expression and a body of signs that options are cut at, an assigned value
that looks like an option, and a definition without parameters. -/
theorem arguments_full_of_signs :
    let items : List Item := [.define ⟨"f", ["a", "b c"], "(a)=b,c"⟩, .eval "(x=1),-",
      .dumpVars, .set "n" "--def", .stdin, .define ⟨"g=", [], ""⟩, .eval ""]
    (∀ item ∈ items, item.Plain)
      ∧ items.flatMap Item.arguments = ["--def", "f(a,b c)=(a)=b,c", "(x=1),-", "--dump-vars",
        "--set", "n=--def", "-", "--def", "g=()=", ""]
      ∧ Options.parse ["--def", "f(a,b c)=(a)=b,c", "(x=1),-", "--dump-vars", "--set", "n=--def",
          "-", "--def", "g=()=", ""]
        = .ok (some {
          actions := [.eval "(x=1),-", .set "n" "--def", .stdin, .eval ""]
          definitions := [⟨"f", ["a", "b c"], "(a)=b,c"⟩, ⟨"g=", [], ""⟩]
          dumpVars := true })
      ∧ Options.parse ["--def", "g=()="] = .ok none := by
  intro items
  have hplain : ∀ item ∈ items, item.Plain := by decide
  have harguments : items.flatMap Item.arguments = ["--def", "f(a,b c)=(a)=b,c", "(x=1),-",
      "--dump-vars", "--set", "n=--def", "-", "--def", "g=()=", ""] := by
    decide
  refine ⟨hplain, harguments, ?_, ?_⟩
  · rw [← harguments]
    exact (arguments_read_back items hplain).1 ⟨.stdin, by decide, rfl⟩
  · exact (arguments_read_back [.define ⟨"g=", [], ""⟩]
      (by decide)).2 (by decide)

end Options

end CommandLine

end ReminderExpr
