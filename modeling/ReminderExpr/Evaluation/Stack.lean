/-
ReminderExpr.Evaluation.Stack — a stack that knows its height.

The entries are a list, the top one first. The height is kept beside them, so
that comparing it with a limit takes no time; `height_eq` says that it is the
number of entries, whatever has been pushed, popped or cut off.
-/
namespace ReminderExpr

/-- A stack of entries, the top one first. -/
structure Stack (α : Type) where
  entries : List α := []
  height : Nat := entries.length
  height_eq : height = entries.length := by rfl

namespace Stack

variable {α : Type}

/-- The stack without entries. -/
def empty : Stack α := {}

/-- The stack with one more entry. -/
def push (s : Stack α) (a : α) : Stack α where
  entries := a :: s.entries
  height := s.height + 1
  height_eq := by simp [s.height_eq]

/-- The top entry. -/
def top? (s : Stack α) : Option α := s.entries.head?

/-- The top entry and the stack below it. -/
def pop? (s : Stack α) : Option (α × Stack α) :=
  match h : s.entries with
  | [] => none
  | a :: rest => some (a, ⟨rest, s.height - 1, by simp [s.height_eq, h]⟩)

/-- The top `count` entries, the lowest first, and the stack below them. -/
def popMany? (s : Stack α) (count : Nat) : Option (List α × Stack α) :=
  if count ≤ s.height then
    some ((s.entries.take count).reverse,
      ⟨s.entries.drop count, s.height - count, by simp [s.height_eq]⟩)
  else none

/-- The lowest `height` entries. -/
def cutTo (s : Stack α) (height : Nat) : Stack α where
  entries := s.entries.drop (s.height - height)
  height := min s.height height
  height_eq := by simp [s.height_eq]; omega

/-- Two stacks with the same entries are the same. -/
@[ext] theorem ext {s t : Stack α} (h : s.entries = t.entries) : s = t := by
  obtain ⟨_, _, hs⟩ := s
  obtain ⟨_, _, ht⟩ := t
  simp only at h
  subst h hs ht
  rfl

@[simp] theorem entries_empty : (empty : Stack α).entries = [] := rfl

@[simp] theorem entries_push (s : Stack α) (a : α) : (s.push a).entries = a :: s.entries := rfl

@[simp] theorem height_push (s : Stack α) (a : α) : (s.push a).height = s.height + 1 := rfl

/-- Popping gives the top entry exactly if there is one. -/
theorem pop?_eq_some_iff {s t : Stack α} {a : α} :
    s.pop? = some (a, t) ↔ s.entries = a :: t.entries := by
  unfold pop?
  split
  · rename_i h; simp [h]
  · rename_i b rest h
    simp only [h, Option.some.injEq, Prod.mk.injEq, List.cons.injEq]
    constructor
    · rintro ⟨rfl, rfl⟩; exact ⟨rfl, rfl⟩
    · rintro ⟨rfl, hr⟩; exact ⟨rfl, Stack.ext hr⟩

/-- What is pushed is popped. -/
@[simp] theorem pop?_push (s : Stack α) (a : α) : (s.push a).pop? = some (a, s) :=
  pop?_eq_some_iff.2 rfl

/-- A stack with an entry has been pushed. -/
theorem eq_push_of_entries {s : Stack α} {a : α} {rest : List α} (h : s.entries = a :: rest) :
    ∃ t : Stack α, s = t.push a ∧ t.entries = rest :=
  ⟨{ entries := rest }, Stack.ext h, rfl⟩

@[simp] theorem entries_cutTo (s : Stack α) (height : Nat) :
    (s.cutTo height).entries = s.entries.drop (s.height - height) := rfl

/-- The top entries are popped together, the lowest first. -/
theorem popMany?_eq_some {s : Stack α} {above below : List α} (h : s.entries = above ++ below) :
    ∃ t, s.popMany? above.length = some (above.reverse, t) ∧ t.entries = below := by
  have hle : above.length ≤ s.height := by
    rw [s.height_eq, h, List.length_append]
    exact Nat.le_add_right _ _
  have htake : (s.entries.take above.length).reverse = above.reverse := by
    rw [h, List.take_left]
  have hdrop : s.entries.drop above.length = below := by
    rw [h, List.drop_left]
  unfold popMany?
  rw [if_pos hle, htake]
  exact ⟨_, rfl, hdrop⟩

/-- One more entry above others, which are listed from the lowest one. -/
theorem entries_push_of_above {s below : Stack α} {above : List α}
    (h : s.entries = above.reverse ++ below.entries) (a : α) :
    (s.push a).entries = (above ++ [a]).reverse ++ below.entries := by
  rw [entries_push, h, List.reverse_append]
  rfl

theorem height_of_above {s below : Stack α} {above : List α}
    (h : s.entries = above.reverse ++ below.entries) :
    s.height = below.height + above.length := by
  rw [s.height_eq, h, List.length_append, List.length_reverse, below.height_eq, Nat.add_comm]

theorem length_of_popMany? {s t : Stack α} {count : Nat} {popped : List α}
    (h : s.popMany? count = some (popped, t)) : popped.length = count := by
  unfold popMany? at h
  split at h
  · rename_i hle
    cases h
    rw [List.length_reverse, List.length_take, ← s.height_eq]
    exact Nat.min_eq_left hle
  · cases h

/-- Cutting off what has been put on a stack since it had some height leaves
what it held then. -/
theorem cutTo_eq_of_suffix {s t : Stack α} (h : s.entries <:+ t.entries) :
    t.cutTo s.height = s := by
  obtain ⟨above, h⟩ := h
  have hheight : t.height = above.length + s.height := by
    rw [t.height_eq, s.height_eq, ← h, List.length_append]
  apply Stack.ext
  rw [entries_cutTo, hheight, Nat.add_sub_cancel, ← h, List.drop_left]

end Stack

end ReminderExpr
