/-
Singly linked lists through a successor function.

`Links next first items last` follows `next` from `first` through `items` and
ends at `last`.  The lemmas cut such a chain in two, carry it to another
successor function, and redirect its last link.
-/

import Mathlib.Data.List.Basic
import Mathlib.Tactic.Common

/-- From `first`, `next` runs through `items` and arrives at `last`. -/
def Links {α : Type} (next : α → α) (first : α) : List α → α → Prop
  | [], last => first = last
  | item :: rest, last => first = item ∧ Links next (next item) rest last

namespace Links

variable {α : Type} {next next' : α → α} {first last : α} {items early late : List α}

theorem append : Links next first (early ++ late) last ↔
    ∃ middle, Links next first early middle ∧ Links next middle late last := by
  induction early generalizing first with
  | nil => simp [Links]
  | cons item rest ih =>
      simp only [List.cons_append, Links, ih]
      constructor
      · rintro ⟨here, middle, before, after⟩
        exact ⟨middle, ⟨here, before⟩, after⟩
      · rintro ⟨middle, ⟨here, before⟩, after⟩
        exact ⟨here, middle, before, after⟩

theorem congr (links : Links next first items last)
    (same : ∀ item, item ∈ items → next' item = next item) : Links next' first items last := by
  induction items generalizing first with
  | nil => exact links
  | cons item rest ih =>
      obtain ⟨here, after⟩ := links
      refine ⟨here, ?_⟩
      rw [same item List.mem_cons_self]
      exact ih after (fun other mem => same other (List.mem_cons_of_mem item mem))

theorem redirect {item target : α} (links : Links next first (early ++ [item]) last)
    (same : ∀ other, other ∈ early → next' other = next other) (changed : next' item = target) :
    Links next' first (early ++ [item]) target := by
  obtain ⟨middle, before, here, -⟩ := append.mp links
  exact append.mpr ⟨middle, before.congr same, here, changed⟩

theorem first_eq (links : Links next first items last) : first = items.head?.getD last := by
  cases items with
  | nil => exact links
  | cons item rest => exact links.1

end Links
