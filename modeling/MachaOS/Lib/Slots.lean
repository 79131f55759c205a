/-
A table of reusable slots.

An entry is put into the lowest free slot, and its index is its name until the
slot is emptied.  The lemmas say which index is used and that every other entry
stays where it is.
-/

import Mathlib.Data.List.Basic

/-- A table whose free slots are `none`. -/
abbrev Slots (α : Type) : Type := List (Option α)

namespace Slots

variable {α : Type}

def lookup (table : Slots α) (index : Nat) : Option α :=
  (table[index]?).join

/-- Use the lowest free slot, extending the table when none is free. -/
def insert (value : α) : Slots α → Slots α × Nat
  | [] => ([some value], 0)
  | none :: rest => (some value :: rest, 0)
  | some other :: rest =>
      let (after, index) := insert value rest
      (some other :: after, index + 1)

def clear (table : Slots α) (index : Nat) : Slots α :=
  table.set index none

def put (table : Slots α) (index : Nat) (value : α) : Slots α :=
  table.set index (some value)

@[simp] theorem lookup_nil (index : Nat) : lookup ([] : Slots α) index = none := by
  simp [lookup]

@[simp] theorem lookup_cons_zero (slot : Option α) (rest : Slots α) :
    lookup (slot :: rest) 0 = slot := by
  simp [lookup]

@[simp] theorem lookup_cons_succ (slot : Option α) (rest : Slots α) (index : Nat) :
    lookup (slot :: rest) (index + 1) = lookup rest index := by
  simp [lookup]

theorem lookup_insert (value : α) (table : Slots α) (index : Nat) :
    lookup (insert value table).1 index =
      if index = (insert value table).2 then some value else lookup table index := by
  induction table generalizing index with
  | nil => cases index <;> simp [insert]
  | cons slot rest ih =>
      cases slot with
      | none => cases index <;> simp [insert]
      | some other =>
          cases index with
          | zero => simp [insert]
          | succ index => simp [insert, ih]

theorem lookup_insert_fresh (value : α) (table : Slots α) :
    lookup table (insert value table).2 = none := by
  induction table with
  | nil => simp
  | cons slot rest ih =>
      cases slot with
      | none => simp [insert]
      | some other => simp [insert, ih]

variable {table : Slots α} {index : Nat} {old : α}

theorem lookup_put (value : α) (present : lookup table index = some old) (other : Nat) :
    lookup (put table index value) other =
      if other = index then some value else lookup table other := by
  have inside : index < table.length := by
    by_contra outside
    simp [lookup, List.getElem?_eq_none (Nat.le_of_not_lt outside)] at present
  by_cases same : other = index
  · subst same
    simp [lookup, put, inside]
  · simp [lookup, put, same, List.getElem?_set_ne (Ne.symm same)]

theorem lookup_clear (table : Slots α) (index other : Nat) :
    lookup (clear table index) other = if other = index then none else lookup table other := by
  by_cases same : other = index
  · subst same
    by_cases inside : other < table.length
    · simp [lookup, clear, inside]
    · have outside := Nat.le_of_not_lt inside
      simp [lookup, clear, List.set_eq_of_length_le outside, List.getElem?_eq_none outside]
  · simp [lookup, clear, same, List.getElem?_set_ne (Ne.symm same)]

theorem clear_of_free (free : lookup table index = none) : clear table index = table := by
  induction table generalizing index with
  | nil => rfl
  | cons slot rest ih =>
      cases index with
      | zero =>
          rw [lookup_cons_zero] at free
          rw [free]
          rfl
      | succ index =>
          rw [lookup_cons_succ] at free
          exact congrArg (slot :: ·) (ih free)

def total (weight : α → Nat) : Slots α → Nat
  | [] => 0
  | none :: rest => total weight rest
  | some value :: rest => weight value + total weight rest

variable (weight : α → Nat)

theorem total_append (front back : Slots α) :
    total weight (front ++ back) = total weight front + total weight back := by
  induction front with
  | nil => exact (Nat.zero_add _).symm
  | cons slot rest ih =>
      cases slot with
      | none => exact ih
      | some value =>
          rw [List.cons_append, total, total, ih, Nat.add_assoc]

theorem total_insert (value : α) (table : Slots α) :
    total weight (insert value table).1 = total weight table + weight value := by
  induction table with
  | nil => exact Nat.add_comm _ _
  | cons slot rest ih =>
      cases slot with
      | none => exact Nat.add_comm _ _
      | some other =>
          rw [insert, total, total, ih, Nat.add_assoc]

theorem total_set (present : lookup table index = some old) (slot : Option α) :
    total weight (table.set index slot) + weight old = total weight table + total weight [slot] := by
  induction table generalizing index with
  | nil => simp at present
  | cons first rest ih =>
      cases index with
      | zero =>
          rw [lookup_cons_zero] at present
          subst present
          cases slot <;> simp only [List.set_cons_zero, total] <;> omega
      | succ index =>
          rw [lookup_cons_succ] at present
          have later := ih present
          cases first <;> simp only [List.set_cons_succ, total] <;> omega

theorem total_put (present : lookup table index = some old) (value : α) :
    total weight (put table index value) + weight old = total weight table + weight value :=
  total_set weight present (some value)

theorem total_clear (present : lookup table index = some old) :
    total weight (clear table index) + weight old = total weight table :=
  total_set weight present none

theorem weight_le_total {value : α} (present : lookup table index = some value) :
    weight value ≤ total weight table := by
  have whole := total_clear weight present
  omega

end Slots
