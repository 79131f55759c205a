/-
Removing an item of a list by moving the last item into its place.

The lemmas say which item is found at each index afterwards, that the other
items are all still there, and that the operation commutes with `map`.
-/

import Mathlib.Data.List.Basic
import Mathlib.Data.List.Perm.Basic
import Mathlib.Tactic.Common

/-- The last item takes the place of the one at `index`. -/
def swapRemoveAt {α : Type} (items : List α) (index : Nat) : List α :=
  match items.getLast? with
  | none => items
  | some last => (items.set index last).dropLast

section SwapRemove

variable {α β : Type} {items : List α} {index : Nat}

theorem getElem?_swapRemoveAt (inside : index < items.length) (other : Nat) :
    (swapRemoveAt items index)[other]? =
      if other < items.length - 1 then
        (if other = index then items[items.length - 1]? else items[other]?)
      else none := by
  have nonempty : items ≠ [] := by
    rintro rfl
    simp at inside
  have last : items.getLast? = some (items.getLast nonempty) :=
    List.getLast?_eq_some_getLast nonempty
  have lastAt : items[items.length - 1]? = some (items.getLast nonempty) := by
    rw [← last, List.getLast?_eq_getElem?]
  unfold swapRemoveAt
  rw [last, lastAt]
  dsimp only
  rw [List.getElem?_dropLast, List.length_set]
  split
  · by_cases same : other = index
    · subst same
      simp [inside]
    · rw [if_neg same, List.getElem?_set_ne (fun equal => same equal.symm)]
  · rfl

theorem length_swapRemoveAt (inside : index < items.length) :
    (swapRemoveAt items index).length = items.length - 1 := by
  have nonempty : items ≠ [] := by
    rintro rfl
    simp at inside
  unfold swapRemoveAt
  rw [List.getLast?_eq_some_getLast nonempty]
  simp

theorem swapRemoveAt_perm {removed : α} (found : items[index]? = some removed) :
    (removed :: swapRemoveAt items index).Perm items := by
  rcases List.eq_nil_or_concat items with rfl | ⟨front, last, rfl⟩
  · cases found
  · rw [List.concat_eq_append] at found ⊢
    have ends : (front ++ [last]).getLast? = some last := List.getLast?_concat
    unfold swapRemoveAt
    rw [ends]
    dsimp only
    by_cases inFront : index < front.length
    · rw [List.getElem?_append_left inFront] at found
      obtain ⟨_, item⟩ := List.getElem?_eq_some_iff.mp found
      rw [List.set_append_left _ _ inFront, List.dropLast_concat,
        List.set_eq_take_append_cons_drop, if_pos inFront]
      have parts : front = front.take index ++ removed :: front.drop (index + 1) := by
        rw [← item, ← List.drop_eq_getElem_cons inFront, List.take_append_drop]
      have moved : (removed :: (front.take index ++ last :: front.drop (index + 1))).Perm
          (last :: (front.take index ++ removed :: front.drop (index + 1))) :=
        (List.Perm.cons removed List.perm_middle).trans
          ((List.Perm.swap last removed _).trans (List.Perm.cons last List.perm_middle.symm))
      rw [← parts] at moved
      exact moved.trans (List.perm_append_singleton last front).symm
    · obtain ⟨inside, -⟩ := List.getElem?_eq_some_iff.mp found
      have isLast : index = front.length := by
        rw [List.length_append, List.length_singleton] at inside
        omega
      subst isLast
      rw [List.getElem?_concat_length] at found
      obtain rfl := Option.some.inj found
      rw [List.set_append_right _ _ (Nat.le_refl _), Nat.sub_self, List.set_cons_zero,
        List.dropLast_concat]
      exact (List.perm_append_singleton last front).symm

end SwapRemove
