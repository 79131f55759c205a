/-
Spans of a buffer and buffers of rows.

A buffer is a list.  `slice` reads a span and `splice` writes one in place; `at` names the entry of
a column and a row in a buffer of rows of one width.  Each write is described entry by entry.
-/

import Mathlib.Data.List.Basic
import Mathlib.Data.Nat.Basic
import Mathlib.Tactic.Ring

namespace Spans

open List

variable {α : Type}

def slice (cells : List α) (start stop : Nat) : List α :=
  (cells.drop start).take (stop - start)

/-- The buffer with the values written over the entries from `start` on. -/
def splice (cells : List α) (start : Nat) (values : List α) : List α :=
  cells.take start ++ (values ++ cells.drop (start + values.length))

theorem getElem?_slice (cells : List α) (start stop i : Nat) :
    (slice cells start stop)[i]? = if i < stop - start then cells[start + i]? else none := by
  rw [slice, List.getElem?_take]
  split
  next inside => rw [List.getElem?_drop]
  next outside => rfl

theorem length_slice {cells : List α} {start stop : Nat} (inside : stop ≤ cells.length) :
    (slice cells start stop).length = stop - start := by
  rw [slice, length_take, length_drop]
  omega

theorem length_splice {cells values : List α} {start : Nat}
    (inside : start + values.length ≤ cells.length) :
    (splice cells start values).length = cells.length := by
  rw [splice, length_append, length_append, length_take, length_drop]
  omega

theorem getElem?_splice {cells values : List α} {start : Nat}
    (inside : start + values.length ≤ cells.length) (i : Nat) :
    (splice cells start values)[i]? =
      if start ≤ i ∧ i < start + values.length then values[i - start]? else cells[i]? := by
  have front : (cells.take start).length = start := by
    rw [length_take]
    omega
  rw [splice]
  by_cases before : i < start
  · rw [List.getElem?_append_left (by omega), List.getElem?_take, if_pos before,
      if_neg (by omega)]
  · rw [List.getElem?_append_right (by omega), front]
    by_cases written : i - start < values.length
    · rw [List.getElem?_append_left written, if_pos (by omega)]
    · rw [List.getElem?_append_right (by omega), List.getElem?_drop, if_neg (by omega)]
      congr 1
      omega

theorem splice_map {β : Type} (f : α → β) (cells values : List α) (start : Nat) :
    (splice cells start values).map f = splice (cells.map f) start (values.map f) := by
  simp only [splice, map_append, map_take, map_drop, length_map]

theorem slice_map {β : Type} (f : α → β) (cells : List α) (start stop : Nat) :
    (slice cells start stop).map f = slice (cells.map f) start stop := by
  simp only [slice, map_take, map_drop]

/-- The entry of a column and a row, where rows have the given width. -/
def entry (width column row : Nat) : Nat :=
  row * width + column

theorem entry_inj {width column row column' row' : Nat} (inside : column < width)
    (inside' : column' < width) :
    entry width column row = entry width column' row' ↔ column = column' ∧ row = row' := by
  constructor
  · intro same
    unfold entry at same
    have rows : row = row' := by
      have left : (row * width + column) / width = row := by
        rw [Nat.mul_comm, Nat.mul_add_div (by omega), Nat.div_eq_of_lt inside, Nat.add_zero]
      have right : (row' * width + column') / width = row' := by
        rw [Nat.mul_comm, Nat.mul_add_div (by omega), Nat.div_eq_of_lt inside', Nat.add_zero]
      rw [← left, same, right]
    subst rows
    exact ⟨by omega, rfl⟩
  · rintro ⟨rfl, rfl⟩
    rfl

def shiftRows (width count : Nat) (cells : List α) : List α :=
  (List.range count).foldl
    (fun shifted row =>
      splice shifted (row * width) (slice shifted ((row + 1) * width) ((row + 2) * width)))
    cells

theorem shiftRows_spec {width count : Nat} {cells : List α}
    (long : (count + 1) * width ≤ cells.length) :
    (shiftRows width count cells).length = cells.length ∧
      ∀ i, (shiftRows width count cells)[i]? =
        if i < count * width then cells[i + width]? else cells[i]? := by
  induction count with
  | zero =>
      refine ⟨rfl, fun i => ?_⟩
      rw [if_neg (by omega)]
      rfl
  | succ count ih =>
      have next : (count + 1) * width = count * width + width := by ring
      have second : (count + 2) * width = count * width + width + width := by ring
      have third : (count + 1 + 1) * width = count * width + width + width := by ring
      obtain ⟨kept, entries⟩ := ih (by omega)
      have moved : (slice (shiftRows width count cells) ((count + 1) * width)
          ((count + 2) * width)).length = width := by
        rw [length_slice (by omega)]
        omega
      have inside : count * width + (slice (shiftRows width count cells) ((count + 1) * width)
          ((count + 2) * width)).length ≤ (shiftRows width count cells).length := by omega
      have unfolded : shiftRows width (count + 1) cells =
          splice (shiftRows width count cells) (count * width)
            (slice (shiftRows width count cells) ((count + 1) * width) ((count + 2) * width)) := by
        simp only [shiftRows, range_succ, foldl_append, foldl_cons, foldl_nil]
      rw [unfolded]
      refine ⟨(length_splice inside).trans kept, fun i => ?_⟩
      rw [getElem?_splice inside, moved]
      by_cases last : count * width ≤ i ∧ i < count * width + width
      · rw [if_pos last, getElem?_slice, if_pos (by omega), if_pos (by omega), entries,
          if_neg (by omega)]
        congr 1
        omega
      · rw [if_neg last, entries]
        by_cases before : i < count * width
        · rw [if_pos before, if_pos (by omega)]
        · rw [if_neg before, if_neg (by omega)]

def fillFrom (start count : Nat) (value : α) (cells : List α) : List α :=
  (List.range count).foldl (fun filled i => filled.set (start + i) value) cells

theorem fillFrom_spec {start count : Nat} {value : α} {cells : List α}
    (inside : start + count ≤ cells.length) :
    (fillFrom start count value cells).length = cells.length ∧
      ∀ i, (fillFrom start count value cells)[i]? =
        if start ≤ i ∧ i < start + count then some value else cells[i]? := by
  induction count with
  | zero =>
      refine ⟨rfl, fun i => ?_⟩
      rw [if_neg (by omega)]
      rfl
  | succ count ih =>
      obtain ⟨kept, entries⟩ := ih (by omega)
      have unfolded : fillFrom start (count + 1) value cells =
          (fillFrom start count value cells).set (start + count) value := by
        simp only [fillFrom, range_succ, foldl_append, foldl_cons, foldl_nil]
      rw [unfolded]
      refine ⟨by rw [length_set, kept], fun i => ?_⟩
      rw [List.getElem?_set]
      by_cases here : start + count = i
      · rw [if_pos here, if_pos (by omega), if_pos (by omega)]
      · rw [if_neg here, entries]
        by_cases earlier : start ≤ i ∧ i < start + count
        · rw [if_pos earlier, if_pos (by omega)]
        · rw [if_neg earlier, if_neg (by omega)]

theorem shift_eq_shiftRows {width height : Nat} {cells : List α} (value : α) (rows : 0 < height)
    (full : cells.length = width * height) :
    splice (splice cells 0 (slice cells width (width * height))) (width * (height - 1))
        (List.replicate width value) =
      fillFrom ((height - 1) * width) width value (shiftRows width (height - 1) cells) := by
  obtain ⟨before, rfl⟩ := Nat.exists_eq_add_of_lt rows
  rw [Nat.zero_add, Nat.add_sub_cancel] at *
  have grown : width * (before + 1) = before * width + width := by ring
  have above : (before + 1) * width = before * width + width := by ring
  have swap : width * before = before * width := Nat.mul_comm width before
  obtain ⟨kept, entries⟩ := @shiftRows_spec α width before cells (by omega)
  obtain ⟨-, filled⟩ := @fillFrom_spec α (before * width) width value (shiftRows width before cells)
    (by omega)
  have moved : (slice cells width (width * (before + 1))).length = before * width := by
    rw [length_slice (by omega)]
    omega
  have shifted : (splice cells 0 (slice cells width (width * (before + 1)))).length = cells.length :=
    length_splice (by omega)
  have blank : (List.replicate width value).length = width := length_replicate
  refine ext_getElem? (fun i => ?_)
  rw [getElem?_splice (by omega), blank, filled, swap]
  by_cases last : before * width ≤ i ∧ i < before * width + width
  · rw [if_pos last, if_pos last, List.getElem?_replicate, if_pos (by omega)]
  · rw [if_neg last, if_neg last, getElem?_splice (by omega), moved, entries]
    by_cases early : i < before * width
    · rw [if_pos (by omega), if_pos early, getElem?_slice, if_pos (by omega)]
      congr 1
      omega
    · rw [if_neg (by omega), if_neg early]

theorem length_shift {width height : Nat} {cells : List α} (value : α) (rows : 0 < height)
    (full : cells.length = width * height) :
    (splice (splice cells 0 (slice cells width (width * height))) (width * (height - 1))
      (List.replicate width value)).length = cells.length := by
  obtain ⟨before, rfl⟩ := Nat.exists_eq_add_of_lt rows
  rw [Nat.zero_add, Nat.add_sub_cancel] at *
  have grown : width * (before + 1) = width * before + width := by ring
  have moved : (slice cells width (width * (before + 1))).length = width * before := by
    rw [length_slice (by omega)]
    omega
  have shifted : (splice cells 0 (slice cells width (width * (before + 1)))).length = cells.length :=
    length_splice (by omega)
  have blank : (List.replicate width value).length = width := length_replicate
  exact (length_splice (by omega)).trans shifted

/-- A block of `count` rows of `span` entries, copied row by row between two buffers of rows. -/
def copyBlock (target : List α) (width column row : Nat) (source : List α)
    (width' column' row' span count : Nat) : List α :=
  (List.range count).foldl
    (fun copied i =>
      splice copied (entry width column (row + i))
        (slice source (entry width' column' (row' + i)) (entry width' column' (row' + i) + span)))
    target

theorem entry_row_lt {width column row row' : Nat} (inside : column < width) (before : row < row') :
    entry width column row < row' * width := by
  have rows : (row + 1) * width ≤ row' * width := Nat.mul_le_mul_right width before
  have same : (row + 1) * width = row * width + width := by ring
  unfold entry
  omega

theorem copyBlock_spec {target source : List α}
    {width column row width' column' row' span count : Nat} (fits : column + span ≤ width)
    (fits' : column' + span ≤ width') (long : (row + count) * width ≤ target.length)
    (long' : (row' + count) * width' ≤ source.length) :
    (copyBlock target width column row source width' column' row' span count).length =
        target.length ∧
      ∀ i j, i < width →
        (copyBlock target width column row source width' column' row' span count)[entry width i j]? =
          if (column ≤ i ∧ i < column + span) ∧ row ≤ j ∧ j < row + count then
            source[entry width' (column' + (i - column)) (row' + (j - row))]?
          else target[entry width i j]? := by
  induction count with
  | zero =>
      refine ⟨rfl, fun i j inside => ?_⟩
      rw [if_neg (by omega)]
      rfl
  | succ count ih =>
      have target' : (row + (count + 1)) * width = (row + count) * width + width := by ring
      have source' : (row' + (count + 1)) * width' = (row' + count) * width' + width' := by ring
      obtain ⟨kept, entries⟩ := ih (by omega) (by omega)
      have read : (slice source (entry width' column' (row' + count))
          (entry width' column' (row' + count) + span)).length = span := by
        rw [length_slice (by unfold entry; omega)]
        omega
      have inside : entry width column (row + count) +
          (slice source (entry width' column' (row' + count))
            (entry width' column' (row' + count) + span)).length ≤
          (copyBlock target width column row source width' column' row' span count).length := by
        rw [read, kept]
        unfold entry
        omega
      have unfolded : copyBlock target width column row source width' column' row' span (count + 1) =
          splice (copyBlock target width column row source width' column' row' span count)
            (entry width column (row + count))
            (slice source (entry width' column' (row' + count))
              (entry width' column' (row' + count) + span)) := by
        simp only [copyBlock, range_succ, foldl_append, foldl_cons, foldl_nil]
      rw [unfolded]
      refine ⟨(length_splice inside).trans kept, fun i j column'' => ?_⟩
      rw [getElem?_splice inside, read]
      by_cases last : j = row + count
      · subst last
        by_cases across : column ≤ i ∧ i < column + span
        · rw [if_pos (by unfold entry; omega), if_pos (by omega), getElem?_slice,
            if_pos (by unfold entry; omega), show row + count - row = count by omega]
          congr 1
          unfold entry
          omega
        · rw [if_neg (by unfold entry; omega), if_neg (by omega), entries i _ column'',
            if_neg (by omega)]
      · have apart : ¬ (entry width column (row + count) ≤ entry width i j ∧
            entry width i j < entry width column (row + count) + span) := by
          rcases Nat.lt_or_gt_of_ne last with before | behind
          · have below := entry_row_lt column'' before
            unfold entry at *
            omega
          · have above : (row + count + 1) * width ≤ j * width :=
              Nat.mul_le_mul_right width behind
            have next : (row + count + 1) * width = (row + count) * width + width := by ring
            unfold entry
            omega
        rw [if_neg apart, entries i j column'']
        by_cases copied : (column ≤ i ∧ i < column + span) ∧ row ≤ j ∧ j < row + count
        · rw [if_pos copied, if_pos (by omega)]
        · rw [if_neg copied, if_neg (by omega)]

end Spans
