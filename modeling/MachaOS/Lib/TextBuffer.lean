/-
A text with a cursor, in two representations.

A `Buffer` is a list of symbols with an offset; lines are what lies between separators.  A `Spot` is a
list of lines, held as a cursor sees it: the lines above and the symbols in front come nearest first.
Every operation of a `Spot` is the operation of the `Buffer` it stands for.
-/

import Mathlib.Data.List.Basic

@[ext] structure Buffer (α : Type) where
  text : List α
  offset : Nat
deriving DecidableEq, Repr

namespace Buffer

variable {α : Type}

def parted (before after : List α) : Buffer α :=
  { text := before ++ after, offset := before.length }

def insert (buffer : Buffer α) (items : List α) : Buffer α :=
  { text := buffer.text.take buffer.offset ++ items ++ buffer.text.drop buffer.offset
    offset := buffer.offset + items.length }

/-- The symbol before the cursor is removed; at offset 0 there is none. -/
def backspace (buffer : Buffer α) : Buffer α :=
  if 0 < buffer.offset then
    { text := buffer.text.eraseIdx (buffer.offset - 1), offset := buffer.offset - 1 }
  else buffer

def left (buffer : Buffer α) : Buffer α :=
  { buffer with offset := buffer.offset - 1 }

def right (buffer : Buffer α) : Buffer α :=
  { buffer with offset := min (buffer.offset + 1) buffer.text.length }

section Lines

variable [DecidableEq α] (sep : α)

def lineStart (text : List α) (offset : Nat) : Nat :=
  offset - ((text.take offset).reverse.takeWhile (fun symbol => symbol ≠ sep)).length

def lineEnd (text : List α) (offset : Nat) : Nat :=
  offset + ((text.drop offset).takeWhile (fun symbol => symbol ≠ sep)).length

def column (buffer : Buffer α) : Nat :=
  buffer.offset - lineStart sep buffer.text buffer.offset

/-- The cursor in the column it has, on the line that goes from one offset to another. -/
def clipTo (buffer : Buffer α) (start stop : Nat) : Buffer α :=
  { buffer with offset := min (start + buffer.column sep) stop }

def up (buffer : Buffer α) : Buffer α :=
  let start := lineStart sep buffer.text buffer.offset
  if start = 0 then buffer
  else buffer.clipTo sep (lineStart sep buffer.text (start - 1)) (start - 1)

def down (buffer : Buffer α) : Buffer α :=
  let stop := lineEnd sep buffer.text buffer.offset
  if stop = buffer.text.length then buffer
  else buffer.clipTo sep (stop + 1) (lineEnd sep buffer.text (stop + 1))

end Lines

theorem insert_parted (before after items : List α) :
    (parted before after).insert items = parted (before ++ items) after := by
  simp only [parted, insert, List.take_left, List.drop_left, List.length_append]

theorem backspace_parted (before after : List α) (symbol : α) :
    (parted (before ++ [symbol]) after).backspace = parted before after := by
  have length : (before ++ [symbol]).length = before.length + 1 := List.length_append
  have text : before ++ [symbol] ++ after = before ++ symbol :: after :=
    (List.append_cons before symbol after).symm
  simp only [parted, backspace, length, text, Nat.succ_pos, if_true, Nat.add_sub_cancel]
  rw [List.eraseIdx_append_of_length_le (Nat.le_refl _), Nat.sub_self, List.eraseIdx_cons_zero]

theorem left_parted (before after : List α) (symbol : α) :
    (parted (before ++ [symbol]) after).left = parted before (symbol :: after) := by
  have length : (before ++ [symbol]).length = before.length + 1 := List.length_append
  simp only [parted, left, length, Nat.add_sub_cancel]
  rw [← List.append_cons]

theorem right_parted (before after : List α) (symbol : α) :
    (parted before (symbol :: after)).right = parted (before ++ [symbol]) after := by
  have length : (before ++ [symbol]).length = before.length + 1 := List.length_append
  have inside : min (before.length + 1) (before ++ symbol :: after).length = before.length + 1 := by
    apply Nat.min_eq_left
    simp
  simp only [parted, right, length, inside]
  rw [← List.append_cons]

theorem right_end (before : List α) : (parted before []).right = parted before [] := by
  have length : min (before.length + 1) (before ++ []).length = before.length := by
    rw [List.append_nil]
    exact Nat.min_eq_right (Nat.le_succ _)
  simp only [parted, right, length]

section Lines

variable [DecidableEq α] {sep : α}

theorem takeWhile_line {line rest : List α} (clean : sep ∉ line)
    (ends : rest = [] ∨ ∃ others, rest = sep :: others) :
    (line ++ rest).takeWhile (fun symbol => symbol ≠ sep) = line := by
  have whole : ∀ symbol ∈ line, decide (symbol ≠ sep) = true := by
    intro symbol mem
    apply decide_eq_true
    rintro rfl
    exact clean mem
  rw [List.takeWhile_append_of_pos whole]
  rcases ends with rfl | ⟨others, rfl⟩
  · simp
  · simp

theorem lineStart_append {init line : List α} (rest : List α) (clean : sep ∉ line)
    (ends : init = [] ∨ ∃ others, init = others ++ [sep]) :
    lineStart sep (init ++ line ++ rest) (init ++ line).length = init.length := by
  have backwards : line.reverse ++ init.reverse = (init ++ line).reverse :=
    List.reverse_append.symm
  have found := @takeWhile_line α _ sep line.reverse init.reverse
    (fun mem => clean (List.mem_reverse.mp mem))
    (by
      rcases ends with rfl | ⟨others, rfl⟩
      · exact Or.inl rfl
      · exact Or.inr ⟨others.reverse, by simp⟩)
  rw [lineStart, List.take_left, ← backwards, found, List.length_append, List.length_reverse,
    Nat.add_sub_cancel]

theorem lineEnd_append (init : List α) {line rest : List α} (clean : sep ∉ line)
    (ends : rest = [] ∨ ∃ others, rest = sep :: others) :
    lineEnd sep (init ++ (line ++ rest)) init.length = init.length + line.length := by
  rw [lineEnd, List.drop_left, takeWhile_line clean ends]

end Lines

end Buffer

/-- The cursor stands between `front` and `back`; the lines above and the symbols in front come
nearest first. -/
structure Spot (α : Type) where
  above : List (List α)
  front : List α
  back : List α
  below : List (List α)

namespace Spot

variable {α : Type}

def line (spot : Spot α) : List α :=
  spot.front.reverse ++ spot.back

def lines (spot : Spot α) : List (List α) :=
  spot.above.reverse ++ spot.line :: spot.below

def insert (spot : Spot α) (items : List α) : Spot α :=
  { spot with front := items.reverse ++ spot.front }

def split (spot : Spot α) : Spot α :=
  { spot with above := spot.front.reverse :: spot.above, front := [] }

def backspace : Spot α → Spot α
  | ⟨above, _ :: front, back, below⟩ => ⟨above, front, back, below⟩
  | ⟨line :: above, [], back, below⟩ => ⟨above, line.reverse, back, below⟩
  | ⟨[], [], back, below⟩ => ⟨[], [], back, below⟩

def left : Spot α → Spot α
  | ⟨above, symbol :: front, back, below⟩ => ⟨above, front, symbol :: back, below⟩
  | ⟨line :: above, [], back, below⟩ => ⟨above, line.reverse, [], back :: below⟩
  | ⟨[], [], back, below⟩ => ⟨[], [], back, below⟩

def right : Spot α → Spot α
  | ⟨above, front, symbol :: back, below⟩ => ⟨above, symbol :: front, back, below⟩
  | ⟨above, front, [], line :: below⟩ => ⟨front.reverse :: above, [], line, below⟩
  | ⟨above, front, [], []⟩ => ⟨above, front, [], []⟩

def within (above : List (List α)) (line : List α) (column : Nat) (below : List (List α)) : Spot α :=
  { above, front := (line.take column).reverse, back := line.drop column, below }

def up : Spot α → Spot α
  | ⟨line :: above, front, back, below⟩ =>
      within above line front.length ((front.reverse ++ back) :: below)
  | ⟨[], front, back, below⟩ => ⟨[], front, back, below⟩

def down : Spot α → Spot α
  | ⟨above, front, back, line :: below⟩ =>
      within ((front.reverse ++ back) :: above) line front.length below
  | ⟨above, front, back, []⟩ => ⟨above, front, back, []⟩

section Text

variable (sep : α)

def closed (lines : List (List α)) : List α :=
  lines.flatMap (fun line => line ++ [sep])

def opened (lines : List (List α)) : List α :=
  lines.flatMap (fun line => sep :: line)

def before (spot : Spot α) : List α :=
  closed sep spot.above.reverse ++ spot.front.reverse

def after (spot : Spot α) : List α :=
  spot.back ++ opened sep spot.below

def buffer (spot : Spot α) : Buffer α :=
  Buffer.parted (spot.before sep) (spot.after sep)

def Clean (spot : Spot α) : Prop :=
  ∀ line ∈ spot.lines, sep ∉ line

end Text

variable {sep : α}

theorem closed_snoc (lines : List (List α)) (line : List α) :
    closed sep (lines ++ [line]) = closed sep lines ++ line ++ [sep] := by
  simp [closed]

theorem closed_reverse_cons (line : List α) (above : List (List α)) :
    closed sep (line :: above).reverse = closed sep above.reverse ++ line ++ [sep] := by
  rw [List.reverse_cons, closed_snoc]

theorem opened_cons (line : List α) (below : List (List α)) :
    opened sep (line :: below) = sep :: (line ++ opened sep below) := rfl

theorem closed_ends (above : List (List α)) :
    closed sep above.reverse = [] ∨ ∃ others, closed sep above.reverse = others ++ [sep] := by
  cases above with
  | nil => exact Or.inl rfl
  | cons line higher => exact Or.inr ⟨_, closed_reverse_cons line higher⟩

theorem opened_starts (below : List (List α)) :
    opened sep below = [] ∨ ∃ others, opened sep below = sep :: others := by
  cases below with
  | nil => exact Or.inl rfl
  | cons line lower => exact Or.inr ⟨_, opened_cons line lower⟩

theorem joined_eq (above : List (List α)) (line : List α) (below : List (List α)) :
    [sep].intercalate (above ++ line :: below) = closed sep above ++ (line ++ opened sep below) := by
  induction above generalizing line with
  | nil =>
      induction below generalizing line with
      | nil => simp [opened, closed]
      | cons next lower ih =>
          rw [List.nil_append, List.intercalate_cons_cons, opened_cons, ← List.nil_append (next :: lower),
            ih next]
          simp [closed]
  | cons first higher ih =>
      have tail : higher ++ line :: below ≠ [] :=
        List.append_ne_nil_of_right_ne_nil _ (List.cons_ne_nil _ _)
      rw [List.cons_append, List.intercalate_cons_of_ne_nil tail, ih line]
      simp [closed]

theorem text_buffer (spot : Spot α) :
    (spot.buffer sep).text = [sep].intercalate spot.lines := by
  rw [lines, joined_eq, line]
  simp [buffer, Buffer.parted, before, after]

theorem buffer_insert (spot : Spot α) (items : List α) :
    (spot.insert items).buffer sep = (spot.buffer sep).insert items := by
  have before : (spot.insert items).before sep = spot.before sep ++ items := by
    simp [Spot.before, insert]
  rw [buffer, before, buffer, Buffer.insert_parted]
  rfl

theorem buffer_split (spot : Spot α) :
    spot.split.buffer sep = (spot.buffer sep).insert [sep] := by
  have before : spot.split.before sep = spot.before sep ++ [sep] := by
    simp [Spot.before, split, closed_snoc]
  rw [buffer, before, buffer, Buffer.insert_parted]
  rfl

theorem before_front (above : List (List α)) (symbol : α) (front back : List α)
    (below : List (List α)) :
    before sep ⟨above, symbol :: front, back, below⟩ =
      before sep ⟨above, front, back, below⟩ ++ [symbol] := by
  simp [before]

theorem before_start (line : List α) (above : List (List α)) (back : List α)
    (below : List (List α)) :
    before sep ⟨line :: above, [], back, below⟩ =
      before sep ⟨above, line.reverse, back, below⟩ ++ [sep] := by
  simp [before, closed_snoc]

theorem buffer_backspace (spot : Spot α) :
    spot.backspace.buffer sep = (spot.buffer sep).backspace := by
  match spot with
  | ⟨above, symbol :: front, back, below⟩ =>
      rw [buffer, buffer, before_front, Buffer.backspace_parted]
      rfl
  | ⟨line :: above, [], back, below⟩ =>
      rw [buffer, buffer, before_start, Buffer.backspace_parted]
      rfl
  | ⟨[], [], back, below⟩ => rfl

theorem buffer_left (spot : Spot α) : spot.left.buffer sep = (spot.buffer sep).left := by
  match spot with
  | ⟨above, symbol :: front, back, below⟩ =>
      rw [buffer, buffer, before_front, Buffer.left_parted]
      rfl
  | ⟨line :: above, [], back, below⟩ =>
      rw [buffer, buffer, before_start, Buffer.left_parted]
      rfl
  | ⟨[], [], back, below⟩ => rfl

theorem buffer_right (spot : Spot α) : spot.right.buffer sep = (spot.buffer sep).right := by
  match spot with
  | ⟨above, front, symbol :: back, below⟩ =>
      have after : after sep ⟨above, front, symbol :: back, below⟩ =
          symbol :: after sep ⟨above, symbol :: front, back, below⟩ := rfl
      rw [buffer, buffer, after, Buffer.right_parted, right, before_front]
      rfl
  | ⟨above, front, [], line :: below⟩ =>
      have after : after sep ⟨above, front, [], line :: below⟩ =
          sep :: after sep ⟨front.reverse :: above, [], line, below⟩ := rfl
      rw [buffer, buffer, after, Buffer.right_parted, right, before_start, List.reverse_reverse]
      rfl
  | ⟨above, front, [], []⟩ =>
      have after : after sep ⟨above, front, [], []⟩ = [] := rfl
      rw [right, buffer, after, Buffer.right_end]

theorem clean_iff (spot : Spot α) :
    spot.Clean sep ↔
      (∀ line ∈ spot.above, sep ∉ line) ∧ sep ∉ spot.front ∧ sep ∉ spot.back ∧
        ∀ line ∈ spot.below, sep ∉ line := by
  simp [Clean, lines, line, or_imp, forall_and, and_assoc]

theorem lines_within (above : List (List α)) (line : List α) (column : Nat)
    (below : List (List α)) :
    (within above line column below).lines = above.reverse ++ line :: below := by
  rw [lines, Spot.line, within, List.reverse_reverse, List.take_append_drop]

theorem lines_up (spot : Spot α) : spot.up.lines = spot.lines := by
  match spot with
  | ⟨line :: above, front, back, below⟩ =>
      rw [up, lines_within, lines, List.reverse_cons, ← List.append_cons]
      rfl
  | ⟨[], front, back, below⟩ => rfl

theorem lines_down (spot : Spot α) : spot.down.lines = spot.lines := by
  match spot with
  | ⟨above, front, back, line :: below⟩ =>
      rw [down, lines_within, lines, List.reverse_cons, ← List.append_cons]
      rfl
  | ⟨above, front, back, []⟩ => rfl

theorem offset_within (above : List (List α)) (line : List α) (column : Nat)
    (below : List (List α)) :
    ((within above line column below).buffer sep).offset =
      min ((closed sep above.reverse).length + column)
        ((closed sep above.reverse).length + line.length) := by
  simp only [buffer, Buffer.parted, before, within, List.reverse_reverse, List.length_append,
    List.length_take]
  omega

section Vertical

variable [DecidableEq α]

variable {spot : Spot α}

theorem column_buffer (clean : spot.Clean sep) :
    Buffer.lineStart sep (spot.buffer sep).text (spot.buffer sep).offset =
        (closed sep spot.above.reverse).length ∧
      (spot.buffer sep).column sep = spot.front.length := by
  obtain ⟨-, front, -, -⟩ := (clean_iff spot).mp clean
  have start := Buffer.lineStart_append (spot.after sep)
    (fun mem => front (List.mem_reverse.mp mem)) (closed_ends spot.above)
  refine ⟨start, ?_⟩
  rw [Buffer.column, show Buffer.lineStart sep (spot.buffer sep).text (spot.buffer sep).offset = _
    from start]
  simp [buffer, Buffer.parted, before]

theorem buffer_up (clean : spot.Clean sep) : spot.up.buffer sep = (spot.buffer sep).up sep := by
  obtain ⟨start, column⟩ := column_buffer clean
  obtain ⟨above, front, back, below⟩ := spot
  cases above with
  | nil =>
      rw [Buffer.up, start]
      rfl
  | cons line above =>
      obtain ⟨higher, -, -, -⟩ := (clean_iff _).mp clean
      let text := (buffer sep ⟨line :: above, front, back, below⟩).text
      have startAt : (closed sep (line :: above).reverse).length =
          (closed sep above.reverse ++ line).length + 1 := by
        rw [closed_reverse_cons, List.length_append]
        rfl
      have document : text =
          closed sep above.reverse ++ line ++ ([sep] ++ (front.reverse ++ after sep
            ⟨line :: above, front, back, below⟩)) := by
        simp [text, buffer, Buffer.parted, before, closed_snoc]
      have startAbove : Buffer.lineStart sep text (closed sep above.reverse ++ line).length =
          (closed sep above.reverse).length := by
        rw [document]
        exact Buffer.lineStart_append _ (higher line List.mem_cons_self) (closed_ends above)
      have moved : (buffer sep ⟨line :: above, front, back, below⟩).up sep =
          (buffer sep ⟨line :: above, front, back, below⟩).clipTo sep
            (closed sep above.reverse).length (closed sep above.reverse ++ line).length := by
        rw [Buffer.up, start, startAt, if_neg (Nat.succ_ne_zero _), Nat.add_sub_cancel, startAbove]
      rw [moved, Buffer.clipTo, column]
      apply Buffer.ext
      · rw [text_buffer, text_buffer, lines_up]
      · rw [up, offset_within, List.length_append]

theorem buffer_down (clean : spot.Clean sep) :
    spot.down.buffer sep = (spot.buffer sep).down sep := by
  obtain ⟨-, column⟩ := column_buffer clean
  obtain ⟨above, front, back, below⟩ := spot
  obtain ⟨-, -, later, lower⟩ := (clean_iff _).mp clean
  have stop : Buffer.lineEnd sep (buffer sep ⟨above, front, back, below⟩).text
      (buffer sep ⟨above, front, back, below⟩).offset =
        (before sep ⟨above, front, back, below⟩).length + back.length :=
    Buffer.lineEnd_append _ later (opened_starts below)
  cases below with
  | nil =>
      have whole : (before sep ⟨above, front, back, []⟩).length + back.length =
          (buffer sep ⟨above, front, back, []⟩).text.length := by
        simp [buffer, Buffer.parted, after, opened]
      rw [Buffer.down, stop, whole, if_pos rfl]
      rfl
  | cons line below =>
      let text := (buffer sep ⟨above, front, back, line :: below⟩).text
      let init := before sep ⟨above, front, back, line :: below⟩ ++ back ++ [sep]
      have document : text = init ++ (line ++ opened sep below) := by
        simp [text, init, buffer, Buffer.parted, after, opened_cons]
      have initLength : init.length =
          (before sep ⟨above, front, back, line :: below⟩).length + back.length + 1 := by
        simp only [init, List.length_append, List.length_singleton]
      have notLast : (before sep ⟨above, front, back, line :: below⟩).length + back.length ≠
          text.length := by
        rw [document, List.length_append, initLength]
        omega
      have stopBelow : Buffer.lineEnd sep text init.length = init.length + line.length := by
        rw [document]
        exact Buffer.lineEnd_append init (lower line List.mem_cons_self) (opened_starts below)
      have moved : (buffer sep ⟨above, front, back, line :: below⟩).down sep =
          (buffer sep ⟨above, front, back, line :: below⟩).clipTo sep init.length
            (init.length + line.length) := by
        rw [Buffer.down, stop, if_neg notLast, ← initLength, stopBelow]
      have closedInit : (closed sep ((front.reverse ++ back) :: above).reverse).length =
          init.length := by
        simp [init, before, closed_snoc]
      rw [moved, Buffer.clipTo, column]
      apply Buffer.ext
      · rw [text_buffer, text_buffer, lines_down]
      · rw [down, offset_within, closedInit]

end Vertical

variable {spot : Spot α}

section

variable (clean : spot.Clean sep)
include clean

theorem clean_insert {items : List α} (cleanItems : sep ∉ items) :
    (spot.insert items).Clean sep := by
  rw [clean_iff] at *
  simp_all [insert]

theorem clean_split : spot.split.Clean sep := by
  rw [clean_iff] at *
  simp_all [split]

theorem clean_backspace : spot.backspace.Clean sep := by
  rw [clean_iff] at *
  match spot with
  | ⟨above, symbol :: front, back, below⟩ => simp_all [backspace]
  | ⟨line :: above, [], back, below⟩ => simp_all [backspace]
  | ⟨[], [], back, below⟩ => exact clean

theorem clean_left : spot.left.Clean sep := by
  rw [clean_iff] at *
  match spot with
  | ⟨above, symbol :: front, back, below⟩ => simp_all [left]
  | ⟨line :: above, [], back, below⟩ => simp_all [left]
  | ⟨[], [], back, below⟩ => exact clean

theorem clean_right : spot.right.Clean sep := by
  rw [clean_iff] at *
  match spot with
  | ⟨above, front, symbol :: back, below⟩ => simp_all [right]
  | ⟨above, front, [], line :: below⟩ => simp_all [right]
  | ⟨above, front, [], []⟩ => exact clean

theorem clean_up : spot.up.Clean sep := by
  rw [Clean, lines_up]
  exact clean

theorem clean_down : spot.down.Clean sep := by
  rw [Clean, lines_down]
  exact clean

end

end Spot
