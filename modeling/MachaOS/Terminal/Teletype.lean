/-
The console of a window as a teletype: text runs on from row to row, and the rows move up when the
last one is full.

Seen from the cursor the grid is one line of text with blanks behind it, whatever its width: a
character is put at its end, a backspace takes the last one away, a newline fills the row.
-/

import MachaOS.Lib.Checked
import MachaOS.Lib.Words
import MachaOS.Terminal.Console

namespace MachaOS

namespace Terminal

open List
open Spans Words

namespace Console

variable {console : Console} {text : List TextByte}

structure Filled (console : Console) (text : List TextByte) : Prop where
  cells : console.cells =
    text ++ List.replicate (console.cols * console.rows - text.length) blank
  place : text.length = entry console.cols console.col console.row
  row : console.row < console.rows
  col : console.col ≤ console.cols

def Sized (console : Console) : Prop := console.cells.length = console.cols * console.rows

theorem Filled.short (filled : Filled console text) : text.length ≤ console.cols * console.rows := by
  have below : (console.row + 1) * console.cols ≤ console.rows * console.cols :=
    Nat.mul_le_mul_right console.cols filled.row
  have next : (console.row + 1) * console.cols = console.row * console.cols + console.cols := by ring
  have swap : console.rows * console.cols = console.cols * console.rows := Nat.mul_comm _ _
  have place := filled.place
  have col := filled.col
  unfold entry at place
  omega

theorem Filled.sized (filled : Filled console text) : console.Sized := by
  have short := filled.short
  rw [Sized, filled.cells, length_append, length_replicate]
  omega

theorem filled_clear (sized : console.Sized) (someRow : 0 < console.rows) :
    Filled console.clear [] := by
  refine ⟨?_, ?_, someRow, Nat.zero_le _⟩
  · change List.replicate console.cells.length blank = _
    rw [sized]
    rfl
  · change 0 = 0 * console.cols + 0
    omega

/-! ### What a byte does to the line of text -/

theorem cells_scroll (sized : console.Sized) (someRow : 0 < console.rows) :
    console.scroll.cells =
      console.cells.drop console.cols ++ List.replicate console.cols blank := by
  obtain ⟨above, rows⟩ := Nat.exists_eq_add_of_lt someRow
  rw [Nat.zero_add] at rows
  have size : console.cells.length = console.cols * above + console.cols := by
    rw [sized, rows, Nat.mul_succ]
  have whole : console.cols * console.rows = console.cols * above + console.cols := by
    rw [rows, Nat.mul_succ]
  have moved : slice console.cells console.cols (console.cols * console.rows) =
      console.cells.drop console.cols := by
    rw [slice, take_of_length_le]
    rw [length_drop]
    omega
  have length : (console.cells.drop console.cols).length = console.cols * above := by
    rw [length_drop]
    omega
  have last : console.cells.length - console.cols * (console.rows - 1) = console.cols := by
    rw [rows, Nat.add_sub_cancel]
    omega
  have first : console.cols * (console.rows - 1) = console.cols * above := by
    rw [rows, Nat.add_sub_cancel]
  unfold scroll
  simp only
  rw [last, first, moved]
  unfold splice
  rw [take_zero, nil_append, length_replicate, take_left' length]
  have rest : (console.cells.drop console.cols ++
      console.cells.drop (0 + (console.cells.drop console.cols).length)).drop
        (console.cols * above + console.cols) = [] := by
    apply drop_eq_nil_of_le
    rw [length_append, length_drop, length_drop]
    omega
  rw [rest, append_nil]

def broken (console : Console) (text : List TextByte) : List TextByte :=
  text ++ List.replicate (console.cols - console.col) blank

def kept (console : Console) (text : List TextByte) : List TextByte :=
  if console.rows ≤ console.row + 1 then text.drop console.cols else text

section

variable (filled : Filled console text)
include filled

theorem Filled.broken_length : (console.broken text).length = (console.row + 1) * console.cols := by
  have next : (console.row + 1) * console.cols = console.row * console.cols + console.cols := by ring
  have place := filled.place
  have col := filled.col
  unfold entry at place
  rw [broken, length_append, length_replicate]
  omega

theorem Filled.lineFeed : Filled console.lineFeed (console.kept (console.broken text)) := by
  have length := filled.broken_length
  have short := filled.short
  have place := filled.place
  have col := filled.col
  have inside := filled.row
  have cells : console.cells = console.broken text ++
      List.replicate (console.cols * console.rows - (console.broken text).length) blank := by
    have room : console.cols * console.rows - text.length =
        console.cols - console.col +
          (console.cols * console.rows - (console.broken text).length) := by
      have below : (console.row + 1) * console.cols ≤ console.rows * console.cols :=
        Nat.mul_le_mul_right console.cols inside
      have swap : console.rows * console.cols = console.cols * console.rows := Nat.mul_comm _ _
      have next : (console.row + 1) * console.cols = console.row * console.cols + console.cols := by
        ring
      unfold entry at place
      rw [length]
      omega
    rw [filled.cells, room, replicate_add, broken, append_assoc]
  unfold Console.lineFeed kept
  simp only
  by_cases last : console.rows ≤ console.row + 1
  · have whole : (console.broken text).length = console.cols * console.rows := by
      rw [length, Nat.mul_comm]
      congr 1
      omega
    have none : console.cols * console.rows - (console.broken text).length = 0 := by omega
    rw [none, replicate_zero, append_nil] at cells
    rw [if_pos last, if_pos last]
    have scrolled := @cells_scroll { console with row := console.row + 1, col := 0 } filled.sized
      (by change 0 < console.rows; omega)
    refine ⟨?_, ?_, ?_, Nat.zero_le _⟩
    · rw [scrolled]
      have gap : console.cols * console.rows - ((console.broken text).drop console.cols).length =
          console.cols := by
        have atLeast : console.cols ≤ console.cols * console.rows :=
          Nat.le_mul_of_pos_right console.cols (by omega)
        rw [length_drop]
        omega
      change console.cells.drop console.cols ++ List.replicate console.cols blank =
        (console.broken text).drop console.cols ++ List.replicate
          (console.cols * console.rows - ((console.broken text).drop console.cols).length) blank
      rw [gap, ← cells]
    · change ((console.broken text).drop console.cols).length =
        (console.rows - 1) * console.cols + 0
      have before : console.rows - 1 = console.row := by omega
      have next : (console.row + 1) * console.cols = console.row * console.cols + console.cols := by
        ring
      rw [length_drop, length, before]
      omega
    · change console.rows - 1 < console.rows
      omega
  · rw [if_neg last, if_neg last]
    refine ⟨cells, ?_, ?_, Nat.zero_le _⟩
    · rw [length]
      rfl
    · change console.row + 1 < console.rows
      omega

theorem Filled.advance (room : console.col < console.cols) (byte : TextByte) :
    Filled (console.advance byte) (text ++ [byte]) := by
  have place := filled.place
  have short : text.length < console.cols * console.rows := by
    have below : (console.row + 1) * console.cols ≤ console.rows * console.cols :=
      Nat.mul_le_mul_right console.cols filled.row
    have next : (console.row + 1) * console.cols = console.row * console.cols + console.cols := by
      ring
    have swap : console.rows * console.cols = console.cols * console.rows := Nat.mul_comm _ _
    unfold entry at place
    omega
  refine ⟨?_, ?_, filled.row, room⟩
  · change console.cells.set (entry console.cols console.col console.row) byte = (text ++ [byte]) ++
      List.replicate (console.cols * console.rows - (text ++ [byte]).length) blank
    have gap : console.cols * console.rows - text.length =
        (console.cols * console.rows - (text ++ [byte]).length) + 1 := by
      rw [length_append, length_singleton]
      omega
    rw [filled.cells, ← place, gap, replicate_succ, set_append_right _ _ (Nat.le_refl _),
      Nat.sub_self, set_cons_zero, append_assoc, singleton_append]
  · change (text ++ [byte]).length = console.row * console.cols + (console.col + 1)
    unfold entry at place
    rw [length_append, length_singleton]
    omega

theorem Filled.put (someCol : 0 < console.cols) (byte : TextByte) :
    Filled (console.put byte)
      ((if console.cols ≤ console.col then console.kept text else text) ++ [byte]) := by
  unfold Console.put
  by_cases full : console.cols ≤ console.col
  · have fed := filled.lineFeed
    have unbroken : console.broken text = text := by
      have none : console.cols - console.col = 0 := by omega
      rw [broken, none, replicate_zero, append_nil]
    rw [unbroken] at fed
    rw [if_pos full, if_pos full]
    apply fed.advance
    unfold Console.lineFeed
    simp only
    split
    · exact someCol
    · exact someCol
  · rw [if_neg full, if_neg full]
    exact filled.advance (by omega) byte

theorem Filled.erase (someCol : 0 < console.cols) : Filled console.erase text.dropLast := by
  have place := filled.place
  have short := filled.short
  have col := filled.col
  unfold entry at place
  have blanked : text ≠ [] → console.cells.set (text.length - 1) blank = text.dropLast ++
      List.replicate (console.cols * console.rows - text.dropLast.length) blank := by
    intro some
    have positive := length_pos_of_ne_nil some
    have gap : console.cols * console.rows - text.dropLast.length =
        (console.cols * console.rows - text.length) + 1 := by
      rw [length_dropLast]
      omega
    have ends := dropLast_append_getLast some
    have front : text.dropLast.length = text.length - 1 := length_dropLast
    rw [filled.cells, gap, replicate_succ]
    conv_lhs => rw [← ends, append_assoc]
    rw [set_append_right _ _ (by rw [front, ends]), front, ends, Nat.sub_self,
      singleton_append, set_cons_zero]
  unfold Console.erase
  by_cases first : 0 < console.col
  · have some : text ≠ [] := by
      rintro rfl
      simp only [length_nil] at place
      omega
    rw [if_pos first]
    refine ⟨?_, ?_, filled.row, ?_⟩
    · change console.cells.set (entry console.cols (console.col - 1) console.row) blank = _
      have before : entry console.cols (console.col - 1) console.row = text.length - 1 := by
        unfold entry
        omega
      rw [before]
      exact blanked some
    · change text.dropLast.length = console.row * console.cols + (console.col - 1)
      rw [length_dropLast]
      omega
    · change console.col - 1 ≤ console.cols
      omega
  · rw [if_neg first]
    by_cases under : 0 < console.row
    · obtain ⟨above, row⟩ := Nat.exists_eq_add_of_lt under
      rw [Nat.zero_add] at row
      have next : (above + 1) * console.cols = above * console.cols + console.cols := by ring
      rw [row] at place
      have some : text ≠ [] := by
        rintro rfl
        simp only [length_nil] at place
        omega
      rw [if_pos under]
      have before : console.row - 1 = above := by omega
      refine ⟨?_, ?_, ?_, ?_⟩
      · change console.cells.set (entry console.cols (console.cols - 1) (console.row - 1)) blank = _
        have index : entry console.cols (console.cols - 1) (console.row - 1) = text.length - 1 := by
          unfold entry
          rw [before]
          omega
        rw [index]
        exact blanked some
      · change text.dropLast.length = (console.row - 1) * console.cols + (console.cols - 1)
        rw [length_dropLast, before]
        omega
      · change console.row - 1 < console.rows
        have inside := filled.row
        omega
      · change console.cols - 1 ≤ console.cols
        omega
    · have empty : text = [] := by
        apply eq_nil_of_length_eq_zero
        have row : console.row = 0 := by omega
        rw [row, Nat.zero_mul] at place
        omega
      rw [if_neg under]
      subst empty
      exact filled

end

def cutRows (cols : Nat) : Nat → List TextByte → List (List TextByte)
  | 0, _ => []
  | count + 1, line => line.take cols :: cutRows cols count (line.drop cols)

def rowCount (cols length : Nat) : Nat := (length - 1) / cols + 1

def lineRows (cols : Nat) (line : List TextByte) : List (List TextByte) :=
  cutRows cols (rowCount cols line.length) line

/-- A text broken at newlines and every `cols` characters. -/
def page (cols : Nat) (text : List TextByte) : List (List TextByte) :=
  (text.splitOn newline).flatMap (lineRows cols)

def padded (cols : Nat) (row : List TextByte) : List TextByte :=
  row ++ List.replicate (cols - row.length) blank

def grid (cols rows : Nat) (page : List (List TextByte)) : List TextByte :=
  (page.drop (page.length - rows)).flatMap (padded cols) ++
    List.replicate (cols * (rows - page.length)) blank

variable {cols rows : Nat}

theorem length_cutRows (count : Nat) (line : List TextByte) :
    (cutRows cols count line).length = count := by
  induction count generalizing line with
  | zero => rfl
  | succ count ih => rw [cutRows, length_cons, ih]

theorem flatMap_cutRows {count : Nat} {line : List TextByte} (fits : line.length ≤ cols * count) :
    (cutRows cols count line).flatMap (padded cols) =
      line ++ List.replicate (cols * count - line.length) blank := by
  induction count generalizing line with
  | zero =>
      have empty : line = [] := eq_nil_of_length_eq_zero (by omega)
      subst empty
      rfl
  | succ count ih =>
      rw [Nat.mul_succ] at fits
      rw [cutRows, flatMap_cons, Nat.mul_succ]
      by_cases long : cols ≤ line.length
      · have full : (line.take cols).length = cols := by
          rw [length_take]
          omega
        have rest : (line.drop cols).length = line.length - cols := length_drop
        rw [ih (by omega), rest, padded, full, Nat.sub_self, replicate_zero, append_nil,
          ← append_assoc, take_append_drop]
        congr 2
        omega
      · have whole : line.take cols = line := take_of_length_le (by omega)
        have none : line.drop cols = [] := drop_eq_nil_of_le (by omega)
        rw [whole, none, ih (Nat.zero_le _), padded, nil_append, append_assoc,
          ← replicate_add, length_nil]
        congr 2
        omega

theorem rowCount_bounds (someCol : 0 < cols) (length : Nat) :
    length ≤ cols * rowCount cols length := by
  have below := Nat.lt_mul_div_succ (length - 1) someCol
  unfold rowCount
  omega

theorem rowCount_succ {length free : Nat} (someCol : 0 < cols) (inside : free ≤ cols)
    (room : cols * rowCount cols length = length + free) :
    rowCount cols (length + 1) = if free = 0 then rowCount cols length + 1 else rowCount cols length := by
  obtain ⟨count, counted⟩ : ∃ count, rowCount cols length = count + 1 := ⟨_, rfl⟩
  rw [counted, Nat.mul_succ] at room
  have next : rowCount cols (length + 1) = length / cols + 1 := by
    rw [rowCount, Nat.add_sub_cancel]
  rw [next, counted]
  by_cases full : free = 0
  · have exactly : length = cols * (count + 1) := by
      rw [Nat.mul_succ]
      omega
    rw [if_pos full, exactly, Nat.mul_div_cancel_left _ someCol]
  · have within : length / cols = count := by
      rw [Nat.div_eq_iff someCol, Nat.mul_comm count cols]
      omega
    rw [if_neg full, within]

theorem flatMap_page (someCol : 0 < cols) (lines : List (List TextByte)) :
    (lines.flatMap (lineRows cols)).flatMap (padded cols) =
      lines.flatMap (fun line =>
        line ++ List.replicate (cols * rowCount cols line.length - line.length) blank) := by
  rw [flatMap_assoc]
  congr 1
  funext line
  exact flatMap_cutRows (rowCount_bounds someCol line.length)

theorem length_padded {row : List TextByte} (fits : row.length ≤ cols) :
    (padded cols row).length = cols := by
  rw [padded, length_append, length_replicate]
  omega

theorem cutRows_fit (count : Nat) (line : List TextByte) :
    ∀ row ∈ cutRows cols count line, row.length ≤ cols := by
  induction count generalizing line with
  | zero =>
      intro row never
      cases never
  | succ count ih =>
      intro row mem
      rcases mem_cons.mp mem with rfl | later
      · rw [length_take]
        omega
      · exact ih _ row later

theorem drop_flatMap_padded {page : List (List TextByte)} (fit : ∀ row ∈ page, row.length ≤ cols)
    (count : Nat) :
    (page.drop count).flatMap (padded cols) = (page.flatMap (padded cols)).drop (cols * count) := by
  induction count generalizing page with
  | zero => rfl
  | succ count ih =>
      cases page with
      | nil =>
          rw [drop_nil, flatMap_nil, drop_nil]
      | cons row rest =>
          have width := length_padded (fit row mem_cons_self)
          rw [drop_succ_cons, flatMap_cons,
            ih (fun other mem => fit other (mem_cons_of_mem row mem)), Nat.mul_succ,
            Nat.add_comm, ← drop_drop, drop_left' width]

/-! ### A text written to a cleared console -/

def Plain (byte : TextByte) : Prop :=
  byte ≠ newline ∧ byte ≠ carriageReturn ∧ byte ≠ backspace ∧ byte ≠ tabulator

instance (byte : TextByte) : Decidable (Plain byte) :=
  inferInstanceAs (Decidable (_ ∧ _ ∧ _ ∧ _))

theorem writeByte_newline : console.writeByte newline = console.lineFeed := if_pos rfl

theorem writeByte_backspace : console.writeByte backspace = console.erase := by
  rw [writeByte, if_neg (by decide), if_neg (by decide), if_pos rfl]

theorem writeByte_plain {byte : TextByte} (plain : Plain byte) :
    console.writeByte byte = console.put byte := by
  obtain ⟨noNewline, noReturn, noBackspace, noTab⟩ := plain
  rw [writeByte, if_neg noNewline, if_neg noReturn, if_neg noBackspace, if_neg noTab]

def filledLine (cols : Nat) (line : List TextByte) : List TextByte :=
  line ++ List.replicate (cols * rowCount cols line.length - line.length) blank

def sheet (cols : Nat) (lines : List (List TextByte)) (last : List TextByte) : List TextByte :=
  lines.flatMap (filledLine cols) ++ last

/-- The console after a text: `lines` are finished, the cursor is behind `last`, and `gone` rows have
left the grid. -/
structure Types (console : Console) (lines : List (List TextByte)) (last : List TextByte)
    (gone : Nat) : Prop where
  filled : Filled console ((sheet console.cols lines last).drop (console.cols * gone))
  reached : console.cols * gone ≤ (sheet console.cols lines last).length
  count : ((lines ++ [last]).flatMap (lineRows console.cols)).length = gone + console.row + 1
  scrolled : 0 < gone → console.row + 1 = console.rows
  column : console.cols * rowCount console.cols last.length =
    last.length + (console.cols - console.col)

theorem length_lineRows (line : List TextByte) :
    (lineRows cols line).length = rowCount cols line.length :=
  length_cutRows _ line

theorem length_page_append (lines : List (List TextByte)) (last : List TextByte) :
    ((lines ++ [last]).flatMap (lineRows cols)).length =
      (lines.flatMap (lineRows cols)).length + rowCount cols last.length := by
  rw [flatMap_append, flatMap_singleton, length_append, length_lineRows]

variable {lines : List (List TextByte)} {last : List TextByte} {gone : Nat}

theorem types_clear (sized : console.Sized) (someCol : 0 < console.cols)
    (someRow : 0 < console.rows) : Types console.clear [] [] 0 := by
  have one : rowCount console.cols 0 = 1 := by
    rw [rowCount, Nat.zero_sub, Nat.zero_div]
  refine ⟨filled_clear sized someRow, Nat.zero_le _, ?_, ?_, ?_⟩
  · rw [length_page_append, length_nil]
    change 0 + rowCount console.cols 0 = 0 + 0 + 1
    omega
  · intro never
    exact absurd never (Nat.lt_irrefl 0)
  · change console.cols * rowCount console.cols 0 = 0 + (console.cols - 0)
    rw [one]
    omega

def goneAfter (console : Console) (gone : Nat) : Nat :=
  if console.rows ≤ console.row + 1 then gone + 1 else gone

theorem lineFeed_size : console.lineFeed.cols = console.cols ∧ console.lineFeed.rows = console.rows := by
  unfold Console.lineFeed
  simp only
  split <;> exact ⟨rfl, rfl⟩

theorem lineFeed_col : console.lineFeed.col = 0 := by
  unfold Console.lineFeed
  simp only
  split <;> rfl

theorem lineFeed_row (inside : console.row < console.rows) :
    goneAfter console gone + console.lineFeed.row = gone + console.row + 1 ∧
      (gone < goneAfter console gone → console.lineFeed.row + 1 = console.rows) := by
  unfold goneAfter Console.lineFeed
  simp only
  split
  · refine ⟨?_, ?_⟩
    · change gone + 1 + (console.rows - 1) = gone + console.row + 1
      omega
    · intro _
      change console.rows - 1 + 1 = console.rows
      omega
  · exact ⟨rfl, fun never => absurd never (Nat.lt_irrefl gone)⟩

theorem kept_broken (reached : console.cols * gone ≤ (sheet console.cols lines last).length) :
    console.kept (console.broken ((sheet console.cols lines last).drop (console.cols * gone))) =
      (sheet console.cols lines last ++ List.replicate (console.cols - console.col) blank).drop
        (console.cols * goneAfter console gone) := by
  have moved : console.broken ((sheet console.cols lines last).drop (console.cols * gone)) =
      (sheet console.cols lines last ++ List.replicate (console.cols - console.col) blank).drop
        (console.cols * gone) := by
    rw [broken, drop_append_of_le_length reached]
  unfold kept goneAfter
  split
  · rw [moved, drop_drop, Nat.mul_succ]
  · exact moved

section

variable (types : Types console lines last gone)
include types

theorem Types.goneAfter_reached :
    console.cols * goneAfter console gone ≤
      (sheet console.cols lines last ++ List.replicate (console.cols - console.col) blank).length := by
  have length := types.filled.broken_length
  have reached := types.reached
  have next : (console.row + 1) * console.cols = console.row * console.cols + console.cols := by ring
  rw [broken, length_append, length_drop, length_replicate] at length
  rw [length_append, length_replicate]
  unfold goneAfter
  split
  · rw [Nat.mul_succ]
    omega
  · omega

theorem Types.scrolled_lineFeed (some : 0 < goneAfter console gone) :
    console.lineFeed.row + 1 = console.lineFeed.rows := by
  rw [lineFeed_size.2]
  have moved := (@lineFeed_row console gone types.filled.row).2
  unfold goneAfter at some moved
  by_cases full : console.rows ≤ console.row + 1
  · rw [if_pos full] at moved
    exact moved (Nat.lt_succ_self gone)
  · rw [if_neg full] at some
    have bottom := types.scrolled some
    omega

theorem Types.newline (someCol : 0 < console.cols) :
    Types console.lineFeed (lines ++ [last]) [] (goneAfter console gone) := by
  have cols := (@lineFeed_size console).1
  have row := (@lineFeed_row console gone types.filled.row).1
  have col := @lineFeed_col console
  have one : rowCount console.cols 0 = 1 := by
    rw [rowCount, Nat.zero_sub, Nat.zero_div]
  have whole : sheet console.cols (lines ++ [last]) [] =
      sheet console.cols lines last ++ List.replicate (console.cols - console.col) blank := by
    have free : console.cols * rowCount console.cols last.length - last.length =
        console.cols - console.col := by
      rw [types.column]
      omega
    unfold sheet
    rw [flatMap_append, flatMap_singleton, filledLine, free, append_nil, append_assoc]
  constructor
  · rw [cols, whole, ← kept_broken types.reached]
    exact types.filled.lineFeed
  · rw [cols, whole]
    exact types.goneAfter_reached
  · rw [cols, length_page_append, length_nil, one, types.count]
    omega
  · exact types.scrolled_lineFeed
  · rw [cols, col, length_nil, one]
    omega

theorem Types.plain (someCol : 0 < console.cols) (byte : TextByte) :
    ∃ gone', Types (console.put byte) lines (last ++ [byte]) gone' := by
  have length : (last ++ [byte]).length = last.length + 1 := by
    rw [length_append, length_singleton]
  have col := types.filled.col
  have next := rowCount_succ someCol (by omega) types.column
  have written : ∀ width, sheet width lines (last ++ [byte]) = sheet width lines last ++ [byte] := by
    intro width
    unfold sheet
    rw [append_assoc]
  unfold Console.put
  by_cases full : console.cols ≤ console.col
  · have cols := (@lineFeed_size console).1
    have row := (@lineFeed_row console gone types.filled.row).1
    have first := @lineFeed_col console
    have free : console.cols - console.col = 0 := by omega
    have fed := types.filled.lineFeed
    rw [kept_broken types.reached, free, replicate_zero, append_nil] at fed
    have reached := types.goneAfter_reached
    rw [free, replicate_zero, append_nil] at reached
    rw [if_pos free] at next
    have column := types.column
    rw [if_pos full]
    refine ⟨goneAfter console gone, ?_, ?_, ?_, ?_, ?_⟩
    · change Filled _ ((sheet console.lineFeed.cols _ _).drop (console.lineFeed.cols * _))
      rw [cols, written, drop_append_of_le_length reached]
      exact fed.advance (by omega) byte
    · change console.lineFeed.cols * _ ≤ (sheet console.lineFeed.cols _ _).length
      rw [cols, written, length_append]
      omega
    · change (List.flatMap (lineRows console.lineFeed.cols) _).length = _ + console.lineFeed.row + 1
      have count := types.count
      rw [length_page_append] at count
      rw [cols, length_page_append, length, next]
      omega
    · exact types.scrolled_lineFeed
    · change console.lineFeed.cols * rowCount console.lineFeed.cols _ =
        _ + (console.lineFeed.cols - (console.lineFeed.col + 1))
      rw [cols, first, length, next, Nat.mul_succ]
      omega
  · rw [if_neg full]
    rw [if_neg (by omega)] at next
    have column := types.column
    refine ⟨gone, ?_, ?_, ?_, types.scrolled, ?_⟩
    · change Filled _ ((sheet console.cols _ _).drop (console.cols * _))
      rw [written, drop_append_of_le_length types.reached]
      exact types.filled.advance (by omega) byte
    · have reached := types.reached
      change console.cols * _ ≤ (sheet console.cols _ _).length
      rw [written, length_append]
      omega
    · change (List.flatMap (lineRows console.cols) _).length = _ + console.row + 1
      have count := types.count
      rw [length_page_append] at count
      rw [length_page_append, length, next]
      exact count
    · change console.cols * rowCount console.cols _ = _ + (console.cols - (console.col + 1))
      rw [length, next]
      omega

end

theorem put_size (byte : TextByte) :
    (console.put byte).cols = console.cols ∧ (console.put byte).rows = console.rows := by
  unfold Console.put
  split
  · exact lineFeed_size
  · exact ⟨rfl, rfl⟩

theorem iterate_put_size (count : Nat) :
    (Nat.iterate (fun written : Console => written.put blank) count console).cols = console.cols ∧
      (Nat.iterate (fun written : Console => written.put blank) count console).rows =
        console.rows := by
  induction count generalizing console with
  | zero => exact ⟨rfl, rfl⟩
  | succ count ih =>
      have first := @put_size console blank
      have others := @ih (console.put blank)
      exact ⟨others.1.trans first.1, others.2.trans first.2⟩

theorem writeByte_size (byte : TextByte) :
    (console.writeByte byte).cols = console.cols ∧ (console.writeByte byte).rows = console.rows := by
  unfold writeByte
  split
  · exact lineFeed_size
  split
  · exact ⟨rfl, rfl⟩
  split
  · unfold Console.erase
    split
    · exact ⟨rfl, rfl⟩
    · split <;> exact ⟨rfl, rfl⟩
  split
  · exact iterate_put_size _
  · exact put_size byte

theorem write_size (text : List TextByte) :
    (console.write text).cols = console.cols ∧ (console.write text).rows = console.rows := by
  induction text generalizing console with
  | nil => exact ⟨rfl, rfl⟩
  | cons byte rest ih =>
      have first := @writeByte_size console byte
      have others := @ih (console.writeByte byte)
      exact ⟨others.1.trans first.1, others.2.trans first.2⟩

theorem write_append (first second : List TextByte) :
    console.write (first ++ second) = (console.write first).write second :=
  foldl_append

theorem types_write (sized : console.Sized) (someCol : 0 < console.cols) (someRow : 0 < console.rows)
    {text : List TextByte} (typed : ∀ byte ∈ text, byte = newline ∨ Plain byte) :
    ∃ lines last gone, text.splitOn newline = lines ++ [last] ∧
      Types (console.clear.write text) lines last gone := by
  induction text using List.reverseRecOn with
  | nil => exact ⟨[], [], 0, rfl, types_clear sized someCol someRow⟩
  | append_singleton front byte ih =>
      obtain ⟨lines, last, gone, cut, types⟩ :=
        ih (fun other mem => typed other (mem_append_left _ mem))
      have cols : 0 < (console.clear.write front).cols := by
        rw [(write_size front).1]
        exact someCol
      have written : console.clear.write (front ++ [byte]) =
          (console.clear.write front).writeByte byte := write_append front [byte]
      rw [written]
      rcases typed byte (mem_append_right _ mem_cons_self) with rfl | plain
      · refine ⟨lines ++ [last], [], goneAfter (console.clear.write front) gone, ?_, ?_⟩
        · rw [splitOn_append_cons_self, cut, splitOn_nil]
        · rw [writeByte_newline]
          exact types.newline cols
      · obtain ⟨gone', next⟩ := types.plain cols byte
        refine ⟨lines, last ++ [byte], gone', ?_, ?_⟩
        · apply splitOn_append_clean cut
          rw [mem_singleton]
          exact fun same => plain.1 same.symm
        · rw [writeByte_plain plain]
          exact next

theorem Types.cells (types : Types console lines last gone) (someCol : 0 < console.cols) :
    console.cells = grid console.cols console.rows
      ((lines ++ [last]).flatMap (lineRows console.cols)) := by
  have count := types.count
  have place := types.filled.place
  have col := types.filled.col
  have inside := types.filled.row
  have fit : ∀ row ∈ (lines ++ [last]).flatMap (lineRows console.cols),
      row.length ≤ console.cols := by
    intro row mem
    obtain ⟨line, -, inLine⟩ := mem_flatMap.mp mem
    exact cutRows_fit _ line row inLine
  have whole : ((lines ++ [last]).flatMap (lineRows console.cols)).flatMap (padded console.cols) =
      sheet console.cols lines last ++ List.replicate (console.cols - console.col) blank := by
    have free : console.cols * rowCount console.cols last.length - last.length =
        console.cols - console.col := by
      rw [types.column]
      omega
    rw [flatMap_page someCol, flatMap_append, flatMap_singleton, free, sheet, append_assoc]
    rfl
  have off : ((lines ++ [last]).flatMap (lineRows console.cols)).length - console.rows = gone := by
    rw [count]
    by_cases none : gone = 0
    · omega
    · have bottom := types.scrolled (by omega)
      omega
  have under : console.rows - ((lines ++ [last]).flatMap (lineRows console.cols)).length =
      console.rows - (console.row + 1) := by
    rw [count]
    by_cases none : gone = 0
    · omega
    · have bottom := types.scrolled (by omega)
      omega
  rw [grid, off, under, drop_flatMap_padded fit, whole, drop_append_of_le_length types.reached,
    append_assoc, ← replicate_add, types.filled.cells]
  congr 2
  obtain ⟨below, rows⟩ : ∃ below, console.rows = console.row + 1 + below :=
    Nat.exists_eq_add_of_le (Nat.succ_le_of_lt inside)
  have size : console.cols * console.rows =
      console.row * console.cols + console.cols + console.cols * below := by
    rw [rows]
    ring
  have left : console.rows - (console.row + 1) = below := by omega
  unfold entry at place
  rw [left, size]
  omega

/-! ### Every access is inside the grid -/

def drawCellChecked (console : Console) (col row : Nat) (byte : TextByte) : Checked Console := do
  Checked.inside (col < console.cols ∧ entry console.cols col row < console.cells.length)
  pure (console.drawCell col row byte)

def scrollChecked (console : Console) : Checked Console := do
  Checked.inside (console.cols ≤ console.cols * console.rows ∧
    console.cols * console.rows ≤ console.cells.length)
  let above ← Checked.sub console.rows 1
  Checked.inside (console.cols * above ≤ console.cells.length)
  pure console.scroll

def lineFeedChecked (console : Console) : Checked Console :=
  let below := { console with row := console.row + 1, col := 0 }
  if below.rows ≤ below.row then below.scrollChecked else pure below

def advanceChecked (console : Console) (byte : TextByte) : Checked Console := do
  let drawn ← console.drawCellChecked console.col console.row byte
  pure { drawn with col := console.col + 1 }

def putChecked (console : Console) (byte : TextByte) : Checked Console :=
  if console.cols ≤ console.col then do
    let fed ← console.lineFeedChecked
    fed.advanceChecked byte
  else console.advanceChecked byte

def putBlanksChecked : Nat → Console → Checked Console
  | 0, console => pure console
  | count + 1, console => do
      let console ← console.putChecked blank
      putBlanksChecked count console

def eraseChecked (console : Console) : Checked Console :=
  if 0 < console.col then
    { console with col := console.col - 1 }.drawCellChecked (console.col - 1) console.row blank
  else if 0 < console.row then do
    let last ← Checked.sub console.cols 1
    { console with row := console.row - 1, col := last }.drawCellChecked last (console.row - 1) blank
  else pure console

/-- `write_byte` with its accesses and subtractions checked. -/
def writeByteChecked (console : Console) (byte : TextByte) : Checked Console :=
  if byte = newline then console.lineFeedChecked
  else if byte = carriageReturn then pure { console with col := 0 }
  else if byte = backspace then console.eraseChecked
  else if byte = tabulator then putBlanksChecked (4 - console.col % 4) console
  else console.putChecked byte

def writeChecked (console : Console) (bytes : List TextByte) : Checked Console :=
  bytes.foldlM writeByteChecked console

structure OnGrid (console : Console) : Prop where
  sized : console.Sized
  someCol : 0 < console.cols
  row : console.row < console.rows
  col : console.col ≤ console.cols

theorem OnGrid.cell (onGrid : OnGrid console) {col row : Nat} (across : col < console.cols)
    (down : row < console.rows) : entry console.cols col row < console.cells.length := by
  have below : (row + 1) * console.cols ≤ console.rows * console.cols :=
    Nat.mul_le_mul_right console.cols down
  have next : (row + 1) * console.cols = row * console.cols + console.cols := by ring
  have swap : console.rows * console.cols = console.cols * console.rows := Nat.mul_comm _ _
  have sized := onGrid.sized
  unfold Sized at sized
  unfold entry
  omega

def Safe (checked : Checked Console) (console : Console) : Prop :=
  checked = .ok console ∧ console.OnGrid

section

variable (onGrid : OnGrid console)
include onGrid

theorem OnGrid.drawCell {col row : Nat} (across : col < console.cols) (down : row < console.rows)
    (byte : TextByte) :
    Safe (console.drawCellChecked col row byte) (console.drawCell col row byte) := by
  constructor
  · rw [drawCellChecked, Checked.inside_ok ⟨across, onGrid.cell across down⟩]
    rfl
  · refine ⟨?_, onGrid.someCol, onGrid.row, onGrid.col⟩
    change (console.cells.set _ byte).length = console.cols * console.rows
    rw [length_set]
    exact onGrid.sized

theorem OnGrid.lineFeed : Safe console.lineFeedChecked console.lineFeed := by
  have someRow : 0 < console.rows := Nat.zero_lt_of_lt onGrid.row
  unfold lineFeedChecked Console.lineFeed
  simp only
  split
  · have sized : Sized { console with row := console.row + 1, col := 0 } := onGrid.sized
    have rows : console.cols ≤ console.cols * console.rows :=
      Nat.le_mul_of_pos_right console.cols someRow
    have above : console.cols * (console.rows - 1) ≤ console.cols * console.rows :=
      Nat.mul_le_mul_left console.cols (Nat.sub_le _ _)
    have moves : console.cols ≤ console.cols * console.rows ∧
        console.cols * console.rows ≤ console.cells.length :=
      ⟨rows, Nat.le_of_eq onGrid.sized.symm⟩
    constructor
    · rw [scrollChecked, Checked.inside_ok moves]
      change (Checked.sub console.rows 1 >>= fun last => _) = _
      rw [Checked.sub_ok someRow]
      change (Checked.inside (console.cols * (console.rows - 1) ≤ console.cells.length) >>=
        fun _ => _) = _
      rw [Checked.inside_ok (above.trans moves.2)]
      rfl
    · refine ⟨?_, onGrid.someCol, ?_, Nat.zero_le _⟩
      · have cells := cells_scroll sized someRow
        unfold Sized
        rw [cells, length_append, length_drop, length_replicate]
        have size := onGrid.sized
        unfold Sized at size
        change console.cells.length - console.cols + console.cols = console.cols * console.rows
        omega
      · change console.rows - 1 < console.rows
        omega
  · rename_i room
    refine ⟨rfl, onGrid.sized, onGrid.someCol, ?_, Nat.zero_le _⟩
    change console.row + 1 < console.rows
    change ¬console.rows ≤ console.row + 1 at room
    omega

theorem OnGrid.advance (room : console.col < console.cols) (byte : TextByte) :
    Safe (console.advanceChecked byte) (console.advance byte) := by
  obtain ⟨drawn, stays⟩ := onGrid.drawCell room onGrid.row byte
  constructor
  · rw [advanceChecked, drawn]
    rfl
  · exact ⟨stays.sized, onGrid.someCol, onGrid.row, room⟩

theorem OnGrid.put (byte : TextByte) : Safe (console.putChecked byte) (console.put byte) := by
  unfold putChecked Console.put
  split
  · obtain ⟨fed, stays⟩ := onGrid.lineFeed
    have first := @lineFeed_col console
    rw [fed]
    apply stays.advance
    rw [first]
    exact stays.someCol
  · rename_i room
    exact onGrid.advance (by omega) byte

theorem OnGrid.putBlanks (count : Nat) :
    Safe (putBlanksChecked count console)
      (Nat.iterate (fun written => written.put blank) count console) := by
  induction count generalizing console with
  | zero => exact ⟨rfl, onGrid⟩
  | succ count ih =>
      obtain ⟨first, stays⟩ := onGrid.put blank
      rw [putBlanksChecked, first]
      exact ih stays

theorem OnGrid.erase : Safe console.eraseChecked console.erase := by
  have someCol := onGrid.someCol
  have col := onGrid.col
  have row := onGrid.row
  unfold eraseChecked Console.erase
  split
  · have back : OnGrid { console with col := console.col - 1 } :=
      ⟨onGrid.sized, someCol, row, (Nat.sub_le _ _).trans col⟩
    apply back.drawCell
    · change console.col - 1 < console.cols
      omega
    · exact row
  · split
    · have back : OnGrid { console with row := console.row - 1, col := console.cols - 1 } := by
        refine ⟨onGrid.sized, someCol, ?_, Nat.sub_le _ _⟩
        change console.row - 1 < console.rows
        omega
      rw [Checked.sub_ok someCol]
      apply back.drawCell
      · change console.cols - 1 < console.cols
        omega
      · exact back.row
    · exact ⟨rfl, onGrid⟩

theorem OnGrid.writeByte (byte : TextByte) :
    Safe (console.writeByteChecked byte) (console.writeByte byte) := by
  unfold writeByteChecked Console.writeByte
  split
  · exact onGrid.lineFeed
  split
  · exact ⟨rfl, onGrid.sized, onGrid.someCol, onGrid.row, Nat.zero_le _⟩
  split
  · exact onGrid.erase
  split
  · exact onGrid.putBlanks _
  · exact onGrid.put byte

end

theorem OnGrid.write (onGrid : OnGrid console) (bytes : List TextByte) :
    Safe (console.writeChecked bytes) (console.write bytes) := by
  induction bytes generalizing console with
  | nil => exact ⟨rfl, onGrid⟩
  | cons byte rest ih =>
      obtain ⟨first, stays⟩ := onGrid.writeByte byte
      have others := ih stays
      unfold writeChecked
      rw [foldlM_cons, first]
      exact others

theorem onGrid_clear (sized : console.Sized) (someCol : 0 < console.cols)
    (someRow : 0 < console.rows) : OnGrid console.clear := by
  refine ⟨?_, someCol, someRow, Nat.zero_le _⟩
  change (List.replicate console.cells.length blank).length = console.cols * console.rows
  rw [length_replicate]
  exact sized

/-- A cleared console shows the last rows of the characters and newlines written to it, and whatever
bytes are written, every access is in range and the cursor stays on the grid. -/
theorem teletype {console : Console} (sized : console.Sized) (someCol : 0 < console.cols)
    (someRow : 0 < console.rows) :
    (∀ text : List TextByte, (∀ byte ∈ text, byte = newline ∨ Plain byte) →
      (console.clear.write text).cells =
        grid console.cols console.rows (page console.cols text)) ∧
    ∀ bytes : List TextByte, Safe (console.clear.writeChecked bytes) (console.clear.write bytes) := by
  constructor
  · intro text typed
    obtain ⟨lines, last, gone, cut, types⟩ := types_write sized someCol someRow typed
    obtain ⟨cols, rows⟩ := @write_size console.clear text
    have shown := types.cells (by rw [cols]; exact someCol)
    rw [page, cut, shown, cols, rows]
    rfl
  · exact (onGrid_clear sized someCol someRow).write

theorem teletype_two :
    ((new 2 2).clear.write [0x61, 0x62, newline, 0x63, 0x64, 0x65]).cells =
        grid 2 2 (page 2 [0x61, 0x62, newline, 0x63, 0x64, 0x65]) ∧
      Safe ((new 2 2).clear.writeChecked [tabulator, backspace])
        ((new 2 2).clear.write [tabulator, backspace]) := by
  have both := @teletype (new 2 2) rfl (by decide) (by decide)
  exact ⟨both.1 _ (by decide), both.2 _⟩

end Console

end Terminal

end MachaOS
