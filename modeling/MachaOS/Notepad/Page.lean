/-
Where the cursor is drawn, and where the console prints the text.

The highlighted cell is computed from the cursor's row and column; the text goes through the console,
which wraps after the last column, takes one cell for each byte, and moves the column at a tab, a
carriage return or a backspace.  The two agree exactly when every line that is shown stays in its
row and the bytes before the cursor end in its column, before the last one.
-/

import MachaOS.Notepad.Cursor

namespace MachaOS

namespace Notepad

open Keyboard Terminal
open Terminal.Console (SameSize)
open Shell (Line)

def nextCell (console : Console) : Nat × Nat :=
  if console.cols ≤ console.col then (console.lineFeed.col, console.lineFeed.row)
  else (console.col, console.row)

def cellRect (scale : Nat) (cell : Nat × Nat) : Rect :=
  { x := asU32 (cell.1 * glyphSize scale)
    y := asU32 (cell.2 * glyphSize scale)
    w := asU32 (glyphSize scale)
    h := asU32 (glyphSize scale) }

def fontScale (requested : UInt8) : Nat := (max requested 1).toNat

def Editor.visibleRow (editor : Editor) : Nat :=
  editor.cursorRow - firstShown (docRows editor.console) editor.cursorRow editor.scrollOffset

def Editor.front (editor : Editor) : Line :=
  (editor.lines.getD editor.cursorRow []).take editor.cursorCol

def Editor.consoleAtCursor (editor : Editor) : Console :=
  (editor.console.clear.write (printedLines (editor.shownLines.take editor.visibleRow))).write
    (encode editor.front)

/-- The page as it should be: the cursor is drawn over the cell of the character at the cursor, in a
row of the document, and each line is printed in its own row, from the top. -/
structure WellDrawn (editor : Editor) (scale : Nat) : Prop where
  cursor : (editor.rendered scale).overlay.cursor = cellRect scale (nextCell editor.consoleAtCursor)
  visible : (nextCell editor.consoleAtCursor).2 < docRows editor.console
  lines : ∀ i line, editor.shownLines[i]? = some line → ∀ front, front <+: encode line →
    ((editor.console.clear.write (printedLines (editor.shownLines.take i))).write front).row = i

/-- The column after a byte, unless it leaves the row: after the last column, or back over the start
of a row that is not the top one. -/
def stepColumn (cols : Nat) (top : Bool) (col : Nat) (byte : TextByte) : Option Nat :=
  if byte = newline then none
  else if byte = carriageReturn then some 0
  else if byte = backspace then
    if 0 < col then some (col - 1) else if top then some 0 else none
  else if byte = tabulator then
    if col + (4 - col % 4) ≤ cols then some (col + (4 - col % 4)) else none
  else if col < cols then some (col + 1) else none

def columnAfter (cols : Nat) (top : Bool) (bytes : List TextByte) : Option Nat :=
  bytes.foldlM (stepColumn cols top) 0

structure Legible (editor : Editor) (scale : Nat) : Prop where
  lines : ∀ i line, editor.shownLines[i]? = some line →
    (columnAfter editor.console.cols (i == 0) (encode line)).isSome
  cursor : ∃ col, columnAfter editor.console.cols (editor.visibleRow == 0) (encode editor.front) =
    some col ∧ col < editor.console.cols ∧
      asU32 (editor.cursorCol * glyphSize scale) = asU32 (col * glyphSize scale)

structure Stands (console : Console) (cols rows row col : Nat) : Prop where
  cols : console.cols = cols
  rows : console.rows = rows
  row : console.row = row
  col : console.col = col

section Bytes

variable {console : Console} {cols rows row col : Nat}

theorem row_lineFeed (stands : Stands console cols rows row col) (under : row + 1 < rows) :
    Stands console.lineFeed cols rows (row + 1) 0 := by
  obtain ⟨rfl, rfl, rfl, rfl⟩ := stands
  have room : ¬ console.rows ≤ console.row + 1 := Nat.not_le_of_lt under
  unfold Console.lineFeed
  dsimp only
  rw [if_neg room]
  exact ⟨rfl, rfl, rfl, rfl⟩

theorem row_put_below {floor : Nat} (below : floor ≤ console.row) (last : floor + 1 ≤ console.rows)
    (byte : TextByte) : floor ≤ (console.put byte).row := by
  unfold Console.put
  split
  · change floor ≤ console.lineFeed.row
    unfold Console.lineFeed
    dsimp only
    split
    · change floor ≤ console.rows - 1
      omega
    · change floor ≤ console.row + 1
      omega
  · exact below

theorem row_putBlanks_below {floor : Nat} (below : floor ≤ console.row)
    (last : floor + 1 ≤ console.rows) (count : Nat) :
    floor ≤ (Nat.iterate (fun written => written.put blank) count console).row := by
  induction count generalizing console with
  | zero => exact below
  | succ count ih =>
      apply ih (row_put_below below last blank)
      rw [(SameSize.put console blank).rows]
      exact last

section

variable (stands : Stands console cols rows row col)
include stands

theorem put_inside (inside : col < cols) (byte : TextByte) :
    Stands (console.put byte) cols rows row (col + 1) := by
  obtain ⟨rfl, rfl, rfl, rfl⟩ := stands
  unfold Console.put
  rw [if_neg (Nat.not_le_of_lt inside)]
  exact ⟨rfl, rfl, rfl, rfl⟩

theorem put_wraps (full : cols ≤ col) (under : row + 1 < rows) (byte : TextByte) :
    (console.put byte).row = row + 1 := by
  have fed := row_lineFeed stands under
  obtain ⟨rfl, rfl, rfl, rfl⟩ := stands
  unfold Console.put
  rw [if_pos full]
  exact fed.row

theorem putBlanks_inside {count : Nat} (inside : col + count ≤ cols) :
    Stands (Nat.iterate (fun written => written.put blank) count console) cols rows row
      (col + count) := by
  induction count generalizing console col with
  | zero => exact stands
  | succ count ih =>
      have next := put_inside stands (by omega) blank
      have later := ih next (by omega)
      rw [Nat.add_assoc, Nat.add_comm 1 count] at later
      exact later

theorem putBlanks_wraps {count : Nat} (starts : col ≤ cols) (full : cols < col + count)
    (under : row + 1 < rows) :
    row + 1 ≤ (Nat.iterate (fun written => written.put blank) count console).row := by
  induction count generalizing console col with
  | zero => omega
  | succ count ih =>
      rw [Function.iterate_succ_apply]
      by_cases inside : col < cols
      · exact ih (put_inside stands inside blank) inside (by omega)
      · have wrapped := put_wraps stands (Nat.le_of_not_lt inside) under blank
        apply row_putBlanks_below
        · rw [wrapped]
        · rw [(SameSize.put console blank).rows, stands.rows]
          omega

theorem writeByte_stays {byte : TextByte} {next : Nat}
    (tracked : stepColumn cols (row == 0) col byte = some next) :
    Stands (console.writeByte byte) cols rows row next := by
  unfold stepColumn at tracked
  unfold Console.writeByte
  by_cases isNewline : byte = newline
  · rw [if_pos isNewline] at tracked
    cases tracked
  rw [if_neg isNewline] at tracked ⊢
  by_cases isReturn : byte = carriageReturn
  · rw [if_pos isReturn] at tracked ⊢
    cases tracked
    exact ⟨stands.cols, stands.rows, stands.row, rfl⟩
  rw [if_neg isReturn] at tracked ⊢
  by_cases isBackspace : byte = backspace
  · rw [if_pos isBackspace] at tracked ⊢
    obtain ⟨rfl, rfl, rfl, rfl⟩ := stands
    unfold Console.erase
    by_cases inside : 0 < console.col
    · rw [if_pos inside] at tracked ⊢
      cases tracked
      exact ⟨rfl, rfl, rfl, rfl⟩
    · rw [if_neg inside] at tracked ⊢
      by_cases top : (console.row == 0) = true
      · rw [if_pos top] at tracked
        cases tracked
        have notUnder : ¬ 0 < console.row := by
          rw [beq_iff_eq.mp top]
          exact Nat.lt_irrefl 0
        rw [if_neg notUnder]
        exact ⟨rfl, rfl, rfl, Nat.eq_zero_of_not_pos inside⟩
      · rw [if_neg top] at tracked
        cases tracked
  rw [if_neg isBackspace] at tracked ⊢
  by_cases isTab : byte = tabulator
  · rw [if_pos isTab] at tracked ⊢
    by_cases fits : col + (4 - col % 4) ≤ cols
    · rw [if_pos fits] at tracked
      cases tracked
      have moved := putBlanks_inside stands fits
      rw [stands.col]
      exact moved
    · rw [if_neg fits] at tracked
      cases tracked
  rw [if_neg isTab] at tracked ⊢
  by_cases inside : col < cols
  · rw [if_pos inside] at tracked
    cases tracked
    exact put_inside stands inside byte
  · rw [if_neg inside] at tracked
    cases tracked

theorem writeByte_leaves (starts : col ≤ cols) (under : row + 1 < rows) {byte : TextByte}
    (untracked : stepColumn cols (row == 0) col byte = none) :
    (console.writeByte byte).row ≠ row := by
  unfold stepColumn at untracked
  unfold Console.writeByte
  by_cases isNewline : byte = newline
  · rw [if_pos isNewline, (row_lineFeed stands under).row]
    exact Nat.succ_ne_self row
  rw [if_neg isNewline] at untracked ⊢
  by_cases isReturn : byte = carriageReturn
  · rw [if_pos isReturn] at untracked
    cases untracked
  rw [if_neg isReturn] at untracked ⊢
  by_cases isBackspace : byte = backspace
  · rw [if_pos isBackspace] at untracked ⊢
    obtain ⟨rfl, rfl, rfl, rfl⟩ := stands
    unfold Console.erase
    by_cases inside : 0 < console.col
    · rw [if_pos inside] at untracked
      cases untracked
    · rw [if_neg inside] at untracked ⊢
      by_cases top : (console.row == 0) = true
      · rw [if_pos top] at untracked
        cases untracked
      · have beneath : 0 < console.row := by
          apply Nat.pos_of_ne_zero
          intro isTop
          exact top (beq_iff_eq.mpr isTop)
        rw [if_pos beneath]
        change console.row - 1 ≠ console.row
        omega
  rw [if_neg isBackspace] at untracked ⊢
  by_cases isTab : byte = tabulator
  · rw [if_pos isTab] at untracked ⊢
    by_cases fits : col + (4 - col % 4) ≤ cols
    · rw [if_pos fits] at untracked
      cases untracked
    · have wrapped := putBlanks_wraps stands starts (Nat.lt_of_not_le fits) under
      rw [stands.col]
      omega
  rw [if_neg isTab] at untracked ⊢
  by_cases inside : col < cols
  · rw [if_pos inside] at untracked
    cases untracked
  · rw [put_wraps stands (Nat.le_of_not_lt inside) under byte]
    exact Nat.succ_ne_self row

end

theorem stepColumn_le {top : Bool} {byte : TextByte} {next : Nat} (starts : col ≤ cols)
    (tracked : stepColumn cols top col byte = some next) : next ≤ cols := by
  unfold stepColumn at tracked
  repeat' split at tracked
  all_goals cases tracked
  all_goals omega

theorem write_stays (stands : Stands console cols rows row col) {bytes : List TextByte} {next : Nat}
    (tracked : bytes.foldlM (stepColumn cols (row == 0)) col = some next) :
    Stands (console.write bytes) cols rows row next := by
  induction bytes generalizing console col with
  | nil =>
      cases tracked
      exact stands
  | cons byte rest ih =>
      rw [List.foldlM_cons] at tracked
      obtain ⟨middle, first, others⟩ := Option.bind_eq_some_iff.mp tracked
      exact ih (writeByte_stays stands first) others

theorem foldlM_stepColumn_le {top : Bool} {bytes : List TextByte} {next : Nat} (starts : col ≤ cols)
    (tracked : bytes.foldlM (stepColumn cols top) col = some next) : next ≤ cols := by
  induction bytes generalizing col with
  | nil =>
      cases tracked
      exact starts
  | cons byte rest ih =>
      rw [List.foldlM_cons] at tracked
      obtain ⟨middle, first, others⟩ := Option.bind_eq_some_iff.mp tracked
      exact ih (stepColumn_le starts first) others

theorem stays_iff_tracked (stands : Stands console cols rows row col) (starts : col ≤ cols)
    (under : row + 1 < rows) (bytes : List TextByte) :
    (∀ front, front <+: bytes → (console.write front).row = row) ↔
      (bytes.foldlM (stepColumn cols (row == 0)) col).isSome := by
  induction bytes generalizing console col with
  | nil =>
      refine ⟨fun _ => rfl, fun _ front isPrefix => ?_⟩
      obtain rfl := List.prefix_nil.mp isPrefix
      exact stands.row
  | cons byte rest ih =>
      rw [List.foldlM_cons]
      cases tracked : stepColumn cols (row == 0) col byte with
      | none =>
          constructor
          · intro stays
            exact absurd (stays [byte] ⟨rest, rfl⟩) (writeByte_leaves stands starts under tracked)
          · intro never
            cases never
      | some next =>
          have later := ih (writeByte_stays stands tracked) (stepColumn_le starts tracked)
          rw [Option.bind_eq_bind, Option.bind_some, ← later]
          constructor
          · intro stays front isPrefix
            exact stays (byte :: front) (List.cons_prefix_cons.mpr ⟨rfl, isPrefix⟩)
          · intro stays front isPrefix
            cases front with
            | nil => exact stands.row
            | cons head tail =>
                obtain ⟨rfl, inside⟩ := List.cons_prefix_cons.mp isPrefix
                exact stays tail inside

end Bytes

theorem write_append (console : Console) (early late : List TextByte) :
    console.write (early ++ late) = (console.write early).write late :=
  List.foldl_append

theorem line_starts {console : Console} {cols rows : Nat} (stands : Stands console cols rows 0 0)
    {lines : List Line} {count : Nat} (room : count < rows) (within : count ≤ lines.length)
    (stay : ∀ i line, i < count → lines[i]? = some line →
      (columnAfter cols (i == 0) (encode line)).isSome) :
    Stands (console.write (printedLines (lines.take count))) cols rows count 0 := by
  induction count with
  | zero => exact stands
  | succ count ih =>
      have before := ih (by omega) (by omega)
        (fun i line earlier found => stay i line (Nat.lt_succ_of_lt earlier) found)
      obtain ⟨line, found⟩ : ∃ line, lines[count]? = some line :=
        ⟨_, List.getElem?_eq_getElem within⟩
      obtain ⟨col, tracked⟩ := Option.isSome_iff_exists.mp
        (stay count line (Nat.lt_succ_self count) found)
      have printed := write_stays before tracked
      have pages : printedLines (lines.take (count + 1)) =
          printedLines (lines.take count) ++ (encode line ++ [newline]) := by
        rw [List.take_add_one, found, printedLines, List.flatMap_append]
        simp [printedLine, printedLines]
      rw [pages, write_append, write_append]
      exact row_lineFeed printed room

theorem fontScale_bounds (requested : UInt8) :
    0 < glyphSize (fontScale requested) ∧ glyphSize (fontScale requested) < 2 ^ 32 := by
  have least : 1 ≤ (max requested 1).toNat := by
    have cases : max requested 1 = if requested ≤ 1 then 1 else requested := rfl
    rw [cases]
    split
    · exact Nat.le_refl 1
    · rename_i above
      rw [UInt8.le_iff_toNat_le] at above
      exact Nat.le_of_not_le above
  have most : (max requested 1).toNat < 2 ^ 8 := UInt8.toNat_lt _
  unfold glyphSize fontScale
  omega

section Shown

variable {editor : Editor}

theorem clear_stands (editor : Editor) :
    Stands editor.console.clear editor.console.cols editor.console.rows 0 0 :=
  ⟨rfl, rfl, rfl, rfl⟩

theorem shownLines_length (editor : Editor) : editor.shownLines.length ≤ docRows editor.console := by
  unfold Editor.shownLines
  rw [List.length_take]
  exact Nat.min_le_left _ _

theorem visibleRow_spec (twoRows : 2 ≤ editor.console.rows) :
    editor.visibleRow < docRows editor.console ∧
      firstShown (docRows editor.console) editor.cursorRow editor.scrollOffset + editor.visibleRow =
        editor.cursorRow := by
  have positive : 0 < docRows editor.console := by
    unfold docRows
    omega
  obtain ⟨least, most⟩ := firstShown_spec positive editor.cursorRow editor.scrollOffset
  unfold Editor.visibleRow
  omega

theorem shown_cursor (twoRows : 2 ≤ editor.console.rows) (inside : editor.CursorInside) :
    ∃ line, editor.shownLines[editor.visibleRow]? = some line ∧
      editor.front = line.take editor.cursorCol := by
  obtain ⟨visible, row⟩ := visibleRow_spec twoRows
  obtain ⟨line, found⟩ : ∃ line, editor.lines[editor.cursorRow]? = some line :=
    ⟨_, List.getElem?_eq_getElem inside.row⟩
  refine ⟨line, ?_, ?_⟩
  · rw [Editor.shownLines, List.getElem?_take_of_lt visible, List.getElem?_drop, row, found]
  · rw [Editor.front, List.getD_eq_getElem?_getD, found]
    rfl

theorem lines_iff (usable : Usable editor.console) :
    (∀ i line, editor.shownLines[i]? = some line → ∀ front, front <+: encode line →
      ((editor.console.clear.write (printedLines (editor.shownLines.take i))).write front).row = i) ↔
      ∀ i line, editor.shownLines[i]? = some line →
        (columnAfter editor.console.cols (i == 0) (encode line)).isSome := by
  have rows := usable.rows
  have room : ∀ i line, editor.shownLines[i]? = some line →
      i ≤ editor.shownLines.length ∧ i + 1 < editor.console.rows := by
    intro i line found
    have bound := (List.getElem?_eq_some_iff.mp found).1
    have most := shownLines_length editor
    unfold docRows at most
    omega
  have one : ∀ i line, editor.shownLines[i]? = some line →
      (∀ j other, j < i → editor.shownLines[j]? = some other →
        (columnAfter editor.console.cols (j == 0) (encode other)).isSome) →
      ((∀ front, front <+: encode line →
        ((editor.console.clear.write (printedLines (editor.shownLines.take i))).write front).row = i) ↔
        (columnAfter editor.console.cols (i == 0) (encode line)).isSome) := by
    intro i line found before
    obtain ⟨within, under⟩ := room i line found
    have starts := line_starts (clear_stands editor) (Nat.lt_of_succ_lt under) within before
    exact stays_iff_tracked starts (Nat.zero_le _) under (encode line)
  constructor
  · intro stay i
    induction i using Nat.strong_induction_on with
    | _ i ih =>
        intro line found
        exact (one i line found (fun j other earlier at' => ih j earlier other at')).mp
          (stay i line found)
  · intro tracked i line found
    exact (one i line found (fun j other _ at' => tracked j other at')).mpr (tracked i line found)

theorem consoleAtCursor_stands (twoRows : 2 ≤ editor.console.rows) (inside : editor.CursorInside)
    (tracked : ∀ i line, editor.shownLines[i]? = some line →
      (columnAfter editor.console.cols (i == 0) (encode line)).isSome) :
    ∃ col, columnAfter editor.console.cols (editor.visibleRow == 0) (encode editor.front) = some col ∧
      col ≤ editor.console.cols ∧
      Stands editor.consoleAtCursor editor.console.cols editor.console.rows editor.visibleRow col := by
  obtain ⟨line, found, front⟩ := shown_cursor twoRows inside
  have whole := tracked _ line found
  have split : encode line = encode editor.front ++ encode (line.drop editor.cursorCol) := by
    rw [front, ← encode_append, List.take_append_drop]
  rw [columnAfter, split, List.foldlM_append] at whole
  obtain ⟨last, both⟩ := Option.isSome_iff_exists.mp whole
  obtain ⟨col, first, -⟩ := Option.bind_eq_some_iff.mp both
  have bound := (List.getElem?_eq_some_iff.mp found).1
  have most := (visibleRow_spec twoRows).1
  have within : editor.visibleRow < editor.console.rows := by
    unfold docRows at most
    omega
  have starts := line_starts (clear_stands editor) within (Nat.le_of_lt bound)
    (fun i other _ at' => tracked i other at')
  exact ⟨col, first, foldlM_stepColumn_le (Nat.zero_le _) first, write_stays starts first⟩

theorem overlay_cursor (twoRows : 2 ≤ editor.console.rows) (scale : Nat) :
    (editor.rendered scale).overlay.cursor =
      cellRect scale (editor.cursorCol, editor.visibleRow) := by
  have visible := (visibleRow_spec twoRows).1
  have row : min editor.visibleRow (docRows editor.console - 1) = editor.visibleRow := by omega
  have same : (editor.rendered scale).overlay.cursor =
      { cellRect scale (editor.cursorCol, editor.visibleRow) with
        y := asU32 (min editor.visibleRow (docRows editor.console - 1) * glyphSize scale) } := rfl
  rw [same, row]
  rfl

end Shown

theorem rows_apart {size : Nat} (positive : 0 < size) (small : size < 2 ^ 32) (row : Nat) :
    asU32 (row * size) ≠ asU32 ((row + 1) * size) := by
  unfold asU32
  rw [Nat.succ_mul]
  omega

/-- After every rendering the page is well drawn exactly if the text is legible: each line that is
shown stays in its row, and the cursor's column is the one the text before it ends in. -/
theorem wellDrawn_iff (requested : UInt8) {editor : Editor} (usable : Usable editor.console)
    (twoRows : 2 ≤ editor.console.rows) (inside : editor.CursorInside) :
    editorRender (fontScale requested) editor = .ok (editor.rendered (fontScale requested)) ∧
      (WellDrawn editor (fontScale requested) ↔ Legible editor (fontScale requested)) := by
  refine ⟨editorRender_eq usable _, ?_⟩
  obtain ⟨positive, small⟩ := fontScale_bounds requested
  have drawn := overlay_cursor twoRows (fontScale requested)
  have visible := (visibleRow_spec twoRows).1
  have stay := lines_iff usable
  constructor
  · rintro ⟨cursor, -, lines⟩
    have tracked := stay.mp lines
    obtain ⟨col, before, atMost, stands⟩ := consoleAtCursor_stands twoRows inside tracked
    refine ⟨tracked, col, before, ?_⟩
    rw [drawn, nextCell, stands.cols, stands.col] at cursor
    by_cases full : editor.console.cols ≤ col
    · have under : editor.visibleRow + 1 < editor.console.rows := by
        unfold docRows at visible
        omega
      have fed := row_lineFeed stands under
      rw [if_pos full, fed.row] at cursor
      exact absurd (congrArg Rect.y cursor) (rows_apart positive small _)
    · rw [if_neg full, stands.row] at cursor
      exact ⟨Nat.lt_of_not_le full, congrArg Rect.x cursor⟩
  · rintro ⟨tracked, col, before, inColumns, sameColumn⟩
    obtain ⟨col', before', -, stands⟩ := consoleAtCursor_stands twoRows inside tracked
    rw [before] at before'
    cases before'
    have cell : nextCell editor.consoleAtCursor = (col, editor.visibleRow) := by
      rw [nextCell, stands.cols, stands.col, if_neg (Nat.not_le_of_lt inColumns), stands.row]
    refine ⟨?_, ?_, stay.mpr tracked⟩
    · rw [drawn, cell, cellRect, cellRect, sameColumn]
    · rw [cell]
      exact visible

def shortLines : Editor :=
  { console := Console.new 20 5, overlay := blankOverlay, lines := [['a'], ['b', 'c']]
    cursorRow := 1, cursorCol := 2, scrollOffset := 0, status := [], path := [] }

theorem shortLines_legible : Legible shortLines (fontScale 1) := by
  constructor
  · intro i line found
    match i with
    | 0 =>
        cases found
        decide +kernel
    | 1 =>
        cases found
        decide +kernel
    | _ + 2 => cases found
  · exact ⟨2, by decide +kernel, by decide, by decide +kernel⟩

theorem shortLines_wellDrawn : WellDrawn shortLines (fontScale 1) := by
  have inside : shortLines.CursorInside := by
    refine ⟨by decide, by decide, ?_⟩
    intro line found
    cases found
    decide
  have page := wellDrawn_iff 1 ⟨by decide, by decide⟩ (by decide) inside
  exact page.2.mpr shortLines_legible

def longLine : Editor :=
  { console := Console.new 20 5, overlay := blankOverlay, lines := [List.replicate 21 'a', ['b']]
    cursorRow := 1, cursorCol := 0, scrollOffset := 0, status := [], path := [] }

/-- The long line takes two rows, so the next one is printed in the third, and the cursor is drawn over
the end of the long line. -/
theorem longLine_misdrawn :
    (nextCell longLine.consoleAtCursor = (0, 2) ∧
      (longLine.rendered 1).overlay.cursor = cellRect 1 (0, 1)) ∧ ¬ WellDrawn longLine 1 := by
  have printed : nextCell longLine.consoleAtCursor = (0, 2) := by decide +kernel
  have drawn : (longLine.rendered 1).overlay.cursor = cellRect 1 (0, 1) := by decide +kernel
  refine ⟨⟨printed, drawn⟩, ?_⟩
  intro wellDrawn
  have same := wellDrawn.cursor
  rw [printed, drawn] at same
  exact absurd (congrArg Rect.y same) (by decide)

end Notepad

end MachaOS
