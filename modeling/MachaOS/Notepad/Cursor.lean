/-
The cursor stays inside the document, and no key panics, as long as `Ctrl+O` reads a text that is not
empty.  An empty file, or one that is not UTF-8, leaves the document without a line; a file opened in
a new window gets an empty line there.
-/

import MachaOS.Lib.Runs
import MachaOS.Notepad.Keys

namespace MachaOS

namespace Notepad

open List
open Keyboard Terminal
open Shell (Line)

structure Size where
  cols : Nat
  rows : Nat
  someCols : 0 < cols
  someRows : 0 < rows

inductive Input (Disk : Type) where
  | key (event : Event) (disk : Disk)
  | resize (size : Size)

structure Opening where
  size : Size
  file : Option (Line × List TextByte)

def Opening.editor (opening : Opening) (scale : Nat) : Checked Editor :=
  match opening.file with
  | none => openNotepad scale opening.size.cols opening.size.rows
  | some (path, content) =>
      openNotepadWith scale opening.size.cols opening.size.rows path content

variable {Disk : Type} (files : Files Disk) (scale : Nat)

def next (editor : Editor) : Input Disk → Option Editor
  | .key event disk => ((handleKey files scale event editor disk).map Prod.fst).toOption
  | .resize size => (resize scale size.cols size.rows editor).toOption

structure Editor.CursorInside (editor : Editor) : Prop where
  someLine : editor.lines ≠ []
  row : editor.cursorRow < editor.lines.length
  col : ∀ line, editor.lines[editor.cursorRow]? = some line → editor.cursorCol ≤ line.length

def FindsText (editor : Editor) : Input Disk → Prop
  | .key event disk =>
      event = .ctrl 'o' → ∀ bytes, files.readFile editor.savePath disk = .ok bytes →
        decode bytes ≠ []
  | .resize _ => True

theorem cursorInside_placed (editor : Editor) (spot : Spot Char) :
    (editor.placed spot).CursorInside := by
  constructor
  · exact append_ne_nil_of_right_ne_nil _ (cons_ne_nil _ _)
  · simp [Editor.placed, Spot.lines]
  · intro line found
    have same := Checked.index_ok found
    rw [Editor.placed, index_lines] at same
    cases same
    simp [Editor.placed, Spot.line]

theorem Editor.CursorInside.placed {editor : Editor} (inside : editor.CursorInside) :
    ∃ spot, editor = editor.placed spot := by
  obtain ⟨line, found⟩ : ∃ line, editor.lines[editor.cursorRow]? = some line :=
    ⟨_, List.getElem?_eq_getElem inside.row⟩
  have column := inside.col line found
  have whole : editor.lines.take editor.cursorRow ++
      line :: editor.lines.drop (editor.cursorRow + 1) = editor.lines := by
    obtain ⟨bound, same⟩ := List.getElem?_eq_some_iff.mp found
    rw [← same, ← drop_eq_getElem_cons bound, take_append_drop]
  have row : (editor.lines.take editor.cursorRow).reverse.length = editor.cursorRow := by
    rw [length_reverse, length_take]
    exact Nat.min_eq_left (Nat.le_of_lt inside.row)
  have col : (line.take editor.cursorCol).reverse.length = editor.cursorCol := by
    rw [length_reverse, length_take]
    exact Nat.min_eq_left column
  refine ⟨⟨(editor.lines.take editor.cursorRow).reverse, (line.take editor.cursorCol).reverse,
    line.drop editor.cursorCol, editor.lines.drop (editor.cursorRow + 1)⟩, ?_⟩
  simp only [Editor.placed, Spot.lines, Spot.line, reverse_reverse, take_append_drop, whole,
    row, col]

theorem linesOf_ne_nil {text : Line} (someText : text ≠ []) : linesOf text ≠ [] := by
  intro noLine
  apply someText
  have joined := @intercalate_splitOn _ text _ _ '\n'
  unfold linesOf at noLine
  dsimp only at noLine
  split at noLine
  · rename_i emptyLast
    cases pieces : text.splitOn '\n' with
    | nil =>
        rw [pieces] at emptyLast
        cases emptyLast
    | cons piece rest =>
        cases rest with
        | nil =>
            rw [pieces] at emptyLast joined
            cases emptyLast
            exact joined.symm
        | cons other rest =>
            rw [pieces] at noLine
            cases noLine
  · rw [noLine] at joined
    exact joined.symm

theorem linesOf_nil : linesOf [] = [] := rfl

structure Editor.Sound (editor : Editor) : Prop where
  console : Usable editor.console
  cursor : editor.CursorInside

theorem Editor.Sound.rendered {editor : Editor} (sound : editor.Sound) (scale : Nat) :
    (editor.rendered scale).Sound := by
  constructor
  · exact sound.console.of_sameSize (sameSize_rendered editor scale)
  · exact ⟨sound.cursor.someLine, sound.cursor.row, sound.cursor.col⟩

theorem start_sound (size : Size) (lines : List Line) (status path : Line) (someLine : lines ≠ []) :
    ∃ editor, start scale size.cols size.rows lines status path = .ok editor ∧ editor.Sound ∧
      editor.lines = lines := by
  let blank : Editor :=
    { console := Console.new size.cols size.rows, overlay := blankOverlay, lines, cursorRow := 0
      cursorCol := 0, scrollOffset := 0, status, path }
  have sound : blank.Sound :=
    ⟨⟨size.someCols, size.someRows⟩,
      ⟨someLine, length_pos_of_ne_nil someLine, fun line _ => Nat.zero_le _⟩⟩
  exact ⟨blank.rendered scale, editorRender_eq sound.console scale, sound.rendered scale, rfl⟩

theorem openedLines_ne_nil (content : List TextByte) : openedLines content ≠ [] := by
  unfold openedLines
  dsimp only
  split
  · exact cons_ne_nil _ _
  · assumption

theorem Opening.sound (opening : Opening) :
    ∃ editor, opening.editor scale = .ok editor ∧ editor.Sound := by
  unfold Opening.editor
  cases opening.file with
  | none =>
      obtain ⟨editor, opened, sound, -⟩ :=
        start_sound scale opening.size [[]] [] [] (cons_ne_nil _ _)
      exact ⟨editor, opened, sound⟩
  | some file =>
      obtain ⟨editor, opened, sound, -⟩ :=
        start_sound scale opening.size (openedLines file.2) (openedStatus file.1 file.2) file.1
          (openedLines_ne_nil file.2)
      exact ⟨editor, opened, sound⟩

variable {scale}

theorem press_sound {editor : Editor} (sound : editor.Sound) {event : Event} {disk : Disk}
    (findsText : FindsText files editor (.key event disk)) :
    ∃ pressed later, press files event editor disk = .ok (pressed, later) ∧ pressed.Sound := by
  by_cases plain : ∀ c, event ≠ .ctrl c
  · obtain ⟨spot, placed⟩ := sound.cursor.placed
    refine ⟨editor.placed (typed event spot), disk, ?_, ?_⟩
    · conv =>
        lhs
        rw [placed]
      exact press_placed files plain editor spot disk
    · exact ⟨sound.console, cursorInside_placed editor _⟩
  push Not at plain
  obtain ⟨c, rfl⟩ := plain
  by_cases saves : c = 's'
  · subst saves
    refine ⟨(save files editor disk).1, (save files editor disk).2, rfl, ?_⟩
    unfold save
    dsimp only
    split
    · exact ⟨sound.console, ⟨sound.cursor.someLine, sound.cursor.row, sound.cursor.col⟩⟩
    · exact ⟨sound.console, ⟨sound.cursor.someLine, sound.cursor.row, sound.cursor.col⟩⟩
  by_cases opens : c = 'o'
  · subst opens
    refine ⟨reload files editor disk, disk, rfl, ?_⟩
    unfold reload
    split
    · rename_i bytes found
      have someLine := linesOf_ne_nil (findsText rfl bytes found)
      exact ⟨sound.console, ⟨someLine, length_pos_of_ne_nil someLine, fun line _ => Nat.zero_le _⟩⟩
    · exact ⟨sound.console, ⟨sound.cursor.someLine, sound.cursor.row, sound.cursor.col⟩⟩
  · refine ⟨editor, disk, ?_, sound⟩
    unfold press
    split
    · rename_i same
      exact absurd (Event.ctrl.inj same) saves
    · rename_i same
      exact absurd (Event.ctrl.inj same) opens
    · rfl
    all_goals contradiction

theorem next_sound {editor : Editor} (sound : editor.Sound) {input : Input Disk}
    (findsText : FindsText files editor input) :
    ∃ last, next files scale editor input = some last ∧ last.Sound := by
  cases input with
  | key event disk =>
      obtain ⟨pressed, later, done, kept⟩ := press_sound files sound findsText
      refine ⟨pressed.rendered scale, ?_, kept.rendered scale⟩
      rw [next, handleKey_eq done kept.console]
      rfl
  | resize size =>
      have resized : Editor.Sound { editor with console := editor.console.resize size.cols size.rows } :=
        ⟨⟨size.someCols, size.someRows⟩,
          ⟨sound.cursor.someLine, sound.cursor.row, sound.cursor.col⟩⟩
      refine ⟨_, ?_, resized.rendered scale⟩
      rw [next, resize, editorRender_eq resized.console]
      rfl

theorem next_spoils {editor : Editor} (sound : editor.Sound) {input : Input Disk} {last : Editor}
    (noText : ¬ FindsText files editor input) (stepped : next files scale editor input = some last) :
    ¬ last.CursorInside := by
  cases input with
  | resize size => exact absurd trivial noText
  | key event disk =>
      unfold FindsText at noText
      push Not at noText
      obtain ⟨rfl, bytes, found, empty⟩ := noText
      have noLine : (reload files editor disk).lines = [] := by
        rw [reload, found]
        dsimp only
        rw [empty, linesOf_nil]
      have console : (reload files editor disk).console = editor.console := by
        rw [reload, found]
      have usable : Usable (reload files editor disk).console := by
        rw [console]
        exact sound.console
      have pressed : press files (.ctrl 'o') editor disk = .ok (reload files editor disk, disk) := rfl
      rw [next, handleKey_eq pressed usable] at stepped
      cases stepped
      exact fun inside => inside.someLine noLine

/-- From a new notepad, the cursor is inside the document after every part of a run, and nothing in
it panics, exactly if every file that is opened over the document is a text that is not empty. -/
theorem cursor_inside_iff (opening : Opening) (inputs : List (Input Disk)) :
    ∃ editor, opening.editor scale = .ok editor ∧
      ((∀ front, front <+: inputs → ∃ last,
          Runs.after (next files scale) editor front = some last ∧ last.CursorInside) ↔
        Runs.Meets (next files scale) (FindsText files) editor inputs) := by
  obtain ⟨editor, opened, sound⟩ := opening.sound scale
  refine ⟨editor, opened, ?_⟩
  exact Runs.ends_well_iff_meets
    (fun _ _ sound findsText => next_sound files sound findsText)
    (fun _ sound => sound.cursor)
    (fun _ _ _ sound noText stepped => next_spoils files sound noText stepped)
    sound inputs

/-- `Ctrl+O` on an empty file leaves no line, and the next letter panics. -/
theorem empty_file_leaves_no_line :
    let files : Files Unit :=
      { writeFile := fun _ _ disk => (.ok (), disk), readFile := fun _ _ => .ok [] }
    ∃ editor last, openNotepad 1 20 5 = .ok editor ∧
      next files 1 editor (.key (.ctrl 'o') ()) = some last ∧ ¬ last.CursorInside ∧
        next files 1 last (.key (.char 'a') ()) = none := by
  intro files
  refine ⟨_, _, rfl, rfl, ?_, ?_⟩
  · intro inside
    exact inside.someLine (by decide +kernel)
  · decide +kernel

end Notepad

end MachaOS
