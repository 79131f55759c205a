/-
What each key does to the document and the cursor: the editor that shows a `Spot` shows, after a key,
the spot moved or edited the same way.
-/

import MachaOS.Lib.TextBuffer
import MachaOS.Notepad.Rendering

namespace MachaOS

namespace Notepad

open List Except
open Keyboard Terminal
open Shell (Line byteLength)

theorem cutAt_start (line : Line) : cutAt line 0 = .ok ([], line) := by
  cases line with
  | nil => rfl
  | cons c rest => rfl

theorem cutAt_byteLength (front back : Line) :
    cutAt (front ++ back) (byteLength front) = .ok (front, back) := by
  induction front with
  | nil => exact cutAt_start back
  | cons c rest ih =>
      have positive : 0 < c.utf8Size := c.utf8Size_pos
      have size : byteLength (c :: rest) = byteLength rest + (c.utf8Size - 1) + 1 := by
        simp only [byteLength, map_cons, sum_cons]
        omega
      have inside : c.utf8Size ≤ byteLength rest + (c.utf8Size - 1) + 1 := by omega
      have left : byteLength rest + (c.utf8Size - 1) + 1 - c.utf8Size = byteLength rest := by omega
      rw [size, cons_append, cutAt, if_pos inside, left, ih]
      rfl

theorem byteIndex_front (front back : Line) :
    byteIndex (front ++ back) front.length = byteLength front := by
  rw [byteIndex, take_left]

theorem insertAt_front (front back text : Line) :
    insertAt (front ++ back) (byteIndex (front ++ back) front.length) text =
      .ok (front ++ text ++ back) := by
  rw [insertAt, byteIndex_front, cutAt_byteLength]
  rfl

theorem removeAt_front (front back : Line) (c : Char) :
    removeAt (front ++ c :: back) (byteIndex (front ++ c :: back) front.length) =
      .ok (front ++ back) := by
  rw [removeAt, byteIndex_front, cutAt_byteLength]
  rfl

theorem index_placed (above : List Line) (line : Line) (below : List Line) :
    Checked.index (above.reverse ++ line :: below) above.length = .ok line := by
  apply Checked.index_ok
  rw [← length_reverse, List.getElem?_append_right (Nat.le_refl _), Nat.sub_self,
    List.getElem?_cons_zero]

theorem set_placed (above : List Line) (line other : Line) (below : List Line) :
    (above.reverse ++ line :: below).set above.length other = above.reverse ++ other :: below := by
  rw [← length_reverse, set_append_right _ _ (Nat.le_refl _), Nat.sub_self, set_cons_zero]

theorem eraseIdx_placed (above : List Line) (line : Line) (below : List Line) :
    (above.reverse ++ line :: below).eraseIdx above.length = above.reverse ++ below := by
  rw [← length_reverse, eraseIdx_append_of_length_le (Nat.le_refl _), Nat.sub_self,
    eraseIdx_cons_zero]

theorem insertIdx_placed (above : List Line) (line other : Line) (below : List Line) :
    (above.reverse ++ line :: below).insertIdx (above.length + 1) other =
      above.reverse ++ line :: other :: below := by
  rw [← length_reverse]
  induction above.reverse with
  | nil => rfl
  | cons first rest ih =>
      rw [cons_append, length_cons, insertIdx_succ_cons, ih]
      rfl

theorem document_cons (line : Line) (above lines : List Line) :
    (line :: above).reverse ++ lines = above.reverse ++ line :: lines := by
  rw [reverse_cons, ← append_cons]

theorem line_cons (c : Char) (front back : Line) :
    (c :: front).reverse ++ back = front.reverse ++ c :: back := by
  rw [reverse_cons, ← append_cons]

def Editor.placed (editor : Editor) (spot : Spot Char) : Editor :=
  { editor with
    lines := spot.lines
    cursorRow := spot.above.length
    cursorCol := spot.front.length }

section Keys

variable (editor : Editor) (spot : Spot Char)

theorem index_lines : Checked.index spot.lines spot.above.length = .ok spot.line :=
  index_placed spot.above spot.line spot.below

theorem set_lines (other : Line) :
    spot.lines.set spot.above.length other = spot.above.reverse ++ other :: spot.below :=
  set_placed spot.above spot.line other spot.below

theorem cutAt_line :
    cutAt spot.line (byteLength spot.front.reverse) = .ok (spot.front.reverse, spot.back) :=
  cutAt_byteLength _ _

theorem byteIndex_line :
    byteIndex spot.line spot.front.length = byteLength spot.front.reverse := by
  rw [← length_reverse]
  exact byteIndex_front _ _

theorem typeText_placed (text : Line) :
    typeText (editor.placed spot) text = .ok (editor.placed (spot.insert text)) := by
  have line : spot.front.reverse ++ text ++ spot.back = (spot.insert text).line := by
    simp [Spot.insert, Spot.line]
  have column : (spot.insert text).front.length = spot.front.length + text.length := by
    simp [Spot.insert, Nat.add_comm]
  have edited : insertAt spot.line (byteIndex spot.line spot.front.length) text =
      .ok (spot.insert text).line := by
    rw [← line, ← length_reverse]
    exact insertAt_front spot.front.reverse spot.back text
  simp only [typeText, Editor.placed, index_lines, edited, set_lines, ok_bind, column]
  rfl

theorem eraseBack_placed :
    eraseBack (editor.placed spot) = .ok (editor.placed spot.backspace) := by
  match spot with
  | ⟨above, c :: front, back, below⟩ =>
      have edited := removeAt_front front.reverse back c
      rw [length_reverse] at edited
      simp only [eraseBack, Editor.placed, Spot.lines, Spot.line, line_cons, length_cons,
        Nat.succ_pos, if_true, index_placed, Nat.add_sub_cancel, edited, set_placed, ok_bind]
      rfl
  | ⟨line :: above, [], back, below⟩ =>
      have current := index_placed (line :: above) back below
      have removed := eraseIdx_placed (line :: above) back below
      have before := index_placed above line below
      have joined := set_placed above line (line ++ back) below
      rw [length_cons] at current removed
      rw [document_cons] at current
      rw [document_cons, document_cons] at removed
      simp only [eraseBack, Editor.placed, Spot.lines, Spot.line, length_nil, Nat.lt_irrefl,
        if_false, length_cons, Nat.succ_pos, if_true, reverse_nil, nil_append,
        document_cons, current, removed, Nat.add_sub_cancel, before, joined, ok_bind,
        Spot.backspace, reverse_reverse, length_reverse]
      rfl
  | ⟨[], [], back, below⟩ => rfl

theorem breakLine_placed :
    breakLine (editor.placed spot) = .ok (editor.placed spot.split) := by
  have inserted := insertIdx_placed spot.above spot.front.reverse spot.back spot.below
  have lines : spot.split.lines =
      spot.above.reverse ++ spot.front.reverse :: spot.back :: spot.below :=
    document_cons _ _ _
  simp only [breakLine, Editor.placed, index_lines, byteIndex_line, cutAt_line, set_lines, inserted,
    ok_bind, lines]
  rfl

theorem moveLeft_placed :
    moveLeft (editor.placed spot) = .ok (editor.placed spot.left) := by
  match spot with
  | ⟨above, c :: front, back, below⟩ =>
      simp only [moveLeft, Editor.placed, Spot.lines, Spot.line, line_cons, length_cons,
        Nat.succ_pos, if_true, Nat.add_sub_cancel]
      rfl
  | ⟨line :: above, [], back, below⟩ =>
      have before := index_placed above line (back :: below)
      simp only [moveLeft, Editor.placed, Spot.lines, Spot.line, length_nil, Nat.lt_irrefl,
        if_false, length_cons, Nat.succ_pos, if_true, reverse_nil, nil_append,
        document_cons, Nat.add_sub_cancel, before, ok_bind, Spot.left, reverse_reverse,
        append_nil, length_reverse]
      rfl
  | ⟨[], [], back, below⟩ => rfl

theorem moveRight_placed :
    moveRight (editor.placed spot) = .ok (editor.placed spot.right) := by
  match spot with
  | ⟨above, front, c :: back, below⟩ =>
      have inside : front.length < (front.reverse ++ c :: back).length := by simp
      simp only [moveRight, Editor.placed, Spot.lines, Spot.line, index_placed, ok_bind,
        inside, if_true, Spot.right, line_cons, length_cons]
      rfl
  | ⟨above, front, [], line :: below⟩ =>
      have column : front.length = front.reverse.length := length_reverse.symm
      have more : above.length + 1 < (above.reverse ++ front.reverse :: line :: below).length := by
        simp
      simp only [moveRight, Editor.placed, Spot.lines, Spot.line, append_nil, index_placed,
        ok_bind, column, Nat.lt_irrefl, if_false, more, if_true, Spot.right, document_cons,
        reverse_nil, nil_append, length_cons, length_nil]
      rfl
  | ⟨above, front, [], []⟩ =>
      have column : front.length = front.reverse.length := length_reverse.symm
      have last : ¬ above.length + 1 < (above.reverse ++ [front.reverse]).length := by simp
      simp only [moveRight, Editor.placed, Spot.lines, Spot.line, append_nil, index_placed,
        ok_bind, column, Nat.lt_irrefl, if_false, last, Spot.right]
      rfl

theorem moveTo_placed (above : List Line) (line : Line) (row column : Nat) (below : List Line) :
    moveTo { editor with
        lines := above.reverse ++ line :: below, cursorRow := row, cursorCol := column }
      above.length = .ok (editor.placed (Spot.within above line column below)) := by
  have lines := Spot.lines_within above line column below
  have columnAt : (Spot.within above line column below).front.length = min column line.length := by
    simp [Spot.within]
  simp only [moveTo, Editor.placed, index_placed, ok_bind, lines, columnAt]
  rfl

theorem moveUp_placed : moveUp (editor.placed spot) = .ok (editor.placed spot.up) := by
  match spot with
  | ⟨line :: above, front, back, below⟩ =>
      have moved := moveTo_placed editor above line (above.length + 1) front.length
        ((front.reverse ++ back) :: below)
      simp only [moveUp, Editor.placed, Spot.lines, Spot.line, length_cons, Nat.succ_pos,
        if_true, Nat.add_sub_cancel, document_cons]
      exact moved
  | ⟨[], front, back, below⟩ => rfl

theorem moveDown_placed : moveDown (editor.placed spot) = .ok (editor.placed spot.down) := by
  match spot with
  | ⟨above, front, back, line :: below⟩ =>
      have more : above.length + 1 <
          (above.reverse ++ (front.reverse ++ back) :: line :: below).length := by simp
      have moved := moveTo_placed editor ((front.reverse ++ back) :: above) line above.length
        front.length below
      rw [document_cons] at moved
      simp only [moveDown, Editor.placed, Spot.lines, Spot.line, more, if_true]
      exact moved
  | ⟨above, front, back, []⟩ =>
      have last : ¬ above.length + 1 < (above.reverse ++ [front.reverse ++ back]).length := by simp
      simp only [moveDown, Editor.placed, Spot.lines, Spot.line, last, if_false]
      rfl

end Keys

def typed (event : Event) (spot : Spot Char) : Spot Char :=
  match event with
  | .char c => spot.insert [c]
  | .backspace => spot.backspace
  | .enter => spot.split
  | .tab => spot.insert "    ".toList
  | .left => spot.left
  | .right => spot.right
  | .up => spot.up
  | .down => spot.down
  | .escape | .f2 | .ctrl _ => spot

theorem press_placed {Disk : Type} (files : Files Disk) {event : Event}
    (plain : ∀ c, event ≠ .ctrl c) (editor : Editor) (spot : Spot Char) (disk : Disk) :
    press files event (editor.placed spot) disk = .ok (editor.placed (typed event spot), disk) := by
  cases event with
  | char c =>
      rw [press, typeText_placed]
      rfl
  | ctrl c => exact absurd rfl (plain c)
  | backspace =>
      rw [press, eraseBack_placed]
      rfl
  | enter =>
      rw [press, breakLine_placed]
      rfl
  | tab =>
      rw [press, typeText_placed]
      rfl
  | left =>
      rw [press, moveLeft_placed]
      rfl
  | right =>
      rw [press, moveRight_placed]
      rfl
  | up =>
      rw [press, moveUp_placed]
      rfl
  | down =>
      rw [press, moveDown_placed]
      rfl
  | escape => rfl
  | f2 => rfl

theorem handleKey_eq {Disk : Type} {files : Files Disk} {event : Event} {editor pressed : Editor}
    {disk later : Disk} (done : press files event editor disk = .ok (pressed, later))
    (usable : Usable pressed.console) (scale : Nat) :
    handleKey files scale event editor disk = .ok (pressed.rendered scale, later) := by
  rw [handleKey, done, ok_bind]
  dsimp only
  rw [editorRender_eq usable]
  rfl

end Notepad

end MachaOS
