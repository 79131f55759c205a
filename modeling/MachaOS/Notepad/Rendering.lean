/-
What the editor renders: on a console with at least one cell nothing panics, and the page, the scroll
offset and the overlay are functions of the document, the cursor and the console.
-/

import MachaOS.Notepad.Editor

namespace MachaOS

namespace Terminal

namespace Console

structure SameSize (console other : Console) : Prop where
  cols : other.cols = console.cols
  rows : other.rows = console.rows

namespace SameSize

variable {console other : Console}

theorem refl (console : Console) : SameSize console console := ⟨rfl, rfl⟩

theorem trans {last : Console} (first : SameSize console other) (second : SameSize other last) :
    SameSize console last :=
  ⟨second.cols.trans first.cols, second.rows.trans first.rows⟩

theorem clear (console : Console) : SameSize console console.clear := ⟨rfl, rfl⟩

theorem lineFeed (console : Console) : SameSize console console.lineFeed := by
  unfold Console.lineFeed
  dsimp only
  split
  · exact ⟨rfl, rfl⟩
  · exact ⟨rfl, rfl⟩

theorem advance (console : Console) (byte : TextByte) :
    SameSize console (console.advance byte) := ⟨rfl, rfl⟩

theorem put (console : Console) (byte : TextByte) : SameSize console (console.put byte) := by
  unfold Console.put
  split
  · exact (lineFeed console).trans (advance _ byte)
  · exact advance console byte

theorem putBlanks (console : Console) (count : Nat) :
    SameSize console (Nat.iterate (fun written => written.put blank) count console) := by
  induction count generalizing console with
  | zero => exact refl console
  | succ count ih => exact (put console blank).trans (ih _)

theorem erase (console : Console) : SameSize console console.erase := by
  unfold Console.erase
  split
  · exact ⟨rfl, rfl⟩
  · split
    · exact ⟨rfl, rfl⟩
    · exact refl console

theorem writeByte (console : Console) (byte : TextByte) :
    SameSize console (console.writeByte byte) := by
  unfold Console.writeByte
  split
  · exact lineFeed console
  split
  · exact ⟨rfl, rfl⟩
  split
  · exact erase console
  split
  · exact putBlanks console _
  · exact put console byte

theorem write (console : Console) (bytes : List TextByte) :
    SameSize console (console.write bytes) := by
  induction bytes generalizing console with
  | nil => exact refl console
  | cons byte rest ih => exact (writeByte console byte).trans (ih _)

end SameSize

end Console

end Terminal

namespace Notepad

open Keyboard Terminal
open Terminal.Console (SameSize)
open Shell (Line byteLength)

structure Usable (console : Console) : Prop where
  cols : 0 < console.cols
  rows : 0 < console.rows

theorem Usable.of_sameSize {console other : Console} (usable : Usable console)
    (same : SameSize console other) : Usable other := by
  constructor
  · rw [same.cols]
    exact usable.cols
  · rw [same.rows]
    exact usable.rows

section Printing

variable {console : Console} (usable : Usable console)

include usable

theorem lineFeed_ok : lineFeed console = .ok console.lineFeed := by
  unfold lineFeed
  rw [Checked.sub_ok usable.rows]
  split
  · rfl
  · rfl

theorem put_ok (byte : TextByte) : put console byte = .ok (console.put byte) := by
  unfold put
  rw [lineFeed_ok usable]
  split
  · rfl
  · rfl

theorem putBlanks_ok (count : Nat) :
    putBlanks count console =
      .ok (Nat.iterate (fun written => written.put blank) count console) := by
  induction count generalizing console with
  | zero => rfl
  | succ count ih =>
      rw [putBlanks, put_ok usable]
      exact ih (usable.of_sameSize (SameSize.put console blank))

theorem erase_ok : erase console = .ok console.erase := by
  unfold erase
  rw [Checked.sub_ok usable.cols]
  split
  · rfl
  · rfl

theorem writeByte_ok (byte : TextByte) : writeByte console byte = .ok (console.writeByte byte) := by
  unfold writeByte Console.writeByte
  rw [lineFeed_ok usable, erase_ok usable, putBlanks_ok usable, put_ok usable]
  split
  · rfl
  split
  · rfl
  split
  · rfl
  split
  · rfl
  · rfl

theorem writeBytes_ok (bytes : List TextByte) :
    bytes.foldlM writeByte console = .ok (console.write bytes) := by
  induction bytes generalizing console with
  | nil => rfl
  | cons byte rest ih =>
      rw [List.foldlM_cons, writeByte_ok usable]
      exact ih (usable.of_sameSize (SameSize.writeByte console byte))

end Printing

def printedLine (line : Line) : List TextByte :=
  encode line ++ [newline]

def printedLines (lines : List Line) : List TextByte :=
  lines.flatMap printedLine

theorem writeLines_ok {console : Console} (usable : Usable console) (lines : List Line) :
    lines.foldlM writeLine console = .ok (console.write (printedLines lines)) := by
  induction lines generalizing console with
  | nil => rfl
  | cons line rest ih =>
      have first : writeLine console line = .ok (console.write (printedLine line)) :=
        writeBytes_ok usable _
      have whole : console.write (printedLines (line :: rest)) =
          (console.write (printedLine line)).write (printedLines rest) := by
        simp only [printedLines, List.flatMap_cons, Console.write, List.foldl_append]
      rw [List.foldlM_cons, first, whole]
      exact ih (usable.of_sameSize (SameSize.write console _))

def firstShown (docRows cursorRow scrollOffset : Nat) : Nat :=
  if cursorRow < scrollOffset then cursorRow
  else if scrollOffset + docRows ≤ cursorRow then cursorRow + 1 - docRows
  else scrollOffset

theorem scrolled_ok (docRows cursorRow scrollOffset : Nat) :
    scrolled docRows cursorRow scrollOffset = .ok (firstShown docRows cursorRow scrollOffset) := by
  unfold scrolled firstShown
  split
  · rfl
  split
  · rename_i below
    exact Checked.sub_ok (by omega)
  · rfl

theorem firstShown_spec {docRows : Nat} (positive : 0 < docRows) (cursorRow scrollOffset : Nat) :
    firstShown docRows cursorRow scrollOffset ≤ cursorRow ∧
      cursorRow < firstShown docRows cursorRow scrollOffset + docRows := by
  unfold firstShown
  split
  · omega
  split
  · omega
  · omega

def Editor.shownLines (editor : Editor) : List Line :=
  (editor.lines.drop
    (firstShown (docRows editor.console) editor.cursorRow editor.scrollOffset)).take
    (docRows editor.console)

def Editor.rendered (editor : Editor) (scale : Nat) : Editor :=
  let scrollOffset := firstShown (docRows editor.console) editor.cursorRow editor.scrollOffset
  let console := editor.console.clear.write (printedLines editor.shownLines)
  { editor with
    console
    scrollOffset
    overlay :=
      { statusBar := statusRect scale console
        status := editor.status
        cursor := cursorRect scale (docRows editor.console) editor.cursorRow editor.cursorCol
          scrollOffset } }

theorem editorRender_eq {editor : Editor} (usable : Usable editor.console) (scale : Nat) :
    editorRender scale editor = .ok (editor.rendered scale) := by
  have cleared := usable.of_sameSize (SameSize.clear editor.console)
  rw [editorRender, scrolled_ok, Except.ok_bind, writeLines_ok cleared]
  rfl

theorem sameSize_rendered (editor : Editor) (scale : Nat) :
    SameSize editor.console (editor.rendered scale).console :=
  (SameSize.clear editor.console).trans (SameSize.write _ _)

end Notepad

end MachaOS
