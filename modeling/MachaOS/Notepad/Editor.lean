/-
The notepad: `editor_handle_key`, `editor_render` and `open_notepad_with` (`src/wm.rs`).

A line is a list of characters; where the source goes through byte indices, so does the model, and an
index beyond a list or inside a character is a panic.  The file system is a parameter.  What is
drawn over the printed text, the status bar and the cursor, is kept beside the console: `clear`
removes it before anything is printed again.
-/

import MachaOS.Lib.Checked
import MachaOS.Terminal.Console
import MachaOS.Terminal.LineEditor

namespace MachaOS

namespace Notepad

open Keyboard Terminal
open Shell (Line byteLength)

def encode (text : Line) : List TextByte :=
  (String.ofList text).toUTF8.data.toList.map UInt8.toBitVec

theorem encode_append (front back : Line) : encode (front ++ back) = encode front ++ encode back := by
  simp [encode]

/-- `core::str::from_utf8(bytes).unwrap_or("")` -/
def decode (bytes : List TextByte) : Line :=
  match String.fromUTF8? ⟨(bytes.map UInt8.ofBitVec).toArray⟩ with
  | some text => text.toList
  | none => []

/-- `line.char_indices().nth(i)`, as the byte the character starts at, or the length in bytes. -/
def byteIndex (line : Line) (charIndex : Nat) : Nat :=
  byteLength (line.take charIndex)

def cutAt : Line → Nat → Checked (Line × Line)
  | line, 0 => .ok ([], line)
  | [], _ + 1 => .error .outOfRange
  | c :: rest, byte + 1 =>
      if c.utf8Size ≤ byte + 1 then do
        let (front, back) ← cutAt rest (byte + 1 - c.utf8Size)
        pure (c :: front, back)
      else .error .outOfRange

/-- `String::insert_str`; `String::insert` for one character. -/
def insertAt (line : Line) (byte : Nat) (text : Line) : Checked Line := do
  let (front, back) ← cutAt line byte
  pure (front ++ text ++ back)

def removeAt (line : Line) (byte : Nat) : Checked Line := do
  let (front, back) ← cutAt line byte
  match back with
  | [] => .error .outOfRange
  | _ :: rest => pure (front ++ rest)

/-- A rectangle of pixels, as it is given to `gfx::fill_rect`. -/
structure Rect where
  x : Nat
  y : Nat
  w : Nat
  h : Nat
deriving DecidableEq, Repr

def Rect.Contains (rect : Rect) (x y : Int) : Prop :=
  rect.x ≤ x ∧ x < (rect.x + rect.w : Nat) ∧ rect.y ≤ y ∧ y < (rect.y + rect.h : Nat)

instance (rect : Rect) (x y : Int) : Decidable (rect.Contains x y) :=
  inferInstanceAs (Decidable (_ ∧ _ ∧ _ ∧ _))

structure Overlay where
  statusBar : Rect
  status : Line
  cursor : Rect
deriving DecidableEq, Repr

structure Editor where
  console : Console
  overlay : Overlay
  lines : List Line
  cursorRow : Nat
  cursorCol : Nat
  scrollOffset : Nat
  status : Line
  path : Line
deriving DecidableEq, Repr

structure Files (Disk : Type) where
  writeFile : Line → List TextByte → Disk → Except Line Unit × Disk
  readFile : Line → Disk → Except Line (List TextByte)

def notepadPath : Line := "/users/macha/Documents/notepad.txt".toList

def glyphSize (scale : Nat) : Nat := 8 * scale

/-- `as u32` -/
def asU32 (value : Nat) : Nat := value % 2 ^ 32

def lineFeed (console : Console) : Checked Console := do
  if console.rows ≤ console.row + 1 then
    let _ ← Checked.sub console.rows 1
  pure console.lineFeed

def put (console : Console) (byte : TextByte) : Checked Console := do
  if console.cols ≤ console.col then
    let _ ← lineFeed console
  pure (console.put byte)

def putBlanks : Nat → Console → Checked Console
  | 0, console => pure console
  | count + 1, console => do
      let console ← put console blank
      putBlanks count console

def erase (console : Console) : Checked Console := do
  if console.col = 0 ∧ 0 < console.row then
    let _ ← Checked.sub console.cols 1
  pure console.erase

/-- `Console::write_byte`, with the subtractions that can underflow. -/
def writeByte (console : Console) (byte : TextByte) : Checked Console :=
  if byte = newline then lineFeed console
  else if byte = carriageReturn then pure { console with col := 0 }
  else if byte = backspace then erase console
  else if byte = tabulator then putBlanks (4 - console.col % 4) console
  else put console byte

def writeLine (console : Console) (line : Line) : Checked Console :=
  (encode line ++ [newline]).foldlM writeByte console

def docRows (console : Console) : Nat := console.rows - 1

def scrolled (docRows cursorRow scrollOffset : Nat) : Checked Nat :=
  if cursorRow < scrollOffset then .ok cursorRow
  else if scrollOffset + docRows ≤ cursorRow then Checked.sub (cursorRow + 1) docRows
  else .ok scrollOffset

def cursorRect (scale docRows cursorRow cursorCol scrollOffset : Nat) : Rect :=
  let visible := min (cursorRow - scrollOffset) (docRows - 1)
  { x := asU32 (cursorCol * glyphSize scale)
    y := asU32 (visible * glyphSize scale)
    w := asU32 (glyphSize scale)
    h := asU32 (glyphSize scale) }

def statusRect (scale : Nat) (console : Console) : Rect :=
  { x := 0
    y := asU32 (docRows console * glyphSize scale)
    w := asU32 (console.cols * glyphSize scale)
    h := asU32 (glyphSize scale) }

def editorRender (scale : Nat) (editor : Editor) : Checked Editor := do
  let rows := docRows editor.console
  let scrollOffset ← scrolled rows editor.cursorRow editor.scrollOffset
  let console ← ((editor.lines.drop scrollOffset).take rows).foldlM writeLine editor.console.clear
  pure { editor with
    console
    scrollOffset
    overlay :=
      { statusBar := statusRect scale console
        status := editor.status
        cursor := cursorRect scale rows editor.cursorRow editor.cursorCol scrollOffset } }

def resize (scale cols rows : Nat) (editor : Editor) : Checked Editor :=
  editorRender scale { editor with console := editor.console.resize cols rows }

def Editor.savePath (editor : Editor) : Line :=
  if editor.path = [] then notepadPath else editor.path

def savedText (lines : List Line) : Line :=
  let text := ['\n'].intercalate lines
  if text = [] then text else text ++ ['\n']

def save {Disk : Type} (files : Files Disk) (editor : Editor) (disk : Disk) : Editor × Disk :=
  let text := savedText editor.lines
  match files.writeFile editor.savePath (encode text) disk with
  | (.ok (), disk) =>
      ({ editor with status := "saved ".toList ++ Nat.toDigits 10 (byteLength text) ++
          " bytes to ".toList ++ editor.savePath }, disk)
  | (.error message, disk) =>
      ({ editor with status := "save failed: ".toList ++ message }, disk)

def linesOf (text : Line) : List Line :=
  let pieces := text.splitOn '\n'
  if pieces.getLast? = some [] then pieces.dropLast else pieces

def openedStatus (path : Line) (bytes : List TextByte) : Line :=
  "opened ".toList ++ path ++ " (".toList ++ Nat.toDigits 10 bytes.length ++ " bytes)".toList

def reload {Disk : Type} (files : Files Disk) (editor : Editor) (disk : Disk) : Editor :=
  match files.readFile editor.savePath disk with
  | .ok bytes =>
      { editor with
        lines := linesOf (decode bytes)
        cursorRow := 0
        cursorCol := 0
        status := openedStatus editor.savePath bytes }
  | .error message => { editor with status := "open failed: ".toList ++ message }

/-- `lines[cursor_row]` with some text inserted at the cursor. -/
def typeText (editor : Editor) (text : Line) : Checked Editor := do
  let line ← Checked.index editor.lines editor.cursorRow
  let line ← insertAt line (byteIndex line editor.cursorCol) text
  pure { editor with
    lines := editor.lines.set editor.cursorRow line
    cursorCol := editor.cursorCol + text.length }

def eraseBack (editor : Editor) : Checked Editor :=
  if 0 < editor.cursorCol then do
    let line ← Checked.index editor.lines editor.cursorRow
    let line ← removeAt line (byteIndex line (editor.cursorCol - 1))
    pure { editor with
      lines := editor.lines.set editor.cursorRow line
      cursorCol := editor.cursorCol - 1 }
  else if 0 < editor.cursorRow then do
    let current ← Checked.index editor.lines editor.cursorRow
    let lines := editor.lines.eraseIdx editor.cursorRow
    let before ← Checked.index lines (editor.cursorRow - 1)
    pure { editor with
      lines := lines.set (editor.cursorRow - 1) (before ++ current)
      cursorRow := editor.cursorRow - 1
      cursorCol := before.length }
  else pure editor

def breakLine (editor : Editor) : Checked Editor := do
  let line ← Checked.index editor.lines editor.cursorRow
  let (front, rest) ← cutAt line (byteIndex line editor.cursorCol)
  pure { editor with
    lines := (editor.lines.set editor.cursorRow front).insertIdx (editor.cursorRow + 1) rest
    cursorRow := editor.cursorRow + 1
    cursorCol := 0 }

def moveLeft (editor : Editor) : Checked Editor :=
  if 0 < editor.cursorCol then pure { editor with cursorCol := editor.cursorCol - 1 }
  else if 0 < editor.cursorRow then do
    let before ← Checked.index editor.lines (editor.cursorRow - 1)
    pure { editor with cursorRow := editor.cursorRow - 1, cursorCol := before.length }
  else pure editor

def moveRight (editor : Editor) : Checked Editor := do
  let line ← Checked.index editor.lines editor.cursorRow
  if editor.cursorCol < line.length then pure { editor with cursorCol := editor.cursorCol + 1 }
  else if editor.cursorRow + 1 < editor.lines.length then
    pure { editor with cursorRow := editor.cursorRow + 1, cursorCol := 0 }
  else pure editor

def moveTo (editor : Editor) (row : Nat) : Checked Editor := do
  let line ← Checked.index editor.lines row
  pure { editor with cursorRow := row, cursorCol := min editor.cursorCol line.length }

def moveUp (editor : Editor) : Checked Editor :=
  if 0 < editor.cursorRow then moveTo editor (editor.cursorRow - 1) else pure editor

def moveDown (editor : Editor) : Checked Editor :=
  if editor.cursorRow + 1 < editor.lines.length then moveTo editor (editor.cursorRow + 1)
  else pure editor

def press {Disk : Type} (files : Files Disk) (event : Event) (editor : Editor) (disk : Disk) :
    Checked (Editor × Disk) :=
  match event with
  | .ctrl 's' => pure (save files editor disk)
  | .ctrl 'o' => pure (reload files editor disk, disk)
  | .ctrl _ => pure (editor, disk)
  | .char c => (typeText editor [c]).map (·, disk)
  | .backspace => (eraseBack editor).map (·, disk)
  | .enter => (breakLine editor).map (·, disk)
  | .tab => (typeText editor "    ".toList).map (·, disk)
  | .left => (moveLeft editor).map (·, disk)
  | .right => (moveRight editor).map (·, disk)
  | .up => (moveUp editor).map (·, disk)
  | .down => (moveDown editor).map (·, disk)
  | .escape | .f2 => pure (editor, disk)

def handleKey {Disk : Type} (files : Files Disk) (scale : Nat) (event : Event) (editor : Editor)
    (disk : Disk) : Checked (Editor × Disk) := do
  let (pressed, disk) ← press files event editor disk
  let rendered ← editorRender scale pressed
  pure (rendered, disk)

def blankOverlay : Overlay :=
  { statusBar := ⟨0, 0, 0, 0⟩, status := [], cursor := ⟨0, 0, 0, 0⟩ }

def start (scale cols rows : Nat) (lines : List Line) (status path : Line) : Checked Editor :=
  editorRender scale
    { console := Console.new cols rows, overlay := blankOverlay, lines, cursorRow := 0
      cursorCol := 0, scrollOffset := 0, status, path }

def openNotepad (scale cols rows : Nat) : Checked Editor :=
  start scale cols rows [[]] [] []

def openedLines (content : List TextByte) : List Line :=
  let lines := linesOf (decode content)
  if lines = [] then [[]] else lines

def openNotepadWith (scale cols rows : Nat) (path : Line) (content : List TextByte) :
    Checked Editor :=
  start scale cols rows (openedLines content) (openedStatus path content) path

end Notepad

end MachaOS
