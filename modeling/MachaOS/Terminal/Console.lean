/-
The two text screens `io::print` writes to: the console of a window and the VGA writer.

A cell holds the byte drawn in it; how a glyph is painted, and where the VGA cursor blinks, is left
out.  A cleared cell shows a blank.
-/

import MachaOS.Lib.Runs
import MachaOS.Lib.Spans
import Mathlib.Data.BitVec
import Mathlib.Logic.Function.Iterate

namespace MachaOS

namespace Terminal

open Spans

abbrev TextByte := BitVec 8

def newline : TextByte := 0x0A
def carriageReturn : TextByte := 0x0D
def backspace : TextByte := 0x08
def tabulator : TextByte := 0x09
def blank : TextByte := 0x20

structure Console where
  cols : Nat
  rows : Nat
  row : Nat
  col : Nat
  cells : List TextByte
deriving DecidableEq, Repr

namespace Console

def new (cols rows : Nat) : Console :=
  { cols, rows, row := 0, col := 0, cells := List.replicate (cols * rows) blank }

def resize (_ : Console) (cols rows : Nat) : Console :=
  new cols rows

def clear (console : Console) : Console :=
  { console with cells := List.replicate console.cells.length blank, row := 0, col := 0 }

def drawCell (console : Console) (col row : Nat) (byte : TextByte) : Console :=
  { console with cells := console.cells.set (entry console.cols col row) byte }

def scroll (console : Console) : Console :=
  let moved := splice console.cells 0
    (slice console.cells console.cols (console.cols * console.rows))
  { console with
    cells := splice moved (console.cols * (console.rows - 1))
      (List.replicate (console.cells.length - console.cols * (console.rows - 1)) blank)
    row := console.rows - 1
    col := 0 }

def lineFeed (console : Console) : Console :=
  let below := { console with row := console.row + 1, col := 0 }
  if below.rows ≤ below.row then below.scroll else below

def advance (console : Console) (byte : TextByte) : Console :=
  { console.drawCell console.col console.row byte with col := console.col + 1 }

def put (console : Console) (byte : TextByte) : Console :=
  if console.cols ≤ console.col then console.lineFeed.advance byte else console.advance byte

def erase (console : Console) : Console :=
  if 0 < console.col then
    { console with col := console.col - 1 }.drawCell (console.col - 1) console.row blank
  else if 0 < console.row then
    { console with row := console.row - 1, col := console.cols - 1 }.drawCell (console.cols - 1)
      (console.row - 1) blank
  else console

def writeByte (console : Console) (byte : TextByte) : Console :=
  if byte = newline then console.lineFeed
  else if byte = carriageReturn then { console with col := 0 }
  else if byte = backspace then console.erase
  else if byte = tabulator then
    Nat.iterate (fun written => written.put blank) (4 - console.col % 4) console
  else console.put byte

def write (console : Console) (bytes : List TextByte) : Console :=
  bytes.foldl writeByte console

end Console

namespace Vga

def width : Nat := 80
def height : Nat := 25

structure ScreenChar where
  ch : TextByte
  color : BitVec 8
deriving DecidableEq, Repr

structure Writer where
  row : Nat
  col : Nat
  currentColor : BitVec 8
  buffer : List ScreenChar
deriving DecidableEq, Repr

namespace Writer

def inColor (writer : Writer) (ch : TextByte) : ScreenChar :=
  { ch, color := writer.currentColor }

/-- The writer after `init`. -/
def cleared (color : BitVec 8) : Writer :=
  { row := 0, col := 0, currentColor := color
    buffer := List.replicate (width * height) { ch := blank, color } }

def scroll (writer : Writer) : Writer :=
  { writer with
    buffer := fillFrom ((height - 1) * width) width (writer.inColor blank)
      (shiftRows width (height - 1) writer.buffer)
    row := height - 1
    col := 0 }

def lineFeed (writer : Writer) : Writer :=
  let below := { writer with row := writer.row + 1, col := 0 }
  if height ≤ below.row then below.scroll else below

def advance (writer : Writer) (byte : TextByte) : Writer :=
  { writer with
    buffer := writer.buffer.set (entry width writer.col writer.row) (writer.inColor byte)
    col := writer.col + 1 }

def put (writer : Writer) (byte : TextByte) : Writer :=
  if width ≤ writer.col then writer.lineFeed.advance byte else writer.advance byte

def erase (writer : Writer) : Writer :=
  if 0 < writer.col then
    { writer with
      buffer := writer.buffer.set (entry width (writer.col - 1) writer.row) (writer.inColor blank)
      col := writer.col - 1 }
  else writer

def writeByte (writer : Writer) (byte : TextByte) : Writer :=
  if byte = newline then writer.lineFeed
  else if byte = carriageReturn then { writer with col := 0 }
  else if byte = backspace then writer.erase
  else if byte = tabulator then
    Nat.iterate (fun written => written.put blank) (4 - writer.col % 4) writer
  else writer.put byte

def write (writer : Writer) (bytes : List TextByte) : Writer :=
  bytes.foldl writeByte writer

end Writer

end Vga

structure Agrees (writer : Vga.Writer) (console : Console) : Prop where
  row : writer.row = console.row
  col : writer.col = console.col
  cells : writer.buffer.map Vga.ScreenChar.ch = console.cells

structure Fits (console : Console) : Prop where
  cols : console.cols = Vga.width
  rows : console.rows = Vga.height
  full : console.cells.length = Vga.width * Vga.height

structure Paired (writer : Vga.Writer) (console : Console) : Prop where
  agrees : Agrees writer console
  fits : Fits console

namespace Paired

variable {writer : Vga.Writer} {console : Console}

theorem start (color : BitVec 8) :
    Paired (Vga.Writer.cleared color) (Console.new Vga.width Vga.height) := by
  refine ⟨⟨rfl, rfl, ?_⟩, rfl, rfl, List.length_replicate⟩
  exact List.map_replicate

section

variable (paired : Paired writer console)
include paired

theorem moved {row col row' col' : Nat} (sameRow : row = row') (sameCol : col = col') :
    Paired { writer with row, col } { console with row := row', col := col' } :=
  ⟨⟨sameRow, sameCol, paired.agrees.cells⟩, paired.fits.cols, paired.fits.rows, paired.fits.full⟩

theorem drawn (col row : Nat) (byte : TextByte) :
    Paired
      { writer with buffer := writer.buffer.set (entry Vga.width col row) (writer.inColor byte) }
      (console.drawCell col row byte) := by
  obtain ⟨⟨sameRow, sameCol, cells⟩, cols, rows, full⟩ := paired
  refine ⟨⟨sameRow, sameCol, ?_⟩, cols, rows, ?_⟩
  · simp only [Console.drawCell, List.map_set, cells, cols, Vga.Writer.inColor]
  · simp only [Console.drawCell, List.length_set, full]

theorem scroll : Paired writer.scroll console.scroll := by
  obtain ⟨⟨sameRow, sameCol, cells⟩, cols, rows, full⟩ := paired
  have whole : writer.buffer.length = Vga.width * Vga.height := by
    rw [← full, ← cells, List.length_map]
  have lastRow : Vga.width * Vga.height - Vga.width * (Vga.height - 1) = Vga.width := by decide
  have positive : 0 < Vga.height := by decide
  have moved := shift_eq_shiftRows (writer.inColor blank) positive whole
  have grid := length_shift blank positive full
  refine ⟨⟨?_, rfl, ?_⟩, cols, rows, ?_⟩
  · simp only [Vga.Writer.scroll, Console.scroll, rows]
  · simp only [Vga.Writer.scroll, Console.scroll, cols, rows, full, lastRow]
    rw [← moved, splice_map, splice_map, slice_map, cells, List.map_replicate, Vga.Writer.inColor]
  · simp only [Console.scroll, cols, rows, full, lastRow]
    rw [grid, full]

theorem lineFeed : Paired writer.lineFeed console.lineFeed := by
  have sameRow := paired.agrees.row
  have below := paired.moved (congrArg (fun row => row + 1) sameRow) (Eq.refl 0)
  have rows := paired.fits.rows
  unfold Vga.Writer.lineFeed Console.lineFeed
  by_cases full : Vga.height ≤ writer.row + 1
  · have full' : console.rows ≤ console.row + 1 := by rwa [rows, ← sameRow]
    rw [if_pos full, if_pos full']
    exact below.scroll
  · have room : ¬ console.rows ≤ console.row + 1 := by rwa [rows, ← sameRow]
    rw [if_neg full, if_neg room]
    exact below

theorem advance (byte : TextByte) : Paired (writer.advance byte) (console.advance byte) := by
  have sameRow := paired.agrees.row
  have sameCol := paired.agrees.col
  have drawn := paired.drawn console.col console.row byte
  have next := drawn.moved sameRow (congrArg (fun col => col + 1) sameCol)
  unfold Vga.Writer.advance Console.advance
  rw [sameRow, sameCol] at *
  exact next

theorem put (byte : TextByte) : Paired (writer.put byte) (console.put byte) := by
  have cols := paired.fits.cols
  have sameCol := paired.agrees.col
  unfold Vga.Writer.put Console.put
  by_cases full : Vga.width ≤ writer.col
  · have full' : console.cols ≤ console.col := by rwa [cols, ← sameCol]
    rw [if_pos full, if_pos full']
    exact paired.lineFeed.advance byte
  · have room : ¬ console.cols ≤ console.col := by rwa [cols, ← sameCol]
    rw [if_neg full, if_neg room]
    exact paired.advance byte

theorem putBlanks (count : Nat) :
    Paired (Nat.iterate (fun written => written.put blank) count writer)
      (Nat.iterate (fun written => written.put blank) count console) := by
  induction count generalizing writer console with
  | zero => exact paired
  | succ count ih => exact ih (paired.put blank)

theorem erase (inside : writer.col = 0 → writer.row = 0) : Paired writer.erase console.erase := by
  have sameRow := paired.agrees.row
  have sameCol := paired.agrees.col
  unfold Vga.Writer.erase Console.erase
  by_cases first : 0 < writer.col
  · have first' : 0 < console.col := by rwa [← sameCol]
    rw [if_pos first, if_pos first']
    have drawn := paired.drawn (console.col - 1) console.row blank
    have back := drawn.moved sameRow (congrArg (fun col => col - 1) sameCol)
    rw [sameRow, sameCol] at *
    exact back
  · have first' : ¬ 0 < console.col := by rwa [← sameCol]
    have top : ¬ 0 < console.row := by
      rw [← sameRow, inside (by omega)]
      omega
    rw [if_neg first, if_neg first', if_neg top]
    exact paired

end

end Paired

def Alike (writer : Vga.Writer) (byte : TextByte) : Prop :=
  byte = backspace → writer.col = 0 → writer.row = 0

theorem Paired.writeByte {writer : Vga.Writer} {console : Console} (paired : Paired writer console)
    {byte : TextByte} (alike : Alike writer byte) :
    Paired (writer.writeByte byte) (console.writeByte byte) := by
  unfold Vga.Writer.writeByte Console.writeByte
  by_cases isNewline : byte = newline
  · rw [if_pos isNewline, if_pos isNewline]
    exact paired.lineFeed
  rw [if_neg isNewline, if_neg isNewline]
  by_cases isReturn : byte = carriageReturn
  · rw [if_pos isReturn, if_pos isReturn]
    exact paired.moved paired.agrees.row rfl
  rw [if_neg isReturn, if_neg isReturn]
  by_cases isBackspace : byte = backspace
  · rw [if_pos isBackspace, if_pos isBackspace]
    exact paired.erase (alike isBackspace)
  rw [if_neg isBackspace, if_neg isBackspace]
  by_cases isTab : byte = tabulator
  · rw [if_pos isTab, if_pos isTab, paired.agrees.col]
    exact paired.putBlanks _
  rw [if_neg isTab, if_neg isTab]
  exact paired.put byte

theorem Paired.apart {writer : Vga.Writer} {console : Console} (paired : Paired writer console)
    {byte : TextByte} (unlike : ¬ Alike writer byte) :
    ¬ Agrees (writer.writeByte byte) (console.writeByte byte) := by
  unfold Alike at unlike
  push Not at unlike
  obtain ⟨rfl, col, row⟩ := unlike
  have sameRow := paired.agrees.row
  have sameCol := paired.agrees.col
  intro agrees
  have rows := agrees.row
  have stays : (writer.writeByte backspace).row = writer.row := by
    have left : ¬ 0 < writer.col := by omega
    simp only [Vga.Writer.writeByte, Vga.Writer.erase, if_neg left]
    rfl
  have climbs : (console.writeByte backspace).row = console.row - 1 := by
    have left : ¬ 0 < console.col := by omega
    have under : 0 < console.row := by omega
    simp only [Console.writeByte, Console.erase, if_neg left, if_pos under]
    rfl
  omega

structure Screens where
  writer : Vga.Writer
  console : Console

namespace Screens

def start (color : BitVec 8) : Screens :=
  { writer := Vga.Writer.cleared color, console := Console.new Vga.width Vga.height }

def next (screens : Screens) (byte : TextByte) : Option Screens :=
  some { writer := screens.writer.writeByte byte, console := screens.console.writeByte byte }

theorem after_eq (screens : Screens) (bytes : List TextByte) :
    Runs.after next screens bytes =
      some { writer := screens.writer.write bytes, console := screens.console.write bytes } := by
  induction bytes generalizing screens with
  | nil => rfl
  | cons byte rest ih =>
      rw [Runs.after]
      exact ih _

end Screens

/-- On two cleared screens of one size every part of a text leads to the same position and the same
characters, exactly if no backspace comes in the first column under the top row. -/
theorem screens_agree_iff (color : BitVec 8) (bytes : List TextByte) :
    (∀ front, front <+: bytes → Agrees ((Vga.Writer.cleared color).write front)
        ((Console.new Vga.width Vga.height).write front)) ↔
      Runs.Meets Screens.next (fun screens byte => Alike screens.writer byte)
        (Screens.start color) bytes := by
  have parts := @Runs.always_iff_meets _ _ Screens.next
    (fun screens byte => Alike screens.writer byte)
    (fun screens => Paired screens.writer screens.console)
    (fun screens => Agrees screens.writer screens.console)
    (by
      rintro screens byte next paired alike moved
      cases moved
      exact paired.writeByte alike)
    (fun screens paired => paired.agrees)
    (by
      rintro screens byte paired unlike
      exact ⟨_, rfl, paired.apart unlike⟩)
    (Screens.start color) (Paired.start color) bytes
  rw [← parts]
  constructor
  · intro agree front isFront screens ran
    rw [Screens.after_eq] at ran
    cases ran
    exact agree front isFront
  · intro agree front isFront
    exact agree front isFront _ (Screens.after_eq _ front)

/-- A line feed and a backspace: the console is back at the end of its first row, VGA is not. -/
theorem backspace_after_line_feed :
    ¬ Agrees ((Vga.Writer.cleared 0x07).write [newline, backspace])
      ((Console.new Vga.width Vga.height).write [newline, backspace]) := by
  intro agrees
  exact absurd agrees.row (by decide)

end Terminal

end MachaOS
