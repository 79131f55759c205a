/-
The editor is a plain text buffer: the lines joined with newlines, and the cursor as an offset.  Every
run of keys that edit or move does to the text what the keys say, and leaves everything else alone.
-/

import MachaOS.Notepad.Cursor
import MachaOS.Terminal.Keyboard

namespace MachaOS

namespace Notepad

open Keyboard Terminal Spot
open Terminal.Console (SameSize)
open Shell (Line)

def Editor.buffer (editor : Editor) : Buffer Char :=
  { text := ['\n'].intercalate editor.lines
    offset := ((editor.lines.take editor.cursorRow).map (fun line => line.length + 1)).sum +
      editor.cursorCol }

def editText (buffer : Buffer Char) : Event → Buffer Char
  | .char c => buffer.insert [c]
  | .enter => buffer.insert ['\n']
  | .tab => buffer.insert "    ".toList
  | .backspace => buffer.backspace
  | .left => buffer.left
  | .right => buffer.right
  | .up => buffer.up '\n'
  | .down => buffer.down '\n'
  | .escape | .f2 | .ctrl _ => buffer

/-- A key that edits or moves; the keyboard sends a newline as `Enter`. -/
structure Edits (event : Event) : Prop where
  plain : ∀ c, event ≠ .ctrl c
  notNewline : event ≠ .char '\n'

theorem edits_of_decode {modifiers : Modifiers} {scancode : Scancode} {extended : Bool}
    {event : Event} (sent : (Keyboard.decode modifiers scancode extended).2 = some event)
    (plain : ∀ c, event ≠ .ctrl c) : Edits event := by
  refine ⟨plain, ?_⟩
  rintro rfl
  exact decode_notNewline modifiers scancode extended sent

variable {Disk : Type} (files : Files Disk) (scale : Nat)

def handleKeys (events : List Event) (editor : Editor) (disk : Disk) : Checked (Editor × Disk) :=
  events.foldlM (fun state event => handleKey files scale event state.1 state.2) (editor, disk)

theorem buffer_placed (editor : Editor) (spot : Spot Char) :
    (editor.placed spot).buffer = spot.buffer '\n' := by
  apply Buffer.ext
  · exact (text_buffer spot).symm
  · have above : spot.lines.take spot.above.length = spot.above.reverse := by
      rw [← List.length_reverse, Spot.lines, List.take_left]
    have offset : (spot.buffer '\n').offset =
        (Spot.closed '\n' spot.above.reverse).length + spot.front.length := by
      simp [Spot.buffer, Buffer.parted, Spot.before]
    rw [offset, Spot.closed, List.length_flatMap]
    simp only [Editor.buffer, Editor.placed, above, List.length_append, List.length_singleton]

theorem typed_buffer {event : Event} {spot : Spot Char} (clean : spot.Clean '\n') :
    (typed event spot).buffer '\n' = editText (spot.buffer '\n') event := by
  cases event with
  | char c => exact buffer_insert spot [c]
  | ctrl c => rfl
  | backspace => exact buffer_backspace spot
  | enter => exact buffer_split spot
  | tab => exact buffer_insert spot "    ".toList
  | up => exact buffer_up clean
  | down => exact buffer_down clean
  | left => exact buffer_left spot
  | right => exact buffer_right spot
  | escape => rfl
  | f2 => rfl

theorem typed_clean {event : Event} (notNewline : event ≠ .char '\n') {spot : Spot Char}
    (clean : spot.Clean '\n') : (typed event spot).Clean '\n' := by
  cases event with
  | char c =>
      apply clean_insert clean
      intro mem
      cases List.mem_singleton.mp mem
      exact notNewline rfl
  | ctrl c => exact clean
  | backspace => exact clean_backspace clean
  | enter => exact clean_split clean
  | tab =>
      apply clean_insert clean
      decide
  | up => exact clean_up clean
  | down => exact clean_down clean
  | left => exact clean_left clean
  | right => exact clean_right clean
  | escape => exact clean
  | f2 => exact clean

structure Editor.Plain (editor : Editor) : Prop where
  sound : editor.Sound
  clean : ∀ line ∈ editor.lines, '\n' ∉ line

structure Frame (editor last : Editor) : Prop where
  status : last.status = editor.status
  path : last.path = editor.path
  size : SameSize editor.console last.console

theorem Frame.trans {first second third : Editor} (before : Frame first second)
    (behind : Frame second third) : Frame first third := by
  constructor
  · rw [behind.status, before.status]
  · rw [behind.path, before.path]
  · exact before.size.trans behind.size

theorem handleKey_refines {event : Event} (edits : Edits event) {editor : Editor}
    (plain : editor.Plain) (disk : Disk) :
    ∃ last, handleKey files scale event editor disk = .ok (last, disk) ∧
      last.buffer = editText editor.buffer event ∧ last.Plain ∧ Frame editor last := by
  obtain ⟨spot, placed⟩ := plain.sound.cursor.placed
  have clean : spot.Clean '\n' := by
    have document : editor.lines = spot.lines := congrArg Editor.lines placed
    rw [Spot.Clean, ← document]
    exact plain.clean
  have pressed : press files event editor disk = .ok (editor.placed (typed event spot), disk) := by
    conv =>
      lhs
      rw [placed]
    exact press_placed files edits.plain editor spot disk
  refine ⟨_, handleKey_eq pressed plain.sound.console scale, ?_, ?_, ?_⟩
  · calc
      ((editor.placed (typed event spot)).rendered scale).buffer
          = (editor.placed (typed event spot)).buffer := rfl
      _ = (typed event spot).buffer '\n' := buffer_placed editor _
      _ = editText (spot.buffer '\n') event := typed_buffer clean
      _ = editText (editor.placed spot).buffer event := by rw [buffer_placed]
      _ = editText editor.buffer event := by rw [← placed]
  · constructor
    · apply Editor.Sound.rendered
      exact ⟨plain.sound.console, cursorInside_placed editor _⟩
    · exact typed_clean edits.notNewline clean
  · exact ⟨rfl, rfl, sameSize_rendered (editor.placed (typed event spot)) scale⟩

/-- On any document and from any position of the cursor inside it, the keys do to the text and the
offset what they mean, and change neither the disk, the status, the path nor the size. -/
theorem handleKeys_refine {events : List Event} (edits : ∀ event ∈ events, Edits event)
    {editor : Editor} (plain : editor.Plain) (disk : Disk) :
    ∃ last, handleKeys files scale events editor disk = .ok (last, disk) ∧
      last.buffer = events.foldl editText editor.buffer ∧ last.Plain ∧ Frame editor last := by
  induction events generalizing editor with
  | nil => exact ⟨editor, rfl, rfl, plain, ⟨rfl, rfl, SameSize.refl _⟩⟩
  | cons event rest ih =>
      obtain ⟨middle, stepped, edited, stillPlain, kept⟩ :=
        handleKey_refines files scale (edits event List.mem_cons_self) plain disk
      obtain ⟨last, ran, reached, lastPlain, same⟩ :=
        ih (fun other mem => edits other (List.mem_cons_of_mem _ mem)) stillPlain
      refine ⟨last, ?_, ?_, lastPlain, kept.trans same⟩
      · rw [handleKeys, List.foldlM_cons, stepped]
        exact ran
      · rw [List.foldl_cons, ← edited]
        exact reached

def sampleEditor : Editor :=
  { console := Console.new 20 5, overlay := blankOverlay, lines := [['a', 'é'], []], cursorRow := 0
    cursorCol := 1, scrollOffset := 0, status := [], path := [] }

theorem sampleEditor_plain : sampleEditor.Plain := by
  constructor
  · constructor
    · exact ⟨by decide, by decide⟩
    · refine ⟨by decide, by decide, ?_⟩
      intro line found
      cases found
      decide
  · decide

theorem handleKeys_refine_sample :
    ∃ last, handleKeys { writeFile := fun _ _ disk => (.ok (), disk), readFile := fun _ _ => .ok [] }
        1 [.enter, .char 'x', .up, .backspace] sampleEditor () = .ok (last, ()) ∧
      last.buffer =
        [Event.enter, .char 'x', .up, .backspace].foldl editText sampleEditor.buffer ∧
      last.Plain ∧ Frame sampleEditor last := by
  apply handleKeys_refine
  · intro event mem
    simp only [List.mem_cons, List.not_mem_nil, or_false] at mem
    rcases mem with rfl | rfl | rfl | rfl
    · exact ⟨nofun, nofun⟩
    · exact ⟨nofun, by decide⟩
    · exact ⟨nofun, nofun⟩
    · exact ⟨nofun, nofun⟩
  · exact sampleEditor_plain

example : [Event.enter, .char 'x', .up, .backspace].foldl editText sampleEditor.buffer =
    { text := ['\n', 'x', 'é', '\n'], offset := 0 } := by
  decide

end Notepad

end MachaOS
