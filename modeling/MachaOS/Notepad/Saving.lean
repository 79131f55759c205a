/-
A document that is saved and opened again.

Saving ends the text with a newline unless it is empty; opening drops the empty piece after a last
newline.  The two cancel for every document, whatever empty lines it ends in, but for the empty one:
nothing is saved, and reloading nothing leaves no line.  A new window gets an empty line then.
-/

import MachaOS.Notepad.Cursor

namespace MachaOS

namespace Notepad

open Keyboard Terminal
open Shell (Line)

theorem decode_encode (text : Line) : decode (encode text) = text := by
  have bytes : ((encode text).map UInt8.ofBitVec).toArray = (String.ofList text).toUTF8.data := by
    have back : UInt8.ofBitVec ∘ UInt8.toBitVec = id := rfl
    rw [encode, List.map_map, back, List.map_id, Array.toArray_toList]
  have valid : (String.ofList text).toUTF8.IsValidUTF8 := (String.ofList text).isValidUTF8
  have read : String.fromUTF8? (String.ofList text).toUTF8 = some (String.ofList text) := by
    rw [String.fromUTF8?, dif_pos valid]
    rfl
  rw [decode, bytes, show (⟨(String.ofList text).toUTF8.data⟩ : ByteArray) =
    (String.ofList text).toUTF8 from rfl, read]
  exact String.toList_ofList

section

variable {lines : List Line} (someLine : lines ≠ []) (clean : ∀ line ∈ lines, '\n' ∉ line)
include someLine clean

theorem joined_eq_nil : ['\n'].intercalate lines = [] ↔ lines = [[]] := by
  constructor
  · intro empty
    have back := List.splitOn_intercalate '\n' clean someLine
    rw [empty] at back
    exact back.symm
  · rintro rfl
    rfl

theorem linesOf_savedText : linesOf (savedText lines) = if lines = [[]] then [] else lines := by
  have empty := joined_eq_nil someLine clean
  unfold savedText
  dsimp only
  by_cases one : lines = [[]]
  · rw [if_pos (empty.mpr one), if_pos one, empty.mpr one]
    rfl
  · have pieces : (['\n'].intercalate lines ++ ['\n']).splitOn '\n' = lines ++ [[]] := by
      rw [List.splitOn_append_cons_self, List.splitOn_intercalate '\n' clean someLine]
      rfl
    rw [if_neg (fun noText => one (empty.mp noText)), if_neg one, linesOf, pieces, List.getLast?_concat, if_pos rfl, List.dropLast_concat]

theorem openedLines_saved : openedLines (encode (savedText lines)) = lines := by
  unfold openedLines
  dsimp only
  rw [decode_encode, linesOf_savedText someLine clean]
  by_cases one : lines = [[]]
  · rw [if_pos one, if_pos rfl, one]
  · rw [if_neg one, if_neg someLine]

end

variable {Disk : Type}

def Files.ReadsBack (files : Files Disk) : Prop :=
  ∀ path bytes disk later, files.writeFile path bytes disk = (.ok (), later) →
    files.readFile path later = .ok bytes

def Editor.saved (editor : Editor) : List TextByte :=
  encode (savedText editor.lines)

/-- A document that `Ctrl+S` wrote is the same in a new window, and the same after `Ctrl+O` exactly if
it is not one empty line. -/
theorem reopened_iff {files : Files Disk} (readsBack : files.ReadsBack) (scale : Nat) {editor : Editor}
    (usable : Usable editor.console) (someLine : editor.lines ≠ [])
    (clean : ∀ line ∈ editor.lines, '\n' ∉ line) {disk later : Disk}
    (written : files.writeFile editor.savePath editor.saved disk = (.ok (), later)) (size : Size)
    (path : Line) :
    ∃ saved reopened opened,
      handleKey files scale (.ctrl 's') editor disk = .ok (saved, later) ∧
      handleKey files scale (.ctrl 'o') saved later = .ok (reopened, later) ∧
      openNotepadWith scale size.cols size.rows path editor.saved = .ok opened ∧
      opened.lines = editor.lines ∧ (reopened.lines = editor.lines ↔ editor.lines ≠ [[]]) := by
  let pressed : Editor :=
    { editor with status := "saved ".toList ++
        Nat.toDigits 10 (Shell.byteLength (savedText editor.lines)) ++ " bytes to ".toList ++
          editor.savePath }
  let loaded : Editor :=
    { pressed.rendered scale with
      lines := linesOf (decode editor.saved)
      cursorRow := 0
      cursorCol := 0
      status := openedStatus editor.savePath editor.saved }
  have saves : press files (.ctrl 's') editor disk = .ok (pressed, later) := by
    have done : save files editor disk = (pressed, later) := by
      unfold save
      dsimp only
      rw [show encode (savedText editor.lines) = editor.saved from rfl, written]
    exact congrArg Except.ok done
  have loads : press files (.ctrl 'o') (pressed.rendered scale) later = .ok (loaded, later) := by
    have samePath : (pressed.rendered scale).savePath = editor.savePath := rfl
    have done : reload files (pressed.rendered scale) later = loaded := by
      unfold reload
      rw [samePath, readsBack _ _ _ _ written]
    exact congrArg (fun last => Except.ok (last, later)) done
  have stillUsable : Usable loaded.console := usable.of_sameSize (sameSize_rendered pressed scale)
  obtain ⟨opened, opens, -, sameLines⟩ := start_sound scale size (openedLines editor.saved)
    (openedStatus path editor.saved) path (openedLines_ne_nil editor.saved)
  refine ⟨pressed.rendered scale, loaded.rendered scale, opened, handleKey_eq saves usable scale,
    handleKey_eq loads stillUsable scale, opens, ?_, ?_⟩
  · rw [sameLines]
    exact openedLines_saved someLine clean
  · have lines : (loaded.rendered scale).lines = if editor.lines = [[]] then [] else editor.lines := by
      have text : decode editor.saved = savedText editor.lines := decode_encode _
      change linesOf (decode editor.saved) = _
      rw [text, linesOf_savedText someLine clean]
    rw [lines]
    by_cases one : editor.lines = [[]]
    · rw [if_pos one, one]
      exact ⟨fun never => (nomatch never), fun different => absurd rfl different⟩
    · rw [if_neg one]
      exact ⟨fun _ => one, fun _ => rfl⟩

def oneFile : Files (Option (Line × List TextByte)) :=
  { writeFile := fun path bytes _ => (.ok (), some (path, bytes))
    readFile := fun path disk =>
      match disk with
      | some (name, bytes) => if name = path then .ok bytes else .error "not found".toList
      | none => .error "not found".toList }

theorem oneFile_readsBack : oneFile.ReadsBack := by
  intro path bytes disk later written
  cases written
  exact if_pos rfl

def trailingEditor : Editor :=
  { console := Console.new 20 5, overlay := blankOverlay, lines := [['a'], [], []], cursorRow := 0
    cursorCol := 0, scrollOffset := 0, status := [], path := [] }

theorem reopened_iff_trailing :
    ∃ saved reopened opened later,
      handleKey oneFile 1 (.ctrl 's') trailingEditor none = .ok (saved, later) ∧
      handleKey oneFile 1 (.ctrl 'o') saved later = .ok (reopened, later) ∧
      openNotepadWith 1 20 5 notepadPath trailingEditor.saved = .ok opened ∧
      opened.lines = trailingEditor.lines ∧
      (reopened.lines = trailingEditor.lines ↔ trailingEditor.lines ≠ [[]]) := by
  obtain ⟨saved, reopened, opened, results⟩ :=
    @reopened_iff _ oneFile oneFile_readsBack 1 trailingEditor ⟨by decide, by decide⟩ (by decide)
      (by decide) none _ rfl ⟨20, 5, by decide, by decide⟩ notepadPath
  exact ⟨saved, reopened, opened, _, results⟩

/-- A new notepad, saved and reloaded, has no line left. -/
theorem empty_document_lost :
    ∃ editor saved reopened later,
      openNotepad 1 20 5 = .ok editor ∧
      handleKey oneFile 1 (.ctrl 's') editor none = .ok (saved, later) ∧
      handleKey oneFile 1 (.ctrl 'o') saved later = .ok (reopened, later) ∧
      reopened.lines ≠ editor.lines := by
  refine ⟨_, _, _, _, rfl, rfl, rfl, ?_⟩
  decide +kernel

end Notepad

end MachaOS
