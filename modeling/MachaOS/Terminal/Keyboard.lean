/-
The keyboard: how scancodes become events (`decode` in `src/keyboard.rs`).
-/

import MachaOS.Terminal.LineEditor
import Mathlib.Data.BitVec

namespace MachaOS

namespace Keyboard

abbrev Scancode := BitVec 8

structure Modifiers where
  shiftDown : Bool
  capsLock : Bool
  ctrlDown : Bool
deriving DecidableEq, Repr

/-- The characters of the keys of scancode set 1; `'\x00'` for a key without one. -/
def keymap : List Char :=
  ['\x00', '\x00', '1', '2', '3', '4', '5', '6', '7', '8', '9', '0', '-', '=', '\x00', '\x00',
    'q', 'w', 'e', 'r', 't', 'y', 'u', 'i', 'o', 'p', '[', ']', '\x00', '\x00', 'a', 's',
    'd', 'f', 'g', 'h', 'j', 'k', 'l', ';', '\x27', '\x60', '\x00', '\\', 'z', 'x', 'c', 'v',
    'b', 'n', 'm', ',', '.', '/', '\x00', '*', '\x00', ' ']

def keymapShift : List Char :=
  ['\x00', '\x00', '!', '@', '#', '$', '%', '^', '&', '*', '(', ')', '_', '+', '\x00', '\x00',
    'Q', 'W', 'E', 'R', 'T', 'Y', 'U', 'I', 'O', 'P', '\x7b', '\x7d', '\x00', '\x00', 'A', 'S',
    'D', 'F', 'G', 'H', 'J', 'K', 'L', ':', '\x22', '~', '\x00', '|', 'Z', 'X', 'C', 'V',
    'B', 'N', 'M', '<', '>', '?', '\x00', '\x00', '\x00', ' ']

def lookup (map : List Char) (scancode : Scancode) : Char :=
  map.getD scancode.toNat '\x00'

def decodeExtended (scancode : Scancode) : Option Event :=
  if scancode = 0x48 then some .up
  else if scancode = 0x50 then some .down
  else if scancode = 0x4B then some .left
  else if scancode = 0x4D then some .right
  else none

def decodeChar (modifiers : Modifiers) (scancode : Scancode) : Option Event :=
  let base := lookup keymap scancode
  let shifted := lookup keymapShift scancode
  if modifiers.ctrlDown ∧ base ≠ '\x00' then some (.ctrl base)
  else if modifiers.shiftDown ∧ shifted ≠ '\x00' then some (.char shifted)
  else if modifiers.capsLock ∧ base.isAlpha then some (.char base.toUpper)
  else if base ≠ '\x00' then some (.char base)
  else none

def decode (modifiers : Modifiers) (scancode : Scancode) (extended : Bool) :
    Modifiers × Option Event :=
  if extended then (modifiers, decodeExtended scancode)
  else if scancode = 0x2A ∨ scancode = 0x36 then ({ modifiers with shiftDown := true }, none)
  else if scancode = 0xAA ∨ scancode = 0xB6 then ({ modifiers with shiftDown := false }, none)
  else if scancode = 0x1D then ({ modifiers with ctrlDown := true }, none)
  else if scancode = 0x9D then ({ modifiers with ctrlDown := false }, none)
  else if scancode = 0x3A then ({ modifiers with capsLock := !modifiers.capsLock }, none)
  else if scancode = 0x0E then (modifiers, some .backspace)
  else if scancode = 0x1C then (modifiers, some .enter)
  else if scancode = 0x0F then (modifiers, some .tab)
  else if scancode = 0x39 then (modifiers, some (.char ' '))
  else if scancode = 0x01 then (modifiers, some .escape)
  else if scancode = 0x3C then (modifiers, some .f2)
  else if 0x80 ≤ scancode then (modifiers, none)
  else (modifiers, decodeChar modifiers scancode)

theorem lookup_mem (map : List Char) (scancode : Scancode) :
    lookup map scancode ∈ map ∨ lookup map scancode = '\x00' := by
  unfold lookup
  rw [List.getD_eq_getElem?_getD]
  cases found : map[scancode.toNat]? with
  | none => exact Or.inr rfl
  | some c => exact Or.inl (List.mem_of_getElem? found)

theorem lookup_keymap (scancode : Scancode) :
    lookup keymap scancode ≠ '\n' ∧ (lookup keymap scancode).toUpper ≠ '\n' := by
  have each : keymap.all (fun c => c ≠ '\n' ∧ c.toUpper ≠ '\n') = true := by decide +kernel
  rcases lookup_mem keymap scancode with mem | missing
  · exact of_decide_eq_true (List.all_eq_true.mp each _ mem)
  · rw [missing]
    decide

theorem lookup_keymapShift (scancode : Scancode) : lookup keymapShift scancode ≠ '\n' := by
  have each : keymapShift.all (fun c => c ≠ '\n') = true := by decide +kernel
  rcases lookup_mem keymapShift scancode with mem | missing
  · exact of_decide_eq_true (List.all_eq_true.mp each _ mem)
  · rw [missing]
    decide

theorem decodeChar_notNewline (modifiers : Modifiers) (scancode : Scancode) :
    decodeChar modifiers scancode ≠ some (.char '\n') := by
  obtain ⟨base, upper⟩ := lookup_keymap scancode
  have shifted := lookup_keymapShift scancode
  unfold decodeChar
  dsimp only
  split
  · nofun
  split
  · simpa using shifted
  split
  · simpa using upper
  split
  · simpa using base
  · nofun

theorem decodeExtended_notNewline (scancode : Scancode) :
    decodeExtended scancode ≠ some (.char '\n') := by
  unfold decodeExtended
  repeat' split
  all_goals decide

theorem branch_ne {condition : Prop} [Decidable condition] {first second : Modifiers × Option Event}
    {event : Option Event} (left : first.2 ≠ event) (right : second.2 ≠ event) :
    (if condition then first else second).2 ≠ event := by
  split
  · exact left
  · exact right

theorem decode_notNewline (modifiers : Modifiers) (scancode : Scancode) (extended : Bool) :
    (decode modifiers scancode extended).2 ≠ some (.char '\n') := by
  unfold decode
  repeat' apply branch_ne
  any_goals (dsimp only; decide)
  · exact decodeExtended_notNewline scancode
  · exact decodeChar_notNewline modifiers scancode

end Keyboard

end MachaOS
