/-
The settings file: `Settings::load` and `Settings::save` in `src/settings.rs`.

Every value a load can give is written so that the same load reads it again.
-/

import MachaOS.Desktop.Session
import MachaOS.Notepad.Saving

namespace MachaOS

namespace Desktop

open List
open Words
open Session (isWhitespace)

namespace Settings

def path : Text := "/system/settings.conf".toList

def defaults : Settings :=
  { accentColor := "blue".toList
    wallpaper := true
    showBgTasks := true
    resolution := none
    fontScalePercent := 100 }

/-- `str::split_once`: what stands before the first such character and what follows it. -/
def splitOnce (separator : Char) (text : Text) : Option (Text × Text) :=
  if separator ∈ text then
    some (text.takeWhile (· ≠ separator), (text.dropWhile (· ≠ separator)).tail)
  else none

def parseU32 (word : Text) : Option UInt32 :=
  (parseUnsigned word).bind (fun value =>
    if value < 2 ^ 32 then some (UInt32.ofNat value) else none)

def parseU16 (word : Text) : Option UInt16 :=
  (parseUnsigned word).bind (fun value =>
    if value < 2 ^ 16 then some (UInt16.ofNat value) else none)

def parseResolution (display : Display) (value : Text) : Option (UInt32 × UInt32) :=
  if value = "native".toList then none
  else do
    let (wWord, hWord) ← splitOnce 'x' value
    let w ← parseU32 wWord
    let h ← parseU32 hWord
    if w > display.physical.1 ∨ h > display.physical.2 ∨ w = 0 ∨ h = 0 then none else some (w, h)

def assign (display : Display) (settings : Settings) (key value : Text) : Settings :=
  if key = "accent_color".toList then { settings with accentColor := value }
  else if key = "wallpaper".toList then { settings with wallpaper := value = "true".toList }
  else if key = "show_bg_tasks".toList then { settings with showBgTasks := value = "true".toList }
  else if key = "resolution".toList then
    { settings with resolution := parseResolution display value }
  else if key = "font_scale".toList then
    { settings with fontScalePercent := (parseU16 value).getD 100 }
  else settings

def readLine (display : Display) (settings : Settings) (line : Text) : Settings :=
  let line := trim isWhitespace line
  if line = [] ∨ line.head? = some '#' then settings
  else
    match splitOnce '=' line with
    | some (key, value) =>
        settings.assign display (trim isWhitespace key) (trim isWhitespace value)
    | none => settings

def loadText (display : Display) (text : Text) : Settings :=
  (text.splitOn '\n').foldl (readLine display) defaults

variable {Disk : Type} (files : Notepad.Files Disk)

def load (display : Display) (disk : Disk) : Settings :=
  match files.readFile path disk with
  | .ok bytes =>
      match String.fromUTF8? ⟨(bytes.map UInt8.ofBitVec).toArray⟩ with
      | some text => loadText display text.toList
      | none => defaults
  | .error _ => defaults

def showFlag (value : Bool) : Text := if value then "true".toList else "false".toList

def showResolution : Option (UInt32 × UInt32) → Text
  | some (w, h) => Nat.toDigits 10 w.toNat ++ 'x' :: Nat.toDigits 10 h.toNat
  | none => "native".toList

def fields (settings : Settings) : List (Text × Text) :=
  [("accent_color".toList, settings.accentColor), ("wallpaper".toList, showFlag settings.wallpaper),
    ("show_bg_tasks".toList, showFlag settings.showBgTasks),
    ("resolution".toList, showResolution settings.resolution),
    ("font_scale".toList, Nat.toDigits 10 settings.fontScalePercent.toNat)]

def fieldLine (field : Text × Text) : Text := field.1 ++ '=' :: field.2

def saveText (settings : Settings) : Text :=
  ("# MachaOS settings".toList :: settings.fields.map fieldLine).flatMap (· ++ ['\n'])

def save (settings : Settings) (disk : Disk) : Bool × Disk :=
  match files.writeFile path (Notepad.encode settings.saveText) disk with
  | (.ok (), disk) => (true, disk)
  | (.error _, disk) => (false, disk)

structure Loadable (display : Display) (settings : Settings) : Prop where
  trimmed : Trimmed isWhitespace settings.accentColor
  oneLine : '\n' ∉ settings.accentColor
  fits : ∀ w h, settings.resolution = some (w, h) →
    w ≤ display.physical.1 ∧ h ≤ display.physical.2 ∧ w ≠ 0 ∧ h ≠ 0

variable {display : Display}

theorem defaults_loadable : defaults.Loadable display := by
  refine ⟨isWord_trimmed (isWord_of_all (cons_ne_nil _ _) (by decide)), by decide, ?_⟩
  intro w h never
  cases never

variable {value : Text}

theorem parseResolution_fits {w h : UInt32} (read : parseResolution display value = some (w, h)) :
    w ≤ display.physical.1 ∧ h ≤ display.physical.2 ∧ w ≠ 0 ∧ h ≠ 0 := by
  unfold parseResolution at read
  split at read
  · cases read
  · simp only [bind, Option.bind_eq_some_iff] at read
    obtain ⟨words, -, w', -, h', -, read⟩ := read
    split at read
    · cases read
    · rename_i inside
      cases read
      simp only [not_or, gt_iff_lt, UInt32.not_lt] at inside
      exact inside

variable {settings : Settings}

theorem assign_loadable (loadable : settings.Loadable display) (key : Text)
    (trimmed : Trimmed isWhitespace value) (oneLine : '\n' ∉ value) :
    (settings.assign display key value).Loadable display := by
  unfold assign
  split
  · exact ⟨trimmed, oneLine, loadable.fits⟩
  split
  · exact ⟨loadable.trimmed, loadable.oneLine, loadable.fits⟩
  split
  · exact ⟨loadable.trimmed, loadable.oneLine, loadable.fits⟩
  split
  · exact ⟨loadable.trimmed, loadable.oneLine, fun _ _ read => parseResolution_fits read⟩
  split
  · exact ⟨loadable.trimmed, loadable.oneLine, loadable.fits⟩
  · exact loadable

variable {key : Text}

theorem splitOnce_subset {separator : Char} {text : Text}
    (cut : splitOnce separator text = some (key, value)) : ∀ c ∈ value, c ∈ text := by
  intro c mem
  unfold splitOnce at cut
  split at cut
  · cases cut
    exact (dropWhile_suffix _).subset (mem_of_mem_tail mem)
  · cases cut

theorem readLine_loadable (loadable : settings.Loadable display) {line : Text}
    (oneLine : '\n' ∉ line) : (readLine display settings line).Loadable display := by
  unfold readLine
  simp only
  split
  · exact loadable
  · split
    · rename_i key value cut
      apply assign_loadable loadable _ (trimmed_trim isWhitespace value)
      intro inValue
      exact oneLine (mem_trim (splitOnce_subset cut _ (mem_trim inValue)))
    · exact loadable

theorem foldl_loadable {lines : List Text} (oneLine : ∀ line ∈ lines, '\n' ∉ line)
    (loadable : settings.Loadable display) :
    (lines.foldl (readLine display) settings).Loadable display := by
  induction lines generalizing settings with
  | nil => exact loadable
  | cons line rest ih =>
      exact ih (fun other mem => oneLine other (mem_cons_of_mem line mem))
        (readLine_loadable loadable (oneLine line mem_cons_self))

theorem load_loadable (disk : Disk) : (load files display disk).Loadable display := by
  unfold load
  split
  · split
    · exact foldl_loadable (fun line mem => piece_clean mem) defaults_loadable
    · exact defaults_loadable
  · exact defaults_loadable

theorem splitOnce_append {separator : Char} (clean : separator ∉ key) (value : Text) :
    splitOnce separator (key ++ separator :: value) = some (key, value) := by
  have before : ∀ c ∈ key, decide (c ≠ separator) = true := by
    intro c mem
    rw [decide_eq_true_eq]
    rintro rfl
    exact clean mem
  have stops : decide (separator ≠ separator) = false := by simp
  rw [splitOnce, if_pos (by simp), takeWhile_append_of_pos before,
    dropWhile_append_of_pos before, takeWhile_cons, dropWhile_cons, stops]
  simp only [Bool.false_eq_true, if_false, append_nil, tail_cons]

structure IsKey (key : Text) : Prop where
  word : IsWord isWhitespace key
  noEquals : '=' ∉ key
  noComment : key.head? ≠ some '#'

theorem trimmed_fieldLine (isKey : IsKey key) (trimmed : Trimmed isWhitespace value) :
    Trimmed isWhitespace (fieldLine (key, value)) := by
  constructor
  · rw [fieldLine, List.head?_append_of_ne_nil _ isKey.word.1]
    exact word_head isKey.word
  · rw [fieldLine, List.getLast?_append, List.getLast?_cons]
    intro c last
    cases ends : value.getLast? with
    | none =>
        rw [ends] at last
        cases last
        decide
    | some final =>
        rw [ends] at last
        cases last
        exact trimmed.2 final ends

theorem readLine_field (settings : Settings) (isKey : IsKey key)
    (trimmed : Trimmed isWhitespace value) :
    readLine display settings (fieldLine (key, value)) = settings.assign display key value := by
  have starts : (fieldLine (key, value)).head? = key.head? :=
    List.head?_append_of_ne_nil _ isKey.word.1
  have kept : ¬(fieldLine (key, value) = [] ∨ (fieldLine (key, value)).head? = some '#') := by
    rintro (empty | comment)
    · rw [empty, List.head?_nil] at starts
      exact isKey.word.1 (List.head?_eq_none_iff.mp starts.symm)
    · exact isKey.noComment (starts.symm.trans comment)
  have cut : splitOnce '=' (fieldLine (key, value)) = some (key, value) :=
    splitOnce_append isKey.noEquals value
  unfold readLine
  simp only
  rw [trim_trimmed (trimmed_fieldLine isKey trimmed), if_neg kept, cut]
  dsimp only
  rw [trim_trimmed (isWord_trimmed isKey.word), trim_trimmed trimmed]

theorem parseU32_toDigits (value : UInt32) : parseU32 (Nat.toDigits 10 value.toNat) = some value := by
  rw [parseU32, parseUnsigned_toDigits, Option.bind_some, if_pos value.toNat_lt, UInt32.ofNat_toNat]

theorem parseU16_toDigits (value : UInt16) : parseU16 (Nat.toDigits 10 value.toNat) = some value := by
  rw [parseU16, parseUnsigned_toDigits, Option.bind_some, if_pos value.toNat_lt, UInt16.ofNat_toNat]

theorem digits_no {n : Nat} {c : Char} (noDigit : c.isDigit = false) : c ∉ Nat.toDigits 10 n := by
  intro mem
  have digit := Nat.isDigit_of_mem_toDigits (by decide) (Nat.le_refl 10) mem
  rw [noDigit] at digit
  cases digit

theorem parseResolution_show {resolution : Option (UInt32 × UInt32)}
    (fits : ∀ w h, resolution = some (w, h) →
      w ≤ display.physical.1 ∧ h ≤ display.physical.2 ∧ w ≠ 0 ∧ h ≠ 0) :
    parseResolution display (showResolution resolution) = resolution := by
  cases resolution with
  | none => rfl
  | some size =>
      obtain ⟨w, h⟩ := size
      obtain ⟨wFits, hFits, someW, someH⟩ := fits w h rfl
      have shown : showResolution (some (w, h)) =
          Nat.toDigits 10 w.toNat ++ 'x' :: Nat.toDigits 10 h.toNat := rfl
      have hasX : 'x' ∈ showResolution (some (w, h)) := by
        rw [shown]
        simp
      have named : showResolution (some (w, h)) ≠ "native".toList := by
        intro same
        rw [same] at hasX
        exact absurd hasX (by decide)
      have inside : ¬(w > display.physical.1 ∨ h > display.physical.2 ∨ w = 0 ∨ h = 0) := by
        simp only [not_or, gt_iff_lt, UInt32.not_lt]
        exact ⟨wFits, hFits, someW, someH⟩
      rw [parseResolution, if_neg named, shown, splitOnce_append (digits_no (by decide))]
      simp only [bind, Option.bind, parseU32_toDigits, if_neg inside]

structure IsValue (value : Text) : Prop where
  trimmed : Trimmed isWhitespace value
  oneLine : '\n' ∉ value

theorem isValue_of_word (word : IsWord isWhitespace value) : IsValue value := by
  refine ⟨isWord_trimmed word, ?_⟩
  intro newline
  exact absurd (word.2 _ newline) (by decide)

theorem showFlag_isWord (value : Bool) : IsWord isWhitespace (showFlag value) := by
  cases value <;> exact isWord_of_all (by decide) (by decide)

theorem showResolution_isWord (resolution : Option (UInt32 × UInt32)) :
    IsWord isWhitespace (showResolution resolution) := by
  cases resolution with
  | none => exact isWord_of_all (by decide) (by decide)
  | some size =>
      refine ⟨append_ne_nil_of_right_ne_nil _ (cons_ne_nil _ _), ?_⟩
      intro c mem
      rcases mem_append.mp mem with width | later
      · exact (Session.toDigits_isWord _).2 c width
      · rcases mem_cons.mp later with rfl | height
        · decide
        · exact (Session.toDigits_isWord _).2 c height

theorem isKey_of_mem
    (mem : key ∈ ["accent_color", "wallpaper", "show_bg_tasks",
    "resolution", "font_scale"].map String.toList) :
    IsKey key := by
  have each : (["accent_color", "wallpaper", "show_bg_tasks", "resolution",
      "font_scale"].map String.toList).all (fun key => !key.isEmpty &&
        key.all (fun c => !isWhitespace c) && decide ('=' ∉ key ∧ key.head? ≠ some '#')) = true := by
    decide
  have clean := all_eq_true.mp each key mem
  simp only [Bool.and_eq_true, decide_eq_true_eq, Bool.not_eq_true', isEmpty_eq_false_iff] at clean
  exact ⟨isWord_of_all clean.1.1 clean.1.2, clean.2.1, clean.2.2⟩

theorem fields_clean (loadable : settings.Loadable display) :
    ∀ field ∈ settings.fields, IsKey field.1 ∧ IsValue field.2 := by
  intro field mem
  constructor
  · apply isKey_of_mem
    exact mem_map_of_mem (f := Prod.fst) mem
  · simp only [fields, mem_cons, not_mem_nil, or_false] at mem
    rcases mem with rfl | rfl | rfl | rfl | rfl
    · exact ⟨loadable.trimmed, loadable.oneLine⟩
    · exact isValue_of_word (showFlag_isWord _)
    · exact isValue_of_word (showFlag_isWord _)
    · exact isValue_of_word (showResolution_isWord _)
    · exact isValue_of_word (Session.toDigits_isWord _)

theorem oneLine_fieldLine {field : Text × Text} (isKey : IsKey field.1) (isValue : IsValue field.2) :
    '\n' ∉ fieldLine field := by
  intro newline
  rcases mem_append.mp newline with inKey | later
  · exact (isValue_of_word isKey.word).oneLine inKey
  · rcases mem_cons.mp later with never | inValue
    · exact absurd never (by decide)
    · exact isValue.oneLine inValue

theorem splitOn_lines {lines : List Text} (oneLine : ∀ line ∈ lines, '\n' ∉ line) :
    (lines.flatMap (· ++ ['\n'])).splitOn '\n' = lines ++ [[]] := by
  induction lines with
  | nil => rfl
  | cons line rest ih =>
      rw [flatMap_cons, append_assoc, singleton_append,
        splitOn_append_cons_self_of_not_mem (oneLine line mem_cons_self),
        ih (fun other mem => oneLine other (mem_cons_of_mem line mem)), cons_append]

theorem foldl_fields {fields : List (Text × Text)}
    (clean : ∀ field ∈ fields, IsKey field.1 ∧ IsValue field.2) (settings : Settings) :
    (fields.map fieldLine).foldl (readLine display) settings =
      fields.foldl (fun settings field => settings.assign display field.1 field.2) settings := by
  induction fields generalizing settings with
  | nil => rfl
  | cons field rest ih =>
      obtain ⟨isKey, isValue⟩ := clean field mem_cons_self
      rw [map_cons, foldl_cons, readLine_field settings isKey isValue.trimmed,
        ih (fun other mem => clean other (mem_cons_of_mem field mem)), foldl_cons]

theorem showFlag_true (value : Bool) : decide (showFlag value = "true".toList) = value := by
  cases value <;> decide

theorem foldl_assign (loadable : settings.Loadable display) :
    settings.fields.foldl (fun settings field => settings.assign display field.1 field.2) defaults =
      settings := by
  have resolution := parseResolution_show loadable.fits
  have accent : ∀ (old : Settings) (value : Text), old.assign display "accent_color".toList value =
      { old with accentColor := value } := by
    intro old value
    exact if_pos rfl
  have wallpaper : ∀ (old : Settings) (value : Text), old.assign display "wallpaper".toList value =
      { old with wallpaper := value = "true".toList } := by
    intro old value
    rw [assign, if_neg (by decide), if_pos rfl]
  have tasks : ∀ (old : Settings) (value : Text), old.assign display "show_bg_tasks".toList value =
      { old with showBgTasks := value = "true".toList } := by
    intro old value
    rw [assign, if_neg (by decide), if_neg (by decide), if_pos rfl]
  have size : ∀ (old : Settings) (value : Text), old.assign display "resolution".toList value =
      { old with resolution := parseResolution display value } := by
    intro old value
    rw [assign, if_neg (by decide), if_neg (by decide), if_neg (by decide), if_pos rfl]
  have scale : ∀ (old : Settings) (value : Text), old.assign display "font_scale".toList value =
      { old with fontScalePercent := (parseU16 value).getD 100 } := by
    intro old value
    rw [assign, if_neg (by decide), if_neg (by decide), if_neg (by decide), if_neg (by decide),
      if_pos rfl]
  simp only [fields, foldl_cons, foldl_nil, accent, wallpaper, tasks, size, scale,
    showFlag_true, resolution, parseU16_toDigits, Option.getD_some]

theorem loadText_saveText (loadable : settings.Loadable display) :
    loadText display settings.saveText = settings := by
  have clean := fields_clean loadable
  have oneLine : ∀ line ∈ "# MachaOS settings".toList :: settings.fields.map fieldLine,
      '\n' ∉ line := by
    intro line mem
    rcases mem_cons.mp mem with rfl | later
    · decide
    · obtain ⟨field, isField, rfl⟩ := mem_map.mp later
      exact oneLine_fieldLine (clean field isField).1 (clean field isField).2
  have comment : readLine display defaults "# MachaOS settings".toList = defaults := by
    have hash : (trim isWhitespace "# MachaOS settings".toList).head? = some '#' := by decide
    unfold readLine
    exact if_pos (Or.inr hash)
  have last : ∀ old, readLine display old [] = old := by
    intro old
    have none : trim isWhitespace [] = [] := rfl
    unfold readLine
    exact if_pos (Or.inl none)
  have lines := splitOn_lines oneLine
  unfold loadText saveText
  rw [lines]
  simp only [foldl_append, foldl_cons, foldl_nil]
  rw [comment, foldl_fields clean, foldl_assign loadable]
  exact last settings

theorem fromUTF8_encode (text : Text) :
    (String.fromUTF8? ⟨((Notepad.encode text).map UInt8.ofBitVec).toArray⟩).map String.toList =
      some text := by
  have back : UInt8.ofBitVec ∘ UInt8.toBitVec = id := rfl
  have bytes : ((Notepad.encode text).map UInt8.ofBitVec).toArray =
      (String.ofList text).toUTF8.data := by
    rw [Notepad.encode, map_map, back, map_id, Array.toArray_toList]
  have valid : (String.ofList text).toUTF8.IsValidUTF8 := (String.ofList text).isValidUTF8
  have whole : (⟨(String.ofList text).toUTF8.data⟩ : ByteArray) = (String.ofList text).toUTF8 := rfl
  rw [bytes, whole, String.fromUTF8?, dif_pos valid, Option.map_some]
  exact congrArg some String.toList_ofList

theorem load_of_read {files : Notepad.Files Disk} {disk : Disk} {text : Text}
    (read : files.readFile path disk = .ok (Notepad.encode text)) :
    load files display disk = loadText display text := by
  obtain ⟨decoded, isText, same⟩ := Option.map_eq_some_iff.mp (fromUTF8_encode text)
  rw [load, read]
  dsimp only
  rw [isText]
  dsimp only
  rw [same]

end Settings

end Desktop

end MachaOS
