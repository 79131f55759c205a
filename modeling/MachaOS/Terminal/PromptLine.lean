/-
What a terminal window shows of the line that is edited: `LineEditor` prints to a console, after a
prompt.

`printed` is what `feed` prints for each event.  What a submitted line leaves of the console, and the
prompt at each event, come with the event: commands print and change the working directory.
`submitted` is the one field the source does not have; it keeps the lines that were submitted.
-/

import MachaOS.Notepad.Editor
import MachaOS.Terminal.Teletype
import Mathlib.Data.List.Destutter

namespace MachaOS

namespace Shell

open List
open Keyboard Terminal
open Notepad (encode encode_append)

namespace LineEditor

def setLinePrinted (editor : LineEditor) (newLine : Line) : List TextByte :=
  List.replicate editor.line.length backspace ++ encode newLine

def historyUpPrinted (editor : LineEditor) : List TextByte :=
  if editor.history = [] then []
  else
    match editor.historyIndex with
    | none => editor.setLinePrinted (editor.history.getD (editor.history.length - 1) [])
    | some i => editor.setLinePrinted (editor.history.getD (i - 1) [])

def historyDownPrinted (editor : LineEditor) : List TextByte :=
  match editor.historyIndex with
  | some i =>
      if i + 1 < editor.history.length then
        editor.setLinePrinted (editor.history.getD (i + 1) [])
      else editor.setLinePrinted editor.draft
  | none => []

def candidates (line : Line) : List Line :=
  if line = [] ∨ ' ' ∈ line then []
  else commands.filter (fun command => line.isPrefixOf command)

def completePrinted (prompt : Line) (editor : LineEditor) : List TextByte :=
  match candidates editor.line with
  | [] => []
  | [only] => encode (only.drop editor.line.length)
  | first :: second :: rest =>
      newline :: encode ("  ".toList.intercalate (first :: second :: rest)) ++
        newline :: encode (prompt ++ editor.line)

/-- What `feed` prints. -/
def printed (prompt : Line) (editor : LineEditor) : Event → List TextByte
  | .char c => if byteLength editor.line < lineCapacity then encode [c] else []
  | .backspace => if editor.line = [] then [] else [backspace]
  | .enter => [newline]
  | .tab => editor.completePrinted prompt
  | .up => editor.historyUpPrinted
  | .down => editor.historyDownPrinted
  | .left | .right | .escape | .f2 | .ctrl _ => []

/-- Whether `feed` prints the prompt again. -/
def reprompts (editor : LineEditor) (event : Event) : Bool :=
  decide (event = .tab ∧ 1 < (candidates editor.line).length)

end LineEditor

structure Editing where
  editor : LineEditor
  console : Console
  prompt : Line
  submitted : List Line

structure Turn where
  event : Event
  prompt : Line
  run : Line → Console → Console

namespace Editing

/-- `handle_key` for a terminal. -/
def next (editing : Editing) (turn : Turn) : Editing :=
  let console := editing.console.write (editing.editor.printed turn.prompt turn.event)
  match editing.editor.feed turn.event with
  | (editor, .pending) =>
      { editing with
        editor
        console
        prompt := if editing.editor.reprompts turn.event then turn.prompt else editing.prompt }
  | (editor, .line line) =>
      { editor
        console := (turn.run line console).write (encode turn.prompt)
        prompt := turn.prompt
        submitted := editing.submitted ++ [line] }

end Editing

def Printable (c : Char) : Prop := 0x20 ≤ c.toNat ∧ c.toNat ≤ 0x7E

instance (c : Char) : Decidable (Printable c) := inferInstanceAs (Decidable (_ ∧ _))

def AllPrintable (line : Line) : Prop := ∀ c ∈ line, Printable c

theorem encode_char {c : Char} (printable : Printable c) : encode [c] = [BitVec.ofNat 8 c.toNat] := by
  have size : c.utf8Size = 1 := by
    rw [Char.utf8Size_eq_one_iff, UInt32.le_iff_toNat_le]
    exact printable.2.trans (by decide)
  have bytes : (String.ofList [c]).toUTF8.data.toList = String.utf8EncodeChar c := by
    simp [utf8Encode_singleton]
  rw [encode, bytes, String.utf8EncodeChar_eq_singleton size]
  rfl

theorem plain_char {c : Char} (printable : Printable c) :
    Console.Plain (BitVec.ofNat 8 c.toNat) := by
  obtain ⟨low, high⟩ := printable
  have differs : ∀ other : Nat, other < 0x20 → BitVec.ofNat 8 c.toNat ≠ BitVec.ofNat 8 other := by
    intro other control same
    have values := congrArg BitVec.toNat same
    rw [BitVec.toNat_ofNat, BitVec.toNat_ofNat, Nat.mod_eq_of_lt (by omega),
      Nat.mod_eq_of_lt (by omega)] at values
    omega
  exact ⟨differs 0x0A (by decide), differs 0x0D (by decide), differs 0x08 (by decide),
    differs 0x09 (by decide)⟩

theorem encode_printable {line : Line} (printable : AllPrintable line) :
    (encode line).length = line.length ∧ ∀ byte ∈ encode line, Console.Plain byte := by
  induction line with
  | nil =>
      refine ⟨rfl, ?_⟩
      intro byte never
      cases never
  | cons c rest ih =>
      have first := printable c mem_cons_self
      have others := ih (fun other mem => printable other (mem_cons_of_mem c mem))
      have split : encode (c :: rest) = BitVec.ofNat 8 c.toNat :: encode rest := by
        have pieces := encode_append [c] rest
        rw [encode_char first] at pieces
        exact pieces
      rw [split]
      constructor
      · rw [length_cons, length_cons, others.1]
      · intro byte mem
        rcases mem_cons.mp mem with rfl | later
        · exact plain_char first
        · exact others.2 byte later

/-! ### Writing behind a text -/

namespace Showing

open Console

variable {console : Console} {before text : List TextByte}

variable {bytes : List TextByte}

theorem write_behind (someCol : 0 < console.cols) (filled : Filled console (before ++ text))
    (whole : console.cols ∣ before.length) (plain : ∀ byte ∈ bytes, Plain byte)
    (fits : text.length + bytes.length ≤ console.cols * console.rows) :
    ∃ before', console.cols ∣ before'.length ∧
      Filled (console.write bytes) (before' ++ (text ++ bytes)) := by
  induction bytes generalizing console before text with
  | nil =>
      refine ⟨before, whole, ?_⟩
      rw [append_nil]
      exact filled
  | cons byte rest ih =>
      have size := @writeByte_size console byte
      have drawn := filled.put someCol byte
      have first : ∃ before', console.cols ∣ before'.length ∧
          Filled (console.writeByte byte) (before' ++ (text ++ [byte])) := by
        rw [writeByte_plain (plain byte mem_cons_self)]
        rw [length_cons] at fits
        by_cases scrolls : console.cols ≤ console.col ∧ console.rows ≤ console.row + 1
        · -- The grid is full, so the text begins below the first row.
          have place := filled.place
          have inside := filled.row
          have col := filled.col
          have last : console.row = console.rows - 1 := by omega
          have all : (before ++ text).length = console.cols * console.rows := by
            obtain ⟨above, rows⟩ := Nat.exists_eq_add_of_lt (Nat.zero_lt_of_lt inside)
            rw [Nat.zero_add] at rows
            rw [place, Spans.entry, last, rows, Nat.add_sub_cancel, Nat.mul_succ, Nat.mul_comm above]
            omega
          rw [length_append] at all
          have row : console.cols ≤ before.length := Nat.le_of_dvd (by omega) whole
          refine ⟨before.drop console.cols, ?_, ?_⟩
          · rw [length_drop]
            exact Nat.dvd_sub whole (Nat.dvd_refl _)
          · rw [if_pos scrolls.1, kept, if_pos scrolls.2, drop_append_of_le_length row,
              append_assoc] at drawn
            exact drawn
        · refine ⟨before, whole, ?_⟩
          have stays : (if console.cols ≤ console.col then console.kept (before ++ text)
              else before ++ text) = before ++ text := by
            by_cases full : console.cols ≤ console.col
            · rw [if_pos full, kept, if_neg (fun bottom => scrolls ⟨full, bottom⟩)]
            · rw [if_neg full]
          rw [stays, append_assoc] at drawn
          exact drawn
      obtain ⟨middle, aligned, put⟩ := first
      rw [← size.1] at someCol aligned
      obtain ⟨before', whole', behind⟩ := ih someCol put aligned
        (fun other mem => plain other (mem_cons_of_mem byte mem))
        (by
          rw [size.1, size.2, length_append, length_singleton]
          rw [length_cons] at fits
          omega)
      rw [size.1] at whole'
      rw [append_assoc, singleton_append] at behind
      exact ⟨before', whole', behind⟩

theorem write_backspaces (someCol : 0 < console.cols) (tail : List TextByte)
    (filled : Filled console (text ++ tail)) :
    Filled (console.write (List.replicate tail.length backspace)) text := by
  induction tail using List.reverseRecOn generalizing console with
  | nil =>
      rw [append_nil] at filled
      exact filled
  | append_singleton front byte ih =>
      have erased := filled.erase someCol
      rw [← append_assoc, dropLast_concat, ← writeByte_backspace] at erased
      rw [length_append, length_singleton, replicate_succ]
      rw [← (@writeByte_size console backspace).1] at someCol
      exact ih someCol erased

def Fresh (console : Console) : Prop :=
  console.col = 0 ∧ ∃ before, Filled console before

theorem fresh_newline (filled : Filled console text) : Fresh (console.writeByte newline) := by
  rw [writeByte_newline]
  exact ⟨lineFeed_col, _, filled.lineFeed⟩

theorem write_plain_filled (someCol : 0 < console.cols) (filled : Filled console text)
    (plain : ∀ byte ∈ bytes, Plain byte) : ∃ text', Filled (console.write bytes) text' := by
  induction bytes generalizing console text with
  | nil => exact ⟨text, filled⟩
  | cons byte rest ih =>
      have drawn := filled.put someCol byte
      rw [← writeByte_plain (plain byte mem_cons_self)] at drawn
      rw [← (@writeByte_size console byte).1] at someCol
      exact ih someCol drawn (fun other mem => plain other (mem_cons_of_mem byte mem))

/-- The grid ends with the prompt, at the beginning of a row, and the line; behind it everything is
blank and the cursor is there. -/
def Shows (console : Console) (prompt line : List TextByte) : Prop :=
  ∃ before, console.cols ∣ before.length ∧ Filled console (before ++ (prompt ++ line))

theorem Fresh.shows (someCol : 0 < console.cols) (fresh : Fresh console)
    {prompt line : List TextByte} (plain : ∀ byte ∈ prompt ++ line, Plain byte)
    (fits : prompt.length + line.length ≤ console.cols * console.rows) :
    Shows (console.write (prompt ++ line)) prompt line := by
  obtain ⟨first, before, filled⟩ := fresh
  have whole : console.cols ∣ before.length := by
    rw [filled.place, Spans.entry, first, Nat.add_zero]
    exact Nat.dvd_mul_left _ _
  have start : Filled console (before ++ []) := by
    rw [append_nil]
    exact filled
  obtain ⟨before', whole', written⟩ := write_behind someCol start whole plain
    (by
      rw [length_nil, length_append]
      omega)
  refine ⟨before', ?_, written⟩
  rw [(write_size _).1]
  exact whole'

theorem Fresh.shows_prompt (someCol : 0 < console.cols) (fresh : Fresh console)
    (plain : ∀ byte ∈ prompt, Plain byte) (fits : prompt.length ≤ console.cols * console.rows) :
    Shows (console.write prompt) prompt [] := by
  have shows := @Fresh.shows console someCol fresh prompt []
  rw [append_nil] at shows
  exact shows plain fits

variable {prompt line : List TextByte}

theorem Shows.append (someCol : 0 < console.cols) (shows : Shows console prompt line)
    (plain : ∀ byte ∈ bytes, Plain byte)
    (fits : prompt.length + (line ++ bytes).length ≤ console.cols * console.rows) :
    Shows (console.write bytes) prompt (line ++ bytes) := by
  obtain ⟨before, whole, filled⟩ := shows
  rw [length_append] at fits
  obtain ⟨before', whole', written⟩ := write_behind someCol filled whole plain
    (by
      rw [length_append]
      omega)
  refine ⟨before', ?_, ?_⟩
  · rw [(write_size _).1]
    exact whole'
  · rw [append_assoc] at written
    exact written

theorem Shows.erase (someCol : 0 < console.cols) {tail : List TextByte}
    (shows : Shows console prompt (line ++ tail)) :
    Shows (console.write (List.replicate tail.length backspace)) prompt line := by
  obtain ⟨before, whole, filled⟩ := shows
  refine ⟨before, ?_, ?_⟩
  · rw [(write_size _).1]
    exact whole
  · rw [← append_assoc, ← append_assoc] at filled
    rw [← append_assoc]
    exact write_backspaces someCol tail filled

theorem Shows.replace (someCol : 0 < console.cols) (shows : Shows console prompt line)
    (plain : ∀ byte ∈ bytes, Plain byte)
    (fits : prompt.length + bytes.length ≤ console.cols * console.rows) :
    Shows (console.write (List.replicate line.length backspace ++ bytes)) prompt bytes := by
  have empty : Shows (console.write (List.replicate line.length backspace)) prompt [] := by
    apply Shows.erase someCol
    rw [nil_append]
    exact shows
  have size := @write_size console (List.replicate line.length backspace)
  rw [write_append]
  exact empty.append (by rw [size.1]; exact someCol) plain
    (by rw [size.1, size.2]; exact fits)

theorem Shows.leave (someCol : 0 < console.cols) (shows : Shows console prompt line)
    (plain : ∀ byte ∈ bytes, Plain byte) :
    Fresh (console.write (newline :: bytes ++ [newline])) := by
  obtain ⟨before, -, filled⟩ := shows
  obtain ⟨-, text, below⟩ := fresh_newline filled
  rw [← (@writeByte_size console newline).1] at someCol
  obtain ⟨text', listed⟩ := write_plain_filled someCol below plain
  rw [write_append]
  exact fresh_newline listed

end Showing

def lastOf {T : Type} (count : Nat) (list : List T) : List T :=
  list.drop (list.length - count)

def collapsed (submitted : List Line) : List Line :=
  (submitted.filter (fun line => line ≠ [])).destutter (fun earlier later => earlier ≠ later)

theorem destutter'_concat (line last : Line) (lines : List Line) :
    List.destutter' (fun earlier later => earlier ≠ later) line (lines ++ [last]) =
      if (List.destutter' (fun earlier later => earlier ≠ later) line lines).getLast? = some last then
        List.destutter' (fun earlier later => earlier ≠ later) line lines
      else List.destutter' (fun earlier later => earlier ≠ later) line lines ++ [last] := by
  induction lines generalizing line with
  | nil =>
      rw [nil_append, List.destutter'_singleton, List.destutter'_nil, List.getLast?_singleton]
      by_cases same : line = last
      · rw [if_neg (not_not_intro same), if_pos (congrArg some same)]
      · rw [if_pos same, if_neg (fun equal => same (Option.some.inj equal))]
        rfl
  | cons next rest ih =>
      rw [cons_append]
      by_cases same : line = next
      · rw [List.destutter'_cons_neg _ (not_not_intro same),
          List.destutter'_cons_neg _ (not_not_intro same)]
        exact ih line
      · have some : List.destutter' (fun earlier later => earlier ≠ later) next rest ≠ [] :=
          List.destutter'_ne_nil _ _
        rw [List.destutter'_cons_pos _ same, List.destutter'_cons_pos _ same, ih next,
          List.getLast?_cons]
        obtain ⟨front, final, cut⟩ := eq_nil_or_concat'
          (List.destutter' (fun earlier later => earlier ≠ later) next rest) |>.resolve_left some
        rw [cut, List.getLast?_concat, Option.getD_some]
        split
        · rfl
        · rfl

theorem collapsed_empty (submitted : List Line) :
    collapsed (submitted ++ [[]]) = collapsed submitted := by
  rw [collapsed, filter_append]
  exact congrArg (List.destutter _) (append_nil _)

theorem collapsed_concat (submitted : List Line) {line : Line} (nonempty : line ≠ []) :
    collapsed (submitted ++ [line]) =
      if (collapsed submitted).getLast? = some line then collapsed submitted
      else collapsed submitted ++ [line] := by
  have kept : (submitted ++ [line]).filter (fun other => other ≠ []) =
      submitted.filter (fun other => other ≠ []) ++ [line] := by
    rw [filter_append, filter_cons_of_pos (by simpa using nonempty), filter_nil]
  unfold collapsed
  rw [kept]
  cases submitted.filter (fun other => other ≠ []) with
  | nil => rfl
  | cons first rest => exact destutter'_concat first line rest

theorem getLast?_lastOf {T : Type} {count : Nat} (positive : 0 < count) (list : List T) :
    (lastOf count list).getLast? = list.getLast? := by
  rw [lastOf, List.getLast?_drop]
  cases list with
  | nil => rfl
  | cons first rest =>
      rw [if_neg]
      rw [length_cons]
      omega

theorem lastOf_concat {T : Type} {count : Nat} (positive : 0 < count) (list : List T) (last : T) :
    lastOf count (list ++ [last]) =
      (if count ≤ (lastOf count list).length then (lastOf count list).drop 1
        else lastOf count list) ++ [last] := by
  have length : (lastOf count list).length = min count list.length := by
    rw [lastOf, length_drop]
    omega
  rw [length, lastOf, length_append, length_singleton]
  by_cases many : count ≤ list.length
  · rw [if_pos (by omega), lastOf, drop_drop, drop_append_of_le_length (by omega)]
    congr 2
    omega
  · rw [if_neg (by omega), lastOf, drop_append_of_le_length (by omega)]
    congr 2
    omega

theorem recorded_collapsed (submitted : List Line) (line : Line) :
    recorded (lastOf historyCapacity (collapsed submitted)) line =
      lastOf historyCapacity (collapsed (submitted ++ [line])) := by
  have positive : 0 < historyCapacity := by decide
  by_cases empty : line = []
  · subst empty
    rw [collapsed_empty, recorded, if_neg (fun both => both.1 rfl)]
  · rw [recorded, collapsed_concat submitted empty, getLast?_lastOf positive]
    by_cases repeats : (collapsed submitted).getLast? = some line
    · rw [if_pos repeats, if_neg (fun both => both.2 repeats)]
    · rw [if_neg repeats, if_pos ⟨empty, repeats⟩, lastOf_concat positive]

/-! ### What an event keeps -/

instance (line : Line) : Decidable (AllPrintable line) := List.decidableBAll _ line

theorem AllPrintable.append {first second : Line} (left : AllPrintable first)
    (right : AllPrintable second) : AllPrintable (first ++ second) := by
  intro c mem
  rcases mem_append.mp mem with inFirst | inSecond
  · exact left c inFirst
  · exact right c inSecond

theorem AllPrintable.sub {line piece : Line} (printable : AllPrintable line)
    (part : ∀ c ∈ piece, c ∈ line) : AllPrintable piece :=
  fun c mem => printable c (part c mem)

theorem commands_printable : ∀ command ∈ commands, AllPrintable command := by decide

namespace LineEditor

variable {editor : LineEditor}

structure Readable (editor : LineEditor) : Prop where
  line : AllPrintable editor.line
  draft : AllPrintable editor.draft
  history : ∀ line ∈ editor.history, AllPrintable line

theorem Readable.recalled (readable : editor.Readable) (i : Nat) :
    AllPrintable (editor.history.getD i []) := by
  rw [getD_eq_getElem?_getD]
  cases found : editor.history[i]? with
  | none =>
      intro c never
      cases never
  | some line => exact readable.history line (mem_of_getElem? found)

theorem candidates_printable {line command : Line} (mem : command ∈ candidates line) :
    AllPrintable command := by
  unfold candidates at mem
  split at mem
  · cases mem
  · exact commands_printable command (mem_filter.mp mem).1

theorem completed_eq (line : Line) :
    completed line =
      match candidates line with
      | [only] => line ++ only.drop line.length
      | _ => line := by
  unfold completed candidates
  split
  · rfl
  · rfl

theorem Readable.completed (readable : editor.Readable) :
    AllPrintable (Shell.completed editor.line) := by
  rw [completed_eq]
  cases found : candidates editor.line with
  | nil => exact readable.line
  | cons only others =>
      cases others with
      | nil =>
          have printable : AllPrintable only := by
            apply @candidates_printable editor.line
            rw [found]
            exact mem_cons_self
          exact readable.line.append (printable.sub (fun c => mem_of_mem_drop))
      | cons second rest => exact readable.line

theorem mem_recorded {history : List Line} {line kept : Line}
    (mem : kept ∈ recorded history line) : kept ∈ history ∨ kept = line := by
  unfold recorded at mem
  split at mem
  · rcases mem_append.mp mem with before | last
    · left
      split at before
      · exact mem_of_mem_drop before
      · exact before
    · right
      exact mem_singleton.mp last
  · exact Or.inl mem

theorem Readable.feed (readable : editor.Readable) {event : Event}
    (typed : ∀ c, event = .char c → Printable c) : (editor.feed event).1.Readable := by
  obtain ⟨line, draft, history⟩ := id readable
  cases event with
  | char c =>
      refine ⟨?_, draft, history⟩
      change AllPrintable (Shell.typed editor.line c)
      unfold Shell.typed
      split
      · refine line.append ?_
        intro last mem
        obtain rfl := mem_singleton.mp mem
        exact typed last rfl
      · exact line
  | backspace => exact ⟨line.sub (fun c => mem_of_mem_dropLast), draft, history⟩
  | enter =>
      refine ⟨?_, ?_, ?_⟩
      · intro c never
        cases never
      · intro c never
        cases never
      · intro kept mem
        rcases mem_recorded mem with before | rfl
        · exact history kept before
        · exact line
  | tab => exact ⟨readable.completed, draft, history⟩
  | left | right | escape | f2 | ctrl c => exact readable
  | up =>
      simp only [LineEditor.feed, historyUp]
      split
      · exact readable
      · cases editor.historyIndex with
        | none => exact ⟨readable.recalled _, line, history⟩
        | some i => exact ⟨readable.recalled _, draft, history⟩
  | down =>
      simp only [LineEditor.feed, historyDown]
      cases editor.historyIndex with
      | none => exact readable
      | some i =>
          simp only
          split
          · exact ⟨readable.recalled _, draft, history⟩
          · refine ⟨draft, ?_, history⟩
            intro c never
            cases never

open Showing

variable {console : Console} {prompt : List TextByte}

theorem shows_setLine (readable : editor.Readable) (someCol : 0 < console.cols)
    (shows : Shows console prompt (encode editor.line)) {newLine : Line}
    (printable : AllPrintable newLine)
    (fits : prompt.length + (encode newLine).length ≤ console.cols * console.rows) :
    Shows (console.write (editor.setLinePrinted newLine)) prompt (encode newLine) := by
  have cells := (encode_printable readable.line).1
  rw [setLinePrinted, ← cells]
  exact shows.replace someCol (encode_printable printable).2 fits

theorem shows_char (someCol : 0 < console.cols)
    (shows : Shows console prompt (encode editor.line)) {c : Char} (printable : Printable c)
    (fits : prompt.length + (encode (typed editor.line c)).length ≤ console.cols * console.rows) :
    Shows (console.write (if byteLength editor.line < lineCapacity then encode [c] else [])) prompt
      (encode (typed editor.line c)) := by
  unfold typed at fits ⊢
  by_cases room : byteLength editor.line < lineCapacity
  · rw [if_pos room, encode_append] at fits
    rw [if_pos room, if_pos room, encode_append]
    have single : AllPrintable [c] := by
      intro last mem
      obtain rfl := mem_singleton.mp mem
      exact printable
    exact shows.append someCol (encode_printable single).2 fits
  · rw [if_neg room, if_neg room]
    exact shows

section

variable (readable : editor.Readable) (someCol : 0 < console.cols)
  (shows : Shows console prompt (encode editor.line))
include readable someCol shows

theorem shows_backspace :
    Shows (console.write (if editor.line = [] then [] else [backspace])) prompt
      (encode editor.line.dropLast) := by
  by_cases empty : editor.line = []
  · rw [if_pos empty, empty]
    rw [empty] at shows
    exact shows
  · rw [if_neg empty]
    have last : AllPrintable [editor.line.getLast empty] := by
      intro c mem
      obtain rfl := mem_singleton.mp mem
      exact readable.line _ (getLast_mem empty)
    have one : (encode [editor.line.getLast empty]).length = 1 := (encode_printable last).1
    rw [← dropLast_append_getLast empty, encode_append] at shows
    have erased := shows.erase someCol
    rw [one] at erased
    exact erased

theorem shows_historyUp
    (fits : prompt.length + (encode editor.historyUp.line).length ≤ console.cols * console.rows) :
    Shows (console.write editor.historyUpPrinted) prompt (encode editor.historyUp.line) := by
  unfold historyUp at fits ⊢
  unfold historyUpPrinted
  by_cases empty : editor.history = []
  · rw [if_pos empty, if_pos empty]
    exact shows
  · rw [if_neg empty] at fits
    rw [if_neg empty, if_neg empty]
    cases indexed : editor.historyIndex with
    | none =>
        rw [indexed] at fits
        exact shows_setLine readable someCol shows (readable.recalled _) fits
    | some i =>
        rw [indexed] at fits
        exact shows_setLine readable someCol shows (readable.recalled _) fits

theorem shows_historyDown
    (fits : prompt.length + (encode editor.historyDown.line).length ≤ console.cols * console.rows) :
    Shows (console.write editor.historyDownPrinted) prompt (encode editor.historyDown.line) := by
  unfold historyDown at fits ⊢
  unfold historyDownPrinted
  cases indexed : editor.historyIndex with
  | none => exact shows
  | some i =>
      rw [indexed] at fits
      simp only at fits ⊢
      by_cases more : i + 1 < editor.history.length
      · rw [if_pos more] at fits
        rw [if_pos more, if_pos more]
        exact shows_setLine readable someCol shows (readable.recalled _) fits
      · rw [if_neg more] at fits
        rw [if_neg more, if_neg more]
        exact shows_setLine readable someCol shows readable.draft fits

end

theorem joined_printable {separator : Line} (between : AllPrintable separator) {names : List Line}
    (printable : ∀ name ∈ names, AllPrintable name) : AllPrintable (separator.intercalate names) := by
  induction names with
  | nil =>
      intro c never
      cases never
  | cons name rest ih =>
      have first := printable name mem_cons_self
      have others := ih (fun other mem => printable other (mem_cons_of_mem name mem))
      cases rest with
      | nil =>
          rw [intercalate_singleton]
          exact first
      | cons second more =>
          rw [intercalate_cons_cons]
          exact (first.append between).append others

theorem shows_listed (readable : editor.Readable) (someCol : 0 < console.cols)
    (shows : Shows console prompt (encode editor.line)) {again names : List TextByte}
    (plain : ∀ byte ∈ again, Console.Plain byte) (listed : ∀ byte ∈ names, Console.Plain byte)
    (fits : again.length + (encode editor.line).length ≤ console.cols * console.rows) :
    Shows (console.write (newline :: names ++ newline :: (again ++ encode editor.line))) again
      (encode editor.line) := by
  have split : newline :: names ++ newline :: (again ++ encode editor.line) =
      (newline :: names ++ [newline]) ++ (again ++ encode editor.line) := by
    rw [append_assoc, singleton_append]
  have size := @Console.write_size console (newline :: names ++ [newline])
  have left := shows.leave someCol listed
  rw [split, Console.write_append]
  refine left.shows ?_ ?_ ?_
  · rw [size.1]
    exact someCol
  · intro byte mem
    rcases mem_append.mp mem with inPrompt | inLine
    · exact plain byte inPrompt
    · exact (encode_printable readable.line).2 byte inLine
  · rw [size.1, size.2]
    exact fits

theorem shows_printed (readable : editor.Readable) (someCol : 0 < console.cols) {shown again : Line}
    (shows : Shows console (encode shown) (encode editor.line)) {event : Event}
    (stays : event ≠ .enter) (typed : ∀ c, event = .char c → Printable c)
    (plain : ∀ byte ∈ encode again, Console.Plain byte)
    (fits : (encode (if editor.reprompts event then again else shown)).length +
      (encode (editor.feed event).1.line).length ≤ console.cols * console.rows) :
    Shows (console.write (editor.printed again event))
      (encode (if editor.reprompts event then again else shown))
      (encode (editor.feed event).1.line) := by
  cases event with
  | char c => exact shows_char someCol shows (typed c rfl) fits
  | backspace => exact shows_backspace readable someCol shows
  | enter => exact absurd rfl stays
  | up => exact shows_historyUp readable someCol shows fits
  | down => exact shows_historyDown readable someCol shows fits
  | left | right | escape | f2 | ctrl c => exact shows
  | tab =>
      have completes : (editor.feed .tab).1.line = completed editor.line := rfl
      rw [completes, completed_eq] at fits ⊢
      unfold printed completePrinted
      unfold reprompts at fits ⊢
      cases found : candidates editor.line with
      | nil => exact shows
      | cons only others =>
          have printable : ∀ name ∈ candidates editor.line, AllPrintable name :=
            fun name => candidates_printable
          rw [found] at fits printable
          cases others with
          | nil =>
              have rest : AllPrintable (only.drop editor.line.length) :=
                (printable only mem_cons_self).sub (fun c => mem_of_mem_drop)
              simp only [encode_append] at fits ⊢
              exact shows.append someCol (encode_printable rest).2 fits
          | cons second rest =>
              have spaces : AllPrintable "  ".toList := by decide
              have names := joined_printable spaces printable
              have several : decide (Event.tab = Event.tab ∧
                  1 < (only :: second :: rest).length) = true := by
                apply decide_eq_true
                refine ⟨rfl, ?_⟩
                rw [length_cons, length_cons]
                omega
              rw [several] at fits
              rw [several]
              simp only [encode_append]
              exact shows_listed readable someCol shows plain (encode_printable names).2 fits

end LineEditor

namespace Editing

open Showing

/-- What is asked of an event: a typed character is printable, the prompt is drawn as it is, the
prompt and the line fit on the grid, and a command leaves the cursor on a fresh row. -/
structure Admissible (editing : Editing) (turn : Turn) : Prop where
  typed : ∀ c, turn.event = .char c → Printable c
  prompt : ∀ byte ∈ encode turn.prompt, Console.Plain byte
  fits : (encode (editing.next turn).prompt).length + (encode (editing.next turn).editor.line).length ≤
    editing.console.cols * editing.console.rows
  fresh : turn.event = .enter →
    let ended := editing.console.writeByte newline
    let left := turn.run editing.editor.line ended
    Fresh left ∧ left.cols = ended.cols ∧ left.rows = ended.rows

structure Kept (editing : Editing) : Prop where
  someCol : 0 < editing.console.cols
  readable : editing.editor.Readable
  shows : Shows editing.console (encode editing.prompt) (encode editing.editor.line)
  index : Names editing.editor.historyIndex editing.editor.history
  history : editing.editor.history = lastOf historyCapacity (collapsed editing.submitted)

variable {editing : Editing} {turn : Turn}

theorem next_pending (stays : turn.event ≠ .enter) :
    editing.next turn =
      { editor := (editing.editor.feed turn.event).1
        console := editing.console.write (editing.editor.printed turn.prompt turn.event)
        prompt := if editing.editor.reprompts turn.event then turn.prompt else editing.prompt
        submitted := editing.submitted } := by
  obtain ⟨event, prompt, run⟩ := turn
  cases event with
  | enter => exact absurd rfl stays
  | char c | backspace | tab | up | down | left | right | escape | f2 | ctrl c => rfl

theorem feed_history (stays : turn.event ≠ .enter) :
    (editing.editor.feed turn.event).1.history = editing.editor.history := by
  obtain ⟨event, prompt, run⟩ := turn
  cases event with
  | enter => exact absurd rfl stays
  | char c | backspace | tab | left | right | escape | f2 | ctrl c => rfl
  | up =>
      simp only [LineEditor.feed, LineEditor.historyUp]
      split
      · rfl
      · cases editing.editor.historyIndex <;> rfl
  | down =>
      simp only [LineEditor.feed, LineEditor.historyDown]
      cases editing.editor.historyIndex with
      | none => rfl
      | some i =>
          simp only
          split <;> rfl

theorem Kept.enter (kept : editing.Kept) (admissible : editing.Admissible turn)
    (enters : turn.event = .enter) : (editing.next turn).Kept := by
  have fits := admissible.fits
  have plain := admissible.prompt
  have readable := kept.readable.feed admissible.typed
  obtain ⟨fresh, cols, rows⟩ := admissible.fresh enters
  obtain ⟨event, prompt, run⟩ := turn
  cases enters
  have size := @Console.writeByte_size editing.console newline
  rw [size.1] at cols
  rw [size.2] at rows
  have shows := fresh.shows_prompt (by rw [cols]; exact kept.someCol) plain
    (by rw [cols, rows]; exact fits)
  refine ⟨?_, readable, shows, names_none _, ?_⟩
  · change 0 < ((run editing.editor.line (editing.console.writeByte newline)).write
      (encode prompt)).cols
    rw [(Console.write_size _).1, cols]
    exact kept.someCol
  · change recorded editing.editor.history editing.editor.line =
      lastOf historyCapacity (collapsed (editing.submitted ++ [editing.editor.line]))
    rw [kept.history]
    exact recorded_collapsed _ _

theorem Kept.next (kept : editing.Kept) (admissible : editing.Admissible turn) :
    (editing.next turn).Kept := by
  by_cases enters : turn.event = .enter
  · exact kept.enter admissible enters
  · have fits := admissible.fits
    rw [next_pending enters] at fits ⊢
    refine ⟨?_, kept.readable.feed admissible.typed, ?_, LineEditor.feed_names kept.index turn.event,
      (feed_history enters).trans kept.history⟩
    · rw [(Console.write_size _).1]
      exact kept.someCol
    · exact LineEditor.shows_printed kept.readable kept.someCol kept.shows enters admissible.typed
        admissible.prompt fits

def start (console : Console) (prompt : Line) : Editing :=
  { editor := {}, console := console.write (encode prompt), prompt, submitted := [] }

theorem kept_start {console : Console} {prompt : Line} (someCol : 0 < console.cols)
    (fresh : Fresh console) (plain : ∀ byte ∈ encode prompt, Console.Plain byte)
    (fits : (encode prompt).length ≤ console.cols * console.rows) : (start console prompt).Kept := by
  have shows := fresh.shows_prompt someCol plain fits
  refine ⟨?_, ⟨?_, ?_, ?_⟩, shows, names_none [], rfl⟩
  · change 0 < (console.write (encode prompt)).cols
    rw [(Console.write_size _).1]
    exact someCol
  · intro c never
    cases never
  · intro c never
    cases never
  · intro line never
    cases never

/-- The grid shows the line behind the last prompt, the position in the history is inside it, and the
history is what is left of the lines submitted so far. -/
structure Faithful (editing : Editing) : Prop where
  shows : Shows editing.console (encode editing.prompt) (encode editing.editor.line)
  index : Names editing.editor.historyIndex editing.editor.history
  history : editing.editor.history = lastOf historyCapacity (collapsed editing.submitted)

def step (editing : Editing) (turn : Turn) : Option Editing :=
  some (editing.next turn)

end Editing

open Editing Showing

/-- After every event the terminal shows the line the editor holds. -/
theorem shows_line {console : Console} {prompt : Line} {turns : List Turn}
    (someCol : 0 < console.cols) (fresh : Fresh console)
    (plain : ∀ byte ∈ encode prompt, Console.Plain byte)
    (fits : (encode prompt).length ≤ console.cols * console.rows)
    (admissible : Runs.Meets step Admissible (start console prompt) turns) :
    ∀ front, front <+: turns → ∀ editing,
      Runs.after step (start console prompt) front = some editing → editing.Faithful := by
  intro front isFront editing ran
  have kept := Runs.after_invariant
    (by
      intro before turn next keeps meets stepped
      cases stepped
      exact Kept.next keeps meets)
    (kept_start someCol fresh plain fits) (admissible.front isFront) ran
  exact ⟨kept.shows, kept.index, kept.history⟩

theorem shows_line_recalled :
    let turn := fun event => ({ event, prompt := ['>'], run := fun _ console => console } : Turn)
    let turns := [turn (.char 'a'), turn .enter, turn (.char 'b'), turn (.char 'c'), turn .up]
    Runs.Meets step Admissible (start (Console.new 4 1) ['>']) turns ∧
      ∀ front, front <+: turns → ∀ editing,
        Runs.after step (start (Console.new 4 1) ['>']) front = some editing → editing.Faithful := by
  have fresh : Fresh (Console.new 4 1) := ⟨rfl, [], by decide, by decide, by decide, by decide⟩
  have meets : Runs.Meets step Admissible (start (Console.new 4 1) ['>'])
      [{ event := .char 'a', prompt := ['>'], run := fun _ console => console },
        { event := .enter, prompt := ['>'], run := fun _ console => console },
        { event := .char 'b', prompt := ['>'], run := fun _ console => console },
        { event := .char 'c', prompt := ['>'], run := fun _ console => console },
        { event := .up, prompt := ['>'], run := fun _ console => console }] := by
    refine ⟨⟨?_, by decide, by decide, fun enters => by cases enters⟩, fun _ first => ?_⟩
    · intro c same
      cases same
      decide
    cases first
    refine ⟨⟨(fun c other => by cases other), by decide, by decide, fun _ => ?_⟩, fun _ second => ?_⟩
    · exact ⟨⟨rfl, [], by decide, by decide, by decide, by decide⟩, rfl, rfl⟩
    cases second
    refine ⟨⟨?_, by decide, by decide, fun enters => by cases enters⟩, fun _ third => ?_⟩
    · intro c same
      cases same
      decide
    cases third
    refine ⟨⟨?_, by decide, by decide, fun enters => by cases enters⟩, fun _ fourth => ?_⟩
    · intro c same
      cases same
      decide
    cases fourth
    exact ⟨⟨(fun c other => by cases other), by decide, by decide, fun enters => by cases enters⟩,
      fun _ _ => trivial⟩
  exact ⟨meets, shows_line (by decide) fresh (by decide) (by decide) meets⟩

end Shell

end MachaOS
