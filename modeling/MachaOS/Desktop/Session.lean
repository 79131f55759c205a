/-
The session file: the open windows and the remembered geometries as lines of text.

`str::lines` drops a last empty line and the carriage return of a line; the trimming does both here.
-/

import MachaOS.Desktop.Windows
import MachaOS.Lib.Words

namespace MachaOS

namespace Desktop

open List
open Words

structure SessionWindow where
  app : Text
  x : Int32
  y : Int32
  cols : UInt64
  rows : UInt64
  minimized : Bool
  maximized : Bool
deriving DecidableEq, Repr

structure SessionData where
  windows : List SessionWindow
  remembered : List SessionWindow
deriving DecidableEq, Repr

namespace Session

def path : Text := "/system/desktop.session".toList

def isWhitespace (c : Char) : Bool :=
  let n := c.toNat
  decide ((9 ≤ n ∧ n ≤ 13) ∨ n = 0x20 ∨ n = 0x85 ∨ n = 0xA0 ∨ n = 0x1680 ∨
    (0x2000 ≤ n ∧ n ≤ 0x200A) ∨ n = 0x2028 ∨ n = 0x2029 ∨ n = 0x202F ∨ n = 0x205F ∨ n = 0x3000)

def showBool (value : Bool) : Text := if value then ['1'] else ['0']

def showI32 (value : Int32) : Text := showSigned value.toInt

def showU64 (value : UInt64) : Text := Nat.toDigits 10 value.toNat

def geometryWords (entry : SessionWindow) : List Text :=
  [entry.app, showI32 entry.x, showI32 entry.y, showU64 entry.cols, showU64 entry.rows]

def windowWords (entry : SessionWindow) : List Text :=
  "window".toList :: geometryWords entry ++ [showBool entry.minimized, showBool entry.maximized]

def rememberedWords (entry : SessionWindow) : List Text :=
  "remembered".toList :: geometryWords entry ++ [showBool entry.maximized]

def line (words : List Text) : Text := [' '].intercalate words ++ ['\n']

def header : Text := "# MachaOS desktop session\n".toList

def serialize (data : SessionData) : Text :=
  header ++ data.windows.flatMap (fun entry => line (windowWords entry)) ++
    data.remembered.flatMap (fun entry => line (rememberedWords entry))

def parseBool (value : Text) : Bool := value = ['1'] ∨ value = "true".toList

def parseI32 (word : Text) : Option Int32 :=
  (parseSigned word).bind (fun value =>
    if -2 ^ 31 ≤ value ∧ value < 2 ^ 31 then some (Int32.ofInt value) else none)

def parseU64 (word : Text) : Option UInt64 :=
  (parseUnsigned word).bind (fun value =>
    if value < 2 ^ 64 then some (UInt64.ofNat value) else none)

def parseEntry (words : List Text) (win : Bool) : Option SessionWindow :=
  match words with
  | app :: xWord :: yWord :: colsWord :: rowsWord :: flags => do
      let x ← parseI32 xWord
      let y ← parseI32 yWord
      let cols ← parseU64 colsWord
      let rows ← parseU64 rowsWord
      match win, flags with
      | true, minimized :: maximized :: _ =>
          some ⟨app, x, y, cols, rows, parseBool minimized, parseBool maximized⟩
      | false, maximized :: _ => some ⟨app, x, y, cols, rows, false, parseBool maximized⟩
      | _, _ => none
  | _ => none

def parseLine (data : SessionData) (text : Text) : SessionData :=
  let text := trim isWhitespace text
  if text = [] ∨ text.head? = some '#' then data
  else
    match words isWhitespace text with
    | [] => data
    | kind :: rest =>
        if kind = "window".toList then
          match parseEntry rest true with
          | some entry => { data with windows := data.windows ++ [entry] }
          | none => data
        else if kind = "remembered".toList then
          match parseEntry rest false with
          | some entry => { data with remembered := data.remembered ++ [entry] }
          | none => data
        else data

def parse (text : Text) : SessionData :=
  (text.splitOn '\n').foldl parseLine ⟨[], []⟩

theorem digit_notSpace {c : Char} (digit : c.isDigit = true) : isWhitespace c = false := by
  have range : 48 ≤ c.toNat ∧ c.toNat ≤ 57 := by
    rw [Char.isDigit, Bool.and_eq_true, decide_eq_true_eq, decide_eq_true_eq] at digit
    exact ⟨UInt32.le_iff_toNat_le.mp digit.1, UInt32.le_iff_toNat_le.mp digit.2⟩
  unfold isWhitespace
  simp only [decide_eq_false_iff_not]
  omega

theorem toDigits_isWord (n : Nat) : IsWord isWhitespace (Nat.toDigits 10 n) :=
  ⟨Nat.toDigits_ne_nil, fun _ mem =>
    digit_notSpace (Nat.isDigit_of_mem_toDigits (by decide) (Nat.le_refl 10) mem)⟩

theorem showI32_isWord (value : Int32) : IsWord isWhitespace (showI32 value) := by
  unfold showI32 showSigned
  split
  · refine ⟨cons_ne_nil _ _, ?_⟩
    intro c mem
    rcases mem_cons.mp mem with rfl | digit
    · decide
    · exact (toDigits_isWord _).2 c digit
  · exact toDigits_isWord _

theorem showBool_isWord (value : Bool) : IsWord isWhitespace (showBool value) := by
  cases value <;> exact isWord_of_all (cons_ne_nil _ _) (by decide)

theorem parseBool_showBool (value : Bool) : parseBool (showBool value) = value := by
  cases value <;> rfl

theorem parseI32_showI32 (value : Int32) : parseI32 (showI32 value) = some value := by
  rw [parseI32, showI32, parseSigned_showSigned, Option.bind_some,
    if_pos ⟨value.le_toInt, value.toInt_lt⟩, Int32.ofInt_toInt]

theorem parseU64_showU64 (value : UInt64) : parseU64 (showU64 value) = some value := by
  rw [parseU64, showU64, parseUnsigned_toDigits, Option.bind_some, if_pos value.toNat_lt,
    UInt64.ofNat_toNat]

def Named (entry : SessionWindow) : Prop := IsWord isWhitespace entry.app

variable {entry : SessionWindow}

theorem geometryWords_clean (named : Named entry) :
    ∀ word ∈ geometryWords entry, IsWord isWhitespace word := by
  intro word mem
  simp only [geometryWords, mem_cons, not_mem_nil, or_false] at mem
  rcases mem with rfl | rfl | rfl | rfl | rfl
  · exact named
  · exact showI32_isWord _
  · exact showI32_isWord _
  · exact toDigits_isWord _
  · exact toDigits_isWord _

theorem kind_isWord {kind : Text} (known : kind = "window".toList ∨ kind = "remembered".toList) :
    IsWord isWhitespace kind := by
  rcases known with rfl | rfl
  · exact isWord_of_all (by decide) (by decide)
  · exact isWord_of_all (by decide) (by decide)

theorem windowWords_clean (named : Named entry) :
    ∀ word ∈ windowWords entry, IsWord isWhitespace word := by
  intro word mem
  simp only [windowWords, mem_append, mem_cons, not_mem_nil, or_false] at mem
  rcases mem with (kind | geometry) | rfl | rfl
  · exact kind_isWord (Or.inl kind)
  · exact geometryWords_clean named word geometry
  · exact showBool_isWord _
  · exact showBool_isWord _

theorem rememberedWords_clean (named : Named entry) :
    ∀ word ∈ rememberedWords entry, IsWord isWhitespace word := by
  intro word mem
  simp only [rememberedWords, mem_append, mem_cons, not_mem_nil, or_false] at mem
  rcases mem with (kind | geometry) | rfl
  · exact kind_isWord (Or.inr kind)
  · exact geometryWords_clean named word geometry
  · exact showBool_isWord _

theorem parseEntry_window (entry : SessionWindow) :
    parseEntry (geometryWords entry ++ [showBool entry.minimized, showBool entry.maximized]) true =
      some entry := by
  simp [parseEntry, geometryWords, parseI32_showI32, parseU64_showU64, parseBool_showBool]

theorem parseEntry_remembered (shown : entry.minimized = false) :
    parseEntry (geometryWords entry ++ [showBool entry.maximized]) false = some entry := by
  simp [parseEntry, geometryWords, parseI32_showI32, parseU64_showU64, parseBool_showBool, ← shown]

variable {data : SessionData}

theorem parseLine_words {kind : Text} {rest : List Text}
    (clean : ∀ word ∈ kind :: rest, IsWord isWhitespace word) (notComment : kind.head? ≠ some '#') :
    parseLine data ([' '].intercalate (kind :: rest)) =
      if kind = "window".toList then
        match parseEntry rest true with
        | some entry => { data with windows := data.windows ++ [entry] }
        | none => data
      else if kind = "remembered".toList then
        match parseEntry rest false with
        | some entry => { data with remembered := data.remembered ++ [entry] }
        | none => data
      else data := by
  have kindSome := (clean kind mem_cons_self).1
  have head := @head?_intercalate _ ' ' _ rest kindSome
  have notEmpty : [' '].intercalate (kind :: rest) ≠ [] := by
    intro empty
    rw [empty, List.head?_nil] at head
    exact kindSome (List.head?_eq_none_iff.mp head.symm)
  have kept : ¬([' '].intercalate (kind :: rest) = [] ∨
      ([' '].intercalate (kind :: rest)).head? = some '#') := by
    rw [head]
    rintro (empty | comment)
    · exact notEmpty empty
    · exact notComment comment
  unfold parseLine
  simp only
  rw [trim_trimmed (intercalate_trimmed clean), if_neg kept, words_intercalate (by decide) clean]

theorem parseLine_window (named : Named entry) :
    parseLine data ([' '].intercalate (windowWords entry)) =
      { data with windows := data.windows ++ [entry] } := by
  have clean := windowWords_clean named
  rw [windowWords, cons_append] at clean ⊢
  rw [parseLine_words clean (by decide), if_pos rfl, parseEntry_window]

theorem parseLine_remembered (named : Named entry) (shown : entry.minimized = false) :
    parseLine data ([' '].intercalate (rememberedWords entry)) =
      { data with remembered := data.remembered ++ [entry] } := by
  have clean := rememberedWords_clean named
  rw [rememberedWords, cons_append] at clean ⊢
  rw [parseLine_words clean (by decide), if_neg (by decide), if_pos rfl, parseEntry_remembered shown]

theorem noNewline {list : List Text} (clean : ∀ word ∈ list, IsWord isWhitespace word) :
    ∀ c ∈ [' '].intercalate list, (c == '\n') = false := by
  induction list with
  | nil =>
      intro c never
      cases never
  | cons word rest ih =>
      have inWord : ∀ c ∈ word, (c == '\n') = false := by
        intro c mem
        have notSpace := (clean word mem_cons_self).2 c mem
        rw [beq_eq_false_iff_ne]
        rintro rfl
        exact absurd notSpace (by decide)
      have others := ih (fun other mem => clean other (mem_cons_of_mem word mem))
      cases rest with
      | nil =>
          rw [intercalate_singleton]
          exact inWord
      | cons next rest =>
          intro c mem
          rw [intercalate_cons_cons, mem_append, mem_append, mem_singleton]
            at mem
          rcases mem with (inside | rfl) | later
          · exact inWord c inside
          · decide
          · exact others c later

theorem splitOn_line {list : List Text} (clean : ∀ word ∈ list, IsWord isWhitespace word)
    (rest : Text) :
    (line list ++ rest).splitOn '\n' = [' '].intercalate list :: rest.splitOn '\n' := by
  rw [line, append_assoc, singleton_append, splitOn_eq_splitOnP,
    splitOnP_append_cons_of_forall_mem (noNewline clean) '\n' (by decide) rest,
    splitOn_eq_splitOnP]

theorem parse_windows {entries : List SessionWindow} (named : ∀ entry ∈ entries, Named entry)
    (rest : Text) (data : SessionData) :
    ((entries.flatMap (fun entry => line (windowWords entry)) ++ rest).splitOn '\n').foldl
        parseLine data =
      (rest.splitOn '\n').foldl parseLine { data with windows := data.windows ++ entries } := by
  induction entries generalizing data with
  | nil => rw [flatMap_nil, nil_append, append_nil]
  | cons entry others ih =>
      have first := named entry mem_cons_self
      rw [flatMap_cons, append_assoc, splitOn_line (windowWords_clean first),
        foldl_cons, parseLine_window first,
        ih (fun other mem => named other (mem_cons_of_mem entry mem)), append_assoc,
        singleton_append]

theorem parse_remembered {entries : List SessionWindow} (named : ∀ entry ∈ entries, Named entry)
    (shown : ∀ entry ∈ entries, entry.minimized = false) (data : SessionData) :
    ((entries.flatMap (fun entry => line (rememberedWords entry))).splitOn '\n').foldl
        parseLine data =
      { data with remembered := data.remembered ++ entries } := by
  induction entries generalizing data with
  | nil =>
      rw [flatMap_nil, splitOn_nil, append_nil]
      rfl
  | cons entry others ih =>
      have first := named entry mem_cons_self
      rw [flatMap_cons, splitOn_line (rememberedWords_clean first), foldl_cons,
        parseLine_remembered first (shown entry mem_cons_self),
        ih (fun other mem => named other (mem_cons_of_mem entry mem))
          (fun other mem => shown other (mem_cons_of_mem entry mem)),
        append_assoc, singleton_append]

theorem splitOn_header (rest : Text) :
    (header ++ rest).splitOn '\n' = "# MachaOS desktop session".toList :: rest.splitOn '\n' := by
  have shape : header = "# MachaOS desktop session".toList ++ ['\n'] := by decide
  have oneLine : ∀ c ∈ "# MachaOS desktop session".toList, (c == '\n') = false := by
    have all : "# MachaOS desktop session".toList.all (fun c => !(c == '\n')) = true := by decide
    intro c mem
    have each := all_eq_true.mp all c mem
    rw [Bool.not_eq_true'] at each
    exact each
  rw [shape, append_assoc, singleton_append, splitOn_eq_splitOnP,
    splitOnP_append_cons_of_forall_mem oneLine '\n' (by decide) rest,
    splitOn_eq_splitOnP]

theorem parse_serialize (windowsNamed : ∀ entry ∈ data.windows, Named entry)
    (rememberedNamed : ∀ entry ∈ data.remembered, Named entry)
    (shown : ∀ entry ∈ data.remembered, entry.minimized = false) :
    parse (serialize data) = data := by
  have comment : parseLine ⟨[], []⟩ "# MachaOS desktop session".toList = ⟨[], []⟩ := by decide
  rw [parse, serialize, append_assoc, splitOn_header, foldl_cons, comment,
    parse_windows windowsNamed, parse_remembered rememberedNamed shown]
  rfl

end Session

end Desktop

end MachaOS
