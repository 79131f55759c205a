/-
Lines of words: a list cut at its separators, decimal numbers written as words, and lines put in
between.
-/

import Mathlib.Data.List.Basic
import Mathlib.Data.List.Infix
import Mathlib.Data.List.TakeWhile

namespace MachaOS

namespace Words

open List

section Cutting

variable {α : Type} {space : α → Bool}

def words (space : α → Bool) (text : List α) : List (List α) :=
  (text.splitOnP space).filter (fun piece => !piece.isEmpty)

def trim (space : α → Bool) (text : List α) : List α :=
  ((text.dropWhile space).reverse.dropWhile space).reverse

def IsWord (space : α → Bool) (word : List α) : Prop :=
  word ≠ [] ∧ ∀ c ∈ word, space c = false

variable {word : List α}

theorem isWord_of_all (some : word ≠ []) (clean : word.all (fun c => !space c) = true) :
    IsWord space word := by
  refine ⟨some, ?_⟩
  intro c mem
  have each := all_eq_true.mp clean c mem
  rw [Bool.not_eq_true'] at each
  exact each

theorem word_not_empty (isWord : IsWord space word) : (!word.isEmpty) = true := by
  rw [isEmpty_eq_false_iff.mpr isWord.1]
  rfl

theorem words_word (isWord : IsWord space word) : words space word = [word] := by
  have nonempty := word_not_empty isWord
  rw [words, splitOnP_eq_singleton isWord.2, filter_cons, if_pos nonempty, filter_nil]

variable {separator : α}

theorem words_word_cons (isWord : IsWord space word) (cuts : space separator = true) (rest : List α) :
    words space (word ++ separator :: rest) = word :: words space rest := by
  have nonempty := word_not_empty isWord
  rw [words, splitOnP_append_cons_of_forall_mem isWord.2 separator cuts rest,
    filter_cons, if_pos nonempty, words]

variable {list : List (List α)}

theorem words_intercalate (cuts : space separator = true) (clean : ∀ word ∈ list, IsWord space word) :
    words space ([separator].intercalate list) = list := by
  induction list with
  | nil => rfl
  | cons word rest ih =>
      have first := clean word mem_cons_self
      have others := ih (fun other mem => clean other (mem_cons_of_mem word mem))
      cases rest with
      | nil =>
          rw [intercalate_singleton]
          exact words_word first
      | cons next rest =>
          rw [intercalate_cons_cons, append_assoc, singleton_append,
            words_word_cons first cuts, others]

def Trimmed (space : α → Bool) (text : List α) : Prop :=
  (∀ c ∈ text.head?, space c = false) ∧ ∀ c ∈ text.getLast?, space c = false

variable {text : List α}

theorem dropWhile_head (starts : ∀ c ∈ text.head?, space c = false) :
    text.dropWhile space = text := by
  cases text with
  | nil => rfl
  | cons c rest =>
      have first : space c = false := starts c rfl
      rw [dropWhile_cons, first]
      rfl

theorem trim_trimmed (trimmed : Trimmed space text) : trim space text = text := by
  have back : ∀ c ∈ text.reverse.head?, space c = false := by
    rw [List.head?_reverse]
    exact trimmed.2
  rw [trim, dropWhile_head trimmed.1, dropWhile_head back, reverse_reverse]

theorem head?_intercalate {separator : α} {word : List α} {rest : List (List α)} (some : word ≠ []) :
    ([separator].intercalate (word :: rest)).head? = word.head? := by
  cases rest with
  | nil => rw [intercalate_singleton]
  | cons next rest =>
      rw [intercalate_cons_cons, append_assoc, List.head?_append_of_ne_nil _ some]

theorem getLast?_intercalate (some : word ≠ []) :
    ([separator].intercalate (list ++ [word])).getLast? = word.getLast? := by
  induction list with
  | nil => rw [nil_append, intercalate_singleton]
  | cons first rest ih =>
      obtain ⟨next, others, shape⟩ := exists_cons_of_ne_nil
        (append_ne_nil_of_right_ne_nil rest (cons_ne_nil word []))
      rw [cons_append, shape, intercalate_cons_cons, ← shape, List.getLast?_append, ih]
      obtain ⟨last, ends⟩ := Option.ne_none_iff_exists'.mp (List.getLast?_eq_none_iff.not.mpr some)
      rw [ends, Option.some_or]

theorem word_head (isWord : IsWord space word) : ∀ c ∈ word.head?, space c = false :=
  fun c first => isWord.2 c (mem_of_mem_head? first)

theorem word_last (isWord : IsWord space word) : ∀ c ∈ word.getLast?, space c = false :=
  fun c last => isWord.2 c (mem_of_mem_getLast? last)

theorem intercalate_trimmed (clean : ∀ word ∈ list, IsWord space word) :
    Trimmed space ([separator].intercalate list) := by
  constructor
  · cases list with
    | nil =>
        intro c never
        cases never
    | cons word rest =>
        have first := clean word mem_cons_self
        rw [head?_intercalate first.1]
        exact word_head first
  · rcases eq_nil_or_concat list with rfl | ⟨front, word, rfl⟩
    · intro c never
      cases never
    · rw [concat_eq_append]
      have last := clean word (by rw [concat_eq_append]; simp)
      rw [getLast?_intercalate last.1]
      exact word_last last

theorem words_append_space (cuts : space separator = true) (front rest : List α) :
    words space (front ++ separator :: rest) = words space front ++ words space rest := by
  rw [words, splitOnP_append_cons front rest cuts, filter_append, words, words]

variable {gap : List α}

theorem words_spaces_append (blank : ∀ c ∈ gap, space c = true) (text : List α) :
    words space (gap ++ text) = words space text := by
  induction gap with
  | nil => rfl
  | cons c rest ih =>
      have first := words_append_space (blank c mem_cons_self) [] (rest ++ text)
      rw [nil_append] at first
      rw [cons_append, first, ih (fun other mem => blank other (mem_cons_of_mem c mem))]
      rfl

theorem words_spaces (blank : ∀ c ∈ gap, space c = true) : words space gap = [] := by
  have none := words_spaces_append blank []
  rw [append_nil] at none
  exact none

theorem words_append_spaces (blank : ∀ c ∈ gap, space c = true) (text : List α) :
    words space (text ++ gap) = words space text := by
  cases gap with
  | nil => rw [append_nil]
  | cons c rest =>
      have later : ∀ other ∈ rest, space other = true :=
        fun other mem => blank other (mem_cons_of_mem c mem)
      rw [words_append_space (blank c mem_cons_self), words_spaces later, append_nil]

theorem trim_between (space : α → Bool) (text : List α) :
    ∃ before after, text = before ++ (trim space text ++ after) ∧
      (∀ c ∈ before, space c = true) ∧ ∀ c ∈ after, space c = true := by
  refine ⟨text.takeWhile space, ((text.dropWhile space).reverse.takeWhile space).reverse, ?_, ?_, ?_⟩
  · rw [trim, ← reverse_append, takeWhile_append_dropWhile, reverse_reverse,
      takeWhile_append_dropWhile]
  · intro c mem
    exact mem_takeWhile_imp mem
  · intro c mem
    exact mem_takeWhile_imp (mem_reverse.mp mem)

theorem mem_trim {c : α} (mem : c ∈ trim space text) : c ∈ text := by
  obtain ⟨before, after, shape, -, -⟩ := trim_between space text
  rw [shape]
  exact mem_append_right before (mem_append_left after mem)

theorem dropWhile_starts (space : α → Bool) (text : List α) :
    ∀ c ∈ (text.dropWhile space).head?, space c = false := by
  intro c first
  have kept := List.head?_dropWhile_not space text
  rw [Option.mem_def.mp first] at kept
  exact Bool.eq_false_iff.mpr (fun cut => by simp [cut] at kept)

theorem trimmed_trim (space : α → Bool) (text : List α) : Trimmed space (trim space text) := by
  have ends := dropWhile_starts space (text.dropWhile space).reverse
  refine ⟨?_, ?_⟩
  · intro c first
    have start := dropWhile_starts space text c
    apply start
    obtain ⟨after, shape⟩ := dropWhile_suffix space (l := (text.dropWhile space).reverse)
    have whole : text.dropWhile space = trim space text ++ after.reverse := by
      rw [trim, ← reverse_append, shape, reverse_reverse]
    rw [whole, List.head?_append, Option.mem_def.mp first]
    rfl
  · rw [trim, List.getLast?_reverse]
    exact ends

theorem isWord_trimmed (isWord : IsWord space word) : Trimmed space word :=
  ⟨word_head isWord, word_last isWord⟩

theorem words_trim (text : List α) : words space (trim space text) = words space text := by
  obtain ⟨before, after, shape, blankBefore, blankAfter⟩ := trim_between space text
  conv_rhs => rw [shape]
  rw [words_spaces_append blankBefore, words_append_spaces blankAfter]

end Cutting

theorem piece_clean {α : Type} [DecidableEq α] {separator : α} {text piece : List α}
    (mem : piece ∈ text.splitOn separator) : separator ∉ piece := by
  induction text generalizing piece with
  | nil =>
      rw [splitOn_nil, mem_singleton] at mem
      subst mem
      exact not_mem_nil
  | cons c rest ih =>
      rw [splitOn_cons_eq_if_modifyHead] at mem
      split at mem
      · rcases mem_cons.mp mem with rfl | later
        · exact not_mem_nil
        · exact ih later
      · rename_i different
        cases pieces : rest.splitOn separator with
        | nil => exact absurd pieces (splitOn_ne_nil separator rest)
        | cons first others =>
            rw [pieces, modifyHead_cons] at mem
            rw [pieces] at ih
            rcases mem_cons.mp mem with rfl | later
            · intro inPiece
              rcases mem_cons.mp inPiece with same | inside
              · subst same
                exact different (beq_self_eq_true separator)
              · exact ih mem_cons_self inside
            · exact ih (mem_cons_of_mem first later)

theorem intercalate_concat {α : Type} (separator : α) (pieces : List (List α)) (last more : List α) :
    [separator].intercalate (pieces ++ [last ++ more]) =
      [separator].intercalate (pieces ++ [last]) ++ more := by
  induction pieces with
  | nil => rw [nil_append, nil_append, intercalate_singleton, intercalate_singleton]
  | cons piece rest ih =>
      have someMore := append_ne_nil_of_right_ne_nil rest (cons_ne_nil (last ++ more) [])
      have someLast := append_ne_nil_of_right_ne_nil rest (cons_ne_nil last [])
      rw [cons_append, cons_append, intercalate_cons_of_ne_nil someMore,
        intercalate_cons_of_ne_nil someLast, ih]
      simp only [append_assoc]

theorem splitOn_append_clean {α : Type} [DecidableEq α] {separator : α} {text more last : List α}
    {pieces : List (List α)} (cut : text.splitOn separator = pieces ++ [last])
    (clean : separator ∉ more) :
    (text ++ more).splitOn separator = pieces ++ [last ++ more] := by
  have whole : [separator].intercalate (pieces ++ [last ++ more]) = text ++ more := by
    rw [intercalate_concat, ← cut, intercalate_splitOn]
  rw [← whole]
  apply splitOn_intercalate
  · intro piece mem
    rcases mem_append.mp mem with earlier | isLast
    · exact piece_clean (by rw [cut]; exact mem_append_left _ earlier)
    · rw [mem_singleton] at isLast
      subst isLast
      intro inside
      rcases mem_append.mp inside with before | behind
      · exact piece_clean (by rw [cut]; exact mem_append_right _ mem_cons_self) before
      · exact clean behind
  · exact append_ne_nil_of_right_ne_nil pieces (cons_ne_nil _ _)

section Inserting

variable {α σ : Type} {idle : α → Prop}

/-- The second list is the first one with such elements put in anywhere. -/
inductive Inserted (idle : α → Prop) : List α → List α → Prop
  | nil : Inserted idle [] []
  | keep {x : α} {list list' : List α} (rest : Inserted idle list list') :
      Inserted idle (x :: list) (x :: list')
  | insert {x : α} {list list' : List α} (isIdle : idle x) (rest : Inserted idle list list') :
      Inserted idle list (x :: list')

theorem foldl_inserted {step : σ → α → σ} (still : ∀ x, idle x → ∀ state, step state x = state)
    {list list' : List α} (inserted : Inserted idle list list') (state : σ) :
    list'.foldl step state = list.foldl step state := by
  induction inserted generalizing state with
  | nil => rfl
  | keep rest ih => exact ih _
  | insert isIdle rest ih =>
      rw [foldl_cons, still _ isIdle]
      exact ih state

end Inserting

def parseDigits (digits : List Char) : Option Nat :=
  if digits ≠ [] ∧ digits.all Char.isDigit then some (Nat.ofDigitChars 10 digits 0) else none

theorem isDigit_of_mem (n : Nat) : ∀ c ∈ Nat.toDigits 10 n, c.isDigit = true :=
  fun _ mem => Nat.isDigit_of_mem_toDigits (by decide) (Nat.le_refl 10) mem

theorem parseDigits_toDigits (n : Nat) : parseDigits (Nat.toDigits 10 n) = some n := by
  have digits : (Nat.toDigits 10 n).all Char.isDigit = true :=
    all_eq_true.mpr (isDigit_of_mem n)
  rw [parseDigits, if_pos ⟨Nat.toDigits_ne_nil, digits⟩, Nat.ofDigitChars_ten_toDigits]

def parseUnsigned (word : List Char) : Option Nat :=
  match word with
  | '+' :: digits => parseDigits digits
  | digits => parseDigits digits

def parseSigned (word : List Char) : Option Int :=
  match word with
  | '-' :: digits => (parseDigits digits).map (fun n : Nat => -(n : Int))
  | word => (parseUnsigned word).map Int.ofNat

def showSigned (value : Int) : List Char :=
  if value < 0 then '-' :: Nat.toDigits 10 value.natAbs else Nat.toDigits 10 value.natAbs

theorem parseUnsigned_digits {digits : List Char} (all : ∀ c ∈ digits, c.isDigit = true) :
    parseUnsigned digits = parseDigits digits := by
  unfold parseUnsigned
  split
  · exact absurd (all '+' mem_cons_self) (by decide)
  · rfl

theorem parseSigned_digits {digits : List Char} (all : ∀ c ∈ digits, c.isDigit = true) :
    parseSigned digits = (parseDigits digits).map Int.ofNat := by
  unfold parseSigned
  split
  · exact absurd (all '-' mem_cons_self) (by decide)
  · rw [parseUnsigned_digits all]

theorem parseUnsigned_toDigits (n : Nat) : parseUnsigned (Nat.toDigits 10 n) = some n := by
  rw [parseUnsigned_digits (isDigit_of_mem n), parseDigits_toDigits]

theorem parseSigned_showSigned (value : Int) : parseSigned (showSigned value) = some value := by
  by_cases negative : value < 0
  · rw [showSigned, if_pos negative, parseSigned, parseDigits_toDigits, Option.map_some]
    have back : -(value.natAbs : Int) = value := by omega
    rw [back]
  · have back : Int.ofNat value.natAbs = value := by
      rw [Int.ofNat_eq_natCast]
      omega
    rw [showSigned, if_neg negative, parseSigned_digits (isDigit_of_mem _), parseDigits_toDigits,
      Option.map_some, back]

end Words

end MachaOS
