/-
The arguments of a command line: `tokenize` in `src/shell.rs`.
-/

import MachaOS.Desktop.Session
import MachaOS.Terminal.LineEditor

namespace MachaOS

namespace Shell

open List
open Desktop.Session (isWhitespace)

/-- The locals of `tokenize` between two characters. -/
structure Scan where
  tokens : List Line := []
  current : Line := []
  inQuotes : Bool := false
deriving DecidableEq, Repr

namespace Scan

def finish (scan : Scan) : Scan :=
  if scan.current = [] then scan
  else { scan with tokens := scan.tokens ++ [scan.current], current := [] }

def next (scan : Scan) (c : Char) : Scan :=
  if c = '\x22' then { scan with inQuotes := !scan.inQuotes }
  else if isWhitespace c ∧ scan.inQuotes = false then scan.finish
  else { scan with current := scan.current ++ [c] }

end Scan

def tokenize (line : Line) : List Line :=
  (line.foldl Scan.next {}).finish.tokens

def quoted (arg : Line) : Line := '\x22' :: arg ++ ['\x22']

def Blank (text : Line) : Prop := ∀ c ∈ text, isWhitespace c = true

instance (text : Line) : Decidable (Blank text) := List.decidableBAll _ text

namespace Scan

theorem finish_of_empty {scan : Scan} (empty : scan.current = []) : scan.finish = scan :=
  if_pos empty

theorem finish_current (scan : Scan) : scan.finish.current = [] := by
  unfold finish
  split
  · assumption
  · rfl

theorem finish_finish (scan : Scan) : scan.finish.finish = scan.finish :=
  finish_of_empty scan.finish_current

theorem next_blank {scan : Scan} (outside : scan.inQuotes = false) {c : Char}
    (blank : isWhitespace c = true) : scan.next c = scan.finish := by
  have notQuote : c ≠ '\x22' := by
    rintro rfl
    exact absurd blank (by decide)
  rw [next, if_neg notQuote, if_pos ⟨blank, outside⟩]

theorem finish_outside {scan : Scan} (outside : scan.inQuotes = false) :
    scan.finish.inQuotes = false := by
  unfold finish
  split <;> exact outside

theorem fold_blank {scan : Scan} (outside : scan.inQuotes = false) {gap : Line} (blank : Blank gap)
    (apart : gap = [] → scan.current = []) : gap.foldl next scan = scan.finish := by
  induction gap generalizing scan with
  | nil => exact (finish_of_empty (apart rfl)).symm
  | cons c rest ih =>
      have first := next_blank outside (blank c mem_cons_self)
      have later : Blank rest := fun other mem => blank other (mem_cons_of_mem c mem)
      rw [foldl_cons, first, ih (finish_outside outside) later (fun _ => scan.finish_current),
        finish_finish]

theorem fold_inside {scan : Scan} (inside : scan.inQuotes = true) {arg : Line}
    (noQuote : '\x22' ∉ arg) :
    arg.foldl next scan = { scan with current := scan.current ++ arg } := by
  induction arg generalizing scan with
  | nil => rw [foldl_nil, append_nil]
  | cons c rest ih =>
      have notQuote : c ≠ '\x22' := by
        rintro rfl
        exact noQuote mem_cons_self
      have kept : scan.next c = { scan with current := scan.current ++ [c] } := by
        rw [next, if_neg notQuote, if_neg]
        rintro ⟨-, outside⟩
        rw [inside] at outside
        cases outside
      have later : '\x22' ∉ rest := fun mem => noQuote (mem_cons_of_mem c mem)
      rw [foldl_cons, kept, @ih { scan with current := scan.current ++ [c] } inside later,
        append_assoc, singleton_append]

theorem fold_quoted {scan : Scan} (outside : scan.inQuotes = false) {arg : Line}
    (noQuote : '\x22' ∉ arg) :
    (quoted arg).foldl next scan = { scan with current := scan.current ++ arg } := by
  have opened : scan.next '\x22' = { scan with inQuotes := true } := by
    rw [next, if_pos rfl, outside]
    rfl
  have closed : ({ scan with current := scan.current ++ arg, inQuotes := true } : Scan).next '\x22' =
      { scan with current := scan.current ++ arg } := by
    rw [next, if_pos rfl, outside]
    rfl
  rw [quoted, cons_append, foldl_cons, foldl_append, opened,
    @fold_inside { scan with inQuotes := true } rfl arg noQuote, foldl_cons,
    foldl_nil]
  exact closed

end Scan

def spelled (word : Line × Line) : Line := word.1 ++ quoted word.2

def Spellable (word : Line × Line) : Prop :=
  Blank word.1 ∧ word.2 ≠ [] ∧ '\x22' ∉ word.2

theorem fold_spelled {word : Line × Line} (spellable : Spellable word) {scan : Scan}
    (outside : scan.inQuotes = false) (apart : word.1 = [] → scan.current = []) :
    (spelled word).foldl Scan.next scan =
      { tokens := scan.finish.tokens, current := word.2, inQuotes := false } := by
  obtain ⟨blank, -, noQuote⟩ := spellable
  rw [spelled, foldl_append, Scan.fold_blank outside blank apart,
    Scan.fold_quoted (Scan.finish_outside outside) noQuote, scan.finish_current, nil_append,
    ← Scan.finish_outside outside]

theorem fold_words {words : List (Line × Line)} (clean : ∀ word ∈ words, Spellable word)
    {scan : Scan} (outside : scan.inQuotes = false)
    (first : ∀ word ∈ words.head?, word.1 = [] → scan.current = [])
    (apart : ∀ word ∈ words.tail, word.1 ≠ []) :
    let read := (words.flatMap spelled).foldl Scan.next scan
    read.inQuotes = false ∧ read.finish.tokens = scan.finish.tokens ++ words.map Prod.snd := by
  induction words generalizing scan with
  | nil => exact ⟨outside, (append_nil _).symm⟩
  | cons word rest ih =>
      have spellable := clean word mem_cons_self
      have one := fold_spelled spellable outside (first word rfl)
      have rest_apart : ∀ other ∈ rest, other.1 ≠ [] := apart
      have later := @ih (fun other mem => clean other (mem_cons_of_mem word mem))
        { tokens := scan.finish.tokens, current := word.2, inQuotes := false } rfl
        (fun other mem empty =>
          absurd empty (rest_apart other (mem_of_mem_head? mem)))
        (fun other mem => rest_apart other (mem_of_mem_tail mem))
      simp only at later ⊢
      rw [flatMap_cons, foldl_append, one]
      refine ⟨later.1, ?_⟩
      have finished : (Scan.mk scan.finish.tokens word.2 false).finish.tokens =
          scan.finish.tokens ++ [word.2] := by
        rw [Scan.finish, if_neg spellable.2.1]
      rw [later.2, finished, map_cons, append_assoc, singleton_append]

theorem tokenize_spelled {words : List (Line × Line)} (clean : ∀ word ∈ words, Spellable word)
    (apart : ∀ word ∈ words.tail, word.1 ≠ []) {trailing : Line} (blank : Blank trailing) :
    tokenize (words.flatMap spelled ++ trailing) = words.map Prod.snd := by
  obtain ⟨outside, tokens⟩ := @fold_words words clean {} rfl (fun _ _ _ => rfl) apart
  have start : (({} : Scan).finish).tokens = [] := rfl
  rw [start, nil_append] at tokens
  rw [tokenize, foldl_append]
  by_cases none : trailing = []
  · rw [none, foldl_nil, tokens]
  · rw [Scan.fold_blank outside blank (fun empty => absurd empty none), Scan.finish_finish, tokens]

def stripped (inQuotes : Bool) : Line → Line
  | [] => []
  | c :: rest =>
      if c = '\x22' then stripped (!inQuotes) rest
      else if isWhitespace c ∧ inQuotes = false then stripped inQuotes rest
      else c :: stripped inQuotes rest

def Scan.kept (scan : Scan) : Line := scan.tokens.flatten ++ scan.current

theorem Scan.kept_finish (scan : Scan) : scan.finish.kept = scan.kept := by
  unfold Scan.finish Scan.kept
  split
  · rfl
  · rw [flatten_append, flatten_singleton, append_nil]

theorem Scan.inQuotes_finish (scan : Scan) : scan.finish.inQuotes = scan.inQuotes := by
  unfold Scan.finish
  split <;> rfl

theorem fold_stripped (line : Line) (scan : Scan) :
    (line.foldl Scan.next scan).kept = scan.kept ++ stripped scan.inQuotes line := by
  induction line generalizing scan with
  | nil => rw [foldl_nil, stripped, append_nil]
  | cons c rest ih =>
      rw [foldl_cons, ih, stripped, Scan.next]
      by_cases quote : c = '\x22'
      · rw [if_pos quote, if_pos quote]
        rfl
      rw [if_neg quote, if_neg quote]
      by_cases skipped : isWhitespace c ∧ scan.inQuotes = false
      · rw [if_pos skipped, if_pos skipped, Scan.kept_finish, Scan.inQuotes_finish]
      · rw [if_neg skipped, if_neg skipped]
        unfold Scan.kept
        rw [← append_assoc, append_assoc _ [c], singleton_append]

theorem flatten_tokenize (line : Line) : (tokenize line).flatten = stripped false line := by
  have kept := fold_stripped line {}
  have start : ({} : Scan).kept = [] := rfl
  rw [start, nil_append, ← Scan.kept_finish] at kept
  rw [tokenize, ← kept, Scan.kept, Scan.finish_current, append_nil]

/-- Arguments in quotes with white space between them are the tokens; and the tokens of every line
hold its characters in order, the quotes and the white space outside them left out. -/
theorem tokenize_quoted :
    (∀ (words : List (Line × Line)) (trailing : Line), (∀ word ∈ words, Spellable word) →
      (∀ word ∈ words.tail, word.1 ≠ []) → Blank trailing →
      tokenize (words.flatMap spelled ++ trailing) = words.map Prod.snd) ∧
    ∀ line, (tokenize line).flatten = stripped false line := by
  refine ⟨?_, flatten_tokenize⟩
  intro words trailing clean apart blank
  exact tokenize_spelled clean apart blank

theorem tokenize_quoted_pair :
    tokenize (([([' ', ' '], "my file".toList), (['\t'], ['b'])] : List (Line × Line)).flatMap
      spelled ++ [' ']) = ["my file".toList, ['b']] := by
  apply tokenize_quoted.1
  · intro word mem
    rw [List.mem_cons, List.mem_singleton] at mem
    rcases mem with rfl | rfl
    · exact ⟨by decide, by decide, by decide⟩
    · exact ⟨by decide, by decide, by decide⟩
  · decide
  · decide

end Shell

end MachaOS
