/-
The two line editors of the shell: `read_line`, which blocks on the keyboard and keeps its state in
locals, and `LineEditor`, which a window feeds one event at a time.

Lines are lists of characters.  What the editors print is left out: neither reads it back.
-/

import Mathlib.Algebra.Ring.Nat
import MachaOS.Lib.Runs

namespace MachaOS

namespace Keyboard

inductive Event where
  | char (c : Char)
  | ctrl (c : Char)
  | backspace
  | enter
  | tab
  | up
  | down
  | left
  | right
  | escape
  | f2
deriving DecidableEq, Repr

def Event.Browses (event : Event) : Prop :=
  event = .up ∨ event = .down

instance (event : Event) : Decidable event.Browses :=
  inferInstanceAs (Decidable (event = .up ∨ event = .down))

end Keyboard

namespace Shell

open Keyboard

abbrev Line := List Char

/-- `String::len` counts bytes. -/
def byteLength (line : Line) : Nat :=
  (line.map Char.utf8Size).sum

def lineCapacity : Nat := 256
def historyCapacity : Nat := 32

def commands : List Line :=
  ["help", "clear", "cls", "echo", "time", "date", "uptime", "meminfo", "heap", "cpuinfo",
    "version", "ver", "reboot", "shutdown", "crash", "breakpoint", "fault", "panic", "mousetest",
    "tasks", "ls", "cat", "fatinfo", "write", "mkdir", "rm", "mv", "run", "runlinux"].map
    String.toList

def completed (line : Line) : Line :=
  if line = [] ∨ ' ' ∈ line then line
  else
    match commands.filter (fun command => line.isPrefixOf command) with
    | [only] => line ++ only.drop line.length
    | _ => line

def typed (line : Line) (c : Char) : Line :=
  if byteLength line < lineCapacity then line ++ [c] else line

def recorded (history : List Line) (line : Line) : List Line :=
  if line ≠ [] ∧ history.getLast? ≠ some line then
    (if historyCapacity ≤ history.length then history.drop 1 else history) ++ [line]
  else history

/-- The locals of one call of `read_line`. -/
structure ReadLine where
  line : Line := []
  browse : Option Nat := none
  draft : Line := []
deriving DecidableEq, Repr

inductive ReadLine.Outcome where
  | waiting (locals : ReadLine)
  | returned (line : Line) (history : List Line)
deriving DecidableEq, Repr

def completeFallback (line : Line) : Line :=
  completed line

/-- One turn of the loop of `read_line`. -/
def ReadLine.turn (locals : ReadLine) (history : List Line) : Event → ReadLine.Outcome
  | .char c => .waiting { locals with line := typed locals.line c, browse := none }
  | .backspace => .waiting { locals with line := locals.line.dropLast, browse := none }
  | .enter => .returned locals.line (recorded history locals.line)
  | .tab => .waiting { locals with line := completeFallback locals.line, browse := none }
  | .up =>
      if history = [] then .waiting locals
      else
        match locals.browse with
        | none =>
            .waiting
              { line := history.getD (history.length - 1) []
                browse := some (history.length - 1)
                draft := locals.line }
        | some i =>
            .waiting { locals with line := history.getD (i - 1) [], browse := some (i - 1) }
  | .down =>
      match locals.browse with
      | none => .waiting locals
      | some i =>
          if i + 1 < history.length then
            .waiting { locals with line := history.getD (i + 1) [], browse := some (i + 1) }
          else .waiting { line := locals.draft, browse := none, draft := [] }
  | .left | .right | .escape | .f2 | .ctrl _ => .waiting locals

/-- `read_line` called again after each `Enter`: the lines it returns and the history it leaves. -/
def readLines (locals : ReadLine) (history : List Line) : List Event → List Line × List Line
  | [] => ([], history)
  | event :: rest =>
      match locals.turn history event with
      | .waiting locals' => readLines locals' history rest
      | .returned line history' =>
          let (lines, final) := readLines {} history' rest
          (line :: lines, final)

structure LineEditor where
  line : Line := []
  history : List Line := []
  historyIndex : Option Nat := none
  draft : Line := []
deriving DecidableEq, Repr

inductive Feed where
  | pending
  | line (line : Line)
deriving DecidableEq, Repr

namespace LineEditor

def setLine (editor : LineEditor) (newLine : Line) : LineEditor :=
  { editor with line := newLine }

def historyUp (editor : LineEditor) : LineEditor :=
  if editor.history = [] then editor
  else
    match editor.historyIndex with
    | none =>
        { editor with
          draft := editor.line, historyIndex := some (editor.history.length - 1) }.setLine
          (editor.history.getD (editor.history.length - 1) [])
    | some i =>
        { editor with historyIndex := some (i - 1) }.setLine (editor.history.getD (i - 1) [])

def historyDown (editor : LineEditor) : LineEditor :=
  match editor.historyIndex with
  | some i =>
      if i + 1 < editor.history.length then
        { editor with historyIndex := some (i + 1) }.setLine (editor.history.getD (i + 1) [])
      else { editor with historyIndex := none, draft := [] }.setLine editor.draft
  | none => editor

def complete (editor : LineEditor) : LineEditor :=
  { editor with line := completed editor.line }

def feed (editor : LineEditor) : Event → LineEditor × Feed
  | .char c => ({ editor with line := typed editor.line c, historyIndex := none }, .pending)
  | .backspace => ({ editor with line := editor.line.dropLast, historyIndex := none }, .pending)
  | .enter =>
      ({ line := [], historyIndex := none, draft := []
         history := recorded editor.history editor.line }, .line editor.line)
  | .tab => (editor.complete, .pending)
  | .up => (editor.historyUp, .pending)
  | .down => (editor.historyDown, .pending)
  | .left | .right | .escape | .f2 | .ctrl _ => (editor, .pending)

def feedAll (editor : LineEditor) : List Event → List Line × LineEditor
  | [] => ([], editor)
  | event :: rest =>
      match editor.feed event with
      | (editor', .pending) => editor'.feedAll rest
      | (editor', .line line) =>
          let (lines, final) := editor'.feedAll rest
          (line :: lines, final)

end LineEditor

def Names (index : Option Nat) (history : List Line) : Prop :=
  ∀ i, index = some i → i < history.length

theorem names_none (history : List Line) : Names none history := by
  intro i never
  cases never

theorem names_some {history : List Line} {i : Nat} (inside : i < history.length) :
    Names (some i) history := by
  intro j same
  cases same
  exact inside

theorem LineEditor.feed_names {editor : LineEditor} (names : Names editor.historyIndex editor.history)
    (event : Event) :
    Names (editor.feed event).1.historyIndex (editor.feed event).1.history := by
  cases event with
  | char c | backspace | enter => exact names_none _
  | tab | left | right | escape | f2 | ctrl c => exact names
  | up =>
      simp only [LineEditor.feed, LineEditor.historyUp]
      by_cases empty : editor.history = []
      · rw [if_pos empty]
        exact names
      have positive := List.length_pos_of_ne_nil empty
      rw [if_neg empty]
      cases indexed : editor.historyIndex with
      | none =>
          have inside : editor.history.length - 1 < editor.history.length := by omega
          exact names_some inside
      | some i =>
          have inside := names i indexed
          have before : i - 1 < editor.history.length := by omega
          exact names_some before
  | down =>
      simp only [LineEditor.feed, LineEditor.historyDown]
      cases indexed : editor.historyIndex with
      | none =>
          dsimp only
          rw [indexed]
          exact names_none _
      | some i =>
          dsimp only
          split
          next more => exact names_some more
          next done => exact names_none _

structure Both where
  locals : ReadLine := {}
  history : List Line
  editor : LineEditor

namespace Both

def start (history : List Line) : Both :=
  { history, editor := { history } }

def next (both : Both) (event : Event) : Both :=
  match both.locals.turn both.history event with
  | .waiting locals => { both with locals, editor := (both.editor.feed event).1 }
  | .returned _ history => { history, editor := (both.editor.feed event).1 }

/-- `Tab` makes `read_line` drop its position in the history and `LineEditor` keep it.  The arrow
keys must not come while the two differ in this. -/
def Settled (both : Both) (event : Event) : Prop :=
  event.Browses → both.locals.browse = none → both.editor.historyIndex = none

/-- The editors show the same line and hold the same draft and history; the position in the history
differs at most by having been dropped in `read_line`. -/
structure Matches (both : Both) : Prop where
  line : both.editor.line = both.locals.line
  history : both.editor.history = both.history
  draft : both.editor.draft = both.locals.draft
  index : both.locals.browse = none ∨ both.editor.historyIndex = both.locals.browse

theorem matches_start (history : List Line) : (start history).Matches :=
  ⟨rfl, rfl, rfl, Or.inl rfl⟩

inductive Stepped (both : Both) (event : Event) : Prop where
  | waiting (locals : ReadLine) (editor : LineEditor)
      (turned : both.locals.turn both.history event = .waiting locals)
      (fed : both.editor.feed event = (editor, .pending))
      (same : Matches { both with locals, editor })
  | submitted (line : Line) (history : List Line)
      (turned : both.locals.turn both.history event = .returned line history)
      (fed : both.editor.feed event = ({ history }, .line line))

theorem Matches.step {both : Both} (same : both.Matches) {event : Event}
    (settled : both.Settled event) : both.Stepped event := by
  obtain ⟨line, history, draft, index⟩ := same
  cases event with
  | char c =>
      refine .waiting _ _ rfl rfl ⟨?_, history, draft, Or.inl rfl⟩
      exact congrArg (fun shown => typed shown c) line
  | backspace =>
      refine .waiting _ _ rfl rfl ⟨?_, history, draft, Or.inl rfl⟩
      exact congrArg List.dropLast line
  | enter =>
      refine .submitted both.locals.line (recorded both.history both.locals.line) rfl ?_
      simp only [LineEditor.feed, line, history]
  | tab =>
      refine .waiting _ _ rfl rfl ⟨?_, history, draft, Or.inl rfl⟩
      exact congrArg completed line
  | left | right | escape | f2 | ctrl c =>
      exact .waiting _ _ rfl rfl ⟨line, history, draft, index⟩
  | up =>
      by_cases empty : both.history = []
      · refine .waiting both.locals both.editor ?_ ?_ ⟨line, history, draft, index⟩
        · simp only [ReadLine.turn, if_pos empty]
        · simp only [LineEditor.feed, LineEditor.historyUp, if_pos (history.trans empty)]
      cases browsed : both.locals.browse with
      | none =>
          have unindexed := settled (Or.inl rfl) browsed
          refine .waiting
            { line := both.history.getD (both.history.length - 1) []
              browse := some (both.history.length - 1)
              draft := both.locals.line }
            { line := both.history.getD (both.history.length - 1) []
              history := both.history
              historyIndex := some (both.history.length - 1)
              draft := both.locals.line } ?_ ?_ ⟨rfl, rfl, rfl, Or.inr rfl⟩
          · simp only [ReadLine.turn, if_neg empty, browsed]
          · simp only [LineEditor.feed, LineEditor.historyUp, unindexed, history, if_neg empty,
              LineEditor.setLine, line]
      | some i =>
          have indexed : both.editor.historyIndex = some i := by
            rcases index with dropped | kept
            · rw [browsed] at dropped
              cases dropped
            · rw [kept, browsed]
          refine .waiting
            { both.locals with line := both.history.getD (i - 1) [], browse := some (i - 1) }
            { line := both.history.getD (i - 1) []
              history := both.history
              historyIndex := some (i - 1)
              draft := both.locals.draft } ?_ ?_ ⟨rfl, rfl, rfl, Or.inr rfl⟩
          · simp only [ReadLine.turn, if_neg empty, browsed]
          · simp only [LineEditor.feed, LineEditor.historyUp, indexed, history, if_neg empty,
              LineEditor.setLine, draft]
  | down =>
      cases browsed : both.locals.browse with
      | none =>
          have unindexed := settled (Or.inr rfl) browsed
          refine .waiting both.locals both.editor ?_ ?_ ⟨line, history, draft, index⟩
          · simp only [ReadLine.turn, browsed]
          · simp only [LineEditor.feed, LineEditor.historyDown, unindexed]
      | some i =>
          have indexed : both.editor.historyIndex = some i := by
            rcases index with dropped | kept
            · rw [browsed] at dropped
              cases dropped
            · rw [kept, browsed]
          by_cases more : i + 1 < both.history.length
          · refine .waiting
              { both.locals with line := both.history.getD (i + 1) [], browse := some (i + 1) }
              { line := both.history.getD (i + 1) []
                history := both.history
                historyIndex := some (i + 1)
                draft := both.locals.draft } ?_ ?_ ⟨rfl, rfl, rfl, Or.inr rfl⟩
            · simp only [ReadLine.turn, browsed, if_pos more]
            · simp only [LineEditor.feed, LineEditor.historyDown, indexed, history, if_pos more,
                LineEditor.setLine, draft]
          · refine .waiting { line := both.locals.draft, browse := none, draft := [] }
              { line := both.locals.draft, history := both.history } ?_ ?_
              ⟨rfl, rfl, rfl, Or.inl rfl⟩
            · simp only [ReadLine.turn, browsed, if_neg more]
            · simp only [LineEditor.feed, LineEditor.historyDown, indexed, history, if_neg more,
                LineEditor.setLine, draft]

def Undisturbed (both : Both) (events : List Event) : Prop :=
  Runs.Meets (fun state event => some (next state event)) Settled both events

theorem Matches.run {both : Both} (same : both.Matches) {events : List Event}
    (undisturbed : both.Undisturbed events) :
    readLines both.locals both.history events =
      ((both.editor.feedAll events).1, (both.editor.feedAll events).2.history) := by
  induction events generalizing both with
  | nil => rw [readLines, LineEditor.feedAll, same.history]
  | cons event rest ih =>
      obtain ⟨settled, later⟩ := undisturbed
      cases same.step settled with
      | waiting locals editor turned fed kept =>
          have moved : both.next event = { both with locals, editor } := by
            simp only [next, turned, fed]
          have tail := ih kept (later _ (congrArg some moved))
          simp only [readLines, LineEditor.feedAll, turned, fed]
          exact tail
      | submitted line history turned fed =>
          have moved : both.next event = start history := by
            simp only [next, turned, fed, start]
          have tail := ih (matches_start history) (later _ (congrArg some moved))
          simp only [readLines, LineEditor.feedAll, turned, fed]
          rw [show readLines {} history rest = _ from tail]
          rfl

end Both

/-- As long as no arrow key comes while `LineEditor` still holds a position that a `Tab` ended in
`read_line`, the two editors submit the same lines and keep the same history. -/
theorem editors_agree {events : List Event} {history : List Line}
    (undisturbed : (Both.start history).Undisturbed events) :
    readLines {} history events =
      ((LineEditor.feedAll { history } events).1, (LineEditor.feedAll { history } events).2.history) :=
  (Both.matches_start history).run undisturbed

theorem editors_agree_recalled :
    (Both.start [['l', 's']]).Undisturbed [.up, .tab, .backspace, .up, .enter] ∧
      readLines {} [['l', 's']] [.up, .tab, .backspace, .up, .enter] =
        ((LineEditor.feedAll { history := [['l', 's']] } [.up, .tab, .backspace, .up, .enter]).1,
          (LineEditor.feedAll { history := [['l', 's']] }
            [.up, .tab, .backspace, .up, .enter]).2.history) := by
  have undisturbed :
      (Both.start [['l', 's']]).Undisturbed [.up, .tab, .backspace, .up, .enter] := by
    refine ⟨fun _ _ => rfl, fun _ first => ?_⟩
    cases first
    refine ⟨fun browses => absurd browses (by decide), fun _ second => ?_⟩
    cases second
    refine ⟨fun browses => absurd browses (by decide), fun _ third => ?_⟩
    cases third
    refine ⟨fun _ _ => rfl, fun _ fourth => ?_⟩
    cases fourth
    exact ⟨fun browses => absurd browses (by decide), fun _ _ => trivial⟩
  exact ⟨undisturbed, editors_agree undisturbed⟩

/-- `Tab` on a recalled line: `Down` then leaves `read_line` alone and makes `LineEditor` bring the
draft back, so one Enter submits two different lines. -/
theorem editors_disagree_after_tab :
    readLines {} [['h', 'e', 'l', 'p']] [.char 'x', .up, .tab, .down, .enter] ≠
      ((LineEditor.feedAll { history := [['h', 'e', 'l', 'p']] }
          [.char 'x', .up, .tab, .down, .enter]).1,
        (LineEditor.feedAll { history := [['h', 'e', 'l', 'p']] }
          [.char 'x', .up, .tab, .down, .enter]).2.history) := by
  decide

end Shell

end MachaOS
