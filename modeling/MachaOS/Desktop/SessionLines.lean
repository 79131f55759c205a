/-
The lines of a session file that stand for nothing: blank ones, comments, kinds nobody knows, and
entries with a field missing or not a number.
-/

import MachaOS.Desktop.Session

namespace MachaOS

namespace Desktop

open Words

namespace Session

inductive Malformed (count : Nat) (fields : List Text) : Prop
  | missing (few : fields.length < count)
  | position (word : Text) (field : word ∈ (fields.drop 1).take 2) (bad : parseI32 word = none)
  | size (word : Text) (field : word ∈ (fields.drop 3).take 2) (bad : parseU64 word = none)

inductive Junk (line : Text) : Prop
  | blank (only : ∀ c ∈ line, isWhitespace c = true)
  | comment (hash : (trim isWhitespace line).head? = some '#')
  | unknown (kind : Text) (rest : List Text) (read : words isWhitespace line = kind :: rest)
      (noWindow : kind ≠ "window".toList) (noRemembered : kind ≠ "remembered".toList)
  | win (fields : List Text) (read : words isWhitespace line = "window".toList :: fields)
      (malformed : Malformed 7 fields)
  | remembered (fields : List Text) (read : words isWhitespace line = "remembered".toList :: fields)
      (malformed : Malformed 6 fields)

def fieldCount (win : Bool) : Nat := if win then 7 else 6

theorem parseEntry_malformed {win : Bool} {fields : List Text}
    (malformed : Malformed (fieldCount win) fields) : parseEntry fields win = none := by
  match fields with
  | [] | [_] | [_, _] | [_, _, _] | [_, _, _, _] => rfl
  | app :: xWord :: yWord :: colsWord :: rowsWord :: flags =>
      rw [parseEntry]
      cases malformed with
      | position word field bad =>
          have isField : word = xWord ∨ word = yWord := by
            simpa using field
          rcases isField with rfl | rfl
          · rw [bad]
            rfl
          · rw [bad]
            cases parseI32 xWord <;> rfl
      | size word field bad =>
          have isField : word = colsWord ∨ word = rowsWord := by
            simpa using field
          rcases isField with rfl | rfl
          · rw [bad]
            cases parseI32 xWord <;> cases parseI32 yWord <;> rfl
          · rw [bad]
            cases parseI32 xWord <;> cases parseI32 yWord <;> cases parseU64 colsWord <;> rfl
      | missing few =>
          have fewFlags : flags.length < fieldCount win - 5 := by
            simp only [List.length_cons] at few
            omega
          cases parseI32 xWord with
          | none => rfl
          | some x =>
              cases parseI32 yWord with
              | none => rfl
              | some y =>
                  cases parseU64 colsWord with
                  | none => rfl
                  | some cols =>
                      cases parseU64 rowsWord with
                      | none => rfl
                      | some rows =>
                          cases win with
                          | true =>
                              rcases flags with _ | ⟨minimized, _ | ⟨maximized, rest⟩⟩
                              · rfl
                              · rfl
                              · exact absurd fewFlags (by simp [fieldCount])
                          | false =>
                              rcases flags with _ | ⟨maximized, rest⟩
                              · rfl
                              · exact absurd fewFlags (by simp [fieldCount])

theorem parseLine_junk {line : Text} (junk : Junk line) (data : SessionData) :
    parseLine data line = data := by
  unfold parseLine
  simp only
  split
  · rfl
  · rename_i kept
    rw [not_or] at kept
    rw [words_trim]
    cases junk with
    | blank only => rw [words_spaces only]
    | comment hash => exact absurd hash kept.2
    | unknown kind rest read noWindow noRemembered =>
        rw [read]
        dsimp only
        rw [if_neg noWindow, if_neg noRemembered]
    | win fields read malformed =>
        rw [read]
        dsimp only
        rw [if_pos rfl, @parseEntry_malformed true fields malformed]
    | remembered fields read malformed =>
        rw [read]
        dsimp only
        rw [if_neg (by decide), if_pos rfl, @parseEntry_malformed false fields malformed]

theorem parse_inserted {text text' : Text}
    (inserted : Inserted Junk (text.splitOn '\n') (text'.splitOn '\n')) :
    parse text' = parse text :=
  foldl_inserted (fun _ junk data => parseLine_junk junk data) inserted ⟨[], []⟩

/-- What is written is read back, and lines that stand for nothing change no reading. -/
theorem session_round_trip :
    (∀ data : SessionData, (∀ entry ∈ data.windows, Named entry) →
      (∀ entry ∈ data.remembered, Named entry ∧ entry.minimized = false) →
      parse (serialize data) = data) ∧
    ∀ text text' : Text, Inserted Junk (text.splitOn '\n') (text'.splitOn '\n') →
      parse text' = parse text := by
  refine ⟨?_, fun text text' inserted => parse_inserted inserted⟩
  intro data windows remembered
  exact parse_serialize windows (fun entry mem => (remembered entry mem).1)
    (fun entry mem => (remembered entry mem).2)

theorem session_round_trip_notepad :
    parse (serialize ⟨[⟨"notepad".toList, -3, 7, 60, 12, true, false⟩], []⟩) =
      ⟨[⟨"notepad".toList, -3, 7, 60, 12, true, false⟩], []⟩ ∧
    parse "# old\nwindow a 1 2 3 4 0 1".toList = parse "window a 1 2 3 4 0 1".toList := by
  constructor
  · apply session_round_trip.1
    · intro entry mem
      rw [List.mem_singleton] at mem
      subst mem
      exact isWord_of_all (List.cons_ne_nil _ _) (by decide)
    · intro entry never
      cases never
  · apply session_round_trip.2
    have lines : "# old\nwindow a 1 2 3 4 0 1".toList.splitOn '\n' =
        ["# old".toList, "window a 1 2 3 4 0 1".toList] := by decide
    have line : "window a 1 2 3 4 0 1".toList.splitOn '\n' = ["window a 1 2 3 4 0 1".toList] := by
      decide
    rw [lines, line]
    exact .insert (.comment (by decide)) (.keep .nil)

end Session

end Desktop

end MachaOS
