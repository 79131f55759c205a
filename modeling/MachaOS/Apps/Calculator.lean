/-
The calculator: what its buttons do, why it never traps, and what it computes.

A number is kept as the text on the display.  As long as a number is being typed the display holds
digits only; after an operator it shows the accumulator.  So an operand that is negative is the
accumulator itself, and the one division that overflows needs another.
-/

import MachaOS.Lib.Checked
import MachaOS.Lib.Words

namespace MachaOS

namespace Calculator

open List
open Checked Words

inductive Operator where
  | plus
  | minus
  | times
  | divide
deriving DecidableEq, Repr

inductive Button where
  | digit (d : Fin 10)
  | clear
  | operator (op : Operator)
  | equals
deriving DecidableEq, Repr

def MAX_DIGITS : Nat := 18

structure CalculatorApp where
  display : List Char
  accumulator : Int64
  pendingOp : Option Operator
  freshEntry : Bool
  error : Bool
deriving DecidableEq, Repr

def CalculatorApp.new : CalculatorApp :=
  { display := ['0'], accumulator := 0, pendingOp := none, freshEntry := false, error := false }

/-- `str::parse::<i64>` -/
def parseI64 (text : List Char) : Option Int64 :=
  (parseSigned text).bind fun value =>
    if -2 ^ 63 ≤ value ∧ value < 2 ^ 63 then some (Int64.ofInt value) else none

/-- `i64::to_string` -/
def showI64 (value : Int64) : List Char := showSigned value.toInt

/-- `a / b`, which panics for a zero divisor and when the quotient overflows. -/
def divI64 (a b : Int64) : Checked Int64 :=
  if b = 0 then .error .divisionByZero
  else if a = Int64.minValue ∧ b = -1 then .error .overflow
  else .ok (a / b)

def combine : Operator → Int64 → Int64 → Checked (Option Int64)
  | .plus, accumulator, operand => .ok (some (accumulator + operand))
  | .minus, accumulator, operand => .ok (some (accumulator - operand))
  | .times, accumulator, operand => .ok (some (accumulator * operand))
  | .divide, accumulator, operand =>
      if operand = 0 then .ok none
      else do
        let quotient ← divI64 accumulator operand
        .ok (some quotient)

namespace CalculatorApp

def applyPending (app : CalculatorApp) : Checked CalculatorApp := do
  let operand := (parseI64 app.display).getD 0
  let result ← match app.pendingOp with
    | none => .ok (some operand)
    | some op => combine op app.accumulator operand
  match result with
  | none => .ok { app with error := true, display := "Error".toList }
  | some accumulator =>
      .ok { app with accumulator := accumulator, display := showI64 accumulator }

def press (app : CalculatorApp) : Button → Checked CalculatorApp
  | .digit d =>
      let entry := if app.error ∨ app.freshEntry ∨ app.display = ['0'] then
          { app with display := [], freshEntry := false, error := false }
        else app
      .ok (if entry.display.length < MAX_DIGITS then
          { entry with display := entry.display ++ [d.val.digitChar] }
        else entry)
  | .clear =>
      .ok { app with
        display := ['0'], accumulator := 0, pendingOp := none, freshEntry := false, error := false }
  | .operator op =>
      if app.error then .ok app
      else do
        let applied ← app.applyPending
        .ok { applied with pendingOp := some op, freshEntry := true }
  | .equals =>
      if app.error then .ok app
      else do
        let applied ← app.applyPending
        .ok { applied with pendingOp := none, freshEntry := true }

def run (app : CalculatorApp) (presses : List Button) : Checked CalculatorApp :=
  presses.foldlM press app

end CalculatorApp

open CalculatorApp

structure Typed (display : List Char) (value length : Nat) : Prop where
  some : display ≠ []
  digits : ∀ c ∈ display, c.isDigit = true
  value : Nat.ofDigitChars 10 display 0 = value
  short : display.length ≤ length

theorem ofDigitChars_lt {digits : List Char} (all : ∀ c ∈ digits, c.isDigit = true) (init : Nat) :
    Nat.ofDigitChars 10 digits init < 10 ^ digits.length * (init + 1) := by
  induction digits generalizing init with
  | nil => simp
  | cons c rest ih =>
      have digit : c.toNat - '0'.toNat ≤ 9 := by
        have isDigit := all c mem_cons_self
        simp only [Char.isDigit, Bool.and_eq_true, decide_eq_true_eq] at isDigit
        have high : c.toNat ≤ 57 := isDigit.2
        have zero : '0'.toNat = 48 := rfl
        omega
      have others := ih (fun other mem => all other (mem_cons_of_mem c mem))
        (10 * init + (c.toNat - '0'.toNat))
      rw [Nat.ofDigitChars_cons, length_cons, Nat.pow_succ, Nat.mul_assoc]
      exact Nat.lt_of_lt_of_le others (Nat.mul_le_mul_left _ (by omega))

theorem toInt_ofNat {value : Nat} (small : value < 10 ^ 18) : (Int64.ofNat value).toInt = value :=
  Int64.toInt_ofNat_of_lt (by omega)

theorem Typed.value_lt {display : List Char} {value : Nat} (typed : Typed display value MAX_DIGITS) :
    value < 10 ^ 18 := by
  have bound := ofDigitChars_lt typed.digits 0
  rw [typed.value, Nat.zero_add, Nat.mul_one] at bound
  exact Nat.lt_of_lt_of_le bound (Nat.pow_le_pow_right (by decide) typed.short)

theorem Typed.parse {display : List Char} {value : Nat} (typed : Typed display value MAX_DIGITS) :
    parseI64 display = Option.some (Int64.ofNat value) := by
  have small := typed.value_lt
  have parsed : parseDigits display = Option.some value := by
    rw [parseDigits, if_pos ⟨typed.some, all_eq_true.mpr typed.digits⟩, typed.value]
  rw [parseI64, parseSigned_digits typed.digits, parsed, Option.map_some, Option.bind_some,
    if_pos (by rw [Int.ofNat_eq_natCast]; omega)]
  rfl

theorem parseI64_showI64 (value : Int64) : parseI64 (showI64 value) = some value := by
  rw [parseI64, showI64, parseSigned_showSigned, Option.bind_some,
    if_pos ⟨value.le_toInt, value.toInt_lt⟩, Int64.ofInt_toInt]

theorem isDigit_digitChar (d : Fin 10) : d.val.digitChar.isDigit = true := by
  revert d
  decide

theorem typed_one (d : Fin 10) : Typed [d.val.digitChar] d.val 1 := by
  refine ⟨cons_ne_nil _ _, ?_, ?_, Nat.le_refl 1⟩
  · intro c mem
    rw [mem_singleton.mp mem]
    exact isDigit_digitChar d
  · rw [Nat.ofDigitChars_cons_digitChar_of_lt_ten d.isLt, Nat.ofDigitChars_nil, Nat.mul_zero,
      Nat.zero_add]

theorem Typed.snoc {display : List Char} {value length : Nat} (typed : Typed display value length)
    (d : Fin 10) : Typed (display ++ [d.val.digitChar]) (10 * value + d.val) (length + 1) := by
  refine ⟨append_ne_nil_of_left_ne_nil typed.some _, ?_, ?_, ?_⟩
  · intro c mem
    rcases mem_append.mp mem with before | last
    · exact typed.digits c before
    · rw [mem_singleton.mp last]
      exact isDigit_digitChar d
  · rw [Nat.ofDigitChars_append, typed.value, Nat.ofDigitChars_cons_digitChar_of_lt_ten d.isLt,
      Nat.ofDigitChars_nil]
  · rw [length_append, length_singleton]
    exact Nat.add_le_add_right typed.short 1

structure Sound (app : CalculatorApp) : Prop where
  shown : app.error = false → app.freshEntry = true → app.display = showI64 app.accumulator
  typed : app.error = false → app.freshEntry = false → ∃ value, Typed app.display value MAX_DIGITS

theorem typed_zero : Typed ['0'] 0 MAX_DIGITS := by
  refine ⟨cons_ne_nil _ _, fun c mem => ?_, rfl, by decide⟩
  rw [mem_singleton.mp mem]
  rfl

theorem sound_new : Sound new :=
  ⟨fun _ never => (nomatch never), fun _ _ => ⟨0, typed_zero⟩⟩

section Pressing

variable {app : CalculatorApp}

theorem Sound.operand (sound : Sound app) (fine : app.error = false) :
    ∃ operand, parseI64 app.display = some operand ∧ (operand < 0 → operand = app.accumulator) := by
  cases fresh : app.freshEntry with
  | true =>
      rw [sound.shown fine fresh]
      exact ⟨app.accumulator, parseI64_showI64 _, fun _ => rfl⟩
  | false =>
      obtain ⟨value, typed⟩ := sound.typed fine fresh
      refine ⟨_, typed.parse, ?_⟩
      intro negative
      rw [Int64.lt_iff_toInt_lt, toInt_ofNat typed.value_lt] at negative
      exact absurd negative (by simp)

def Operator.value : Operator → Int64 → Int64 → Int64
  | .plus, a, b => a + b
  | .minus, a, b => a - b
  | .times, a, b => a * b
  | .divide, a, b => a / b

theorem divI64_ok {a b : Int64} (nonzero : b ≠ 0) (negative : b < 0 → b = a) :
    divI64 a b = .ok (a / b) := by
  have whole : ¬ (a = Int64.minValue ∧ b = -1) := by
    rintro ⟨rfl, rfl⟩
    exact absurd (negative (by decide)) (by decide)
  rw [divI64, if_neg nonzero, if_neg whole]

theorem combine_ok (op : Operator) {a b : Int64} (nonzero : op = .divide → b ≠ 0)
    (negative : b < 0 → b = a) : combine op a b = .ok (some (op.value a b)) := by
  cases op with
  | plus => rfl
  | minus => rfl
  | times => rfl
  | divide =>
      have some := nonzero rfl
      rw [combine, if_neg some, divI64_ok some negative]
      rfl

def result (pending : Option Operator) (accumulator operand : Int64) : Int64 :=
  match pending with
  | none => operand
  | some op => op.value accumulator operand

theorem applyPending_ok {operand : Int64} (parsed : parseI64 app.display = some operand)
    (negative : operand < 0 → operand = app.accumulator)
    (nonzero : app.pendingOp = some .divide → operand ≠ 0) :
    app.applyPending = .ok { app with
      accumulator := result app.pendingOp app.accumulator operand
      display := showI64 (result app.pendingOp app.accumulator operand) } := by
  rw [applyPending, parsed, Option.getD_some]
  cases pending : app.pendingOp with
  | none => rfl
  | some op =>
      have some := combine_ok op (fun divides => nonzero (by rw [pending, divides])) negative
      dsimp only
      rw [some, Except.ok_bind]
      rfl

theorem applyPending_zero (parsed : parseI64 app.display = some 0)
    (divides : app.pendingOp = some .divide) :
    app.applyPending = .ok { app with error := true, display := "Error".toList } := by
  rw [applyPending, parsed, Option.getD_some, divides]
  rfl

theorem Sound.applyPending (sound : Sound app) (fine : app.error = false) :
    ∃ after, app.applyPending = .ok after ∧
      (after.error = false → after.display = showI64 after.accumulator) := by
  obtain ⟨operand, parsed, negative⟩ := sound.operand fine
  by_cases zero : app.pendingOp = some .divide ∧ operand = 0
  · obtain ⟨divides, rfl⟩ := zero
    exact ⟨_, applyPending_zero parsed divides, fun never => (nomatch never)⟩
  · have nonzero : app.pendingOp = some .divide → operand ≠ 0 :=
      fun divides none => zero ⟨divides, none⟩
    exact ⟨_, applyPending_ok parsed negative nonzero, fun _ => rfl⟩

theorem press_first (d : Fin 10) (starts : app.error ∨ app.freshEntry ∨ app.display = ['0']) :
    app.press (.digit d) =
      .ok { app with display := [d.val.digitChar], freshEntry := false, error := false } := by
  rw [CalculatorApp.press, if_pos starts]
  rfl

theorem press_next (d : Fin 10) (goesOn : ¬ (app.error ∨ app.freshEntry ∨ app.display = ['0']))
    (room : app.display.length < MAX_DIGITS) :
    app.press (.digit d) = .ok { app with display := app.display ++ [d.val.digitChar] } := by
  rw [CalculatorApp.press, if_neg goesOn]
  exact congrArg Except.ok (if_pos room)

theorem press_full (d : Fin 10) (goesOn : ¬ (app.error ∨ app.freshEntry ∨ app.display = ['0']))
    (full : ¬ app.display.length < MAX_DIGITS) : app.press (.digit d) = .ok app := by
  rw [CalculatorApp.press, if_neg goesOn]
  exact congrArg Except.ok (if_neg full)

theorem press_operator (op : Operator) (fine : app.error = false) {after : CalculatorApp}
    (done : app.applyPending = .ok after) :
    app.press (.operator op) = .ok { after with pendingOp := some op, freshEntry := true } := by
  rw [CalculatorApp.press, if_neg (by rw [fine]; exact Bool.false_ne_true), done, Except.ok_bind]

theorem press_equals (fine : app.error = false) {after : CalculatorApp}
    (done : app.applyPending = .ok after) :
    app.press .equals = .ok { after with pendingOp := none, freshEntry := true } := by
  rw [CalculatorApp.press, if_neg (by rw [fine]; exact Bool.false_ne_true), done, Except.ok_bind]

theorem sound_fresh (pending : Option Operator)
    (shown : app.error = false → app.display = showI64 app.accumulator) :
    Sound { app with pendingOp := pending, freshEntry := true } :=
  ⟨fun fine _ => shown fine, fun _ never => Bool.noConfusion never⟩

theorem Sound.press (sound : Sound app) (button : Button) :
    ∃ after, app.press button = .ok after ∧ Sound after := by
  cases button with
  | digit d =>
      by_cases starts : app.error ∨ app.freshEntry ∨ app.display = ['0']
      · have one := typed_one d
        refine ⟨_, press_first d starts, fun _ never => (nomatch never), fun _ _ => ⟨d.val, ?_⟩⟩
        exact ⟨one.some, one.digits, one.value, Nat.le_trans one.short (by decide)⟩
      · by_cases room : app.display.length < MAX_DIGITS
        · refine ⟨_, press_next d starts room, fun _ fresh => absurd (Or.inr (Or.inl fresh)) starts,
            fun fine typing => ?_⟩
          obtain ⟨value, typed⟩ := sound.typed fine typing
          have more := typed.snoc d
          refine ⟨_, more.some, more.digits, more.value, ?_⟩
          rw [length_append, length_singleton]
          exact room
        · exact ⟨app, press_full d starts room, sound⟩
  | clear => exact ⟨_, rfl, sound_new⟩
  | operator op =>
      cases flagged : app.error with
      | true => exact ⟨app, if_pos flagged, sound⟩
      | false =>
          obtain ⟨after, done, shown⟩ := sound.applyPending flagged
          exact ⟨_, press_operator op flagged done, sound_fresh (some op) shown⟩
  | equals =>
      cases flagged : app.error with
      | true => exact ⟨app, if_pos flagged, sound⟩
      | false =>
          obtain ⟨after, done, shown⟩ := sound.applyPending flagged
          exact ⟨_, press_equals flagged done, sound_fresh none shown⟩

theorem Sound.run (sound : Sound app) (presses : List Button) :
    ∃ after, app.run presses = .ok after ∧ Sound after := by
  induction presses generalizing app with
  | nil => exact ⟨app, rfl, sound⟩
  | cons button rest ih =>
      obtain ⟨next, done, sound'⟩ := sound.press button
      rw [CalculatorApp.run, foldlM_cons, done]
      exact ih sound'

end Pressing

/-- No sequence of presses makes the calculator trap: each operand is read off the display, and a
negative one is the accumulator. -/
theorem never_traps (presses : List Button) :
    ∃ app, new.run presses = .ok app ∧ (app.error = false →
      ∃ operand, parseI64 app.display = some operand ∧
        (operand < 0 → operand = app.accumulator)) := by
  obtain ⟨app, done, sound⟩ := sound_new.run presses
  exact ⟨app, done, sound.operand⟩

structure Operand where
  digits : List (Fin 10)
  some : digits ≠ []
  short : digits.length ≤ MAX_DIGITS

def Operand.value (operand : Operand) : Int64 :=
  Int64.ofNat (operand.digits.foldl (fun number d => 10 * number + d.val) 0)

def Operand.keys (operand : Operand) : List Button := operand.digits.map .digit

/-- `C`, the operands with the operators between them, and `=`. -/
def calculation (first : Operand) (steps : List (Operator × Operand)) : List Button :=
  .clear :: (first.keys ++ (steps.flatMap (fun step => .operator step.1 :: step.2.keys) ++ [.equals]))

def evaluate (first : Operand) (steps : List (Operator × Operand)) : Int64 :=
  steps.foldl (fun total step => step.1.value total step.2.value) first.value

def typing (display : List Char) (accumulator : Int64) (pending : Option Operator) : CalculatorApp :=
  { display := display, accumulator := accumulator, pendingOp := pending, freshEntry := false
    error := false }

def answered (total : Int64) (pending : Option Operator) : CalculatorApp :=
  { display := showI64 total, accumulator := total, pendingOp := pending, freshEntry := true
    error := false }

section Typing

variable {display : List Char} {accumulator : Int64} {pending : Option Operator} {value : Nat}

theorem run_append {app middle : CalculatorApp} {presses : List Button}
    (done : app.run presses = .ok middle) (rest : List Button) :
    app.run (presses ++ rest) = middle.run rest := by
  rw [CalculatorApp.run, foldlM_append]
  exact congrArg (· >>= fun state => state.run rest) done

theorem type_more {length : Nat} (typed : Typed display value length) (digits : List (Fin 10))
    (room : length + digits.length ≤ MAX_DIGITS) :
    ∃ display', (typing display accumulator pending).run (digits.map .digit) =
        .ok (typing display' accumulator pending) ∧
      Typed display' (digits.foldl (fun number d => 10 * number + d.val) value) MAX_DIGITS := by
  induction digits generalizing display value length with
  | nil =>
      exact ⟨display, rfl, typed.some, typed.digits, typed.value, Nat.le_trans typed.short room⟩
  | cons d rest ih =>
      rw [length_cons] at room
      rw [map_cons, CalculatorApp.run, foldlM_cons, foldl_cons]
      by_cases zero : display = ['0']
      · -- a leading zero is replaced
        have none : value = 0 := by
          rw [← typed.value, zero]
          rfl
        rw [press_first d (Or.inr (Or.inr zero)), none]
        have one := typed_one d
        have first : Typed [d.val.digitChar] (10 * 0 + d.val) (length + 1) :=
          ⟨one.some, one.digits, by rw [one.value]; omega, Nat.le_add_left 1 length⟩
        exact ih first (by omega)
      · have short : display.length < MAX_DIGITS := Nat.lt_of_le_of_lt typed.short (by omega)
        rw [press_next d (by simp [typing, zero]) short]
        exact ih (typed.snoc d) (by omega)

theorem type_operand (operand : Operand) {app : CalculatorApp}
    (starts : app.error ∨ app.freshEntry ∨ app.display = ['0']) :
    ∃ display', app.run operand.keys = .ok (typing display' app.accumulator app.pendingOp) ∧
      ∃ number, operand.value = Int64.ofNat number ∧ Typed display' number MAX_DIGITS := by
  obtain ⟨digits, some, short⟩ := operand
  obtain ⟨d, rest, rfl⟩ := exists_cons_of_ne_nil some
  rw [length_cons] at short
  obtain ⟨display', done, typed⟩ := @type_more _ app.accumulator app.pendingOp _ _ (typed_one d) rest
    (by omega)
  refine ⟨display', ?_, _, rfl, ?_⟩
  · rw [Operand.keys, map_cons, CalculatorApp.run, foldlM_cons, press_first d starts]
    exact done
  · rw [foldl_cons, Nat.mul_zero, Nat.zero_add]
    exact typed

theorem typing_applied (typed : Typed display value MAX_DIGITS)
    (nonzero : pending = some .divide → Int64.ofNat value ≠ 0) :
    (typing display accumulator pending).applyPending = .ok { typing display accumulator pending with
      accumulator := result pending accumulator (Int64.ofNat value)
      display := showI64 (result pending accumulator (Int64.ofNat value)) } := by
  refine applyPending_ok typed.parse ?_ nonzero
  intro negative
  rw [Int64.lt_iff_toInt_lt, toInt_ofNat typed.value_lt] at negative
  exact absurd negative (by simp)

theorem run_steps (typed : Typed display value MAX_DIGITS)
    (nonzero : pending = some .divide → Int64.ofNat value ≠ 0) (steps : List (Operator × Operand))
    (nonzero' : ∀ step ∈ steps, step.1 = .divide → step.2.value ≠ 0) :
    (typing display accumulator pending).run
        (steps.flatMap (fun step => .operator step.1 :: step.2.keys) ++ [.equals]) =
      .ok (answered (steps.foldl (fun total step => step.1.value total step.2.value)
        (result pending accumulator (Int64.ofNat value))) none) := by
  induction steps generalizing display accumulator pending value with
  | nil =>
      rw [flatMap_nil, nil_append, CalculatorApp.run, foldlM_cons,
        press_equals rfl (typing_applied typed nonzero)]
      rfl
  | cons step rest ih =>
      have shown := press_operator step.1 rfl (@typing_applied display accumulator pending value typed
        nonzero)
      obtain ⟨display', done, number, value', typed'⟩ := @type_operand step.2
        (answered (result pending accumulator (Int64.ofNat value)) (some step.1)) (Or.inr (Or.inl rfl))
      have later := @ih display' (result pending accumulator (Int64.ofNat value)) (some step.1) number
        typed' (fun divides => value' ▸ nonzero' step mem_cons_self (Option.some.inj divides))
        (fun other mem => nonzero' other (mem_cons_of_mem step mem))
      rw [flatMap_cons, cons_append, cons_append, CalculatorApp.run, foldlM_cons,
        shown, append_assoc]
      refine (run_append done _).trans (later.trans ?_)
      rw [foldl_cons, value']
      rfl

end Typing

def Alike (app other : CalculatorApp) : Prop :=
  app = other ∨ (app.pendingOp = none ∧ ∃ accumulator, other = { app with accumulator := accumulator })

theorem Alike.shows {app other : CalculatorApp} (alike : Alike app other) :
    app.display = other.display ∧ app.error = other.error := by
  rcases alike with rfl | ⟨-, accumulator, rfl⟩
  · exact ⟨rfl, rfl⟩
  · exact ⟨rfl, rfl⟩

theorem applyPending_alike {app : CalculatorApp} (nothing : app.pendingOp = none)
    (accumulator : Int64) :
    { app with accumulator := accumulator }.applyPending = app.applyPending := by
  rw [applyPending, applyPending, nothing]
  rfl

theorem Alike.press {app other after : CalculatorApp} (alike : Alike app other) (button : Button)
    (done : app.press button = .ok after) :
    ∃ after', other.press button = .ok after' ∧ Alike after after' := by
  rcases alike with rfl | ⟨nothing, accumulator, rfl⟩
  · exact ⟨after, done, Or.inl rfl⟩
  have kept : ∀ {state : CalculatorApp}, state.pendingOp = none →
      Alike state { state with accumulator := accumulator } :=
    fun none => Or.inr ⟨none, accumulator, rfl⟩
  cases button with
  | digit d =>
      by_cases starts : app.error ∨ app.freshEntry ∨ app.display = ['0']
      · rw [press_first d starts] at done
        cases done
        exact ⟨_, press_first d starts, kept nothing⟩
      · by_cases room : app.display.length < MAX_DIGITS
        · rw [press_next d starts room] at done
          cases done
          exact ⟨_, press_next d starts room, kept nothing⟩
        · rw [press_full d starts room] at done
          cases done
          exact ⟨_, press_full d starts room, kept nothing⟩
  | clear => exact ⟨after, done, Or.inl rfl⟩
  | operator op =>
      rw [CalculatorApp.press] at done ⊢
      by_cases flagged : app.error = true
      · rw [if_pos flagged] at done
        cases done
        exact ⟨_, if_pos flagged, kept nothing⟩
      · rw [if_neg flagged] at done
        rw [if_neg flagged, applyPending_alike nothing]
        exact ⟨after, done, Or.inl rfl⟩
  | equals =>
      rw [CalculatorApp.press] at done ⊢
      by_cases flagged : app.error = true
      · rw [if_pos flagged] at done
        cases done
        exact ⟨_, if_pos flagged, kept nothing⟩
      · rw [if_neg flagged] at done
        rw [if_neg flagged, applyPending_alike nothing]
        exact ⟨after, done, Or.inl rfl⟩

theorem Alike.run {app other after : CalculatorApp} (alike : Alike app other) (presses : List Button)
    (done : app.run presses = .ok after) :
    ∃ after', other.run presses = .ok after' ∧ Alike after after' := by
  induction presses generalizing app other with
  | nil =>
      cases done
      exact ⟨other, rfl, alike⟩
  | cons button rest ih =>
      rw [CalculatorApp.run, foldlM_cons] at done
      obtain ⟨next, pressed, finished⟩ := bind_eq_ok done
      obtain ⟨next', pressed', alike'⟩ := alike.press button pressed
      rw [CalculatorApp.run, foldlM_cons, pressed']
      exact ih alike' finished

/-- The calculator evaluates from left to right, and the digit after `=` starts anew. -/
theorem evaluates (app : CalculatorApp) (first : Operand) (steps : List (Operator × Operand))
    (nonzero : ∀ step ∈ steps, step.1 = .divide → step.2.value ≠ 0) :
    ∃ after, app.run (calculation first steps) = .ok after ∧
      after.error = false ∧ after.display = showI64 (evaluate first steps) ∧
      ∀ (d : Fin 10) (presses : List Button), ∃ later fresh,
        after.run (.digit d :: presses) = .ok later ∧ new.run (.digit d :: presses) = .ok fresh ∧
        later.display = fresh.display ∧ later.error = fresh.error := by
  obtain ⟨display, typed, number, value, shown⟩ :=
    @type_operand first (typing ['0'] 0 none) (Or.inr (Or.inr rfl))
  have finished := @run_steps display 0 none number shown (fun never => nomatch never) steps
    nonzero
  refine ⟨answered (evaluate first steps) none, ?_, rfl, rfl, ?_⟩
  · rw [calculation, CalculatorApp.run, List.foldlM_cons]
    refine (run_append typed _).trans (finished.trans ?_)
    rw [evaluate, value]
    rfl
  · intro d presses
    obtain ⟨fresh, done, -⟩ := sound_new.run (.digit d :: presses)
    have started := done
    rw [CalculatorApp.run, List.foldlM_cons, press_first d (Or.inr (Or.inr rfl))] at started
    have alike : Alike { new with display := [d.val.digitChar], freshEntry := false, error := false }
        { answered (evaluate first steps) none with
          display := [d.val.digitChar], freshEntry := false, error := false } :=
      Or.inr ⟨rfl, evaluate first steps, rfl⟩
    obtain ⟨later, done', alike'⟩ := alike.run presses started
    refine ⟨later, fresh, ?_, done, alike'.shows.1.symm, alike'.shows.2.symm⟩
    rw [CalculatorApp.run, List.foldlM_cons, press_first d (Or.inr (Or.inl rfl))]
    exact done'

theorem evaluates_eight_halved :
    ∃ after, new.run (calculation ⟨[8], by decide, by decide⟩ [(.divide, ⟨[2], by decide, by decide⟩)]) =
        .ok after ∧ after.error = false ∧
      after.display = showI64 (evaluate ⟨[8], by decide, by decide⟩
        [(.divide, ⟨[2], by decide, by decide⟩)]) ∧
      ∀ (d : Fin 10) (presses : List Button), ∃ later fresh,
        after.run (.digit d :: presses) = .ok later ∧ new.run (.digit d :: presses) = .ok fresh ∧
        later.display = fresh.display ∧ later.error = fresh.error :=
  evaluates new _ _ (by decide)

end Calculator

end MachaOS
