/-
Straight lines, drawn point by point (`draw_line` of `src/paint.rs`; `draw_diagonal`, of which
`src/wm.rs` and `src/file_explorer.rs` have a copy each).

The loop ends at its endpoint only, so it must not miss it.  Along the longer side every turn takes a
step; `Course` counts the steps along the other side in closed form, and the error term is what decides
the next one.
-/

import Mathlib.Data.List.Chain
import Mathlib.Data.List.Nodup
import Mathlib.Data.List.Range
import Mathlib.Data.UInt
import Mathlib.Tactic.Linarith
import Mathlib.Tactic.Ring
import MachaOS.Desktop.Screen
import MachaOS.Lib.Checked

namespace MachaOS

namespace Graphics

open Checked

structure Cursor where
  x : Int
  y : Int
  err : Int
deriving DecidableEq, Repr

abbrev Turn : Type := Cursor → Checked (Option Cursor)

/-- A loop that plots its cursor and takes a turn; `none` when the fuel is used up. -/
def loop {σ : Type} (plot : σ → Int × Int → σ) (turn : Turn) :
    Nat → Cursor → σ → Checked (Option σ)
  | 0, _, _ => .ok none
  | fuel + 1, cursor, state => do
      let plotted := plot state (cursor.x, cursor.y)
      match ← turn cursor with
      | none => .ok (some plotted)
      | some next => loop plot turn fuel next plotted

def distance (a b : Int) : Checked Int := do
  let difference ← i32 (b - a)
  i32 |difference|

/-- A step of the cursor along `x`, and the error it brings. -/
def Cursor.across (cursor : Cursor) (change sx : Int) : Checked Cursor := do
  let err ← i32 (cursor.err + change)
  let x ← i32 (cursor.x + sx)
  .ok { cursor with x := x, err := err }

def Cursor.down (cursor : Cursor) (change sy : Int) : Checked Cursor := do
  let err ← i32 (cursor.err + change)
  let y ← i32 (cursor.y + sy)
  .ok { cursor with y := y, err := err }

end Graphics

namespace Paint

open Checked Graphics

/-- A turn of `draw_line`, where `dy` is negative and both comparisons take in a tie. -/
def drawLine.turn (x1 y1 dx dy sx sy : Int) : Turn := fun cursor =>
  if cursor.x = x1 ∧ cursor.y = y1 then .ok none
  else do
    let e2 ← i32 (2 * cursor.err)
    if e2 ≥ dy ∧ cursor.x = x1 then .ok none
    else do
      let moved ← (if e2 ≥ dy then cursor.across dy sx else .ok cursor : Checked Cursor)
      if e2 ≤ dx ∧ moved.y = y1 then .ok none
      else do
        let moved ← (if e2 ≤ dx then moved.down dx sy else .ok moved : Checked Cursor)
        .ok (some moved)

/-- `plot` is what `draw_line` does at a point: it paints the pixel when it lies on the canvas. -/
def drawLine {σ : Type} (plot : σ → Int × Int → σ) (fuel : Nat) (x0 y0 x1 y1 : Int) (state : σ) :
    Checked (Option σ) := do
  let dx ← distance x0 x1
  let height ← distance y0 y1
  let dy ← i32 (-height)
  let sx := if x0 < x1 then 1 else -1
  let sy := if y0 < y1 then 1 else -1
  let err ← i32 (dx + dy)
  loop plot (drawLine.turn x1 y1 dx dy sx sy) fuel { x := x0, y := y0, err := err } state

end Paint

namespace Graphics

open Checked

/-- A turn of `draw_diagonal`, where `dy` is positive and a tie moves neither way. -/
def drawDiagonal.turn (x1 y1 dx dy sx sy : Int) : Turn := fun cursor =>
  if cursor.x = x1 ∧ cursor.y = y1 then .ok none
  else do
    let e2 ← i32 (2 * cursor.err)
    let low ← i32 (-dy)
    let moved ← (if e2 > low then cursor.across (-dy) sx else .ok cursor : Checked Cursor)
    let moved ← (if e2 < dx then moved.down dx sy else .ok moved : Checked Cursor)
    .ok (some moved)

/-- `plot` is what `draw_diagonal` does at a point: it puts the pixel when no coordinate is negative. -/
def drawDiagonal {σ : Type} (plot : σ → Int × Int → σ) (fuel : Nat) (x0 y0 x1 y1 : UInt32)
    (state : σ) : Checked (Option σ) := do
  let sx := if x1 ≥ x0 then 1 else -1
  let sy := if y1 ≥ y0 then 1 else -1
  let dx ← distance x0.toInt32.toInt x1.toInt32.toInt
  let dy ← distance y0.toInt32.toInt y1.toInt32.toInt
  let err ← i32 (dx - dy)
  loop plot (drawDiagonal.turn x1.toInt32.toInt y1.toInt32.toInt dx dy sx sy) fuel
    { x := x0.toInt32.toInt, y := y0.toInt32.toInt, err := err } state

end Graphics

namespace Wm

/-- `draw_diagonal` of `src/wm.rs` -/
def drawDiagonal {σ : Type} (plot : σ → Int × Int → σ) (fuel : Nat) (x0 y0 x1 y1 : UInt32)
    (state : σ) : Checked (Option σ) :=
  Graphics.drawDiagonal plot fuel x0 y0 x1 y1 state

end Wm

namespace Explorer

/-- `draw_diagonal` of `src/file_explorer.rs` -/
def drawDiagonal {σ : Type} (plot : σ → Int × Int → σ) (fuel : Nat) (x0 y0 x1 y1 : UInt32)
    (state : σ) : Checked (Option σ) :=
  Graphics.drawDiagonal plot fuel x0 y0 x1 y1 state

end Explorer

namespace Graphics

open Checked

theorem loop_ok {σ : Type} {plot : σ → Int × Int → σ} {turn : Turn} (n : Nat) (at' : Nat → Cursor)
    (moves : ∀ k, k < n → turn (at' k) = .ok (some (at' (k + 1)))) (stops : turn (at' n) = .ok none)
    {fuel : Nat} (enough : n < fuel) (state : σ) :
    loop plot turn fuel (at' 0) state =
      .ok (some (((List.range (n + 1)).map (fun k => ((at' k).x, (at' k).y))).foldl plot state)) := by
  induction n generalizing at' fuel state with
  | zero =>
      obtain ⟨fuel, rfl⟩ := Nat.exists_eq_succ_of_ne_zero (Nat.ne_of_gt enough)
      rw [Nat.succ_eq_add_one, loop, stops]
      rfl
  | succ n ih =>
      obtain ⟨fuel, rfl⟩ := Nat.exists_eq_succ_of_ne_zero (Nat.ne_of_gt (Nat.zero_lt_of_lt enough))
      have rest := ih (fun k => at' (k + 1)) (fun k inside => moves (k + 1) (Nat.succ_lt_succ inside))
        stops (Nat.lt_of_succ_lt_succ enough) (plot state ((at' 0).x, (at' 0).y))
      rw [Nat.succ_eq_add_one, loop, moves 0 (Nat.succ_pos n), Except.ok_bind]
      dsimp only
      rw [rest, @List.range_succ_eq_map (n + 1), List.map_cons, List.foldl_cons, List.map_map]
      rfl

/-- The steps along a side of length `b`, after `k` steps along one of length `a`.  A tie is rounded
away when `tie` is 1. -/
def minorSteps (a b tie k : Nat) : Nat := (2 * (k * b) + (a - tie)) / (2 * a)

section Minor

variable {a b tie k : Nat}

theorem minorSteps_spec (positive : 0 < a) :
    2 * (minorSteps a b tie k * a) ≤ 2 * (k * b) + (a - tie) ∧
      2 * (k * b) + (a - tie) < 2 * (minorSteps a b tie k * a) + 2 * a := by
  have least := Nat.div_mul_le_self (2 * (k * b) + (a - tie)) (2 * a)
  have most := Nat.lt_div_mul_add (a := 2 * (k * b) + (a - tie)) (show 0 < 2 * a by omega)
  have order : minorSteps a b tie k * (2 * a) = 2 * (minorSteps a b tie k * a) := Nat.mul_left_comm _ _ _
  rw [← order]
  exact ⟨least, most⟩

theorem minorSteps_zero (positive : 0 < a) : minorSteps a b tie 0 = 0 := by
  rw [minorSteps, Nat.zero_mul]
  exact Nat.div_eq_of_lt (by omega)

theorem minorSteps_all (positive : 0 < a) : minorSteps a b tie a = b := by
  refine Nat.div_eq_of_lt_le ?_ ?_
  · have order : b * (2 * a) = 2 * (a * b) := by rw [Nat.mul_left_comm, Nat.mul_comm b a]
    omega
  · have order : (b + 1) * (2 * a) = 2 * (a * b) + 2 * a := by
      rw [Nat.succ_mul, Nat.mul_left_comm, Nat.mul_comm b a]
    omega

theorem minorSteps_le (positive : 0 < a) (inside : k ≤ a) : minorSteps a b tie k ≤ b := by
  refine Nat.le_trans (Nat.div_le_div_right (Nat.add_le_add_right (Nat.mul_le_mul_left 2 ?_) _))
    (Nat.le_of_eq (@minorSteps_all _ _ tie positive))
  exact Nat.mul_le_mul_right b inside

/-- Twice the error before turn `k`, seen from the longer side. -/
def lead (a b tie k : Nat) : Int :=
  2 * ((1 + minorSteps a b tie k : Nat) * (a : Int) - (1 + k : Nat) * (b : Int))

theorem lead_eq : lead a b tie k =
    2 * ((minorSteps a b tie k * a : Nat) : Int) + 2 * a - 2 * ((k * b : Nat) : Int) - 2 * b := by
  rw [lead]
  push_cast
  ring

theorem lead_major (positive : 0 < a) (shorter : b ≤ a) (small : tie ≤ 1) :
    (tie : Int) - b ≤ lead a b tie k := by
  have spec := @minorSteps_spec a b tie k positive
  rw [lead_eq]
  by_cases equal : b = a
  · -- the lead is even in units of `a`, so it is no tie
    subst equal
    have parity : k < minorSteps b b tie k + 1 := by
      refine Nat.lt_of_mul_lt_mul_right (a := 2 * b) ?_
      have left : k * (2 * b) = 2 * (k * b) := Nat.mul_left_comm _ _ _
      have right : (minorSteps b b tie k + 1) * (2 * b) = 2 * (minorSteps b b tie k * b) + 2 * b := by
        rw [Nat.succ_mul, Nat.mul_left_comm]
      omega
    have product : k * b ≤ minorSteps b b tie k * b :=
      Nat.mul_le_mul_right b (Nat.lt_succ_iff.mp parity)
    omega
  · omega

theorem lead_le (positive : 0 < a) : lead a b tie k ≤ 3 * a := by
  have spec := @minorSteps_spec a b tie k positive
  rw [lead_eq]
  omega

theorem lead_minor (positive : 0 < a) (shorter : b ≤ a) (small : tie ≤ 1) :
    (lead a b tie k ≤ (a : Int) - tie ∧ minorSteps a b tie (k + 1) = minorSteps a b tie k + 1) ∨
      (¬ lead a b tie k ≤ (a : Int) - tie ∧ minorSteps a b tie (k + 1) = minorSteps a b tie k) := by
  have before := @minorSteps_spec a b tie k positive
  have after := @minorSteps_spec a b tie (k + 1) positive
  have further : (k + 1) * b = k * b + b := Nat.succ_mul k b
  rw [lead_eq]
  rw [further] at after
  have least : minorSteps a b tie k ≤ minorSteps a b tie (k + 1) := by
    refine Nat.div_le_div_right (Nat.add_le_add_right (Nat.mul_le_mul_left 2 ?_) _)
    exact Nat.mul_le_mul_right b (Nat.le_succ k)
  have most : minorSteps a b tie (k + 1) < minorSteps a b tie k + 2 := by
    refine Nat.lt_of_mul_lt_mul_right (a := a) ?_
    rw [Nat.add_mul]
    omega
  rcases Nat.eq_or_lt_of_le least with same | more
  · rw [← same] at after ⊢
    exact Or.inr ⟨by omega, rfl⟩
  · have next : minorSteps a b tie (k + 1) = minorSteps a b tie k + 1 := by omega
    rw [next, Nat.succ_mul (minorSteps a b tie k) a] at after
    exact Or.inl ⟨by omega, next⟩

end Minor

/-- The error term after `i` steps across and `j` steps down. -/
def error (dx dy i j : Nat) : Int := (1 + j : Nat) * (dx : Int) - (1 + i : Nat) * (dy : Int)

structure Course (dx dy tie : Nat) (i j : Nat → Nat) : Prop where
  start : i 0 = 0 ∧ j 0 = 0
  finish : i (max dx dy) = dx ∧ j (max dx dy) = dy
  within : ∀ k, k ≤ max dx dy → i k ≤ dx ∧ j k ≤ dy
  counts : (∀ k, i k = k) ∨ ∀ k, j k = k
  bounded : ∀ k, k < max dx dy → |2 * error dx dy (i k) (j k)| ≤ 3 * (max dx dy : Nat)
  across : ∀ k, k < max dx dy →
    (tie - dy ≤ 2 * error dx dy (i k) (j k) ∧ i (k + 1) = i k + 1) ∨
      (¬ tie - dy ≤ 2 * error dx dy (i k) (j k) ∧ i (k + 1) = i k)
  down : ∀ k, k < max dx dy →
    (2 * error dx dy (i k) (j k) ≤ dx - tie ∧ j (k + 1) = j k + 1) ∨
      (¬ 2 * error dx dy (i k) (j k) ≤ dx - tie ∧ j (k + 1) = j k)

theorem error_swap (dx dy i j : Nat) : error dy dx j i = - error dx dy i j :=
  (neg_sub _ _).symm

theorem Course.swap {dx dy tie : Nat} {i j : Nat → Nat} (course : Course dx dy tie i j) :
    Course dy dx tie j i := by
  have turned : ∀ k, 2 * error dy dx (j k) (i k) = -(2 * error dx dy (i k) (j k)) := by
    intro k
    rw [error_swap, mul_neg]
  refine ⟨course.start.symm, ?_, ?_, course.counts.symm, ?_, ?_, ?_⟩
  all_goals rw [max_comm dy dx]
  · exact course.finish.symm
  · exact fun k inside => (course.within k inside).symm
  · intro k inside
    rw [turned, abs_neg]
    exact course.bounded k inside
  · intro k inside
    have down := course.down k inside
    rw [turned]
    omega
  · intro k inside
    have across := course.across k inside
    rw [turned]
    omega

theorem course_across {dx dy tie : Nat} (positive : 0 < dx) (shorter : dy ≤ dx) (small : tie ≤ 1) :
    Course dx dy tie (fun k => k) (minorSteps dx dy tie) := by
  have longer : max dx dy = dx := max_eq_left shorter
  have twice : ∀ k, 2 * error dx dy k (minorSteps dx dy tie k) = lead dx dy tie k := fun _ => rfl
  refine ⟨⟨rfl, minorSteps_zero positive⟩, ?_, ?_, Or.inl fun _ => rfl, ?_, ?_, ?_⟩
  all_goals rw [longer]
  · exact ⟨rfl, minorSteps_all positive⟩
  · exact fun k inside => ⟨inside, minorSteps_le positive inside⟩
  · intro k _
    have least := lead_major (k := k) positive shorter small
    have most := @lead_le _ dy tie k positive
    rw [twice, abs_le]
    omega
  · intro k _
    rw [twice]
    exact Or.inl ⟨lead_major positive shorter small, rfl⟩
  · intro k _
    rw [twice]
    exact lead_minor positive shorter small

theorem exists_course (dx dy : Nat) {tie : Nat} (small : tie ≤ 1) : ∃ i j, Course dx dy tie i j := by
  rcases Nat.lt_or_ge dx dy with upright | flat
  · exact ⟨_, _, (course_across (Nat.zero_lt_of_lt upright) (Nat.le_of_lt upright) small).swap⟩
  · rcases Nat.eq_zero_or_pos dx with point | positive
    · -- both ends are one point, and no turn moves
      subst point
      obtain rfl : dy = 0 := Nat.le_zero.mp flat
      have none : ∀ k : Nat, ¬ k < max 0 0 := fun k => Nat.not_lt_zero k
      exact ⟨fun k => k, fun k => k, ⟨rfl, rfl⟩, ⟨rfl, rfl⟩, fun k inside => ⟨inside, inside⟩,
        Or.inl fun _ => rfl, fun k inside => absurd inside (none k),
        fun k inside => absurd inside (none k), fun k inside => absurd inside (none k)⟩
    · exact ⟨_, _, course_across positive flat small⟩

/-- The way from `first` to `last` along one coordinate: `length` steps in one direction. -/
structure Way (first last direction : Int) (length : Nat) : Prop where
  unit : direction = 1 ∨ direction = -1
  ends : first + direction * length = last
  firstInside : |first| ≤ 2 ^ 28
  lastInside : |last| ≤ 2 ^ 28

section Way

variable {first last direction : Int} {length steps : Nat}

section

variable (way : Way first last direction length)
include way

theorem Way.inside (within : steps ≤ length) : |first + direction * steps| ≤ 2 ^ 28 := by
  obtain ⟨unit, ends, firstInside, lastInside⟩ := way
  rw [abs_le] at *
  rcases unit with rfl | rfl <;> omega

theorem Way.length_le : length ≤ 2 ^ 29 := by
  obtain ⟨unit, ends, firstInside, lastInside⟩ := way
  rw [abs_le] at *
  rcases unit with rfl | rfl <;> omega

theorem Way.abs_sub : |last - first| = length := by
  obtain ⟨unit, ends, -, -⟩ := way
  rw [Int.abs_eq_natAbs]
  rcases unit with rfl | rfl <;> omega

theorem Way.at_end : first + direction * steps = last ↔ steps = length := by
  obtain ⟨unit, ends, -, -⟩ := way
  rcases unit with rfl | rfl <;> omega

end

end Way

structure Connects (x0 y0 x1 y1 : Int) (points : List (Int × Int)) : Prop where
  starts : points.head? = some (x0, y0)
  ends : points.getLast? = some (x1, y1)
  distinct : points.Nodup
  adjacent : points.IsChain fun p q => |q.1 - p.1| ≤ 1 ∧ |q.2 - p.2| ≤ 1
  count : (points.length : Int) = max |x1 - x0| |y1 - y0| + 1

section Line

variable {x0 y0 x1 y1 sx sy : Int} {dx dy tie : Nat} {i j : Nat → Nat}

/-- The cursor after `i` steps across and `j` steps down. -/
def cursorAt (x0 y0 sx sy : Int) (dx dy i j : Nat) : Cursor :=
  { x := x0 + sx * i, y := y0 + sy * j, err := error dx dy i j }

theorem across_cursorAt (wayX : Way x0 x1 sx dx) {a b : Nat} (within : a + 1 ≤ dx)
    (small : |error dx dy a b - dy| ≤ 2 ^ 31 - 1) :
    (cursorAt x0 y0 sx sy dx dy a b).across (-dy) sx =
      .ok (cursorAt x0 y0 sx sy dx dy (a + 1) b) := by
  have inside := wayX.inside within
  have err : error dx dy a b + -(dy : Int) = error dx dy (a + 1) b := by
    rw [error, error]
    push_cast
    ring
  have x : x0 + sx * a + sx = x0 + sx * ((a + 1 : Nat) : Int) := by
    push_cast
    ring
  rw [abs_le] at inside small
  rw [Cursor.across, cursorAt]
  dsimp only
  rw [i32_ok (by omega), Except.ok_bind, x, i32_ok (by omega), Except.ok_bind, err]
  rfl

theorem down_cursorAt (wayY : Way y0 y1 sy dy) {a b : Nat} (within : b + 1 ≤ dy)
    (small : |error dx dy a b + dx| ≤ 2 ^ 31 - 1) :
    (cursorAt x0 y0 sx sy dx dy a b).down dx sy =
      .ok (cursorAt x0 y0 sx sy dx dy a (b + 1)) := by
  have inside := wayY.inside within
  have err : error dx dy a b + (dx : Int) = error dx dy a (b + 1) := by
    rw [error, error]
    push_cast
    ring
  have y : y0 + sy * b + sy = y0 + sy * ((b + 1 : Nat) : Int) := by
    push_cast
    ring
  rw [abs_le] at inside small
  rw [Cursor.down, cursorAt]
  dsimp only
  rw [i32_ok (by omega), Except.ok_bind, y, i32_ok (by omega), Except.ok_bind, err]
  rfl

theorem steps_cursorAt (wayX : Way x0 x1 sx dx) (wayY : Way y0 y1 sy dy) {a b a' b' : Nat}
    {goesAcross goesDown : Prop} [Decidable goesAcross] [Decidable goesDown]
    (small : |2 * error dx dy a b| ≤ 3 * 2 ^ 29) (within : a' ≤ dx ∧ b' ≤ dy)
    (across : (goesAcross ∧ a' = a + 1) ∨ (¬ goesAcross ∧ a' = a))
    (down : (goesDown ∧ b' = b + 1) ∨ (¬ goesDown ∧ b' = b)) :
    (if goesAcross then (cursorAt x0 y0 sx sy dx dy a b).across (-dy) sx
      else .ok (cursorAt x0 y0 sx sy dx dy a b)) = .ok (cursorAt x0 y0 sx sy dx dy a' b) ∧
    (if goesDown then (cursorAt x0 y0 sx sy dx dy a' b).down dx sy
      else .ok (cursorAt x0 y0 sx sy dx dy a' b)) = .ok (cursorAt x0 y0 sx sy dx dy a' b') := by
  have wide := wayX.length_le
  have high := wayY.length_le
  have moved : |error dx dy a' b + dx| ≤ 2 ^ 31 - 1 := by
    have next : error dx dy (a + 1) b = error dx dy a b - dy := by
      rw [error, error]
      push_cast
      ring
    rw [abs_le] at small ⊢
    rcases across with ⟨-, rfl⟩ | ⟨-, rfl⟩
    · rw [next]
      omega
    · omega
  constructor
  · rcases across with ⟨goes, rfl⟩ | ⟨stays, rfl⟩
    · rw [if_pos goes]
      refine across_cursorAt wayX within.1 ?_
      rw [abs_le] at small ⊢
      omega
    · exact if_neg stays
  · rcases down with ⟨goes, rfl⟩ | ⟨stays, rfl⟩
    · rw [if_pos goes]
      exact down_cursorAt wayY within.2 moved
    · exact if_neg stays

theorem Course.not_ended (course : Course dx dy tie i j) (wayX : Way x0 x1 sx dx)
    (wayY : Way y0 y1 sy dy) {k : Nat} (inside : k < max dx dy) :
    ¬ ((cursorAt x0 y0 sx sy dx dy (i k) (j k)).x = x1 ∧
      (cursorAt x0 y0 sx sy dx dy (i k) (j k)).y = y1) := by
  rintro ⟨endX, endY⟩
  have atX : i k = dx := wayX.at_end.mp endX
  have atY : j k = dy := wayY.at_end.mp endY
  obtain ⟨lastX, lastY⟩ := course.finish
  rcases course.counts with counts | counts
  · rw [counts] at atX lastX
    omega
  · rw [counts] at atY lastY
    omega

theorem Course.small (course : Course dx dy tie i j) (wayX : Way x0 x1 sx dx)
    (wayY : Way y0 y1 sy dy) {k : Nat} (inside : k < max dx dy) :
    |2 * error dx dy (i k) (j k)| ≤ 3 * 2 ^ 29 := by
  have bounded := course.bounded k inside
  have wide := wayX.length_le
  have high := wayY.length_le
  omega

theorem drawLine_turn (course : Course dx dy 0 i j) (wayX : Way x0 x1 sx dx)
    (wayY : Way y0 y1 sy dy) {k : Nat} (inside : k < max dx dy) :
    Paint.drawLine.turn x1 y1 dx (-dy) sx sy (cursorAt x0 y0 sx sy dx dy (i k) (j k)) =
      .ok (some (cursorAt x0 y0 sx sy dx dy (i (k + 1)) (j (k + 1)))) := by
  have small := course.small wayX wayY inside
  have within := course.within (k + 1) inside
  have across := course.across k inside
  have down := course.down k inside
  have e2 := small
  rw [abs_le] at e2
  simp only [Nat.cast_zero, Int.zero_sub, Int.sub_zero] at across down
  obtain ⟨first, second⟩ := @steps_cursorAt _ _ _ _ _ _ dx dy wayX wayY _ _ _ _
    (2 * error dx dy (i k) (j k) ≥ -dy) _ _ _ small within across down
  -- neither inner test ends the loop: a step is left on that side
  have goesOn : ¬ (2 * error dx dy (i k) (j k) ≥ -dy ∧
      (cursorAt x0 y0 sx sy dx dy (i k) (j k)).x = x1) := by
    rintro ⟨goes, ended⟩
    have last : i k = dx := wayX.at_end.mp ended
    omega
  have goesOn' : ¬ (2 * error dx dy (i k) (j k) ≤ dx ∧
      (cursorAt x0 y0 sx sy dx dy (i (k + 1)) (j k)).y = y1) := by
    rintro ⟨goes, ended⟩
    have last : j k = dy := wayY.at_end.mp ended
    omega
  rw [Paint.drawLine.turn, if_neg (course.not_ended wayX wayY inside),
    show (cursorAt x0 y0 sx sy dx dy (i k) (j k)).err = error dx dy (i k) (j k) from rfl,
    i32_ok (by omega), Except.ok_bind, if_neg goesOn, first, Except.ok_bind, if_neg goesOn', second,
    Except.ok_bind]

theorem drawDiagonal_turn (course : Course dx dy 1 i j) (wayX : Way x0 x1 sx dx)
    (wayY : Way y0 y1 sy dy) {k : Nat} (inside : k < max dx dy) :
    drawDiagonal.turn x1 y1 dx dy sx sy (cursorAt x0 y0 sx sy dx dy (i k) (j k)) =
      .ok (some (cursorAt x0 y0 sx sy dx dy (i (k + 1)) (j (k + 1)))) := by
  have small := course.small wayX wayY inside
  have high := wayY.length_le
  have e2 := small
  rw [abs_le] at e2
  have strictAcross : ((1 : Nat) : Int) - dy ≤ 2 * error dx dy (i k) (j k) ↔
      2 * error dx dy (i k) (j k) > -dy := by omega
  have strictDown : 2 * error dx dy (i k) (j k) ≤ dx - ((1 : Nat) : Int) ↔
      2 * error dx dy (i k) (j k) < dx := by omega
  have across := course.across k inside
  have down := course.down k inside
  rw [strictAcross] at across
  rw [strictDown] at down
  obtain ⟨first, second⟩ :=
    steps_cursorAt wayX wayY small (course.within (k + 1) inside) across down
  rw [drawDiagonal.turn, if_neg (course.not_ended wayX wayY inside),
    show (cursorAt x0 y0 sx sy dx dy (i k) (j k)).err = error dx dy (i k) (j k) from rfl,
    i32_ok (by omega), Except.ok_bind, i32_ok (by omega), Except.ok_bind, first, Except.ok_bind, second,
    Except.ok_bind]

def pointsOf (at' : Nat → Cursor) (turns : Nat) : List (Int × Int) :=
  (List.range (turns + 1)).map fun k => ((at' k).x, (at' k).y)

theorem Course.connects (course : Course dx dy tie i j) (wayX : Way x0 x1 sx dx)
    (wayY : Way y0 y1 sy dy) :
    Connects x0 y0 x1 y1
      (pointsOf (fun k => cursorAt x0 y0 sx sy dx dy (i k) (j k)) (max dx dy)) := by
  obtain ⟨startX, startY⟩ := course.start
  obtain ⟨finishX, finishY⟩ := course.finish
  have unitX := wayX.unit
  have unitY := wayY.unit
  refine ⟨?_, ?_, ?_, ?_, ?_⟩
  · rw [pointsOf, List.range_succ_eq_map, List.map_cons, List.head?_cons, startX, startY]
    simp [cursorAt]
  · rw [pointsOf, List.range_succ, List.map_append, List.map_singleton, List.getLast?_concat, finishX,
      finishY]
    exact congrArg some (Prod.ext wayX.ends wayY.ends)
  · refine List.Nodup.map ?_ List.nodup_range
    intro k m same
    have sameX : x0 + sx * i k = x0 + sx * i m := congrArg Prod.fst same
    have sameY : y0 + sy * j k = y0 + sy * j m := congrArg Prod.snd same
    rcases course.counts with counts | counts
    · rw [counts, counts] at sameX
      rcases unitX with rfl | rfl <;> omega
    · rw [counts, counts] at sameY
      rcases unitY with rfl | rfl <;> omega
  · rw [pointsOf, List.isChain_map, List.isChain_range]
    intro k inside
    have across := course.across k (by omega)
    have down := course.down k (by omega)
    dsimp only [cursorAt, Nat.succ_eq_add_one]
    rw [abs_le, abs_le]
    rcases unitX with rfl | rfl <;> rcases unitY with rfl | rfl <;> omega
  · rw [pointsOf, List.length_map, List.length_range, wayX.abs_sub, wayY.abs_sub, ← Nat.cast_max]
    rfl

theorem Course.loop_ok {σ : Type} {plot : σ → Int × Int → σ} {turn : Turn}
    (course : Course dx dy tie i j)
    (moves : ∀ k, k < max dx dy → turn (cursorAt x0 y0 sx sy dx dy (i k) (j k)) =
      .ok (some (cursorAt x0 y0 sx sy dx dy (i (k + 1)) (j (k + 1)))))
    (stops : turn (cursorAt x0 y0 sx sy dx dy dx dy) = .ok none)
    {fuel : Nat} (enough : max dx dy < fuel) (state : σ) :
    loop plot turn fuel { x := x0, y := y0, err := (dx : Int) - dy } state =
      .ok (some ((pointsOf (fun k => cursorAt x0 y0 sx sy dx dy (i k) (j k)) (max dx dy)).foldl
        plot state)) := by
  have first : cursorAt x0 y0 sx sy dx dy (i 0) (j 0) =
      { x := x0, y := y0, err := (dx : Int) - dy } := by
    rw [course.start.1, course.start.2]
    simp [cursorAt, error]
  rw [← first]
  refine Graphics.loop_ok (max dx dy) _ moves ?_ enough state
  rw [course.finish.1, course.finish.2]
  exact stops

end Line

def Near (c : Int) : Prop := |c| ≤ 2 ^ 28

theorem distance_ok {a b : Int} (near : Near a) (near' : Near b) :
    distance a b = .ok ((b - a).natAbs : Int) := by
  rw [Near, abs_le] at *
  rw [distance, i32_ok (by omega), Except.ok_bind, ← Int.natCast_natAbs, i32_ok (by omega)]

theorem way_of {a b s : Int} (near : Near a) (near' : Near b) (unit : s = 1 ∨ s = -1)
    (toward : s = 1 ∧ a ≤ b ∨ s = -1 ∧ b ≤ a) : Way a b s (b - a).natAbs := by
  refine ⟨unit, ?_, near, near'⟩
  rcases toward with ⟨rfl, order⟩ | ⟨rfl, order⟩ <;> omega

theorem drawLine_connects {x0 y0 x1 y1 : Int} (nearX : Near x0) (nearY : Near y0) (nearX' : Near x1)
    (nearY' : Near y1) :
    ∃ points, Connects x0 y0 x1 y1 points ∧
      ∀ (σ : Type) (plot : σ → Int × Int → σ) (state : σ) (fuel : Nat),
        max |x1 - x0| |y1 - y0| < fuel →
          Paint.drawLine plot fuel x0 y0 x1 y1 state = .ok (some (points.foldl plot state)) := by
  have wayX : Way x0 x1 (if x0 < x1 then 1 else -1) (x1 - x0).natAbs :=
    way_of nearX nearX' (by split <;> omega) (by split <;> omega)
  have wayY : Way y0 y1 (if y0 < y1 then 1 else -1) (y1 - y0).natAbs :=
    way_of nearY nearY' (by split <;> omega) (by split <;> omega)
  obtain ⟨i, j, course⟩ := @exists_course (x1 - x0).natAbs (y1 - y0).natAbs 0 (by omega)
  refine ⟨_, course.connects wayX wayY, ?_⟩
  intro σ plot state fuel enough
  have wide := wayX.length_le
  have high := wayY.length_le
  rw [Paint.drawLine, distance_ok nearX nearX', Except.ok_bind, distance_ok nearY nearY', Except.ok_bind,
    i32_ok (by omega), Except.ok_bind, i32_ok (by omega), Except.ok_bind, ← Int.sub_eq_add_neg]
  refine course.loop_ok (fun k inside => drawLine_turn course wayX wayY inside) ?_ ?_ state
  · exact if_pos ⟨wayX.ends, wayY.ends⟩
  · rw [wayX.abs_sub, wayY.abs_sub] at enough
    omega

theorem drawDiagonal_connects {x0 y0 x1 y1 : UInt32} (smallX : x0 ≤ 2 ^ 28) (smallY : y0 ≤ 2 ^ 28)
    (smallX' : x1 ≤ 2 ^ 28) (smallY' : y1 ≤ 2 ^ 28) :
    ∃ points, Connects x0.toNat y0.toNat x1.toNat y1.toNat points ∧
      ∀ (σ : Type) (plot : σ → Int × Int → σ) (state : σ) (fuel : Nat),
        max |(x1.toNat : Int) - x0.toNat| |(y1.toNat : Int) - y0.toNat| < fuel →
          drawDiagonal plot fuel x0 y0 x1 y1 state = .ok (some (points.foldl plot state)) := by
  have near : ∀ {c : UInt32}, c ≤ 2 ^ 28 → c.toInt32.toInt = c.toNat ∧ Near c.toNat := by
    intro c small
    have bound : c.toNat ≤ 2 ^ 28 := UInt32.le_iff_toNat_le.mp small
    refine ⟨Desktop.toInt_toInt32 (by omega), ?_⟩
    rw [Near, abs_le]
    omega
  obtain ⟨castX, nearX⟩ := near smallX
  obtain ⟨castY, nearY⟩ := near smallY
  obtain ⟨castX', nearX'⟩ := near smallX'
  obtain ⟨castY', nearY'⟩ := near smallY'
  have wayX : Way x0.toNat x1.toNat (if x1 ≥ x0 then 1 else -1) ((x1.toNat : Int) - x0.toNat).natAbs := by
    simp only [ge_iff_le, UInt32.le_iff_toNat_le]
    exact way_of nearX nearX' (by split <;> omega) (by split <;> omega)
  have wayY : Way y0.toNat y1.toNat (if y1 ≥ y0 then 1 else -1) ((y1.toNat : Int) - y0.toNat).natAbs := by
    simp only [ge_iff_le, UInt32.le_iff_toNat_le]
    exact way_of nearY nearY' (by split <;> omega) (by split <;> omega)
  obtain ⟨i, j, course⟩ := @exists_course ((x1.toNat : Int) - x0.toNat).natAbs
    ((y1.toNat : Int) - y0.toNat).natAbs 1 (by omega)
  refine ⟨_, course.connects wayX wayY, ?_⟩
  intro σ plot state fuel enough
  have wide := wayX.length_le
  have high := wayY.length_le
  rw [drawDiagonal, castX, castY, castX', castY', distance_ok nearX nearX', Except.ok_bind,
    distance_ok nearY nearY', Except.ok_bind, i32_ok (by omega), Except.ok_bind]
  refine course.loop_ok (fun k inside => drawDiagonal_turn course wayX wayY inside) ?_ ?_ state
  · exact if_pos ⟨wayX.ends, wayY.ends⟩
  · rw [wayX.abs_sub, wayY.abs_sub] at enough
    omega

/-- Every line drawn by the desktop ends, and connects its endpoints. -/
theorem lines_connect :
    (∀ x0 y0 x1 y1 : Int, Near x0 → Near y0 → Near x1 → Near y1 →
      ∃ points, Connects x0 y0 x1 y1 points ∧
        ∀ (σ : Type) (plot : σ → Int × Int → σ) (state : σ) (fuel : Nat),
          max |x1 - x0| |y1 - y0| < fuel →
            Paint.drawLine plot fuel x0 y0 x1 y1 state = .ok (some (points.foldl plot state))) ∧
    ∀ x0 y0 x1 y1 : UInt32, x0 ≤ 2 ^ 28 → y0 ≤ 2 ^ 28 → x1 ≤ 2 ^ 28 → y1 ≤ 2 ^ 28 →
      ∃ points, Connects x0.toNat y0.toNat x1.toNat y1.toNat points ∧
        ∀ (σ : Type) (plot : σ → Int × Int → σ) (state : σ) (fuel : Nat),
          max |(x1.toNat : Int) - x0.toNat| |(y1.toNat : Int) - y0.toNat| < fuel →
            Wm.drawDiagonal plot fuel x0 y0 x1 y1 state = .ok (some (points.foldl plot state)) ∧
            Explorer.drawDiagonal plot fuel x0 y0 x1 y1 state =
              .ok (some (points.foldl plot state)) := by
  constructor
  · intro x0 y0 x1 y1 nearX nearY nearX' nearY'
    exact drawLine_connects nearX nearY nearX' nearY'
  · intro x0 y0 x1 y1 smallX smallY smallX' smallY'
    obtain ⟨points, connects, draws⟩ := drawDiagonal_connects smallX smallY smallX' smallY'
    refine ⟨points, connects, ?_⟩
    intro σ plot state fuel enough
    exact ⟨draws σ plot state fuel enough, draws σ plot state fuel enough⟩

end Graphics

end MachaOS
