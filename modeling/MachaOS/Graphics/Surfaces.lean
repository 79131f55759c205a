/-
Drawing a row: pixel by pixel, as the trait `Surface` does it, and with a slice of the buffer, as the
surfaces that own one do.

Both ways are described by `Painted`, which says what every entry of the buffer becomes; a row that is
walked pixel by pixel is painted up to the edge of the surface, since beyond it no pixel is put.
-/

import Mathlib.Data.List.GetD
import MachaOS.Graphics.Pixels
import MachaOS.Lib.Checked
import MachaOS.Lib.Spans

namespace MachaOS

namespace Graphics

open Checked Spans Except
open Desktop (Pixel)

/-- The loop of `blend`, which `blend_span` of the framebuffer repeats. -/
def mix (fg bg : Pixel) (alpha : Nat) : Pixel :=
  fromChannels fun shift => (channel fg shift * alpha + channel bg shift * (255 - alpha)) / 255

def blend (fg bg : Pixel) (alpha : Nat) : Pixel :=
  if alpha ≥ 255 then fg else if alpha = 0 then bg else mix fg bg alpha

structure Canvas where
  width : Nat
  height : Nat
  buffer : List Pixel

/-- The index of a pixel, computed in `u32` or in `usize`. -/
abbrev Indexing : Type := Nat → Nat → Nat → Checked Nat

def indexU32 : Indexing := fun width x y => do
  let row ← mulU32 y width
  addU32 row x

def indexUsize : Indexing := fun width x y => do
  let row ← mul y width
  add row x

def putPixel (cell : Indexing) (canvas : Canvas) (x y : Nat) (color : Pixel) : Checked Canvas :=
  if x < canvas.width ∧ y < canvas.height then do
    let idx ← cell canvas.width x y
    inside (idx < canvas.buffer.length)
    .ok { canvas with buffer := canvas.buffer.set idx color }
  else .ok canvas

def getPixel (cell : Indexing) (canvas : Canvas) (x y : Nat) : Checked (Option Pixel) :=
  if x < canvas.width ∧ y < canvas.height then do
    let idx ← cell canvas.width x y
    let pixel ← index canvas.buffer idx
    .ok (some pixel)
  else .ok none

structure Surface where
  put : Canvas → Nat → Nat → Pixel → Checked Canvas
  get : Canvas → Nat → Nat → Checked (Option Pixel)

namespace Surface

def blitSpan (surface : Surface) (canvas : Canvas) (x y : Nat) (src : List Pixel) (offset len : Nat) :
    Checked Canvas :=
  (List.range len).foldlM (fun canvas i => do
    let column ← addU32 x i
    let color ← index src (offset + i)
    surface.put canvas column y color) canvas

def fillSpan (surface : Surface) (canvas : Canvas) (x y len : Nat) (color : Pixel) : Checked Canvas :=
  (List.range len).foldlM (fun canvas i => do
    let column ← addU32 x i
    surface.put canvas column y color) canvas

def blendSpan (surface : Surface) (canvas : Canvas) (x y len : Nat) (color : Pixel) (alpha : Nat) :
    Checked Canvas :=
  if alpha ≥ 255 then surface.fillSpan canvas x y len color
  else if alpha = 0 then .ok canvas
  else
    (List.range len).foldlM (fun canvas i => do
      let column ← addU32 x i
      match ← surface.get canvas column y with
      | some base => surface.put canvas column y (blend color base alpha)
      | none => surface.put canvas column y color) canvas

end Surface

/-- `rows` is what the row is compared with. -/
def blitSpan (cell : Indexing) (rows : Canvas → Nat) (canvas : Canvas) (x y : Nat) (src : List Pixel)
    (offset len : Nat) : Checked Canvas :=
  if y ≥ rows canvas ∨ x ≥ canvas.width ∨ len = 0 then .ok canvas
  else do
    let n := min len (canvas.width - x)
    let start ← cell canvas.width x y
    inside (start + n ≤ canvas.buffer.length)
    let colors ← range src offset (offset + n)
    .ok { canvas with buffer := splice canvas.buffer start colors }

def fillSpan (cell : Indexing) (rows : Canvas → Nat) (canvas : Canvas) (x y len : Nat)
    (color : Pixel) : Checked Canvas :=
  if y ≥ rows canvas ∨ x ≥ canvas.width ∨ len = 0 then .ok canvas
  else do
    let n := min len (canvas.width - x)
    let start ← cell canvas.width x y
    inside (start + n ≤ canvas.buffer.length)
    .ok { canvas with buffer := splice canvas.buffer start (List.replicate n color) }

def blendSpan (cell : Indexing) (rows : Canvas → Nat) (canvas : Canvas) (x y len : Nat)
    (color : Pixel) (alpha : Nat) : Checked Canvas :=
  if y ≥ rows canvas ∨ x ≥ canvas.width ∨ len = 0 then .ok canvas
  else if alpha ≥ 255 then fillSpan cell rows canvas x y len color
  else if alpha = 0 then .ok canvas
  else do
    let n := min len (canvas.width - x)
    let start ← cell canvas.width x y
    let row ← range canvas.buffer start (start + n)
    .ok { canvas with buffer := splice canvas.buffer start (row.map fun px => mix color px alpha) }

namespace Fb

/-- `State` draws into `vback_buffer`, with the size of the virtual desktop. -/
def surface : Surface := { put := putPixel indexU32, get := getPixel indexU32 }

def blitSpan := Graphics.blitSpan indexU32 Canvas.height

def fillSpan := Graphics.fillSpan indexU32 Canvas.height

def blendSpan := Graphics.blendSpan indexU32 Canvas.height

end Fb

namespace Console

def surface : Surface := { put := putPixel indexUsize, get := fun _ _ _ => .ok none }

/-- `buffer.len() / w.max(1)` -/
def rows (canvas : Canvas) : Nat := canvas.buffer.length / max canvas.width 1

def blitSpan := Graphics.blitSpan indexUsize rows

def fillSpan := Graphics.fillSpan indexUsize rows

end Console

namespace SettingsApp

def WIDTH : Nat := 480

def canvas (height : Nat) (buffer : List Pixel) : Canvas :=
  { width := WIDTH, height := height, buffer := buffer }

def surface : Surface := { put := putPixel indexU32, get := getPixel indexU32 }

def blitSpan := Graphics.blitSpan indexU32 Canvas.height

def fillSpan := Graphics.fillSpan indexU32 Canvas.height

end SettingsApp

structure Painted (start count : Nat) (paint : Nat → Pixel → Pixel) (before after : List Pixel) :
    Prop where
  length : after.length = before.length
  entries : ∀ i, after[i]? =
    if start ≤ i ∧ i < start + count then before[i]?.map (paint (i - start)) else before[i]?

section Rows

variable {start count : Nat} {paint : Nat → Pixel → Pixel} {before after after' : List Pixel}

theorem Painted.unique (painted : Painted start count paint before after)
    (painted' : Painted start count paint before after') : after = after' :=
  List.ext_getElem? fun i => (painted.entries i).trans (painted'.entries i).symm

theorem painted_none (start : Nat) (paint : Nat → Pixel → Pixel) (before : List Pixel) :
    Painted start 0 paint before before :=
  ⟨rfl, fun i => (if_neg (by omega)).symm⟩

theorem Painted.set (painted : Painted start count paint before after) {base : Pixel}
    (here : before[start + count]? = some base) :
    Painted start (count + 1) paint before (after.set (start + count) (paint count base)) := by
  have inside : start + count < after.length := by
    rw [painted.length]
    exact (List.getElem?_eq_some_iff.mp here).1
  refine ⟨List.length_set.trans painted.length, fun i => ?_⟩
  by_cases last : start + count = i
  · subst last
    rw [List.getElem?_set_self inside, if_pos (by omega), here, Nat.add_sub_cancel_left]
    rfl
  · rw [List.getElem?_set_ne last, painted.entries i]
    by_cases earlier : start ≤ i ∧ i < start + count
    · rw [if_pos earlier, if_pos (by omega)]
    · rw [if_neg earlier, if_neg (by omega)]

theorem painted_splice {values : List Pixel} (inside : start + values.length ≤ before.length)
    (each : ∀ i base, i < values.length → before[start + i]? = some base →
      values[i]? = some (paint i base)) :
    Painted start values.length paint before (splice before start values) := by
  refine ⟨length_splice inside, fun i => ?_⟩
  rw [getElem?_splice inside]
  by_cases written : start ≤ i ∧ i < start + values.length
  · obtain ⟨k, rfl⟩ := Nat.exists_eq_add_of_le written.1
    have within : start + k < before.length := by omega
    have here : before[start + k]? = some before[start + k] := List.getElem?_eq_getElem within
    rw [if_pos written, if_pos written, Nat.add_sub_cancel_left, here, each k _ (by omega) here]
    rfl
  · rw [if_neg written, if_neg written]

end Rows

structure Canvas.Declared (canvas : Canvas) (limit : Nat) : Prop where
  full : canvas.buffer.length = canvas.width * canvas.height
  small : canvas.width * canvas.height < limit

def Exact (cell : Indexing) (limit : Nat) : Prop :=
  ∀ width x y : Nat, y * width + x < limit → cell width x y = .ok (y * width + x)

theorem indexU32_exact : Exact indexU32 (2 ^ 32) := by
  intro width x y small
  rw [indexU32, mulU32_ok (by omega), ok_bind, addU32_ok small]

theorem indexUsize_exact : Exact indexUsize limit := by
  intro width x y small
  rw [indexUsize, mul_ok (by omega), ok_bind, add_ok small]

theorem index_lt {width height x y : Nat} (across : x < width) (down : y < height) :
    y * width + x < width * height := by
  have rows : (y + 1) * width ≤ height * width := Nat.mul_le_mul_right width down
  rw [Nat.succ_mul, Nat.mul_comm height] at rows
  omega

section Walk

variable {cell : Indexing} {bound : Nat} {canvas : Canvas} {x y len : Nat}

def Canvas.visible (canvas : Canvas) (x y len : Nat) : Nat :=
  if y < canvas.height then min len (canvas.width - x) else 0

theorem walk_ok {step : Canvas → Nat → Checked Canvas} {paint : Nat → Pixel → Pixel}
    (full : canvas.buffer.length = canvas.width * canvas.height)
    (outside : ∀ (buffer : List Pixel) i, i < len → ¬ (x + i < canvas.width ∧ y < canvas.height) →
      step { canvas with buffer := buffer } i = .ok { canvas with buffer := buffer })
    (within : ∀ (buffer : List Pixel) i base, i < len → x + i < canvas.width → y < canvas.height →
      buffer.length = canvas.buffer.length → buffer[y * canvas.width + x + i]? = some base →
      step { canvas with buffer := buffer } i = .ok { canvas with
        buffer := buffer.set (y * canvas.width + x + i) (paint i base) }) :
    ∃ after, (List.range len).foldlM step canvas = .ok { canvas with buffer := after } ∧
      Painted (y * canvas.width + x) (canvas.visible x y len) paint canvas.buffer after := by
  unfold Canvas.visible
  induction len with
  | zero => exact ⟨canvas.buffer, rfl, by rw [Nat.zero_min, ite_self]; exact painted_none _ _ _⟩
  | succ len ih =>
      obtain ⟨middle, done, painted⟩ := ih (fun buffer i inside => outside buffer i (by omega))
        (fun buffer i base inside => within buffer i base (by omega))
      rw [List.range_succ, List.foldlM_append, done, ok_bind, List.foldlM_cons]
      by_cases shown : x + len < canvas.width ∧ y < canvas.height
      · have here := index_lt shown.1 shown.2
        rw [if_pos shown.2, Nat.min_eq_left (by omega)] at painted
        rw [if_pos shown.2, Nat.min_eq_left (by omega)]
        have old : canvas.buffer[y * canvas.width + x + len]? =
            some canvas.buffer[y * canvas.width + x + len] := List.getElem?_eq_getElem _
        have same : middle[y * canvas.width + x + len]? =
            some canvas.buffer[y * canvas.width + x + len] := by
          rw [painted.entries, if_neg (by omega), old]
        rw [within middle len _ (Nat.lt_succ_self len) shown.1 shown.2 painted.length same]
        exact ⟨_, rfl, painted.set old⟩
      · rw [outside middle len (Nat.lt_succ_self len) shown]
        refine ⟨middle, rfl, ?_⟩
        by_cases down : y < canvas.height
        · rw [if_pos down] at painted ⊢
          have edge : min (len + 1) (canvas.width - x) = min len (canvas.width - x) := by omega
          rwa [edge]
        · rw [if_neg down] at painted ⊢
          exact painted

theorem putPixel_outside {color : Pixel} (outside : ¬ (x < canvas.width ∧ y < canvas.height)) :
    putPixel cell canvas x y color = .ok canvas :=
  if_neg outside

theorem putPixel_within (exact : Exact cell bound) (declared : canvas.Declared bound)
    {buffer : List Pixel} {color : Pixel} (same : buffer.length = canvas.buffer.length)
    (across : x < canvas.width) (down : y < canvas.height) :
    putPixel cell { canvas with buffer := buffer } x y color =
      .ok { canvas with buffer := buffer.set (y * canvas.width + x) color } := by
  have below := index_lt across down
  have inside' : y * canvas.width + x < buffer.length := by
    rw [same, declared.full]
    exact below
  rw [putPixel, if_pos ⟨across, down⟩, exact _ _ _ (Nat.lt_trans below declared.small),
    ok_bind, inside_ok inside', ok_bind]

variable {surface : Surface}

theorem Surface.walk_ok (exact : Exact cell bound) (declared : canvas.Declared bound)
    (puts : surface.put = putPixel cell) (fits : x + len < 2 ^ 32)
    {color : Nat → Checked Pixel} {value : Nat → Pixel}
    (colors : ∀ i, i < len → color i = .ok (value i)) :
    ∃ after, (List.range len).foldlM (fun canvas i => do
        let column ← addU32 x i
        let color ← color i
        surface.put canvas column y color) canvas = .ok { canvas with buffer := after } ∧
      Painted (y * canvas.width + x) (canvas.visible x y len) (fun i _ => value i) canvas.buffer
        after := by
  refine Graphics.walk_ok declared.full ?_ ?_
  · intro buffer i inside outside
    rw [addU32_ok (by omega), ok_bind, colors i inside, ok_bind, puts]
    exact putPixel_outside outside
  · intro buffer i base inside across down same _
    rw [addU32_ok (by omega), ok_bind, colors i inside, ok_bind, puts,
      putPixel_within exact declared same across down, Nat.add_assoc]

theorem Surface.blitSpan_ok (exact : Exact cell bound) (declared : canvas.Declared bound)
    (puts : surface.put = putPixel cell) (fits : x + len < 2 ^ 32) {src : List Pixel} {offset : Nat}
    (long : offset + len ≤ src.length) :
    ∃ after, surface.blitSpan canvas x y src offset len = .ok { canvas with buffer := after } ∧
      Painted (y * canvas.width + x) (canvas.visible x y len) (fun i _ => src.getD (offset + i) 0)
        canvas.buffer after := by
  refine Surface.walk_ok exact declared puts fits ?_
  intro i inside
  have here : offset + i < src.length := by omega
  rw [List.getD_eq_getElem _ _ here]
  exact index_ok (List.getElem?_eq_getElem here)

theorem Surface.fillSpan_ok (exact : Exact cell bound) (declared : canvas.Declared bound)
    (puts : surface.put = putPixel cell) (fits : x + len < 2 ^ 32) (color : Pixel) :
    ∃ after, surface.fillSpan canvas x y len color = .ok { canvas with buffer := after } ∧
      Painted (y * canvas.width + x) (canvas.visible x y len) (fun _ _ => color) canvas.buffer
        after :=
  @Surface.walk_ok cell bound canvas x y len surface exact declared puts fits
    (fun _ => .ok color) _ fun _ _ => rfl

theorem Surface.blendSpan_ok (exact : Exact cell bound) (declared : canvas.Declared bound)
    (puts : surface.put = putPixel cell) (gets : surface.get = getPixel cell)
    (fits : x + len < 2 ^ 32) (color : Pixel) {alpha : Nat} (seen : alpha ≠ 0) (through : alpha < 255) :
    ∃ after, surface.blendSpan canvas x y len color alpha = .ok { canvas with buffer := after } ∧
      Painted (y * canvas.width + x) (canvas.visible x y len) (fun _ base => mix color base alpha)
        canvas.buffer after := by
  rw [Surface.blendSpan, if_neg (Nat.not_le_of_lt through), if_neg seen]
  refine Graphics.walk_ok declared.full ?_ ?_
  · intro buffer i inside outside
    rw [addU32_ok (by omega), ok_bind, gets, getPixel, if_neg outside, ok_bind, puts]
    exact putPixel_outside outside
  · intro buffer i base inside across down same here
    have below := index_lt across down
    rw [Nat.add_assoc] at here
    rw [addU32_ok (by omega), ok_bind, gets, getPixel, if_pos ⟨across, down⟩,
      exact _ _ _ (Nat.lt_trans below declared.small), ok_bind, index_ok here, ok_bind,
      ok_bind]
    dsimp only
    rw [puts, putPixel_within exact declared same across down, blend,
      if_neg (Nat.not_le_of_lt through), if_neg seen, Nat.add_assoc]

variable {rows : Canvas → Nat}

theorem visible_none (counted : x < canvas.width → rows canvas = canvas.height)
    (skipped : y ≥ rows canvas ∨ x ≥ canvas.width ∨ len = 0) : canvas.visible x y len = 0 := by
  unfold Canvas.visible
  split <;> omega

theorem visible_some (counted : x < canvas.width → rows canvas = canvas.height)
    (drawn : ¬ (y ≥ rows canvas ∨ x ≥ canvas.width ∨ len = 0)) :
    x < canvas.width ∧ y < canvas.height ∧
      canvas.visible x y len = min len (canvas.width - x) := by
  have shown := counted (by omega)
  exact ⟨by omega, by omega, if_pos (by omega)⟩

theorem row_fits (declared : canvas.Declared bound) (across : x < canvas.width)
    (down : y < canvas.height) :
    y * canvas.width + x < bound ∧
      y * canvas.width + x + min len (canvas.width - x) ≤ canvas.buffer.length := by
  have last : canvas.width - 1 < canvas.width := by omega
  have below := index_lt last down
  have small := declared.small
  rw [declared.full]
  omega

theorem blitSpan_ok (exact : Exact cell bound) (declared : canvas.Declared bound)
    (counted : x < canvas.width → rows canvas = canvas.height) {src : List Pixel} {offset : Nat}
    (long : offset + len ≤ src.length) :
    ∃ after, blitSpan cell rows canvas x y src offset len = .ok { canvas with buffer := after } ∧
      Painted (y * canvas.width + x) (canvas.visible x y len) (fun i _ => src.getD (offset + i) 0)
        canvas.buffer after := by
  by_cases skipped : y ≥ rows canvas ∨ x ≥ canvas.width ∨ len = 0
  · rw [visible_none counted skipped]
    exact ⟨canvas.buffer, if_pos skipped, painted_none _ _ _⟩
  · obtain ⟨across, down, shown⟩ := visible_some counted skipped
    obtain ⟨below, inside'⟩ := @row_fits _ _ _ _ len declared across down
    have count : (slice src offset (offset + min len (canvas.width - x))).length =
        min len (canvas.width - x) := by
      rw [length_slice (by omega)]
      omega
    have painted := @painted_splice (y * canvas.width + x) (fun i _ => src.getD (offset + i) 0)
      canvas.buffer (slice src offset (offset + min len (canvas.width - x))) (by omega) ?_
    · rw [count, ← shown] at painted
      refine ⟨_, ?_, painted⟩
      rw [blitSpan, if_neg skipped, exact _ _ _ below, ok_bind, inside_ok inside',
        ok_bind, range_ok ⟨by omega, by omega⟩, ok_bind, shown]
      rfl
    · intro i base within _
      rw [getElem?_slice, if_pos (by omega), List.getD_eq_getElem _ _ (by omega)]
      exact List.getElem?_eq_getElem _

theorem fillSpan_ok (exact : Exact cell bound) (declared : canvas.Declared bound)
    (counted : x < canvas.width → rows canvas = canvas.height) (color : Pixel) :
    ∃ after, fillSpan cell rows canvas x y len color = .ok { canvas with buffer := after } ∧
      Painted (y * canvas.width + x) (canvas.visible x y len) (fun _ _ => color) canvas.buffer
        after := by
  by_cases skipped : y ≥ rows canvas ∨ x ≥ canvas.width ∨ len = 0
  · rw [visible_none counted skipped]
    exact ⟨canvas.buffer, if_pos skipped, painted_none _ _ _⟩
  · obtain ⟨across, down, shown⟩ := visible_some counted skipped
    obtain ⟨below, inside'⟩ := @row_fits _ _ _ _ len declared across down
    have painted := @painted_splice (y * canvas.width + x) (fun _ _ => color) canvas.buffer
      (List.replicate (min len (canvas.width - x)) color) (by rwa [List.length_replicate]) ?_
    · rw [List.length_replicate, ← shown] at painted
      refine ⟨_, ?_, painted⟩
      rw [fillSpan, if_neg skipped, exact _ _ _ below, ok_bind, inside_ok inside',
        ok_bind, shown]
    · intro i base within _
      rw [List.length_replicate] at within
      exact List.getElem?_replicate_of_lt within

theorem blendSpan_ok (exact : Exact cell bound) (declared : canvas.Declared bound)
    (counted : x < canvas.width → rows canvas = canvas.height) (color : Pixel) {alpha : Nat}
    (seen : alpha ≠ 0) (through : alpha < 255) :
    ∃ after, blendSpan cell rows canvas x y len color alpha = .ok { canvas with buffer := after } ∧
      Painted (y * canvas.width + x) (canvas.visible x y len) (fun _ base => mix color base alpha)
        canvas.buffer after := by
  by_cases skipped : y ≥ rows canvas ∨ x ≥ canvas.width ∨ len = 0
  · rw [visible_none counted skipped]
    exact ⟨canvas.buffer, if_pos skipped, painted_none _ _ _⟩
  · obtain ⟨across, down, shown⟩ := visible_some counted skipped
    obtain ⟨below, inside'⟩ := @row_fits _ _ _ _ len declared across down
    have located := exact _ _ _ below
    generalize y * canvas.width + x = start at located inside' ⊢
    have count : (slice canvas.buffer start (start + min len (canvas.width - x))).length =
        min len (canvas.width - x) := by
      rw [length_slice inside']
      omega
    have painted := @painted_splice start (fun _ base => mix color base alpha) canvas.buffer
      ((slice canvas.buffer start (start + min len (canvas.width - x))).map
        fun px => mix color px alpha) (by rw [List.length_map]; omega) ?_
    · rw [List.length_map, count, ← shown] at painted
      refine ⟨_, ?_, painted⟩
      rw [blendSpan, if_neg skipped, if_neg (Nat.not_le_of_lt through), if_neg seen, located,
        ok_bind, range_ok ⟨by omega, inside'⟩, ok_bind, shown]
      rfl
    · intro i base within here
      rw [List.length_map] at within
      rw [List.getElem?_map, getElem?_slice, if_pos (by omega), here]
      rfl

def Same (first second : Checked Canvas) : Prop :=
  ∃ after, first = .ok after ∧ second = .ok after

theorem same_canvas {start count : Nat} {paint : Nat → Pixel → Pixel} {first second : Checked Canvas}
    (done : ∃ after, first = .ok { canvas with buffer := after } ∧
      Painted start count paint canvas.buffer after)
    (done' : ∃ after, second = .ok { canvas with buffer := after } ∧
      Painted start count paint canvas.buffer after) : Same first second := by
  obtain ⟨after, drawn, painted⟩ := done
  obtain ⟨after', drawn', painted'⟩ := done'
  rw [← painted.unique painted'] at drawn'
  exact ⟨_, drawn, drawn'⟩

theorem blendSpan_same (exact : Exact cell bound) (declared : canvas.Declared bound)
    (puts : surface.put = putPixel cell) (gets : surface.get = getPixel cell)
    (fits : x + len < 2 ^ 32) (color : Pixel) (alpha : Nat) :
    Same (blendSpan cell Canvas.height canvas x y len color alpha)
      (surface.blendSpan canvas x y len color alpha) := by
  have filled := same_canvas (@fillSpan_ok cell bound canvas x y len Canvas.height exact declared
    (fun _ => rfl) color) (@Surface.fillSpan_ok _ _ _ _ y _ _ exact declared puts fits color)
  by_cases opaque' : alpha ≥ 255
  · have same : blendSpan cell Canvas.height canvas x y len color alpha =
        fillSpan cell Canvas.height canvas x y len color := by
      rw [blendSpan, if_pos opaque', fillSpan]
      split <;> rfl
    rwa [Surface.blendSpan, if_pos opaque', same]
  · by_cases seen : alpha = 0
    · refine ⟨canvas, ?_, ?_⟩
      · rw [blendSpan, if_neg opaque', if_pos seen, ite_self]
      · rw [Surface.blendSpan, if_neg opaque', if_pos seen]
    · exact same_canvas
        (blendSpan_ok exact declared (fun _ => rfl) color seen (Nat.lt_of_not_le opaque'))
        (Surface.blendSpan_ok exact declared puts gets fits color seen (Nat.lt_of_not_le opaque'))

end Walk

theorem Console.rows_eq {canvas : Canvas} (full : canvas.buffer.length = canvas.width * canvas.height)
    (wide : 0 < canvas.width) : Console.rows canvas = canvas.height := by
  rw [Console.rows, full, Nat.max_eq_left wide, Nat.mul_div_cancel_left _ wide]

/-- The overriding methods of every surface do what the default methods would. -/
theorem spans_eq_pixels :
    (∀ canvas : Canvas, canvas.Declared (2 ^ 32) → ∀ x y len : Nat, x + len < 2 ^ 32 →
      (∀ (src : List Pixel) (offset : Nat), offset + len ≤ src.length →
        Same (Fb.blitSpan canvas x y src offset len)
          (Fb.surface.blitSpan canvas x y src offset len)) ∧
      (∀ color, Same (Fb.fillSpan canvas x y len color) (Fb.surface.fillSpan canvas x y len color)) ∧
      ∀ color alpha, Same (Fb.blendSpan canvas x y len color alpha)
        (Fb.surface.blendSpan canvas x y len color alpha)) ∧
    (∀ canvas : Canvas, canvas.Declared limit → ∀ x y len : Nat, x + len < 2 ^ 32 →
      (∀ (src : List Pixel) (offset : Nat), offset + len ≤ src.length →
        Same (Console.blitSpan canvas x y src offset len)
          (Console.surface.blitSpan canvas x y src offset len)) ∧
      ∀ color, Same (Console.fillSpan canvas x y len color)
        (Console.surface.fillSpan canvas x y len color)) ∧
    ∀ (height : Nat) (buffer : List Pixel), (SettingsApp.canvas height buffer).Declared (2 ^ 32) →
      ∀ x y len : Nat, x + len < 2 ^ 32 →
      (∀ (src : List Pixel) (offset : Nat), offset + len ≤ src.length →
        Same (SettingsApp.blitSpan (SettingsApp.canvas height buffer) x y src offset len)
          (SettingsApp.surface.blitSpan (SettingsApp.canvas height buffer) x y src offset len)) ∧
      ∀ color, Same (SettingsApp.fillSpan (SettingsApp.canvas height buffer) x y len color)
        (SettingsApp.surface.fillSpan (SettingsApp.canvas height buffer) x y len color) := by
  refine ⟨?_, ?_, ?_⟩
  · intro canvas declared x y len fits
    exact ⟨fun src offset long => same_canvas
        (blitSpan_ok indexU32_exact declared (fun _ => rfl) long)
        (Surface.blitSpan_ok indexU32_exact declared rfl fits long),
      fun color => same_canvas (fillSpan_ok indexU32_exact declared (fun _ => rfl) color)
        (Surface.fillSpan_ok indexU32_exact declared rfl fits color),
      fun color alpha => blendSpan_same indexU32_exact declared rfl rfl fits color alpha⟩
  · intro canvas declared x y len fits
    have counted : x < canvas.width → Console.rows canvas = canvas.height :=
      fun across => Console.rows_eq declared.full (Nat.zero_lt_of_lt across)
    exact ⟨fun src offset long => same_canvas (blitSpan_ok indexUsize_exact declared counted long)
        (Surface.blitSpan_ok indexUsize_exact declared rfl fits long),
      fun color => same_canvas (fillSpan_ok indexUsize_exact declared counted color)
        (Surface.fillSpan_ok indexUsize_exact declared rfl fits color)⟩
  · intro height buffer declared x y len fits
    exact ⟨fun src offset long => same_canvas
        (blitSpan_ok indexU32_exact declared (fun _ => rfl) long)
        (Surface.blitSpan_ok indexU32_exact declared rfl fits long),
      fun color => same_canvas (fillSpan_ok indexU32_exact declared (fun _ => rfl) color)
        (Surface.fillSpan_ok indexU32_exact declared rfl fits color)⟩

end Graphics

end MachaOS
