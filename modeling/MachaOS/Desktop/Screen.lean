/-
Where on the screen a window can be reached, and the places the window manager puts windows at:
clamped, cascaded, and nudged aside.
-/

import MachaOS.Desktop.WindowManager

namespace MachaOS

namespace Desktop

theorem toInt_toInt32 {n : UInt32} (small : n.toNat < 2 ^ 31) : n.toInt32.toInt = n.toNat := by
  have signed : n.toInt32.toInt = n.toBitVec.toInt := rfl
  rw [signed, BitVec.toInt_eq_toNat_of_lt]
  · rfl
  · have same : n.toBitVec.toNat = n.toNat := rfl
    omega

theorem toInt_add {a b : Int32} (low : -2 ^ 31 ≤ a.toInt + b.toInt)
    (high : a.toInt + b.toInt < 2 ^ 31) : (a + b).toInt = a.toInt + b.toInt := by
  rw [Int32.toInt_add]
  exact Int.bmod_eq_of_le (by omega) (by omega)

theorem toInt_sub {a b : Int32} (low : -2 ^ 31 ≤ a.toInt - b.toInt)
    (high : a.toInt - b.toInt < 2 ^ 31) : (a - b).toInt = a.toInt - b.toInt := by
  rw [Int32.toInt_sub]
  exact Int.bmod_eq_of_le (by omega) (by omega)

theorem toInt_max (a b : Int32) : (max a b).toInt = max a.toInt b.toInt := by
  change (if a ≤ b then b else a).toInt = _
  split
  · rename_i le
    rw [max_eq_right (Int32.le_iff_toInt_le.mp le)]
  · rename_i notLe
    rw [Int32.le_iff_toInt_le] at notLe
    rw [max_eq_left (by omega)]

theorem toInt_min (a b : Int32) : (min a b).toInt = min a.toInt b.toInt := by
  change (if a ≤ b then a else b).toInt = _
  split
  · rename_i le
    rw [min_eq_left (Int32.le_iff_toInt_le.mp le)]
  · rename_i notLe
    rw [Int32.le_iff_toInt_le] at notLe
    rw [min_eq_right (by omega)]

theorem clamp_within {low high : Int32} (ordered : low.toInt ≤ high.toInt) (value : Int32) :
    low.toInt ≤ (clamp value low high).toInt ∧ (clamp value low high).toInt ≤ high.toInt := by
  unfold clamp
  split
  · exact ⟨le_refl _, ordered⟩
  · rename_i notBelow
    rw [Int32.lt_iff_toInt_lt] at notBelow
    split
    · exact ⟨ordered, le_refl _⟩
    · rename_i notAbove
      rw [Int32.lt_iff_toInt_lt] at notAbove
      omega

/-- A screen that any of the sizes offered can have, and that fits an `i32`. -/
structure Roomy (w h : UInt32) : Prop where
  wide : 800 ≤ w.toNat
  tall : 576 ≤ h.toNat
  smallW : w.toNat < 2 ^ 31
  smallH : h.toNat < 2 ^ 31

def InBounds (w h : UInt32) (x y : Int32) : Prop :=
  (0 ≤ x.toInt ∧ x.toInt ≤ max 0 ((w.toNat : Int) - 40)) ∧
    0 ≤ y.toInt ∧ y.toInt ≤ max 0 ((h.toNat : Int) - taskbarHeight.toNat - titleBarHeight.toNat)

theorem roomy_supported {display : Display} {w h : UInt32}
    (offered : (w, h) ∈ display.supportedResolutions) : Roomy w h := by
  have listed := (List.mem_filter.mp offered).1
  simp only [supportedSizes, List.mem_cons, Prod.mk.injEq, List.not_mem_nil, or_false] at listed
  rcases listed with ⟨rfl, rfl⟩ | ⟨rfl, rfl⟩ | ⟨rfl, rfl⟩ | ⟨rfl, rfl⟩ | ⟨rfl, rfl⟩ | ⟨rfl, rfl⟩
  all_goals exact ⟨by decide, by decide, by decide, by decide⟩

namespace WindowManager

variable {Contents Disk : Type} {wm : WindowManager Contents Disk}

theorem toInt_below {n : UInt32} {cut : Int32} (small : n.toNat < 2 ^ 31) (positive : 0 ≤ cut.toInt) :
    (n.toInt32 - cut).toInt = n.toNat - cut.toInt := by
  have value := toInt_toInt32 small
  have top := cut.toInt_lt
  rw [toInt_sub (by omega) (by omega), value]

theorem toInt_maxX (roomy : Roomy wm.screenW wm.screenH) : wm.maxX.toInt = wm.screenW.toNat - 40 := by
  have wide := roomy.wide
  have forty : (40 : Int32).toInt = 40 := by decide
  have zero : (0 : Int32).toInt = 0 := by decide
  rw [maxX, toInt_max, toInt_below roomy.smallW (by decide), forty, zero, max_eq_left (by omega)]

section

variable (roomy : Roomy wm.screenW wm.screenH)
include roomy

theorem toInt_belowBars :
    (wm.screenH.toInt32 - taskbarHeight.toInt32 - titleBarHeight.toInt32).toInt =
      wm.screenH.toNat - 80 := by
  have tall := roomy.tall
  have small := roomy.smallH
  have taskbar : taskbarHeight.toInt32.toInt = 48 := by decide
  have title : titleBarHeight.toInt32.toInt = 32 := by decide
  have above := @toInt_below wm.screenH taskbarHeight.toInt32 small (by decide)
  rw [toInt_sub (by omega) (by omega), above]
  omega

theorem toInt_maxY : wm.maxY.toInt = wm.screenH.toNat - 80 := by
  have tall := roomy.tall
  have zero : (0 : Int32).toInt = 0 := by decide
  rw [maxY, toInt_max, toInt_belowBars roomy, zero, max_eq_left (by omega)]

theorem inBounds_of_le {x y : Int32} (left : 0 ≤ x.toInt) (right : x.toInt ≤ wm.screenW.toNat - 40)
    (top : 0 ≤ y.toInt) (bottom : y.toInt ≤ wm.screenH.toNat - 80) :
    InBounds wm.screenW wm.screenH x y := by
  have tall := roomy.tall
  have taskbar : taskbarHeight.toNat = 48 := by decide
  have title : titleBarHeight.toNat = 32 := by decide
  refine ⟨⟨left, ?_⟩, top, ?_⟩
  · omega
  · rw [taskbar, title]
    omega

theorem inBounds_clamp {right bottom : Int32} (x y : Int32)
    (inX : 0 ≤ right.toInt ∧ right.toInt ≤ wm.screenW.toNat - 40)
    (inY : 0 ≤ bottom.toInt ∧ bottom.toInt ≤ wm.screenH.toNat - 80) :
    InBounds wm.screenW wm.screenH (clamp x 0 right) (clamp y 0 bottom) := by
  have zero : (0 : Int32).toInt = 0 := by decide
  have horizontal := @clamp_within 0 right (by omega) x
  have vertical := @clamp_within 0 bottom (by omega) y
  apply inBounds_of_le roomy
  all_goals omega

theorem inBounds_corner (x y : Int32) :
    InBounds wm.screenW wm.screenH (clamp x 0 wm.maxX) (clamp y 0 wm.maxY) := by
  have wide := roomy.wide
  have tall := roomy.tall
  apply inBounds_clamp roomy
  · rw [toInt_maxX roomy]
    omega
  · rw [toInt_maxY roomy]
    omega

theorem inBounds_dragged (x y : Int32) :
    InBounds wm.screenW wm.screenH (clamp x 0 (wm.screenW.toInt32 - 40))
      (clamp y 0 (wm.screenH.toInt32 - taskbarHeight.toInt32 - titleBarHeight.toInt32)) := by
  have wide := roomy.wide
  have tall := roomy.tall
  have forty : (40 : Int32).toInt = 40 := by decide
  apply inBounds_clamp roomy
  · rw [toInt_below roomy.smallW (by decide), forty]
    omega
  · rw [toInt_belowBars roomy]
    omega

theorem inBounds_origin : InBounds wm.screenW wm.screenH 0 0 := by
  have wide := roomy.wide
  have tall := roomy.tall
  have zero : (0 : Int32).toInt = 0 := by decide
  apply inBounds_of_le roomy
  all_goals omega

theorem toInt_spawnX : (wm.screenW.toInt32 - 260).toInt = wm.screenW.toNat - 260 :=
  toInt_below roomy.smallW (by decide)

theorem toInt_spawnY :
    (wm.screenH.toInt32 - taskbarHeight.toInt32 - 260).toInt = wm.screenH.toNat - 308 := by
  have tall := roomy.tall
  have small := roomy.smallH
  have taskbar : taskbarHeight.toInt32.toInt = 48 := by decide
  have low : (260 : Int32).toInt = 260 := by decide
  have above := @toInt_below wm.screenH taskbarHeight.toInt32 small (by decide)
  rw [toInt_sub (by omega) (by omega), above]
  omega

theorem inBounds_nudged (x y : Int32) :
    InBounds wm.screenW wm.screenH (clamp (x + 28) 0 (max (wm.screenW.toInt32 - 260) 0))
      (clamp (y + 28) 0 (max (wm.screenH.toInt32 - taskbarHeight.toInt32 - 260) 0)) := by
  have wide := roomy.wide
  have tall := roomy.tall
  have zero : (0 : Int32).toInt = 0 := by decide
  apply inBounds_clamp roomy
  · rw [toInt_max, toInt_spawnX roomy, zero]
    omega
  · rw [toInt_max, toInt_spawnY roomy, zero]
    omega

theorem inBounds_avoidOverlap (rounds : Nat) (x y : Int32)
    (held : InBounds wm.screenW wm.screenH x y) :
    InBounds wm.screenW wm.screenH (wm.avoidOverlap rounds (x, y)).1
      (wm.avoidOverlap rounds (x, y)).2 := by
  induction rounds generalizing x y with
  | zero => exact held
  | succ rounds ih =>
      rw [avoidOverlap]
      split
      · exact ih _ _ (inBounds_nudged roomy x y)
      · exact held

theorem inBounds_collides (rounds : Nat) (x y : Int32) (taken : wm.collides x y = true) :
    InBounds wm.screenW wm.screenH (wm.avoidOverlap (rounds + 1) (x, y)).1
      (wm.avoidOverlap (rounds + 1) (x, y)).2 := by
  rw [avoidOverlap, if_pos taken]
  exact inBounds_avoidOverlap roomy rounds _ _ (inBounds_nudged roomy x y)

end

theorem cascadeOffset_within (counter : UInt32) :
    -320 < (cascadeOffset counter).toInt ∧ (cascadeOffset counter).toInt < 320 := by
  have value : (cascadeOffset counter).toInt = (counter.toInt32 * 28).toInt.tmod 320 :=
    Int32.toInt_mod _ _
  rw [value]
  constructor
  · exact Int.lt_tmod_of_pos _ (by decide)
  · exact Int.tmod_lt_of_pos _ (by decide)

theorem inBounds_cascade (roomy : Roomy wm.screenW wm.screenH) {counter : UInt32}
    (offset : -100 ≤ (cascadeOffset counter).toInt) :
    InBounds wm.screenW wm.screenH (wm.cascade counter).1 (wm.cascade counter).2 := by
  have wide := roomy.wide
  have tall := roomy.tall
  have smallW := roomy.smallW
  have within := cascadeOffset_within counter
  have hundred : (100 : Int32).toInt = 100 := by decide
  have more : (140 : Int32).toInt = 140 := by decide
  have x : (140 + cascadeOffset counter).toInt = 140 + (cascadeOffset counter).toInt := by
    rw [toInt_add (by omega) (by omega), more]
  have y : (100 + cascadeOffset counter).toInt = 100 + (cascadeOffset counter).toInt := by
    rw [toInt_add (by omega) (by omega), hundred]
  unfold cascade
  apply inBounds_of_le roomy
  · rw [toInt_min, x, toInt_spawnX roomy]
    omega
  · rw [toInt_min, x, toInt_spawnX roomy]
    omega
  · rw [toInt_min, y, toInt_spawnY roomy]
    omega
  · rw [toInt_min, y, toInt_spawnY roomy]
    omega

end WindowManager

end Desktop

end MachaOS
