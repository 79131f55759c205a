/-
The image viewer: how the side of a raw image is guessed, and what is loaded.

A raw file has no header, so it is taken to be a square, whose side is the integer square root of the
number of pixels.  Newton's method finds it: while the guess is too large the next one is smaller, and
it never falls below the root.
-/

import Mathlib.Algebra.Order.Ring.Unbundled.Basic
import Mathlib.Tactic.Linarith
import MachaOS.Desktop.Session
import MachaOS.Fat.Walks
import MachaOS.Graphics.Pixels
import MachaOS.Lib.Checked

namespace MachaOS

namespace ImageViewer

open Checked Graphics Except
open Desktop (Text Pixel)

/-- The loop of `isqrt`: `y` is the guess after `x`. -/
def newton (n x y : Nat) : Checked Nat :=
  if y < x then do
    let quotient ← div n y
    let sum ← addU32 y quotient
    newton n y (sum / 2)
  else .ok x
termination_by x

def isqrt (n : Nat) : Checked Nat :=
  if n = 0 then .ok 0
  else do
    let sum ← addU32 n 1
    newton n n (sum / 2)

theorem guess_pos {n x : Nat} (positive : 0 < x) (small : x ≤ n) : 0 < (x + n / x) / 2 := by
  have quotient : 0 < n / x := Nat.div_pos small positive
  omega

theorem sum_le {n x : Nat} (positive : 0 < x) (small : x ≤ n) : x + n / x ≤ n + 1 := by
  have quotient : 0 < n / x := Nat.div_pos small positive
  have product : x * (n / x) ≤ n := Nat.mul_div_le n x
  obtain ⟨a, rfl⟩ := Nat.exists_eq_add_of_lt positive
  obtain ⟨b, hb⟩ := Nat.exists_eq_add_of_lt quotient
  rw [hb] at product ⊢
  nlinarith [Nat.zero_le (a * b)]

theorem lt_guess {n x : Nat} (positive : 0 < x) :
    n < ((x + n / x) / 2 + 1) * ((x + n / x) / 2 + 1) := by
  have below : n < x * (n / x + 1) := Nat.lt_mul_div_succ n positive
  have half : x + n / x + 1 ≤ 2 * ((x + n / x) / 2 + 1) := by omega
  generalize (x + n / x) / 2 + 1 = guess at half ⊢
  generalize n / x = quotient at below half
  have square : (x + quotient + 1) * (x + quotient + 1) ≤ 2 * guess * (2 * guess) :=
    Nat.mul_self_le_mul_self half
  have spread : 4 * x * (quotient + 1) ≤ (x + (quotient + 1)) ^ 2 := four_mul_le_sq_add x (quotient + 1)
  nlinarith

theorem newton_root {n : Nat} (small : n < 2 ^ 32 - 1) (x : Nat) (positive : 0 < x) (least : x ≤ n)
    (above : n < (x + 1) * (x + 1)) :
    ∃ r, newton n x ((x + n / x) / 2) = .ok r ∧ r * r ≤ n ∧ n < (r + 1) * (r + 1) := by
  induction x using Nat.strongRecOn with
  | ind x ih =>
      rw [newton]
      by_cases descends : (x + n / x) / 2 < x
      · have later : 0 < (x + n / x) / 2 := guess_pos positive least
        have fits := sum_le later (Nat.le_trans (Nat.le_of_lt descends) least)
        rw [if_pos descends, div_ok later, ok_bind, addU32_ok (by omega), ok_bind]
        exact ih _ descends later (Nat.le_trans (Nat.le_of_lt descends) least) (lt_guess positive)
      · refine ⟨x, if_neg descends, ?_, above⟩
        have quotient : x ≤ n / x := by omega
        exact (Nat.mul_le_mul_left x quotient).trans (Nat.mul_div_le n x)

theorem isqrt_root {n : Nat} (small : n < 2 ^ 32 - 1) :
    ∃ r, isqrt n = .ok r ∧ r * r ≤ n ∧ n < (r + 1) * (r + 1) := by
  unfold isqrt
  by_cases zero : n = 0
  · exact ⟨0, if_pos zero, by omega, by omega⟩
  · have positive : 0 < n := Nat.pos_of_ne_zero zero
    have root := newton_root small n positive (Nat.le_refl n) (by nlinarith)
    rw [Nat.div_self positive] at root
    rw [if_neg zero, addU32_ok (by omega), ok_bind, Nat.add_comm]
    rwa [Nat.add_comm] at root

theorem isqrt_square {side : Nat} (small : side * side < 2 ^ 32 - 1) :
    isqrt (side * side) = .ok side := by
  obtain ⟨r, computed, least, most⟩ := isqrt_root small
  have low : r ≤ side := Nat.mul_self_le_mul_self_iff.mp least
  have high : side < r + 1 := Nat.mul_self_lt_mul_self_iff.mp most
  rw [computed, show r = side by omega]

def viewWidth : Nat := 640
def viewHeight : Nat := 480 - 30

structure ImageViewerApp where
  imageData : Option (List Pixel)
  imageWidth : Nat
  imageHeight : Nat
  zoom : Nat
  offsetX : Int
  offsetY : Int
  filePath : Text
  status : Text
deriving DecidableEq

def ImageViewerApp.new : ImageViewerApp :=
  { imageData := none, imageWidth := 0, imageHeight := 0, zoom := 1, offsetX := 0, offsetY := 0
    filePath := [], status := "No image loaded".toList }

def asI32 (n : Nat) : Int := Int.bmod n (2 ^ 32)

def centred (view side zoom : Nat) : Checked Int := do
  let shown ← i32 (asI32 side * asI32 zoom)
  let left ← i32 (asI32 view - shown)
  .ok (left.tdiv 2)

def ImageViewerApp.loadImage (path : Text) (data : List UInt8) (width height : Nat)
    (app : ImageViewerApp) : Checked ImageViewerApp := do
  let area ← mulU32 width height
  let expectedLen ← mulU32 area 4
  if data.length ≠ expectedLen then
    .ok { app with
      status := "Invalid image size (expected ".toList ++ Nat.toDigits 10 expectedLen ++
        " bytes, got ".toList ++ Nat.toDigits 10 data.length ++ [')'] }
  else do
    let pixels ← (List.range area).mapM (pixelAt data)
    let offsetX ← centred viewWidth width app.zoom
    let offsetY ← centred viewHeight height app.zoom
    .ok { app with
      imageData := some pixels, imageWidth := width, imageHeight := height, filePath := path
      offsetX, offsetY
      status := path ++ " (".toList ++ Nat.toDigits 10 width ++ 'x' :: Nat.toDigits 10 height ++
        ", zoom ".toList ++ Nat.toDigits 10 app.zoom ++ "x)".toList }

/-- The viewer in the window that `open_image_viewer_with` spawns. -/
def openImageViewerWith (path : Text) (content : List UInt8) : Checked ImageViewerApp := do
  let side ← isqrt (content.length / 4 % 2 ^ 32)
  ImageViewerApp.new.loadImage path content side side

structure Shows (app : ImageViewerApp) (path : Text) (content : List UInt8) (side : Nat) : Prop where
  path : app.filePath = path
  width : app.imageWidth = side
  height : app.imageHeight = side
  pixels : ∃ pixels, app.imageData = some pixels ∧ pixels.length = side * side ∧
    ∀ i, i < side * side → pixelAt content i = .ok (pixels.getD i 0)

theorem centred_ok {view side : Nat} (small : side < 2 ^ 15) (narrow : view < 2 ^ 15) :
    ∃ offset, centred view side 1 = .ok offset := by
  have side' : asI32 side = side := Int.bmod_eq_of_le (by omega) (by omega)
  have view' : asI32 view = view := Int.bmod_eq_of_le (by omega) (by omega)
  have one : asI32 1 = 1 := rfl
  unfold centred
  rw [side', view', one, Int.mul_one, i32_ok (by omega), ok_bind, i32_ok (by omega)]
  exact ⟨_, rfl⟩

theorem openImageViewerWith_square (path : Text) {content : List UInt8} {side : Nat}
    (small : content.length < 2 ^ 32) (square : content.length = 4 * (side * side)) :
    ∃ app, openImageViewerWith path content = .ok app ∧ Shows app path content side := by
  have narrow : side < 2 ^ 15 := by
    by_contra wide
    have := Nat.mul_self_le_mul_self (Nat.not_lt.mp wide)
    omega
  have count : content.length / 4 % 2 ^ 32 = side * side := by omega
  have read : ∀ i, i ∈ List.range (side * side) →
      pixelAt content i = .ok ((pixelAt content i).toOption.getD 0) := by
    intro i mem
    have inside := List.mem_range.mp mem
    obtain ⟨pixel, done⟩ := @pixelAt_ok content i (by omega)
    rw [done]
    rfl
  obtain ⟨offsetX, centredX⟩ := @centred_ok viewWidth side narrow (by decide)
  obtain ⟨offsetY, centredY⟩ := @centred_ok viewHeight side narrow (by decide)
  unfold openImageViewerWith ImageViewerApp.loadImage
  rw [count, isqrt_square (by omega), ok_bind, mulU32_ok (by omega), ok_bind,
    mulU32_ok (by omega), ok_bind, if_neg (by omega), mapM_ok read, ok_bind]
  have zoom : ImageViewerApp.new.zoom = 1 := rfl
  rw [zoom, centredX, ok_bind, centredY, ok_bind]
  refine ⟨_, rfl, rfl, rfl, rfl, _, rfl, by simp, fun i inside => ?_⟩
  rw [read i (List.mem_range.mpr inside)]
  simp [inside]

/-- For every `u32` below the largest, `isqrt` ends without an overflow or a division by zero, with
the largest number whose square is not above it.  Every square raw image that a file can hold is
loaded at its true side; a file has fewer than 2^32 bytes. -/
theorem isqrt_exact :
    (∀ n, n < 2 ^ 32 - 1 → ∃ r, isqrt n = .ok r ∧ r * r ≤ n ∧ n < (r + 1) * (r + 1)) ∧
      (∀ path content side, content.length < 2 ^ 32 → content.length = 4 * (side * side) →
        ∃ app, openImageViewerWith path content = .ok app ∧ Shows app path content side) ∧
      ∀ (vol : Fat.Fat32) (path : List Char) (data : List (BitVec 8)),
        vol.readFile path = .ok data → data.length < 2 ^ 32 :=
  ⟨fun _ small => isqrt_root small, fun path _ _ small square =>
    openImageViewerWith_square path small square, fun _ _ _ read => Fat.Fat32.readFile_length_lt read⟩

end ImageViewer

end MachaOS
