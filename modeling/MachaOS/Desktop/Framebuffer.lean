/-
The framebuffer: the virtual back buffer the window manager draws into, the physical back buffer it
is presented to, and the pixels on the screen.

A surface carries the fact that it has a pixel at every position.  The rows of the screen lie a
pitch apart in memory; here they follow one another.
-/

import Mathlib.Data.BitVec
import MachaOS.Lib.Spans

namespace MachaOS

namespace Desktop

open Spans

abbrev Pixel := BitVec 32

structure Surface where
  width : Nat
  height : Nat
  pixels : List Pixel
  full : pixels.length = width * height

namespace Surface

variable {surface target source : Surface}

def getPixel (surface : Surface) (x y : Nat) : Option Pixel :=
  if x < surface.width ∧ y < surface.height then surface.pixels[entry surface.width x y]? else none

def putPixel (surface : Surface) (x y : Nat) (color : Pixel) : Surface :=
  if x < surface.width ∧ y < surface.height then
    { surface with
      pixels := surface.pixels.set (entry surface.width x y) color
      full := by rw [List.length_set, surface.full] }
  else surface

def picture (width height : Nat) (scene : Nat → Nat → Pixel) : Surface :=
  { width, height
    pixels := (List.range (width * height)).map (fun i => scene (i % width) (i / width))
    full := by rw [List.length_map, List.length_range] }

def copyFrom (target : Surface) (x y : Nat) (source : Surface) (x' y' span count : Nat)
    (inside : x + span ≤ target.width ∧ y + count ≤ target.height)
    (inside' : x' + span ≤ source.width ∧ y' + count ≤ source.height) : Surface :=
  { target with
    pixels := copyBlock target.pixels target.width x y source.pixels source.width x' y' span count
    full := by
      refine ((copyBlock_spec inside.1 inside'.1 ?_ ?_).1).trans target.full
      · rw [target.full, Nat.mul_comm target.width]
        exact Nat.mul_le_mul_right _ inside.2
      · rw [source.full, Nat.mul_comm source.width]
        exact Nat.mul_le_mul_right _ inside'.2 }

theorem getPixel_inside {x y : Nat} (across : x < surface.width) (down : y < surface.height) :
    surface.getPixel x y = surface.pixels[entry surface.width x y]? :=
  if_pos ⟨across, down⟩

theorem ext_getPixel (width : target.width = source.width) (height : target.height = source.height)
    (same : ∀ x y, x < source.width → y < source.height →
      target.getPixel x y = source.getPixel x y) : target = source := by
  have sizes : target.pixels.length = source.pixels.length := by
    rw [target.full, source.full, width, height]
  have pixels : target.pixels = source.pixels := by
    refine List.ext_getElem? (fun i => ?_)
    by_cases inside : i < source.width * source.height
    · have across : i % source.width < source.width :=
        Nat.mod_lt _ (Nat.pos_of_ne_zero (by rintro none; rw [none] at inside; omega))
      have down : i / source.width < source.height := Nat.div_lt_of_lt_mul inside
      have here : entry source.width (i % source.width) (i / source.width) = i := by
        unfold entry
        rw [Nat.mul_comm, Nat.div_add_mod]
      have shown := same _ _ across down
      rw [getPixel_inside (by rwa [width]) (by rwa [height]), getPixel_inside across down, width,
        here] at shown
      exact shown
    · rw [List.getElem?_eq_none (by rw [sizes, source.full]; omega),
        List.getElem?_eq_none (by rw [source.full]; omega)]
  obtain ⟨width', height', pixels', full'⟩ := target
  obtain ⟨width'', height'', pixels'', full''⟩ := source
  dsimp only at width height pixels
  subst width height pixels
  rfl

@[simp] theorem copyFrom_width {x y x' y' span count : Nat} {inside inside'} :
    (target.copyFrom x y source x' y' span count inside inside').width = target.width := rfl

@[simp] theorem copyFrom_height {x y x' y' span count : Nat} {inside inside'} :
    (target.copyFrom x y source x' y' span count inside inside').height = target.height := rfl

theorem getPixel_copyFrom {x y x' y' span count : Nat}
    (inside : x + span ≤ target.width ∧ y + count ≤ target.height)
    (inside' : x' + span ≤ source.width ∧ y' + count ≤ source.height) {i j : Nat}
    (across : i < target.width) (down : j < target.height) :
    (target.copyFrom x y source x' y' span count inside inside').getPixel i j =
      if (x ≤ i ∧ i < x + span) ∧ y ≤ j ∧ j < y + count then
        source.getPixel (x' + (i - x)) (y' + (j - y))
      else target.getPixel i j := by
  have long : (y + count) * target.width ≤ target.pixels.length := by
    rw [target.full, Nat.mul_comm target.width]
    exact Nat.mul_le_mul_right _ inside.2
  have long' : (y' + count) * source.width ≤ source.pixels.length := by
    rw [source.full, Nat.mul_comm source.width]
    exact Nat.mul_le_mul_right _ inside'.2
  rw [@getPixel_inside (target.copyFrom x y source x' y' span count inside inside') i j across down,
    getPixel_inside across down]
  refine ((copyBlock_spec inside.1 inside'.1 long long').2 i j across).trans ?_
  by_cases copied : (x ≤ i ∧ i < x + span) ∧ y ≤ j ∧ j < y + count
  · rw [if_pos copied, if_pos copied, getPixel_inside (by omega) (by omega)]
  · rw [if_neg copied, if_neg copied]

@[simp] theorem putPixel_width (surface : Surface) (x y : Nat) (color : Pixel) :
    (surface.putPixel x y color).width = surface.width := by
  unfold putPixel
  split <;> rfl

@[simp] theorem putPixel_height (surface : Surface) (x y : Nat) (color : Pixel) :
    (surface.putPixel x y color).height = surface.height := by
  unfold putPixel
  split <;> rfl

theorem getPixel_putPixel_of_ne {x y i j : Nat} (color : Pixel) (apart : ¬ (i = x ∧ j = y)) :
    (surface.putPixel x y color).getPixel i j = surface.getPixel i j := by
  unfold putPixel
  split
  next inside =>
      unfold getPixel
      dsimp only
      by_cases within : i < surface.width ∧ j < surface.height
      · have distinct : entry surface.width x y ≠ entry surface.width i j := by
          intro same
          obtain ⟨sameColumn, sameRow⟩ := (entry_inj inside.1 within.1).mp same
          exact apart ⟨sameColumn.symm, sameRow.symm⟩
        rw [if_pos within, if_pos within, List.getElem?_set_ne distinct]
      · rw [if_neg within, if_neg within]
  next outside => rfl

def snapshotRegion (surface : Surface) (x y w h : Nat) : Surface :=
  (picture w h (fun _ _ => 0)).copyFrom 0 0 surface (min x surface.width) (min y surface.height)
    (min (min x surface.width + w) surface.width - min x surface.width)
    (min h (surface.height - min y surface.height))
    (by simp only [picture]; omega) (by omega)

def restoreRegion (surface : Surface) (x y : Nat) (saved : Surface) : Surface :=
  surface.copyFrom (min x surface.width) (min y surface.height) saved 0 0
    (min (min x surface.width + saved.width) surface.width - min x surface.width)
    (min saved.height (surface.height - min y surface.height))
    (by omega) (by omega)

theorem getPixel_restoreRegion {x y w h i j : Nat} (width : source.width = target.width)
    (height : source.height = target.height) (across : i < target.width)
    (down : j < target.height) :
    (target.restoreRegion x y (source.snapshotRegion x y w h)).getPixel i j =
      if (x ≤ i ∧ i < x + w) ∧ y ≤ j ∧ j < y + h then source.getPixel i j
      else target.getPixel i j := by
  have savedWidth : (source.snapshotRegion x y w h).width = w := rfl
  have savedHeight : (source.snapshotRegion x y w h).height = h := rfl
  unfold restoreRegion
  rw [getPixel_copyFrom _ _ across down, savedWidth, savedHeight]
  by_cases inside : (x ≤ i ∧ i < x + w) ∧ y ≤ j ∧ j < y + h
  · rw [if_pos inside, if_pos (by omega)]
    unfold snapshotRegion
    rw [getPixel_copyFrom _ _ (by simp only [picture]; omega) (by simp only [picture]; omega),
      if_pos (by omega), width, height]
    congr 1 <;> omega
  · rw [if_neg inside, if_neg (by omega)]

end Surface

structure Framebuffer where
  virtual : Surface
  back : Surface
  front : Surface
  frontWidth : front.width = back.width
  frontHeight : front.height = back.height

namespace Framebuffer

def Native (buffer : Framebuffer) : Prop :=
  buffer.virtual.width = buffer.back.width ∧ buffer.virtual.height = buffer.back.height

instance (buffer : Framebuffer) : Decidable buffer.Native :=
  inferInstanceAs (Decidable (_ ∧ _))

def withVirtual (buffer : Framebuffer) (surface : Surface) : Framebuffer :=
  { buffer with virtual := surface }

@[simp] theorem withVirtual_virtual (buffer : Framebuffer) (surface : Surface) :
    (buffer.withVirtual surface).virtual = surface := rfl

@[simp] theorem withVirtual_withVirtual (buffer : Framebuffer) (first second : Surface) :
    (buffer.withVirtual first).withVirtual second = buffer.withVirtual second := rfl

abbrev Scaling := Surface → Nat → Nat → Nat → Nat → Pixel

def showRows (buffer : Framebuffer) (x y span count : Nat)
    (inside : x + span ≤ buffer.back.width ∧ y + count ≤ buffer.back.height) : Framebuffer :=
  { buffer with
    front := buffer.front.copyFrom x y buffer.back x y span count
      (by rw [buffer.frontWidth, buffer.frontHeight]; exact inside) inside
    frontWidth := buffer.frontWidth
    frontHeight := buffer.frontHeight }

def withBack (buffer : Framebuffer) (scaled : Scaling) : Framebuffer :=
  if native : buffer.Native then
    { buffer with
      back := buffer.back.copyFrom 0 0 buffer.virtual 0 0 buffer.back.width buffer.back.height
        (by omega) (by rw [native.1, native.2]; omega)
      frontWidth := buffer.frontWidth
      frontHeight := buffer.frontHeight }
  else
    { buffer with
      back := Surface.picture buffer.back.width buffer.back.height
        (scaled buffer.virtual buffer.back.width buffer.back.height)
      frontWidth := buffer.frontWidth
      frontHeight := buffer.frontHeight }

def present (buffer : Framebuffer) (scaled : Scaling) : Framebuffer :=
  (buffer.withBack scaled).showRows 0 0 (buffer.withBack scaled).back.width
    (buffer.withBack scaled).back.height (by omega)

def presentRegion (buffer : Framebuffer) (scaled : Scaling) (x y w h : Nat) : Framebuffer :=
  if native : buffer.Native then
    if w = 0 ∨ h = 0 then buffer
    else
      let x := min x buffer.back.width
      let y := min y buffer.back.height
      let xEnd := min (x + w) buffer.back.width
      let yEnd := min (y + h) buffer.back.height
      if xEnd ≤ x ∨ yEnd ≤ y then buffer
      else
        let mirrored : Framebuffer :=
          { buffer with
            back := buffer.back.copyFrom x y buffer.virtual x y (xEnd - x) (yEnd - y)
              (by omega) (by rw [native.1, native.2]; omega)
            frontWidth := buffer.frontWidth
            frontHeight := buffer.frontHeight }
        mirrored.showRows x y (xEnd - x) (yEnd - y)
          (by simp only [mirrored, Surface.copyFrom_width, Surface.copyFrom_height]; omega)
  else buffer.present scaled

theorem ext_surfaces {one two : Framebuffer} (virtual : one.virtual = two.virtual)
    (back : one.back = two.back) (front : one.front = two.front) : one = two := by
  cases one
  cases two
  dsimp only at virtual back front
  subst virtual back front
  rfl

theorem front_showRows {buffer : Framebuffer} {inside} :
    (buffer.showRows 0 0 buffer.back.width buffer.back.height inside).front = buffer.back := by
  refine Surface.ext_getPixel buffer.frontWidth buffer.frontHeight (fun i j across down => ?_)
  have across' : i < buffer.front.width := by rwa [buffer.frontWidth]
  have down' : j < buffer.front.height := by rwa [buffer.frontHeight]
  unfold showRows
  rw [Surface.getPixel_copyFrom _ _ across' down', if_pos (by omega)]
  congr 1 <;> omega

theorem withBack_native {buffer : Framebuffer} (scaled : Scaling) (native : buffer.Native) :
    (buffer.withBack scaled).back = buffer.virtual := by
  unfold withBack
  rw [dif_pos native]
  refine Surface.ext_getPixel native.1.symm native.2.symm (fun i j across down => ?_)
  have across' : i < buffer.back.width := by rwa [← native.1]
  have down' : j < buffer.back.height := by rwa [← native.2]
  dsimp only
  rw [Surface.getPixel_copyFrom _ _ across' down', if_pos (by omega)]
  congr 1 <;> omega

theorem withBack_scaled {buffer : Framebuffer} (scaled : Scaling) (scaling : ¬ buffer.Native) :
    (buffer.withBack scaled).back = Surface.picture buffer.back.width buffer.back.height
      (scaled buffer.virtual buffer.back.width buffer.back.height) := by
  unfold withBack
  rw [dif_neg scaling]

theorem withBack_virtual (buffer : Framebuffer) (scaled : Scaling) :
    (buffer.withBack scaled).virtual = buffer.virtual := by
  unfold withBack
  split <;> rfl

@[simp] theorem present_virtual (buffer : Framebuffer) (scaled : Scaling) :
    (buffer.present scaled).virtual = buffer.virtual :=
  buffer.withBack_virtual scaled

theorem present_back_size (buffer : Framebuffer) (scaled : Scaling) :
    (buffer.present scaled).back.width = buffer.back.width ∧
      (buffer.present scaled).back.height = buffer.back.height := by
  unfold present showRows withBack
  split <;> exact ⟨rfl, rfl⟩

theorem present_native {buffer : Framebuffer} (scaled : Scaling) (native : buffer.Native) :
    (buffer.present scaled).back = buffer.virtual ∧ (buffer.present scaled).front = buffer.virtual := by
  have back := buffer.withBack_native scaled native
  exact ⟨back, front_showRows.trans back⟩

theorem present_congr {one two : Framebuffer} (scaled : Scaling)
    (virtual : one.virtual = two.virtual) (width : one.back.width = two.back.width)
    (height : one.back.height = two.back.height) : one.present scaled = two.present scaled := by
  have back : (one.withBack scaled).back = (two.withBack scaled).back := by
    by_cases native : one.Native
    · have native' : two.Native := ⟨by rw [← virtual, native.1, width],
        by rw [← virtual, native.2, height]⟩
      rw [withBack_native scaled native, withBack_native scaled native', virtual]
    · have scaling : ¬ two.Native := by
        intro native'
        exact native ⟨by rw [virtual, native'.1, width], by rw [virtual, native'.2, height]⟩
      rw [withBack_scaled scaled native, withBack_scaled scaled scaling, virtual, width, height]
  refine ext_surfaces ?_ back (front_showRows.trans (back.trans front_showRows.symm))
  rw [present_virtual, present_virtual, virtual]

theorem presentRegion_eq_present {buffer : Framebuffer} (scaled : Scaling) {x y w h : Nat}
    (kept : buffer.Native → ∀ i j, i < buffer.virtual.width → j < buffer.virtual.height →
      ¬ ((x ≤ i ∧ i < x + w) ∧ y ≤ j ∧ j < y + h) →
        buffer.back.getPixel i j = buffer.virtual.getPixel i j ∧
          buffer.front.getPixel i j = buffer.virtual.getPixel i j) :
    buffer.presentRegion scaled x y w h = buffer.present scaled := by
  by_cases native : buffer.Native
  swap
  · unfold presentRegion
    rw [dif_neg native]
  obtain ⟨presentedBack, presentedFront⟩ := present_native scaled native
  obtain ⟨width, height⟩ := native
  -- An empty region leaves both buffers alone; they show the picture already.
  have untouched : (∀ i j, i < buffer.virtual.width → j < buffer.virtual.height →
      ¬ ((x ≤ i ∧ i < x + w) ∧ y ≤ j ∧ j < y + h)) → buffer = buffer.present scaled := by
    intro empty
    refine ext_surfaces (buffer.present_virtual scaled).symm ?_ ?_
    · rw [presentedBack]
      exact Surface.ext_getPixel width.symm height.symm
        (fun i j across down => (kept ⟨width, height⟩ i j across down (empty i j across down)).1)
    · rw [presentedFront]
      refine Surface.ext_getPixel (by rw [buffer.frontWidth, width])
        (by rw [buffer.frontHeight, height]) (fun i j across down => ?_)
      exact (kept ⟨width, height⟩ i j across down (empty i j across down)).2
  unfold presentRegion
  rw [dif_pos ⟨width, height⟩]
  dsimp only
  split
  next none => exact untouched (fun i j _ _ => by omega)
  next some =>
      split
      next outside => exact untouched (fun i j across down => by omega)
      next crossing =>
          refine ext_surfaces (buffer.present_virtual scaled).symm ?_ ?_
          · rw [presentedBack]
            refine Surface.ext_getPixel width.symm height.symm (fun i j across down => ?_)
            have across' : i < buffer.back.width := by rwa [← width]
            have down' : j < buffer.back.height := by rwa [← height]
            unfold showRows
            dsimp only
            rw [Surface.getPixel_copyFrom _ _ across' down']
            split
            next inside => congr 1 <;> omega
            next left => exact (kept ⟨width, height⟩ i j across down (by omega)).1
          · rw [presentedFront]
            refine Surface.ext_getPixel (by
              simp only [showRows, Surface.copyFrom_width]
              rw [buffer.frontWidth, width]) (by
              simp only [showRows, Surface.copyFrom_height]
              rw [buffer.frontHeight, height]) (fun i j across down => ?_)
            have across' : i < buffer.back.width := by rwa [← width]
            have down' : j < buffer.back.height := by rwa [← height]
            have across'' : i < buffer.front.width := by rwa [buffer.frontWidth]
            have down'' : j < buffer.front.height := by rwa [buffer.frontHeight]
            unfold showRows
            dsimp only
            rw [Surface.getPixel_copyFrom _ _ across'' down'']
            split
            next inside =>
                rw [Surface.getPixel_copyFrom _ _ (by omega) (by omega), if_pos (by omega)]
                congr 1 <;> omega
            next left => exact (kept ⟨width, height⟩ i j across down (by omega)).2

end Framebuffer

end Desktop

end MachaOS
