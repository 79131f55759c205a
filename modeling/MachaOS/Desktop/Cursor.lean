/-
The mouse cursor over the desktop: the full composite, and the cheap one that only moves the cursor.

What the desktop shows under the cursor is a picture; the windows that draw it are not modelled here.
Positions lie on the screen and sizes are those of a buffer, so no sum here leaves 32 bits.
-/

import MachaOS.Desktop.Framebuffer

namespace MachaOS

namespace Desktop

open Framebuffer

def cursorSaveW : Nat := 14
def cursorSaveH : Nat := 20
def cursorSaveMargin : Int := 2

def cursorW : Nat := 10

def cursorBits : List (BitVec 16) :=
  [0b1000000000, 0b1100000000, 0b1110000000, 0b1111000000, 0b1111100000, 0b1111110000, 0b1111111000,
    0b1111111100,
    0b1111111110,
    0b1111100000,
    0b1110110000,
    0b1100110000,
    0b1000011000,
    0b0000011000,
    0b0000001100,
    0b0000001100]

def black : Pixel := 0x000000
def white : Pixel := 0xFFFFFF

def paintCursorBit (surface : Surface) (px py : Int) (color : Pixel) : Surface :=
  if 0 ≤ px ∧ 0 ≤ py then surface.putPixel px.toNat py.toNat color else surface

def paintCursorShape (surface : Surface) (x y : Int) (color : Pixel) : Surface :=
  cursorBits.zipIdx.foldl
    (fun painted row =>
      (List.range cursorW).foldl
        (fun painted col =>
          if row.1.getLsbD (cursorW - 1 - col) then
            paintCursorBit painted (x + col) (y + row.2) color
          else painted)
        painted)
    surface

def cursorOutline : List (Int × Int) :=
  [(-1, -1), (0, -1), (1, -1), (-1, 0), (1, 0), (-1, 1), (0, 1), (1, 1)]

def drawCursor (surface : Surface) (x y : Int) : Surface :=
  paintCursorShape
    (cursorOutline.foldl
      (fun painted offset => paintCursorShape painted (x + offset.1) (y + offset.2) black) surface)
    x y white

structure Compositor where
  buffer : Framebuffer
  screenW : Nat
  screenH : Nat
  cursorX : Int
  cursorY : Int
  cursorSave : Option (Int × Int × Surface)

namespace Compositor

def saveCorner (position : Int) : Nat :=
  (max (position - cursorSaveMargin) 0).toNat

def placeCursor (desk : Compositor) : Compositor :=
  { desk with
    cursorSave := some (desk.cursorX, desk.cursorY,
      desk.buffer.virtual.snapshotRegion (saveCorner desk.cursorX) (saveCorner desk.cursorY)
        cursorSaveW cursorSaveH)
    buffer := desk.buffer.withVirtual
      (drawCursor desk.buffer.virtual desk.cursorX desk.cursorY) }

def composite (desk : Compositor) (scaled : Framebuffer.Scaling) (scene : Nat → Nat → Pixel) :
    Compositor :=
  let placed := { desk with
    buffer := desk.buffer.withVirtual
      (Surface.picture desk.buffer.virtual.width desk.buffer.virtual.height scene)
    }.placeCursor
  { placed with buffer := placed.buffer.present scaled }

def compositeCursorOnly (desk : Compositor) (scaled : Framebuffer.Scaling)
    (scene : Nat → Nat → Pixel) : Compositor :=
  match desk.cursorSave with
  | none => desk.composite scaled scene
  | some (oldX, oldY, saved) =>
      let minX := (max (min oldX desk.cursorX - cursorSaveMargin) 0).toNat
      let minY := (max (min oldY desk.cursorY - cursorSaveMargin) 0).toNat
      let maxX := (max oldX desk.cursorX + cursorSaveW - cursorSaveMargin).toNat
      let maxY := (max oldY desk.cursorY + cursorSaveH - cursorSaveMargin).toNat
      let regionW := min (maxX - minX) (desk.screenW - min minX desk.screenW)
      let regionH := min (maxY - minY) (desk.screenH - min minY desk.screenH)
      let placed := { desk with
        buffer := desk.buffer.withVirtual
          (desk.buffer.virtual.restoreRegion (saveCorner oldX) (saveCorner oldY) saved)
        }.placeCursor
      { placed with buffer := placed.buffer.presentRegion scaled minX minY regionW regionH }

def moved (desk : Compositor) (position : Int × Int) : Compositor :=
  { desk with cursorX := position.1, cursorY := position.2 }

def visit (desk : Compositor) (scaled : Framebuffer.Scaling) (scene : Nat → Nat → Pixel)
    (moves : List (Int × Int)) : Compositor :=
  moves.foldl (fun desk position => (desk.moved position).compositeCursorOnly scaled scene) desk

end Compositor

structure DiffersOn (touched : Nat → Nat → Prop) (before after : Surface) : Prop where
  width : after.width = before.width
  height : after.height = before.height
  kept : ∀ i j, ¬ touched i j → after.getPixel i j = before.getPixel i j

namespace DiffersOn

variable {touched : Nat → Nat → Prop} {before middle after : Surface}

theorem refl (touched : Nat → Nat → Prop) (surface : Surface) : DiffersOn touched surface surface :=
  ⟨rfl, rfl, fun _ _ _ => rfl⟩

theorem trans (first : DiffersOn touched before middle) (second : DiffersOn touched middle after) :
    DiffersOn touched before after :=
  ⟨second.width.trans first.width, second.height.trans first.height,
    fun i j left => (second.kept i j left).trans (first.kept i j left)⟩

theorem foldl {ι : Type} {step : Surface → ι → Surface} {items : List ι}
    (each : ∀ item, item ∈ items → ∀ surface, DiffersOn touched surface (step surface item))
    (surface : Surface) : DiffersOn touched surface (items.foldl step surface) := by
  induction items generalizing surface with
  | nil => exact refl touched surface
  | cons item rest ih =>
      rw [List.foldl_cons]
      exact (each item List.mem_cons_self surface).trans
        (ih (fun other mem => each other (List.mem_cons_of_mem _ mem)) _)

end DiffersOn

def UnderCursor (x y : Int) (i j : Nat) : Prop :=
  (x - 1 ≤ i ∧ i ≤ x + 10) ∧ y - 1 ≤ j ∧ j ≤ y + 16

theorem paintCursorBit_differs {touched : Nat → Nat → Prop} {px py : Int}
    (inside : ∀ i j : Nat, (i : Int) = px → (j : Int) = py → touched i j) (surface : Surface)
    (color : Pixel) : DiffersOn touched surface (paintCursorBit surface px py color) := by
  unfold paintCursorBit
  split
  next onScreen =>
      refine ⟨Surface.putPixel_width _ _ _ _, Surface.putPixel_height _ _ _ _, fun i j left => ?_⟩
      refine Surface.getPixel_putPixel_of_ne color (fun here => left (inside i j ?_ ?_)) <;> omega
  next offScreen => exact DiffersOn.refl touched surface

theorem paintCursorShape_differs {x y dx dy : Int} (around : -1 ≤ dx ∧ dx ≤ 1)
    (around' : -1 ≤ dy ∧ dy ≤ 1) (surface : Surface) (color : Pixel) :
    DiffersOn (UnderCursor x y) surface (paintCursorShape surface (x + dx) (y + dy) color) := by
  unfold paintCursorShape
  refine DiffersOn.foldl (fun row mem painted => ?_) surface
  have rows : row.2 < 16 := by
    have inside := List.snd_lt_of_mem_zipIdx mem
    have count : cursorBits.length = 16 := rfl
    omega
  refine DiffersOn.foldl (fun col mem painted => ?_) painted
  have cols : col < 10 := List.mem_range.mp mem
  split
  next set =>
      refine paintCursorBit_differs (fun i j column line => ?_) painted color
      unfold UnderCursor
      omega
  next clear => exact DiffersOn.refl _ painted

theorem drawCursor_differs (surface : Surface) (x y : Int) :
    DiffersOn (UnderCursor x y) surface (drawCursor surface x y) := by
  have outlined : DiffersOn (UnderCursor x y) surface
      (cursorOutline.foldl
        (fun painted offset => paintCursorShape painted (x + offset.1) (y + offset.2) black)
        surface) := by
    refine DiffersOn.foldl (fun offset mem painted => ?_) surface
    have near : (-1 ≤ offset.1 ∧ offset.1 ≤ 1) ∧ -1 ≤ offset.2 ∧ offset.2 ≤ 1 := by
      unfold cursorOutline at mem
      revert offset
      decide
    exact paintCursorShape_differs near.1 near.2 painted black
  have shape := @paintCursorShape_differs x y 0 0 (by omega) (by omega)
    (cursorOutline.foldl
      (fun painted offset => paintCursorShape painted (x + offset.1) (y + offset.2) black) surface)
    white
  rw [Int.add_zero, Int.add_zero] at shape
  exact outlined.trans shape

theorem saved_covers {x : Int} {i : Nat} (left : x - 1 ≤ i) (right : i ≤ x + 10) :
    Compositor.saveCorner x ≤ i ∧ i < Compositor.saveCorner x + cursorSaveW := by
  unfold Compositor.saveCorner cursorSaveMargin cursorSaveW
  omega

theorem saved_covers_rows {y : Int} {j : Nat} (top : y - 1 ≤ j) (bottom : j ≤ y + 16) :
    Compositor.saveCorner y ≤ j ∧ j < Compositor.saveCorner y + cursorSaveH := by
  unfold Compositor.saveCorner cursorSaveMargin cursorSaveH
  omega

theorem restore_erases (surface : Surface) (x y : Int) :
    (drawCursor surface x y).restoreRegion (Compositor.saveCorner x) (Compositor.saveCorner y)
        (surface.snapshotRegion (Compositor.saveCorner x) (Compositor.saveCorner y) cursorSaveW
          cursorSaveH) = surface := by
  have drawn := drawCursor_differs surface x y
  refine Surface.ext_getPixel drawn.width drawn.height (fun i j across down => ?_)
  rw [Surface.getPixel_restoreRegion drawn.width.symm drawn.height.symm
    (by rwa [drawn.width]) (by rwa [drawn.height])]
  split
  next inside => rfl
  next outside =>
      refine drawn.kept i j (fun under => outside ?_)
      obtain ⟨⟨left, right⟩, top, bottom⟩ := under
      exact ⟨saved_covers left right, saved_covers_rows top bottom⟩

namespace Compositor

def Synced (desk : Compositor) : Prop :=
  desk.screenW = desk.buffer.virtual.width ∧ desk.screenH = desk.buffer.virtual.height

variable {desk : Compositor} {scaled : Framebuffer.Scaling} {scene : Nat → Nat → Pixel}

theorem composite_virtual (desk : Compositor) (scaled : Framebuffer.Scaling)
    (scene : Nat → Nat → Pixel) :
    (desk.composite scaled scene).buffer.virtual =
      drawCursor (Surface.picture desk.buffer.virtual.width desk.buffer.virtual.height scene)
        desk.cursorX desk.cursorY := by
  simp only [composite, present_virtual, placeCursor, withVirtual_virtual]

theorem composite_front (native : desk.buffer.Native) (scaled : Framebuffer.Scaling)
    (scene : Nat → Nat → Pixel) :
    (desk.composite scaled scene).buffer.back = (desk.composite scaled scene).buffer.virtual ∧
      (desk.composite scaled scene).buffer.front = (desk.composite scaled scene).buffer.virtual := by
  have drawn := drawCursor_differs
    (Surface.picture desk.buffer.virtual.width desk.buffer.virtual.height scene)
    desk.cursorX desk.cursorY
  rw [composite_virtual]
  refine present_native scaled ⟨?_, ?_⟩
  · exact drawn.width.trans native.1
  · exact drawn.height.trans native.2

theorem region_covers {old new : Int} {screen i margin extent : Nat} (inside : i < screen)
    (cursor : (old - 1 ≤ i ∧ i ≤ old + margin) ∨ (new - 1 ≤ i ∧ i ≤ new + margin))
    (fits : margin + 2 < extent) :
    (max (min old new - cursorSaveMargin) 0).toNat ≤ i ∧
      i < (max (min old new - cursorSaveMargin) 0).toNat +
        min ((max old new + extent - cursorSaveMargin).toNat -
            (max (min old new - cursorSaveMargin) 0).toNat)
          (screen - min (max (min old new - cursorSaveMargin) 0).toNat screen) := by
  unfold cursorSaveMargin
  omega

theorem presentRegion_moves {buffer : Framebuffer} {surface : Surface} {old new : Int × Int}
    {screenW screenH : Nat} (width : buffer.virtual.width = screenW)
    (height : buffer.virtual.height = screenH)
    (virtual : buffer.virtual = drawCursor surface new.1 new.2)
    (shown : buffer.Native → buffer.back = drawCursor surface old.1 old.2 ∧
      buffer.front = drawCursor surface old.1 old.2) (scaled : Framebuffer.Scaling) :
    buffer.presentRegion scaled (max (min old.1 new.1 - cursorSaveMargin) 0).toNat
        (max (min old.2 new.2 - cursorSaveMargin) 0).toNat
        (min ((max old.1 new.1 + cursorSaveW - cursorSaveMargin).toNat -
            (max (min old.1 new.1 - cursorSaveMargin) 0).toNat)
          (screenW - min (max (min old.1 new.1 - cursorSaveMargin) 0).toNat screenW))
        (min ((max old.2 new.2 + cursorSaveH - cursorSaveMargin).toNat -
            (max (min old.2 new.2 - cursorSaveMargin) 0).toNat)
          (screenH - min (max (min old.2 new.2 - cursorSaveMargin) 0).toNat screenH)) =
      buffer.present scaled := by
  refine presentRegion_eq_present scaled (fun native i j across down outside => ?_)
  rw [width] at across
  rw [height] at down
  obtain ⟨back, front⟩ := shown native
  -- Outside the region lies neither the old cursor nor the new one.
  have apart : ¬ UnderCursor old.1 old.2 i j ∧ ¬ UnderCursor new.1 new.2 i j := by
    constructor
    · rintro ⟨columns, rows⟩
      exact outside ⟨region_covers across (Or.inl columns) (by decide),
        region_covers down (Or.inl rows) (by decide)⟩
    · rintro ⟨columns, rows⟩
      exact outside ⟨region_covers across (Or.inr columns) (by decide),
        region_covers down (Or.inr rows) (by decide)⟩
  have same : (drawCursor surface old.1 old.2).getPixel i j =
      (drawCursor surface new.1 new.2).getPixel i j := by
    rw [(drawCursor_differs surface old.1 old.2).kept i j apart.1,
      (drawCursor_differs surface new.1 new.2).kept i j apart.2]
  rw [back, front, virtual]
  exact ⟨same, same⟩

theorem cursorOnly_eq_composite (synced : desk.Synced) (scaled : Framebuffer.Scaling)
    (scene : Nat → Nat → Pixel) (position : Int × Int) :
    ((desk.composite scaled scene).moved position).compositeCursorOnly scaled scene =
      (desk.moved position).composite scaled scene := by
  obtain ⟨screenW, screenH⟩ := synced
  generalize drawn : desk.composite scaled scene = full
  have save : full.cursorSave = some (desk.cursorX, desk.cursorY,
      (Surface.picture desk.buffer.virtual.width desk.buffer.virtual.height scene).snapshotRegion
        (saveCorner desk.cursorX) (saveCorner desk.cursorY) cursorSaveW cursorSaveH) := by
    rw [← drawn]
    rfl
  have before := desk.composite_virtual scaled scene
  rw [drawn] at before
  have screens : full.screenW = desk.screenW ∧ full.screenH = desk.screenH := by
    rw [← drawn]
    exact ⟨rfl, rfl⟩
  have sizes : full.buffer.back.width = desk.buffer.back.width ∧
      full.buffer.back.height = desk.buffer.back.height := by
    rw [← drawn]
    exact present_back_size _ _
  have shown : desk.buffer.Native → full.buffer.back = full.buffer.virtual ∧
      full.buffer.front = full.buffer.virtual := by
    intro native
    rw [← drawn]
    exact composite_front native scaled scene
  unfold compositeCursorOnly
  simp only [Compositor.moved, save, before, restore_erases, placeCursor, composite,
    withVirtual_virtual, withVirtual_withVirtual]
  rw [before] at shown
  have width : (Surface.picture desk.buffer.virtual.width desk.buffer.virtual.height scene).width =
      desk.buffer.virtual.width := rfl
  have height : (Surface.picture desk.buffer.virtual.width desk.buffer.virtual.height scene).height =
      desk.buffer.virtual.height := rfl
  generalize Surface.picture desk.buffer.virtual.width desk.buffer.virtual.height scene = surface
    at shown width height ⊢
  have placed := drawCursor_differs surface position.1 position.2
  generalize at_ : drawCursor surface position.1 position.2 = after at placed
  have region := @presentRegion_moves (full.buffer.withVirtual after) surface
    (desk.cursorX, desk.cursorY) position full.screenW full.screenH
    (by rw [screens.1, screenW, ← width, ← placed.width, withVirtual_virtual])
    (by rw [screens.2, screenH, ← height, ← placed.height, withVirtual_virtual])
    at_.symm
    (by
      rintro ⟨width', height'⟩
      rw [withVirtual_virtual] at width' height'
      refine shown ⟨?_, ?_⟩
      · rw [← sizes.1, ← width, ← placed.width]
        exact width'
      · rw [← sizes.2, ← height, ← placed.height]
        exact height') scaled
  rw [region, screens.1, screens.2]
  congr 1
  exact present_congr scaled rfl sizes.1 sizes.2

theorem visit_eq_composite (synced : desk.Synced) (scaled : Framebuffer.Scaling)
    (scene : Nat → Nat → Pixel) (first : Int × Int) (moves : List (Int × Int)) :
    ((desk.moved first).composite scaled scene).visit scaled scene moves =
      (desk.moved (moves.getLastD first)).composite scaled scene := by
  induction moves generalizing first with
  | nil => rfl
  | cons position rest ih =>
      have step := @cursorOnly_eq_composite (desk.moved first) synced scaled scene position
      have later := ih position
      rw [List.getLastD_cons, ← later]
      unfold visit at *
      rw [List.foldl_cons, step]
      rfl

end Compositor

/-- Over any picture, with the cursor moved any number of times, the virtual buffer shows the
picture with the cursor in its last place, and at native resolution the screen shows it too. -/
theorem cursor_only_composites {desk : Compositor} (synced : desk.Synced)
    (scaled : Framebuffer.Scaling) (scene : Nat → Nat → Pixel) (first : Int × Int)
    (moves : List (Int × Int)) :
    let shown := (((desk.moved first).composite scaled scene).visit scaled scene moves).buffer
    shown.virtual =
        drawCursor (Surface.picture desk.buffer.virtual.width desk.buffer.virtual.height scene)
          (moves.getLastD first).1 (moves.getLastD first).2 ∧
      (desk.buffer.Native → shown.front = shown.virtual) ∧
      shown = ((desk.moved (moves.getLastD first)).composite scaled scene).buffer := by
  have same := Compositor.visit_eq_composite synced scaled scene first moves
  intro shown
  have final : shown = ((desk.moved (moves.getLastD first)).composite scaled scene).buffer :=
    congrArg Compositor.buffer same
  rw [final]
  refine ⟨Compositor.composite_virtual (desk.moved (moves.getLastD first)) scaled scene, ?_, rfl⟩
  intro native
  exact (@Compositor.composite_front (desk.moved (moves.getLastD first)) native scaled scene).2

def smallDesk : Compositor :=
  { buffer :=
      { virtual := Surface.picture 14 20 (fun _ _ => black)
        back := Surface.picture 14 20 (fun _ _ => black)
        front := Surface.picture 14 20 (fun _ _ => black)
        frontWidth := rfl
        frontHeight := rfl }
    screenW := 14
    screenH := 20
    cursorX := 7
    cursorY := 10
    cursorSave := none }

theorem cursor_only_composites_corners :
    smallDesk.Synced ∧
      (((smallDesk.moved (0, 0)).composite (fun _ _ _ _ _ => black)
        (fun _ _ => white)).visit (fun _ _ _ _ _ => black) (fun _ _ => white)
          [(13, 19), (1, 18)]).buffer.virtual =
        drawCursor (Surface.picture 14 20 (fun _ _ => white)) 1 18 :=
  ⟨⟨rfl, rfl⟩, (@cursor_only_composites smallDesk ⟨rfl, rfl⟩ (fun _ _ _ _ _ => black)
    (fun _ _ => white) (0, 0) [(13, 19), (1, 18)]).1⟩

end Desktop

end MachaOS
