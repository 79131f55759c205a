/-
What `handle_mouse` answers: whether the whole desktop has to be drawn again, or only the cursor.

The answer for a move of the cursor is turned around.  Over title bars, the taskbar, the start menu
and the apps that render hovering it says that the cursor is enough, and over everything else it asks
for a full redraw.
-/

import MachaOS.Desktop.Sample
import MachaOS.Desktop.WindowManager

namespace MachaOS

namespace Desktop

namespace Window

variable {Contents : Type} (win : Window Contents)

def titleHit (display : Display) (cx cy : Int32) : Bool :=
  within cx win.x (win.kind.contentSize display).1 && within cy win.y titleBarHeight

def rendersHover : Bool :=
  match win.kind with
  | .fileExplorer _ | .settings _ => true
  | _ => false

/-- A title button that is drawn as hovered, as `draw_window` has it. -/
def buttonHovered (display : Display) (cx cy : Int32) : Bool :=
  let (minimizeX, maximizeX, closeX) :=
    titleButtonPositions win.x (win.kind.contentSize display).1 win.resizable
  within cy (win.y + 2) titleBtnH &&
    (within cx minimizeX titleBtnW || maximizeX.any (fun maxX => within cx maxX titleBtnW) ||
      within cx closeX titleBtnW)

end Window

namespace WindowManager

variable {Contents Disk : Type} (apps : Apps Contents Disk) (wm : WindowManager Contents Disk)

def launcherHit (cx cy : Int32) : Bool :=
  let (lx, ly, lw, lh) := wm.launcherPopupRect
  within cx lx lw && within cy ly lh

def windowHoverable (cx cy : Int32) (win : Window Contents) : Bool :=
  win.visible &&
    (win.titleHit wm.display cx cy ||
      (win.contentHit wm.display cx cy && win.rendersHover))

def cursorOverHoverableAt (cx cy : Int32) : Bool :=
  decide ((wm.screenH - taskbarHeight).toInt32 ≤ cy) || (wm.launcherOpen && wm.launcherHit cx cy) ||
    wm.windows.any (wm.windowHoverable cx cy)

def windowHovered (cx cy : Int32) (win : Window Contents) : Bool :=
  win.visible &&
    (win.buttonHovered wm.display cx cy ||
      (win.contentHit wm.display cx cy && win.rendersHover))

def cursorOverHoveredAt (cx cy : Int32) : Bool :=
  decide ((wm.screenH - taskbarHeight).toInt32 ≤ cy) || (wm.launcherOpen && wm.launcherHit cx cy) ||
    wm.windows.any (wm.windowHovered cx cy)

/-- `handle_mouse`'s answer. -/
def redraws (event : MouseEvent) : Bool :=
  let justPressed := event.left && !wm.leftWasDown
  let justReleased := !event.left && wm.leftWasDown
  let moved := wm.moveCursor event
  let didMove := decide (wm.cursorX ≠ moved.cursorX ∨ wm.cursorY ≠ moved.cursorY)
  if moved.resizing.isSome || moved.fileDrag.isSome then true
  else
    let pressed := moved.pressEvent apps event.left
    if pressed.fileDrag.isSome || justPressed then true
    else
      let dragged := pressed.dragEvent event.left
      let released := if justReleased then dragged.releaseEvent apps else dragged
      if didMove && !event.left && released.dragging.isNone && released.resizing.isNone then
        !(released.cursorOverHoverableAt released.cursorX released.cursorY ||
          released.cursorOverHoverableAt wm.cursorX wm.cursorY)
      else true

structure PureMove (event : MouseEvent) : Prop where
  up : event.left = false
  moves : wm.cursorX ≠ (wm.moveCursor event).cursorX ∨ wm.cursorY ≠ (wm.moveCursor event).cursorY
  noResize : wm.resizing = none
  noFileDrag : wm.fileDrag = none
  noDrag : wm.dragging = none ∨ wm.leftWasDown = true

structure SameScene (next : WindowManager Contents Disk) : Prop where
  windows : next.windows = wm.windows
  focused : next.focused = wm.focused
  launcherOpen : next.launcherOpen = wm.launcherOpen
  launcherItems : next.launcherItems = wm.launcherItems
  screen : next.screenW = wm.screenW ∧ next.screenH = wm.screenH
  settings : next.settings = wm.settings
  display : next.display = wm.display
  fileDrag : next.fileDrag = wm.fileDrag

variable {apps wm}

theorem SameScene.hoverable {next : WindowManager Contents Disk} (same : wm.SameScene next)
    (cx cy : Int32) : next.cursorOverHoverableAt cx cy = wm.cursorOverHoverableAt cx cy := by
  obtain ⟨windows, -, launcherOpen, launcherItems, ⟨-, height⟩, -, display, -⟩ := same
  unfold cursorOverHoverableAt launcherHit launcherPopupRect taskbarY windowHoverable
  rw [windows, launcherOpen, launcherItems, height, display]

theorem pressEvent_up : wm.pressEvent apps false = wm := by
  unfold pressEvent
  split
  · rfl
  · rfl

theorem dragEvent_up : wm.dragEvent false = wm := by
  unfold dragEvent
  split
  · rfl
  · rfl

theorem sameScene_moveCursor (event : MouseEvent) : wm.SameScene (wm.moveCursor event) :=
  ⟨rfl, rfl, rfl, rfl, ⟨rfl, rfl⟩, rfl, rfl, rfl⟩

theorem sameScene_releaseEvent : wm.SameScene (wm.releaseEvent apps) := by
  unfold releaseEvent
  split
  · exact ⟨rfl, rfl, rfl, rfl, ⟨rfl, rfl⟩, rfl, rfl, rfl⟩
  · exact ⟨rfl, rfl, rfl, rfl, ⟨rfl, rfl⟩, rfl, rfl, rfl⟩

theorem SameScene.trans {second third : WindowManager Contents Disk} (early : wm.SameScene second)
    (late : second.SameScene third) : wm.SameScene third :=
  ⟨late.windows.trans early.windows, late.focused.trans early.focused,
    late.launcherOpen.trans early.launcherOpen, late.launcherItems.trans early.launcherItems,
    ⟨late.screen.1.trans early.screen.1, late.screen.2.trans early.screen.2⟩,
    late.settings.trans early.settings, late.display.trans early.display,
    late.fileDrag.trans early.fileDrag⟩

def afterMove (apps : Apps Contents Disk) (wm : WindowManager Contents Disk) (event : MouseEvent) :
    WindowManager Contents Disk :=
  if wm.leftWasDown then (wm.moveCursor event).releaseEvent apps else wm.moveCursor event

theorem sameScene_afterMove (event : MouseEvent) : wm.SameScene (wm.afterMove apps event) := by
  unfold afterMove
  split
  · exact (sameScene_moveCursor event).trans sameScene_releaseEvent
  · exact sameScene_moveCursor event

theorem afterMove_cursor (event : MouseEvent) :
    (wm.afterMove apps event).cursorX = (wm.moveCursor event).cursorX ∧
      (wm.afterMove apps event).cursorY = (wm.moveCursor event).cursorY := by
  unfold afterMove releaseEvent
  split
  · split
    · exact ⟨rfl, rfl⟩
    · exact ⟨rfl, rfl⟩
  · exact ⟨rfl, rfl⟩

theorem afterMove_resizing (event : MouseEvent) :
    (wm.afterMove apps event).resizing = wm.resizing := by
  unfold afterMove releaseEvent
  split
  · split
    · rfl
    · rfl
  · rfl

theorem afterMove_dragging (event : MouseEvent) :
    (wm.afterMove apps event).dragging = if wm.leftWasDown then none else wm.dragging := by
  unfold afterMove releaseEvent
  split
  · rfl
  · rfl

def nears (wm : WindowManager Contents Disk) (area : Int32 → Int32 → Bool) (event : MouseEvent) :
    Bool :=
  area (wm.moveCursor event).cursorX (wm.moveCursor event).cursorY || area wm.cursorX wm.cursorY

theorem redraws_up {event : MouseEvent} (up : event.left = false) (noResize : wm.resizing = none)
    (noFileDrag : wm.fileDrag = none) :
    wm.redraws apps event =
      if decide (wm.cursorX ≠ (wm.moveCursor event).cursorX ∨
          wm.cursorY ≠ (wm.moveCursor event).cursorY) &&
        (wm.afterMove apps event).dragging.isNone then !wm.nears wm.cursorOverHoverableAt event
      else true := by
  have resizing : (wm.moveCursor event).resizing = none := noResize
  have fileDrag : (wm.moveCursor event).fileDrag = none := noFileDrag
  have after : (if wm.leftWasDown then (wm.moveCursor event).releaseEvent apps
      else wm.moveCursor event) = wm.afterMove apps event := rfl
  have same := @sameScene_afterMove _ _ apps wm event
  obtain ⟨x, y⟩ := @afterMove_cursor _ _ apps wm event
  have stillNone := (@afterMove_resizing _ _ apps wm event).trans noResize
  unfold redraws nears
  simp only [up, resizing, fileDrag, pressEvent_up, dragEvent_up, Option.isSome_none, Bool.or_self,
    Bool.false_eq_true, if_false, Bool.false_and, Bool.not_false, Bool.true_and, Bool.and_true, after,
    stillNone, Option.isNone_none, x, y, same.hoverable]

theorem redraws_busy {event : MouseEvent}
    (busy : event.left = true ∨ wm.resizing ≠ none ∨ wm.fileDrag ≠ none) :
    wm.redraws apps event = true := by
  have owned : ((wm.moveCursor event).resizing.isSome || (wm.moveCursor event).fileDrag.isSome) =
      (wm.resizing.isSome || wm.fileDrag.isSome) := rfl
  unfold redraws
  dsimp only
  rw [owned]
  rcases busy with down | resizing | dragging
  · simp [down]
  · simp [Option.isSome_iff_ne_none.mpr resizing]
  · simp [Option.isSome_iff_ne_none.mpr dragging]

theorem redraws_eq_false_iff (event : MouseEvent) :
    wm.redraws apps event = false ↔
      wm.PureMove event ∧ wm.nears wm.cursorOverHoverableAt event = true := by
  constructor
  · intro skipped
    have up : event.left = false := by
      by_contra down
      rw [redraws_busy (Or.inl (by simpa using down))] at skipped
      cases skipped
    have noResize : wm.resizing = none := by
      by_contra resizing
      rw [redraws_busy (Or.inr (Or.inl resizing))] at skipped
      cases skipped
    have noFileDrag : wm.fileDrag = none := by
      by_contra dragging
      rw [redraws_busy (Or.inr (Or.inr dragging))] at skipped
      cases skipped
    rw [redraws_up up noResize noFileDrag] at skipped
    split at skipped
    · rename_i moving
      rw [Bool.and_eq_true, decide_eq_true_eq, Option.isNone_iff_eq_none, afterMove_dragging] at moving
      obtain ⟨moves, noDrag⟩ := moving
      refine ⟨⟨up, moves, noResize, noFileDrag, ?_⟩, ?_⟩
      · by_cases wasDown : wm.leftWasDown = true
        · exact Or.inr wasDown
        · rw [if_neg wasDown] at noDrag
          exact Or.inl noDrag
      · simpa using skipped
    · cases skipped
  · rintro ⟨⟨up, moves, noResize, noFileDrag, noDrag⟩, near⟩
    have dragging : (wm.afterMove apps event).dragging = none := by
      rw [afterMove_dragging]
      split
      · rfl
      · rename_i wasUp
        exact noDrag.resolve_right wasUp
    rw [redraws_up up noResize noFileDrag, dragging, near, decide_eq_true moves]
    rfl

/-- The answer as it should be, for an area that depends on hovering: no for a pure move that stays
out of the area, and yes for every other event. -/
structure AnswersFor (apps : Apps Contents Disk) (wm : WindowManager Contents Disk)
    (area : Int32 → Int32 → Bool) (event : MouseEvent) : Prop where
  onlyInert : wm.redraws apps event = false → wm.PureMove event ∧ wm.nears area event = false
  everyInert : wm.PureMove event → wm.nears area event = false → wm.redraws apps event = false

theorem answersFor_iff (area : Int32 → Int32 → Bool) (event : MouseEvent) :
    AnswersFor apps wm area event ↔
      (wm.PureMove event →
        (wm.nears wm.cursorOverHoverableAt event = true ↔ wm.nears area event = false)) := by
  have answer := @redraws_eq_false_iff _ _ apps wm event
  constructor
  · rintro ⟨onlyInert, everyInert⟩ pure
    constructor
    · intro near
      exact (onlyInert (answer.mpr ⟨pure, near⟩)).2
    · intro inert
      exact (answer.mp (everyInert pure inert)).2
  · intro agree
    constructor
    · intro skipped
      obtain ⟨pure, near⟩ := answer.mp skipped
      exact ⟨pure, (agree pure).mp near⟩
    · intro pure inert
      exact answer.mpr ⟨pure, (agree pure).mpr inert⟩

/-- For every state and event, the answer is right exactly if the event is not a pure move of the
cursor; or, where only the buttons of a title bar are taken to depend on hovering, if the move is near
the rest of a title bar and near nothing that does. -/
theorem answers_iff_not_pure (apps : Apps Contents Disk) (wm : WindowManager Contents Disk)
    (event : MouseEvent) :
    (AnswersFor apps wm wm.cursorOverHoverableAt event ↔ ¬ wm.PureMove event) ∧
      (AnswersFor apps wm wm.cursorOverHoveredAt event ↔ (wm.PureMove event →
          (wm.nears wm.cursorOverHoverableAt event = true ↔
            wm.nears wm.cursorOverHoveredAt event = false))) := by
  constructor
  · rw [answersFor_iff]
    apply imp_congr_right
    intro pure
    cases wm.nears wm.cursorOverHoverableAt event <;> simp
  · exact answersFor_iff _ event

end WindowManager

namespace Sample

open WindowManager

/-- On an empty desktop a move of the cursor asks for a full redraw, and one in the taskbar does not
ask for one. -/
theorem answer_turned_around :
    (boot none).PureMove ⟨5, 0, false⟩ ∧
      (boot none).nears (boot none).cursorOverHoveredAt ⟨5, 0, false⟩ = false ∧
      (boot none).redraws apps ⟨5, 0, false⟩ = true ∧
      (boot none).nears (boot none).cursorOverHoveredAt ⟨0, 280, false⟩ = true ∧
      (boot none).redraws apps ⟨0, 280, false⟩ = false ∧
      ¬ AnswersFor apps (boot none) (boot none).cursorOverHoverableAt ⟨5, 0, false⟩ ∧
      ¬ AnswersFor apps (boot none) (boot none).cursorOverHoveredAt ⟨5, 0, false⟩ := by
  have pure : (boot none).PureMove ⟨5, 0, false⟩ :=
    ⟨rfl, by decide, by decide, by decide, Or.inl (by decide)⟩
  have redrawn : (boot none).redraws apps ⟨5, 0, false⟩ = true := by decide
  refine ⟨pure, by decide, redrawn, by decide, by decide, ?_, ?_⟩
  · intro answers
    have skipped := answers.everyInert pure (by decide)
    rw [redrawn] at skipped
    cases skipped
  · intro answers
    have skipped := answers.everyInert pure (by decide)
    rw [redrawn] at skipped
    cases skipped

end Sample

end Desktop

end MachaOS
