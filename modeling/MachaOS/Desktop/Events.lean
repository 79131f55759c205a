/-
What the mouse and the keyboard do to the desktop, and how a session comes back at boot.

`handle_click` first finds what lies under the cursor, in the order the source tries it, and then
acts on that; the two halves are `clickTarget` and `applyClick`.
-/

import MachaOS.Desktop.WindowManager
import MachaOS.Lib.Runs

namespace MachaOS

namespace Desktop

open Keyboard

namespace WindowManager

variable {Contents Disk : Type} (apps : Apps Contents Disk) (wm : WindowManager Contents Disk)

def onScreen (win : Window Contents) : Window Contents :=
  { win with x := clamp win.x 0 wm.maxX, y := clamp win.y 0 wm.maxY }

def reclamped (win : Window Contents) : Window Contents :=
  if win.visible then
    if win.maximized && decide (win.kind.colsRows ≠ wm.maxContentCells) then
      (wm.onScreen win).resize apps wm.disk wm.maxContentCells.1 wm.maxContentCells.2
    else wm.onScreen win
  else win

/-- `fb::set_virtual_resolution` refuses what does not fit the physical framebuffer. -/
def applyResolution (w h : UInt32) : WindowManager Contents Disk :=
  if w = 0 ∨ h = 0 ∨ wm.display.physical.1 < w ∨ wm.display.physical.2 < h then wm
  else
    let sized := { wm with
      screenW := w
      screenH := h
      cursorX := clamp wm.cursorX 0 (w.toInt32 - 1)
      cursorY := clamp wm.cursorY 0 (h.toInt32 - 1) }
    { sized with
      windows := sized.windows.map (sized.reclamped apps)
      settings := apps.loadSettings sized.disk }.persistSession apps

def rescaled (win : Window Contents) : Window Contents :=
  if !win.isOpen then win
  else
    let (cols, rows) := win.kind.colsRows
    if cols = 0 then wm.onScreen win
    else
      let maxCols := max wm.maxContentCells.1 1
      let maxRows := max wm.maxContentCells.2 1
      if win.maximized then (wm.onScreen win).resize apps wm.disk maxCols maxRows
      else
        (wm.onScreen win).resize apps wm.disk (clampCells cols 1 maxCols)
          (clampCells rows 1 maxRows)

def applyFontScale (scale : UInt8) : WindowManager Contents Disk :=
  let scaled := { wm with display := { wm.display with fontScale := max scale 1 } }
  { scaled with windows := scaled.windows.map (scaled.rescaled apps) }.persistSession apps

def applyChange : SettingsChange → WindowManager Contents Disk
  | .none => wm
  | .reload => { wm with settings := apps.loadSettings wm.disk }
  | .resolution w h => wm.applyResolution apps w h
  | .fontScale scale => wm.applyFontScale apps scale

inductive Click (Contents : Type) where
  | launch (action : LauncherAction)
  | dismiss
  | startMenu
  | taskbar (index : Nat)
  | part (index : Nat) (win : Window Contents) (part : Window.Part)
  | nothing

def windowHit : Option (Nat × Window Contents × Window.Part) :=
  wm.windows.zipIdx.reverse.findSome? (fun (win, i) =>
    (win.partAt wm.display wm.cursorX wm.cursorY).map (fun part => (i, win, part)))

def clickTarget : Click Contents :=
  if wm.launcherOpen then
    match wm.launcherHitTest.bind (fun i => wm.launcherItems[i]?) with
    | some (_, action) => .launch action
    | none => .dismiss
  else if wm.taskbarY ≤ wm.cursorY then
    if wm.startButtonHit then .startMenu
    else
      match wm.taskbarHit with
      | some i => .taskbar i
      | none => .nothing
  else
    match wm.windowHit with
    | some (i, win, part) => .part i win part
    | none => .nothing

def answerClick (action : Option FsAction) (item : Option Nat) (win : Window Contents) :
    WindowManager Contents Disk :=
  match action, item with
  | some action, _ => { wm with pressState := none }.dispatchAction apps action
  | none, some item =>
      { wm with pressState := some ⟨wm.focused, item, wm.cursorX, wm.cursorY, win.serial⟩ }
  | none, none => { wm with pressState := none }

def clickContent (win : Window Contents) : WindowManager Contents Disk :=
  let localX := wm.cursorX - win.x
  let localY := wm.cursorY - win.y - titleBarHeight.toInt32
  let clicked := win.kind.handleClick apps wm.display localX localY wm.disk
  ({ wm.alter wm.focused (fun win => { win with kind := clicked.kind }) with
      disk := clicked.disk }.answerClick apps clicked.action clicked.item win).applyChange apps
    clicked.change

def grabTitle (win : Window Contents) : WindowManager Contents Disk :=
  let restored :=
    if win.maximized then wm.unmaximizeWindow apps wm.focused else wm
  match restored.windows[restored.focused]? with
  | none => restored
  | some grabbed =>
      { restored with
        dragging := some ⟨restored.focused, restored.cursorX - grabbed.x,
          restored.cursorY - grabbed.y, grabbed.serial⟩ }

def grabGrip (win : Window Contents) : WindowManager Contents Disk :=
  let size := win.kind.contentSize wm.display
  { wm with
    resizing := some ⟨wm.focused, size.1.toUInt64 / wm.display.glyphW,
      size.2.toUInt64 / wm.display.glyphH, win.serial⟩ }

def applyPart (i : Nat) (win : Window Contents) : Window.Part → WindowManager Contents Disk
  | .grip => (wm.raise i).grabGrip win
  | .close =>
      (((wm.rememberGeometry i).alter i (fun win => { win with isOpen := false })).refocusAfterHide
        i).persistSession apps
  | .maximize =>
      let raised := wm.raise i
      (if win.maximized then raised.unmaximizeWindow apps raised.focused
        else raised.maximizeWindow apps raised.focused).persistSession apps
  | .minimize =>
      ((wm.alter i (fun win => { win with minimized := true })).refocusAfterHide
        i).persistSession apps
  | .title => (wm.raise i).grabTitle apps win
  | .content => (wm.raise i).clickContent apps win

def applyClick : Click Contents → WindowManager Contents Disk
  | .launch action =>
      ({ wm with launcherOpen := false }.runLauncherAction apps action).persistSession apps
  | .dismiss => { wm with launcherOpen := false }
  | .startMenu =>
      { wm with launcherItems := wm.buildLauncherItems apps, launcherOpen := true }
  | .taskbar i =>
      ((wm.alter i (fun win => { win with minimized := false })).raise i).persistSession apps
  | .part i win part => wm.applyPart apps i win part
  | .nothing => wm

def handleClick : WindowManager Contents Disk := wm.applyClick apps wm.clickTarget

def keyWindow : Option (Window Contents) := wm.windows[wm.focused]?

def handleKey (event : Event) : WindowManager Contents Disk :=
  match wm.keyWindow with
  | none => wm
  | some win =>
      let (action, kind, disk) := win.kind.handleKey apps event wm.disk
      let typed := { wm.alter wm.focused (fun win => { win with kind }) with disk }
      match action with
      | some action => typed.dispatchAction apps action
      | none => typed

def setExplorerDrag (drag : Option (Text × Bool)) : WindowManager Contents Disk :=
  { wm with
    windows := wm.windows.map (fun win =>
      match win.kind with
      | .fileExplorer app => { win with kind := .fileExplorer (apps.setDrag drag app) }
      | _ => win) }

def pressedEntry (press : PressState) : Option (Text × Bool) :=
  match wm.windows[press.windowIndex]? with
  | none => none
  | some win =>
      match win.kind with
      | .fileExplorer app => app.entryPath press.item
      | _ => none

def beginFileDrag (press : PressState) : WindowManager Contents Disk :=
  match wm.pressedEntry press with
  | none => { wm with pressState := none }
  | some (path, isDir) =>
      { wm with
        pressState := none
        fileDrag := some ⟨press.windowIndex, path, isDir, press.grabbed⟩ }.setExplorerDrag apps
          (some (path, isDir))

def dropTarget : Option (Nat × Window Contents) :=
  wm.windows.zipIdx.reverse.findSome? (fun (win, i) =>
    if win.visible && win.contentHit wm.display wm.cursorX wm.cursorY then some (i, win)
    else none)

def dropOn (drag : FileDragState) (i : Nat) (win : Window Contents) :
    Bool × WindowManager Contents Disk :=
  match win.kind with
  | .fileExplorer app =>
      let localX := wm.cursorX - win.x
      let localY := wm.cursorY - win.y - titleBarHeight.toInt32
      let (handled, app, disk) := apps.drop localX localY drag.path drag.isDir app wm.disk
      (handled,
        { wm.alter i (fun win => { win with kind := .fileExplorer app }) with disk })
  | _ => (false, wm)

def refreshExplorer (i : Nat) : WindowManager Contents Disk :=
  wm.alter i (fun win =>
    match win.kind with
    | .fileExplorer app => { win with kind := .fileExplorer (apps.refreshNow app wm.disk) }
    | _ => win)

def applyDrop (drag : FileDragState) : WindowManager Contents Disk :=
  match wm.dropTarget with
  | none => wm
  | some (i, win) =>
      let (handled, dropped) := wm.dropOn apps drag i win
      if handled && decide (i ≠ drag.sourceWindow) then
        dropped.refreshExplorer apps drag.sourceWindow
      else dropped

def finishFileDrag (drag : FileDragState) : WindowManager Contents Disk :=
  { { wm with fileDrag := none }.applyDrop apps drag with pressState := none }.setExplorerDrag apps
    none

def moveCursor (event : MouseEvent) : WindowManager Contents Disk :=
  { wm with
    cursorX := clamp (wm.cursorX + event.dx) 0 (wm.screenW.toInt32 - 1)
    cursorY := clamp (wm.cursorY + event.dy) 0 (wm.screenH.toInt32 - 1)
    leftWasDown := event.left }

def gripCells (win : Window Contents) : UInt64 × UInt64 :=
  let localW := (max (wm.cursorX - win.x) 0).toUInt32
  let localH := (max (wm.cursorY - win.y - titleBarHeight.toInt32) 0).toUInt32
  (max (localW / wm.display.glyphW.toUInt32).toUInt64 minCols,
    max (localH / wm.display.glyphH.toUInt32).toUInt64 minRows)

def resizeMotion (held : ResizeState) : WindowManager Contents Disk :=
  match wm.windows[held.windowIndex]? with
  | none => wm
  | some win =>
      let (cols, rows) := wm.gripCells win
      if cols ≠ held.lastCols ∨ rows ≠ held.lastRows then
        { wm.alter held.windowIndex (fun win => win.resize apps wm.disk cols rows) with
          resizing := some { held with lastCols := cols, lastRows := rows } }
      else wm

/-- `drag_bounds` is not cut off at zero, as `maxX` and `maxY` are. -/
def dragMotion (held : DragState) : WindowManager Contents Disk :=
  wm.alter held.windowIndex (fun win =>
    { win with
      x := clamp (wm.cursorX - held.offsetX) 0 (wm.screenW.toInt32 - 40)
      y := clamp (wm.cursorY - held.offsetY) 0
        (wm.screenH.toInt32 - taskbarHeight.toInt32 - titleBarHeight.toInt32) })

def strayed (press : PressState) : Bool :=
  decide (6 ≤ (wm.cursorX - press.screenX).abs + (wm.cursorY - press.screenY).abs)

def resizeEvent (held : ResizeState) (left justReleased : Bool) : WindowManager Contents Disk :=
  let sized := if left then wm.resizeMotion apps held else wm
  if justReleased then { sized with resizing := none }.persistSession apps else sized

def fileDragEvent (held : FileDragState) (justReleased : Bool) : WindowManager Contents Disk :=
  if justReleased then wm.finishFileDrag apps held else wm

def pressEvent (left : Bool) : WindowManager Contents Disk :=
  match wm.pressState with
  | some press => if left && wm.strayed press then wm.beginFileDrag apps press else wm
  | none => wm

def dragEvent (left : Bool) : WindowManager Contents Disk :=
  match wm.dragging with
  | some held => if left then wm.dragMotion held else wm
  | none => wm

def releaseEvent : WindowManager Contents Disk :=
  { (if wm.dragging.isSome then wm.persistSession apps else wm) with
    dragging := none
    pressState := none }

def plainEvent (left justPressed justReleased : Bool) : WindowManager Contents Disk :=
  let dragged := wm.dragEvent left
  let released := if justReleased then dragged.releaseEvent apps else dragged
  if justPressed then released.handleClick apps else released

def handleMouse (event : MouseEvent) : WindowManager Contents Disk :=
  let justPressed := event.left && !wm.leftWasDown
  let justReleased := !event.left && wm.leftWasDown
  let moved := wm.moveCursor event
  match moved.resizing, moved.fileDrag with
  | some held, _ => moved.resizeEvent apps held event.left justReleased
  | none, some held => moved.fileDragEvent apps held justReleased
  | none, none =>
      let pressed := moved.pressEvent apps event.left
      if pressed.fileDrag.isSome then pressed
      else pressed.plainEvent apps event.left justPressed justReleased

def fitEntry (entry : SessionWindow) (maxX maxY : Int32) (idx : Nat) : WindowManager Contents Disk :=
  let moved := wm.alter idx (fun win =>
    { win with x := clamp entry.x 0 maxX, y := clamp entry.y 0 maxY })
  let sized :=
    if !entry.maximized && decide (0 < entry.cols) then
      moved.alter idx (fun win =>
        win.resize apps moved.disk (max entry.cols minCols) (max entry.rows minRows))
    else moved
  if entry.maximized then sized.maximizeWindow apps idx else sized

def restoreEntry (entry : SessionWindow) : WindowManager Contents Disk :=
  match AppId.fromName entry.app with
  | none => wm
  | some id =>
      if wm.windows.any (fun win => win.isOpen && decide (win.appId = some id)) then wm
      else
        let opened := wm.runLauncherAction apps (builtinAction id)
        let idx := opened.focused
        (opened.fitEntry apps entry wm.maxX wm.maxY idx).alter idx (fun win =>
          { win with minimized := entry.minimized })

def rememberEntry (entry : SessionWindow) : WindowManager Contents Disk :=
  match AppId.fromName entry.app with
  | none => wm
  | some id =>
      { wm with
        remembered := Function.update wm.remembered id
          (some ⟨entry.x, entry.y, entry.cols, entry.rows, entry.maximized⟩) }

def restoreSession : WindowManager Contents Disk :=
  let data := loadSession apps wm.disk
  if data.windows = [] ∧ data.remembered = [] then wm
  else
    let remembering := data.remembered.foldl rememberEntry wm
    (data.windows.foldl (restoreEntry apps) remembering).persistSession apps

def emptyDesktop (screenW screenH : UInt32) (display : Display) (disk : Disk) :
    WindowManager Contents Disk :=
  { windows := []
    focused := 0
    cursorX := (screenW / 2).toInt32
    cursorY := (screenH / 2).toInt32
    screenW
    screenH
    dragging := none
    resizing := none
    fileDrag := none
    pressState := none
    leftWasDown := false
    launcherOpen := false
    launcherItems := []
    spawnCounter := 0
    remembered := fun _ => none
    settings := apps.loadSettings disk
    display
    disk
    spawned := 0 }

def new (screenW screenH : UInt32) (display : Display) (disk : Disk) : WindowManager Contents Disk :=
  (emptyDesktop apps screenW screenH display disk).restoreSession apps

inductive Input where
  | mouse (event : MouseEvent)
  | key (event : Event)
deriving DecidableEq, Repr

def step : Input → WindowManager Contents Disk
  | .mouse event => wm.handleMouse apps event
  | .key event => wm.handleKey apps event

def run (inputs : List Input) : WindowManager Contents Disk :=
  inputs.foldl (fun wm input => wm.step apps input) wm

/-- The desktop as a system for `Runs`; no input stops it. -/
def steps : WindowManager Contents Disk → Input → Option (WindowManager Contents Disk) :=
  fun wm input => some (wm.step apps input)

theorem after_steps (inputs : List Input) :
    Runs.after (steps apps) wm inputs = some (wm.run apps inputs) := by
  induction inputs generalizing wm with
  | nil => rfl
  | cons input rest ih => exact ih (wm.step apps input)

end WindowManager

end Desktop

end MachaOS
