/-
The arithmetic of the desktop's layout: the differences, divisions and clamps that the functions of the
window manager carry out, in order, under the names of the functions.

Sums and products wrap, as in a release build.  Divisions by a constant are left out, and so is what
the apps compute inside their windows and the painting primitives below the layout.
-/

import MachaOS.Lib.Operations
import MachaOS.Desktop.Redraw

namespace MachaOS

namespace Desktop

namespace Arithmetic

variable {Contents Disk : Type} (apps : Apps Contents Disk) (wm : WindowManager Contents Disk)

def minus (a b : UInt32) : Operation := .sub a.toNat b.toNat

def quotient (divisor : UInt32) : Operation := .div divisor.toNat

def between (low high : Int32) : Operation := .clamp low.toInt high.toInt

def lerp : List Operation := List.replicate 3 (.clamp 0 255)

/-- `xmap` and `ymap` of `scale_pixels`. -/
def mapped (src dst : UInt32) : List Operation :=
  [.sub src.toNat 1, .sub dst.toNat 1, .div (dst.toNat - 1)]

/-- The source rows a row is mixed from, as `ymap` has them. -/
def sourceRows (srcH dstH : UInt32) (dy : Nat) : UInt64 × UInt64 :=
  let y0 := ((UInt64.ofNat dy <<< 16) * (srcH.toUInt64 - 1) / (dstH.toUInt64 - 1)) >>> 16
  (y0, min (y0 + 1) (srcH.toUInt64 - 1))

def scaleRow (srcW srcH dstW dstH : UInt32) (dy : Nat) : List Operation :=
  mapped srcH dstH ++ [.sub srcH.toNat 1] ++
    (if dy = 0 ∨ sourceRows srcH dstH dy ≠ sourceRows srcH dstH (dy - 1) then
      (List.range dstW.toNat).flatMap (fun _ =>
        mapped srcW dstW ++ [.sub srcW.toNat 1] ++ lerp ++ lerp)
    else []) ++
    (List.range dstW.toNat).flatMap (fun _ => lerp)

def scalePixels (srcW srcH dstW dstH : UInt32) : List Operation :=
  if srcW = 0 ∨ srcH = 0 ∨ dstW = 0 ∨ dstH = 0 then []
  else (List.range dstH.toNat).flatMap (scaleRow srcW srcH dstW dstH)

def wallpaperPath : Text := "/system/wallpaper.raw".toList

def pictureLength (w h : UInt32) : Nat := (w.toUInt64 * h.toUInt64 * 4).toNat

def loadWallpaper (physical : UInt32 × UInt32) (disk : Disk) (w h : UInt32) : List Operation :=
  match apps.readFile wallpaperPath disk with
  | none => []
  | some bytes =>
      if bytes.length = pictureLength w h then []
      else if bytes.length = pictureLength physical.1 physical.2 then
        scalePixels physical.1 physical.2 w h
      else []

def iconSize : List Operation := [minus wm.display.fontScale.toUInt32 1]

def maxContentCells : List Operation :=
  [minus wm.screenH taskbarHeight, minus (wm.screenH - taskbarHeight) titleBarHeight,
    quotient wm.display.glyphW.toUInt32, quotient wm.display.glyphH.toUInt32]

def fitConsoleCells (maxCols maxRows : UInt64) : List Operation :=
  [quotient wm.display.glyphW.toUInt32, quotient wm.display.glyphH.toUInt32,
    .clamp minCols.toNat maxCols.toNat, .clamp minRows.toNat maxRows.toNat]

def taskbarLayout : List Operation :=
  wm.windows.flatMap (fun win => if win.isOpen then iconSize wm else [])

def launcherPopupRect : List Operation :=
  [.sub (max wm.launcherItems.length 1 + WindowManager.launcherCols) 1]

def maximizeWindow (index : Nat) : List Operation :=
  match wm.windows[index]? with
  | none => []
  | some win => if !win.resizable || win.maximized then [] else maxContentCells wm

def avoidOverlap : Nat → Int32 × Int32 → List Operation
  | 0, _ => []
  | rounds + 1, (x, y) =>
      if wm.collides x y then
        let right := max (wm.screenW.toInt32 - 260) 0
        let bottom := max (wm.screenH.toInt32 - taskbarHeight.toInt32 - 260) 0
        between 0 right :: between 0 bottom ::
          avoidOverlap rounds (clamp (x + 28) 0 right, clamp (y + 28) 0 bottom)
      else []

def restoreSize (index : Nat) (remembered : RememberedWindow) : List Operation :=
  if remembered.maximized then
    maximizeWindow (wm.alter index (fun win =>
      win.resize apps wm.disk (max remembered.cols minCols) (max remembered.rows minRows))) index
  else []

def spawnWindow (title : Text) (resizable : Bool) (appId : Option AppId)
    (kind : AppKind Contents) : List Operation :=
  avoidOverlap wm 20 (wm.spawnBase appId) ++
    match wm.remembering appId with
    | none => []
    | some remembered =>
        let (placed, index) := wm.placeWindow appId (wm.newWindow title resizable appId kind)
        restoreSize apps placed index remembered

def launchElfInTerminal (path : Text) : List Operation :=
  fitConsoleCells wm WindowManager.maxTerminalCols WindowManager.maxTerminalRows ++
    spawnWindow apps wm ("Terminal: ".toList ++ path) true none (wm.newTerminal apps)

def openNotepadWith (path : Text) (content : List UInt8) : List Operation :=
  let (cols, rows) := wm.fitConsoleCells WindowManager.maxEditorCols WindowManager.maxEditorRows
  fitConsoleCells wm WindowManager.maxEditorCols WindowManager.maxEditorRows ++
    spawnWindow apps wm ("Notepad: ".toList ++ baseName path) true none
      (.editor cols rows (apps.document cols rows path content))

def openImageViewerWith (path : Text) (content : List UInt8) : List Operation :=
  spawnWindow apps wm ("Image Viewer: ".toList ++ baseName path) true none
    (.imageViewer (apps.picture path content))

def dispatchAction : FsAction → List Operation
  | .runTerminal path => launchElfInTerminal apps wm path
  | .openText path content => openNotepadWith apps wm path content
  | .openImage path content => openImageViewerWith apps wm path content

/-- The cells of the console that a built-in app shows, if it shows one of a size to find. -/
def builtin : AppId → List Operation
  | .terminal => fitConsoleCells wm WindowManager.maxTerminalCols WindowManager.maxTerminalRows
  | .notepad => fitConsoleCells wm WindowManager.maxEditorCols WindowManager.maxEditorRows
  | .calculator | .sysInfo | .files | .settings | .paint | .imageViewer => []

def spawnBuiltin (id : AppId) : List Operation :=
  let (title, resizable, kind) := wm.builtin apps id
  builtin wm id ++ spawnWindow apps wm title resizable (some id) kind

def runLauncherAction : LauncherAction → List Operation
  | .terminal => spawnBuiltin apps wm .terminal
  | .calculator => spawnBuiltin apps wm .calculator
  | .files => spawnBuiltin apps wm .files
  | .notepad => spawnBuiltin apps wm .notepad
  | .sysInfo => spawnBuiltin apps wm .sysInfo
  | .settings =>
      spawnBuiltin apps { wm with disk := apps.saveSettings wm.settings wm.disk } .settings
  | .paint => spawnBuiltin apps wm .paint
  | .imageViewer => spawnBuiltin apps wm .imageViewer
  | .runElf path => launchElfInTerminal apps wm path

def applyResolution (w h : UInt32) : List Operation :=
  if w = 0 ∨ h = 0 ∨ wm.display.physical.1 < w ∨ wm.display.physical.2 < h then []
  else
    let sized := { wm with screenW := w, screenH := h }
    loadWallpaper apps wm.display.physical wm.disk w h ++
      [between 0 (w.toInt32 - 1), between 0 (h.toInt32 - 1)] ++ maxContentCells sized ++
      wm.windows.flatMap (fun win =>
        if win.visible then [between 0 sized.maxX, between 0 sized.maxY] else [])

def applyFontScale (scale : UInt8) : List Operation :=
  let scaled := { wm with display := { wm.display with fontScale := max scale 1 } }
  maxContentCells scaled ++
    wm.windows.flatMap (fun win =>
      if !win.isOpen then []
      else
        [between 0 scaled.maxX, between 0 scaled.maxY] ++
          if win.kind.colsRows.1 = 0 ∨ win.maximized then []
          else
            [.clamp 1 (max scaled.maxContentCells.1 1).toNat,
              .clamp 1 (max scaled.maxContentCells.2 1).toNat])

def applyChange : SettingsChange → List Operation
  | .none | .reload => []
  | .resolution w h => applyResolution apps wm w h
  | .fontScale scale => applyFontScale wm scale

def clickContent (win : Window Contents) : List Operation :=
  let localX := wm.cursorX - win.x
  let localY := wm.cursorY - win.y - titleBarHeight.toInt32
  let clicked := win.kind.handleClick apps wm.display localX localY wm.disk
  let shown := { wm.alter wm.focused (fun win => { win with kind := clicked.kind }) with
    disk := clicked.disk }
  (match clicked.action with
    | some action => dispatchAction apps { shown with pressState := none } action
    | none => []) ++
    applyChange apps (shown.answerClick apps clicked.action clicked.item win) clicked.change

def applyPart (i : Nat) (win : Window Contents) : Window.Part → List Operation
  | .grip => [.div wm.display.glyphW.toNat, .div wm.display.glyphH.toNat]
  | .maximize =>
      if win.maximized then [] else maximizeWindow (wm.raise i) (wm.raise i).focused
  | .content => clickContent apps (wm.raise i) win
  | .close | .minimize | .title => []

def handleClick : List Operation :=
  (if wm.launcherOpen then launcherPopupRect wm
    else if wm.taskbarY ≤ wm.cursorY then
      taskbarLayout wm ++ if wm.startButtonHit then [] else taskbarLayout wm
    else []) ++
    match wm.clickTarget with
    | .launch action => runLauncherAction apps { wm with launcherOpen := false } action
    | .part i win part => applyPart apps wm i win part
    | .dismiss | .startMenu | .taskbar _ | .nothing => []

def cursorOverHoverableAt (cy : Int32) : List Operation :=
  minus wm.screenH taskbarHeight ::
    if (wm.screenH - taskbarHeight).toInt32 ≤ cy then []
    else if wm.launcherOpen then launcherPopupRect wm
    else []

/-- What `handle_mouse` asks about a move of the cursor from an earlier place. -/
def hovering (fromY : Int32) : List Operation :=
  cursorOverHoverableAt wm wm.cursorY ++
    if wm.cursorOverHoverableAt wm.cursorX wm.cursorY then [] else cursorOverHoverableAt wm fromY

def drags (left : Bool) : Bool :=
  wm.resizing.isNone && wm.fileDrag.isNone && (wm.pressEvent apps left).fileDrag.isNone &&
    (wm.pressEvent apps left).dragging.isSome && left

def dragMotion : List Operation :=
  [between 0 (wm.screenW.toInt32 - 40),
    between 0 (wm.screenH.toInt32 - taskbarHeight.toInt32 - titleBarHeight.toInt32)]

def plainEvent (fromX fromY : Int32) (left justPressed justReleased : Bool) : List Operation :=
  let dragged := wm.dragEvent left
  let released := if justReleased then dragged.releaseEvent apps else dragged
  (if wm.dragging.isSome && left then dragMotion wm else []) ++
    if justPressed then handleClick apps released
    else if decide (fromX ≠ released.cursorX ∨ fromY ≠ released.cursorY) && !left &&
        released.dragging.isNone && released.resizing.isNone then
      hovering released fromY
    else []

/-- What `handle_mouse` does after it has moved the cursor. -/
def gesture (fromX fromY : Int32) (left justPressed justReleased : Bool) : List Operation :=
  match wm.resizing, wm.fileDrag with
  | some _, _ =>
      if left then [quotient wm.display.glyphW.toUInt32, quotient wm.display.glyphH.toUInt32] else []
  | none, some _ => []
  | none, none =>
      if (wm.pressEvent apps left).fileDrag.isSome then []
      else plainEvent apps (wm.pressEvent apps left) fromX fromY left justPressed justReleased

def handleMouse (event : MouseEvent) : List Operation :=
  [between 0 (wm.screenW.toInt32 - 1), between 0 (wm.screenH.toInt32 - 1)] ++
    gesture apps (wm.moveCursor event) wm.cursorX wm.cursorY event.left
      (event.left && !wm.leftWasDown) (!event.left && wm.leftWasDown)

end Arithmetic

end Desktop

end MachaOS
