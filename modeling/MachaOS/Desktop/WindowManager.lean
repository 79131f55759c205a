/-
The window manager: the stack of windows, the gestures of the mouse, the start menu and the taskbar,
and the session it keeps on the disk.

`display` and `disk` are globals of the kernel that the methods reach.  What is only drawn is left
out (wallpaper, clock, the pixels under the cursor); what `handle_mouse` answers is `redraws`, in a
module of its own.  The other field that is not in the source is `spawned`, which numbers the windows;
a gesture keeps in `grabbed` the number of the window it began on.
-/

import MachaOS.Desktop.Session
import MachaOS.Lib.Layers

namespace MachaOS

namespace Desktop

open Keyboard

inductive LauncherAction where
  | terminal
  | calculator
  | files
  | notepad
  | sysInfo
  | settings
  | paint
  | imageViewer
  | runElf (path : Text)
deriving DecidableEq, Repr

namespace AppId

/-- In the order of `from_index`. -/
def all : List AppId :=
  [.terminal, .calculator, .notepad, .sysInfo, .files, .settings, .paint, .imageViewer]

def name : AppId → Text
  | .terminal => "terminal".toList
  | .calculator => "calculator".toList
  | .notepad => "notepad".toList
  | .sysInfo => "sysinfo".toList
  | .files => "files".toList
  | .settings => "settings".toList
  | .paint => "paint".toList
  | .imageViewer => "imageviewer".toList

def fromName (name : Text) : Option AppId := all.find? (fun id => id.name = name)

end AppId

def builtinAction : AppId → LauncherAction
  | .terminal => .terminal
  | .calculator => .calculator
  | .notepad => .notepad
  | .sysInfo => .sysInfo
  | .files => .files
  | .settings => .settings
  | .paint => .paint
  | .imageViewer => .imageViewer

structure RememberedWindow where
  x : Int32
  y : Int32
  cols : UInt64
  rows : UInt64
  maximized : Bool
deriving DecidableEq, Repr

structure DragState where
  windowIndex : Nat
  offsetX : Int32
  offsetY : Int32
  grabbed : Nat
deriving DecidableEq, Repr

structure ResizeState where
  windowIndex : Nat
  lastCols : UInt64
  lastRows : UInt64
  grabbed : Nat
deriving DecidableEq, Repr

structure FileDragState where
  sourceWindow : Nat
  path : Text
  isDir : Bool
  grabbed : Nat
deriving DecidableEq, Repr

structure PressState where
  windowIndex : Nat
  item : Nat
  screenX : Int32
  screenY : Int32
  grabbed : Nat
deriving DecidableEq, Repr

structure MouseEvent where
  dx : Int32
  dy : Int32
  left : Bool
deriving DecidableEq, Repr

structure WindowManager (Contents Disk : Type) where
  windows : List (Window Contents)
  focused : Nat
  cursorX : Int32
  cursorY : Int32
  screenW : UInt32
  screenH : UInt32
  dragging : Option DragState
  resizing : Option ResizeState
  fileDrag : Option FileDragState
  pressState : Option PressState
  leftWasDown : Bool
  launcherOpen : Bool
  launcherItems : List (Text × LauncherAction)
  spawnCounter : UInt32
  remembered : AppId → Option RememberedWindow
  settings : Settings
  display : Display
  disk : Disk
  spawned : Nat

namespace WindowManager

variable {Contents Disk : Type} (apps : Apps Contents Disk) (wm : WindowManager Contents Disk)

def sessionWindow (win : Window Contents) : Option SessionWindow :=
  if !win.isOpen then none
  else
    win.appId.map (fun id =>
      { app := id.name
        x := win.x
        y := win.y
        cols := win.kind.colsRows.1
        rows := win.kind.colsRows.2
        minimized := win.minimized
        maximized := win.maximized })

def sessionRemembered (windows : List SessionWindow) (id : AppId) : Option SessionWindow :=
  match wm.remembered id with
  | none => none
  | some remembered =>
      if windows.any (fun entry => entry.app = id.name) then none
      else
        some
          { app := id.name
            x := remembered.x
            y := remembered.y
            cols := remembered.cols
            rows := remembered.rows
            minimized := false
            maximized := remembered.maximized }

def sessionData : SessionData :=
  let windows := wm.windows.filterMap sessionWindow
  { windows, remembered := AppId.all.filterMap (wm.sessionRemembered windows) }

def persistSession : WindowManager Contents Disk :=
  { wm with disk := apps.writeText Session.path (Session.serialize wm.sessionData) wm.disk }

def loadSession (disk : Disk) : SessionData :=
  match apps.readText Session.path disk with
  | some text => Session.parse text
  | none => ⟨[], []⟩

def alter (index : Nat) (change : Window Contents → Window Contents) :
    WindowManager Contents Disk :=
  { wm with windows := wm.windows.modify index change }

def raise (index : Nat) : WindowManager Contents Disk :=
  { wm with
    windows := Layers.toTop wm.windows index
    focused := wm.windows.length - 1 }

def refocusAfterHide (hidden : Nat) : WindowManager Contents Disk :=
  { wm with focused := Layers.refocus Window.visible wm.windows wm.focused hidden }

def maxX : Int32 := max (wm.screenW.toInt32 - 40) 0

def maxY : Int32 := max (wm.screenH.toInt32 - taskbarHeight.toInt32 - titleBarHeight.toInt32) 0

def maxContentCells : UInt64 × UInt64 :=
  ((wm.screenW / wm.display.glyphW.toUInt32).toUInt64,
    ((wm.screenH - taskbarHeight - titleBarHeight) / wm.display.glyphH.toUInt32).toUInt64)

def maximizeWindow (index : Nat) : WindowManager Contents Disk :=
  wm.alter index (fun win => win.maximize apps wm.disk wm.maxContentCells)

def unmaximizeWindow (index : Nat) : WindowManager Contents Disk :=
  wm.alter index (fun win => win.unmaximize apps wm.disk)

/-- Where a closed window of a built-in app was; a maximized one is remembered as it was before. -/
def geometryOf (win : Window Contents) : Option RememberedWindow :=
  if win.maximized then
    win.restoreGeometry.map (fun (x, y, cols, rows) => ⟨x, y, cols, rows, true⟩)
  else some ⟨win.x, win.y, win.kind.colsRows.1, win.kind.colsRows.2, false⟩

def rememberGeometry (index : Nat) : WindowManager Contents Disk :=
  match wm.windows[index]? with
  | none => wm
  | some win =>
      match win.appId, geometryOf win with
      | some id, some remembered =>
          { wm with remembered := Function.update wm.remembered id (some remembered) }
      | _, _ => wm

def remembering (appId : Option AppId) : Option RememberedWindow := appId.bind wm.remembered

def cascadeOffset (counter : UInt32) : Int32 := (counter.toInt32 * 28) % 320

def cascade (counter : UInt32) : Int32 × Int32 :=
  (min (140 + cascadeOffset counter) (wm.screenW.toInt32 - 260),
    min (100 + cascadeOffset counter) (wm.screenH.toInt32 - taskbarHeight.toInt32 - 260))

def collides (x y : Int32) : Bool :=
  wm.windows.any (fun win =>
    win.visible && decide ((win.x - x).abs < 24 ∧ (win.y - y).abs < 24))

def avoidOverlap : Nat → Int32 × Int32 → Int32 × Int32
  | 0, position => position
  | rounds + 1, (x, y) =>
      if wm.collides x y then
        avoidOverlap rounds
          (clamp (x + 28) 0 (max (wm.screenW.toInt32 - 260) 0),
            clamp (y + 28) 0 (max (wm.screenH.toInt32 - taskbarHeight.toInt32 - 260) 0))
      else (x, y)

def spawnBase (appId : Option AppId) : Int32 × Int32 :=
  match wm.remembering appId with
  | some remembered => (remembered.x, remembered.y)
  | none => wm.cascade (wm.spawnCounter + 1)

def spawnPosition (appId : Option AppId) : Int32 × Int32 :=
  wm.avoidOverlap 20 (wm.spawnBase appId)

def newWindow (title : Text) (resizable : Bool) (appId : Option AppId) (kind : AppKind Contents) :
    Window Contents :=
  { title
    x := (wm.spawnPosition appId).1
    y := (wm.spawnPosition appId).2
    isOpen := true
    minimized := false
    maximized := false
    resizable
    appId
    restoreGeometry := none
    kind
    serial := wm.spawned }

def placeWindow (appId : Option AppId) (win : Window Contents) :
    WindowManager Contents Disk × Nat :=
  let (windows, index) := Layers.place (fun win => !win.isOpen) wm.windows win
  ({ wm with
      windows
      spawned := wm.spawned + 1
      spawnCounter :=
        if (wm.remembering appId).isSome then wm.spawnCounter else wm.spawnCounter + 1 }.raise index,
    index)

def restoreSize (index : Nat) (remembered : RememberedWindow) : WindowManager Contents Disk :=
  let resized := wm.alter index (fun win =>
    win.resize apps wm.disk (max remembered.cols minCols) (max remembered.rows minRows))
  if remembered.maximized then resized.maximizeWindow apps index else resized

def spawnWindow (title : Text) (resizable : Bool) (appId : Option AppId)
    (kind : AppKind Contents) : WindowManager Contents Disk × Nat :=
  let (placed, index) := wm.placeWindow appId (wm.newWindow title resizable appId kind)
  match wm.remembering appId with
  | some remembered => (placed.restoreSize apps index remembered, index)
  | none => (placed, index)

def maxTerminalCols : UInt64 := 100
def maxTerminalRows : UInt64 := 30
def maxEditorCols : UInt64 := 100
def maxEditorRows : UInt64 := 20

def clampCells (value low high : UInt64) : UInt64 :=
  if value < low then low else if high < value then high else value

/-- `u32::saturating_sub`. -/
def saturatingSub (a b : UInt32) : UInt32 := if a < b then 0 else a - b

def fitConsoleCells (maxCols maxRows : UInt64) : UInt64 × UInt64 :=
  (clampCells (saturatingSub (wm.screenW * 3 / 4) 40 / wm.display.glyphW.toUInt32).toUInt64
      minCols maxCols,
    clampCells (saturatingSub wm.screenH (taskbarHeight + 80) / wm.display.glyphH.toUInt32).toUInt64
      minRows maxRows)

def promptIn (win : Window Contents) : Window Contents :=
  match win.kind with
  | .terminal cols rows contents =>
      { win with kind := .terminal cols rows (apps.prompt contents) }
  | _ => win

def runIn (path : Text) (disk : Disk) (win : Window Contents) : Window Contents × Disk :=
  match win.kind with
  | .terminal cols rows contents =>
      let (contents, disk) := apps.run path contents disk
      ({ win with kind := .terminal cols rows contents }, disk)
  | _ => (win, disk)

def newTerminal : AppKind Contents :=
  let (cols, rows) := wm.fitConsoleCells maxTerminalCols maxTerminalRows
  .terminal cols rows (apps.fresh .terminal cols rows wm.disk)

def launchElfInTerminal (path : Text) : WindowManager Contents Disk :=
  let (spawned, index) :=
    wm.spawnWindow apps ("Terminal: ".toList ++ path) true none (wm.newTerminal apps)
  match spawned.windows[index]? with
  | none => spawned
  | some win =>
      let (ran, disk) := runIn apps path spawned.disk win
      { spawned.alter index (fun _ => ran) with disk }

def openNotepadWith (path : Text) (content : List UInt8) : WindowManager Contents Disk :=
  let (cols, rows) := wm.fitConsoleCells maxEditorCols maxEditorRows
  (wm.spawnWindow apps ("Notepad: ".toList ++ baseName path) true none
    (.editor cols rows (apps.document cols rows path content))).1

def openImageViewerWith (path : Text) (content : List UInt8) : WindowManager Contents Disk :=
  (wm.spawnWindow apps ("Image Viewer: ".toList ++ baseName path) true none
    (.imageViewer (apps.picture path content))).1

def dispatchAction : FsAction → WindowManager Contents Disk
  | .runTerminal path => wm.launchElfInTerminal apps path
  | .openText path content => wm.openNotepadWith apps path content
  | .openImage path content => wm.openImageViewerWith apps path content

/-- Title, whether it can be resized, and contents of a new window of a built-in app. -/
def builtin : AppId → Text × Bool × AppKind Contents
  | .terminal => ("Terminal".toList, true, wm.newTerminal apps)
  | .calculator =>
      ("Calculator".toList, false, .calculator (apps.fresh .calculator 0 0 wm.disk))
  | .notepad =>
      let (cols, rows) := wm.fitConsoleCells maxEditorCols maxEditorRows
      ("Notepad".toList, true, .editor cols rows (apps.fresh .notepad cols rows wm.disk))
  | .sysInfo => ("System Info".toList, false, AppKind.buildSysinfo apps wm.disk)
  | .files => ("File Explorer".toList, false, .fileExplorer (apps.explorer wm.disk))
  | .settings =>
      ("Settings".toList, false, .settings { settings := wm.settings, page := .system })
  | .paint => ("Paint".toList, false, .paint (apps.fresh .paint 0 0 wm.disk))
  | .imageViewer =>
      ("Image Viewer".toList, false, .imageViewer (apps.fresh .imageViewer 0 0 wm.disk))

def spawnBuiltin (id : AppId) : WindowManager Contents Disk × Nat :=
  let (title, resizable, kind) := wm.builtin apps id
  wm.spawnWindow apps title resizable (some id) kind

def runLauncherAction : LauncherAction → WindowManager Contents Disk
  | .terminal =>
      let (spawned, index) := wm.spawnBuiltin apps .terminal
      spawned.alter index (promptIn apps)
  | .calculator => (wm.spawnBuiltin apps .calculator).1
  | .files => (wm.spawnBuiltin apps .files).1
  | .notepad => (wm.spawnBuiltin apps .notepad).1
  | .sysInfo => (wm.spawnBuiltin apps .sysInfo).1
  | .settings =>
      -- the new app renders once, which saves
      ({ wm with disk := apps.saveSettings wm.settings wm.disk }.spawnBuiltin apps .settings).1
  | .paint => (wm.spawnBuiltin apps .paint).1
  | .imageViewer => (wm.spawnBuiltin apps .imageViewer).1
  | .runElf path => wm.launchElfInTerminal apps path

def taskbarPad : Int32 := 12
def taskbarGap : Int32 := 4
def startBtnW : UInt32 := 40
def startBtnH : UInt32 := 36
def launcherW : UInt32 := 408
def launcherCols : Nat := 4
def launcherTileW : UInt32 := 92
def launcherTileH : UInt32 := 84
def launcherTilesY : UInt32 := 64

def taskbarY : Int32 := wm.screenH.toInt32 - taskbarHeight.toInt32

def startButtonHit : Bool :=
  within wm.cursorX taskbarPad startBtnW && within wm.cursorY (wm.taskbarY + 6) startBtnH

def iconSize (base : UInt32) : UInt32 := base + (wm.display.fontScale.toUInt32 - 1) * 8

def taskbarLabelWidth (title : Text) : Int32 :=
  (wm.iconSize 16 + 6 + UInt32.ofNat (Shell.byteLength title) * wm.display.glyphW.toUInt32 +
    20).toInt32

def taskbarButtons : Nat → Int32 → List (Window Contents) → List (Nat × Int32 × Int32)
  | _, _, [] => []
  | i, x, win :: rest =>
      if win.isOpen then
        let w := wm.taskbarLabelWidth win.title
        (i, x, w) :: taskbarButtons (i + 1) (x + w + taskbarGap) rest
      else taskbarButtons (i + 1) x rest

def taskbarLayout : List (Nat × Int32 × Int32) :=
  wm.taskbarButtons 0 (taskbarPad + startBtnW.toInt32 + taskbarGap) wm.windows

def taskbarHit : Option Nat :=
  (wm.taskbarLayout.find? (fun (_, x, w) => decide (x ≤ wm.cursorX ∧ wm.cursorX < x + w))).map
    Prod.fst

def launcherPopupRect : Int32 × Int32 × UInt32 × UInt32 :=
  let rows := (max wm.launcherItems.length 1 + launcherCols - 1) / launcherCols
  let popupH := launcherTilesY + UInt32.ofNat rows * launcherTileH + 10
  (taskbarPad, wm.taskbarY - popupH.toInt32 - 10, launcherW, popupH)

def tileHit (baseX baseY : Int32) (i : Nat) : Bool :=
  let col := Int32.ofNat (i % launcherCols)
  let row := Int32.ofNat (i / launcherCols)
  within wm.cursorX (baseX + col * launcherTileW.toInt32) launcherTileW &&
    within wm.cursorY (baseY + row * launcherTileH.toInt32) launcherTileH

def launcherHitTest : Option Nat :=
  let (px, py, pw, ph) := wm.launcherPopupRect
  if within wm.cursorX px pw && within wm.cursorY py ph then
    (List.range wm.launcherItems.length).find?
      (wm.tileHit (px + 20) (py + launcherTilesY.toInt32))
  else none

def buildLauncherItems : List (Text × LauncherAction) :=
  [("Terminal".toList, .terminal), ("Calculator".toList, .calculator),
    ("File Explorer".toList, .files), ("Notepad".toList, .notepad), ("Paint".toList, .paint),
    ("Image Viewer".toList, .imageViewer), ("System Info".toList, .sysInfo),
    ("Settings".toList, .settings)] ++
  (((apps.listDir "/bin".toList wm.disk).getD []).filter
      (fun entry => !entry.isDir && isElf entry.name)).map
    (fun entry => (entry.name, .runElf ("/bin/".toList ++ entry.name)))

end WindowManager

end Desktop

end MachaOS
