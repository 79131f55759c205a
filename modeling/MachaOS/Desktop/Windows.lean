/-
The windows of the desktop: what each one shows, its geometry, and the parts of it a click can hit.

Positions are `i32` and wrap as they do in a release build.  What an app paints or a shell command
prints stays behind `Contents`, a parameter, and so does the rest of the machine, `Disk`: the apps
and the disk are used through `Apps`.  The file explorer is followed as far as it opens files.

`serial` is the one field of a window the source does not have: it says which spawn made the window,
so that a statement can speak of the same window before and after the list is reordered.
-/

import MachaOS.Desktop.Settings
import MachaOS.Terminal.LineEditor

namespace MachaOS

namespace Desktop

open Keyboard

def titleBarHeight : UInt32 := 32
def taskbarHeight : UInt32 := 48
def titleBtnW : UInt32 := 40
def titleBtnH : UInt32 := 28
def titleBtnGap : UInt32 := 2
def titleBtnMarginRight : UInt32 := 6
def resizeGripSize : UInt32 := 12
def minCols : UInt64 := 20
def minRows : UInt64 := 5

def clamp (value low high : Int32) : Int32 :=
  if value < low then low else if high < value then high else value

/-- `value` lies in the half-open range that starts at `low` and is `length` long. -/
def within (value low : Int32) (length : UInt32) : Bool :=
  decide (low ≤ value ∧ value < low + length.toInt32)

inductive AppId where
  | terminal
  | calculator
  | notepad
  | sysInfo
  | files
  | settings
  | paint
  | imageViewer
deriving DecidableEq, Repr

structure DirEntry where
  name : Text
  isDir : Bool
deriving DecidableEq, Repr

def endsWith (name ending : Text) : Bool := ending.isSuffixOf (name.map Char.toLower)

def isElf (name : Text) : Bool := endsWith name ".elf".toList

def isText (name : Text) : Bool :=
  endsWith name ".txt".toList || endsWith name ".md".toList || endsWith name ".log".toList ||
    endsWith name ".cfg".toList

def isRaw (name : Text) : Bool := endsWith name ".raw".toList

def join (path child : Text) : Text :=
  if path = ['/'] then '/' :: child else path ++ '/' :: child

def baseName (path : Text) : Text := (path.reverse.takeWhile (· ≠ '/')).reverse

inductive FsAction where
  | runTerminal (path : Text)
  | openText (path : Text) (content : List UInt8)
  | openImage (path : Text) (content : List UInt8)
deriving DecidableEq, Repr

structure FileExplorer (Contents : Type) where
  path : Text
  entries : List DirEntry
  selection : Nat
  editing : Bool
  rest : Contents

structure Apps (Contents Disk : Type) where
  fresh : AppId → UInt64 → UInt64 → Disk → Contents
  resized : AppId → UInt64 → UInt64 → Contents → Contents
  key : AppId → Event → Contents → Disk → Contents × Disk
  click : AppId → Int32 → Int32 → Contents → Disk → Contents × Disk
  prompt : Contents → Contents
  /-- `run <path>` executed in a terminal. -/
  run : Text → Contents → Disk → Contents × Disk
  document : UInt64 → UInt64 → Text → List UInt8 → Contents
  picture : Text → List UInt8 → Contents
  explorer : Disk → FileExplorer Contents
  navigate : Text → FileExplorer Contents → Disk → FileExplorer Contents
  renameKey : Event → FileExplorer Contents → Disk → FileExplorer Contents × Disk
  browseKey : Event → FileExplorer Contents → Disk → FileExplorer Contents × Disk
  explorerClick : Int32 → Int32 → FileExplorer Contents → Disk →
    Option FsAction × FileExplorer Contents × Disk
  itemAt : Int32 → Int32 → FileExplorer Contents → Option Nat
  dragCandidate : Option Nat → FileExplorer Contents → Option Nat × FileExplorer Contents
  setDrag : Option (Text × Bool) → FileExplorer Contents → FileExplorer Contents
  drop : Int32 → Int32 → Text → Bool → FileExplorer Contents → Disk →
    Bool × FileExplorer Contents × Disk
  refreshNow : FileExplorer Contents → Disk → FileExplorer Contents
  loadSettings : Disk → Settings
  saveSettings : Settings → Disk → Disk
  readFile : Text → Disk → Option (List UInt8)
  listDir : Text → Disk → Option (List DirEntry)
  writeText : Text → Text → Disk → Disk
  readText : Text → Disk → Option Text

variable {Contents Disk : Type}

namespace FileExplorer

def entryPath (app : FileExplorer Contents) (item : Nat) : Option (Text × Bool) :=
  app.entries[item]?.map (fun entry => (join app.path entry.name, entry.isDir))

def openSelected (apps : Apps Contents Disk) (app : FileExplorer Contents) (disk : Disk) :
    Option FsAction × FileExplorer Contents :=
  match app.entries[app.selection]? with
  | none => (none, app)
  | some entry =>
      let path := join app.path entry.name
      if entry.isDir then (none, apps.navigate path app disk)
      else if isElf entry.name then (some (.runTerminal path), app)
      else if isRaw entry.name then ((apps.readFile path disk).map (.openImage path), app)
      else if isText entry.name then ((apps.readFile path disk).map (.openText path), app)
      else (none, app)

def handleKey (apps : Apps Contents Disk) (app : FileExplorer Contents) (event : Event)
    (disk : Disk) : Option FsAction × FileExplorer Contents × Disk :=
  if app.editing then
    let (app, disk) := apps.renameKey event app disk
    (none, app, disk)
  else if event = Event.enter then
    let (action, app) := app.openSelected apps disk
    (action, app, disk)
  else
    let (app, disk) := apps.browseKey event app disk
    (none, app, disk)

end FileExplorer

inductive AppKind (Contents : Type) where
  | terminal (cols rows : UInt64) (contents : Contents)
  | sysInfo (cols rows : UInt64) (contents : Contents)
  | editor (cols rows : UInt64) (contents : Contents)
  | calculator (contents : Contents)
  | fileExplorer (app : FileExplorer Contents)
  | settings (app : SettingsApp)
  | paint (contents : Contents)
  | imageViewer (contents : Contents)

namespace AppKind

def tag : AppKind Contents → AppId
  | .terminal .. => .terminal
  | .sysInfo .. => .sysInfo
  | .editor .. => .notepad
  | .calculator _ => .calculator
  | .fileExplorer _ => .files
  | .settings _ => .settings
  | .paint _ => .paint
  | .imageViewer _ => .imageViewer

def colsRows : AppKind Contents → UInt64 × UInt64
  | .terminal cols rows _ | .sysInfo cols rows _ | .editor cols rows _ => (cols, rows)
  | .calculator _ | .fileExplorer _ | .settings _ | .paint _ | .imageViewer _ => (0, 0)

def contentSize (kind : AppKind Contents) (display : Display) : UInt32 × UInt32 :=
  match kind with
  | .terminal cols rows _ | .sysInfo cols rows _ | .editor cols rows _ =>
      ((cols * display.glyphW).toUInt32, (rows * display.glyphH).toUInt32)
  | .calculator _ => (60 * 4, 60 + 60 * 4)
  | .fileExplorer _ => (700, 440)
  | .settings _ => (settingsWidth, display.windowHeight)
  | .paint _ => (320, 240 + 40)
  | .imageViewer _ => (640, 480)

/-- `build_sysinfo_console`: always the same cells. -/
def buildSysinfo (apps : Apps Contents Disk) (disk : Disk) : AppKind Contents :=
  .sysInfo 38 16 (apps.fresh .sysInfo 38 16 disk)

def resize (apps : Apps Contents Disk) (disk : Disk) (cols rows : UInt64) :
    AppKind Contents → AppKind Contents
  | .terminal _ _ contents => .terminal cols rows (apps.resized .terminal cols rows contents)
  | .editor _ _ contents => .editor cols rows (apps.resized .notepad cols rows contents)
  | .sysInfo _ _ _ => buildSysinfo apps disk
  | kind => kind

def takesKeys : AppKind Contents → Bool
  | .terminal .. | .editor .. | .fileExplorer _ | .paint _ | .imageViewer _ => true
  | .settings _ | .sysInfo .. | .calculator _ => false

def handleKey (apps : Apps Contents Disk) (event : Event) (kind : AppKind Contents) (disk : Disk) :
    Option FsAction × AppKind Contents × Disk :=
  match kind with
  | .terminal cols rows contents =>
      let (contents, disk) := apps.key .terminal event contents disk
      (none, .terminal cols rows contents, disk)
  | .editor cols rows contents =>
      let (contents, disk) := apps.key .notepad event contents disk
      (none, .editor cols rows contents, disk)
  | .fileExplorer app =>
      let (action, app, disk) := app.handleKey apps event disk
      (action, .fileExplorer app, disk)
  | .settings app => (none, .settings app, disk)
  | .paint contents =>
      let (contents, disk) := apps.key .paint event contents disk
      (none, .paint contents, disk)
  | .imageViewer contents =>
      let (contents, disk) := apps.key .imageViewer event contents disk
      (none, .imageViewer contents, disk)
  | .sysInfo cols rows contents => (none, .sysInfo cols rows contents, disk)
  | .calculator contents => (none, .calculator contents, disk)

structure Clicked (Contents Disk : Type) where
  action : Option FsAction
  item : Option Nat
  change : SettingsChange
  kind : AppKind Contents
  disk : Disk

def handleClick (apps : Apps Contents Disk) (display : Display) (x y : Int32)
    (kind : AppKind Contents) (disk : Disk) : Clicked Contents Disk :=
  match kind with
  | .calculator contents =>
      let (contents, disk) := apps.click .calculator x y contents disk
      ⟨none, none, .none, .calculator contents, disk⟩
  | .fileExplorer app =>
      let item := apps.itemAt x y app
      let (action, app, disk) := apps.explorerClick x y app disk
      let (item, app) := apps.dragCandidate item app
      ⟨action, item, .none, .fileExplorer app, disk⟩
  | .settings app =>
      let (change, app, disk) := app.handleClick apps.saveSettings display x y disk
      ⟨none, none, change, .settings app, disk⟩
  | .paint contents =>
      let (contents, disk) := apps.click .paint x y contents disk
      ⟨none, none, .none, .paint contents, disk⟩
  | .imageViewer contents =>
      let (contents, disk) := apps.click .imageViewer x y contents disk
      ⟨none, none, .none, .imageViewer contents, disk⟩
  | kind => ⟨none, none, .none, kind, disk⟩

end AppKind

structure Window (Contents : Type) where
  title : Text
  x : Int32
  y : Int32
  isOpen : Bool
  minimized : Bool
  maximized : Bool
  resizable : Bool
  appId : Option AppId
  restoreGeometry : Option (Int32 × Int32 × UInt64 × UInt64)
  kind : AppKind Contents
  serial : Nat

namespace Window

variable (win : Window Contents)

def visible : Bool := win.isOpen && !win.minimized

def resize (apps : Apps Contents Disk) (disk : Disk) (cols rows : UInt64) : Window Contents :=
  { win with kind := win.kind.resize apps disk cols rows }

def maximize (apps : Apps Contents Disk) (disk : Disk) (cells : UInt64 × UInt64) :
    Window Contents :=
  if !win.resizable || win.maximized then win
  else
    { win with
      restoreGeometry := some (win.x, win.y, win.kind.colsRows)
      x := 0
      y := 0
      maximized := true }.resize apps disk cells.1 cells.2

def unmaximize (apps : Apps Contents Disk) (disk : Disk) : Window Contents :=
  if !win.maximized then win
  else
    match win.restoreGeometry with
    | some (x, y, cols, rows) =>
        { win with maximized := false, restoreGeometry := none, x, y }.resize apps disk cols rows
    | none => { win with maximized := false, restoreGeometry := none }

/-- The parts of a window a click can hit, as `handle_click` tries them. -/
inductive Part where
  | grip
  | close
  | maximize
  | minimize
  | title
  | content
deriving DecidableEq, Repr

def titleButtonPositions (wx : Int32) (contentW : UInt32) (resizable : Bool) :
    Int32 × Option Int32 × Int32 :=
  let closeX := wx + contentW.toInt32 - titleBtnW.toInt32 - titleBtnMarginRight.toInt32
  let maximizeX :=
    if resizable then some (closeX - titleBtnW.toInt32 - titleBtnGap.toInt32) else none
  (maximizeX.getD closeX - titleBtnW.toInt32 - titleBtnGap.toInt32, maximizeX, closeX)

def gripHit (display : Display) (cx cy : Int32) : Bool :=
  let (contentW, contentH) := win.kind.contentSize display
  let gripX := win.x + contentW.toInt32 - resizeGripSize.toInt32
  let gripY := win.y + titleBarHeight.toInt32 + contentH.toInt32 - resizeGripSize.toInt32
  win.resizable && !win.maximized && within cx gripX resizeGripSize &&
    within cy gripY resizeGripSize

def titlePart (contentW : UInt32) (cx cy : Int32) : Part :=
  let (minimizeX, maximizeX, closeX) := titleButtonPositions win.x contentW win.resizable
  let inButtonRow := within cy (win.y + 2) titleBtnH
  if inButtonRow && within cx closeX titleBtnW then .close
  else if inButtonRow && maximizeX.any (fun maxX => within cx maxX titleBtnW) then .maximize
  else if inButtonRow && within cx minimizeX titleBtnW then .minimize
  else .title

def contentHit (display : Display) (cx cy : Int32) : Bool :=
  let (contentW, contentH) := win.kind.contentSize display
  within cx win.x contentW && within cy (win.y + titleBarHeight.toInt32) contentH

def partAt (display : Display) (cx cy : Int32) : Option Part :=
  if !win.visible then none
  else if win.gripHit display cx cy then some .grip
  else if within cx win.x (win.kind.contentSize display).1 &&
      within cy win.y titleBarHeight then
    some (win.titlePart (win.kind.contentSize display).1 cx cy)
  else if win.contentHit display cx cy then some .content
  else none

end Window

end Desktop

end MachaOS
