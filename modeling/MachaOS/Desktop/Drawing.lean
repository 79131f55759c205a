/-
What drawing the desktop computes: the differences in `draw_window`, `draw_taskbar` and `draw_launcher`
and in what they share, under the names of the functions.
-/

import MachaOS.Desktop.Arithmetic

namespace MachaOS

namespace Desktop

namespace Arithmetic

variable {Contents Disk : Type} (wm : WindowManager Contents Disk)

def drawAppIcon (size : UInt32) : List Operation :=
  [minus size wm.display.glyphW.toUInt32, minus size wm.display.glyphH.toUInt32]

def drawCloseIcon (x y s : UInt32) : List Operation :=
  [minus (x + s) 1, minus (y + s) 1, minus (x + s) 1, minus (y + s) 1]

def drawMinimizeIcon (y s : UInt32) : List Operation := [minus (y + s) 1]

def drawMaximizeIcon (x y s : UInt32) : List Operation := [minus (x + s) 2, minus (y + s) 2]

def drawRestoreIcon (x y s : UInt32) : List Operation :=
  let oy := y + 3
  [minus (y + s) 2, minus s 3, minus s 3, minus (x + s) 3, minus (x + s - 3) 2, minus s 3,
    minus (oy + s) 3, minus (oy + s - 3) 2, minus s 3]

def border (win : Window Contents) : List Operation :=
  if win.maximized then [] else [minus win.x.toUInt32 1, minus win.y.toUInt32 1]

def titleBar (y : UInt32) : List Operation :=
  [minus titleBarHeight wm.display.glyphH.toUInt32] ++ iconSize wm ++
    [minus titleBarHeight (wm.iconSize 16)] ++ drawAppIcon wm (wm.iconSize 16) ++
    [minus (y + titleBarHeight) 1]

def titleButtons (win : Window Contents) (contentW : UInt32) : List Operation :=
  let (_, maximizeX, closeX) :=
    Window.titleButtonPositions win.x contentW win.resizable
  let buttonY := win.y.toUInt32 + 2
  drawMinimizeIcon (buttonY + 8) 16 ++
    (match maximizeX with
      | none => []
      | some maxX =>
          let iconX := maxX.toUInt32 + 14
          if win.maximized then drawRestoreIcon iconX (buttonY + 8) 12
          else drawMaximizeIcon iconX (buttonY + 8) 12) ++
    drawCloseIcon (closeX.toUInt32 + 14) (buttonY + 9) 12

def grip (win : Window Contents) (contentW contentH : UInt32) : List Operation :=
  if win.resizable && !win.maximized then
    [minus (win.x.toUInt32 + contentW) resizeGripSize,
      minus (win.y.toUInt32 + titleBarHeight + contentH) resizeGripSize]
  else []

def drawWindow (win : Window Contents) : List Operation :=
  let (contentW, contentH) := win.kind.contentSize wm.display
  border win ++ titleBar wm win.y.toUInt32 ++ titleButtons win contentW ++
    grip win contentW contentH

/-- A number with at least two digits, as `{:02}` prints it. -/
def twoDigits (n : Nat) : Text :=
  List.replicate (2 - (Nat.toDigits 10 n).length) '0' ++ Nat.toDigits 10 n

/-- What the taskbar shows besides the windows: the time when the clock was refreshed, the seconds the
system was up then, and the counters of the background tasks. -/
structure Moment where
  hour : UInt8
  minute : UInt8
  secs : UInt64
  counters : UInt64 × UInt64 × UInt64

def Moment.clock (moment : Moment) : Text :=
  twoDigits moment.hour.toNat ++ ':' :: twoDigits moment.minute.toNat ++ "  up ".toList ++
    twoDigits (moment.secs.toNat / 60) ++ ':' :: twoDigits (moment.secs.toNat % 60)

def Moment.tasks (moment : Moment) : Text :=
  "bg: ".toList ++ Nat.toDigits 10 moment.counters.1.toNat ++ ' ' ::
    Nat.toDigits 10 moment.counters.2.1.toNat ++ ' ' :: Nat.toDigits 10 moment.counters.2.2.toNat

def textWidth (text : Text) : UInt32 :=
  (UInt64.ofNat (Shell.byteLength text) * wm.display.glyphW).toUInt32

def startButton : List Operation :=
  let pane := 4 + wm.display.fontScale.toUInt32 * 2
  let logo := 2 * pane + 2
  [minus WindowManager.startBtnW logo, minus WindowManager.startBtnH logo]

def taskbarButton : List Operation :=
  iconSize wm ++ [minus WindowManager.startBtnH (wm.iconSize 16)] ++
    drawAppIcon wm (wm.iconSize 16) ++
    [minus WindowManager.startBtnH wm.display.glyphH.toUInt32]

def tray (moment : Moment) : List Operation :=
  let clockW := textWidth wm moment.clock
  let clockX := wm.screenW - clockW - 12
  let tasksW := textWidth wm moment.tasks
  let tasksX := clockX - tasksW - 16
  [minus wm.screenW clockW, minus (wm.screenW - clockW) 12,
    minus taskbarHeight wm.display.glyphH.toUInt32] ++
    if wm.settings.showBgTasks then
      [minus clockX tasksW, minus (clockX - tasksW) 16,
        minus taskbarHeight wm.display.glyphH.toUInt32, minus tasksX 9, minus taskbarHeight 12]
    else []

def drawTaskbar (moment : Moment) : List Operation :=
  [minus wm.screenH taskbarHeight] ++ taskbarLayout wm ++ taskbarLayout wm ++ startButton wm ++
    wm.taskbarLayout.flatMap (fun _ => taskbarButton wm) ++ tray wm moment

def launcherIcon : UInt32 := 56

def truncateLabel (label : Text) (maxChars : Nat) : Text :=
  if maxChars < label.length then label.take (maxChars - 1) ++ "..".toList else label

def tile (label : Text) : List Operation :=
  [minus WindowManager.launcherTileW launcherIcon,
    minus launcherIcon wm.display.glyphW.toUInt32, minus launcherIcon wm.display.glyphH.toUInt32] ++
    (if 10 < label.length then [.sub 10 1] else []) ++
    [minus WindowManager.launcherTileW
      (UInt32.ofNat (Shell.byteLength (truncateLabel label 10)) * wm.display.glyphW.toUInt32)]

def drawLauncher : List Operation :=
  let (px, py, pw, _) := wm.launcherPopupRect
  launcherPopupRect wm ++
    [minus px.toUInt32 1, minus py.toUInt32 1, minus pw 32, minus 28 wm.display.glyphH.toUInt32] ++
    wm.launcherItems.flatMap (fun item => tile wm item.1)

end Arithmetic

end Desktop

end MachaOS
