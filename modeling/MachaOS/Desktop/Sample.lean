/-
A small machine to run the desktop on: a disk that keeps texts and one folder, apps that keep the
keys typed into them, and the mouse strokes that reach the start menu.
-/

import MachaOS.Desktop.Events

namespace MachaOS

namespace Desktop

namespace Sample

open Keyboard

structure Disk where
  settings : Settings
  home : List (Text × List UInt8)
  texts : List (Text × Text)
deriving DecidableEq, Repr

def homePath : Text := "/users/macha".toList

def listDir (path : Text) (disk : Disk) : Option (List DirEntry) :=
  if path = homePath then some (disk.home.map (fun file => ⟨file.1, false⟩)) else none

def browse (path : Text) (disk : Disk) (rest : List Event) : FileExplorer (List Event) :=
  { path, entries := (listDir path disk).getD [], selection := 0, editing := false, rest }

def apps : Apps (List Event) Disk where
  fresh _ _ _ _ := []
  resized _ _ _ contents := contents
  key _ event contents disk := (contents ++ [event], disk)
  click _ _ _ contents disk := (contents, disk)
  prompt contents := contents
  run _ contents disk := (contents, disk)
  document _ _ _ _ := []
  picture _ _ := []
  explorer disk := browse homePath disk []
  navigate path app disk := browse path disk app.rest
  renameKey event app disk := ({ app with rest := app.rest ++ [event] }, disk)
  browseKey event app disk := ({ app with rest := app.rest ++ [event] }, disk)
  explorerClick _ _ app disk := (none, app, disk)
  itemAt _ _ _ := none
  dragCandidate item app := (item, app)
  setDrag _ app := app
  drop _ _ _ _ app disk := (false, app, disk)
  refreshNow app disk := { app with entries := (listDir app.path disk).getD [] }
  loadSettings disk := disk.settings
  saveSettings settings disk := { disk with settings }
  readFile path disk := (disk.home.find? (fun file => join homePath file.1 = path)).map Prod.snd
  listDir := listDir
  writeText path text disk :=
    { disk with texts := (path, text) :: disk.texts.filter (fun file => file.1 ≠ path) }
  readText path disk := (disk.texts.find? (fun file => file.1 = path)).map Prod.snd

def display : Display := { fontScale := 1, physical := (1920, 1080) }

def settings : Settings :=
  { accentColor := "blue".toList
    wallpaper := true
    showBgTasks := true
    resolution := some (800, 600)
    fontScalePercent := 100 }

def disk (session : Option Text) : Disk :=
  { settings
    home := [("notes.txt".toList, [104, 105])]
    texts := session.toList.map (fun text => (Session.path, text)) }

def boot (session : Option Text) : WindowManager (List Event) Disk :=
  WindowManager.new apps 800 600 display (disk session)

open WindowManager (Input)

def click (dx dy : Int32) : List Input := [.mouse ⟨dx, dy, true⟩, .mouse ⟨0, 0, false⟩]

def clickAt (x y : Int32) : List Input := .mouse ⟨-10000, -10000, false⟩ :: click x y

def launch (column row : Int32) : List Input :=
  clickAt 20 570 ++ clickAt (50 + column * 92) (380 + row * 84)

/-- A maximized terminal, a minimized notepad, and a calculator to be closed. -/
def mixedSession : Text :=
  ("window terminal 0 0 0 0 0 1\nwindow notepad 120 90 50 20 1 0\n" ++
    "window calculator 300 150 0 0 0 0\nremembered settings 60 60 0 0 0\n").toList

def closeLast : List Input := clickAt 510 165

end Sample

end Desktop

end MachaOS
