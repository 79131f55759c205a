/-
The file explorer: its state, what the operations do to it and to the disk, and which operation a
key or a click calls.

`handle_key` and `handle_click` are split in two: `Command` names the operation they call, `perform`
calls it.  What is painted is left out, and with it the cursor, the free space and the file that is
dragged, which only the painting reads.
-/

import MachaOS.Explorer.Entries

namespace MachaOS

namespace Explorer

open Desktop (Text isElf isText isRaw join baseName FsAction)
open Desktop.Session (isWhitespace)
open Keyboard (Event)
open Shell (byteLength)

structure RenameState where
  item : Nat
  buf : Text
  cursor : Nat
  selectAll : Bool
deriving DecidableEq, Repr

structure FileExplorer where
  path : Text
  entries : List DirEntry
  selection : Nat
  scroll : Nat
  view : View
  sort : SortKey
  sortAsc : Bool
  lastClickItem : Nat
  lastClickTicks : Nat
  lastClickWasDouble : Bool
  pendingDelete : Option (Nat × Nat)
  rename : Option RenameState
  status : Text
  sidebar : List SidebarEntry
deriving DecidableEq, Repr

/-- The rest of the system, as the explorer uses it: the file system, whose failures come with their
text, the user's home and the Unicode case mapping. -/
structure System (Disk : Type) where
  listDir : Text → Disk → Except Text (List DirEntry)
  readFile : Text → Disk → Except Text (List UInt8)
  remove : Text → Disk → Except Text Unit × Disk
  rename : Text → Text → Disk → Except Text Unit × Disk
  makeDir : Text → Disk → Except Text Unit × Disk
  writeFile : Text → List UInt8 → Disk → Except Text Unit × Disk
  moveFile : Text → Text → Disk → Except Text Unit × Disk
  home : Text
  lowercase : Text → Text

structure Moment (Disk : Type) where
  ticks : Nat
  glyphW : Nat
  disk : Disk

inductive Command where
  | nothing
  | navigate (path : Text)
  | createFolder
  | createFile
  | deleteSelected
  | refresh
  | toggleView
  | toggleSort (key : SortKey)
  | scrollClick (y : Nat)
  | selectItem (item : Nat)
  | moveSelection (delta : Int)
  | openSelected
  | startRename
  | renameKey (event : Event)
deriving DecidableEq, Repr

variable {Disk : Type}

namespace FileExplorer

def detailsVisibleRows : Nat := (height - statusH - listY - headerH) / rowH

def gridVisibleRows : Nat := (height - statusH - listY) / gridTileH

def gridCols : Nat := max (listW / gridTileW) 1

def visibleItems (app : FileExplorer) : Nat :=
  match app.view with
  | .details => detailsVisibleRows
  | .grid => gridVisibleRows * gridCols

def ensureSelectionVisible (app : FileExplorer) : FileExplorer :=
  let visible := app.visibleItems
  let maxScroll := app.entries.length - visible
  let scroll :=
    if app.selection < app.scroll then app.selection
    else if app.scroll + visible ≤ app.selection then app.selection + 1 - visible
    else app.scroll
  { app with scroll := min scroll maxScroll }

def itemAt (app : FileExplorer) (x y : Int) : Option Nat :=
  if x < sidebarW ∨ (sidebarW + listW : Nat) ≤ x ∨ y < listY then none
  else
    let item :=
      match app.view with
      | .details =>
          if y < (listY + headerH : Nat) then none
          else some (app.scroll + (y.toNat - listY - headerH) / rowH)
      | .grid =>
          let col := (x.toNat - sidebarW) / gridTileW
          let row := (y.toNat - listY) / gridTileH
          some (app.scroll + row * gridCols + col)
    item.filter (fun item => item < app.entries.length)

def entryPath (app : FileExplorer) (item : Nat) : Option (Text × Bool) :=
  app.entries[item]?.map (fun entry => (join app.path entry.name, entry.isDir))

def dragCandidate (app : FileExplorer) (item : Option Nat) : Option Nat × FileExplorer :=
  (if app.lastClickWasDouble then none else item,
    { app with lastClickWasDouble := false })

section Operations

variable (sys : System Disk) (moment : Moment Disk)

def listing (disk : Disk) (app : FileExplorer) : List DirEntry :=
  match sys.listDir app.path disk with
  | .ok entries => sortEntries sys.lowercase app.sort app.sortAsc entries
  | .error _ => []

def refreshStatus (disk : Disk) (app : FileExplorer) : Text :=
  match sys.listDir app.path disk with
  | .ok _ => app.status
  | .error e => "cannot read ".toList ++ app.path ++ ": ".toList ++ e

def refresh (disk : Disk) (app : FileExplorer) : FileExplorer :=
  let entries := app.listing sys disk
  { app with
    entries
    status := app.refreshStatus sys disk
    selection := if entries.length ≤ app.selection then 0 else app.selection
    scroll := min app.scroll (entries.length - app.visibleItems)
    sidebar := buildSidebar sys.home }

def navigate (disk : Disk) (path : Text) (app : FileExplorer) : FileExplorer :=
  refresh sys disk
    { app with
      path, selection := 0, scroll := 0, pendingDelete := none, rename := none, status := [] }

def new (disk : Disk) : FileExplorer :=
  { path := sys.home, entries := [], selection := 0, scroll := 0, view := .details
    sort := .name, sortAsc := true, lastClickItem := 2 ^ 64 - 1, lastClickTicks := 0
    lastClickWasDouble := false, pendingDelete := none, rename := none, status := []
    sidebar := [] : FileExplorer }.navigate sys disk sys.home

def moveSelection (delta : Int) (app : FileExplorer) : FileExplorer :=
  if app.entries = [] then app
  else
    let selection :=
      if delta < 0 then app.selection - (-delta).toNat
      else min (app.selection + delta.toNat) (app.entries.length - 1)
    { app with selection }.ensureSelectionVisible

def openContent (action : Text → List UInt8 → FsAction) (path name : Text)
    (app : FileExplorer) : Option FsAction × FileExplorer :=
  match sys.readFile path moment.disk with
  | .ok content =>
      (some (action path content),
        { app with
          status := "opened ".toList ++ name ++ " (".toList ++ decimal content.length ++
            " bytes)".toList })
  | .error e =>
      (none, { app with status := "cannot read ".toList ++ name ++ ": ".toList ++ e })

def openSelected (app : FileExplorer) : Option FsAction × FileExplorer :=
  match app.entries[app.selection]? with
  | none => (none, app)
  | some entry =>
      let path := join app.path entry.name
      if entry.isDir then (none, app.navigate sys moment.disk path)
      else if isElf entry.name then
        (some (.runTerminal path), { app with status := "launching ".toList ++ entry.name })
      else if isRaw entry.name then openContent sys moment .openImage path entry.name app
      else if isText entry.name then openContent sys moment .openText path entry.name app
      else
        (none,
          { app with
            status := entry.name ++ ": no viewer (".toList ++ fmtSize entry.size ++ [')'] })

def confirms (app : FileExplorer) (now : Nat) : Bool :=
  match app.pendingDelete with
  | some (armSel, armTick) =>
      decide (armSel = app.selection ∧ now - armTick ≤ deleteArmTicks)
  | none => false

def deleteSelected (app : FileExplorer) : FileExplorer × Disk :=
  match app.entries[app.selection]? with
  | none => (app, moment.disk)
  | some entry =>
      if app.confirms moment.ticks then
        let app := { app with pendingDelete := none }
        match sys.remove (join app.path entry.name) moment.disk with
        | (.ok _, disk) =>
            (refresh sys disk { app with status := "deleted ".toList ++ entry.name }, disk)
        | (.error e, disk) =>
            ({ app with status := "delete failed: ".toList ++ e }, disk)
      else
        ({ app with
            pendingDelete := some (app.selection, moment.ticks)
            status := "delete ".toList ++ entry.name ++ "? press Del again to confirm".toList },
          moment.disk)

def selectNamed (name : Text) (app : FileExplorer) : FileExplorer :=
  match app.entries.findIdx? (fun entry => entry.name = name) with
  | some pos => { app with selection := pos }.ensureSelectionVisible
  | none => app

/-- The first name of a numbered series, from `i` on, that no entry has in any case. -/
def freeName (lowercase : Text → Text) (taken : List Text) (numbered : Nat → Text) :
    Nat → Nat → Text → Text
  | 0, _, name => name
  | left + 1, i, name =>
      if lowercase name ∈ taken then freeName lowercase taken numbered left (i + 1) (numbered i)
      else name

def takenNames (app : FileExplorer) : List Text :=
  app.entries.map (fun entry => sys.lowercase entry.name)

def folderName (app : FileExplorer) : Text :=
  freeName sys.lowercase (app.takenNames sys)
    (fun i => "New Folder (".toList ++ decimal i ++ [')']) 98 2 "New Folder".toList

def fileName (app : FileExplorer) : Text :=
  freeName sys.lowercase (app.takenNames sys)
    (fun i => "New File (".toList ++ decimal i ++ ").txt".toList) 98 2 "New File.txt".toList

def created (name : Text) (app : FileExplorer) :
    Except Text Unit × Disk → FileExplorer × Disk
  | (.ok _, disk) =>
      ((refresh sys disk { app with status := "created ".toList ++ name }).selectNamed name,
        disk)
  | (.error e, disk) => ({ app with status := "create failed: ".toList ++ e }, disk)

def createFolder (app : FileExplorer) : FileExplorer × Disk :=
  let name := app.folderName sys
  app.created sys name (sys.makeDir (join app.path name) moment.disk)

def createFile (app : FileExplorer) : FileExplorer × Disk :=
  let name := app.fileName sys
  app.created sys name (sys.writeFile (join app.path name) [] moment.disk)

def startRename (app : FileExplorer) : FileExplorer :=
  match app.entries[app.selection]? with
  | none => app
  | some entry =>
      { app with
        rename := some
          { item := app.selection, buf := entry.name, cursor := entry.name.length
            selectAll := true }
        pendingDelete := none
        status := "rename ".toList ++ entry.name ++
          " — Enter to confirm, Esc to cancel".toList }

def trim (text : Text) : Text := Words.trim isWhitespace text

def commitRename (state : RenameState) (app : FileExplorer) : FileExplorer × Disk :=
  let app := { app with rename := none }
  let newName := trim state.buf
  match app.entries[state.item]? with
  | none => (app, moment.disk)
  | some entry =>
      if newName = [] ∨ entry.name = newName then (app, moment.disk)
      else
        match sys.rename (join app.path entry.name) newName moment.disk with
        | (.ok _, disk) =>
            ((refresh sys disk
                { app with
                  status := "renamed ".toList ++ entry.name ++ " to ".toList ++ newName }).selectNamed
              newName, disk)
        | (.error e, disk) => ({ app with status := "rename failed: ".toList ++ e }, disk)

def RenameState.edit (state : RenameState) : Event → RenameState
  | .backspace =>
      if state.selectAll then { state with selectAll := false, buf := [], cursor := 0 }
      else if 0 < state.cursor then
        { state with buf := state.buf.eraseIdx (state.cursor - 1), cursor := state.cursor - 1 }
      else state
  | .left => { state with selectAll := false, cursor := state.cursor - 1 }
  | .right =>
      if state.cursor < state.buf.length then
        { state with selectAll := false, cursor := state.cursor + 1 }
      else { state with selectAll := false }
  | .char c =>
      if c = '/' ∨ c = '\\' ∨ c.toNat < 0x20 ∨ c.toNat = 0x7F then state
      else
        let state := if state.selectAll then { state with selectAll := false, buf := [], cursor := 0 }
          else state
        if maxName ≤ byteLength state.buf then state
        else { state with buf := state.buf.insertIdx state.cursor c, cursor := state.cursor + 1 }
  | _ => state

def renameKey (event : Event) (app : FileExplorer) : FileExplorer × Disk :=
  match app.rename with
  | none => (app, moment.disk)
  | some state =>
      match event with
      | .escape => ({ app with rename := none }, moment.disk)
      | .enter => app.commitRename sys moment state
      | event => ({ app with rename := some (RenameState.edit state event) }, moment.disk)

def toggleView (app : FileExplorer) : FileExplorer :=
  let app :=
    { app with view := match app.view with | .details => .grid | .grid => .details }
  { app with
    scroll := min app.scroll
      (app.entries.length - app.visibleItems) }.ensureSelectionVisible

def toggled (key : SortKey) (app : FileExplorer) : FileExplorer :=
  if app.sort = key then { app with sortAsc := !app.sortAsc }
  else { app with sort := key, sortAsc := true }

def toggleSort (key : SortKey) (app : FileExplorer) : FileExplorer :=
  (app.toggled key).refresh sys moment.disk

def scrollClick (y : Nat) (app : FileExplorer) : FileExplorer :=
  let visible := app.visibleItems
  let maxScroll := app.entries.length - visible
  if maxScroll = 0 then app
  else
    let trackH := height - statusH - listY
    let thumbH := max (trackH * visible / app.entries.length) 12
    let thumbY := listY + (trackH - thumbH) * app.scroll / maxScroll
    let page := max (visible / 2) 1
    if y < thumbY then { app with scroll := app.scroll - page }
    else if thumbY + thumbH ≤ y then
      { app with scroll := min (app.scroll + page) maxScroll }
    else app

def selectItem (item : Nat) (app : FileExplorer) : Option FsAction × FileExplorer :=
  match app.entries[item]? with
  | none => (none, { app with pendingDelete := none })
  | some entry =>
      let isDouble := decide (app.lastClickItem = item ∧
        moment.ticks - app.lastClickTicks ≤ doubleClickTicks)
      let app :=
        { { app with
            lastClickWasDouble := isDouble
            lastClickItem := item
            lastClickTicks := moment.ticks
            selection := item }.ensureSelectionVisible with pendingDelete := none }
      if isDouble then app.openSelected sys moment
      else
        let status :=
          if entry.isDir then entry.name ++ " (folder)".toList
          else entry.name ++ " · ".toList ++ fmtSize entry.size
        (none, { app with status })

def perform (app : FileExplorer) : Command → Option FsAction × FileExplorer × Disk
  | .nothing => (none, app, moment.disk)
  | .navigate path => (none, app.navigate sys moment.disk path, moment.disk)
  | .createFolder => (none, app.createFolder sys moment)
  | .createFile => (none, app.createFile sys moment)
  | .deleteSelected => (none, app.deleteSelected sys moment)
  | .refresh => (none, refresh sys moment.disk { app with status := [] }, moment.disk)
  | .toggleView => (none, app.toggleView, moment.disk)
  | .toggleSort key => (none, app.toggleSort sys moment key, moment.disk)
  | .scrollClick y => (none, app.scrollClick y, moment.disk)
  | .selectItem item =>
      let (action, app) := app.selectItem sys moment item
      (action, app, moment.disk)
  | .moveSelection delta => (none, app.moveSelection delta, moment.disk)
  | .openSelected =>
      let (action, app) := app.openSelected sys moment
      (action, app, moment.disk)
  | .startRename => (none, app.startRename, moment.disk)
  | .renameKey event => (none, app.renameKey sys moment event)

end Operations

def keyCommand (app : FileExplorer) (event : Event) : Command :=
  if app.rename.isSome then .renameKey event
  else
    match event with
    | .up => .moveSelection (-1)
    | .down => .moveSelection 1
    | .left => if app.view = .grid then .moveSelection (-gridCols) else .nothing
    | .right => if app.view = .grid then .moveSelection gridCols else .nothing
    | .enter => .openSelected
    | .backspace => .navigate (parentPath app.path)
    | .char 'd' => .deleteSelected
    | .char 'r' => .refresh
    | .char 'n' => .createFolder
    | .char 'f' => .createFile
    | .char 'v' => .toggleView
    | .f2 => .startRename
    | .char _ | .ctrl _ | .tab | .escape => .nothing

def clickBreadcrumb (glyphW : Nat) (app : FileExplorer) (x : Nat) : Command :=
  match (crumbLayout glyphW app.path (listW - 6)).find? (fun crumb =>
      decide (crumb.x ≤ x ∧ x < crumb.x + crumb.w)) with
  | some crumb => .navigate crumb.path
  | none => .nothing

def clickToolbar (app : FileExplorer) (x : Nat) : Command :=
  match toolbarButtonAt x with
  | some .up => .navigate (parentPath app.path)
  | some .new => .createFolder
  | some .newFile => .createFile
  | some .del => .deleteSelected
  | some .refresh => .refresh
  | some .toggleView => .toggleView
  | none => .nothing

def clickSidebar (app : FileExplorer) (y : Nat) : Command :=
  match sidebarItemAt app.sidebar y with
  | some target => .navigate target
  | none => .nothing

def clickDetails (app : FileExplorer) (x y : Nat) : Command :=
  if y < listY + headerH then
    let (nx, sx, tx) := detailsColumns
    if nx.1 ≤ x ∧ x < nx.2 then .toggleSort .name
    else if sx.1 ≤ x ∧ x < sx.2 then .toggleSort .size
    else if tx.1 ≤ x ∧ x < tx.2 then .toggleSort .type
    else .nothing
  else .selectItem ((y - listY - headerH) / rowH + app.scroll)

def clickGrid (app : FileExplorer) (x y : Nat) : Command :=
  let col := (x - sidebarW) / gridTileW
  let row := (y - listY) / gridTileH
  .selectItem (app.scroll + row * gridCols + col)

def clickCommand (glyphW : Nat) (app : FileExplorer) (x y : Int) : Command :=
  if x < 0 ∨ y < 0 then .nothing
  else
    let x := x.toNat
    let y := y.toNat
    if y < pathH then app.clickBreadcrumb glyphW x
    else if y < listY then app.clickToolbar x
    else if height - statusH ≤ y then .nothing
    else if x < sidebarW then app.clickSidebar y
    else if sidebarW + listW ≤ x then .scrollClick y
    else
      match app.view with
      | .details => app.clickDetails x y
      | .grid => app.clickGrid x y

section Handlers

variable (sys : System Disk) (moment : Moment Disk)

def handleKey (event : Event) (app : FileExplorer) : Option FsAction × FileExplorer × Disk :=
  app.perform sys moment (app.keyCommand event)

def handleClick (x y : Int) (app : FileExplorer) : Option FsAction × FileExplorer × Disk :=
  let app := { app with rename := none, lastClickWasDouble := false }
  app.perform sys moment (app.clickCommand moment.glyphW x y)

def refreshNow (app : FileExplorer) : FileExplorer :=
  app.refresh sys moment.disk

def dropTargetAt (app : FileExplorer) (x y : Int) : Option Text :=
  if x < 0 ∨ y < 0 ∨ (height - statusH : Nat) ≤ y then none
  else if x < sidebarW then sidebarItemAt app.sidebar y.toNat
  else if (sidebarW + listW : Nat) ≤ x ∨ y < listY then none
  else
    match (app.itemAt x y).bind (fun item => app.entries[item]?) with
    | some entry => if entry.isDir then some (join app.path entry.name) else some app.path
    | none => some app.path

inductive Drop where
  | elsewhere
  | stays (target : Text)
  | moves (target : Text)
deriving DecidableEq, Repr

def dropAt (x y : Int) (src : Text) (isDir : Bool) (app : FileExplorer) : Drop :=
  match app.dropTargetAt x y with
  | none => .elsewhere
  | some target =>
      if target = parentPath src ∨ target = src ∨ (isDir ∧ (src ++ ['/']) <+: target) then
        .stays target
      else .moves target

/-- `false` is no place to drop at. -/
def handleDrop (x y : Int) (src : Text) (isDir : Bool) (app : FileExplorer) :
    Bool × FileExplorer × Disk :=
  let name := baseName src
  match app.dropAt x y src isDir with
  | .elsewhere => (false, app, moment.disk)
  | .stays target =>
      (true, { app with status := name ++ " is already in ".toList ++ target }, moment.disk)
  | .moves target =>
      match sys.moveFile src (join target name) moment.disk with
      | (.ok _, disk) =>
          (true,
            refresh sys disk
              { app with status := "moved ".toList ++ name ++ " to ".toList ++ target }, disk)
      | (.error e, disk) =>
          (true, { app with status := "move failed: ".toList ++ e }, disk)

end Handlers

end FileExplorer

end Explorer

end MachaOS
