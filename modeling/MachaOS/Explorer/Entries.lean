/-
The parts of the file explorer that no state decides: entries and their order, paths, and the layout
of the bars.

Coordinates are relative to the window's content; the sums and products of the layout stay far below
the range of `u32` and are taken as natural numbers.
-/

import MachaOS.Desktop.Session

namespace MachaOS

namespace Explorer

open Desktop (Text isElf isText isRaw join baseName FsAction)
open Desktop.Session (isWhitespace)
open Shell (byteLength)

def width : Nat := 700
def height : Nat := 440
def pathH : Nat := 24
def toolbarH : Nat := 26
def headerH : Nat := 24
def statusH : Nat := 16
def listY : Nat := pathH + toolbarH
def sidebarW : Nat := 128
def scrollbarW : Nat := 10
def listW : Nat := width - sidebarW - scrollbarW
def rowH : Nat := 18
def gridTileW : Nat := 88
def gridTileH : Nat := 54
def doubleClickTicks : Nat := 30
def deleteArmTicks : Nat := 120

def maxName : Nat := 128

structure DirEntry where
  name : Text
  isDir : Bool
  size : Nat
deriving DecidableEq, Repr

inductive View where
  | details
  | grid
deriving DecidableEq, Repr

inductive SortKey where
  | name
  | size
  | type
deriving DecidableEq, Repr

inductive ToolbarAction where
  | up
  | new
  | newFile
  | del
  | refresh
  | toggleView
deriving DecidableEq, Repr

def fileType (name : Text) : Text :=
  if isElf name then "ELF Program".toList
  else if isText name then "Text".toList
  else if isRaw name then "Image".toList
  else "File".toList

def decimal (n : Nat) : Text := Nat.toDigits 10 n

def fmtSize (bytes : Nat) : Text :=
  if 1024 * 1024 ≤ bytes then
    decimal (bytes / (1024 * 1024)) ++ '.' ::
      decimal (bytes % (1024 * 1024) * 10 / (1024 * 1024)) ++ " MiB".toList
  else if 1024 ≤ bytes then
    decimal (bytes / 1024) ++ '.' :: decimal (bytes % 1024 * 10 / 1024) ++ " KiB".toList
  else decimal bytes ++ " B".toList

/-- `str::cmp`: UTF-8 keeps the order of the characters. -/
def compareText (a b : Text) : Ordering := compare (a.map Char.toNat) (b.map Char.toNat)

/-- Whether `a` goes before `b`: folders first, then by the key. -/
def entryLess (lowercase : Text → Text) (key : SortKey) (asc : Bool) (a b : DirEntry) : Bool :=
  if a.isDir ≠ b.isDir then a.isDir
  else
    let order :=
      match key with
      | .name => compareText (lowercase a.name) (lowercase b.name)
      | .size => compare a.size b.size
      | .type => compareText (fileType a.name) (fileType b.name)
    if asc then order == .lt else order == .gt

/-- The entry at `j` moves left as long as it goes before the one ahead of it. -/
def bubble (less : DirEntry → DirEntry → Bool) : Nat → List DirEntry → List DirEntry
  | 0, entries => entries
  | j + 1, entries =>
      match entries[j]?, entries[j + 1]? with
      | some ahead, some entry =>
          if less entry ahead then bubble less j ((entries.set j entry).set (j + 1) ahead)
          else entries
      | _, _ => entries

def sortEntries (lowercase : Text → Text) (key : SortKey) (asc : Bool)
    (entries : List DirEntry) : List DirEntry :=
  (List.range' 1 (entries.length - 1)).foldl
    (fun sorted i => bubble (entryLess lowercase key asc) i sorted) entries

def parentPath (path : Text) : Text :=
  let before := ((path.reverse.dropWhile (· ≠ '/')).drop 1).reverse
  if path = ['/'] ∨ before = [] then ['/'] else before

structure Crumb where
  x : Nat
  w : Nat
  label : Text
  path : Text
deriving DecidableEq, Repr

def pathSegments (path : Text) : List (Text × Text) :=
  let names := (path.splitOn '/').filter (· ≠ [])
  let below := names.foldl
    (fun (segs, acc) name =>
      let acc := acc ++ '/' :: name
      (segs ++ [(name, acc)], acc)) (([], []) : List (Text × Text) × Text)
  (['/'], ['/']) :: below.1

def crumbWidth (glyphW : Nat) (label : Text) : Nat := byteLength label * glyphW + 16

def fittingSegments (glyphW maxW : Nat) : List (Text × Text) → List (Text × Text)
  | first :: second :: third :: rest =>
      let segs := first :: second :: third :: rest
      if (segs.map (fun seg => crumbWidth glyphW seg.1)).sum ≤ maxW then segs
      else fittingSegments glyphW maxW (second :: third :: rest)
  | few => few

def placeCrumbs (glyphW : Nat) : Nat → List (Text × Text) → List Crumb
  | _, [] => []
  | x, (label, path) :: rest =>
      let w := crumbWidth glyphW label
      { x, w, label, path } :: placeCrumbs glyphW (x + w + 2) rest

def crumbLayout (glyphW : Nat) (path : Text) (maxW : Nat) : List Crumb :=
  let segs := pathSegments path
  let fitting := fittingSegments glyphW maxW segs
  if fitting.length < segs.length then
    { x := 6, w := 24, label := "...".toList, path := ['/'] } :: placeCrumbs glyphW 36 fitting
  else placeCrumbs glyphW 6 fitting

def toolbarButtonRect : ToolbarAction → Nat × Nat
  | .up => (6, 48)
  | .new => (58, 48)
  | .newFile => (110, 48)
  | .del => (162, 48)
  | .refresh => (214, 64)
  | .toggleView => (width - 76, 70)

def toolbarButtonAt (x : Nat) : Option ToolbarAction :=
  [ToolbarAction.up, .new, .newFile, .del, .refresh, .toggleView].find? (fun action =>
    let (bx, bw) := toolbarButtonRect action
    decide (bx ≤ x ∧ x < bx + bw))

def detailsColumns : (Nat × Nat) × (Nat × Nat) × (Nat × Nat) :=
  ((sidebarW, 320), (320, 460), (460, sidebarW + listW))

structure SidebarEntry where
  label : Text
  target : Text
deriving DecidableEq, Repr

def buildSidebar (home : Text) : List SidebarEntry :=
  [⟨"QUICK ACCESS".toList, []⟩, ⟨"Home".toList, home⟩,
    ⟨"Desktop".toList, home ++ "/Desktop".toList⟩,
    ⟨"Documents".toList, home ++ "/Documents".toList⟩,
    ⟨"Downloads".toList, home ++ "/Downloads".toList⟩,
    ⟨"Pictures".toList, home ++ "/Pictures".toList⟩,
    ⟨"Music".toList, home ++ "/Music".toList⟩,
    ⟨[], []⟩,
    ⟨"SYSTEM".toList, []⟩,
    ⟨"Applications".toList, "/bin".toList⟩,
    ⟨"System".toList, "/system".toList⟩,
    ⟨"Users".toList, "/users".toList⟩]

/-- The folder of the sidebar at a height, where the next entry begins at `top`. -/
def sidebarItemFrom (y : Nat) : Nat → List SidebarEntry → Option Text
  | _, [] => none
  | top, entry :: rest =>
      if entry.target = [] then sidebarItemFrom y (top + 14) rest
      else if top ≤ y ∧ y < top + 16 then some entry.target
      else sidebarItemFrom y (top + 18) rest

def sidebarItemAt (sidebar : List SidebarEntry) (y : Nat) : Option Text :=
  sidebarItemFrom y (listY + 6) sidebar

end Explorer

end MachaOS
