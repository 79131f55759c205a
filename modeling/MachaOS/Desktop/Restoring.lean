/-
What a session brings back at the next boot: of each built-in app the lowest window that was open, put
on the screen, and the places of the apps that were closed.
-/

import MachaOS.Desktop.Fitting
import MachaOS.Desktop.Opening
import MachaOS.Desktop.Reach

namespace MachaOS

namespace Desktop

open List
open Keyboard

def lowest : List SessionWindow → List SessionWindow
  | [] => []
  | entry :: rest => entry :: (lowest rest).filter (fun other => other.app ≠ entry.app)

namespace WindowManager

open Window

variable {Contents Disk : Type} (apps : Apps Contents Disk) (wm : WindowManager Contents Disk)

/-- What an entry comes back as: a maximized window fills the screen, and any other is put on the
screen with the least number of cells or more, if it has cells. -/
def comesBack (entry : SessionWindow) : SessionWindow :=
  if entry.maximized then
    { entry with x := 0, y := 0, cols := wm.maxContentCells.1, rows := wm.maxContentCells.2 }
  else
    { entry with
      x := clamp entry.x 0 wm.maxX
      y := clamp entry.y 0 wm.maxY
      cols := if 0 < entry.cols then max entry.cols minCols else entry.cols
      rows := if 0 < entry.cols then max entry.rows minRows else entry.rows }

def Shut (id : AppId) : Prop :=
  ∀ win ∈ wm.windows, win.isOpen = true → win.appId ≠ some id

/-- Where a maximized window of a built-in app goes back to. -/
def goesBack (win : Window Contents) : Option (AppId × RememberedWindow) :=
  if win.isOpen && win.maximized then
    win.appId.bind (fun id => (geometryOf win).map (fun remembered => (id, remembered)))
  else none

/-- The same windows of built-in apps in the same order, the same places of closed apps, and the same
places for maximized windows to go back to. -/
structure Restored (wm next : WindowManager Contents Disk) : Prop where
  windows : next.sessionData.windows = wm.sessionData.windows
  remembered : ∀ id, wm.Shut id → next.remembered id = wm.remembered id
  before : next.windows.filterMap goesBack = wm.windows.filterMap goesBack

/-- The lowest window of each built-in app, in the same order, and the same places of closed apps. -/
structure LowestRestored (wm next : WindowManager Contents Disk) : Prop where
  windows : next.sessionData.windows = (lowest wm.sessionData.windows).map wm.comesBack
  remembered : ∀ id, wm.Shut id → next.remembered id = wm.remembered id

def nextBoot : WindowManager Contents Disk :=
  new apps wm.screenW wm.screenH wm.display (wm.persistSession apps).disk

variable {apps wm} {next : WindowManager Contents Disk}

theorem fromName_name (id : AppId) : AppId.fromName id.name = some id := by
  cases id <;> decide

variable {id : AppId}

theorem name_injective {other : AppId} (same : id.name = other.name) : id = other := by
  have found := fromName_name id
  rw [same, fromName_name] at found
  exact (Option.some.inj found).symm

theorem name_isWord (id : AppId) : Words.IsWord Session.isWhitespace id.name := by
  apply Words.isWord_of_all
  · cases id <;> decide
  · cases id <;> decide

structure Storable (entry : SessionWindow) (id : AppId) : Prop where
  app : entry.app = id.name
  maximized : entry.maximized = true → resizableApp id = true
  celled : entry.maximized = false → Celled id (entry.cols, entry.rows)

variable {entry : SessionWindow} {win : Window Contents}

theorem sessionWindow_eq_some (kept : sessionWindow win = some entry) :
    win.isOpen = true ∧ ∃ id, win.appId = some id ∧
      entry = ⟨id.name, win.x, win.y, win.kind.colsRows.1, win.kind.colsRows.2,
        win.minimized, win.maximized⟩ := by
  unfold sessionWindow at kept
  split at kept
  · cases kept
  · rename_i isOpen
    obtain ⟨id, isApp, rfl⟩ := Option.map_eq_some_iff.mp kept
    rw [Bool.not_eq_true, Bool.not_eq_false'] at isOpen
    exact ⟨isOpen, id, isApp, rfl⟩

theorem sessionWindow_open {win : Window Contents} {entry : SessionWindow} {id : AppId}
    (isOpen : win.isOpen = true) (isApp : win.appId = some id) (app : entry.app = id.name)
    (place : win.x = entry.x ∧ win.y = entry.y)
    (cells : win.kind.colsRows = (entry.cols, entry.rows))
    (flags : win.minimized = entry.minimized ∧ win.maximized = entry.maximized) :
    sessionWindow win = some entry := by
  unfold sessionWindow
  rw [isOpen, isApp, place.1, place.2, cells, flags.1, flags.2]
  change some (SessionWindow.mk id.name entry.x entry.y entry.cols entry.rows entry.minimized
    entry.maximized) = some entry
  rw [← app]

theorem storable_of_fitted (fitted : win.Fitted) (kept : sessionWindow win = some entry) :
    ∃ id, Storable entry id := by
  obtain ⟨-, id, isApp, rfl⟩ := sessionWindow_eq_some kept
  obtain ⟨tag, resizable⟩ := fitted.app id isApp
  refine ⟨id, rfl, ?_, ?_⟩
  · intro full
    rw [← resizable]
    exact (fitted.maximized full).1
  · intro small
    rw [← tag]
    exact fitted.celled small

theorem shut_iff (id : AppId) :
    wm.Shut id ↔ ∀ entry ∈ wm.sessionData.windows, entry.app ≠ id.name := by
  constructor
  · intro shut entry mem same
    obtain ⟨win, present, kept⟩ := mem_filterMap.mp mem
    obtain ⟨isOpen, other, isApp, rfl⟩ := sessionWindow_eq_some kept
    cases name_injective same
    exact shut win present isOpen isApp
  · intro missing win present isOpen isApp
    have kept := @sessionWindow_open _ win
      ⟨id.name, win.x, win.y, win.kind.colsRows.1, win.kind.colsRows.2,
        win.minimized, win.maximized⟩ id isOpen isApp rfl ⟨rfl, rfl⟩ rfl ⟨rfl, rfl⟩
    exact missing _ (mem_filterMap.mpr ⟨win, present, kept⟩) rfl

structure Extended (wm next : WindowManager Contents Disk) (win : Window Contents) : Prop where
  windows : next.windows = wm.windows ++ [win]
  isOpen : win.isOpen = true
  remembered : next.remembered = wm.remembered
  screenW : next.screenW = wm.screenW
  screenH : next.screenH = wm.screenH
  display : next.display = wm.display

structure Fresh (win : Window Contents) (id : AppId) : Prop where
  isApp : win.appId = some id
  fitted : win.Fitted
  notMaximized : win.maximized = false

theorem Extended.alter {win : Window Contents} (extended : Extended wm next win)
    {change : Window Contents → Window Contents} (isOpen : (change win).isOpen = true) :
    Extended wm (next.alter wm.windows.length change) (change win) :=
  ⟨alter_top extended.windows change, isOpen, extended.remembered, extended.screenW,
    extended.screenH, extended.display⟩

theorem extended_spawnBuiltin (allOpen : ∀ win ∈ wm.windows, win.isOpen = true) {id : AppId}
    (forgotten : wm.remembered id = none) :
    ∃ win, Fresh win id ∧ Extended wm (wm.spawnBuiltin apps id).1 win ∧
      (wm.spawnBuiltin apps id).1.focused = wm.windows.length ∧
      (wm.spawnBuiltin apps id).2 = wm.windows.length := by
  have spawned : wm.spawnBuiltin apps id = wm.placeWindow (some id)
      (wm.newWindow (wm.builtin apps id).1 (wm.builtin apps id).2.1 (some id)
        (wm.builtin apps id).2.2) := by
    change wm.spawnWindow apps (wm.builtin apps id).1 (wm.builtin apps id).2.1 (some id)
      (wm.builtin apps id).2.2 = _
    unfold spawnWindow
    rw [show wm.remembering (some id) = none from forgotten]
  have full : ∀ win ∈ wm.windows, (!win.isOpen) = false := by
    intro win mem
    rw [allOpen win mem]
    rfl
  rw [spawned]
  generalize made : wm.newWindow (wm.builtin apps id).1 (wm.builtin apps id).2.1 (some id)
    (wm.builtin apps id).2.2 = win
  have placed := @Layers.place_full _ wm.windows (fun win => !win.isOpen) win full
  refine ⟨win, ?_, ?_, ?_, ?_⟩
  · subst made
    exact ⟨rfl, fitted_newWindow (fits_builtin id), rfl⟩
  · constructor
    · change Layers.toTop (Layers.place _ wm.windows win).1
        (Layers.place _ wm.windows win).2 = _
      rw [placed]
      exact Layers.toTop_top
    · subst made
      rfl
    · rfl
    · rfl
    · rfl
    · rfl
  · change (Layers.place _ wm.windows win).1.length - 1 = _
    rw [placed, length_append]
    rfl
  · change (Layers.place _ wm.windows win).2 = _
    rw [placed]

theorem extended_runLauncherAction (allOpen : ∀ win ∈ wm.windows, win.isOpen = true)
    {id : AppId} (forgotten : wm.remembered id = none) :
    ∃ win, Fresh win id ∧
      Extended wm (wm.runLauncherAction apps (builtinAction id)) win ∧
      (wm.runLauncherAction apps (builtinAction id)).focused = wm.windows.length := by
  have plain := @extended_spawnBuiltin _ _ apps wm allOpen id forgotten
  cases id with
  | terminal =>
      obtain ⟨win, fresh, extended, focused, index⟩ := plain
      have same := @same_promptIn _ _ apps win
      have isOpen : (promptIn apps win).isOpen = true := same.1.trans extended.isOpen
      refine ⟨promptIn apps win, ⟨?_, fitted_promptIn fresh.fitted, ?_⟩, ?_, focused⟩
      · exact same.2.2.2.1.trans fresh.isApp
      · have small := fresh.notMaximized
        unfold promptIn
        split
        · exact small
        · exact small
      · change Extended wm ((wm.spawnBuiltin apps .terminal).1.alter
          (wm.spawnBuiltin apps .terminal).2 (promptIn apps)) (promptIn apps win)
        rw [index]
        exact extended.alter isOpen
  | settings =>
      obtain ⟨win, fresh, extended, focused, -⟩ := @extended_spawnBuiltin _ _ apps
        { wm with disk := apps.saveSettings wm.settings wm.disk } allOpen .settings forgotten
      exact ⟨win, fresh, ⟨extended.windows, extended.isOpen, extended.remembered,
        extended.screenW, extended.screenH, extended.display⟩, focused⟩
  | _ =>
      obtain ⟨win, fresh, extended, focused, -⟩ := plain
      exact ⟨win, fresh, extended, focused⟩

theorem colsRows_resize {kind : AppKind Contents} {disk : Disk}
    (resizable : resizableApp kind.tag = true) (cols rows : UInt64) :
    (kind.resize apps disk cols rows).colsRows = (cols, rows) := by
  cases kind with
  | terminal oldCols oldRows contents => rfl
  | editor oldCols oldRows contents => rfl
  | _ => cases resizable

theorem colsRows_fitted {kind : AppKind Contents} {disk : Disk} {cols rows : UInt64}
    (celled : Celled kind.tag (cols, rows)) (some : 0 < cols) :
    (kind.resize apps disk (max cols minCols) (max rows minRows)).colsRows =
      (max cols minCols, max rows minRows) := by
  cases kind with
  | terminal oldCols oldRows contents => rfl
  | editor oldCols oldRows contents => rfl
  | sysInfo oldCols oldRows contents =>
      cases celled
      rfl
  | _ =>
      cases celled
      cases some

theorem celled_unique {cells other : UInt64 × UInt64} (celled : Celled id cells)
    (none : ¬ 0 < cells.1) (also : Celled id other) : other = cells := by
  cases id with
  | terminal => exact absurd celled none
  | notepad => exact absurd celled none
  | sysInfo => exact also.trans celled.symm
  | _ => exact also.trans celled.symm

theorem maximize_fresh {win : Window Contents} {disk : Disk} (cells : UInt64 × UInt64)
    (canResize : win.resizable = true) (small : win.maximized = false) :
    win.maximize apps disk cells =
      { win with
        restoreGeometry := some (win.x, win.y, win.kind.colsRows)
        x := 0
        y := 0
        maximized := true
        kind := win.kind.resize apps disk cells.1 cells.2 } := by
  unfold Window.maximize
  rw [canResize, small]
  rfl

theorem fitEntry_fresh {win : Window Contents} {entry : SessionWindow} {id : AppId}
    (extended : Extended wm next win) (fresh : Fresh win id) (storable : Storable entry id) :
    ∃ placed, placed.appId = some id ∧
      sessionWindow placed = some (wm.comesBack entry) ∧
      Extended wm ((next.fitEntry apps entry wm.maxX wm.maxY wm.windows.length).alter
        wm.windows.length (fun win => { win with minimized := entry.minimized })) placed := by
  obtain ⟨tag, resizable⟩ := fresh.fitted.app id fresh.isApp
  have isOpen := extended.isOpen
  have cells : next.maxContentCells = wm.maxContentCells := by
    rw [maxContentCells, extended.screenW, extended.screenH, extended.display, maxContentCells]
  have moved := @Extended.alter _ _ wm next win extended (fun win =>
    { win with x := clamp entry.x 0 wm.maxX, y := clamp entry.y 0 wm.maxY }) isOpen
  unfold fitEntry comesBack
  cases full : entry.maximized with
  | true =>
      simp only [Bool.not_true, Bool.false_and, Bool.false_eq_true, if_false, if_true]
      have canResize : win.resizable = true := resizable.trans (storable.maximized full)
      have filled := @maximize_fresh _ _ apps
        { win with x := clamp entry.x 0 wm.maxX, y := clamp entry.y 0 wm.maxY } next.disk
        next.maxContentCells canResize fresh.notMaximized
      have maximized := @Extended.alter _ _ wm _ _ moved
        (fun win => win.maximize apps next.disk next.maxContentCells)
        (by rw [filled]; exact isOpen)
      rw [filled] at maximized
      have minimized := @Extended.alter _ _ wm _ _ maximized
        (fun win => { win with minimized := entry.minimized }) isOpen
      refine ⟨_, ?_, ?_, minimized⟩
      · exact fresh.isApp
      · apply sessionWindow_open
        · exact isOpen
        · exact fresh.isApp
        · exact storable.app
        · exact ⟨rfl, rfl⟩
        · rw [← tag] at storable
          rw [← cells]
          exact colsRows_resize (storable.maximized full) _ _
        · exact ⟨rfl, rfl⟩
  | false =>
      have celled := storable.celled full
      simp only [Bool.not_false, Bool.true_and, Bool.false_eq_true, if_false, decide_eq_true_eq]
      by_cases some : 0 < entry.cols
      · simp only [if_pos some]
        have sized := @Extended.alter _ _ wm _ _ moved
          (fun win => win.resize apps next.disk (max entry.cols minCols)
            (max entry.rows minRows)) isOpen
        have minimized := @Extended.alter _ _ wm _ _ sized
          (fun win => { win with minimized := entry.minimized }) isOpen
        refine ⟨_, ?_, ?_, minimized⟩
        · exact fresh.isApp
        · apply sessionWindow_open
          · exact isOpen
          · exact fresh.isApp
          · exact storable.app
          · exact ⟨rfl, rfl⟩
          · rw [← tag] at celled
            exact colsRows_fitted celled some
          · exact ⟨rfl, fresh.notMaximized⟩
      · simp only [if_neg some]
        have minimized := @Extended.alter _ _ wm _ _ moved
          (fun win => { win with minimized := entry.minimized }) isOpen
        refine ⟨_, ?_, ?_, minimized⟩
        · exact fresh.isApp
        · apply sessionWindow_open
          · exact isOpen
          · exact fresh.isApp
          · exact storable.app
          · exact ⟨rfl, rfl⟩
          · have also := fresh.fitted.celled fresh.notMaximized
            rw [tag] at also
            exact celled_unique celled some also
          · exact ⟨rfl, fresh.notMaximized⟩

theorem comesBack_congr (w : next.screenW = wm.screenW) (h : next.screenH = wm.screenH)
    (display : next.display = wm.display) : next.comesBack = wm.comesBack := by
  funext entry
  rw [comesBack, comesBack, maxContentCells, maxContentCells, maxX, maxX, maxY, maxY, w, h, display]

theorem restoreEntry_present (app : entry.app = id.name) (present : ¬ wm.Shut id) :
    wm.restoreEntry apps entry = wm := by
  have there : wm.windows.any (fun win =>
      win.isOpen && decide (win.appId = some id)) = true := by
    by_contra missing
    apply present
    intro win mem isOpen isApp
    apply missing
    apply any_eq_true.mpr
    refine ⟨win, mem, ?_⟩
    rw [isOpen, isApp]
    exact decide_eq_true rfl
  unfold restoreEntry
  rw [app, fromName_name]
  exact if_pos there

theorem restoreEntry_absent {entry : SessionWindow} {id : AppId}
    (allOpen : ∀ win ∈ wm.windows, win.isOpen = true) (storable : Storable entry id)
    (shut : wm.Shut id) (forgotten : wm.remembered id = none) :
    ∃ placed, sessionWindow placed = some (wm.comesBack entry) ∧
      Extended wm (wm.restoreEntry apps entry) placed := by
  obtain ⟨win, fresh, extended, focused⟩ := @extended_runLauncherAction _ _ apps wm allOpen id
    forgotten
  obtain ⟨placed, -, kept, isPlaced⟩ := @fitEntry_fresh _ _ apps wm _ win entry id extended fresh
    storable
  have absent : wm.windows.any (fun win =>
      win.isOpen && decide (win.appId = some id)) = false := by
    rw [any_eq_false]
    intro other mem both
    rw [Bool.and_eq_true, decide_eq_true_eq] at both
    exact shut other mem both.1 both.2
  refine ⟨placed, kept, ?_⟩
  unfold restoreEntry
  rw [storable.app, fromName_name]
  dsimp only
  rw [absent, focused]
  exact isPlaced

theorem Extended.kept (extended : Extended wm next win)
    (kept : sessionWindow win = some entry) :
    next.sessionData.windows = wm.sessionData.windows ++ [entry] := by
  change next.windows.filterMap sessionWindow = wm.windows.filterMap sessionWindow ++ [entry]
  rw [extended.windows, filterMap_append, filterMap_cons, kept, filterMap_nil]

theorem Extended.allOpen (extended : Extended wm next win)
    (allOpen : ∀ other ∈ wm.windows, other.isOpen = true) :
    ∀ other ∈ next.windows, other.isOpen = true := by
  intro other mem
  rw [extended.windows] at mem
  rcases mem_append.mp mem with old | new
  · exact allOpen other old
  · rw [mem_singleton.mp new]
    exact extended.isOpen

theorem comesBack_app (entry : SessionWindow) : (wm.comesBack entry).app = entry.app := by
  unfold comesBack
  split <;> rfl

def unlisted (listed : List SessionWindow) (entry : SessionWindow) : Bool :=
  decide (∀ old ∈ listed, old.app ≠ entry.app)

theorem unlisted_concat (listed : List SessionWindow) {last : SessionWindow} {app : Text}
    (named : last.app = app) (entry : SessionWindow) :
    unlisted (listed ++ [last]) entry =
      (unlisted listed entry && decide (entry.app ≠ app)) := by
  rw [Bool.eq_iff_iff, Bool.and_eq_true]
  simp only [unlisted, decide_eq_true_eq]
  constructor
  · intro none
    refine ⟨fun old mem => none old (mem_append_left _ mem), ?_⟩
    rw [← named]
    exact (none last (mem_append_right _ (mem_singleton_self last))).symm
  · rintro ⟨none, differs⟩ old mem
    rcases mem_append.mp mem with earlier | isLast
    · exact none old earlier
    · rw [mem_singleton.mp isLast, named]
      exact differs.symm

theorem restoreEntries (entries : List SessionWindow)
    (storable : ∀ entry ∈ entries, ∃ id, Storable entry id ∧ wm.remembered id = none)
    (allOpen : ∀ win ∈ wm.windows, win.isOpen = true) :
    (entries.foldl (restoreEntry apps) wm).sessionData.windows = wm.sessionData.windows ++
        ((lowest entries).filter (unlisted wm.sessionData.windows)).map wm.comesBack ∧
      (entries.foldl (restoreEntry apps) wm).remembered = wm.remembered := by
  induction entries generalizing wm with
  | nil => exact ⟨(append_nil _).symm, rfl⟩
  | cons entry rest ih =>
      obtain ⟨id, isStorable, forgotten⟩ := storable entry mem_cons_self
      have others : ∀ other ∈ rest, ∃ id, Storable other id ∧ wm.remembered id = none :=
        fun other mem => storable other (mem_cons_of_mem entry mem)
      rw [foldl_cons, lowest, filter_cons, filter_filter]
      by_cases shut : wm.Shut id
      · have new : unlisted wm.sessionData.windows entry = true := by
          apply decide_eq_true
          rw [isStorable.app]
          exact (shut_iff id).mp shut
        obtain ⟨placed, kept, extended⟩ := @restoreEntry_absent _ _ apps wm entry id allOpen
          isStorable shut forgotten
        generalize wm.restoreEntry apps entry = after at extended ⊢
        obtain ⟨windows, remembered⟩ := @ih after
          (by rw [extended.remembered]; exact others) (extended.allOpen allOpen)
        refine ⟨?_, remembered.trans extended.remembered⟩
        rw [windows, extended.kept kept, if_pos new, map_cons, append_assoc, singleton_append,
          comesBack_congr extended.screenW extended.screenH extended.display]
        congr 4
        funext other
        exact unlisted_concat _ (comesBack_app entry) other
      · have old : unlisted wm.sessionData.windows entry = false := by
          apply decide_eq_false
          rw [isStorable.app]
          exact fun none => shut ((shut_iff id).mpr none)
        rw [restoreEntry_present isStorable.app shut, old]
        obtain ⟨windows, remembered⟩ := ih others allOpen
        refine ⟨?_, remembered⟩
        rw [windows]
        congr 2
        apply filter_congr
        intro other _
        cases there : unlisted wm.sessionData.windows other with
        | false => rw [Bool.false_and]
        | true =>
            rw [Bool.true_and]
            symm
            apply decide_eq_true
            intro same
            rw [unlisted, same] at there
            rw [unlisted, there] at old
            cases old

theorem rememberEntry_kept {windows : List SessionWindow}
    (kept : wm.sessionRemembered windows id = some entry) :
    (next.rememberEntry entry).remembered =
      Function.update next.remembered id (wm.remembered id) := by
  unfold sessionRemembered at kept
  split at kept
  · cases kept
  · rename_i remembered isRemembered
    split at kept
    · cases kept
    · cases kept
      unfold rememberEntry
      rw [fromName_name, isRemembered]

theorem rememberEntries (windows : List SessionWindow) (ids : List AppId) (id : AppId) :
    ((ids.filterMap (wm.sessionRemembered windows)).foldl rememberEntry next).remembered id =
      if id ∈ ids ∧ (wm.sessionRemembered windows id).isSome = true then wm.remembered id
      else next.remembered id := by
  induction ids generalizing next with
  | nil => rfl
  | cons first rest ih =>
      rw [filterMap_cons]
      cases kept : wm.sessionRemembered windows first with
      | none =>
          dsimp only
          rw [ih]
          by_cases same : id = first
          · subst same
            simp [kept]
          · simp [same]
      | some entry =>
          dsimp only
          rw [foldl_cons, ih, rememberEntry_kept kept]
          by_cases same : id = first
          · subst same
            simp [kept]
          · simp [same]

theorem mem_all (id : AppId) : id ∈ AppId.all := by
  cases id <;> decide

theorem load_persisted (working : apps.readText Session.path (wm.persistSession apps).disk =
    some (Session.serialize wm.sessionData)) :
    loadSession apps (wm.persistSession apps).disk = wm.sessionData := by
  have named : ∀ entry ∈ wm.sessionData.windows, Session.Named entry := by
    intro entry mem
    obtain ⟨win, -, kept⟩ := mem_filterMap.mp mem
    obtain ⟨-, id, -, rfl⟩ := sessionWindow_eq_some kept
    exact name_isWord id
  have closed : ∀ entry ∈ wm.sessionData.remembered,
      Session.Named entry ∧ entry.minimized = false := by
    intro entry mem
    obtain ⟨id, -, kept⟩ := mem_filterMap.mp mem
    unfold sessionRemembered at kept
    split at kept
    · cases kept
    · split at kept
      · cases kept
      · cases kept
        exact ⟨name_isWord id, rfl⟩
  unfold loadSession
  rw [working]
  exact Session.parse_serialize named (fun entry mem => (closed entry mem).1)
    (fun entry mem => (closed entry mem).2)

theorem restoreSession_eq {data : SessionData} (loaded : loadSession apps wm.disk = data) :
    (wm.restoreSession apps).windows =
        (data.windows.foldl (restoreEntry apps) (data.remembered.foldl rememberEntry wm)).windows ∧
      (wm.restoreSession apps).remembered =
        (data.windows.foldl (restoreEntry apps)
          (data.remembered.foldl rememberEntry wm)).remembered := by
  unfold restoreSession
  rw [loaded]
  dsimp only
  split
  · rename_i empty
    rw [empty.1, empty.2]
    exact ⟨rfl, rfl⟩
  · exact ⟨rfl, rfl⟩

theorem sessionRemembered_isSome (id : AppId) :
    (wm.sessionRemembered wm.sessionData.windows id).isSome = true ↔
      wm.Shut id ∧ (wm.remembered id).isSome = true := by
  rw [shut_iff]
  unfold sessionRemembered
  cases wm.remembered id with
  | none => simp
  | some remembered =>
      dsimp only
      split
      · rename_i listed
        obtain ⟨entry, mem, same⟩ := any_eq_true.mp listed
        constructor
        · intro never
          cases never
        · intro both
          exact absurd (of_decide_eq_true same) (both.1 entry mem)
      · rename_i unlisted
        refine ⟨fun _ => ⟨?_, rfl⟩, fun _ => rfl⟩
        intro entry mem same
        exact unlisted (any_eq_true.mpr ⟨entry, mem, decide_eq_true same⟩)

theorem places_restored (blank : ∀ id, next.remembered id = none) (id : AppId) :
    (wm.Shut id → (wm.sessionData.remembered.foldl rememberEntry next).remembered id =
        wm.remembered id) ∧
      (¬ wm.Shut id →
        (wm.sessionData.remembered.foldl rememberEntry next).remembered id = none) := by
  have set := @rememberEntries _ _ wm next wm.sessionData.windows AppId.all id
  change (wm.sessionData.remembered.foldl rememberEntry next).remembered id = _ at set
  have written := @sessionRemembered_isSome _ _ wm id
  rw [set, blank]
  constructor
  · intro shut
    split
    · rfl
    · rename_i missing
      cases remembered : wm.remembered id with
      | none => rfl
      | some place =>
          exfalso
          apply missing
          refine ⟨mem_all id, written.mpr ⟨shut, ?_⟩⟩
          rw [remembered]
          rfl
  · intro listed
    apply if_neg
    intro both
    exact listed (written.mp both.2).1

theorem lowestRestored_of_fitted (working : apps.readText Session.path
      (wm.persistSession apps).disk = some (Session.serialize wm.sessionData))
    (fitted : AllFitted wm) :
    LowestRestored wm (wm.nextBoot apps) := by
  generalize isEmpty : emptyDesktop apps wm.screenW wm.screenH wm.display
    (wm.persistSession apps).disk = empty
  have loaded : loadSession apps empty.disk = wm.sessionData := by
    rw [← isEmpty]
    exact load_persisted working
  have blank : ∀ id, empty.remembered id = none := by
    rw [← isEmpty]
    exact fun _ => rfl
  obtain ⟨windows, remembered⟩ := restoreSession_eq loaded
  have booted : wm.nextBoot apps = empty.restoreSession apps := by
    rw [← isEmpty]
    rfl
  obtain ⟨places, framed⟩ := rememberEntries_frame wm.sessionData.remembered empty
  have restored := fun id => @places_restored _ _ wm empty blank id
  rw [framed] at windows remembered
  simp only [framed] at restored
  have storable : ∀ entry ∈ wm.sessionData.windows, ∃ id, Storable entry id ∧ places id = none := by
    intro entry mem
    obtain ⟨win, present, kept⟩ := mem_filterMap.mp mem
    obtain ⟨id, isStorable⟩ := storable_of_fitted (fitted win present) kept
    refine ⟨id, isStorable, (restored id).2 ?_⟩
    intro shut
    exact (shut_iff id).mp shut entry mem isStorable.app
  have none : ∀ win ∈ ({ empty with remembered := places } :
      WindowManager Contents Disk).windows, win.isOpen = true := by
    rw [← isEmpty]
    intro win never
    cases never
  obtain ⟨back, kept⟩ := @restoreEntries _ _ apps { empty with remembered := places }
    wm.sessionData.windows storable none
  rw [booted]
  constructor
  · change (empty.restoreSession apps).windows.filterMap sessionWindow = _
    rw [windows]
    have same : ({ empty with remembered := places } : WindowManager Contents Disk).comesBack =
        wm.comesBack := by
      rw [← isEmpty]
      exact comesBack_congr rfl rfl rfl
    have first : ({ empty with remembered := places } :
        WindowManager Contents Disk).sessionData.windows = [] := by
      rw [← isEmpty]
      rfl
    have all : ∀ entry ∈ lowest wm.sessionData.windows, unlisted [] entry = true :=
      fun entry _ => decide_eq_true (fun old never => nomatch never)
    rw [first, same, filter_eq_self.mpr all, nil_append] at back
    exact back
  · intro id shut
    rw [remembered, kept]
    exact (restored id).1 shut

/-- In every state of a run from any session whose session file reads back as written: the next boot
brings back the lowest open window of each built-in app, in the order of the stack, put on the screen
or filling it, and the places of all apps that are closed. -/
theorem session_restores_lowest (apps : Apps Contents Disk) (screenW screenH : UInt32)
    (display : Display) (disk : Disk) (inputs : List Input)
    (working : apps.readText Session.path
        (((new apps screenW screenH display disk).run apps inputs).persistSession apps).disk =
      some (Session.serialize ((new apps screenW screenH display disk).run apps inputs).sessionData)) :
    LowestRestored ((new apps screenW screenH display disk).run apps inputs)
      (((new apps screenW screenH display disk).run apps inputs).nextBoot apps) :=
  lowestRestored_of_fitted working (allFitted_run screenW screenH display disk inputs)

end WindowManager

namespace Sample

open WindowManager

theorem disk_works (path text : Text) (disk : Disk) :
    apps.readText path (apps.writeText path text disk) = some text := by
  change (((path, text) :: disk.texts.filter (fun file => file.1 ≠ path)).find?
    (fun file => file.1 = path)).map Prod.snd = some text
  rw [List.find?_cons_of_pos (by exact decide_eq_true rfl)]
  rfl

theorem session_restores_lowest_mixed :
    ((boot (some mixedSession)).run apps closeLast).windows.map
      (fun win => (win.isOpen, win.minimized, win.maximized)) =
        [(true, false, true), (true, true, false), (false, false, false)] ∧
    LowestRestored ((boot (some mixedSession)).run apps closeLast)
      (((boot (some mixedSession)).run apps closeLast).nextBoot apps) :=
  ⟨by decide +kernel, session_restores_lowest apps 800 600 display (disk (some mixedSession)) closeLast
    (disk_works _ _ _)⟩

/-- Of two terminals one comes back, and a window left beyond the screen comes back on it. -/
theorem terminals_come_back_changed :
    ¬ (∀ inputs, Restored ((boot none).run apps inputs)
      (((boot none).run apps inputs).nextBoot apps)) ∧
    ¬ (∀ inputs, Restored ((boot (some farSession)).run apps inputs)
      (((boot (some farSession)).run apps inputs).nextBoot apps)) := by
  constructor
  · intro restored
    have same := congrArg List.length (restored (launch 0 0 ++ launch 0 0)).windows
    revert same
    decide +kernel
  · intro restored
    have same := (restored (launch 0 0)).windows
    revert same
    decide +kernel

end Sample

end Desktop

end MachaOS
