/-
What every window of a run keeps: the window of a built-in app shows that app, a console has at least
one column, and only a window that can be resized is maximized, with the place it came from noted.
-/

import MachaOS.Desktop.Gestures
import MachaOS.Desktop.Places

namespace MachaOS

namespace Desktop

open Keyboard

variable {Contents Disk : Type} {apps : Apps Contents Disk} {disk : Disk}

def Celled (id : AppId) (cells : UInt64 × UInt64) : Prop :=
  match id with
  | .terminal | .notepad => 0 < cells.1
  | .sysInfo => cells = (38, 16)
  | .calculator | .files | .settings | .paint | .imageViewer => cells = (0, 0)

def Window.CameFrom (win : Window Contents) : Prop :=
  ∃ x y cells, win.restoreGeometry = some (x, y, cells) ∧ Celled win.kind.tag cells

structure Window.Fitted (win : Window Contents) : Prop where
  app : ∀ id, win.appId = some id →
    win.kind.tag = id ∧ win.resizable = WindowManager.resizableApp id
  celled : win.maximized = false → Celled win.kind.tag win.kind.colsRows
  maximized : win.maximized = true → win.resizable = true ∧ win.CameFrom

namespace AppKind

theorem celled_resize (kind : AppKind Contents) {cells : UInt64 × UInt64}
    (celled : Celled kind.tag cells) :
    Celled kind.tag (kind.resize apps disk cells.1 cells.2).colsRows := by
  cases kind with
  | terminal cols rows contents => exact celled
  | editor cols rows contents => exact celled
  | sysInfo cols rows contents => rfl
  | calculator contents => rfl
  | fileExplorer app => rfl
  | settings app => rfl
  | paint contents => rfl
  | imageViewer contents => rfl

theorem celled_resize_of_pos (kind : AppKind Contents) {cols : UInt64} (rows : UInt64)
    (some : 0 < cols) : Celled kind.tag (kind.resize apps disk cols rows).colsRows := by
  cases kind with
  | terminal oldCols oldRows contents => exact some
  | editor oldCols oldRows contents => exact some
  | sysInfo oldCols oldRows contents => rfl
  | calculator contents => rfl
  | fileExplorer app => rfl
  | settings app => rfl
  | paint contents => rfl
  | imageViewer contents => rfl

theorem handleKey_shape (event : Event) (kind : AppKind Contents) (disk : Disk) :
    (kind.handleKey apps event disk).2.1.tag = kind.tag ∧
      (kind.handleKey apps event disk).2.1.colsRows = kind.colsRows := by
  cases kind <;> exact ⟨rfl, rfl⟩

theorem handleClick_shape (display : Display) (x y : Int32) (kind : AppKind Contents) (disk : Disk) :
    (kind.handleClick apps display x y disk).kind.tag = kind.tag ∧
      (kind.handleClick apps display x y disk).kind.colsRows = kind.colsRows := by
  cases kind <;> exact ⟨rfl, rfl⟩

end AppKind

namespace Window

variable {win : Window Contents}

theorem Fitted.kind (fitted : win.Fitted) {kind : AppKind Contents}
    (shape : kind.tag = win.kind.tag ∧ kind.colsRows = win.kind.colsRows) :
    { win with kind }.Fitted := by
  obtain ⟨tag, colsRows⟩ := shape
  constructor
  · intro id isApp
    rw [tag]
    exact fitted.app id isApp
  · intro small
    rw [tag, colsRows]
    exact fitted.celled small
  · intro full
    obtain ⟨resizable, x, y, cells, from', celled⟩ := fitted.maximized full
    refine ⟨resizable, x, y, cells, from', ?_⟩
    rw [tag]
    exact celled

theorem Fitted.moved (fitted : win.Fitted) (x y : Int32) (isOpen minimized : Bool) :
    { win with x, y, isOpen, minimized }.Fitted :=
  ⟨fitted.app, fitted.celled, fitted.maximized⟩

theorem Fitted.resize (fitted : win.Fitted) {cols : UInt64} (rows : UInt64)
    (wide : win.maximized = false → 0 < cols) : (win.resize apps disk cols rows).Fitted := by
  have tag := @tag_resize _ _ apps disk win.kind cols rows
  constructor
  · intro id isApp
    exact ⟨tag.trans (fitted.app id isApp).1, (fitted.app id isApp).2⟩
  · intro small
    change Celled (win.kind.resize apps disk cols rows).tag _
    rw [tag]
    exact AppKind.celled_resize_of_pos win.kind rows (wide small)
  · intro full
    obtain ⟨resizable, x, y, cells, from', celled⟩ := fitted.maximized full
    refine ⟨resizable, x, y, cells, from', ?_⟩
    change Celled (win.kind.resize apps disk cols rows).tag cells
    rw [tag]
    exact celled

theorem Fitted.maximize (fitted : win.Fitted) (cells : UInt64 × UInt64) :
    (win.maximize apps disk cells).Fitted := by
  unfold Window.maximize
  split
  · exact fitted
  · rename_i allowed
    simp only [Bool.or_eq_true, Bool.not_eq_true', not_or, Bool.not_eq_false,
      Bool.not_eq_true] at allowed
    have flagged : Fitted { win with
        restoreGeometry := some (win.x, win.y, win.kind.colsRows)
        x := 0
        y := 0
        maximized := true } := by
      constructor
      · exact fitted.app
      · intro never
        cases never
      · intro _
        exact ⟨allowed.1, win.x, win.y, win.kind.colsRows, rfl, fitted.celled allowed.2⟩
    apply flagged.resize
    intro never
    cases never

theorem Fitted.unmaximize (fitted : win.Fitted) : (win.unmaximize apps disk).Fitted := by
  unfold Window.unmaximize
  split
  · exact fitted
  · rename_i full
    rw [Bool.not_eq_true', Bool.not_eq_false] at full
    obtain ⟨-, x, y, cells, from', celled⟩ := fitted.maximized full
    rw [from']
    have tag := @tag_resize _ _ apps disk win.kind cells.1 cells.2
    constructor
    · intro id isApp
      exact ⟨tag.trans (fitted.app id isApp).1, (fitted.app id isApp).2⟩
    · intro _
      change Celled (win.kind.resize apps disk cells.1 cells.2).tag _
      rw [tag]
      exact AppKind.celled_resize win.kind celled
    · intro never
      cases never

end Window

namespace WindowManager

open Window

variable {wm : WindowManager Contents Disk}

def AllFitted (wm : WindowManager Contents Disk) : Prop := ∀ win ∈ wm.windows, win.Fitted

theorem allFitted_alter {i : Nat} {change : Window Contents → Window Contents}
    (fitted : AllFitted wm)
    (keeps : ∀ win, wm.windows[i]? = some win → win.Fitted → (change win).Fitted) :
    AllFitted (wm.alter i change) := by
  intro win mem
  obtain ⟨j, found⟩ := List.mem_iff_getElem?.mp mem
  change (wm.windows.modify i change)[j]? = some win at found
  rw [List.getElem?_modify] at found
  obtain ⟨old, at_j, rfl⟩ := Option.map_eq_some_iff.mp found
  have before := fitted old (List.mem_of_getElem? at_j)
  by_cases same : i = j
  · subst same
    simp only [if_true]
    exact keeps old at_j before
  · simp only [if_neg same]
    exact before

theorem allFitted_map {next : WindowManager Contents Disk}
    {change : Window Contents → Window Contents} (fitted : AllFitted wm)
    (windows : next.windows = wm.windows.map change)
    (keeps : ∀ win : Window Contents, win.Fitted → (change win).Fitted) :
    AllFitted next := by
  intro win mem
  rw [windows] at mem
  obtain ⟨old, present, rfl⟩ := List.mem_map.mp mem
  exact keeps old (fitted old present)

theorem allFitted_raise (fitted : AllFitted wm) (i : Nat) : AllFitted (wm.raise i) :=
  fun win mem => fitted win (Layers.mem_toTop.mp mem)

def Fits (appId : Option AppId) (resizable : Bool) (kind : AppKind Contents) : Prop :=
  (∀ id, appId = some id → kind.tag = id ∧ resizable = resizableApp id) ∧
    Celled kind.tag kind.colsRows

theorem fitted_newWindow {title : Text} {resizable : Bool} {appId : Option AppId}
    {kind : AppKind Contents} (fits : Fits appId resizable kind) :
    (wm.newWindow title resizable appId kind).Fitted := by
  constructor
  · exact fits.1
  · exact fun _ => fits.2
  · intro never
    cases never

variable {win : Window Contents}

theorem fitted_promptIn (fitted : win.Fitted) : (promptIn apps win).Fitted := by
  unfold promptIn
  split
  · rename_i cols rows contents shows
    apply fitted.kind
    rw [shows]
    exact ⟨rfl, rfl⟩
  · exact fitted

theorem fitted_runIn (fitted : win.Fitted) (path : Text) (disk : Disk) :
    (runIn apps path disk win).1.Fitted := by
  unfold runIn
  split
  · rename_i cols rows contents shows
    apply fitted.kind
    rw [shows]
    exact ⟨rfl, rfl⟩
  · exact fitted

theorem pos_max_minCols (cols : UInt64) : 0 < max cols minCols := by
  change 0 < (if cols ≤ minCols then minCols else cols)
  split
  · decide
  · rename_i above
    have twenty : minCols.toNat = 20 := rfl
    rw [UInt64.le_iff_toNat_le] at above
    rw [UInt64.lt_iff_toNat_lt, UInt64.toNat_zero]
    omega

theorem allFitted_spawnWindow (fitted : AllFitted wm) {title : Text} {resizable : Bool}
    {appId : Option AppId} {kind : AppKind Contents} (fits : Fits appId resizable kind) :
    AllFitted (wm.spawnWindow apps title resizable appId kind).1 := by
  have placed : AllFitted (wm.placeWindow appId (wm.newWindow title resizable appId kind)).1 := by
    intro win mem
    rcases Layers.mem_bring mem with rfl | old
    · exact fitted_newWindow fits
    · exact fitted win old
  unfold spawnWindow
  simp only
  split
  · unfold restoreSize
    simp only
    have resized := fun cols rows => @allFitted_alter _ _
      (wm.placeWindow appId (wm.newWindow title resizable appId kind)).1
      (wm.placeWindow appId (wm.newWindow title resizable appId kind)).2
      (fun win => win.resize apps
        (wm.placeWindow appId (wm.newWindow title resizable appId kind)).1.disk
        (max cols minCols) rows) placed
      (fun win _ before => before.resize rows (fun _ => pos_max_minCols cols))
    split
    · exact allFitted_alter (resized _ _) (fun win _ before => before.maximize _)
    · exact resized _ _
  · exact placed

theorem pos_clampCells {low high : UInt64} (value : UInt64) (lowPos : 0 < low) (highPos : 0 < high) :
    0 < clampCells value low high := by
  unfold clampCells
  split
  · exact lowPos
  · split
    · exact highPos
    · rename_i notBelow _
      rw [UInt64.lt_iff_toNat_lt] at lowPos notBelow ⊢
      omega

theorem fits_newTerminal : Fits none true (wm.newTerminal apps) :=
  ⟨fun _ never => (nomatch never), pos_clampCells _ (by decide) (by decide)⟩

theorem allFitted_launchElfInTerminal (fitted : AllFitted wm) (path : Text) :
    AllFitted (wm.launchElfInTerminal apps path) := by
  have spawned := @allFitted_spawnWindow _ _ apps wm fitted ("Terminal: ".toList ++ path) true none
    (wm.newTerminal apps) fits_newTerminal
  unfold launchElfInTerminal
  simp only
  split
  · exact spawned
  · rename_i win found
    apply allFitted_alter spawned
    intro _ _ _
    exact fitted_runIn (spawned win (List.mem_of_getElem? found)) path _

theorem allFitted_dispatchAction (fitted : AllFitted wm) (action : FsAction) :
    AllFitted (wm.dispatchAction apps action) := by
  cases action with
  | runTerminal path => exact allFitted_launchElfInTerminal fitted path
  | openText path content =>
      apply allFitted_spawnWindow fitted
      constructor
      · intro _ never
        cases never
      · exact pos_clampCells _ (by decide) (by decide)
  | openImage path content =>
      apply allFitted_spawnWindow fitted
      constructor
      · intro _ never
        cases never
      · rfl

theorem fits_builtin (id : AppId) :
    Fits (some id) (wm.builtin apps id).2.1 (wm.builtin apps id).2.2 := by
  constructor
  · intro other same
    cases same
    cases id <;> exact ⟨rfl, rfl⟩
  · cases id with
    | terminal => exact pos_clampCells _ (by decide) (by decide)
    | notepad => exact pos_clampCells _ (by decide) (by decide)
    | sysInfo => rfl
    | calculator => rfl
    | files => rfl
    | settings => rfl
    | paint => rfl
    | imageViewer => rfl

theorem allFitted_spawnBuiltin (fitted : AllFitted wm) (id : AppId) :
    AllFitted (wm.spawnBuiltin apps id).1 :=
  allFitted_spawnWindow fitted (fits_builtin id)

theorem allFitted_runLauncherAction (fitted : AllFitted wm) (action : LauncherAction) :
    AllFitted (wm.runLauncherAction apps action) := by
  cases action with
  | terminal =>
      have spawned := @allFitted_spawnBuiltin _ _ apps wm fitted .terminal
      exact allFitted_alter spawned (fun win _ before => fitted_promptIn before)
  | settings =>
      have saved : AllFitted { wm with disk := apps.saveSettings wm.settings wm.disk } := fitted
      exact allFitted_spawnBuiltin saved .settings
  | runElf path => exact allFitted_launchElfInTerminal fitted path
  | calculator => exact allFitted_spawnBuiltin fitted .calculator
  | files => exact allFitted_spawnBuiltin fitted .files
  | notepad => exact allFitted_spawnBuiltin fitted .notepad
  | sysInfo => exact allFitted_spawnBuiltin fitted .sysInfo
  | paint => exact allFitted_spawnBuiltin fitted .paint
  | imageViewer => exact allFitted_spawnBuiltin fitted .imageViewer

theorem fitted_onScreen {win : Window Contents} (fitted : win.Fitted) :
    (wm.onScreen win).Fitted :=
  fitted.moved _ _ win.isOpen win.minimized

theorem fitted_reclamped (fitted : win.Fitted) : (wm.reclamped apps win).Fitted := by
  unfold reclamped
  split
  · split
    · rename_i full
      rw [Bool.and_eq_true] at full
      apply (fitted_onScreen fitted).resize
      intro small
      change win.maximized = false at small
      rw [full.1] at small
      cases small
    · exact fitted_onScreen fitted
  · exact fitted

theorem fitted_rescaled (fitted : win.Fitted) : (wm.rescaled apps win).Fitted := by
  have onScreen := @fitted_onScreen _ _ wm win fitted
  unfold rescaled
  split
  · exact fitted
  · simp only
    split
    · exact onScreen
    · split
      · rename_i full
        apply onScreen.resize
        intro small
        change win.maximized = false at small
        rw [full] at small
        cases small
      · apply onScreen.resize
        intro _
        apply pos_clampCells _ (by decide)
        change 0 < (if wm.maxContentCells.1 ≤ 1 then 1 else wm.maxContentCells.1)
        split
        · decide
        · rename_i above
          rw [UInt64.le_iff_toNat_le, UInt64.toNat_one] at above
          rw [UInt64.lt_iff_toNat_lt, UInt64.toNat_zero]
          omega

section

variable (fitted : AllFitted wm)
include fitted

theorem allFitted_applyChange (change : SettingsChange) :
    AllFitted (wm.applyChange apps change) := by
  cases change with
  | none => exact fitted
  | reload => exact fitted
  | resolution w h =>
      change AllFitted (wm.applyResolution apps w h)
      unfold applyResolution
      split
      · exact fitted
      · exact allFitted_map fitted rfl (fun win before => fitted_reclamped before)
  | fontScale scale =>
      exact allFitted_map fitted rfl (fun win before => fitted_rescaled before)

theorem allFitted_grabTitle : AllFitted (wm.grabTitle apps win) := by
  have restored : AllFitted
      (if win.maximized then wm.unmaximizeWindow apps wm.focused else wm) := by
    split
    · exact allFitted_alter fitted (fun other _ before => before.unmaximize)
    · exact fitted
  unfold grabTitle
  simp only
  split
  · exact restored
  · exact restored

theorem allFitted_answerClick (action : Option FsAction) (item : Option Nat)
    (win : Window Contents) : AllFitted (wm.answerClick apps action item win) := by
  have unpressed : AllFitted { wm with pressState := none } := fitted
  unfold answerClick
  split
  · exact allFitted_dispatchAction unpressed _
  · exact fitted
  · exact fitted

theorem allFitted_clickContent (found : wm.windows[wm.focused]? = some win) :
    AllFitted (wm.clickContent apps win) := by
  unfold clickContent
  simp only
  apply allFitted_applyChange
  apply allFitted_answerClick
  apply allFitted_alter fitted
  intro other at_focus before
  cases found.symm.trans at_focus
  exact before.kind (AppKind.handleClick_shape _ _ _ _ _)

theorem allFitted_applyPart {i : Nat} (found : wm.windows[i]? = some win) (part : Part) :
    AllFitted (wm.applyPart apps i win part) := by
  have raised : AllFitted (wm.raise i) := allFitted_raise fitted i
  have top : (wm.raise i).windows[(wm.raise i).focused]? = some win :=
    Layers.getElem?_toTop_top found
  cases part with
  | grip => exact raised
  | close =>
      have remembered : AllFitted (wm.rememberGeometry i) := by
        intro other mem
        rw [windows_rememberGeometry] at mem
        exact fitted other mem
      exact allFitted_alter remembered
        (fun other _ before => before.moved other.x other.y false other.minimized)
  | maximize =>
      change AllFitted (if win.maximized
          then (wm.raise i).unmaximizeWindow apps (wm.raise i).focused
          else (wm.raise i).maximizeWindow apps (wm.raise i).focused)
      split
      · exact allFitted_alter raised (fun other _ before => before.unmaximize)
      · exact allFitted_alter raised (fun other _ before => before.maximize _)
  | minimize =>
      exact allFitted_alter fitted
        (fun other _ before => before.moved other.x other.y other.isOpen true)
  | title => exact allFitted_grabTitle raised
  | content => exact allFitted_clickContent raised top

theorem allFitted_handleClick : AllFitted (wm.handleClick apps) := by
  have valid := @clickTarget_valid _ _ wm
  unfold handleClick
  cases target : wm.clickTarget with
  | launch action =>
      have closed : AllFitted { wm with launcherOpen := false } := fitted
      exact allFitted_runLauncherAction closed action
  | dismiss => exact fitted
  | startMenu => exact fitted
  | taskbar i =>
      have shown := @allFitted_alter _ _ wm i (fun win => { win with minimized := false })
        fitted (fun other _ before => before.moved other.x other.y other.isOpen false)
      exact allFitted_raise shown i
  | part i win part =>
      rw [target] at valid
      exact allFitted_applyPart fitted valid.1 part
  | nothing => exact fitted

theorem allFitted_handleKey (event : Event) : AllFitted (wm.handleKey apps event) := by
  unfold handleKey
  cases found : wm.keyWindow with
  | none => exact fitted
  | some win =>
      have shape := @AppKind.handleKey_shape _ _ apps event win.kind wm.disk
      simp only
      generalize win.kind.handleKey apps event wm.disk = answer at shape ⊢
      obtain ⟨action, kind, disk⟩ := answer
      have typed : AllFitted (wm.alter wm.focused (fun win => { win with kind })) := by
        apply allFitted_alter fitted
        intro other at_focus before
        cases found.symm.trans at_focus
        exact before.kind shape
      cases action with
      | none => exact typed
      | some action =>
          have stored : AllFitted ({ wm.alter wm.focused (fun win => { win with kind }) with
            disk } : WindowManager Contents Disk) := typed
          exact allFitted_dispatchAction stored action

end

theorem fitted_explorer (fitted : win.Fitted)
    (change : FileExplorer Contents → FileExplorer Contents) :
    Window.Fitted (match win.kind with
      | .fileExplorer app => { win with kind := .fileExplorer (change app) }
      | _ => win) := by
  split
  · rename_i app shows
    apply fitted.kind
    rw [shows]
    exact ⟨rfl, rfl⟩
  · exact fitted

theorem allFitted_setExplorerDrag (fitted : AllFitted wm) (drag : Option (Text × Bool)) :
    AllFitted (wm.setExplorerDrag apps drag) :=
  allFitted_map fitted rfl (fun _ before => fitted_explorer before (apps.setDrag drag))

theorem dropTarget_spec {i : Nat} (target : wm.dropTarget = some (i, win)) :
    wm.windows[i]? = some win := by
  obtain ⟨⟨other, j⟩, mem, shown⟩ := List.exists_of_findSome?_eq_some target
  dsimp only at shown
  split at shown
  · cases shown
    exact (List.mem_zipIdx_iff_getElem?.mp (List.mem_reverse.mp mem))
  · cases shown

theorem allFitted_applyDrop (fitted : AllFitted wm) (drag : FileDragState) :
    AllFitted (wm.applyDrop apps drag) := by
  unfold applyDrop
  cases target : wm.dropTarget with
  | none => exact fitted
  | some hit =>
      obtain ⟨i, win⟩ := hit
      have dropped : AllFitted (wm.dropOn apps drag i win).2 := by
        unfold dropOn
        split
        · rename_i app shows
          apply allFitted_alter fitted
          intro other at_i before
          cases (dropTarget_spec target).symm.trans at_i
          apply before.kind
          rw [shows]
          exact ⟨rfl, rfl⟩
        · exact fitted
      simp only
      split
      · exact allFitted_alter dropped (fun other _ before => fitted_explorer before _)
      · exact dropped

theorem allFitted_resizeMotion (fitted : AllFitted wm) (held : ResizeState) :
    AllFitted (wm.resizeMotion apps held) := by
  unfold resizeMotion
  split
  · exact fitted
  · simp only
    split
    · apply allFitted_alter fitted
      intro other _ before
      exact before.resize _ (fun _ => pos_max_minCols _)
    · exact fitted

theorem allFitted_pressEvent (fitted : AllFitted wm) (left : Bool) :
    AllFitted (wm.pressEvent apps left) := by
  have begun : ∀ press, AllFitted (wm.beginFileDrag apps press) := by
    intro press
    unfold beginFileDrag
    split
    · exact fitted
    · rename_i path isDir _
      have held : AllFitted { wm with
        pressState := none
        fileDrag := some ⟨press.windowIndex, path, isDir, press.grabbed⟩ } := fitted
      exact allFitted_setExplorerDrag held _
  unfold pressEvent
  split
  · split
    · exact begun _
    · exact fitted
  · exact fitted

theorem allFitted_plainEvent (fitted : AllFitted wm) (left justPressed justReleased : Bool) :
    AllFitted (wm.plainEvent apps left justPressed justReleased) := by
  have dragged : AllFitted (wm.dragEvent left) := by
    unfold dragEvent
    split
    · split
      · exact allFitted_alter fitted
          (fun other _ before => before.moved _ _ other.isOpen other.minimized)
      · exact fitted
    · exact fitted
  have released : AllFitted
      (if justReleased then (wm.dragEvent left).releaseEvent apps else wm.dragEvent left) := by
    split
    · unfold releaseEvent
      split
      · exact dragged
      · exact dragged
    · exact dragged
  unfold plainEvent
  simp only
  split
  · exact allFitted_handleClick released
  · exact released

theorem allFitted_step (fitted : AllFitted wm) (input : Input) : AllFitted (wm.step apps input) := by
  cases input with
  | key event => exact allFitted_handleKey fitted event
  | mouse event =>
      have moved : AllFitted (wm.moveCursor event) := fitted
      change AllFitted (wm.handleMouse apps event)
      unfold handleMouse
      simp only
      split
      · rename_i held _
        have sized : AllFitted (if event.left then (wm.moveCursor event).resizeMotion apps held
            else wm.moveCursor event) := by
          split
          · exact allFitted_resizeMotion moved held
          · exact moved
        unfold resizeEvent
        simp only
        split
        · exact sized
        · exact sized
      · rename_i held _ _
        unfold fileDragEvent
        split
        · have ended : AllFitted { wm.moveCursor event with fileDrag := none } := moved
          have dropped : AllFitted
              ({ { wm.moveCursor event with fileDrag := none }.applyDrop apps held with
                pressState := none } : WindowManager Contents Disk) := allFitted_applyDrop ended held
          exact allFitted_setExplorerDrag dropped none
        · exact moved
      · have pressed := @allFitted_pressEvent _ _ apps _ moved event.left
        split
        · exact pressed
        · exact allFitted_plainEvent pressed _ _ _

theorem allFitted_restoreEntry (fitted : AllFitted wm) (entry : SessionWindow) :
    AllFitted (wm.restoreEntry apps entry) := by
  unfold restoreEntry
  split
  · exact fitted
  · rename_i id _
    split
    · exact fitted
    · have opened := @allFitted_runLauncherAction _ _ apps wm fitted (builtinAction id)
      simp only
      generalize wm.runLauncherAction apps (builtinAction id) = next at opened ⊢
      have moved : AllFitted (next.alter next.focused (fun win =>
          { win with x := clamp entry.x 0 wm.maxX, y := clamp entry.y 0 wm.maxY })) :=
        allFitted_alter opened (fun other _ before => before.moved _ _ other.isOpen other.minimized)
      have fit : AllFitted (next.fitEntry apps entry wm.maxX wm.maxY next.focused) := by
        unfold fitEntry
        simp only
        generalize next.alter next.focused (fun win =>
          { win with x := clamp entry.x 0 wm.maxX, y := clamp entry.y 0 wm.maxY }) = placed
          at moved ⊢
        have sized : AllFitted (if !entry.maximized && decide (0 < entry.cols) then
            placed.alter next.focused (fun win =>
              win.resize apps placed.disk (max entry.cols minCols) (max entry.rows minRows))
            else placed) := by
          split
          · exact allFitted_alter moved
              (fun other _ before => before.resize _ (fun _ => pos_max_minCols _))
          · exact moved
        split
        · exact allFitted_alter sized (fun other _ before => before.maximize _)
        · exact sized
      exact allFitted_alter fit
        (fun other _ before => before.moved other.x other.y other.isOpen entry.minimized)

theorem allFitted_new (screenW screenH : UInt32) (display : Display) (disk : Disk) :
    AllFitted (new apps screenW screenH display disk) := by
  refine new_induction (fun _ win never => ?_)
    (fun _ entry fitted => allFitted_restoreEntry fitted entry) (fun _ fitted => fitted)
  cases never

theorem allFitted_run (screenW screenH : UInt32) (display : Display) (disk : Disk)
    (inputs : List Input) :
    AllFitted ((new apps screenW screenH display disk).run apps inputs) :=
  List.foldlRecOn inputs _ (allFitted_new screenW screenH display disk)
    (fun _ fitted input _ => allFitted_step fitted input)

end WindowManager

end Desktop

end MachaOS
