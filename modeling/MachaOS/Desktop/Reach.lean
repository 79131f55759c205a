/-
Every visible window can be reached with the mouse, in a run from any session, as long as no step
puts a window back at a place that lies beyond the screen: a remembered place, that of a minimized
window, or that of a maximized one from before.
-/

import MachaOS.Desktop.Gestures
import MachaOS.Desktop.Places

namespace MachaOS

namespace Desktop

open Keyboard

def LauncherAction.appId : LauncherAction → Option AppId
  | .terminal => some .terminal
  | .calculator => some .calculator
  | .files => some .files
  | .notepad => some .notepad
  | .sysInfo => some .sysInfo
  | .settings => some .settings
  | .paint => some .paint
  | .imageViewer => some .imageViewer
  | .runElf _ => none

namespace WindowManager

open Window

variable {Contents Disk : Type} {apps : Apps Contents Disk} {wm : WindowManager Contents Disk}
  {settled : Prop}

def ClickReached (apps : Apps Contents Disk) (wm : WindowManager Contents Disk) :
    Click Contents → Prop
  | .launch action => wm.OpensReached action.appId
  | .taskbar i => ∀ win, wm.windows[i]? = some win →
      InBounds wm.screenW wm.screenH win.x win.y
  | .part _ win .title | .part _ win .maximize =>
      win.maximized = true → wm.RestoreReached win
  | .part _ win .content =>
      (win.kind.handleClick apps wm.display (wm.cursorX - win.x)
        (wm.cursorY - win.y - titleBarHeight.toInt32) wm.disk).action.isSome = true →
          wm.OpensReached none
  | _ => True

def StepReached (apps : Apps Contents Disk) (wm : WindowManager Contents Disk) : Input → Prop
  | .mouse event => event.left = true → wm.leftWasDown = false →
      ClickReached apps (wm.moveCursor event) (wm.moveCursor event).clickTarget
  | .key event => event = Event.enter → OpensFile apps wm → wm.OpensReached none

structure Reached (wm : WindowManager Contents Disk) : Prop where
  roomy : Roomy wm.screenW wm.screenH
  all : AllReached wm

theorem Reached.frame {next : WindowManager Contents Disk} (reached : Reached wm)
    (windows : next.windows = wm.windows) (w : next.screenW = wm.screenW)
    (h : next.screenH = wm.screenH) : Reached next := by
  constructor
  · rw [w, h]
    exact reached.roomy
  · unfold AllReached
    rw [windows, w, h]
    exact reached.all

structure Opened (wm : WindowManager Contents Disk) (settled : Prop) : Prop where
  roomy : Roomy wm.screenW wm.screenH
  on : ReachedOn wm settled

theorem Opened.reached (opened : Opened wm True) : Reached wm :=
  ⟨opened.roomy, allReached_iff.mpr opened.on⟩

theorem opened_alter {i : Nat} {change : Window Contents → Window Contents}
    (opened : Opened wm settled)
    (keeps : ∀ win, wm.windows[i]? = some win → KeepsReach wm change win) :
    Opened (wm.alter i change) settled :=
  ⟨opened.roomy, reachedOn_alter opened.on keeps⟩

theorem reached_alter {i : Nat} {change : Window Contents → Window Contents} (reached : Reached wm)
    (keeps : ∀ win, wm.windows[i]? = some win → KeepsReach wm change win) :
    Reached (wm.alter i change) :=
  ⟨reached.roomy, allReached_alter reached.all keeps⟩

theorem screen_spawnWindow (title : Text) (resizable : Bool) (appId : Option AppId)
    (kind : AppKind Contents) :
    (wm.spawnWindow apps title resizable appId kind).1.screenW = wm.screenW ∧
      (wm.spawnWindow apps title resizable appId kind).1.screenH = wm.screenH := by
  unfold spawnWindow
  simp only
  split
  · unfold restoreSize
    simp only
    split <;> exact ⟨rfl, rfl⟩
  · exact ⟨rfl, rfl⟩

theorem opened_spawnWindow (reached : Reached wm) {title : Text} {resizable : Bool}
    {appId : Option AppId} {kind : AppKind Contents}
    (flag : ∀ id, appId = some id → resizable = resizableApp id)
    (opens : settled → wm.OpensReached appId) :
    Opened (wm.spawnWindow apps title resizable appId kind).1 settled := by
  obtain ⟨w, h⟩ := @screen_spawnWindow _ _ apps wm title resizable appId kind
  refine ⟨?_, reachedOn_spawnWindow reached.roomy reached.all flag opens⟩
  rw [w, h]
  exact reached.roomy

theorem place_runIn (path : Text) (disk : Disk) (win : Window Contents) :
    (runIn apps path disk win).1.x = win.x ∧ (runIn apps path disk win).1.y = win.y := by
  unfold runIn
  split <;> exact ⟨rfl, rfl⟩

theorem keepsReach_promptIn (win : Window Contents) : KeepsReach wm (promptIn apps) win := by
  apply keepsReach_unmoved (same_promptIn win)
  · unfold promptIn
    split <;> rfl
  · unfold promptIn
    split <;> rfl

section

variable (reached : Reached wm)
include reached

theorem opened_launchElfInTerminal (path : Text) (opens : settled → wm.OpensReached none) :
    Opened (wm.launchElfInTerminal apps path) settled := by
  have spawned : Opened (wm.spawnWindow apps ("Terminal: ".toList ++ path) true none
      (wm.newTerminal apps)).1 settled :=
    opened_spawnWindow reached (fun _ never => nomatch never) opens
  unfold launchElfInTerminal
  simp only
  generalize wm.spawnWindow apps ("Terminal: ".toList ++ path) true none (wm.newTerminal apps) = made
    at spawned ⊢
  split
  · exact spawned
  · rename_i win found
    have ran : Opened (made.1.alter made.2 (fun _ => (runIn apps path made.1.disk win).1))
        settled := by
      apply opened_alter spawned
      intro other at_index
      cases found.symm.trans at_index
      exact keepsReach_unmoved (same_runIn path win) (place_runIn path _ win).1
        (place_runIn path _ win).2
    exact ⟨ran.roomy, ran.on⟩

theorem opened_dispatchAction (action : FsAction) (opens : settled → wm.OpensReached none) :
    Opened (wm.dispatchAction apps action) settled := by
  cases action with
  | runTerminal path => exact opened_launchElfInTerminal reached path opens
  | openText path content =>
      exact opened_spawnWindow reached (fun _ never => nomatch never) opens
  | openImage path content =>
      exact opened_spawnWindow reached (fun _ never => nomatch never) opens

theorem opened_spawnBuiltin (id : AppId) (opens : settled → wm.OpensReached (some id)) :
    Opened (wm.spawnBuiltin apps id).1 settled := by
  apply opened_spawnWindow reached
  · intro other same
    cases same
    exact builtin_resizable id
  · exact opens

theorem opened_runLauncherAction (action : LauncherAction)
    (opens : settled → wm.OpensReached action.appId) :
    Opened (wm.runLauncherAction apps action) settled := by
  cases action with
  | terminal =>
      have spawned : Opened (wm.spawnBuiltin apps .terminal).1 settled :=
        opened_spawnBuiltin reached .terminal opens
      exact opened_alter spawned (fun win _ => keepsReach_promptIn win)
  | settings =>
      have saved : Reached { wm with disk := apps.saveSettings wm.settings wm.disk } :=
        ⟨reached.roomy, reached.all⟩
      exact opened_spawnBuiltin saved .settings opens
  | runElf path => exact opened_launchElfInTerminal reached path opens
  | calculator => exact opened_spawnBuiltin reached .calculator opens
  | files => exact opened_spawnBuiltin reached .files opens
  | notepad => exact opened_spawnBuiltin reached .notepad opens
  | sysInfo => exact opened_spawnBuiltin reached .sysInfo opens
  | paint => exact opened_spawnBuiltin reached .paint opens
  | imageViewer => exact opened_spawnBuiltin reached .imageViewer opens

theorem reached_applyResolution {w h : UInt32} (roomy : Roomy w h) :
    Reached (wm.applyResolution apps w h) := by
  unfold applyResolution
  split
  · exact reached
  · refine ⟨roomy, ?_⟩
    intro win mem shown
    obtain ⟨old, _, rfl⟩ := List.mem_map.mp mem
    have oldShown : old.visible = true := by
      rw [(same_reclamped old).visible] at shown
      exact shown
    unfold reclamped
    rw [if_pos oldShown]
    generalize sizedEq : ({ wm with
      screenW := w
      screenH := h
      cursorX := clamp wm.cursorX 0 (w.toInt32 - 1)
      cursorY := clamp wm.cursorY 0 (h.toInt32 - 1) } : WindowManager Contents Disk) = sized
    have sizedRoomy : Roomy sized.screenW sized.screenH := by
      rw [← sizedEq]
      exact roomy
    have corner := inBounds_corner sizedRoomy old.x old.y
    split
    · exact corner
    · exact corner

theorem reached_applyFontScale (scale : UInt8) : Reached (wm.applyFontScale apps scale) := by
  refine ⟨reached.roomy, ?_⟩
  intro win mem shown
  obtain ⟨old, _, rfl⟩ := List.mem_map.mp mem
  generalize scaledEq : ({ wm with display := { wm.display with fontScale := max scale 1 } } :
    WindowManager Contents Disk) = scaled at shown ⊢
  have roomy : Roomy scaled.screenW scaled.screenH := by
    rw [← scaledEq]
    exact reached.roomy
  have corner := inBounds_corner roomy old.x old.y
  have isOpen : old.isOpen = true := by
    rw [(same_rescaled old).visible, Window.visible, Bool.and_eq_true] at shown
    exact shown.1
  rw [← scaledEq] at corner ⊢
  unfold rescaled
  simp only [isOpen, Bool.not_true, Bool.false_eq_true, if_false]
  split
  · exact corner
  · split
    · exact corner
    · exact corner

theorem reached_applyChange (change : SettingsChange)
    (offered : ∀ w h, change = .resolution w h → Roomy w h) :
    Reached (wm.applyChange apps change) := by
  cases change with
  | none => exact reached
  | reload => exact ⟨reached.roomy, reached.all⟩
  | resolution w h => exact reached_applyResolution reached (offered w h rfl)
  | fontScale scale => exact reached_applyFontScale reached scale

end

theorem handleClick_offered (kind : AppKind Contents) {display : Display} {x y : Int32}
    {disk : Disk} {w h : UInt32}
    (asked : (kind.handleClick apps display x y disk).change = .resolution w h) : Roomy w h := by
  cases kind with
  | settings app => exact roomy_supported (SettingsApp.handleClick_resolution asked)
  | terminal cols rows contents => cases asked
  | sysInfo cols rows contents => cases asked
  | editor cols rows contents => cases asked
  | calculator contents => cases asked
  | fileExplorer app => cases asked
  | paint contents => cases asked
  | imageViewer contents => cases asked

theorem collides_alter {i : Nat} {change : Window Contents → Window Contents} {x y : Int32}
    (same : ∀ win, (change win).visible = win.visible ∧ (change win).x = win.x ∧
      (change win).y = win.y) (taken : wm.collides x y = true) :
    (wm.alter i change).collides x y = true := by
  obtain ⟨win, mem, near⟩ := List.any_eq_true.mp taken
  obtain ⟨j, found⟩ := List.mem_iff_getElem?.mp mem
  obtain ⟨shown, left, top⟩ := same win
  apply List.any_eq_true.mpr
  refine ⟨if i = j then change win else win, ?_, ?_⟩
  · apply List.mem_of_getElem?
    change (wm.windows.modify i change)[j]? = _
    rw [List.getElem?_modify, found]
    split <;> rfl
  · split
    · rw [shown, left, top]
      exact near
    · exact near

theorem opensReached_typed {i j : Nat} {kind : AppKind Contents} {disk : Disk}
    {press : Option PressState} (opens : wm.OpensReached none) :
    ({ (wm.raise i).alter j (fun win => { win with kind }) with disk, pressState := press } :
      WindowManager Contents Disk).OpensReached none := by
  rcases opens with offset | taken
  · exact Or.inl offset
  · refine Or.inr ?_
    have raised : (wm.raise i).collides (wm.cascade (wm.spawnCounter + 1)).1
        (wm.cascade (wm.spawnCounter + 1)).2 = true :=
      ((Layers.toTop_perm wm.windows i).any_eq).trans taken
    exact @collides_alter _ _ (wm.raise i) j (fun win => { win with kind }) _ _
      (fun _ => ⟨rfl, rfl, rfl⟩) raised

theorem reached_grabTitle {win : Window Contents} (reached : Reached wm)
    (found : wm.windows[wm.focused]? = some win)
    (back : win.maximized = true → wm.RestoreReached win) :
    Reached (wm.grabTitle apps win) := by
  have restored : Reached (if win.maximized then wm.unmaximizeWindow apps wm.focused else wm) := by
    split
    · apply reached_alter reached
      intro other at_focus
      cases found.symm.trans at_focus
      exact keepsReach_unmaximize back
    · exact reached
  unfold grabTitle
  simp only
  split
  · exact restored
  · exact ⟨restored.roomy, restored.all⟩

theorem reached_clickContent {i : Nat} {win : Window Contents} (reached : Reached wm)
    (opens : (win.kind.handleClick apps wm.display (wm.cursorX - win.x)
      (wm.cursorY - win.y - titleBarHeight.toInt32) wm.disk).action.isSome = true →
        wm.OpensReached none) : Reached ((wm.raise i).clickContent apps win) := by
  have offered : ∀ w h, (win.kind.handleClick apps wm.display (wm.cursorX - win.x)
      (wm.cursorY - win.y - titleBarHeight.toInt32) wm.disk).change = .resolution w h →
        Roomy w h := fun w h asked => handleClick_offered win.kind asked
  have raised : Reached (wm.raise i) := ⟨reached.roomy, allReached_raise reached.all⟩
  have typed : ∀ kind disk press,
      Reached ({ (wm.raise i).alter (wm.raise i).focused (fun win => { win with kind }) with
        disk, pressState := press } : WindowManager Contents Disk) := by
    intro kind disk press
    have altered := @reached_alter _ _ (wm.raise i) (wm.raise i).focused
      (fun win => { win with kind }) raised (fun _ _ reachable shown => reachable shown)
    exact ⟨altered.roomy, altered.all⟩
  unfold clickContent
  simp only
  change Reached (applyChange apps (answerClick apps
    { (wm.raise i).alter (wm.raise i).focused (fun other => { other with
        kind := (win.kind.handleClick apps wm.display (wm.cursorX - win.x)
          (wm.cursorY - win.y - titleBarHeight.toInt32) wm.disk).kind }) with
      disk := (win.kind.handleClick apps wm.display (wm.cursorX - win.x)
        (wm.cursorY - win.y - titleBarHeight.toInt32) wm.disk).disk }
    (win.kind.handleClick apps wm.display (wm.cursorX - win.x)
      (wm.cursorY - win.y - titleBarHeight.toInt32) wm.disk).action
    (win.kind.handleClick apps wm.display (wm.cursorX - win.x)
      (wm.cursorY - win.y - titleBarHeight.toInt32) wm.disk).item win)
    (win.kind.handleClick apps wm.display (wm.cursorX - win.x)
      (wm.cursorY - win.y - titleBarHeight.toInt32) wm.disk).change)
  generalize win.kind.handleClick apps wm.display (wm.cursorX - win.x)
    (wm.cursorY - win.y - titleBarHeight.toInt32) wm.disk = clicked at opens offered ⊢
  apply reached_applyChange _ _ offered
  unfold answerClick
  split
  · rename_i action item answered
    have ready := opens (by rw [answered]; rfl)
    apply Opened.reached
    apply opened_dispatchAction (typed clicked.kind clicked.disk none)
    exact fun _ => opensReached_typed ready
  · exact typed _ _ _
  · exact typed _ _ _

theorem reached_applyPart {i : Nat} {win : Window Contents} {part : Part}
    (found : wm.windows[i]? = some win) (reached : Reached wm)
    (safe : ClickReached apps wm (.part i win part)) :
    Reached (wm.applyPart apps i win part) := by
  have raised : Reached (wm.raise i) := ⟨reached.roomy, allReached_raise reached.all⟩
  have top : (wm.raise i).windows[(wm.raise i).focused]? = some win :=
    Layers.getElem?_toTop_top found
  cases part with
  | grip => exact ⟨raised.roomy, raised.all⟩
  | close =>
      have remembered : Reached (wm.rememberGeometry i) := by
        have screen : (wm.rememberGeometry i).screenW = wm.screenW ∧
            (wm.rememberGeometry i).screenH = wm.screenH := by
          unfold rememberGeometry
          split
          · exact ⟨rfl, rfl⟩
          · split <;> exact ⟨rfl, rfl⟩
        exact reached.frame (windows_rememberGeometry i) screen.1 screen.2
      have closed := @reached_alter _ _ (wm.rememberGeometry i) i
        (fun win => { win with isOpen := false }) remembered
        (fun win _ => keepsReach_hidden rfl)
      exact ⟨closed.roomy, closed.all⟩
  | maximize =>
      have changed : Reached (if win.maximized
          then (wm.raise i).unmaximizeWindow apps (wm.raise i).focused
          else (wm.raise i).maximizeWindow apps (wm.raise i).focused) := by
        split
        · apply reached_alter raised
          intro other at_focus
          cases top.symm.trans at_focus
          exact keepsReach_unmaximize safe
        · exact reached_alter raised (fun other _ => keepsReach_maximize raised.roomy other _ _)
      exact ⟨changed.roomy, changed.all⟩
  | minimize =>
      have hidden := @reached_alter _ _ wm i (fun win => { win with minimized := true })
        reached (fun win _ => keepsReach_hidden (by simp [Window.visible]))
      exact ⟨hidden.roomy, hidden.all⟩
  | title => exact reached_grabTitle raised top safe
  | content => exact reached_clickContent reached safe

theorem reached_handleClick (reached : Reached wm)
    (safe : ClickReached apps wm wm.clickTarget) : Reached (wm.handleClick apps) := by
  have valid := @clickTarget_valid _ _ wm
  unfold handleClick
  cases target : wm.clickTarget with
  | launch action =>
      rw [target] at safe
      have closed : Reached { wm with launcherOpen := false } := ⟨reached.roomy, reached.all⟩
      have opened : Opened ({ wm with launcherOpen := false }.runLauncherAction apps action) True :=
        opened_runLauncherAction closed action (fun _ => safe)
      exact ⟨opened.roomy, opened.reached.all⟩
  | dismiss => exact ⟨reached.roomy, reached.all⟩
  | startMenu => exact ⟨reached.roomy, reached.all⟩
  | taskbar i =>
      rw [target] at safe
      have shown := @reached_alter _ _ wm i (fun win => { win with minimized := false })
        reached (fun win found => keepsReach_placed (safe win found))
      exact ⟨shown.roomy, allReached_raise shown.all⟩
  | part i win part =>
      rw [target] at valid safe
      exact reached_applyPart valid.1 reached safe
  | nothing => exact reached

theorem reached_handleKey {event : Event} (reached : Reached wm)
    (safe : StepReached apps wm (.key event)) : Reached (wm.handleKey apps event) := by
  unfold handleKey
  cases found : wm.keyWindow with
  | none => exact reached
  | some win =>
      have opening := (@handleKey_action _ _ apps wm win found event).mp
      simp only
      generalize win.kind.handleKey apps event wm.disk = answer at opening ⊢
      obtain ⟨action, kind, disk⟩ := answer
      have altered := @reached_alter _ _ wm wm.focused (fun win => { win with kind }) reached
        (fun _ _ reachable shown => reachable shown)
      have typed : Reached ({ wm.alter wm.focused (fun win => { win with kind }) with disk } :
          WindowManager Contents Disk) := ⟨altered.roomy, altered.all⟩
      cases action with
      | none => exact typed
      | some action =>
          obtain ⟨enter, opens⟩ := opening rfl
          apply Opened.reached
          apply opened_dispatchAction typed
          intro _
          rcases safe enter opens with offset | taken
          · exact Or.inl offset
          · exact Or.inr (@collides_alter _ _ wm wm.focused (fun win => { win with kind }) _ _
              (fun _ => ⟨rfl, rfl, rfl⟩) taken)

theorem reached_setExplorerDrag (reached : Reached wm) (drag : Option (Text × Bool)) :
    Reached (wm.setExplorerDrag apps drag) := by
  refine ⟨reached.roomy, allReached_map reached.all rfl rfl rfl ?_⟩
  intro win reachable shown
  revert shown
  simp only
  split <;> exact reachable

theorem reached_beginFileDrag (reached : Reached wm) (press : PressState) :
    Reached (wm.beginFileDrag apps press) := by
  unfold beginFileDrag
  split
  · exact ⟨reached.roomy, reached.all⟩
  · rename_i path isDir _
    have begun : Reached ({ wm with
        pressState := none
        fileDrag := some ⟨press.windowIndex, path, isDir, press.grabbed⟩ } :
          WindowManager Contents Disk) := ⟨reached.roomy, reached.all⟩
    exact reached_setExplorerDrag begun _

theorem reached_applyDrop (reached : Reached wm) (drag : FileDragState) :
    Reached (wm.applyDrop apps drag) := by
  have dropped : ∀ i win, Reached (wm.dropOn apps drag i win).2 := by
    intro i win
    unfold dropOn
    split
    · have altered : ∀ app : FileExplorer Contents,
          Reached (wm.alter i (fun win => { win with kind := .fileExplorer app })) :=
        fun app => reached_alter reached (fun _ _ reachable shown => reachable shown)
      exact (altered _).frame rfl rfl rfl
    · exact reached
  unfold applyDrop
  split
  · exact reached
  · simp only
    split
    · apply reached_alter (dropped _ _)
      intro win _ reachable shown
      revert shown
      simp only
      split <;> exact reachable
    · exact dropped _ _

theorem reached_finishFileDrag (reached : Reached wm) (drag : FileDragState) :
    Reached (wm.finishFileDrag apps drag) := by
  have ended : Reached { wm with fileDrag := none } := ⟨reached.roomy, reached.all⟩
  have dropped := @reached_applyDrop _ _ apps { wm with fileDrag := none } ended drag
  have released : Reached ({ { wm with fileDrag := none }.applyDrop apps drag with pressState := none } :
      WindowManager Contents Disk) := ⟨dropped.roomy, dropped.all⟩
  exact reached_setExplorerDrag released none

theorem reached_dragEvent (reached : Reached wm) (left : Bool) : Reached (wm.dragEvent left) := by
  unfold dragEvent
  split
  · split
    · exact reached_alter reached (fun _ _ =>
        keepsReach_placed (inBounds_dragged reached.roomy _ _))
    · exact reached
  · exact reached

theorem reached_resizeMotion (reached : Reached wm) (held : ResizeState) :
    Reached (wm.resizeMotion apps held) := by
  unfold resizeMotion
  split
  · exact reached
  · simp only
    split
    · have resized : ∀ cols rows, Reached (wm.alter held.windowIndex
          (fun win => win.resize apps wm.disk cols rows)) :=
        fun cols rows => reached_alter reached (fun win _ =>
          keepsReach_unmoved (same_resize win cols rows) rfl rfl)
      exact (resized _ _).frame rfl rfl rfl
    · exact reached

theorem reached_unpressed {event : MouseEvent} (reached : Reached wm)
    (unpressed : (event.left && !wm.leftWasDown) = false) : Reached (wm.handleMouse apps event) := by
  have moved : Reached (wm.moveCursor event) := ⟨reached.roomy, reached.all⟩
  unfold handleMouse
  simp only [unpressed]
  generalize wm.moveCursor event = next at moved ⊢
  generalize (!event.left && wm.leftWasDown) = released
  split
  · rename_i held _
    have sized : Reached (if event.left then next.resizeMotion apps held else next) := by
      split
      · exact reached_resizeMotion moved held
      · exact moved
    unfold resizeEvent
    simp only
    split
    · exact ⟨sized.roomy, sized.all⟩
    · exact sized
  · unfold fileDragEvent
    split
    · exact reached_finishFileDrag moved _
    · exact moved
  · have pressed : Reached (next.pressEvent apps event.left) := by
      unfold pressEvent
      split
      · split
        · exact reached_beginFileDrag moved _
        · exact moved
      · exact moved
    split
    · exact pressed
    · have dragged := reached_dragEvent pressed event.left
      unfold plainEvent
      simp only [Bool.false_eq_true, if_false]
      split
      · unfold releaseEvent
        split
        · exact ⟨dragged.roomy, dragged.all⟩
        · exact ⟨dragged.roomy, dragged.all⟩
      · exact dragged

theorem reached_step {input : Input} (orderly : Orderly wm) (reached : Reached wm)
    (safe : StepReached apps wm input) : Reached (wm.step apps input) := by
  cases input with
  | key event => exact reached_handleKey reached safe
  | mouse event =>
      change Reached (wm.handleMouse apps event)
      cases pressed : event.left && !wm.leftWasDown with
      | false => exact reached_unpressed reached pressed
      | true =>
          rw [Bool.and_eq_true, Bool.not_eq_true'] at pressed
          rw [handleMouse_press orderly pressed.1 pressed.2]
          have moved : Reached (wm.moveCursor event) := ⟨reached.roomy, reached.all⟩
          exact reached_handleClick moved (safe pressed.1 pressed.2)

theorem screen_runLauncherAction (action : LauncherAction) :
    (wm.runLauncherAction apps action).screenW = wm.screenW ∧
      (wm.runLauncherAction apps action).screenH = wm.screenH := by
  cases action with
  | runElf path =>
      have spawned := @screen_spawnWindow _ _ apps wm ("Terminal: ".toList ++ path) true none
        (wm.newTerminal apps)
      change (wm.launchElfInTerminal apps path).screenW = _ ∧
        (wm.launchElfInTerminal apps path).screenH = _
      unfold launchElfInTerminal
      simp only
      split
      · exact spawned
      · exact spawned
  | _ => exact screen_spawnWindow _ _ _ _

theorem reached_fitEntry {entry : SessionWindow} {maxX maxY : Int32} (opened : Opened wm settled)
    (right : wm.maxX = maxX) (bottom : wm.maxY = maxY) :
    Reached (wm.fitEntry apps entry maxX maxY wm.focused) := by
  subst right bottom
  have moved : Reached (wm.alter wm.focused (fun win =>
      { win with x := clamp entry.x 0 wm.maxX, y := clamp entry.y 0 wm.maxY })) :=
    ⟨opened.roomy, reachedOn_settle opened.on (fun win _ =>
      inBounds_corner opened.roomy entry.x entry.y)⟩
  unfold fitEntry
  simp only
  generalize wm.alter wm.focused (fun win =>
    { win with x := clamp entry.x 0 wm.maxX, y := clamp entry.y 0 wm.maxY }) = next at moved ⊢
  have sized : Reached (if !entry.maximized && decide (0 < entry.cols) then
      next.alter wm.focused (fun win =>
        win.resize apps next.disk (max entry.cols minCols) (max entry.rows minRows))
      else next) := by
    split
    · exact reached_alter moved (fun win _ =>
        keepsReach_unmoved (same_resize win _ _) rfl rfl)
    · exact moved
  split
  · exact reached_alter sized (fun win _ => keepsReach_maximize sized.roomy win _ _)
  · exact sized

theorem reached_restoreEntry (reached : Reached wm) (entry : SessionWindow) :
    Reached (wm.restoreEntry apps entry) := by
  unfold restoreEntry
  split
  · exact reached
  · rename_i id _
    split
    · exact reached
    · simp only
      have opened : Opened (wm.runLauncherAction apps (builtinAction id)) False :=
        opened_runLauncherAction reached _ False.elim
      have brought : Brought wm (wm.runLauncherAction apps (builtinAction id)) :=
        brought_runLauncherAction _
      obtain ⟨w, h⟩ := @screen_runLauncherAction _ _ apps wm (builtinAction id)
      generalize wm.runLauncherAction apps (builtinAction id) = next at opened brought w h ⊢
      have right : next.maxX = wm.maxX := by rw [maxX, w, maxX]
      have bottom : next.maxY = wm.maxY := by rw [maxY, h, maxY]
      have fitted : Reached (next.fitEntry apps entry wm.maxX wm.maxY next.focused) :=
        reached_fitEntry opened right bottom
      have inside : Inside next (next.fitEntry apps entry wm.maxX wm.maxY next.focused) :=
        inside_fitEntry entry _ _ _
      have top := brought.focused
      rw [← inside.outline] at top
      apply reached_alter fitted
      intro win found reachable _
      rw [getElem?_outline, found, Option.map_some, Option.some.injEq] at top
      apply reachable
      rw [Window.visible, show win.isOpen = true from congrArg Outline.isOpen top,
        show win.minimized = false from congrArg Outline.minimized top]
      rfl

theorem reached_new {screenW screenH : UInt32} (roomy : Roomy screenW screenH) (display : Display)
    (disk : Disk) : Reached (new apps screenW screenH display disk) :=
  new_induction (fun _ => ⟨roomy, fun _ mem => (nomatch mem)⟩)
    (fun _ entry reached => reached_restoreEntry reached entry)
    (fun _ reached => reached.frame rfl rfl rfl)

/-- In a run from any session, on a screen of at least 800x600, every visible window can be reached
in every state as long as no step puts a window at a place beyond the screen. -/
theorem all_reached_of_safe_steps (apps : Apps Contents Disk) (screenW screenH : UInt32)
    (display : Display) (disk : Disk) (inputs : List Input)
    (wide : 800 ≤ screenW.toNat ∧ screenW.toNat < 2 ^ 31)
    (tall : 600 ≤ screenH.toNat ∧ screenH.toNat < 2 ^ 31)
    (safe : Runs.Meets (steps apps) (StepReached apps) (new apps screenW screenH display disk)
      inputs) :
    ∀ front, front <+: inputs →
      AllReached ((new apps screenW screenH display disk).run apps front) := by
  intro front early
  have start : Roomy screenW screenH := ⟨wide.1, by omega, wide.2, tall.2⟩
  have kept := @Runs.after_invariant _ _ (steps apps) (StepReached apps)
    (fun wm => Orderly wm ∧ Reached wm)
    (fun state input next holds met stepped => by
      cases stepped
      exact ⟨orderly_step input holds.1, reached_step holds.1 holds.2 met⟩)
    _ _ front
    ⟨(steady_new screenW screenH display disk).toOrderly, reached_new start display disk⟩
    (safe.front early) (after_steps apps _ front)
  exact kept.2.all

end WindowManager

namespace Sample

open WindowManager

def farSession : Text := "remembered terminal 1800 900 70 30 0\n".toList

/-- A terminal opens where it was left, beyond the screen. -/
theorem terminal_opens_beyond_screen :
    ¬ ∀ front, front <+: launch 0 0 →
      AllReached ((new apps 800 600 display (disk (some farSession))).run apps front) := by
  intro reached
  have last := reached _ (List.prefix_refl _)
  have places : ((new apps 800 600 display (disk (some farSession))).run apps
      (launch 0 0)).windows.map (fun win => (win.x, win.visible)) = [(1800, true)] := by
    decide
  have screen : ((new apps 800 600 display (disk (some farSession))).run apps
      (launch 0 0)).screenW = 800 := by decide
  have present : (1800, true) ∈ ((new apps 800 600 display (disk (some farSession))).run apps
      (launch 0 0)).windows.map (fun win => (win.x, win.visible)) := by
    rw [places]
    exact List.mem_cons_self
  obtain ⟨win, mem, shape⟩ := List.mem_map.mp present
  obtain ⟨x, shown⟩ := Prod.mk.injEq .. ▸ shape
  have right := (last win mem shown).1.2
  rw [x, screen] at right
  exact absurd right (by decide)

theorem launch_safe : Runs.Meets (steps apps) (StepReached apps)
    (new apps 800 600 display (disk none)) (launch 0 0) := by
  simp only [launch, clickAt, click, List.cons_append, List.nil_append]
  refine ⟨fun down => (nomatch down), fun corner moved => ?_⟩
  cases moved
  refine ⟨fun _ _ => trivial, fun menu pressed => ?_⟩
  cases pressed
  refine ⟨fun down => (nomatch down), fun released up => ?_⟩
  cases up
  refine ⟨fun down => (nomatch down), fun again moved => ?_⟩
  cases moved
  refine ⟨fun _ _ => Or.inl (by decide), fun terminal pressed => ?_⟩
  cases pressed
  exact ⟨fun down => (nomatch down), fun _ _ => trivial⟩

theorem all_reached_of_safe_steps_sample :
    800 ≤ (800 : UInt32).toNat ∧ ∀ front, front <+: launch 0 0 →
      AllReached ((new apps 800 600 display (disk none)).run apps front) :=
  ⟨by decide, all_reached_of_safe_steps apps 800 600 display (disk none) (launch 0 0)
    ⟨by decide, by decide⟩ ⟨by decide, by decide⟩ launch_safe⟩

end Sample

end Desktop

end MachaOS
