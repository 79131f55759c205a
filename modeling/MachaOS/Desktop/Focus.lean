/-
Which window a key reaches: the focus is on a visible window as long as there is one, and at the
bottom of the stack, whatever lies there, once there is none.
-/

import MachaOS.Desktop.Sample
import MachaOS.Desktop.Stack

namespace MachaOS

namespace Desktop

open Keyboard

namespace WindowManager

open Window

variable {Contents Disk : Type} {apps : Apps Contents Disk} {wm : WindowManager Contents Disk}

def receiver (wm : WindowManager Contents Disk) : Option (Window Contents) :=
  wm.keyWindow.filter (fun win => win.kind.takesKeys)

def KeyLands (apps : Apps Contents Disk) (wm : WindowManager Contents Disk) : Input → Prop
  | .mouse _ => True
  | .key event =>
      (∀ win, wm.receiver = some win → win.visible = true) ∧
        ((∀ win ∈ wm.windows, win.visible = false) →
          wm.receiver = none ∧ (wm.handleKey apps event).disk = wm.disk)

def BottomSilent (wm : WindowManager Contents Disk) : Input → Prop
  | .mouse _ => True
  | .key _ =>
      (∃ win ∈ wm.windows, win.visible = true) ∨
        ∀ win ∈ wm.windows.head?, win.kind.takesKeys = false

def FocusKept (wm : WindowManager Contents Disk) : Prop :=
  Layers.Focused Window.visible wm.windows wm.focused

theorem FocusKept.inside {next : WindowManager Contents Disk} (kept : FocusKept wm)
    (inside : Inside wm next) : FocusKept next := by
  rw [FocusKept, inside.focused]
  apply Layers.focused_congr _ kept
  intro i
  have same := congrArg (fun outline => outline[i]?.map Outline.visible) inside.outline
  simp only [getElem?_outline, Option.map_map] at same
  exact same

theorem focusKept_of_focused {outline : Outline} (inFocus : wm.outline[wm.focused]? = some outline)
    (shown : outline.visible = true) : FocusKept wm := by
  rw [getElem?_outline] at inFocus
  obtain ⟨win, found, rfl⟩ := Option.map_eq_some_iff.mp inFocus
  exact Layers.focused_of_shown found shown

theorem Brought.focusKept {next : WindowManager Contents Disk} (brought : Brought wm next) :
    FocusKept next :=
  focusKept_of_focused brought.focused rfl

theorem focusKept_raise {i : Nat} {win : Window Contents} (found : wm.windows[i]? = some win)
    (shown : win.visible = true) : FocusKept (wm.raise i) :=
  Layers.focused_of_shown (Layers.getElem?_toTop_top found) shown

theorem focusKept_hide {i : Nat} {win : Window Contents}
    {change : Window Contents → Window Contents} (found : wm.windows[i]? = some win)
    (shown : win.visible = true) (kept : FocusKept wm) :
    FocusKept ((wm.alter i change).refocusAfterHide i) :=
  Layers.focused_hide found shown kept

theorem focusKept_answerClick (action : Option FsAction) (item : Option Nat)
    (win : Window Contents) (kept : FocusKept wm) :
    FocusKept (wm.answerClick apps action item win) := by
  unfold answerClick
  split
  · exact (brought_dispatchAction _).focusKept
  · exact kept
  · exact kept

theorem focusKept_clickContent (win : Window Contents) (kept : FocusKept wm) :
    FocusKept (wm.clickContent apps win) :=
  (focusKept_answerClick _ _ win (kept.inside (inside_kind _ _ _))).inside (inside_applyChange _)

theorem focusKept_grabTitle (win : Window Contents) (kept : FocusKept wm) :
    FocusKept (wm.grabTitle apps win) := by
  have restored : FocusKept
      (if win.maximized then wm.unmaximizeWindow apps wm.focused else wm) := by
    split
    · exact kept.inside (inside_unmaximizeWindow _)
    · exact kept
  unfold grabTitle
  simp only
  split
  · exact restored
  · exact restored

theorem focusKept_applyPart {i : Nat} {win : Window Contents} (part : Part)
    (found : wm.windows[i]? = some win) (shown : win.visible = true)
    (kept : FocusKept wm) : FocusKept (wm.applyPart apps i win part) := by
  have raised : FocusKept (wm.raise i) := focusKept_raise found shown
  cases part with
  | grip => exact raised
  | close =>
      have remembered : (wm.rememberGeometry i).windows[i]? = some win := by
        rw [windows_rememberGeometry]
        exact found
      exact focusKept_hide remembered shown (kept.inside (inside_rememberGeometry i))
  | maximize =>
      change FocusKept (if win.maximized then (wm.raise i).unmaximizeWindow apps (wm.raise i).focused
        else (wm.raise i).maximizeWindow apps (wm.raise i).focused)
      split
      · exact raised.inside (inside_unmaximizeWindow _)
      · exact raised.inside (inside_maximizeWindow _)
  | minimize => exact focusKept_hide found shown kept
  | title => exact focusKept_grabTitle win raised
  | content => exact focusKept_clickContent win raised

theorem focusKept_handleClick (kept : FocusKept wm) : FocusKept (wm.handleClick apps) := by
  have valid := @clickTarget_valid _ _ wm
  unfold handleClick
  cases target : wm.clickTarget with
  | launch action =>
      have run := (@brought_runLauncherAction _ _ apps { wm with launcherOpen := false }
        action).focusKept
      exact run
  | dismiss => exact kept
  | startMenu => exact kept
  | taskbar i =>
      rw [target] at valid
      obtain ⟨win, found, isOpen⟩ := valid
      have now : (wm.alter i (fun win => { win with minimized := false })).windows[i]? =
          some { win with minimized := false } := by
        rw [alter, List.getElem?_modify_eq, found]
        rfl
      apply focusKept_raise now
      rw [Window.visible, isOpen]
      rfl
  | part i win part =>
      rw [target] at valid
      exact focusKept_applyPart part valid.1 (visible_of_partAt valid.2) kept
  | nothing => exact kept

theorem focusKept_handleKey (event : Event) (kept : FocusKept wm) :
    FocusKept (wm.handleKey apps event) := by
  unfold handleKey
  split
  · exact kept
  · simp only
    split
    · exact (brought_dispatchAction _).focusKept
    · exact kept.inside (inside_kind _ _ _)

theorem focusKept_finishFileDrag (drag : FileDragState) (kept : FocusKept wm) :
    FocusKept (wm.finishFileDrag apps drag) := by
  have released : FocusKept { wm with fileDrag := none } := kept
  have dropped : FocusKept ({ wm with fileDrag := none }.applyDrop apps drag) :=
    released.inside (inside_applyDrop drag)
  refine FocusKept.inside ?_ (inside_setExplorerDrag none)
  exact dropped

theorem focusKept_resizeEvent (held : ResizeState) (left justReleased : Bool)
    (resizing : wm.resizing = some held) (kept : FocusKept wm) :
    FocusKept (wm.resizeEvent apps held left justReleased) := by
  have sized : FocusKept (if left then wm.resizeMotion apps held else wm) := by
    split
    · exact kept.inside (inside_resizeMotion held resizing)
    · exact kept
  unfold resizeEvent
  simp only
  split
  · exact sized
  · exact sized

theorem focusKept_pressEvent (left : Bool) (kept : FocusKept wm) :
    FocusKept (wm.pressEvent apps left) := by
  unfold pressEvent
  split
  · split
    · unfold beginFileDrag
      split
      · exact kept
      · refine FocusKept.inside ?_ (inside_setExplorerDrag _)
        exact kept
    · exact kept
  · exact kept

theorem focusKept_releaseEvent (kept : FocusKept wm) : FocusKept (wm.releaseEvent apps) := by
  unfold releaseEvent
  split
  · exact kept
  · exact kept

theorem focusKept_plainEvent (left justPressed justReleased : Bool) (kept : FocusKept wm) :
    FocusKept (wm.plainEvent apps left justPressed justReleased) := by
  have dragged := kept.inside (inside_dragEvent left)
  have released : FocusKept
      (if justReleased then (wm.dragEvent left).releaseEvent apps else wm.dragEvent left) := by
    split
    · exact focusKept_releaseEvent dragged
    · exact dragged
  unfold plainEvent
  simp only
  split
  · exact focusKept_handleClick released
  · exact released

theorem focusKept_step (input : Input) (kept : FocusKept wm) : FocusKept (wm.step apps input) := by
  cases input with
  | key event => exact focusKept_handleKey event kept
  | mouse event =>
      have moved : FocusKept (wm.moveCursor event) := kept
      change FocusKept (wm.handleMouse apps event)
      unfold handleMouse
      simp only
      split
      · rename_i resizing
        exact focusKept_resizeEvent _ _ _ resizing moved
      · unfold fileDragEvent
        split
        · exact focusKept_finishFileDrag _ moved
        · exact moved
      · split
        · exact focusKept_pressEvent _ moved
        · exact focusKept_plainEvent _ _ _ (focusKept_pressEvent _ moved)

theorem handleKey_silent {kind : AppKind Contents} (silent : kind.takesKeys = false)
    (event : Event) (disk : Disk) :
    kind.handleKey apps event disk = (none, kind, disk) := by
  cases kind with
  | settings app => rfl
  | sysInfo cols rows contents => rfl
  | calculator contents => rfl
  | _ => cases silent

theorem keyLands_iff (input : Input) (kept : FocusKept wm) :
    KeyLands apps wm input ↔ BottomSilent wm input := by
  cases input with
  | mouse event => exact Iff.rfl
  | key event =>
      by_cases shown : ∃ win ∈ wm.windows, win.visible = true
      · refine ⟨fun _ => Or.inl shown, fun _ => ⟨?_, ?_⟩⟩
        · intro win received
          obtain ⟨inFocus, found, visible⟩ := kept.onShown shown
          have same := (Option.filter_eq_some_iff.mp received).1
          rw [keyWindow, found] at same
          cases same
          exact visible
        · intro none
          obtain ⟨win, mem, visible⟩ := shown
          rw [none win mem] at visible
          cases visible
      · have none : ∀ win ∈ wm.windows, win.visible = false := by
          intro win mem
          cases visible : win.visible with
          | false => rfl
          | true => exact absurd ⟨win, mem, visible⟩ shown
        have bottom : wm.keyWindow = wm.windows.head? := by
          rw [keyWindow, kept.atBottom none, List.head?_eq_getElem?]
        constructor
        · intro lands
          refine Or.inr (fun win first => ?_)
          have unreceived := (lands.2 none).1
          rw [receiver, bottom, first] at unreceived
          cases takes : win.kind.takesKeys with
          | false => rfl
          | true =>
              rw [Option.filter_some, if_pos takes] at unreceived
              cases unreceived
        · intro silent
          have takesNone := silent.resolve_left shown
          have unreceived : wm.receiver = Option.none := by
            rw [receiver, bottom]
            cases first : wm.windows.head? with
            | none => rfl
            | some win =>
                rw [Option.filter_some, takesNone win first]
                rfl
          refine ⟨?_, fun _ => ⟨unreceived, ?_⟩⟩
          · intro win received
            rw [unreceived] at received
            cases received
          · unfold handleKey
            split
            · rfl
            · rename_i win found
              rw [bottom] at found
              simp only [handleKey_silent (takesNone win found)]

theorem focusKept_new {screenW screenH : UInt32} {display : Display} {disk : Disk}
    (empty : (loadSession apps disk).windows = []) :
    FocusKept (new apps screenW screenH display disk) := by
  have start : FocusKept (emptyDesktop apps screenW screenH display disk) := Layers.focused_nil
  unfold new restoreSession
  simp only
  split
  · exact start
  · have none : (loadSession apps
        (emptyDesktop apps screenW screenH display disk).disk).windows = [] := empty
    obtain ⟨remembered, after⟩ := rememberEntries_frame
      (loadSession apps (emptyDesktop apps screenW screenH display disk).disk).remembered
      (emptyDesktop apps screenW screenH display disk)
    rw [none, List.foldl_nil, after]
    exact start

/-- From an empty desktop, the keys of a run reach only visible windows exactly if none of them
comes while no window is visible and the bottom one takes keys. -/
theorem keys_land_iff_bottom_silent (apps : Apps Contents Disk) (screenW screenH : UInt32)
    (display : Display) (disk : Disk) (empty : (loadSession apps disk).windows = [])
    (inputs : List Input) :
    Runs.Meets (steps apps) (KeyLands apps) (new apps screenW screenH display disk) inputs ↔
      Runs.Meets (steps apps) BottomSilent (new apps screenW screenH display disk) inputs := by
  refine @Runs.meets_congr _ _ _ _ _ FocusKept ?_ ?_ _ (focusKept_new empty) inputs
  · intro state input next kept stepped
    cases stepped
    exact focusKept_step input kept
  · intro state input kept
    exact keyLands_iff input kept

end WindowManager

namespace Sample

open WindowManager

def closing : List Input := launch 0 0 ++ clickAt 690 140

/-- A key typed after the last window is closed goes to the closed terminal. -/
theorem key_reaches_closed_terminal :
    ¬ Runs.Meets (steps apps) (KeyLands apps) (new apps 800 600 display (disk none))
        (closing ++ [.key (.char 'x')]) := by
  intro lands
  have last := lands.last (after_steps apps _ closing)
  have closed : ((new apps 800 600 display (disk none)).run apps closing).receiver.map
      Window.visible = some false := by decide
  obtain ⟨win, received, hidden⟩ := Option.map_eq_some_iff.mp closed
  have visible := last.1 win received
  rw [hidden] at visible
  cases visible

theorem keys_land_iff_bottom_silent_sample :
    Runs.Meets (steps apps) (KeyLands apps) (new apps 800 600 display (disk none)) closing ↔
      Runs.Meets (steps apps) BottomSilent (new apps 800 600 display (disk none)) closing :=
  keys_land_iff_bottom_silent apps 800 600 display (disk none) (by decide) closing

end Sample

end Desktop

end MachaOS
