/-
What the steps of the desktop leave alone: the screen changes only with the resolution, the size of the
glyphs only with the font scale, and the start menu only when it is opened or closed.

So in every run the font scale is one of the two offered, and an open start menu lists the terminal.
-/

import MachaOS.Desktop.Reach

namespace MachaOS

namespace Desktop

open Keyboard

namespace WindowManager

variable {Contents Disk : Type} {apps : Apps Contents Disk} {wm next : WindowManager Contents Disk}

structure SameLook (wm next : WindowManager Contents Disk) : Prop where
  display : next.display = wm.display
  launcherOpen : next.launcherOpen = wm.launcherOpen
  launcherItems : next.launcherItems = wm.launcherItems

structure Unmoved (wm next : WindowManager Contents Disk) : Prop extends SameLook wm next where
  screenW : next.screenW = wm.screenW
  screenH : next.screenH = wm.screenH

theorem SameLook.trans {second third : WindowManager Contents Disk} (early : SameLook wm second)
    (late : SameLook second third) : SameLook wm third :=
  ⟨late.display.trans early.display, late.launcherOpen.trans early.launcherOpen,
    late.launcherItems.trans early.launcherItems⟩

theorem Unmoved.refl (wm : WindowManager Contents Disk) : Unmoved wm wm := ⟨⟨rfl, rfl, rfl⟩, rfl, rfl⟩

theorem Unmoved.trans {second third : WindowManager Contents Disk} (early : Unmoved wm second)
    (late : Unmoved second third) : Unmoved wm third :=
  ⟨early.toSameLook.trans late.toSameLook, late.screenW.trans early.screenW,
    late.screenH.trans early.screenH⟩

theorem unmoved_placeWindow (appId : Option AppId) (win : Window Contents) :
    Unmoved wm (wm.placeWindow appId win).1 :=
  ⟨⟨rfl, rfl, rfl⟩, rfl, rfl⟩

theorem unmoved_restoreSize (index : Nat) (remembered : RememberedWindow) :
    Unmoved wm (wm.restoreSize apps index remembered) := by
  unfold restoreSize
  simp only
  split
  · exact ⟨⟨rfl, rfl, rfl⟩, rfl, rfl⟩
  · exact ⟨⟨rfl, rfl, rfl⟩, rfl, rfl⟩

theorem unmoved_spawnWindow (title : Text) (resizable : Bool) (appId : Option AppId)
    (kind : AppKind Contents) : Unmoved wm (wm.spawnWindow apps title resizable appId kind).1 := by
  unfold spawnWindow
  simp only
  split
  · exact (unmoved_placeWindow _ _).trans (unmoved_restoreSize _ _)
  · exact unmoved_placeWindow _ _

theorem unmoved_launchElfInTerminal (path : Text) :
    Unmoved wm (wm.launchElfInTerminal apps path) := by
  have spawned := @unmoved_spawnWindow _ _ apps wm ("Terminal: ".toList ++ path) true none
    (wm.newTerminal apps)
  unfold launchElfInTerminal
  simp only
  split
  · exact spawned
  · exact spawned.trans ⟨⟨rfl, rfl, rfl⟩, rfl, rfl⟩

theorem unmoved_dispatchAction (action : FsAction) : Unmoved wm (wm.dispatchAction apps action) := by
  cases action with
  | runTerminal path => exact unmoved_launchElfInTerminal path
  | openText path content => exact unmoved_spawnWindow _ _ _ _
  | openImage path content => exact unmoved_spawnWindow _ _ _ _

theorem unmoved_runLauncherAction (action : LauncherAction) :
    Unmoved wm (wm.runLauncherAction apps action) := by
  cases action with
  | runElf path => exact unmoved_launchElfInTerminal path
  | terminal => exact (unmoved_spawnWindow _ _ _ _).trans ⟨⟨rfl, rfl, rfl⟩, rfl, rfl⟩
  | settings =>
      have saved : Unmoved wm { wm with disk := apps.saveSettings wm.settings wm.disk } :=
        ⟨⟨rfl, rfl, rfl⟩, rfl, rfl⟩
      exact saved.trans (unmoved_spawnWindow _ _ _ _)
  | _ => exact unmoved_spawnWindow _ _ _ _

theorem unmoved_pressEvent (left : Bool) : Unmoved wm (wm.pressEvent apps left) := by
  unfold pressEvent
  split
  · split
    · unfold beginFileDrag
      split
      · exact ⟨⟨rfl, rfl, rfl⟩, rfl, rfl⟩
      · exact ⟨⟨rfl, rfl, rfl⟩, rfl, rfl⟩
    · exact Unmoved.refl wm
  · exact Unmoved.refl wm

theorem unmoved_dragEvent (left : Bool) : Unmoved wm (wm.dragEvent left) := by
  unfold dragEvent
  split
  · split
    · exact ⟨⟨rfl, rfl, rfl⟩, rfl, rfl⟩
    · exact Unmoved.refl wm
  · exact Unmoved.refl wm

theorem unmoved_releaseEvent : Unmoved wm (wm.releaseEvent apps) := by
  unfold releaseEvent
  split
  · exact ⟨⟨rfl, rfl, rfl⟩, rfl, rfl⟩
  · exact ⟨⟨rfl, rfl, rfl⟩, rfl, rfl⟩

theorem unmoved_released (left justReleased : Bool) :
    Unmoved wm (if justReleased then (wm.dragEvent left).releaseEvent apps else wm.dragEvent left) := by
  split
  · exact (unmoved_dragEvent left).trans unmoved_releaseEvent
  · exact unmoved_dragEvent left

theorem unmoved_resizeEvent (held : ResizeState) (left justReleased : Bool) :
    Unmoved wm (wm.resizeEvent apps held left justReleased) := by
  have motion : Unmoved wm (wm.resizeMotion apps held) := by
    unfold resizeMotion
    split
    · exact Unmoved.refl wm
    · simp only
      split
      · exact ⟨⟨rfl, rfl, rfl⟩, rfl, rfl⟩
      · exact Unmoved.refl wm
  unfold resizeEvent
  cases left <;> cases justReleased
  · exact Unmoved.refl wm
  · exact ⟨⟨rfl, rfl, rfl⟩, rfl, rfl⟩
  · exact motion
  · exact motion.trans ⟨⟨rfl, rfl, rfl⟩, rfl, rfl⟩

theorem unmoved_dropOn (drag : FileDragState) (i : Nat) (win : Window Contents) :
    Unmoved wm (wm.dropOn apps drag i win).2 := by
  unfold dropOn
  split
  · exact ⟨⟨rfl, rfl, rfl⟩, rfl, rfl⟩
  · exact Unmoved.refl wm

theorem unmoved_applyDrop (drag : FileDragState) : Unmoved wm (wm.applyDrop apps drag) := by
  unfold applyDrop
  split
  · exact Unmoved.refl wm
  · rename_i i win _
    have dropped := @unmoved_dropOn _ _ apps wm drag i win
    simp only
    split
    · exact dropped.trans ⟨⟨rfl, rfl, rfl⟩, rfl, rfl⟩
    · exact dropped

theorem unmoved_fileDragEvent (held : FileDragState) (justReleased : Bool) :
    Unmoved wm (wm.fileDragEvent apps held justReleased) := by
  unfold fileDragEvent
  split
  · have started : Unmoved wm { wm with fileDrag := none } := ⟨⟨rfl, rfl, rfl⟩, rfl, rfl⟩
    exact (started.trans (unmoved_applyDrop held)).trans ⟨⟨rfl, rfl, rfl⟩, rfl, rfl⟩
  · exact Unmoved.refl wm

end WindowManager

namespace SettingsApp

variable {δ : Type} {app : SettingsApp} {save : Settings → δ → δ} {display : Display} {disk : δ}

theorem handleFontClick_scale {top x y : UInt32} {scale : UInt8}
    (asked : (app.handleFontClick save display top x y disk).1 = .fontScale scale) :
    scale = 1 ∨ scale = 2 := by
  unfold handleFontClick at asked
  split at asked
  · rename_i percent i found
    have listed : (percent, i) ∈ fontOptions.zipIdx := List.mem_of_find?_eq_some found
    have two : fontOptions.zipIdx = [(100, 0), (200, 1)] := rfl
    rw [two] at listed
    split at asked
    · cases asked
      rcases List.mem_cons.mp listed with first | second
      · cases first
        exact Or.inl (by decide)
      · cases List.mem_singleton.mp second
        exact Or.inr (by decide)
    · cases asked
  · cases asked

theorem handlePersonalizationClick_noScale {x y : UInt32} {scale : UInt8} :
    (app.handlePersonalizationClick save display x y disk).1 ≠ .fontScale scale := by
  unfold handlePersonalizationClick
  simp only
  split
  · split <;> exact SettingsChange.noConfusion
  · repeat (first | split | exact SettingsChange.noConfusion)

theorem handleClick_scale {x y : Int32} {scale : UInt8}
    (asked : (app.handleClick save display x y disk).1 = .fontScale scale) :
    scale = 1 ∨ scale = 2 := by
  unfold handleClick at asked
  split at asked
  · cases asked
  · split at asked
    · split at asked <;> cases asked
    · simp only at asked
      split at asked
      · unfold handleSystemClick at asked
        simp only at asked
        split at asked
        · split at asked <;> cases asked
        · exact handleFontClick_scale asked
      · exact absurd asked handlePersonalizationClick_noScale
      · cases asked

end SettingsApp

namespace WindowManager

variable {Contents Disk : Type} {apps : Apps Contents Disk} {wm next : WindowManager Contents Disk}

/-- The framebuffer has this size, the font scale is one of the two that can be chosen, and the start
menu when it is open lists the terminal. -/
structure Furnished (physical : UInt32 × UInt32) (wm : WindowManager Contents Disk) : Prop where
  framebuffer : wm.display.physical = physical
  scale : wm.display.fontScale = 1 ∨ wm.display.fontScale = 2
  menu : wm.launcherOpen = true → ∃ item ∈ wm.launcherItems, item.1 = "Terminal".toList

variable {physical : UInt32 × UInt32}

theorem Furnished.kept (furnished : Furnished physical wm) (same : SameLook wm next) :
    Furnished physical next := by
  obtain ⟨display, launcherOpen, launcherItems⟩ := same
  refine ⟨?_, ?_, ?_⟩
  · rw [display]
    exact furnished.framebuffer
  · rw [display]
    exact furnished.scale
  · rw [launcherOpen, launcherItems]
    exact furnished.menu

theorem furnished_applyResolution (furnished : Furnished physical wm) (w h : UInt32) :
    Furnished physical (wm.applyResolution apps w h) := by
  unfold applyResolution
  split
  · exact furnished
  · exact furnished.kept ⟨rfl, rfl, rfl⟩

theorem furnished_applyChange (furnished : Furnished physical wm) {change : SettingsChange}
    (offered : ∀ scale, change = .fontScale scale → scale = 1 ∨ scale = 2) :
    Furnished physical (wm.applyChange apps change) := by
  cases change with
  | none => exact furnished
  | reload => exact furnished.kept ⟨rfl, rfl, rfl⟩
  | resolution w h => exact furnished_applyResolution furnished w h
  | fontScale scale =>
      refine ⟨furnished.framebuffer, ?_, furnished.menu⟩
      rcases offered scale rfl with rfl | rfl
      · exact Or.inl rfl
      · exact Or.inr rfl

theorem handleClick_scale (kind : AppKind Contents) {display : Display} {x y : Int32} {disk : Disk}
    {scale : UInt8} (asked : (kind.handleClick apps display x y disk).change = .fontScale scale) :
    scale = 1 ∨ scale = 2 := by
  cases kind with
  | settings app => exact SettingsApp.handleClick_scale asked
  | terminal cols rows contents => cases asked
  | sysInfo cols rows contents => cases asked
  | editor cols rows contents => cases asked
  | calculator contents => cases asked
  | fileExplorer app => cases asked
  | paint contents => cases asked
  | imageViewer contents => cases asked

theorem unmoved_answerClick (action : Option FsAction) (item : Option Nat)
    (win : Window Contents) : Unmoved wm (wm.answerClick apps action item win) := by
  unfold answerClick
  split
  · have cleared : Unmoved wm { wm with pressState := none } := ⟨⟨rfl, rfl, rfl⟩, rfl, rfl⟩
    exact cleared.trans (unmoved_dispatchAction _)
  · exact ⟨⟨rfl, rfl, rfl⟩, rfl, rfl⟩
  · exact ⟨⟨rfl, rfl, rfl⟩, rfl, rfl⟩

section

variable (furnished : Furnished physical wm)
include furnished

theorem furnished_clickContent (win : Window Contents) :
    Furnished physical (wm.clickContent apps win) := by
  unfold clickContent
  simp only
  apply furnished_applyChange
  · apply Furnished.kept _ (unmoved_answerClick _ _ _).toSameLook
    exact furnished.kept ⟨rfl, rfl, rfl⟩
  · exact fun scale asked => handleClick_scale win.kind asked

theorem furnished_applyPart (i : Nat) (win : Window Contents) (part : Window.Part) :
    Furnished physical (wm.applyPart apps i win part) := by
  have raised : Furnished physical (wm.raise i) := furnished.kept ⟨rfl, rfl, rfl⟩
  cases part with
  | grip | minimize => exact furnished.kept ⟨rfl, rfl, rfl⟩
  | close =>
      unfold applyPart rememberGeometry
      simp only
      split
      · exact furnished.kept ⟨rfl, rfl, rfl⟩
      · split
        · exact furnished.kept ⟨rfl, rfl, rfl⟩
        · exact furnished.kept ⟨rfl, rfl, rfl⟩
  | maximize =>
      unfold applyPart
      simp only
      split
      · exact furnished.kept ⟨rfl, rfl, rfl⟩
      · exact furnished.kept ⟨rfl, rfl, rfl⟩
  | title =>
      unfold applyPart grabTitle
      simp only
      split
      · split
        · exact furnished.kept ⟨rfl, rfl, rfl⟩
        · exact raised
      · split
        · exact furnished.kept ⟨rfl, rfl, rfl⟩
        · exact furnished.kept ⟨rfl, rfl, rfl⟩
  | content => exact furnished_clickContent raised win

theorem furnished_handleClick : Furnished physical (wm.handleClick apps) := by
  unfold handleClick
  cases wm.clickTarget with
  | launch action =>
      have closed : Furnished physical { wm with launcherOpen := false } :=
        ⟨furnished.framebuffer, furnished.scale, fun never => (nomatch never)⟩
      have ran := closed.kept (@unmoved_runLauncherAction _ _ apps _ action).toSameLook
      exact ran.kept ⟨rfl, rfl, rfl⟩
  | dismiss =>
      exact ⟨furnished.framebuffer, furnished.scale, fun never => (nomatch never)⟩
  | startMenu =>
      exact ⟨furnished.framebuffer, furnished.scale, fun _ => ⟨_, List.mem_cons_self, rfl⟩⟩
  | taskbar i => exact furnished.kept ⟨rfl, rfl, rfl⟩
  | part i win part => exact furnished_applyPart furnished i win part
  | nothing => exact furnished

theorem furnished_plainEvent (left justPressed justReleased : Bool) :
    Furnished physical (wm.plainEvent apps left justPressed justReleased) := by
  have released := furnished.kept (@unmoved_released _ _ apps wm left justReleased).toSameLook
  unfold plainEvent
  simp only
  split
  · exact furnished_handleClick released
  · exact released

theorem furnished_handleMouse (event : MouseEvent) :
    Furnished physical (wm.handleMouse apps event) := by
  have moved : Furnished physical (wm.moveCursor event) := furnished.kept ⟨rfl, rfl, rfl⟩
  have pressed := moved.kept (@unmoved_pressEvent _ _ apps _ event.left).toSameLook
  unfold handleMouse
  simp only
  split
  · exact moved.kept (unmoved_resizeEvent _ _ _).toSameLook
  · exact moved.kept (unmoved_fileDragEvent _ _).toSameLook
  · split
    · exact pressed
    · exact furnished_plainEvent pressed _ _ _

theorem furnished_handleKey (event : Event) : Furnished physical (wm.handleKey apps event) := by
  unfold handleKey
  split
  · exact furnished
  · simp only
    split
    · apply Furnished.kept _ (unmoved_dispatchAction _).toSameLook
      exact furnished.kept ⟨rfl, rfl, rfl⟩
    · exact furnished.kept ⟨rfl, rfl, rfl⟩

theorem furnished_step (input : Input) : Furnished physical (wm.step apps input) := by
  cases input with
  | mouse event => exact furnished_handleMouse furnished event
  | key event => exact furnished_handleKey furnished event

theorem furnished_run (inputs : List Input) : Furnished physical (wm.run apps inputs) := by
  induction inputs generalizing wm with
  | nil => exact furnished
  | cons input rest ih => exact ih (furnished_step furnished input)

theorem furnished_restoreEntry (entry : SessionWindow) :
    Furnished physical (wm.restoreEntry apps entry) := by
  unfold restoreEntry
  split
  · exact furnished
  · rename_i id _
    split
    · exact furnished
    · have opened := furnished.kept
        (@unmoved_runLauncherAction _ _ apps _ (builtinAction id)).toSameLook
      simp only
      unfold fitEntry
      simp only
      split <;> split <;> exact opened.kept ⟨rfl, rfl, rfl⟩

end

theorem furnished_new (screenW screenH : UInt32) (display : Display) (disk : Disk)
    (scale : display.fontScale = 1 ∨ display.fontScale = 2) :
    Furnished display.physical (new apps screenW screenH display disk) :=
  new_induction (fun _ => ⟨rfl, scale, fun never => (nomatch never)⟩)
    (fun _ entry furnished => furnished_restoreEntry furnished entry)
    (fun _ furnished => furnished.kept ⟨rfl, rfl, rfl⟩)

/-- The size of the screen after `desktop::run` has applied the settings. -/
def bootScreen (physical : UInt32 × UInt32) (settings : Settings) : UInt32 × UInt32 :=
  match settings.resolution with
  | none => physical
  | some (w, h) =>
      if w = 0 ∨ h = 0 ∨ physical.1 < w ∨ physical.2 < h then physical else (w, h)

def bootScale (settings : Settings) : UInt8 := if 200 ≤ settings.fontScalePercent then 2 else 1

def boot (apps : Apps Contents Disk) (physical : UInt32 × UInt32) (disk : Disk) :
    WindowManager Contents Disk :=
  let settings := apps.loadSettings disk
  let screen := bootScreen physical settings
  new apps screen.1 screen.2 { fontScale := bootScale settings, physical } disk

theorem furnished_boot (physical : UInt32 × UInt32) (disk : Disk) :
    Furnished physical (boot apps physical disk) := by
  have offered : bootScale (apps.loadSettings disk) = 1 ∨ bootScale (apps.loadSettings disk) = 2 := by
    unfold bootScale
    split
    · exact Or.inr rfl
    · exact Or.inl rfl
  exact furnished_new _ _ { fontScale := bootScale (apps.loadSettings disk), physical } disk offered

end WindowManager

end Desktop

end MachaOS
