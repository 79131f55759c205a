/-
What the operations of the window manager do to its windows: which of them change a window only
inside, what the hit tests find, and what a step of a run can do to the stack.
-/

import MachaOS.Desktop.Events

namespace MachaOS

namespace Desktop

open Keyboard

variable {Contents Disk : Type} {apps : Apps Contents Disk} {disk : Disk}

def Window.Same (win other : Window Contents) : Prop :=
  other.isOpen = win.isOpen ∧ other.minimized = win.minimized ∧
    other.serial = win.serial ∧ other.appId = win.appId ∧
    other.resizable = win.resizable ∧ other.kind.tag = win.kind.tag

namespace Window

variable {win other : Window Contents}

theorem Same.refl (win : Window Contents) : win.Same win := ⟨rfl, rfl, rfl, rfl, rfl, rfl⟩

theorem Same.visible (same : win.Same other) : other.visible = win.visible := by
  rw [Window.visible, Window.visible, same.1, same.2.1]

theorem tag_resize (kind : AppKind Contents) (cols rows : UInt64) :
    (kind.resize apps disk cols rows).tag = kind.tag := by
  cases kind <;> rfl

theorem same_resize (win : Window Contents) (cols rows : UInt64) :
    win.Same (win.resize apps disk cols rows) :=
  ⟨rfl, rfl, rfl, rfl, rfl, tag_resize _ _ _⟩

theorem same_maximize (win : Window Contents) (cells : UInt64 × UInt64) :
    win.Same (win.maximize apps disk cells) := by
  unfold Window.maximize
  split
  · exact Same.refl win
  · exact ⟨rfl, rfl, rfl, rfl, rfl, tag_resize _ _ _⟩

theorem same_unmaximize (win : Window Contents) :
    win.Same (win.unmaximize apps disk) := by
  unfold Window.unmaximize
  split
  · exact Same.refl win
  · split
    · exact ⟨rfl, rfl, rfl, rfl, rfl, tag_resize _ _ _⟩
    · exact Same.refl win

end Window

structure Outline where
  isOpen : Bool
  minimized : Bool
  serial : Nat
deriving DecidableEq, Repr

def Outline.visible (outline : Outline) : Bool := outline.isOpen && !outline.minimized

def Window.outline (win : Window Contents) : Outline :=
  ⟨win.isOpen, win.minimized, win.serial⟩

theorem Window.Same.outline {win other : Window Contents} (same : win.Same other) :
    other.outline = win.outline := by
  rw [Window.outline, Window.outline, same.1, same.2.1, same.2.2.1]

namespace WindowManager

open Window

variable {wm : WindowManager Contents Disk}

theorem same_reclamped (win : Window Contents) : win.Same (wm.reclamped apps win) := by
  unfold reclamped
  split
  · split
    · exact same_resize (wm.onScreen win) _ _
    · exact Same.refl win
  · exact Same.refl win

theorem same_rescaled (win : Window Contents) : win.Same (wm.rescaled apps win) := by
  unfold rescaled
  split
  · exact Same.refl win
  · simp only
    split
    · exact Same.refl win
    · split
      · exact same_resize (wm.onScreen win) _ _
      · exact same_resize (wm.onScreen win) _ _

theorem same_promptIn (win : Window Contents) : win.Same (promptIn apps win) := by
  unfold promptIn
  split
  · rename_i kind
    exact ⟨rfl, rfl, rfl, rfl, rfl, by rw [kind]; rfl⟩
  · exact Same.refl win

theorem same_runIn (path : Text) (win : Window Contents) :
    win.Same (runIn apps path disk win).1 := by
  unfold runIn
  split
  · rename_i kind
    exact ⟨rfl, rfl, rfl, rfl, rfl, by rw [kind]; rfl⟩
  · exact Same.refl win

theorem windowHit_spec {i : Nat} {win : Window Contents} {part : Part}
    (hit : wm.windowHit = some (i, win, part)) :
    wm.windows[i]? = some win ∧
      win.partAt wm.display wm.cursorX wm.cursorY = some part := by
  obtain ⟨⟨found, j⟩, mem, answer⟩ := List.exists_of_findSome?_eq_some hit
  obtain ⟨at_part, located, equal⟩ := Option.map_eq_some_iff.mp answer
  obtain ⟨rfl, rfl, rfl⟩ : j = i ∧ found = win ∧ at_part = part := by
    simpa only [Prod.mk.injEq] using equal
  rw [List.mem_reverse, List.mem_zipIdx_iff_getElem?] at mem
  exact ⟨mem, located⟩

theorem visible_of_partAt {win : Window Contents} {display : Display} {cx cy : Int32}
    {part : Part} (located : win.partAt display cx cy = some part) : win.visible = true := by
  unfold Window.partAt at located
  split at located
  · cases located
  · rename_i shown
    simpa only [Bool.not_eq_true, Bool.not_eq_false'] using shown

theorem mem_taskbarButtons {windows : List (Window Contents)} {base : Nat} {start x w : Int32}
    {i : Nat} (mem : (i, x, w) ∈ wm.taskbarButtons base start windows) :
    ∃ win, base ≤ i ∧ windows[i - base]? = some win ∧ win.isOpen = true := by
  induction windows generalizing base start with
  | nil => cases mem
  | cons first rest ih =>
      have later : ∀ start', (i, x, w) ∈ wm.taskbarButtons (base + 1) start' rest →
          ∃ win, base ≤ i ∧ (first :: rest)[i - base]? = some win ∧ win.isOpen = true := by
        intro start' inside
        obtain ⟨win, beyond, found, isOpen⟩ := ih inside
        refine ⟨win, by omega, ?_, isOpen⟩
        have shift : i - base = (i - (base + 1)) + 1 := by omega
        rw [shift, List.getElem?_cons_succ]
        exact found
      unfold taskbarButtons at mem
      split at mem
      · rename_i isOpen
        rcases List.mem_cons.mp mem with equal | inside
        · obtain ⟨rfl, rfl, rfl⟩ : i = base ∧ x = start ∧ w = _ := by
            simpa only [Prod.mk.injEq] using equal
          exact ⟨first, Nat.le_refl _, by rw [Nat.sub_self]; rfl, isOpen⟩
        · exact later _ inside
      · exact later _ mem

theorem taskbarHit_spec {i : Nat} (hit : wm.taskbarHit = some i) :
    ∃ win, wm.windows[i]? = some win ∧ win.isOpen = true := by
  obtain ⟨⟨j, x, w⟩, found, rfl⟩ := Option.map_eq_some_iff.mp hit
  obtain ⟨win, -, located, isOpen⟩ := mem_taskbarButtons (List.mem_of_find?_eq_some found)
  exact ⟨win, located, isOpen⟩

def Click.Valid (wm : WindowManager Contents Disk) : Click Contents → Prop
  | .part i win piece =>
      wm.windows[i]? = some win ∧ win.partAt wm.display wm.cursorX wm.cursorY = some piece
  | .taskbar i => ∃ win, wm.windows[i]? = some win ∧ win.isOpen = true
  | _ => True

theorem clickTarget_valid : wm.clickTarget.Valid wm := by
  unfold clickTarget
  split
  · split <;> trivial
  · split
    · split
      · trivial
      · split
        · rename_i hit
          exact taskbarHit_spec hit
        · trivial
    · split
      · rename_i hit
        exact windowHit_spec hit
      · trivial

def outline (wm : WindowManager Contents Disk) : List Outline := wm.windows.map Window.outline

def gestures (wm : WindowManager Contents Disk) : List (Nat × Nat) :=
  wm.dragging.toList.map (fun held => (held.windowIndex, held.grabbed)) ++
    wm.resizing.toList.map (fun held => (held.windowIndex, held.grabbed)) ++
      wm.fileDrag.toList.map (fun held => (held.sourceWindow, held.grabbed)) ++
        wm.pressState.toList.map (fun held => (held.windowIndex, held.grabbed))

structure Inside (wm next : WindowManager Contents Disk) : Prop where
  outline : next.outline = wm.outline
  focused : next.focused = wm.focused
  gestures : next.gestures = wm.gestures
  left : next.leftWasDown = wm.leftWasDown
  spawned : next.spawned = wm.spawned

structure Brought (wm next : WindowManager Contents Disk) : Prop where
  outline : next.outline =
    Layers.bring (fun win => !win.isOpen) wm.outline ⟨true, false, wm.spawned⟩
  focused : next.outline[next.focused]? = some ⟨true, false, wm.spawned⟩
  gestures : next.gestures = wm.gestures
  left : next.leftWasDown = wm.leftWasDown
  spawned : next.spawned = wm.spawned + 1

namespace Inside

variable {first second third : WindowManager Contents Disk}

theorem refl (wm : WindowManager Contents Disk) : Inside wm wm := ⟨rfl, rfl, rfl, rfl, rfl⟩

theorem trans (early : Inside first second) (late : Inside second third) : Inside first third :=
  ⟨late.outline.trans early.outline, late.focused.trans early.focused,
    late.gestures.trans early.gestures, late.left.trans early.left,
    late.spawned.trans early.spawned⟩

theorem brought (early : Inside first second) (late : Brought second third) :
    Brought first third := by
  constructor
  · rw [late.outline, early.outline, early.spawned]
  · rw [late.focused, early.spawned]
  · exact late.gestures.trans early.gestures
  · exact late.left.trans early.left
  · rw [late.spawned, early.spawned]

end Inside

theorem Brought.inside {first second third : WindowManager Contents Disk}
    (early : Brought first second) (late : Inside second third) : Brought first third :=
  ⟨late.outline.trans early.outline, by rw [late.outline, late.focused, early.focused],
    late.gestures.trans early.gestures, late.left.trans early.left,
    late.spawned.trans early.spawned⟩

theorem getElem?_outline (i : Nat) :
    wm.outline[i]? = wm.windows[i]?.map Window.outline := List.getElem?_map

theorem outline_modify (windows : List (Window Contents)) (i : Nat)
    {change : Window Contents → Window Contents}
    (keeps : ∀ win, windows[i]? = some win → (change win).outline = win.outline) :
    (windows.modify i change).map Window.outline = windows.map Window.outline := by
  apply List.ext_getElem?
  intro j
  rw [List.getElem?_map, List.getElem?_map, List.getElem?_modify, Option.map_eq_map]
  by_cases same : i = j
  · subst same
    cases found : windows[i]? with
    | none => rfl
    | some win => simp only [Option.map_some, if_pos, keeps win found]
  · simp only [if_neg same, Option.map_id']

theorem inside_alter {i : Nat} {change : Window Contents → Window Contents}
    (keeps : ∀ win, wm.windows[i]? = some win → (change win).outline = win.outline) :
    Inside wm (wm.alter i change) :=
  ⟨outline_modify wm.windows i keeps, rfl, rfl, rfl, rfl⟩

theorem inside_map {change : Window Contents → Window Contents}
    (keeps : ∀ win, (change win).outline = win.outline) :
    Inside wm { wm with windows := wm.windows.map change } := by
  refine ⟨?_, rfl, rfl, rfl, rfl⟩
  change (wm.windows.map change).map Window.outline = wm.windows.map Window.outline
  rw [List.map_map]
  congr 1
  funext win
  exact keeps win

theorem inside_kind (i : Nat) (kind : AppKind Contents) (disk : Disk) :
    Inside wm { wm.alter i (fun win => { win with kind }) with disk } :=
  ⟨outline_modify wm.windows i (fun _ _ => rfl), rfl, rfl, rfl, rfl⟩

theorem inside_resize (i : Nat) (cols rows : UInt64) :
    Inside wm (wm.alter i (fun win => win.resize apps wm.disk cols rows)) :=
  inside_alter (fun win _ => (same_resize win cols rows).outline)

theorem inside_maximizeWindow (i : Nat) : Inside wm (wm.maximizeWindow apps i) :=
  inside_alter (fun win _ => (same_maximize win _).outline)

theorem inside_unmaximizeWindow (i : Nat) : Inside wm (wm.unmaximizeWindow apps i) :=
  inside_alter (fun win _ => (same_unmaximize win).outline)

theorem inside_restoreSize (i : Nat) (remembered : RememberedWindow) :
    Inside wm (wm.restoreSize apps i remembered) := by
  have resized := @inside_resize _ _ apps wm i (max remembered.cols minCols)
    (max remembered.rows minRows)
  unfold restoreSize
  simp only
  split
  · exact resized.trans (inside_maximizeWindow i)
  · exact resized

theorem brought_placeWindow {appId : Option AppId} {win : Window Contents}
    (new : win.outline = ⟨true, false, wm.spawned⟩) :
    Brought wm (wm.placeWindow appId win).1 := by
  refine ⟨?_, ?_, rfl, rfl, rfl⟩
  · rw [← new]
    exact @Layers.map_bring _ (fun win => !win.isOpen) _ Window.outline
      (fun win => !win.isOpen) (fun _ => rfl) wm.windows win
  · have top := Layers.getElem?_toTop_top
      (@Layers.getElem?_place _ wm.windows (fun win => !win.isOpen) win)
    rw [← new]
    exact (getElem?_outline _).trans (congrArg (Option.map Window.outline) top)

theorem brought_spawnWindow (title : Text) (resizable : Bool) (appId : Option AppId)
    (kind : AppKind Contents) : Brought wm (wm.spawnWindow apps title resizable appId kind).1 := by
  have placed : Brought wm (wm.placeWindow appId (wm.newWindow title resizable appId kind)).1 :=
    brought_placeWindow rfl
  unfold spawnWindow
  simp only
  split
  · exact placed.inside (inside_restoreSize _ _)
  · exact placed

theorem brought_launchElfInTerminal (path : Text) :
    Brought wm (wm.launchElfInTerminal apps path) := by
  have spawned := @brought_spawnWindow _ _ apps wm ("Terminal: ".toList ++ path) true none
    (wm.newTerminal apps)
  unfold launchElfInTerminal
  simp only
  split
  · exact spawned
  · rename_i win found
    have altered : Inside _ (alter _ _ (fun _ => (runIn apps path (wm.spawnWindow apps
        ("Terminal: ".toList ++ path) true none (wm.newTerminal apps)).1.disk win).1)) :=
      inside_alter (fun other at_index => by
        cases found.symm.trans at_index
        exact (same_runIn path win).outline)
    exact spawned.inside ⟨altered.outline, rfl, rfl, rfl, rfl⟩

theorem brought_dispatchAction (action : FsAction) :
    Brought wm (wm.dispatchAction apps action) := by
  cases action with
  | runTerminal path => exact brought_launchElfInTerminal path
  | openText path content => exact brought_spawnWindow _ _ _ _
  | openImage path content => exact brought_spawnWindow _ _ _ _

theorem brought_runLauncherAction (action : LauncherAction) :
    Brought wm (wm.runLauncherAction apps action) := by
  cases action with
  | terminal =>
      exact (brought_spawnWindow _ _ _ _).inside
        (inside_alter (fun win _ => (same_promptIn win).outline))
  | runElf path => exact brought_launchElfInTerminal path
  | settings =>
      have saved : Inside wm { wm with disk := apps.saveSettings wm.settings wm.disk } :=
        ⟨rfl, rfl, rfl, rfl, rfl⟩
      exact saved.brought (brought_spawnWindow _ _ _ _)
  | _ => exact brought_spawnWindow _ _ _ _

theorem inside_applyChange (change : SettingsChange) : Inside wm (wm.applyChange apps change) := by
  cases change with
  | none => exact Inside.refl wm
  | reload => exact ⟨rfl, rfl, rfl, rfl, rfl⟩
  | resolution w h =>
      change Inside wm (wm.applyResolution apps w h)
      unfold applyResolution
      split
      · exact Inside.refl wm
      · exact ⟨(inside_map (fun win => (same_reclamped win).outline)).outline,
          rfl, rfl, rfl, rfl⟩
  | fontScale scale =>
      exact ⟨(inside_map (fun win => (same_rescaled win).outline)).outline,
        rfl, rfl, rfl, rfl⟩

theorem inside_setExplorerDrag (drag : Option (Text × Bool)) :
    Inside wm (wm.setExplorerDrag apps drag) := by
  apply inside_map
  intro win
  split <;> rfl

theorem windows_rememberGeometry (i : Nat) : (wm.rememberGeometry i).windows = wm.windows := by
  unfold rememberGeometry
  split
  · rfl
  · split <;> rfl

theorem inside_rememberGeometry (i : Nat) : Inside wm (wm.rememberGeometry i) := by
  unfold rememberGeometry
  split
  · exact Inside.refl wm
  · split
    · exact ⟨rfl, rfl, rfl, rfl, rfl⟩
    · exact Inside.refl wm

theorem inside_resizeMotion (held : ResizeState) (resizing : wm.resizing = some held) :
    Inside wm (wm.resizeMotion apps held) := by
  unfold resizeMotion
  split
  · exact Inside.refl wm
  · simp only
    split
    · refine ⟨(inside_resize held.windowIndex _ _).outline, rfl, ?_, rfl, rfl⟩
      unfold gestures
      simp only [resizing]
      rfl
    · exact Inside.refl wm

theorem inside_dragEvent (left : Bool) : Inside wm (wm.dragEvent left) := by
  unfold dragEvent
  split
  · split
    · exact inside_alter (fun _ _ => rfl)
    · exact Inside.refl wm
  · exact Inside.refl wm

theorem inside_dropOn (drag : FileDragState) (i : Nat) (win : Window Contents) :
    Inside wm (wm.dropOn apps drag i win).2 := by
  unfold dropOn
  split
  · exact inside_kind i _ _
  · exact Inside.refl wm

theorem inside_refreshExplorer (i : Nat) : Inside wm (wm.refreshExplorer apps i) := by
  apply inside_alter
  intro win _
  split <;> rfl

theorem inside_applyDrop (drag : FileDragState) : Inside wm (wm.applyDrop apps drag) := by
  unfold applyDrop
  split
  · exact Inside.refl wm
  · rename_i i win hit
    have dropped := @inside_dropOn _ _ apps wm drag i win
    simp only
    split
    · exact dropped.trans (inside_refreshExplorer _)
    · exact dropped

theorem inside_fitEntry (entry : SessionWindow) (maxX maxY : Int32) (idx : Nat) :
    Inside wm (wm.fitEntry apps entry maxX maxY idx) := by
  have moved := @inside_alter _ _ wm idx
    (fun win => { win with x := clamp entry.x 0 maxX, y := clamp entry.y 0 maxY })
    (fun _ _ => rfl)
  unfold fitEntry
  simp only
  generalize wm.alter idx (fun win =>
    { win with x := clamp entry.x 0 maxX, y := clamp entry.y 0 maxY }) = next at moved ⊢
  have sized : Inside next (if !entry.maximized && decide (0 < entry.cols) then
      next.alter idx (fun win =>
        win.resize apps next.disk (max entry.cols minCols) (max entry.rows minRows))
      else next) := by
    split
    · exact inside_resize _ _ _
    · exact Inside.refl next
  split
  · exact (moved.trans sized).trans (inside_maximizeWindow _)
  · exact moved.trans sized

theorem rememberEntries_frame (entries : List SessionWindow) (wm : WindowManager Contents Disk) :
    ∃ remembered, entries.foldl rememberEntry wm = { wm with remembered } := by
  induction entries generalizing wm with
  | nil => exact ⟨wm.remembered, rfl⟩
  | cons entry rest ih =>
      obtain ⟨remembered, after⟩ := ih (rememberEntry wm entry)
      refine ⟨remembered, after.trans ?_⟩
      unfold rememberEntry
      split <;> rfl

/-- What holds of the empty desktop and survives the restoring of a window and the saving of the session
holds of the desktop that has started. -/
theorem new_induction {holds : WindowManager Contents Disk → Prop} {screenW screenH : UInt32}
    {display : Display} {disk : Disk}
    (empty : ∀ remembered, holds { emptyDesktop apps screenW screenH display disk with remembered })
    (restored : ∀ wm entry, holds wm → holds (wm.restoreEntry apps entry))
    (persisted : ∀ wm, holds wm → holds (wm.persistSession apps)) :
    holds (new apps screenW screenH display disk) := by
  unfold new restoreSession
  simp only
  split
  · exact empty _
  · obtain ⟨remembered, after⟩ := rememberEntries_frame
      (loadSession apps (emptyDesktop apps screenW screenH display disk).disk).remembered
      (emptyDesktop apps screenW screenH display disk)
    rw [after]
    exact persisted _ (List.foldlRecOn _ _ (empty remembered)
      (fun wm before entry _ => restored wm entry before))

end WindowManager

end Desktop

end MachaOS
