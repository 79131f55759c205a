/-
Windows that can be reached, and what opening a window does to that: the new window is put at the
remembered place or the next one of the cascade, and nudged aside when another is there already.
-/

import MachaOS.Desktop.Screen
import MachaOS.Desktop.Stack

namespace MachaOS

namespace Desktop

namespace WindowManager

open Window

variable {Contents Disk : Type} {apps : Apps Contents Disk} {wm : WindowManager Contents Disk}
  {settled : Prop}

def AllReached (wm : WindowManager Contents Disk) : Prop :=
  ∀ win ∈ wm.windows, win.visible = true →
    InBounds wm.screenW wm.screenH win.x win.y

def ReachedOn (wm : WindowManager Contents Disk) (settled : Prop) : Prop :=
  ∀ (i : Nat) (win : Window Contents), wm.windows[i]? = some win →
    (i = wm.focused → settled) → win.visible = true →
      InBounds wm.screenW wm.screenH win.x win.y

theorem allReached_iff : AllReached wm ↔ ReachedOn wm True := by
  constructor
  · intro all i win found _ shown
    exact all win (List.mem_of_getElem? found) shown
  · intro on win mem shown
    obtain ⟨i, found⟩ := List.mem_iff_getElem?.mp mem
    exact on i win found (fun _ => trivial) shown

theorem AllReached.on (all : AllReached wm) : ReachedOn wm settled := by
  intro i win found _ shown
  exact all win (List.mem_of_getElem? found) shown

def KeepsReach (wm : WindowManager Contents Disk) (change : Window Contents → Window Contents)
    (win : Window Contents) : Prop :=
  (win.visible = true → InBounds wm.screenW wm.screenH win.x win.y) →
    (change win).visible = true →
      InBounds wm.screenW wm.screenH (change win).x (change win).y

theorem keepsReach_unmoved {change : Window Contents → Window Contents} {win : Window Contents}
    (same : win.Same (change win)) (x : (change win).x = win.x)
    (y : (change win).y = win.y) : KeepsReach wm change win := by
  intro reached shown
  rw [x, y]
  rw [same.visible] at shown
  exact reached shown

variable {change : Window Contents → Window Contents} {win : Window Contents}

theorem keepsReach_hidden (hidden : (change win).visible = false) :
    KeepsReach wm change win := by
  intro _ shown
  rw [hidden] at shown
  cases shown

theorem keepsReach_placed
    (placed : InBounds wm.screenW wm.screenH (change win).x (change win).y) :
    KeepsReach wm change win := fun _ _ => placed

theorem reachedOn_alter {i : Nat} (reached : ReachedOn wm settled)
    (keeps : ∀ win, wm.windows[i]? = some win → KeepsReach wm change win) :
    ReachedOn (wm.alter i change) settled := by
  intro j win found allowed shown
  change (wm.windows.modify i change)[j]? = some win at found
  rw [List.getElem?_modify] at found
  obtain ⟨old, at_j, rfl⟩ := Option.map_eq_some_iff.mp found
  by_cases same : i = j
  · subst same
    simp only [if_true] at shown ⊢
    exact keeps old at_j (reached i old at_j allowed) shown
  · simp only [if_neg same] at shown ⊢
    exact reached j old at_j allowed shown

theorem reachedOn_settle (reached : ReachedOn wm settled)
    (placed : ∀ win, wm.windows[wm.focused]? = some win →
      InBounds wm.screenW wm.screenH (change win).x (change win).y) :
    AllReached (wm.alter wm.focused change) := by
  rw [allReached_iff]
  intro j win found _ shown
  change (wm.windows.modify wm.focused change)[j]? = some win at found
  rw [List.getElem?_modify] at found
  obtain ⟨old, at_j, rfl⟩ := Option.map_eq_some_iff.mp found
  by_cases same : wm.focused = j
  · simp only [if_pos same]
    subst same
    exact placed old at_j
  · simp only [if_neg same] at shown ⊢
    exact reached j old at_j (fun equal => absurd equal.symm same) shown

theorem allReached_alter {i : Nat} (all : AllReached wm)
    (keeps : ∀ win, wm.windows[i]? = some win → KeepsReach wm change win) :
    AllReached (wm.alter i change) :=
  allReached_iff.mpr (reachedOn_alter (allReached_iff.mp all) keeps)

theorem allReached_map {next : WindowManager Contents Disk} (all : AllReached wm)
    (windows : next.windows = wm.windows.map change) (w : next.screenW = wm.screenW)
    (h : next.screenH = wm.screenH) (keeps : ∀ win, KeepsReach wm change win) :
    AllReached next := by
  intro win mem shown
  rw [windows] at mem
  obtain ⟨old, present, rfl⟩ := List.mem_map.mp mem
  rw [w, h]
  exact keeps old (all old present) shown

theorem allReached_raise {i : Nat} (all : AllReached wm) : AllReached (wm.raise i) :=
  fun win mem shown => all win (Layers.mem_toTop.mp mem) shown

theorem x_maximize (win : Window Contents) (disk : Disk) (cells : UInt64 × UInt64) :
    ((win.maximize apps disk cells).x = win.x ∧
        (win.maximize apps disk cells).y = win.y) ∨
      ((win.maximize apps disk cells).x = 0 ∧ (win.maximize apps disk cells).y = 0) := by
  unfold Window.maximize
  split
  · exact Or.inl ⟨rfl, rfl⟩
  · exact Or.inr ⟨rfl, rfl⟩

theorem keepsReach_maximize (roomy : Roomy wm.screenW wm.screenH) (win : Window Contents)
    (disk : Disk) (cells : UInt64 × UInt64) :
    KeepsReach wm (fun win => win.maximize apps disk cells) win := by
  rcases @x_maximize _ _ apps win disk cells with ⟨x, y⟩ | ⟨x, y⟩
  · exact keepsReach_unmoved (same_maximize win cells) x y
  · apply keepsReach_placed
    rw [x, y]
    exact inBounds_origin roomy

def RestoreReached (wm : WindowManager Contents Disk) (win : Window Contents) : Prop :=
  match win.restoreGeometry with
  | some (x, y, _, _) => InBounds wm.screenW wm.screenH x y
  | none => True

theorem keepsReach_unmaximize {disk : Disk}
    (back : win.maximized = true → RestoreReached wm win) :
    KeepsReach wm (fun win => win.unmaximize apps disk) win := by
  have unmoved := @keepsReach_unmoved _ _ wm (fun win => win.unmaximize apps disk) win
    (same_unmaximize win)
  by_cases maximized : win.maximized = true
  · have there := back maximized
    unfold RestoreReached at there
    cases geometry : win.restoreGeometry with
    | none =>
        apply unmoved
        · simp [Window.unmaximize, maximized, geometry]
        · simp [Window.unmaximize, maximized, geometry]
    | some place =>
        obtain ⟨x, y, cols, rows⟩ := place
        rw [geometry] at there
        apply keepsReach_placed
        simp only [Window.unmaximize, maximized, geometry, Bool.not_true, Bool.false_eq_true,
          if_false]
        exact there
  · have same : win.unmaximize apps disk = win := by
      simp [Window.unmaximize, maximized]
    apply unmoved
    · rw [same]
    · rw [same]

def resizableApp : AppId → Bool
  | .terminal | .notepad => true
  | .calculator | .sysInfo | .files | .settings | .paint | .imageViewer => false

theorem builtin_resizable (id : AppId) : (wm.builtin apps id).2.1 = resizableApp id := by
  cases id <;> rfl

/-- The place a window opens at can be reached: the remembered one or that of the cascade is on the
screen, or another window is there already, or the window is maximized at once. -/
def OpensReached (wm : WindowManager Contents Disk) (appId : Option AppId) : Prop :=
  match wm.remembering appId with
  | none =>
      -100 ≤ (cascadeOffset (wm.spawnCounter + 1)).toInt ∨
        wm.collides (wm.cascade (wm.spawnCounter + 1)).1 (wm.cascade (wm.spawnCounter + 1)).2 = true
  | some remembered =>
      InBounds wm.screenW wm.screenH remembered.x remembered.y ∨
        wm.collides remembered.x remembered.y = true ∨
          (remembered.maximized = true ∧ appId.any resizableApp = true ∧
            ∀ win ∈ wm.windows.dropLast, win.isOpen = true)

variable {appId : Option AppId}

theorem inBounds_spawnPosition (roomy : Roomy wm.screenW wm.screenH) (opens : wm.OpensReached appId) :
    InBounds wm.screenW wm.screenH (wm.spawnPosition appId).1 (wm.spawnPosition appId).2 ∨
      ∃ remembered, wm.remembering appId = some remembered ∧ remembered.maximized = true ∧
        appId.any resizableApp = true ∧ ∀ win ∈ wm.windows.dropLast, win.isOpen = true := by
  unfold OpensReached at opens
  unfold spawnPosition spawnBase
  cases kept : wm.remembering appId with
  | none =>
      rw [kept] at opens
      left
      rcases opens with offset | taken
      · exact inBounds_avoidOverlap roomy 20 _ _ (inBounds_cascade roomy offset)
      · exact inBounds_collides roomy 19 _ _ taken
  | some remembered =>
      rw [kept] at opens
      rcases opens with inside | taken | maximized
      · left
        exact inBounds_avoidOverlap roomy 20 _ _ inside
      · left
        exact inBounds_collides roomy 19 _ _ taken
      · right
        exact ⟨remembered, rfl, maximized⟩

theorem reachedOn_placeWindow (all : AllReached wm)
    (placed : settled → InBounds wm.screenW wm.screenH win.x win.y) :
    ReachedOn (wm.placeWindow appId win).1 settled := by
  obtain ⟨rest, old, brought⟩ := @Layers.bring_concat _ wm.windows
    (fun win => !win.isOpen) win
  have windows : (wm.placeWindow appId win).1.windows = rest ++ [win] := brought
  have focused : (wm.placeWindow appId win).1.focused = rest.length := by
    have length := congrArg List.length windows
    have same : (wm.placeWindow appId win).1.windows.length =
        (Layers.place (fun win => !win.isOpen) wm.windows win).1.length :=
      Layers.length_toTop _
    rw [List.length_append, List.length_singleton] at length
    change (Layers.place (fun win => !win.isOpen) wm.windows win).1.length - 1 = _
    omega
  intro i other found allowed shown
  rw [focused] at allowed
  rw [windows] at found
  by_cases below : i < rest.length
  · rw [List.getElem?_append_left below] at found
    exact all other (old.subset (List.mem_of_getElem? found)) shown
  · rw [List.getElem?_append_right (by omega)] at found
    obtain ⟨inside, top⟩ := List.getElem?_eq_some_iff.mp found
    rw [List.length_singleton] at inside
    have last : i = rest.length := by omega
    subst last
    simp only [Nat.sub_self, List.getElem_cons_zero] at top
    subst top
    exact placed (allowed rfl)

theorem reachedOn_restoreSize {index : Nat} (roomy : Roomy wm.screenW wm.screenH)
    (reached : ReachedOn wm settled) (remembered : RememberedWindow) :
    ReachedOn (wm.restoreSize apps index remembered) settled := by
  have resized : ReachedOn (wm.alter index (fun win => win.resize apps wm.disk
      (max remembered.cols minCols) (max remembered.rows minRows))) settled :=
    reachedOn_alter reached (fun win _ =>
      keepsReach_unmoved (same_resize win _ _) rfl rfl)
  unfold restoreSize
  simp only
  split
  · exact reachedOn_alter resized (fun win _ => keepsReach_maximize roomy win _ _)
  · exact resized

theorem allReached_restoreSize {win : Window Contents} (roomy : Roomy wm.screenW wm.screenH)
    (reached : ReachedOn wm settled) (found : wm.windows[wm.focused]? = some win)
    (resizable : win.resizable = true) (fresh : win.maximized = false)
    {remembered : RememberedWindow} (maximized : remembered.maximized = true) :
    AllReached (wm.restoreSize apps wm.focused remembered) := by
  have resized : ReachedOn (wm.alter wm.focused (fun win => win.resize apps wm.disk
      (max remembered.cols minCols) (max remembered.rows minRows))) settled :=
    reachedOn_alter reached (fun win _ =>
      keepsReach_unmoved (same_resize win _ _) rfl rfl)
  unfold restoreSize
  simp only [maximized, if_true]
  apply reachedOn_settle resized
  intro other at_focus
  change (wm.windows.modify wm.focused _)[wm.focused]? = some other at at_focus
  rw [List.getElem?_modify_eq, found, Option.map_eq_map, Option.map_some, Option.some.injEq]
    at at_focus
  subst at_focus
  have filled : ∀ disk cells, ((win.resize apps wm.disk (max remembered.cols minCols)
      (max remembered.rows minRows)).maximize apps disk cells).x = 0 ∧
      ((win.resize apps wm.disk (max remembered.cols minCols)
        (max remembered.rows minRows)).maximize apps disk cells).y = 0 := by
    intro disk cells
    simp [Window.maximize, Window.resize, resizable, fresh]
  rw [(filled _ _).1, (filled _ _).2]
  exact inBounds_origin roomy

theorem focused_placeWindow {appId : Option AppId} {win : Window Contents}
    (full : ∀ win ∈ wm.windows.dropLast, win.isOpen = true) :
    (wm.placeWindow appId win).1.focused = (wm.placeWindow appId win).2 ∧
      (wm.placeWindow appId win).1.windows[(wm.placeWindow appId win).2]? = some win := by
  have same : (wm.placeWindow appId win).1.focused = (wm.placeWindow appId win).2 := by
    change (Layers.place (fun win => !win.isOpen) wm.windows win).1.length - 1 =
      (Layers.place (fun win => !win.isOpen) wm.windows win).2
    unfold Layers.place
    cases slot : wm.windows.findIdx? (fun win => !win.isOpen) with
    | none =>
        simp only [List.length_append, List.length_singleton]
        omega
    | some i =>
        obtain ⟨inside, isClosed, _⟩ := List.findIdx?_eq_some_iff_getElem.mp slot
        simp only [List.length_set]
        by_contra below
        have mem : wm.windows[i] ∈ wm.windows.dropLast := by
          rw [List.mem_iff_getElem?]
          refine ⟨i, ?_⟩
          rw [List.getElem?_dropLast, if_pos (by omega), List.getElem?_eq_getElem inside]
        rw [full _ mem] at isClosed
        cases isClosed
  refine ⟨same, ?_⟩
  rw [← same]
  have top := Layers.getElem?_toTop_top
    (@Layers.getElem?_place _ wm.windows (fun win => !win.isOpen) win)
  exact top

theorem reachedOn_spawnWindow (roomy : Roomy wm.screenW wm.screenH) (all : AllReached wm)
    {title : Text} {resizable : Bool} {kind : AppKind Contents}
    (flag : ∀ id, appId = some id → resizable = resizableApp id)
    (opens : settled → wm.OpensReached appId) :
    ReachedOn (wm.spawnWindow apps title resizable appId kind).1 settled := by
  unfold spawnWindow
  simp only
  have spot : settled → _ := fun now => inBounds_spawnPosition roomy (opens now)
  cases kept : wm.remembering appId with
  | none =>
      simp only
      apply reachedOn_placeWindow all
      intro now
      rcases spot now with inside | ⟨remembered, never, _⟩
      · exact inside
      · rw [kept] at never
        cases never
  | some remembered =>
      simp only
      by_cases inside : settled →
          InBounds wm.screenW wm.screenH (wm.spawnPosition appId).1 (wm.spawnPosition appId).2
      · have placed : ReachedOn (wm.placeWindow appId
            (wm.newWindow title resizable appId kind)).1 settled :=
          reachedOn_placeWindow all inside
        exact @reachedOn_restoreSize _ _ apps (wm.placeWindow appId
          (wm.newWindow title resizable appId kind)).1 settled _ roomy placed remembered
      · obtain ⟨now, outside⟩ := Classical.not_imp.mp inside
        rcases spot now with reached | ⟨same, again, maximized, canResize, full⟩
        · exact absurd reached outside
        · rw [kept, Option.some.injEq] at again
          subst again
          obtain ⟨id, isApp⟩ : ∃ id, appId = some id := by
            cases appId with
            | none => cases canResize
            | some id => exact ⟨id, rfl⟩
          obtain ⟨focused, found⟩ := @focused_placeWindow _ _ wm appId
            (wm.newWindow title resizable appId kind) full
          rw [← focused] at found ⊢
          have placed : ReachedOn (wm.placeWindow appId
              (wm.newWindow title resizable appId kind)).1 False :=
            reachedOn_placeWindow all False.elim
          apply AllReached.on
          apply @allReached_restoreSize _ _ apps (wm.placeWindow appId
            (wm.newWindow title resizable appId kind)).1 False _ roomy placed found _ rfl _ maximized
          change resizable = true
          rw [flag id isApp]
          rw [isApp] at canResize
          exact canResize

end WindowManager

end Desktop

end MachaOS
