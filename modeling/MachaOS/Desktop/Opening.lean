/-
What `spawn_window` returns: the index the new window was placed at.  Raising it then moves it to the
top, so the index names the new window only if nothing closed lay below the top of the stack.
-/

import MachaOS.Desktop.Sample
import MachaOS.Desktop.Stack

namespace MachaOS

namespace Desktop

namespace WindowManager

variable {Contents Disk : Type} (apps : Apps Contents Disk) (wm : WindowManager Contents Disk)

def reopened (appId : Option AppId) (win : Window Contents) : Window Contents :=
  match wm.remembering appId with
  | none => win
  | some remembered =>
      let resized :=
        win.resize apps wm.disk (max remembered.cols minCols) (max remembered.rows minRows)
      if remembered.maximized then resized.maximize apps wm.disk wm.maxContentCells else resized

def openWindows (windows : List (Window Contents)) : List (Window Contents) :=
  windows.filter Window.isOpen

/-- The index names the new window, which is on top and in focus; the other open windows are what
they were, in the order they were in. -/
structure Returned (next : WindowManager Contents Disk) (index : Nat) (new : Window Contents) : Prop where
  names : next.windows[index]? = some new
  onTop : index + 1 = next.windows.length
  inFocus : next.focused = index
  others : openWindows next.windows.dropLast = openWindows wm.windows

def NoHole : Prop := ∀ win ∈ wm.windows.dropLast, win.isOpen = true

variable {apps wm}

theorem length_spawnWindow (title : Text) (resizable : Bool) (appId : Option AppId)
    (kind : AppKind Contents) :
    (wm.spawnWindow apps title resizable appId kind).1.windows.length =
      (Layers.place (fun win : Window Contents => !win.isOpen) wm.windows
        (wm.newWindow title resizable appId kind)).1.length := by
  have placed : (wm.placeWindow appId (wm.newWindow title resizable appId kind)).1.windows.length =
      (Layers.place (fun win : Window Contents => !win.isOpen) wm.windows
        (wm.newWindow title resizable appId kind)).1.length :=
    Layers.length_toTop _
  unfold spawnWindow
  simp only
  split
  · rename_i remembered _
    have inside := (@inside_restoreSize _ _ apps
      (wm.placeWindow appId (wm.newWindow title resizable appId kind)).1
      (wm.placeWindow appId (wm.newWindow title resizable appId kind)).2 remembered).outline
    have same := congrArg List.length inside
    rw [outline, outline, List.length_map, List.length_map] at same
    rw [same, placed]
  · exact placed

theorem index_spawnWindow (title : Text) (resizable : Bool) (appId : Option AppId)
    (kind : AppKind Contents) :
    (wm.spawnWindow apps title resizable appId kind).2 =
      (Layers.place (fun win : Window Contents => !win.isOpen) wm.windows
        (wm.newWindow title resizable appId kind)).2 := by
  unfold spawnWindow
  simp only
  split
  · rfl
  · rfl

theorem alter_top {front : List (Window Contents)} {win : Window Contents}
    (top : wm.windows = front ++ [win]) (change : Window Contents → Window Contents) :
    (wm.alter front.length change).windows = front ++ [change win] := by
  rw [alter, top]
  exact Layers.modify_top front win change

theorem restoreSize_top {front : List (Window Contents)} {win : Window Contents}
    (top : wm.windows = front ++ [win]) (remembered : RememberedWindow) :
    (wm.restoreSize apps front.length remembered).windows = front ++
        [if remembered.maximized then
          (win.resize apps wm.disk (max remembered.cols minCols)
            (max remembered.rows minRows)).maximize apps wm.disk wm.maxContentCells
        else
          win.resize apps wm.disk (max remembered.cols minCols) (max remembered.rows minRows)] ∧
      (wm.restoreSize apps front.length remembered).focused = wm.focused := by
  have resized := alter_top top (fun win =>
    win.resize apps wm.disk (max remembered.cols minCols) (max remembered.rows minRows))
  unfold restoreSize
  dsimp only
  split
  · exact ⟨alter_top resized _, rfl⟩
  · exact ⟨resized, rfl⟩

theorem placeWindow_top (appId : Option AppId) (win : Window Contents) (noHole : wm.NoHole) :
    ∃ front, (wm.placeWindow appId win).2 = front.length ∧
      (wm.placeWindow appId win).1.windows = front ++ [win] ∧
      (wm.placeWindow appId win).1.focused = front.length ∧
      openWindows front = openWindows wm.windows := by
  have taken : ∀ other ∈ wm.windows.dropLast, (!other.isOpen) = false := by
    intro other mem
    rw [noHole other mem]
    rfl
  obtain ⟨front, placed, before⟩ := @Layers.place_onTop _ wm.windows _ win taken
  refine ⟨front, ?_, ?_, ?_, ?_⟩
  · exact congrArg Prod.snd placed
  · change Layers.toTop (Layers.place _ _ _).1 (Layers.place _ _ _).2 = _
    rw [placed]
    exact Layers.toTop_top
  · change (Layers.place _ _ _).1.length - 1 = _
    rw [placed, List.length_append]
    rfl
  · rcases before with same | ⟨old, closed, same⟩
    · rw [same]
    · have isClosed : old.isOpen = false := by simpa only [Bool.not_eq_true'] using closed
      simp only [same, openWindows, List.filter_append, List.filter_singleton, isClosed, cond_false,
        List.append_nil]

/-- For every stack of windows, open and closed in any order, `spawn_window` returns the index of the
window it made, raised, focused and at its remembered size, and leaves the other open windows alone,
exactly if no closed window lies below the top. -/
theorem returned_iff_noHole (apps : Apps Contents Disk) (wm : WindowManager Contents Disk)
    (title : Text) (resizable : Bool) (appId : Option AppId) (kind : AppKind Contents) :
    wm.Returned (wm.spawnWindow apps title resizable appId kind).1
        (wm.spawnWindow apps title resizable appId kind).2
        (wm.reopened apps appId (wm.newWindow title resizable appId kind)) ↔
      wm.NoHole := by
  constructor
  · intro returned win mem
    have top := returned.onTop
    rw [index_spawnWindow, length_spawnWindow] at top
    cases isOpen : win.isOpen with
    | true => rfl
    | false =>
        have below := @Layers.place_below _ wm.windows (fun win => !win.isOpen)
          (wm.newWindow title resizable appId kind) ⟨win, mem, by rw [isOpen]; rfl⟩
        omega
  · intro noHole
    obtain ⟨front, index, windows, focused, others⟩ :=
      placeWindow_top appId (wm.newWindow title resizable appId kind) noHole
    have finished : ∃ new, new = wm.reopened apps appId (wm.newWindow title resizable appId kind) ∧
        (wm.spawnWindow apps title resizable appId kind).1.windows = front ++ [new] ∧
        (wm.spawnWindow apps title resizable appId kind).1.focused = front.length := by
      unfold spawnWindow reopened
      dsimp only
      cases remembering : wm.remembering appId with
      | none => exact ⟨_, rfl, windows, focused⟩
      | some remembered =>
          have restored := @restoreSize_top _ _ apps _ _ _ windows remembered
          rw [index]
          exact ⟨_, rfl, restored.1, restored.2.trans focused⟩
    obtain ⟨new, isNew, stack, inFocus⟩ := finished
    have returned : (wm.spawnWindow apps title resizable appId kind).2 = front.length := by
      rw [index_spawnWindow]
      exact index
    rw [← isNew, returned]
    constructor
    · rw [stack]
      exact List.getElem?_concat_length
    · rw [stack, List.length_append]
      rfl
    · exact inFocus
    · rw [stack, List.dropLast_concat]
      exact others

end WindowManager

namespace Sample

open Keyboard WindowManager

def leavingHole : List Input := launch 0 0 ++ launch 1 0 ++ clickAt 690 140

/-- A window opened now takes the terminal's slot and is raised above the calculator, which is what the
index returned names. -/
theorem spawn_names_calculator :
    let wm := (boot none).run apps leavingHole
    let kind : AppKind (List Event) := .editor 100 20 []
    let (next, index) := wm.spawnWindow apps "Notepad".toList true (some .notepad) kind
    wm.windows.map Window.isOpen = [false, true] ∧
      next.windows[index]?.map Window.appId = some (some .calculator) ∧
      ¬ wm.Returned next index
        (wm.reopened apps (some .notepad)
          (wm.newWindow "Notepad".toList true (some .notepad) kind)) := by
  intro wm kind
  have hole : wm.windows.map Window.isOpen = [false, true] := by decide
  have named : (wm.spawnWindow apps "Notepad".toList true (some .notepad) kind).1.windows[
      (wm.spawnWindow apps "Notepad".toList true (some .notepad) kind).2]?.map Window.appId =
      some (some .calculator) := by decide
  refine ⟨hole, named, ?_⟩
  intro returned
  exact absurd returned.onTop (by decide)

end Sample

end Desktop

end MachaOS
