/-
Clicks and the gestures they begin: windows keep numbers of their own, there is one gesture at a time
and none while the button is up, and a gesture begins on the window on top.
-/

import MachaOS.Desktop.Stack

namespace MachaOS

namespace Desktop

open List
open Keyboard

namespace WindowManager

open Window

variable {Contents Disk : Type} {apps : Apps Contents Disk} {wm next : WindowManager Contents Disk}

def GesturesKept (wm : WindowManager Contents Disk) : Prop :=
  ∀ gesture ∈ wm.gestures,
    ∃ win, wm.windows[gesture.1]? = some win ∧ win.serial = gesture.2

structure Numbered (outline : List Outline) (count : Nat) : Prop where
  below : ∀ win ∈ outline, win.serial < count
  distinct : (outline.map Outline.serial).Nodup

theorem Numbered.toTop {outline : List Outline} {count : Nat} (numbered : Numbered outline count)
    (i : Nat) : Numbered (Layers.toTop outline i) count := by
  constructor
  · intro win mem
    exact numbered.below win (Layers.mem_toTop.mp mem)
  · rw [((Layers.toTop_perm outline i).map Outline.serial).nodup_iff]
    exact numbered.distinct

theorem Numbered.bring {outline : List Outline} {count : Nat} (numbered : Numbered outline count)
    (free : Outline → Bool) (isOpen minimized : Bool) :
    Numbered (Layers.bring free outline ⟨isOpen, minimized, count⟩) (count + 1) := by
  constructor
  · intro win mem
    rcases Layers.mem_bring mem with rfl | old
    · exact Nat.lt_succ_self count
    · exact Nat.lt_succ_of_lt (numbered.below win old)
  · apply Layers.nodup_bring numbered.distinct
    intro mem
    obtain ⟨win, old, same⟩ := mem_map.mp mem
    have serial : win.serial = count := same
    exact absurd (numbered.below win old) (by omega)

theorem numbered_congr {before after : List Outline} {count : Nat}
    (same : after.map Outline.serial = before.map Outline.serial)
    (numbered : Numbered before count) : Numbered after count := by
  constructor
  · intro win mem
    have serial : win.serial ∈ before.map Outline.serial := by
      rw [← same]
      exact mem_map_of_mem mem
    obtain ⟨old, present, equal⟩ := mem_map.mp serial
    rw [← equal]
    exact numbered.below old present
  · rw [same]
    exact numbered.distinct

theorem numbered_alter {i : Nat} {change : Window Contents → Window Contents}
    (keeps : ∀ win, (change win).serial = win.serial)
    (numbered : Numbered wm.outline wm.spawned) :
    Numbered (wm.alter i change).outline (wm.alter i change).spawned := by
  refine numbered_congr ?_ numbered
  unfold outline alter
  rw [map_map, map_map]
  apply ext_getElem?
  intro j
  rw [List.getElem?_map, List.getElem?_map, List.getElem?_modify, Option.map_eq_map, Option.map_map]
  congr 1
  funext win
  by_cases same : i = j
  · simp only [Function.comp_apply, if_pos same]
    exact keeps win
  · simp only [Function.comp_apply, if_neg same]

theorem numbered_raise (i : Nat) (numbered : Numbered wm.outline wm.spawned) :
    Numbered (wm.raise i).outline (wm.raise i).spawned := by
  have raised : (wm.raise i).outline = Layers.toTop wm.outline i := Layers.map_toTop _ wm.windows i
  rw [raised]
  exact numbered.toTop i

structure Orderly (wm : WindowManager Contents Disk) : Prop where
  numbered : Numbered wm.outline wm.spawned
  alone : wm.gestures.length ≤ 1
  idle : wm.leftWasDown = false → wm.gestures = []

structure Steady (wm : WindowManager Contents Disk) : Prop extends Orderly wm where
  named : ∀ gesture ∈ wm.gestures,
    ∃ win, wm.outline[gesture.1]? = some win ∧ win.serial = gesture.2
  upright : ∀ gesture ∈ wm.gestures, ∀ (i : Nat) (win : Outline), gesture.1 ≤ i →
    wm.outline[i]? = some win → win.isOpen = true

theorem Steady.kept (steady : Steady wm) : GesturesKept wm := by
  intro gesture mem
  obtain ⟨outline, found, same⟩ := steady.named gesture mem
  rw [getElem?_outline] at found
  obtain ⟨win, present, rfl⟩ := Option.map_eq_some_iff.mp found
  exact ⟨win, present, same⟩

theorem orderly_still (numbered : Numbered wm.outline wm.spawned) (still : wm.gestures = []) :
    Orderly wm := by
  refine ⟨numbered, ?_, fun _ => still⟩
  rw [still]
  exact Nat.zero_le 1

theorem steady_still (numbered : Numbered wm.outline wm.spawned) (still : wm.gestures = []) :
    Steady wm := by
  refine ⟨orderly_still numbered still, ?_, ?_⟩
  · intro gesture mem
    rw [still] at mem
    cases mem
  · intro gesture mem
    rw [still] at mem
    cases mem

structure Settled (wm next : WindowManager Contents Disk) : Prop where
  outline : next.outline = wm.outline
  gestures : next.gestures = [] ∨ next.gestures = wm.gestures
  left : next.leftWasDown = wm.leftWasDown
  spawned : next.spawned = wm.spawned

theorem Inside.settled (inside : Inside wm next) : Settled wm next :=
  ⟨inside.outline, Or.inr inside.gestures, inside.left, inside.spawned⟩

theorem Settled.inside {third : WindowManager Contents Disk} (early : Settled wm next)
    (late : Inside next third) : Settled wm third := by
  refine ⟨late.outline.trans early.outline, ?_, late.left.trans early.left,
    late.spawned.trans early.spawned⟩
  rw [late.gestures]
  exact early.gestures

theorem Settled.numbered (settled : Settled wm next) (numbered : Numbered wm.outline wm.spawned) :
    Numbered next.outline next.spawned := by
  rw [settled.outline, settled.spawned]
  exact numbered

theorem Orderly.settled (orderly : Orderly wm) (settled : Settled wm next) : Orderly next := by
  have numbered := settled.numbered orderly.numbered
  rcases settled.gestures with ended | same
  · exact orderly_still numbered ended
  · refine ⟨numbered, ?_, ?_⟩
    · rw [same]
      exact orderly.alone
    · rw [settled.left, same]
      exact orderly.idle

theorem Steady.settled (steady : Steady wm) (settled : Settled wm next) : Steady next := by
  have orderly := steady.toOrderly.settled settled
  rcases settled.gestures with ended | same
  · exact steady_still orderly.numbered ended
  · refine ⟨orderly, ?_, ?_⟩
    · rw [same, settled.outline]
      exact steady.named
    · rw [same, settled.outline]
      exact steady.upright

theorem Steady.inside (steady : Steady wm) (inside : Inside wm next) : Steady next :=
  steady.settled inside.settled

theorem Brought.numbered (brought : Brought wm next) (numbered : Numbered wm.outline wm.spawned) :
    Numbered next.outline next.spawned := by
  rw [brought.outline, brought.spawned]
  exact numbered.bring _ true false

theorem Orderly.brought (orderly : Orderly wm) (brought : Brought wm next) : Orderly next := by
  refine ⟨brought.numbered orderly.numbered, ?_, ?_⟩
  · rw [brought.gestures]
    exact orderly.alone
  · rw [brought.left, brought.gestures]
    exact orderly.idle

theorem Steady.brought (steady : Steady wm) (brought : Brought wm next)
    (safe : wm.gestures = [] ∨ ∀ win ∈ wm.outline, win.isOpen = true) : Steady next := by
  rcases safe with still | full
  · exact steady_still (brought.numbered steady.numbered) (brought.gestures.trans still)
  · have noneFree : ∀ win ∈ wm.outline, (!win.isOpen) = false := by
      intro win mem
      rw [full win mem]
      rfl
    have onTop : next.outline = wm.outline ++ [⟨true, false, wm.spawned⟩] :=
      brought.outline.trans (Layers.bring_full noneFree)
    refine ⟨steady.toOrderly.brought brought, ?_, ?_⟩
    · intro gesture mem
      rw [brought.gestures] at mem
      obtain ⟨win, found, same⟩ := steady.named gesture mem
      obtain ⟨inside, -⟩ := List.getElem?_eq_some_iff.mp found
      refine ⟨win, ?_, same⟩
      rw [onTop, List.getElem?_append_left inside, found]
    · intro gesture mem i win above found
      have present := mem_of_getElem? found
      rw [onTop] at present
      rcases mem_append.mp present with old | new
      · exact full win old
      · rw [mem_singleton.mp new]

theorem Steady.disturbed (steady : Steady wm) (brought : Brought wm next)
    (busy : wm.gestures ≠ []) (closed : ∃ win ∈ wm.outline, win.isOpen = false) :
    ¬ GesturesKept next := by
  intro kept
  obtain ⟨gesture, others, shape⟩ := exists_cons_of_ne_nil busy
  have mem : gesture ∈ wm.gestures := by
    rw [shape]
    exact mem_cons_self
  obtain ⟨win, found, same⟩ := steady.named gesture mem
  obtain ⟨inside, _⟩ := List.getElem?_eq_some_iff.mp found
  have free : ∃ win ∈ wm.outline, (!win.isOpen) = true := by
    obtain ⟨win, present, isClosed⟩ := closed
    exact ⟨win, present, by rw [isClosed]; rfl⟩
  have taken : ∀ (i : Nat) (win : Outline), gesture.1 ≤ i → wm.outline[i]? = some win →
      (!win.isOpen) = false := by
    intro i win above at_i
    rw [steady.upright gesture mem i win above at_i]
    rfl
  obtain ⟨now, present, named⟩ := kept gesture (by rw [brought.gestures]; exact mem)
  have nowOutline : next.outline[gesture.1]? = some now.outline := by
    rw [getElem?_outline, present]
    rfl
  rw [brought.outline] at nowOutline
  rcases @Layers.getElem?_bring_free _ wm.outline _ ⟨true, false, wm.spawned⟩ gesture.1 free taken
    inside with new | ⟨room, shifted⟩
  · rw [new] at nowOutline
    have serial : wm.spawned = now.serial :=
      congrArg Outline.serial (Option.some.inj nowOutline)
    have below := steady.numbered.below win (mem_of_getElem? found)
    omega
  · rw [shifted] at nowOutline
    have serials : (wm.outline.map Outline.serial)[gesture.1]? =
        (wm.outline.map Outline.serial)[gesture.1 + 1]? := by
      rw [List.getElem?_map, List.getElem?_map, found, nowOutline]
      exact congrArg some (same.trans named.symm)
    have within : gesture.1 < (wm.outline.map Outline.serial).length := by
      rw [length_map]
      exact inside
    have equal := (List.getElem?_inj within steady.numbered.distinct).mp serials
    omega

theorem gestures_nil : wm.gestures = [] ↔
    wm.dragging = none ∧ wm.resizing = none ∧ wm.fileDrag = none ∧ wm.pressState = none := by
  simp [gestures]

structure OnTop (wm : WindowManager Contents Disk) (win : Outline) : Prop where
  numbered : Numbered wm.outline wm.spawned
  still : wm.gestures = []
  left : wm.leftWasDown = true
  top : wm.outline[wm.focused]? = some win
  last : wm.focused + 1 = wm.outline.length
  isOpen : win.isOpen = true

theorem OnTop.inside {win : Outline} (onTop : OnTop wm win) (inside : Inside wm next) :
    OnTop next win := by
  constructor
  · rw [inside.outline, inside.spawned]
    exact onTop.numbered
  · rw [inside.gestures]
    exact onTop.still
  · rw [inside.left]
    exact onTop.left
  · rw [inside.outline, inside.focused]
    exact onTop.top
  · rw [inside.outline, inside.focused]
    exact onTop.last
  · exact onTop.isOpen

theorem OnTop.grab {win : Outline} (onTop : OnTop wm win)
    (outline : next.outline = wm.outline) (spawned : next.spawned = wm.spawned)
    (left : next.leftWasDown = wm.leftWasDown)
    (gestures : next.gestures = [(wm.focused, win.serial)]) : Steady next := by
  refine ⟨⟨?_, ?_, ?_⟩, ?_, ?_⟩
  · rw [outline, spawned]
    exact onTop.numbered
  · rw [gestures]
    exact Nat.le_refl 1
  · intro up
    rw [left, onTop.left] at up
    cases up
  · intro gesture mem
    rw [gestures] at mem
    cases mem_singleton.mp mem
    rw [outline]
    exact ⟨win, onTop.top, rfl⟩
  · intro gesture mem i other above found
    rw [gestures] at mem
    cases mem_singleton.mp mem
    rw [outline] at found
    obtain ⟨inside, _⟩ := List.getElem?_eq_some_iff.mp found
    have same : i = wm.focused := by
      have last := onTop.last
      have bound : wm.focused ≤ i := above
      omega
    rw [same, onTop.top] at found
    cases found
    exact onTop.isOpen

variable {win : Window Contents}

theorem onTop_raise {i : Nat} (found : wm.windows[i]? = some win) (shown : win.visible = true)
    (numbered : Numbered wm.outline wm.spawned) (still : wm.gestures = [])
    (left : wm.leftWasDown = true) : OnTop (wm.raise i) win.outline := by
  obtain ⟨inside, _⟩ := List.getElem?_eq_some_iff.mp found
  refine ⟨numbered_raise i numbered, still, left, ?_, ?_, ?_⟩
  · exact (getElem?_outline _).trans
      (congrArg (Option.map Window.outline) (Layers.getElem?_toTop_top found))
  · change wm.windows.length - 1 + 1 = ((Layers.toTop wm.windows i).map Window.outline).length
    rw [length_map, Layers.length_toTop]
    omega
  · rw [Window.visible, Bool.and_eq_true] at shown
    exact shown.1

theorem steady_grabTitle (onTop : OnTop wm win.outline) : Steady (wm.grabTitle apps win) := by
  have restored : OnTop (if win.maximized then wm.unmaximizeWindow apps wm.focused else wm)
      win.outline := by
    split
    · exact onTop.inside (inside_unmaximizeWindow _)
    · exact onTop
  unfold grabTitle
  simp only
  generalize (if win.maximized then wm.unmaximizeWindow apps wm.focused else wm) = before
    at restored ⊢
  split
  · exact steady_still restored.numbered restored.still
  · rename_i grabbed found
    have top := restored.top
    rw [getElem?_outline, found] at top
    have serial : grabbed.serial = win.serial :=
      congrArg Outline.serial (Option.some.inj top)
    obtain ⟨-, resizing, fileDrag, pressState⟩ := gestures_nil.mp restored.still
    refine restored.grab rfl rfl rfl ?_
    simp [gestures, resizing, fileDrag, pressState, serial]
    rfl

theorem steady_answerClick (action : Option FsAction) (item : Option Nat)
    (onTop : OnTop wm win.outline) : Steady (wm.answerClick apps action item win) := by
  obtain ⟨dragging, resizing, fileDrag, pressState⟩ := gestures_nil.mp onTop.still
  have idle : ({ wm with pressState := none } : WindowManager Contents Disk).gestures = [] :=
    gestures_nil.mpr ⟨dragging, resizing, fileDrag, rfl⟩
  have closed : Steady ({ wm with pressState := none } : WindowManager Contents Disk) :=
    @steady_still _ _ { wm with pressState := none } onTop.numbered idle
  unfold answerClick
  split
  · exact closed.brought (brought_dispatchAction _) (Or.inl idle)
  · refine onTop.grab rfl rfl rfl ?_
    simp [gestures, dragging, resizing, fileDrag]
    rfl
  · exact closed

theorem steady_clickContent (onTop : OnTop wm win.outline) :
    Steady (wm.clickContent apps win) :=
  (steady_answerClick _ _ (onTop.inside (inside_kind _ _ _))).inside (inside_applyChange _)

theorem steady_applyPart {i : Nat} (part : Part) (found : wm.windows[i]? = some win)
    (shown : win.visible = true) (numbered : Numbered wm.outline wm.spawned)
    (still : wm.gestures = []) (left : wm.leftWasDown = true) :
    Steady (wm.applyPart apps i win part) := by
  have onTop := onTop_raise found shown numbered still left
  cases part with
  | grip =>
      obtain ⟨dragging, resizing, fileDrag, pressState⟩ := gestures_nil.mp onTop.still
      refine onTop.grab rfl rfl rfl ?_
      change gestures ((wm.raise i).grabGrip win) = _
      simp [gestures, grabGrip, dragging, fileDrag, pressState]
      rfl
  | close =>
      have remembered := @inside_rememberGeometry _ _ wm i
      have kept : Numbered (wm.rememberGeometry i).outline (wm.rememberGeometry i).spawned := by
        rw [remembered.outline, remembered.spawned]
        exact numbered
      exact steady_still (numbered_alter (fun _ => rfl) kept) (remembered.gestures.trans still)
  | maximize =>
      have changed : OnTop (if win.maximized
          then (wm.raise i).unmaximizeWindow apps (wm.raise i).focused
          else (wm.raise i).maximizeWindow apps (wm.raise i).focused) win.outline := by
        split
        · exact onTop.inside (inside_unmaximizeWindow _)
        · exact onTop.inside (inside_maximizeWindow _)
      exact steady_still changed.numbered changed.still
  | minimize => exact steady_still (numbered_alter (fun _ => rfl) numbered) still
  | title => exact steady_grabTitle onTop
  | content => exact steady_clickContent onTop

theorem steady_handleClick (numbered : Numbered wm.outline wm.spawned) (still : wm.gestures = [])
    (left : wm.leftWasDown = true) : Steady (wm.handleClick apps) := by
  have valid := @clickTarget_valid _ _ wm
  unfold handleClick
  cases target : wm.clickTarget with
  | launch action =>
      have closed : Steady { wm with launcherOpen := false } := steady_still numbered still
      have run : Steady ({ wm with launcherOpen := false }.runLauncherAction apps action) :=
        closed.brought (brought_runLauncherAction action) (Or.inl still)
      exact ⟨⟨run.numbered, run.alone, run.idle⟩, run.named, run.upright⟩
  | dismiss => exact steady_still numbered still
  | startMenu => exact steady_still numbered still
  | taskbar i =>
      exact steady_still (numbered_raise i (numbered_alter (fun _ => rfl) numbered)) still
  | part i win part =>
      rw [target] at valid
      exact steady_applyPart part valid.1 (visible_of_partAt valid.2) numbered still left
  | nothing => exact steady_still numbered still

end WindowManager

end Desktop

end MachaOS
