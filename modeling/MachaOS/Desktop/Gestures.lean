/-
The gestures of the mouse hold indices into the list of windows.  They stay right as long as nothing
takes a closed slot while one of them is under way; only a key can do that, one that makes the file
explorer open a file.
-/

import MachaOS.Desktop.Clicks
import MachaOS.Desktop.Sample

namespace MachaOS

namespace Desktop

open List Option
open Keyboard

namespace WindowManager

open Window

variable {Contents Disk : Type} {apps : Apps Contents Disk} {wm next : WindowManager Contents Disk}

def OpensFile (apps : Apps Contents Disk) (wm : WindowManager Contents Disk) : Prop :=
  ∃ win app entry, wm.keyWindow = some win ∧ win.kind = .fileExplorer app ∧
    app.editing = false ∧ app.entries[app.selection]? = some entry ∧ entry.isDir = false ∧
      (isElf entry.name = true ∨ ((isRaw entry.name = true ∨ isText entry.name = true) ∧
          (apps.readFile (join app.path entry.name) wm.disk).isSome = true))

def Undisturbed (apps : Apps Contents Disk) (wm : WindowManager Contents Disk) : Input → Prop
  | .mouse _ => True
  | .key event =>
      event = Event.enter → OpensFile apps wm →
        wm.gestures = [] ∨ ∀ win ∈ wm.windows, win.isOpen = true

theorem openSelected_isSome {app : FileExplorer Contents} {disk : Disk} :
    (app.openSelected apps disk).1.isSome = true ↔
      ∃ entry, app.entries[app.selection]? = some entry ∧ entry.isDir = false ∧
        (isElf entry.name = true ∨ ((isRaw entry.name = true ∨ isText entry.name = true) ∧
            (apps.readFile (join app.path entry.name) disk).isSome = true)) := by
  unfold FileExplorer.openSelected
  cases selected : app.entries[app.selection]? with
  | none => simp
  | some entry =>
      cases isDir : entry.isDir with
      | true => simp [isDir]
      | false =>
          cases elf : isElf entry.name with
          | true => simp [isDir, elf]
          | false =>
              cases raw : isRaw entry.name with
              | true => simp [isDir, elf, raw]
              | false =>
                  cases text : isText entry.name with
                  | true => simp [isDir, elf, raw, text]
                  | false => simp [isDir, elf, raw, text]

theorem handleKey_action {win : Window Contents} (found : wm.keyWindow = some win)
    (event : Event) :
    (win.kind.handleKey apps event wm.disk).1.isSome = true ↔
      event = Event.enter ∧ OpensFile apps wm := by
  have unique : OpensFile apps wm ↔ ∃ app entry, win.kind = .fileExplorer app ∧
      app.editing = false ∧ app.entries[app.selection]? = some entry ∧ entry.isDir = false ∧
        (isElf entry.name = true ∨ ((isRaw entry.name = true ∨ isText entry.name = true) ∧
            (apps.readFile (join app.path entry.name) wm.disk).isSome = true)) := by
    constructor
    · rintro ⟨other, app, entry, same, opens⟩
      cases found.symm.trans same
      exact ⟨app, entry, opens⟩
    · rintro ⟨app, entry, opens⟩
      exact ⟨win, app, entry, found, opens⟩
  rw [unique]
  cases kind : win.kind with
  | fileExplorer app =>
      cases editing : app.editing with
      | true => simp [AppKind.handleKey, FileExplorer.handleKey, editing]
      | false =>
          by_cases enter : event = Event.enter
          · have opened := @openSelected_isSome _ _ apps app wm.disk
            simp [AppKind.handleKey, FileExplorer.handleKey, editing, enter, opened]
          · simp [AppKind.handleKey, FileExplorer.handleKey, editing, enter]
  | _ => simp [AppKind.handleKey]

theorem handleKey_opens {event : Event} (enter : event = Event.enter) (opens : OpensFile apps wm) :
    ∃ typed, Inside wm typed ∧ Brought typed (wm.handleKey apps event) := by
  obtain ⟨win, app, entry, found, _⟩ := id opens
  obtain ⟨action, answered⟩ := isSome_iff_exists.mp
    ((handleKey_action found event).mpr ⟨enter, opens⟩)
  refine ⟨_, inside_kind wm.focused (win.kind.handleKey apps event wm.disk).2.1
    (win.kind.handleKey apps event wm.disk).2.2, ?_⟩
  unfold handleKey
  simp only [found, answered]
  exact brought_dispatchAction action

theorem handleKey_quiet {event : Event} (quiet : ¬ (event = Event.enter ∧ OpensFile apps wm)) :
    Inside wm (wm.handleKey apps event) := by
  unfold handleKey
  cases found : wm.keyWindow with
  | none => exact Inside.refl wm
  | some win =>
      have silent : (win.kind.handleKey apps event wm.disk).1 = none := by
        rw [← not_isSome_iff_eq_none]
        exact fun answered => quiet ((handleKey_action found event).mp answered)
      simp only [silent]
      exact inside_kind _ _ _

theorem outline_open : (∀ outline ∈ wm.outline, outline.isOpen = true) ↔
    ∀ win ∈ wm.windows, win.isOpen = true := by
  constructor
  · intro all win mem
    exact all win.outline (mem_map_of_mem mem)
  · intro all outline mem
    obtain ⟨win, present, rfl⟩ := mem_map.mp mem
    exact all win present

theorem steady_handleKey {event : Event} (steady : Steady wm)
    (undisturbed : Undisturbed apps wm (.key event)) : Steady (wm.handleKey apps event) := by
  by_cases opening : event = Event.enter ∧ OpensFile apps wm
  · obtain ⟨typed, inside, brought⟩ := handleKey_opens opening.1 opening.2
    apply (steady.inside inside).brought brought
    rcases undisturbed opening.1 opening.2 with still | full
    · exact Or.inl (inside.gestures.trans still)
    · refine Or.inr ?_
      rw [inside.outline]
      exact outline_open.mpr full
  · exact steady.inside (handleKey_quiet opening)

theorem disturbed_handleKey {event : Event} (steady : Steady wm)
    (disturbed : ¬ Undisturbed apps wm (.key event)) : ¬ GesturesKept (wm.handleKey apps event) := by
  simp only [Undisturbed, Classical.not_imp, not_or] at disturbed
  obtain ⟨enter, opens, busy, notFull⟩ := disturbed
  obtain ⟨typed, inside, brought⟩ := handleKey_opens enter opens
  apply (steady.inside inside).disturbed brought
  · rw [inside.gestures]
    exact busy
  · rw [inside.outline]
    rw [← outline_open] at notFull
    obtain ⟨win, notAll⟩ := not_forall.mp notFull
    obtain ⟨mem, isClosed⟩ := Classical.not_imp.mp notAll
    exact ⟨win, mem, Bool.eq_false_iff.mpr isClosed⟩

variable {event : MouseEvent}

theorem orderly_moveCursor (orderly : Orderly wm)
    (notReleased : event.left = true ∨ wm.leftWasDown = false) : Orderly (wm.moveCursor event) := by
  refine ⟨orderly.numbered, orderly.alone, ?_⟩
  intro up
  rcases notReleased with down | wasUp
  · exact absurd (down.symm.trans up) Bool.noConfusion
  · exact orderly.idle wasUp

theorem only_resizing {held : ResizeState} (alone : wm.gestures.length ≤ 1)
    (resizing : wm.resizing = some held) :
    wm.dragging = none ∧ wm.fileDrag = none ∧ wm.pressState = none := by
  simp only [gestures, resizing, length_append, length_map, toList_some,
    length_cons, length_nil] at alone
  refine ⟨?_, ?_, ?_⟩
  · cases dragging : wm.dragging with
    | none => rfl
    | some other =>
        simp only [dragging, toList_some, length_cons] at alone
        omega
  · cases fileDrag : wm.fileDrag with
    | none => rfl
    | some other =>
        simp only [fileDrag, toList_some, length_cons] at alone
        omega
  · cases pressState : wm.pressState with
    | none => rfl
    | some other =>
        simp only [pressState, toList_some, length_cons] at alone
        omega

theorem only_fileDrag {held : FileDragState} (alone : wm.gestures.length ≤ 1)
    (fileDrag : wm.fileDrag = some held) : wm.dragging = none ∧ wm.resizing = none := by
  simp only [gestures, fileDrag, length_append, length_map, toList_some,
    length_cons, length_nil] at alone
  constructor
  · cases dragging : wm.dragging with
    | none => rfl
    | some other =>
        simp only [dragging, toList_some, length_cons] at alone
        omega
  · cases resizing : wm.resizing with
    | none => rfl
    | some other =>
        simp only [resizing, toList_some, length_cons] at alone
        omega

theorem only_pressState {held : PressState} (alone : wm.gestures.length ≤ 1)
    (pressState : wm.pressState = some held) : wm.dragging = none ∧ wm.resizing = none := by
  simp only [gestures, pressState, length_append, length_map, toList_some,
    length_cons, length_nil] at alone
  constructor
  · cases dragging : wm.dragging with
    | none => rfl
    | some other =>
        simp only [dragging, toList_some, length_cons] at alone
        omega
  · cases resizing : wm.resizing with
    | none => rfl
    | some other =>
        simp only [resizing, toList_some, length_cons] at alone
        omega

theorem settled_beginFileDrag {press : PressState} (alone : wm.gestures.length ≤ 1)
    (pressed : wm.pressState = some press) (free : wm.fileDrag = none) :
    Settled wm (wm.beginFileDrag apps press) := by
  obtain ⟨dragging, resizing⟩ := only_pressState alone pressed
  unfold beginFileDrag
  split
  · exact ⟨rfl, Or.inl (gestures_nil.mpr ⟨dragging, resizing, free, rfl⟩), rfl, rfl⟩
  · refine Settled.inside ?_ (inside_setExplorerDrag _)
    refine ⟨rfl, Or.inr ?_, rfl, rfl⟩
    simp [gestures, dragging, resizing, pressed, free]

theorem applyDrop_gestures (drag : FileDragState) :
    (wm.applyDrop apps drag).dragging = wm.dragging ∧
      (wm.applyDrop apps drag).resizing = wm.resizing ∧
        (wm.applyDrop apps drag).fileDrag = wm.fileDrag := by
  have dropped : ∀ i win, (wm.dropOn apps drag i win).2.dragging = wm.dragging ∧
      (wm.dropOn apps drag i win).2.resizing = wm.resizing ∧
        (wm.dropOn apps drag i win).2.fileDrag = wm.fileDrag := by
    intro i win
    unfold dropOn
    split <;> exact ⟨rfl, rfl, rfl⟩
  unfold applyDrop
  split
  · exact ⟨rfl, rfl, rfl⟩
  · simp only
    split
    · exact dropped _ _
    · exact dropped _ _

theorem steady_finishFileDrag {held : FileDragState} (numbered : Numbered wm.outline wm.spawned)
    (dragging : wm.dragging = none) (resizing : wm.resizing = none) :
    Steady (wm.finishFileDrag apps held) := by
  have inside := @inside_applyDrop _ _ apps { wm with fileDrag := none } held
  obtain ⟨noDrag, noResize, noFile⟩ := @applyDrop_gestures _ _ apps { wm with fileDrag := none } held
  have kept : Numbered ({ wm with fileDrag := none }.applyDrop apps held).outline
      ({ wm with fileDrag := none }.applyDrop apps held).spawned := by
    rw [inside.outline, inside.spawned]
    exact numbered
  refine Steady.inside ?_ (inside_setExplorerDrag none)
  apply steady_still
  · exact kept
  · exact gestures_nil.mpr ⟨noDrag.trans dragging, noResize.trans resizing, noFile, rfl⟩

theorem steady_releaseEvent (numbered : Numbered wm.outline wm.spawned)
    (resizing : wm.resizing = none) (fileDrag : wm.fileDrag = none) :
    Steady (wm.releaseEvent apps) := by
  unfold releaseEvent
  split
  · exact steady_still numbered (gestures_nil.mpr ⟨rfl, resizing, fileDrag, rfl⟩)
  · exact steady_still numbered (gestures_nil.mpr ⟨rfl, resizing, fileDrag, rfl⟩)

theorem steady_release (orderly : Orderly wm) (up : event.left = false)
    (wasDown : wm.leftWasDown = true) : Steady (wm.handleMouse apps event) := by
  have numbered : Numbered (wm.moveCursor event).outline (wm.moveCursor event).spawned :=
    orderly.numbered
  have alone : (wm.moveCursor event).gestures.length ≤ 1 := orderly.alone
  unfold handleMouse
  simp only [up, wasDown, Bool.not_false, Bool.not_true, Bool.and_true]
  generalize wm.moveCursor event = moved at numbered alone ⊢
  split
  · rename_i held resizing
    obtain ⟨dragging, fileDrag, pressState⟩ := only_resizing alone resizing
    apply steady_still
    · exact numbered
    · exact gestures_nil.mpr ⟨dragging, rfl, fileDrag, pressState⟩
  · rename_i held resizing fileDrag
    obtain ⟨dragging, noResize⟩ := only_fileDrag alone fileDrag
    exact steady_finishFileDrag numbered dragging noResize
  · rename_i resizing fileDrag
    have unpressed : moved.pressEvent apps false = moved := by
      unfold pressEvent
      split <;> rfl
    have undragged : moved.dragEvent false = moved := by
      unfold dragEvent
      split <;> rfl
    rw [unpressed, fileDrag]
    simp only [isSome_none, Bool.false_and, Bool.false_eq_true, if_false, plainEvent,
      undragged, if_true]
    exact steady_releaseEvent numbered resizing fileDrag

theorem handleMouse_press (orderly : Orderly wm) (down : event.left = true)
    (wasUp : wm.leftWasDown = false) :
    wm.handleMouse apps event = (wm.moveCursor event).handleClick apps := by
  have still : (wm.moveCursor event).gestures = [] := orderly.idle wasUp
  unfold handleMouse
  simp only [down, wasUp, Bool.not_false, Bool.not_true, Bool.and_self]
  generalize wm.moveCursor event = moved at still ⊢
  obtain ⟨dragging, resizing, fileDrag, pressState⟩ := gestures_nil.mp still
  have unpressed : moved.pressEvent apps true = moved := by
    unfold pressEvent
    rw [pressState]
  have undragged : moved.dragEvent true = moved := by
    unfold dragEvent
    rw [dragging]
  rw [resizing, fileDrag]
  simp only
  rw [unpressed, fileDrag]
  simp only [isSome_none, Bool.false_eq_true, if_false, plainEvent, undragged, if_true]

theorem steady_press (orderly : Orderly wm) (down : event.left = true)
    (wasUp : wm.leftWasDown = false) : Steady (wm.handleMouse apps event) := by
  rw [handleMouse_press orderly down wasUp]
  exact steady_handleClick orderly.numbered (orderly.idle wasUp) down

theorem settled_motion (orderly : Orderly wm) (same : event.left = wm.leftWasDown) :
    Settled (wm.moveCursor event) (wm.handleMouse apps event) := by
  have alone : (wm.moveCursor event).gestures.length ≤ 1 := orderly.alone
  unfold handleMouse
  simp only [← same, Bool.and_not_self, Bool.not_and_self]
  generalize wm.moveCursor event = next at alone ⊢
  split
  · rename_i resize resizing
    change Settled next (if event.left then next.resizeMotion apps resize else next)
    split
    · exact (inside_resizeMotion resize resizing).settled
    · exact (Inside.refl next).settled
  · exact (Inside.refl next).settled
  · rename_i resizing fileDrag
    have pressed : Settled next (next.pressEvent apps event.left) := by
      unfold pressEvent
      split
      · rename_i press pressState
        split
        · exact settled_beginFileDrag alone pressState fileDrag
        · exact (Inside.refl next).settled
      · exact (Inside.refl next).settled
    split
    · exact pressed
    · exact pressed.inside (inside_dragEvent _)

theorem orderly_motion (orderly : Orderly wm) (same : event.left = wm.leftWasDown) :
    Orderly (wm.moveCursor event) := by
  apply orderly_moveCursor orderly
  cases left : event.left with
  | true => exact Or.inl rfl
  | false => exact Or.inr (same.symm.trans left)

theorem steady_motion (steady : Steady wm) (same : event.left = wm.leftWasDown) :
    Steady (wm.handleMouse apps event) := by
  have moved : Steady (wm.moveCursor event) :=
    ⟨orderly_motion steady.toOrderly same, steady.named, steady.upright⟩
  exact moved.settled (settled_motion steady.toOrderly same)

theorem mouse_cases (wm : WindowManager Contents Disk) (event : MouseEvent) :
    (event.left = true ∧ wm.leftWasDown = false) ∨ (event.left = false ∧ wm.leftWasDown = true) ∨
      event.left = wm.leftWasDown := by
  cases event.left <;> cases wm.leftWasDown <;> simp

theorem orderly_step (input : Input) (orderly : Orderly wm) : Orderly (wm.step apps input) := by
  cases input with
  | key event =>
      change Orderly (wm.handleKey apps event)
      by_cases opening : event = Event.enter ∧ OpensFile apps wm
      · obtain ⟨typed, inside, brought⟩ := handleKey_opens opening.1 opening.2
        exact (orderly.settled inside.settled).brought brought
      · exact orderly.settled (handleKey_quiet opening).settled
  | mouse event =>
      rcases mouse_cases wm event with ⟨down, wasUp⟩ | ⟨up, wasDown⟩ | same
      · exact (steady_press orderly down wasUp).toOrderly
      · exact (steady_release orderly up wasDown).toOrderly
      · exact (orderly_motion orderly same).settled (settled_motion orderly same)

theorem steady_step {input : Input} (steady : Steady wm) (undisturbed : Undisturbed apps wm input) :
    Steady (wm.step apps input) := by
  cases input with
  | key event => exact steady_handleKey steady undisturbed
  | mouse event =>
      rcases mouse_cases wm event with ⟨down, wasUp⟩ | ⟨up, wasDown⟩ | same
      · exact steady_press steady.toOrderly down wasUp
      · exact steady_release steady.toOrderly up wasDown
      · exact steady_motion steady same

theorem restoreEntry_brought {entry : SessionWindow} :
    wm.restoreEntry apps entry = wm ∨
      ∃ opened, Brought wm opened ∧ wm.restoreEntry apps entry =
        opened.alter opened.focused (fun win => { win with minimized := entry.minimized }) := by
  unfold restoreEntry
  split
  · exact Or.inl rfl
  · rename_i id named
    split
    · exact Or.inl rfl
    · refine Or.inr ?_
      simp only
      have opened : Brought wm (wm.runLauncherAction apps (builtinAction id)) :=
        brought_runLauncherAction _
      generalize wm.runLauncherAction apps (builtinAction id) = next at opened ⊢
      have fitted : Inside next (next.fitEntry apps entry wm.maxX wm.maxY next.focused) :=
        inside_fitEntry entry _ _ _
      refine ⟨_, opened.inside fitted, ?_⟩
      rw [fitted.focused]

theorem steady_restoreEntry {entry : SessionWindow} (numbered : Numbered wm.outline wm.spawned)
    (still : wm.gestures = []) :
    Numbered (wm.restoreEntry apps entry).outline (wm.restoreEntry apps entry).spawned ∧
      (wm.restoreEntry apps entry).gestures = [] := by
  rcases @restoreEntry_brought _ _ apps wm entry with same | ⟨opened, brought, shape⟩
  · rw [same]
    exact ⟨numbered, still⟩
  · rw [shape]
    exact ⟨numbered_alter (fun _ => rfl) (brought.numbered numbered), brought.gestures.trans still⟩

theorem steady_new (screenW screenH : UInt32) (display : Display) (disk : Disk) :
    Steady (new apps screenW screenH display disk) := by
  have numbered : Numbered (emptyDesktop apps screenW screenH display disk).outline
      (emptyDesktop apps screenW screenH display disk).spawned := by
    constructor
    · intro win mem
      cases mem
    · exact nodup_nil
  obtain ⟨counted, idle⟩ := @new_induction _ _ apps
    (fun wm => Numbered wm.outline wm.spawned ∧ wm.gestures = []) screenW screenH display disk
    (fun _ => ⟨numbered, rfl⟩) (fun _ entry kept => steady_restoreEntry kept.1 kept.2)
    (fun _ kept => kept)
  exact steady_still counted idle

/-- In a run from the boot every gesture keeps acting on the window it began on exactly if no key
opens a file while a gesture is under way and a closed window's slot is free. -/
theorem gestures_kept_iff_undisturbed (apps : Apps Contents Disk) (screenW screenH : UInt32)
    (display : Display) (disk : Disk) (inputs : List Input) :
    (∀ front, front <+: inputs →
        GesturesKept ((new apps screenW screenH display disk).run apps front)) ↔
      Runs.Meets (steps apps) (Undisturbed apps) (new apps screenW screenH display disk) inputs := by
  have exact_runs := @Runs.always_iff_meets _ _ (steps apps) (Undisturbed apps) Steady GesturesKept
    (fun state input next steady undisturbed stepped => by
      cases stepped
      exact steady_step steady undisturbed)
    (fun state steady => steady.kept)
    (fun state input steady disturbed => by
      refine ⟨state.step apps input, rfl, ?_⟩
      cases input with
      | mouse event => exact absurd trivial disturbed
      | key event => exact disturbed_handleKey steady disturbed)
    (new apps screenW screenH display disk) (steady_new screenW screenH display disk) inputs
  rw [← exact_runs]
  apply forall_congr'
  intro front
  apply imp_congr_right
  intro _
  rw [after_steps]
  constructor
  · rintro kept state same
    cases same
    exact kept
  · intro kept
    exact kept _ rfl

end WindowManager

namespace Sample

open WindowManager

def holding : List Input :=
  launch 0 0 ++ launch 2 0 ++ clickAt 690 140 ++
    [.mouse ⟨-10000, -10000, false⟩, .mouse ⟨300, 170, true⟩]

/-- Opening a file takes the slot of the closed terminal and shifts the explorer that is held. -/
theorem enter_shifts_dragged_window :
    ¬ ∀ front, front <+: holding ++ [.key .enter] →
      GesturesKept ((new apps 800 600 display (disk none)).run apps front) := by
  intro kept
  have last := kept _ (List.prefix_refl _)
  have gestures : ((new apps 800 600 display (disk none)).run apps
      (holding ++ [.key .enter])).gestures = [(1, 1)] := by decide
  have serials : (((new apps 800 600 display (disk none)).run apps
      (holding ++ [.key .enter])).windows.map Window.serial) = [1, 2] := by decide
  obtain ⟨win, found, same⟩ := last (1, 1) (by rw [gestures]; exact List.mem_cons_self)
  have now := congrArg (Option.map Window.serial) found
  rw [← List.getElem?_map, serials, Option.map_some, same] at now
  cases now

end Sample

end Desktop

end MachaOS
