/-
What the operations of the explorer do to the two that are deferred: a delete that is armed by one
press and confirmed by another, and a rename that is started, edited and committed.

Both remember a position in the list.  `Memory` is what they depend on, and each operation either
keeps it, forgets it or puts a list that has been read again under it.
-/

import MachaOS.Explorer.FileExplorer

namespace MachaOS

namespace Explorer

open Desktop (Text join)
open Keyboard (Event)

inductive Call where
  | remove (path : Text)
  | rename (path newName : Text)
deriving DecidableEq, Repr

def Call.path : Call → Text
  | .remove path => path
  | .rename path _ => path

variable {Disk : Type}

def System.recording (sys : System Disk) : System (Disk × List Call) :=
  { listDir := fun path disk => sys.listDir path disk.1
    readFile := fun path disk => sys.readFile path disk.1
    remove := fun path disk =>
      let (answer, after) := sys.remove path disk.1
      (answer, after, disk.2 ++ [.remove path])
    rename := fun path newName disk =>
      let (answer, after) := sys.rename path newName disk.1
      (answer, after, disk.2 ++ [.rename path newName])
    makeDir := fun path disk =>
      let (answer, after) := sys.makeDir path disk.1
      (answer, after, disk.2)
    writeFile := fun path content disk =>
      let (answer, after) := sys.writeFile path content disk.1
      (answer, after, disk.2)
    moveFile := fun path destination disk =>
      let (answer, after) := sys.moveFile path destination disk.1
      (answer, after, disk.2)
    home := sys.home
    lowercase := sys.lowercase }

namespace FileExplorer

section Relisted

variable (sys : System Disk) (moment : Moment Disk)

def listedAfter (app : FileExplorer) : Except Text Unit × Disk → Option (List DirEntry)
  | (.ok _, disk) => some (app.listing sys disk)
  | (.error _, _) => none

def relistedBy (app : FileExplorer) : Command → Option (List DirEntry)
  | .createFolder =>
      app.listedAfter sys
        (sys.makeDir (join app.path (app.folderName sys)) moment.disk)
  | .createFile =>
      app.listedAfter sys
        (sys.writeFile (join app.path (app.fileName sys)) [] moment.disk)
  | .refresh => some (app.listing sys moment.disk)
  | .toggleSort key => some ((app.toggled key).listing sys moment.disk)
  | _ => none

end Relisted

end FileExplorer

structure Memory where
  path : Text
  entries : List DirEntry
  pendingDelete : Option (Nat × Nat)
  rename : Option RenameState

namespace FileExplorer

def memory (app : FileExplorer) : Memory :=
  { path := app.path, entries := app.entries, pendingDelete := app.pendingDelete
    rename := app.rename }

section Kept

variable (sys : System Disk) (moment : Moment Disk) (app : FileExplorer)

theorem selectNamed_memory (name : Text) : (app.selectNamed name).memory = app.memory := by
  unfold selectNamed
  split <;> rfl

theorem moveSelection_memory (delta : Int) :
    (app.moveSelection delta).memory = app.memory := by
  unfold moveSelection
  split <;> rfl

theorem scrollClick_memory (y : Nat) : (app.scrollClick y).memory = app.memory := by
  unfold scrollClick
  simp only
  split
  · rfl
  · split
    · rfl
    · split <;> rfl

theorem toggled_memory (key : SortKey) : (app.toggled key).memory = app.memory := by
  unfold toggled
  split <;> rfl

theorem openContent_memory (action : Text → List UInt8 → Desktop.FsAction) (path name : Text) :
    (openContent sys moment action path name app).2.memory = app.memory := by
  unfold openContent
  split <;> rfl

def Forgets (app : FileExplorer) : Prop :=
  app.pendingDelete = none ∧ app.rename = none

theorem navigate_forgets (disk : Disk) (path : Text) :
    (app.navigate sys disk path).Forgets :=
  ⟨rfl, rfl⟩

theorem openSelected_memory :
    (app.openSelected sys moment).2.Forgets ∨
      (app.openSelected sys moment).2.memory = app.memory := by
  unfold openSelected
  split
  · exact Or.inr rfl
  · next entry _ =>
    simp only
    split
    · exact Or.inl (app.navigate_forgets sys _ _)
    · split
      · exact Or.inr rfl
      · split
        · exact Or.inr (openContent_memory _ _ _ _ _ _)
        · split
          · exact Or.inr (openContent_memory _ _ _ _ _ _)
          · exact Or.inr rfl

theorem selectItem_disarms (item : Nat) :
    (app.selectItem sys moment item).2.pendingDelete = none ∧
      (app.rename = none → (app.selectItem sys moment item).2.rename = none) := by
  unfold selectItem
  split
  · exact ⟨rfl, id⟩
  · simp only
    split
    · rcases openSelected_memory sys moment _ with forgets | same
      · exact ⟨forgets.1, fun _ => forgets.2⟩
      · exact ⟨congrArg Memory.pendingDelete same, fun none => (congrArg Memory.rename same).trans none⟩
    · exact ⟨rfl, id⟩

end Kept

end FileExplorer

inductive Browsed (before after : FileExplorer) : Option (List DirEntry) → Prop where
  | same (memory : after.memory = before.memory) : Browsed before after none
  | disarmed (pending : after.pendingDelete = none)
      (rename : before.rename = none → after.rename = none) : Browsed before after none
  | relisted (entries : List DirEntry) (memory : after.memory = { before.memory with entries }) :
      Browsed before after (some entries)

def Command.Defers : Command → Prop
  | .deleteSelected | .startRename | .renameKey _ => True
  | _ => False

namespace FileExplorer

variable (sys : System Disk) {moment : Moment (Disk × List Call)} {app : FileExplorer}

theorem created_browsed (name : Text) (answer : Except Text Unit × (Disk × List Call)) :
    Browsed app (app.created sys.recording name answer).1
        (app.listedAfter sys.recording answer) ∧
      (app.created sys.recording name answer).2 = answer.2 := by
  obtain ⟨answer, disk⟩ := answer
  cases answer with
  | ok made => exact ⟨.relisted _ (selectNamed_memory _ _), rfl⟩
  | error e => exact ⟨.same rfl, rfl⟩

theorem perform_browsed {command : Command} (browses : ¬ command.Defers) :
    Browsed app (app.perform sys.recording moment command).2.1
        (app.relistedBy sys.recording moment command) ∧
      (app.perform sys.recording moment command).2.2.2 = moment.disk.2 := by
  cases command with
  | nothing => exact ⟨.same rfl, rfl⟩
  | navigate path => exact ⟨.disarmed rfl (fun _ => rfl), rfl⟩
  | createFolder =>
      have made := @created_browsed Disk sys app (app.folderName sys.recording)
        (sys.recording.makeDir (join app.path (app.folderName sys.recording))
          moment.disk)
      have calls := congrArg Prod.snd made.2
      exact ⟨made.1, calls⟩
  | createFile =>
      have made := @created_browsed Disk sys app (app.fileName sys.recording)
        (sys.recording.writeFile (join app.path (app.fileName sys.recording)) []
          moment.disk)
      have calls := congrArg Prod.snd made.2
      exact ⟨made.1, calls⟩
  | deleteSelected | startRename | renameKey event => exact absurd trivial browses
  | refresh => exact ⟨.relisted _ rfl, rfl⟩
  | toggleView => exact ⟨.same rfl, rfl⟩
  | toggleSort key =>
      have same := app.toggled_memory key
      refine ⟨.relisted _ ?_, rfl⟩
      exact congrArg (fun memory : Memory =>
        { memory with entries := (app.toggled key).listing sys.recording moment.disk }) same
  | scrollClick y => exact ⟨.same (scrollClick_memory _ y), rfl⟩
  | selectItem item =>
      have disarms := selectItem_disarms sys.recording moment app item
      exact ⟨.disarmed disarms.1 disarms.2, rfl⟩
  | moveSelection delta => exact ⟨.same (moveSelection_memory _ delta), rfl⟩
  | openSelected =>
      refine ⟨?_, rfl⟩
      rcases openSelected_memory sys.recording moment app with forgets | same
      · exact .disarmed forgets.1 (fun _ => forgets.2)
      · exact .same same

inductive Deleted (moment : Moment (Disk × List Call)) (app : FileExplorer)
    (after : FileExplorer × (Disk × List Call)) : Prop where
  | nothing (missing : app.entries[app.selection]? = none)
      (same : after = (app, moment.disk))
  | armed (entry : DirEntry) (present : app.entries[app.selection]? = some entry)
      (first : app.confirms moment.ticks = false)
      (memory : after.1.memory =
        { app.memory with pendingDelete := some (app.selection, moment.ticks) })
      (calls : after.2.2 = moment.disk.2)
  | confirmed (entry : DirEntry) (present : app.entries[app.selection]? = some entry)
      (second : app.confirms moment.ticks = true) (pending : after.1.pendingDelete = none)
      (rename : after.1.rename = app.rename)
      (calls : after.2.2 = moment.disk.2 ++ [.remove (join app.path entry.name)])

theorem deleteSelected_deleted :
    Deleted moment app (app.deleteSelected sys.recording moment) := by
  unfold deleteSelected
  cases present : app.entries[app.selection]? with
  | none => exact .nothing present rfl
  | some entry =>
      cases pressed : app.confirms moment.ticks with
      | false => exact .armed entry present pressed rfl rfl
      | true =>
          have calls : (sys.recording.remove (join app.path entry.name) moment.disk).2.2 =
              moment.disk.2 ++ [.remove (join app.path entry.name)] := rfl
          simp only [if_true]
          rcases answer : sys.recording.remove (join app.path entry.name) moment.disk with
            ⟨_ | _, disk⟩
          · rw [answer] at calls
            exact .confirmed entry present pressed rfl rfl calls
          · rw [answer] at calls
            exact .confirmed entry present pressed rfl rfl calls

inductive Renamed (moment : Moment (Disk × List Call)) (app : FileExplorer)
    (state : RenameState) (after : FileExplorer × (Disk × List Call)) : Prop where
  | edited (state' : RenameState) (item : state'.item = state.item)
      (memory : after.1.memory = { app.memory with rename := some state' })
      (calls : after.2.2 = moment.disk.2)
  | ended (pending : after.1.pendingDelete = app.pendingDelete) (rename : after.1.rename = none)
      (calls : after.2.2 = moment.disk.2)
  | committed (entry : DirEntry) (newName : Text)
      (present : app.entries[state.item]? = some entry)
      (pending : after.1.pendingDelete = app.pendingDelete) (rename : after.1.rename = none)
      (calls : after.2.2 = moment.disk.2 ++ [.rename (join app.path entry.name) newName])

theorem edit_item (state : RenameState) (event : Event) :
    (RenameState.edit state event).item = state.item := by
  unfold RenameState.edit
  cases event with
  | backspace =>
      simp only
      split
      · rfl
      · split <;> rfl
  | left => rfl
  | right =>
      simp only
      split <;> rfl
  | char c =>
      simp only
      split
      · rfl
      · split
        · split <;> rfl
        · split <;> rfl
  | enter | tab | up | down | escape | f2 | ctrl c => rfl

theorem commitRename_renamed (state : RenameState) :
    Renamed moment app state (app.commitRename sys.recording moment state) := by
  unfold commitRename
  simp only
  cases present : app.entries[state.item]? with
  | none => exact .ended rfl rfl rfl
  | some entry =>
      simp only
      split
      · exact .ended rfl rfl rfl
      · have calls : (sys.recording.rename (join app.path entry.name) (trim state.buf)
            moment.disk).2.2 =
              moment.disk.2 ++ [.rename (join app.path entry.name) (trim state.buf)] := rfl
        rcases answer : sys.recording.rename (join app.path entry.name) (trim state.buf)
          moment.disk with ⟨_ | _, disk⟩
        · rw [answer] at calls
          exact .committed entry _ present rfl rfl calls
        · rw [answer] at calls
          refine .committed entry _ present ?_ ?_ calls
          · exact congrArg Memory.pendingDelete (selectNamed_memory _ _)
          · exact congrArg Memory.rename (selectNamed_memory _ _)

theorem renameKey_renamed {state : RenameState} (editing : app.rename = some state)
    (event : Event) :
    Renamed moment app state (app.renameKey sys.recording moment event) := by
  unfold renameKey
  rw [editing]
  cases event with
  | escape => exact .ended rfl rfl rfl
  | enter => exact commitRename_renamed sys state
  | backspace | left | right | char c | tab | up | down | f2 | ctrl c =>
      exact .edited _ (edit_item state _) rfl rfl

end FileExplorer

namespace FileExplorer

theorem confirms_iff {app : FileExplorer} {now : Nat} :
    app.confirms now = true ↔
      ∃ armTick, app.pendingDelete = some (app.selection, armTick) ∧
        now ≤ armTick + deleteArmTicks := by
  unfold confirms
  cases app.pendingDelete with
  | none => simp
  | some pending =>
      obtain ⟨armSel, armTick⟩ := pending
      simp only [decide_eq_true_eq, Option.some.injEq, Prod.mk.injEq]
      constructor
      · rintro ⟨rfl, inTime⟩
        exact ⟨armTick, ⟨rfl, rfl⟩, by omega⟩
      · rintro ⟨tick, ⟨rfl, rfl⟩, inTime⟩
        exact ⟨rfl, by omega⟩

end FileExplorer

end Explorer

end MachaOS
