/-
Which entries the two deferred operations of the explorer act on, over whole sessions.

A session keeps what the explorer does not: the entry that the last arming press announced, the entry
selected when the last rename was started, and for every delete or rename asked of the file system
the entry it was meant for.
-/

import MachaOS.Explorer.Deferred
import MachaOS.Lib.Runs

namespace MachaOS

namespace Explorer

open List
open Desktop (Text join baseName)
open Keyboard (Event)

variable {Disk : Type}

inductive Action where
  | key (event : Event)
  | click (x y : Int)
  | refreshNow
  | drop (x y : Int) (src : Text) (isDir : Bool)
deriving DecidableEq, Repr

structure Input (Disk : Type) where
  elapsed : Nat
  glyphW : Nat
  disk : Disk
  action : Action

structure Deed where
  call : Call
  meant : Option (Text × Text)
deriving DecidableEq, Repr

structure Session where
  explorer : FileExplorer
  clock : Nat
  announced : Option (Text × Text)
  designated : Option (Text × Text)
  deeds : List Deed

namespace FileExplorer

def selected (explorer : FileExplorer) : Option (Text × Text) :=
  explorer.entries[explorer.selection]?.map (fun entry => (explorer.path, entry.name))

def command (explorer : FileExplorer) (glyphW : Nat) : Action → Option Command
  | .key event => some (explorer.keyCommand event)
  | .click x y => some (explorer.clickCommand glyphW x y)
  | .refreshNow | .drop .. => none

def act (sys : System Disk) (moment : Moment Disk) (explorer : FileExplorer) :
    Action → FileExplorer × Disk
  | .key event => (explorer.handleKey sys moment event).2
  | .click x y => (explorer.handleClick sys moment x y).2
  | .refreshNow => (explorer.refreshNow sys moment, moment.disk)
  | .drop x y src isDir => (explorer.handleDrop sys moment x y src isDir).2

def announces (explorer : FileExplorer) (glyphW now : Nat) (action : Action) :
    Option (Text × Text) :=
  if explorer.command glyphW action = some .deleteSelected ∧ ¬ explorer.confirms now then
    explorer.selected
  else none

def designates (explorer : FileExplorer) (glyphW : Nat) (action : Action) : Option (Text × Text) :=
  if explorer.command glyphW action = some .startRename then explorer.selected else none

end FileExplorer

namespace Session

def start (sys : System Disk) (disk : Disk) : Session :=
  { explorer := FileExplorer.new sys disk, clock := 0, announced := none, designated := none
    deeds := [] }

def moment (session : Session) (input : Input Disk) : Moment (Disk × List Call) :=
  { ticks := session.clock + input.elapsed, glyphW := input.glyphW, disk := (input.disk, []) }

def meant (session : Session) : Call → Option (Text × Text)
  | .remove _ => session.announced
  | .rename .. => session.designated

def next (sys : System Disk) (session : Session) (input : Input Disk) : Session :=
  let moment := session.moment input
  let (explorer, disk) := session.explorer.act sys.recording moment input.action
  { explorer
    clock := moment.ticks
    announced := (session.explorer.announces input.glyphW moment.ticks input.action).or
      session.announced
    designated := (session.explorer.designates input.glyphW input.action).or session.designated
    deeds := session.deeds ++ disk.2.map (fun call => ⟨call, session.meant call⟩) }

def step (sys : System Disk) (session : Session) (input : Input Disk) : Option Session :=
  some (session.next sys input)

end Session

def Deed.Right (deed : Deed) : Prop :=
  ∃ directory name, deed.meant = some (directory, name) ∧ deed.call.path = join directory name

namespace FileExplorer

section Relisted

variable (sys : System Disk) (moment : Moment Disk)

def relisted (explorer : FileExplorer) (action : Action) : Option (List DirEntry) :=
  match action with
  | .refreshNow => some (explorer.listing sys moment.disk)
  | .drop x y src isDir =>
      match explorer.dropAt x y src isDir with
      | .moves target =>
          explorer.listedAfter sys (sys.moveFile src (join target (baseName src)) moment.disk)
      | .elsewhere | .stays _ => none
  | action => (explorer.command moment.glyphW action).bind (explorer.relistedBy sys moment)

end Relisted

end FileExplorer

namespace Session

def ArmedOn (session : Session) (now : Nat) (entries : List DirEntry) : Prop :=
  ∀ armSel armTick entry, session.explorer.pendingDelete = some (armSel, armTick) →
    now ≤ armTick + deleteArmTicks → entries[armSel]? = some entry →
      session.announced = some (session.explorer.path, entry.name)

def RenamesOn (session : Session) (entries : List DirEntry) : Prop :=
  ∀ state entry, session.explorer.rename = some state → entries[state.item]? = some entry →
    session.designated = some (session.explorer.path, entry.name)

structure Remembers (session : Session) : Prop where
  armed : session.ArmedOn session.clock session.explorer.entries
  renames : session.RenamesOn session.explorer.entries

/-- Reading the directory again puts no other entry at the position of an armed delete, nor at that
of a rename, which a key or a click leaves anyway. -/
structure Steady (sys : System Disk) (session : Session) (input : Input Disk) : Prop where
  armed : ∀ entries,
    session.explorer.relisted sys.recording (session.moment input) input.action = some entries →
      session.ArmedOn (session.clock + input.elapsed) entries
  renames : ∀ entries, session.explorer.command input.glyphW input.action = none →
    session.explorer.relisted sys.recording (session.moment input) input.action = some entries →
      session.RenamesOn entries

end Session

namespace Session

/-- What every steady step keeps: besides what is remembered, a delete is not armed while a name is
edited, and every call so far named the entry it was meant for. -/
structure Kept (session : Session) : Prop where
  remembers : session.Remembers
  exclusive : ∀ state, session.explorer.rename = some state → session.explorer.pendingDelete = none
  deeds : ∀ deed ∈ session.deeds, deed.Right

variable {session : Session}

variable {entries : List DirEntry}

theorem ArmedOn.later {now later : Nat} (armed : session.ArmedOn now entries) (passes : now ≤ later) :
    session.ArmedOn later entries := by
  intro armSel armTick entry pending inTime present
  exact armed armSel armTick entry pending (by omega) present

theorem Kept.placed (kept : session.Kept) {after : FileExplorer} {clock : Nat}
    (path : after.path = session.explorer.path)
    (pending : after.pendingDelete = session.explorer.pendingDelete)
    (rename : after.rename = session.explorer.rename ∨ after.rename = none)
    (armed : session.ArmedOn clock after.entries)
    (renames : after.rename ≠ none → session.RenamesOn after.entries) :
    Kept { session with explorer := after, clock } := by
  have edited : ∀ state, after.rename = some state → session.explorer.rename = some state := by
    intro state editing
    rcases rename with same | none
    · exact same.symm.trans editing
    · rw [none] at editing
      cases editing
  refine ⟨⟨?_, ?_⟩, ?_, kept.deeds⟩
  · intro armSel armTick entry arms inTime present
    change session.announced = some (after.path, entry.name)
    rw [path]
    exact armed armSel armTick entry (pending.symm.trans arms) inTime present
  · intro state entry editing present
    change session.designated = some (after.path, entry.name)
    rw [path]
    refine renames ?_ state entry (edited state editing) present
    intro none
    rw [none] at editing
    cases editing
  · intro state editing
    exact pending.trans (kept.exclusive state (edited state editing))

theorem Kept.forgot (kept : session.Kept) {after : FileExplorer} {clock : Nat}
    (forgets : after.Forgets) : Kept { session with explorer := after, clock } := by
  refine ⟨⟨?_, ?_⟩, ?_, kept.deeds⟩
  · intro armSel armTick entry arms
    have never := forgets.1.symm.trans arms
    cases never
  · intro state entry editing
    have never := forgets.2.symm.trans editing
    cases never
  · intro state editing
    exact forgets.1

theorem Kept.done (kept : session.Kept) {deed : Deed} (right : deed.Right) :
    Kept { session with deeds := session.deeds ++ [deed] } := by
  refine ⟨⟨kept.remembers.armed, kept.remembers.renames⟩, kept.exclusive, ?_⟩
  intro other mem
  rcases mem_append.mp mem with earlier | last
  · exact kept.deeds other earlier
  · obtain rfl := mem_singleton.mp last
    exact right

/-- The session after a key or click that calls an operation on `before`. -/
def called (sys : System Disk) (moment : Moment (Disk × List Call)) (session : Session)
    (before : FileExplorer) (command : Command) : Session :=
  let after := (before.perform sys.recording moment command).2
  { explorer := after.1
    clock := moment.ticks
    announced := (if command = .deleteSelected ∧ ¬ before.confirms moment.ticks then before.selected
      else none).or session.announced
    designated := (if command = .startRename then before.selected else none).or session.designated
    deeds := session.deeds ++ after.2.2.map (fun call => ⟨call, session.meant call⟩) }

variable {sys : System Disk} {moment : Moment (Disk × List Call)} {before : FileExplorer}

theorem called_browses (quiet : moment.disk.2 = []) {command : Command}
    (browses : ¬ command.Defers) :
    called sys moment session before command =
      { session with
        explorer := (before.perform sys.recording moment command).2.1
        clock := moment.ticks } := by
  have calls := (@FileExplorer.perform_browsed Disk sys moment before command browses).2
  have noDelete : command ≠ .deleteSelected := by
    rintro rfl
    exact browses trivial
  have noRename : command ≠ .startRename := by
    rintro rfl
    exact browses trivial
  unfold called
  simp only [if_neg noRename, if_neg (fun both : _ ∧ _ => noDelete both.1), Option.none_or,
    calls, quiet, map_nil, append_nil]

theorem recalled (memory : before.memory = { session.explorer.memory with rename := none }) :
    before.path = session.explorer.path ∧ before.entries = session.explorer.entries ∧
      before.pendingDelete = session.explorer.pendingDelete ∧ before.rename = none :=
  ⟨congrArg Memory.path memory, congrArg Memory.entries memory,
    congrArg Memory.pendingDelete memory, congrArg Memory.rename memory⟩

section

variable (kept : session.Kept) (later : session.clock ≤ moment.ticks) (quiet : moment.disk.2 = [])
  (memory : before.memory = { session.explorer.memory with rename := none })
include kept later quiet memory

theorem Kept.browsed {command : Command} (browses : ¬ command.Defers)
    (armed : ∀ entries, before.relistedBy sys.recording moment command = some entries →
      session.ArmedOn moment.ticks entries) :
    (called sys moment session before command).Kept := by
  have outcome := (@FileExplorer.perform_browsed Disk sys moment before command browses).1
  obtain ⟨path, entries, pending, rename⟩ := recalled memory
  rw [called_browses quiet browses]
  cases read : before.relistedBy sys.recording moment command with
  | none =>
      rw [read] at outcome
      cases outcome with
      | same unchanged =>
          have none := (congrArg Memory.rename unchanged).trans rename
          apply kept.placed ((congrArg Memory.path unchanged).trans path)
            ((congrArg Memory.pendingDelete unchanged).trans pending) (Or.inr none)
          · have list := (congrArg Memory.entries unchanged).trans entries
            rw [show (before.perform sys.recording moment command).2.1.entries = _ from list]
            exact kept.remembers.armed.later later
          · intro editing
            exact absurd none editing
      | disarmed nothing stays => exact kept.forgot ⟨nothing, stays rename⟩
  | some list =>
      rw [read] at outcome
      cases outcome with
      | relisted _ changed =>
          have none := (congrArg Memory.rename changed).trans rename
          apply kept.placed ((congrArg Memory.path changed).trans path)
            ((congrArg Memory.pendingDelete changed).trans pending) (Or.inr none)
          · have now := congrArg Memory.entries changed
            rw [show (before.perform sys.recording moment command).2.1.entries = list from now]
            exact armed list read
          · intro editing
            exact absurd none editing

theorem Kept.deleted : (called sys moment session before .deleteSelected).Kept := by
  obtain ⟨path, entries, pending, rename⟩ := recalled memory
  unfold called
  change Kept
    { explorer := (before.deleteSelected sys.recording moment).1
      clock := moment.ticks
      announced := (if Command.deleteSelected = .deleteSelected ∧ ¬ before.confirms moment.ticks then
        before.selected else none).or session.announced
      designated := session.designated
      deeds := session.deeds ++ (before.deleteSelected sys.recording moment).2.2.map
        (fun call => ⟨call, session.meant call⟩) }
  cases @FileExplorer.deleteSelected_deleted _ sys moment before with
  | nothing missing same =>
      have unselected : before.selected = none := by
        unfold FileExplorer.selected
        rw [missing]
        rfl
      rw [same, unselected, ite_self, Option.none_or, quiet, map_nil, append_nil]
      refine kept.placed path pending (Or.inr rename) ?_ (fun editing => absurd rename editing)
      rw [entries]
      exact kept.remembers.armed.later later
  | armed entry present first changed calls =>
      have selected : before.selected = some (before.path, entry.name) := by
        unfold FileExplorer.selected
        rw [present]
        rfl
      have none : (before.deleteSelected sys.recording moment).1.rename = none :=
        (congrArg Memory.rename changed).trans rename
      rw [calls, quiet, map_nil, append_nil, if_pos ⟨rfl, by rw [first]; decide⟩, selected]
      refine ⟨⟨?_, ?_⟩, ?_, kept.deeds⟩
      · intro armSel armTick found arms inTime there
        have position := (congrArg Memory.pendingDelete changed).symm.trans arms
        cases position
        have list := congrArg Memory.entries changed
        have same : before.entries[before.selection]? = some found := by
          rw [← there]
          exact congrArg (fun list : List DirEntry => list[before.selection]?) list.symm
        rw [present] at same
        cases same
        have directory := congrArg Memory.path changed
        exact congrArg (fun path => some (path, entry.name)) directory.symm
      · intro state found editing
        have never := none.symm.trans editing
        cases never
      · intro state editing
        have never := none.symm.trans editing
        cases never
  | confirmed entry present second disarmed unedited calls =>
      obtain ⟨armTick, arms, inTime⟩ := FileExplorer.confirms_iff.mp second
      have announced := kept.remembers.armed before.selection armTick entry (pending.symm.trans arms)
        (later.trans inTime) (by rw [← entries]; exact present)
      rw [calls, quiet, if_neg (fun both => both.2 second), Option.none_or]
      exact (kept.forgot ⟨disarmed, unedited.trans rename⟩).done
        ⟨session.explorer.path, entry.name, announced,
          congrArg (fun directory => join directory entry.name) path⟩

theorem Kept.started : (called sys moment session before .startRename).Kept := by
  obtain ⟨path, entries, pending, rename⟩ := recalled memory
  unfold called
  change Kept
    { explorer := before.startRename
      clock := moment.ticks
      announced := session.announced
      designated := before.selected.or session.designated
      deeds := session.deeds ++ moment.disk.2.map (fun call => ⟨call, session.meant call⟩) }
  rw [quiet, map_nil, append_nil]
  unfold FileExplorer.startRename FileExplorer.selected
  cases present : before.entries[before.selection]? with
  | none =>
      refine kept.placed path pending (Or.inr rename) ?_ (fun editing => absurd rename editing)
      rw [entries]
      exact kept.remembers.armed.later later
  | some entry =>
      refine ⟨⟨?_, ?_⟩, fun _ _ => rfl, kept.deeds⟩
      · intro armSel armTick found never
        cases never
      · intro state found editing there
        cases editing
        have same : some entry = some found := present.symm.trans there
        cases same
        rfl

end

theorem Kept.renamed (kept : session.Kept)
    (quiet : moment.disk.2 = []) {state : RenameState}
    (editing : session.explorer.rename = some state) (event : Event) :
    (called sys moment session session.explorer (.renameKey event)).Kept := by
  have unarmed := kept.exclusive state editing
  unfold called
  change Kept
    { explorer := (session.explorer.renameKey sys.recording moment event).1
      clock := moment.ticks
      announced := session.announced
      designated := session.designated
      deeds := session.deeds ++ (session.explorer.renameKey sys.recording moment event).2.2.map
        (fun call => ⟨call, session.meant call⟩) }
  cases @FileExplorer.renameKey_renamed _ sys moment _ _ editing event with
  | edited state' item changed calls =>
      have rename := congrArg Memory.rename changed
      have disarmed := (congrArg Memory.pendingDelete changed).trans unarmed
      have entries := congrArg Memory.entries changed
      rw [calls, quiet, map_nil, append_nil]
      refine ⟨⟨?_, ?_⟩, fun _ _ => disarmed, kept.deeds⟩
      · intro armSel armTick found arms
        have never := disarmed.symm.trans arms
        cases never
      · intro other found now there
        have same := rename.symm.trans now
        cases same
        have was : session.explorer.entries[state.item]? = some found := by
          rw [← there, ← item]
          exact congrArg (fun list : List DirEntry => list[state'.item]?) entries.symm
        have directory := congrArg Memory.path changed
        have designated := kept.remembers.renames state found editing was
        exact designated.trans (congrArg (fun path => some (path, found.name)) directory.symm)
  | ended pending none calls =>
      rw [calls, quiet, map_nil, append_nil]
      exact kept.forgot ⟨pending.trans unarmed, none⟩
  | committed entry newName present pending none calls =>
      have designated := kept.remembers.renames state entry editing present
      rw [calls, quiet]
      exact (kept.forgot ⟨pending.trans unarmed, none⟩).done
        ⟨session.explorer.path, entry.name, designated, rfl⟩

theorem next_key (sys : System Disk) (session : Session) (input : Input Disk) {event : Event}
    (pressed : input.action = .key event) :
    session.next sys input =
      called sys (session.moment input) session session.explorer
        (session.explorer.keyCommand event) := by
  unfold next called FileExplorer.announces FileExplorer.designates
  rw [pressed]
  simp only [FileExplorer.command, Option.some.injEq]
  rfl

theorem next_click (sys : System Disk) (session : Session) (input : Input Disk) {x y : Int}
    (clicked : input.action = .click x y) :
    session.next sys input =
      called sys (session.moment input) session
        { session.explorer with rename := none, lastClickWasDouble := false }
        (session.explorer.clickCommand input.glyphW x y) := by
  unfold next called FileExplorer.announces FileExplorer.designates
  rw [clicked]
  simp only [FileExplorer.command, Option.some.injEq]
  rfl

theorem next_other (sys : System Disk) (session : Session) (input : Input Disk)
    (other : session.explorer.command input.glyphW input.action = none) :
    let after := session.explorer.act sys.recording (session.moment input) input.action
    session.next sys input =
      { session with
        explorer := after.1
        clock := session.clock + input.elapsed
        deeds := session.deeds ++ after.2.2.map (fun call => ⟨call, session.meant call⟩) } := by
  unfold next FileExplorer.announces FileExplorer.designates
  rw [other]
  simp only [reduceCtorEq, false_and, if_false, Option.none_or]
  rfl

theorem act_memory (sys : System Disk) {moment : Moment (Disk × List Call)}
    {explorer : FileExplorer} {action : Action} (other : explorer.command moment.glyphW action = none) :
    (explorer.act sys.recording moment action).1.memory =
        { explorer.memory with
          entries := (explorer.relisted sys.recording moment action).getD explorer.entries } ∧
      (explorer.act sys.recording moment action).2.2 = moment.disk.2 := by
  cases action with
  | key event => cases other
  | click x y => cases other
  | refreshNow => exact ⟨rfl, rfl⟩
  | drop x y src isDir =>
      unfold FileExplorer.act FileExplorer.relisted FileExplorer.handleDrop
      simp only
      cases explorer.dropAt x y src isDir with
      | elsewhere => exact ⟨rfl, rfl⟩
      | stays target => exact ⟨rfl, rfl⟩
      | moves target =>
          have calls : (sys.recording.moveFile src (join target (baseName src))
            moment.disk).2.2 = moment.disk.2 := rfl
          simp only
          rcases answer : sys.recording.moveFile src (join target (baseName src)) moment.disk with
            ⟨_ | _, disk⟩
          · rw [answer] at calls
            exact ⟨rfl, calls⟩
          · rw [answer] at calls
            exact ⟨rfl, calls⟩

theorem keyCommand_ne {explorer : FileExplorer} (unedited : explorer.rename = none)
    (pressed event : Event) : explorer.keyCommand pressed ≠ .renameKey event := by
  unfold FileExplorer.keyCommand
  rw [unedited, Option.isSome_none, if_neg Bool.false_ne_true]
  split
  all_goals first | exact Command.noConfusion | skip
  all_goals split <;> exact Command.noConfusion

theorem clickCommand_ne (explorer : FileExplorer) (glyphW : Nat) (x y : Int) (event : Event) :
    explorer.clickCommand glyphW x y ≠ .renameKey event := by
  unfold FileExplorer.clickCommand FileExplorer.clickBreadcrumb FileExplorer.clickToolbar
    FileExplorer.clickSidebar FileExplorer.clickDetails FileExplorer.clickGrid
  simp only
  repeat' split
  all_goals exact Command.noConfusion

theorem relistedBy_cleared (explorer : FileExplorer) (command : Command) :
    FileExplorer.relistedBy sys.recording moment
        { explorer with rename := none, lastClickWasDouble := false } command =
      explorer.relistedBy sys.recording moment command := by
  cases command with
  | toggleSort key =>
      unfold FileExplorer.relistedBy FileExplorer.toggled
      simp only
      split <;> rfl
  | nothing | navigate | createFolder | createFile | deleteSelected | refresh | toggleView
    | scrollClick | selectItem | moveSelection | openSelected | startRename | renameKey => rfl

theorem Kept.called (kept : session.Kept) (later : session.clock ≤ moment.ticks)
    (quiet : moment.disk.2 = [])
    (memory : before.memory = { session.explorer.memory with rename := none })
    {command : Command} (noRename : ∀ event, command ≠ .renameKey event)
    (armed : ∀ entries, before.relistedBy sys.recording moment command = some entries →
      session.ArmedOn moment.ticks entries) :
    (called sys moment session before command).Kept := by
  cases command with
  | deleteSelected => exact kept.deleted later quiet memory
  | startRename => exact kept.started later quiet memory
  | renameKey event => exact absurd rfl (noRename event)
  | nothing | navigate | createFolder | createFile | refresh | toggleView | toggleSort | scrollClick
    | selectItem | moveSelection | openSelected => exact kept.browsed later quiet memory id armed

variable {input : Input Disk}

theorem Kept.other (kept : session.Kept) (steady : Steady sys session input)
    (other : session.explorer.command input.glyphW input.action = none) :
    (session.next sys input).Kept := by
  have later : session.clock ≤ session.clock + input.elapsed := Nat.le_add_right _ _
  obtain ⟨memory, calls⟩ := @act_memory Disk sys (session.moment input) session.explorer
    input.action other
  have entries := congrArg Memory.entries memory
  rw [next_other sys session input other, calls]
  change Kept { session with
    explorer := _, clock := session.clock + input.elapsed, deeds := session.deeds ++ [] }
  rw [append_nil]
  apply kept.placed (congrArg Memory.path memory) (congrArg Memory.pendingDelete memory)
    (Or.inl (congrArg Memory.rename memory))
  · rw [show FileExplorer.entries _ = _ from entries]
    cases read : session.explorer.relisted sys.recording (session.moment input) input.action with
    | none => exact kept.remembers.armed.later later
    | some list => exact steady.armed list read
  · intro _
    rw [show FileExplorer.entries _ = _ from entries]
    cases read : session.explorer.relisted sys.recording (session.moment input) input.action with
    | none => exact kept.remembers.renames
    | some list => exact steady.renames list other read

theorem Kept.next (kept : session.Kept) (steady : Steady sys session input) :
    (session.next sys input).Kept := by
  have later : session.clock ≤ (session.moment input).ticks := Nat.le_add_right _ _
  have quiet : (session.moment input).disk.2 = [] := rfl
  cases acted : input.action with
  | key event =>
      rw [next_key sys session input acted]
      cases editing : session.explorer.rename with
      | none =>
          apply kept.called later quiet _ (keyCommand_ne editing event)
          · intro entries read
            apply steady.armed entries
            rw [acted]
            exact read
          · unfold FileExplorer.memory
            rw [editing]
      | some state =>
          have command : session.explorer.keyCommand event = .renameKey event := by
            unfold FileExplorer.keyCommand
            rw [editing]
            rfl
          rw [command]
          exact kept.renamed quiet editing event
  | click x y =>
      rw [next_click sys session input acted]
      apply kept.called later quiet rfl (clickCommand_ne _ _ x y)
      intro entries read
      rw [relistedBy_cleared] at read
      apply steady.armed entries
      rw [acted]
      exact read
  | refreshNow | drop x y src isDir =>
      apply kept.other steady
      rw [acted]
      rfl

theorem relistedBy_browses {explorer : FileExplorer} {command : Command}
    (read : explorer.relistedBy sys.recording moment command = some entries) :
    ¬ command.Defers := by
  intro defers
  cases command with
  | deleteSelected | startRename | renameKey => cases read
  | nothing | navigate | createFolder | createFile | refresh | toggleView | toggleSort | scrollClick
    | selectItem | moveSelection | openSelected => exact defers

theorem called_relists (quiet : moment.disk.2 = []) {command : Command} {entries : List DirEntry}
    (read : before.relistedBy sys.recording moment command = some entries) :
    ∃ after, called sys moment session before command =
        { session with explorer := after, clock := moment.ticks } ∧
      after.memory = { before.memory with entries } := by
  have browses := relistedBy_browses read
  have outcome := (@FileExplorer.perform_browsed Disk sys moment before command browses).1
  rw [read] at outcome
  cases outcome with
  | relisted _ memory => exact ⟨_, called_browses quiet browses, memory⟩

theorem next_relists
    (read : session.explorer.relisted sys.recording (session.moment input) input.action =
      some entries) :
    ∃ after, session.next sys input =
        { session with explorer := after, clock := session.clock + input.elapsed } ∧
      after.path = session.explorer.path ∧ after.entries = entries ∧
      after.pendingDelete = session.explorer.pendingDelete ∧
      (session.explorer.command input.glyphW input.action = none →
        after.rename = session.explorer.rename) := by
  cases acted : input.action with
  | key event =>
      rw [acted] at read
      obtain ⟨after, same, memory⟩ := @called_relists Disk session sys (session.moment input)
        session.explorer rfl (session.explorer.keyCommand event) entries read
      refine ⟨after, (next_key sys session input acted).trans same, congrArg Memory.path memory,
        congrArg Memory.entries memory, congrArg Memory.pendingDelete memory, ?_⟩
      intro other
      cases other
  | click x y =>
      rw [acted] at read
      obtain ⟨after, same, memory⟩ := @called_relists Disk session sys (session.moment input)
        { session.explorer with rename := none, lastClickWasDouble := false } rfl
        (session.explorer.clickCommand input.glyphW x y) entries
        ((relistedBy_cleared _ _).trans read)
      refine ⟨after, (next_click sys session input acted).trans same, congrArg Memory.path memory,
        congrArg Memory.entries memory, congrArg Memory.pendingDelete memory, ?_⟩
      intro other
      cases other
  | refreshNow | drop x y src isDir =>
      have other : session.explorer.command input.glyphW input.action = none := by
        rw [acted]
        rfl
      obtain ⟨memory, calls⟩ := @act_memory Disk sys (session.moment input) session.explorer
        input.action other
      rw [read] at memory
      have same := next_other sys session input other
      simp only [calls] at same
      rw [show (session.moment input).disk.2 = [] from rfl, map_nil, append_nil] at same
      exact ⟨_, same, congrArg Memory.path memory, congrArg Memory.entries memory,
        congrArg Memory.pendingDelete memory, fun _ => congrArg Memory.rename memory⟩

theorem steady_of_remembers (remembers : (session.next sys input).Remembers) :
    Steady sys session input := by
  constructor
  · intro entries read armSel armTick entry pending inTime present
    obtain ⟨after, same, path, list, armed, -⟩ := next_relists read
    rw [same] at remembers
    have announced := remembers.armed armSel armTick entry (armed.trans pending) inTime
      (by rw [show FileExplorer.entries _ = _ from list]; exact present)
    exact announced.trans (congrArg (fun directory => some (directory, entry.name)) path)
  · intro entries other read state entry editing present
    obtain ⟨after, same, path, list, -, edited⟩ := next_relists read
    rw [same] at remembers
    have designated := remembers.renames state entry ((edited other).trans editing)
      (by rw [show FileExplorer.entries _ = _ from list]; exact present)
    exact designated.trans (congrArg (fun directory => some (directory, entry.name)) path)

theorem kept_start (sys : System Disk) (disk : Disk) : (start sys disk).Kept := by
  refine ⟨⟨?_, ?_⟩, ?_, ?_⟩
  · intro armSel armTick entry never
    cases never
  · intro state entry never
    cases never
  · intro state never
    cases never
  · intro deed never
    cases never

end Session

open Session

/-- The positions remembered name the right entries in every part of a run exactly if every step is
steady; and then every delete and rename is asked for the entry that was announced or selected. -/
theorem acts_on_designated (sys : System Disk) (disk : Disk) (inputs : List (Input Disk)) :
    ((∀ front, front <+: inputs → ∀ session,
        Runs.after (step sys) (start sys disk) front = some session → session.Remembers) ↔
      Runs.Meets (step sys) (Steady sys) (start sys disk) inputs) ∧
    (Runs.Meets (step sys) (Steady sys) (start sys disk) inputs →
      ∀ front, front <+: inputs → ∀ session,
        Runs.after (step sys) (start sys disk) front = some session →
          ∀ deed ∈ session.deeds, deed.Right) := by
  have keeps : ∀ session input next, Kept session → Steady sys session input →
      step sys session input = some next → next.Kept := by
    intro session input next kept steady stepped
    cases stepped
    exact kept.next steady
  constructor
  · apply Runs.always_iff_meets keeps (fun session kept => kept.remembers) _ (kept_start sys disk)
    intro session input kept unsteady
    exact ⟨_, rfl, fun remembers => unsteady (steady_of_remembers remembers)⟩
  · intro steady front isFront session ran
    exact (Runs.after_invariant keeps (kept_start sys disk) (steady.front isFront) ran).deeds

def oneFolder : System (List DirEntry) :=
  { listDir := fun _ files => .ok files
    readFile := fun _ _ => .ok []
    remove := fun path files => (.ok (), files.filter (fun file => join ['/', 'u'] file.name ≠ path))
    rename := fun _ _ files => (.ok (), files)
    makeDir := fun _ files => (.ok (), files)
    writeFile := fun _ _ files => (.ok (), files)
    moveFile := fun _ _ files => (.ok (), files)
    home := ['/', 'u']
    lowercase := id }

/-- The first file is armed, a click on the column header turns the order round, and the second press
deletes the other file. -/
theorem sort_redirects_delete :
    ¬ ∀ (inputs : List (Input (List DirEntry))) (files : List DirEntry) (session : Session),
      Runs.after (step oneFolder) (start oneFolder files) inputs = some session →
        ∀ deed ∈ session.deeds, deed.Right := by
  intro claim
  let files : List DirEntry := [⟨['a'], false, 0⟩, ⟨['b'], false, 0⟩]
  have right := claim
    [⟨0, 8, files, .key (.char 'd')⟩, ⟨20, 8, files, .click 200 55⟩, ⟨20, 8, files, .key (.char 'd')⟩]
    files _ rfl ⟨.remove ['/', 'u', '/', 'b'], some (['/', 'u'], ['a'])⟩ (by decide)
  obtain ⟨directory, name, meant, path⟩ := right
  cases meant
  exact absurd path (by decide)

end Explorer

end MachaOS
