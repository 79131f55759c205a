/-
The task table (`src/task.rs`): a pid is an index into a vector from which
tasks are removed by `swap_remove`.

The table is generic in its tasks, so that the same operations also run on
tasks that carry a number, with which a task can be followed through the table.
-/

import MachaOS.Lib.Runs
import MachaOS.Lib.SwapRemove
import MachaOS.System

namespace MachaOS

/-- `TASKS` and `CURRENT`. -/
structure TaskTable (τ : Type) where
  tasks : List τ
  current : Nat

namespace TaskTable

variable {τ υ : Type}

/-- `push_task`, with the pid it returns. -/
def pushTask (table : TaskTable τ) (task : τ) : TaskTable τ × Nat :=
  ({ table with tasks := table.tasks ++ [task] }, table.tasks.length)

def removeProcess (table : TaskTable τ) (pid : Nat) : Option τ × TaskTable τ :=
  match table.tasks[pid]? with
  | none => (none, table)
  | some task =>
      if table.current = pid then (none, table)
      else
        let tasks := swapRemoveAt table.tasks pid
        let current :=
          if table.current = tasks.length then pid
          else if pid < table.current then table.current - 1
          else table.current
        (some task, { tasks, current })

def map (f : τ → υ) (table : TaskTable τ) : TaskTable υ :=
  { tasks := table.tasks.map f, current := table.current }

theorem removeProcess_of_ne {table : TaskTable τ} {pid : Nat} {task : τ}
    (found : table.tasks[pid]? = some task) (other : table.current ≠ pid) :
    table.removeProcess pid = (some task,
      { tasks := swapRemoveAt table.tasks pid
        current :=
          if table.current = table.tasks.length - 1 then pid
          else if pid < table.current then table.current - 1
          else table.current }) := by
  have inside := (List.getElem?_eq_some_iff.mp found).1
  unfold removeProcess
  rw [found]
  dsimp only
  rw [if_neg other, length_swapRemoveAt inside]

theorem removeProcess_refused {table : TaskTable τ} {pid : Nat}
    (refused : table.tasks.length ≤ pid ∨ table.current = pid) :
    table.removeProcess pid = (none, table) := by
  unfold removeProcess
  cases found : table.tasks[pid]? with
  | none => rfl
  | some task =>
      have inside := (List.getElem?_eq_some_iff.mp found).1
      dsimp only
      rw [if_pos (by omega)]

def numbered (table : TaskTable τ) : TaskTable (τ × Nat) :=
  { table with tasks := table.tasks.zipIdx }

def KeepsCurrent (table : TaskTable τ) (pid : Nat) : Prop :=
  let after := (table.numbered.removeProcess pid).2
  after.tasks.Perm (table.numbered.tasks.filter (fun task => task.2 ≠ pid)) ∧
    after.tasks[after.current]? = table.numbered.tasks[table.current]?

theorem getElem?_numbered (table : TaskTable τ) (index : Nat) :
    table.numbered.tasks[index]? = table.tasks[index]?.map (fun task => (task, index)) := by
  unfold numbered
  dsimp only
  rw [List.getElem?_zipIdx]
  simp

theorem length_numbered (table : TaskTable τ) :
    table.numbered.tasks.length = table.tasks.length := by
  simp [numbered]

theorem numbered_inj {table : TaskTable τ} {left right : Nat}
    (inside : left < table.tasks.length)
    (same : table.numbered.tasks[left]? = table.numbered.tasks[right]?) : left = right := by
  rw [getElem?_numbered, getElem?_numbered, List.getElem?_eq_getElem inside] at same
  cases found : table.tasks[right]? with
  | none => simp [found] at same
  | some task =>
      rw [found] at same
      simp only [Option.map_some, Option.some.injEq, Prod.mk.injEq] at same
      exact same.2

theorem filter_numbered_perm {table : TaskTable τ} {pid : Nat} {task : τ × Nat}
    (found : table.numbered.tasks[pid]? = some task) :
    (swapRemoveAt table.numbered.tasks pid).Perm
      (table.numbered.tasks.filter (fun task => task.2 ≠ pid)) := by
  have isPid : task.2 = pid := by
    rw [getElem?_numbered] at found
    obtain ⟨original, -, rfl⟩ := Option.map_eq_some_iff.mp found
    rfl
  have others : ∀ other, other ∈ swapRemoveAt table.numbered.tasks pid → other.2 ≠ pid := by
    intro other mem same
    have distinct : (table.numbered.tasks.map Prod.snd).Nodup := by
      unfold numbered
      dsimp only
      rw [List.zipIdx_map_snd]
      exact List.nodup_range'
    have parts := ((swapRemoveAt_perm found).map Prod.snd).nodup_iff.mpr distinct
    rw [List.map_cons, List.nodup_cons] at parts
    exact parts.1 (List.mem_map.mpr ⟨other, mem, same.trans isPid.symm⟩)
  have kept := (swapRemoveAt_perm found).filter (fun task => decide (task.2 ≠ pid))
  rw [List.filter_cons_of_neg (by simp [isPid]), List.filter_eq_self.mpr (by simpa using others)]
    at kept
  exact kept

/-- Removing a task keeps the current task current exactly when the fix-up is not reached
with a lower index. -/
theorem keepsCurrent_iff {table : TaskTable τ} {pid : Nat}
    (inTable : table.current < table.tasks.length) (other : pid ≠ table.current) :
    table.KeepsCurrent pid ↔
      table.tasks.length ≤ pid ∨ table.current < pid ∨ table.current + 1 = table.tasks.length := by
  unfold KeepsCurrent
  dsimp only
  have sameCurrent : table.numbered.current = table.current := rfl
  by_cases outside : table.tasks.length ≤ pid
  · rw [removeProcess_refused (Or.inl (by rw [length_numbered]; exact outside))]
    refine ⟨fun _ => Or.inl outside, fun _ => ⟨?_, rfl⟩⟩
    rw [List.filter_eq_self.mpr]
    intro task mem
    obtain ⟨index, found⟩ := List.mem_iff_getElem?.mp mem
    rw [getElem?_numbered] at found
    obtain ⟨original, isThere, rfl⟩ := Option.map_eq_some_iff.mp found
    have inside := (List.getElem?_eq_some_iff.mp isThere).1
    simp only [decide_eq_true_eq]
    omega
  · have inside : pid < table.numbered.tasks.length := by
      rw [length_numbered]
      omega
    have found := List.getElem?_eq_getElem inside
    rw [removeProcess_of_ne found (fun same => other same.symm)]
    dsimp only
    rw [sameCurrent, length_numbered, getElem?_swapRemoveAt inside, length_numbered]
    have perm := filter_numbered_perm found
    by_cases isLast : table.current = table.tasks.length - 1
    · rw [if_pos isLast, if_pos (by omega), if_pos rfl, ← isLast]
      exact ⟨fun _ => Or.inr (Or.inr (by omega)), fun _ => ⟨perm, rfl⟩⟩
    · rw [if_neg isLast]
      by_cases lower : pid < table.current
      · rw [if_pos lower, if_pos (by omega)]
        constructor
        · rintro ⟨-, same⟩
          split at same
          · have index := numbered_inj (by omega) same
            omega
          · have index := numbered_inj (by omega) same
            omega
        · rintro (past | above | last) <;> omega
      · rw [if_neg lower, if_pos (by omega), if_neg (by omega)]
        exact ⟨fun _ => Or.inr (Or.inl (by omega)), fun _ => ⟨perm, rfl⟩⟩

theorem keepsCurrent_above : KeepsCurrent ⟨["main", "clock", "shell", "demo"], 1⟩ 2 :=
  (keepsCurrent_iff (by decide) (by decide)).mpr (by decide)

/-- With a lower pid removed, the task below the current one becomes current. -/
theorem lower_removal_loses_current :
    ¬ KeepsCurrent ⟨["main", "clock", "shell", "demo"], 2⟩ 1 := by
  rintro ⟨-, same⟩
  revert same
  decide

end TaskTable

namespace System

theorem swapRemove_eq (tasks : List Task) (pid : Nat) :
    swapRemove tasks pid = swapRemoveAt tasks pid := by
  unfold swapRemove swapRemoveAt
  cases tasks.getLast? <;> rfl

end System

namespace TaskTable

def processAt (table : TaskTable Task) (pid : Nat) : Option Process :=
  (table.tasks[pid]?).bind Task.process

/-- `process_exit_status`: set once the process at `pid` has exited. -/
def processExitStatus (table : TaskTable Task) (pid : Nat) : Option ExitInfo :=
  match table.processAt pid with
  | none => none
  | some process => if process.state = .exited then process.exitInfo else none

def processMappings (table : TaskTable Task) (pid : Nat) : Option (List Mapping) :=
  (table.processAt pid).map Process.mappings

/-- `deliver_message`: a mailbox for one message, which a later one replaces. -/
def deliverMessage (table : TaskTable Task) (pid : Nat) (bytes : List (BitVec 8)) :
    Bool × TaskTable Task :=
  match table.tasks[pid]? with
  | none => (false, table)
  | some task =>
      match task.process with
      | none => (false, table)
      | some process =>
          if process.state = .exited then (false, table)
          else
            (true,
              { table with
                tasks := table.tasks.set pid
                  { task with process := some { process with inbox := some bytes } } })

/-- Change the process at `pid` in place, as `deliver_message` and the system calls do. -/
def changeProcess {τ : Type} (table : TaskTable τ) (pid : Nat) (change : τ → τ) : TaskTable τ :=
  { table with tasks := table.tasks.modify pid change }

/-- A table of tasks that carry the number of their spawn, and the pids handed out for the
processes that have not been removed. -/
structure Issue where
  table : TaskTable (Task × Nat)
  spawned : Nat
  live : List (Nat × Nat)

inductive Act where
  | spawnProcess (cr3 : Nat) (process : Process)
  | spawnKernelTask (cr3 : Nat)
  | removeProcess (pid : Nat)
  | switch (next : Nat)
  | change (pid : Nat) (change : Process → Process)

namespace Issue

def initial (kernelTasks : List Nat) (current : Nat) : Issue :=
  { table :=
      { tasks := kernelTasks.map (fun cr3 => ({ cr3, process := none }, 0))
        current }
    spawned := 0
    live := [] }

def onProcess (change : Process → Process) (task : Task × Nat) : Task × Nat :=
  ({ task.1 with process := task.1.process.map change }, task.2)

def step (issue : Issue) : Act → Option Issue
  | .spawnProcess cr3 process =>
      let (table, pid) := issue.table.pushTask ({ cr3, process := some process }, issue.spawned)
      some
        { table
          spawned := issue.spawned + 1
          live := (issue.spawned, pid) :: issue.live }
  | .spawnKernelTask cr3 =>
      let (table, _) := issue.table.pushTask ({ cr3, process := none }, issue.spawned)
      some { issue with table, spawned := issue.spawned + 1 }
  | .removeProcess pid =>
      let (removed, table) := issue.table.removeProcess pid
      some
        { issue with
          table
          live :=
            match removed with
            | none => issue.live
            | some task => issue.live.filter (fun entry => entry.1 ≠ task.2) }
  | .switch next =>
      if next < issue.table.tasks.length then
        some { issue with table := { issue.table with current := next } }
      else none
  | .change pid change =>
      some { issue with table := issue.table.changeProcess pid (onProcess change) }

def Orderly (issue : Issue) : Act → Prop
  | .removeProcess pid =>
      issue.table.tasks.length ≤ pid ∨ issue.table.current = pid ∨
        pid + 1 = issue.table.tasks.length ∨
        ∀ task, issue.table.tasks.getLast? = some task → task.1.process = none
  | _ => True

structure Named (issue : Issue) : Prop where
  places : ∀ entry, entry ∈ issue.live → ∃ task process,
    issue.table.tasks[entry.2]? = some (task, entry.1) ∧ task.process = some process
  fresh : ∀ entry, entry ∈ issue.live → entry.1 < issue.spawned
  distinct : issue.live.Pairwise (fun left right => left.1 ≠ right.1)

theorem Named.push {issue : Issue} {task : Task × Nat} (named : Named issue) :
    ∀ entry, entry ∈ issue.live → ∃ other process,
      (issue.table.pushTask task).1.tasks[entry.2]? = some (other, entry.1) ∧
        other.process = some process := by
  intro entry mem
  obtain ⟨other, process, found, isProcess⟩ := named.places entry mem
  refine ⟨other, process, ?_, isProcess⟩
  have inside := (List.getElem?_eq_some_iff.mp found).1
  unfold pushTask
  dsimp only
  rw [List.getElem?_append_left inside]
  exact found

theorem Named.removeProcess {issue next : Issue} {pid : Nat} (named : Named issue)
    (orderly : Orderly issue (.removeProcess pid))
    (stepped : step issue (.removeProcess pid) = some next) : Named next := by
  unfold Issue.step at stepped
  dsimp only at stepped
  by_cases refused : issue.table.tasks.length ≤ pid ∨ issue.table.current = pid
  · rw [removeProcess_refused refused] at stepped
    cases stepped
    exact named
  · have inside : pid < issue.table.tasks.length := by omega
    have found := List.getElem?_eq_getElem inside
    generalize removedIs : issue.table.tasks.get ⟨pid, inside⟩ = removed at found
    rw [List.get_eq_getElem] at removedIs
    rw [removedIs] at found
    have other : issue.table.current ≠ pid := fun same => refused (Or.inr same)
    rw [removeProcess_of_ne found other] at stepped
    cases stepped
    refine ⟨?_, ?_, ?_⟩
    · intro entry mem
      obtain ⟨inLive, stays⟩ := List.mem_filter.mp mem
      simp only [decide_eq_true_eq] at stays
      obtain ⟨task, process, place, isProcess⟩ := named.places entry inLive
      have placeInside := (List.getElem?_eq_some_iff.mp place).1
      refine ⟨task, process, ?_, isProcess⟩
      dsimp only
      rw [getElem?_swapRemoveAt inside]
      have elsewhere : entry.2 ≠ pid := by
        intro same
        rw [same, found] at place
        obtain rfl := Option.some.inj place
        exact stays rfl
      have notLast : entry.2 ≠ issue.table.tasks.length - 1 := by
        intro isLast
        rcases orderly with past | current | last | kernel
        · omega
        · exact other current
        · omega
        · have lastTask : issue.table.tasks.getLast? = some (task, entry.1) := by
            rw [List.getLast?_eq_getElem?, ← isLast, place]
          have none := kernel _ lastTask
          rw [isProcess] at none
          cases none
      rw [if_pos (by omega), if_neg elsewhere]
      exact place
    · intro entry mem
      exact named.fresh entry (List.mem_of_mem_filter mem)
    · exact named.distinct.sublist List.filter_sublist

theorem Named.step {issue next : Issue} {act : Act} (named : Named issue)
    (orderly : Orderly issue act) (stepped : step issue act = some next) : Named next := by
  cases act with
  | spawnProcess cr3 process =>
      cases stepped
      refine ⟨?_, ?_, ?_⟩
      · intro entry mem
        rcases List.mem_cons.mp mem with rfl | earlier
        · refine ⟨{ cr3, process := some process }, process, ?_, rfl⟩
          simp
        · exact named.push entry earlier
      · intro entry mem
        dsimp only
        rcases List.mem_cons.mp mem with rfl | earlier
        · exact Nat.lt_succ_self _
        · exact Nat.lt_succ_of_lt (named.fresh entry earlier)
      · refine List.Pairwise.cons ?_ named.distinct
        intro entry mem
        exact Nat.ne_of_gt (named.fresh entry mem)
  | spawnKernelTask cr3 =>
      cases stepped
      exact ⟨fun entry mem => named.push entry mem,
        fun entry mem => Nat.lt_succ_of_lt (named.fresh entry mem), named.distinct⟩
  | removeProcess pid => exact named.removeProcess orderly stepped
  | switch target =>
      unfold Issue.step at stepped
      dsimp only at stepped
      split at stepped
      · cases stepped
        exact ⟨named.places, named.fresh, named.distinct⟩
      · cases stepped
  | change pid change =>
      cases stepped
      refine ⟨?_, named.fresh, named.distinct⟩
      intro entry mem
      obtain ⟨task, process, found, isProcess⟩ := named.places entry mem
      unfold changeProcess
      dsimp only
      rw [List.getElem?_modify, found]
      by_cases here : pid = entry.2
      · refine ⟨{ task with process := task.process.map change }, change process, ?_, ?_⟩
        · simp [here, onProcess]
        · simp [isProcess]
      · refine ⟨task, process, ?_, isProcess⟩
        simp [here]

/-- After a run whose removals move no process, every pid still names the process it was
handed out for: it is what a status query, a query for mappings and a removal find, and whose mailbox
a message goes to. -/
theorem pid_names_process {kernelTasks : List Nat} {current : Nat} {acts : List Act}
    {issue : Issue} (orderly : Runs.Meets step Orderly (initial kernelTasks current) acts)
    (ran : Runs.after step (initial kernelTasks current) acts = some issue) :
    ∀ entry, entry ∈ issue.live → ∃ task process,
      issue.table.tasks[entry.2]? = some (task, entry.1) ∧ task.process = some process ∧
      processExitStatus (issue.table.map Prod.fst) entry.2 =
        (if process.state = .exited then process.exitInfo else none) ∧
      processMappings (issue.table.map Prod.fst) entry.2 = some process.mappings ∧
      (issue.table.current ≠ entry.2 →
        (issue.table.removeProcess entry.2).1 = some (task, entry.1)) ∧
      ∀ bytes, deliverMessage (issue.table.map Prod.fst) entry.2 bytes =
        if process.state = .exited then (false, issue.table.map Prod.fst)
        else
          (true,
            { issue.table.map Prod.fst with
              tasks := (issue.table.map Prod.fst).tasks.set entry.2
                { task with process := some { process with inbox := some bytes } } }) := by
  have start : Named (initial kernelTasks current) :=
    ⟨by simp [initial], by simp [initial], List.Pairwise.nil⟩
  have named : Named issue :=
    Runs.after_invariant (fun _ _ _ named orderly stepped => named.step orderly stepped) start
      orderly ran
  intro entry mem
  obtain ⟨task, process, found, isProcess⟩ := named.places entry mem
  have here : processAt (issue.table.map Prod.fst) entry.2 = some process := by
    unfold processAt map
    dsimp only
    rw [List.getElem?_map, found]
    exact isProcess
  have there : (issue.table.map Prod.fst).tasks[entry.2]? = some task := by
    rw [map, List.getElem?_map, found]
    rfl
  refine ⟨task, process, found, isProcess, ?_, ?_, ?_, fun bytes => ?_⟩
  · unfold processExitStatus
    rw [here]
  · unfold processMappings
    rw [here]
    rfl
  · intro other
    rw [removeProcess_of_ne found other]
  · unfold deliverMessage
    rw [there]
    dsimp only
    rw [isProcess]

theorem pid_names_process_stacked : ∃ issue,
    Runs.after step (initial [0] 0)
      [.spawnProcess 4096 (System.newProcess 0 0 .native),
        .spawnProcess 8192 (System.newProcess 0 0 .native), .removeProcess 2] = some issue ∧
    ∃ task process, issue.table.tasks[1]? = some (task, 0) ∧ task.process = some process := by
  refine ⟨_, rfl, ?_⟩
  obtain ⟨task, process, found, isProcess, -⟩ := @pid_names_process [0] 0
    [.spawnProcess 4096 (System.newProcess 0 0 .native),
      .spawnProcess 8192 (System.newProcess 0 0 .native), .removeProcess 2] _
    (by
      refine ⟨trivial, fun first isFirst => ⟨trivial, fun second isSecond => ⟨?_, ?_⟩⟩⟩
      · cases isFirst
        cases isSecond
        exact Or.inr (Or.inr (Or.inl rfl))
      · intro third _
        trivial) rfl (0, 1) (by decide)
  exact ⟨task, process, found, isProcess⟩

/-- Two processes are spawned and the first is removed: the second still has pid 2, but
that place is empty and pid 1 finds it. -/
theorem removal_moves_process :
    (Runs.after step (initial [0] 0) [.spawnProcess 4096 (System.newProcess 0 0 .native),
        .spawnProcess 8192 (System.newProcess 0 0 .native), .removeProcess 1]).map
      (fun issue => (issue.live, (issue.table.tasks[2]?).map Prod.snd,
        (issue.table.tasks[1]?).map Prod.snd)) = some ([(1, 2)], none, some 1) := by
  decide

end Issue
end TaskTable
end MachaOS
