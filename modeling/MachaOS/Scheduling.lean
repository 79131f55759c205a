/-
The scheduler (`scheduler_tick` in `src/task.rs`): whose turn it is, and the one
processor register that it carries from process to process by hand.

Taking turns is a fact about the table of tasks alone and is stated over the
whole system.  The thread-local base is not part of the system state, so a
processor with that register stands beside it here; it takes turns in the same
way.
-/

import MachaOS.Lib.RoundRobin
import MachaOS.System

namespace MachaOS

namespace System

def isRunnable (sys : System) (index : Nat) : Bool :=
  (sys.tasks[index]?).any (fun task => !task.isExited)

def runnable (sys : System) : List Nat :=
  RoundRobin.indices sys.isRunnable sys.tasks.length

structure Quiet (before after : System) : Prop where
  current : after.current = before.current
  exited : after.tasks.map Task.isExited = before.tasks.map Task.isExited

def Switches (before after : System) : Prop :=
  ∃ ticked, Quiet before ticked ∧ after = ticked.schedulerTick

theorem nextTask_eq (sys : System) :
    sys.nextTask =
      RoundRobin.next sys.isRunnable sys.tasks.length sys.current := rfl

theorem Quiet.length {before after : System} (quiet : Quiet before after) :
    after.tasks.length = before.tasks.length := by
  have lengths := congrArg List.length quiet.exited
  rwa [List.length_map, List.length_map] at lengths

theorem Quiet.isRunnable {before after : System} (quiet : Quiet before after) :
    after.isRunnable = before.isRunnable := by
  funext index
  have flags : ∀ sys : System, sys.isRunnable index =
      ((sys.tasks.map Task.isExited)[index]?).any (fun exited => !exited) := by
    intro sys
    rw [List.getElem?_map, Option.any_map]
    rfl
  rw [flags, flags, quiet.exited]

theorem schedulerTick_of_next {sys : System} {next : Nat} (chose : sys.nextTask = some next) :
    sys.schedulerTick.current = next ∧ sys.schedulerTick.tasks = sys.tasks := by
  have inside := (RoundRobin.next_eligible (sys.nextTask_eq.symm.trans chose)).2
  unfold schedulerTick
  rw [chose]
  dsimp only
  rw [List.getElem?_eq_getElem inside]
  exact ⟨rfl, rfl⟩

theorem nextTask_isSome {sys : System} (two : 2 ≤ sys.runnable.length) :
    ∃ next, sys.nextTask = some next := by
  have member : ∀ index, index ∈ sys.runnable →
      index < sys.tasks.length ∧ sys.isRunnable index = true := by
    intro index isIn
    obtain ⟨inside, eligible⟩ := List.mem_filter.mp isIn
    exact ⟨List.mem_range.mp inside, eligible⟩
  have distinct : sys.runnable.Nodup := List.nodup_range.filter _
  rcases found : sys.runnable with _ | ⟨first, _ | ⟨second, rest⟩⟩
  · rw [found] at two
    cases two
  · rw [found] at two
    simp at two
  · rw [found] at member distinct
    obtain ⟨firstInside, firstRunnable⟩ := member first List.mem_cons_self
    obtain ⟨secondInside, secondRunnable⟩ :=
      member second (List.mem_cons_of_mem _ List.mem_cons_self)
    have different : first ≠ second := by
      rintro rfl
      exact (List.nodup_cons.mp distinct).1 List.mem_cons_self
    exact Option.isSome_iff_exists.mp (RoundRobin.next_isSome firstInside secondInside different
      firstRunnable secondRunnable sys.current)

theorem Switches.next {before after : System} (switched : Switches before after)
    (two : 2 ≤ before.runnable.length) :
    RoundRobin.next before.isRunnable before.tasks.length before.current = some after.current ∧
      after.isRunnable = before.isRunnable ∧ after.tasks.length = before.tasks.length := by
  obtain ⟨ticked, quiet, rfl⟩ := switched
  have same : ticked.runnable = before.runnable := by
    unfold runnable
    rw [quiet.isRunnable, quiet.length]
  obtain ⟨next, chose⟩ := nextTask_isSome (by rwa [same])
  obtain ⟨current, tasks⟩ := schedulerTick_of_next chose
  have kept : ticked.schedulerTick.isRunnable = ticked.isRunnable := by
    funext index
    unfold isRunnable
    rw [tasks]
  refine ⟨?_, kept.trans quiet.isRunnable, by rw [tasks, quiet.length]⟩
  rw [current, ← quiet.isRunnable, ← quiet.length, ← quiet.current, ← chose, nextTask_eq]

theorem switches_kept {states : Nat → System} {switches : Nat}
    (two : 2 ≤ (states 0).runnable.length)
    (run : ∀ index, index < switches → Switches (states index) (states (index + 1)))
    {index : Nat} (inside : index ≤ switches) :
    (states index).isRunnable = (states 0).isRunnable ∧
      (states index).tasks.length = (states 0).tasks.length := by
  induction index with
  | zero => exact ⟨rfl, rfl⟩
  | succ index ih =>
      obtain ⟨flags, length⟩ := ih (by omega)
      have still : 2 ≤ (states index).runnable.length := by
        unfold runnable
        rw [flags, length]
        exact two
      obtain ⟨-, nextFlags, nextLength⟩ := (run index (by omega)).next still
      exact ⟨nextFlags.trans flags, nextLength.trans length⟩

/-- Every runnable task gets its turn once in each window of as many switches as there are
runnable tasks, and no task that has exited ever does. -/
theorem round_robin_fair (states : Nat → System) (switches : Nat)
    (two : 2 ≤ (states 0).runnable.length)
    (run : ∀ index, index < switches → Switches (states index) (states (index + 1))) :
    (∀ index, index < switches →
      (states (index + 1)).isRunnable (states (index + 1)).current = true) ∧
      ∀ start, start + (states 0).runnable.length ≤ switches →
        ((List.range (states 0).runnable.length).map
          (fun index => (states (start + index + 1)).current)).Perm (states 0).runnable := by
  have turns : ∀ index, index < switches →
      RoundRobin.next (states 0).isRunnable (states 0).tasks.length (states index).current =
        some (states (index + 1)).current := by
    intro index inside
    obtain ⟨flags, length⟩ := switches_kept two run (Nat.le_of_lt inside)
    have still : 2 ≤ (states index).runnable.length := by
      unfold runnable
      rw [flags, length]
      exact two
    have chose := ((run index inside).next still).1
    rwa [flags, length] at chose
  constructor
  · intro index inside
    rw [(switches_kept two run inside).1]
    exact (RoundRobin.next_eligible (turns index inside)).1
  · intro start win
    exact RoundRobin.window_perm turns win

def exitedBetween : System :=
  { layout := { kernelStart := 0, kernelEnd := 0, kernelPml4 := 0, heapStart := 0, heapEnd := 0 }
    machine :=
      { mem := fun _ => 0#8, pmm := { bitmap := fun _ => 0#8, lastUsableFrame := 0 }, cr3 := 0 }
    shm := []
    sockets := { endpoints := [], listeners := [] }
    compositorFds := []
    tasks :=
      [{ cr3 := 0, process := none },
        { cr3 := 0, process := some ((newProcess 0 0 .native).markExited (.pageFault 0)) },
        { cr3 := 0, process := none }]
    current := 1 }

theorem round_robin_fair_three :
    (∀ index, index < 4 → (schedulerTick^[index + 1] exitedBetween).isRunnable
        (schedulerTick^[index + 1] exitedBetween).current = true) ∧
      ∀ start, start + exitedBetween.runnable.length ≤ 4 →
        ((List.range exitedBetween.runnable.length).map
          (fun index => (schedulerTick^[start + index + 1] exitedBetween).current)).Perm
          exitedBetween.runnable :=
  round_robin_fair (fun index => schedulerTick^[index] exitedBetween) 4 (by decide)
    (fun index _ => ⟨_, ⟨rfl, rfl⟩, Function.iterate_succ_apply' schedulerTick index exitedBetween⟩)

end System

/-- What the scheduler and `arch_prctl` know of a process. -/
structure Resident where
  exited : Bool
  fsBase : BitVec 64

/-- The task table, `process` of each task, and the processor's FS_BASE register. -/
structure Cpu where
  tasks : List (Option Resident)
  current : Nat
  fsBaseMsr : BitVec 64

namespace Cpu

def quantumTicks : Nat := 5
def archSetFs : Nat := 0x1002

def isRunnable (cpu : Cpu) (index : Nat) : Bool :=
  (cpu.tasks[index]?).any (fun process => !process.any Resident.exited)

def processAt (cpu : Cpu) (index : Nat) : Option Resident :=
  (cpu.tasks[index]?).join

def withProcess (cpu : Cpu) (change : Resident → Resident) : Cpu :=
  { cpu with tasks := cpu.tasks.modify cpu.current (Option.map change) }

def switchTo (cpu : Cpu) (next : Nat) : Cpu :=
  let saved := cpu.withProcess (fun process => { process with fsBase := cpu.fsBaseMsr })
  { saved with
    current := next
    fsBaseMsr :=
      match saved.processAt next with
      | some process => process.fsBase
      | none => saved.fsBaseMsr }

def schedulerTick (cpu : Cpu) (ticks : Nat) : Cpu :=
  if ticks % quantumTicks ≠ 0 then cpu
  else if cpu.tasks.length < 2 then cpu
  else
    match RoundRobin.next cpu.isRunnable cpu.tasks.length cpu.current with
    | none => cpu
    | some next => cpu.switchTo next

def spawn (cpu : Cpu) : Cpu :=
  { cpu with tasks := cpu.tasks ++ [none] }

def spawnProcess (cpu : Cpu) : Cpu :=
  { cpu with tasks := cpu.tasks ++ [some { exited := false, fsBase := 0#64 }] }

/-- `sys_arch_prctl`; `false` stands for `EINVAL`. -/
def sysArchPrctl (cpu : Cpu) (code : Nat) (addr : BitVec 64) : Bool × Cpu :=
  if code = archSetFs then
    (true, { cpu with fsBaseMsr := addr }.withProcess
      (fun process => { process with fsBase := addr }))
  else (false, cpu)

def exitCurrent (cpu : Cpu) : Cpu :=
  cpu.withProcess (fun process => { process with exited := true })

/-- After `task::init`: the main task and three counters. -/
def start (fsBaseMsr : BitVec 64) : Cpu :=
  { tasks := List.replicate 4 none, current := 0, fsBaseMsr }

inductive Event where
  | tick (ticks : Nat)
  | spawn
  | spawnProcess
  | archPrctl (code : Nat) (addr : BitVec 64)
  | exit

structure Logged where
  cpu : Cpu
  log : List (Nat × BitVec 64)

namespace Logged

def step (logged : Logged) : Event → Logged
  | .tick ticks => { logged with cpu := logged.cpu.schedulerTick ticks }
  | .spawn => { logged with cpu := logged.cpu.spawn }
  | .spawnProcess => { logged with cpu := logged.cpu.spawnProcess }
  | .archPrctl code addr =>
      let (set, cpu) := logged.cpu.sysArchPrctl code addr
      { cpu, log := if set then (logged.cpu.current, addr) :: logged.log else logged.log }
  | .exit => { logged with cpu := logged.cpu.exitCurrent }

def run (fsBaseMsr : BitVec 64) (events : List Event) : Logged :=
  events.foldl step { cpu := start fsBaseMsr, log := [] }

def lastSet (logged : Logged) (pid : Nat) : BitVec 64 :=
  ((logged.log.find? (fun entry => entry.1 = pid)).map Prod.snd).getD 0#64

structure Separate (logged : Logged) : Prop where
  current : ∀ process, logged.cpu.processAt logged.cpu.current = some process →
    logged.cpu.fsBaseMsr = logged.lastSet logged.cpu.current
  others : ∀ pid process, logged.cpu.processAt pid = some process → pid ≠ logged.cpu.current →
    process.fsBase = logged.lastSet pid

structure Consistent (logged : Logged) : Prop extends Separate logged where
  inTable : logged.cpu.current < logged.cpu.tasks.length
  logInTable : ∀ entry, entry ∈ logged.log → entry.1 < logged.cpu.tasks.length

variable {logged : Logged}

theorem lastSet_cons (log : List (Nat × BitVec 64)) (cpu : Cpu) (owner pid : Nat)
    (addr : BitVec 64) :
    lastSet { cpu, log := (owner, addr) :: log } pid =
      if owner = pid then addr else lastSet { cpu, log } pid := by
  unfold lastSet
  dsimp only
  by_cases same : owner = pid
  · rw [List.find?_cons_of_pos (by simpa using same), if_pos same]
    rfl
  · rw [List.find?_cons_of_neg (by simpa using same), if_neg same]

theorem Consistent.lastSet_fresh (consistent : Consistent logged) {pid : Nat}
    (outside : logged.cpu.tasks.length ≤ pid) : logged.lastSet pid = 0#64 := by
  unfold lastSet
  rw [List.find?_eq_none.mpr]
  · rfl
  · intro entry member
    have inside := consistent.logInTable entry member
    simp only [decide_eq_true_eq]
    omega

theorem processAt_append (cpu : Cpu) (task : Option Resident) (pid : Nat) :
    processAt { cpu with tasks := cpu.tasks ++ [task] } pid =
      if pid = cpu.tasks.length then task else cpu.processAt pid := by
  unfold processAt
  dsimp only
  rcases Nat.lt_trichotomy pid cpu.tasks.length with before | last | behind
  · rw [List.getElem?_append_left before, if_neg (by omega)]
  · subst last
    simp
  · rw [if_neg (by omega), List.getElem?_eq_none (by simp; omega),
      List.getElem?_eq_none (Nat.le_of_lt behind)]

theorem Consistent.push (consistent : Consistent logged) (task : Option Resident)
    (fresh : ∀ process, task = some process → process.fsBase = 0#64) :
    Consistent
      { logged with cpu := { logged.cpu with tasks := logged.cpu.tasks ++ [task] } } := by
  have inTable := consistent.inTable
  refine ⟨⟨?_, ?_⟩, ?_, ?_⟩
  · intro process found
    rw [processAt_append, if_neg (Nat.ne_of_lt inTable)] at found
    exact consistent.current process found
  · intro pid process found other
    rw [processAt_append] at found
    split at found
    · rename_i isNew
      rw [fresh process found]
      exact (consistent.lastSet_fresh (Nat.le_of_eq isNew.symm)).symm
    · exact consistent.others pid process found other
  · dsimp only
    rw [List.length_append]
    omega
  · intro entry member
    have inside := consistent.logInTable entry member
    dsimp only
    rw [List.length_append]
    omega

theorem processAt_withProcess (cpu : Cpu) (change : Resident → Resident) (pid : Nat) :
    (cpu.withProcess change).processAt pid =
      if pid = cpu.current then (cpu.processAt pid).map change else cpu.processAt pid := by
  unfold processAt withProcess
  dsimp only
  rw [List.getElem?_modify]
  by_cases same : cpu.current = pid
  · rw [if_pos same.symm]
    cases cpu.tasks[pid]? with
    | none => simp
    | some task => cases task <;> simp [same]
  · rw [if_neg (fun again => same again.symm)]
    cases cpu.tasks[pid]? with
    | none => simp
    | some task => simp [same]

@[simp] theorem length_withProcess (cpu : Cpu) (change : Resident → Resident) :
    (cpu.withProcess change).tasks.length = cpu.tasks.length :=
  List.length_modify _ _ _

theorem Consistent.switchTo (consistent : Consistent logged) {next : Nat}
    (inside : next < logged.cpu.tasks.length) :
    Consistent { logged with cpu := logged.cpu.switchTo next } := by
  -- after the save, every process has its own base
  have saved : ∀ pid process,
      (logged.cpu.withProcess
        (fun process => { process with fsBase := logged.cpu.fsBaseMsr })).processAt pid =
          some process → process.fsBase = logged.lastSet pid := by
    intro pid process found
    rw [processAt_withProcess] at found
    split at found
    · rename_i isCurrent
      obtain ⟨old, wasThere, rfl⟩ := Option.map_eq_some_iff.mp found
      rw [isCurrent] at wasThere ⊢
      exact consistent.current old wasThere
    · rename_i isOther
      exact consistent.others pid process found isOther
  refine ⟨⟨?_, ?_⟩, ?_, ?_⟩
  · intro process found
    have base := saved next process found
    have loaded : (logged.cpu.switchTo next).fsBaseMsr = process.fsBase := by
      unfold Cpu.switchTo
      dsimp only
      rw [show (logged.cpu.withProcess
        (fun process => { process with fsBase := logged.cpu.fsBaseMsr })).processAt next =
          some process from found]
    exact loaded.trans base
  · intro pid process found _
    exact saved pid process found
  · exact (length_withProcess _ _).symm ▸ inside
  · intro entry member
    exact (length_withProcess _ _).symm ▸ consistent.logInTable entry member

theorem Consistent.schedulerTick (consistent : Consistent logged) (ticks : Nat) :
    Consistent { logged with cpu := logged.cpu.schedulerTick ticks } := by
  unfold Cpu.schedulerTick
  split
  · exact consistent
  · split
    · exact consistent
    · split
      · exact consistent
      · rename_i next chose
        exact consistent.switchTo (RoundRobin.next_eligible chose).2

theorem step_archSetFs (addr : BitVec 64) :
    logged.step (.archPrctl archSetFs addr) =
      { cpu := { logged.cpu with fsBaseMsr := addr }.withProcess
          (fun process => { process with fsBase := addr })
        log := (logged.cpu.current, addr) :: logged.log } := rfl

theorem step_archPrctl_of_ne {code : Nat} (other : code ≠ archSetFs) (addr : BitVec 64) :
    logged.step (.archPrctl code addr) = logged := by
  unfold step
  dsimp only
  rw [sysArchPrctl, if_neg other]
  rfl

theorem Consistent.archPrctl (consistent : Consistent logged) (code : Nat) (addr : BitVec 64) :
    Consistent (logged.step (.archPrctl code addr)) := by
  by_cases sets : code = archSetFs
  · rw [sets, step_archSetFs]
    refine ⟨⟨?_, ?_⟩, ?_, ?_⟩
    · intro process found
      rw [lastSet_cons]
      exact (if_pos rfl).symm
    · intro pid process found other
      have isOther : pid ≠ logged.cpu.current := other
      rw [processAt_withProcess, if_neg isOther] at found
      rw [lastSet_cons, if_neg (fun same => isOther same.symm)]
      exact consistent.others pid process found isOther
    · exact (length_withProcess _ _).symm ▸ consistent.inTable
    · intro entry member
      dsimp only at member ⊢
      rw [length_withProcess]
      rcases List.mem_cons.mp member with rfl | old
      · exact consistent.inTable
      · exact consistent.logInTable entry old
  · rw [step_archPrctl_of_ne sets]
    exact consistent

theorem Consistent.exit (consistent : Consistent logged) :
    Consistent (logged.step .exit) := by
  refine ⟨⟨?_, ?_⟩, ?_, ?_⟩
  · intro process found
    have here := (processAt_withProcess logged.cpu
      (fun process => { process with exited := true }) logged.cpu.current).symm.trans found
    rw [if_pos rfl] at here
    obtain ⟨old, wasThere, -⟩ := Option.map_eq_some_iff.mp here
    exact consistent.current old wasThere
  · intro pid process found other
    have here := (processAt_withProcess logged.cpu
      (fun process => { process with exited := true }) pid).symm.trans found
    rw [if_neg (show pid ≠ logged.cpu.current from other)] at here
    exact consistent.others pid process here other
  · exact (length_withProcess _ _).symm ▸ consistent.inTable
  · intro entry member
    exact (length_withProcess _ _).symm ▸ consistent.logInTable entry member

theorem Consistent.step (consistent : Consistent logged) (event : Event) :
    Consistent (logged.step event) := by
  cases event with
  | tick ticks => exact consistent.schedulerTick ticks
  | spawn => exact consistent.push none (fun process isProcess => by cases isProcess)
  | spawnProcess =>
      exact consistent.push (some { exited := false, fsBase := 0#64 })
        (fun process isProcess => by cases isProcess; rfl)
  | archPrctl code addr => exact consistent.archPrctl code addr
  | exit => exact consistent.exit

theorem consistent_start (fsBaseMsr : BitVec 64) :
    Consistent { cpu := start fsBaseMsr, log := [] } := by
  have nobody : ∀ pid, (start fsBaseMsr).processAt pid = none := by
    intro pid
    unfold processAt start
    dsimp only
    rw [List.getElem?_replicate]
    split <;> rfl
  refine ⟨⟨?_, ?_⟩, Nat.zero_lt_succ 3, fun entry member => by cases member⟩
  · intro process found
    rw [nobody] at found
    cases found
  · intro pid process found _
    rw [nobody] at found
    cases found

/-- Thread-local bases do not leak: in every state the register and the saved bases are what
each process set last. -/
theorem bases_separate (fsBaseMsr : BitVec 64) (events : List Event) :
    Separate (run fsBaseMsr events) := by
  have consistent : ∀ logged, Consistent logged → Consistent (events.foldl Logged.step logged) := by
    induction events with
    | nil => exact fun _ holds => holds
    | cons event rest ih => exact fun logged holds => ih _ (holds.step event)
  exact (consistent _ (consistent_start fsBaseMsr)).toSeparate

end Logged

end Cpu
end MachaOS
