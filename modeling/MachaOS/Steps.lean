/-
What one step of the system does to address spaces.

A task's address space depends on its CR3 and on the memory record of its process.
Most steps touch neither these nor memory; the others run one act of the current
process, launch or remove a process, grow a shared-memory object, or switch tasks.
-/

import MachaOS.Launching
import MachaOS.Process.Acts
import MachaOS.SharedMemory

namespace MachaOS

open Fallible Machine Paging Socket

def Task.home (task : Task) : Nat × Option Process.Books :=
  (task.cr3, task.process.map Process.books)

def SameMemory (machine machine' : Machine) : Prop :=
  machine'.mem = machine.mem ∧ machine'.cr3 = machine.cr3

theorem SameMemory.refl (machine : Machine) : SameMemory machine machine :=
  ⟨rfl, rfl⟩

theorem SameMemory.trans (first second third : Machine) (early : SameMemory first second)
    (late : SameMemory second third) : SameMemory first third :=
  ⟨late.1.trans early.1, late.2.trans early.2⟩

theorem frameFree_calm (phys : Nat) : Preserves SameMemory (frameFree phys) :=
  fun _ => ⟨rfl, rfl⟩

theorem freeFrames_calm (phys count : Nat) : Preserves SameMemory (freeFrames phys count) := by
  induction count generalizing phys with
  | zero => exact preserves_pure SameMemory.refl ()
  | succ count ih =>
      exact preserves_bind SameMemory.trans (frameFree_calm phys) (fun _ => ih _)

theorem Shm.close_calm (table : Shm.Table) (id : Nat) : Preserves SameMemory (Shm.close table id) := by
  unfold Shm.close
  split
  · exact preserves_pure SameMemory.refl _
  · dsimp only
    split
    · exact preserves_bind SameMemory.trans (freeFrames_calm _ _)
        (fun _ => preserves_pure SameMemory.refl _)
    · exact preserves_pure SameMemory.refl _

theorem closeAll_calm (table : Shm.Table) (ids : List Nat) :
    Preserves SameMemory (Socket.closeAll table ids) := by
  induction ids generalizing table with
  | nil => exact preserves_pure SameMemory.refl _
  | cons id rest ih => exact preserves_bind SameMemory.trans (Shm.close_calm table id) (fun _ => ih _)

theorem close_calm (state : Socket.State) (table : Shm.Table) (id : Nat) :
    Preserves SameMemory (Socket.close state table id) :=
  preserves_bind SameMemory.trans (closeAll_calm _ _)
    (fun _ => preserves_pure SameMemory.refl _)

theorem send_calm (state : Socket.State) (table : Shm.Table) (id : Nat)
    (bytes : List (BitVec 8)) (fds : List Nat) :
    Preserves SameMemory (Socket.send state table id bytes fds) := by
  unfold Socket.send
  split
  · exact preserves_pure SameMemory.refl _
  · dsimp only
    split
    · exact preserves_bind SameMemory.trans (closeAll_calm _ _)
        (fun _ => preserves_pure SameMemory.refl _)
    · exact preserves_pure SameMemory.refl _

theorem System.freeProcess_calm (frames : List Nat) :
    Preserves SameMemory (System.freeProcess frames) := by
  induction frames with
  | nil => exact preserves_pure SameMemory.refl _
  | cons frame rest ih => exact preserves_bind SameMemory.trans (frameFree_calm frame) (fun _ => ih)

namespace System

structure Calm (sys after : System) : Prop where
  memory : SameMemory sys.machine after.machine
  layout : after.layout = sys.layout
  current : after.current = sys.current
  homes : after.tasks.map Task.home = sys.tasks.map Task.home

theorem Calm.refl (sys : System) : Calm sys sys :=
  ⟨SameMemory.refl _, rfl, rfl, rfl⟩

theorem Calm.trans (first second third : System) (early : Calm first second)
    (late : Calm second third) : Calm first third :=
  ⟨early.memory.trans _ _ _ late.memory, late.layout.trans early.layout,
    late.current.trans early.current, late.homes.trans early.homes⟩

theorem Calm.task {sys after : System} (calm : Calm sys after) {index : Nat} {task : Task}
    (found : after.tasks[index]? = some task) :
    ∃ before, sys.tasks[index]? = some before ∧ task.home = before.home := by
  have same := congrArg (fun homes => homes[index]?) calm.homes
  simp only [List.getElem?_map, found, Option.map_some] at same
  obtain ⟨before, present, home⟩ := Option.map_eq_some_iff.mp same.symm
  exact ⟨before, present, home.symm⟩

theorem calm_setCurrentProcess {sys : System} {cr3 : Nat} {proc proc' : Process}
    (calling : sys.currentProcess = some (cr3, proc))
    (books : proc'.books = proc.books) : Calm sys (sys.setCurrentProcess proc') := by
  refine ⟨SameMemory.refl _, rfl, rfl, ?_⟩
  have found := currentProcess_eq_some calling
  unfold setCurrentProcess
  apply List.ext_getElem?
  intro index
  rw [List.getElem?_map, List.getElem?_map, List.getElem?_modify]
  by_cases here : sys.current = index
  · subst here
    rw [found]
    simp [Task.home, books]
  · simp [here]

variable {event : Event} {sys after : System} {value : Unit}

theorem calm_openFd {entry : FdEntry} (ran : openFd entry sys = (.ok value, after)) :
    Calm sys after := by
  cases ran
  dsimp only
  cases calling : sys.currentProcess with
  | none => exact Calm.refl sys
  | some current => exact calm_setCurrentProcess calling rfl

theorem calm_openShmFds {ids : List Nat} (ran : openShmFds ids sys = (.ok value, after)) :
    Calm sys after := by
  induction ids generalizing sys with
  | nil =>
      cases ran
      exact Calm.refl _
  | cons id rest ih =>
      obtain ⟨_, middle, opened, ran⟩ := bind_eq_ok ran
      exact (calm_openFd opened).trans _ _ _ (ih ran)

theorem calm_dropFd {entry : FdEntry} (ran : dropFd entry sys = (.ok value, after)) :
    Calm sys after := by
  cases dropFd_dropped ran with
  | file => exact Calm.refl _
  | shm closed => exact ⟨(Shm.close_calm _ _).of_run closed, rfl, rfl, rfl⟩
  | socket closed => exact ⟨(close_calm _ _ _).of_run closed, rfl, rfl, rfl⟩

theorem calm_dropFds {fds : List (Option FdEntry)} (ran : dropFds fds sys = (.ok value, after)) :
    Calm sys after := by
  induction fds generalizing sys with
  | nil =>
      cases ran
      exact Calm.refl _
  | cons slot rest ih =>
      cases slot with
      | none => exact ih ran
      | some entry =>
          obtain ⟨_, middle, dropped, ran⟩ := bind_eq_ok ran
          exact (calm_dropFd dropped).trans _ _ _ (ih ran)

theorem calm_markCurrentExited {info : ExitInfo}
    (ran : markCurrentExited info sys = (.ok value, after)) : Calm sys after := by
  cases ran
  dsimp only
  cases calling : sys.currentProcess with
  | none => exact Calm.refl sys
  | some current =>
      refine calm_setCurrentProcess calling ?_
      unfold Process.markExited
      split <;> rfl

theorem calm_compositor {act : CompositorAct} (ran : compositor act sys = (.ok value, after)) :
    Calm sys after := by
  cases act with
  | create | bind | listen | accept | recv =>
      cases ran
      exact ⟨SameMemory.refl _, rfl, rfl, rfl⟩
  | send id bytes =>
      obtain ⟨sent, sockets, table, machine, delivered, rfl⟩ := compositor_send ran
      exact ⟨(send_calm _ _ _ _ _).of_run delivered, rfl, rfl, rfl⟩
  | release id =>
      rcases compositor_release ran with rfl | ⟨-, table, machine, closed, rfl⟩
      · exact Calm.refl _
      · exact ⟨(Shm.close_calm _ _).of_run closed, rfl, rfl, rfl⟩
  | close id =>
      obtain ⟨sockets, table, machine, closed, rfl⟩ := compositor_close ran
      exact ⟨(close_calm _ _ _).of_run closed, rfl, rfl, rfl⟩

inductive Does (sys : System) (event : Event) (after : System) : Prop where
  | calm (calm : Calm sys after)
  | switched {task : Task} (found : sys.tasks[after.current]? = some task)
      (mem : after.machine.mem = sys.machine.mem) (active : after.machine.cr3 = task.cr3)
      (layout : after.layout = sys.layout) (tasks : after.tasks = sys.tasks)
  | acted {cr3 : Nat} {proc proc' : Process} {act : MemoryAct} {machine : Machine}
      (calling : sys.currentProcess = some (cr3, proc))
      (asked : event.act sys.shm proc = some act)
      (ran : act.run proc cr3 sys.machine = (.ok proc', machine))
      (calm : Calm ({ sys with machine }.setCurrentProcess proc') after)
  | launched {fresh built : Process} {loader : Loader Nat} {pml4 : Nat} {machine : Machine}
      (main : sys.current = 0) (launches : Launches sys.layout event fresh loader)
      (ran : loader (sys.machine, fresh) = (.ok pml4, (machine, built)))
      (result : after =
        { sys with machine, tasks := sys.tasks ++ [{ cr3 := pml4, process := some built }] })
  | refused {fresh built : Process} {loader : Loader Nat} {message : String} {machine : Machine}
      (main : sys.current = 0) (launches : Launches sys.layout event fresh loader)
      (ran : loader (sys.machine, fresh) = (.error (.refused message), (machine, built)))
      (calm : Calm { sys with machine } after)
  | removed {pid : Nat} {middle : System} (main : sys.current = 0) (apart : pid ≠ 0)
      (inside : pid < sys.tasks.length) (tasks : middle.tasks = swapRemove sys.tasks pid)
      (current : middle.current = 0) (machine : middle.machine = sys.machine)
      (layout : middle.layout = sys.layout) (calm : Calm middle after)
  | truncated {fd len cr3 id cursor : Nat} {proc : Process} {done : Bool} {table : Shm.Table}
      {machine : Machine} (isEvent : event = .ftruncate fd len)
      (calling : sys.currentProcess = some (cr3, proc))
      (entry : proc.fd fd = some (.shm id cursor))
      (ran : Shm.truncate sys.shm id len sys.machine = (.ok (done, table), machine))
      (result : after = { sys with machine, shm := table })

theorem does_launch {fresh : Process} {loader : Loader Nat} {result : Except String Nat}
    (main : sys.current = 0) (launches : Launches sys.layout event fresh loader)
    (ran : launch fresh loader sys = (.ok result, after)) : Does sys event after := by
  unfold launch at ran
  rcases loaded : loader (sys.machine, fresh) with ⟨stop | pml4, machine, built⟩
  · rw [loaded] at ran
    cases stop with
    | fault fault => cases ran
    | refused message =>
        dsimp only at ran
        rcases freed : freeProcess built.frames machine with ⟨_ | value, machine'⟩
        · rw [freed] at ran
          cases ran
        · rw [freed] at ran
          cases ran
          exact .refused main launches loaded
            ⟨(freeProcess_calm built.frames).of_run freed, rfl, rfl, rfl⟩
  · rw [loaded] at ran
    cases ran
    exact .launched main launches loaded rfl

theorem does_reap {pid : Nat} (main : sys.current = 0)
    (ran : reap pid sys = (.ok value, after)) : Does sys (.reap pid) after := by
  rcases reap_cases ran with rfl | ⟨middle, removed, outcome⟩
  · exact .calm (Calm.refl _)
  have later : Calm middle after := by
    rcases outcome with ⟨-, rfl⟩ | ⟨proc, machine, freed, -, freeing, ran⟩
    · exact Calm.refl _
    · exact Calm.trans _ { middle with machine } _
        ⟨(freeProcess_calm _).of_run freeing, rfl, rfl, rfl⟩ (calm_dropFds ran)
  have inside := removed.inside
  have apart : pid ≠ 0 := fun zero => removed.different (main.trans zero.symm)
  refine .removed main apart inside removed.tasks ?_ removed.machine removed.layout later
  have length : (swapRemove sys.tasks pid).length ≠ 0 := by
    intro empty
    have first := getElem?_swapRemove inside 0
    rw [if_pos (by omega), if_neg (fun zero => apart zero.symm),
      List.getElem?_eq_none (by omega), List.getElem?_eq_getElem (by omega)] at first
    cases first
  rw [removed.current, main, if_neg (fun zero => length zero.symm), if_neg (Nat.not_lt_zero pid)]

theorem Performed.does (performed : Performed sys event after) : Does sys event after := by
  cases performed with
  | nothing => exact .calm (Calm.refl _)
  | ticked =>
      unfold schedulerTick
      split
      · exact .calm (Calm.refl _)
      · rename_i next _
        cases found : sys.tasks[next]? with
        | none => exact .calm (Calm.refl _)
        | some task => exact .switched found rfl rfl rfl rfl
  | launched main launches ran => exact does_launch main launches ran
  | reaped main ran => exact does_reap main ran
  | acted acted =>
      cases acted with
      | mk calling asked ran => exact .acted calling asked ran (Calm.refl _)
  | killed first ran =>
      have exited := calm_markCurrentExited ran
      rcases first with rfl | acted
      · exact .calm exited
      · cases acted with
        | mk calling asked acted => exact .acted calling asked acted exited
  | exited ran => exact .calm (calm_markCurrentExited ran)
  | openedFile ran => exact .calm (calm_openFd ran)
  | createdMemory ran =>
      exact .calm (Calm.trans _ { sys with shm := (Shm.create sys.shm).1 } _
        ⟨SameMemory.refl _, rfl, rfl, rfl⟩ (calm_openFd ran))
  | createdSocket ran =>
      exact .calm (Calm.trans _ { sys with sockets := (Socket.create sys.sockets).1 } _
        ⟨SameMemory.refl _, rfl, rfl, rfl⟩ (calm_openFd ran))
  | truncated calling entry ran => exact .truncated rfl calling entry ran rfl
  | @closed fd cr3 proc entry value after calling _ _ ran =>
      have cleared : Calm sys
          (sys.setCurrentProcess { proc with fds := Slots.clear proc.fds fd }) :=
        calm_setCurrentProcess calling rfl
      exact .calm (cleared.trans _ _ _ (calm_dropFd ran))
  | connected => exact .calm ⟨SameMemory.refl _, rfl, rfl, rfl⟩
  | sent _ ran => exact .calm ⟨(send_calm _ _ _ _ _).of_run ran, rfl, rfl, rfl⟩
  | @received fd len maxFds cr3 id proc value middle table machine _ _ _ opening dropping =>
      have opened := calm_openShmFds opening
      have dropped : Calm middle { middle with machine, shm := table } :=
        ⟨(closeAll_calm _ _).of_run dropping, rfl, rfl, rfl⟩
      exact .calm (Calm.trans _ { sys with sockets := (Socket.recv sys.sockets id len).2 } _
        ⟨SameMemory.refl _, rfl, rfl, rfl⟩ (opened.trans _ _ _ dropped))
  | composited _ ran => exact .calm (calm_compositor ran)

theorem step_does (stepped : step sys event = some after) : Does sys event after :=
  (step_performed stepped).does

end System
end MachaOS
