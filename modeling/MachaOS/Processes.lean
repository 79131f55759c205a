/-
Properties of single processes.

A property of the memory record of a process that every loader establishes and
every memory operation keeps holds of every process in every state: nothing else
the system does touches that record.
-/

import MachaOS.Launching
import MachaOS.SharedMemory

namespace MachaOS

open Fallible Machine Paging

namespace System

def Every (property : Process → Prop) (sys : System) : Prop :=
  ∀ index proc, sys.processAt index = some proc → property proc

def Keeps (property : Process → Prop) {α : Type} (operation : Process → Nat → Kernel (α × Process)) :
    Prop :=
  ∀ proc pml4 machine value proc' machine', OwnedBy machine.pmm proc →
    property proc → operation proc pml4 machine = (.ok (value, proc'), machine') →
    property proc'

/-- What a property of frames and mappings needs to last, while the shared-memory objects
satisfy `tables`. -/
structure Lasting (tables : Shm.Table → Prop) (property : Process → Prop) : Prop where
  books : ∀ proc proc', proc'.frames = proc.frames →
    proc'.mappings = proc.mappings → property proc → property proc'
  native : ∀ layout (prog : Elf.Program) elfBytes machine machine' pml4 built,
    Loadable layout prog.segments →
    loadNative layout prog elfBytes (machine, newProcess prog.entry 0 .native) =
      (.ok pml4, (machine', built)) → property built
  linux : ∀ layout (prog : Elf.Program) elfBytes argv envp ticks readFile heapStart machine
    machine' pml4 built, Loadable layout prog.segments →
    loadLinux layout prog elfBytes argv envp ticks readFile
        (machine, newProcess prog.entry heapStart .linux) =
      (.ok pml4, (machine', built)) → property built
  brk : ∀ addr, Keeps property (fun proc pml4 => proc.brk pml4 addr)
  mmap : ∀ at' len writable executable content, Keeps property (fun proc pml4 =>
    proc.mmapWithContent pml4 at' len writable executable content)
  shared : ∀ table, tables table → ∀ at' shmId writable executable,
    (∀ phys, Shm.physOf table shmId = some phys → phys % 4096 = 0) →
    Keeps property (fun proc pml4 =>
      proc.mmapShared pml4 at' table shmId writable executable)
  munmap : ∀ addr len, Keeps property (fun proc pml4 => proc.munmap pml4 addr len)
  mprotect : ∀ addr len writable executable, Keeps property (fun proc pml4 =>
    proc.mprotect pml4 addr len writable executable)
  grow : ∀ faultAddr, Keeps property (fun proc pml4 => proc.tryGrowStack pml4 faultAddr)

theorem compositor_tasks {act : CompositorAct} {sys after : System} {value : Unit}
    (ran : compositor act sys = (.ok value, after)) : after.tasks = sys.tasks := by
  cases act with
  | create | bind | listen | accept | recv =>
      cases ran
      rfl
  | send id bytes =>
      obtain ⟨_, _, _, _, -, rfl⟩ := compositor_send ran
      rfl
  | release id =>
      rcases compositor_release ran with rfl | ⟨-, _, _, -, rfl⟩ <;> rfl
  | close id =>
      obtain ⟨_, _, _, -, rfl⟩ := compositor_close ran
      rfl

theorem Lasting.act {tables : Shm.Table → Prop} {property : Process → Prop}
    (lasting : Lasting tables property) {act : MemoryAct} {proc proc' : Process} {pml4 : Nat}
    {machine machine' : Machine} (owned : OwnedBy machine.pmm proc)
    (shared : ∀ at' table shmId writable executable,
      act = .mmapShared at' table shmId writable executable →
        tables table ∧ ∀ phys, Shm.physOf table shmId = some phys → phys % 4096 = 0)
    (holds : property proc) (ran : act.run proc pml4 machine = (.ok proc', machine')) :
    property proc' := by
  cases act <;> obtain ⟨⟨value, built⟩, middle, done, rest⟩ := bind_eq_ok ran <;> cases rest
  case brk => exact lasting.brk _ _ _ _ _ _ _ owned holds done
  case mmap => exact lasting.mmap _ _ _ _ _ _ _ _ _ _ _ owned holds done
  case mmapShared =>
      obtain ⟨objects, aligned⟩ := shared _ _ _ _ _ rfl
      exact lasting.shared _ objects _ _ _ _ aligned _ _ _ _ _ _ owned holds done
  case munmap => exact lasting.munmap _ _ _ _ _ _ _ _ owned holds done
  case mprotect => exact lasting.mprotect _ _ _ _ _ _ _ _ _ _ owned holds done
  case grow => exact lasting.grow _ _ _ _ _ _ _ owned holds done

namespace Every

variable {pool : Nat → Prop} {tables : Shm.Table → Prop} {property : Process → Prop}
  {sys after : System}

section

variable (every : Every property sys)
include every

theorem of_tasks (same : after.tasks = sys.tasks) : Every property after := by
  intro index proc found
  unfold processAt at found
  rw [same] at found
  exact every index proc found

theorem of_books (lasting : Lasting tables property) (books : SameBooks sys after) :
    Every property after := by
  intro index proc' found
  obtain ⟨proc, was, frames, mappings⟩ := books index proc' found
  exact lasting.books proc proc' frames mappings (every index proc was)

theorem acted {event : Event} (lasting : Lasting tables property) (ledger : Ledger pool sys)
    (objects : tables sys.shm) (acted : Acted sys event after) : Every property after := by
  cases acted with
  | mk calling asked ran =>
      have here := processAt_current calling
      intro index other placed
      rw [processAt_acted calling] at placed
      split at placed
      · cases placed
        refine lasting.act (ledger.owned _ _ here) ?_ (every _ _ here) ran
        rintro at' table shmId writable executable rfl
        cases Event.act_table asked
        exact ⟨objects, ledger.physOf_aligned shmId⟩
      · exact every index other placed

theorem launch {proc : Process} {loader : Loader Nat} {result : Except String Nat}
    (loads : ∀ machine machine' pml4 built, loader (machine, proc) =
      (.ok pml4, (machine', built)) → property built)
    (ran : System.launch proc loader sys = (.ok result, after)) : Every property after := by
  cases result with
  | error message =>
      obtain ⟨machine, rfl⟩ := launch_refused ran
      exact every.of_tasks rfl
  | ok pid =>
      obtain ⟨pml4, machine, built, loaded, rfl, rfl⟩ := launch_eq_ok ran
      intro index other placed
      rw [processAt_append] at placed
      split at placed
      · cases placed
        exact loads _ _ _ _ loaded
      · exact every index other placed

theorem reap {pid : Nat} {value : Unit} (ran : System.reap pid sys = (.ok value, after)) :
    Every property after := by
  rcases reap_cases ran with rfl | ⟨middle, removed, outcome⟩
  · exact every
  have moved : Every property middle := by
    intro index proc found
    obtain ⟨-, was⟩ := processAt_swapRemove removed.inside removed.tasks found
    exact every _ proc was
  rcases outcome with ⟨-, rfl⟩ | ⟨proc, machine, freed, -, -, ran⟩
  · exact moved
  · exact moved.of_tasks (dropFds_keeps ran).1

theorem performed {event : Event} (lasting : Lasting tables property) (ledger : Ledger pool sys)
    (objects : tables sys.shm) (performed : Performed sys event after) :
    Every property after := by
  cases performed with
  | nothing => exact every
  | ticked =>
      refine every.of_tasks ?_
      unfold System.schedulerTick
      split
      · rfl
      · split <;> rfl
  | launched _ launches ran =>
      refine every.launch (fun _ _ _ _ loaded => ?_) ran
      cases launches with
      | native accepted =>
          exact lasting.native _ _ _ _ _ _ _ (acceptProgram_loadable accepted) loaded
      | linux accepted =>
          exact lasting.linux _ _ _ _ _ _ _ _ _ _ _ _ (acceptProgram_loadable accepted) loaded
  | reaped _ ran => exact every.reap ran
  | acted acted => exact every.acted lasting ledger objects acted
  | killed first ran =>
      refine of_books ?_ lasting (sameBooks_markCurrentExited ran).1
      rcases first with rfl | acted
      · exact every
      · exact every.acted lasting ledger objects acted
  | exited ran => exact every.of_books lasting (sameBooks_markCurrentExited ran).1
  | openedFile ran | createdMemory ran | createdSocket ran =>
      exact every.of_books lasting (sameBooks_openFd ran).1
  | truncated | connected | sent => exact every.of_tasks rfl
  | @closed fd cr3 proc entry value after calling high opened ran =>
      have cleared := every.of_books lasting (sameBooks_setCurrentProcess calling
        (show ({ proc with fds := Slots.clear proc.fds fd } : Process).frames =
          proc.frames from rfl) rfl)
      exact cleared.of_tasks (dropFd_keeps ran).1
  | received _ _ _ opening dropping =>
      exact (every.of_books lasting (sameBooks_openShmFds opening).1).of_tasks rfl
  | composited _ ran => exact every.of_tasks (compositor_tasks ran)

theorem step {event : Event} (lasting : Lasting tables property) (ledger : Ledger pool sys)
    (objects : tables sys.shm) (stepped : System.step sys event = some after) :
    Every property after :=
  every.performed lasting ledger objects (step_performed stepped)

end

end Every
end System
end MachaOS
