/-
What a finished event did.

An event that comes to its end has done nothing, or what is told here of its kind, with the
routines of the kernel that it went through.  What steps keep is read off these cases, so
that the definitions of the system calls are looked into once.
-/

import MachaOS.Process.Acts
import MachaOS.Spawning

namespace MachaOS

open Fallible Machine Paging

theorem MemoryAct.run_books {act : MemoryAct} {proc proc' : Process} {pml4 : Nat}
    {machine machine' : Machine} (owned : OwnedBy machine.pmm proc)
    (bounded : machine.pmm.Bounded)
    (aligned : ∀ at' table shmId writable executable,
      act = .mmapShared at' table shmId writable executable →
        ∀ phys, Shm.physOf table shmId = some phys → phys % 4096 = 0)
    (ran : act.run proc pml4 machine = (.ok proc', machine')) :
    (OwnedBy machine'.pmm proc' ∧ Transfer proc proc' machine machine') ∧
      proc'.fds = proc.fds ∧
      ∀ mapping, mapping ∈ proc'.mappings → mapping ∈ proc.mappings ∨
        mapping.shmId = none ∨ ∃ at' table shmId writable executable,
          act = .mmapShared at' table shmId writable executable ∧ mapping.Shares table shmId := by
  have grows {added : List Mapping} {taken : List Nat}
      (grown : Grown proc proc' machine machine' added taken) :
      (OwnedBy machine'.pmm proc' ∧ Transfer proc proc' machine machine') ∧
        ∀ mapping, mapping ∈ proc'.mappings → mapping ∈ proc.mappings ∨ mapping ∈ added := by
    refine ⟨owned.grow bounded grown, fun mapping mem => ?_⟩
    rw [grown.mappings] at mem
    exact List.mem_append.mp mem
  cases act <;> obtain ⟨⟨value, built⟩, middle, done, rest⟩ := bind_eq_ok ran <;> cases rest
  case brk =>
      obtain ⟨⟨added, taken, grown, isPrivate⟩, fds⟩ := Process.brk_adds done
      exact ⟨(grows grown).1, fds, fun mapping mem => ((grows grown).2 mapping mem).imp_right
        (fun new => Or.inl (isPrivate mapping new))⟩
  case mmap =>
      obtain ⟨⟨added, taken, grown, isPrivate⟩, fds⟩ := Process.mmapWithContent_adds done
      exact ⟨(grows grown).1, fds, fun mapping mem => ((grows grown).2 mapping mem).imp_right
        (fun new => Or.inl (isPrivate mapping new))⟩
  case mmapShared =>
      obtain ⟨⟨added, taken, grown, shares⟩, fds⟩ :=
        Process.mmapShared_adds done (aligned _ _ _ _ _ rfl)
      exact ⟨(grows grown).1, fds, fun mapping mem => ((grows grown).2 mapping mem).imp_right
        (fun new => Or.inr ⟨_, _, _, _, _, rfl, shares mapping new⟩)⟩
  case munmap =>
      obtain ⟨ownedAfter, transfer, subset, fds⟩ := Process.munmap_owned owned done
      exact ⟨⟨ownedAfter, transfer⟩, fds, fun mapping mem => Or.inl (subset mapping mem)⟩
  case mprotect =>
      obtain ⟨⟨taken, grown⟩, fds⟩ := Process.mprotect_grown done
      exact ⟨(grows grown).1, fds, fun mapping mem => ((grows grown).2 mapping mem).imp_right
        List.not_mem_nil.elim⟩
  case grow =>
      obtain ⟨⟨taken, grown⟩, fds⟩ := Process.tryGrowStack_grown done
      exact ⟨(grows grown).1, fds, fun mapping mem => ((grows grown).2 mapping mem).imp_right
        List.not_mem_nil.elim⟩

namespace System

variable {sys after : System} {event : Event}

variable {α : Type}

theorem onProcess_eq_ok {operation : Process → Nat → Kernel (α × Process)} {result : Option α}
    (ran : onProcess operation sys = (.ok result, after)) :
    (sys.currentProcess = none ∧ after = sys) ∨
      ∃ cr3 proc value proc' machine,
        sys.currentProcess = some (cr3, proc) ∧
        operation proc cr3 sys.machine = (.ok (value, proc'), machine) ∧
        result = some value ∧ after = { sys with machine }.setCurrentProcess proc' := by
  unfold onProcess at ran
  cases found : sys.currentProcess with
  | none =>
      rw [found] at ran
      cases ran
      exact Or.inl ⟨rfl, rfl⟩
  | some current =>
      obtain ⟨cr3, proc⟩ := current
      rw [found] at ran
      dsimp only at ran
      rcases outcome : operation proc cr3 sys.machine with ⟨fault | ⟨value, proc'⟩, machine⟩
      · rw [outcome] at ran
        cases ran
      · rw [outcome] at ran
        cases ran
        exact Or.inr ⟨cr3, proc, value, proc', machine, rfl, outcome, rfl, rfl⟩

theorem onMachine_eq_ok {routine : Kernel α} {value : α}
    (ran : onMachine routine sys = (.ok value, after)) :
    ∃ machine, routine sys.machine = (.ok value, machine) ∧
      after = { sys with machine } := by
  unfold onMachine at ran
  rcases outcome : routine sys.machine with ⟨fault | result, machine⟩
  · rw [outcome] at ran
    cases ran
  · rw [outcome] at ran
    cases ran
    exact ⟨machine, rfl, rfl⟩

inductive Dropped (sys : System) : FdEntry → System → Prop where
  | file : Dropped sys .file sys
  | shm {id cursor : Nat} {table : Shm.Table} {machine : Machine}
      (ran : Shm.close sys.shm id sys.machine = (.ok table, machine)) :
      Dropped sys (.shm id cursor) { sys with machine, shm := table }
  | socket {id : Nat} {sockets : Socket.State} {table : Shm.Table} {machine : Machine}
      (ran : Socket.close sys.sockets sys.shm id sys.machine =
        (.ok (sockets, table), machine)) :
      Dropped sys (.socket id) { sys with machine, sockets, shm := table }

variable {value : Unit}

theorem dropFd_dropped {entry : FdEntry} (ran : dropFd entry sys = (.ok value, after)) :
    Dropped sys entry after := by
  cases entry with
  | file =>
      cases ran
      exact .file
  | shm id cursor =>
      obtain ⟨_, _, got, ran⟩ := bind_eq_ok ran
      cases got
      obtain ⟨table, middle, closed, rest⟩ := bind_eq_ok ran
      obtain ⟨machine, inner, rfl⟩ := onMachine_eq_ok closed
      cases rest
      exact .shm inner
  | socket id =>
      obtain ⟨_, _, got, ran⟩ := bind_eq_ok ran
      cases got
      obtain ⟨⟨sockets, table⟩, middle, closed, rest⟩ := bind_eq_ok ran
      obtain ⟨machine, inner, rfl⟩ := onMachine_eq_ok closed
      cases rest
      exact .socket inner

structure Removed (sys : System) (pid : Nat) (after : System) : Prop where
  inside : pid < sys.tasks.length
  different : sys.current ≠ pid
  tasks : after.tasks = swapRemove sys.tasks pid
  current : after.current =
    if sys.current = (swapRemove sys.tasks pid).length then pid
    else if pid < sys.current then sys.current - 1
    else sys.current
  machine : after.machine = sys.machine
  layout : after.layout = sys.layout
  shm : after.shm = sys.shm
  sockets : after.sockets = sys.sockets
  compositorFds : after.compositorFds = sys.compositorFds

theorem removeProcess_cases {pid : Nat} {removed : Option Process}
    (ran : sys.removeProcess pid = (removed, after)) :
    (removed = none ∧ after = sys) ∨
      (removed = sys.processAt pid ∧ Removed sys pid after) := by
  unfold removeProcess at ran
  cases found : sys.tasks[pid]? with
  | none =>
      rw [found] at ran
      cases ran
      exact Or.inl ⟨rfl, rfl⟩
  | some task =>
      rw [found] at ran
      dsimp only at ran
      by_cases current : sys.current = pid
      · rw [if_pos current] at ran
        cases ran
        exact Or.inl ⟨rfl, rfl⟩
      · rw [if_neg current] at ran
        cases ran
        refine Or.inr ⟨?_, (List.getElem?_eq_some_iff.mp found).1, current, rfl, rfl, rfl, rfl,
          rfl, rfl, rfl⟩
        simp [processAt, found]

theorem reap_cases {pid : Nat} (ran : reap pid sys = (.ok value, after)) :
    after = sys ∨ ∃ middle, Removed sys pid middle ∧
      ((sys.processAt pid = none ∧ after = middle) ∨
        ∃ proc machine value, sys.processAt pid = some proc ∧
          freeProcess proc.frames middle.machine = (.ok value, machine) ∧
          dropFds proc.fds { middle with machine } = (.ok (), after)) := by
  unfold reap at ran
  rcases removal : sys.removeProcess pid with ⟨removed, middle⟩
  rw [removal] at ran
  rcases removeProcess_cases removal with ⟨rfl, rfl⟩ | ⟨same, gone⟩
  · cases ran
    exact Or.inl rfl
  refine Or.inr ⟨middle, gone, ?_⟩
  rw [← same]
  cases removed with
  | none =>
      cases ran
      exact Or.inl ⟨rfl, rfl⟩
  | some proc =>
      obtain ⟨value, freed, freeing, ran⟩ := bind_eq_ok ran
      obtain ⟨machine, inner, rfl⟩ := onMachine_eq_ok freeing
      exact Or.inr ⟨proc, machine, value, rfl, inner, ran⟩

theorem compositor_send {id : Nat} {bytes : List (BitVec 8)}
    (ran : compositor (.send id bytes) sys = (.ok value, after)) :
    ∃ sent sockets table machine, Socket.send sys.sockets sys.shm id bytes [] sys.machine =
        (.ok (sent, sockets, table), machine) ∧
      after = { sys with machine, sockets, shm := table } := by
  obtain ⟨_, _, got, ran⟩ := bind_eq_ok ran
  cases got
  obtain ⟨⟨sent, sockets, table⟩, middle, delivered, rest⟩ := bind_eq_ok ran
  obtain ⟨machine, inner, rfl⟩ := onMachine_eq_ok delivered
  cases rest
  exact ⟨sent, sockets, table, machine, inner, rfl⟩

theorem compositor_release {id : Nat} (ran : compositor (.release id) sys = (.ok value, after)) :
    after = sys ∨ (id ∈ sys.compositorFds ∧ ∃ table machine,
      Shm.close sys.shm id sys.machine = (.ok table, machine) ∧
        after = { sys with
          machine, shm := table, compositorFds := sys.compositorFds.erase id }) := by
  obtain ⟨_, _, got, ran⟩ := bind_eq_ok ran
  cases got
  split at ran
  · rename_i holding
    obtain ⟨table, middle, closed, rest⟩ := bind_eq_ok ran
    obtain ⟨machine, inner, rfl⟩ := onMachine_eq_ok closed
    cases rest
    exact Or.inr ⟨holding, table, machine, inner, rfl⟩
  · cases ran
    exact Or.inl rfl

theorem compositor_close {id : Nat} (ran : compositor (.close id) sys = (.ok value, after)) :
    ∃ sockets table machine, Socket.close sys.sockets sys.shm id sys.machine =
        (.ok (sockets, table), machine) ∧
      after = { sys with machine, sockets, shm := table } := by
  obtain ⟨_, _, got, ran⟩ := bind_eq_ok ran
  cases got
  obtain ⟨⟨sockets, table⟩, middle, closed, rest⟩ := bind_eq_ok ran
  obtain ⟨machine, inner, rfl⟩ := onMachine_eq_ok closed
  cases rest
  exact ⟨sockets, table, machine, inner, rfl⟩

def Event.act (table : Shm.Table) (proc : Process) : Event → Option MemoryAct
  | .brk addr => some (.brk addr)
  | .mmap addr len prot flags fd content =>
      if len = 0 then none
      else
        let at' := if hasBit flags mapFixed then some addr else none
        let writable := hasBit prot protWrite
        let executable := hasBit prot protExec
        if hasBit flags mapAnonymous || decide (fd ≥ 2 ^ 63) then
          some (.mmap at' len writable executable none)
        else
          match proc.fd fd with
          | some (.shm shmId _) =>
              if hasBit flags mapShared then some (.mmapShared at' table shmId writable executable)
              else none
          | some .file => some (.mmap at' len writable executable (some (content.take len)))
          | _ => none
  | .munmap addr len => some (.munmap addr len)
  | .mprotect addr len prot =>
      some (.mprotect addr len (hasBit prot protWrite) (hasBit prot protExec))
  | .pageFault cr2 => some (.grow cr2)
  | .resolvePtr vaddr len =>
      match proc.translateLocal vaddr len with
      | some _ => none
      | none => some (.grow vaddr)
  | _ => none

theorem Event.act_table {proc : Process} {table other : Shm.Table} {at' : Option Nat} {shmId : Nat}
    {writable executable : Bool}
    (asked : event.act table proc = some (.mmapShared at' other shmId writable executable)) :
    other = table := by
  cases event with
  | mmap addr len prot flags fd content =>
      simp only [Event.act] at asked
      repeat' split at asked
      all_goals cases asked
      all_goals rfl
  | resolvePtr vaddr len =>
      simp only [Event.act] at asked
      split at asked <;> cases asked
  | _ => cases asked

inductive Launches (layout : Layout) : Event → Process → Loader Nat → Prop where
  | native {elfBytes : Elf.Bytes} {prog : Elf.Program}
      (accepted : acceptProgram layout Process.pieLoadBase elfBytes = .ok prog) :
      Launches layout (.spawn elfBytes) (newProcess prog.entry 0 .native)
        (loadNative layout prog elfBytes)
  | linux {elfBytes : Elf.Bytes} {argv envp : List Elf.Bytes} {ticks heapStart : Nat}
      {readFile : String → Option Elf.Bytes} {prog : Elf.Program}
      (accepted : acceptProgram layout Process.pieLoadBase elfBytes = .ok prog)
      (heap : heapStartOf prog.segments = some heapStart) :
      Launches layout (.spawnLinux elfBytes argv envp ticks readFile)
        (newProcess prog.entry heapStart .linux)
        (loadLinux layout prog elfBytes argv envp ticks readFile)

theorem Launches.records {layout : Layout} {proc : Process} {loader : Loader Nat}
    (launches : Launches layout event proc loader) :
    (∃ entry heapStart abi, proc = newProcess entry heapStart abi) ∧
      ∃ recorded, Loader.Records recorded loader := by
  cases launches with
  | native accepted =>
      exact ⟨⟨_, _, _, rfl⟩, _, records_loadNative _ (acceptProgram_ok accepted)⟩
  | linux accepted heap =>
      exact ⟨⟨_, _, _, rfl⟩, _, records_loadLinux _ _ _ _ _ (acceptProgram_ok accepted)⟩

inductive Acted (sys : System) (event : Event) : System → Prop where
  | mk {cr3 : Nat} {proc proc' : Process} {act : MemoryAct} {machine : Machine}
      (calling : sys.currentProcess = some (cr3, proc))
      (asked : event.act sys.shm proc = some act)
      (ran : act.run proc cr3 sys.machine = (.ok proc', machine)) :
      Acted sys event ({ sys with machine }.setCurrentProcess proc')

inductive Performed (sys : System) : Event → System → Prop where
  | nothing {event : Event} : Performed sys event sys
  | ticked : Performed sys .schedule sys.schedulerTick
  | launched {event : Event} {proc : Process} {loader : Loader Nat}
      {result : Except String Nat} {after : System} (main : sys.current = 0)
      (launches : Launches sys.layout event proc loader)
      (ran : launch proc loader sys = (.ok result, after)) : Performed sys event after
  | reaped {pid : Nat} {value : Unit} {after : System} (main : sys.current = 0)
      (ran : reap pid sys = (.ok value, after)) : Performed sys (.reap pid) after
  | acted {event : Event} {after : System} (acted : Acted sys event after) :
      Performed sys event after
  | killed {cr2 : Nat} {value : Unit} {middle after : System}
      (first : middle = sys ∨ Acted sys (.pageFault cr2) middle)
      (ran : markCurrentExited (.pageFault cr2) middle = (.ok value, after)) :
      Performed sys (.pageFault cr2) after
  | exited {info : ExitInfo} {value : Unit} {after : System}
      (ran : markCurrentExited info sys = (.ok value, after)) :
      Performed sys (.exit info) after
  | openedFile {value : Unit} {after : System} (ran : openFd .file sys = (.ok value, after)) :
      Performed sys .openFile after
  | createdMemory {value : Unit} {after : System}
      (ran : openFd (.shm (Shm.create sys.shm).2 0)
        { sys with shm := (Shm.create sys.shm).1 } = (.ok value, after)) :
      Performed sys .memfdCreate after
  | createdSocket {value : Unit} {after : System}
      (ran : openFd (.socket (Socket.create sys.sockets).2)
        { sys with sockets := (Socket.create sys.sockets).1 } = (.ok value, after)) :
      Performed sys .socket after
  | truncated {fd len cr3 id cursor : Nat} {proc : Process} {done : Bool} {table : Shm.Table}
      {machine : Machine} (calling : sys.currentProcess = some (cr3, proc))
      (entry : proc.fd fd = some (.shm id cursor))
      (ran : Shm.truncate sys.shm id len sys.machine = (.ok (done, table), machine)) :
      Performed sys (.ftruncate fd len) { sys with machine, shm := table }
  | closed {fd cr3 : Nat} {proc : Process} {entry : FdEntry} {value : Unit} {after : System}
      (calling : sys.currentProcess = some (cr3, proc)) (high : ¬ fd < Process.firstFileFd)
      (opened : proc.fd fd = some entry)
      (ran : dropFd entry (sys.setCurrentProcess
        { proc with fds := Slots.clear proc.fds fd }) = (.ok value, after)) :
      Performed sys (.close fd) after
  | connected {fd id : Nat} {path : String} : Performed sys (.connect fd path)
      { sys with sockets := (Socket.connect sys.sockets id path).2 }
  | sent {fd cr3 id : Nat} {bytes : List (BitVec 8)} {fds : List Nat} {proc : Process}
      {sent : Option Nat} {sockets : Socket.State} {table : Shm.Table} {machine : Machine}
      (calling : sys.currentProcess = some (cr3, proc))
      (ran : Socket.send sys.sockets sys.shm id bytes (passedIds proc fds)
        sys.machine = (.ok (sent, sockets, table), machine)) :
      Performed sys (.sendmsg fd bytes fds) { sys with machine, sockets, shm := table }
  | received {fd len maxFds cr3 id : Nat} {proc : Process} {value : Unit} {middle : System}
      {table : Shm.Table} {machine : Machine}
      (calling : sys.currentProcess = some (cr3, proc))
      (opened : proc.fd fd = some (.socket id))
      (ready : Socket.hasData sys.sockets id = true)
      (opening : openShmFds ((Socket.recv sys.sockets id len).1.2.take maxFds)
        { sys with sockets := (Socket.recv sys.sockets id len).2 } = (.ok value, middle))
      (dropping : Socket.closeAll middle.shm
        ((Socket.recv sys.sockets id len).1.2.drop maxFds) middle.machine =
          (.ok table, machine)) :
      Performed sys (.recvmsg fd len maxFds) { middle with machine, shm := table }
  | composited {act : CompositorAct} {value : Unit} {after : System}
      (kernel : sys.currentProcess.isNone) (ran : compositor act sys = (.ok value, after)) :
      Performed sys (.compositor act) after

theorem act_run {operation : Kernel (α × Process)} {machine machine' : Machine} {value : α}
    {proc' : Process} (ran : operation machine = (.ok (value, proc'), machine')) :
    (do let (_, proc) ← operation; pure proc : Kernel Process) machine =
      (.ok proc', machine') := by
  rw [bind_of_ok ran]
  rfl

theorem acted_of_onProcess {operation : Process → Nat → Kernel (α × Process)} (act : MemoryAct)
    {result : Option α}
    (same : ∀ proc pml4,
      act.run proc pml4 = (do let (_, proc) ← operation proc pml4; pure proc))
    (asked : ∀ cr3 proc, sys.currentProcess = some (cr3, proc) →
      event.act sys.shm proc = some act)
    (ran : onProcess operation sys = (.ok result, after)) :
    after = sys ∨ Acted sys event after := by
  rcases onProcess_eq_ok ran with ⟨-, rfl⟩ |
    ⟨cr3, proc, value, proc', machine, calling, operated, -, rfl⟩
  · exact Or.inl rfl
  · refine Or.inr (.mk calling (asked cr3 proc calling) ?_)
    rw [same]
    exact act_run operated

theorem Performed.of_acted (acted : after = sys ∨ Acted sys event after) :
    Performed sys event after := by
  rcases acted with rfl | acted
  · exact .nothing
  · exact .acted acted

theorem performed_of_bind {action : Sys α}
    (performed : ∀ value middle, action sys = (.ok value, middle) →
      Performed sys event middle)
    (ran : (do let _ ← action; pure () : Sys Unit) sys = (.ok value, after)) :
    Performed sys event after := by
  obtain ⟨value, middle, acted, rest⟩ := bind_eq_ok ran
  cases rest
  exact performed value after acted

theorem performed_onMainTask {action : Sys α}
    (performed : sys.current = 0 → ∀ value middle, action sys = (.ok value, middle) →
      Performed sys event middle)
    (ran : onMainTask action sys = (.ok value, after)) : Performed sys event after := by
  unfold onMainTask at ran
  split at ran
  · rename_i main
    exact performed_of_bind (performed main) ran
  · cases ran
    exact .nothing

theorem mmap_performed {addr len prot flags fd : Nat} {content : List (BitVec 8)}
    {value : Option (Option Nat)}
    (ran : sysMmap addr len prot flags fd content sys = (.ok value, after)) :
    Performed sys (.mmap addr len prot flags fd content) after := by
  unfold sysMmap at ran
  split at ran
  · cases ran
    exact .nothing
  rename_i positive
  dsimp only at ran
  split at ran
  · rename_i anonymous
    refine .of_acted (acted_of_onProcess (.mmap _ len _ _ none) (fun _ _ => rfl)
      (fun cr3 proc _ => ?_) ran)
    simp only [Event.act, if_neg positive, if_pos anonymous]
  rename_i named
  split at ran
  · cases ran
    exact .nothing
  rename_i cr3 proc calling
  split at ran
  · rename_i shmId cursor entry
    split at ran
    · rename_i shared
      refine .of_acted (acted_of_onProcess (.mmapShared _ sys.shm shmId _ _) (fun _ _ => rfl)
        (fun cr3' proc' other => ?_) ran)
      cases calling.symm.trans other
      simp only [Event.act, if_neg positive, if_neg named, entry, if_pos shared]
    · cases ran
      exact .nothing
  · rename_i entry
    refine .of_acted (acted_of_onProcess (.mmap _ len _ _ (some (content.take len)))
      (fun _ _ => rfl) (fun cr3' proc' other => ?_) ran)
    cases calling.symm.trans other
    simp only [Event.act, if_neg positive, if_neg named, entry]
  · cases ran
    exact .nothing

theorem recvmsg_performed {fd len maxFds : Nat}
    (ran : sysRecvmsg fd len maxFds sys = (.ok value, after)) :
    Performed sys (.recvmsg fd len maxFds) after := by
  unfold sysRecvmsg at ran
  split at ran
  · cases ran
    exact .nothing
  rename_i cr3 proc calling
  split at ran
  · rename_i id opened
    split at ran
    · cases ran
      exact .nothing
    · rename_i ready
      obtain ⟨_, middle, opening, rest⟩ := bind_eq_ok ran
      obtain ⟨_, _, got, rest⟩ := bind_eq_ok rest
      cases got
      obtain ⟨table, last, closing, rest⟩ := bind_eq_ok rest
      obtain ⟨machine, inner, rfl⟩ := onMachine_eq_ok closing
      cases rest
      change Performed sys _ { middle with machine, shm := table }
      exact .received calling opened (by simpa using ready) opening inner
  · cases ran
    exact .nothing

theorem perform_performed (ran : perform event sys = (.ok value, after)) :
    Performed sys event after := by
  cases event with
  | schedule =>
      cases ran
      exact .ticked
  | spawn elfBytes =>
      refine performed_onMainTask (fun main value middle spawned => ?_) ran
      unfold spawn at spawned
      split at spawned
      · cases spawned
        exact .nothing
      · rename_i prog accepted
        exact .launched main (.native accepted) spawned
  | spawnLinux elfBytes argv envp ticks readFile =>
      refine performed_onMainTask (fun main value middle spawned => ?_) ran
      unfold spawnLinux at spawned
      split at spawned
      · cases spawned
        exact .nothing
      rename_i prog accepted
      split at spawned
      · cases spawned
        exact .nothing
      · rename_i heapStart heap
        exact .launched main (.linux accepted heap) spawned
  | reap pid => exact performed_onMainTask (fun main _ _ reaped => .reaped main reaped) ran
  | brk addr =>
      exact performed_of_bind (fun _ _ acted => .of_acted (acted_of_onProcess (.brk addr)
        (fun _ _ => rfl) (fun _ _ _ => rfl) acted)) ran
  | mmap addr len prot flags fd content =>
      exact performed_of_bind (fun _ _ mapped => mmap_performed mapped) ran
  | munmap addr len =>
      exact performed_of_bind (fun _ _ acted => .of_acted (acted_of_onProcess (.munmap addr len)
        (fun _ _ => rfl) (fun _ _ _ => rfl) acted)) ran
  | mprotect addr len prot =>
      exact performed_of_bind (fun _ _ acted => .of_acted (acted_of_onProcess
        (.mprotect addr len _ _) (fun _ _ => rfl) (fun _ _ _ => rfl) acted)) ran
  | pageFault cr2 =>
      obtain ⟨grown, middle, acted, rest⟩ := bind_eq_ok ran
      have first : middle = sys ∨ Acted sys (.pageFault cr2) middle :=
        acted_of_onProcess (.grow cr2) (fun _ _ => rfl) (fun _ _ _ => rfl) acted
      split at rest
      · cases rest
        exact .of_acted first
      · exact .killed first rest
  | resolvePtr vaddr len =>
      simp only [perform, resolveSyscallPtr] at ran
      split at ran
      · cases ran
        exact .nothing
      rename_i cr3 proc calling
      split at ran
      · cases ran
        exact .nothing
      · rename_i translated
        refine performed_of_bind (fun _ _ acted => .of_acted (acted_of_onProcess (.grow vaddr)
          (fun _ _ => rfl) (fun cr3' proc' other => ?_) acted)) ran
        cases calling.symm.trans other
        simp only [Event.act, translated]
  | exit info => exact .exited ran
  | openFile => exact .openedFile ran
  | memfdCreate =>
      obtain ⟨_, _, got, ran⟩ := bind_eq_ok ran
      cases got
      obtain ⟨_, middle, created, ran⟩ := bind_eq_ok ran
      cases created
      exact .createdMemory ran
  | ftruncate fd len =>
      simp only [perform, sysFtruncate] at ran
      split at ran
      · cases ran
        exact .nothing
      rename_i cr3 proc calling
      split at ran
      · rename_i id cursor entry
        obtain ⟨⟨done, table⟩, middle, truncated, rest⟩ := bind_eq_ok ran
        obtain ⟨machine, inner, rfl⟩ := onMachine_eq_ok truncated
        cases rest
        exact .truncated calling entry inner
      · cases ran
        exact .nothing
  | close fd =>
      simp only [perform, sysClose] at ran
      split at ran
      · cases ran
        exact .nothing
      rename_i cr3 proc calling
      split at ran
      · cases ran
        exact .nothing
      rename_i high
      split at ran
      · cases ran
        exact .nothing
      · rename_i entry opened
        exact .closed calling high opened ran
  | socket =>
      obtain ⟨_, _, got, ran⟩ := bind_eq_ok ran
      cases got
      obtain ⟨_, middle, created, ran⟩ := bind_eq_ok ran
      cases created
      exact .createdSocket ran
  | connect fd path =>
      cases ran
      dsimp only
      split
      · exact .nothing
      · split
        · exact .connected
        · exact .nothing
  | sendmsg fd bytes fds =>
      simp only [perform, sysSendmsg] at ran
      split at ran
      · cases ran
        exact .nothing
      rename_i cr3 proc calling
      split at ran
      · obtain ⟨⟨sent, sockets, table⟩, middle, delivered, rest⟩ := bind_eq_ok ran
        obtain ⟨machine, inner, rfl⟩ := onMachine_eq_ok delivered
        cases rest
        exact .sent calling inner
      · cases ran
        exact .nothing
  | recvmsg fd len maxFds => exact recvmsg_performed ran
  | compositor act =>
      simp only [perform, onKernelTask] at ran
      split at ran
      · rename_i kernel
        exact performed_of_bind (fun _ _ acted => .composited kernel acted) ran
      · cases ran
        exact .nothing

theorem step_performed (stepped : step sys event = some after) :
    Performed sys event after := by
  unfold step at stepped
  split at stepped
  · rename_i reached ran
    cases stepped
    exact perform_performed ran
  · cases stepped

end System
end MachaOS
