/-
The running system: the task table (`src/task.rs`), process creation and
removal (`src/process.rs`), and the system calls that touch memory, shared
memory and sockets (`src/linux_abi.rs`).

Interrupts are off for the whole of a system call, a fault handler and the
spawn and reap paths of the shell, so each of them is one step.  A step is taken
by the current task: system calls and faults by a process, spawn and reap by
the main task, which is task 0.  What a program stores into its own pages
between two steps is not modelled, nor is what a system call copies into them.
-/

import MachaOS.Process.Loader
import MachaOS.Socket

namespace MachaOS

open Paging

/-- The schedulable entity: `process` is set exactly for processes. -/
structure Task where
  cr3 : Nat
  process : Option Process

/-- Fixed by the linker, the boot code and `allocator::init`. -/
structure Layout where
  kernelStart : Nat
  kernelEnd : Nat
  kernelPml4 : Nat
  heapStart : Nat
  heapEnd : Nat

structure System where
  layout : Layout
  machine : Machine
  shm : Shm.Table
  sockets : Socket.State
  compositorFds : List Nat
  tasks : List Task
  current : Nat

abbrev Sys (α : Type) : Type :=
  Fallible System Fault α

namespace Task

def isExited (task : Task) : Bool :=
  match task.process with
  | some process => process.state = .exited
  | none => false

end Task

namespace Process

/-- `alloc_fd`: the lowest free descriptor, never below `FIRST_FILE_FD`. -/
def allocFd (process : Process) (entry : FdEntry) : Process × Nat :=
  let (later, index) := Slots.insert entry (process.fds.drop firstFileFd)
  ({ process with fds := process.fds.take firstFileFd ++ later }, firstFileFd + index)

def fd (process : Process) (fd : Nat) : Option FdEntry :=
  Slots.lookup process.fds fd

end Process

namespace System

def processAt (sys : System) (index : Nat) : Option Process :=
  (sys.tasks[index]?).bind Task.process

def currentTask (sys : System) : Option Task :=
  sys.tasks[sys.current]?

/-- `with_current_process_mut` and `current_process_cr3` together. -/
def currentProcess (sys : System) : Option (Nat × Process) :=
  match sys.currentTask with
  | some { cr3, process := some process } => some (cr3, process)
  | _ => none

def setCurrentProcess (sys : System) (process : Process) : System :=
  { sys with
    tasks := sys.tasks.modify sys.current (fun task => { task with process := some process }) }

def onMachine {α : Type} (routine : Kernel α) : Sys α := fun sys =>
  match routine sys.machine with
  | (.ok value, machine) => (.ok value, { sys with machine })
  | (.error fault, machine) => (.error fault, { sys with machine })

def onProcess {α : Type} (operation : Process → Nat → Kernel (α × Process)) :
    Sys (Option α) := fun sys =>
  match sys.currentProcess with
  | none => (.ok none, sys)
  | some (cr3, process) =>
      match operation process cr3 sys.machine with
      | (.ok (value, process), machine) =>
          (.ok (some value), { sys with machine }.setCurrentProcess process)
      | (.error fault, machine) => (.error fault, { sys with machine })

def nextTask (sys : System) : Option Nat :=
  ((List.range sys.tasks.length).drop 1).map
    (fun step => (sys.current + step) % sys.tasks.length) |>.find?
    (fun candidate => (sys.tasks[candidate]?).any (fun task => !task.isExited))

def schedulerTick (sys : System) : System :=
  match sys.nextTask with
  | none => sys
  | some next =>
      match sys.tasks[next]? with
      | none => sys
      | some task =>
          { sys with current := next, machine := { sys.machine with cr3 := task.cr3 } }

/-- `free_process`: give back every frame of the list. -/
def freeProcess : List Nat → Kernel Unit
  | [] => pure ()
  | frame :: rest => do
      Machine.frameFree frame
      freeProcess rest

def newProcess (entry heapStart : Nat) (abi : Abi) : Process :=
  { entry
    userRsp := 0
    frames := []
    mappings := []
    state := .running
    exitInfo := none
    inbox := none
    fds := List.replicate Process.firstFileFd none
    stackLow := Process.userStackBase
    stackPhysBase := 0
    abi
    heapStart
    heapEnd := heapStart
    mmapNext := Process.mmapBase }

def launch (process : Process) (loader : Loader Nat) : Sys (Except String Nat) := fun sys =>
  match loader (sys.machine, process) with
  | (.ok pml4, (machine, built)) =>
      (.ok (.ok sys.tasks.length),
        { sys with machine, tasks := sys.tasks ++ [{ cr3 := pml4, process := some built }] })
  | (.error (.refused message), (machine, built)) =>
      match freeProcess built.frames machine with
      | (.ok (), machine) => (.ok (.error message), { sys with machine })
      | (.error fault, machine) => (.error fault, { sys with machine })
  | (.error (.fault fault), (machine, _)) => (.error fault, { sys with machine })

def acceptProgram (layout : Layout) (bias : Nat) (elfBytes : Elf.Bytes) : Except String Elf.Program := do
  let prog ← Elf.parse elfBytes
  let prog := Loader.applyBias bias prog
  Loader.validateSegments layout.heapStart layout.heapEnd prog.segments
  pure prog

/-- The fallible middle of `spawn`. -/
def loadNative (layout : Layout) (prog : Elf.Program) (elfBytes : Elf.Bytes) : Loader Nat := do
  let pml4 ← Loader.buildAddressSpace layout.kernelPml4
  Loader.loadSegments pml4 prog.segments elfBytes
  Loader.setupUserStack pml4
  pure pml4

def spawn (elfBytes : Elf.Bytes) : Sys (Except String Nat) := fun sys =>
  match acceptProgram sys.layout Process.pieLoadBase elfBytes with
  | .error message => (.ok (.error message), sys)
  | .ok prog =>
      launch (newProcess prog.entry 0 .native) (loadNative sys.layout prog elfBytes) sys

def heapStartOf (segments : List Elf.Segment) : Option Nat :=
  (segments.map (fun seg => alignUp (seg.vaddr + seg.memsz) + pageSize)).max?

def findInterpreter (layout : Layout) (readFile : String → Option Elf.Bytes) (path : String) :
    Except String (Elf.Bytes × Elf.Program) :=
  match readFile path with
  | none => .error "interpreter not found"
  | some bytes => do
      let parsed ← Elf.parse bytes
      let interp := Loader.applyBias Process.interpLoadBase parsed
      Loader.validateSegments layout.heapStart layout.heapEnd interp.segments
      pure (bytes, interp)

def loadInterpreter (layout : Layout) (readFile : String → Option Elf.Bytes) (pml4 : Nat)
    (prog : Elf.Program) : Loader (Nat × Nat) :=
  match prog.interp with
  | none => pure (prog.entry, 0)
  | some path =>
      match findInterpreter layout readFile path with
      | .error message => Loader.refuse message
      | .ok (bytes, interp) => do
          Loader.loadSegments pml4 interp.segments bytes
          pure (interp.entry, if interp.isPie then Process.interpLoadBase else 0)

/-- The fallible middle of `spawn_linux`. -/
def loadLinux (layout : Layout) (prog : Elf.Program) (elfBytes : Elf.Bytes)
    (argv envp : List Elf.Bytes) (ticks : Nat) (readFile : String → Option Elf.Bytes) :
    Loader Nat := do
  let pml4 ← Loader.buildAddressSpace layout.kernelPml4
  Loader.loadSegments pml4 prog.segments elfBytes
  let (entry, interpBase) ← loadInterpreter layout readFile pml4 prog
  Loader.update (fun process => { process with entry })
  let userRsp ← Loader.setupLinuxStack pml4 elfBytes prog interpBase ticks argv envp
  Loader.update (fun process => { process with userRsp })
  pure pml4

def spawnLinux (elfBytes : Elf.Bytes) (argv envp : List Elf.Bytes) (ticks : Nat)
    (readFile : String → Option Elf.Bytes) : Sys (Except String Nat) := fun sys =>
  match acceptProgram sys.layout Process.pieLoadBase elfBytes with
  | .error message => (.ok (.error message), sys)
  | .ok prog =>
      match heapStartOf prog.segments with
      | none => (.ok (.error "no loadable segments"), sys)
      | some heapStart =>
          launch (newProcess prog.entry heapStart .linux)
            (loadLinux sys.layout prog elfBytes argv envp ticks readFile) sys

def dropFd : FdEntry → Sys Unit
  | .file => pure ()
  | .shm id _ => do
      let sys ← Fallible.get
      let shm ← onMachine (Shm.close sys.shm id)
      Fallible.modify (fun sys => { sys with shm })
  | .socket id => do
      let sys ← Fallible.get
      let (sockets, shm) ← onMachine (Socket.close sys.sockets sys.shm id)
      Fallible.modify (fun sys => { sys with sockets, shm })

def dropFds : List (Option FdEntry) → Sys Unit
  | [] => pure ()
  | none :: rest => dropFds rest
  | some entry :: rest => do
      dropFd entry
      dropFds rest

/-- `tasks.swap_remove(pid)` -/
def swapRemove (tasks : List Task) (pid : Nat) : List Task :=
  match tasks.getLast? with
  | none => tasks
  | some last => (tasks.set pid last).dropLast

def removeProcess (sys : System) (pid : Nat) : Option Process × System :=
  match sys.tasks[pid]? with
  | none => (none, sys)
  | some task =>
      if sys.current = pid then (none, sys)
      else
        let tasks := swapRemove sys.tasks pid
        let current :=
          if sys.current = tasks.length then pid
          else if pid < sys.current then sys.current - 1
          else sys.current
        (task.process, { sys with tasks, current })

def reap (pid : Nat) : Sys Unit := fun sys =>
  match sys.removeProcess pid with
  | (none, after) => (.ok (), after)
  | (some process, after) =>
      (do
        onMachine (freeProcess process.frames)
        dropFds process.fds) after

def mapShared : Nat := 0x01
def mapFixed : Nat := 0x10
def mapAnonymous : Nat := 0x20
def protWrite : Nat := 2
def protExec : Nat := 4

/-- `flags & bit != 0` for a single bit. -/
def hasBit (flags bit : Nat) : Bool :=
  flags / bit % 2 = 1

def sysBrk (addr : Nat) : Sys (Option Nat) :=
  onProcess (fun process pml4 => process.brk pml4 addr)

/-- `sys_mmap`; `content` is what the file handle behind `fd` reads at the offset. -/
def sysMmap (addr len prot flags fd : Nat) (content : List (BitVec 8)) :
    Sys (Option (Option Nat)) := fun sys =>
  if len = 0 then (.ok none, sys)
  else
    let at' := if hasBit flags mapFixed then some addr else none
    let writable := hasBit prot protWrite
    let executable := hasBit prot protExec
    if hasBit flags mapAnonymous || decide (fd ≥ 2 ^ 63) then
      onProcess (fun process pml4 => process.mmapAnon pml4 at' len writable executable) sys
    else
      match sys.currentProcess with
      | none => (.ok none, sys)
      | some (_, process) =>
          match process.fd fd with
          | some (.shm shmId _) =>
              if hasBit flags mapShared then
                onProcess (fun process pml4 =>
                  process.mmapShared pml4 at' sys.shm shmId writable executable) sys
              else (.ok none, sys)
          | some .file =>
              onProcess (fun process pml4 =>
                process.mmapFile pml4 at' len writable executable (content.take len)) sys
          | _ => (.ok none, sys)

def sysMunmap (addr len : Nat) : Sys (Option Bool) :=
  onProcess (fun process pml4 => process.munmap pml4 addr len)

def sysMprotect (addr len prot : Nat) : Sys (Option Bool) :=
  onProcess (fun process pml4 =>
    process.mprotect pml4 addr len (hasBit prot protWrite) (hasBit prot protExec))

def openFd (entry : FdEntry) : Sys Unit :=
  Fallible.modify (fun sys =>
    match sys.currentProcess with
    | none => sys
    | some (_, process) => sys.setCurrentProcess (process.allocFd entry).1)

def sysMemfdCreate : Sys Unit := do
  let sys ← Fallible.get
  let (shm, id) := Shm.create sys.shm
  Fallible.modify (fun sys => { sys with shm })
  openFd (.shm id 0)

def sysFtruncate (fd len : Nat) : Sys Unit := fun sys =>
  match sys.currentProcess with
  | none => (.ok (), sys)
  | some (_, process) =>
      match process.fd fd with
      | some (.shm id _) =>
          (do
            let (_, shm) ← onMachine (Shm.truncate sys.shm id len)
            Fallible.modify (fun sys => { sys with shm })) sys
      | _ => (.ok (), sys)

/-- `openat` of a regular file: a descriptor whose contents are not modelled. -/
def sysOpenFile : Sys Unit :=
  openFd .file

def sysClose (fd : Nat) : Sys Unit := fun sys =>
  match sys.currentProcess with
  | none => (.ok (), sys)
  | some (_, process) =>
      if fd < Process.firstFileFd then (.ok (), sys)
      else
        match process.fd fd with
        | none => (.ok (), sys)
        | some entry =>
            dropFd entry
              (sys.setCurrentProcess { process with fds := Slots.clear process.fds fd })

def sysSocket : Sys Unit := do
  let sys ← Fallible.get
  let (sockets, id) := Socket.create sys.sockets
  Fallible.modify (fun sys => { sys with sockets })
  openFd (.socket id)

def sysConnect (fd : Nat) (path : String) : Sys Unit :=
  Fallible.modify (fun sys =>
    match sys.currentProcess with
    | none => sys
    | some (_, process) =>
        match process.fd fd with
        | some (.socket id) => { sys with sockets := (Socket.connect sys.sockets id path).2 }
        | _ => sys)

/-- The shared-memory ids behind the descriptors a message carries. -/
def passedIds (process : Process) (fds : List Nat) : List Nat :=
  fds.filterMap (fun fd =>
    match process.fd fd with
    | some (.shm id _) => some id
    | _ => none)

/-- `sys_sendmsg` with the payload and the descriptors of its message. -/
def sysSendmsg (fd : Nat) (bytes : List (BitVec 8)) (fds : List Nat) : Sys Unit := fun sys =>
  match sys.currentProcess with
  | none => (.ok (), sys)
  | some (_, process) =>
      match process.fd fd with
      | some (.socket id) =>
          (do
            let (_, sockets, shm) ←
              onMachine (Socket.send sys.sockets sys.shm id bytes (passedIds process fds))
            Fallible.modify (fun sys => { sys with sockets, shm })) sys
      | _ => (.ok (), sys)

def openShmFds : List Nat → Sys Unit
  | [] => pure ()
  | id :: rest => do
      openFd (.shm id 0)
      openShmFds rest

/-- `sys_recvmsg` with room for `len` bytes and `maxFds` descriptors. -/
def sysRecvmsg (fd len maxFds : Nat) : Sys Unit := fun sys =>
  match sys.currentProcess with
  | none => (.ok (), sys)
  | some (_, process) =>
      match process.fd fd with
      | some (.socket id) =>
          if !Socket.hasData sys.sockets id then (.ok (), sys)
          else
            let ((_, received), sockets) := Socket.recv sys.sockets id len
            (do
              openShmFds (received.take maxFds)
              let sys ← Fallible.get
              let shm ← onMachine (Socket.closeAll sys.shm (received.drop maxFds))
              Fallible.modify (fun sys => { sys with shm })) { sys with sockets }
      | _ => (.ok (), sys)

/-- `mark_current_exited` -/
def markCurrentExited (info : ExitInfo) : Sys Unit :=
  Fallible.modify (fun sys =>
    match sys.currentProcess with
    | none => sys
    | some (_, process) => sys.setCurrentProcess (process.markExited info))

def pageFault (cr2 : Nat) : Sys Unit := do
  let grown ← onProcess (fun process pml4 => process.tryGrowStack pml4 cr2)
  if grown = some true then pure () else markCurrentExited (.pageFault cr2)

/-- `resolve_syscall_ptr` in the current process: a pointer below the stack floor grows
the stack. -/
def resolveSyscallPtr (vaddr len : Nat) : Sys Unit := fun sys =>
  match sys.currentProcess with
  | none => (.ok (), sys)
  | some (_, process) =>
      match process.translateLocal vaddr len with
      | some _ => (.ok (), sys)
      | none =>
          (do
            let _ ← onProcess (fun process pml4 => process.tryGrowStack pml4 vaddr)
            pure ()) sys

/-- What `wayland.rs` does with sockets and received descriptors. -/
inductive CompositorAct where
  | create
  | bind (id : Nat) (path : String)
  | listen (id : Nat)
  | accept (id : Nat)
  | recv (id len : Nat)
  | send (id : Nat) (bytes : List (BitVec 8))
  | release (id : Nat)
  | close (id : Nat)

def compositor : CompositorAct → Sys Unit
  | .create =>
      Fallible.modify (fun sys =>
        { sys with sockets := (Socket.create sys.sockets).1 })
  | .bind id path =>
      Fallible.modify (fun sys =>
        { sys with sockets := (Socket.bind sys.sockets id path).2 })
  | .listen id =>
      Fallible.modify (fun sys =>
        { sys with sockets := (Socket.listen sys.sockets id).2 })
  | .accept id =>
      Fallible.modify (fun sys =>
        { sys with sockets := (Socket.accept sys.sockets id).2 })
  | .recv id len =>
      Fallible.modify (fun sys =>
        { sys with
          sockets := (Socket.recv sys.sockets id len).2
          compositorFds := sys.compositorFds ++ (Socket.recv sys.sockets id len).1.2 })
  | .send id bytes => do
      let sys ← Fallible.get
      let (_, sockets, shm) ← onMachine (Socket.send sys.sockets sys.shm id bytes [])
      Fallible.modify (fun sys => { sys with sockets, shm })
  | .release id => do
      let sys ← Fallible.get
      if id ∈ sys.compositorFds then do
        let shm ← onMachine (Shm.close sys.shm id)
        Fallible.modify (fun sys =>
          { sys with shm, compositorFds := sys.compositorFds.erase id })
      else pure ()
  | .close id => do
      let sys ← Fallible.get
      let (sockets, shm) ← onMachine (Socket.close sys.sockets sys.shm id)
      Fallible.modify (fun sys => { sys with sockets, shm })

inductive Event where
  | schedule
  | spawn (elfBytes : Elf.Bytes)
  | spawnLinux (elfBytes : Elf.Bytes) (argv envp : List Elf.Bytes) (ticks : Nat)
      (readFile : String → Option Elf.Bytes)
  | reap (pid : Nat)
  | brk (addr : Nat)
  | mmap (addr len prot flags fd : Nat) (content : List (BitVec 8))
  | munmap (addr len : Nat)
  | mprotect (addr len prot : Nat)
  | pageFault (cr2 : Nat)
  | resolvePtr (vaddr len : Nat)
  | exit (info : ExitInfo)
  | openFile
  | memfdCreate
  | ftruncate (fd len : Nat)
  | close (fd : Nat)
  | socket
  | connect (fd : Nat) (path : String)
  | sendmsg (fd : Nat) (bytes : List (BitVec 8)) (fds : List Nat)
  | recvmsg (fd len maxFds : Nat)
  | compositor (act : CompositorAct)

def onMainTask {α : Type} (action : Sys α) : Sys Unit := fun sys =>
  if sys.current = 0 then (do let _ ← action; pure ()) sys else (.ok (), sys)

def onKernelTask {α : Type} (action : Sys α) : Sys Unit := fun sys =>
  if sys.currentProcess.isNone then (do let _ ← action; pure ()) sys
  else (.ok (), sys)

def perform : Event → Sys Unit
  | .schedule => Fallible.modify schedulerTick
  | .spawn elfBytes => onMainTask (spawn elfBytes)
  | .spawnLinux elfBytes argv envp ticks readFile =>
      onMainTask (spawnLinux elfBytes argv envp ticks readFile)
  | .reap pid => onMainTask (reap pid)
  | .brk addr => do let _ ← sysBrk addr; pure ()
  | .mmap addr len prot flags fd content => do
      let _ ← sysMmap addr len prot flags fd content
      pure ()
  | .munmap addr len => do let _ ← sysMunmap addr len; pure ()
  | .mprotect addr len prot => do let _ ← sysMprotect addr len prot; pure ()
  | .pageFault cr2 => pageFault cr2
  | .resolvePtr vaddr len => resolveSyscallPtr vaddr len
  | .exit info => markCurrentExited info
  | .openFile => sysOpenFile
  | .memfdCreate => sysMemfdCreate
  | .ftruncate fd len => sysFtruncate fd len
  | .close fd => sysClose fd
  | .socket => sysSocket
  | .connect fd path => sysConnect fd path
  | .sendmsg fd bytes fds => sysSendmsg fd bytes fds
  | .recvmsg fd len maxFds => sysRecvmsg fd len maxFds
  | .compositor act => onKernelTask (compositor act)

def step (sys : System) (event : Event) : Option System :=
  match perform event sys with
  | (.ok (), after) => some after
  | (.error _, _) => none

end System
end MachaOS
