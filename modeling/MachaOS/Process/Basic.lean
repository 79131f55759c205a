/-
Processes (`src/process.rs`): the record, and the memory operations a process
performs on itself.

The operations run under the process's own CR3, from a system call or a page
fault.  Growing lists (`frames`, `mappings`) are Lean lists; 64-bit
addresses are naturals, with the wrap-around of a release build written out
where a request can reach it.
-/

import MachaOS.Paging.Map
import MachaOS.Shm

namespace MachaOS

open Paging

/-- One mapped chunk `[vaddr, vaddr + len)` backed by the frames from `phys` on. -/
structure Mapping where
  vaddr : Nat
  phys : Nat
  len : Nat
  /-- Set for a `MAP_SHARED` mapping, whose frames belong to the object. -/
  shmId : Option Nat
deriving DecidableEq

inductive FdEntry where
  | file
  | shm (id cursor : Nat)
  | socket (id : Nat)
deriving DecidableEq

inductive ExitInfo where
  | normal
  | pageFault (cr2 : Nat)
  | exception (vector : Nat)
deriving DecidableEq

inductive ProcessState where
  | running
  | exited
deriving DecidableEq

inductive Abi where
  | native
  | linux
deriving DecidableEq

structure Process where
  entry : Nat
  userRsp : Nat
  frames : List Nat
  mappings : List Mapping
  state : ProcessState
  exitInfo : Option ExitInfo
  inbox : Option (List (BitVec 8))
  fds : List (Option FdEntry)
  stackLow : Nat
  stackPhysBase : Nat
  abi : Abi
  heapStart : Nat
  heapEnd : Nat
  mmapNext : Nat

namespace Process

def firstFileFd : Nat := 3
def minSegmentVaddr : Nat := 2 * 1024 * 1024
def pieLoadBase : Nat := 0x20000000
def interpLoadBase : Nat := 0x38000000
def userStackTop : Nat := 0x10000000
def userStackPages : Nat := 8
def userStackBase : Nat := userStackTop - userStackPages * pageSize
def userStackMaxPages : Nat := 256
def userStackLowLimit : Nat := userStackTop - userStackMaxPages * pageSize
def userExitStubVirt : Nat := userStackTop
def mmapBase : Nat := 0x40000000
def mmapCeiling : Nat := 0xC0000000

def dataFlags : BitVec 64 :=
  pagePresent ||| pageWritable ||| pageUser ||| pageNx

/-- Flags of an `mmap` or `mprotect` request. -/
def protFlags (writable executable : Bool) : BitVec 64 :=
  let flags := pagePresent ||| pageUser
  let flags := if writable then flags ||| pageWritable else flags
  if executable then flags else flags ||| pageNx

def markExited (process : Process) (info : ExitInfo) : Process :=
  if process.state = .running then { process with state := .exited, exitInfo := some info }
  else process

def stackPhysFor (process : Process) (vaddr : Nat) : Nat :=
  process.stackPhysBase + (vaddr - userStackLowLimit)

def tryGrowStack (process : Process) (pml4 faultAddr : Nat) : Kernel (Bool × Process) :=
  if faultAddr ≥ process.stackLow ∨ faultAddr < userStackLowLimit then pure (false, process)
  else do
    let newLow := alignDown faultAddr
    let growLen := process.stackLow - newLow
    let phys := process.stackPhysFor newLow
    let (mapped, frames) ← mapRangeIn pml4 newLow phys growLen dataFlags process.frames
    if mapped then pure (true, { process with frames, stackLow := newLow })
    else pure (false, { process with frames })

def translateLocal (process : Process) (vaddr len : Nat) : Option Nat :=
  if vaddr + len ≥ wordLimit then none
  else
    (process.mappings.find? (fun m => decide (m.vaddr ≤ vaddr ∧ vaddr + len ≤ m.vaddr + m.len))).map
      (fun m => m.phys + (vaddr - m.vaddr))

def brk (process : Process) (pml4 requested : Nat) : Kernel (Nat × Process) :=
  if requested < process.heapStart then pure (process.heapEnd, process)
  else
    let oldMapped := alignUp (max process.heapEnd process.heapStart - process.heapStart)
    let newMapped := alignUp (requested - process.heapStart)
    if newMapped > oldMapped then do
      let growLen := newMapped - oldMapped
      let pages := growLen / pageSize
      match ← Machine.allocContiguous pages with
      | none => pure (process.heapEnd, process)
      | some phys => do
          let frames := process.frames ++ Pmm.frameRun phys pages
          Machine.zeroBytes phys growLen
          let mapAt := process.heapStart + oldMapped
          let (mapped, frames) ← mapRangeIn pml4 mapAt phys growLen dataFlags frames
          if mapped then
            pure (requested,
              { process with
                frames
                mappings := process.mappings ++
                  [{ vaddr := mapAt, phys, len := growLen, shmId := none }]
                heapEnd := requested })
          else pure (process.heapEnd, { process with frames })
    else pure (requested, { process with heapEnd := requested })

/-- Where a request of `len` bytes goes: `MAP_FIXED` at the page of its address, otherwise
at the next free address of the arena. -/
def mmapAddress (process : Process) (at' : Option Nat) (len : Nat) : Option Nat :=
  match at' with
  | some address => some (alignDown address)
  | none => if process.mmapNext + len > mmapCeiling then none else some process.mmapNext

/-- Record a mapping that succeeded; a request without `MAP_FIXED` moves the arena. -/
def addMapping (process : Process) (at' : Option Nat) (mapping : Mapping) : Process :=
  { process with
    mappings := process.mappings ++ [mapping]
    mmapNext := if at'.isNone then mapping.vaddr + mapping.len else process.mmapNext }

def mmapWithContent (process : Process) (pml4 : Nat) (at' : Option Nat) (len : Nat)
    (writable executable : Bool) (content : Option (List (BitVec 8))) :
    Kernel (Option Nat × Process) :=
  let len := alignUp (max len 1)
  match process.mmapAddress at' len with
  | none => pure (none, process)
  | some addr => do
      let pages := len / pageSize
      match ← Machine.allocContiguous pages with
      | none => pure (none, process)
      | some phys => do
          let frames := process.frames ++ Pmm.frameRun phys pages
          Machine.zeroBytes phys len
          Machine.copyBytes phys ((content.getD []).take len)
          let (mapped, frames) ←
            mapRangeIn pml4 addr phys len (protFlags writable executable) frames
          if mapped then
            pure (some addr,
              { process with frames }.addMapping at'
                { vaddr := addr, phys, len, shmId := none })
          else pure (none, { process with frames })

def mmapAnon (process : Process) (pml4 : Nat) (at' : Option Nat) (len : Nat)
    (writable executable : Bool) : Kernel (Option Nat × Process) :=
  process.mmapWithContent pml4 at' len writable executable none

def mmapFile (process : Process) (pml4 : Nat) (at' : Option Nat) (len : Nat)
    (writable executable : Bool) (content : List (BitVec 8)) : Kernel (Option Nat × Process) :=
  process.mmapWithContent pml4 at' len writable executable (some content)

def mmapShared (process : Process) (pml4 : Nat) (at' : Option Nat) (table : Shm.Table)
    (shmId : Nat) (writable executable : Bool) : Kernel (Option Nat × Process) :=
  match Shm.physOf table shmId, Shm.pagesOf table shmId with
  | some phys, some pages =>
      let len := pages * pageSize
      if len = 0 then pure (none, process)
      else
        match process.mmapAddress at' len with
        | none => pure (none, process)
        | some addr => do
            let (mapped, frames) ←
              mapRangeIn pml4 addr phys len (protFlags writable executable) process.frames
            if mapped then
              pure (some addr,
                { process with frames }.addMapping at'
                  { vaddr := addr, phys, len, shmId := some shmId })
            else pure (none, { process with frames })
  | _, _ => pure (none, process)

def releaseMapping (mapping : Mapping) (frames : List Nat) : Kernel (List Nat) :=
  if mapping.shmId.isNone then do
    Machine.freeFrames mapping.phys (mapping.len / pageSize)
    pure (frames.filter
      (fun frame => decide (frame < mapping.phys ∨ frame ≥ mapping.phys + mapping.len)))
  else pure frames

/-- The loop of `munmap` over the mappings not looked at yet. -/
def munmapLoop (pml4 start stop : Nat) :
    List Mapping → List Nat → Kernel (List Mapping × List Nat)
  | [], frames => pure ([], frames)
  | mapping :: rest, frames =>
      if mapping.vaddr ≥ start ∧ mapping.vaddr + mapping.len ≤ stop then do
        let _ ← unmapRangeIn pml4 mapping.vaddr mapping.len
        let frames ← releaseMapping mapping frames
        munmapLoop pml4 start stop rest frames
      else do
        let (kept, frames) ← munmapLoop pml4 start stop rest frames
        pure (mapping :: kept, frames)

def munmap (process : Process) (pml4 addr len : Nat) : Kernel (Bool × Process) := do
  let len := alignUp (max len 1)
  let start := alignDown addr
  let stop := (start + len) % wordLimit
  let (mappings, frames) ← munmapLoop pml4 start stop process.mappings process.frames
  pure (true, { process with mappings, frames })

/-- The body of `mprotect`'s loop: map the page again at the frame the bookkeeping has
for it. -/
def protectPage (process : Process) (pml4 virt : Nat) (flags : BitVec 64) (frames : List Nat) :
    Kernel (Bool × List Nat) :=
  match process.translateLocal virt pageSize with
  | none => pure (false, frames)
  | some phys => mapRangeIn pml4 virt phys pageSize flags frames

/-- The loop of `mprotect` over the pages still to be changed. -/
def mprotectPages (process : Process) (pml4 : Nat) (flags : BitVec 64) :
    Nat → Nat → List Nat → Kernel (Bool × List Nat)
  | 0, _, frames => pure (true, frames)
  | left + 1, virt, frames => do
      let (mapped, frames) ← process.protectPage pml4 virt flags frames
      if mapped then mprotectPages process pml4 flags left (virt + pageSize) frames
      else pure (false, frames)

def mprotect (process : Process) (pml4 addr len : Nat) (writable executable : Bool) :
    Kernel (Bool × Process) := do
  let len := alignUp (max len 1)
  let start := alignDown addr
  let stop := (start + len) % wordLimit
  let (changed, frames) ← mprotectPages process pml4 (protFlags writable executable)
    ((stop - start) / pageSize) start process.frames
  pure (changed, { process with frames })

end Process
end MachaOS
