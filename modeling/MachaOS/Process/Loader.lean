/-
Creating a process (`src/process.rs`): the private address space, the ELF
segments, and the two initial stacks.

These routines run in kernel context and thread the process under construction.
A `?` in the source returns early with what was done so far still in place, so
they are `Fallible` over the machine and the process together; the caller frees
the half-built process.
-/

import MachaOS.Elf
import MachaOS.Process.Basic

namespace MachaOS

open Paging

inductive Stop where
  | fault (fault : Fault)
  | refused (message : String)

abbrev Loader (α : Type) : Type :=
  Fallible (Machine × Process) Stop α

namespace Loader

def onMachine {α : Type} (routine : Kernel α) : Loader α := fun state =>
  match routine state.1 with
  | (.ok value, machine) => (.ok value, (machine, state.2))
  | (.error fault, machine) => (.error (.fault fault), (machine, state.2))

def refuse {α : Type} (message : String) : Loader α :=
  Fallible.fail (.refused message)

def process : Loader Process := fun state => (.ok state.2, state)

def update (change : Process → Process) : Loader Unit :=
  Fallible.modify (fun state => (state.1, change state.2))

/-- `process.frames.push(frame)` for every frame of the list. -/
def own (frames : List Nat) : Loader Unit :=
  update (fun process => { process with frames := process.frames ++ frames })

/-- `map_range_in(.., &mut process.frames)` -/
def mapRange (pml4 virt phys len : Nat) (flags : BitVec 64) : Loader Bool := do
  let current ← process
  let (mapped, frames) ← onMachine (mapRangeIn pml4 virt phys len flags current.frames)
  update (fun process => { process with frames })
  pure mapped

/-- `if !map_range_in(..) { return Err(message) }` -/
def mapOrRefuse (pml4 virt phys len : Nat) (flags : BitVec 64) (message : String) :
    Loader Unit := do
  let mapped ← mapRange pml4 virt phys len flags
  if mapped then pure () else refuse message

/-- `alloc_frame`: a fresh, zeroed frame, recorded in the process. -/
def allocFrame : Loader Nat := do
  match ← onMachine Machine.frameAlloc with
  | none => refuse "out of memory"
  | some frame => do
      onMachine (Machine.zeroBytes frame Pmm.frameSize)
      own [frame]
      pure frame

/-- `alloc_contiguous(pages).ok_or("out of memory")?` and the pushes that follow it. -/
def allocBlock (pages : Nat) : Loader Nat := do
  match ← onMachine (Machine.allocContiguous pages) with
  | none => refuse "out of memory"
  | some phys => do
      own (Pmm.frameRun phys pages)
      pure phys

/-- `copy_nonoverlapping(source, target, 512)` on `u64`s, from `index` on. -/
def copyWords (source target index : Nat) : Nat → Kernel Unit
  | 0 => pure ()
  | left + 1 => do
      let word ← Machine.loadU64 (source + 8 * index)
      Machine.storeU64 (target + 8 * index) word
      copyWords source target (index + 1) left

def entryBase (entry : BitVec 64) : Nat :=
  (entry &&& ~~~0xFFF#64).toNat

/-- The inner loop of `build_address_space` over one directory. -/
def copyDirectory (kernelPd pd index : Nat) : Nat → Loader Unit
  | 0 => pure ()
  | left + 1 => do
      let pde ← onMachine (Machine.loadU64 (kernelPd + 8 * index))
      if pde &&& pagePresent = 0#64 then copyDirectory kernelPd pd (index + 1) left
      else if pde &&& psBit ≠ 0#64 then do
        onMachine (Machine.storeU64 (pd + 8 * index) pde)
        copyDirectory kernelPd pd (index + 1) left
      else do
        let pt ← allocFrame
        onMachine (copyWords (entryBase pde) pt 0 512)
        onMachine (Machine.storeU64 (pd + 8 * index) (BitVec.ofNat 64 pt ||| (pde &&& 0xFFF#64)))
        copyDirectory kernelPd pd (index + 1) left

/-- The outer loop of `build_address_space` over the PDPT. -/
def copyDirectories (kernelPdpt pdpt index : Nat) : Nat → Loader Unit
  | 0 => pure ()
  | left + 1 => do
      let entry ← onMachine (Machine.loadU64 (kernelPdpt + 8 * index))
      if entry &&& pagePresent = 0#64 then copyDirectories kernelPdpt pdpt (index + 1) left
      else if entry &&& psBit ≠ 0#64 then refuse "unexpected 1 GiB page in boot map"
      else do
        let pd ← allocFrame
        copyDirectory (entryBase entry) pd 0 512
        onMachine (Machine.storeU64 (pdpt + 8 * index)
          (BitVec.ofNat 64 pd ||| (entry &&& 0xFFF#64)))
        copyDirectories kernelPdpt pdpt (index + 1) left

def buildAddressSpace (kernelPml4 : Nat) : Loader Nat := do
  let pml4 ← allocFrame
  let pdpt ← allocFrame
  onMachine (copyWords kernelPml4 pml4 0 512)
  onMachine (Machine.storeU64 (pml4 + 8 * 0)
    (BitVec.ofNat 64 pdpt ||| pagePresent ||| pageWritable))
  let top ← onMachine (Machine.loadU64 (kernelPml4 + 8 * 0))
  copyDirectories (entryBase top) pdpt 0 512
  pure pml4

def segmentFlags (segments : List Elf.Segment) (pageVaddr : Nat) : BitVec 64 :=
  let touches (seg : Elf.Segment) : Bool :=
    decide (seg.vaddr < pageVaddr + pageSize ∧ seg.vaddr + seg.memsz > pageVaddr)
  let flags := pagePresent ||| pageUser
  let flags :=
    if segments.any (fun seg => seg.writable && touches seg) then
      flags ||| pageWritable
    else flags
  if segments.any (fun seg => seg.executable && touches seg) then flags
  else flags ||| pageNx

def pagesFrom (virt : Nat) : Nat → List Nat
  | 0 => []
  | count + 1 => virt :: pagesFrom (virt + pageSize) count

/-- `for i in 0..pages { map_range_in(page i) }`, the pages backed by consecutive frames. -/
def mapSegmentPages (pml4 : Nat) (segments : List Elf.Segment) : List Nat → Nat → Loader Unit
  | [], _ => pure ()
  | virt :: rest, phys => do
      mapOrRefuse pml4 virt phys pageSize (segmentFlags segments virt) "failed to map segment"
      mapSegmentPages pml4 segments rest (phys + Pmm.frameSize)

def copySegments (phys overallStart : Nat) (data : Elf.Bytes) : List Elf.Segment → Kernel Unit
  | [] => pure ()
  | seg :: rest => do
      if seg.filesz = 0 then copySegments phys overallStart data rest
      else do
        Machine.copyBytes (phys + (seg.vaddr - overallStart))
          ((data.drop seg.fileOffset).take seg.filesz)
        copySegments phys overallStart data rest

def segmentStart (segments : List Elf.Segment) : Option Nat :=
  (segments.map (fun seg => alignDown seg.vaddr)).min?

def segmentEnd (segments : List Elf.Segment) : Option Nat :=
  (segments.map (fun seg => alignUp (seg.vaddr + seg.memsz))).max?

def loadSegments (pml4 : Nat) (segments : List Elf.Segment) (data : Elf.Bytes) : Loader Unit :=
  match segmentStart segments, segmentEnd segments with
  | some overallStart, some overallEnd => do
      let len := overallEnd - overallStart
      let pages := len / pageSize
      let phys ← allocBlock pages
      mapSegmentPages pml4 segments (pagesFrom overallStart pages) phys
      onMachine (Machine.zeroBytes phys len)
      onMachine (copySegments phys overallStart data segments)
      update (fun process =>
        { process with
          mappings := process.mappings ++ [{ vaddr := overallStart, phys, len, shmId := none }] })
  | _, _ => pure ()

def validateSegment (heapStart heapEnd : Nat) (seg : Elf.Segment) : Except String Unit :=
  let start := seg.vaddr
  let stop := start + seg.memsz
  if stop ≥ wordLimit then .error "segment range overflow"
  else if stop ≤ start then .error "empty segment"
  else if start < Process.minSegmentVaddr then .error "segment below 2 MiB"
  else if start < heapEnd + 1024 * 1024 ∧ stop > heapStart - 1024 * 1024 then
    .error "segment overlaps kernel heap"
  else if stop > identityMapEnd then .error "segment beyond 4 GiB"
  else if start < Process.userExitStubVirt + pageSize ∧ stop > Process.userStackLowLimit then
    .error "segment overlaps the reserved process stack region"
  else .ok ()

def validateSegments (heapStart heapEnd : Nat) : List Elf.Segment → Except String Unit
  | [] => .ok ()
  | seg :: rest => do
      validateSegment heapStart heapEnd seg
      validateSegments heapStart heapEnd rest

def applyBias (bias : Nat) (prog : Elf.Program) : Elf.Program :=
  if prog.isPie then
    { prog with
      entry := (prog.entry + bias) % wordLimit
      segments := prog.segments.map
        (fun seg => { seg with vaddr := (seg.vaddr + bias) % wordLimit }) }
  else prog

def initStackBacking : Loader Unit := do
  let phys ← allocBlock Process.userStackMaxPages
  onMachine (Machine.zeroBytes phys (Process.userStackMaxPages * Pmm.frameSize))
  update (fun process =>
    { process with
      stackPhysBase := phys
      mappings := process.mappings ++
        [{ vaddr := Process.userStackLowLimit
           phys
           len := Process.userStackMaxPages * pageSize
           shmId := none }] })

def toLeBytes (value : Nat) : Elf.Bytes :=
  (List.range 8).map (fun index => BitVec.ofNat 8 (value / 256 ^ index))

/-- `mov eax, SYS_EXIT; syscall; jmp $`, with `SYS_EXIT` = 1. -/
def exitStub : Elf.Bytes :=
  [0xB8#8, 1#8, 0#8, 0#8, 0#8, 0x0F#8, 0x05#8, 0xEB#8, 0xFE#8]

def setupUserStack (pml4 : Nat) : Loader Unit := do
  initStackBacking
  let built ← process
  let stackLen := Process.userStackPages * pageSize
  let stackPhys := built.stackPhysFor Process.userStackBase
  mapOrRefuse pml4 Process.userStackBase stackPhys stackLen Process.dataFlags
    "failed to map user stack"
  let stubPhys ← allocFrame
  onMachine (Machine.copyBytes stubPhys exitStub)
  mapOrRefuse pml4 Process.userExitStubVirt stubPhys pageSize (pagePresent ||| pageUser)
    "failed to map exit trampoline"
  let initialRsp := Process.userStackTop - 8
  update (fun process =>
    { process with
      mappings := process.mappings ++
        [{ vaddr := Process.userExitStubVirt, phys := stubPhys, len := pageSize,
           shmId := none }] })
  onMachine (Machine.copyBytes (stackPhys + (initialRsp - Process.userStackBase))
    (toLeBytes Process.userExitStubVirt))
  update (fun process => { process with userRsp := initialRsp })

/-- Append NUL-terminated copies of the strings, with the offset of each. -/
def pushStrings : List Elf.Bytes → Elf.Bytes → Elf.Bytes × List Nat
  | [], data => (data, [])
  | text :: rest, data =>
      let (after, offsets) := pushStrings rest (data ++ text ++ [0#8])
      (after, data.length :: offsets)

def phdrInSegment (prog : Elf.Program) : Option Nat :=
  (prog.segments.find? (fun seg =>
    decide (seg.fileOffset ≤ prog.phoff ∧ prog.phoff + prog.phentsize * prog.phnum ≤
        seg.fileOffset + seg.filesz))).map
    (fun seg => seg.vaddr + (prog.phoff - seg.fileOffset))

def randomBytes (ticks entry : Nat) : Elf.Bytes :=
  let seed := BitVec.ofNat 64 ticks ^^^ BitVec.ofNat 64 entry
  (List.range 16).map (fun index =>
    ((seed * 0x9E3779B97F4A7C15#64 + BitVec.ofNat 64 index) >>> 33).truncate 8)

/-- What the first pass of `setup_linux_stack` serializes, with the offset of each item. -/
structure StackData where
  bytes : Elf.Bytes
  argvOffsets : List Nat
  envpOffsets : List Nat
  phdrOff : Option Nat
  randomOff : Nat

def serializeStackData (elfBytes : Elf.Bytes) (prog : Elf.Program) (ticks : Nat)
    (argv envp : List Elf.Bytes) : Except String StackData :=
  let (strings, argvOffsets) := pushStrings argv []
  let (strings, envpOffsets) := pushStrings envp strings
  match phdrInSegment prog with
  | some _ =>
      .ok
        { bytes := strings ++ randomBytes ticks prog.entry
          argvOffsets
          envpOffsets
          phdrOff := none
          randomOff := strings.length }
  | none =>
      match Elf.slice elfBytes prog.phoff (prog.phentsize * prog.phnum) with
      | none => .error "program header table outside file"
      | some headers =>
          .ok
            { bytes := strings ++ headers ++ randomBytes ticks prog.entry
              argvOffsets
              envpOffsets
              phdrOff := some strings.length
              randomOff := (strings ++ headers).length }

def auxv (prog : Elf.Program) (atBase phdr random : Nat) (execfn : Option Nat) :
    List (Nat × Nat) :=
  [(4, prog.phentsize), (5, prog.phnum), (6, pageSize), (7, atBase), (8, 0),
    (9, prog.entry), (11, 0), (12, 0), (13, 0), (14, 0), (16, 0), (26, 0), (17, 100), (23, 0),
    (3, phdr), (25, random)] ++
  (execfn.map (fun addr => (31, addr))).toList ++ [(0, 0)]

def pointerTable (prog : Elf.Program) (atBase argc dataVaddr : Nat) (data : StackData) :
    Elf.Bytes :=
  let phdr :=
    match data.phdrOff with
    | some offset => dataVaddr + offset
    | none => (phdrInSegment prog).getD 0
  let pairs := auxv prog atBase phdr (dataVaddr + data.randomOff)
    (data.argvOffsets.head?.map (fun offset => dataVaddr + offset))
  toLeBytes argc ++
    data.argvOffsets.flatMap (fun offset => toLeBytes (dataVaddr + offset)) ++ toLeBytes 0 ++
    data.envpOffsets.flatMap (fun offset => toLeBytes (dataVaddr + offset)) ++ toLeBytes 0 ++
    pairs.flatMap (fun pair => toLeBytes pair.1 ++ toLeBytes pair.2)

/-- The initial stack of a Linux process: the pointer table at `finalRsp`, the data it
points into right above it. -/
structure StackLayout where
  finalRsp : Nat
  table : Elf.Bytes
  data : Elf.Bytes
  dataVaddr : Nat
  regionStart : Nat

def placeStack (prog : Elf.Program) (atBase argc envc : Nat) (data : StackData) :
    Except String StackLayout :=
  let auxvLen := 17 + (if data.argvOffsets = [] then 0 else 1)
  let tableLen := (1 + (argc + 1) + (envc + 1) + auxvLen * 2) * 8
  let totalLen := tableLen + data.bytes.length
  if totalLen > Process.userStackTop then .error "linux stack layout too large"
  else
    let finalRsp := (Process.userStackTop - totalLen) / 16 * 16
    let dataVaddr := finalRsp + tableLen
    let regionStart := alignDown finalRsp
    if regionStart < Process.userStackLowLimit then .error "linux stack layout too large"
    else
      .ok
        { finalRsp
          table := pointerTable prog atBase argc dataVaddr data
          data := data.bytes
          dataVaddr
          regionStart }

def stackLayout (elfBytes : Elf.Bytes) (prog : Elf.Program) (atBase ticks : Nat)
    (argv envp : List Elf.Bytes) : Except String StackLayout :=
  match serializeStackData elfBytes prog ticks argv envp with
  | .error message => .error message
  | .ok data => placeStack prog atBase argv.length envp.length data

def setupLinuxStack (pml4 : Nat) (elfBytes : Elf.Bytes) (prog : Elf.Program)
    (atBase ticks : Nat) (argv envp : List Elf.Bytes) : Loader Nat :=
  match stackLayout elfBytes prog atBase ticks argv envp with
  | .error message => refuse message
  | .ok layout => do
      let regionLen := alignUp (Process.userStackTop - layout.regionStart)
      initStackBacking
      let built ← process
      let phys := built.stackPhysFor layout.regionStart
      onMachine (Machine.copyBytes (phys + (layout.finalRsp - layout.regionStart)) layout.table)
      onMachine (Machine.copyBytes (phys + (layout.dataVaddr - layout.regionStart)) layout.data)
      mapOrRefuse pml4 layout.regionStart phys regionLen Process.dataFlags
        "failed to map linux-style stack"
      update (fun process => { process with stackLow := layout.regionStart })
      pure layout.finalRsp

end Loader
end MachaOS
