/-
The machine the kernel runs on: physical memory, the frame bitmap, and CR3.

The processor translates every address through the four-level table CR3 points
at, and the kernel is no exception: `frame as *mut u8` writes through whatever
the active table maps at virtual address `frame`.  Kernel loads and stores
below therefore walk the active table first.  A missing translation stops the
routine with a `Fault`.  The TLB is not modelled.
-/

import MachaOS.Lib.ByteMemory
import MachaOS.Lib.Fallible
import MachaOS.Pmm

namespace MachaOS

namespace Paging

def pageSize : Nat := 4096
def identityMapEnd : Nat := 4 * 1024 * 1024 * 1024

def pagePresent : BitVec 64 := 1#64
def pageWritable : BitVec 64 := 2#64
def pageUser : BitVec 64 := 4#64
/-- No-execute, bit 63. -/
def pageNx : BitVec 64 := 1#64 <<< 63

def presentMask : BitVec 64 := 0xFFF#64 ||| pageNx
def psBit : BitVec 64 := 1#64 <<< 7
def addrMask : BitVec 64 := 0x000FFFFFFFFFF000#64

def tableBase (entry : BitVec 64) : Nat :=
  (entry &&& addrMask).toNat

structure Leaf where
  phys : Nat
  writable : Bool
  user : Bool
  noExecute : Bool
deriving DecidableEq

def combine (phys : Nat) (entries : List (BitVec 64)) : Leaf :=
  { phys
    writable := entries.all (fun entry => entry.getLsbD 1)
    user := entries.all (fun entry => entry.getLsbD 2)
    noExecute := entries.any (fun entry => entry.getLsbD 63) }

/-- The processor's page walk for the page of `virt`, with 1 GiB and 2 MiB pages. -/
def walk (mem : ByteMemory) (pml4 virt : Nat) : Option Leaf :=
  let pml4e := mem.readU64 (pml4 + 8 * (virt / 2 ^ 39 % 512))
  if pml4e.getLsbD 0 = false then none
  else
    let pdpte := mem.readU64 (tableBase pml4e + 8 * (virt / 2 ^ 30 % 512))
    if pdpte.getLsbD 0 = false then none
    else if pdpte.getLsbD 7 then
      some (combine (tableBase pdpte / 2 ^ 30 * 2 ^ 30 + virt % 2 ^ 30 / 4096 * 4096)
        [pml4e, pdpte])
    else
      let pde := mem.readU64 (tableBase pdpte + 8 * (virt / 2 ^ 21 % 512))
      if pde.getLsbD 0 = false then none
      else if pde.getLsbD 7 then
        some (combine (tableBase pde / 2 ^ 21 * 2 ^ 21 + virt % 2 ^ 21 / 4096 * 4096)
          [pml4e, pdpte, pde])
      else
        let pte := mem.readU64 (tableBase pde + 8 * (virt / 2 ^ 12 % 512))
        if pte.getLsbD 0 = false then none
        else some (combine (tableBase pte) [pml4e, pdpte, pde, pte])

end Paging

structure Machine where
  mem : ByteMemory
  pmm : Pmm
  cr3 : Nat

structure Fault where
  addr : Nat

abbrev Kernel (α : Type) : Type :=
  Fallible Machine Fault α

namespace Machine

def resolve (machine : Machine) (addr : Nat) : Option Nat :=
  (Paging.walk machine.mem machine.cr3 addr).map (fun leaf => leaf.phys + addr % 4096)

/-- `*(address as *const u64)` for an aligned pointer. -/
def loadU64 (addr : Nat) : Kernel (BitVec 64) := fun machine =>
  match machine.resolve addr with
  | some phys => (.ok (machine.mem.readU64 phys), machine)
  | none => (.error ⟨addr⟩, machine)

/-- `*(address as *mut u64) = word` for an aligned pointer. -/
def storeU64 (addr : Nat) (word : BitVec 64) : Kernel Unit := fun machine =>
  match machine.resolve addr with
  | some phys => (.ok (), { machine with mem := machine.mem.writeU64 phys word })
  | none => (.error ⟨addr⟩, machine)

def storeByte (addr : Nat) (byte : BitVec 8) : Kernel Unit := fun machine =>
  match machine.resolve addr with
  | some phys => (.ok (), { machine with mem := machine.mem.writeByte phys byte })
  | none => (.error ⟨addr⟩, machine)

def zeroBytes (addr : Nat) : Nat → Kernel Unit
  | 0 => pure ()
  | len + 1 => do
      storeByte addr 0#8
      zeroBytes (addr + 1) len

/-- `copy_nonoverlapping(bytes, address, bytes.len())` from a kernel buffer. -/
def copyBytes (addr : Nat) : List (BitVec 8) → Kernel Unit
  | [] => pure ()
  | byte :: rest => do
      storeByte addr byte
      copyBytes (addr + 1) rest

def loadByte (addr : Nat) : Kernel (BitVec 8) := fun machine =>
  match machine.resolve addr with
  | some phys => (.ok (machine.mem phys), machine)
  | none => (.error ⟨addr⟩, machine)

/-- `copy_nonoverlapping(source, target, len)` between two places in memory. -/
def moveBytes (source target : Nat) : Nat → Kernel Unit
  | 0 => pure ()
  | len + 1 => do
      let byte ← loadByte source
      storeByte target byte
      moveBytes (source + 1) (target + 1) len

def frameAlloc : Kernel (Option Nat) := fun machine =>
  (.ok machine.pmm.frameAlloc.1, { machine with pmm := machine.pmm.frameAlloc.2 })

def allocContiguous (count : Nat) : Kernel (Option Nat) := fun machine =>
  (.ok (machine.pmm.allocContiguous count).1,
    { machine with pmm := (machine.pmm.allocContiguous count).2 })

def frameFree (phys : Nat) : Kernel Unit :=
  Fallible.modify (fun machine => { machine with pmm := machine.pmm.frameFree phys })

/-- `for p in 0..count { frame_free(phys + p * FRAME_SIZE) }` -/
def freeFrames (phys : Nat) : Nat → Kernel Unit
  | 0 => pure ()
  | count + 1 => do
      frameFree phys
      freeFrames (phys + Pmm.frameSize) count

end Machine
end MachaOS
