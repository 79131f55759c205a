/-
`pt_entry_ptr_in`, `map_range_in`, `unmap_range_in`, `map_page` and `unmap_page` of
`src/paging.rs`.

The code edits the table through `*mut u64` pointers, so it is written over
`Kernel` loads and stores.  `Editing` collects what has to hold for those
pointers to reach the table: the frames the code touches are identity-mapped in
whatever table CR3 points at.  Under it each routine refines an update of the
abstract `Space`.
-/

import MachaOS.Paging.Space

namespace MachaOS.Paging

open Machine

def orU64 (addr : Nat) (bits : BitVec 64) : Kernel Unit := do
  let old ← loadU64 addr
  storeU64 addr (old ||| bits)

def promoteUser (addr : Nat) (entry entryFlags : BitVec 64) : Kernel Unit :=
  if entryFlags &&& pageUser ≠ 0#64 ∧ entry &&& pageUser = 0#64 then orU64 addr pageUser
  else pure ()

/-- `for i in 0..512 { *pt.add(i) = phys_base + i * PAGE_SIZE | page_flags }` from `index` on. -/
def fillTable (frame : Nat) (physBase pageFlags : BitVec 64) (index : Nat) : Nat → Kernel Unit
  | 0 => pure ()
  | left + 1 => do
      storeU64 (frame + 8 * index)
        ((physBase + BitVec.ofNat 64 index * BitVec.ofNat 64 pageSize) ||| pageFlags)
      fillTable frame physBase pageFlags (index + 1) left

/-- The last level of `pt_entry_ptr_in`: find or make the page table behind a directory
entry and return the place of the page's entry. -/
def tableEntry (pdEntry ptIdx : Nat) (entryFlags : BitVec 64) (frames : Option (List Nat)) :
    Kernel (Option Nat × Option (List Nat)) := do
  let pde ← loadU64 pdEntry
  if pde &&& pagePresent = 0#64 then do
    match ← frameAlloc with
    | none => pure (none, frames)
    | some frame => do
        zeroBytes frame Pmm.frameSize
        storeU64 pdEntry (BitVec.ofNat 64 frame ||| entryFlags ||| pagePresent)
        pure (some (frame + 8 * ptIdx), frames.map (· ++ [frame]))
  else if pde &&& psBit ≠ 0#64 then do
    match ← frameAlloc with
    | none => pure (none, frames)
    | some frame => do
        let physBase := pde &&& ~~~0x1FFFFF#64
        let pageFlags := pde &&& presentMask &&& ~~~psBit
        fillTable frame physBase pageFlags 0 512
        storeU64 pdEntry (BitVec.ofNat 64 frame ||| pageFlags ||| (entryFlags &&& pageUser))
        pure (some (frame + 8 * ptIdx), frames.map (· ++ [frame]))
  else do
    let current ← loadU64 pdEntry
    promoteUser pdEntry current entryFlags
    pure (some (tableBase pde + 8 * ptIdx), frames)

/-- The table entry for `virt`, with the list of frames allocated on the way. -/
def ptEntryPtrIn (pml4Base virt : Nat) (entryFlags : BitVec 64) (frames : Option (List Nat)) :
    Kernel (Option Nat × Option (List Nat)) := do
  let pml4Idx := virt / 2 ^ 39 % 512
  let pdptIdx := virt / 2 ^ 30 % 512
  let pdIdx := virt / 2 ^ 21 % 512
  let ptIdx := virt / 2 ^ 12 % 512
  let pml4e ← loadU64 (pml4Base + 8 * pml4Idx)
  if pml4e &&& pagePresent = 0#64 then pure (none, frames)
  else do
    promoteUser (pml4Base + 8 * pml4Idx) pml4e entryFlags
    let pdpte ← loadU64 (tableBase pml4e + 8 * pdptIdx)
    if pdpte &&& pagePresent = 0#64 ∨ pdpte &&& psBit ≠ 0#64 then pure (none, frames)
    else do
      promoteUser (tableBase pml4e + 8 * pdptIdx) pdpte entryFlags
      tableEntry (tableBase pdpte + 8 * pdIdx) ptIdx entryFlags frames

/-- The loop of `map_range_in` over the pages still to be mapped. -/
def mapPages (pml4Base : Nat) (flags : BitVec 64) :
    Nat → Nat → Nat → List Nat → Kernel (Bool × List Nat)
  | 0, _, _, frames => pure (true, frames)
  | left + 1, virt, phys, frames => do
      match ← ptEntryPtrIn pml4Base virt (flags &&& presentMask) (some frames) with
      | (some entry, recorded) => do
          storeU64 entry (BitVec.ofNat 64 phys ||| (flags &&& presentMask) ||| pagePresent)
          mapPages pml4Base flags left (virt + pageSize) (phys + pageSize) (recorded.getD [])
      | (none, recorded) => pure (false, recorded.getD [])

def mapRangeIn (pml4Base virt phys len : Nat) (flags : BitVec 64) (frames : List Nat) :
    Kernel (Bool × List Nat) :=
  if virt % pageSize ≠ 0 ∨ phys % pageSize ≠ 0 ∨ len % pageSize ≠ 0 ∨ len = 0 ∨
      virt + len > identityMapEnd then pure (false, frames)
  else mapPages pml4Base flags (len / pageSize) virt phys frames

/-- The body of the loop of `unmap_range_in`. -/
def unmapPage (pml4Base virt : Nat) : Kernel Unit := do
  match ← ptEntryPtrIn pml4Base virt 0#64 none with
  | (some entry, _) => storeU64 entry 0#64
  | (none, _) => pure ()

def unmapPages (pml4Base : Nat) : Nat → Nat → Kernel Unit
  | 0, _ => pure ()
  | left + 1, virt => do
      unmapPage pml4Base virt
      unmapPages pml4Base left (virt + pageSize)

def unmapRangeIn (pml4Base virt len : Nat) : Kernel Bool :=
  if virt % pageSize ≠ 0 ∨ len % pageSize ≠ 0 ∨ len = 0 ∨ virt + len > identityMapEnd then
    pure false
  else do
    unmapPages pml4Base (len / pageSize) virt
    pure true

namespace KernelMap

/-- `map_page`, on the table `kernel_pml4()` names. -/
def mapPage (kernelPml4 virt phys : Nat) (flags : BitVec 64) : Kernel Bool :=
  if virt ≥ identityMapEnd ∨ phys ≥ identityMapEnd ∨ virt % pageSize ≠ 0 ∨
      phys % pageSize ≠ 0 then pure false
  else do
    match ← ptEntryPtrIn kernelPml4 virt (flags &&& presentMask) none with
    | (none, _) => pure false
    | (some entry, _) => do
        storeU64 entry (BitVec.ofNat 64 phys ||| (flags &&& presentMask) ||| pagePresent)
        pure true

def unmapPage (kernelPml4 virt : Nat) : Kernel Bool :=
  if virt ≥ identityMapEnd ∨ virt % pageSize ≠ 0 then pure false
  else do
    match ← ptEntryPtrIn kernelPml4 virt (pagePresent ||| pageWritable) none with
    | (none, _) => pure false
    | (some entry, _) => do
        storeU64 entry 0#64
        pure true

end KernelMap

end MachaOS.Paging
