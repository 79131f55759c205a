/-
The kernel heap (`src/allocator.rs`): a free list of blocks threaded through
their own headers.

A header is two words, the size of the payload behind it and the address of the
next free block; the null pointer is 0.  The loops follow `next` pointers in
memory, so they take a number of steps to make: `none` means that the loop has
not ended after as many steps as there can be headers in the region.
Arithmetic is on 64-bit words, as in a release build.
-/

import MachaOS.Lib.ByteMemory
import MachaOS.Pmm

namespace MachaOS

/-- `FreeListAllocator`, with the memory its headers are in. -/
structure FreeListAllocator where
  head : Nat
  allocated : Nat
  total : Nat
  base : Nat
  mem : ByteMemory

namespace FreeListAllocator

def minAlign : Nat := 16

/-- `size_of::<Block>()` -/
def headerSize : Nat := 16

def wrappingSub (left right : Nat) : Nat :=
  (left + wordLimit - right) % wordLimit

/-- `align_up(size, MIN_ALIGN)` -/
def roundUp (size : Nat) : Nat :=
  (size + (minAlign - 1)) % wordLimit / minAlign * minAlign

def blockSize (mem : ByteMemory) (block : Nat) : Nat :=
  (mem.readU64 block).toNat

def blockNext (mem : ByteMemory) (block : Nat) : Nat :=
  (mem.readU64 (block + 8)).toNat

def setSize (mem : ByteMemory) (block size : Nat) : ByteMemory :=
  mem.writeU64 block (BitVec.ofNat 64 size)

def setNext (mem : ByteMemory) (block next : Nat) : ByteMemory :=
  mem.writeU64 (block + 8) (BitVec.ofNat 64 next)

/-- `init`: one free block over the half-open range `[start, stop)`. -/
def init (mem : ByteMemory) (start stop : Nat) : FreeListAllocator :=
  let total := wrappingSub stop start
  { head := start
    allocated := 0
    total
    base := start
    mem := setNext (setSize mem start (wrappingSub total headerSize)) start 0 }

def stepLimit (heap : FreeListAllocator) : Nat :=
  heap.total / headerSize + 1

/-- `if previous.is_null() { head = target } else { (*previous).next = target }` -/
def relink (heap : FreeListAllocator) (previous target : Nat) : FreeListAllocator :=
  if previous = 0 then { heap with head := target }
  else { heap with mem := setNext heap.mem previous target }

/-- Cut what `size` leaves of the block into a free block of its own. -/
def split (mem : ByteMemory) (current size : Nat) : ByteMemory :=
  let currentSize := blockSize mem current
  let remaining := (current + headerSize + size) % wordLimit
  let mem := setSize mem remaining (wrappingSub (wrappingSub currentSize size) headerSize)
  let mem := setNext mem remaining (blockNext mem current)
  let mem := setSize mem current size
  setNext mem current remaining

def takeBlock (heap : FreeListAllocator) (size previous current : Nat) : FreeListAllocator :=
  let heap :=
    if blockSize heap.mem current ≥ (size + headerSize + minAlign) % wordLimit then
      { heap with mem := split heap.mem current size }
    else heap
  let heap := relink heap previous (blockNext heap.mem current)
  { heap with allocated := (heap.allocated + size) % wordLimit }

/-- `while !current.is_null() { .. }` in `alloc`; 0 is the null pointer returned when no
block is large enough. -/
def search (heap : FreeListAllocator) (size : Nat) :
    Nat → Nat → Nat → Option (Nat × FreeListAllocator)
  | 0, _, _ => none
  | steps + 1, previous, current =>
      if current = 0 then some (0, heap)
      else if blockSize heap.mem current ≥ size then
        some ((current + headerSize) % wordLimit, takeBlock heap size previous current)
      else search heap size steps current (blockNext heap.mem current)

def alloc (heap : FreeListAllocator) (size : Nat) : Option (Nat × FreeListAllocator) :=
  search heap (roundUp size) (stepLimit heap) 0 heap.head

/-- The insertion point of `dealloc`: the free blocks around `block`. -/
def findPlace (mem : ByteMemory) (block : Nat) : Nat → Nat → Nat → Option (Nat × Nat)
  | 0, _, _ => none
  | steps + 1, previous, current =>
      if current ≠ 0 ∧ current < block then
        findPlace mem block steps current (blockNext mem current)
      else some (previous, current)

/-- `left` takes over `right`, which follows it in the list. -/
def absorb (mem : ByteMemory) (left right : Nat) : ByteMemory :=
  let mem := setSize mem left ((blockSize mem left + (headerSize + blockSize mem right)) % wordLimit)
  setNext mem left (blockNext mem right)

def coalesce (mem : ByteMemory) (left right : Nat) : ByteMemory :=
  if (left + headerSize + blockSize mem left) % wordLimit = right then absorb mem left right
  else mem

def dealloc (heap : FreeListAllocator) (ptr : Nat) : Option FreeListAllocator :=
  let block := wrappingSub ptr headerSize
  let heap := { heap with allocated := wrappingSub heap.allocated (blockSize heap.mem block) }
  match findPlace heap.mem block (stepLimit heap) 0 heap.head with
  | none => none
  | some (previous, current) =>
      let heap := relink { heap with mem := setNext heap.mem block current } previous block
      let heap :=
        if current ≠ 0 then { heap with mem := coalesce heap.mem block current } else heap
      some (if previous ≠ 0 then { heap with mem := coalesce heap.mem previous block } else heap)

def allocatedBytes (heap : FreeListAllocator) : Nat :=
  heap.allocated

def freeBytes (heap : FreeListAllocator) : Nat :=
  wrappingSub heap.total heap.allocated

end FreeListAllocator
end MachaOS
