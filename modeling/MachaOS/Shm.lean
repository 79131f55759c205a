/-
Shared-memory objects (`src/shm.rs`): `memfd_create`, `ftruncate` and the
reference counts that decide when the frames go back.

The spin lock around the table is not modelled: every routine runs to
completion under it.
-/

import MachaOS.Lib.Slots
import MachaOS.Machine

namespace MachaOS.Shm

structure SharedMem where
  /-- Base of the contiguous block; 0 until the first growing `truncate`. -/
  phys : Nat
  pages : Nat
  size : Nat
  refcount : Nat
deriving DecidableEq

abbrev Table : Type := Slots SharedMem

def create (table : Table) : Table × Nat :=
  Slots.insert { phys := 0, pages := 0, size := 0, refcount := 1 } table

def truncate (table : Table) (id newSize : Nat) : Kernel (Bool × Table) :=
  match table.lookup id with
  | none => pure (false, table)
  | some obj =>
      if newSize ≤ obj.size then
        pure (true, table.put id { obj with size := newSize })
      else
        let neededPages := max ((newSize + Pmm.frameSize - 1) / Pmm.frameSize) 1
        if neededPages ≤ obj.pages then
          pure (true, table.put id { obj with size := newSize })
        else do
          match ← Machine.allocContiguous neededPages with
          | none => pure (false, table)
          | some newPhys => do
              Machine.zeroBytes newPhys (neededPages * Pmm.frameSize)
              if obj.pages > 0 then do
                Machine.moveBytes obj.phys newPhys (obj.pages * Pmm.frameSize)
                Machine.freeFrames obj.phys obj.pages
                pure (true, table.put id
                  { obj with phys := newPhys, pages := neededPages, size := newSize })
              else
                pure (true, table.put id
                  { obj with phys := newPhys, pages := neededPages, size := newSize })

def sizeOf (table : Table) (id : Nat) : Option Nat :=
  (table.lookup id).map SharedMem.size

def physOf (table : Table) (id : Nat) : Option Nat :=
  (table.lookup id).map SharedMem.phys

def pagesOf (table : Table) (id : Nat) : Option Nat :=
  (table.lookup id).map SharedMem.pages

def dup (table : Table) (id : Nat) : Table :=
  match table.lookup id with
  | none => table
  | some obj => table.put id { obj with refcount := obj.refcount + 1 }

def close (table : Table) (id : Nat) : Kernel Table :=
  match table.lookup id with
  | none => pure table
  | some obj =>
      let refcount := obj.refcount - 1
      if refcount = 0 then do
        Machine.freeFrames obj.phys obj.pages
        pure (table.clear id)
      else pure (table.put id { obj with refcount })

end MachaOS.Shm
