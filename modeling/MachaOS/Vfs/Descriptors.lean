/-
The calls on an open descriptor (`src/linux_abi.rs`): `write`, `writev`, `pread64`, and
`mmap` with the file it reads.

A file descriptor owns its handle; the contents of a memory object lie in the machine's
memory, which the kernel reaches at physical addresses.  A call returns a register: a
count, or an error as a negative number.
-/

import MachaOS.Vfs.Handle
import MachaOS.UserPointers

namespace MachaOS.Vfs

open Fallible

structure Caller where
  system : System
  files : Nat → FileHandle
  printed : List (BitVec 8)

inductive Crash where
  | panic
  | fault (fault : Fault)

abbrev Call (α : Type) : Type :=
  Fallible Caller Crash α

def ebadf : Nat := 9
def efault : Nat := 14
def espipe : Nat := 29
def epipe : Nat := 32

def err (errno : Nat) : BitVec 64 :=
  BitVec.ofInt 64 (-errno)

def vfsErr : VfsError → BitVec 64
  | .notFound => err 2
  | .notDir | .isDir => err 20
  | .alreadyExists => err 17
  | _ => err 5

namespace Caller

/-- Where a user pointer leads, when it leads anywhere.  A pointer that leads nowhere may
still grow the stack, which changes no answer (`resolveUserBuffer_answer`). -/
def resolve (caller : Caller) (ptr len : Nat) : Option Nat :=
  if caller.system.currentProcess.isSome then caller.system.translate caller.system.current ptr len
  else if System.isIdentityMapped ptr len then some ptr
  else none

def bytesAt (caller : Caller) (phys len : Nat) : List (BitVec 8) :=
  (List.range len).map (fun index => caller.system.machine.mem (phys + index))

def fd (caller : Caller) (fd : Nat) : Option FdEntry :=
  caller.system.currentProcess.bind (fun (_, proc) => proc.fd fd)

def setFile (caller : Caller) (fd : Nat) (handle : FileHandle) : Caller :=
  { caller with files := Function.update caller.files fd handle }

def setFd (caller : Caller) (fd : Nat) (entry : FdEntry) : Caller :=
  match caller.system.currentProcess with
  | none => caller
  | some (_, proc) =>
      { caller with
        system := caller.system.setCurrentProcess { proc with fds := Slots.put proc.fds fd entry } }

def writeMemory (caller : Caller) (phys : Nat) (bytes : List (BitVec 8)) : Caller :=
  { caller with
    system := { caller.system with
      machine := { caller.system.machine with
        mem := caller.system.machine.mem.writeBytes phys bytes } } }

end Caller

def onSystem {α : Type} (routine : Sys α) : Call α := fun caller =>
  match routine caller.system with
  | (.ok value, system) => (.ok value, { caller with system })
  | (.error fault, system) => (.error (.fault fault), { caller with system })

/-- `shm_write` on the object of a descriptor -/
def shmWrite (fd id cursor : Nat) (data : List (BitVec 8)) : Call Nat := fun caller =>
  match Shm.physOf caller.system.shm id, Shm.sizeOf caller.system.shm id with
  | some phys, some size =>
      let avail := size - cursor
      let n := min avail data.length
      if n > 0 then
        (.ok n, (caller.writeMemory (phys + cursor) (data.take n)).setFd fd (.shm id (cursor + n)))
      else (.ok n, caller)
  | _, _ => (.ok 0, caller)

/-- `socket::send` without descriptors -/
def socketSend (id : Nat) (bytes : List (BitVec 8)) : Call (Option Nat) := fun caller =>
  match Socket.send caller.system.sockets caller.system.shm id bytes [] caller.system.machine with
  | (.ok (sent, sockets, shm), machine) =>
      (.ok sent, { caller with system := { caller.system with machine, sockets, shm } })
  | (.error fault, machine) =>
      (.error (.fault fault), { caller with system := { caller.system with machine } })

/-- A byte printed as a `char`: in UTF-8, so as two bytes from `0x80` on. -/
def printedChar (b : BitVec 8) : List (BitVec 8) :=
  if b < 0x80#8 then [b] else [0xC0#8 ||| b >>> 6, 0x80#8 ||| b &&& 0x3F#8]

/-- `sys_write` once its buffer is found. -/
def writeBytes (fd : Nat) (bytes : List (BitVec 8)) : Call (BitVec 64) := fun caller =>
  if fd = 1 ∨ fd = 2 then
    (.ok (BitVec.ofNat 64 bytes.length),
      { caller with printed := caller.printed ++ bytes.flatMap printedChar })
  else if fd < 3 then (.ok (err ebadf), caller)
  else
    match caller.fd fd with
    | some .file =>
        match (caller.files fd).write bytes with
        | none => (.error .panic, caller)
        | some (.ok n, handle) => (.ok (BitVec.ofNat 64 n), caller.setFile fd handle)
        | some (.error failure, handle) => (.ok (vfsErr failure), caller.setFile fd handle)
    | some (.shm id cursor) =>
        (do
          let n ← shmWrite fd id cursor bytes
          pure (BitVec.ofNat 64 n)) caller
    | some (.socket id) =>
        (do
          let sent ← socketSend id bytes
          match sent with
          | some n => pure (BitVec.ofNat 64 n)
          | none => pure (err epipe)) caller
    | none => (.ok (err ebadf), caller)

def sysWrite (fd buf count : Nat) : Call (BitVec 64) := fun caller =>
  match caller.resolve buf count with
  | none => (.ok (err efault), caller)
  | some phys => writeBytes fd (caller.bytesAt phys count) caller

/-- What one turn of the loop of `sys_writev` does: it returns an error, or it goes on. -/
inductive Turn where
  | returned (result : BitVec 64)
  | added (n : BitVec 64)

/-- The element at `at'`: its entry, and its buffer unless that is empty. -/
def writeElement (fd at' : Nat) : Call Turn := fun caller =>
  match caller.resolve at' 16 with
  | none => (.ok (.returned (err efault)), caller)
  | some entry =>
      let base := (caller.system.machine.mem.readU64 entry).toNat
      let len := (caller.system.machine.mem.readU64 (entry + 8)).toNat
      if len = 0 then (.ok (.added 0#64), caller)
      else
        (do
          let n ← sysWrite fd base len
          pure (if n.toInt < 0 then Turn.returned n else Turn.added n)) caller

/-- A sum of 64-bit numbers, which stops a kernel that checks them. -/
def checkedAdd (overflowChecks : Bool) (left right : Nat) : Call Nat :=
  if overflowChecks = true ∧ wordLimit ≤ left + right then fail .panic
  else pure ((left + right) % wordLimit)

/-- The loop of `sys_writev` from index `i` on, with `left` elements to go. -/
def writevLoop (overflowChecks : Bool) (fd iov : Nat) : Nat → Nat → Nat → Call (BitVec 64)
  | 0, _, total => pure (BitVec.ofNat 64 total)
  | left + 1, i, total => do
      let at' ← checkedAdd overflowChecks iov (i * 16)
      match ← writeElement fd at' with
      | .returned result => pure result
      | .added n => do
          let total ← checkedAdd overflowChecks total n.toNat
          writevLoop overflowChecks fd iov left (i + 1) total

def sysWritev (overflowChecks : Bool) (fd iov iovcnt : Nat) : Call (BitVec 64) :=
  writevLoop overflowChecks fd iov iovcnt 0 0

def sysPread64 (overflowChecks : Bool) (fd buf count : Nat) (offset : BitVec 64) :
    Call (BitVec 64) := fun caller =>
  if fd < 3 then (.ok (err espipe), caller)
  else
    match caller.resolve buf count with
    | none => (.ok (err efault), caller)
    | some phys =>
        match caller.fd fd with
        | some .file =>
            match (caller.files fd).pread64 overflowChecks count offset with
            | none => (.error .panic, caller)
            | some (bytes, handle) =>
                (.ok (BitVec.ofNat 64 bytes.length),
                  (caller.setFile fd handle).writeMemory phys bytes)
        | _ => (.ok (err ebadf), caller)

/-- Whether `sys_mmap` gets to the file of its descriptor. -/
def readsFile (caller : Caller) (len flags fd : Nat) : Bool :=
  decide (len ≠ 0) && !(System.hasBit flags System.mapAnonymous || decide (fd ≥ 2 ^ 63)) &&
    decide (caller.fd fd = some .file)

/-- `sys_mmap`; `allocates` tells for which sizes the kernel heap has a vector. -/
def sysMmap (overflowChecks : Bool) (allocates : Nat → Bool) (addr len prot flags fd : Nat)
    (offset : BitVec 64) : Call (Option (Option Nat)) := fun caller =>
  if readsFile caller len flags fd then
    if allocates len then
      match (caller.files fd).mmapRead overflowChecks len offset with
      | none => (.error .panic, caller)
      | some (bytes, handle) =>
          onSystem (System.sysMmap addr len prot flags fd bytes) (caller.setFile fd handle)
    else (.error .panic, caller)
  else onSystem (System.sysMmap addr len prot flags fd []) caller

theorem translate_tryGrowStack {system after : System} {faultAddr : Nat} {grown : Option Bool}
    (grew : System.onProcess (fun proc pml4 => proc.tryGrowStack pml4 faultAddr) system =
      (.ok grown, after)) (ptr len : Nat) :
    after.translate system.current ptr len = system.translate system.current ptr len := by
  rcases System.onProcess_eq_ok grew with ⟨-, rfl⟩ |
    ⟨cr3, proc, value, proc', machine, found, ran, -, rfl⟩
  · rfl
  · have before := System.processAt_current found
    have behind := System.processAt_acted found machine proc' system.current
    rw [if_pos rfl] at behind
    obtain ⟨⟨taken, new⟩, -⟩ := Process.tryGrowStack_grown ran
    have same := new.mappings
    rw [List.append_nil] at same
    unfold System.translate
    rw [before, behind]
    simp only [same]

theorem resolveUserBuffer_answer {caller : Caller} {ptr len : Nat} {answer : Option Nat}
    {after : System}
    (ran : System.resolveUserBuffer ptr len caller.system = (.ok answer, after)) :
    answer = caller.resolve ptr len := by
  unfold System.resolveUserBuffer at ran
  unfold Caller.resolve
  by_cases calling : caller.system.currentProcess.isSome = true
  · rw [if_pos calling] at ran ⊢
    unfold System.resolvePtrOf at ran
    cases direct : caller.system.translate caller.system.current ptr len with
    | some phys =>
        rw [direct] at ran
        cases ran
        rfl
    | none =>
        rw [direct] at ran
        simp only [ne_eq, not_true_eq_false, if_false] at ran
        obtain ⟨grown, middle, grew, rest⟩ := bind_eq_ok ran
        split at rest
        · obtain ⟨_, _, got, rest⟩ := bind_eq_ok rest
          cases got
          cases rest
          rw [translate_tryGrowStack grew, direct]
        · cases rest
          rfl
  · rw [if_neg calling] at ran ⊢
    split at ran
    · rename_i inside
      cases ran
      rw [if_pos inside]
    · rename_i outside
      cases ran
      rw [if_neg outside]

end MachaOS.Vfs
