/-
Message headers (`sys_sendmsg` and `sys_recvmsg` of `src/linux_abi.rs`).

A call reads and writes the memory of its caller through buffers, each resolved once for its whole
length.  A trace records the accesses made through them.  Sums, differences and products of lengths
panic where they leave 64 bits; the address of an access is a sum that wraps, as in `translate`.
The kernel heap that holds a message on its way is left out.
-/

import MachaOS.Lib.Checked
import MachaOS.UserPointers

namespace MachaOS

open List
open Fallible

namespace Messages

structure Buffer where
  phys : Nat
  len : Nat
deriving DecidableEq

def Buffer.pointer (buffer : Buffer) (offset : Nat) : Nat :=
  (buffer.phys + offset) % wordLimit

inductive Access where
  | load (buffer : Buffer) (offset size : Nat)
  | store (buffer : Buffer) (offset : Nat) (bytes : List (BitVec 8))
deriving DecidableEq

def Access.Inside : Access → Prop
  | .load buffer offset size => offset + size ≤ buffer.len
  | .store buffer offset bytes => offset + bytes.length ≤ buffer.len

structure Trace where
  system : System
  accesses : List Access

def Trace.start (system : System) : Trace :=
  { system, accesses := [] }

def Trace.note (trace : Trace) (access : Access) : Trace :=
  { trace with accesses := trace.accesses ++ [access] }

def Trace.mem (trace : Trace) : ByteMemory :=
  trace.system.machine.mem

def Trace.Confined (trace : Trace) : Prop :=
  ∀ access, access ∈ trace.accesses → access.Inside

inductive Halt where
  | fault (fault : Fault)
  | panic (panic : Panic)

abbrev Call (α : Type) : Type :=
  Fallible Trace Halt α

def onSystem {α : Type} (routine : Sys α) : Call α := fun trace =>
  match routine trace.system with
  | (.ok value, system) => (.ok value, { trace with system })
  | (.error fault, system) => (.error (.fault fault), { trace with system })

def sized {α : Type} (checked : Checked α) : Call α := fun trace =>
  match checked with
  | .ok value => (.ok value, trace)
  | .error panic => (.error (.panic panic), trace)

def ask {α : Type} (question : System → α) : Call α :=
  Fallible.query (fun trace => .ok (question trace.system))

def resolve (ptr len : Nat) : Call (Option Buffer) := do
  let found ← onSystem (System.resolveUserBuffer ptr len)
  pure (found.map (fun phys => { phys, len }))

def readU64 (buffer : Buffer) (offset : Nat) : Call Nat := fun trace =>
  (.ok (trace.mem.readU64 (buffer.pointer offset)).toNat, trace.note (.load buffer offset 8))

def readU32 (buffer : Buffer) (offset : Nat) : Call Nat := fun trace =>
  (.ok (trace.mem.readU32 (buffer.pointer offset)).toNat, trace.note (.load buffer offset 4))

/-- `from_raw_parts(phys, len).to_vec()` -/
def readAll (buffer : Buffer) : Call (List (BitVec 8)) := fun trace =>
  (.ok ((List.range buffer.len).map (fun i => trace.mem (buffer.pointer i))),
    trace.note (.load buffer 0 buffer.len))

def write (buffer : Buffer) (offset : Nat) (bytes : List (BitVec 8)) : Call Unit := fun trace =>
  let { system, accesses } := trace
  let machine := { system.machine with
    mem := system.machine.mem.writeBytes (buffer.pointer offset) bytes }
  (.ok (), { system := { system with machine }, accesses := accesses ++ [.store buffer offset bytes] })

/-- The low `count` bytes of a number, in memory order. -/
def littleEndian (count value : Nat) : List (BitVec 8) :=
  (List.range count).map (fun k => BitVec.ofNat 8 (value / 256 ^ k))

def writeU64 (buffer : Buffer) (offset value : Nat) : Call Unit :=
  write buffer offset (littleEndian 8 value)

/-- `write_u32` of a value cut to 32 bits. -/
def writeU32 (buffer : Buffer) (offset value : Nat) : Call Unit :=
  write buffer offset (littleEndian 4 value)

/-! ### The two calls -/

inductive Errno where
  | badFd
  | again
  | fault
  | brokenPipe
deriving DecidableEq

def solSocket : Nat := 1
def scmRights : Nat := 1

def entryOf (system : System) (fd : Nat) : Option FdEntry :=
  system.currentProcess.bind (fun current => current.2.fd fd)

def socketOf (system : System) (fd : Nat) : Option Nat :=
  match entryOf system fd with
  | some (.socket id) => some id
  | _ => none

def shmOf (system : System) (fd : Nat) : Option Nat :=
  match entryOf system fd with
  | some (.shm id _) => some id
  | _ => none

def messageBytes (iovPtr iovCount : Nat) : Call (List (BitVec 8)) :=
  if iovCount > 0 then do
    let iov ← resolve iovPtr 16
    match iov with
    | none => pure []
    | some iov => do
        let base ← readU64 iov 0
        let blen ← readU64 iov 8
        if blen > 0 then do
          let data ← resolve base blen
          match data with
          | none => pure []
          | some data => readAll data
        else pure []
  else pure []

def controlBuffer (controlPtr controlLen : Nat) : Call (Option Buffer) :=
  if controlLen ≥ 16 then resolve controlPtr controlLen else pure none

/-- The loop over the descriptors, from the one at `index` on. -/
def passEntries (control : Buffer) (index : Nat) : Nat → Call (List Nat)
  | 0 => pure []
  | count + 1 => do
      let skipped ← sized (Checked.mul index 4)
      let clientFd ← readU32 control (16 + skipped)
      let shmId ← ask (fun system => shmOf system clientFd)
      let later ← passEntries control (index + 1) count
      pure (shmId.toList ++ later)

/-- The shared-memory ids behind the descriptors the control data lists. -/
def passControl (control : Buffer) : Call (List Nat) := do
  let cmsgLen ← readU64 control 0
  let cmsgLevel ← readU32 control 8
  let cmsgType ← readU32 control 12
  if cmsgLevel = solSocket ∧ cmsgType = scmRights ∧ cmsgLen > 16 then do
    let room ← sized (Checked.sub cmsgLen 16)
    passEntries control 0 (room / 4)
  else pure []

def sendOn (socketId : Nat) (bytes : List (BitVec 8)) (shmIds : List Nat) : Sys (Option Nat) :=
  fun system =>
    (do
      let (sent, sockets, shm) ←
        System.onMachine (Socket.send system.sockets system.shm socketId bytes shmIds)
      Fallible.modify (fun system => { system with sockets, shm })
      pure sent) system

/-- What `sys_sendmsg` knows before it looks at the control data. -/
structure Draft where
  socketId : Nat
  bytes : List (BitVec 8)
  control : Option Buffer

def draft (fd msg : Nat) : Call (Except Errno Draft) := do
  let header ← resolve msg 56
  match header with
  | none => pure (.error .fault)
  | some header => do
      let socketId ← ask (fun system => socketOf system fd)
      match socketId with
      | none => pure (.error .badFd)
      | some socketId => do
          let iovPtr ← readU64 header 16
          let iovCount ← readU64 header 24
          let controlPtr ← readU64 header 32
          let controlLen ← readU64 header 40
          let bytes ← messageBytes iovPtr iovCount
          let control ← controlBuffer controlPtr controlLen
          pure (.ok { socketId, bytes, control })

def sysSendmsg (fd msg : Nat) : Call (Except Errno Nat) := do
  let drafted ← draft fd msg
  match drafted with
  | .error errno => pure (.error errno)
  | .ok { socketId, bytes, control } => do
      let shmIds ← control.elim (pure []) passControl
      let sent ← onSystem (sendOn socketId bytes shmIds)
      pure (sent.elim (.error .brokenPipe) .ok)

/-- Where `sys_recvmsg` puts the payload. -/
def roomFor (iovPtr iovCount : Nat) : Call (Option Buffer) :=
  if iovCount > 0 then do
    let iov ← resolve iovPtr 16
    match iov with
    | none => pure none
    | some iov => do
        let base ← readU64 iov 0
        let blen ← readU64 iov 8
        resolve base blen
  else pure none

def recvFrom (socketId len : Nat) : Sys (List (BitVec 8) × List Nat) := fun system =>
  let (received, sockets) := Socket.recv system.sockets socketId len
  (.ok received, { system with sockets })

def takePayload (socketId : Nat) (room : Option Buffer) : Call (Nat × List Nat) :=
  match room with
  | none => do
      let (bytes, fds) ← onSystem (recvFrom socketId 0)
      pure (bytes.length, fds)
  | some room => do
      let (bytes, fds) ← onSystem (recvFrom socketId room.len)
      write room 0 bytes
      pure (bytes.length, fds)

def closeObjects (shmIds : List Nat) : Sys Unit := fun system =>
  (do
    let shm ← System.onMachine (Socket.closeAll system.shm shmIds)
    Fallible.modify (fun system => { system with shm })) system

/-- `alloc_fd` in the current process, or 0 without one. -/
def allocFd (entry : FdEntry) : Sys Nat := fun system =>
  match system.currentProcess with
  | none => (.ok 0, system)
  | some (_, proc) =>
      (.ok (proc.allocFd entry).2, system.setCurrentProcess (proc.allocFd entry).1)

/-- The loop over the received objects, from the one at `index` on. -/
def listEntries (control : Buffer) (index : Nat) : List Nat → Call Unit
  | [] => pure ()
  | shmId :: later => do
      let newFd ← onSystem (allocFd (.shm shmId 0))
      let skipped ← sized (Checked.mul index 4)
      writeU32 control (16 + skipped) newFd
      listEntries control (index + 1) later

def fillControl (control : Buffer) (controlCap : Nat) (shmIds : List Nat) : Call Nat := do
  let room ← sized (Checked.sub controlCap 16)
  let maxFds := min (room / 4) shmIds.length
  let listed ← sized (Checked.mul maxFds 4)
  let cmsgLen ← sized (Checked.add 16 listed)
  writeU64 control 0 cmsgLen
  writeU32 control 8 solSocket
  writeU32 control 12 scmRights
  listEntries control 0 (shmIds.take maxFds)
  onSystem (closeObjects (shmIds.drop maxFds))
  pure cmsgLen

def listControl (controlPtr controlCap : Nat) (shmIds : List Nat) : Call Nat := do
  let control ← resolve controlPtr controlCap
  match control.filter (fun _ => !shmIds.isEmpty && decide (controlCap ≥ 16)) with
  | none => do
      onSystem (closeObjects shmIds)
      pure 0
  | some control => fillControl control controlCap shmIds

def sysRecvmsg (fd msg : Nat) : Call (Except Errno Nat) := do
  let header ← resolve msg 56
  match header with
  | none => pure (.error .fault)
  | some header => do
      let socketId ← ask (fun system => socketOf system fd)
      match socketId with
      | none => pure (.error .badFd)
      | some socketId => do
          let ready ← ask (fun system => Socket.hasData system.sockets socketId)
          if !ready then pure (.error .again)
          else do
            let iovPtr ← readU64 header 16
            let iovCount ← readU64 header 24
            let controlPtr ← readU64 header 32
            let controlCap ← readU64 header 40
            let room ← roomFor iovPtr iovCount
            let (n, shmIds) ← takePayload socketId room
            let used ← listControl controlPtr controlCap shmIds
            writeU64 header 40 used
            pure (.ok n)

/-! ### Staying inside -/

section

variable {α β : Type} {trace : Trace}

def Faulted (halt : Halt) (after : Trace) : Prop :=
  (∃ fault, halt = .fault fault) ∧ after.Confined

def Confines (call : Call α) : Prop :=
  ∀ trace : Trace, trace.Confined → Yields call trace (fun _ after => after.Confined) Faulted

theorem Trace.confined_note {access : Access} (confined : trace.Confined) (inside : access.Inside) :
    (trace.note access).Confined := by
  intro other member
  rcases mem_append.mp member with earlier | last
  · exact confined other earlier
  · rw [mem_singleton.mp last]
    exact inside

theorem confines_pure (value : α) : Confines (pure value : Call α) :=
  fun _ confined => confined

theorem Confines.bind {first : Call α} {next : α → Call β} (before : Confines first)
    (later : ∀ value, Confines (next value)) : Confines (first >>= next) :=
  fun trace confined =>
    (before trace confined).bind (fun value after stillConfined => later value after stillConfined)

theorem confines_onSystem (routine : Sys α) : Confines (onSystem routine) := by
  intro trace confined
  unfold Yields onSystem
  rcases routine trace.system with ⟨fault | value, system⟩
  · exact ⟨⟨fault, rfl⟩, confined⟩
  · exact confined

theorem confines_ask (question : System → α) : Confines (ask question) :=
  fun _ confined => confined

theorem sized_run {checked : Checked Nat} {value : Nat} (fits : checked = .ok value) (trace : Trace) :
    sized checked trace = (.ok value, trace) := by
  subst fits
  rfl

variable {buffer : Buffer} {offset : Nat}

theorem confines_readU64 (inside : offset + 8 ≤ buffer.len) : Confines (readU64 buffer offset) :=
  fun _ confined => Trace.confined_note confined inside

theorem confines_readAll (buffer : Buffer) : Confines (readAll buffer) := by
  intro trace confined
  apply Trace.confined_note confined
  change 0 + buffer.len ≤ buffer.len
  omega

theorem confines_write {bytes : List (BitVec 8)} (inside : offset + bytes.length ≤ buffer.len) :
    Confines (write buffer offset bytes) :=
  fun _ confined => @Trace.confined_note _ (.store buffer offset bytes) confined inside

theorem length_littleEndian (count value : Nat) : (littleEndian count value).length = count := by
  rw [littleEndian, length_map, length_range]

theorem confines_writeU64 (value : Nat) (inside : offset + 8 ≤ buffer.len) :
    Confines (writeU64 buffer offset value) := by
  apply confines_write
  rw [length_littleEndian]
  exact inside

theorem confines_writeU32 (value : Nat) (inside : offset + 4 ≤ buffer.len) :
    Confines (writeU32 buffer offset value) := by
  apply confines_write
  rw [length_littleEndian]
  exact inside

theorem resolve_yields (ptr len : Nat) (confined : trace.Confined) :
    Yields (resolve ptr len) trace
      (fun found after => after.Confined ∧ ∀ buffer, found = some buffer → buffer.len = len)
      Faulted := by
  apply (confines_onSystem (System.resolveUserBuffer ptr len) trace confined).bind
  intro found after stillConfined
  refine ⟨stillConfined, ?_⟩
  intro buffer isFound
  obtain ⟨phys, -, rfl⟩ := Option.map_eq_some_iff.mp isFound
  rfl

theorem confines_resolve {ptr len : Nat} {next : Option Buffer → Call β}
    (missing : Confines (next none))
    (found : ∀ buffer : Buffer, buffer.len = len → Confines (next (some buffer))) :
    Confines (resolve ptr len >>= next) := by
  intro trace confined
  apply (resolve_yields ptr len confined).bind
  rintro (_ | buffer) after ⟨stillConfined, length⟩
  · exact missing after stillConfined
  · exact found buffer (length buffer rfl) after stillConfined

theorem confines_messageBytes (iovPtr iovCount : Nat) : Confines (messageBytes iovPtr iovCount) := by
  unfold messageBytes
  split
  · apply confines_resolve
    · exact confines_pure []
    · intro iov sixteen
      apply (confines_readU64 (by omega)).bind
      intro base
      apply (confines_readU64 (by omega)).bind
      intro blen
      split
      · apply confines_resolve
        · exact confines_pure []
        · intro data _
          exact confines_readAll data
      · exact confines_pure []
  · exact confines_pure []

theorem draft_yields (fd msg : Nat) (confined : trace.Confined) :
    Yields (draft fd msg) trace (fun drafted after => after.Confined ∧
      ∀ known control, drafted = .ok known → known.control = some control → 16 ≤ control.len)
      Faulted := by
  apply (resolve_yields msg 56 confined).bind
  rintro (_ | header) after ⟨stillConfined, length⟩
  · exact ⟨stillConfined, fun known control never => (nomatch never)⟩
  · have room := length header rfl
    apply (confines_ask (fun system => socketOf system fd) after stillConfined).bind
    rintro (_ | socketId) after stillConfined
    · exact ⟨stillConfined, fun known control never => (nomatch never)⟩
    · apply (confines_readU64 (by omega) after stillConfined).bind
      intro iovPtr after stillConfined
      apply (confines_readU64 (by omega) after stillConfined).bind
      intro iovCount after stillConfined
      apply (confines_readU64 (by omega) after stillConfined).bind
      intro controlPtr after stillConfined
      apply (confines_readU64 (by omega) after stillConfined).bind
      intro controlLen after stillConfined
      apply (confines_messageBytes iovPtr iovCount after stillConfined).bind
      intro bytes after stillConfined
      have looked : Yields (controlBuffer controlPtr controlLen) after
          (fun found after => after.Confined ∧ ∀ control, found = some control → 16 ≤ control.len)
          Faulted := by
        unfold controlBuffer
        split
        · rename_i enough
          apply (resolve_yields controlPtr controlLen stillConfined).mono
          rintro found after ⟨stillConfined, length⟩
          refine ⟨stillConfined, ?_⟩
          intro control isFound
          rw [length control isFound]
          exact enough
        · exact ⟨stillConfined, fun control never => (nomatch never)⟩
      apply looked.bind
      rintro found after ⟨stillConfined, enough⟩
      refine ⟨stillConfined, ?_⟩
      intro known control same isFound
      cases same
      exact enough control isFound

end

/-! ### Control data of a message that is sent -/

section

variable (mem : ByteMemory) (control : Buffer)

def cmsgLenOf : Nat := (mem.readU64 (control.pointer 0)).toNat

def Announces : Prop :=
  (mem.readU32 (control.pointer 8)).toNat = solSocket ∧
    (mem.readU32 (control.pointer 12)).toNat = scmRights ∧ cmsgLenOf mem control > 16

instance : Decidable (Announces mem control) := by
  unfold Announces
  infer_instance

def announced : Nat :=
  if Announces mem control then (cmsgLenOf mem control - 16) / 4 else 0

def entryAt (index : Nat) : Nat :=
  (mem.readU32 (control.pointer (16 + 4 * index))).toNat

def listed : List Nat :=
  (List.range (min (announced mem control) ((control.len - 16) / 4))).map (entryAt mem control)

def Fits : Prop :=
  Announces mem control → 16 + 4 * ((cmsgLenOf mem control - 16) / 4) ≤ control.len

def entryAccesses (index count : Nat) : List Access :=
  (List.range' index count).map (fun i => .load control (16 + 4 * i) 4)

def controlAccesses : List Access :=
  [.load control 0 8, .load control 8 4, .load control 12 4] ++
    entryAccesses control 0 (announced mem control)

end

section

variable {mem : ByteMemory} {control : Buffer} {trace : Trace}

theorem passEntries_run {index count : Nat} (small : 4 * (index + count) ≤ 2 ^ 64) :
    passEntries control index count trace =
      (.ok (((List.range' index count).map (entryAt trace.mem control)).filterMap
          (shmOf trace.system)),
        { trace with accesses := trace.accesses ++ entryAccesses control index count }) := by
  induction count generalizing index trace with
  | zero =>
      unfold passEntries entryAccesses
      rw [List.range'_zero, map_nil, filterMap_nil, map_nil, append_nil]
      rfl
  | succ count ih =>
      have limit : Checked.limit = 2 ^ 64 := rfl
      have skipped := sized_run (Checked.mul_ok (show index * 4 < Checked.limit by omega)) trace
      rw [Nat.mul_comm] at skipped
      have later := @ih (trace.note (.load control (16 + 4 * index) 4)) (index + 1) (by omega)
      unfold passEntries
      rw [bind_of_ok skipped]
      change (passEntries control (index + 1) count >>= _)
        (trace.note (.load control (16 + 4 * index) 4)) = _
      rw [bind_of_ok later]
      unfold entryAccesses
      rw [List.range'_succ, map_cons, filterMap_cons, map_cons]
      change (Except.ok ((shmOf trace.system (entryAt trace.mem control index)).toList ++ _),
        ({ system := trace.system, accesses := (trace.accesses ++ [_]) ++ _ } : Trace)) = _
      rw [append_assoc]
      cases shmOf trace.system (entryAt trace.mem control index) with
      | none => rfl
      | some id => rfl

theorem passControl_run (control : Buffer) (trace : Trace) :
    passControl control trace =
      (.ok (((List.range (announced trace.mem control)).map (entryAt trace.mem control)).filterMap
          (shmOf trace.system)),
        { trace with accesses := trace.accesses ++ controlAccesses trace.mem control }) := by
  have header : passControl control trace =
      (if Announces trace.mem control then do
          let room ← sized (Checked.sub (cmsgLenOf trace.mem control) 16)
          passEntries control 0 (room / 4)
        else pure [] : Call (List Nat))
        { trace with accesses := trace.accesses ++
            [.load control 0 8, .load control 8 4, .load control 12 4] } := by
    have joined : trace.accesses ++ [.load control 0 8, .load control 8 4, .load control 12 4] =
        trace.accesses ++ [.load control 0 8] ++ [.load control 8 4] ++ [.load control 12 4] := by
      simp
    rw [joined]
    rfl
  rw [header, range_eq_range']
  unfold controlAccesses announced
  split
  · rename_i announces
    have word := (trace.mem.readU64 (control.pointer 0)).isLt
    have length : cmsgLenOf trace.mem control < 2 ^ 64 := word
    rw [Checked.sub_ok (le_of_lt announces.2.2)]
    change passEntries control 0 ((cmsgLenOf trace.mem control - 16) / 4) _ = _
    rw [passEntries_run (by omega)]
    rw [← append_assoc]
    rfl
  · unfold entryAccesses
    rw [List.range'_zero, map_nil, map_nil, append_nil]
    rfl

theorem controlAccesses_inside_iff (enough : 16 ≤ control.len) :
    (∀ access, access ∈ controlAccesses mem control → access.Inside) ↔ Fits mem control := by
  unfold controlAccesses Fits announced
  constructor
  · intro inside announces
    rw [if_pos announces] at inside
    by_cases none' : (cmsgLenOf mem control - 16) / 4 = 0
    · omega
    · have last := inside (.load control (16 + 4 * ((cmsgLenOf mem control - 16) / 4 - 1)) 4) (by
        apply mem_append_right
        apply mem_map.mpr
        exact ⟨(cmsgLenOf mem control - 16) / 4 - 1, mem_range'_1.mpr (by omega), rfl⟩)
      change 16 + 4 * ((cmsgLenOf mem control - 16) / 4 - 1) + 4 ≤ control.len at last
      omega
  · intro fits access member
    rcases mem_append.mp member with header | entry
    · simp only [mem_cons, not_mem_nil, or_false] at header
      rcases header with rfl | rfl | rfl
      · change 0 + 8 ≤ control.len
        omega
      · change 8 + 4 ≤ control.len
        omega
      · change 12 + 4 ≤ control.len
        omega
    · obtain ⟨index, inRange, rfl⟩ := mem_map.mp entry
      rw [mem_range'_1] at inRange
      change 16 + 4 * index + 4 ≤ control.len
      split at inRange
      · rename_i announces
        have inBuffer := fits announces
        omega
      · omega

theorem listed_of_fits (enough : 16 ≤ control.len) (fits : Fits mem control) :
    listed mem control = (List.range (announced mem control)).map (entryAt mem control) := by
  have few : announced mem control ≤ (control.len - 16) / 4 := by
    unfold announced
    split
    · rename_i announces
      have inBuffer := fits announces
      omega
    · omega
  unfold listed
  rw [Nat.min_eq_left few]

end

/-! ### The descriptors of the caller -/

section

def Holding (entries : Nat → Option FdEntry) (trace : Trace) : Prop :=
  entryOf trace.system = entries

variable {entries : Nat → Option FdEntry}

variable {system : System}

theorem entryOf_of_current {cr3 : Nat} {proc : Process}
    (calling : system.currentProcess = some (cr3, proc)) : entryOf system = proc.fd := by
  funext fd
  rw [entryOf, calling]
  rfl

theorem entryOf_onProcess {after : System} {ptr : Nat} {result : Option Bool}
    (grew : System.onProcess (fun proc pml4 => proc.tryGrowStack pml4 ptr) system =
      (.ok result, after)) :
    entryOf after = entryOf system := by
  rcases System.onProcess_eq_ok grew with ⟨-, rfl⟩ |
    ⟨cr3, proc, value, proc', machine, calling, ran, -, rfl⟩
  · rfl
  · have located : ({ system with machine } : System).currentProcess = some (cr3, proc) := calling
    have fds := (Process.tryGrowStack_grown ran).2
    rw [entryOf_of_current (System.currentProcess_setCurrentProcess located proc'),
      entryOf_of_current calling]
    funext fd
    rw [Process.fd, fds]
    rfl

theorem entryOf_resolveUserBuffer {after : System} {ptr len : Nat} {found : Option Nat}
    (resolved : System.resolveUserBuffer ptr len system = (.ok found, after)) :
    entryOf after = entryOf system := by
  unfold System.resolveUserBuffer System.resolvePtrOf at resolved
  split at resolved
  · cases direct : system.translate system.current ptr len with
    | some phys =>
        rw [direct] at resolved
        cases resolved
        rfl
    | none =>
        rw [direct] at resolved
        dsimp only at resolved
        rw [if_neg (by simp)] at resolved
        obtain ⟨grown, middle, grew, rest⟩ := bind_eq_ok resolved
        rw [← entryOf_onProcess grew]
        split at rest
        · obtain ⟨_, _, got, rest⟩ := bind_eq_ok rest
          cases got
          cases rest
          rfl
        · cases rest
          rfl
  · split at resolved
    · cases resolved
      rfl
    · cases resolved
      rfl

theorem holding_resolve (ptr len : Nat) : Maintains (Holding entries) (resolve ptr len) := by
  apply maintains_bind
  · intro trace found after holding ran
    unfold onSystem at ran
    rcases outcome : System.resolveUserBuffer ptr len trace.system with ⟨fault | value, system⟩
    · rw [outcome] at ran
      cases ran
    · rw [outcome] at ran
      cases ran
      exact (entryOf_resolveUserBuffer outcome).trans holding
  · intro found
    exact maintains_pure _

theorem holding_readU64 (buffer : Buffer) (offset : Nat) :
    Maintains (Holding entries) (readU64 buffer offset) := by
  intro trace value after holding ran
  cases ran
  exact holding

theorem holding_messageBytes (iovPtr iovCount : Nat) :
    Maintains (Holding entries) (messageBytes iovPtr iovCount) := by
  unfold messageBytes
  split
  · apply maintains_bind (holding_resolve iovPtr 16)
    rintro (_ | iov)
    · exact maintains_pure []
    · apply maintains_bind (holding_readU64 iov 0)
      intro base
      apply maintains_bind (holding_readU64 iov 8)
      intro blen
      split
      · apply maintains_bind (holding_resolve base blen)
        rintro (_ | data)
        · exact maintains_pure []
        · intro trace value after holding ran
          cases ran
          exact holding
      · exact maintains_pure []
  · exact maintains_pure []

theorem holding_controlBuffer (controlPtr controlLen : Nat) :
    Maintains (Holding entries) (controlBuffer controlPtr controlLen) := by
  unfold controlBuffer
  split
  · exact holding_resolve controlPtr controlLen
  · exact maintains_pure none

theorem draft_socket {fd msg : Nat} {trace prior : Trace} {known : Draft}
    (drafted : draft fd msg trace = (.ok (.ok known), prior)) :
    socketOf prior.system fd = some known.socketId := by
  unfold draft at drafted
  obtain ⟨header, afterHeader, -, drafted⟩ := bind_eq_ok drafted
  cases header with
  | none => cases drafted
  | some header =>
      obtain ⟨socketId, asked, looked, drafted⟩ := bind_eq_ok drafted
      cases looked
      dsimp only at drafted
      cases found : socketOf afterHeader.system fd with
      | none =>
          rw [found] at drafted
          cases drafted
      | some socketId =>
          rw [found] at drafted
          have keeps : Maintains (Holding (entryOf afterHeader.system)) (do
              let iovPtr ← readU64 header 16
              let iovCount ← readU64 header 24
              let controlPtr ← readU64 header 32
              let controlLen ← readU64 header 40
              let bytes ← messageBytes iovPtr iovCount
              let control ← controlBuffer controlPtr controlLen
              pure (.ok { socketId, bytes, control }) : Call (Except Errno Draft)) := by
            apply maintains_bind (holding_readU64 header 16)
            intro iovPtr
            apply maintains_bind (holding_readU64 header 24)
            intro iovCount
            apply maintains_bind (holding_readU64 header 32)
            intro controlPtr
            apply maintains_bind (holding_readU64 header 40)
            intro controlLen
            apply maintains_bind (holding_messageBytes iovPtr iovCount)
            intro bytes
            apply maintains_bind (holding_controlBuffer controlPtr controlLen)
            intro control
            exact maintains_pure _
          have held : entryOf prior.system = entryOf afterHeader.system := keeps _ _ _ rfl drafted
          have same : known.socketId = socketId := by
            obtain ⟨_, _, -, drafted⟩ := bind_eq_ok drafted
            obtain ⟨_, _, -, drafted⟩ := bind_eq_ok drafted
            obtain ⟨_, _, -, drafted⟩ := bind_eq_ok drafted
            obtain ⟨_, _, -, drafted⟩ := bind_eq_ok drafted
            obtain ⟨_, _, -, drafted⟩ := bind_eq_ok drafted
            obtain ⟨_, _, -, drafted⟩ := bind_eq_ok drafted
            cases drafted
            rfl
          rw [same, ← found]
          unfold socketOf
          rw [held]

theorem passedIds_eq {cr3 : Nat} {proc : Process}
    (calling : system.currentProcess = some (cr3, proc)) (fds : List Nat) :
    System.passedIds proc fds = fds.filterMap (shmOf system) := by
  apply filterMap_congr
  intro fd _
  have entry : entryOf system fd = proc.fd fd := congrFun (entryOf_of_current calling) fd
  have same := congrArg (fun held : Option FdEntry =>
    match held with
    | some (.shm id _) => some id
    | _ => none) entry
  exact same.symm

theorem sendOn_eq_sysSendmsg {fd socketId : Nat} (bytes : List (BitVec 8)) (fds : List Nat)
    (isSocket : socketOf system fd = some socketId) :
    (sendOn socketId bytes (fds.filterMap (shmOf system)) system).2 =
      (System.sysSendmsg fd bytes fds system).2 := by
  cases calling : system.currentProcess with
  | none =>
      unfold socketOf entryOf at isSocket
      rw [calling] at isSocket
      cases isSocket
  | some current =>
      obtain ⟨cr3, proc⟩ := current
      have entry : proc.fd fd = some (.socket socketId) := by
        unfold socketOf at isSocket
        rw [entryOf_of_current calling] at isSocket
        split at isSocket
        · rename_i id opened
          cases isSocket
          exact opened
        · cases isSocket
      unfold System.sysSendmsg sendOn
      rw [calling]
      dsimp only
      rw [entry, passedIds_eq calling]
      dsimp only
      rw [bind_run, bind_run]
      rcases System.onMachine (Socket.send system.sockets system.shm socketId bytes
        (fds.filterMap (shmOf system))) system with ⟨fault | sent, after⟩
      · rfl
      · rfl

end

/-! ### Receiving -/

section

variable {trace : Trace}

theorem confines_roomFor (iovPtr iovCount : Nat) : Confines (roomFor iovPtr iovCount) := by
  unfold roomFor
  split
  · apply confines_resolve
    · exact confines_pure none
    · intro iov sixteen
      apply (confines_readU64 (by omega)).bind
      intro base
      apply (confines_readU64 (by omega)).bind
      intro blen trace confined
      exact (resolve_yields base blen confined).mono (fun _ _ both => both.1)
  · exact confines_pure none

theorem recvFrom_yields (socketId len : Nat) (confined : trace.Confined) :
    Yields (onSystem (recvFrom socketId len)) trace
      (fun received after => after.Confined ∧ received.1.length ≤ len) Faulted := by
  refine ⟨confined, ?_⟩
  change (Socket.recv trace.system.sockets socketId len).1.1.length ≤ len
  unfold Socket.recv
  cases Socket.lookup trace.system.sockets socketId with
  | none => exact Nat.zero_le len
  | some endpoint => exact length_take_le len endpoint.inbox

theorem confines_takePayload (socketId : Nat) (room : Option Buffer) :
    Confines (takePayload socketId room) := by
  intro trace confined
  cases room with
  | none => exact (recvFrom_yields socketId 0 confined).bind (fun _ _ both => both.1)
  | some room =>
      apply (recvFrom_yields socketId room.len confined).bind
      rintro ⟨bytes, fds⟩ after ⟨stillConfined, short⟩
      have inside : 0 + bytes.length ≤ room.len := by
        dsimp only at short
        omega
      exact (confines_write inside).bind (fun _ => confines_pure (bytes.length, fds)) after
        stillConfined

theorem confines_listEntries {control : Buffer} {shmIds : List Nat} {index : Nat}
    (small : control.len < 2 ^ 64) (room : 16 + 4 * (index + shmIds.length) ≤ control.len) :
    Confines (listEntries control index shmIds) := by
  induction shmIds generalizing index with
  | nil => exact confines_pure ()
  | cons shmId later ih =>
      rw [length_cons] at room
      have limit : Checked.limit = 2 ^ 64 := rfl
      unfold listEntries
      apply (confines_onSystem _).bind
      intro newFd trace confined
      apply Yields.after (sized_run (Checked.mul_ok (by omega)) trace)
      apply (confines_writeU32 newFd (by omega) trace confined).bind
      intro _ after stillConfined
      exact ih (by omega) after stillConfined

theorem confines_fillControl {control : Buffer} {controlCap : Nat} (shmIds : List Nat)
    (small : controlCap < 2 ^ 64) (enough : 16 ≤ controlCap) (length : control.len = controlCap) :
    Confines (fillControl control controlCap shmIds) := by
  have limit : Checked.limit = 2 ^ 64 := rfl
  intro trace confined
  unfold fillControl
  apply Yields.after (sized_run (Checked.sub_ok enough) trace)
  dsimp only
  have few : min ((controlCap - 16) / 4) shmIds.length ≤ (controlCap - 16) / 4 :=
    Nat.min_le_left _ _
  generalize min ((controlCap - 16) / 4) shmIds.length = maxFds at few ⊢
  have kept : (shmIds.take maxFds).length ≤ maxFds := length_take_le _ _
  apply Yields.after (sized_run (Checked.mul_ok (by omega)) trace)
  apply Yields.after (sized_run (Checked.add_ok (by omega)) trace)
  apply (confines_writeU64 (16 + maxFds * 4) (by omega) trace confined).bind
  intro _ after stillConfined
  apply (confines_writeU32 solSocket (by omega) after stillConfined).bind
  intro _ after stillConfined
  apply (confines_writeU32 scmRights (by omega) after stillConfined).bind
  intro _ after stillConfined
  apply (confines_listEntries (by omega) (by omega) after stillConfined).bind
  intro _ after stillConfined
  apply (confines_onSystem _ after stillConfined).bind
  intro _ after stillConfined
  exact stillConfined

theorem confines_listControl (controlPtr : Nat) {controlCap : Nat} (shmIds : List Nat)
    (small : controlCap < 2 ^ 64) : Confines (listControl controlPtr controlCap shmIds) := by
  have dropped : Confines (do
      onSystem (closeObjects shmIds)
      pure 0 : Call Nat) := (confines_onSystem _).bind (fun _ => confines_pure 0)
  unfold listControl
  apply confines_resolve
  · exact dropped
  · intro control length
    rw [Option.filter_some]
    by_cases wanted : (!shmIds.isEmpty && decide (controlCap ≥ 16)) = true
    · rw [if_pos wanted]
      rw [Bool.and_eq_true, decide_eq_true_eq] at wanted
      exact confines_fillControl shmIds small wanted.2 length
    · rw [if_neg wanted]
      exact dropped

theorem readU64_yields {buffer : Buffer} {offset : Nat} (confined : trace.Confined)
    (inside : offset + 8 ≤ buffer.len) :
    Yields (readU64 buffer offset) trace (fun value after => after.Confined ∧ value < 2 ^ 64)
      Faulted :=
  ⟨Trace.confined_note confined inside, (trace.mem.readU64 (buffer.pointer offset)).isLt⟩

theorem confines_sysRecvmsg (fd msg : Nat) : Confines (sysRecvmsg fd msg) := by
  unfold sysRecvmsg
  apply confines_resolve
  · exact confines_pure _
  · intro header length
    apply (confines_ask _).bind
    rintro (_ | socketId)
    · exact confines_pure _
    · apply (confines_ask _).bind
      intro ready
      split
      · exact confines_pure _
      · apply (confines_readU64 (by omega)).bind
        intro iovPtr
        apply (confines_readU64 (by omega)).bind
        intro iovCount
        apply (confines_readU64 (by omega)).bind
        intro controlPtr trace confined
        apply (readU64_yields confined (by omega)).bind
        rintro controlCap after ⟨stillConfined, small⟩
        apply (confines_roomFor iovPtr iovCount after stillConfined).bind
        intro room after stillConfined
        apply (confines_takePayload socketId room after stillConfined).bind
        rintro ⟨n, shmIds⟩ after stillConfined
        apply (confines_listControl controlPtr shmIds small after stillConfined).bind
        intro used after stillConfined
        apply (confines_writeU64 used (by omega) after stillConfined).bind
        intro _ after stillConfined
        exact stillConfined

end

/-! ### Both calls -/

section

variable {fd msg : Nat} {system : System}

def Stays {α : Type} (call : Call α) (system : System) : Prop :=
  (∀ panic, (call (Trace.start system)).1 ≠ .error (.panic panic)) ∧
    (call (Trace.start system)).2.Confined

structure SendsWell (fd msg : Nat) (system : System) : Prop where
  stays : Stays (sysSendmsg fd msg) system
  passes : ∀ known prior, draft fd msg (Trace.start system) = (.ok (.ok known), prior) →
    (sysSendmsg fd msg (Trace.start system)).2.system =
      (System.sysSendmsg fd known.bytes (known.control.elim [] (listed prior.mem)) prior.system).2

theorem confined_start (system : System) : (Trace.start system).Confined :=
  fun _ never => (nomatch never)

theorem stays_of_yields {α : Type} {call : Call α} {post : α → Trace → Prop}
    (yields : Yields call (Trace.start system) post Faulted)
    (confined : ∀ value after, post value after → after.Confined) : Stays call system := by
  unfold Fallible.Yields at yields
  unfold Stays
  rcases outcome : call (Trace.start system) with ⟨halt | value, after⟩
  · rw [outcome] at yields
    obtain ⟨⟨fault, rfl⟩, stillConfined⟩ := yields
    exact ⟨fun panic never => (nomatch never), stillConfined⟩
  · rw [outcome] at yields
    exact ⟨fun panic never => (nomatch never), confined value after yields⟩

theorem sysSendmsg_end {known : Draft} {trace prior : Trace}
    (drafted : draft fd msg trace = (.ok (.ok known), prior)) :
    (∀ panic, (sysSendmsg fd msg trace).1 ≠ .error (.panic panic)) ∧
    (sysSendmsg fd msg trace).2 =
      { system := (sendOn known.socketId known.bytes ((known.control.elim [] (fun control =>
          (List.range (announced prior.mem control)).map (entryAt prior.mem control))).filterMap
            (shmOf prior.system)) prior.system).2
        accesses := prior.accesses ++ known.control.elim [] (controlAccesses prior.mem) } := by
  have passed : known.control.elim (pure []) passControl prior =
      (.ok ((known.control.elim [] (fun control =>
          (List.range (announced prior.mem control)).map (entryAt prior.mem control))).filterMap
            (shmOf prior.system)),
        { prior with
          accesses := prior.accesses ++ known.control.elim [] (controlAccesses prior.mem) }) := by
    cases known.control with
    | none =>
        change (Except.ok [], prior) = (Except.ok [], { prior with accesses := prior.accesses ++ [] })
        rw [append_nil]
    | some control => exact passControl_run control prior
  unfold sysSendmsg
  rw [bind_of_ok drafted]
  dsimp only
  rw [bind_of_ok passed, bind_run]
  unfold onSystem
  dsimp only
  rcases sendOn known.socketId known.bytes _ prior.system with ⟨fault | sent, after⟩
  · exact ⟨fun panic never => (nomatch never), rfl⟩
  · exact ⟨fun panic never => (nomatch never), rfl⟩

theorem sysSendmsg_early {outcome : Except Halt (Except Errno Draft)} {trace prior : Trace}
    (drafted : draft fd msg trace = (outcome, prior)) (early : ∀ known, outcome ≠ .ok (.ok known)) :
    (sysSendmsg fd msg trace).2 = prior ∧
      ∀ panic, (sysSendmsg fd msg trace).1 = .error (.panic panic) →
        outcome = .error (.panic panic) := by
  unfold sysSendmsg
  rw [bind_run, drafted]
  rcases outcome with halt | errno | known
  · refine ⟨rfl, ?_⟩
    intro panic same
    cases same
    rfl
  · exact ⟨rfl, fun panic never => (nomatch never)⟩
  · exact absurd rfl (early known)

theorem sendsWell_of_draft {known : Draft} {prior : Trace}
    (drafted : draft fd msg (Trace.start system) = (.ok (.ok known), prior)) :
    SendsWell fd msg system ↔ ∀ control, known.control = some control → Fits prior.mem control := by
  obtain ⟨confined, enough⟩ := (draft_yields fd msg (confined_start system)).of_ok drafted
  obtain ⟨noPanic, ended⟩ := sysSendmsg_end drafted
  constructor
  · rintro ⟨⟨-, inside⟩, -⟩ control given
    rw [ended, given] at inside
    apply (controlAccesses_inside_iff (enough known control rfl given)).mp
    intro access member
    exact inside access (mem_append_right _ member)
  · intro fits
    refine ⟨⟨noPanic, ?_⟩, ?_⟩
    · rw [ended]
      intro access member
      rcases mem_append.mp member with before | last
      · exact confined access before
      · cases given : known.control with
        | none =>
            rw [given] at last
            cases last
        | some control =>
            rw [given] at last
            exact (controlAccesses_inside_iff (enough known control rfl given)).mpr
              (fits control given) access last
    · intro other after same
      rw [drafted] at same
      cases same
      have isSocket := draft_socket drafted
      have all : known.control.elim [] (listed prior.mem) = known.control.elim [] (fun control =>
          (List.range (announced prior.mem control)).map (entryAt prior.mem control)) := by
        cases given : known.control with
        | none => rfl
        | some control =>
            exact listed_of_fits (enough known control rfl given) (fits control given)
      rw [ended, all]
      exact sendOn_eq_sysSendmsg known.bytes _ isSocket

/-- In every state and for every message header, receiving stays inside the caller's buffers.  Sending
does, and passes the descriptors listed in the control data, exactly if those its header announces end
inside the control buffer. -/
theorem messages_stay_inside_iff (fd msg : Nat) (system : System) :
    Stays (sysRecvmsg fd msg) system ∧
      (SendsWell fd msg system ↔
        ∀ known prior control, draft fd msg (Trace.start system) = (.ok (.ok known), prior) →
          known.control = some control → Fits prior.mem control) := by
  constructor
  · exact stays_of_yields (confines_sysRecvmsg fd msg _ (confined_start system)) (fun _ _ still => still)
  · constructor
    · intro well known prior control drafted given
      exact (sendsWell_of_draft drafted).mp well control given
    · intro fits
      rcases outcome : draft fd msg (Trace.start system) with ⟨result, prior⟩
      by_cases reached : ∃ known, result = .ok (.ok known)
      · obtain ⟨known, rfl⟩ := reached
        apply (sendsWell_of_draft outcome).mpr
        intro control given
        exact fits known prior control outcome given
      · have early : ∀ known, result ≠ .ok (.ok known) := fun known same => reached ⟨known, same⟩
        obtain ⟨ended, panics⟩ := sysSendmsg_early outcome early
        have before : Stays (draft fd msg) system :=
          stays_of_yields (draft_yields fd msg (confined_start system)) (fun _ _ both => both.1)
        unfold Stays at before
        rw [outcome] at before
        refine ⟨⟨?_, ?_⟩, ?_⟩
        · intro panic halted
          exact before.1 panic (panics panic halted)
        · rw [ended]
          exact before.2
        · intro known after drafted
          rw [outcome] at drafted
          cases drafted
          exact absurd rfl (early known)

/-- A message header at the start of a page, and a control header in the last 16 bytes of the page that
announces one descriptor behind itself. -/
def crampedMem : ByteMemory :=
  let header := ByteMemory.writeBytes (fun _ => 0#8) 0x1000020
    (littleEndian 8 0x400FF0 ++ littleEndian 8 16)
  header.writeBytes 0x1000FF0 (littleEndian 8 20 ++ littleEndian 4 1 ++ littleEndian 4 1)

def cramped : System :=
  { layout := { kernelStart := 0, kernelEnd := 0, kernelPml4 := 0, heapStart := 0, heapEnd := 0 }
    machine := { mem := crampedMem, pmm := { bitmap := fun _ => 0#8, lastUsableFrame := 0 }, cr3 := 0 }
    shm := []
    sockets := Socket.State.mk [some Socket.Endpoint.new] []
    compositorFds := []
    tasks := [{ cr3 := 0, process := some { System.newProcess 0 0 .linux with
      mappings := [{ vaddr := 0x400000, phys := 0x1000000, len := 4096, shmId := none }]
      fds := [none, none, none, some (.socket 0)] } }]
    current := 0 }

/-- Four bytes behind the page are read as a descriptor. -/
theorem read_behind_control : ¬ SendsWell 3 0x400000 cramped := by
  have drafted : draft 3 0x400000 (Trace.start cramped) =
      (.ok (.ok { socketId := 0, bytes := [], control := some { phys := 0x1000FF0, len := 16 } }),
        (draft 3 0x400000 (Trace.start cramped)).2) := rfl
  intro well
  have fits := (sendsWell_of_draft drafted).mp well _ rfl
  have announces : Announces crampedMem { phys := 0x1000FF0, len := 16 } := by decide +kernel
  have short : ¬ 16 + 4 * ((cmsgLenOf crampedMem { phys := 0x1000FF0, len := 16 } - 16) / 4) ≤ 16 := by
    decide +kernel
  exact short (fits announces)

end

end Messages

end MachaOS
