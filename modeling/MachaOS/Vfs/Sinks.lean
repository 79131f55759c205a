/-
What writing to a descriptor does: it puts bytes, in order, behind those that are there,
as long as there is room.
-/

import MachaOS.Vfs.Descriptors
import MachaOS.SocketPairs
import Mathlib.Data.List.GetD

namespace MachaOS.Vfs

open List
open Fallible

def FileHandle.written (handle : FileHandle) (bytes : List (BitVec 8)) : FileHandle :=
  { handle with
    data := handle.file.overwritten bytes
    cursor := handle.cursor + bytes.length
    dirty := true }

theorem FileHandle.overwritten_overwritten (handle : FileHandle) (front back : List (BitVec 8)) :
    (handle.written front).file.overwritten back = handle.file.overwritten (front ++ back) := by
  have before : (handle.data.take handle.cursor ++
      List.replicate (handle.cursor - handle.data.length) 0#8 ++ front).length =
      handle.cursor + front.length := by
    simp only [length_append, length_take, length_replicate]
    omega
  have contents : (handle.written front).file.contents =
      (handle.data.take handle.cursor ++
        List.replicate (handle.cursor - handle.data.length) 0#8 ++ front) ++
        handle.data.drop (handle.cursor + front.length) := rfl
  have cursor : (handle.written front).file.cursor = handle.cursor + front.length := rfl
  have long : handle.cursor + front.length - (handle.written front).file.contents.length = 0 := by
    rw [contents, length_append, before]
    omega
  unfold ByteFile.overwritten
  rw [cursor, long, contents, ← before, take_left, ← drop_drop, drop_left, drop_drop, before]
  simp only [file, length_append, replicate_zero, nil_append, append_assoc, Nat.add_assoc]

theorem FileHandle.written_written (handle : FileHandle) (front back : List (BitVec 8)) :
    (handle.written front).written back = handle.written (front ++ back) := by
  have same := overwritten_overwritten handle front back
  unfold written at same ⊢
  rw [same]
  simp [Nat.add_assoc]

inductive Sink where
  | console (printed : List (BitVec 8))
  | file (handle : FileHandle)
  | memory (id cursor : Nat) (object : Option Shm.SharedMem)
  | peer (peerId : Nat) (endpoint : Socket.Endpoint)

namespace Sink

def room : Sink → Option Nat
  | .memory _ cursor (some object) => some (object.size - cursor)
  | .memory _ _ none => some 0
  | _ => none

def position : Sink → Nat
  | .console printed => printed.length
  | .file handle => handle.cursor
  | .memory _ cursor _ => cursor
  | .peer _ endpoint => endpoint.inbox.length

def advance (bytes : List (BitVec 8)) : Sink → Sink
  | .console printed => .console (printed ++ bytes)
  | .file handle => .file (if bytes = [] then handle else handle.written bytes)
  | .memory id cursor object => .memory id (cursor + bytes.length) object
  | .peer peerId endpoint => .peer peerId { endpoint with inbox := endpoint.inbox ++ bytes }

def accepted (sink : Sink) (bytes : List (BitVec 8)) : List (BitVec 8) :=
  match sink.room with
  | none => bytes
  | some room => bytes.take room

@[simp] theorem position_advance (sink : Sink) (bytes : List (BitVec 8)) :
    (sink.advance bytes).position = sink.position + bytes.length := by
  cases sink with
  | console printed => exact length_append
  | file handle =>
      simp only [advance]
      split
      · rename_i nothing
        rw [nothing]
        rfl
      · rfl
  | memory id cursor object => rfl
  | peer peerId endpoint => exact length_append

theorem advance_nil (sink : Sink) : sink.advance [] = sink := by
  cases sink with
  | console printed => exact congrArg Sink.console (append_nil printed)
  | file handle => rfl
  | memory id cursor object => rfl
  | peer peerId endpoint =>
      simp only [advance, append_nil]

theorem room_advance (sink : Sink) (bytes : List (BitVec 8)) :
    (sink.advance bytes).room = sink.room.map (fun room => room - bytes.length) := by
  cases sink with
  | console printed => rfl
  | file handle => rfl
  | memory id cursor object =>
      cases object with
      | none => simp [advance, room]
      | some object => simp [advance, room, Nat.sub_add_eq]
  | peer peerId endpoint => rfl

theorem accepted_isPrefix (sink : Sink) (bytes : List (BitVec 8)) :
    sink.accepted bytes <+: bytes := by
  unfold accepted
  cases sink.room with
  | none => exact prefix_refl bytes
  | some room => exact take_prefix room bytes

@[simp] theorem accepted_nil (sink : Sink) : sink.accepted [] = [] :=
  prefix_nil.mp (sink.accepted_isPrefix [])

theorem accepted_append (sink : Sink) (bytes rest : List (BitVec 8)) :
    sink.accepted (bytes ++ rest) =
      sink.accepted bytes ++ (sink.advance (sink.accepted bytes)).accepted rest := by
  have limit := sink.room_advance (sink.accepted bytes)
  unfold accepted at limit ⊢
  rw [limit]
  cases sink.room with
  | none => rfl
  | some room =>
      simp only [Option.map_some]
      rw [take_append, length_take]
      congr 2
      omega

end Sink

namespace Caller

/-- Where bytes written to a descriptor go; `none` when it takes no writing. -/
def sink (caller : Caller) (fd : Nat) : Option Sink :=
  if fd = 1 ∨ fd = 2 then some (.console caller.printed)
  else if fd < 3 then none
  else
    match caller.fd fd with
    | some .file =>
        if (caller.files fd).isDir || !(caller.files fd).writable then none
        else some (.file (caller.files fd))
    | some (.shm id cursor) => some (.memory id cursor (caller.system.shm.lookup id))
    | some (.socket id) =>
        (Socket.peerOf caller.system.sockets id).bind (fun peerId =>
          (Socket.lookup caller.system.sockets peerId).map (.peer peerId))
    | none => none

/-- The caller once a sink has taken `bytes`. -/
def receive (caller : Caller) (fd : Nat) (bytes : List (BitVec 8)) : Sink → Caller
  | .console printed => { caller with printed := printed ++ bytes }
  | .file handle => caller.setFile fd (handle.written bytes)
  | .memory id cursor object =>
      (caller.writeMemory ((object.map Shm.SharedMem.phys).getD 0 + cursor) bytes).setFd fd
        (.shm id (cursor + bytes.length))
  | .peer peerId endpoint =>
      { caller with
        system := { caller.system with
          sockets := Socket.setEndpoint caller.system.sockets peerId
            { endpoint with inbox := endpoint.inbox ++ bytes } } }

/-- The caller once `bytes` have gone where a descriptor leads. -/
def deliver (caller : Caller) (fd : Nat) (bytes : List (BitVec 8)) : Caller :=
  if bytes = [] then caller
  else
    match caller.sink fd with
    | none => caller
    | some sink => caller.receive fd bytes sink

@[simp] theorem deliver_nil (caller : Caller) (fd : Nat) : caller.deliver fd [] = caller :=
  if_pos rfl

theorem deliver_eq {caller : Caller} {fd : Nat} {target : Sink} {bytes : List (BitVec 8)}
    (something : bytes ≠ []) (leads : caller.sink fd = some target) :
    caller.deliver fd bytes = caller.receive fd bytes target := by
  unfold deliver
  rw [if_neg something, leads]

inductive Leads (caller : Caller) (fd : Nat) : Sink → Prop where
  | console (stdio : fd = 1 ∨ fd = 2) : Leads caller fd (.console caller.printed)
  | file (high : 3 ≤ fd) (entry : caller.fd fd = some .file)
      (regular : (caller.files fd).isDir = false)
      (writable : (caller.files fd).writable = true) : Leads caller fd (.file (caller.files fd))
  | memory {id cursor : Nat} (high : 3 ≤ fd) (entry : caller.fd fd = some (.shm id cursor)) :
      Leads caller fd (.memory id cursor (caller.system.shm.lookup id))
  | peer {id peerId : Nat} {endpoint : Socket.Endpoint} (high : 3 ≤ fd)
      (entry : caller.fd fd = some (.socket id))
      (paired : Socket.peerOf caller.system.sockets id = some peerId)
      (there : Socket.lookup caller.system.sockets peerId = some endpoint) :
      Leads caller fd (.peer peerId endpoint)

variable {caller : Caller} {fd : Nat} {target : Sink}

theorem leads_of_sink (leads : caller.sink fd = some target) : caller.Leads fd target := by
  unfold Caller.sink at leads
  split at leads
  · rename_i stdio
    cases leads
    exact .console stdio
  · split at leads
    · cases leads
    · rename_i high
      have high : 3 ≤ fd := Nat.le_of_not_lt high
      split at leads
      · rename_i entry
        split at leads
        · cases leads
        · rename_i writable
          cases leads
          simp only [Bool.or_eq_true, Bool.not_eq_true', not_or, Bool.not_eq_true,
            Bool.not_eq_false] at writable
          exact .file high entry writable.1 writable.2
      · rename_i entry
        cases leads
        exact .memory high entry
      · rename_i entry
        obtain ⟨peerId, paired, mapped⟩ := Option.bind_eq_some_iff.mp leads
        obtain ⟨endpoint, there, rfl⟩ := Option.map_eq_some_iff.mp mapped
        exact .peer high entry paired there
      · cases leads

theorem Leads.sink (leads : caller.Leads fd target) : caller.sink fd = some target := by
  unfold Caller.sink
  cases leads with
  | console stdio => rw [if_pos stdio]
  | file high entry regular writable =>
      rw [if_neg (by omega), if_neg (by omega), entry]
      simp [regular, writable]
  | memory high entry => rw [if_neg (by omega), if_neg (by omega), entry]
  | peer high entry paired there =>
      rw [if_neg (by omega), if_neg (by omega), entry]
      simp [paired, there]

@[simp] theorem writeMemory_currentProcess (phys : Nat) (bytes : List (BitVec 8)) :
    (caller.writeMemory phys bytes).system.currentProcess = caller.system.currentProcess := rfl

theorem fd_eq_some {entry : FdEntry} (found : caller.fd fd = some entry) :
    ∃ cr3 proc, caller.system.currentProcess = some (cr3, proc) ∧
      proc.fd fd = some entry := by
  obtain ⟨⟨cr3, proc⟩, current, opened⟩ := Option.bind_eq_some_iff.mp found
  exact ⟨cr3, proc, current, opened⟩

theorem fd_setFd {old : FdEntry} (entry : FdEntry) (found : caller.fd fd = some old) :
    (caller.setFd fd entry).fd fd = some entry := by
  obtain ⟨cr3, proc, current, opened⟩ := fd_eq_some found
  unfold setFd Caller.fd
  rw [current]
  dsimp only
  rw [System.currentProcess_setCurrentProcess current]
  have placed := Slots.lookup_put entry opened fd
  rw [if_pos rfl] at placed
  exact placed

@[simp] theorem shm_setFd (entry : FdEntry) :
    (caller.setFd fd entry).system.shm = caller.system.shm := by
  unfold setFd
  split
  · rfl
  · rfl

theorem setFd_setFd {old : FdEntry} (entry final : FdEntry) (found : caller.fd fd = some old) :
    (caller.setFd fd entry).setFd fd final = caller.setFd fd final := by
  obtain ⟨cr3, proc, current, opened⟩ := fd_eq_some found
  unfold setFd
  rw [current]
  dsimp only
  rw [System.currentProcess_setCurrentProcess current]
  unfold System.setCurrentProcess
  simp [Slots.put, modify_modify_eq, Function.comp_def]

theorem peerOf_deliver {state : Socket.State} {id peerId : Nat} {endpoint : Socket.Endpoint}
    {bytes : List (BitVec 8)} (there : Socket.lookup state peerId = some endpoint)
    (paired : Socket.peerOf state id = some peerId) :
    Socket.peerOf (Socket.setEndpoint state peerId
      { endpoint with inbox := endpoint.inbox ++ bytes }) id = some peerId := by
  obtain ⟨own, found, connected⟩ := Socket.peerOf_eq_some.mp paired
  rw [Socket.peerOf_eq_some, Socket.lookup_setEndpoint there]
  by_cases same : id = peerId
  · subst same
    rw [there] at found
    cases found
    exact ⟨_, if_pos rfl, connected⟩
  · exact ⟨own, by rw [if_neg same, found], connected⟩

theorem sink_receive {bytes : List (BitVec 8)} (something : bytes ≠ [])
    (leads : caller.Leads fd target) :
    (caller.receive fd bytes target).sink fd = some (target.advance bytes) := by
  cases leads with
  | console stdio => exact (Leads.console stdio).sink
  | file high entry regular writable =>
      have placed : (caller.setFile fd ((caller.files fd).written bytes)).files fd =
          (caller.files fd).written bytes := by
        simp [setFile]
      have lead := @Leads.file (caller.setFile fd ((caller.files fd).written bytes)) fd high entry
        (by rw [placed]; exact regular) (by rw [placed]; exact writable)
      rw [placed] at lead
      simp only [Sink.advance, if_neg something]
      exact lead.sink
  | @memory id cursor high entry =>
      have placed : (caller.receive fd bytes
          (.memory id cursor (caller.system.shm.lookup id))).fd fd =
          some (.shm id (cursor + bytes.length)) := fd_setFd _ entry
      have same : (caller.receive fd bytes
          (.memory id cursor (caller.system.shm.lookup id))).system.shm = caller.system.shm :=
        shm_setFd _
      have lead := (Leads.memory high placed).sink
      rw [same] at lead
      exact lead
  | @peer id peerId endpoint high entry paired there =>
      have kept := @peerOf_deliver _ _ _ _ bytes there paired
      have placed : Socket.lookup (Socket.setEndpoint caller.system.sockets peerId
          { endpoint with inbox := endpoint.inbox ++ bytes }) peerId =
          some { endpoint with inbox := endpoint.inbox ++ bytes } := by
        rw [Socket.lookup_setEndpoint there, if_pos rfl]
      exact (@Leads.peer (caller.receive fd bytes (.peer peerId endpoint)) fd _ _ _ high entry kept
        placed).sink

theorem sink_deliver (bytes : List (BitVec 8)) (leads : caller.sink fd = some target) :
    (caller.deliver fd bytes).sink fd = some (target.advance bytes) := by
  by_cases nothing : bytes = []
  · subst nothing
    rw [deliver_nil, Sink.advance_nil, leads]
  · rw [deliver_eq nothing leads]
    exact sink_receive nothing (leads_of_sink leads)

theorem writeBytes_writeBytes (mem : ByteMemory) (addr : Nat) (front back : List (BitVec 8)) :
    (mem.writeBytes addr front).writeBytes (addr + front.length) back =
      mem.writeBytes addr (front ++ back) := by
  funext at'
  simp only [ByteMemory.writeBytes, length_append]
  by_cases late : addr + front.length ≤ at' ∧ at' < addr + front.length + back.length
  · rw [if_pos late, if_pos (by omega), getD_append_right _ _ _ _ (by omega)]
    congr 1
    omega
  · rw [if_neg late]
    by_cases early : addr ≤ at' ∧ at' < addr + front.length
    · rw [if_pos early, if_pos (by omega), getD_append _ _ _ _ (by omega)]
    · rw [if_neg early, if_neg (by omega)]

theorem writeMemory_writeMemory (phys : Nat) (front back : List (BitVec 8)) :
    (caller.writeMemory phys front).writeMemory (phys + front.length) back =
      caller.writeMemory phys (front ++ back) := by
  simp only [writeMemory, writeBytes_writeBytes]

theorem writeMemory_setFd (entry : FdEntry) (phys : Nat) (bytes : List (BitVec 8)) :
    (caller.setFd fd entry).writeMemory phys bytes =
      (caller.writeMemory phys bytes).setFd fd entry := by
  unfold setFd
  rw [writeMemory_currentProcess]
  split
  · rfl
  · rfl

theorem receive_receive (front back : List (BitVec 8)) (noFront : front ≠ [])
    (leads : caller.Leads fd target) :
    (caller.receive fd front target).receive fd back (target.advance front) =
      caller.receive fd (front ++ back) target := by
  cases leads with
  | console stdio => simp only [receive, Sink.advance, append_assoc]
  | file high entry regular writable =>
      simp only [receive, Sink.advance, if_neg noFront, FileHandle.written_written, setFile,
        Function.update_idem]
  | @memory id cursor high entry =>
      simp only [receive, Sink.advance, writeMemory_setFd, length_append]
      rw [← Nat.add_assoc _ cursor front.length, writeMemory_writeMemory, Nat.add_assoc cursor]
      exact @setFd_setFd (caller.writeMemory _ (front ++ back)) fd _ _ _ entry
  | peer high entry paired there =>
      simp only [receive, Sink.advance, Socket.setEndpoint, Slots.put, set_set, append_assoc]

theorem deliver_deliver (leads : caller.sink fd = some target) (front back : List (BitVec 8)) :
    (caller.deliver fd front).deliver fd back = caller.deliver fd (front ++ back) := by
  by_cases noFront : front = []
  · subst noFront
    rw [deliver_nil, nil_append]
  · by_cases noBack : back = []
    · subst noBack
      rw [deliver_nil, append_nil]
    · have noBoth : front ++ back ≠ [] := by simp [noFront]
      rw [deliver_eq noBack (sink_deliver front leads), deliver_eq noFront leads,
        deliver_eq noBoth leads]
      exact receive_receive front back noFront (leads_of_sink leads)

end Caller

end MachaOS.Vfs
