/-
`writev` writes buffer after buffer.  An element that lies outside the caller's memory ends
it with an error, whatever the elements before it have written.
-/

import MachaOS.Vfs.Sinks
import MachaOS.Vfs.Positioned

namespace MachaOS.Vfs

open List Caller Option
open Fallible

structure Gathered where
  bytes : List (BitVec 8)
  broken : Bool

/-- What reaches the descriptor when it takes `bytes`. -/
def encoded (fd : Nat) (bytes : List (BitVec 8)) : List (BitVec 8) :=
  if fd = 1 ∨ fd = 2 then bytes.flatMap printedChar else bytes

namespace Caller

def element (caller : Caller) (at' : Nat) : Option (List (BitVec 8)) :=
  (caller.resolve at' 16).bind (fun entry =>
    let base := (caller.system.machine.mem.readU64 entry).toNat
    let len := (caller.system.machine.mem.readU64 (entry + 8)).toNat
    if len = 0 then some []
    else (caller.resolve base len).map (fun phys => caller.bytesAt phys len))

def accepted (caller : Caller) (fd : Nat) (bytes : List (BitVec 8)) : List (BitVec 8) :=
  match caller.sink fd with
  | none => []
  | some sink => sink.accepted bytes

/-- The buffers of `left` elements from index `i` on.  Memory that a write changes is read
as that write leaves it. -/
def gather (fd iov : Nat) : Nat → Nat → Caller → Gathered
  | 0, _, _ => { bytes := [], broken := false }
  | left + 1, i, caller =>
      match caller.element ((iov + i * 16) % wordLimit) with
      | none => { bytes := [], broken := true }
      | some bytes =>
          let rest :=
            gather fd iov left (i + 1) (caller.deliver fd (encoded fd (caller.accepted fd bytes)))
          { bytes := bytes ++ rest.bytes, broken := rest.broken }

def Reports (caller : Caller) (fd : Nat) (buffers : List (BitVec 8)) (result : BitVec 64)
    (after : Caller) : Prop :=
  (0 ≤ result.toInt → result.toNat ≤ buffers.length ∧
    after = caller.deliver fd (buffers.take result.toNat)) ∧
  (result.toInt < 0 → after = caller)

end Caller

section

variable {caller after : Caller} {fd : Nat} {target : Sink} {bytes : List (BitVec 8)}
  {result : BitVec 64}

theorem err_negative {errno : Nat} (positive : 0 < errno) (small : errno < 2 ^ 63) :
    (err errno).toInt < 0 := by
  unfold err
  rw [BitVec.toInt_ofInt, Int.bmod_eq_of_le (by omega) (by omega)]
  omega

theorem vfsErr_negative (failure : VfsError) : (vfsErr failure).toInt < 0 := by
  cases failure <;> decide

theorem shmWrite_run {id cursor : Nat} (high : 3 ≤ fd)
    (entry : caller.fd fd = some (.shm id cursor)) (bytes : List (BitVec 8)) :
    shmWrite fd id cursor bytes caller =
      (.ok ((Sink.memory id cursor (caller.system.shm.lookup id)).accepted bytes).length,
        caller.deliver fd
          ((Sink.memory id cursor (caller.system.shm.lookup id)).accepted bytes)) := by
  have leads := (Caller.Leads.memory high entry).sink
  unfold shmWrite Shm.physOf Shm.sizeOf
  cases found : caller.system.shm.lookup id with
  | none =>
      have nothing : (Sink.memory id cursor none).accepted bytes = [] :=
        @take_zero _ bytes
      rw [nothing, deliver_nil]
      rfl
  | some object =>
      rw [found] at leads
      have taken : (Sink.memory id cursor (some object)).accepted bytes =
          bytes.take (min (object.size - cursor) bytes.length) := by
        rw [← take_take, take_length]
        rfl
      have length : (bytes.take (min (object.size - cursor) bytes.length)).length =
          min (object.size - cursor) bytes.length := by
        rw [length_take]
        omega
      rw [taken, length]
      simp only [map_some]
      by_cases nothing : min (object.size - cursor) bytes.length = 0
      · rw [if_neg (by omega), nothing, take_zero, deliver_nil]
      · have something : bytes.take (min (object.size - cursor) bytes.length) ≠ [] := by
          intro empty
          rw [empty] at length
          exact nothing length.symm
        rw [if_pos (by omega), deliver_eq something leads]
        simp only [Caller.receive, length, map_some, getD_some]

theorem socketSend_run (id : Nat) (bytes : List (BitVec 8)) (caller : Caller) :
    socketSend id bytes caller =
      match (Socket.peerOf caller.system.sockets id).bind (fun peerId =>
          (Socket.lookup caller.system.sockets peerId).map (fun peer => (peerId, peer))) with
      | none => (.ok none, caller)
      | some (peerId, peer) =>
          (.ok (some bytes.length), caller.receive fd bytes (.peer peerId peer)) := by
  unfold socketSend Socket.send
  cases paired : Socket.peerOf caller.system.sockets id with
  | none => rfl
  | some peerId =>
      cases there : Socket.lookup caller.system.sockets peerId with
      | none =>
          simp only [there, bind_some, map_none, foldl_nil]
          rfl
      | some peer =>
          simp only [there, bind_some, map_some, foldl_nil, append_nil]
          rfl

theorem writeBytes_refused (refuses : caller.sink fd = none)
    (ran : writeBytes fd bytes caller = (.ok result, after)) :
    result.toInt < 0 ∧ after = caller := by
  unfold Caller.sink at refuses
  unfold writeBytes at ran
  split at refuses
  · cases refuses
  · rename_i notConsole
    rw [if_neg notConsole] at ran
    split at refuses
    · rename_i low
      rw [if_pos low] at ran
      cases ran
      exact ⟨err_negative (by decide) (by decide), rfl⟩
    · rename_i high
      rw [if_neg high] at ran
      split at refuses
      · rename_i entry
        rw [entry] at ran
        split at refuses
        · rename_i unwritable
          have refused : (caller.files fd).write bytes =
              some (.error .isDir, caller.files fd) := by
            unfold FileHandle.write
            rw [if_pos unwritable]
          simp only [refused] at ran
          cases ran
          refine ⟨vfsErr_negative _, ?_⟩
          simp [Caller.setFile]
        · cases refuses
      · cases refuses
      · rename_i id entry
        rw [entry] at ran
        have unpaired : (Socket.peerOf caller.system.sockets id).bind (fun peerId =>
            (Socket.lookup caller.system.sockets peerId).map (fun peer => (peerId, peer))) =
            none := by
          cases paired : Socket.peerOf caller.system.sockets id with
          | none => rfl
          | some peerId =>
              rw [paired] at refuses
              rw [bind_some, map_eq_none_iff] at refuses ⊢
              exact refuses
        have sent := @socketSend_run fd id bytes caller
        rw [unpaired] at sent
        dsimp only at ran
        rw [bind_of_ok sent] at ran
        cases ran
        exact ⟨err_negative (by decide) (by decide), rfl⟩
      · rename_i entry
        rw [entry] at ran
        cases ran
        exact ⟨err_negative (by decide) (by decide), rfl⟩

theorem encoded_nil : encoded fd [] = [] := by
  unfold encoded
  split <;> rfl

theorem encoded_append (front back : List (BitVec 8)) :
    encoded fd (front ++ back) = encoded fd front ++ encoded fd back := by
  unfold encoded
  split
  · exact flatMap_append
  · rfl

theorem encoded_of_high (high : 3 ≤ fd) : encoded fd bytes = bytes :=
  if_neg (by omega)

theorem length_printed (bytes : List (BitVec 8)) :
    bytes.length ≤ (bytes.flatMap printedChar).length ∧
      ((bytes.flatMap printedChar).length = bytes.length → ∀ byte ∈ bytes, byte < 0x80#8) := by
  induction bytes with
  | nil => exact ⟨Nat.le_refl _, fun _ => forall_mem_nil _⟩
  | cons byte rest ih =>
      rw [flatMap_cons, length_append, length_cons, printedChar]
      by_cases plain : byte < 0x80#8
      · rw [if_pos plain, length_singleton]
        refine ⟨by omega, fun same => forall_mem_cons.mpr ⟨plain, ih.2 (by omega)⟩⟩
      · rw [if_neg plain]
        simp only [length_cons, length_nil]
        exact ⟨by omega, fun same => absurd same (by omega)⟩

theorem printed_plain (plain : ∀ byte ∈ bytes, byte < 0x80#8) : bytes.flatMap printedChar = bytes := by
  induction bytes with
  | nil => rfl
  | cons byte rest ih =>
      obtain ⟨first, later⟩ := forall_mem_cons.mp plain
      rw [flatMap_cons, ih later, printedChar, if_pos first]
      rfl

theorem length_le_encoded (bytes : List (BitVec 8)) : bytes.length ≤ (encoded fd bytes).length := by
  unfold encoded
  split
  · exact (length_printed bytes).1
  · exact Nat.le_refl _

/-- Only bytes below `0x80` reach the console as they are. -/
theorem length_encoded_iff : (encoded fd bytes).length = bytes.length ↔
    (fd = 1 ∨ fd = 2 → ∀ byte ∈ bytes, byte < 0x80#8) := by
  unfold encoded
  split
  · rename_i console
    exact ⟨fun same _ => (length_printed bytes).2 same, fun plain => by rw [printed_plain (plain console)]⟩
  · rename_i other
    exact ⟨fun _ console => absurd console other, fun _ => rfl⟩

theorem encoded_plain (plain : fd = 1 ∨ fd = 2 → ∀ byte ∈ bytes, byte < 0x80#8) :
    encoded fd bytes = bytes := by
  unfold encoded
  split
  · rename_i console
    exact printed_plain (plain console)
  · rfl

/-- How much room a sink has left is a matter of the bytes taken. -/
theorem accepted_encoded (leads : caller.sink fd = some target) (taken rest : List (BitVec 8)) :
    (target.advance (encoded fd taken)).accepted rest = (target.advance taken).accepted rest := by
  cases leads_of_sink leads with
  | console stdio => rfl
  | file high _ _ _ => rw [encoded_of_high high]
  | memory high _ => rw [encoded_of_high high]
  | peer high _ _ _ => rw [encoded_of_high high]

theorem writeBytes_taken (leads : caller.sink fd = some target) (something : bytes ≠ [])
    (ran : writeBytes fd bytes caller = (.ok result, after)) :
    result = BitVec.ofNat 64 (target.accepted bytes).length ∧
      after = caller.deliver fd (encoded fd (target.accepted bytes)) := by
  unfold writeBytes at ran
  cases leads_of_sink leads with
  | console stdio =>
      rw [if_pos stdio] at ran
      cases ran
      have printed : encoded fd bytes = bytes.flatMap printedChar := if_pos stdio
      have some' : encoded fd bytes ≠ [] := by
        intro nothing
        have short := @length_le_encoded fd bytes
        rw [nothing] at short
        exact something (length_eq_zero_iff.mp (Nat.le_zero.mp short))
      refine ⟨rfl, ?_⟩
      change _ = caller.deliver fd (encoded fd bytes)
      rw [deliver_eq some' leads, printed]
      rfl
  | file high entry regular writable =>
      rw [encoded_of_high high]
      rw [if_neg (by omega), if_neg (by omega), entry] at ran
      dsimp only at ran
      have within : (caller.files fd).cursor + bytes.length ≤ i64Max := by
        by_contra beyond
        unfold FileHandle.write at ran
        rw [if_neg (by simp [regular, writable]), if_neg beyond] at ran
        cases ran
      rw [FileHandle.write_spec regular writable within] at ran
      cases ran
      exact ⟨rfl, (deliver_eq something leads).symm⟩
  | memory high entry =>
      rw [encoded_of_high high]
      rw [if_neg (by omega), if_neg (by omega), entry] at ran
      dsimp only at ran
      rw [bind_of_ok (shmWrite_run high entry bytes)] at ran
      cases ran
      exact ⟨rfl, rfl⟩
  | @peer id peerId endpoint high entry paired there =>
      rw [encoded_of_high high]
      rw [if_neg (by omega), if_neg (by omega), entry] at ran
      dsimp only at ran
      have sent := @socketSend_run fd id bytes caller
      rw [paired, bind_some, there, map_some] at sent
      rw [bind_of_ok sent] at ran
      cases ran
      exact ⟨rfl, (deliver_eq something leads).symm⟩

theorem element_length_lt {at' : Nat} (found : caller.element at' = some bytes) :
    bytes.length < 2 ^ 64 := by
  obtain ⟨entry, -, found⟩ := bind_eq_some_iff.mp found
  dsimp only at found
  split at found
  · cases found
    exact Nat.two_pow_pos 64
  · obtain ⟨phys, -, rfl⟩ := map_eq_some_iff.mp found
    unfold Caller.bytesAt
    rw [length_map, length_range]
    exact BitVec.isLt _

theorem writeElement_cases {at' : Nat} {turn : Turn}
    (ran : writeElement fd at' caller = (.ok turn, after)) :
    (caller.element at' = none ∧ after = caller ∧
        ∃ failure, turn = .returned failure ∧ failure.toInt < 0) ∨
      (caller.element at' = some [] ∧ after = caller ∧ turn = .added 0#64) ∨
      ∃ bytes value, caller.element at' = some bytes ∧ bytes ≠ [] ∧
        writeBytes fd bytes caller = (.ok value, after) ∧
        turn = if value.toInt < 0 then .returned value else .added value := by
  unfold writeElement at ran
  unfold Caller.element
  cases listed : caller.resolve at' 16 with
  | none =>
      rw [listed] at ran
      cases ran
      exact Or.inl ⟨rfl, rfl, _, rfl, err_negative (by decide) (by decide)⟩
  | some entry =>
      rw [listed] at ran
      simp only [bind_some] at ran ⊢
      split at ran
      · rename_i empty
        cases ran
        rw [if_pos empty]
        exact Or.inr (Or.inl ⟨rfl, rfl, rfl⟩)
      · rename_i long
        rw [if_neg long]
        obtain ⟨value, middle, wrote, rest⟩ := bind_eq_ok ran
        cases rest
        unfold sysWrite at wrote
        cases leads : caller.resolve (caller.system.machine.mem.readU64 entry).toNat
            (caller.system.machine.mem.readU64 (entry + 8)).toNat with
        | none =>
            rw [leads] at wrote
            cases wrote
            have negative : (err efault).toInt < 0 := err_negative (by decide) (by decide)
            exact Or.inl ⟨rfl, rfl, _, if_pos negative, negative⟩
        | some phys =>
            rw [leads] at wrote
            refine Or.inr (Or.inr ⟨_, value, rfl, ?_, wrote, rfl⟩)
            intro nothing
            have length := congrArg List.length nothing
            simp only [Caller.bytesAt, length_map, length_range, length_nil] at length
            exact long length

variable {overflowChecks : Bool}

theorem checkedAdd_eq {left right sum : Nat}
    (ran : checkedAdd overflowChecks left right caller = (.ok sum, after)) :
    sum = (left + right) % wordLimit ∧ caller = after := by
  unfold checkedAdd at ran
  split at ran
  · cases ran
  · cases ran
    exact ⟨rfl, rfl⟩

theorem writevLoop_succ {iov left i total : Nat}
    (ran : writevLoop overflowChecks fd iov (left + 1) i total caller = (.ok result, after)) :
    ∃ turn middle, writeElement fd ((iov + i * 16) % wordLimit) caller = (.ok turn, middle) ∧
      match turn with
      | .returned failure => result = failure ∧ after = middle
      | .added n => writevLoop overflowChecks fd iov left (i + 1)
          ((total + n.toNat) % wordLimit) middle = (.ok result, after) := by
  obtain ⟨at', start, added, later⟩ := bind_eq_ok ran
  obtain ⟨rfl, rfl⟩ := checkedAdd_eq added
  obtain ⟨turn, middle, turned, rest⟩ := bind_eq_ok later
  refine ⟨turn, middle, turned, ?_⟩
  cases turn with
  | returned failure =>
      cases rest
      exact ⟨rfl, rfl⟩
  | added n =>
      obtain ⟨sum, same, summed, last⟩ := bind_eq_ok rest
      obtain ⟨rfl, rfl⟩ := checkedAdd_eq summed
      exact last

theorem writevLoop_refused {iov left i : Nat} (refuses : caller.sink fd = none)
    (ran : writevLoop overflowChecks fd iov left i 0 caller = (.ok result, after)) :
    after = caller ∧ (result = 0#64 ∨ result.toInt < 0) := by
  induction left generalizing i with
  | zero =>
      cases ran
      exact ⟨rfl, Or.inl rfl⟩
  | succ left ih =>
      obtain ⟨turn, middle, turned, rest⟩ := writevLoop_succ ran
      rcases writeElement_cases turned with ⟨-, rfl, failure, rfl, negative⟩ | ⟨-, rfl, rfl⟩ |
        ⟨bytes, value, -, -, wrote, rfl⟩
      · obtain ⟨rfl, rfl⟩ := rest
        exact ⟨rfl, Or.inr negative⟩
      · exact ih rest
      · obtain ⟨negative, rfl⟩ := writeBytes_refused refuses wrote
        rw [if_pos negative] at rest
        obtain ⟨rfl, rfl⟩ := rest
        exact ⟨rfl, Or.inr negative⟩

inductive Ends (caller : Caller) (fd : Nat) (taken : List (BitVec 8)) (broken : Bool)
    (total : Nat) : BitVec 64 → Caller → Prop where
  | finished (whole : broken = false) :
      Ends caller fd taken broken total (BitVec.ofNat 64 (total + taken.length))
        (caller.deliver fd (encoded fd taken))
  | stopped {failure : BitVec 64} (outside : broken = true) (negative : failure.toInt < 0) :
      Ends caller fd taken broken total failure (caller.deliver fd (encoded fd taken))
  | mistaken {count : BitVec 64} {some' : List (BitVec 8)} (part : some' <+: taken)
      (large : 2 ^ 63 ≤ some'.length) (negative : count.toInt < 0) :
      Ends caller fd taken broken total count (caller.deliver fd (encoded fd some'))

theorem Ends.cons {front taken : List (BitVec 8)} {broken : Bool} {total : Nat}
    (leads : caller.sink fd = some target)
    (ends : Ends (caller.deliver fd (encoded fd front)) fd taken broken
      ((total + front.length) % wordLimit) result after) : Ends caller fd (front ++ taken) broken total result after := by
  cases ends with
  | finished whole =>
      rw [deliver_deliver leads, ← encoded_append]
      have same : BitVec.ofNat 64 ((total + front.length) % wordLimit + taken.length) =
          BitVec.ofNat 64 (total + (front ++ taken).length) := by
        rw [length_append]
        apply BitVec.eq_of_toNat_eq
        rw [BitVec.toNat_ofNat, BitVec.toNat_ofNat]
        unfold wordLimit
        omega
      rw [same]
      exact .finished whole
  | stopped outside negative =>
      rw [deliver_deliver leads, ← encoded_append]
      exact .stopped outside negative
  | mistaken part large negative =>
      rw [deliver_deliver leads, ← encoded_append]
      refine .mistaken ((prefix_append_right_inj front).mpr part) ?_ negative
      rw [length_append]
      omega

theorem writevLoop_ends {iov left i total : Nat} (leads : caller.sink fd = some target)
    (ran : writevLoop overflowChecks fd iov left i total caller = (.ok result, after)) :
    Ends caller fd (target.accepted (Caller.gather fd iov left i caller).bytes)
      (Caller.gather fd iov left i caller).broken total result after := by
  induction left generalizing i total caller target with
  | zero =>
      cases ran
      have done := @Ends.finished after fd (target.accepted []) false total rfl
      rw [Sink.accepted_nil, encoded_nil, length_nil, Nat.add_zero, deliver_nil] at done
      simpa [Caller.gather] using done
  | succ left ih =>
      obtain ⟨turn, middle, turned, rest⟩ := writevLoop_succ ran
      unfold Caller.gather
      rcases writeElement_cases turned with ⟨outside, rfl, failure, rfl, negative⟩ |
        ⟨empty, rfl, rfl⟩ | ⟨bytes, value, found, something, wrote, rfl⟩
      · obtain ⟨rfl, rfl⟩ := rest
        rw [outside]
        have done := @Ends.stopped after fd [] true total result rfl negative
        rw [encoded_nil, deliver_nil] at done
        simpa using done
      · have nothing : middle.accepted fd [] = [] := by
          unfold Caller.accepted
          rw [leads]
          exact target.accepted_nil
        have later : Ends (middle.deliver fd (encoded fd [])) fd
            (target.accepted (Caller.gather fd iov left (i + 1) middle).bytes)
            (Caller.gather fd iov left (i + 1) middle).broken
            ((total + ([] : List (BitVec 8)).length) % wordLimit) result after := by
          rw [encoded_nil, deliver_nil]
          exact ih leads rest
        rw [empty]
        simp only [nothing, encoded_nil, deliver_nil, nil_append]
        exact later.cons leads
      · obtain ⟨count, rfl⟩ := writeBytes_taken leads something wrote
        have taken : caller.accepted fd bytes = target.accepted bytes := by
          unfold Caller.accepted
          rw [leads]
        have short : (target.accepted bytes).length < 2 ^ 64 :=
          (target.accepted_isPrefix bytes).length_le.trans_lt (element_length_lt found)
        have exact' : value.toNat = (target.accepted bytes).length := by
          rw [count, BitVec.toNat_ofNat, Nat.mod_eq_of_lt short]
        rw [found]
        simp only [taken, Sink.accepted_append]
        by_cases negative : value.toInt < 0
        · rw [if_pos negative] at rest
          obtain ⟨rfl, rfl⟩ := rest
          refine .mistaken (prefix_append _ _) ?_ negative
          rw [← exact']
          rw [BitVec.toInt_eq_toNat_cond] at negative
          split at negative <;> omega
        · rw [if_neg negative] at rest
          have later := ih (sink_deliver _ leads) rest
          rw [exact', accepted_encoded leads] at later
          exact later.cons leads

theorem length_of_deliver {front back : List (BitVec 8)} (leads : caller.sink fd = some target)
    (same : caller.deliver fd front = caller.deliver fd back) : front.length = back.length := by
  have one := sink_deliver front leads
  have other := sink_deliver back leads
  rw [same, other] at one
  have place := congrArg Sink.position (Option.some.inj one)
  rw [Sink.position_advance, Sink.position_advance] at place
  omega

theorem eq_nil_of_deliver (leads : caller.sink fd = some target)
    (same : caller.deliver fd bytes = caller) : bytes = [] := by
  rw [← length_eq_zero_iff]
  refine @length_of_deliver caller fd target bytes [] leads ?_
  rw [same, deliver_nil]

theorem toNat_of_nonneg {value : BitVec 64} (nonneg : 0 ≤ value.toInt) : value.toNat < 2 ^ 63 := by
  rw [BitVec.toInt_eq_toNat_cond] at nonneg
  split at nonneg <;> omega

end

def twoBuffers (second : BitVec 64) : Caller :=
  { oneFile with
    system := { oneFile.system with
      machine := { oneFile.system.machine with
        mem := ((((oneFile.system.machine.mem.writeU64 0x1000 0x1040#64).writeU64 0x1008
          1#64).writeU64 0x1010 second).writeU64 0x1018 1#64).writeByte 0x1040 0x41#8 } } }

theorem returned_of_toOption {routine : Call (BitVec 64)} {caller : Caller} {result : BitVec 64}
    (returned : (routine caller).1.toOption = some result) :
    routine caller = (.ok result, (routine caller).2) := by
  rcases outcome : routine caller with ⟨_ | value, after⟩
  · rw [outcome] at returned
    cases returned
  · rw [outcome] at returned
    cases returned
    rfl

end MachaOS.Vfs
