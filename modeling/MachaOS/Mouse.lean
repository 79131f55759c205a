/-
The mouse driver (`irq` and `next_event` of `src/mouse.rs`): bytes of the PS/2 stream become packets,
packets become events, and events wait in the queue.

`frames` cuts a whole stream into packets at once; the driver does the same byte by byte, between any
calls of `next_event`.
-/

import MachaOS.EventQueues

namespace MachaOS.Mouse

open List
open Checked

structure PacketState where
  bytes : List (BitVec 8)
  index : Nat

structure Driver where
  packet : PacketState
  skipFirstPacket : Bool
  queue : EventQueue MouseEvent

def start : Driver :=
  { packet := { bytes := List.replicate 3 0#8, index := 0 }
    skipFirstPacket := true
    queue := EventQueue.new BUFFER_CAPACITY BLANK_EVENT }

/-- A movement: the byte, less 256 if its sign bit is set in the first byte. -/
def delta (byte : BitVec 8) (sign : Bool) : Int32 :=
  if sign then Int32.ofInt byte.toNat - 256 else Int32.ofInt byte.toNat

def event (b0 b1 b2 : BitVec 8) : MouseEvent :=
  { dx := delta b1 (b0 &&& 0x10#8 ≠ 0#8)
    dy := -delta b2 (b0 &&& 0x20#8 ≠ 0#8)
    left := b0 &&& 0x01#8 ≠ 0#8
    right := b0 &&& 0x02#8 ≠ 0#8
    middle := b0 &&& 0x04#8 ≠ 0#8 }

def irq (data : BitVec 8) (driver : Driver) : Checked Driver :=
  if driver.packet.index = 0 ∧ data &&& 0x08#8 = 0#8 then .ok driver
  else do
    inside (driver.packet.index < driver.packet.bytes.length)
    let bytes := driver.packet.bytes.set driver.packet.index data
    let count ← add driver.packet.index 1
    if count < 3 then .ok { driver with packet := { bytes, index := count } }
    else do
      let b0 ← index bytes 0
      let b1 ← index bytes 1
      let b2 ← index bytes 2
      let read := { driver with packet := { bytes, index := 0 }, skipFirstPacket := false }
      if driver.skipFirstPacket then .ok read
      else do
        let queue ← read.queue.push BUFFER_CAPACITY (event b0 b1 b2)
        .ok { read with queue }

def nextEvent (driver : Driver) : Checked (Option MouseEvent × Driver) := do
  let (answer, queue) ← driver.queue.pop BUFFER_CAPACITY
  .ok (answer, { driver with queue })

inductive Input where
  | byte (data : BitVec 8)
  | poll

/-- The driver and the events handed out so far. -/
def step (state : Driver × List MouseEvent) : Input → Checked (Driver × List MouseEvent)
  | .byte data => do
      let driver ← irq data state.1
      .ok (driver, state.2)
  | .poll => do
      let (answer, driver) ← nextEvent state.1
      .ok (driver, state.2 ++ answer.toList)

def Input.findsRoom (driver : Driver) : Input → Bool
  | .poll => true
  | .byte _ => driver.packet.index ≠ 2 ∨ (driver.queue.head + 1) % BUFFER_CAPACITY ≠ driver.queue.tail

/-- The queue has room whenever a byte completes a packet. -/
def roomy : List Input → Driver × List MouseEvent → Bool
  | [], _ => true
  | input :: rest, state =>
      input.findsRoom state.1 && match step state input with
        | .ok next => roomy rest next
        | .error _ => true

def received (inputs : List Input) : List (BitVec 8) :=
  inputs.filterMap (fun input => match input with
    | .byte data => some data
    | .poll => none)

def frames : List (BitVec 8) → List (BitVec 8 × BitVec 8 × BitVec 8)
  | b0 :: b1 :: b2 :: rest =>
      if b0 &&& 0x08#8 = 0#8 then frames (b1 :: b2 :: rest) else (b0, b1, b2) :: frames rest
  | _ => []

/-- What the packets of a stream are to bring, with the first one left out if it is to be skipped. -/
def arriving (skip : Bool) (stream : List (BitVec 8)) : List MouseEvent :=
  ((frames stream).drop (if skip then 1 else 0)).map (fun frame => event frame.1 frame.2.1 frame.2.2)

theorem frames_unsynced {data : BitVec 8} (unsynced : data &&& 0x08#8 = 0#8)
    (stream : List (BitVec 8)) : frames (data :: stream) = frames stream := by
  rcases stream with _ | ⟨second, _ | ⟨third, rest⟩⟩
  · rfl
  · rfl
  · rw [frames, if_pos unsynced]

theorem frames_short {stream : List (BitVec 8)} (short : stream.length < 3) : frames stream = [] := by
  rcases stream with _ | ⟨_, _ | ⟨_, _ | ⟨_, rest⟩⟩⟩
  · rfl
  · rfl
  · rfl
  · exact absurd short (by simp only [length_cons]; omega)

theorem arriving_packet {b0 b1 b2 : BitVec 8} {skip : Bool} {stream : List (BitVec 8)}
    (synced : b0 &&& 0x08#8 ≠ 0#8) : arriving skip ([b0, b1] ++ b2 :: stream) =
      if skip then arriving false stream else event b0 b1 b2 :: arriving false stream := by
  rw [arriving, cons_append, cons_append, nil_append, frames, if_neg synced]
  cases skip <;> rfl

/-- The bytes of a packet that is not yet complete. -/
structure Assembling (part : List (BitVec 8)) (packet : PacketState) : Prop where
  size : packet.bytes.length = 3
  count : packet.index = part.length
  short : part.length < 3
  bytes : packet.bytes.take part.length = part
  synced : ∀ first, part.head? = some first → first &&& 0x08#8 ≠ 0#8

theorem Assembling.restarted {bytes : List (BitVec 8)} (size : bytes.length = 3) :
    Assembling [] { bytes, index := 0 } :=
  ⟨size, rfl, Nat.zero_lt_succ 2, rfl, fun _ none => nomatch none⟩

variable {part : List (BitVec 8)} {driver : Driver} {data : BitVec 8}

theorem Assembling.take_set {bytes : List (BitVec 8)} (size : bytes.length = 3)
    (short : part.length < 3) (taken : bytes.take part.length = part) :
    (bytes.set part.length data).take (part.length + 1) = part ++ [data] := by
  rw [take_add_one, List.getElem?_set_self (by omega), take_set_of_le (Nat.le_refl _), taken]
  rfl

/-- A byte is dropped, or completes no packet, or completes one. -/
theorem Assembling.irq (assembling : Assembling part driver.packet) (data : BitVec 8) :
    (part = [] ∧ data &&& 0x08#8 = 0#8 ∧ irq data driver = .ok driver) ∨
    (∃ packet, irq data driver = .ok { driver with packet } ∧ Assembling (part ++ [data]) packet) ∨
    ∃ b0 b1 packet, part = [b0, b1] ∧ b0 &&& 0x08#8 ≠ 0#8 ∧ Assembling [] packet ∧
      irq data driver = if driver.skipFirstPacket
        then .ok { driver with packet, skipFirstPacket := false }
        else (driver.queue.push BUFFER_CAPACITY (event b0 b1 data) >>= fun queue =>
          .ok { packet, skipFirstPacket := false, queue }) := by
  obtain ⟨size, count, short, bytes, synced⟩ := assembling
  have sized : (driver.packet.bytes.set part.length data).length = 3 := by
    rw [length_set, size]
  have fits : part.length + 1 < limit := Nat.lt_trans (Nat.succ_lt_succ short) (by decide)
  have filled := @Assembling.take_set _ data _ size short bytes
  by_cases dropped : driver.packet.index = 0 ∧ data &&& 0x08#8 = 0#8
  · exact Or.inl ⟨length_eq_zero_iff.mp (count.symm.trans dropped.1), dropped.2, if_pos dropped⟩
  · right
    have within : part.length < driver.packet.bytes.length := by omega
    unfold Mouse.irq
    rw [if_neg dropped, count, inside_ok within, Except.ok_bind, add_ok fits, Except.ok_bind]
    by_cases more : part.length + 1 < 3
    · refine Or.inl ⟨_, by rw [if_pos more], sized, ?_, ?_, ?_, ?_⟩
      · rw [length_append, length_singleton]
      · rwa [length_append]
      · rw [length_append, length_singleton]
        exact filled
      · intro first first'
        cases part with
        | nil =>
            cases first'
            exact fun unsynced => dropped ⟨count, unsynced⟩
        | cons head tail => exact synced first first'
    · right
      rcases part with _ | ⟨b0, _ | ⟨b1, _ | ⟨_, tail⟩⟩⟩
      · exact absurd (Nat.lt_of_succ_lt (Nat.lt_succ_self 2)) more
      · exact absurd (Nat.lt_succ_self 2) more
      · have all : driver.packet.bytes.set 2 data = [b0, b1, data] :=
          (take_of_length_le (Nat.le_of_eq sized)).symm.trans filled
        refine ⟨b0, b1, _, rfl, synced b0 rfl, Assembling.restarted sized, ?_⟩
        rw [if_neg more]
        simp only [length_cons, length_nil, all, index, List.getElem?_cons_zero,
          List.getElem?_cons_succ, Except.ok_bind]
      · exact absurd short (by simp only [length_cons]; omega)

/-- The queue takes an event, or has no room for it. -/
theorem push_event {queue : EventQueue MouseEvent} {held : List MouseEvent}
    (holds : queue.Holds BUFFER_CAPACITY held) (event : MouseEvent) :
    ∃ after taken, queue.push BUFFER_CAPACITY event = .ok after ∧
      after.Holds BUFFER_CAPACITY (held ++ taken) ∧ taken.Sublist [event] ∧
      ((queue.head + 1) % BUFFER_CAPACITY ≠ queue.tail → taken = [event]) := by
  have small : BUFFER_CAPACITY < limit := by decide
  by_cases room : held.length + 1 < BUFFER_CAPACITY
  · obtain ⟨after, done, holds'⟩ := holds.push_room small room event
    exact ⟨after, [event], done, holds', List.Sublist.refl _, fun _ => rfl⟩
  · exact ⟨queue, [], holds.push_full small room event, by rwa [append_nil],
      nil_sublist _, fun free => absurd (holds.full_at room) free⟩

/-- From a packet under assembly on: the events of the stream come in order, and all of them if the
queue has room for each. -/
theorem run_delivers (inputs : List Input) {held popped : List MouseEvent}
    (assembling : Assembling part driver.packet) (holds : driver.queue.Holds BUFFER_CAPACITY held) :
    ∃ driver' popped' held' taken, inputs.foldlM step (driver, popped) = .ok (driver', popped') ∧
      driver'.queue.Holds BUFFER_CAPACITY held' ∧ popped' ++ held' = popped ++ held ++ taken ∧
      taken.Sublist (arriving driver.skipFirstPacket (part ++ received inputs)) ∧
      (roomy inputs (driver, popped) = true →
        taken = arriving driver.skipFirstPacket (part ++ received inputs)) := by
  induction inputs generalizing part driver held popped with
  | nil =>
      refine ⟨driver, popped, held, [], rfl, holds, (append_nil _).symm, nil_sublist _,
        fun _ => ?_⟩
      rw [received, filterMap_nil, append_nil, arriving, frames_short assembling.short]
      cases driver.skipFirstPacket <;> rfl
  | cons input rest ih =>
      have first {next : Driver × List MouseEvent} (stepped : step (driver, popped) input = .ok next) :
          List.foldlM step (driver, popped) (input :: rest) = rest.foldlM step next := by
        rw [foldlM_cons, stepped]
        rfl
      have room {next : Driver × List MouseEvent} (stepped : step (driver, popped) input = .ok next)
          (found : roomy (input :: rest) (driver, popped) = true) :
          input.findsRoom driver = true ∧ roomy rest next = true := by
        rw [roomy, stepped, Bool.and_eq_true] at found
        exact found
      cases input with
      | poll =>
          cases held with
          | nil =>
              have stepped : step (driver, popped) .poll = .ok (driver, popped) := by
                rw [step, nextEvent, holds.pop_empty]
                simp only [Except.ok_bind, Option.toList_none, append_nil]
              obtain ⟨driver', popped', held', taken, ran, kept, split, sub, all⟩ :=
                @ih _ _ _ popped assembling holds
              exact ⟨driver', popped', held', taken, (first stepped).trans ran, kept, split, sub,
                fun found => all (room stepped found).2⟩
          | cons oldest others =>
              obtain ⟨queue, done, holds'⟩ := holds.pop_event (by decide)
              have stepped : step (driver, popped) .poll =
                  .ok ({ driver with queue }, popped ++ [oldest]) := by
                rw [step, nextEvent, done]
                rfl
              obtain ⟨driver', popped', held', taken, ran, kept, split, sub, all⟩ :=
                @ih _ { driver with queue } _ (popped ++ [oldest]) assembling holds'
              refine ⟨driver', popped', held', taken, (first stepped).trans ran, kept, ?_, sub,
                fun found => all (room stepped found).2⟩
              rw [split, append_assoc popped]
              rfl
      | byte data =>
          have next : received (.byte data :: rest) = data :: received rest := rfl
          have stepped {after : Driver} (done : irq data driver = .ok after) :
              step (driver, popped) (.byte data) = .ok (after, popped) := by
            rw [step, done]
            rfl
          rw [next]
          rcases assembling.irq data with ⟨rfl, unsynced, done⟩ | ⟨packet, done, assembling'⟩ |
            ⟨b0, b1, packet, rfl, synced, assembling', done⟩
          · obtain ⟨driver', popped', held', taken, ran, final, split, sub, all⟩ :=
              @ih _ _ _ popped assembling holds
            rw [nil_append, arriving, frames_unsynced unsynced]
            exact ⟨driver', popped', held', taken, (first (stepped done)).trans ran, final, split, sub,
              fun found => all (room (stepped done) found).2⟩
          · obtain ⟨driver', popped', held', taken, ran, final, split, sub, all⟩ :=
              @ih _ { driver with packet } _ popped assembling' holds
            rw [append_cons]
            exact ⟨driver', popped', held', taken, (first (stepped done)).trans ran, final, split, sub,
              fun found => all (room (stepped done) found).2⟩
          · rw [arriving_packet synced]
            cases skip : driver.skipFirstPacket with
            | true =>
                rw [skip, if_pos rfl] at done
                obtain ⟨driver', popped', held', taken, ran, final, split, sub, all⟩ :=
                  @ih _ { driver with packet, skipFirstPacket := false } _ popped assembling' holds
                exact ⟨driver', popped', held', taken, (first (stepped done)).trans ran, final, split,
                  sub, fun found => all (room (stepped done) found).2⟩
            | false =>
                obtain ⟨queue, taken, pushed, holds', kept, taken'⟩ := push_event holds (event b0 b1 data)
                rw [skip, if_neg Bool.false_ne_true, pushed, Except.ok_bind] at done
                obtain ⟨driver', popped', held', later, ran, final, split, sub, all⟩ :=
                  @ih _ { packet, skipFirstPacket := false, queue } _ popped assembling' holds'
                refine ⟨driver', popped', held', taken ++ later, (first (stepped done)).trans ran, final,
                  ?_, kept.append sub, ?_⟩
                · rw [split, append_assoc popped, append_assoc popped, append_assoc held]
                · intro found
                  obtain ⟨here, later'⟩ := room (stepped done) found
                  have free := (of_decide_eq_true here).resolve_left (not_not.mpr assembling.count)
                  rw [taken' free, all later']
                  rfl

/-- A packet as the device sends it, with movements of nine bits; what the overflow bits say the driver
does not read. -/
structure Packet where
  dx : BitVec 9
  dy : BitVec 9
  left : Bool
  right : Bool
  middle : Bool
  xOverflow : Bool
  yOverflow : Bool

def Packet.flags (packet : Packet) : BitVec 8 :=
  BitVec.ofBoolListLE [packet.left, packet.right, packet.middle, true, packet.dx.msb, packet.dy.msb,
    packet.xOverflow, packet.yOverflow]

def Packet.bytes (packet : Packet) : List (BitVec 8) :=
  [packet.flags, packet.dx.setWidth 8, packet.dy.setWidth 8]

/-- What the packet means on a screen, where rows are counted downward. -/
def Packet.event (packet : Packet) : MouseEvent :=
  { dx := Int32.ofInt packet.dx.toInt
    dy := Int32.ofInt (-packet.dy.toInt)
    left := packet.left
    right := packet.right
    middle := packet.middle }

theorem flags_bits : ∀ b0 b1 b2 b4 b5 b6 b7 : Bool,
    let flags : BitVec 8 := BitVec.ofBoolListLE [b0, b1, b2, true, b4, b5, b6, b7]
    flags &&& 0x08#8 ≠ 0#8 ∧ decide (flags &&& 0x01#8 ≠ 0#8) = b0 ∧
      decide (flags &&& 0x02#8 ≠ 0#8) = b1 ∧ decide (flags &&& 0x04#8 ≠ 0#8) = b2 ∧
      decide (flags &&& 0x10#8 ≠ 0#8) = b4 ∧ decide (flags &&& 0x20#8 ≠ 0#8) = b5 := by
  decide

theorem delta_setWidth (movement : BitVec 9) :
    delta (movement.setWidth 8) movement.msb = Int32.ofInt movement.toInt := by
  have low : (movement.setWidth 8).toNat = movement.toNat % 256 := BitVec.toNat_setWidth 8 movement
  have below := movement.isLt
  have value := BitVec.toInt_eq_msb_cond movement
  have sign := BitVec.msb_eq_decide movement
  unfold delta
  cases negative : movement.msb with
  | false =>
      rw [negative] at value sign
      rw [if_neg Bool.false_ne_true, low, value, if_neg Bool.false_ne_true]
      have small : movement.toNat < 256 := by simpa using sign
      rw [Nat.mod_eq_of_lt small]
  | true =>
      rw [negative] at value sign
      have large : 256 ≤ movement.toNat := by simpa using sign
      rw [if_pos rfl, low, value, if_pos rfl]
      have same : (movement.toNat : Int) - (2 ^ 9 : Nat) = (movement.toNat % 256 : Nat) - 256 := by omega
      rw [same, Int32.ofInt_sub]
      rfl

theorem event_bytes (packet : Packet) :
    event packet.flags (packet.dx.setWidth 8) (packet.dy.setWidth 8) = packet.event := by
  obtain ⟨-, left, right, middle, dx, dy⟩ := flags_bits packet.left packet.right packet.middle
    packet.dx.msb packet.dy.msb packet.xOverflow packet.yOverflow
  unfold event Packet.event
  rw [Packet.flags, left, right, middle, dx, dy, delta_setWidth, delta_setWidth, Int32.ofInt_neg]

theorem arriving_packets {noise : List (BitVec 8)} (quiet : ∀ byte ∈ noise, byte &&& 0x08#8 = 0#8)
    (packets : List Packet) : arriving false (noise ++ packets.flatMap Packet.bytes) =
      packets.map Packet.event := by
  induction noise with
  | cons byte rest ih =>
      rw [cons_append, arriving, frames_unsynced (quiet byte mem_cons_self)]
      exact ih (fun other mem => quiet other (mem_cons_of_mem byte mem))
  | nil =>
      induction packets with
      | nil => rfl
      | cons packet rest ih =>
          have synced := (flags_bits packet.left packet.right packet.middle packet.dx.msb
            packet.dy.msb packet.xOverflow packet.yOverflow).1
          rw [nil_append] at ih
          rw [nil_append, flatMap_cons, map_cons, ← event_bytes, ← ih]
          exact arriving_packet synced

end MachaOS.Mouse
