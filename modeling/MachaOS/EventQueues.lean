/-
The event queues of the keyboard and the mouse: two copies of one ring buffer.

One slot stays empty, so that a full queue can be told from an empty one.  `Holds` reads the list of
pending events off the buffer by walking from `tail`; a run carries the history of both ends beside the
queue, and the history alone says what the next pop answers.
-/

import Mathlib.Data.Nat.ModEq
import MachaOS.Lib.Checked
import MachaOS.Terminal.LineEditor

namespace MachaOS

open List Except
open Checked

structure EventQueue (Event : Type) where
  buffer : List Event
  head : Nat
  tail : Nat

namespace EventQueue

variable {Event : Type} {capacity : Nat} {queue : EventQueue Event} {events : List Event}

/-- `new`: the array is filled with `blank`. -/
def new (capacity : Nat) (blank : Event) : EventQueue Event :=
  { buffer := List.replicate capacity blank, head := 0, tail := 0 }

def push (capacity : Nat) (queue : EventQueue Event) (event : Event) :
    Checked (EventQueue Event) := do
  let sum ← add queue.head 1
  let next := sum % capacity
  if next ≠ queue.tail then do
    inside (queue.head < queue.buffer.length)
    .ok { queue with buffer := queue.buffer.set queue.head event, head := next }
  else .ok queue

def pop (capacity : Nat) (queue : EventQueue Event) :
    Checked (Option Event × EventQueue Event) :=
  if queue.head = queue.tail then .ok (none, queue)
  else do
    let event ← index queue.buffer queue.tail
    let sum ← add queue.tail 1
    .ok (some event, { queue with tail := sum % capacity })

/-- The queue holds these events, the oldest at `tail`. -/
structure Holds (capacity : Nat) (queue : EventQueue Event) (events : List Event) : Prop where
  whole : queue.buffer.length = capacity
  tailInside : queue.tail < capacity
  headAt : queue.head = (queue.tail + events.length) % capacity
  spare : events.length < capacity
  cells : ∀ i : Nat, i < events.length → queue.buffer[(queue.tail + i) % capacity]? = events[i]?

theorem Holds.headInside (holds : Holds capacity queue events) : queue.head < capacity := by
  rw [holds.headAt]
  exact Nat.mod_lt _ (Nat.zero_lt_of_lt holds.tailInside)

theorem slot_inj {tail i j : Nat} (below : i < capacity) (below' : j < capacity)
    (same : (tail + i) % capacity = (tail + j) % capacity) : i = j := by
  have shifted : i % capacity = j % capacity := Nat.ModEq.add_left_cancel' tail same
  rwa [Nat.mod_eq_of_lt below, Nat.mod_eq_of_lt below'] at shifted

theorem holds_new (blank : Event) (positive : 0 < capacity) :
    Holds capacity (new capacity blank) [] where
  whole := length_replicate
  tailInside := positive
  headAt := (Nat.zero_mod capacity).symm
  spare := positive
  cells := fun _ inside => absurd inside (Nat.not_lt_zero _)

theorem Holds.next (holds : Holds capacity queue events) :
    (queue.head + 1) % capacity = (queue.tail + (events.length + 1)) % capacity := by
  rw [holds.headAt, Nat.mod_add_mod, Nat.add_assoc]

section

variable (holds : Holds capacity queue events) (small : capacity < limit)
include holds small

theorem Holds.head_add : add queue.head 1 = .ok (queue.head + 1) :=
  add_ok (Nat.lt_of_le_of_lt holds.headInside small)

theorem Holds.push_room (room : events.length + 1 < capacity) (event : Event) :
    ∃ after, queue.push capacity event = .ok after ∧ Holds capacity after (events ++ [event]) := by
  have positive := Nat.zero_lt_of_lt room
  have notTail : (queue.head + 1) % capacity ≠ queue.tail := by
    intro same
    have round : (queue.tail + (events.length + 1)) % capacity = (queue.tail + 0) % capacity := by
      rw [← holds.next, same, Nat.add_zero, Nat.mod_eq_of_lt holds.tailInside]
    exact Nat.succ_ne_zero _ (slot_inj room positive round)
  have atHead : queue.head < queue.buffer.length := by
    rw [holds.whole]
    exact holds.headInside
  refine ⟨{ queue with buffer := queue.buffer.set queue.head event
                       head := (queue.head + 1) % capacity }, ?_, ?_⟩
  · rw [push, holds.head_add small, ok_bind, if_pos notTail, inside_ok atHead, ok_bind]
  · refine ⟨?_, holds.tailInside, ?_, ?_, ?_⟩
    · rw [length_set, holds.whole]
    · rw [length_append, length_singleton]
      exact holds.next
    · rw [length_append, length_singleton]
      exact room
    · intro i inside
      rw [length_append, length_singleton] at inside
      by_cases last : i = events.length
      · subst last
        rw [← holds.headAt, List.getElem?_set_self atHead, List.getElem?_concat_length]
      · have earlier : i < events.length := by omega
        have apart : queue.head ≠ (queue.tail + i) % capacity := by
          intro same
          rw [holds.headAt] at same
          exact last (slot_inj holds.spare (Nat.lt_trans earlier holds.spare) same).symm
        rw [List.getElem?_set_ne apart, holds.cells i earlier, List.getElem?_append_left earlier]

omit small in
theorem Holds.full_at (full : ¬ events.length + 1 < capacity) :
    (queue.head + 1) % capacity = queue.tail := by
  have round : events.length + 1 = capacity := Nat.le_antisymm holds.spare (Nat.not_lt.mp full)
  rw [holds.next, round, Nat.add_mod_right, Nat.mod_eq_of_lt holds.tailInside]

theorem Holds.push_full (full : ¬ events.length + 1 < capacity) (event : Event) :
    queue.push capacity event = .ok queue := by
  rw [push, holds.head_add small, ok_bind, if_neg (not_not.mpr (holds.full_at full))]

end

theorem Holds.pop_empty (holds : Holds capacity queue []) :
    queue.pop capacity = .ok (none, queue) := by
  refine if_pos ?_
  rw [holds.headAt, length_nil, Nat.add_zero, Nat.mod_eq_of_lt holds.tailInside]

theorem Holds.pop_event {event : Event} {rest : List Event}
    (holds : Holds capacity queue (event :: rest)) (small : capacity < limit) :
    ∃ after, queue.pop capacity = .ok (some event, after) ∧ Holds capacity after rest := by
  have spare : rest.length + 1 < capacity := holds.spare
  have positive := Nat.zero_lt_of_lt holds.tailInside
  have pending : queue.head ≠ queue.tail := by
    intro same
    have round : (queue.tail + (rest.length + 1)) % capacity = (queue.tail + 0) % capacity := by
      have headAt := holds.headAt
      rw [same, length_cons] at headAt
      rw [← headAt, Nat.add_zero, Nat.mod_eq_of_lt holds.tailInside]
    exact Nat.succ_ne_zero _ (slot_inj spare positive round)
  have oldest : queue.buffer[queue.tail]? = some event := by
    have cell := holds.cells 0 (Nat.succ_pos _)
    rwa [Nat.add_zero, Nat.mod_eq_of_lt holds.tailInside] at cell
  have sum : add queue.tail 1 = .ok (queue.tail + 1) :=
    add_ok (Nat.lt_of_le_of_lt holds.tailInside small)
  refine ⟨{ queue with tail := (queue.tail + 1) % capacity }, ?_, ?_⟩
  · rw [pop, if_neg pending, index_ok oldest, ok_bind, sum, ok_bind]
  · have walk : ∀ i : Nat,
        ((queue.tail + 1) % capacity + i) % capacity = (queue.tail + (i + 1)) % capacity := by
      intro i
      rw [Nat.mod_add_mod, Nat.add_assoc, Nat.add_comm 1 i]
    refine ⟨holds.whole, Nat.mod_lt _ positive, ?_, Nat.lt_of_succ_lt spare, ?_⟩
    · dsimp only
      rw [walk]
      exact holds.headAt
    · intro i inside
      dsimp only
      rw [walk, holds.cells (i + 1) (Nat.succ_lt_succ inside), List.getElem?_cons_succ]

inductive Call (Event : Type) where
  | push (event : Event)
  | pop

structure Trace (Event : Type) where
  queue : EventQueue Event
  accepted : List Event
  popped : List Event

def start (capacity : Nat) (blank : Event) : Trace Event :=
  { queue := new capacity blank, accepted := [], popped := [] }

def Trace.pending (trace : Trace Event) : Nat := trace.accepted.length - trace.popped.length

def Trace.step (capacity : Nat) (trace : Trace Event) : Call Event → Checked (Trace Event)
  | .push event => do
      let queue ← trace.queue.push capacity event
      let accepted :=
        if trace.pending < capacity - 1 then trace.accepted ++ [event] else trace.accepted
      .ok { trace with queue := queue, accepted := accepted }
  | .pop => do
      let (answer, queue) ← trace.queue.pop capacity
      .ok { trace with queue := queue, popped := trace.popped ++ answer.toList }

def Trace.run (capacity : Nat) (blank : Event) (calls : List (Call Event)) : Checked (Trace Event) :=
  calls.foldlM (Trace.step capacity) (start capacity blank)

structure Accounted (capacity : Nat) (trace : Trace Event) (events : List Event) : Prop where
  holds : Holds capacity trace.queue events
  split : trace.accepted = trace.popped ++ events

theorem Accounted.pending {trace : Trace Event} (accounted : Accounted capacity trace events) :
    trace.pending = events.length := by
  rw [Trace.pending, accounted.split, length_append, Nat.add_sub_cancel_left]

theorem Accounted.step {trace : Trace Event} (accounted : Accounted capacity trace events)
    (small : capacity < limit) (call : Call Event) :
    ∃ after events', trace.step capacity call = .ok after ∧ Accounted capacity after events' := by
  obtain ⟨holds, split⟩ := accounted
  cases call with
  | push event =>
      by_cases room : events.length + 1 < capacity
      · obtain ⟨queue, done, holds'⟩ := holds.push_room small room event
        have found : trace.pending < capacity - 1 := by
          rw [Accounted.pending ⟨holds, split⟩]
          omega
        refine ⟨_, _, by rw [Trace.step, done, ok_bind], holds', ?_⟩
        dsimp only
        rw [if_pos found, split, append_assoc]
      · have filled : ¬ trace.pending < capacity - 1 := by
          rw [Accounted.pending ⟨holds, split⟩]
          omega
        refine ⟨trace, _, ?_, holds, split⟩
        rw [Trace.step, holds.push_full small room, ok_bind, if_neg filled]
  | pop =>
      cases events with
      | nil =>
          refine ⟨trace, _, ?_, holds, split⟩
          rw [Trace.step, holds.pop_empty, ok_bind]
          simp only [Option.toList_none, append_nil]
      | cons event rest =>
          obtain ⟨queue, done, holds'⟩ := holds.pop_event small
          refine ⟨_, _, by rw [Trace.step, done, ok_bind], holds', ?_⟩
          rw [split, append_assoc]
          rfl

structure Fifo (capacity : Nat) (trace : Trace Event) : Prop where
  inOrder : trace.popped <+: trace.accepted
  bounded : trace.pending < capacity
  answer : ∃ after, trace.queue.pop capacity = .ok (trace.accepted[trace.popped.length]?, after)
  full : ∀ event, capacity - 1 ≤ trace.pending →
    trace.queue.push capacity event = .ok trace.queue
  headInside : trace.queue.head < capacity
  tailInside : trace.queue.tail < capacity

theorem Accounted.fifo {trace : Trace Event} (accounted : Accounted capacity trace events)
    (small : capacity < limit) : Fifo capacity trace := by
  have count := accounted.pending
  obtain ⟨holds, split⟩ := accounted
  have spare := holds.spare
  refine ⟨⟨events, split.symm⟩, by omega, ?_, ?_, holds.headInside, holds.tailInside⟩
  · rw [split, List.getElem?_append_right (Nat.le_refl _), Nat.sub_self]
    cases events with
    | nil => exact ⟨_, holds.pop_empty⟩
    | cons event rest =>
        obtain ⟨after, done, _⟩ := holds.pop_event small
        exact ⟨after, done⟩
  · intro event full
    exact holds.push_full small (by omega) event

theorem run_fifo (blank : Event) (positive : 0 < capacity) (small : capacity < limit)
    (calls : List (Call Event)) :
    ∃ trace, Trace.run capacity blank calls = .ok trace ∧ Fifo capacity trace := by
  have rest : ∀ (calls : List (Call Event)) (trace : Trace Event) (events : List Event),
      Accounted capacity trace events →
        ∃ after, calls.foldlM (Trace.step capacity) trace = .ok after ∧ Fifo capacity after := by
    intro calls
    induction calls with
    | nil => exact fun trace events accounted => ⟨trace, rfl, accounted.fifo small⟩
    | cons call calls ih =>
        intro trace events accounted
        obtain ⟨next, events', done, accounted'⟩ := accounted.step small call
        rw [foldlM_cons, done]
        exact ih next events' accounted'
  exact rest calls _ [] ⟨holds_new blank positive, rfl⟩

end EventQueue

namespace Keyboard

def BUFFER_CAPACITY : Nat := 256

/-- The array starts out filled with `Event::Char('\0')`. -/
def BLANK_EVENT : Event := .char '\x00'

end Keyboard

namespace Mouse

structure MouseEvent where
  dx : Int32
  dy : Int32
  left : Bool
  right : Bool
  middle : Bool
deriving DecidableEq, Repr

def BUFFER_CAPACITY : Nat := 64

def BLANK_EVENT : MouseEvent := { dx := 0, dy := 0, left := false, right := false, middle := false }

end Mouse

/-- The queues of the keyboard and the mouse are bounded FIFOs in every run. -/
theorem eventQueues_fifo :
    (∀ calls : List (EventQueue.Call Keyboard.Event), ∃ trace,
      EventQueue.Trace.run Keyboard.BUFFER_CAPACITY Keyboard.BLANK_EVENT calls = .ok trace ∧
        EventQueue.Fifo Keyboard.BUFFER_CAPACITY trace) ∧
    ∀ calls : List (EventQueue.Call Mouse.MouseEvent), ∃ trace,
      EventQueue.Trace.run Mouse.BUFFER_CAPACITY Mouse.BLANK_EVENT calls = .ok trace ∧
        EventQueue.Fifo Mouse.BUFFER_CAPACITY trace :=
  ⟨EventQueue.run_fifo _ (by decide) (by decide), EventQueue.run_fifo _ (by decide) (by decide)⟩

end MachaOS
