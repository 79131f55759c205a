/-
Spin locks (`src/sync.rs`).

A context is whatever takes steps of its own, a path through the kernel or an interrupt handler over
it.  The flag changes by one atomic swap or one atomic store, the data through a live guard only; a run
is any order of these steps.  `closed` and `opened` are bookkeeping beside the lock: the accesses made
through each guard, which tell what a run does to the data one guard after the other.
-/

import Mathlib.Data.List.Basic
import MachaOS.Lib.Runs

namespace MachaOS

open List

structure SpinLock (T : Type) where
  locked : Bool
  data : T

namespace SpinLock

variable {C T : Type}

def new (value : T) : SpinLock T := { locked := false, data := value }

/-- The `swap(true)` of `try_lock` and of each turn of the loop in `lock`; `true` hands out a guard. -/
def tryLock (lock : SpinLock T) : Bool × SpinLock T := (!lock.locked, { lock with locked := true })

/-- `drop` of a guard. -/
def unlock (lock : SpinLock T) : SpinLock T := { lock with locked := false }

/-- What was written through a guard, and by whom. -/
abbrev Section (C T : Type) : Type := C × List (T → T)

structure Trace (C T : Type) where
  lock : SpinLock T
  /-- Contexts inside the loop of `lock`. -/
  spinning : List C
  opened : List (Section C T)
  closed : List (Section C T)

inductive Act (C T : Type) where
  | lock (context : C)
  | tryLock (context : C)
  | access (context : C) (write : T → T)
  | drop (context : C)

def start (value : T) : Trace C T := { lock := new value, spinning := [], opened := [], closed := [] }

def Trace.holders (trace : Trace C T) : List C := trace.opened.map Prod.fst

/-- One swap of the flag by a context. -/
def Trace.swap (trace : Trace C T) (context : C) : Trace C T :=
  { trace with
    lock := trace.lock.tryLock.2
    opened := if trace.lock.tryLock.1 then (context, []) :: trace.opened else trace.opened }

variable [DecidableEq C]

/-- A context in the loop can do nothing else; data is reached, and a guard dropped, by its holder. -/
def Trace.step (trace : Trace C T) : Act C T → Option (Trace C T)
  | .lock context =>
      some { trace.swap context with
        spinning := if trace.lock.tryLock.1 then trace.spinning.filter (· ≠ context)
          else context :: trace.spinning }
  | .tryLock context =>
      if context ∈ trace.spinning then none else some (trace.swap context)
  | .access context write =>
      if context ∈ trace.spinning ∨ context ∉ trace.holders then none
      else some { trace with
        lock := { trace.lock with data := write trace.lock.data }
        opened := trace.opened.map (fun part =>
          if part.1 = context then (part.1, part.2 ++ [write]) else part) }
  | .drop context =>
      if context ∈ trace.spinning ∨ context ∉ trace.holders then none
      else some { trace with
        lock := trace.lock.unlock
        opened := trace.opened.filter (·.1 ≠ context)
        closed := trace.closed ++ trace.opened.filter (·.1 = context) }

/-- The sections carried out one after the other. -/
def apply (sections : List (Section C T)) (value : T) : T :=
  (sections.flatMap Prod.snd).foldl (fun data write => write data) value

omit [DecidableEq C] in
theorem apply_append (first second : List (Section C T)) (value : T) :
    apply (first ++ second) value = apply second (apply first value) := by
  rw [apply, flatMap_append, foldl_append]
  rfl

/-- At most one guard is live, exactly while the flag is set, and the data is what the sections make of
its first value in the order of their guards. -/
structure Serial (value : T) (trace : Trace C T) : Prop where
  exclusive : trace.opened.length = if trace.lock.locked then 1 else 0
  data : trace.lock.data = apply (trace.closed ++ trace.opened) value

omit [DecidableEq C] in
theorem Serial.opened {value : T} {trace : Trace C T} (serial : Serial value trace) :
    (trace.lock.locked = false ∧ trace.opened = []) ∨
      ∃ part, trace.lock.locked = true ∧ trace.opened = [part] := by
  have count := serial.exclusive
  cases locked : trace.lock.locked with
  | false =>
      rw [locked] at count
      exact Or.inl ⟨rfl, length_eq_zero_iff.mp count⟩
  | true =>
      rw [locked] at count
      obtain ⟨part, only⟩ := length_eq_one_iff.mp count
      exact Or.inr ⟨part, rfl, only⟩

omit [DecidableEq C] in
theorem Serial.swap {value : T} {trace : Trace C T} (serial : Serial value trace) (context : C) :
    Serial value (trace.swap context) := by
  have data := serial.data
  rcases serial.opened with ⟨locked, empty⟩ | ⟨part, locked, only⟩
  · rw [empty, append_nil] at data
    refine ⟨?_, ?_⟩
    · simp only [Trace.swap, tryLock, locked, empty, Bool.not_false, if_true, length_singleton]
    · simp only [Trace.swap, tryLock, locked, empty, Bool.not_false, if_true]
      rw [apply_append]
      exact data
  · refine ⟨?_, ?_⟩
    · simp only [Trace.swap, tryLock, locked, only, Bool.not_true, Bool.false_eq_true, if_false,
        if_true, length_singleton]
    · simp only [Trace.swap, tryLock, locked, Bool.not_true, Bool.false_eq_true, if_false]
      exact data

omit [DecidableEq C] in
theorem Serial.holder {value : T} {trace : Trace C T} (serial : Serial value trace) {context : C}
    (holds : context ∈ trace.holders) :
    ∃ writes, trace.lock.locked = true ∧ trace.opened = [(context, writes)] := by
  rcases serial.opened with ⟨-, empty⟩ | ⟨part, locked, only⟩
  · rw [Trace.holders, empty] at holds
    exact nomatch holds
  · rw [Trace.holders, only, map_singleton, mem_singleton] at holds
    subst holds
    exact ⟨part.2, locked, only⟩

theorem Serial.step {value : T} {trace next : Trace C T} {act : Act C T}
    (serial : Serial value trace) (stepped : trace.step act = some next) : Serial value next := by
  have data := serial.data
  cases act with
  | lock context =>
      cases stepped
      exact ⟨(serial.swap context).exclusive, (serial.swap context).data⟩
  | tryLock context =>
      obtain ⟨-, stepped⟩ := Option.ite_none_left_eq_some.mp stepped
      cases stepped
      exact serial.swap context
  | access context write =>
      obtain ⟨may, stepped⟩ := Option.ite_none_left_eq_some.mp stepped
      cases stepped
      obtain ⟨writes, locked, only⟩ := serial.holder (not_not.mp (not_or.mp may).2)
      refine ⟨?_, ?_⟩
      · rw [length_map, locked, only]
        rfl
      · rw [only, apply_append] at data
        simp only [only, map_cons, map_nil, if_true]
        rw [apply_append, data]
        simp only [apply, flatMap_cons, flatMap_nil, append_nil, foldl_append,
          foldl_cons, foldl_nil]
  | drop context =>
      obtain ⟨may, stepped⟩ := Option.ite_none_left_eq_some.mp stepped
      cases stepped
      obtain ⟨writes, locked, only⟩ := serial.holder (not_not.mp (not_or.mp may).2)
      rw [only] at data
      refine ⟨?_, ?_⟩
      · simp [only, unlock]
      · simpa [only, unlock] using data

theorem serial_run {value : T} {acts : List (Act C T)} {trace : Trace C T}
    (ran : Runs.after Trace.step (start value) acts = some trace) : Serial value trace :=
  Runs.after_invariant (fun _ _ _ serial _ stepped => serial.step stepped) ⟨rfl, rfl⟩
    (@Runs.Meets.of_forall _ _ _ (fun _ _ => True) (fun _ _ => trivial) _ _) ran

/-- In every interleaving at most one guard is live, exactly while the flag is set, and the data is what
the accesses make of it guard by guard: no access of one context falls between two of another's. -/
theorem guards_serialize {value : T} {acts : List (Act C T)} {trace : Trace C T}
    (ran : Runs.after Trace.step (start value) acts = some trace) :
    trace.holders.length = (if trace.lock.locked then 1 else 0) ∧
      trace.lock.data = apply (trace.closed ++ trace.opened) value := by
  have serial := serial_run ran
  rw [Trace.holders, length_map]
  exact ⟨serial.exclusive, serial.data⟩

/-- Two contexts, the second of which waits for the first. -/
theorem guards_serialize_two : ∃ trace : Trace Bool Nat,
    (trace.holders.length = (if trace.lock.locked then 1 else 0) ∧
      trace.lock.data = apply (trace.closed ++ trace.opened) 5) ∧ trace.lock.data = 12 := by
  have ran : Runs.after Trace.step (start 5) [.lock true, .lock false, .access true (· + 1),
    .drop true, .lock false, .access false (· * 2)] = some _ := rfl
  exact ⟨_, guards_serialize ran, rfl⟩

/-- The guard is out, and its holder is inside the loop if it was when `stuck` was read. -/
structure Held (holder : C) (stuck : Prop) (trace : Trace C T) : Prop where
  locked : trace.lock.locked = true
  holders : trace.holders = [holder]
  waits : stuck → holder ∈ trace.spinning

theorem Held.step {holder : C} {stuck : Prop} {trace next : Trace C T} {act : Act C T}
    (held : Held holder stuck trace) (kept : stuck ∨ act ≠ .drop holder)
    (stepped : trace.step act = some next) : Held holder stuck next := by
  obtain ⟨locked, holders, waits⟩ := held
  have swapped (context : C) : (trace.swap context).holders = [holder] := by
    simp only [Trace.swap, tryLock, locked, Bool.not_true, Bool.false_eq_true, if_false]
    exact holders
  cases act with
  | lock context =>
      cases stepped
      refine ⟨rfl, swapped context, fun isStuck => ?_⟩
      simp only [tryLock, locked, Bool.not_true, Bool.false_eq_true, if_false]
      exact mem_cons_of_mem context (waits isStuck)
  | tryLock context =>
      obtain ⟨-, stepped⟩ := Option.ite_none_left_eq_some.mp stepped
      cases stepped
      exact ⟨rfl, swapped context, waits⟩
  | access context write =>
      obtain ⟨-, stepped⟩ := Option.ite_none_left_eq_some.mp stepped
      cases stepped
      refine ⟨locked, ?_, waits⟩
      rw [← holders, Trace.holders, Trace.holders, map_map]
      refine map_congr_left (fun part _ => ?_)
      rw [Function.comp_apply]
      split <;> rfl
  | drop context =>
      obtain ⟨may, stepped⟩ := Option.ite_none_left_eq_some.mp stepped
      rw [not_or, holders, mem_singleton, not_not] at may
      obtain ⟨free, rfl⟩ := may
      rcases kept with isStuck | other
      · exact absurd (waits isStuck) free
      · exact absurd rfl other

/-- While the holder of the guard does not drop it nobody else gets one.  A context that locks again
what it holds waits in the loop for itself, and is never rid of the guard. -/
theorem guard_kept {value : T} {early late : List (Act C T)} {middle last : Trace C T} {holder : C}
    (before : Runs.after Trace.step (start value) early = some middle)
    (holds : holder ∈ middle.holders)
    (kept : holder ∈ middle.spinning ∨ .drop holder ∉ late)
    (ran : Runs.after Trace.step middle late = some last) :
    last.lock.locked = true ∧ last.holders = [holder] := by
  obtain ⟨writes, locked, only⟩ := (serial_run before).holder holds
  have held : Held holder (holder ∈ middle.spinning) middle :=
    ⟨locked, by rw [Trace.holders, only]; rfl, id⟩
  have meets : Runs.Meets Trace.step (fun _ act => holder ∈ middle.spinning ∨ act ≠ .drop holder)
      middle late :=
    Runs.Meets.of_mem (fun act mem _ => kept.imp_right (by
      rintro absent rfl
      exact absent mem)) middle
  have final := Runs.after_invariant (fun _ _ _ held kept stepped => held.step kept stepped) held meets ran
  exact ⟨final.locked, final.holders⟩

/-- A handler that interrupts the holder and waits for the same lock. -/
theorem guard_kept_interrupted : ∃ last : Trace Bool Nat,
    last.lock.locked = true ∧ last.holders = [true] := by
  have before : Runs.after Trace.step (start 5) [.lock true] = some _ := rfl
  exact ⟨_, guard_kept before mem_cons_self (Or.inr (by simp))
    (show Runs.after Trace.step _ [.lock false, .lock false] = some _ from rfl)⟩

end SpinLock

end MachaOS
