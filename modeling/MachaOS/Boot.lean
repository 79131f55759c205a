/-
Booting (`src/main.rs`): the identity map the boot code builds in `.bss`, the
frame bitmap, the kernel heap, and the first task.
-/

import MachaOS.Lib.Runs
import MachaOS.Paging.Editing
import MachaOS.System

namespace MachaOS

open Paging ByteMemory

/-- What the machine and the linker decide: the memory map, the end of the kernel image,
the place of the boot page tables, and whatever else memory holds at the start. -/
structure Boot where
  regions : List Pmm.MemoryRegion
  kernelEnd : Nat
  pml4 : Nat
  memory : ByteMemory

namespace Boot

def kernelStart : Nat := 0x100000

def heapSize : Nat := 40 * 1024 * 1024

/-- The tables lie inside the image, page-aligned, and the image below 4 GiB. -/
structure Valid (boot : Boot) : Prop where
  aligned : boot.pml4 % 4096 = 0
  above : kernelStart ≤ boot.pml4
  below : boot.pml4 + 6 * 4096 ≤ boot.kernelEnd
  bounded : boot.kernelEnd ≤ identityMapEnd

def clearBss (mem : ByteMemory) (start len : Nat) : ByteMemory :=
  fun addr => if start ≤ addr ∧ addr < start + len then 0#8 else mem addr

/-- A `loop` over consecutive entries, `value index` into each. -/
def fillWords (mem : ByteMemory) (base : Nat) (value : Nat → BitVec 64) (index : Nat) :
    Nat → ByteMemory
  | 0 => mem
  | left + 1 =>
      fillWords (mem.writeU64 (base + 8 * index) (value index)) base value (index + 1) left

/-- The page-table setup of `boot`: `pml4[0]`, four `pdp` entries and 2048 `pd` entries. -/
def bootTables (boot : Boot) : ByteMemory :=
  let pdp := boot.pml4 + 4096
  let pd := pdp + 4096
  let cleared := clearBss boot.memory boot.pml4 (6 * 4096)
  let top := cleared.writeU64 boot.pml4 (BitVec.ofNat 64 pdp ||| 3#64)
  let directories :=
    fillWords top pdp (fun index => BitVec.ofNat 64 (pd + 4096 * index) ||| 3#64) 0 4
  fillWords directories pd (fun index => BitVec.ofNat 64 (index * 2 ^ 21) ||| 0x83#64) 0 2048

def kernelSpace (pml4 : Nat) : Space :=
  { pml4
    pdpt := pml4 + 4096
    pd := fun gigabyte => pml4 + 8192 + 4096 * gigabyte
    pt := fun _ => none
    userTop := false
    userPdpt := fun _ => false
    userPd := fun _ => false
    leaf := fun _ => 0#64 }

def initialPmm (boot : Boot) : Pmm :=
  Pmm.init boot.regions kernelStart boot.kernelEnd

def firstSystem (boot : Boot) (mem : ByteMemory) (heapStart : Nat) (pmm : Pmm) : System :=
  { layout :=
      { kernelStart
        kernelEnd := boot.kernelEnd
        kernelPml4 := boot.pml4
        heapStart
        heapEnd := heapStart + heapSize }
    machine := { mem, pmm, cr3 := boot.pml4 }
    shm := []
    sockets := { endpoints := [], listeners := [] }
    compositorFds := []
    tasks := List.replicate 4 { cr3 := boot.pml4, process := none }
    current := 0 }

/-- `allocator::init` with the block it asked for. -/
def withHeap (boot : Boot) : Option Nat × Pmm → Option System
  | (none, _) => none
  | (some heapStart, pmm) => some (boot.firstSystem boot.bootTables heapStart pmm)

/-- `kmain` up to `task::init`; `none` when there is no room for the kernel heap. -/
def start (boot : Boot) : Option System :=
  boot.withHeap (boot.initialPmm.allocContiguous (heapSize / Pmm.frameSize))

/-- The state after `events`, if no step faults on the way. -/
def run (boot : Boot) (events : List System.Event) : Option System :=
  boot.start.bind (fun sys => Runs.after System.step sys events)

def Meets (boot : Boot) (condition : System → System.Event → Prop) (events : List System.Event) :
    Prop :=
  ∀ sys, boot.start = some sys → Runs.Meets System.step condition sys events

theorem run_invariant {boot : Boot} {condition : System → System.Event → Prop}
    (invariant : System → Prop) (starts : ∀ sys, boot.start = some sys → invariant sys)
    (keeps : ∀ sys event after, invariant sys → condition sys event →
      System.step sys event = some after → invariant after)
    {events : List System.Event} {sys : System} (meets : boot.Meets condition events)
    (ran : boot.run events = some sys) : invariant sys := by
  unfold run at ran
  cases started : boot.start with
  | none =>
      rw [started] at ran
      cases ran
  | some first =>
      rw [started] at ran
      exact Runs.after_invariant keeps (starts first started) (meets first started) ran

theorem run_snoc {boot : Boot} {events : List System.Event} {event : System.Event}
    {sys final : System} (ran : boot.run events = some sys)
    (stepped : System.step sys event = some final) :
    boot.run (events ++ [event]) = some final := by
  unfold run at ran ⊢
  obtain ⟨first, started, early⟩ := Option.bind_eq_some_iff.mp ran
  rw [started, Option.bind_some, Runs.after_append]
  refine ⟨sys, early, ?_⟩
  simp only [Runs.after, stepped]

theorem meets_snoc {boot : Boot} {condition : System → System.Event → Prop}
    {events : List System.Event} {event : System.Event} (early : boot.Meets condition events)
    (last : ∀ sys, boot.run events = some sys → condition sys event) :
    boot.Meets condition (events ++ [event]) := by
  intro first started
  refine Runs.Meets.append (early first started) (fun middle ran => ?_)
  refine ⟨last middle ?_, fun _ _ => trivial⟩
  unfold run
  rw [started]
  exact ran

theorem readU64_fillWords {mem : ByteMemory} {base index left : Nat} (value : Nat → BitVec 64)
    (at' : Nat) :
    (fillWords mem base value index left).readU64 (base + 8 * at') =
      if index ≤ at' ∧ at' < index + left then value at' else mem.readU64 (base + 8 * at') := by
  induction left generalizing mem index with
  | zero => rw [fillWords, if_neg (by omega)]
  | succ left ih =>
      rw [fillWords, ih]
      by_cases later : index + 1 ≤ at' ∧ at' < index + 1 + left
      · rw [if_pos later, if_pos (by omega)]
      · rw [if_neg later]
        by_cases here : at' = index
        · subst here
          rw [if_pos (by omega), readU64_writeU64_self]
        · rw [if_neg (by omega), readU64_writeU64_of_apart _ _ _ _ (by omega)]

theorem readU64_fillWords_of_apart {mem : ByteMemory} {base index left addr : Nat}
    (value : Nat → BitVec 64)
    (apart : addr + 8 ≤ base + 8 * index ∨ base + 8 * (index + left) ≤ addr) :
    (fillWords mem base value index left).readU64 addr = mem.readU64 addr := by
  induction left generalizing mem index with
  | zero => rfl
  | succ left ih =>
      rw [fillWords, ih (by omega), readU64_writeU64_of_apart _ _ _ _ (by omega)]

theorem readU64_clearBss {mem : ByteMemory} {start len addr : Nat}
    (lower : start ≤ addr) (upper : addr + 8 ≤ start + len) :
    (clearBss mem start len).readU64 addr = 0#64 := by
  apply BitVec.eq_of_getLsbD_eq
  intro index inside
  rw [getLsbD_readU64 _ _ _ inside]
  have within : start ≤ addr + index / 8 ∧ addr + index / 8 < start + len := by omega
  simp [clearBss, within]

@[simp] theorem kernelSpace_pt (pml4 block : Nat) : (kernelSpace pml4).pt block = none := rfl

@[simp] theorem kernelSpace_view (pml4 page : Nat) :
    (kernelSpace pml4).view page = some (Space.kernelLeaf page) := rfl

theorem kernelSpace_frameAt {pml4 : Nat} {node : Node} {frame : Nat}
    (placed : (kernelSpace pml4).frameAt node = some frame) :
    (node = .pml4 ∧ frame = pml4) ∨ (node = .pdpt ∧ frame = pml4 + 4096) ∨
      ∃ gigabyte, gigabyte < 4 ∧ node = .pd gigabyte ∧
        frame = pml4 + 8192 + 4096 * gigabyte := by
  cases node with
  | pml4 => exact Or.inl ⟨rfl, (Option.some.inj placed).symm⟩
  | pdpt => exact Or.inr (Or.inl ⟨rfl, (Option.some.inj placed).symm⟩)
  | pd gigabyte =>
      simp only [Space.frameAt] at placed
      split at placed
      · rename_i inside
        exact Or.inr (Or.inr ⟨gigabyte, inside, rfl, (Option.some.inj placed).symm⟩)
      · cases placed
  | pt block =>
      simp [Space.frameAt, kernelSpace] at placed

theorem kernelSpace_owns {pml4 frame : Nat} (owned : (kernelSpace pml4).Owns frame) :
    ∃ index, index < 6 ∧ frame = pml4 + 4096 * index := by
  obtain ⟨node, placed⟩ := owned
  rcases kernelSpace_frameAt placed with ⟨-, rfl⟩ | ⟨-, rfl⟩ | ⟨gigabyte, inside, -, rfl⟩
  · exact ⟨0, by omega, by omega⟩
  · exact ⟨1, by omega, by omega⟩
  · exact ⟨gigabyte + 2, by omega, by omega⟩

theorem kernelSpace_wellFormed {pml4 : Nat} (aligned : pml4 % 4096 = 0)
    (bounded : pml4 + 6 * 4096 ≤ identityMapEnd) : (kernelSpace pml4).WellFormed := by
  refine ⟨?_, ?_, ?_⟩
  · intro frame owned
    obtain ⟨index, -, rfl⟩ := kernelSpace_owns owned
    omega
  · intro frame owned
    obtain ⟨index, inside, rfl⟩ := kernelSpace_owns owned
    omega
  · intro node other frame placed found
    rcases kernelSpace_frameAt placed with ⟨rfl, rfl⟩ | ⟨rfl, rfl⟩ | ⟨i, hi, rfl, rfl⟩ <;>
      rcases kernelSpace_frameAt found with ⟨rfl, same⟩ | ⟨rfl, same⟩ | ⟨j, hj, rfl, same⟩ <;>
      first
      | rfl
      | omega
      | exact congrArg Node.pd (by omega)

theorem bootTables_represents {boot : Boot} (valid : boot.Valid) :
    (kernelSpace boot.pml4).Represents boot.bootTables := by
  have aligned := valid.aligned
  intro node frame index placed inside
  unfold bootTables
  rcases kernelSpace_frameAt placed with ⟨rfl, rfl⟩ | ⟨rfl, rfl⟩ | ⟨gigabyte, below, rfl, rfl⟩
  · rw [readU64_fillWords_of_apart _ (by omega), readU64_fillWords_of_apart _ (by omega)]
    by_cases first : index = 0
    · subst first
      have here : boot.pml4 + 8 * 0 = boot.pml4 := rfl
      rw [here, readU64_writeU64_self]
      simp [Space.entryAt, kernelSpace, upperEntry]
    · rw [readU64_writeU64_of_apart _ _ _ _ (by omega),
        readU64_clearBss (by omega) (by omega)]
      simp [Space.entryAt, first]
  · rw [readU64_fillWords_of_apart _ (by omega), readU64_fillWords]
    by_cases present : index < 4
    · rw [if_pos (by omega)]
      simp only [Space.entryAt, kernelSpace, if_pos present, upperEntry, Bool.false_eq_true,
        if_false]
    · rw [if_neg (by omega), readU64_writeU64_of_apart _ _ _ _ (by omega),
        readU64_clearBss (by omega) (by omega)]
      simp [Space.entryAt, present]
  · have place : boot.pml4 + 8192 + 4096 * gigabyte + 8 * index =
        boot.pml4 + 4096 + 4096 + 8 * (512 * gigabyte + index) := by omega
    rw [place, readU64_fillWords, if_pos (by omega)]
    simp only [Space.entryAt, kernelSpace, bigEntry]

end Boot
end MachaOS
