/-
The physical memory manager: a bitmap over 4 KiB frames (`src/pmm.rs`).

A set bit is a frame in use.  The spin lock is not modelled: every routine runs
to completion under it.  `usize` values are naturals; the one place where
64-bit wrap-around can show (`align_up`) is written out.
-/

import MachaOS.Lib.ByteMemory
import Mathlib.Logic.Function.Basic

namespace MachaOS

def wordLimit : Nat := 2 ^ 64

/-- `align_up(value, 4096)` on 64-bit values, with the wrap-around of a release build. -/
def alignUp (value : Nat) : Nat :=
  (value + 4095) % wordLimit / 4096 * 4096

def alignDown (value : Nat) : Nat :=
  value / 4096 * 4096

structure Pmm where
  bitmap : Nat → BitVec 8
  lastUsableFrame : Nat

namespace Pmm

def frameSize : Nat := 4096
def maxPhysMem : Nat := 256 * 1024 * 1024
def frameCount : Nat := maxPhysMem / frameSize
def lowReservedEnd : Nat := 64 * 1024 * 1024

def setFrame (pmm : Pmm) (frame : Nat) : Pmm :=
  { pmm with
    bitmap := Function.update pmm.bitmap (frame / 8)
      (pmm.bitmap (frame / 8) ||| 1#8 <<< (frame % 8)) }

def clearFrame (pmm : Pmm) (frame : Nat) : Pmm :=
  { pmm with
    bitmap := Function.update pmm.bitmap (frame / 8)
      (pmm.bitmap (frame / 8) &&& ~~~(1#8 <<< (frame % 8))) }

def frameIsFree (pmm : Pmm) (frame : Nat) : Bool :=
  pmm.bitmap (frame / 8) &&& 1#8 <<< (frame % 8) == 0#8

/-- `for f in start..start + count { set_frame(f) }` -/
def setFrames (pmm : Pmm) (start : Nat) : Nat → Pmm
  | 0 => pmm
  | count + 1 => setFrames (pmm.setFrame start) (start + 1) count

/-- `while frame < end { clear_frame(frame); frame += 1 }` -/
def clearFrames (pmm : Pmm) (start : Nat) : Nat → Pmm
  | 0 => pmm
  | count + 1 => clearFrames (pmm.clearFrame start) (start + 1) count

def markReserved (pmm : Pmm) (base len : Nat) : Pmm :=
  if len = 0 then pmm
  else
    let start := alignDown base
    let stop := min (alignUp (min (base + len) (wordLimit - 1))) maxPhysMem
    pmm.setFrames (start / frameSize) (stop / frameSize - start / frameSize)

structure MemoryRegion where
  base : Nat
  length : Nat
  regionType : Nat

/-- The body of `init`'s loop over the memory map. -/
def initRegion (pmm : Pmm) (region : MemoryRegion) : Pmm :=
  if region.regionType ≠ 1 then pmm
  else if region.base < 1024 * 1024 then pmm
  else
    let startFrame := alignUp region.base / frameSize
    let endFrame := min (alignDown ((region.base + region.length) % wordLimit)) maxPhysMem
      / frameSize
    let last := if endFrame > pmm.lastUsableFrame then endFrame - 1 else pmm.lastUsableFrame
    { pmm.clearFrames startFrame (endFrame - startFrame) with lastUsableFrame := last }

def init (regions : List MemoryRegion) (kernelStart kernelEnd : Nat) : Pmm :=
  let empty : Pmm := { bitmap := fun _ => 0xFF#8, lastUsableFrame := 0 }
  let scanned := regions.foldl initRegion empty
  (scanned.markReserved kernelStart (kernelEnd - kernelStart)).markReserved 0 lowReservedEnd

def frameAlloc (pmm : Pmm) : Option Nat × Pmm :=
  match (List.range (pmm.lastUsableFrame + 1)).find? pmm.frameIsFree with
  | some frame => (some (frame * frameSize), pmm.setFrame frame)
  | none => (none, pmm)

/-- The scan of `alloc_contiguous` over the frames still to be looked at, with
the start and the length of the current free run. -/
def contiguousScan (pmm : Pmm) (count : Nat) : List Nat → Nat → Nat → Option Nat
  | [], _, _ => none
  | frame :: rest, runStart, runLen =>
      if pmm.frameIsFree frame then
        let start := if runLen = 0 then frame else runStart
        if runLen + 1 = count then some start
        else contiguousScan pmm count rest start (runLen + 1)
      else contiguousScan pmm count rest runStart 0

def allocContiguous (pmm : Pmm) (count : Nat) : Option Nat × Pmm :=
  if count = 0 ∨ count - 1 > pmm.lastUsableFrame then (none, pmm)
  else
    match pmm.contiguousScan count (List.range (pmm.lastUsableFrame + 1)) 0 0 with
    | some start => (some (start * frameSize), pmm.setFrames start count)
    | none => (none, pmm)

def frameFree (pmm : Pmm) (phys : Nat) : Pmm :=
  if phys % frameSize ≠ 0 ∨ phys ≥ maxPhysMem then pmm
  else pmm.clearFrame (phys / frameSize)

/-- `phys, phys + FRAME_SIZE, ..` for `count` frames. -/
def frameRun (phys count : Nat) : List Nat :=
  (List.range count).map (fun index => phys + index * frameSize)

private theorem getLsbD_one_shiftLeft {index other : Nat} (bounded : index < 8)
    (otherBounded : other < 8) :
    (1#8 <<< index).getLsbD other = decide (other = index) := by
  interval_cases index <;> interval_cases other <;> rfl

private theorem and_shift_eq_zero (byte : BitVec 8) {index : Nat} (bounded : index < 8) :
    (byte &&& 1#8 <<< index == 0#8) = !byte.getLsbD index := by
  have shifted : (1#8 <<< index) = BitVec.twoPow 8 index := rfl
  rw [shifted, BitVec.and_twoPow]
  cases bit : byte.getLsbD index with
  | false => simp
  | true =>
      interval_cases index <;> simp [BitVec.twoPow]

theorem frameIsFree_eq (pmm : Pmm) (frame : Nat) :
    pmm.frameIsFree frame = !(pmm.bitmap (frame / 8)).getLsbD (frame % 8) :=
  and_shift_eq_zero _ (Nat.mod_lt _ (by decide))

theorem frameIsFree_setFrame (pmm : Pmm) (frame other : Nat) :
    (pmm.setFrame frame).frameIsFree other =
      (pmm.frameIsFree other && decide (other ≠ frame)) := by
  have bitBound : other % 8 < 8 := Nat.mod_lt _ (by decide)
  have frameBound : frame % 8 < 8 := Nat.mod_lt _ (by decide)
  rw [frameIsFree_eq, frameIsFree_eq]
  simp only [setFrame, Function.update_apply]
  by_cases sameByte : other / 8 = frame / 8
  · have bits : (other % 8 = frame % 8) ↔ other = frame := by omega
    rw [if_pos sameByte, ← sameByte, BitVec.getLsbD_or, getLsbD_one_shiftLeft frameBound bitBound]
    by_cases same : other = frame
    · simp [same]
    · simp [bits, same]
  · have different : other ≠ frame := fun same => sameByte (by rw [same])
    simp [sameByte, different]

theorem frameIsFree_clearFrame (pmm : Pmm) (frame other : Nat) :
    (pmm.clearFrame frame).frameIsFree other =
      (pmm.frameIsFree other || decide (other = frame)) := by
  have bitBound : other % 8 < 8 := Nat.mod_lt _ (by decide)
  have frameBound : frame % 8 < 8 := Nat.mod_lt _ (by decide)
  rw [frameIsFree_eq, frameIsFree_eq]
  simp only [clearFrame, Function.update_apply]
  by_cases sameByte : other / 8 = frame / 8
  · have bits : (other % 8 = frame % 8) ↔ other = frame := by omega
    rw [if_pos sameByte, ← sameByte, BitVec.getLsbD_and, BitVec.getLsbD_not,
      getLsbD_one_shiftLeft frameBound bitBound]
    by_cases same : other = frame
    · simp [same]
    · simp only [bits, same, decide_false, Bool.not_false, Bool.and_true, Bool.or_false,
        bitBound, decide_true]
  · have different : other ≠ frame := fun same => sameByte (by rw [same])
    simp [sameByte, different]

@[simp] theorem setFrame_lastUsableFrame (pmm : Pmm) (frame : Nat) :
    (pmm.setFrame frame).lastUsableFrame = pmm.lastUsableFrame := rfl

@[simp] theorem clearFrame_lastUsableFrame (pmm : Pmm) (frame : Nat) :
    (pmm.clearFrame frame).lastUsableFrame = pmm.lastUsableFrame := rfl

@[simp] theorem setFrames_lastUsableFrame (pmm : Pmm) (start count : Nat) :
    (pmm.setFrames start count).lastUsableFrame = pmm.lastUsableFrame := by
  induction count generalizing pmm start with
  | zero => rfl
  | succ count ih => rw [setFrames, ih, setFrame_lastUsableFrame]

theorem frameIsFree_setFrames (pmm : Pmm) (start count other : Nat) :
    (pmm.setFrames start count).frameIsFree other =
      (pmm.frameIsFree other && decide (¬(start ≤ other ∧ other < start + count))) := by
  induction count generalizing pmm start with
  | zero => simp [setFrames]
  | succ count ih =>
      rw [setFrames, ih, frameIsFree_setFrame, Bool.and_assoc, ← Bool.decide_and]
      congr 2
      exact propext (by omega)

theorem frameIsFree_clearFrames (pmm : Pmm) (start count other : Nat) :
    (pmm.clearFrames start count).frameIsFree other =
      (pmm.frameIsFree other || decide (start ≤ other ∧ other < start + count)) := by
  induction count generalizing pmm start with
  | zero => simp [clearFrames]
  | succ count ih =>
      rw [clearFrames, ih, frameIsFree_clearFrame, Bool.or_assoc, ← Bool.decide_or]
      congr 2
      exact propext (by omega)

theorem frameIsFree_markReserved (pmm : Pmm) (base len frame : Nat) :
    (pmm.markReserved base len).frameIsFree frame =
      (pmm.frameIsFree frame && decide (¬(0 < len ∧ base / 4096 ≤ frame ∧
        frame < min (alignUp (min (base + len) (wordLimit - 1))) maxPhysMem / 4096))) := by
  have size : frameSize = 4096 := rfl
  unfold markReserved
  split
  · rename_i nothing
    simp [nothing]
  · rename_i something
    dsimp only
    rw [frameIsFree_setFrames, size]
    congr 1
    refine decide_eq_decide.mpr (not_congr ?_)
    unfold alignDown
    omega

theorem markReserved_lastUsableFrame (pmm : Pmm) (base len : Nat) :
    (pmm.markReserved base len).lastUsableFrame = pmm.lastUsableFrame := by
  unfold markReserved
  split
  · rfl
  · exact setFrames_lastUsableFrame _ _ _

/-! ### What the allocators return

`Free` speaks about byte addresses, as the callers do. -/

/-- The frame at physical address `phys` can be handed out. -/
def Free (pmm : Pmm) (phys : Nat) : Prop :=
  ∃ frame, phys = frame * frameSize ∧ frame ≤ pmm.lastUsableFrame ∧
    pmm.frameIsFree frame = true

variable {pmm : Pmm} {phys : Nat}

theorem free_aligned (free : pmm.Free phys) : phys % 4096 = 0 := by
  obtain ⟨frame, rfl, -, -⟩ := free
  exact Nat.mul_mod_left frame 4096

variable {after : Pmm}

theorem frameAlloc_some (given : pmm.frameAlloc = (some phys, after)) :
    pmm.Free phys ∧ after.lastUsableFrame = pmm.lastUsableFrame ∧
      ∀ other, after.frameIsFree other =
        (pmm.frameIsFree other && decide (other ≠ phys / frameSize)) := by
  unfold frameAlloc at given
  split at given
  · rename_i frame found
    have free : pmm.frameIsFree frame = true := List.find?_some found
    have mem := List.mem_of_find?_eq_some found
    cases given
    have index : frame * frameSize / frameSize = frame :=
      Nat.mul_div_cancel frame (by decide)
    refine ⟨⟨frame, rfl, ?_, free⟩, rfl, ?_⟩
    · have := List.mem_range.mp mem
      omega
    · intro other
      rw [index, frameIsFree_setFrame]
  · cases given

theorem frameAlloc_none (failed : pmm.frameAlloc = (none, after)) :
    after = pmm ∧ ∀ frame, frame ≤ pmm.lastUsableFrame → pmm.frameIsFree frame = false := by
  unfold frameAlloc at failed
  split at failed
  · cases failed
  · rename_i missing
    refine ⟨(Prod.mk.inj failed).2.symm, ?_⟩
    intro frame bounded
    have absent := List.find?_eq_none.mp missing frame
      (List.mem_range.mpr (by omega))
    simpa using absent

variable {count start : Nat}

private theorem contiguousScan_some {position remaining runStart runLen : Nat}
    (runFree : ∀ frame, runStart ≤ frame → frame < runStart + runLen → pmm.frameIsFree frame = true)
    (adjacent : runLen = 0 ∨ runStart + runLen = position)
    (found : pmm.contiguousScan count (List.range' position remaining) runStart runLen =
      some start) :
    start + count ≤ position + remaining ∧ 0 < count ∧
      ∀ frame, start ≤ frame → frame < start + count → pmm.frameIsFree frame = true := by
  induction remaining generalizing position runStart runLen with
  | zero => cases found
  | succ remaining ih =>
      rw [List.range'_succ] at found
      by_cases free : pmm.frameIsFree position = true
      · simp only [contiguousScan, free, if_true] at found
        have extended : ∀ frame,
            (if runLen = 0 then position else runStart) ≤ frame →
            frame < (if runLen = 0 then position else runStart) + (runLen + 1) →
            pmm.frameIsFree frame = true := by
          intro frame lower upper
          by_cases fresh : runLen = 0
          · simp only [fresh, if_true] at lower upper
            have same : frame = position := by omega
            rw [same]
            exact free
          · simp only [fresh, if_false] at lower upper
            rcases Nat.lt_or_ge frame (runStart + runLen) with inside | last
            · exact runFree frame lower inside
            · have same : frame = position := by omega
              rw [same]
              exact free
        have ends : (if runLen = 0 then position else runStart) + (runLen + 1) = position + 1 := by
          by_cases fresh : runLen = 0
          · simp [fresh]
          · simp only [fresh, if_false]
            omega
        by_cases complete : runLen + 1 = count
        · rw [if_pos complete] at found
          rw [← Option.some.inj found, ← complete]
          exact ⟨by omega, by omega, extended⟩
        · rw [if_neg complete] at found
          obtain ⟨upper, positive, all⟩ := ih extended (Or.inr ends) found
          exact ⟨by omega, positive, all⟩
      · simp only [contiguousScan, free] at found
        obtain ⟨upper, positive, all⟩ := ih (by omega) (Or.inl rfl) found
        exact ⟨by omega, positive, all⟩

theorem allocContiguous_some {pmm after : Pmm} {count phys : Nat}
    (given : pmm.allocContiguous count = (some phys, after)) :
    0 < count ∧ (∀ page, page < count → pmm.Free (phys + page * frameSize)) ∧
      after.lastUsableFrame = pmm.lastUsableFrame ∧ phys % 4096 = 0 ∧
      ∀ other, after.frameIsFree other =
        (pmm.frameIsFree other &&
          decide (¬(phys / frameSize ≤ other ∧ other < phys / frameSize + count))) := by
  unfold allocContiguous at given
  split at given
  · cases given
  · split at given
    · rename_i start found
      rw [List.range_eq_range'] at found
      obtain ⟨upper, positive, all⟩ :=
        contiguousScan_some (by omega) (Or.inl rfl) found
      cases given
      have index : start * frameSize / frameSize = start :=
        Nat.mul_div_cancel start (by decide)
      refine ⟨positive, ?_, setFrames_lastUsableFrame _ _ _, Nat.mul_mod_left start 4096, ?_⟩
      · intro page bounded
        refine ⟨start + page, by rw [Nat.add_mul], by omega, all _ (by omega) (by omega)⟩
      · intro other
        rw [index, frameIsFree_setFrames]
    · cases given

theorem allocContiguous_none {pmm after : Pmm} {count : Nat}
    (failed : pmm.allocContiguous count = (none, after)) : after = pmm := by
  unfold allocContiguous at failed
  split at failed
  · exact (Prod.mk.inj failed).2.symm
  · split at failed
    · cases failed
    · exact (Prod.mk.inj failed).2.symm

@[simp] theorem frameFree_lastUsableFrame (pmm : Pmm) (phys : Nat) :
    (pmm.frameFree phys).lastUsableFrame = pmm.lastUsableFrame := by
  unfold frameFree
  split <;> simp

theorem frameIsFree_frameFree (pmm : Pmm) (phys other : Nat) (aligned : phys % 4096 = 0)
    (bounded : phys < maxPhysMem) :
    (pmm.frameFree phys).frameIsFree other =
      (pmm.frameIsFree other || decide (other = phys / frameSize)) := by
  have accepted : ¬(phys % frameSize ≠ 0 ∨ phys ≥ maxPhysMem) := by
    simp only [frameSize]
    omega
  rw [frameFree, if_neg accepted, frameIsFree_clearFrame]

theorem free_frameAlloc (given : pmm.frameAlloc = (some phys, after)) (other : Nat) :
    after.Free other ↔ pmm.Free other ∧ other ≠ phys := by
  obtain ⟨⟨taken, rfl, -, -⟩, limit, bits⟩ := frameAlloc_some given
  have index : taken * frameSize / frameSize = taken := Nat.mul_div_cancel taken (by decide)
  constructor
  · rintro ⟨frame, rfl, bounded, free⟩
    rw [bits, index, Bool.and_eq_true, decide_eq_true_eq] at free
    refine ⟨⟨frame, rfl, by omega, free.1⟩, ?_⟩
    intro same
    exact free.2 (Nat.eq_of_mul_eq_mul_right (by decide) same)
  · rintro ⟨⟨frame, rfl, bounded, free⟩, different⟩
    refine ⟨frame, rfl, by omega, ?_⟩
    have apart : frame ≠ taken := by
      rintro rfl
      exact different rfl
    rw [bits, index, free]
    simp [apart]

theorem free_allocContiguous (given : pmm.allocContiguous count = (some phys, after))
    (other : Nat) :
    after.Free other ↔ pmm.Free other ∧ ¬(phys ≤ other ∧ other < phys + count * 4096) := by
  obtain ⟨-, -, limit, aligned, bits⟩ := allocContiguous_some given
  have size : frameSize = 4096 := rfl
  constructor
  · rintro ⟨frame, rfl, bounded, free⟩
    rw [bits, Bool.and_eq_true, decide_eq_true_eq, size] at free
    refine ⟨⟨frame, rfl, by omega, free.1⟩, ?_⟩
    rw [size]
    omega
  · rintro ⟨⟨frame, rfl, bounded, free⟩, outside⟩
    refine ⟨frame, rfl, by omega, ?_⟩
    rw [size] at outside
    rw [bits, free, size]
    simp only [Bool.true_and, decide_eq_true_eq]
    omega

theorem free_frameFree {pmm : Pmm} {phys : Nat} (aligned : phys % 4096 = 0)
    (bounded : phys < maxPhysMem) (other : Nat) :
    (pmm.frameFree phys).Free other ↔
      pmm.Free other ∨ (other = phys ∧ phys / 4096 ≤ pmm.lastUsableFrame) := by
  have size : frameSize = 4096 := rfl
  constructor
  · rintro ⟨frame, rfl, inside, free⟩
    rw [frameIsFree_frameFree pmm phys frame aligned bounded, Bool.or_eq_true,
      decide_eq_true_eq, size] at free
    rw [frameFree_lastUsableFrame] at inside
    rcases free with free | rfl
    · exact Or.inl ⟨frame, rfl, inside, free⟩
    · refine Or.inr ⟨?_, inside⟩
      rw [size]
      omega
  · rintro (⟨frame, rfl, inside, free⟩ | ⟨rfl, inside⟩)
    · refine ⟨frame, rfl, by rw [frameFree_lastUsableFrame]; exact inside, ?_⟩
      rw [frameIsFree_frameFree pmm phys frame aligned bounded, free, Bool.true_or]
    · refine ⟨other / 4096, by rw [size]; omega,
        by rw [frameFree_lastUsableFrame]; exact inside, ?_⟩
      rw [frameIsFree_frameFree pmm other _ aligned bounded, size]
      simp

theorem mem_frameRun {phys count frame : Nat} :
    frame ∈ frameRun phys count ↔ ∃ index, index < count ∧ frame = phys + index * 4096 := by
  unfold frameRun
  rw [List.mem_map]
  constructor
  · rintro ⟨index, mem, rfl⟩
    exact ⟨index, List.mem_range.mp mem, rfl⟩
  · rintro ⟨index, inside, rfl⟩
    exact ⟨index, List.mem_range.mpr inside, rfl⟩

theorem nodup_frameRun (phys count : Nat) : (frameRun phys count).Nodup := by
  refine List.Nodup.map ?_ List.nodup_range
  intro first second same
  have size : frameSize = 4096 := rfl
  simp only [size] at same
  omega

theorem mem_frameRun_of_aligned {frame : Nat} (aligned : phys % 4096 = 0)
    (frameAligned : frame % 4096 = 0) :
    frame ∈ frameRun phys count ↔ phys ≤ frame ∧ frame < phys + count * 4096 := by
  rw [mem_frameRun]
  constructor
  · rintro ⟨index, inside, rfl⟩
    omega
  · rintro ⟨lower, upper⟩
    exact ⟨(frame - phys) / 4096, by omega, by omega⟩

/-- Every frame among the next `count` single allocations satisfies `good`. -/
def Supplies (good : Nat → Prop) : Nat → Pmm → Prop
  | 0, _ => True
  | count + 1, pmm =>
      match pmm.frameAlloc with
      | (some frame, after) => good frame ∧ Supplies good count after
      | (none, _) => True

def Stocked : Nat → Pmm → Prop
  | 0, _ => True
  | count + 1, pmm =>
      match pmm.frameAlloc with
      | (some _, after) => Stocked count after
      | (none, _) => False

/-- The bitmap after up to `count` further frames have been handed out. -/
def allocs : Nat → Pmm → Pmm
  | 0, pmm => pmm
  | count + 1, pmm => allocs count pmm.frameAlloc.2

variable {good : Nat → Prop}

theorem Supplies.of_le {few many : Nat} (supplies : Supplies good many pmm) (fewer : few ≤ many) :
    Supplies good few pmm := by
  induction few generalizing many pmm with
  | zero => trivial
  | succ few ih =>
      obtain ⟨rest, rfl⟩ : ∃ rest, many = rest + 1 := ⟨many - 1, by omega⟩
      unfold Supplies at supplies ⊢
      split
      · rename_i frame after given
        rw [given] at supplies
        exact ⟨supplies.1, ih supplies.2 (by omega)⟩
      · trivial

theorem Stocked.of_le {few many : Nat} (stocked : Stocked many pmm) (fewer : few ≤ many) :
    Stocked few pmm := by
  induction few generalizing many pmm with
  | zero => trivial
  | succ few ih =>
      obtain ⟨rest, rfl⟩ : ∃ rest, many = rest + 1 := ⟨many - 1, by omega⟩
      unfold Stocked at stocked ⊢
      split
      · rename_i frame after given
        rw [given] at stocked
        exact ih stocked (by omega)
      · rename_i missing
        rw [missing] at stocked
        exact stocked

theorem Supplies.next (supplies : Supplies good (count + 1) pmm) :
    Supplies good count pmm.frameAlloc.2 := by
  have fewer := supplies.of_le (Nat.le_succ count)
  unfold Supplies at supplies
  split at supplies
  · rename_i frame after given
    rw [given]
    exact supplies.2
  · rename_i after failed
    rw [failed, (frameAlloc_none failed).1]
    exact fewer

theorem Stocked.next (stocked : Stocked (count + 1) pmm) : Stocked count pmm.frameAlloc.2 := by
  unfold Stocked at stocked
  split at stocked
  · rename_i frame after given
    rw [given]
    exact stocked
  · exact stocked.elim

variable {taken : Nat}

theorem Stocked.allocs (stocked : Stocked (taken + count) pmm) :
    Stocked count (pmm.allocs taken) := by
  induction taken generalizing pmm with
  | zero =>
      rw [Nat.zero_add] at stocked
      exact stocked
  | succ taken ih =>
      rw [Nat.add_right_comm] at stocked
      exact ih stocked.next

theorem Supplies.mono {better : Nat → Prop} (supplies : Supplies good count pmm)
    (wider : ∀ frame, good frame → better frame) : Supplies better count pmm := by
  induction count generalizing pmm with
  | zero => trivial
  | succ count ih =>
      unfold Supplies at supplies ⊢
      split
      · rename_i frame after given
        rw [given] at supplies
        exact ⟨wider frame supplies.1, ih supplies.2⟩
      · trivial

theorem Supplies.and {better : Nat → Prop} (left : Supplies good count pmm)
    (right : Supplies better count pmm) :
    Supplies (fun frame => good frame ∧ better frame) count pmm := by
  induction count generalizing pmm with
  | zero => trivial
  | succ count ih =>
      unfold Supplies at left right ⊢
      split
      · rename_i frame after given
        rw [given] at left right
        exact ⟨⟨left.1, right.1⟩, ih left.2 right.2⟩
      · trivial

theorem supplies_free (count : Nat) (pmm : Pmm) : Supplies pmm.Free count pmm := by
  induction count generalizing pmm with
  | zero => trivial
  | succ count ih =>
      unfold Supplies
      split
      · rename_i frame after given
        refine ⟨(frameAlloc_some given).1, (ih after).mono ?_⟩
        intro other free
        exact ((free_frameAlloc given other).mp free).1
      · trivial

theorem frameAlloc_of_free {other : Nat} (free : pmm.Free other) :
    ∃ phys after, pmm.frameAlloc = (some phys, after) ∧ phys ≤ other := by
  obtain ⟨frame, rfl, inside, bit⟩ := free
  unfold frameAlloc
  cases found : (List.range (pmm.lastUsableFrame + 1)).find? pmm.frameIsFree with
  | none =>
      have refused := List.find?_eq_none.mp found frame (List.mem_range.mpr (by omega))
      exact absurd bit refused
  | some lowest =>
      refine ⟨lowest * frameSize, pmm.setFrame lowest, rfl, Nat.mul_le_mul_right _ ?_⟩
      by_contra above
      obtain ⟨-, before, after, split, earlier⟩ := List.find?_eq_some_iff_append.mp found
      have mem : frame ∈ before := by
        have position : before.length = lowest := by
          have here : (List.range (pmm.lastUsableFrame + 1))[before.length]? = some lowest := by
            rw [split]
            simp
          rw [List.getElem?_range] at here
          · exact Option.some.inj here
          · have total := congrArg List.length split
            simp at total
            omega
        have there : (List.range (pmm.lastUsableFrame + 1))[frame]? = some frame :=
          List.getElem?_range (by omega)
        rw [split, List.getElem?_append_left (by omega)] at there
        exact List.mem_of_getElem? there
      have notFree := earlier frame mem
      rw [bit] at notFree
      cases notFree

private theorem contiguousScan_of_free {pmm : Pmm} {count position remaining runStart runLen start : Nat}
    (free : ∀ frame, start ≤ frame → frame < start + count → pmm.frameIsFree frame = true)
    (fits : start + count ≤ position + remaining) (short : runLen < count)
    (adjacent : runLen = 0 ∨ runStart + runLen = position)
    (ahead : position ≤ start ∨ (runLen ≠ 0 ∧ runStart ≤ start)) :
    ∃ found, pmm.contiguousScan count (List.range' position remaining) runStart runLen = some found ∧
      found ≤ start := by
  induction remaining generalizing position runStart runLen with
  | zero => omega
  | succ remaining ih =>
      rw [List.range'_succ, contiguousScan]
      by_cases isFree : pmm.frameIsFree position = true
      · rw [if_pos isFree]
        dsimp only
        have begins : (if runLen = 0 then position else runStart) ≤ start ∨ position + 1 ≤ start := by
          split <;> omega
        have ends : (if runLen = 0 then position else runStart) + (runLen + 1) = position + 1 := by
          split <;> omega
        by_cases complete : runLen + 1 = count
        · rw [if_pos complete]
          refine ⟨_, rfl, ?_⟩
          omega
        · rw [if_neg complete]
          refine ih (by omega) (by omega) (Or.inr ends) ?_
          rcases begins with low | later
          · exact Or.inr ⟨by omega, low⟩
          · exact Or.inl later
      · rw [if_neg isFree]
        have notYet : position < start := by
          by_contra reached
          exact isFree (free position (by omega) (by omega))
        exact ih (by omega) (by omega) (Or.inl rfl) (Or.inl notYet)

/-- There are `count` free frames in a row from `start` on. -/
def FreeRun (pmm : Pmm) (start count : Nat) : Prop :=
  ∀ index, index < count → pmm.Free (start + index * frameSize)

theorem allocContiguous_of_freeRun (positive : 0 < count) (free : pmm.FreeRun start count) :
    ∃ phys after, pmm.allocContiguous count = (some phys, after) ∧ phys ≤ start := by
  have size : frameSize = 4096 := rfl
  obtain ⟨first, rfl, -, -⟩ : pmm.Free start := by
    have here := free 0 positive
    rwa [Nat.zero_mul, Nat.add_zero] at here
  have bits : ∀ frame, first ≤ frame → frame < first + count →
      frame ≤ pmm.lastUsableFrame ∧ pmm.frameIsFree frame = true := by
    intro frame lower upper
    obtain ⟨other, same, inside, bit⟩ := free (frame - first) (by omega)
    obtain rfl : frame = other := by
      rw [size] at same
      omega
    exact ⟨inside, bit⟩
  have last := (bits (first + count - 1) (by omega) (by omega)).1
  obtain ⟨found, scanned, low⟩ := @contiguousScan_of_free pmm count 0
    (pmm.lastUsableFrame + 1) 0 0 first (fun frame lower upper => (bits frame lower upper).2) (by omega) positive (Or.inl rfl)
    (Or.inl (Nat.zero_le first))
  refine ⟨found * frameSize, pmm.setFrames found count, ?_, Nat.mul_le_mul_right _ low⟩
  unfold allocContiguous
  rw [if_neg (by omega), List.range_eq_range', scanned]

/-- `count` allocations, in whatever pieces, will hand out frames of `good` only: every
free frame is one, or every free frame is one up to the end of a free run of that length. -/
def Clear (good : Nat → Prop) (count : Nat) (pmm : Pmm) : Prop :=
  (∀ frame, pmm.Free frame → good frame) ∨
    ∃ start, pmm.FreeRun start count ∧
      ∀ frame, pmm.Free frame → frame < start + count * frameSize → good frame

theorem FreeRun.rest (free : pmm.FreeRun start (taken + count))
    (kept : ∀ frame, pmm.Free frame → start + taken * frameSize ≤ frame → after.Free frame) :
    after.FreeRun (start + taken * frameSize) count := by
  intro index inside
  have size : frameSize = 4096 := rfl
  have here := free (taken + index) (by omega)
  rw [size] at here kept ⊢
  have place : start + (taken + index) * 4096 = start + taken * 4096 + index * 4096 := by omega
  rw [place] at here
  exact kept _ here (by omega)

theorem FreeRun.frameAlloc (free : pmm.FreeRun start (1 + count))
    (given : pmm.frameAlloc = (some phys, after)) :
    phys ≤ start ∧ after.FreeRun (start + 1 * frameSize) count := by
  have size : frameSize = 4096 := rfl
  have first : pmm.Free start := by
    have here := free 0 (by omega)
    rwa [Nat.zero_mul, Nat.add_zero] at here
  obtain ⟨other, final, same, low⟩ := frameAlloc_of_free first
  obtain rfl : phys = other := by
    rw [given] at same
    exact Option.some.inj (Prod.ext_iff.mp same).1
  refine ⟨low, free.rest (fun frame isFree above => ?_)⟩
  rw [size] at above
  exact (free_frameAlloc given frame).mpr ⟨isFree, by omega⟩

theorem FreeRun.allocContiguous (free : pmm.FreeRun start (taken + count))
    (given : pmm.allocContiguous taken = (some phys, after)) :
    phys ≤ start ∧ after.FreeRun (start + taken * frameSize) count := by
  have size : frameSize = 4096 := rfl
  obtain ⟨positive, -, -, -, -⟩ := allocContiguous_some given
  obtain ⟨other, final, same, low⟩ :=
    allocContiguous_of_freeRun positive (fun index inside => free index (by omega))
  obtain rfl : phys = other := by
    rw [given] at same
    exact Option.some.inj (Prod.ext_iff.mp same).1
  refine ⟨low, free.rest (fun frame isFree above => ?_)⟩
  rw [size] at above
  exact (free_allocContiguous given frame).mpr ⟨isFree, by omega⟩

theorem Clear.frameAlloc (clear : Clear good (1 + count) pmm)
    (given : pmm.frameAlloc = (some phys, after)) : good phys ∧ Clear good count after := by
  have size : frameSize = 4096 := rfl
  have wasFree := (frameAlloc_some given).1
  have fewer : ∀ frame, after.Free frame → pmm.Free frame :=
    fun frame isFree => ((free_frameAlloc given frame).mp isFree).1
  rcases clear with always | ⟨start, free, low⟩
  · exact ⟨always phys wasFree, Or.inl (fun frame isFree => always frame (fewer frame isFree))⟩
  · obtain ⟨below, rest⟩ := free.frameAlloc given
    refine ⟨low phys wasFree (by rw [size]; omega), Or.inr ⟨_, rest, ?_⟩⟩
    intro frame isFree inside
    exact low frame (fewer frame isFree) (by rw [size] at inside ⊢; omega)

theorem Clear.allocContiguous (clear : Clear good (taken + count) pmm)
    (given : pmm.allocContiguous taken = (some phys, after)) :
    (∀ frame, frame ∈ frameRun phys taken → good frame) ∧ Clear good count after := by
  have size : frameSize = 4096 := rfl
  obtain ⟨-, blockFree, -, -, -⟩ := allocContiguous_some given
  have fewer : ∀ frame, after.Free frame → pmm.Free frame :=
    fun frame isFree => ((free_allocContiguous given frame).mp isFree).1
  rcases clear with always | ⟨start, free, low⟩
  · refine ⟨?_, Or.inl (fun frame isFree => always frame (fewer frame isFree))⟩
    intro frame mem
    obtain ⟨index, inside, rfl⟩ := mem_frameRun.mp mem
    exact always _ (blockFree index inside)
  · obtain ⟨below, rest⟩ := free.allocContiguous given
    refine ⟨?_, Or.inr ⟨_, rest, ?_⟩⟩
    · intro frame mem
      obtain ⟨index, inside, rfl⟩ := mem_frameRun.mp mem
      refine low _ (blockFree index inside) ?_
      rw [size]
      omega
    · intro frame isFree inside
      exact low frame (fewer frame isFree) (by rw [size] at inside ⊢; omega)

theorem Clear.of_le {few many : Nat} (clear : Clear good many pmm) (fewer : few ≤ many) :
    Clear good few pmm := by
  rcases clear with always | ⟨start, free, low⟩
  · exact Or.inl always
  · refine Or.inr ⟨start, fun index inside => free index (by omega), ?_⟩
    intro frame isFree inside
    exact low frame isFree (lt_of_lt_of_le inside
      (Nat.add_le_add_left (Nat.mul_le_mul_right _ fewer) _))

theorem Clear.allocs (clear : Clear good (taken + count) pmm) :
    Clear good count (pmm.allocs taken) := by
  induction taken generalizing pmm with
  | zero => rwa [Nat.zero_add] at clear
  | succ taken ih =>
      rw [Pmm.allocs]
      rcases given : pmm.frameAlloc with ⟨_ | phys, after⟩
      · obtain ⟨rfl, -⟩ := frameAlloc_none given
        exact ih (clear.of_le (by omega))
      · have shift : taken + 1 + count = 1 + (taken + count) := by omega
        rw [shift] at clear
        exact ih (clear.frameAlloc given).2

theorem Clear.supplies (clear : Clear good count pmm) : Supplies good count pmm := by
  induction count generalizing pmm with
  | zero => trivial
  | succ count ih =>
      unfold Supplies
      split
      · rename_i frame after given
        rw [Nat.add_comm] at clear
        obtain ⟨here, later⟩ := clear.frameAlloc given
        exact ⟨here, ih later⟩
      · trivial

/-- The next `count` frames are good ones and, if `sure`, there are that many in a row. -/
structure Stock (good : Nat → Prop) (sure : Prop) (count : Nat) (pmm : Pmm) : Prop where
  clear : Clear good count pmm
  plenty : sure → ∃ start, pmm.FreeRun start count

namespace Stock

variable {good : Nat → Prop} {sure : Prop} {count taken : Nat} {pmm after : Pmm}

theorem of_le {few : Nat} (stock : Stock good sure count pmm) (fewer : few ≤ count) :
    Stock good sure few pmm := by
  refine ⟨stock.clear.of_le fewer, fun certain => ?_⟩
  obtain ⟨start, free⟩ := stock.plenty certain
  exact ⟨start, fun index inside => free index (by omega)⟩

theorem frameAlloc_some {phys : Nat} (stock : Stock good sure (1 + count) pmm)
    (given : pmm.frameAlloc = (some phys, after)) : good phys ∧ Stock good sure count after := by
  obtain ⟨isGood, clear⟩ := stock.clear.frameAlloc given
  refine ⟨isGood, clear, fun certain => ?_⟩
  obtain ⟨start, free⟩ := stock.plenty certain
  exact ⟨_, (free.frameAlloc given).2⟩

theorem frameAlloc_none (stock : Stock good sure (1 + count) pmm)
    (failed : pmm.frameAlloc = (none, after)) : ¬ sure := by
  intro certain
  obtain ⟨start, free⟩ := stock.plenty certain
  obtain ⟨phys, final, given, -⟩ := frameAlloc_of_free (free 0 (by omega))
  rw [given] at failed
  cases failed

theorem allocContiguous_some {phys : Nat} (stock : Stock good sure (taken + count) pmm)
    (given : pmm.allocContiguous taken = (some phys, after)) :
    (∀ frame, frame ∈ frameRun phys taken → good frame) ∧ Stock good sure count after := by
  obtain ⟨areGood, clear⟩ := stock.clear.allocContiguous given
  refine ⟨areGood, clear, fun certain => ?_⟩
  obtain ⟨start, free⟩ := stock.plenty certain
  exact ⟨_, (free.allocContiguous given).2⟩

theorem allocContiguous_none (stock : Stock good sure (taken + count) pmm) (positive : 0 < taken)
    (failed : pmm.allocContiguous taken = (none, after)) : ¬ sure := by
  intro certain
  obtain ⟨start, free⟩ := stock.plenty certain
  obtain ⟨phys, final, given, -⟩ :=
    allocContiguous_of_freeRun positive (fun index inside => free index (by omega))
  rw [given] at failed
  cases failed

theorem allocs (stock : Stock good sure (taken + count) pmm) :
    Stock good sure count (pmm.allocs taken) := by
  refine ⟨stock.clear.allocs, fun certain => ?_⟩
  obtain ⟨start, free⟩ := stock.plenty certain
  clear stock
  induction taken generalizing pmm start with
  | zero =>
      rw [Nat.zero_add] at free
      exact ⟨start, free⟩
  | succ taken ih =>
      have shift : taken + 1 + count = 1 + (taken + count) := by omega
      rw [shift] at free
      obtain ⟨phys, final, given, -⟩ := frameAlloc_of_free (free 0 (by omega))
      rw [Pmm.allocs, given]
      exact ih _ (free.frameAlloc given).2

theorem supplies (stock : Stock good sure count pmm) : Supplies good count pmm :=
  stock.clear.supplies

theorem stocked (stock : Stock good sure count pmm) (certain : sure) : Stocked count pmm := by
  induction count generalizing pmm with
  | zero => trivial
  | succ count ih =>
      rw [Nat.add_comm] at stock
      rcases given : pmm.frameAlloc with ⟨_ | phys, final⟩
      · exact absurd certain (stock.frameAlloc_none given)
      · unfold Stocked
        rw [given]
        exact ih (stock.frameAlloc_some given).2

end Stock

end Pmm
end MachaOS
