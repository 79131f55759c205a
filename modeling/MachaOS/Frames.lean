/-
Which frames the bitmap covers and who holds them (`src/pmm.rs`).

`init` clears exactly the frames that lie inside usable memory and are not
protected; from then on a bit is set for two reasons only, that `init` left it
set or that somebody holds the frame.  Both allocators and `frame_free` keep it
so, whatever the order of the calls.
-/

import MachaOS.Lib.Runs
import MachaOS.Pmm
import Mathlib.Data.List.Nodup

namespace MachaOS.Pmm

open List

/-- `count_free`, which is also `free_frames` -/
def countFree (pmm : Pmm) : Nat :=
  (List.range (pmm.lastUsableFrame + 1)).countP pmm.frameIsFree

def inUse (pmm : Pmm) (frame : Nat) : Bool :=
  (pmm.bitmap (frame / 8)).getLsbD (frame % 8)

theorem inUse_eq (pmm : Pmm) (frame : Nat) : pmm.inUse frame = !pmm.frameIsFree frame := by
  rw [frameIsFree_eq, Bool.not_not, inUse]

/-- `count` frames in a row from `first` on, none beyond `LAST_USABLE_FRAME`, are free. -/
def RunFrom (pmm : Pmm) (count first : Nat) : Prop :=
  first + count ≤ pmm.lastUsableFrame + 1 ∧
    ∀ frame, first ≤ frame → frame < first + count → pmm.frameIsFree frame = true

variable {pmm : Pmm}

theorem freeRun_of_runFrom {count first : Nat} (run : RunFrom pmm count first) :
    pmm.FreeRun (first * frameSize) count := by
  intro index inside
  refine ⟨first + index, (Nat.add_mul _ _ _).symm, ?_, run.2 _ (by omega) (by omega)⟩
  have below := run.1
  omega

theorem runFrom_of_free {count first : Nat} (positive : 0 < count)
    (free : pmm.FreeRun (first * frameSize) count) : RunFrom pmm count first := by
  have size : frameSize = 4096 := rfl
  have each : ∀ frame, first ≤ frame → frame < first + count →
      frame ≤ pmm.lastUsableFrame ∧ pmm.frameIsFree frame = true := by
    intro frame lower upper
    obtain ⟨other, same, below, isFree⟩ := free (frame - first) (by omega)
    rw [size] at same
    have equal : frame = other := by omega
    rw [equal]
    exact ⟨below, isFree⟩
  constructor
  · have last := (each (first + count - 1) (by omega) (by omega)).1
    omega
  · intro frame lower upper
    exact (each frame lower upper).2

theorem contiguousScan_one (pmm : Pmm) (frames : List Nat) (runStart : Nat) :
    pmm.contiguousScan 1 frames runStart 0 = frames.find? pmm.frameIsFree := by
  induction frames generalizing runStart with
  | nil => rfl
  | cons frame rest ih =>
      rw [contiguousScan]
      cases isFree : pmm.frameIsFree frame with
      | true =>
          rw [List.find?_cons_of_pos isFree]
          rfl
      | false =>
          rw [List.find?_cons_of_neg (by rw [isFree]; exact Bool.false_ne_true), if_neg (by simp)]
          exact ih runStart

theorem allocContiguous_one (pmm : Pmm) : pmm.allocContiguous 1 = pmm.frameAlloc := by
  unfold allocContiguous frameAlloc
  rw [if_neg (by omega), contiguousScan_one]
  cases (List.range (pmm.lastUsableFrame + 1)).find? pmm.frameIsFree with
  | none => rfl
  | some frame => rfl

/-- `alloc_contiguous` finds the lowest run of free frames of any length, if there is one, and sets
the bits of that run alone; a run of one is what `frame_alloc` takes. -/
theorem contiguous_exact (pmm : Pmm) (count : Nat) :
    ((pmm.allocContiguous count).1.isSome = true ↔ 1 ≤ count ∧ ∃ first, RunFrom pmm count first) ∧
    (∀ base, (pmm.allocContiguous count).1 = some base →
      ∃ first, base = first * frameSize ∧ RunFrom pmm count first ∧
        (∀ lower, RunFrom pmm count lower → first ≤ lower) ∧
        (pmm.allocContiguous count).2.lastUsableFrame = pmm.lastUsableFrame ∧
        ∀ frame, (pmm.allocContiguous count).2.inUse frame =
          (pmm.inUse frame || decide (first ≤ frame ∧ frame < first + count))) ∧
    ((pmm.allocContiguous count).1 = none → (pmm.allocContiguous count).2 = pmm) ∧
    (pmm.allocContiguous 1).1 = pmm.frameAlloc.1 := by
  have size : frameSize = 4096 := rfl
  refine ⟨⟨?_, ?_⟩, ?_, ?_, ?_⟩
  · intro found
    obtain ⟨base, same⟩ := Option.isSome_iff_exists.mp found
    obtain ⟨positive, free, -, aligned, -⟩ :=
      @allocContiguous_some pmm (pmm.allocContiguous count).2 count base (Prod.ext same rfl)
    refine ⟨positive, base / 4096, runFrom_of_free positive ?_⟩
    have place : base / 4096 * frameSize = base := by
      rw [size]
      omega
    rw [place]
    exact free
  · rintro ⟨positive, first, run⟩
    obtain ⟨phys, after, given, -⟩ :=
      allocContiguous_of_freeRun positive (freeRun_of_runFrom run)
    rw [given]
    rfl
  · intro base found
    obtain ⟨positive, free, last, aligned, bits⟩ :=
      @allocContiguous_some pmm (pmm.allocContiguous count).2 count base (Prod.ext found rfl)
    have place : base = base / 4096 * frameSize := by
      rw [size]
      omega
    refine ⟨base / 4096, place, ?_, ?_, last, ?_⟩
    · apply runFrom_of_free positive
      rw [← place]
      exact free
    · intro lower run
      obtain ⟨phys, after, given, low⟩ :=
        allocContiguous_of_freeRun positive (freeRun_of_runFrom run)
      rw [given] at found
      cases found
      rw [size] at low
      omega
    · intro frame
      rw [inUse_eq, inUse_eq, bits, size, Bool.not_and, decide_not, Bool.not_not]
  · intro failed
    exact @allocContiguous_none pmm (pmm.allocContiguous count).2 count (Prod.ext failed rfl)
  · rw [allocContiguous_one]

def Usable (region : MemoryRegion) (frame : Nat) : Prop :=
  region.regionType = 1 ∧ 1024 * 1024 ≤ region.base ∧ region.base ≤ frame * frameSize ∧
    (frame + 1) * frameSize ≤ region.base + region.length

def Intersects (start stop frame : Nat) : Prop :=
  ∃ addr, start ≤ addr ∧ addr < stop ∧
    frame * frameSize ≤ addr ∧ addr < (frame + 1) * frameSize

theorem intersects_iff {start stop frame : Nat} (proper : start < stop) :
    Intersects start stop frame ↔ frame * frameSize < stop ∧ start < (frame + 1) * frameSize := by
  have size : frameSize = 4096 := rfl
  constructor
  · rintro ⟨addr, lower, upper, low, high⟩
    exact ⟨by omega, by omega⟩
  · rintro ⟨lower, upper⟩
    rw [size] at lower upper
    refine ⟨max start (frame * 4096), ?_, ?_, ?_, ?_⟩ <;> rw [size] at * <;> omega

theorem not_intersects_empty {start stop frame : Nat} (empty : stop ≤ start) :
    ¬ Intersects start stop frame := by
  rintro ⟨addr, lower, upper, -, -⟩
  omega

/-- Nothing beyond `LAST_USABLE_FRAME` is free, and that is a frame of the bitmap. -/
structure Reachable (pmm : Pmm) : Prop where
  bounded : pmm.lastUsableFrame < frameCount
  reached : ∀ frame, pmm.frameIsFree frame = true → frame ≤ pmm.lastUsableFrame

/-- The frames `init`'s loop clears for a region. -/
def regionFrames (region : MemoryRegion) : Nat × Nat :=
  (alignUp region.base / frameSize,
    min (alignDown ((region.base + region.length) % wordLimit)) maxPhysMem / frameSize)

variable {region : MemoryRegion}

theorem initRegion_of_usable (usable : region.regionType = 1) (above : 1024 * 1024 ≤ region.base) :
    pmm.initRegion region =
      { pmm.clearFrames (regionFrames region).1
          ((regionFrames region).2 - (regionFrames region).1) with
        lastUsableFrame :=
          if (regionFrames region).2 > pmm.lastUsableFrame then (regionFrames region).2 - 1
          else pmm.lastUsableFrame } := by
  rw [initRegion, if_neg (by simp [usable]), if_neg (by omega)]
  rfl

theorem initRegion_of_unusable (unusable : ¬(region.regionType = 1 ∧ 1024 * 1024 ≤ region.base)) :
    pmm.initRegion region = pmm := by
  unfold initRegion
  split
  · rfl
  · rename_i isUsable
    rw [if_pos]
    by_contra above
    exact unusable ⟨Decidable.not_not.mp isUsable, by omega⟩

theorem Reachable.initRegion (reachable : Reachable pmm) (region : MemoryRegion) :
    Reachable (pmm.initRegion region) := by
  obtain ⟨bounded, reached⟩ := reachable
  by_cases usable : region.regionType = 1 ∧ 1024 * 1024 ≤ region.base
  · rw [initRegion_of_usable usable.1 usable.2]
    have limit : (regionFrames region).2 ≤ frameCount :=
      Nat.div_le_div_right (Nat.min_le_right _ _)
    constructor
    · dsimp only
      split <;> omega
    · intro frame free
      have bits := frameIsFree_clearFrames pmm (regionFrames region).1
        ((regionFrames region).2 - (regionFrames region).1) frame
      have cleared : (pmm.frameIsFree frame || decide ((regionFrames region).1 ≤ frame ∧
          frame < (regionFrames region).1 +
            ((regionFrames region).2 - (regionFrames region).1))) = true := bits.symm.trans free
      rw [Bool.or_eq_true, decide_eq_true_eq] at cleared
      dsimp only
      rcases cleared with old | new
      · have below := reached frame old
        split <;> omega
      · split <;> omega
  · rw [initRegion_of_unusable usable]
    exact ⟨bounded, reached⟩

theorem frameIsFree_initRegion (fits : region.base + region.length < 2 ^ 63) (frame : Nat) :
    (pmm.initRegion region).frameIsFree frame = true ↔
      pmm.frameIsFree frame = true ∨ (frame < frameCount ∧ Usable region frame) := by
  have size : frameSize = 4096 := rfl
  have count : frameCount = 65536 := rfl
  by_cases usable : region.regionType = 1 ∧ 1024 * 1024 ≤ region.base
  · rw [initRegion_of_usable usable.1 usable.2]
    have bits := frameIsFree_clearFrames pmm (regionFrames region).1
      ((regionFrames region).2 - (regionFrames region).1) frame
    have first : (regionFrames region).1 = (region.base + 4095) / 4096 := by
      simp only [regionFrames, alignUp, wordLimit, size]
      omega
    have last : (regionFrames region).2 =
        min ((region.base + region.length) / 4096) 65536 := by
      simp only [regionFrames, alignDown, wordLimit, maxPhysMem, size]
      omega
    refine (iff_of_eq (congrArg (· = true) bits)).trans ?_
    rw [Bool.or_eq_true, decide_eq_true_eq, first, last]
    unfold Usable
    rw [size, count]
    refine or_congr_right ⟨?_, ?_⟩
    · rintro ⟨lower, upper⟩
      exact ⟨by omega, usable.1, usable.2, by omega, by omega⟩
    · rintro ⟨inside, -, -, lower, upper⟩
      omega
  · rw [initRegion_of_unusable usable]
    exact ⟨Or.inl, fun free => free.resolve_right (fun more => usable ⟨more.2.1, more.2.2.1⟩)⟩

theorem frameIsFree_of_markReserved {base len frame : Nat}
    (free : (pmm.markReserved base len).frameIsFree frame = true) :
    pmm.frameIsFree frame = true := by
  rw [frameIsFree_markReserved, Bool.and_eq_true] at free
  exact free.1

theorem Reachable.markReserved (reachable : Reachable pmm) (base len : Nat) :
    Reachable (pmm.markReserved base len) := by
  refine ⟨?_, fun frame free => ?_⟩
  · rw [markReserved_lastUsableFrame]
    exact reachable.bounded
  · rw [markReserved_lastUsableFrame]
    exact reachable.reached frame (frameIsFree_of_markReserved free)

theorem markReserved_exact {base len frame : Nat} (fits : len ≠ 0 → base + len + 4095 < wordLimit)
    (inside : frame < frameCount) :
    (pmm.markReserved base len).frameIsFree frame = true ↔
      pmm.frameIsFree frame = true ∧ ¬ Intersects base (base + len) frame := by
  have size : frameSize = 4096 := rfl
  have count : frameCount = 65536 := rfl
  rw [frameIsFree_markReserved, Bool.and_eq_true, decide_eq_true_eq]
  refine and_congr_right (fun _ => not_congr ?_)
  by_cases empty : len = 0
  · exact iff_of_false (fun touched => by omega) (not_intersects_empty (by omega))
  · replace fits := fits empty
    have last : min (alignUp (min (base + len) (wordLimit - 1))) maxPhysMem / 4096 =
        min ((base + len + 4095) / 4096) 65536 := by
      simp only [alignUp, maxPhysMem, wordLimit] at fits ⊢
      omega
    rw [last, intersects_iff (by omega), size]
    rw [count] at inside
    constructor
    · rintro ⟨-, lower, upper⟩
      exact ⟨by omega, by omega⟩
    · rintro ⟨lower, upper⟩
      omega

theorem reachable_foldl (reachable : Reachable pmm) (regions : List MemoryRegion) :
    Reachable (regions.foldl initRegion pmm) := by
  induction regions generalizing pmm with
  | nil => exact reachable
  | cons region rest ih => exact ih (reachable.initRegion region)

theorem frameIsFree_foldl {regions : List MemoryRegion}
    (fit : ∀ region, region ∈ regions → region.base + region.length < 2 ^ 63) (frame : Nat) :
    (regions.foldl initRegion pmm).frameIsFree frame = true ↔
      pmm.frameIsFree frame = true ∨
        (frame < frameCount ∧ ∃ region, region ∈ regions ∧ Usable region frame) := by
  induction regions generalizing pmm with
  | nil => simp
  | cons region rest ih =>
      rw [foldl_cons, ih (fun other mem => fit other (mem_cons_of_mem _ mem)),
        frameIsFree_initRegion (fit region mem_cons_self), or_assoc]
      refine or_congr_right ⟨?_, ?_⟩
      · rintro (⟨inside, usable⟩ | ⟨inside, other, mem, usable⟩)
        · exact ⟨inside, region, mem_cons_self, usable⟩
        · exact ⟨inside, other, mem_cons_of_mem _ mem, usable⟩
      · rintro ⟨inside, other, mem, usable⟩
        rcases mem_cons.mp mem with rfl | later
        · exact Or.inl ⟨inside, usable⟩
        · exact Or.inr ⟨inside, other, later, usable⟩

theorem frameIsFree_unset (frame : Nat) :
    ({ bitmap := fun _ => 0xFF#8, lastUsableFrame := 0 } : Pmm).frameIsFree frame = false := by
  have allSet : ∀ index, index < 8 → (0xFF#8).getLsbD index = true := by decide
  rw [frameIsFree_eq, allSet _ (Nat.mod_lt _ (by decide)), Bool.not_true]

theorem reachable_init (regions : List MemoryRegion) (kernelStart kernelEnd : Nat) :
    Reachable (init regions kernelStart kernelEnd) := by
  have unset : Reachable { bitmap := fun _ => 0xFF#8, lastUsableFrame := 0 } := by
    refine ⟨by decide, fun frame free => ?_⟩
    rw [frameIsFree_unset] at free
    cases free
  exact ((reachable_foldl unset regions).markReserved _ _).markReserved _ _

/-- Exactly the frames inside usable memory that neither the kernel image nor the low range
protects are free.  The image is linked at 1 MiB and loaded through 32-bit addresses, so its
end is nowhere near the top of the address space, where `align_up` would wrap. -/
theorem init_exact (regions : List MemoryRegion) (kernelStart kernelEnd : Nat)
    (fit : ∀ region, region ∈ regions → region.base + region.length < 2 ^ 63)
    (imageFits : kernelEnd + 4095 < 2 ^ 64) (frame : Nat) :
    ((init regions kernelStart kernelEnd).frameIsFree frame = true ↔
      frame < frameCount ∧ (∃ region, region ∈ regions ∧ Usable region frame) ∧
        ¬ Intersects kernelStart kernelEnd frame ∧ lowReservedEnd ≤ frame * frameSize) ∧
      ((init regions kernelStart kernelEnd).frameIsFree frame = true →
        frame ≤ (init regions kernelStart kernelEnd).lastUsableFrame) := by
  have reachable := reachable_init regions kernelStart kernelEnd
  refine ⟨?_, reachable.reached frame⟩
  have image : Intersects kernelStart (kernelStart + (kernelEnd - kernelStart)) frame ↔
      Intersects kernelStart kernelEnd frame := by
    rcases Nat.le_total kernelStart kernelEnd with ordered | reversed
    · rw [Nat.add_sub_cancel' ordered]
    · exact iff_of_false (not_intersects_empty (by omega)) (not_intersects_empty reversed)
  have low : Intersects 0 (0 + lowReservedEnd) frame ↔ ¬ lowReservedEnd ≤ frame * frameSize := by
    have size : frameSize = 4096 := rfl
    rw [intersects_iff (by decide), size]
    omega
  have exact : frame < frameCount →
      ((init regions kernelStart kernelEnd).frameIsFree frame = true ↔
        ((∃ region, region ∈ regions ∧ Usable region frame) ∧
          ¬ Intersects kernelStart kernelEnd frame) ∧ lowReservedEnd ≤ frame * frameSize) := by
    intro inside
    unfold init
    dsimp only
    rw [markReserved_exact (fun _ => by decide) inside, low,
      markReserved_exact (fun _ => by rw [wordLimit]; omega) inside, image,
      frameIsFree_foldl fit, frameIsFree_unset]
    simp [inside]
  constructor
  · intro free
    have inside := lt_of_le_of_lt (reachable.reached frame free) reachable.bounded
    obtain ⟨⟨usable, apart⟩, above⟩ := (exact inside).mp free
    exact ⟨inside, usable, apart, above⟩
  · rintro ⟨inside, usable, apart, above⟩
    exact (exact inside).mpr ⟨⟨usable, apart⟩, above⟩

theorem init_exact_first : (init [⟨0x4000000, 0x2000, 1⟩] 0x100000 0x200000).frameIsFree 0x4000 = true :=
  (init_exact [⟨0x4000000, 0x2000, 1⟩] 0x100000 0x200000 (by decide) (by decide) 0x4000).1.mpr
    ⟨by decide, ⟨_, List.mem_singleton_self _, by decide, by decide, by decide, by decide⟩,
      fun ⟨addr, lower, upper, low, high⟩ => by simp only [frameSize] at low; omega, by decide⟩

structure Holder where
  pmm : Pmm
  held : List Nat

inductive Call where
  | frameAlloc
  | allocContiguous (count : Nat)
  | frameFree (phys : Nat)

namespace Holder

def block (count : Nat) : Option Nat → List Nat
  | some phys => frameRun phys count
  | none => []

def step (holder : Holder) : Call → Option Holder
  | .frameAlloc =>
      some
        { pmm := holder.pmm.frameAlloc.2
          held := block 1 holder.pmm.frameAlloc.1 ++ holder.held }
  | .allocContiguous count =>
      some
        { pmm := (holder.pmm.allocContiguous count).2
          held := block count (holder.pmm.allocContiguous count).1 ++ holder.held }
  | .frameFree phys =>
      if phys ∈ holder.held then
        some { pmm := holder.pmm.frameFree phys, held := holder.held.erase phys }
      else none

/-- The frame was free at the call, in reach, in nobody's hands, and none that `init`
reserved. -/
structure Grantable (first : Pmm) (holder : Holder) (phys : Nat) : Prop where
  aligned : phys % frameSize = 0
  free : holder.pmm.frameIsFree (phys / frameSize) = true
  reachable : phys / frameSize ≤ holder.pmm.lastUsableFrame
  unreserved : first.frameIsFree (phys / frameSize) = true
  unheld : phys ∉ holder.held

structure Exclusive (first : Pmm) (holder : Holder) : Prop where
  exact : ∀ frame, holder.pmm.frameIsFree frame = true ↔
    first.frameIsFree frame = true ∧ frame * frameSize ∉ holder.held
  single : ∀ phys after, holder.pmm.frameAlloc = (some phys, after) →
    Grantable first holder phys
  contiguous : ∀ count phys after, holder.pmm.allocContiguous count = (some phys, after) →
    0 < count ∧ ∀ frame, frame ∈ frameRun phys count → Grantable first holder frame
  once : holder.held.Nodup
  constant : holder.pmm.countFree + holder.held.length = first.countFree

structure Balanced (first : Pmm) (holder : Holder) : Prop where
  limit : holder.pmm.lastUsableFrame = first.lastUsableFrame
  exact : ∀ frame, holder.pmm.frameIsFree frame = true ↔
    first.frameIsFree frame = true ∧ frame * frameSize ∉ holder.held
  once : holder.held.Nodup
  origin : ∀ phys, phys ∈ holder.held →
    phys % frameSize = 0 ∧ first.frameIsFree (phys / frameSize) = true

namespace Balanced

variable {first : Pmm} {holder : Holder}

theorem start (first : Pmm) : Balanced first { pmm := first, held := [] } := by
  refine ⟨rfl, fun frame => ?_, nodup_nil, fun phys mem => ?_⟩
  · simp
  · cases mem

section

variable (balanced : Balanced first holder)
include balanced

theorem grantable {phys : Nat} (free : holder.pmm.Free phys) : Grantable first holder phys := by
  obtain ⟨frame, rfl, inside, bit⟩ := free
  have index : frame * frameSize / frameSize = frame := Nat.mul_div_cancel frame (by decide)
  obtain ⟨unreserved, unheld⟩ := (balanced.exact frame).mp bit
  exact ⟨Nat.mul_mod_left frame frameSize, by rwa [index], by rwa [index], by rwa [index], unheld⟩

theorem take {after : Pmm} {block : List Nat} (free : ∀ phys, phys ∈ block → holder.pmm.Free phys)
    (distinct : block.Nodup) (limit : after.lastUsableFrame = holder.pmm.lastUsableFrame)
    (bits : ∀ frame, after.frameIsFree frame = true ↔
      holder.pmm.frameIsFree frame = true ∧ frame * frameSize ∉ block) :
    Balanced first { pmm := after, held := block ++ holder.held } := by
  refine ⟨limit.trans balanced.limit, fun frame => ?_, ?_, ?_⟩
  · rw [bits, balanced.exact, mem_append, not_or]
    exact and_assoc.trans (and_congr_right (fun _ => and_comm))
  · refine nodup_append.mpr ⟨distinct, balanced.once, fun phys taken other held same => ?_⟩
    exact (balanced.grantable (free phys taken)).unheld (same ▸ held)
  · intro phys mem
    rcases mem_append.mp mem with taken | held
    · have grantable := balanced.grantable (free phys taken)
      exact ⟨grantable.aligned, grantable.unreserved⟩
    · exact balanced.origin phys held

theorem frameAlloc :
    Balanced first
      { pmm := holder.pmm.frameAlloc.2
        held := block 1 holder.pmm.frameAlloc.1 ++ holder.held } := by
  rcases given : holder.pmm.frameAlloc with ⟨_ | phys, after⟩
  · rw [(frameAlloc_none given).1]
    exact balanced
  · obtain ⟨free, limit, bits⟩ := frameAlloc_some given
    have only : block 1 (some phys) = [phys] := by simp [block, frameRun]
    dsimp only
    rw [only]
    refine balanced.take (fun other mem => ?_) (nodup_singleton phys) limit (fun frame => ?_)
    · rwa [mem_singleton.mp mem]
    · obtain ⟨taken, rfl, -, -⟩ := free
      rw [bits, Bool.and_eq_true, decide_eq_true_eq, mem_singleton,
        Nat.mul_div_cancel taken (by decide)]
      exact and_congr_right (fun _ => not_congr
        ⟨fun same => by rw [same], Nat.eq_of_mul_eq_mul_right (by decide)⟩)

theorem allocContiguous (count : Nat) :
    Balanced first
      { pmm := (holder.pmm.allocContiguous count).2
        held := block count (holder.pmm.allocContiguous count).1 ++ holder.held } := by
  rcases given : holder.pmm.allocContiguous count with ⟨_ | phys, after⟩
  · rw [allocContiguous_none given]
    exact balanced
  · obtain ⟨-, blockFree, limit, aligned, bits⟩ := allocContiguous_some given
    have size : frameSize = 4096 := rfl
    have whole : block count (some phys) = frameRun phys count := rfl
    dsimp only
    rw [whole]
    refine balanced.take (fun other mem => ?_) (nodup_frameRun phys count) limit (fun frame => ?_)
    · obtain ⟨index, inside, rfl⟩ := mem_frameRun.mp mem
      exact blockFree index inside
    · have inBlock : frame * frameSize ∈ frameRun phys count ↔
          phys ≤ frame * frameSize ∧ frame * frameSize < phys + count * 4096 :=
        mem_frameRun_of_aligned aligned (Nat.mul_mod_left frame 4096)
      rw [bits, Bool.and_eq_true, decide_eq_true_eq, inBlock, size]
      refine and_congr_right (fun _ => not_congr ⟨?_, ?_⟩)
      · rintro ⟨lower, upper⟩
        omega
      · rintro ⟨lower, upper⟩
        omega

theorem frameFree (reachable : Reachable first) {phys : Nat} (isHeld : phys ∈ holder.held) :
    Balanced first { pmm := holder.pmm.frameFree phys, held := holder.held.erase phys } := by
  obtain ⟨aligned, unreserved⟩ := balanced.origin phys isHeld
  have size : frameSize = 4096 := rfl
  have bounded : phys < maxPhysMem := by
    have inside := lt_of_le_of_lt (reachable.reached _ unreserved) reachable.bounded
    have count : frameCount * frameSize = maxPhysMem := rfl
    rw [size] at aligned inside count
    omega
  refine ⟨(frameFree_lastUsableFrame _ _).trans balanced.limit, fun frame => ?_,
    balanced.once.erase phys, fun other mem => balanced.origin other (mem_of_mem_erase mem)⟩
  have place : frame = phys / frameSize ↔ frame * frameSize = phys := by
    rw [size] at aligned ⊢
    omega
  dsimp only
  rw [frameIsFree_frameFree _ _ _ aligned bounded, Bool.or_eq_true, decide_eq_true_eq,
    balanced.exact, balanced.once.mem_erase_iff, place]
  constructor
  · rintro (⟨free, unheld⟩ | same)
    · exact ⟨free, fun ⟨_, mem⟩ => unheld mem⟩
    · rw [place.mpr same]
      exact ⟨unreserved, fun ⟨other, _⟩ => other (by rw [← place.mpr same, same])⟩
  · rintro ⟨free, unheld⟩
    by_cases same : frame * frameSize = phys
    · exact Or.inr same
    · exact Or.inl ⟨free, fun mem => unheld ⟨same, mem⟩⟩

theorem constant (reachable : Reachable first) :
    holder.pmm.countFree + holder.held.length = first.countFree := by
  have parts := countP_eq_countP_filter_add
    (List.range (first.lastUsableFrame + 1)) first.frameIsFree
    (fun frame => decide (frame * frameSize ∈ holder.held))
  rw [countP_filter, countP_filter] at parts
  have isFree : (fun frame => first.frameIsFree frame &&
      !decide (frame * frameSize ∈ holder.held)) = holder.pmm.frameIsFree := by
    funext frame
    rw [Bool.eq_iff_iff, balanced.exact, Bool.and_eq_true]
    simp
  have isHeld : (List.range (first.lastUsableFrame + 1)).countP
      (fun frame => first.frameIsFree frame && decide (frame * frameSize ∈ holder.held)) =
        holder.held.length := by
    rw [countP_eq_length_filter]
    refine (List.Perm.length_eq ((perm_ext_iff_of_nodup (nodup_range.filter _)
      (balanced.once.map_on ?_)).mpr (fun frame => ?_))).trans
        (length_map (fun phys => phys / frameSize))
    · intro phys isHeld other otherHeld same
      have aligned := (balanced.origin phys isHeld).1
      have otherAligned := (balanced.origin other otherHeld).1
      rw [frameSize] at aligned otherAligned same
      omega
    · rw [mem_filter, mem_range, Bool.and_eq_true, decide_eq_true_eq, mem_map]
      constructor
      · rintro ⟨-, -, mem⟩
        exact ⟨_, mem, Nat.mul_div_cancel frame (by decide)⟩
      · rintro ⟨phys, mem, rfl⟩
        obtain ⟨aligned, unreserved⟩ := balanced.origin phys mem
        have whole := Nat.div_mul_cancel (Nat.dvd_of_mod_eq_zero aligned)
        exact ⟨Nat.lt_succ_of_le (reachable.reached _ unreserved), unreserved, by rwa [whole]⟩
  rw [isFree, isHeld] at parts
  rw [countFree, countFree, balanced.limit, parts, Nat.add_comm]

theorem exclusive (reachable : Reachable first) : Exclusive first holder := by
  refine ⟨balanced.exact, fun phys after given => ?_, fun count phys after given => ?_,
    balanced.once, balanced.constant reachable⟩
  · exact balanced.grantable (frameAlloc_some given).1
  · obtain ⟨positive, blockFree, -⟩ := allocContiguous_some given
    refine ⟨positive, fun frame mem => ?_⟩
    obtain ⟨index, inside, rfl⟩ := mem_frameRun.mp mem
    exact balanced.grantable (blockFree index inside)

theorem step (reachable : Reachable first) {call : Call} {after : Holder}
    (stepped : holder.step call = some after) : Balanced first after := by
  cases call with
  | frameAlloc =>
      cases stepped
      exact balanced.frameAlloc
  | allocContiguous count =>
      cases stepped
      exact balanced.allocContiguous count
  | frameFree phys =>
      rw [Holder.step] at stepped
      split at stepped
      · rename_i isHeld
        cases stepped
        exact balanced.frameFree reachable isHeld
      · cases stepped

end

end Balanced

/-- No frame is handed out twice: after any calls in any order, a bit is clear exactly when
`init` cleared it and nobody holds the frame, and both allocators hand out such frames only. -/
theorem frames_exclusive (regions : List MemoryRegion) (kernelStart kernelEnd : Nat)
    (calls : List Call) (holder : Holder)
    (ran : Runs.after Holder.step { pmm := init regions kernelStart kernelEnd, held := [] } calls =
      some holder) :
    Exclusive (init regions kernelStart kernelEnd) holder := by
  have reachable := reachable_init regions kernelStart kernelEnd
  exact (Runs.after_invariant (fun _ _ _ balanced _ stepped => balanced.step reachable stepped)
    (Balanced.start _) (Runs.Meets.of_forall (fun _ _ => trivial) _ _) ran).exclusive reachable

def afterTwoCalls (pmm : Pmm) : Holder :=
  { pmm := (pmm.frameAlloc.2.allocContiguous 2).2
    held := block 2 (pmm.frameAlloc.2.allocContiguous 2).1 ++ (block 1 pmm.frameAlloc.1 ++ []) }

theorem after_two_calls (pmm : Pmm) :
    Runs.after step { pmm, held := [] } [.frameAlloc, .allocContiguous 2] =
      some (afterTwoCalls pmm) := rfl

theorem frames_exclusive_mixed :
    Exclusive (init [⟨0x4000000, 0x3000, 1⟩] 0x100000 0x200000)
      (afterTwoCalls (init [⟨0x4000000, 0x3000, 1⟩] 0x100000 0x200000)) :=
  frames_exclusive [⟨0x4000000, 0x3000, 1⟩] 0x100000 0x200000
    [.frameAlloc, .allocContiguous 2] _ (after_two_calls _)

end Holder
end MachaOS.Pmm
