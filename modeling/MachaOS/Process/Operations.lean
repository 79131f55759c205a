/-
What the memory operations of a process do to its page table.

Every operation runs to its end when the frames it takes are safe to write; the
outcome names the pages it changed.  Outside those pages the table, and every
frame that is neither the process's nor free, is left as it was.
-/

import MachaOS.Process.Hosted
import MachaOS.Process.Span

namespace MachaOS

open List
open Fallible Machine Paging

/-- The kernel can write `frame` at its own address while the current table is active, also
once `[virt, virt + len)` is mapped there. -/
def Safe (mappings : List Mapping) (machine : Machine) (virt len frame : Nat) : Prop :=
  walk machine.mem machine.cr3 frame = some (Space.kernelLeaf (frame / 4096)) ∧
    ¬ Process.Covers mappings frame ∧ ¬ InRange virt len frame

namespace Process

/-- The range covers none of the frames of the process and none of `kept`, and the page
tables it needs come from safe frames. -/
def Clears (kept : Nat → Prop) (process : Process) (machine : Machine) (virt len : Nat)
    (pmm : Pmm) : Prop :=
  (∀ address, address ∈ process.frames ∨ kept address → ¬ InRange virt len address) ∧
    Pmm.Supplies (Safe process.mappings machine virt len) (blocksTouched virt len) pmm

def Room (kept : Nat → Prop) (process : Process) (machine : Machine) (virt len : Nat) : Prop :=
  ∀ phys pmm, machine.pmm.allocContiguous (len / 4096) = (some phys, pmm) →
    process.Clears kept machine virt len pmm ∧
      ∀ frame, frame ∈ Pmm.frameRun phys (len / 4096) → Safe process.mappings machine virt len frame

def brkRange (process : Process) (requested : Nat) : Option (Nat × Nat) :=
  if requested < process.heapStart then none
  else
    let oldMapped := alignUp (max process.heapEnd process.heapStart - process.heapStart)
    let newMapped := alignUp (requested - process.heapStart)
    if newMapped > oldMapped then some (process.heapStart + oldMapped, newMapped - oldMapped)
    else none

def mmapRange (process : Process) (at' : Option Nat) (len : Nat) : Option (Nat × Nat) :=
  (process.mmapAddress at' len).map (fun addr => (addr, len))

end Process

structure MapOutcome (kept : Nat → Prop) (process process' : Process) (space after : Space)
    (machine machine' : Machine) (mapping : Mapping) (flags : BitVec 64) (block : List Nat)
    (done : Bool) (mapped : Nat) : Prop where
  books : ∃ fresh, process'.books =
    { frames := process.frames ++ block ++ fresh
      mappings := if done then process.mappings ++ [mapping] else process.mappings
      stackLow := process.stackLow
      stackPhysBase := process.stackPhysBase }
  hosted : Hosted kept process' after machine'.mem
  pml4 : after.pml4 = space.pml4
  cr3 : machine'.cr3 = machine.cr3
  writes : Hosted.Writes process machine machine'
  remaps : Hosted.Remaps space after mapping.vaddr mapping.phys mapping.len flags done mapped

inductive BlockOutcome (kept : Nat → Prop) (process process' : Process) (space : Space)
    (machine machine' : Machine) (range : Option (Nat × Nat)) (flags : BitVec 64) : Prop where
  | nothing (books : process'.books = process.books) (machine_eq : machine' = machine)
      (reason : ∀ virt len, range = some (virt, len) →
        (machine.pmm.allocContiguous (len / 4096)).1 = none)
  | mapped {virt len phys : Nat} {pmm : Pmm} {done : Bool} {pages : Nat} {after : Space}
      (range_eq : range = some (virt, len)) (whole : len % 4096 = 0)
      (given : machine.pmm.allocContiguous (len / 4096) = (some phys, pmm))
      (outcome : MapOutcome kept process process' space after machine machine'
        { vaddr := virt, phys, len, shmId := none } flags (Pmm.frameRun phys (len / 4096)) done
        pages)
      (stocked : ValidRange virt len → Pmm.Stocked (blocksTouched virt len) pmm → done = true)

namespace Hosted

variable {kept : Nat → Prop} {process process' : Process} {space after : Space}
  {machine : Machine}

section

variable (hosted : Hosted kept process space machine.mem)
include hosted

theorem lends_of_safe (bounded : machine.pmm.Bounded) (active : machine.cr3 = space.pml4)
    {virt len frame : Nat} (free : machine.pmm.Free frame)
    (safe : Safe process.mappings machine virt len frame) :
    Lends process.mappings space virt len frame := by
  obtain ⟨identity, uncovered, outside⟩ := safe
  have below : frame < identityMapEnd := lt_trans (bounded.free_lt free).1 (by decide)
  rw [active, hosted.walk_eq below] at identity
  exact ⟨Pmm.free_aligned free, below, identity, uncovered, outside⟩

theorem supplies_lends (bounded : machine.pmm.Bounded) (active : machine.cr3 = space.pml4)
    {virt len : Nat} {pmm : Pmm} (fewer : ∀ frame, pmm.Free frame → machine.pmm.Free frame)
    (supplied : Pmm.Supplies (Safe process.mappings machine virt len) (blocksTouched virt len) pmm)
    (valid : ValidRange virt len) :
    Pmm.Supplies (Lends process.mappings space virt len)
      (tablesNeeded space (virt / 4096) (len / 4096)) pmm := by
  refine Pmm.Supplies.of_le ?_ (tablesNeeded_le_blocksTouched valid)
  refine (supplied.and (Pmm.supplies_free _ pmm)).mono ?_
  exact fun frame ⟨safe, free⟩ => hosted.lends_of_safe bounded active (fewer frame free) safe

/-! ### `brk` and `mmap` -/

theorem blockRequest (owned : OwnedBy machine.pmm process) (bounded : machine.pmm.Bounded)
    (active : machine.cr3 = space.pml4) {virt phys len : Nat} {pmm : Pmm} (flags : BitVec 64)
    (content : List (BitVec 8)) (whole : len % 4096 = 0) (short : content.length ≤ len)
    (given : machine.pmm.allocContiguous (len / 4096) = (some phys, pmm))
    (room : process.Room kept machine virt len) :
    ∃ cleared filled done fresh machine' after mapped,
      zeroBytes phys len { machine with pmm } = (.ok (), { machine with pmm, mem := cleared }) ∧
      copyBytes phys content { machine with pmm, mem := cleared } =
        (.ok (), { machine with pmm, mem := filled }) ∧
      mapRangeIn space.pml4 virt phys len flags
          (process.frames ++ Pmm.frameRun phys (len / 4096)) { machine with pmm, mem := filled } =
        (.ok (done, process.frames ++ Pmm.frameRun phys (len / 4096) ++ fresh), machine') ∧
      (∀ process', process'.books =
          { frames := process.frames ++ Pmm.frameRun phys (len / 4096) ++ fresh
            mappings := if done then
                process.mappings ++ [{ vaddr := virt, phys, len, shmId := none }]
              else process.mappings
            stackLow := process.stackLow
            stackPhysBase := process.stackPhysBase } →
        MapOutcome kept process process' space after machine machine'
          { vaddr := virt, phys, len, shmId := none } flags (Pmm.frameRun phys (len / 4096)) done
          mapped) ∧
      (ValidRange virt len → Pmm.Stocked (blocksTouched virt len) pmm → done = true) := by
  obtain ⟨⟨avoids, supplied⟩, safe⟩ := room phys pmm given
  have free := Pmm.free_allocContiguous given
  obtain ⟨-, blockFree, -, -, -⟩ := Pmm.allocContiguous_some given
  have lent : ∀ frame, frame ∈ Pmm.frameRun phys (len / 4096) →
      Lends process.mappings space virt len frame := by
    intro frame member
    obtain ⟨index, inside, rfl⟩ := Pmm.mem_frameRun.mp member
    exact hosted.lends_of_safe bounded active (blockFree index inside) (safe _ member)
  obtain ⟨cleared, filled, done, fresh, machine', after, mapped, zeroed, copied, ran, hosted',
    writes, cr3, pml4, remaps, stocked⟩ := hosted.mapBlock owned bounded active flags whole short
      given avoids lent (hosted.supplies_lends bounded active
        (fun frame still => ((free frame).mp still).1) supplied)
  refine ⟨cleared, filled, done, fresh, machine', after, mapped, zeroed, copied, ran, ?_, ?_⟩
  · exact fun process' books =>
      ⟨⟨fresh, books⟩, hosted'.congr books, pml4, cr3, writes, remaps⟩
  · exact fun valid enough =>
      stocked valid (enough.of_le (tablesNeeded_le_blocksTouched valid))

theorem brk_outcome (owned : OwnedBy machine.pmm process) (bounded : machine.pmm.Bounded)
    (active : machine.cr3 = space.pml4) {requested : Nat}
    (room : ∀ virt len, process.brkRange requested = some (virt, len) →
      process.Room kept machine virt len) :
    ∃ result process' machine',
      process.brk space.pml4 requested machine = (.ok (result, process'), machine') ∧
      BlockOutcome kept process process' space machine machine' (process.brkRange requested)
        Process.dataFlags := by
  have size : pageSize = 4096 := rfl
  unfold Process.brk
  unfold Process.brkRange at room ⊢
  by_cases low : requested < process.heapStart
  · rw [if_pos low, if_pos low]
    exact ⟨_, _, _, rfl, .nothing rfl rfl (by simp)⟩
  · rw [if_neg low] at room ⊢
    rw [if_neg low]
    dsimp only at room ⊢
    have oldWhole := alignUp_mod (max process.heapEnd process.heapStart - process.heapStart)
    have newWhole := alignUp_mod (requested - process.heapStart)
    generalize alignUp (max process.heapEnd process.heapStart - process.heapStart) = oldMapped
      at room oldWhole ⊢
    generalize alignUp (requested - process.heapStart) = newMapped at room newWhole ⊢
    by_cases grows : newMapped > oldMapped
    · rw [if_pos grows] at room ⊢
      rw [if_pos grows]
      have whole : (newMapped - oldMapped) % 4096 = 0 := by omega
      rcases given : machine.pmm.allocContiguous ((newMapped - oldMapped) / 4096) with
        ⟨_ | phys, pmm⟩
      · refine ⟨process.heapEnd, process, machine, ?_, .nothing rfl rfl ?_⟩
        · rw [size, bind_of_ok (show allocContiguous ((newMapped - oldMapped) / 4096) machine =
            (.ok none, machine) by
              rw [Pmm.allocContiguous_none given] at given
              simp [allocContiguous, given])]
          rfl
        · rintro virt len same
          obtain ⟨rfl, rfl⟩ : process.heapStart + oldMapped = virt ∧
              newMapped - oldMapped = len := by simpa using same
          rw [given]
      · obtain ⟨cleared, filled, done, fresh, machine', after, mapped, zeroed, copied, ran, outcome,
          stocked⟩ := hosted.blockRequest owned bounded active Process.dataFlags [] whole (Nat.zero_le _) given (room _ _ rfl)
        obtain rfl : cleared = filled := congrArg Machine.mem (Prod.ext_iff.mp copied).2
        have front : ∀ next : Option Nat → Kernel (Nat × Process),
            (allocContiguous ((newMapped - oldMapped) / 4096) >>= next) machine =
              next (some phys) { machine with pmm } := by
          intro next
          exact bind_of_ok (by simp [allocContiguous, given])
        rw [size, front]
        dsimp only
        rw [bind_of_ok zeroed, bind_of_ok ran]
        cases done with
        | true => exact ⟨_, _, _, rfl, .mapped rfl whole given (outcome _ rfl) stocked⟩
        | false => exact ⟨_, _, _, rfl, .mapped rfl whole given (outcome _ rfl) stocked⟩
    · rw [if_neg grows, if_neg grows]
      exact ⟨_, _, _, rfl, .nothing rfl rfl (by simp)⟩

end

theorem mmapWithContent_outcome (hosted : Hosted kept process space machine.mem)
    (owned : OwnedBy machine.pmm process) (bounded : machine.pmm.Bounded)
    (active : machine.cr3 = space.pml4) {at' : Option Nat} {len : Nat}
    {writable executable : Bool} {content : Option (List (BitVec 8))}
    (room : ∀ virt whole, process.mmapRange at' (alignUp (max len 1)) = some (virt, whole) →
      process.Room kept machine virt whole) :
    ∃ result process' machine',
      process.mmapWithContent space.pml4 at' len writable executable content machine =
        (.ok (result, process'), machine') ∧
      BlockOutcome kept process process' space machine machine'
        (process.mmapRange at' (alignUp (max len 1))) (Process.protFlags writable executable) := by
  have size : pageSize = 4096 := rfl
  have whole := alignUp_mod (max len 1)
  unfold Process.mmapWithContent
  unfold Process.mmapRange at room ⊢
  dsimp only
  generalize alignUp (max len 1) = rounded at room whole ⊢
  cases placed : process.mmapAddress at' rounded with
  | none => exact ⟨_, _, _, rfl, .nothing rfl rfl (by simp)⟩
  | some addr =>
      rw [placed] at room
      rcases given : machine.pmm.allocContiguous (rounded / 4096) with ⟨_ | phys, pmm⟩
      · refine ⟨none, process, machine, ?_, .nothing rfl rfl ?_⟩
        · dsimp only
          rw [size, bind_of_ok (show allocContiguous (rounded / 4096) machine =
            (.ok none, machine) by
              rw [Pmm.allocContiguous_none given] at given
              simp [allocContiguous, given])]
          rfl
        · rintro virt other same
          obtain ⟨rfl, rfl⟩ : addr = virt ∧ rounded = other := by simpa using same
          rw [given]
      · obtain ⟨cleared, filled, done, fresh, machine', after, mapped, zeroed, copied, ran, outcome,
          stocked⟩ := hosted.blockRequest owned bounded active
            (Process.protFlags writable executable) ((content.getD []).take rounded) whole
            (length_take_le _ _) given (room _ _ rfl)
        have front : ∀ next : Option Nat → Kernel (Option Nat × Process),
            (allocContiguous (rounded / 4096) >>= next) machine =
              next (some phys) { machine with pmm } := by
          intro next
          exact bind_of_ok (by simp [allocContiguous, given])
        dsimp only
        rw [size, front]
        dsimp only
        rw [bind_of_ok zeroed, bind_of_ok copied, bind_of_ok ran]
        cases done with
        | true => exact ⟨_, _, _, rfl, .mapped rfl whole given (outcome _ rfl) stocked⟩
        | false => exact ⟨_, _, _, rfl, .mapped rfl whole given (outcome _ rfl) stocked⟩

/-- `mmap_shared` maps the block of the object, which stays the object's. -/
inductive SharedOutcome (kept : Nat → Prop) (process process' : Process) (space : Space)
    (machine machine' : Machine) (at' : Option Nat) (table : Shm.Table) (shmId : Nat)
    (flags : BitVec 64) : Prop where
  | nothing (books : process'.books = process.books) (machine_eq : machine' = machine)
  | mapped {virt phys pages : Nat} {done : Bool} {mapped : Nat} {after : Space}
      (backing : Shm.physOf table shmId = some phys ∧ Shm.pagesOf table shmId = some pages)
      (range_eq : process.mmapRange at' (pages * 4096) = some (virt, pages * 4096))
      (outcome : MapOutcome kept process process' space after machine machine'
        { vaddr := virt, phys, len := pages * 4096, shmId := some shmId } flags [] done mapped)
      (stocked : ValidRange virt (pages * 4096) →
        Pmm.Stocked (blocksTouched virt (pages * 4096)) machine.pmm → done = true)

theorem mmapShared_outcome (hosted : Hosted kept process space machine.mem)
    (owned : OwnedBy machine.pmm process) (bounded : machine.pmm.Bounded)
    (active : machine.cr3 = space.pml4) {at' : Option Nat} {table : Shm.Table} {shmId : Nat}
    {writable executable : Bool}
    (block : ∀ phys pages, Shm.physOf table shmId = some phys →
      Shm.pagesOf table shmId = some pages → pages * 4096 ≠ 0 →
      phys % 4096 = 0 ∧ phys + pages * 4096 ≤ 2 ^ 52)
    (room : ∀ pages virt whole, Shm.pagesOf table shmId = some pages →
      process.mmapRange at' (pages * 4096) = some (virt, whole) →
      process.Clears kept machine virt whole machine.pmm) :
    ∃ result process' machine',
      process.mmapShared space.pml4 at' table shmId writable executable machine =
        (.ok (result, process'), machine') ∧
      SharedOutcome kept process process' space machine machine' at' table shmId
        (Process.protFlags writable executable) := by
  have size : pageSize = 4096 := rfl
  unfold Process.mmapShared
  cases found : Shm.physOf table shmId with
  | none => exact ⟨_, _, _, rfl, .nothing rfl rfl⟩
  | some phys =>
      cases count : Shm.pagesOf table shmId with
      | none => exact ⟨_, _, _, rfl, .nothing rfl rfl⟩
      | some pages =>
          dsimp only
          rw [size]
          by_cases empty : pages * 4096 = 0
          · rw [if_pos empty]
            exact ⟨_, _, _, rfl, .nothing rfl rfl⟩
          · rw [if_neg empty]
            cases placed : process.mmapAddress at' (pages * 4096) with
            | none => exact ⟨_, _, _, rfl, .nothing rfl rfl⟩
            | some addr =>
                have range : process.mmapRange at' (pages * 4096) = some (addr, pages * 4096) := by
                  unfold Process.mmapRange
                  rw [placed]
                  rfl
                obtain ⟨avoids, supplied⟩ := room pages addr (pages * 4096) count range
                obtain ⟨aligned, fits⟩ := block phys pages found count empty
                obtain ⟨done, fresh, machine', after, mapped, ran, hosted', takes, writes, pml4,
                  remaps, lent, owns, stocked, -⟩ := hosted.mapRange owned active
                    (Process.protFlags writable executable) avoids aligned fits
                    (hosted.supplies_lends bounded active (fun _ still => still) supplied)
                have stocked' : ValidRange addr (pages * 4096) →
                    Pmm.Stocked (blocksTouched addr (pages * 4096)) machine.pmm → done = true :=
                  fun valid enough =>
                    stocked valid (enough.of_le (tablesNeeded_le_blocksTouched valid))
                dsimp only
                rw [bind_of_ok ran]
                cases done with
                | false =>
                    refine ⟨_, _, _, rfl, .mapped ⟨found, count⟩ range ⟨⟨fresh, ?_⟩, hosted', pml4,
                      takes.cr3, writes, remaps⟩ stocked'⟩
                    simp [Process.books]
                | true =>
                    refine ⟨_, _, _, rfl, .mapped ⟨found, count⟩ range ⟨⟨fresh, ?_⟩, ?_, pml4,
                      takes.cr3, writes, remaps⟩ stocked'⟩
                    · simp [Process.books, Process.addMapping]
                    · refine (hosted'.record (remaps.placed aligned fits (some shmId)) ?_
                        (by simp)).congr rfl
                      rintro address (inFrames | isKept)
                      · rcases mem_append.mp inFrames with old | new
                        · exact avoids address (Or.inl old)
                        · exact (lent address new).outside
                      · exact avoids address (Or.inr isKept)

/-- The stack grew down to `newLow`. -/
structure GrowOutcome (kept : Nat → Prop) (process process' : Process) (space after : Space)
    (machine machine' : Machine) (newLow : Nat) : Prop where
  aligned : newLow % 4096 = 0
  inside : Process.userStackLowLimit ≤ newLow ∧ newLow < process.stackLow
  books : process'.books =
    { frames := process.frames
      mappings := process.mappings
      stackLow := newLow
      stackPhysBase := process.stackPhysBase }
  hosted : Hosted kept process' after machine'.mem
  pml4 : after.pml4 = space.pml4
  cr3 : machine'.cr3 = machine.cr3
  writes : Writes process machine machine'
  remaps : Remaps space after newLow (process.stackPhysFor newLow) (process.stackLow - newLow)
    Process.dataFlags true ((process.stackLow - newLow) / 4096)

theorem growable (hosted : Hosted kept process space machine.mem) {newLow : Nat}
    (aligned : newLow % 4096 = 0)
    (inside : Process.userStackLowLimit ≤ newLow ∧ newLow < process.stackLow) :
    ValidRange newLow (process.stackLow - newLow) ∧
      (∀ address, address ∈ process.frames ∨ kept address →
        ¬ InRange newLow (process.stackLow - newLow) address) ∧
      tablesNeeded space (newLow / 4096) ((process.stackLow - newLow) / 4096) = 0 ∧
      process.stackPhysFor newLow % 4096 = 0 ∧
      process.stackPhysFor newLow + (process.stackLow - newLow) ≤ 2 ^ 52 := by
  obtain ⟨lowest, highest, lowAligned⟩ := hosted.stackLow
  obtain ⟨baseAligned, baseFits⟩ := hosted.stackPhys
  have limit : Process.userStackLowLimit = 0xFF00000 := rfl
  have top : Process.userStackTop = 0x10000000 := rfl
  have region : Process.userStackMaxPages * pageSize = 0x100000 := rfl
  have fourGiB : identityMapEnd = 4294967296 := rfl
  refine ⟨⟨aligned, by omega, by omega, by omega⟩, ?_, ?_, ?_, ?_⟩
  · intro address member within
    unfold InRange at within
    exact (hosted.kernel address member).2 (Or.inr (by omega))
  · have block : newLow / 4096 / 512 = Process.userStackLowLimit / 2 ^ 21 := by omega
    have last : (newLow / 4096 + (process.stackLow - newLow) / 4096 - 1) / 512 =
        newLow / 4096 / 512 := by omega
    unfold tablesNeeded
    rw [last, block, if_neg hosted.stackTable]
    split <;> omega
  · unfold Process.stackPhysFor
    omega
  · unfold Process.stackPhysFor
    omega

theorem tryGrowStack_outcome (hosted : Hosted kept process space machine.mem)
    (owned : OwnedBy machine.pmm process) (active : machine.cr3 = space.pml4) {faultAddr : Nat} :
    ∃ done process' machine',
      process.tryGrowStack space.pml4 faultAddr machine = (.ok (done, process'), machine') ∧
      ((done = false ∧ process' = process ∧ machine' = machine ∧
          (faultAddr ≥ process.stackLow ∨ faultAddr < Process.userStackLowLimit)) ∨
        (done = true ∧ ∃ after,
          GrowOutcome kept process process' space after machine machine' (alignDown faultAddr))) := by
  obtain ⟨-, highest, -⟩ := hosted.stackLow
  have limit : Process.userStackLowLimit = 0xFF00000 := rfl
  unfold Process.tryGrowStack
  by_cases refused : faultAddr ≥ process.stackLow ∨ faultAddr < Process.userStackLowLimit
  · rw [if_pos refused]
    exact ⟨_, _, _, rfl, Or.inl ⟨rfl, rfl, rfl, refused⟩⟩
  · rw [if_neg refused]
    have aligned := alignDown_mod faultAddr
    have below := alignDown_le faultAddr
    have inside : Process.userStackLowLimit ≤ alignDown faultAddr ∧
        alignDown faultAddr < process.stackLow := by
      unfold alignDown at *
      omega
    generalize alignDown faultAddr = newLow at aligned below inside ⊢
    obtain ⟨valid, avoids, noTables, physAligned, physFits⟩ := hosted.growable aligned inside
    obtain ⟨done, fresh, machine', after, mapped, ran, hosted', takes, writes, pml4, remaps, -, -,
      stocked, alone⟩ := hosted.mapRange owned active Process.dataFlags avoids physAligned physFits
        (by rw [noTables]; exact fun _ => trivial)
    rw [noTables] at stocked
    obtain rfl := stocked valid trivial
    obtain ⟨-, all⟩ := remaps.complete rfl
    dsimp only
    rw [bind_of_ok ran]
    refine ⟨true, _, machine', rfl, Or.inr ⟨rfl, after, aligned, inside, ?_, ?_, pml4,
      takes.cr3, writes, all ▸ remaps⟩⟩
    · rw [alone noTables, append_nil]
      rfl
    have upper : newLow ≤ Process.userStackTop := by omega
    exact { hosted' with stackLow := ⟨inside.1, upper, aligned⟩ }

/-! ### `mprotect` -/

theorem translateLocal_some {vaddr len phys : Nat}
    (translated : process.translateLocal vaddr len = some phys) :
    ∃ mapping, mapping ∈ process.mappings ∧ mapping.vaddr ≤ vaddr ∧
      vaddr + len ≤ mapping.vaddr + mapping.len ∧ phys = mapping.phys + (vaddr - mapping.vaddr) := by
  unfold Process.translateLocal at translated
  split at translated
  · cases translated
  · obtain ⟨mapping, found, rfl⟩ := Option.map_eq_some_iff.mp translated
    have inside : mapping.vaddr ≤ vaddr ∧ vaddr + len ≤ mapping.vaddr + mapping.len := by
      simpa using List.find?_some found
    exact ⟨mapping, mem_of_find?_eq_some found, inside.1, inside.2, rfl⟩

/-- The first `changed` pages from `start` on lead to the frames the record has for them. -/
structure ProtectOutcome (kept : Nat → Prop) (process process' : Process) (space after : Space)
    (machine machine' : Machine) (start : Nat) (flags : BitVec 64) (changed : Nat) : Prop where
  books : ∃ fresh, process'.books =
    { frames := process.frames ++ fresh
      mappings := process.mappings
      stackLow := process.stackLow
      stackPhysBase := process.stackPhysBase }
  hosted : Hosted kept process' after machine'.mem
  pml4 : after.pml4 = space.pml4
  cr3 : machine'.cr3 = machine.cr3
  writes : Writes process machine machine'
  recorded : ∀ index, index < changed →
    process.translateLocal (start + index * 4096) 4096 ≠ none
  views : ∀ page, page < 2 ^ 20 → after.view page =
    if start / 4096 ≤ page ∧ page < start / 4096 + changed then
      (process.translateLocal (page * 4096) 4096).map (leafFor flags)
    else space.view page

theorem protectPage_outcome {frames : List Nat} {virt phys : Nat} (flags : BitVec 64)
    (hosted : Hosted kept { process with frames } space machine.mem)
    (owned : OwnedBy machine.pmm { process with frames }) (active : machine.cr3 = space.pml4)
    (aligned : virt % 4096 = 0) (translated : process.translateLocal virt 4096 = some phys) :
    ∃ fresh machine' after,
      process.protectPage space.pml4 virt flags frames machine =
        (.ok (true, frames ++ fresh), machine') ∧
      Hosted kept { process with frames := frames ++ fresh } after machine'.mem ∧
      Takes machine machine' fresh ∧
      Space.AgreeOutside (fun frame => space.Owns frame ∨ machine.pmm.Free frame) machine.mem
        machine'.mem ∧
      (∀ frame, after.Owns frame → space.Owns frame ∨ machine.pmm.Free frame) ∧
      after.pml4 = space.pml4 ∧
      ∀ page, page < 2 ^ 20 → after.view page =
        if page = virt / 4096 then some (leafFor flags phys) else space.view page := by
  obtain ⟨mapping, member, lower, upper, same⟩ := translateLocal_some translated
  obtain ⟨valid, physAligned, physFits, tables⟩ := hosted.placed mapping member
  obtain ⟨vaddrAligned, lenAligned, -, below⟩ := valid
  have covered : ∀ address, InRange virt pageSize address →
      Process.Covers process.mappings address := by
    intro address within
    have size : pageSize = 4096 := rfl
    unfold InRange at within
    exact Or.inl ⟨mapping, member, by omega, by omega⟩
  have size : pageSize = 4096 := rfl
  have table : space.pt (virt / 4096 / 512) ≠ none :=
    tables (virt / 4096) ⟨by omega, by omega⟩
  have noTables : tablesNeeded space (virt / 4096) (pageSize / 4096) = 0 := by
    have one : pageSize / 4096 = 1 := rfl
    unfold tablesNeeded
    rw [one, if_neg (by decide), Nat.add_sub_cancel, Nat.sub_self, if_neg table]
  have avoids : ∀ address, address ∈ frames ∨ kept address → ¬ InRange virt pageSize address :=
    fun address member' within => (hosted.kernel address member').2 (covered address within)
  obtain ⟨done, fresh, machine', after, mapped, ran, hosted', takes, -, pml4, remaps, -, owns,
    stocked, -⟩ := hosted.mapRange owned active flags avoids
      (show phys % 4096 = 0 by omega) (show phys + pageSize ≤ 2 ^ 52 by omega)
      (by rw [noTables]; exact fun _ => trivial)
  obtain ⟨agree, -⟩ := hosted.mapRangeIn_memory owned active
    (fun address mine => avoids address (Or.inl mine)) (show phys % 4096 = 0 by omega)
    (show phys + pageSize ≤ 2 ^ 52 by omega) (by rw [noTables]; exact fun _ => trivial) ran
  rw [noTables] at stocked
  obtain rfl := stocked ⟨aligned, rfl, by decide, by omega⟩ trivial
  obtain ⟨-, all⟩ := remaps.complete rfl
  refine ⟨fresh, machine', after, ?_, hosted', takes, agree,
    fun frame mine => (owns frame mine).imp_right (takes.wasFree frame), pml4, ?_⟩
  · unfold Process.protectPage
    rw [size, translated]
    exact ran
  · intro page inside
    rw [remaps.views.views page inside, all]
    have one : pageSize / 4096 = 1 := rfl
    by_cases here : page = virt / 4096
    · subst here
      rw [one, if_pos (by omega), if_pos rfl, Nat.sub_self, Nat.zero_mul, Nat.add_zero]
    · rw [one, if_neg (by omega), if_neg here]

theorem mprotectPages_outcome {frames : List Nat} {virt : Nat} (flags : BitVec 64) (left : Nat)
    (hosted : Hosted kept { process with frames } space machine.mem)
    (owned : OwnedBy machine.pmm { process with frames }) (bounded : machine.pmm.Bounded)
    (active : machine.cr3 = space.pml4) (aligned : virt % 4096 = 0) :
    ∃ done fresh machine' after changed,
      process.mprotectPages space.pml4 flags left virt frames machine =
        (.ok (done, frames ++ fresh), machine') ∧
      Hosted kept { process with frames := frames ++ fresh } after machine'.mem ∧
      Takes machine machine' fresh ∧
      Space.AgreeOutside (fun frame => space.Owns frame ∨ machine.pmm.Free frame) machine.mem
        machine'.mem ∧
      after.pml4 = space.pml4 ∧ (done = true → changed = left) ∧
      (done = false → changed < left ∧ process.translateLocal (virt + changed * 4096) 4096 = none) ∧
      (∀ index, index < changed → process.translateLocal (virt + index * 4096) 4096 ≠ none) ∧
      ∀ page, page < 2 ^ 20 → after.view page =
        if virt / 4096 ≤ page ∧ page < virt / 4096 + changed then
          (process.translateLocal (page * 4096) 4096).map (leafFor flags)
        else space.view page := by
  have size : pageSize = 4096 := rfl
  induction left generalizing frames virt machine space with
  | zero =>
      refine ⟨true, [], machine, space, 0, ?_, ?_, Takes.of_same (SameFrames.refl machine),
        Space.AgreeOutside.refl _ _, rfl, fun _ => rfl, by simp, by simp, ?_⟩
      · rw [Process.mprotectPages, append_nil]
        rfl
      · rw [append_nil]
        exact hosted
      · intro page _
        rw [if_neg (by omega)]
  | succ left ih =>
      cases translated : process.translateLocal virt 4096 with
      | none =>
          refine ⟨false, [], machine, space, 0, ?_, ?_, Takes.of_same (SameFrames.refl machine),
            Space.AgreeOutside.refl _ _, rfl, by simp, ?_, by simp, ?_⟩
          · have refused : process.protectPage space.pml4 virt flags frames machine =
                (.ok (false, frames), machine) := by
              unfold Process.protectPage
              rw [size, translated]
              rfl
            rw [Process.mprotectPages, bind_of_ok refused, append_nil]
            rfl
          · rw [append_nil]
            exact hosted
          · intro _
            rw [Nat.zero_mul, Nat.add_zero]
            exact ⟨Nat.succ_pos left, translated⟩
          · intro page _
            rw [if_neg (by omega)]
      | some phys =>
          obtain ⟨early, machine₁, middle, ran, hosted₁, takes₁, agree₁, owns₁, pml4₁, views₁⟩ :=
            protectPage_outcome flags hosted owned active aligned translated
          have grown : Grown { process with frames } { process with frames := frames ++ early }
              machine machine₁ [] early := Grown.of_takes takes₁ rfl rfl
          have bounded₁ : machine₁.pmm.Bounded := by
            unfold Pmm.Bounded
            rw [takes₁.limit]
            exact bounded
          obtain ⟨done, late, machine₂, after, changed, rest, hosted₂, takes₂, agree₂, pml4₂,
            complete, stopped, recorded, views₂⟩ := ih hosted₁ (owned.grow bounded grown).1 bounded₁
              (by rw [takes₁.cr3, active, pml4₁])
              (show (virt + 4096) % 4096 = 0 by omega)
          refine ⟨done, early ++ late, machine₂, after, changed + 1, ?_, ?_, takes₁.trans takes₂,
            agree₁.trans (agree₂.mono ?_), pml4₂.trans pml4₁, ?_, ?_, ?_, ?_⟩
          · rw [Process.mprotectPages, bind_of_ok ran]
            dsimp only
            rw [if_pos rfl, ← pml4₁, size, rest, append_assoc]
          · rw [← append_assoc]
            exact hosted₂
          · rintro frame (mine | free)
            · exact owns₁ frame mine
            · exact Or.inr ((takes₁.free frame).mp free).1
          · intro finished
            rw [complete finished]
          · intro cut
            obtain ⟨few, missing⟩ := stopped cut
            refine ⟨by omega, ?_⟩
            rw [← missing]
            exact congrArg (process.translateLocal · 4096) (by omega)
          · intro index inside
            cases index with
            | zero =>
                rw [Nat.zero_mul, Nat.add_zero, translated]
                simp
            | succ index =>
                have shift : virt + (index + 1) * 4096 = virt + 4096 + index * 4096 := by omega
                rw [shift]
                exact recorded index (by omega)
          · intro page inside
            rw [views₂ page inside, views₁ page inside]
            by_cases here : page = virt / 4096
            · have back : page * 4096 = virt := by omega
              rw [if_neg (by omega), if_pos here, if_pos (by omega), back, translated]
              rfl
            · by_cases later : (virt + 4096) / 4096 ≤ page ∧ page < (virt + 4096) / 4096 + changed
              · rw [if_pos later, if_pos (by omega)]
              · rw [if_neg later, if_neg here, if_neg (by omega)]

theorem mprotect_outcome (hosted : Hosted kept process space machine.mem)
    (owned : OwnedBy machine.pmm process) (bounded : machine.pmm.Bounded)
    (active : machine.cr3 = space.pml4) {addr len : Nat} {writable executable : Bool} :
    ∃ done process' machine' after changed,
      process.mprotect space.pml4 addr len writable executable machine =
        (.ok (done, process'), machine') ∧
      ProtectOutcome kept process process' space after machine machine' (alignDown addr)
        (Process.protFlags writable executable) changed ∧
      (done = true → changed =
        ((alignDown addr + alignUp (max len 1)) % wordLimit - alignDown addr) / 4096) ∧
      (done = false →
        changed < ((alignDown addr + alignUp (max len 1)) % wordLimit - alignDown addr) / 4096 ∧
        process.translateLocal (alignDown addr + changed * 4096) 4096 = none) := by
  have size : pageSize = 4096 := rfl
  obtain ⟨done, fresh, machine', after, changed, ran, hosted', takes, agree, pml4, complete,
    stopped, recorded, views⟩ := mprotectPages_outcome (Process.protFlags writable executable)
      (((alignDown addr + alignUp (max len 1)) % wordLimit - alignDown addr) / 4096)
      hosted owned bounded active (alignDown_mod addr)
  refine ⟨done, { process with frames := process.frames ++ fresh }, machine', after, changed, ?_,
    ⟨⟨fresh, rfl⟩, hosted', pml4, takes.cr3,
      agree.mono (fun frame either => either.imp_left (hosted.tables frame)), recorded, views⟩,
    complete, stopped⟩
  unfold Process.mprotect
  dsimp only
  rw [size, bind_of_ok ran]
  rfl

theorem mprotect_memory (hosted : Hosted kept process space machine.mem)
    (owned : OwnedBy machine.pmm process) (bounded : machine.pmm.Bounded)
    (active : machine.cr3 = space.pml4) {addr len : Nat} {writable executable done : Bool}
    {process' : Process} {machine' : Machine}
    (ran : process.mprotect space.pml4 addr len writable executable machine =
      (.ok (done, process'), machine')) :
    Space.AgreeOutside (fun frame => space.Owns frame ∨ machine.pmm.Free frame) machine.mem
      machine'.mem := by
  have size : pageSize = 4096 := rfl
  obtain ⟨done', fresh, machine'', after, changed, ran', -, -, agree, -⟩ :=
    mprotectPages_outcome (Process.protFlags writable executable)
      (((alignDown addr + alignUp (max len 1)) % wordLimit - alignDown addr) / 4096)
      hosted owned bounded active (alignDown_mod addr)
  unfold Process.mprotect at ran
  dsimp only at ran
  rw [size, bind_of_ok ran'] at ran
  cases ran
  exact agree

/-! ### `munmap` -/

theorem freeFrames_ok (phys count : Nat) (machine : Machine) :
    ∃ machine', freeFrames phys count machine = (.ok (), machine') := by
  induction count generalizing phys machine with
  | zero => exact ⟨machine, rfl⟩
  | succ count ih =>
      obtain ⟨machine', ran⟩ := ih (phys + Pmm.frameSize)
        { machine with pmm := machine.pmm.frameFree phys }
      exact ⟨machine', by rw [freeFrames, frameFree, bind_of_ok (modify_run _ _), ran]⟩

theorem unmapRange (hosted : Hosted kept process space machine.mem)
    (owned : OwnedBy machine.pmm process) (active : machine.cr3 = space.pml4) {mapping : Mapping}
    (member : mapping ∈ process.mappings) :
    ∃ machine' after,
      unmapRangeIn space.pml4 mapping.vaddr mapping.len machine = (.ok true, machine') ∧
      Hosted kept process after machine'.mem ∧ after.pml4 = space.pml4 ∧
      machine'.cr3 = machine.cr3 ∧ machine'.pmm = machine.pmm ∧
      Space.AgreeOutside (fun frame => frame ∈ process.frames) machine.mem machine'.mem ∧
      ∀ page, page < 2 ^ 20 → (mapping.Covers (page * 4096) → after.view page = none) ∧
        (¬ mapping.Covers (page * 4096) → after.view page = space.view page) := by
  obtain ⟨valid, -, -, tables⟩ := hosted.placed mapping member
  obtain ⟨virtAligned, lenAligned, -, below⟩ := valid
  have uncovered : ∀ address, address ∈ process.frames ∨ kept address →
      ¬ InRange mapping.vaddr mapping.len address :=
    fun address inside within => (hosted.kernel address inside).2 (Or.inl ⟨mapping, member, within⟩)
  obtain ⟨after, machine', ran, edited, extends', samePmm, views⟩ :=
    unmapRangeIn_spec (hosted.editing owned active
        (fun address inFrames => uncovered address (Or.inl inFrames)))
      (hosted.placed mapping member).valid
      (by
        intro index inside
        exact tables (mapping.vaddr / 4096 + index) ⟨by omega, by omega⟩)
      (fun _ frame lends => lends.outside)
  have pages : ∀ page, page < 2 ^ 20 → (mapping.Covers (page * 4096) → after.view page = none) ∧
      (¬ mapping.Covers (page * 4096) → after.view page = space.view page) := by
    intro page inside
    unfold Mapping.Covers
    rw [views page inside]
    constructor
    · intro covered
      rw [if_pos (by omega)]
    · intro outside
      rw [if_neg (by omega)]
  refine ⟨machine', after, ran, ?_, extends'.pml4, extends'.cr3, samePmm, ?_, pages⟩
  · refine (hosted.extend owned edited.wellFormed edited.represents extends' (by simp) ?_).congr
      (by simp [Process.books])
    intro address inside kernel
    rw [append_nil] at inside
    have limit : address < 4294967296 := by
      rcases inside with inFrames | isKept
      · exact lt_trans (owned.held address inFrames).2.1 (by decide)
      · exact hosted.below address isKept
    have outside := uncovered address inside
    unfold Space.Kernel
    rw [(pages (address / 4096) (by omega)).2
      (by unfold Mapping.Covers; unfold InRange at outside; omega)]
    exact kernel
  · refine extends'.memory.mono ?_
    intro frame owns
    rcases (extends'.owns frame).mp owns with old | new
    · exact hosted.tables frame old
    · cases new

theorem drop {done rest : List Mapping} {mapping : Mapping} {frames : List Nat}
    {mem : ByteMemory} (hosted : Hosted kept process space mem)
    (split : process.mappings = done ++ mapping :: rest)
    (subset : ∀ frame, frame ∈ frames → frame ∈ process.frames)
    (tables : ∀ frame, space.Owns frame → frame ∈ frames) :
    Hosted kept { process with mappings := done ++ rest, frames } space mem := by
  have fewer : ∀ other, other ∈ done ++ rest → other ∈ process.mappings := by
    intro other member
    rw [split]
    rcases mem_append.mp member with early | late
    · exact mem_append_left _ early
    · exact mem_append_right _ (mem_cons_of_mem _ late)
  exact
    { hosted with
      tables
      spare := fun frame owns other member => hosted.spare frame owns other (fewer other member)
      kernel := by
        intro address inside
        obtain ⟨kernel, uncovered⟩ := hosted.kernel address (inside.imp_left (subset address))
        refine ⟨kernel, ?_⟩
        rintro (⟨other, member, covers⟩ | inStack)
        · exact uncovered (Or.inl ⟨other, fewer other member, covers⟩)
        · exact uncovered (Or.inr inStack)
      placed := fun other member => hosted.placed other (fewer other member) }

def Remaining (start stop : Nat) (mappings : List Mapping) (frames after : List Nat) : Prop :=
  ∀ frame, frame ∈ after ↔ frame ∈ frames ∧ ∀ mapping, mapping ∈ mappings →
    Process.Covered start stop mapping → mapping.shmId = none → frame ∉ mapping.run

def Cleared (start stop : Nat) (mappings : List Mapping) (space after : Space) : Prop :=
  ∀ page, page < 2 ^ 20 →
    ((∃ mapping, mapping ∈ mappings ∧ Process.Covered start stop mapping ∧
      mapping.Covers (page * 4096)) → after.view page = none) ∧
    ((∀ mapping, mapping ∈ mappings → Process.Covered start stop mapping →
      ¬ mapping.Covers (page * 4096)) → after.view page = space.view page)

theorem dropMapping {start stop : Nat} {done rest : List Mapping} {mapping : Mapping}
    (hosted : Hosted kept process space machine.mem) (owned : OwnedBy machine.pmm process)
    (active : machine.cr3 = space.pml4) (split : process.mappings = done ++ mapping :: rest)
    (covered : Process.Covered start stop mapping) :
    ∃ frames machine₁ machine₂ after,
      unmapRangeIn space.pml4 mapping.vaddr mapping.len machine = (.ok true, machine₁) ∧
      Process.releaseMapping mapping process.frames machine₁ = (.ok frames, machine₂) ∧
      Hosted kept { process with mappings := done ++ rest, frames } after machine₂.mem ∧
      OwnedBy machine₂.pmm { process with mappings := done ++ rest, frames } ∧
      after.pml4 = space.pml4 ∧ machine₂.cr3 = machine.cr3 ∧
      Space.AgreeOutside (fun frame => frame ∈ process.frames) machine.mem machine₂.mem ∧
      Remaining start stop [mapping] process.frames frames ∧
      Cleared start stop [mapping] space after := by
  have member : mapping ∈ process.mappings := by
    rw [split]
    exact mem_append_right _ mem_cons_self
  obtain ⟨machine₁, after, ran, hosted₁, pml4, cr3, samePmm, agree, views⟩ :=
    hosted.unmapRange owned active member
  have cleared : Cleared start stop [mapping] space after := by
    intro page inside
    refine ⟨?_, fun outside => (views page inside).2 (outside mapping mem_cons_self covered)⟩
    rintro ⟨other, same, -, covers⟩
    obtain rfl := mem_singleton.mp same
    exact (views page inside).1 covers
  have owned₁ : OwnedBy machine₁.pmm process := by
    rw [samePmm]
    exact owned
  cases shared : mapping.shmId with
  | some id =>
      have ran₂ : Process.releaseMapping mapping process.frames machine₁ =
          (.ok process.frames, machine₁) := by
        simp [Process.releaseMapping, shared]
      refine ⟨process.frames, machine₁, machine₁, after, ran, ran₂,
        hosted₁.drop split (fun _ inside => inside) hosted₁.tables,
        (Process.releaseMapping_owned owned₁ split ran₂).1, pml4, cr3, agree, ?_, cleared⟩
      intro frame
      refine ⟨fun inside => ⟨inside, ?_⟩, fun both => both.1⟩
      intro other same _ isPrivate
      rw [mem_singleton.mp same, shared] at isPrivate
      cases isPrivate
  | none =>
      obtain ⟨machine₂, freed⟩ := freeFrames_ok mapping.phys (mapping.len / 4096) machine₁
      have ran₂ : Process.releaseMapping mapping process.frames machine₁ =
          (.ok (process.frames.filter (fun frame =>
            decide (frame < mapping.phys ∨ frame ≥ mapping.phys + mapping.len))), machine₂) := by
        have size : pageSize = 4096 := rfl
        unfold Process.releaseMapping
        have isPrivate : mapping.shmId.isNone = true := by
          rw [shared]
          rfl
        rw [if_pos isPrivate, size, bind_of_ok freed]
        rfl
      obtain ⟨sameMem, sameCr3, -, -⟩ :=
        freeFrames_free (hosted.placed mapping member).aligned freed
      have remaining : Remaining start stop [mapping] process.frames
          (process.frames.filter (fun frame =>
            decide (frame < mapping.phys ∨ frame ≥ mapping.phys + mapping.len))) := by
        intro frame
        rw [mem_filter]
        refine and_congr_right (fun inside => ?_)
        have aligned := (owned.held frame inside).1
        have inRun := owned.mem_run member aligned
        simp only [decide_eq_true_eq, mem_singleton, forall_eq, covered, shared,
          forall_const, inRun]
        omega
      refine ⟨_, machine₁, machine₂, after, ran, ran₂, ?_,
        (Process.releaseMapping_owned owned₁ split ran₂).1, pml4, sameCr3.trans cr3, ?_, remaining,
        cleared⟩
      · rw [sameMem]
        refine hosted₁.drop split (fun frame inside => (mem_filter.mp inside).1) ?_
        intro frame owns
        refine (remaining frame).mpr ⟨hosted₁.tables frame owns, ?_⟩
        intro other same _ isPrivate
        obtain rfl := mem_singleton.mp same
        exact hosted₁.spare frame owns other member isPrivate
      · rw [sameMem]
        exact agree

theorem munmapLoop_outcome {start stop : Nat} {done rest : List Mapping}
    (hosted : Hosted kept process space machine.mem) (owned : OwnedBy machine.pmm process)
    (active : machine.cr3 = space.pml4) (split : process.mappings = done ++ rest) :
    ∃ remaining frames machine' after,
      Process.munmapLoop space.pml4 start stop rest process.frames machine =
        (.ok (remaining, frames), machine') ∧
      Hosted kept { process with mappings := done ++ remaining, frames } after machine'.mem ∧
      after.pml4 = space.pml4 ∧ machine'.cr3 = machine.cr3 ∧
      Space.AgreeOutside (fun frame => frame ∈ process.frames) machine.mem machine'.mem ∧
      Remaining start stop rest process.frames frames ∧ Cleared start stop rest space after := by
  induction rest generalizing process done machine space with
  | nil =>
      refine ⟨[], process.frames, machine, space, rfl, ?_, rfl, rfl, Space.AgreeOutside.refl _ _,
        fun frame => by simp, fun page _ => ⟨by simp, fun _ => rfl⟩⟩
      exact hosted.congr (by simp [Process.books, split])
  | cons mapping rest ih =>
      by_cases covered : mapping.vaddr ≥ start ∧ mapping.vaddr + mapping.len ≤ stop
      · obtain ⟨frames, machine₁, machine₂, middle, unmapped, released, hosted₂, owned₂, pml4₂, cr3₂,
          agree₂, remaining₂, cleared₂⟩ := hosted.dropMapping owned active split covered
        obtain ⟨remaining, last, machine₃, after, looped, hosted₃, pml4₃, cr3₃, agree₃, remaining₃,
          cleared₃⟩ := ih hosted₂ owned₂ (by rw [cr3₂, active, pml4₂]) rfl
        refine ⟨remaining, last, machine₃, after, ?_, hosted₃, pml4₃.trans pml4₂, cr3₃.trans cr3₂,
          agree₂.trans (agree₃.mono fun frame inside => ((remaining₂ frame).mp inside).1), ?_, ?_⟩
        · rw [Process.munmapLoop, if_pos covered, bind_of_ok unmapped, bind_of_ok released, ← looped,
            pml4₂]
        · intro frame
          rw [remaining₃ frame, remaining₂ frame]
          simp only [mem_cons, not_mem_nil, or_false, forall_eq_or_imp, forall_eq]
          tauto
        · intro page inside
          constructor
          · rintro ⟨other, inList, isCovered, covers⟩
            by_cases late : ∃ m, m ∈ rest ∧ Process.Covered start stop m ∧ m.Covers (page * 4096)
            · exact (cleared₃ page inside).1 late
            · rcases mem_cons.mp inList with rfl | later
              · rw [(cleared₃ page inside).2 (fun m inRest isCov cov => late ⟨m, inRest, isCov, cov⟩)]
                exact (cleared₂ page inside).1 ⟨other, mem_cons_self, isCovered, covers⟩
              · exact absurd ⟨other, later, isCovered, covers⟩ late
          · intro outside
            rw [(cleared₃ page inside).2 (fun m inRest => outside m (mem_cons_of_mem _ inRest))]
            refine (cleared₂ page inside).2 (fun m same => ?_)
            obtain rfl := mem_singleton.mp same
            exact outside m mem_cons_self
      · have regrouped : process.mappings = (done ++ [mapping]) ++ rest := by
          rw [split, append_assoc, singleton_append]
        obtain ⟨remaining, last, machine₁, after, looped, hosted₁, pml4, cr3, agree, remains,
          cleared⟩ := ih hosted owned active regrouped
        rw [append_assoc, singleton_append] at hosted₁
        refine ⟨mapping :: remaining, last, machine₁, after, ?_, hosted₁, pml4, cr3, agree, ?_, ?_⟩
        · rw [Process.munmapLoop, if_neg covered, bind_of_ok looped]
          rfl
        · intro frame
          rw [remains frame]
          simp only [mem_cons, forall_eq_or_imp]
          exact ⟨fun both => ⟨both.1, fun isCovered => absurd isCovered covered, both.2⟩,
            fun all => ⟨all.1, all.2.2⟩⟩
        · intro page inside
          constructor
          · rintro ⟨other, inList, isCovered, covers⟩
            rcases mem_cons.mp inList with rfl | later
            · exact absurd isCovered covered
            · exact (cleared page inside).1 ⟨other, later, isCovered, covers⟩
          · exact fun outside => (cleared page inside).2
              (fun m inRest => outside m (mem_cons_of_mem _ inRest))

theorem munmap_outcome (hosted : Hosted kept process space machine.mem)
    (owned : OwnedBy machine.pmm process) (active : machine.cr3 = space.pml4) {addr len : Nat} :
    ∃ process' machine' after,
      process.munmap space.pml4 addr len machine = (.ok (true, process'), machine') ∧
      Hosted kept process' after machine'.mem ∧ after.pml4 = space.pml4 ∧
      machine'.cr3 = machine.cr3 ∧
      Space.AgreeOutside (fun frame => frame ∈ process.frames) machine.mem machine'.mem ∧
      process'.mappings = process.mappings.filter (fun mapping =>
        !decide (Process.Covered (alignDown addr)
          ((alignDown addr + alignUp (max len 1)) % wordLimit) mapping)) ∧
      Remaining (alignDown addr) ((alignDown addr + alignUp (max len 1)) % wordLimit)
        process.mappings process.frames process'.frames ∧
      Cleared (alignDown addr) ((alignDown addr + alignUp (max len 1)) % wordLimit)
        process.mappings space after ∧
      process'.stackLow = process.stackLow ∧ process'.stackPhysBase = process.stackPhysBase := by
  obtain ⟨remaining, frames, machine', after, looped, hosted', pml4, cr3, agree, remains,
    cleared⟩ := @munmapLoop_outcome kept process space machine (alignDown addr)
      ((alignDown addr + alignUp (max len 1)) % wordLimit) [] process.mappings hosted owned active
      rfl
  obtain ⟨-, -, same⟩ := Process.munmapLoop_owned owned (nil_append _).symm looped
  refine ⟨{ process with mappings := remaining, frames }, machine', after, ?_, hosted', pml4, cr3,
    agree, same, remains, cleared, rfl, rfl⟩
  unfold Process.munmap
  dsimp only
  rw [bind_of_ok looped]
  rfl

end Hosted
end MachaOS
