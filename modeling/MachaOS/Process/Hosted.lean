/-
A process and its page table.

`Hosted` ties the record of a process to the abstract table behind its CR3:
the tables are frames of the process, every range it records has its page
tables, and the frames it owns are still the kernel's own identity-mapped pages
there, so that kernel pointers into them go where they should.  Each memory
operation keeps it, provided the frames it takes are such pages too.
-/

import MachaOS.Paging.Refinement
import MachaOS.Process.Ownership

namespace MachaOS

open List
open Fallible Machine Paging

namespace Mapping

def Covers (mapping : Mapping) (addr : Nat) : Prop :=
  mapping.vaddr ≤ addr ∧ addr < mapping.vaddr + mapping.len

end Mapping

namespace Process

def Covers (mappings : List Mapping) (addr : Nat) : Prop :=
  (∃ mapping, mapping ∈ mappings ∧ mapping.Covers addr) ∨
    (userStackLowLimit ≤ addr ∧ addr < userStackTop)

structure Books where
  frames : List Nat
  mappings : List Mapping
  stackLow : Nat
  stackPhysBase : Nat

def books (proc : Process) : Books :=
  { frames := proc.frames
    mappings := proc.mappings
    stackLow := proc.stackLow
    stackPhysBase := proc.stackPhysBase }

end Process

namespace Paging.Space

def Kernel (space : Space) (addr : Nat) : Prop :=
  space.view (addr / 4096) = some (kernelLeaf (addr / 4096))

theorem Kernel.direct {space : Space} {frame : Nat} (kernel : space.Kernel frame)
    (aligned : frame % 4096 = 0) : space.Direct frame :=
  ⟨kernelLeaf (frame / 4096), kernel, by simp only [kernelLeaf]; omega⟩

/-- A recorded range: page-aligned, below 4 GiB, with a page table for every page. -/
structure Placed (space : Space) (mapping : Mapping) : Prop where
  valid : ValidRange mapping.vaddr mapping.len
  aligned : mapping.phys % 4096 = 0
  bounded : mapping.phys + mapping.len ≤ 2 ^ 52
  tables : ∀ page, mapping.Covers (page * 4096) → space.pt (page / 512) ≠ none

theorem Placed.of_split {space after : Space} {mapping : Mapping} (placed : space.Placed mapping)
    (split : ∀ block, space.pt block ≠ none → after.pt block ≠ none) : after.Placed mapping :=
  { placed with tables := fun page covered => split _ (placed.tables page covered) }

end Paging.Space

structure Hosted (kept : Nat → Prop) (proc : Process) (space : Space) (mem : ByteMemory) :
    Prop where
  wellFormed : space.WellFormed
  upward : space.UserUpward
  represents : space.Represents mem
  tables : ∀ frame, space.Owns frame → frame ∈ proc.frames
  /-- No page table is part of a private mapping, so `munmap` frees none. -/
  spare : ∀ frame, space.Owns frame → ∀ mapping, mapping ∈ proc.mappings →
    mapping.shmId = none → frame ∉ mapping.run
  below : ∀ addr, kept addr → addr < identityMapEnd
  kernel : ∀ addr, addr ∈ proc.frames ∨ kept addr →
    space.Kernel addr ∧ ¬ Process.Covers proc.mappings addr
  placed : ∀ mapping, mapping ∈ proc.mappings → space.Placed mapping
  stackTable : space.pt (Process.userStackLowLimit / 2 ^ 21) ≠ none
  stackPhys : proc.stackPhysBase % 4096 = 0 ∧
    proc.stackPhysBase + Process.userStackMaxPages * pageSize ≤ 2 ^ 52
  stackLow : Process.userStackLowLimit ≤ proc.stackLow ∧
    proc.stackLow ≤ Process.userStackTop ∧ proc.stackLow % 4096 = 0

def InRange (virt len addr : Nat) : Prop :=
  virt ≤ addr ∧ addr < virt + len

/-- A frame the kernel can write while it maps `[virt, virt + len)` for the process. -/
structure Lends (mappings : List Mapping) (space : Space) (virt len frame : Nat) : Prop where
  aligned : frame % 4096 = 0
  bounded : frame < identityMapEnd
  kernel : space.Kernel frame
  uncovered : ¬ Process.Covers mappings frame
  outside : ¬ InRange virt len frame

def blocksTouched (virt len : Nat) : Nat :=
  (virt + len - 1) / 2 ^ 21 - virt / 2 ^ 21 + 1

theorem tablesNeeded_le_blocksTouched {space : Space} {virt len : Nat}
    (valid : ValidRange virt len) :
    tablesNeeded space (virt / 4096) (len / 4096) ≤ blocksTouched virt len := by
  obtain ⟨virtAligned, lenAligned, positive, -⟩ := valid
  have last : (virt / 4096 + len / 4096 - 1) / 512 = (virt + len - 1) / 2 ^ 21 := by omega
  have first : virt / 4096 / 512 = virt / 2 ^ 21 := by omega
  unfold tablesNeeded blocksTouched
  rw [last, first]
  split
  · omega
  · split <;> omega

namespace Hosted

variable {kept : Nat → Prop} {proc proc' : Process} {space after : Space}
  {mem mem' : ByteMemory} {machine : Machine}

theorem congr (hosted : Hosted kept proc space mem) (same : proc'.books = proc.books) :
    Hosted kept proc' space mem := by
  obtain ⟨frames, mappings, low, base⟩ : proc'.frames = proc.frames ∧
      proc'.mappings = proc.mappings ∧ proc'.stackLow = proc.stackLow ∧
      proc'.stackPhysBase = proc.stackPhysBase := by
    simpa [Process.books] using same
  refine ⟨hosted.wellFormed, hosted.upward, hosted.represents, ?_, ?_, hosted.below, ?_, ?_,
    hosted.stackTable, ?_, ?_⟩
  · rw [frames]
    exact hosted.tables
  · rw [mappings]
    exact hosted.spare
  · intro addr member
    rw [frames] at member
    rw [mappings]
    exact hosted.kernel addr member
  · rw [mappings]
    exact hosted.placed
  · rw [base]
    exact hosted.stackPhys
  · rw [low]
    exact hosted.stackLow

theorem of_agree {written : Nat → Prop} (hosted : Hosted kept proc space mem)
    (agree : Space.AgreeOutside written mem mem')
    (apart : ∀ frame, space.Owns frame → ¬ written frame) :
    Hosted kept proc space mem' :=
  { hosted with represents := hosted.represents.congr hosted.wellFormed agree apart }

theorem walk_eq (hosted : Hosted kept proc space mem) {addr : Nat}
    (inside : addr < identityMapEnd) :
    walk mem space.pml4 addr = space.view (addr / 4096) :=
  Space.walk_eq_view hosted.wellFormed hosted.upward hosted.represents inside

theorem frame_lends (hosted : Hosted kept proc space mem)
    (owned : OwnedBy machine.pmm proc) {virt len frame : Nat}
    (avoids : ∀ addr, addr ∈ proc.frames → ¬ InRange virt len addr)
    (member : frame ∈ proc.frames) : Lends proc.mappings space virt len frame := by
  obtain ⟨aligned, below, -, -⟩ := owned.held frame member
  obtain ⟨kernel, uncovered⟩ := hosted.kernel frame (Or.inl member)
  exact ⟨aligned, lt_trans below (by decide), kernel, uncovered, avoids frame member⟩

theorem editing (hosted : Hosted kept proc space machine.mem)
    (owned : OwnedBy machine.pmm proc) (active : machine.cr3 = space.pml4) {virt len : Nat}
    (avoids : ∀ addr, addr ∈ proc.frames → ¬ InRange virt len addr) :
    Editing (Lends proc.mappings space virt len) space machine :=
  { wellFormed := hosted.wellFormed
    represents := hosted.represents
    owned := fun frame owns => hosted.frame_lends owned avoids (hosted.tables frame owns)
    used := fun frame owns => (owned.held frame (hosted.tables frame owns)).2.2.2
    aligned := fun _ lends => lends.aligned
    bounded := fun _ lends => lends.bounded
    active := Or.inl ⟨active, fun _ lends => lends.kernel.direct lends.aligned⟩ }

/-- What `map_range_in` did to a table: `mapped` pages of the range lead to the frames from
`phys` on, every other page is as it was. -/
structure Remaps (space after : Space) (virt phys len : Nat) (flags : BitVec 64) (done : Bool)
    (mapped : Nat) : Prop where
  views : MappedPrefix space after (virt / 4096) phys flags mapped
  bounded : mapped ≤ len / 4096
  complete : done = true → ValidRange virt len ∧ mapped = len / 4096
  invalid : ¬ ValidRange virt len → mapped = 0

theorem Remaps.view_outside {virt phys len mapped page : Nat} {flags : BitVec 64} {done : Bool}
    (remaps : Remaps space after virt phys len flags done mapped) (aligned : virt % 4096 = 0)
    (inside : page < 2 ^ 20) (outside : ¬ InRange virt len (page * 4096)) :
    after.view page = space.view page := by
  have bounded := remaps.bounded
  rw [remaps.views.views page inside, if_neg]
  intro within
  exact outside (by unfold InRange; omega)

theorem Remaps.kernel {virt phys len mapped addr : Nat} {flags : BitVec 64} {done : Bool}
    (remaps : Remaps space after virt phys len flags done mapped) (aligned : virt % 4096 = 0)
    (whole : len % 4096 = 0) (below : addr < 4294967296) (outside : ¬ InRange virt len addr)
    (kernel : space.Kernel addr) : after.Kernel addr := by
  unfold Space.Kernel
  rw [remaps.view_outside aligned (by omega) (by unfold InRange at *; omega)]
  exact kernel

def Writes (proc : Process) (machine machine' : Machine) : Prop :=
  Space.AgreeOutside (fun frame => frame ∈ proc.frames ∨ machine.pmm.Free frame)
    machine.mem machine'.mem

theorem extend {machine' : Machine} {fresh : List Nat}
    (hosted : Hosted kept proc space machine.mem) (owned : OwnedBy machine.pmm proc)
    (wellFormed : after.WellFormed) (represents : after.Represents machine'.mem)
    (extends' : Extends space after machine machine' fresh)
    (uncovered : ∀ frame, frame ∈ fresh → space.Kernel frame ∧ ¬ Process.Covers proc.mappings frame)
    (keeps : ∀ addr, addr ∈ proc.frames ++ fresh ∨ kept addr → space.Kernel addr →
      after.Kernel addr) :
    Hosted kept { proc with frames := proc.frames ++ fresh } after machine'.mem := by
  have split : ∀ block, space.pt block ≠ none → after.pt block ≠ none := by
    intro block present
    obtain ⟨frame, found⟩ := Option.ne_none_iff_exists'.mp present
    rw [extends'.split block frame found]
    simp
  refine ⟨wellFormed, extends'.upward hosted.upward, represents, ?_, ?_, hosted.below, ?_, ?_,
    split _ hosted.stackTable, hosted.stackPhys, hosted.stackLow⟩
  · intro frame owns
    rcases (extends'.owns frame).mp owns with old | new
    · exact mem_append_left _ (hosted.tables frame old)
    · exact mem_append_right _ new
  · intro frame owns mapping member isPrivate
    rcases (extends'.owns frame).mp owns with old | new
    · exact hosted.spare frame old mapping member isPrivate
    · intro inRun
      exact (owned.held frame (owned.backed mapping member isPrivate frame inRun)).2.2.2
        (extends'.freshFree frame new)
  · intro addr member
    have before : space.Kernel addr ∧ ¬ Process.Covers proc.mappings addr := by
      rcases member with inFrames | isKept
      · rcases mem_append.mp inFrames with old | new
        · exact hosted.kernel addr (Or.inl old)
        · exact uncovered addr new
      · exact hosted.kernel addr (Or.inr isKept)
    exact ⟨keeps addr member before.1, before.2⟩
  · exact fun mapping member => (hosted.placed mapping member).of_split split

theorem mapRange (hosted : Hosted kept proc space machine.mem)
    (owned : OwnedBy machine.pmm proc) (active : machine.cr3 = space.pml4)
    {virt phys len : Nat} (flags : BitVec 64)
    (avoids : ∀ addr, addr ∈ proc.frames ∨ kept addr → ¬ InRange virt len addr)
    (aligned : phys % 4096 = 0) (bounded : phys + len ≤ 2 ^ 52)
    (supplied : ValidRange virt len → Pmm.Supplies (Lends proc.mappings space virt len)
      (tablesNeeded space (virt / 4096) (len / 4096)) machine.pmm) :
    ∃ done fresh machine' after mapped,
      mapRangeIn space.pml4 virt phys len flags proc.frames machine =
        (.ok (done, proc.frames ++ fresh), machine') ∧
      Hosted kept { proc with frames := proc.frames ++ fresh } after machine'.mem ∧
      Takes machine machine' fresh ∧ Writes proc machine machine' ∧
      after.pml4 = space.pml4 ∧ Remaps space after virt phys len flags done mapped ∧
      (∀ frame, frame ∈ fresh → Lends proc.mappings space virt len frame) ∧
      (∀ frame, after.Owns frame → space.Owns frame ∨ frame ∈ fresh) ∧
      (ValidRange virt len →
        Pmm.Stocked (tablesNeeded space (virt / 4096) (len / 4096)) machine.pmm →
        done = true) ∧
      (tablesNeeded space (virt / 4096) (len / 4096) = 0 → fresh = []) := by
  by_cases valid : ValidRange virt len
  · obtain ⟨done, after, machine', fresh, mapped, ran, edited, extends', few, views, complete,
      stocked, taken, least, samePmm⟩ := mapRangeIn_spec flags proc.frames
        (hosted.editing owned active (fun addr member => avoids addr (Or.inl member))) valid
        aligned bounded (fun _ frame lends low high => absurd ⟨low, high⟩ lends.outside)
        (supplied valid)
    have remaps : Remaps space after virt phys len flags done mapped :=
      ⟨views, few, fun finished => ⟨valid, complete finished⟩, fun bad => absurd valid bad⟩
    have lent : ∀ frame, frame ∈ fresh → Lends proc.mappings space virt len frame :=
      fun frame member => edited.owned frame ((extends'.owns frame).mpr (Or.inr member))
    refine ⟨done, fresh, machine', after, mapped, ran, ?_,
      ⟨extends'.cr3, extends'.limit, extends'.free, extends'.freshFree, extends'.nodup⟩, ?_,
      extends'.pml4, remaps, lent, fun frame => (extends'.owns frame).mp, fun _ => stocked,
      ?_⟩
    · refine hosted.extend owned edited.wellFormed edited.represents extends'
        (fun frame member => ⟨(lent frame member).kernel, (lent frame member).uncovered⟩) ?_
      intro addr member kernel
      have clear : addr < 4294967296 ∧ ¬ InRange virt len addr := by
        rcases member with inFrames | isKept
        · rcases mem_append.mp inFrames with old | new
          · exact ⟨(hosted.frame_lends owned (fun other mine => avoids other (Or.inl mine))
              old).bounded, avoids addr (Or.inl old)⟩
          · exact ⟨(lent addr new).bounded, (lent addr new).outside⟩
        · exact ⟨hosted.below addr isKept, avoids addr (Or.inr isKept)⟩
      exact remaps.kernel valid.1 valid.2.1 clear.1 clear.2 kernel
    · refine extends'.memory.mono ?_
      intro frame owns
      rcases (extends'.owns frame).mp owns with old | new
      · exact Or.inl (hosted.tables frame old)
      · exact Or.inr (extends'.freshFree frame new)
    · intro none'
      obtain rfl : taken = 0 := by omega
      refine eq_nil_iff_forall_not_mem.mpr (fun frame new => ?_)
      refine ((extends'.free frame).mp ?_).2 new
      rw [samePmm]
      exact extends'.freshFree frame new
  · refine ⟨false, [], machine, space, 0, ?_, ?_, Takes.of_same (SameFrames.refl machine),
      Space.AgreeOutside.refl _ _, rfl, ⟨⟨?_, by simp⟩, Nat.zero_le _, by simp, fun _ => rfl⟩, by simp,
      fun _ => Or.inl, fun good => absurd good valid, fun _ => rfl⟩
    · rw [mapRangeIn_invalid _ _ _ _ valid, append_nil]
    · exact hosted.congr (by simp [Process.books])
    · intro page _
      rw [if_neg (by omega)]

theorem mapRangeIn_memory (hosted : Hosted kept proc space machine.mem)
    (owned : OwnedBy machine.pmm proc) (active : machine.cr3 = space.pml4)
    {virt phys len : Nat} {flags : BitVec 64} {frames : List Nat} {done : Bool}
    (avoids : ∀ addr, addr ∈ proc.frames → ¬ InRange virt len addr)
    (aligned : phys % 4096 = 0) (bounded : phys + len ≤ 2 ^ 52)
    (supplied : ValidRange virt len → Pmm.Supplies (Lends proc.mappings space virt len)
      (tablesNeeded space (virt / 4096) (len / 4096)) machine.pmm)
    (ran : mapRangeIn space.pml4 virt phys len flags proc.frames machine =
      (.ok (done, frames), machine')) :
    Space.AgreeOutside (fun frame => space.Owns frame ∨ machine.pmm.Free frame) machine.mem
        machine'.mem ∧
      ∃ tables, tables ≤ blocksTouched virt len ∧ machine'.pmm = machine.pmm.allocs tables := by
  by_cases valid : ValidRange virt len
  · obtain ⟨done', after, machine'', fresh, mapped, ran', edited, extends', -, -, -, -, tables, few,
        pmm⟩ :=
      mapRangeIn_spec flags proc.frames (hosted.editing owned active avoids) valid aligned
        bounded (fun _ frame lends low high => absurd ⟨low, high⟩ lends.outside) (supplied valid)
    rw [ran] at ran'
    cases ran'
    refine ⟨extends'.memory.mono ?_, tables, few.trans (tablesNeeded_le_blocksTouched valid), pmm⟩
    intro frame owns
    rcases (extends'.owns frame).mp owns with old | new
    · exact Or.inl old
    · exact Or.inr (extends'.freshFree frame new)
  · rw [mapRangeIn_invalid _ _ _ _ valid] at ran
    cases ran
    exact ⟨Space.AgreeOutside.refl _ _, 0, Nat.zero_le _, rfl⟩

theorem ownBlock (hosted : Hosted kept proc space mem) {block : List Nat}
    (kernel : ∀ frame, frame ∈ block →
      space.Kernel frame ∧ ¬ Process.Covers proc.mappings frame) :
    Hosted kept { proc with frames := proc.frames ++ block } space mem :=
  { hosted with
    tables := fun frame owns => mem_append_left _ (hosted.tables frame owns)
    kernel := by
      intro addr member
      rcases member with inFrames | isKept
      · rcases mem_append.mp inFrames with old | new
        · exact hosted.kernel addr (Or.inl old)
        · exact kernel addr new
      · exact hosted.kernel addr (Or.inr isKept) }

theorem fill (hosted : Hosted kept proc space machine.mem)
    (owned : OwnedBy machine.pmm proc) (active : machine.cr3 = space.pml4) {addr : Nat}
    {bytes : List (BitVec 8)}
    (inside : ∀ frame, Touches addr bytes.length frame →
      frame ∈ proc.frames ∧ ¬ space.Owns frame) :
    ∃ mem, copyBytes addr bytes machine = (.ok (), { machine with mem }) ∧
      Hosted kept proc space mem ∧
      Space.AgreeOutside (Touches addr bytes.length) machine.mem mem := by
  have avoids : ∀ addr, addr ∈ proc.frames → ¬ InRange 0 0 addr :=
    fun _ _ within => Nat.not_lt_zero _ within.2
  have agree := agreeOutside_writeBytes machine.mem addr bytes
  have ran := (hosted.editing owned active avoids).copyBytes
    (fun frame touches =>
      ⟨hosted.frame_lends owned avoids (inside frame touches).1, (inside frame touches).2⟩)
  exact ⟨_, ran, hosted.of_agree agree (fun frame owns touches => (inside frame touches).2 owns),
    agree⟩

theorem record {mapping : Mapping} (hosted : Hosted kept proc space mem)
    (placed : space.Placed mapping)
    (clear : ∀ addr, addr ∈ proc.frames ∨ kept addr → ¬ mapping.Covers addr)
    (spare : mapping.shmId = none → ∀ frame, space.Owns frame → frame ∉ mapping.run) :
    Hosted kept { proc with mappings := proc.mappings ++ [mapping] } space mem :=
  { hosted with
    spare := by
      intro frame owns other member isPrivate
      rcases mem_append.mp member with old | new
      · exact hosted.spare frame owns other old isPrivate
      · obtain rfl := mem_singleton.mp new
        exact spare isPrivate frame owns
    kernel := by
      intro addr member
      obtain ⟨kernel, uncovered⟩ := hosted.kernel addr member
      refine ⟨kernel, ?_⟩
      rintro (⟨other, inList, covers⟩ | inStack)
      · rcases mem_append.mp inList with old | new
        · exact uncovered (Or.inl ⟨other, old, covers⟩)
        · obtain rfl := mem_singleton.mp new
          exact clear addr member covers
      · exact uncovered (Or.inr inStack)
    placed := by
      intro other member
      rcases mem_append.mp member with old | new
      · exact hosted.placed other old
      · obtain rfl := mem_singleton.mp new
        exact placed }

theorem Remaps.placed {virt phys len mapped : Nat} {flags : BitVec 64}
    (remaps : Remaps space after virt phys len flags true mapped) (aligned : phys % 4096 = 0)
    (bounded : phys + len ≤ 2 ^ 52) (shmId : Option Nat) :
    after.Placed { vaddr := virt, phys, len, shmId } := by
  obtain ⟨valid, all⟩ := remaps.complete rfl
  refine ⟨valid, aligned, bounded, ?_⟩
  intro page covered
  obtain ⟨virtAligned, lenAligned, -, -⟩ := valid
  have lower : virt ≤ page * 4096 := covered.1
  have upper : page * 4096 < virt + len := covered.2
  have table := remaps.views.tables (page - virt / 4096) (by omega)
  have same : virt / 4096 + (page - virt / 4096) = page := by omega
  rw [same] at table
  exact table

theorem block_bounded {pmm : Pmm} (bounded : machine.pmm.Bounded) {phys pages : Nat}
    (given : machine.pmm.allocContiguous pages = (some phys, pmm)) :
    phys + pages * 4096 ≤ 2 ^ 52 := by
  obtain ⟨positive, free, -, -, -⟩ := Pmm.allocContiguous_some given
  have last := (bounded.free_lt (free (pages - 1) (by omega))).1
  have size : Pmm.frameSize = 4096 := rfl
  have limit : Pmm.maxPhysMem = 268435456 := rfl
  rw [size, limit] at last
  omega

theorem lendBlock (hosted : Hosted kept proc space machine.mem)
    (owned : OwnedBy machine.pmm proc) (bounded : machine.pmm.Bounded) {virt phys len pages : Nat}
    {pmm : Pmm} (given : machine.pmm.allocContiguous pages = (some phys, pmm))
    (avoids : ∀ addr, addr ∈ proc.frames ∨ kept addr → ¬ InRange virt len addr)
    (lent : ∀ frame, frame ∈ Pmm.frameRun phys pages →
      Lends proc.mappings space virt len frame) :
    Hosted kept { proc with frames := proc.frames ++ Pmm.frameRun phys pages } space
        machine.mem ∧
      OwnedBy pmm { proc with frames := proc.frames ++ Pmm.frameRun phys pages } ∧
      Takes machine { machine with pmm } (Pmm.frameRun phys pages) ∧
      (∀ frame, frame ∈ Pmm.frameRun phys pages → ¬ space.Owns frame) ∧
      ∀ addr, addr ∈ proc.frames ++ Pmm.frameRun phys pages ∨ kept addr →
        ¬ InRange virt len addr := by
  have taken : Takes machine { machine with pmm } (Pmm.frameRun phys pages) := by
    rcases allocContiguous_takes (show allocContiguous pages machine =
        (.ok (some phys), { machine with pmm }) by simp [allocContiguous, given]) with
      ⟨none, -⟩ | ⟨other, same, -, -, takes⟩
    · cases none
    · cases same
      exact takes
  have grown : Grown proc { proc with frames := proc.frames ++ Pmm.frameRun phys pages }
      machine { machine with pmm } [] (Pmm.frameRun phys pages) := Grown.of_takes taken rfl rfl
  refine ⟨hosted.ownBlock (fun frame member => ⟨(lent frame member).kernel,
    (lent frame member).uncovered⟩), (owned.grow bounded grown).1, taken, ?_, ?_⟩
  · intro frame member owns
    exact (owned.held frame (hosted.tables frame owns)).2.2.2 (taken.wasFree frame member)
  · rintro addr (inFrames | isKept)
    · rcases mem_append.mp inFrames with old | new
      · exact avoids addr (Or.inl old)
      · exact (lent addr new).outside
    · exact avoids addr (Or.inr isKept)

theorem mapBlock (hosted : Hosted kept proc space machine.mem)
    (owned : OwnedBy machine.pmm proc) (bounded : machine.pmm.Bounded)
    (active : machine.cr3 = space.pml4) {virt phys len : Nat} {pmm : Pmm} (flags : BitVec 64)
    {content : List (BitVec 8)} (whole : len % 4096 = 0) (short : content.length ≤ len)
    (given : machine.pmm.allocContiguous (len / 4096) = (some phys, pmm))
    (avoids : ∀ addr, addr ∈ proc.frames ∨ kept addr → ¬ InRange virt len addr)
    (lent : ∀ frame, frame ∈ Pmm.frameRun phys (len / 4096) →
      Lends proc.mappings space virt len frame)
    (supplied : ValidRange virt len → Pmm.Supplies (Lends proc.mappings space virt len)
      (tablesNeeded space (virt / 4096) (len / 4096)) pmm) :
    ∃ cleared filled done fresh machine' after mapped,
      zeroBytes phys len { machine with pmm } = (.ok (), { machine with pmm, mem := cleared }) ∧
      copyBytes phys content { machine with pmm, mem := cleared } =
        (.ok (), { machine with pmm, mem := filled }) ∧
      mapRangeIn space.pml4 virt phys len flags
          (proc.frames ++ Pmm.frameRun phys (len / 4096)) { machine with pmm, mem := filled } =
        (.ok (done, proc.frames ++ Pmm.frameRun phys (len / 4096) ++ fresh), machine') ∧
      Hosted kept
        { proc with
          frames := proc.frames ++ Pmm.frameRun phys (len / 4096) ++ fresh
          mappings := if done then proc.mappings ++ [{ vaddr := virt, phys, len, shmId := none }]
            else proc.mappings } after machine'.mem ∧
      Writes proc machine machine' ∧ machine'.cr3 = machine.cr3 ∧
      after.pml4 = space.pml4 ∧ Remaps space after virt phys len flags done mapped ∧
      (ValidRange virt len →
        Pmm.Stocked (tablesNeeded space (virt / 4096) (len / 4096)) pmm → done = true) := by
  obtain ⟨-, -, -, aligned, -⟩ := Pmm.allocContiguous_some given
  have fits : phys + len ≤ 2 ^ 52 := by
    have block := block_bounded bounded given
    omega
  obtain ⟨hosted₁, owned₁, taken, apart, avoids₁⟩ :=
    hosted.lendBlock owned bounded given avoids lent
  have inBlock : ∀ length, length ≤ len → ∀ frame, Touches phys length frame →
      frame ∈ proc.frames ++ Pmm.frameRun phys (len / 4096) ∧ ¬ space.Owns frame := by
    intro length inside frame touches
    have member : frame ∈ Pmm.frameRun phys (len / 4096) :=
      Touches.mem_frameRun aligned (show 0 + length ≤ len / 4096 * 4096 by omega) touches
    exact ⟨mem_append_right _ member, apart frame member⟩
  have wrote : ∀ length, length ≤ len → ∀ frame, Touches phys length frame →
      machine.pmm.Free frame := by
    intro length inside frame touches
    exact taken.wasFree frame
      (Touches.mem_frameRun aligned (show 0 + length ≤ len / 4096 * 4096 by omega) touches)
  obtain ⟨cleared, zeroed, hosted₂, agree₂⟩ :=
    @fill kept _ space { machine with pmm } hosted₁ owned₁ active phys (List.replicate len 0#8)
      (by rw [length_replicate]; exact inBlock len (le_refl len))
  obtain ⟨filled, copied, hosted₃, agree₃⟩ :=
    @fill kept _ space { machine with pmm, mem := cleared } hosted₂ owned₁ active phys content
      (inBlock content.length short)
  obtain ⟨done, fresh, machine', after, mapped, ran, hosted₄, takes, writes, pml4, remaps, lent',
    owns, stocked, -⟩ := @mapRange kept _ space { machine with pmm, mem := filled } hosted₃ owned₁ active
      virt phys len flags avoids₁ aligned fits supplied
  refine ⟨cleared, filled, done, fresh, machine', after, mapped,
    by rw [zeroBytes_eq_copyBytes]; exact zeroed, copied, ran, ?_, ?_, takes.cr3, pml4, remaps,
    stocked⟩
  · cases done with
    | false => exact hosted₄
    | true =>
        refine hosted₄.record (remaps.placed aligned fits none) ?_ ?_
        · rintro addr (inFrames | isKept)
          · rcases mem_append.mp inFrames with old | new
            · exact avoids₁ addr (Or.inl old)
            · exact (lent' addr new).outside
          · exact avoids₁ addr (Or.inr isKept)
        · intro _ frame owned' member
          rcases owns frame owned' with old | new
          · exact (owned.held frame (hosted.tables frame old)).2.2.2 (taken.wasFree frame member)
          · exact ((taken.free frame).mp (takes.wasFree frame new)).2 member
  · rw [length_replicate] at agree₂
    refine ((agree₂.mono ?_).trans (agree₃.mono ?_)).trans (writes.mono ?_)
    · exact fun frame touches => Or.inr (wrote len (le_refl len) frame touches)
    · exact fun frame touches => Or.inr (wrote content.length short frame touches)
    · rintro frame (inFrames | free)
      · rcases mem_append.mp inFrames with old | new
        · exact Or.inl old
        · exact Or.inr (taken.wasFree frame new)
      · exact Or.inr ((taken.free frame).mp free).1

end Hosted
end MachaOS
