/-
Where the loader puts a process, against what the validator promises.
-/

import MachaOS.Spawning

namespace MachaOS

open Fallible Machine Paging Loader

namespace Elf

def leBytes (value count : Nat) : Bytes :=
  (List.range count).map (fun index => BitVec.ofNat 8 (value / 256 ^ index))

def execHeader (entry phnum : Nat) : Bytes :=
  [0x7F#8, 0x45#8, 0x4C#8, 0x46#8, 2#8, 1#8, 1#8, 0#8] ++ leBytes 0 8 ++ leBytes 2 2 ++
    leBytes 62 2 ++ leBytes 1 4 ++ leBytes entry 8 ++ leBytes 64 8 ++ leBytes 0 8 ++ leBytes 0 4 ++
    leBytes 64 2 ++ leBytes 56 2 ++ leBytes phnum 2 ++ leBytes 0 6

def loadHeader (flags offset vaddr filesz memsz : Nat) : Bytes :=
  leBytes 1 4 ++ leBytes flags 4 ++ leBytes offset 8 ++ leBytes vaddr 8 ++ leBytes vaddr 8 ++
    leBytes filesz 8 ++ leBytes memsz 8 ++ leBytes 4096 8

def bssHeader (vaddr memsz : Nat) : Bytes :=
  loadHeader 6 0 vaddr 0 memsz

/-- Code and data of twelve bytes in all, in one page at 16 MiB. -/
def sharedImage : Bytes :=
  execHeader 0x1000000 2 ++ loadHeader 5 176 0x1000000 8 0x100 ++
    loadHeader 6 184 0x1000100 4 0x1000 ++ (List.range 12).map (BitVec.ofNat 8)

/-- One page below the reserved stack region and one above it. -/
def wideImage : Bytes :=
  execHeader 0xFE00000 2 ++ bssHeader 0xFE00000 4096 ++ bssHeader 0x10001000 4096

def bssSegment (vaddr memsz : Nat) : Segment :=
  { vaddr, fileOffset := 0, filesz := 0, memsz, writable := true, executable := false }

def staticProgram (entry : Nat) (segments : List Segment) : Program :=
  { entry
    segments
    isPie := false
    phoff := 64
    phentsize := 56
    phnum := segments.length
    interp := none }

def sharedSegments : List Segment :=
  [{ vaddr := 0x1000000, fileOffset := 176, filesz := 8, memsz := 0x100
     writable := false, executable := true },
    { vaddr := 0x1000100, fileOffset := 184, filesz := 4, memsz := 0x1000
      writable := true, executable := false }]

def sharedProgram : Program :=
  staticProgram 0x1000000 sharedSegments

def wideProgram : Program :=
  staticProgram 0xFE00000 [bssSegment 0xFE00000 4096, bssSegment 0x10001000 4096]

end Elf

namespace System

theorem pages_inTerritory_iff {heapStart heapEnd : Nat} {segments : List Elf.Segment}
    (ordered : heapStart ≤ heapEnd) (nonempty : segments ≠ [])
    (accepted : ∀ seg ∈ segments, Accepted heapStart heapEnd seg) :
    (∀ page ∈ loadedPages segments, InTerritory heapStart heapEnd page) ↔
      OneSide segments (heapStart - 1024 * 1024) (heapEnd + 1024 * 1024) ∧
        OneSide segments Process.userStackLowLimit (Process.userExitStubVirt + pageSize) := by
  obtain ⟨overallStart, overallEnd, span⟩ := Span.exists_of_ne_nil nonempty
  have nonemptySpan := span.start_lt accepted
  have heapProper : heapStart - 1024 * 1024 < heapEnd + 1024 * 1024 := by omega
  have stackProper : Process.userStackLowLimit < Process.userExitStubVirt + pageSize := by decide
  rw [← span.outside_iff heapProper nonemptySpan, ← span.outside_iff stackProper nonemptySpan]
  constructor
  · intro inside
    exact ⟨fun page mem => (inside page mem).heap, fun page mem => (inside page mem).stack⟩
  · rintro ⟨heap, stack⟩ page mem
    have lower := span.min_le_start accepted
    have upper := span.stop_le accepted
    have startAligned := span.start_aligned
    have stopAligned := span.stop_aligned
    have size : pageSize = 4096 := rfl
    have located := mem
    rw [span.loadedPages_eq, mem_pagesFrom, size] at located
    obtain ⟨index, below, rfl⟩ := located
    exact ⟨heap _ mem, stack _ mem, by omega, by rw [size]; omega⟩

def ImagesApart (first second : List Elf.Segment) : Prop :=
  (∀ low ∈ first, ∀ high ∈ second, low.pageEnd ≤ high.firstPage) ∨
    (∀ high ∈ first, ∀ low ∈ second, low.pageEnd ≤ high.firstPage)

theorem imagesApart_iff {first second : List Elf.Segment} {start stop otherStart otherStop : Nat}
    (span : Span first start stop) (other : Span second otherStart otherStop) :
    ImagesApart first second ↔ RangesApart (start, stop) (otherStart, otherStop) := by
  constructor
  · rintro (below | above)
    · obtain ⟨low, lowMember, rfl⟩ := span.stop_mem
      obtain ⟨high, highMember, rfl⟩ := other.start_mem
      exact Or.inl (below low lowMember high highMember)
    · obtain ⟨high, highMember, rfl⟩ := span.start_mem
      obtain ⟨low, lowMember, rfl⟩ := other.stop_mem
      exact Or.inr (above high highMember low lowMember)
  · rintro (below | above)
    · refine Or.inl (fun low lowMember high highMember => ?_)
      exact ((span.le_stop lowMember).trans below).trans (other.start_le highMember)
    · refine Or.inr (fun high highMember low lowMember => ?_)
      exact ((other.le_stop lowMember).trans above).trans (span.start_le highMember)

theorem apart_stack_iff {layout : Layout} {segments : List Elf.Segment} {start stop : Nat}
    (validated : Validated layout segments) (span : Span segments start stop) :
    RangesApart (start, stop) (Process.userStackLowLimit, Process.userStackTop) ↔
      OneSide segments Process.userStackLowLimit (Process.userExitStubVirt + pageSize) := by
  rw [span.oneSide_iff]
  constructor
  · rintro (below | above)
    · exact Or.inl below
    · refine Or.inr ?_
      obtain ⟨seg, mem, rfl⟩ := span.start_mem
      have lower : seg.firstPage ≤ seg.vaddr := alignDown_le _
      have inside := (validated.accepted seg mem).nonempty
      have room : Process.userStackLowLimit < Process.userStackTop := by decide
      have stub : Process.userExitStubVirt + pageSize = 65537 * 4096 := by decide
      have far : Process.userExitStubVirt + pageSize ≤ seg.vaddr := by
        rcases (validated.accepted seg mem).stack with far | near
        · exact far
        · dsimp only at above
          omega
      rw [stub] at far ⊢
      unfold Elf.Segment.firstPage alignDown
      omega
  · have above : Process.userStackTop ≤ Process.userExitStubVirt + pageSize := by decide
    rintro (below | far)
    · exact Or.inl below
    · exact Or.inr (above.trans far)

theorem linuxRanges_apart_iff {layout : Layout} {prog : Elf.Program} {interp : Option Elf.Program}
    (validated : Validated layout prog.segments)
    (interpreter : ∀ image, interp = some image → Validated layout image.segments) :
    (linuxRanges prog interp).Pairwise RangesApart ↔
      OneSide prog.segments Process.userStackLowLimit (Process.userExitStubVirt + pageSize) ∧
        ∀ image, interp = some image →
          OneSide image.segments Process.userStackLowLimit (Process.userExitStubVirt + pageSize) ∧
            ImagesApart prog.segments image.segments := by
  obtain ⟨start, stop, span⟩ := Span.exists_of_ne_nil validated.nonempty
  cases interp with
  | none =>
      simp only [linuxRanges, imageRange_eq span, Option.map_none, Option.getD_none,
        List.append_nil, List.singleton_append, List.pairwise_cons, List.mem_singleton, forall_eq,
        List.not_mem_nil, false_implies, implies_true, List.Pairwise.nil, and_true,
        reduceCtorEq, apart_stack_iff validated span]
  | some image =>
      have checked := interpreter image rfl
      obtain ⟨imageStart, imageStop, imageSpan⟩ := Span.exists_of_ne_nil checked.nonempty
      simp only [linuxRanges, imageRange_eq span, imageRange_eq imageSpan, Option.map_some,
        Option.getD_some, List.cons_append, List.nil_append,
        List.pairwise_cons, List.mem_cons, List.not_mem_nil, or_false, forall_eq_or_imp,
        forall_eq, false_implies, implies_true, List.Pairwise.nil, and_true, Option.some.injEq,
        forall_eq', apart_stack_iff validated span, apart_stack_iff checked imageSpan,
        imagesApart_iff span imageSpan]
      tauto

end System
end MachaOS
