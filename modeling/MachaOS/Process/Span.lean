/-
The span of pages `load_segments` maps, against the territory
`validate_segments` checks.

The validator looks at one segment at a time; the loader maps everything from
the lowest page of the lowest segment to the last page of the highest one.
The two agree exactly when no segment lies on the other side of a forbidden
range than the rest.
-/

import MachaOS.Process.Loader

namespace MachaOS

open Paging Fallible

theorem alignDown_le (value : Nat) : alignDown value ≤ value := by
  unfold alignDown
  omega

theorem alignDown_mod (value : Nat) : alignDown value % 4096 = 0 := by
  unfold alignDown
  omega

theorem alignUp_mod (value : Nat) : alignUp value % 4096 = 0 := by
  unfold alignUp
  omega

theorem le_alignUp {value : Nat} (bounded : value + 4095 < wordLimit) : value ≤ alignUp value := by
  unfold alignUp
  rw [Nat.mod_eq_of_lt bounded]
  omega

theorem alignUp_le {value limit : Nat} (below : value ≤ limit) (aligned : limit % 4096 = 0) :
    alignUp value ≤ limit := by
  have reduced : (value + 4095) % wordLimit ≤ value + 4095 := Nat.mod_le _ _
  unfold alignUp
  omega

namespace Elf.Segment

def firstPage (seg : Segment) : Nat :=
  alignDown seg.vaddr

def pageEnd (seg : Segment) : Nat :=
  alignUp (seg.vaddr + seg.memsz)

end Elf.Segment

namespace Loader

variable {heapStart heapEnd : Nat} {segments : List Elf.Segment}

theorem mem_pagesFrom {virt count page : Nat} :
    page ∈ pagesFrom virt count ↔ ∃ index, index < count ∧ page = virt + index * 4096 := by
  induction count generalizing virt with
  | zero => simp [pagesFrom]
  | succ count ih =>
      have size : pageSize = 4096 := rfl
      rw [pagesFrom, List.mem_cons, ih, size]
      constructor
      · rintro (rfl | ⟨index, inside, rfl⟩)
        · exact ⟨0, by omega, by omega⟩
        · exact ⟨index + 1, by omega, by omega⟩
      · rintro ⟨index, inside, rfl⟩
        cases index with
        | zero => exact Or.inl (by omega)
        | succ index => exact Or.inr ⟨index, by omega, by omega⟩

def loadedPages (segments : List Elf.Segment) : List Nat :=
  match segmentStart segments, segmentEnd segments with
  | some overallStart, some overallEnd =>
      pagesFrom overallStart ((overallEnd - overallStart) / pageSize)
  | _, _ => []

/-- The page `[page, page + 4096)` and the range `[low, high)` have no byte in common. -/
def Outside (low high page : Nat) : Prop :=
  page + pageSize ≤ low ∨ high ≤ page

/-- No segment is on the other side of `[low, high)` than the rest, page-rounded. -/
def OneSide (segments : List Elf.Segment) (low high : Nat) : Prop :=
  (∀ seg ∈ segments, seg.pageEnd ≤ low) ∨
    (∀ seg ∈ segments, high ≤ seg.firstPage)

structure InTerritory (heapStart heapEnd page : Nat) : Prop where
  heap : Outside (heapStart - 1024 * 1024) (heapEnd + 1024 * 1024) page
  stack : Outside Process.userStackLowLimit (Process.userExitStubVirt + pageSize) page
  above : Process.minSegmentVaddr ≤ page
  below : page + pageSize ≤ identityMapEnd

structure Accepted (heapStart heapEnd : Nat) (seg : Elf.Segment) : Prop where
  nonempty : 0 < seg.memsz
  above : Process.minSegmentVaddr ≤ seg.vaddr
  below : seg.vaddr + seg.memsz ≤ identityMapEnd
  heap : heapEnd + 1024 * 1024 ≤ seg.vaddr ∨
    seg.vaddr + seg.memsz ≤ heapStart - 1024 * 1024
  stack : Process.userExitStubVirt + pageSize ≤ seg.vaddr ∨
    seg.vaddr + seg.memsz ≤ Process.userStackLowLimit

theorem validateSegment_ok {seg : Elf.Segment} {value : Unit}
    (passed : validateSegment heapStart heapEnd seg = .ok value) :
    Accepted heapStart heapEnd seg := by
  unfold validateSegment at passed
  dsimp only at passed
  split at passed
  · cases passed
  split at passed
  · cases passed
  split at passed
  · cases passed
  split at passed
  · cases passed
  split at passed
  · cases passed
  split at passed
  · cases passed
  exact
    { nonempty := by omega
      above := by omega
      below := by omega
      heap := by omega
      stack := by omega }

theorem validateSegments_ok {value : Unit}
    (passed : validateSegments heapStart heapEnd segments = .ok value) :
    ∀ seg ∈ segments, Accepted heapStart heapEnd seg := by
  induction segments with
  | nil => simp
  | cons first rest ih =>
      unfold validateSegments at passed
      cases outcome : validateSegment heapStart heapEnd first with
      | error message =>
          rw [outcome] at passed
          cases passed
      | ok value =>
          rw [outcome] at passed
          intro seg mem
          rcases List.mem_cons.mp mem with rfl | later
          · exact validateSegment_ok outcome
          · exact ih passed seg later

namespace Accepted

variable {seg : Elf.Segment}

section

variable (accepted : Accepted heapStart heapEnd seg)
include accepted

theorem pageEnd_le : seg.pageEnd ≤ identityMapEnd :=
  alignUp_le accepted.below (by decide)

theorem le_pageEnd : seg.vaddr + seg.memsz ≤ seg.pageEnd := by
  have below := accepted.below
  have limit : identityMapEnd = 4294967296 := rfl
  apply le_alignUp
  unfold wordLimit
  omega

theorem le_firstPage : Process.minSegmentVaddr ≤ seg.firstPage := by
  have above := accepted.above
  have least : Process.minSegmentVaddr = 2097152 := rfl
  unfold Elf.Segment.firstPage alignDown
  omega

theorem firstPage_lt : seg.firstPage < seg.pageEnd := by
  have rounded := accepted.le_pageEnd
  have nonempty := accepted.nonempty
  have lower : seg.firstPage ≤ seg.vaddr := alignDown_le _
  omega

end

end Accepted

structure Span (segments : List Elf.Segment) (overallStart overallEnd : Nat) : Prop where
  start : segmentStart segments = some overallStart
  stop : segmentEnd segments = some overallEnd

namespace Span

variable {overallStart overallEnd : Nat}

theorem exists_of_ne_nil (nonempty : segments ≠ []) :
    ∃ overallStart overallEnd, Span segments overallStart overallEnd := by
  cases segments with
  | nil => exact absurd rfl nonempty
  | cons first rest =>
      have starts : ∃ overallStart, segmentStart (first :: rest) = some overallStart := by
        simp [segmentStart, List.min?_cons]
      have stops : ∃ overallEnd, segmentEnd (first :: rest) = some overallEnd := by
        simp [segmentEnd, List.max?_cons]
      obtain ⟨overallStart, start⟩ := starts
      obtain ⟨overallEnd, stop⟩ := stops
      exact ⟨overallStart, overallEnd, start, stop⟩

section

variable (span : Span segments overallStart overallEnd)
include span

theorem start_le {seg : Elf.Segment} (mem : seg ∈ segments) :
    overallStart ≤ seg.firstPage :=
  (List.min?_eq_some_iff.mp span.start).2 _ (List.mem_map_of_mem mem)

theorem le_stop {seg : Elf.Segment} (mem : seg ∈ segments) :
    seg.pageEnd ≤ overallEnd :=
  (List.max?_eq_some_iff.mp span.stop).2 _ (List.mem_map_of_mem mem)

theorem start_mem : ∃ seg ∈ segments, seg.firstPage = overallStart :=
  List.mem_map.mp (List.min?_eq_some_iff.mp span.start).1

theorem stop_mem : ∃ seg ∈ segments, seg.pageEnd = overallEnd :=
  List.mem_map.mp (List.max?_eq_some_iff.mp span.stop).1

theorem start_aligned : overallStart % 4096 = 0 := by
  obtain ⟨seg, -, rfl⟩ := span.start_mem
  exact alignDown_mod _

theorem stop_aligned : overallEnd % 4096 = 0 := by
  obtain ⟨seg, -, rfl⟩ := span.stop_mem
  exact alignUp_mod _

theorem start_lt (accepted : ∀ seg ∈ segments, Accepted heapStart heapEnd seg) :
    overallStart < overallEnd := by
  obtain ⟨seg, mem, -⟩ := span.start_mem
  have lower := span.start_le mem
  have inside := (accepted seg mem).firstPage_lt
  have upper := span.le_stop mem
  omega

theorem min_le_start (accepted : ∀ seg ∈ segments, Accepted heapStart heapEnd seg) :
    Process.minSegmentVaddr ≤ overallStart := by
  obtain ⟨seg, mem, rfl⟩ := span.start_mem
  exact (accepted seg mem).le_firstPage

theorem stop_le (accepted : ∀ seg ∈ segments, Accepted heapStart heapEnd seg) :
    overallEnd ≤ identityMapEnd := by
  obtain ⟨seg, mem, rfl⟩ := span.stop_mem
  exact (accepted seg mem).pageEnd_le

theorem loadedPages_eq :
    loadedPages segments =
      pagesFrom overallStart ((overallEnd - overallStart) / pageSize) := by
  unfold loadedPages
  rw [span.start, span.stop]

theorem oneSide_iff {low high : Nat} :
    OneSide segments low high ↔ overallEnd ≤ low ∨ high ≤ overallStart := by
  constructor
  · rintro (below | above)
    · obtain ⟨seg, mem, rfl⟩ := span.stop_mem
      exact Or.inl (below seg mem)
    · obtain ⟨seg, mem, rfl⟩ := span.start_mem
      exact Or.inr (above seg mem)
  · rintro (below | above)
    · exact Or.inl (fun seg mem => (span.le_stop mem).trans below)
    · exact Or.inr (fun seg mem => above.trans (span.start_le mem))

theorem outside_iff {low high : Nat} (proper : low < high) (ordered : overallStart < overallEnd) :
    (∀ page ∈ loadedPages segments, Outside low high page) ↔ OneSide segments low high := by
  have startAligned := span.start_aligned
  have stopAligned := span.stop_aligned
  have size : pageSize = 4096 := rfl
  rw [span.oneSide_iff, span.loadedPages_eq]
  simp only [Outside, size]
  constructor
  · intro outside
    by_contra crossing
    -- the page of the first byte the span and the range have in common
    have index : (max low overallStart - overallStart) / 4096 <
        (overallEnd - overallStart) / 4096 := by omega
    have shared := outside _ (mem_pagesFrom.mpr ⟨_, index, rfl⟩)
    omega
  · intro apart page mem
    obtain ⟨index, inside, rfl⟩ := mem_pagesFrom.mp mem
    omega

end

end Span
end Loader
end MachaOS
