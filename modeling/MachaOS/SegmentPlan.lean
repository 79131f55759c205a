/-
The addresses `load_segments` computes, with the arithmetic of the machine.

A plan lists what the loader maps and copies.  `planChecked` computes it with sums and differences
that panic when they leave 64 bits, and with the file and the block as bounds of every copy.  For a
file the parser and the validator accept it never panics, and gives the plan the loader follows.
-/

import MachaOS.Elf.Checked
import MachaOS.Territory

namespace MachaOS

open Paging Checked Except

namespace Loader

/-- What `load_segments` does with a block: the pages it maps, as address, frame and flags, and the
spans it copies, as destination, place in the file and size. -/
structure LoadPlan where
  start : Nat
  len : Nat
  pages : List (Nat × Nat × BitVec 64)
  copies : List (Nat × Nat × Nat)
deriving DecidableEq

def alignUpChecked (value : Nat) : Checked Nat := do
  let sum ← Checked.add value pageSize
  let top ← Checked.sub sum 1
  .ok (top / pageSize * pageSize)

def askedChecked (asks : Elf.Segment → Bool) (pageVaddr pageEnd : Nat) :
    List Elf.Segment → Checked Bool
  | [] => .ok false
  | seg :: rest =>
      if asks seg ∧ seg.vaddr < pageEnd then do
        let stop ← Checked.add seg.vaddr seg.memsz
        if stop > pageVaddr then .ok true else askedChecked asks pageVaddr pageEnd rest
      else askedChecked asks pageVaddr pageEnd rest

def pageChecked (start phys : Nat) (segments : List Elf.Segment) (i : Nat) :
    Checked (Nat × Nat × BitVec 64) := do
  let offset ← Checked.mul i pageSize
  let pageVaddr ← Checked.add start offset
  let frameOffset ← Checked.mul i Pmm.frameSize
  let pagePhys ← Checked.add phys frameOffset
  let pageEnd ← Checked.add pageVaddr pageSize
  let writable ← askedChecked Elf.Segment.writable pageVaddr pageEnd segments
  let executable ← askedChecked Elf.Segment.executable pageVaddr pageEnd segments
  let flags := pagePresent ||| pageUser
  let flags := if writable then flags ||| pageWritable else flags
  .ok (pageVaddr, pagePhys, if executable then flags else flags ||| pageNx)

def copyChecked (start len phys : Nat) (data : Elf.Bytes) (seg : Elf.Segment) :
    Checked (Nat × Nat × Nat) := do
  let offset ← Checked.sub seg.vaddr start
  let destination ← Checked.add phys offset
  Checked.inside (seg.fileOffset + seg.filesz ≤ data.length)
  Checked.inside (offset + seg.filesz ≤ len)
  .ok (destination, seg.fileOffset, seg.filesz)

/-- The plan for a block that starts at `phys`; `none` when there is no segment. -/
def planChecked (phys : Nat) (segments : List Elf.Segment) (data : Elf.Bytes) :
    Checked (Option LoadPlan) := do
  match segmentStart segments with
  | none => .ok none
  | some start =>
      let stops ← segments.mapM (fun seg => do
        let stop ← Checked.add seg.vaddr seg.memsz
        alignUpChecked stop)
      match stops.max? with
      | none => .error .outOfRange
      | some stop =>
          let len ← Checked.sub stop start
          let pages ← (List.range (len / pageSize)).mapM (pageChecked start phys segments)
          let copies ← (segments.filter (fun seg => seg.filesz ≠ 0)).mapM
            (copyChecked start len phys data)
          .ok (some { start, len, pages, copies })

def plan (phys start len : Nat) (segments : List Elf.Segment) : LoadPlan :=
  { start
    len
    pages := (List.range (len / pageSize)).map (fun i =>
      (start + i * pageSize, phys + i * Pmm.frameSize,
        segmentFlags segments (start + i * pageSize)))
    copies := (segments.filter (fun seg => seg.filesz ≠ 0)).map (fun seg =>
      (phys + (seg.vaddr - start), seg.fileOffset, seg.filesz)) }

def mapPlanned (pml4 : Nat) : List (Nat × Nat × BitVec 64) → Loader Unit
  | [] => pure ()
  | (virt, phys, flags) :: rest => do
      mapOrRefuse pml4 virt phys pageSize flags "failed to map segment"
      mapPlanned pml4 rest

def copyPlanned (data : Elf.Bytes) : List (Nat × Nat × Nat) → Kernel Unit
  | [] => pure ()
  | (destination, offset, size) :: rest => do
      Machine.copyBytes destination ((data.drop offset).take size)
      copyPlanned data rest

theorem mapSegmentPages_planned (pml4 : Nat) (segments : List Elf.Segment) (count start phys : Nat) :
    mapSegmentPages pml4 segments (pagesFrom start count) phys =
      mapPlanned pml4 ((List.range count).map (fun i =>
        (start + i * pageSize, phys + i * Pmm.frameSize,
          segmentFlags segments (start + i * pageSize)))) := by
  induction count generalizing start phys with
  | zero => rfl
  | succ count ih =>
      have size : pageSize = 4096 := rfl
      have frame : Pmm.frameSize = 4096 := rfl
      rw [pagesFrom, mapSegmentPages, ih, List.range_succ_eq_map, List.map_cons, mapPlanned,
        List.map_map]
      have shift : ∀ base i : Nat, base + 4096 + i * 4096 = base + (i + 1) * 4096 := by
        intro base i
        omega
      simp only [size, frame, shift, Nat.zero_mul, Nat.add_zero, Function.comp_def,
        Nat.succ_eq_add_one]

theorem copySegments_planned (phys start : Nat) (data : Elf.Bytes) (segments : List Elf.Segment) :
    copySegments phys start data segments =
      copyPlanned data ((segments.filter (fun seg => seg.filesz ≠ 0)).map (fun seg =>
        (phys + (seg.vaddr - start), seg.fileOffset, seg.filesz))) := by
  induction segments with
  | nil => rfl
  | cons seg rest ih =>
      rw [copySegments, ih]
      by_cases empty : seg.filesz = 0
      · rw [if_pos empty, List.filter_cons_of_neg (by simpa using empty)]
      · rw [if_neg empty, List.filter_cons_of_pos (by simpa using empty), List.map_cons,
          copyPlanned]

/-- `load_segments` as it follows the plan for the block it is given. -/
def loadPlanned (pml4 start len : Nat) (segments : List Elf.Segment) (data : Elf.Bytes) :
    Loader Unit := do
  let phys ← allocBlock (len / pageSize)
  mapPlanned pml4 (plan phys start len segments).pages
  onMachine (Machine.zeroBytes phys len)
  onMachine (copyPlanned data (plan phys start len segments).copies)
  update (fun proc =>
    { proc with
      mappings := proc.mappings ++ [{ vaddr := start, phys, len, shmId := none }] })

theorem loadSegments_planned {start stop : Nat} {segments : List Elf.Segment} (pml4 : Nat)
    (data : Elf.Bytes) (span : Span segments start stop) :
    loadSegments pml4 segments data = loadPlanned pml4 start (stop - start) segments data := by
  unfold loadSegments loadPlanned
  rw [span.start, span.stop]
  dsimp only [plan]
  simp only [mapSegmentPages_planned, copySegments_planned]

theorem plan_pages_virt (phys start len : Nat) (segments : List Elf.Segment) :
    (plan phys start len segments).pages.map Prod.fst = pagesFrom start (len / pageSize) := by
  have virt : ∀ count first, (List.range count).map (fun i => first + i * pageSize) =
      pagesFrom first count := by
    intro count
    induction count with
    | zero => exact fun _ => rfl
    | succ count ih =>
        intro first
        rw [pagesFrom, ← ih, List.range_succ_eq_map, List.map_cons, List.map_map, Nat.zero_mul,
          Nat.add_zero]
        congr 1
        refine List.map_congr_left (fun i _ => ?_)
        simp only [Function.comp_apply, Nat.succ_eq_add_one, Nat.add_mul, Nat.one_mul]
        omega
  rw [← virt]
  dsimp only [plan]
  rw [List.map_map]
  rfl

section

variable {heapStart heapEnd start stop phys : Nat} {segments : List Elf.Segment}
  {seg : Elf.Segment} {data : Elf.Bytes}

theorem alignUpChecked_ok {value : Nat} (below : value ≤ identityMapEnd) :
    alignUpChecked value = .ok (alignUp value) := by
  have limit : Checked.limit = 18446744073709551616 := rfl
  have word : wordLimit = 18446744073709551616 := rfl
  have fourGiB : identityMapEnd = 4294967296 := rfl
  have size : pageSize = 4096 := rfl
  unfold alignUpChecked
  rw [add_ok (by omega), ok_bind, sub_ok (by omega), ok_bind, size,
    alignUp, Nat.mod_eq_of_lt (by omega)]
  rfl

theorem askedChecked_ok {asks : Elf.Segment → Bool} {page : Nat}
    (accepted : ∀ seg, seg ∈ segments → Accepted heapStart heapEnd seg) :
    askedChecked asks page (page + pageSize) segments =
      .ok (segments.any (fun seg => asks seg &&
        decide (seg.vaddr < page + pageSize ∧ seg.vaddr + seg.memsz > page))) := by
  induction segments with
  | nil => rfl
  | cons seg rest ih =>
      have limit : Checked.limit = 18446744073709551616 := rfl
      have fourGiB : identityMapEnd = 4294967296 := rfl
      have below := (accepted seg List.mem_cons_self).below
      have later := ih (fun other mem => accepted other (List.mem_cons_of_mem seg mem))
      rw [askedChecked, later, List.any_cons]
      by_cases wanted : asks seg ∧ seg.vaddr < page + pageSize
      · rw [if_pos wanted, add_ok (by omega), ok_bind]
        by_cases reaches : seg.vaddr + seg.memsz > page
        · rw [if_pos reaches, wanted.1, decide_eq_true ⟨wanted.2, reaches⟩]
          rfl
        · rw [if_neg reaches, decide_eq_false (fun both => reaches both.2), Bool.and_false,
            Bool.false_or]
      · rw [if_neg wanted]
        have missed : (asks seg && decide (seg.vaddr < page + pageSize ∧
            seg.vaddr + seg.memsz > page)) = false := by
          rw [Bool.and_eq_false_imp]
          intro asking
          exact decide_eq_false (fun both => wanted ⟨asking, both.1⟩)
        rw [missed, Bool.false_or]

section

variable (span : Span segments start stop)
  (accepted : ∀ seg, seg ∈ segments → Accepted heapStart heapEnd seg)
  (block : phys + (stop - start) ≤ identityMapEnd)
include span accepted block

theorem pageChecked_ok {i : Nat} (inside : i < (stop - start) / pageSize) :
    pageChecked start phys segments i =
      .ok (start + i * pageSize, phys + i * Pmm.frameSize,
        segmentFlags segments (start + i * pageSize)) := by
  have limit : Checked.limit = 18446744073709551616 := rfl
  have fourGiB : identityMapEnd = 4294967296 := rfl
  have size : pageSize = 4096 := rfl
  have frame : Pmm.frameSize = 4096 := rfl
  have upper := span.stop_le accepted
  rw [size] at inside
  unfold pageChecked
  rw [mul_ok (by rw [size]; omega), ok_bind,
    add_ok (by rw [size]; omega), ok_bind,
    mul_ok (by rw [frame]; omega), ok_bind,
    add_ok (by rw [frame]; omega), ok_bind,
    add_ok (by rw [size]; omega), ok_bind,
    askedChecked_ok accepted, ok_bind, askedChecked_ok accepted, ok_bind]
  rfl

theorem copyChecked_ok (mem : seg ∈ segments) (fits : seg.filesz ≤ seg.memsz)
    (inFile : seg.fileOffset + seg.filesz ≤ data.length) :
    copyChecked start (stop - start) phys data seg =
      .ok (phys + (seg.vaddr - start), seg.fileOffset, seg.filesz) := by
  have limit : Checked.limit = 18446744073709551616 := rfl
  have fourGiB : identityMapEnd = 4294967296 := rfl
  have lower : start ≤ seg.vaddr := (span.start_le mem).trans (alignDown_le _)
  have upper := (accepted seg mem).le_pageEnd.trans (span.le_stop mem)
  unfold copyChecked
  rw [sub_ok lower, ok_bind, add_ok (by omega), ok_bind,
    inside_ok inFile, ok_bind, inside_ok (by omega), ok_bind]

theorem planChecked_ok
    (sized : ∀ seg, seg ∈ segments → seg.filesz ≤ seg.memsz ∧
      seg.fileOffset + seg.filesz ≤ data.length) :
    planChecked phys segments data = .ok (some (plan phys start (stop - start) segments)) := by
  have limit : Checked.limit = 18446744073709551616 := rfl
  have fourGiB : identityMapEnd = 4294967296 := rfl
  have ordered := span.start_lt accepted
  have stops : segments.mapM (fun seg => do
      let stop ← Checked.add seg.vaddr seg.memsz
      alignUpChecked stop) =
      .ok (segments.map (fun seg => alignUp (seg.vaddr + seg.memsz))) := by
    refine mapM_ok (fun seg mem => ?_)
    have below := (accepted seg mem).below
    rw [add_ok (by omega), ok_bind, alignUpChecked_ok below]
  have pages : (List.range ((stop - start) / pageSize)).mapM (pageChecked start phys segments) =
      .ok (plan phys start (stop - start) segments).pages :=
    mapM_ok (fun i mem => pageChecked_ok span accepted block (List.mem_range.mp mem))
  have copies : (segments.filter (fun seg => seg.filesz ≠ 0)).mapM
      (copyChecked start (stop - start) phys data) =
      .ok (plan phys start (stop - start) segments).copies := by
    refine mapM_ok (fun seg mem => ?_)
    have mem' := (List.mem_filter.mp mem).1
    exact copyChecked_ok span accepted block mem' (sized seg mem').1
      (sized seg mem').2
  have last : (segments.map (fun seg => alignUp (seg.vaddr + seg.memsz))).max? =
      some stop := span.stop
  unfold planChecked
  rw [span.start]
  dsimp only
  rw [stops, ok_bind, last]
  dsimp only
  rw [sub_ok (by omega), ok_bind, pages, ok_bind, copies, ok_bind]
  rfl

end

end

theorem block_below {pmm after : Pmm} (bounded : pmm.Bounded) {pages phys : Nat}
    (given : pmm.allocContiguous pages = (some phys, after)) :
    phys + pages * pageSize ≤ identityMapEnd := by
  obtain ⟨positive, free, -, -, -⟩ := Pmm.allocContiguous_some given
  have last := (bounded.free_lt (free (pages - 1) (by omega))).1
  have frame : Pmm.frameSize = 4096 := rfl
  have size : pageSize = 4096 := rfl
  have top : Pmm.maxPhysMem = 268435456 := rfl
  have fourGiB : identityMapEnd = 4294967296 := rfl
  rw [frame, top] at last
  rw [size, fourGiB]
  omega

/-- The parser returns on every file without a panic; what it accepts is well formed, and if the
validator accepts it too, wherever a bias puts it, the loader follows a plan and computes no
address of it that wraps or leaves the block or the file. -/
theorem parse_and_load_safe (data : Elf.Bytes) :
    Routine.Completes (Elf.parseChecked data) (Elf.parse data) ∧
      ∀ prog, Elf.parse data = .ok prog → Elf.WellFormed data prog ∧
        ∀ bias heapStart heapEnd,
          validateSegments heapStart heapEnd (applyBias bias prog).segments = .ok () →
          ∃ start stop, Span (applyBias bias prog).segments start stop ∧
            (∀ pml4, loadSegments pml4 (applyBias bias prog).segments data =
              loadPlanned pml4 start (stop - start) (applyBias bias prog).segments data) ∧
            ∀ (pmm after : Pmm) (phys : Nat), pmm.Bounded →
              pmm.allocContiguous ((stop - start) / pageSize) = (some phys, after) →
              planChecked phys (applyBias bias prog).segments data =
                .ok (some (plan phys start (stop - start) (applyBias bias prog).segments)) := by
  refine ⟨Elf.parse_completes data, fun prog parsed => ?_⟩
  have wellFormed := Elf.parse_wellFormed parsed
  refine ⟨wellFormed, fun bias heapStart heapEnd validated => ?_⟩
  have accepted := validateSegments_ok validated
  obtain ⟨start, stop, span⟩ := Span.exists_of_ne_nil
    (@System.applyBias_ne_nil bias prog wellFormed.nonempty)
  refine ⟨start, stop, span, fun pml4 => loadSegments_planned pml4 data span,
    fun pmm after phys bounded given => ?_⟩
  have startAligned := span.start_aligned
  have stopAligned := span.stop_aligned
  have whole : (stop - start) / pageSize * pageSize = stop - start :=
    Nat.div_mul_cancel (Nat.dvd_of_mod_eq_zero (show (stop - start) % 4096 = 0 by omega))
  have block := block_below bounded given
  rw [whole] at block
  refine planChecked_ok span accepted block (fun seg mem => ?_)
  unfold applyBias at mem
  split at mem
  · obtain ⟨original, mem', rfl⟩ := List.mem_map.mp mem
    exact (wellFormed.sized original mem').2
  · exact (wellFormed.sized seg mem).2

/-- The two segments of `sharedImage` lie in one page and the next, with bytes of the file in
both: the plan maps two pages and copies twice. -/
theorem parse_and_load_safe_shared : ∃ phys,
    (∀ pml4, loadSegments pml4 Elf.sharedSegments Elf.sharedImage =
      loadPlanned pml4 0x1000000 0x2000 Elf.sharedSegments Elf.sharedImage) ∧
    planChecked phys Elf.sharedSegments Elf.sharedImage =
      .ok (some (plan phys 0x1000000 0x2000 Elf.sharedSegments)) := by
  obtain ⟨-, safe⟩ := parse_and_load_safe Elf.sharedImage
  obtain ⟨-, loads⟩ := safe Elf.sharedProgram (by decide +kernel)
  obtain ⟨start, stop, span, planned, checked⟩ := loads 0 0x4000000 0x6800000 (by decide +kernel)
  have start' : start = 0x1000000 := Option.some.inj (span.start.symm.trans (by decide +kernel))
  have stop' : stop = 0x1002000 := Option.some.inj (span.stop.symm.trans (by decide +kernel))
  subst start' stop'
  let pmm : Pmm := { bitmap := fun _ => 0#8, lastUsableFrame := 100 }
  have free : pmm.FreeRun 0 2 := by
    intro index few
    refine ⟨index, by rw [Nat.zero_add], show index ≤ 100 by omega, ?_⟩
    unfold Pmm.frameIsFree
    simp [pmm]
  obtain ⟨phys, after, given, -⟩ := Pmm.allocContiguous_of_freeRun (by decide) free
  have bounded : pmm.Bounded := show 100 < Pmm.frameCount by decide
  exact ⟨phys, planned, checked pmm after phys bounded given⟩

end Loader
end MachaOS
