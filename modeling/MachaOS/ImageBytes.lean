/-
The image `load_segments` builds.

The pages of the span are mapped one by one with the rights of the segments
that touch them, the block behind them is cleared, and the file bytes of every
segment are copied to its offset in the block.  Where the segments do not
overlap, the outcome is the image the file describes, read through the page
table or through the record of the process.
-/

import MachaOS.Launching
import MachaOS.Process.Setting
import MachaOS.SegmentPlan
import Mathlib.Data.List.Pairwise

namespace MachaOS

open List
open Fallible Paging

namespace Elf.Segment

def Holds (seg : Segment) (addr : Nat) : Prop :=
  seg.vaddr ≤ addr ∧ addr < seg.vaddr + seg.memsz

def Apart (seg other : Segment) : Prop :=
  ∀ addr, ¬ (seg.Holds addr ∧ other.Holds addr)

instance : Std.Symm Apart :=
  ⟨fun _ _ apart addr both => apart addr ⟨both.2, both.1⟩⟩

/-- The segment and the page at `page` have a byte in common. -/
def Meets (seg : Segment) (page : Nat) : Prop :=
  ∃ addr, seg.Holds addr ∧ page ≤ addr ∧ addr < page + pageSize

/-- What the file says byte `i` of the segment is. -/
def contents (seg : Segment) (data : Bytes) (i : Nat) : Option (BitVec 8) :=
  if i < seg.filesz then data[seg.fileOffset + i]? else some 0#8

theorem meets_iff {seg : Segment} {page : Nat} (nonempty : 0 < seg.memsz) :
    seg.Meets page ↔
      seg.vaddr < page + pageSize ∧ seg.vaddr + seg.memsz > page := by
  have size : pageSize = 4096 := rfl
  unfold Meets Holds
  constructor
  · rintro ⟨addr, holds, lower, upper⟩
    omega
  · rintro ⟨before, behind⟩
    exact ⟨max page seg.vaddr, by omega, by omega, by omega⟩

end Elf.Segment

namespace Loader

def readThrough (mem : ByteMemory) (pml4 addr : Nat) : Option (BitVec 8) :=
  (walk mem pml4 addr).map (fun leaf => mem (leaf.phys + addr % 4096))

/-- The byte the kernel reads for an address of the process through `translate`. -/
def readTranslated (mem : ByteMemory) (proc : Process) (addr : Nat) : Option (BitVec 8) :=
  (proc.translateLocal addr 1).map (fun place => mem place)

theorem sized_applyBias {data : Elf.Bytes} {prog : Elf.Program} (bias : Nat)
    (wellFormed : Elf.WellFormed data prog) :
    ∀ seg, seg ∈ (applyBias bias prog).segments → seg.filesz ≤ seg.memsz ∧
      seg.fileOffset + seg.filesz ≤ data.length := by
  intro seg member
  unfold applyBias at member
  split at member
  · obtain ⟨original, member', rfl⟩ := mem_map.mp member
    exact (wellFormed.sized original member').2
  · exact (wellFormed.sized seg member).2

section

variable {segments : List Elf.Segment} {page : Nat}

theorem segmentFlags_bits (segments : List Elf.Segment) (page : Nat) :
    (segmentFlags segments page).getLsbD 1 = segments.any (fun seg => seg.writable &&
      decide (seg.vaddr < page + pageSize ∧ seg.vaddr + seg.memsz > page)) ∧
    (segmentFlags segments page).getLsbD 63 = !segments.any (fun seg => seg.executable &&
      decide (seg.vaddr < page + pageSize ∧ seg.vaddr + seg.memsz > page)) := by
  unfold segmentFlags
  dsimp only
  generalize segments.any (fun seg => seg.writable &&
    decide (seg.vaddr < page + pageSize ∧ seg.vaddr + seg.memsz > page)) = written
  generalize segments.any (fun seg => seg.executable &&
    decide (seg.vaddr < page + pageSize ∧ seg.vaddr + seg.memsz > page)) = executed
  cases written <;> cases executed <;> decide

theorem any_meets {asks : Elf.Segment → Bool}
    (nonempty : ∀ seg, seg ∈ segments → 0 < seg.memsz) :
    segments.any (fun seg => asks seg &&
        decide (seg.vaddr < page + pageSize ∧ seg.vaddr + seg.memsz > page)) = true ↔
      ∃ seg, seg ∈ segments ∧ asks seg = true ∧ seg.Meets page := by
  rw [any_eq_true]
  constructor
  · rintro ⟨seg, member, asked⟩
    rw [Bool.and_eq_true, decide_eq_true_eq] at asked
    exact ⟨seg, member, asked.1, (Elf.Segment.meets_iff (nonempty seg member)).mpr asked.2⟩
  · rintro ⟨seg, member, asked, meets⟩
    refine ⟨seg, member, ?_⟩
    rw [Bool.and_eq_true, decide_eq_true_eq]
    exact ⟨asked, (Elf.Segment.meets_iff (nonempty seg member)).mp meets⟩

end

namespace Setting

variable {reach : Nat → Prop} {space : Space} {machine : Machine} {proc : Process}

theorem mapSegmentPages {page phys pages : Nat} (segments : List Elf.Segment)
    (setting : Setting reach space machine) (fits : page + pages ≤ 2 ^ 20)
    (aligned : phys % 4096 = 0) (bounded : phys + pages * 4096 ≤ 2 ^ 52) :
    Yields (Loader.mapSegmentPages space.pml4 segments (pagesFrom (page * 4096) pages) phys)
      (machine, proc)
      (fun _ state => ∃ fresh after, state.2 = { proc with frames := proc.frames ++ fresh } ∧
        Setting reach after state.1 ∧ Extends space after machine state.1 fresh ∧
        ∀ other, other < 2 ^ 20 → after.view other =
          if page ≤ other ∧ other < page + pages then
            some (leafFor (segmentFlags segments (other * 4096)) (phys + (other - page) * 4096))
          else space.view other)
      (fun stop _ => (∃ message, stop = .refused message) ∧
        ¬ Pmm.Stocked (tablesNeeded space page pages) machine.pmm) := by
  have size : pageSize = 4096 := rfl
  have fourGiB : identityMapEnd = 4294967296 := rfl
  induction pages generalizing page phys space machine proc with
  | zero =>
      refine ⟨[], space, ?_, setting, Extends.refl space machine, ?_⟩
      · rw [append_nil]
      · intro other inside
        rw [if_neg (by omega)]
  | succ pages ih =>
      have one : pageSize / 4096 = 1 := rfl
      have pageOf : page * 4096 / 4096 = page := by omega
      have single : tablesNeeded space page 1 =
          if space.pt (page / 512) = none then 1 else 0 := by
        unfold tablesNeeded
        rw [if_neg (by decide), Nat.add_sub_cancel, Nat.sub_self, Nat.zero_add]
      have enough : tablesNeeded space page 1 ≤ tablesNeeded space page (pages + 1) := by
        rw [single]
        unfold tablesNeeded
        rw [if_neg (Nat.succ_ne_zero pages)]
        omega
      rw [pagesFrom, Loader.mapSegmentPages]
      have first := @mapOrRefuse reach space machine proc (page * 4096) phys pageSize
        (segmentFlags segments (page * 4096)) setting ⟨by omega, rfl, by decide, by omega⟩ aligned
        (by omega) "failed to map segment"
      rw [pageOf, one] at first
      refine first.bind_with ?_ (by
        rintro stop state ⟨rfl, short⟩
        exact ⟨⟨_, rfl⟩, fun stocked => short (stocked.of_le enough)⟩)
      rintro - ⟨machine₁, proc₁⟩ ⟨early, middle, rfl, setting₁, extends₁, views₁, taken, few,
        drawn⟩
      have opened : middle.pt (page / 512) ≠ none := views₁.tables 0 (by decide)
      have step := @tablesNeeded_step space middle page pages opened
      rw [← single] at step
      have next : page * 4096 + pageSize = (page + 1) * 4096 := by omega
      have frameSize : Pmm.frameSize = 4096 := rfl
      rw [next, frameSize, ← extends₁.pml4]
      refine (ih setting₁ (by omega) (by omega) (by omega)).weaken ?_ ?_
      · rintro - ⟨machine₂, proc₂⟩ ⟨late, after, rfl, setting₂, extends₂, views₂⟩
        refine ⟨early ++ late, after, ?_, setting₂, extends₁.trans extends₂, ?_⟩
        · rw [append_assoc]
        · intro other inside
          rw [views₂ other inside, views₁.views other inside]
          by_cases here : other = page
          · subst here
            rw [if_neg (by omega), if_pos (by omega), if_pos (by omega), Nat.sub_self, Nat.zero_mul]
          · by_cases later : page + 1 ≤ other ∧ other < page + 1 + pages
            · have place : phys + 4096 + (other - (page + 1)) * 4096 =
                  phys + (other - page) * 4096 := by omega
              rw [if_pos later, if_pos (by omega), place]
            · rw [if_neg later, if_neg (by omega), if_neg (by omega)]
      · rintro stop state ⟨refused, short⟩
        refine ⟨refused, fun stocked => short ?_⟩
        dsimp only at drawn
        rw [drawn]
        exact (stocked.of_le (by omega)).allocs

def chunk (phys start : Nat) (data : Elf.Bytes) (seg : Elf.Segment) :
    Nat × List (BitVec 8) :=
  (phys + (seg.vaddr - start), (data.drop seg.fileOffset).take seg.filesz)

theorem copySegments {segments : List Elf.Segment} {phys start pages : Nat} {data : Elf.Bytes}
    (setting : Setting reach space machine) (aligned : phys % 4096 = 0)
    (reserved : ∀ frame, frame ∈ Pmm.frameRun phys pages → Reserved reach space machine frame)
    (inside : ∀ seg, seg ∈ segments →
      seg.vaddr - start + seg.filesz ≤ pages * 4096) :
    Loader.copySegments phys start data segments machine =
        (.ok (), { machine with
          mem := machine.mem.writeChunks (segments.map (chunk phys start data)) }) ∧
      Setting reach space { machine with
        mem := machine.mem.writeChunks (segments.map (chunk phys start data)) } ∧
      Space.AgreeOutside (fun frame => frame ∈ Pmm.frameRun phys pages) machine.mem
        (machine.mem.writeChunks (segments.map (chunk phys start data))) := by
  induction segments generalizing machine with
  | nil => exact ⟨rfl, setting, Space.AgreeOutside.refl _ _⟩
  | cons seg rest ih =>
      have later := fun other member => inside other (mem_cons_of_mem seg member)
      have short : ((data.drop seg.fileOffset).take seg.filesz).length ≤ seg.filesz :=
        length_take_le _ _
      rw [Loader.copySegments, map_cons, ByteMemory.writeChunks]
      by_cases empty : seg.filesz = 0
      · have nothing : machine.mem.writeBytes (chunk phys start data seg).1
            (chunk phys start data seg).2 = machine.mem := by
          unfold chunk
          rw [empty, take_zero, ByteMemory.writeBytes_nil]
        rw [if_pos empty, nothing]
        exact ih setting reserved later
      · have within := inside seg mem_cons_self
        obtain ⟨copied, setting₁⟩ := @copyBytes reach space machine
          (phys + (seg.vaddr - start)) ((data.drop seg.fileOffset).take seg.filesz)
          setting (fun frame touches =>
            reserved frame (Touches.mem_frameRun aligned (by omega) touches))
        have here := (agreeOutside_writeBytes machine.mem (phys + (seg.vaddr - start))
          ((data.drop seg.fileOffset).take seg.filesz)).mono
            (fun frame touches => @Touches.mem_frameRun phys pages (seg.vaddr - start) _ frame
              aligned (by omega) touches)
        obtain ⟨ran, setting₂, rest⟩ := ih setting₁ (fun frame member =>
          ⟨(reserved frame member).reached, (reserved frame member).apart,
            (reserved frame member).used⟩) later
        rw [if_neg empty, bind_of_ok copied]
        exact ⟨ran, setting₂, here.trans rest⟩

end Setting

/-! ### The image -/

def Unrecorded (mappings : List Mapping) (addr : Nat) : Prop :=
  ∀ mapping, mapping ∈ mappings → ¬ mapping.Covers addr

/-- The span of the segments is backed from `phys` on by the image the file describes;
`earlier` is what the process had on record before. -/
structure Imaged (reach : Nat → Prop) (segments : List Elf.Segment) (data : Elf.Bytes)
    (start stop phys : Nat) (earlier : List Mapping) (space : Space) (machine : Machine)
    (proc : Process) : Prop where
  setting : Setting reach space machine
  views : ∀ page, start ≤ page * 4096 → page * 4096 < stop → space.view page =
    some (leafFor (segmentFlags segments (page * 4096)) (phys + (page * 4096 - start)))
  reserved : ∀ frame, frame ∈ Pmm.frameRun phys ((stop - start) / 4096) →
    Reserved reach space machine frame
  bytes : ∀ seg, seg ∈ segments → ∀ i, i < seg.filesz →
    machine.mem (phys + (seg.vaddr + i - start)) = data.getD (seg.fileOffset + i) 0#8
  zeros : ∀ addr, start ≤ addr → addr < stop →
    (∀ seg, seg ∈ segments →
      ¬ (seg.vaddr ≤ addr ∧ addr < seg.vaddr + seg.filesz)) →
    machine.mem (phys + (addr - start)) = 0#8
  recorded : ∀ addr, start ≤ addr → addr < stop → Unrecorded earlier addr →
    proc.translateLocal addr 1 = some (phys + (addr - start))

def EnoughFrames (space : Space) (start stop : Nat) (pmm : Pmm) : Prop :=
  ∃ phys after, pmm.allocContiguous ((stop - start) / pageSize) = (some phys, after) ∧
    after.Stocked (tablesNeeded space (start / 4096) ((stop - start) / pageSize))

section

variable {reach : Nat → Prop} {space : Space} {machine : Machine} {proc : Process}
  {segments : List Elf.Segment} {data : Elf.Bytes} {start stop heapStart heapEnd : Nat}

theorem chunks_apart {phys : Nat} (apart : segments.Pairwise Elf.Segment.Apart)
    (above : ∀ seg, seg ∈ segments → start ≤ seg.vaddr)
    (sized : ∀ seg, seg ∈ segments → 0 < seg.memsz ∧ seg.filesz ≤ seg.memsz) :
    (segments.map (Setting.chunk phys start data)).Pairwise ByteMemory.ChunksApart := by
  rw [pairwise_map]
  refine apart.imp_of_mem ?_
  intro seg other member isOther separate
  have short : ∀ seg : Elf.Segment,
      ((data.drop seg.fileOffset).take seg.filesz).length ≤ seg.filesz :=
    fun seg => length_take_le _ _
  have first := short seg
  have second := short other
  have lower := above seg member
  have lower' := above other isOther
  have fits := sized seg member
  have fits' := sized other isOther
  have noCommon := separate (max seg.vaddr other.vaddr)
  unfold ByteMemory.ChunksApart Setting.chunk
  unfold Elf.Segment.Holds at noCommon
  dsimp only
  omega

theorem contents_writeChunks {phys : Nat} (mem : ByteMemory)
    (apart : segments.Pairwise Elf.Segment.Apart)
    (within : ∀ seg, seg ∈ segments → start ≤ seg.vaddr ∧
      seg.vaddr + seg.memsz ≤ stop)
    (sized : ∀ seg, seg ∈ segments → 0 < seg.memsz ∧
      seg.filesz ≤ seg.memsz ∧ seg.fileOffset + seg.filesz ≤ data.length) :
    let built := (mem.writeBytes phys (List.replicate (stop - start) 0#8)).writeChunks
      (segments.map (Setting.chunk phys start data))
    (∀ seg, seg ∈ segments → ∀ i, i < seg.filesz →
      built (phys + (seg.vaddr + i - start)) = data.getD (seg.fileOffset + i) 0#8) ∧
    ∀ addr, start ≤ addr → addr < stop →
      (∀ seg, seg ∈ segments →
        ¬ (seg.vaddr ≤ addr ∧ addr < seg.vaddr + seg.filesz)) →
      built (phys + (addr - start)) = 0#8 := by
  intro built
  constructor
  · intro seg member i inside
    obtain ⟨nonempty, fits, inFile⟩ := sized seg member
    have lower := (within seg member).1
    have whole : ((data.drop seg.fileOffset).take seg.filesz).length = seg.filesz := by
      rw [length_take, length_drop]
      omega
    have found := @ByteMemory.writeChunks_inside
      (mem.writeBytes phys (List.replicate (stop - start) 0#8))
      (segments.map (Setting.chunk phys start data)) (Setting.chunk phys start data seg)
      (chunks_apart apart (fun other isOther => (within other isOther).1)
        (fun other isOther => ⟨(sized other isOther).1, (sized other isOther).2.1⟩))
      (mem_map_of_mem member) i
      (show i < ((data.drop seg.fileOffset).take seg.filesz).length by omega)
    have place : phys + (seg.vaddr + i - start) =
        (Setting.chunk phys start data seg).1 + i := by
      unfold Setting.chunk
      dsimp only
      omega
    rw [place]
    refine found.trans ?_
    unfold Setting.chunk
    dsimp only
    rw [getD_eq_getElem?_getD, List.getElem?_take_of_lt inside, List.getElem?_drop,
      getD_eq_getElem?_getD]
  · intro addr lower upper outside
    have untouched : built (phys + (addr - start)) =
        mem.writeBytes phys (List.replicate (stop - start) 0#8) (phys + (addr - start)) := by
      refine ByteMemory.writeChunks_outside ?_
      intro chunk member
      obtain ⟨seg, isSegment, rfl⟩ := mem_map.mp member
      have short : ((data.drop seg.fileOffset).take seg.filesz).length ≤ seg.filesz :=
        length_take_le _ _
      have missed := outside seg isSegment
      have above := (within seg isSegment).1
      unfold Setting.chunk
      dsimp only
      omega
    have cleared : addr - start < (List.replicate (stop - start) 0#8).length := by
      rw [length_replicate]
      omega
    rw [untouched, ByteMemory.writeBytes_inside mem phys cleared, getD_eq_getElem?_getD,
      List.getElem?_replicate]
    split <;> rfl

theorem translateLocal_append {mapping : Mapping} {mappings : List Mapping} {addr : Nat}
    (unrecorded : Unrecorded mappings addr)
    (covers : mapping.Covers addr) (below : addr + 1 < wordLimit) :
    ({ proc with mappings := mappings ++ [mapping] } : Process).translateLocal addr 1 =
      some (mapping.phys + (addr - mapping.vaddr)) := by
  obtain ⟨lower, upper⟩ := covers
  have none : mappings.find? (fun m => decide (m.vaddr ≤ addr ∧ addr + 1 ≤ m.vaddr + m.len)) =
      none := by
    rw [List.find?_eq_none]
    intro other member found
    rw [decide_eq_true_eq] at found
    exact unrecorded other member ⟨found.1, by omega⟩
  unfold Process.translateLocal
  rw [if_neg (by omega), List.find?_append, none, Option.none_or, List.find?_cons_of_pos]
  · rfl
  · rw [decide_eq_true_eq]
    exact ⟨lower, by omega⟩

theorem Setting.loadSegments (setting : Setting reach space machine)
    (span : Span segments start stop)
    (accepted : ∀ seg, seg ∈ segments → Accepted heapStart heapEnd seg)
    (sized : ∀ seg, seg ∈ segments → seg.filesz ≤ seg.memsz ∧
      seg.fileOffset + seg.filesz ≤ data.length)
    (apart : segments.Pairwise Elf.Segment.Apart) :
    Yields (Loader.loadSegments space.pml4 segments data) (machine, proc)
      (fun _ state => ∃ phys after, after.pml4 = space.pml4 ∧
        Imaged reach segments data start stop phys proc.mappings after state.1 state.2 ∧
        (∀ kept, (∀ frame, kept frame → Reserved reach space machine frame) →
          Setting.Keeping reach kept machine.mem after state.1) ∧
        (∀ page, page < 2 ^ 20 → ¬ (start ≤ page * 4096 ∧ page * 4096 < stop) →
          after.view page = space.view page) ∧
        state.2.mappings = proc.mappings ++ [Laid.imageMapping start stop phys])
      (fun failure _ => (∃ message, failure = .refused message) ∧
        ¬ EnoughFrames space start stop machine.pmm) := by
  have size : pageSize = 4096 := rfl
  have fourGiB : identityMapEnd = 4294967296 := rfl
  have word : wordLimit = 18446744073709551616 := rfl
  have startAligned := span.start_aligned
  have stopAligned := span.stop_aligned
  have ordered := span.start_lt accepted
  have below := span.stop_le accepted
  have whole : (stop - start) / pageSize * 4096 = stop - start := by
    rw [size]
    omega
  have pages : start / 4096 * 4096 = start :=
    Nat.div_mul_cancel (Nat.dvd_of_mod_eq_zero startAligned)
  have room : start / 4096 + (stop - start) / pageSize ≤ 2 ^ 20 := by omega
  have within : ∀ seg, seg ∈ segments → start ≤ seg.vaddr ∧
      seg.vaddr + seg.memsz ≤ stop := fun seg member =>
    ⟨(span.start_le member).trans (alignDown_le _),
      (accepted seg member).le_pageEnd.trans (span.le_stop member)⟩
  unfold Loader.loadSegments
  rw [span.start, span.stop]
  dsimp only
  refine setting.allocBlock.bind_with ?_ (by
    rintro failure state ⟨refused, missing⟩
    refine ⟨refused, ?_⟩
    rintro ⟨phys, after, given, -⟩
    rw [given] at missing
    cases missing)
  rintro phys state ⟨pmm, given, rfl, setting₁, block, fewer⟩
  obtain ⟨positive, -, -, aligned, -⟩ := Pmm.allocContiguous_some given
  have high : phys + (stop - start) / pageSize * 4096 ≤ identityMapEnd := by
    have last := (block (phys + ((stop - start) / pageSize - 1) * 4096)
      (Pmm.mem_frameRun.mpr ⟨_, by omega, rfl⟩)).2.reached
    have bounded := setting.editing.bounded _ last
    have frameAligned := setting.editing.aligned _ last
    omega
  have bounded : phys + (stop - start) / pageSize * 4096 ≤ 2 ^ 52 := by omega
  have mapped := @Setting.mapSegmentPages reach space { machine with pmm }
    { proc with frames := proc.frames ++ Pmm.frameRun phys ((stop - start) / pageSize) }
    (start / 4096) phys ((stop - start) / pageSize) segments setting₁ room aligned bounded
  rw [pages] at mapped
  refine mapped.bind_with ?_ (by
    rintro failure state ⟨refused, short⟩
    refine ⟨refused, ?_⟩
    rintro ⟨other, after, again, stocked⟩
    rw [given] at again
    cases again
    exact short stocked)
  rintro - ⟨machine₂, proc₂⟩ ⟨fresh, after, rfl, setting₂, extends₂, views⟩
  dsimp only at setting₂ extends₂
  have reserved : ∀ frame, frame ∈ Pmm.frameRun phys ((stop - start) / pageSize) →
      Reserved reach after machine₂ frame :=
    fun frame member => Setting.reserved_extend (block frame member).2 extends₂
  obtain ⟨cleared, setting₃⟩ := @Setting.zeroBytes reach after machine₂ phys (stop - start) setting₂
    (fun frame touches => reserved frame (by
      have inside := @Touches.mem_frameRun phys ((stop - start) / pageSize) 0 (stop - start) frame
        aligned (by omega)
      exact inside touches))
  obtain ⟨copied, setting₄, written⟩ := @Setting.copySegments reach after _ segments phys start
    ((stop - start) / pageSize) data setting₃ aligned
    (fun frame member => ⟨(reserved frame member).reached, (reserved frame member).apart,
      (reserved frame member).used⟩)
    (fun seg member => by
      have inSpan := within seg member
      have fits := (sized seg member).1
      omega)
  refine Yields.after (onMachine_of_ok cleared) (Yields.after (onMachine_of_ok copied) ?_)
  refine yields_of_ok rfl ⟨phys, after, extends₂.pml4, ?_, ?_, ?_, rfl⟩
  rotate_left
  · intro kept isReserved
    have notBlock : ∀ frame, frame ∈ Pmm.frameRun phys ((stop - start) / pageSize) →
        ¬ kept frame :=
      fun frame member isKept => (isReserved frame isKept).used (block frame member).1
    have mapped := ((Setting.Keeping.start isReserved).take fewer).extend setting₁ extends₂
    refine Setting.Keeping.write (Setting.Keeping.write mapped setting₂
      (agreeOutside_writeBytes machine₂.mem phys (List.replicate (stop - start) 0#8)) ?_) setting₃
      written notBlock
    intro frame touches
    rw [length_replicate] at touches
    have inside := @Touches.mem_frameRun phys ((stop - start) / pageSize) 0 (stop - start) frame
      aligned (by omega)
    exact notBlock frame (inside touches)
  · intro page inside outside
    rw [views page inside, if_neg (by omega)]
  obtain ⟨bytes, zeros⟩ := @contents_writeChunks segments data start stop phys machine₂.mem apart
    within (fun seg member => ⟨(accepted seg member).nonempty, sized seg member⟩)
  exact
    { setting := setting₄
      views := by
        intro page lower upper
        have place : phys + (page - start / 4096) * 4096 = phys + (page * 4096 - start) := by omega
        rw [views page (by omega), if_pos (by omega), place]
      reserved := fun frame member => ⟨(reserved frame member).reached,
        (reserved frame member).apart, (reserved frame member).used⟩
      bytes := bytes
      zeros := zeros
      recorded := by
        intro addr lower upper unrecorded
        have covers : (Laid.imageMapping start stop phys).Covers addr :=
          ⟨lower, show addr < start + (stop - start) by omega⟩
        exact @translateLocal_append { proc with
            frames := proc.frames ++ Pmm.frameRun phys ((stop - start) / pageSize) ++ fresh }
          (Laid.imageMapping start stop phys) proc.mappings addr
          unrecorded covers (by omega) }

def Stored (reach : Nat → Prop) (space : Space) (machine : Machine) (addr : Nat)
    (byte : BitVec 8) : Prop :=
  ∃ leaf, space.view (addr / 4096) = some leaf ∧ Reserved reach space machine leaf.phys ∧
    machine.mem (leaf.phys + addr % 4096) = byte

def Loaded (reach : Nat → Prop) (segments : List Elf.Segment) (data : Elf.Bytes) (space : Space)
    (machine : Machine) : Prop :=
  ∀ seg, seg ∈ segments → ∀ i, i < seg.filesz →
    Stored reach space machine (seg.vaddr + i) (data.getD (seg.fileOffset + i) 0#8)

namespace Stored

variable {addr : Nat} {byte : BitVec 8}

theorem keep {after : Space} {machine' : Machine} (stored : Stored reach space machine addr byte)
    (view : after.view (addr / 4096) = space.view (addr / 4096))
    (keeping : Setting.Keeping reach (Reserved reach space machine) machine.mem after machine') :
    Stored reach after machine' addr byte := by
  obtain ⟨leaf, found, reserved, holds⟩ := stored
  obtain ⟨reserved', same⟩ := keeping leaf.phys reserved
  refine ⟨leaf, view.trans found, reserved', ?_⟩
  rw [same (leaf.phys + addr % 4096) (by omega) (by omega), holds]

theorem reads (stored : Stored reach space machine addr byte)
    (setting : Setting reach space machine) (below : addr < identityMapEnd) :
    readThrough machine.mem space.pml4 addr = some byte := by
  obtain ⟨leaf, found, -, holds⟩ := stored
  unfold readThrough
  rw [Space.walk_eq_view setting.editing.wellFormed setting.upward setting.editing.represents below,
    found, Option.map_some, holds]

end Stored

/-! ### What the file describes -/

structure Described (segments : List Elf.Segment) (data : Elf.Bytes) (start stop pml4 : Nat)
    (earlier : List Mapping) (mem : ByteMemory) (proc : Process) : Prop where
  bytes : ∀ seg, seg ∈ segments → ∀ i, i < seg.memsz →
    ∃ byte, seg.contents data i = some byte ∧
      readThrough mem pml4 (seg.vaddr + i) = some byte ∧
      (Unrecorded earlier (seg.vaddr + i) →
        readTranslated mem proc (seg.vaddr + i) = some byte)
  gaps : ∀ addr, start ≤ addr → addr < stop →
    (∀ seg, seg ∈ segments → ¬ seg.Holds addr) →
    readThrough mem pml4 addr = some 0#8 ∧
      (Unrecorded earlier addr → readTranslated mem proc addr = some 0#8)
  rights : ∀ page, page % pageSize = 0 → start ≤ page → page < stop →
    ∃ leaf, walk mem pml4 page = some leaf ∧ leaf.user = true ∧
      (leaf.writable = true ↔
        ∃ seg, seg ∈ segments ∧ seg.writable = true ∧ seg.Meets page) ∧
      (leaf.noExecute = false ↔
        ∃ seg, seg ∈ segments ∧ seg.executable = true ∧ seg.Meets page)

namespace Imaged

variable {phys : Nat} {earlier : List Mapping}

theorem walk_page (imaged : Imaged reach segments data start stop phys earlier space machine proc)
    (startAligned : start % 4096 = 0) (stopAligned : stop % 4096 = 0)
    (below : stop ≤ identityMapEnd) {addr : Nat} (lower : start ≤ addr)
    (upper : addr < stop) :
    walk machine.mem space.pml4 addr =
      some (leafFor (segmentFlags segments (addr / 4096 * 4096))
        (phys + (addr / 4096 * 4096 - start))) := by
  rw [Space.walk_eq_view imaged.setting.editing.wellFormed imaged.setting.upward
    imaged.setting.editing.represents (by omega)]
  exact imaged.views (addr / 4096) (by omega) (by omega)

theorem reads (imaged : Imaged reach segments data start stop phys earlier space machine proc)
    (startAligned : start % 4096 = 0) (stopAligned : stop % 4096 = 0)
    (below : stop ≤ identityMapEnd) {addr : Nat} {byte : BitVec 8} (lower : start ≤ addr)
    (upper : addr < stop) (holds : machine.mem (phys + (addr - start)) = byte) :
    readThrough machine.mem space.pml4 addr = some byte ∧
      (Unrecorded earlier addr → readTranslated machine.mem proc addr = some byte) := by
  constructor
  · have place : phys + (addr / 4096 * 4096 - start) + addr % 4096 =
        phys + (addr - start) := by omega
    unfold readThrough
    rw [imaged.walk_page startAligned stopAligned below lower upper, Option.map_some]
    dsimp only [leafFor]
    rw [place, holds]
  · intro unrecorded
    unfold readTranslated
    rw [imaged.recorded addr lower upper unrecorded, Option.map_some, holds]

theorem described (imaged : Imaged reach segments data start stop phys earlier space machine proc)
    (span : Span segments start stop)
    (accepted : ∀ seg, seg ∈ segments → Accepted heapStart heapEnd seg)
    (sized : ∀ seg, seg ∈ segments → seg.filesz ≤ seg.memsz ∧
      seg.fileOffset + seg.filesz ≤ data.length)
    (apart : segments.Pairwise Elf.Segment.Apart) :
    Described segments data start stop space.pml4 earlier machine.mem proc := by
  have startAligned := span.start_aligned
  have stopAligned := span.stop_aligned
  have below := span.stop_le accepted
  have reads := @imaged.reads reach space machine proc segments data start stop phys earlier
    startAligned stopAligned below
  refine ⟨?_, ?_, ?_⟩
  · intro seg member i inside
    have lower : start ≤ seg.vaddr := (span.start_le member).trans (alignDown_le _)
    have upper := (accepted seg member).le_pageEnd.trans (span.le_stop member)
    by_cases stored : i < seg.filesz
    · have inFile : seg.fileOffset + i < data.length := by
        have fits := (sized seg member).2
        omega
      refine ⟨data[seg.fileOffset + i], ?_, reads (by omega) (by omega) ?_⟩
      · unfold Elf.Segment.contents
        rw [if_pos stored, List.getElem?_eq_getElem inFile]
      · rw [imaged.bytes seg member i stored, getD_eq_getElem?_getD,
          List.getElem?_eq_getElem inFile, Option.getD_some]
    · refine ⟨0#8, ?_, reads (by omega) (by omega) (imaged.zeros _ (by omega) (by omega) ?_)⟩
      · unfold Elf.Segment.contents
        rw [if_neg stored]
      · -- Another segment with file bytes here would overlap this one.
        intro other isOther holds
        by_cases same : other = seg
        · rw [same] at holds
          omega
        · have fits := (sized other isOther).1
          exact apart.forall isOther member same (seg.vaddr + i)
            ⟨⟨by omega, by omega⟩, ⟨by omega, by omega⟩⟩
  · intro addr lower upper outside
    refine reads lower upper (imaged.zeros addr lower upper ?_)
    intro seg member holds
    have fits := (sized seg member).1
    exact outside seg member ⟨holds.1, by omega⟩
  · intro page aligned lower upper
    have size : pageSize = 4096 := rfl
    have pageOf : page / 4096 * 4096 = page := by
      rw [size] at aligned
      exact Nat.div_mul_cancel (Nat.dvd_of_mod_eq_zero aligned)
    have nonempty := fun seg member => (accepted seg member).nonempty
    obtain ⟨writes, executes⟩ := segmentFlags_bits segments page
    refine ⟨_, imaged.walk_page startAligned stopAligned below lower upper, ?_, ?_, ?_⟩
    · exact Laid.segmentFlags_user segments _
    · dsimp only [leafFor]
      rw [pageOf, writes, any_meets nonempty]
    · dsimp only [leafFor]
      rw [pageOf, executes, Bool.not_eq_false', any_meets nonempty]

end Imaged

/-- `load_segments` on a file the parser and the validator accept, with segments that do not
overlap: with enough free frames it succeeds, and then memory is what the file describes. -/
theorem image_described {prog : Elf.Program} {bias : Nat} (setting : Setting reach space machine)
    (parsed : Elf.parse data = .ok prog)
    (validated : validateSegments heapStart heapEnd (applyBias bias prog).segments = .ok ())
    (apart : (applyBias bias prog).segments.Pairwise Elf.Segment.Apart) :
    ∃ start stop, Span (applyBias bias prog).segments start stop ∧
      Yields (Loader.loadSegments space.pml4 (applyBias bias prog).segments data)
        (machine, proc)
        (fun _ state => Described (applyBias bias prog).segments data start stop space.pml4
          proc.mappings state.1.mem state.2)
        (fun failure _ => (∃ message, failure = .refused message) ∧
          ¬ EnoughFrames space start stop machine.pmm) := by
  have wellFormed := Elf.parse_wellFormed parsed
  have accepted := validateSegments_ok validated
  have sized := sized_applyBias bias wellFormed
  obtain ⟨start, stop, span⟩ := Span.exists_of_ne_nil
    (@System.applyBias_ne_nil bias prog wellFormed.nonempty)
  refine ⟨start, stop, span, ?_⟩
  refine (setting.loadSegments span accepted sized apart).mono ?_
  rintro - state ⟨phys, after, samePml4, imaged, -⟩
  rw [← samePml4]
  exact imaged.described span accepted sized apart

theorem Laid.setting {kernel : Space} {pool : Nat → Prop} {origin : ByteMemory}
    {claimed filled : List Mapping}
    (laid : Laid kernel pool (fun _ => False) origin claimed filled space machine proc) :
    Setting (fun frame => pool frame ∧ ¬ False) space machine :=
  { editing := laid.editing
    upward := laid.upward
    inactive := laid.inactive
    spare := fun frame free => ⟨laid.stage.free frame free, not_false⟩ }

theorem EnoughFrames.of_stock {good : Nat → Prop} {pmm : Pmm} (ordered : pageSize ≤ stop - start)
    (stock : Pmm.Stock good True ((stop - start) / pageSize +
      tablesNeeded space (start / 4096) ((stop - start) / pageSize)) pmm) :
    EnoughFrames space start stop pmm := by
  have positive : 0 < (stop - start) / pageSize := Nat.div_pos ordered (by decide)
  rcases given : pmm.allocContiguous ((stop - start) / pageSize) with ⟨_ | phys, after⟩
  · exact absurd trivial (stock.allocContiguous_none positive given)
  · exact ⟨phys, after, given, (stock.allocContiguous_some given).2.stocked trivial⟩

end
end Loader

namespace Boot

theorem plain_setting (entry heapStart : Nat) : ∃ first machine proc space,
    plain.start = some first ∧
    Loader.buildAddressSpace plain.pml4
      (first.machine, System.newProcess entry heapStart .linux) =
        (.ok space.pml4, (machine, proc)) ∧
    Loader.Setting (fun frame => plain.initialPmm.Free frame ∧ ¬ False) space machine ∧
    proc.mappings = [] ∧ Pmm.Stock (fun _ => ¬ False) True 4096 machine.pmm := by
  obtain ⟨pmm, started, free⟩ := plain_start
  have ready := ready_start plain_valid started
  have stage := ready.stage (fun _ => False)
    (show (System.newProcess entry heapStart .linux).frames = [] ∧
      (System.newProcess entry heapStart .linux).mappings = [] from ⟨rfl, rfl⟩)
  have size : Pmm.frameSize = 4096 := rfl
  have run : pmm.FreeRun 0x6800000 (6 + 4096) := by
    intro index inside
    rw [free, size]
    omega
  have stock : Pmm.Stock (fun _ => ¬ False) True
      (Loader.Stage.copyFrames (kernelSpace plain.pml4) + 4096) pmm := by
    rw [Loader.Stage.copyFrames_whole (fun _ => rfl)]
    exact ⟨Or.inl (fun _ _ => not_false), fun _ => ⟨_, run⟩⟩
  have yields := stage.buildAddressSpace stock
  unfold Fallible.Yields at yields
  rcases ran : Loader.buildAddressSpace (kernelSpace plain.pml4).pml4
    ((plain.firstSystem plain.bootTables 0x4000000 pmm).machine,
      System.newProcess entry heapStart .linux) with ⟨failure | pml4, machine, proc⟩
  · rw [ran] at yields
    exact absurd trivial yields.1
  · rw [ran] at yields
    obtain ⟨space, rfl, built⟩ := yields
    have record := built.record
    dsimp only at record
    have nothing : proc.mappings = [] := by rw [record]; rfl
    have laid := Loader.Laid.of_built built (fun _ => rfl) rfl
    exact ⟨_, machine, proc, space, started, ran, laid.setting, nothing, built.stock⟩

/-- `sharedImage`, whose code and data share a page and both have bytes in the file. -/
theorem image_described_shared : ∃ machine proc machine' proc',
    ∃ space : Space,
    Loader.loadSegments space.pml4 Elf.sharedSegments Elf.sharedImage
      (machine, proc) = (.ok (), (machine', proc')) ∧
    Loader.Described Elf.sharedSegments Elf.sharedImage 0x1000000 0x1002000 space.pml4 []
      machine'.mem proc' := by
  obtain ⟨first, machine, proc, space, -, -, setting, nothing, stock⟩ :=
    plain_setting 0x1000000 0x1003000
  have same : Loader.applyBias 0 Elf.sharedProgram = Elf.sharedProgram := by
    unfold Loader.applyBias
    rw [if_neg (by decide)]
  have apart : Elf.sharedSegments.Pairwise Elf.Segment.Apart := by
    refine List.pairwise_pair.mpr (fun addr both => ?_)
    obtain ⟨⟨-, below⟩, above, -⟩ := both
    dsimp only at below above
    omega
  obtain ⟨start, stop, span, yields⟩ := @Loader.image_described
    _ space machine proc Elf.sharedImage 0x4000000 0x6800000 Elf.sharedProgram 0 setting
    (by decide +kernel) (by decide +kernel) (by rw [same]; exact apart)
  rw [same] at span yields
  have start' : start = 0x1000000 := Option.some.inj (span.start.symm.trans (by decide +kernel))
  have stop' : stop = 0x1002000 := Option.some.inj (span.stop.symm.trans (by decide +kernel))
  subst start' stop'
  have enough : Loader.EnoughFrames space 0x1000000 0x1002000 machine.pmm := by
    refine Loader.EnoughFrames.of_stock (by decide) (stock.of_le ?_)
    have valid : ValidRange 0x1000000 8192 := ⟨by decide, by decide, by decide, by decide⟩
    have few := @tablesNeeded_le_blocksTouched space _ _ valid
    have touched : blocksTouched 0x1000000 8192 = 1 := by decide
    have amount : (0x1002000 - 0x1000000) / pageSize = 8192 / 4096 := by decide
    rw [amount]
    omega
  unfold Fallible.Yields at yields
  rcases ran : Loader.loadSegments space.pml4 Elf.sharedProgram.segments Elf.sharedImage
    (machine, proc) with ⟨failure | value, machine', proc'⟩
  · rw [ran] at yields
    exact absurd enough yields.2
  · rw [ran, nothing] at yields
    exact ⟨machine, proc, machine', proc', space, ran, yields⟩

end Boot
end MachaOS
