/-
What the loader leaves behind.

`spawn` and `spawn_linux` run under the kernel's own table.  When they succeed
the process has an address space of its own: the identity map, closed to
ring 3, with its images and its stack laid over it.  They succeed whenever
there is room for the frames they take.
-/

import MachaOS.Ledger
import MachaOS.Process.Loading
import MachaOS.Territory

namespace MachaOS

open List
open Fallible Machine Paging Loader

structure Loadable (layout : Layout) (segments : List Elf.Segment) : Prop where
  validated : System.Validated layout segments
  short : ∀ seg, seg ∈ segments → seg.filesz ≤ seg.memsz

namespace System

theorem short_applyBias {prog : Elf.Program} (bias : Nat)
    (short : ∀ seg, seg ∈ prog.segments → seg.filesz ≤ seg.memsz) :
    ∀ seg, seg ∈ (applyBias bias prog).segments → seg.filesz ≤ seg.memsz := by
  unfold applyBias
  split
  · intro seg mem
    obtain ⟨original, inside, rfl⟩ := mem_map.mp mem
    exact short original inside
  · exact short

theorem acceptProgram_loadable {layout : Layout} {bias : Nat} {elfBytes : Elf.Bytes}
    {prog : Elf.Program} (accepted : acceptProgram layout bias elfBytes = .ok prog) :
    Loadable layout prog.segments := by
  refine ⟨acceptProgram_ok accepted, ?_⟩
  unfold acceptProgram at accepted
  obtain ⟨parsed, parsing, accepted⟩ := Elf.except_bind_ok accepted
  obtain ⟨_, -, accepted⟩ := Elf.except_bind_ok accepted
  cases accepted
  exact short_applyBias bias (fun seg mem =>
    ((Elf.parse_loadable parsing).2 seg mem).1.2.1)

theorem findInterpreter_loadable {layout : Layout} {readFile : String → Option Elf.Bytes}
    {path : String} {bytes : Elf.Bytes} {interp : Elf.Program}
    (found : findInterpreter layout readFile path = .ok (bytes, interp)) :
    Loadable layout interp.segments := by
  refine ⟨findInterpreter_ok found, ?_⟩
  unfold findInterpreter at found
  split at found
  · cases found
  · obtain ⟨parsed, parsing, found⟩ := Elf.except_bind_ok found
    obtain ⟨_, -, found⟩ := Elf.except_bind_ok found
    cases found
    exact short_applyBias _ (fun seg mem =>
      ((Elf.parse_loadable parsing).2 seg mem).1.2.1)

def Claims (cover : Nat → Prop) (ranges : List (Nat × Nat)) : Prop :=
  ∀ range, range ∈ ranges → ∀ addr, range.1 ≤ addr → addr < range.2 → cover addr

def imageFrames (segments : List Elf.Segment) : Nat :=
  ((imageRange segments).map (fun range =>
    (range.2 - range.1) / 4096 + blocksTouched range.1 (range.2 - range.1))).sum

end System

namespace Loader.Laid

open MachaOS.System

variable {kernel : Space} {pool cover : Nat → Prop} {origin : ByteMemory} {sure : Prop}
  {filled : List Mapping} {space : Space} {machine : Machine} {proc : Process}

theorem of_built {count : Nat} {state : Machine × Process}
    (built : Stage.Built kernel pool cover origin sure count proc space state)
    (whole : ∀ block, kernel.pt block = none) (empty : proc.mappings = []) :
    Laid kernel pool cover origin state.2.mappings [] space state.1 state.2 := by
  have none' : state.2.mappings = [] := by
    rw [built.record]
    exact empty
  have absent : ∀ block, space.pt block = none := fun block => built.copy.whole block (whole block)
  have views : ∀ page, space.view page = some (Space.kernelLeaf page) := by
    intro page
    simp only [Space.view, absent]
  exact
    { stage := built.stage
      wellFormed := built.wellFormed
      upward := fun _ _ split => absurd (absent _) split
      represents := built.represents
      tables := built.owned
      spare := by simp [none']
      backed := by simp [none']
      whole := by simp [none']
      apart := by simp [none']
      covered := by simp [none']
      untouched := fun page _ _ => views page
      matched := by
        intro page leaf _ found isUser
        rw [views] at found
        cases found
        cases isUser
      valid := by simp
      shown := by simp }

theorem loadImage {layout : Layout} {segments : List Elf.Segment} {data : Elf.Bytes} {count : Nat}
    (laid : Laid kernel pool cover origin proc.mappings filled space machine proc)
    (loadable : Loadable layout segments) (claims : Claims cover (imageRange segments))
    (stock : Pmm.Stock (fun frame => ¬ cover frame) sure (imageFrames segments + count)
      machine.pmm) :
    Yields (Loader.loadSegments space.pml4 segments data) (machine, proc)
      (fun _ state => ∃ frames mapping after, state.2 =
          { proc with frames, mappings := proc.mappings ++ [mapping] } ∧
        imageRange segments = [mapping.range] ∧
        Laid kernel pool cover origin state.2.mappings (filled ++ [mapping]) after state.1 state.2 ∧
        Widens space after ∧ Pmm.Stock (fun frame => ¬ cover frame) sure count state.1.pmm)
      (Stopped kernel pool origin sure) := by
  obtain ⟨overallStart, overallEnd, span⟩ := Span.exists_of_ne_nil loadable.validated.nonempty
  have accepted := loadable.validated.accepted
  have ordered := span.start_lt accepted
  have range := imageRange_eq span
  have amount : imageFrames segments + count =
      (overallEnd - overallStart) / 4096 +
        (blocksTouched overallStart (overallEnd - overallStart) + count) := by
    simp only [imageFrames, range, map_cons, map_nil, sum_cons, sum_nil]
    omega
  rw [amount] at stock
  refine (laid.loadSegments span ordered (span.stop_le accepted) ?_ ?_ stock).mono ?_
  · intro seg mem
    have lower := span.start_le mem
    have upper := span.le_stop mem
    have inFile := loadable.short seg mem
    have inMemory := Accepted.le_pageEnd (accepted seg mem)
    have first := alignDown_le seg.vaddr
    unfold Elf.Segment.firstPage at lower
    omega
  · rintro addr ⟨lower, upper⟩
    exact claims (overallStart, overallEnd) (by rw [range]; simp) addr lower (by omega)
  · rintro _ state ⟨frames, phys, after, record, laid', widens, rest⟩
    refine ⟨frames, _, after, record, ?_, laid', widens, rest⟩
    rw [range]
    simp only [Mapping.range, imageMapping, List.cons.injEq, Prod.mk.injEq, and_true, true_and]
    omega

end Loader.Laid

/-! ### Whole processes -/

/-- A process as the loader hands it over: its table lies over the kernel's map, and every
range it records is open to ring 3, the stack from `stackLow` on. -/
structure Loaded (kernel : Space) (pool cover : Nat → Prop) (origin : ByteMemory)
    (space : Space) (machine : Machine) (proc : Process) : Prop where
  laid : ∃ filled, Laid kernel pool cover origin proc.mappings filled space machine proc ∧
    ∀ mapping, mapping ∈ proc.mappings →
      mapping ∈ filled ∨ mapping = stackMapping proc.stackPhysBase
  stack : Laid.HasStack proc space proc.stackPhysBase proc.stackLow

theorem Loader.Laid.HasStack.self {proc : Process} {space : Space} {phys low : Nat}
    (hasStack : Laid.HasStack proc space phys low) :
    Laid.HasStack proc space proc.stackPhysBase proc.stackLow := by
  obtain ⟨samePhys, sameLow, -⟩ := hasStack.record
  rw [samePhys, sameLow]
  exact hasStack

namespace System

variable {kernel : Space} {pool cover : Nat → Prop} {origin : ByteMemory} {sure : Prop}
  {layout : Layout} {machine : Machine} {proc : Process}

def FillsIn (before built : Process) : Prop :=
  built =
    { before with
      entry := built.entry
      userRsp := built.userRsp
      frames := built.frames
      mappings := built.mappings
      stackLow := built.stackLow
      stackPhysBase := built.stackPhysBase }

/-- What a finished loader has done for a process with the ranges `ranges`. -/
structure Delivers (kernel : Space) (pool cover : Nat → Prop) (origin : ByteMemory) (sure : Prop)
    (count : Nat) (ranges : List (Nat × Nat)) (before : Process) (space : Space)
    (machine : Machine) (built : Process) : Prop where
  loaded : Loaded kernel pool cover origin space machine built
  ranges : built.mappings.map Mapping.range = ranges
  record : FillsIn before built
  stock : Pmm.Stock (fun frame => ¬ cover frame) sure count machine.pmm

theorem loadNative_yields {prog : Elf.Program} {elfBytes : Elf.Bytes} {count : Nat}
    (stage : Stage kernel pool cover origin machine proc)
    (whole : ∀ block, kernel.pt block = none)
    (fresh : proc.frames = [] ∧ proc.mappings = [] ∧ proc.stackLow = Process.userStackBase)
    (table : layout.kernelPml4 = kernel.pml4) (loadable : Loadable layout prog.segments)
    (claims : Claims cover (nativeRanges prog))
    (stock : Pmm.Stock (fun frame => ¬ cover frame) sure
      (6 + (imageFrames prog.segments + (Process.userStackMaxPages + (1 + (1 + (1 + count))))))
      machine.pmm) :
    Yields (loadNative layout prog elfBytes) (machine, proc)
      (fun pml4 state => ∃ space, space.pml4 = pml4 ∧
        Delivers kernel pool cover origin sure count (nativeRanges prog) proc space state.1
          state.2)
      (Stopped kernel pool origin sure) := by
  obtain ⟨-, noMappings, low⟩ := fresh
  unfold loadNative
  rw [table]
  rw [← Stage.copyFrames_whole whole] at stock
  refine (stage.buildAddressSpace stock).bind ?_
  rintro pml4 ⟨machine₁, proc₁⟩ ⟨space, rfl, built⟩
  have record := built.record
  have laid := Laid.of_built built whole noMappings
  have stock₁ := built.stock
  dsimp only at record laid stock₁ ⊢
  have nothing : proc₁.mappings = [] := by
    rw [record]
    exact noMappings
  refine (laid.loadImage loadable (fun range mem => claims range ?_) stock₁).bind ?_
  · unfold nativeRanges
    exact mem_append_left _ mem
  rintro _ ⟨machine₂, proc₂⟩ ⟨frames, mapping, space₂, rfl, range, laid₂, widens₂, stock₂⟩
  dsimp only at laid₂ stock₂ ⊢
  rw [← widens₂.pml4]
  refine (laid₂.setupUserStack ?_ ?_ stock₂).bind ?_
  · dsimp only
    rw [record]
    exact low
  · intro addr inside
    by_cases low' : addr < Process.userStackTop
    · exact claims (Process.userStackLowLimit, Process.userStackTop)
        (by simp [nativeRanges]) addr inside.1 low'
    · exact claims (Process.userExitStubVirt, Process.userExitStubVirt + pageSize)
        (by simp [nativeRanges]) addr (by unfold Process.userExitStubVirt; omega) inside.2
  · rintro _ ⟨machine₃, proc₃⟩
      ⟨frames₃, phys, stub, space₃, rfl, laid₃, widens₃, hasStack, stock₃⟩
    refine yields_of_ok rfl ⟨space₃, widens₃.pml4, ⟨⟨_, laid₃, ?_⟩, ?_⟩, ?_, ?_, stock₃⟩
    · intro other mem
      simp only [nothing, nil_append, cons_append, mem_cons, not_mem_nil, or_false] at mem ⊢
      rcases mem with rfl | rfl | rfl
      · exact Or.inl (Or.inl rfl)
      · exact Or.inr rfl
      · exact Or.inl (Or.inr rfl)
    · exact hasStack.self
    · simp only [nothing, nil_append, cons_append, map_cons, map_nil,
        nativeRanges, range, range_stackMapping]
      rfl
    · dsimp only
      unfold FillsIn
      rw [record]

def interpreterFrames (layout : Layout) (readFile : String → Option Elf.Bytes)
    (prog : Elf.Program) : Nat :=
  match acceptInterpreter layout readFile prog with
  | .ok (some interp) => imageFrames interp.segments
  | _ => 0

def interpreterBase (interp : Option Elf.Program) : Nat :=
  match interp with
  | some image => if image.isPie then Process.interpLoadBase else 0
  | none => 0

theorem loadInterpreter_yields {prog : Elf.Program} {readFile : String → Option Elf.Bytes}
    {filled : List Mapping} {space : Space} {count : Nat}
    (laid : Laid kernel pool cover origin proc.mappings filled space machine proc)
    (accepts : sure → ∃ interp, acceptInterpreter layout readFile prog = .ok interp)
    (claims : ∀ interp, acceptInterpreter layout readFile prog = .ok (some interp) →
      Claims cover (imageRange interp.segments))
    (stock : Pmm.Stock (fun frame => ¬ cover frame) sure
      (interpreterFrames layout readFile prog + count) machine.pmm) :
    Yields (loadInterpreter layout readFile space.pml4 prog) (machine, proc)
      (fun loaded state => ∃ interp frames images after,
        acceptInterpreter layout readFile prog = .ok interp ∧
        loaded.2 = interpreterBase interp ∧
        state.2 = { proc with frames, mappings := proc.mappings ++ images } ∧
        images.map Mapping.range = (interp.map (fun image => imageRange image.segments)).getD [] ∧
        Laid kernel pool cover origin state.2.mappings (filled ++ images) after state.1 state.2 ∧
        Widens space after ∧ Pmm.Stock (fun frame => ¬ cover frame) sure count state.1.pmm)
      (Stopped kernel pool origin sure) := by
  unfold loadInterpreter
  cases named : prog.interp with
  | none =>
      have accepted : acceptInterpreter layout readFile prog = .ok none := by
        simp [acceptInterpreter, named]
      refine yields_of_ok rfl ⟨none, proc.frames, [], space, accepted, rfl, ?_, rfl, ?_,
        Widens.refl space, stock.of_le (by omega)⟩
      · simp
      · simpa using laid
  | some path =>
      cases searched : findInterpreter layout readFile path with
      | error message =>
          have rejected : acceptInterpreter layout readFile prog = .error message := by
            simp [acceptInterpreter, named, searched]
          simp only [searched]
          refine yields_of_error rfl (laid.stage.stopped (fun certain => ?_) message)
          obtain ⟨interp, accepted⟩ := accepts certain
          rw [rejected] at accepted
          cases accepted
      | ok found =>
          obtain ⟨bytes, interp⟩ := found
          have accepted : acceptInterpreter layout readFile prog = .ok (some interp) := by
            simp [acceptInterpreter, named, searched]
          have amount : interpreterFrames layout readFile prog = imageFrames interp.segments := by
            simp [interpreterFrames, accepted]
          rw [amount] at stock
          simp only [searched]
          refine (laid.loadImage (findInterpreter_loadable searched) (claims interp accepted)
            stock).bind ?_
          rintro _ ⟨machine₁, proc₁⟩ ⟨frames, mapping, after, rfl, range, laid₁, widens, rest⟩
          exact yields_of_ok rfl ⟨some interp, frames, [mapping], after, accepted, rfl, rfl,
            by simp [range], laid₁, widens, rest⟩

theorem loadLinux_yields {prog : Elf.Program} {elfBytes : Elf.Bytes}
    {argv envp : List Elf.Bytes} {ticks count : Nat} {readFile : String → Option Elf.Bytes}
    (stage : Stage kernel pool cover origin machine proc)
    (whole : ∀ block, kernel.pt block = none)
    (fresh : proc.frames = [] ∧ proc.mappings = [])
    (table : layout.kernelPml4 = kernel.pml4) (loadable : Loadable layout prog.segments)
    (accepts : sure → ∃ interp, acceptInterpreter layout readFile prog = .ok interp)
    (claims : ∀ interp, acceptInterpreter layout readFile prog = .ok interp →
      Claims cover (linuxRanges prog interp))
    (layouts : sure → ∀ interp, acceptInterpreter layout readFile prog = .ok interp →
      ∃ placed, stackLayout elfBytes prog (interpreterBase interp) ticks argv envp = .ok placed)
    (image : Claims cover (imageRange prog.segments))
    (stock : Pmm.Stock (fun frame => ¬ cover frame) sure
      (6 + (imageFrames prog.segments + (interpreterFrames layout readFile prog +
        (Process.userStackMaxPages + (1 + count))))) machine.pmm) :
    Yields (loadLinux layout prog elfBytes argv envp ticks readFile) (machine, proc)
      (fun pml4 state => ∃ interp, acceptInterpreter layout readFile prog = .ok interp ∧
        ∃ space, space.pml4 = pml4 ∧
          Delivers kernel pool cover origin sure count (linuxRanges prog interp) proc space
            state.1 state.2)
      (Stopped kernel pool origin sure) := by
  obtain ⟨-, noMappings⟩ := fresh
  unfold loadLinux
  rw [table]
  rw [← Stage.copyFrames_whole whole] at stock
  refine (stage.buildAddressSpace stock).bind ?_
  rintro pml4 ⟨machine₁, proc₁⟩ ⟨space, rfl, built⟩
  have record := built.record
  have laid := Laid.of_built built whole noMappings
  have stock₁ := built.stock
  dsimp only at record laid stock₁ ⊢
  have nothing : proc₁.mappings = [] := by
    rw [record]
    exact noMappings
  refine (laid.loadImage loadable image stock₁).bind ?_
  rintro _ ⟨machine₂, proc₂⟩ ⟨frames, mapping, space₂, rfl, range, laid₂, widens₂, stock₂⟩
  dsimp only at laid₂ stock₂ ⊢
  rw [← widens₂.pml4]
  refine (loadInterpreter_yields laid₂ accepts (fun interp accepted other mem =>
    claims (some interp) accepted other ?_) stock₂).bind ?_
  · simp only [linuxRanges, Option.map_some, Option.getD_some]
    exact mem_append_left _ (mem_append_right _ mem)
  rintro ⟨entry, base⟩ ⟨machine₃, proc₃⟩
    ⟨interp, frames₃, images, space₃, accepted, rfl, rfl, ranges, laid₃, widens₃, stock₃⟩
  dsimp only at laid₃ stock₃ ⊢
  rw [← widens₃.pml4]
  refine Yields.after rfl ?_
  have laid₄ : Laid kernel pool cover origin (proc₁.mappings ++ [mapping] ++ images)
      ([] ++ [mapping] ++ images) space₃ machine₃
      { proc₁ with
        frames := frames₃, mappings := proc₁.mappings ++ [mapping] ++ images, entry } :=
    laid₃.record rfl rfl
  refine (laid₄.setupLinuxStack ?_ ?_ stock₃).bind ?_
  · intro addr inside
    exact claims interp accepted (Process.userStackLowLimit, Process.userStackTop)
      (by simp [linuxRanges]) addr inside.1 inside.2
  · exact fun certain => layouts certain interp accepted
  rintro rsp ⟨machine₅, proc₅⟩
    ⟨frames₅, phys, low, space₅, rfl, laid₅, widens₅, hasStack, stock₅⟩
  refine Yields.after rfl (yields_of_ok rfl ⟨interp, accepted, space₅, widens₅.pml4,
    ⟨⟨_, laid₅.record rfl rfl, ?_⟩, ?_⟩, ?_, ?_, stock₅⟩)
  · intro other mem
    simp only [nothing, nil_append, cons_append, mem_cons, mem_append,
      not_mem_nil, or_false] at mem ⊢
    rcases mem with rfl | fromImages | rfl
    · exact Or.inl (Or.inl rfl)
    · exact Or.inl (Or.inr fromImages)
    · exact Or.inr rfl
  · obtain ⟨⟨samePhys, sameLow, recorded⟩, aligned, bounded, lowAligned, lowInside, shown⟩ :=
      hasStack.self
    exact ⟨⟨rfl, rfl, recorded⟩, aligned, bounded, lowAligned, lowInside, shown⟩
  · simp only [nothing, nil_append, cons_append, map_cons, map_append,
      map_nil, linuxRanges, range, ranges, range_stackMapping]
  · dsimp only
    unfold FillsIn
    rw [record]

end System

/-! ### Frames the kernel keeps for itself -/

namespace Pmm

theorem init_lastUsableFrame (regions : List MemoryRegion) (kernelStart kernelEnd : Nat) :
    (init regions kernelStart kernelEnd).lastUsableFrame =
      (regions.foldl initRegion
        { bitmap := fun _ => 0xFF#8, lastUsableFrame := 0 }).lastUsableFrame := by
  unfold init
  generalize lowReservedEnd = low
  exact (markReserved_lastUsableFrame _ _ _).trans (markReserved_lastUsableFrame _ _ _)

theorem frameIsFree_init (regions : List MemoryRegion) (kernelStart kernelEnd frame : Nat) :
    (init regions kernelStart kernelEnd).frameIsFree frame =
      ((regions.foldl initRegion
          { bitmap := fun _ => 0xFF#8, lastUsableFrame := 0 }).frameIsFree frame &&
        decide (¬(0 < kernelEnd - kernelStart ∧ kernelStart / 4096 ≤ frame ∧
          frame < min (alignUp (min (kernelStart + (kernelEnd - kernelStart)) (wordLimit - 1)))
            maxPhysMem / 4096)) &&
        decide (¬(0 < lowReservedEnd ∧ 0 / 4096 ≤ frame ∧
          frame < min (alignUp (min (0 + lowReservedEnd) (wordLimit - 1))) maxPhysMem / 4096))) := by
  unfold init
  generalize lowReservedEnd = low
  exact (frameIsFree_markReserved _ _ _ _).trans
    (congrArg (fun bit => bit && _) (frameIsFree_markReserved _ _ _ _))

theorem frameIsFree_with (pmm : Pmm) (last frame : Nat) :
    ({ pmm with lastUsableFrame := last } : Pmm).frameIsFree frame = pmm.frameIsFree frame :=
  rfl

end Pmm

namespace Boot

theorem lastUsableFrame_initialPmm_lt (boot : Boot) :
    boot.initialPmm.lastUsableFrame < 65536 :=
  Pmm.bounded_init _ _ _

theorem free_initialPmm {boot : Boot} (bounded : boot.kernelEnd ≤ identityMapEnd) {frame : Nat}
    (free : boot.initialPmm.Free frame) :
    0x4000000 ≤ frame ∧ ¬(kernelStart ≤ frame ∧ frame < boot.kernelEnd) := by
  have limit := boot.lastUsableFrame_initialPmm_lt
  obtain ⟨index, rfl, inside, bit⟩ := free
  have size : Pmm.frameSize = 4096 := rfl
  have top : Pmm.maxPhysMem = 268435456 := rfl
  have fourGiB : identityMapEnd = 4294967296 := rfl
  have short : ∀ stop, stop ≤ identityMapEnd → stop ≤ alignUp (min stop (wordLimit - 1)) ∧
      alignUp (min stop (wordLimit - 1)) % 4096 = 0 := by
    intro stop below
    have small : min stop (wordLimit - 1) = stop :=
      Nat.min_eq_left (le_trans below (by decide))
    rw [small]
    exact ⟨le_alignUp (lt_of_le_of_lt (Nat.add_le_add_right below 4095) (by decide)),
      alignUp_mod stop⟩
  unfold initialPmm at bit
  rw [Pmm.frameIsFree_init] at bit
  simp only [Bool.and_eq_true, decide_eq_true_eq] at bit
  obtain ⟨⟨-, image⟩, low⟩ := bit
  obtain ⟨lowCovers, lowAligned⟩ := short (0 + Pmm.lowReservedEnd) (by decide)
  rw [size]
  refine ⟨?_, fun within => ?_⟩
  · have reserved : Pmm.lowReservedEnd = 67108864 := rfl
    generalize alignUp (min (0 + Pmm.lowReservedEnd) (wordLimit - 1)) = rounded at *
    omega
  · have whole : kernelStart + (boot.kernelEnd - kernelStart) = boot.kernelEnd :=
      Nat.add_sub_cancel' (by omega)
    rw [whole] at image
    obtain ⟨covers, aligned⟩ := short boot.kernelEnd bounded
    have start : kernelStart = 1048576 := rfl
    generalize alignUp (min boot.kernelEnd (wordLimit - 1)) = rounded at *
    omega

theorem Valid.pool_apart {boot : Boot} (valid : boot.Valid) {frame : Nat}
    (free : boot.initialPmm.Free frame) :
    frame % 4096 = 0 ∧ frame < identityMapEnd ∧ ¬ (kernelSpace boot.pml4).Owns frame := by
  have above := valid.above
  have below := valid.below
  have size : Pmm.frameSize = 4096 := rfl
  obtain ⟨-, outside⟩ := free_initialPmm valid.bounded free
  refine ⟨Pmm.free_aligned free, ?_, ?_⟩
  · obtain ⟨index, rfl, inside, -⟩ := free
    have limit := boot.lastUsableFrame_initialPmm_lt
    have fourGiB : identityMapEnd = 4294967296 := rfl
    rw [size, fourGiB]
    omega
  · intro owns
    obtain ⟨index, inside, rfl⟩ := kernelSpace_owns owns
    omega

theorem Valid.wellFormed {boot : Boot} (valid : boot.Valid) : (kernelSpace boot.pml4).WellFormed :=
  kernelSpace_wellFormed valid.aligned (le_trans valid.below valid.bounded)

structure Ready (boot : Boot) (sys : System) : Prop where
  valid : boot.Valid
  ledger : sys.Ledger boot.initialPmm.Free
  represents : (kernelSpace boot.pml4).Represents sys.machine.mem
  active : sys.machine.cr3 = boot.pml4
  table : sys.layout.kernelPml4 = boot.pml4
  main : sys.current = 0

theorem ready_start {boot : Boot} {sys : System} (valid : boot.Valid)
    (started : boot.start = some sys) : boot.Ready sys := by
  have ledger := ledger_start started
  obtain ⟨heapStart, pmm, -, rfl⟩ := start_cases started
  have represents := bootTables_represents valid
  generalize boot.bootTables = tables at *
  exact ⟨valid, ledger, represents, rfl, rfl, rfl⟩

namespace Ready

variable {boot : Boot} {sys : System}

theorem stage (ready : boot.Ready sys) (cover : Nat → Prop) {proc : Process}
    (fresh : proc.frames = [] ∧ proc.mappings = []) :
    Stage (kernelSpace boot.pml4) boot.initialPmm.Free cover sys.machine.mem sys.machine
      proc := by
  have wellFormed := ready.valid.wellFormed
  exact
    { wellFormed
      represents := ready.represents
      direct := by
        intro frame reached
        refine ⟨_, rfl, ?_⟩
        have aligned : frame % 4096 = 0 := by
          rcases reached with free | owns
          · exact Pmm.free_aligned free
          · exact wellFormed.aligned frame owns
        simp only [Space.kernelLeaf]
        omega
      active := ready.active
      apart := fun frame free => ready.valid.pool_apart free
      free := ready.ledger.freePool
      bounded := ready.ledger.bounded
      owned := by
        refine ⟨?_, ?_, ?_, ?_, ?_⟩ <;> simp [fresh.1, fresh.2]
      frames := by simp [fresh.1]
      wrote := Space.AgreeOutside.refl _ _ }

theorem spawnLinux (ready : boot.Ready sys) {elfBytes : Elf.Bytes} {argv envp : List Elf.Bytes}
    {ticks count heapStart : Nat} {readFile : String → Option Elf.Bytes} {prog : Elf.Program}
    {interp : Option Elf.Program}
    (accepted : System.acceptProgram sys.layout Process.pieLoadBase elfBytes = .ok prog)
    (heap : System.heapStartOf prog.segments = some heapStart)
    (interpreted : System.acceptInterpreter sys.layout readFile prog = .ok interp)
    (layouts : ∃ placed, stackLayout elfBytes prog (System.interpreterBase interp) ticks argv
      envp = .ok placed) {cover : Nat → Prop}
    (claims : System.Claims cover (System.linuxRanges prog interp))
    (stock : Pmm.Stock (fun frame => ¬ cover frame) True (6 + (System.imageFrames prog.segments +
        (System.interpreterFrames sys.layout readFile prog +
          (Process.userStackMaxPages + (1 + count))))) sys.machine.pmm) :
    ∃ machine built space,
      System.spawnLinux elfBytes argv envp ticks readFile sys =
        (.ok (.ok sys.tasks.length),
          { sys with
            machine, tasks := sys.tasks ++ [{ cr3 := space.pml4, process := some built }] }) ∧
      System.Delivers (kernelSpace boot.pml4) boot.initialPmm.Free cover sys.machine.mem True
        count (System.linuxRanges prog interp)
        (System.newProcess prog.entry heapStart .linux) space machine built := by
  have only : ∀ other, System.acceptInterpreter sys.layout readFile prog = .ok other →
      other = interp := by
    intro other found
    rw [interpreted] at found
    exact (Except.ok.inj found).symm
  have fresh : (System.newProcess prog.entry heapStart .linux).frames = [] ∧
      (System.newProcess prog.entry heapStart .linux).mappings = [] := ⟨rfl, rfl⟩
  have yields : Yields
      (System.loadLinux sys.layout prog elfBytes argv envp ticks readFile) _ _ _ :=
    System.loadLinux_yields (ready.stage cover fresh) (fun _ => rfl) fresh ready.table
      (System.acceptProgram_loadable accepted) (fun _ => ⟨interp, interpreted⟩)
      (fun other found => by rw [only other found]; exact claims)
      (fun _ other found => by rw [only other found]; exact layouts)
      (fun range mem => claims range (by
        unfold System.linuxRanges
        exact mem_append_left _ (mem_append_left _ mem))) stock
  rcases outcome : System.loadLinux sys.layout prog elfBytes argv envp ticks readFile
    (sys.machine, System.newProcess prog.entry heapStart .linux) with
    ⟨stop | pml4, machine, built⟩
  · exact absurd trivial (yields.of_error outcome).1
  · obtain ⟨other, found, space, rfl, delivers⟩ := yields.of_ok outcome
    rw [only other found] at delivers
    refine ⟨machine, built, space, ?_, delivers⟩
    unfold System.spawnLinux System.launch
    simp only [accepted, heap, outcome]

end Ready

end Boot

/-! ### Steps that succeed -/

namespace System

theorem step_of_ok {sys after : System} {event : Event}
    (ran : perform event sys = (.ok (), after)) : step sys event = some after := by
  unfold step
  rw [ran]

theorem step_of_bind {α : Type} {action : Sys α} {sys after : System} {event : Event} {value : α}
    (performs : perform event = (do let _ ← action; pure ()))
    (ran : action sys = (.ok value, after)) : step sys event = some after := by
  refine step_of_ok ?_
  rw [performs, bind_of_ok ran]
  rfl

theorem onProcess_of_ok {α : Type} {operation : Process → Nat → Kernel (α × Process)}
    {sys : System} {cr3 : Nat} {proc proc' : Process} {machine : Machine} {value : α}
    (calling : sys.currentProcess = some (cr3, proc))
    (ran : operation proc cr3 sys.machine = (.ok (value, proc'), machine)) :
    onProcess operation sys =
      (.ok (some value), { sys with machine }.setCurrentProcess proc') := by
  unfold onProcess
  rw [calling]
  dsimp only
  rw [ran]

theorem onMainTask_of_ok {α : Type} {action : Sys α} {sys after : System} {result : α}
    (main : sys.current = 0) (ran : action sys = (.ok result, after)) :
    onMainTask action sys = (.ok (), after) := by
  unfold onMainTask
  rw [if_pos main, bind_of_ok ran]
  rfl

section

variable {task : Task} {sys : System} (many : 1 < sys.tasks.length)
  (found : sys.tasks[(sys.current + 1) % sys.tasks.length]? = some task)
  (live : task.isExited = false)
include many found live

theorem nextTask_succ : sys.nextTask = some ((sys.current + 1) % sys.tasks.length) := by
  unfold nextTask
  obtain ⟨rest, length⟩ : ∃ rest, sys.tasks.length = rest + 2 :=
    ⟨sys.tasks.length - 2, by omega⟩
  have first : (List.range sys.tasks.length).drop 1 =
      1 :: (List.range sys.tasks.length).drop 2 := by
    rw [drop_eq_getElem_cons (by simp; omega)]
    simp
  rw [first, map_cons, List.find?_cons_of_pos]
  rw [found]
  simp [live]

theorem schedulerTick_succ :
    sys.schedulerTick =
      { sys with
        current := (sys.current + 1) % sys.tasks.length
        machine := { sys.machine with cr3 := task.cr3 } } := by
  unfold schedulerTick
  rw [nextTask_succ many found live]
  dsimp only
  rw [found]

end

theorem run_schedules {sys : System} {task : Task} (count : Nat)
    (live : ∀ index, sys.current < index → index ≤ sys.current + count + 1 →
      ∃ other, sys.tasks[index]? = some other ∧ other.isExited = false)
    (found : sys.tasks[sys.current + count + 1]? = some task) :
    Runs.after step sys (List.replicate (count + 1) .schedule) =
      some { sys with
        current := sys.current + count + 1
        machine := { sys.machine with cr3 := task.cr3 } } := by
  induction count generalizing sys with
  | zero =>
      obtain ⟨other, placed, alive⟩ := live (sys.current + 1) (by omega) (by omega)
      obtain ⟨inside, -⟩ := List.getElem?_eq_some_iff.mp placed
      have small : (sys.current + 1) % sys.tasks.length = sys.current + 1 :=
        Nat.mod_eq_of_lt inside
      have many : 1 < sys.tasks.length := by omega
      have ticked := schedulerTick_succ many (by rw [small]; exact placed) alive
      rw [Nat.add_zero, placed] at found
      cases found
      rw [small] at ticked
      change some sys.schedulerTick = _
      rw [ticked]
  | succ count ih =>
      obtain ⟨other, placed, alive⟩ := live (sys.current + 1) (by omega) (by omega)
      obtain ⟨inside, -⟩ := List.getElem?_eq_some_iff.mp placed
      have small : (sys.current + 1) % sys.tasks.length = sys.current + 1 :=
        Nat.mod_eq_of_lt inside
      have many : 1 < sys.tasks.length := by omega
      have ticked := schedulerTick_succ many (by rw [small]; exact placed) alive
      rw [small] at ticked
      have later : sys.current + 1 + count + 1 = sys.current + (count + 1) + 1 := by omega
      have rest := @ih sys.schedulerTick
        (by
          rw [ticked]
          dsimp only
          exact fun index above below => live index (by omega) (by omega))
        (by
          rw [ticked]
          dsimp only
          rw [later]
          exact found)
      rw [replicate_succ]
      change Runs.after step sys.schedulerTick _ = _
      rw [rest, ticked]
      dsimp only
      rw [later]

end System

namespace Loader

theorem setupLinuxStack_low {pml4 atBase ticks rsp : Nat} {elfBytes : Elf.Bytes}
    {prog : Elf.Program} {argv envp : List Elf.Bytes} {state final : Machine × Process}
    (ran : setupLinuxStack pml4 elfBytes prog atBase ticks argv envp state = (.ok rsp, final)) :
    ∃ layout, stackLayout elfBytes prog atBase ticks argv envp = .ok layout ∧
      final.2.stackLow = layout.regionStart := by
  unfold setupLinuxStack at ran
  cases built : stackLayout elfBytes prog atBase ticks argv envp with
  | error message =>
      rw [built] at ran
      cases ran
  | ok layout =>
      rw [built] at ran
      obtain ⟨_, _, -, ran⟩ := bind_eq_ok ran
      obtain ⟨_, _, -, ran⟩ := bind_eq_ok ran
      obtain ⟨_, _, -, ran⟩ := bind_eq_ok ran
      obtain ⟨_, _, -, ran⟩ := bind_eq_ok ran
      obtain ⟨_, _, -, ran⟩ := bind_eq_ok ran
      obtain ⟨_, _, updated, ran⟩ := bind_eq_ok ran
      cases updated
      cases ran
      exact ⟨layout, rfl, rfl⟩

end Loader

namespace System

theorem loadLinux_low {layout : Layout} {prog : Elf.Program} {elfBytes : Elf.Bytes}
    {argv envp : List Elf.Bytes} {ticks pml4 : Nat} {readFile : String → Option Elf.Bytes}
    {state final : Machine × Process} (alone : prog.interp = none)
    (ran : loadLinux layout prog elfBytes argv envp ticks readFile state = (.ok pml4, final)) :
    ∃ placed, stackLayout elfBytes prog 0 ticks argv envp = .ok placed ∧
      final.2.stackLow = placed.regionStart := by
  unfold loadLinux at ran
  obtain ⟨_, _, -, ran⟩ := bind_eq_ok ran
  obtain ⟨_, _, -, ran⟩ := bind_eq_ok ran
  obtain ⟨⟨entry, base⟩, _, loaded, ran⟩ := bind_eq_ok ran
  unfold loadInterpreter at loaded
  rw [alone] at loaded
  cases loaded
  obtain ⟨_, _, -, ran⟩ := bind_eq_ok ran
  obtain ⟨_, _, stacked, ran⟩ := bind_eq_ok ran
  obtain ⟨placed, built, low⟩ := setupLinuxStack_low stacked
  obtain ⟨_, _, updated, ran⟩ := bind_eq_ok ran
  cases updated
  cases ran
  exact ⟨placed, built, low⟩

theorem spawnLinux_low {prog : Elf.Program} {elfBytes : Elf.Bytes} {argv envp : List Elf.Bytes}
    {ticks pid : Nat} {readFile : String → Option Elf.Bytes} {sys after : System}
    (accepted : acceptProgram sys.layout Process.pieLoadBase elfBytes = .ok prog)
    (alone : prog.interp = none)
    (ran : spawnLinux elfBytes argv envp ticks readFile sys = (.ok (.ok pid), after)) :
    ∃ placed proc, stackLayout elfBytes prog 0 ticks argv envp = .ok placed ∧
      after.processAt pid = some proc ∧ proc.stackLow = placed.regionStart := by
  unfold spawnLinux at ran
  rw [accepted] at ran
  dsimp only at ran
  cases located : heapStartOf prog.segments with
  | none =>
      rw [located] at ran
      cases ran
  | some heapStart =>
      rw [located] at ran
      obtain ⟨pml4, machine, built, loaded, rfl, rfl⟩ := launch_eq_ok ran
      obtain ⟨placed, laidOut, low⟩ := loadLinux_low alone loaded
      exact ⟨placed, built, laidOut, by rw [processAt_append, if_pos rfl], low⟩

end System

namespace Boot

/-! ### Machines with one region of RAM -/

def ofRam (length : Nat) : Boot :=
  { regions := [{ base := 0x100000, length, regionType := 1 }]
    kernelEnd := 0x200000
    pml4 := 0x101000
    memory := fun _ => 0#8 }

def plain : Boot :=
  { regions := [{ base := 0x100000, length := 0xFF00000, regionType := 1 }]
    kernelEnd := 0x200000
    pml4 := 0x101000
    memory := fun _ => 0#8 }

def RamFits (length : Nat) : Prop :=
  length % 4096 = 0 ∧ 0x7700000 ≤ length ∧ length ≤ 0xFF00000

theorem ofRam_valid (length : Nat) : (ofRam length).Valid :=
  { aligned := show 0x101000 % 4096 = 0 by decide
    above := show kernelStart ≤ 0x101000 by decide
    below := show 0x101000 + 6 * 4096 ≤ 0x200000 by decide
    bounded := show 0x200000 ≤ identityMapEnd by decide }

theorem plain_valid : plain.Valid :=
  ofRam_valid 0xFF00000

section

variable {length : Nat}

theorem ofRam_scan (fits : RamFits length) (pmm : Pmm) (none' : pmm.lastUsableFrame = 0) :
    (ofRam length).regions.foldl Pmm.initRegion pmm =
      { pmm.clearFrames 256 (length / 4096) with lastUsableFrame := 255 + length / 4096 } := by
  obtain ⟨whole, lower, upper⟩ := fits
  have size : Pmm.frameSize = 4096 := rfl
  have first : alignUp 0x100000 / Pmm.frameSize = 256 := by decide
  have last : min (alignDown ((0x100000 + length) % wordLimit)) Pmm.maxPhysMem / Pmm.frameSize =
      256 + length / 4096 := by
    have limit : Pmm.maxPhysMem = 0x10000000 := by decide
    have word : wordLimit = 18446744073709551616 := rfl
    rw [Nat.mod_eq_of_lt (by omega)]
    unfold alignDown
    rw [size, limit]
    omega
  have amount : 256 + length / 4096 - 256 = length / 4096 := by omega
  have top : 256 + length / 4096 - 1 = 255 + length / 4096 := by omega
  simp only [ofRam, foldl_cons, foldl_nil, Pmm.initRegion, first, last, none', amount, top]
  rw [if_neg (by decide), if_neg (by decide), if_pos (by omega)]

theorem ofRam_lastUsableFrame (fits : RamFits length) :
    (ofRam length).initialPmm.lastUsableFrame = 255 + length / 4096 := by
  have scanned := congrArg Pmm.lastUsableFrame
    (ofRam_scan fits { bitmap := fun _ => 0xFF#8, lastUsableFrame := 0 } rfl)
  exact (Pmm.init_lastUsableFrame _ _ _).trans scanned

theorem ofRam_free (fits : RamFits length) (frame : Nat) : (ofRam length).initialPmm.Free frame ↔
    frame % 4096 = 0 ∧ 0x4000000 ≤ frame ∧ frame < 0x100000 + length := by
  have size : Pmm.frameSize = 4096 := rfl
  have limit := ofRam_lastUsableFrame fits
  obtain ⟨whole, lower, upper⟩ := fits
  constructor
  · intro free
    refine ⟨Pmm.free_aligned free, (free_initialPmm (ofRam_valid length).bounded free).1, ?_⟩
    obtain ⟨index, rfl, inside, -⟩ := free
    rw [size]
    omega
  · rintro ⟨aligned, above, below⟩
    refine ⟨frame / 4096, by rw [size]; omega, by rw [limit]; omega, ?_⟩
    have stop : (ofRam length).kernelEnd = 0x200000 := rfl
    have image : min (alignUp (min (kernelStart + (0x200000 - kernelStart)) (wordLimit - 1)))
        Pmm.maxPhysMem / 4096 = 512 := by decide
    have low : min (alignUp (min (0 + Pmm.lowReservedEnd) (wordLimit - 1))) Pmm.maxPhysMem / 4096 =
        16384 := by decide
    have scanned := ofRam_scan ⟨whole, lower, upper⟩
      { bitmap := fun _ => 0xFF#8, lastUsableFrame := 0 } rfl
    unfold initialPmm
    rw [stop, Pmm.frameIsFree_init, scanned, image, low, Pmm.frameIsFree_with,
      Pmm.frameIsFree_clearFrames]
    simp only [Bool.and_eq_true, Bool.or_eq_true, decide_eq_true_eq]
    omega

theorem ofRam_start (fits : RamFits length) : ∃ pmm,
    (ofRam length).start =
      some ((ofRam length).firstSystem (ofRam length).bootTables 0x4000000 pmm) ∧
    ∀ frame, pmm.Free frame ↔
      frame % 4096 = 0 ∧ 0x6800000 ≤ frame ∧ frame < 0x100000 + length := by
  have amount : heapSize / Pmm.frameSize = 10240 := by decide
  have size : Pmm.frameSize = 4096 := rfl
  have free : (ofRam length).initialPmm.FreeRun 0x4000000 10240 := by
    intro index inside
    rw [ofRam_free fits, size]
    have lower := fits.2.1
    omega
  obtain ⟨phys, pmm, given, low⟩ :=
    Pmm.allocContiguous_of_freeRun (show 0 < 10240 by decide) free
  obtain ⟨-, block, -, -, -⟩ := Pmm.allocContiguous_some given
  have first := (ofRam_free fits _).mp (block 0 (by decide))
  obtain rfl : phys = 0x4000000 := by omega
  refine ⟨pmm, ?_, ?_⟩
  · unfold start
    rw [amount, given]
    rfl
  · intro frame
    rw [Pmm.free_allocContiguous given, ofRam_free fits]
    omega

end

theorem plain_fits : RamFits 0xFF00000 :=
  ⟨by decide, by decide, by decide⟩

theorem plain_start : ∃ pmm,
    plain.start = some (plain.firstSystem plain.bootTables 0x4000000 pmm) ∧
    ∀ frame, pmm.Free frame ↔ frame % 4096 = 0 ∧ 0x6800000 ≤ frame ∧ frame < 0x10000000 :=
  ofRam_start plain_fits

end Boot

namespace Elf

def gigabyteImage : Bytes :=
  execHeader 0x40000000 1 ++ bssHeader 0x40000000 4096

def gigabyteProgram : Program :=
  staticProgram 0x40000000 [bssSegment 0x40000000 4096]

end Elf

namespace Boot

def gigabyteCover (addr : Nat) : Prop :=
  (0x40000000 ≤ addr ∧ addr < 0x40001000) ∨
    (Process.userStackLowLimit ≤ addr ∧ addr < Process.userStackTop)

theorem linuxRanges_gigabyte : System.linuxRanges Elf.gigabyteProgram none =
    [(0x40000000, 0x40001000), (Process.userStackLowLimit, Process.userStackTop)] := by
  decide +kernel

theorem claims_gigabyte :
    System.Claims gigabyteCover (System.linuxRanges Elf.gigabyteProgram none) := by
  rw [linuxRanges_gigabyte]
  intro range mem addr lower upper
  simp only [mem_cons, not_mem_nil, or_false] at mem
  rcases mem with rfl | rfl
  · exact Or.inl ⟨lower, upper⟩
  · exact Or.inr ⟨lower, upper⟩

theorem far_gigabyte : ∀ addr, 0x6800000 ≤ addr → addr < 0x7800000 → ¬ gigabyteCover addr := by
  have low : Process.userStackLowLimit = 0xFF00000 := by decide
  intro addr lower upper
  unfold gigabyteCover
  omega

theorem stackLayout_gigabyte : ∃ placed,
    stackLayout Elf.gigabyteImage Elf.gigabyteProgram 0 0 [] [] = .ok placed := by
  have fine : (stackLayout Elf.gigabyteImage Elf.gigabyteProgram 0 0 [] []).isOk = true := by
    decide +kernel
  cases built : stackLayout Elf.gigabyteImage Elf.gigabyteProgram 0 0 [] [] with
  | error message =>
      rw [built] at fine
      cases fine
  | ok placed => exact ⟨placed, rfl⟩

theorem stackLow_gigabyte {placed : StackLayout}
    (built : stackLayout Elf.gigabyteImage Elf.gigabyteProgram 0 0 [] [] = .ok placed) :
    placed.regionStart = 0xFFFF000 := by
  have low : (stackLayout Elf.gigabyteImage Elf.gigabyteProgram 0 0 [] []).toOption.map
      StackLayout.regionStart = some 0xFFFF000 := by
    decide +kernel
  rw [built] at low
  exact Option.some.inj low

theorem stock_beyond {cover : Nat → Prop} {pmm : Pmm} {count limit : Nat}
    (far : ∀ addr, 0x6800000 ≤ addr → addr < 0x7800000 → ¬ cover addr)
    (free : ∀ frame, pmm.Free frame ↔ frame % 4096 = 0 ∧ 0x6800000 ≤ frame ∧ frame < limit)
    (room : 0x7800000 ≤ limit) (few : count ≤ 4096) :
    Pmm.Stock (fun frame => ¬ cover frame) True count pmm := by
  have size : Pmm.frameSize = 4096 := rfl
  have run : pmm.FreeRun 0x6800000 count := by
    intro index inside
    rw [free, size]
    omega
  refine ⟨Or.inr ⟨0x6800000, run, fun frame isFree inside => ?_⟩, fun _ => ⟨_, run⟩⟩
  have bounds := (free frame).mp isFree
  rw [size] at inside
  exact far frame bounds.2.1 (by omega)

/-- The process of a static program, spawned by the first system of a machine with room for it
away from the addresses the program claims. -/
theorem ofRam_spawns {length count : Nat} {elfBytes : Elf.Bytes} {prog : Elf.Program}
    {heapStart : Nat} {cover : Nat → Prop} (fits : RamFits length)
    (accepted : ∀ layout : Layout, layout.heapStart = 0x4000000 → layout.heapEnd = 0x6800000 →
      System.acceptProgram layout Process.pieLoadBase elfBytes = .ok prog)
    (alone : prog.interp = none) (heap : System.heapStartOf prog.segments = some heapStart)
    (laidOut : ∃ placed, stackLayout elfBytes prog 0 0 [] [] = .ok placed)
    (claims : System.Claims cover (System.linuxRanges prog none))
    (far : ∀ addr, 0x6800000 ≤ addr → addr < 0x7800000 → ¬ cover addr)
    (few : System.imageFrames prog.segments + 263 + count ≤ 4096) :
    ∃ sys machine proc space,
    (ofRam length).start = some sys ∧
    (sys.layout.heapStart = 0x4000000 ∧ sys.layout.heapEnd = 0x6800000) ∧
    sys.tasks = List.replicate 4 { cr3 := (ofRam length).pml4, process := none } ∧ sys.current = 0 ∧
    System.spawnLinux elfBytes [] [] 0 (fun _ => none) sys =
      (.ok (.ok 4),
        { sys with
          machine, tasks := sys.tasks ++ [{ cr3 := space.pml4, process := some proc }] }) ∧
    System.Delivers (kernelSpace (ofRam length).pml4) (ofRam length).initialPmm.Free cover
      sys.machine.mem True count (System.linuxRanges prog none)
      (System.newProcess prog.entry heapStart .linux) space machine proc := by
  obtain ⟨pmm, started, free⟩ := ofRam_start fits
  have ready := ready_start (ofRam_valid length) started
  obtain ⟨sys, named⟩ : ∃ sys,
      (ofRam length).firstSystem (ofRam length).bootTables 0x4000000 pmm = sys := ⟨_, rfl⟩
  have layout : sys.layout.heapStart = 0x4000000 ∧ sys.layout.heapEnd = 0x6800000 := by
    rw [← named]
    exact ⟨rfl, rfl⟩
  have tasks : sys.tasks = List.replicate 4 { cr3 := (ofRam length).pml4, process := none } ∧
      sys.current = 0 := by
    rw [← named]
    exact ⟨rfl, rfl⟩
  have samePmm : sys.machine.pmm = pmm := by
    rw [← named]
    rfl
  rw [named] at started ready
  have interpreted : System.acceptInterpreter sys.layout (fun _ => none) prog = .ok none := by
    unfold System.acceptInterpreter
    rw [alone]
  have stock : Pmm.Stock (fun frame => ¬ cover frame) True
      (6 + (System.imageFrames prog.segments +
        (System.interpreterFrames sys.layout (fun _ => none) prog +
          (Process.userStackMaxPages + (1 + count))))) sys.machine.pmm := by
    have none' : System.interpreterFrames sys.layout (fun _ => none) prog = 0 := by
      unfold System.interpreterFrames
      rw [interpreted]
    have pages : Process.userStackMaxPages = 256 := rfl
    rw [samePmm, none', pages]
    exact stock_beyond far free (by have lower := fits.2.1; omega) (by omega)
  obtain ⟨machine, proc, space, spawned, delivers⟩ :=
    ready.spawnLinux (accepted sys.layout layout.1 layout.2) heap interpreted laidOut claims stock
  rw [show sys.tasks.length = 4 by rw [tasks.1]; rfl] at spawned
  exact ⟨sys, machine, proc, space, started, layout, tasks.1, tasks.2, spawned, delivers⟩

theorem ofRam_spawn {length : Nat} (fits : RamFits length) : ∃ sys machine proc space,
    (ofRam length).start = some sys ∧
    sys.tasks = List.replicate 4 { cr3 := (ofRam length).pml4, process := none } ∧ sys.current = 0 ∧
    System.spawnLinux Elf.gigabyteImage [] [] 0 (fun _ => none) sys =
      (.ok (.ok 4),
        { sys with
          machine, tasks := sys.tasks ++ [{ cr3 := space.pml4, process := some proc }] }) ∧
    System.Delivers (kernelSpace (ofRam length).pml4) (ofRam length).initialPmm.Free gigabyteCover sys.machine.mem
      True 2048 (System.linuxRanges Elf.gigabyteProgram none)
      (System.newProcess 0x40000000 0x40002000 .linux) space machine proc ∧
    proc.stackLow = 0xFFFF000 := by
  have accepted : ∀ layout : Layout, layout.heapStart = 0x4000000 →
      layout.heapEnd = 0x6800000 →
      System.acceptProgram layout Process.pieLoadBase Elf.gigabyteImage =
        .ok Elf.gigabyteProgram := by
    intro layout start stop
    unfold System.acceptProgram
    rw [start, stop]
    decide +kernel
  obtain ⟨sys, machine, proc, space, started, layout, tasks, main, spawned, delivers⟩ :=
    ofRam_spawns fits accepted rfl (show System.heapStartOf _ = some 0x40002000 by decide +kernel)
      stackLayout_gigabyte claims_gigabyte far_gigabyte
      (show System.imageFrames _ + 263 + 2048 ≤ 4096 by decide +kernel)
  refine ⟨sys, machine, proc, space, started, tasks, main, spawned, delivers, ?_⟩
  obtain ⟨placed, other, laidOut, found, low⟩ :=
    System.spawnLinux_low (accepted sys.layout layout.1 layout.2) rfl spawned
  rw [System.processAt_append, if_pos (by rw [tasks]; rfl)] at found
  rw [Option.some.inj found, low]
  exact stackLow_gigabyte laidOut

def gigabyteEvents : List System.Event :=
  [.spawnLinux Elf.gigabyteImage [] [] 0 (fun _ => none), .schedule, .schedule, .schedule,
    .schedule]

theorem ofRam_running {length : Nat} (fits : RamFits length) : ∃ first sys machine proc space,
    (ofRam length).start = some first ∧ (ofRam length).run gigabyteEvents = some sys ∧
    sys =
      { first with
        machine := { machine with cr3 := space.pml4 }
        tasks := List.replicate 4 { cr3 := (ofRam length).pml4, process := none } ++
          [{ cr3 := space.pml4, process := some proc }]
        current := 4 } ∧
    System.Delivers (kernelSpace (ofRam length).pml4) (ofRam length).initialPmm.Free gigabyteCover first.machine.mem
      True 2048 (System.linuxRanges Elf.gigabyteProgram none)
      (System.newProcess 0x40000000 0x40002000 .linux) space machine proc ∧
    proc.stackLow = 0xFFFF000 := by
  obtain ⟨first, machine, proc, space, started, tasks, main, spawned, delivers, low⟩ :=
    ofRam_spawn fits
  have live : proc.state = .running := congrArg Process.state delivers.record
  refine ⟨first, _, machine, proc, space, started, ?_, rfl, delivers, low⟩
  have launched : System.step first (.spawnLinux Elf.gigabyteImage [] [] 0 (fun _ => none)) =
      some { first with
        machine
        tasks := List.replicate 4 { cr3 := (ofRam length).pml4, process := none } ++
          [{ cr3 := space.pml4, process := some proc }] } := by
    rw [tasks] at spawned
    exact System.step_of_ok (System.onMainTask_of_ok main spawned)
  obtain ⟨middle, named⟩ : ∃ middle : System, middle = { first with
      machine
      tasks := List.replicate 4 { cr3 := (ofRam length).pml4, process := none } ++
        [{ cr3 := space.pml4, process := some proc }] } := ⟨_, rfl⟩
  have table : middle.tasks = List.replicate 4 { cr3 := (ofRam length).pml4, process := none } ++
      [{ cr3 := space.pml4, process := some proc }] := by rw [named]
  have current : middle.current = 0 := by
    rw [named]
    exact main
  rw [← named] at launched
  have switched := @System.run_schedules middle { cr3 := space.pml4, process := some proc } 3
    (by
      intro index above below
      rw [table]
      rw [current] at above below
      interval_cases index
      · exact ⟨_, rfl, rfl⟩
      · exact ⟨_, rfl, rfl⟩
      · exact ⟨_, rfl, rfl⟩
      · exact ⟨_, rfl, by simp [Task.isExited, live]⟩)
    (by
      rw [table, current]
      rfl)
  unfold run
  rw [started]
  simp only [Option.bind_some, gigabyteEvents, Runs.after, launched]
  change Runs.after System.step middle (List.replicate (3 + 1) .schedule) = _
  rw [switched, current, named]

theorem plain_running : ∃ first sys machine proc space,
    plain.start = some first ∧ plain.run gigabyteEvents = some sys ∧
    sys =
      { first with
        machine := { machine with cr3 := space.pml4 }
        tasks := List.replicate 4 { cr3 := plain.pml4, process := none } ++
          [{ cr3 := space.pml4, process := some proc }]
        current := 4 } ∧
    System.Delivers (kernelSpace plain.pml4) plain.initialPmm.Free gigabyteCover first.machine.mem
      True 2048 (System.linuxRanges Elf.gigabyteProgram none)
      (System.newProcess 0x40000000 0x40002000 .linux) space machine proc := by
  obtain ⟨first, sys, machine, proc, space, started, ran, named, delivers, -⟩ :=
    ofRam_running plain_fits
  exact ⟨first, sys, machine, proc, space, started, ran, named, delivers⟩

end Boot
end MachaOS
