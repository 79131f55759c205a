/-
Where a load that succeeds, and a process that is created, have put their pages.

The record of a load tells where its block is and which range it covers, and the plan for that
block is what `load_segments` mapped.
-/

import MachaOS.ImageBytes

namespace MachaOS

open List
open Fallible Paging Loader

namespace Loader

/-- A run of `load_segments` that took the block at `mapping.phys`, mapped the pages planned for
it one by one, and recorded `mapping`. -/
structure LoadedAs (pml4 : Nat) (segments : List Elf.Segment) (before after : Machine × Process)
    (mapping : Mapping) : Prop where
  mapped : ∃ placed opened,
    allocBlock (mapping.len / pageSize) before = (.ok mapping.phys, placed) ∧
    mapPlanned pml4 (plan mapping.phys mapping.vaddr mapping.len segments).pages placed =
      (.ok (), opened)
  recorded : after.2.mappings = before.2.mappings ++ [mapping]

variable {pml4 start stop : Nat} {segments : List Elf.Segment} {data : Elf.Bytes}
  {before after : Machine × Process}

theorem loadSegments_loadedAs (span : Span segments start stop)
    (ran : loadSegments pml4 segments data before = (.ok (), after)) :
    ∃ phys, LoadedAs pml4 segments before after
      { vaddr := start, phys, len := stop - start, shmId := none } := by
  obtain ⟨added, ⟨⟨taken, grown⟩, -⟩, -, recorded⟩ :=
    records_loadSegments data span _ _ _ ran (by simp)
  obtain ⟨block, rfl⟩ := recorded () rfl
  have kept : after.2.mappings = before.2.mappings ++ _ := grown.mappings
  rw [loadSegments_planned pml4 data span] at ran
  obtain ⟨phys, placed, given, ran⟩ := bind_eq_ok ran
  obtain ⟨_, opened, mapped, ran⟩ := bind_eq_ok ran
  obtain ⟨_, cleared, -, ran⟩ := bind_eq_ok ran
  obtain ⟨_, copied, -, ran⟩ := bind_eq_ok ran
  have last : after.2.mappings =
      copied.2.mappings ++ [{ vaddr := start, phys, len := stop - start, shmId := none }] := by
    cases ran
    rfl
  -- The block of the record is the block the pages were planned for.
  have same : block = phys := by
    have ends := (append_inj' (kept.symm.trans last) rfl).2
    exact congrArg Mapping.phys (cons.inj ends).1
  subst same
  exact ⟨block, ⟨placed, opened, given, mapped⟩, kept⟩

theorem loadSegments_inTerritory_iff {heapStart heapEnd : Nat} (ordered : heapStart ≤ heapEnd)
    (nonempty : segments ≠ []) (accepted : ∀ seg ∈ segments, Accepted heapStart heapEnd seg)
    (ran : loadSegments pml4 segments data before = (.ok (), after)) :
    ∃ mapping, LoadedAs pml4 segments before after mapping ∧
      ((∀ page ∈ (plan mapping.phys mapping.vaddr mapping.len segments).pages,
          InTerritory heapStart heapEnd page.1) ↔
        OneSide segments (heapStart - 1024 * 1024) (heapEnd + 1024 * 1024) ∧
          OneSide segments Process.userStackLowLimit (Process.userExitStubVirt + pageSize)) := by
  obtain ⟨start, stop, span⟩ := Span.exists_of_ne_nil nonempty
  obtain ⟨phys, loadedAs⟩ := loadSegments_loadedAs span ran
  refine ⟨_, loadedAs, ?_⟩
  rw [← System.pages_inTerritory_iff ordered nonempty accepted, span.loadedPages_eq,
    ← plan_pages_virt phys start (stop - start) segments, forall_mem_map]

end Loader

namespace System

theorem loadLinux_loads {layout : Layout} {prog : Elf.Program} {elfBytes : Elf.Bytes}
    {argv envp : List Elf.Bytes} {ticks pml4 : Nat} {readFile : String → Option Elf.Bytes}
    {state final : Machine × Process}
    (ran : loadLinux layout prog elfBytes argv envp ticks readFile state = (.ok pml4, final)) :
    ∃ table before after,
      loadSegments table prog.segments elfBytes before = (.ok (), after) := by
  unfold loadLinux at ran
  obtain ⟨table, before, -, ran⟩ := bind_eq_ok ran
  obtain ⟨_, after, loaded, -⟩ := bind_eq_ok ran
  exact ⟨table, before, after, loaded⟩

theorem spawnLinux_loads {prog : Elf.Program} {elfBytes : Elf.Bytes} {argv envp : List Elf.Bytes}
    {ticks pid : Nat} {readFile : String → Option Elf.Bytes} {sys after : System}
    (accepted : acceptProgram sys.layout Process.pieLoadBase elfBytes = .ok prog)
    (ran : spawnLinux elfBytes argv envp ticks readFile sys = (.ok (.ok pid), after)) :
    ∃ pml4 before middle,
      loadSegments pml4 prog.segments elfBytes before = (.ok (), middle) := by
  unfold spawnLinux at ran
  rw [accepted] at ran
  dsimp only at ran
  cases located : heapStartOf prog.segments with
  | none =>
      rw [located] at ran
      cases ran
  | some heapStart =>
      rw [located] at ran
      obtain ⟨_, _, _, loaded, -, -⟩ := launch_eq_ok ran
      exact loadLinux_loads loaded

/-- A load that succeeds stays in the validated territory exactly when no segments lie on both
sides of a forbidden range; image, interpreter and stack of a process that is created are
disjoint exactly when, besides, the two images do not interleave. -/
theorem loading_in_territory_iff (elfBytes : Elf.Bytes) :
    (∀ (bias heapStart heapEnd : Nat) (prog : Elf.Program),
      heapStart ≤ heapEnd → Elf.parse elfBytes = .ok prog →
      validateSegments heapStart heapEnd (applyBias bias prog).segments = .ok () →
      ∀ (pml4 : Nat) (before after : Machine × Process),
        loadSegments pml4 (applyBias bias prog).segments elfBytes before = (.ok (), after) →
        ∃ mapping, LoadedAs pml4 (applyBias bias prog).segments before after mapping ∧
          ((∀ page ∈
              (plan mapping.phys mapping.vaddr mapping.len (applyBias bias prog).segments).pages,
              InTerritory heapStart heapEnd page.1) ↔
            OneSide (applyBias bias prog).segments (heapStart - 1024 * 1024)
                (heapEnd + 1024 * 1024) ∧
              OneSide (applyBias bias prog).segments Process.userStackLowLimit
                (Process.userExitStubVirt + pageSize))) ∧
    (∀ (argv envp : List Elf.Bytes) (ticks pid : Nat) (readFile : String → Option Elf.Bytes)
        (sys after : System),
      spawnLinux elfBytes argv envp ticks readFile sys = (.ok (.ok pid), after) →
      ∃ prog interp proc,
        acceptProgram sys.layout Process.pieLoadBase elfBytes = .ok prog ∧
        acceptInterpreter sys.layout readFile prog = .ok interp ∧
        after.processAt pid = some proc ∧
        proc.mappings.map Mapping.range = linuxRanges prog interp ∧
        ((proc.mappings.map Mapping.range).Pairwise RangesApart ↔
          OneSide prog.segments Process.userStackLowLimit
              (Process.userExitStubVirt + pageSize) ∧
            ∀ image, interp = some image →
              OneSide image.segments Process.userStackLowLimit
                  (Process.userExitStubVirt + pageSize) ∧
                ImagesApart prog.segments image.segments)) := by
  refine ⟨?_, ?_⟩
  · intro bias heapStart heapEnd prog ordered parsed validated pml4 before after ran
    exact loadSegments_inTerritory_iff ordered (applyBias_ne_nil (Elf.parse_loadable parsed).1)
      (validateSegments_ok validated) ran
  · intro argv envp ticks pid readFile sys after ran
    obtain ⟨prog, interp, proc, accepted, found, placed, ranges⟩ := spawnLinux_ranges ran
    refine ⟨prog, interp, proc, accepted, found, placed, ranges, ?_⟩
    rw [ranges]
    refine linuxRanges_apart_iff (acceptProgram_ok accepted) ?_
    rintro image rfl
    exact acceptInterpreter_ok found

end System

namespace Boot

open MachaOS.System

theorem not_interleaved_gigabyte : OneSide Elf.gigabyteProgram.segments Process.userStackLowLimit
      (Process.userExitStubVirt + pageSize) ∧
    OneSide Elf.gigabyteProgram.segments (0x4000000 - 1024 * 1024) (0x6800000 + 1024 * 1024) := by
  refine ⟨Or.inr ?_, Or.inr ?_⟩ <;>
    simp only [Elf.gigabyteProgram, Elf.staticProgram, mem_singleton, forall_eq] <;>
    decide +kernel

/-- The program at 1 GiB, loaded and spawned. -/
theorem loading_in_territory_gigabyte : ∃ sys after proc,
    plain.start = some sys ∧
    spawnLinux Elf.gigabyteImage [] [] 0 (fun _ => none) sys = (.ok (.ok 4), after) ∧
    after.processAt 4 = some proc ∧
    (proc.mappings.map Mapping.range).Pairwise RangesApart ∧
    ∃ pml4 first last mapping,
      LoadedAs pml4 Elf.gigabyteProgram.segments first last mapping ∧
      ∀ page ∈ (plan mapping.phys mapping.vaddr mapping.len Elf.gigabyteProgram.segments).pages,
        InTerritory 0x4000000 0x6800000 page.1 := by
  obtain ⟨sys, machine, built, space, started, -, -, spawned, -⟩ := ofRam_spawn plain_fits
  obtain ⟨territory, apart⟩ := loading_in_territory_iff Elf.gigabyteImage
  obtain ⟨prog, interp, proc, accepted, found, placed, -, disjoint⟩ :=
    apart [] [] 0 4 (fun _ => none) sys _ spawned
  have parsed : Elf.parse Elf.gigabyteImage = .ok Elf.gigabyteProgram := by decide +kernel
  have unbiased : applyBias Process.pieLoadBase Elf.gigabyteProgram = Elf.gigabyteProgram := by
    unfold applyBias
    rw [if_neg (by decide)]
  obtain rfl : prog = Elf.gigabyteProgram := by
    unfold acceptProgram at accepted
    obtain ⟨other, isParsed, accepted⟩ := Elf.except_bind_ok accepted
    obtain rfl := Except.ok.inj (parsed.symm.trans isParsed)
    obtain ⟨_, -, accepted⟩ := Elf.except_bind_ok accepted
    exact (Except.ok.inj accepted).symm.trans unbiased
  obtain rfl : interp = none := (Except.ok.inj found).symm
  obtain ⟨pml4, first, last, loaded⟩ := spawnLinux_loads accepted spawned
  have run := territory Process.pieLoadBase 0x4000000 0x6800000 _ (by decide) parsed
    (by decide +kernel) pml4 first last (by rw [unbiased]; exact loaded)
  rw [unbiased] at run
  obtain ⟨mapping, loadedAs, inside⟩ := run
  exact ⟨sys, _, proc, started, spawned, placed,
    disjoint.mpr ⟨not_interleaved_gigabyte.1, by simp⟩, pml4, first, last, mapping, loadedAs,
    inside.mpr ⟨not_interleaved_gigabyte.2, not_interleaved_gigabyte.1⟩⟩

def wideCover (addr : Nat) : Prop :=
  0xFE00000 ≤ addr ∧ addr < 0x10002000

theorem linuxRanges_wide : linuxRanges Elf.wideProgram none =
    [(0xFE00000, 0x10002000), (Process.userStackLowLimit, Process.userStackTop)] := by
  decide +kernel

theorem claims_wide : Claims wideCover (linuxRanges Elf.wideProgram none) := by
  rw [linuxRanges_wide]
  intro range mem addr lower upper
  have low : Process.userStackLowLimit = 0xFF00000 := by decide
  have top : Process.userStackTop = 0x10000000 := by decide
  unfold wideCover
  simp only [mem_cons, not_mem_nil, or_false] at mem
  rcases mem with rfl | rfl
  · exact ⟨lower, upper⟩
  · dsimp only at lower upper
    omega

/-- Segments right below and right above the reserved stack region: the validator accepts each of
them, the load succeeds, and the pages between them are those of the stack. -/
theorem wideImage_leaves_territory : ∃ sys after proc,
    Elf.parse Elf.wideImage = .ok Elf.wideProgram ∧
    validateSegments 0x4000000 0x6800000 Elf.wideProgram.segments = .ok () ∧
    plain.start = some sys ∧
    spawnLinux Elf.wideImage [] [] 0 (fun _ => none) sys = (.ok (.ok 4), after) ∧
    after.processAt 4 = some proc ∧
    ¬ (proc.mappings.map Mapping.range).Pairwise RangesApart ∧
    ∃ pml4 first last mapping,
      loadSegments pml4 Elf.wideProgram.segments Elf.wideImage first = (.ok (), last) ∧
      LoadedAs pml4 Elf.wideProgram.segments first last mapping ∧
      ∃ page ∈ (plan mapping.phys mapping.vaddr mapping.len Elf.wideProgram.segments).pages,
        page.1 = Process.userStackLowLimit ∧ ¬ InTerritory 0x4000000 0x6800000 page.1 := by
  have accepted : ∀ layout : Layout, layout.heapStart = 0x4000000 → layout.heapEnd = 0x6800000 →
      acceptProgram layout Process.pieLoadBase Elf.wideImage = .ok Elf.wideProgram := by
    intro layout start stop
    unfold acceptProgram
    rw [start, stop]
    decide +kernel
  have laidOut : ∃ placed, stackLayout Elf.wideImage Elf.wideProgram 0 0 [] [] = .ok placed := by
    have fine : (stackLayout Elf.wideImage Elf.wideProgram 0 0 [] []).isOk = true := by
      decide +kernel
    cases built : stackLayout Elf.wideImage Elf.wideProgram 0 0 [] [] with
    | error message =>
        rw [built] at fine
        cases fine
    | ok placed => exact ⟨placed, rfl⟩
  have far : ∀ addr, 0x6800000 ≤ addr → addr < 0x7800000 → ¬ wideCover addr := by
    intro addr lower upper covered
    have above := covered.1
    omega
  obtain ⟨sys, machine, proc, space, started, layout, tasks, -, spawned, delivers⟩ :=
    ofRam_spawns plain_fits accepted rfl
      (show heapStartOf _ = some 0x10003000 by decide +kernel) laidOut claims_wide far
      (show imageFrames _ + 263 + 0 ≤ 4096 by decide +kernel)
  obtain ⟨pml4, first, last, loaded⟩ :=
    spawnLinux_loads (accepted sys.layout layout.1 layout.2) spawned
  have span : Span Elf.wideProgram.segments 0xFE00000 0x10002000 :=
    ⟨by decide +kernel, by decide +kernel⟩
  obtain ⟨phys, loadedAs⟩ := loadSegments_loadedAs span loaded
  have inside : Process.userStackLowLimit ∈
      (plan phys 0xFE00000 0x202000 Elf.wideProgram.segments).pages.map Prod.fst := by
    rw [plan_pages_virt, mem_pagesFrom]
    exact ⟨256, by decide, by decide⟩
  obtain ⟨page, mem, named⟩ := mem_map.mp inside
  refine ⟨sys, _, proc, by decide +kernel, by decide +kernel, started, spawned, ?_, ?_,
    pml4, first, last, _, loaded, loadedAs, page, mem, named, ?_⟩
  · rw [processAt_append, if_pos (by rw [tasks]; rfl)]
  · rw [delivers.ranges, linuxRanges_wide]
    intro apart
    have both := (pairwise_cons.mp apart).1 _ (mem_singleton.mpr rfl)
    revert both
    unfold RangesApart
    decide
  · rw [named]
    intro territory
    rcases territory.stack with below | above
    · revert below
      decide
    · revert above
      decide

end Boot
end MachaOS
