/-
The initial stack of a Linux process, read back.

`setup_linux_stack` serializes the strings, the program headers and the random
bytes first and the pointer table later, when the place of the data is known.
What a program finds from its stack pointer upwards is the System V layout of
its arguments, its environment and its auxiliary vector.
-/

import MachaOS.ImageBytes
import MachaOS.Lib.Reading

namespace MachaOS
namespace Loader

open List
open Fallible Machine Paging Reading

def auxEntry (aux : List (Nat × Nat)) (kind : Nat) : Option Nat :=
  (aux.find? (fun pair => pair.1 = kind)).map Prod.snd

structure StackContents where
  argvPtrs : List Nat
  envpPtrs : List Nat
  aux : List (Nat × Nat)
  phdr : Nat
  random : Nat

namespace StackContents

/-- `argc`, the argument pointers and a NULL, the environment and a NULL, the vector. -/
def words (contents : StackContents) : List Nat :=
  contents.argvPtrs.length :: (contents.argvPtrs ++ 0 :: (contents.envpPtrs ++ 0 ::
    contents.aux.flatMap (fun pair => [pair.1, pair.2])))

def regions (contents : StackContents) (rsp : Nat) (prog : Elf.Program)
    (argv envp : List Elf.Bytes) : List (Nat × Nat) :=
  (rsp, 8 * contents.words.length) ::
    (contents.argvPtrs.zip (argv.map (fun text => text.length + 1)) ++
      (contents.envpPtrs.zip (envp.map (fun text => text.length + 1)) ++
        ((if phdrInSegment prog = none then
            [(contents.phdr, prog.phentsize * prog.phnum)]
          else []) ++ [(contents.random, 16)])))

end StackContents

/-- A program that reads the System V layout from `rsp` finds what it was started with. -/
structure Decodes (read : Reader) (rsp : Nat) (prog : Elf.Program) (atBase : Nat)
    (argv envp : List Elf.Bytes) (contents : StackContents) : Prop where
  words : Words read rsp contents.words
  arguments : List.Forall₂ (CString read) contents.argvPtrs argv
  environment : List.Forall₂ (CString read) contents.envpPtrs envp
  pointers : ∀ pointer, pointer ∈ contents.argvPtrs ++ contents.envpPtrs → pointer ≠ 0
  ends : ∃ body, contents.aux = body ++ [(0, 0)] ∧ ∀ pair, pair ∈ body → pair.1 ≠ 0
  execfn : auxEntry contents.aux 31 = contents.argvPtrs.head?
  random : auxEntry contents.aux 25 = some contents.random ∧
    ∃ bytes : Elf.Bytes, bytes.length = 16 ∧ Holds read contents.random bytes
  phdr : auxEntry contents.aux 3 = some contents.phdr
  entry : auxEntry contents.aux 9 = some prog.entry
  phnum : auxEntry contents.aux 5 = some prog.phnum
  phent : auxEntry contents.aux 4 = some prog.phentsize
  base : auxEntry contents.aux 7 = some atBase
  apart : (contents.regions rsp prog argv envp).Pairwise RegionsApart
  within : ∀ region, region ∈ contents.regions rsp prog argv envp →
    rsp ≤ region.1 ∧ region.1 + region.2 ≤ Process.userStackTop

theorem pushStrings_eq (texts : List Elf.Bytes) (data : Elf.Bytes) :
    pushStrings texts data = (data ++ terminated texts, placed texts data.length) := by
  induction texts generalizing data with
  | nil => rw [pushStrings, terminated, flatMap_nil, append_nil, placed]
  | cons text rest ih =>
      have length : (data ++ text ++ [0#8]).length = data.length + (text.length + 1) := by
        simp only [length_append, length_singleton]
        omega
      rw [pushStrings, ih, length, placed, terminated, terminated, flatMap_cons]
      simp only [append_assoc]

structure Serialized (elfBytes : Elf.Bytes) (prog : Elf.Program) (argv envp : List Elf.Bytes)
    (copy random : Elf.Bytes) (data : StackData) : Prop where
  bytes : data.bytes = terminated argv ++ (terminated envp ++ (copy ++ random))
  argvOffsets : data.argvOffsets = placed argv 0
  envpOffsets : data.envpOffsets = placed envp (terminated argv).length
  randomOff : data.randomOff = ((terminated argv).length + (terminated envp).length) + copy.length
  sixteen : random.length = 16
  headers : (phdrInSegment prog = none ∧
      Elf.slice elfBytes prog.phoff (prog.phentsize * prog.phnum) = some copy ∧
      data.phdrOff = some ((terminated argv).length + (terminated envp).length)) ∨
    (phdrInSegment prog ≠ none ∧ copy = [] ∧ data.phdrOff = none)

theorem serializeStackData_ok {elfBytes : Elf.Bytes} {prog : Elf.Program} {ticks : Nat}
    {argv envp : List Elf.Bytes} {data : StackData}
    (serialized : serializeStackData elfBytes prog ticks argv envp = .ok data) :
    ∃ copy random, Serialized elfBytes prog argv envp copy random data := by
  have sixteen : (randomBytes ticks prog.entry).length = 16 := by
    unfold randomBytes
    rw [length_map, length_range]
  unfold serializeStackData at serialized
  rw [pushStrings_eq] at serialized
  dsimp only at serialized
  rw [pushStrings_eq] at serialized
  simp only [nil_append, length_nil] at serialized
  split at serialized
  · rename_i place found
    cases serialized
    refine ⟨[], randomBytes ticks prog.entry, ?_⟩
    exact
      { bytes := by simp only [append_assoc, nil_append]
        argvOffsets := rfl
        envpOffsets := rfl
        randomOff := by
          rw [length_append]
          rfl
        sixteen
        headers := Or.inr ⟨by rw [found]; exact Option.some_ne_none _, rfl, rfl⟩ }
  · rename_i missing
    split at serialized
    · cases serialized
    · rename_i headers found
      cases serialized
      refine ⟨headers, randomBytes ticks prog.entry, ?_⟩
      exact
        { bytes := by simp only [append_assoc]
          argvOffsets := rfl
          envpOffsets := rfl
          randomOff := by simp only [length_append]
          sixteen
          headers := Or.inl ⟨missing, found, by
            rw [length_append]⟩ }

/-- What `pointerTable` writes for data placed at `dataVaddr`. -/
def tableContents (prog : Elf.Program) (atBase dataVaddr : Nat) (data : StackData) :
    StackContents :=
  let phdr :=
    match data.phdrOff with
    | some offset => dataVaddr + offset
    | none => (phdrInSegment prog).getD 0
  { argvPtrs := data.argvOffsets.map (fun offset => dataVaddr + offset)
    envpPtrs := data.envpOffsets.map (fun offset => dataVaddr + offset)
    aux := auxv prog atBase phdr (dataVaddr + data.randomOff)
      (data.argvOffsets.head?.map (fun offset => dataVaddr + offset))
    phdr
    random := dataVaddr + data.randomOff }

theorem pointerTable_eq {argc : Nat} (prog : Elf.Program) (atBase dataVaddr : Nat)
    {data : StackData} (count : data.argvOffsets.length = argc) :
    pointerTable prog atBase argc dataVaddr data =
      (tableContents prog atBase dataVaddr data).words.flatMap (leBytes 8) := by
  have bytes : toLeBytes = leBytes 8 := rfl
  subst count
  unfold pointerTable StackContents.words tableContents
  dsimp only
  cases data.phdrOff with
  | none =>
      simp only [bytes, flatMap_cons, flatMap_append, flatMap_map,
        flatMap_assoc, flatMap_nil, append_nil, length_map, append_assoc]
  | some offset =>
      simp only [bytes, flatMap_cons, flatMap_append, flatMap_map,
        flatMap_assoc, flatMap_nil, append_nil, length_map, append_assoc]

theorem length_words (words : List Nat) :
    8 * words.length = (words.flatMap (leBytes 8)).length := by
  induction words with
  | nil => rfl
  | cons word rest ih =>
      rw [flatMap_cons, length_append, length_leBytes, ← ih, length_cons]
      omega

theorem stackLayout_eq {elfBytes : Elf.Bytes} {prog : Elf.Program} {atBase ticks : Nat}
    {argv envp : List Elf.Bytes} {layout : StackLayout}
    (built : stackLayout elfBytes prog atBase ticks argv envp = .ok layout) :
    layout.finalRsp % 16 = 0 ∧ ∃ copy random data,
      Serialized elfBytes prog argv envp copy random data ∧ layout.data = data.bytes ∧
      layout.table =
        (tableContents prog atBase layout.dataVaddr data).words.flatMap (leBytes 8) := by
  unfold stackLayout at built
  cases serialized : serializeStackData elfBytes prog ticks argv envp with
  | error message =>
      rw [serialized] at built
      cases built
  | ok data =>
      rw [serialized] at built
      obtain ⟨copy, random, blob⟩ := serializeStackData_ok serialized
      obtain ⟨count, -⟩ := Laid.serializeStackData_counts serialized
      unfold placeStack at built
      dsimp only at built
      generalize (1 + (argv.length + 1) + (envp.length + 1) +
        (17 + (if data.argvOffsets = [] then 0 else 1)) * 2) * 8 = tableLen at built
      split at built
      · cases built
      · split at built
        · cases built
        · cases built
          exact ⟨Nat.mul_mod_left _ _, copy, random, data, blob, rfl, pointerTable_eq _ _ _ count⟩

theorem auxEntry_auxv (prog : Elf.Program) (atBase phdr random : Nat) (execfn : Option Nat) :
    auxEntry (auxv prog atBase phdr random execfn) 31 = execfn ∧
      auxEntry (auxv prog atBase phdr random execfn) 25 = some random ∧
      auxEntry (auxv prog atBase phdr random execfn) 3 = some phdr ∧
      auxEntry (auxv prog atBase phdr random execfn) 9 = some prog.entry ∧
      auxEntry (auxv prog atBase phdr random execfn) 5 = some prog.phnum ∧
      auxEntry (auxv prog atBase phdr random execfn) 4 = some prog.phentsize ∧
      auxEntry (auxv prog atBase phdr random execfn) 7 = some atBase := by
  refine ⟨?_, rfl, rfl, rfl, rfl, rfl, rfl⟩
  cases execfn with
  | none => rfl
  | some place => rfl

theorem auxv_ends (prog : Elf.Program) (atBase phdr random : Nat) (execfn : Option Nat) :
    ∃ body, auxv prog atBase phdr random execfn = body ++ [(0, 0)] ∧
      ∀ pair, pair ∈ body → pair.1 ≠ 0 := by
  refine ⟨_, rfl, ?_⟩
  intro pair member isNull
  have key : 0 ∈ List.map Prod.fst _ := mem_map.mpr ⟨pair, member, isNull⟩
  cases execfn with
  | none =>
      change 0 ∈ [4, 5, 6, 7, 8, 9, 11, 12, 13, 14, 16, 26, 17, 23, 3, 25] at key
      revert key
      decide
  | some place =>
      change 0 ∈ [4, 5, 6, 7, 8, 9, 11, 12, 13, 14, 16, 26, 17, 23, 3, 25, 31] at key
      revert key
      decide

theorem auxv_lt {prog : Elf.Program} {atBase phdr random : Nat} {execfn : Option Nat}
    (phdrSmall : phdr < 2 ^ 64) (randomSmall : random < 2 ^ 64) (entry : prog.entry < 2 ^ 64)
    (phnum : prog.phnum < 2 ^ 64) (phent : prog.phentsize < 2 ^ 64)
    (base : atBase < 2 ^ 64) (execfnSmall : ∀ place, execfn = some place → place < 2 ^ 64) :
    ∀ pair, pair ∈ auxv prog atBase phdr random execfn →
      pair.1 < 2 ^ 64 ∧ pair.2 < 2 ^ 64 := by
  have size : pageSize = 4096 := rfl
  intro pair member
  unfold auxv at member
  simp only [mem_append, mem_cons, not_mem_nil, or_false, Option.mem_toList,
    Option.map_eq_some_iff] at member
  rcases member with (listed | ⟨place, found, rfl⟩) | rfl
  · rcases listed with
      rfl | rfl | rfl | rfl | rfl | rfl | rfl | rfl | rfl | rfl | rfl | rfl | rfl | rfl | rfl | rfl
    all_goals
      dsimp only
      omega
  · have small := execfnSmall place found
    dsimp only
    omega
  · decide

/-! ### Into memory -/

theorem mem_stackBlock {phys offset : Nat} (inside : offset < 0x100000) :
    phys + offset / 4096 * 4096 ∈ Pmm.frameRun phys Process.userStackMaxPages := by
  have pages : Process.userStackMaxPages = 256 := rfl
  rw [pages, Pmm.mem_frameRun]
  exact ⟨offset / 4096, by omega, rfl⟩

namespace Setting

variable {reach : Nat → Prop} {space : Space} {machine : Machine} {proc : Process}

theorem copyPair {first second : Nat} {bytes bytes' : List (BitVec 8)}
    (setting : Setting reach space machine)
    (reserved : ∀ frame, Touches first bytes.length frame ∨ Touches second bytes'.length frame →
      Reserved reach space machine frame) :
    ∃ middle mem, Machine.copyBytes first bytes machine = (.ok (), { machine with mem := middle }) ∧
      Machine.copyBytes second bytes' { machine with mem := middle } =
        (.ok (), { machine with mem }) ∧
      mem = machine.mem.writeChunks [(first, bytes), (second, bytes')] ∧
      Setting reach space { machine with mem } ∧
      Space.AgreeOutside (fun frame => Touches first bytes.length frame ∨
        Touches second bytes'.length frame) machine.mem mem := by
  obtain ⟨tabled, setting₁⟩ := @copyBytes reach space machine first bytes setting
    (fun frame touches => reserved frame (Or.inl touches))
  obtain ⟨copied, setting₂⟩ := @copyBytes reach space _ second bytes' setting₁
    (fun frame touches => by
      have here := reserved frame (Or.inr touches)
      exact ⟨here.reached, here.apart, here.used⟩)
  refine ⟨_, _, tabled, copied, rfl, setting₂, ?_⟩
  exact ((agreeOutside_writeBytes machine.mem first bytes).mono (fun _ => Or.inl)).trans
    ((agreeOutside_writeBytes _ second bytes').mono (fun _ => Or.inr))

theorem initStackBacking (setting : Setting reach space machine) :
    Yields Loader.initStackBacking (machine, proc)
      (fun _ state => ∃ phys, state.2 =
          { proc with
            frames := proc.frames ++ Pmm.frameRun phys Process.userStackMaxPages
            stackPhysBase := phys
            mappings := proc.mappings ++ [stackMapping phys] } ∧
        machine.pmm.allocContiguous Process.userStackMaxPages = (some phys, state.1.pmm) ∧
        phys % 4096 = 0 ∧ phys + 0x100000 ≤ identityMapEnd ∧ Setting reach space state.1 ∧
        (∀ frame, frame ∈ Pmm.frameRun phys Process.userStackMaxPages →
          machine.pmm.Free frame ∧ Reserved reach space state.1 frame) ∧
        ∀ kept, (∀ frame, kept frame → Reserved reach space machine frame) →
          Keeping reach kept machine.mem space state.1)
      (fun failure _ => (∃ message, failure = .refused message) ∧
        (machine.pmm.allocContiguous Process.userStackMaxPages).1 = none) := by
  have pages : Process.userStackMaxPages = 256 := rfl
  have frameSize : Pmm.frameSize = 4096 := rfl
  unfold Loader.initStackBacking
  refine setting.allocBlock.bind ?_
  rintro phys state ⟨pmm, given, rfl, setting₁, block, fewer⟩
  obtain ⟨-, -, -, aligned, -⟩ := Pmm.allocContiguous_some given
  have high : phys + 0x100000 ≤ identityMapEnd := by
    have last := (block (phys + 255 * 4096) (Pmm.mem_frameRun.mpr ⟨255, by decide, rfl⟩)).2.reached
    have bounded := setting.editing.bounded _ last
    have fourGiB : identityMapEnd = 4294967296 := rfl
    omega
  have inBlock : ∀ frame, Touches phys (Process.userStackMaxPages * Pmm.frameSize) frame →
      frame ∈ Pmm.frameRun phys Process.userStackMaxPages := by
    intro frame touches
    have inside := @Touches.mem_frameRun phys Process.userStackMaxPages 0
      (Process.userStackMaxPages * Pmm.frameSize) frame aligned (by rw [Nat.zero_add, frameSize])
    exact inside touches
  obtain ⟨cleared, setting₂⟩ := @zeroBytes reach space { machine with pmm } phys
    (Process.userStackMaxPages * Pmm.frameSize) setting₁
    (fun frame touches => (block frame (inBlock frame touches)).2)
  refine Yields.after (onMachine_of_ok cleared) ?_
  refine yields_of_ok rfl ⟨phys, rfl, given, aligned, high, setting₂, ?_, ?_⟩
  · intro frame member
    obtain ⟨wasFree, reserved⟩ := block frame member
    exact ⟨wasFree, reserved.reached, reserved.apart, reserved.used⟩
  · intro kept isReserved
    refine Keeping.write ((Keeping.start isReserved).take fewer) setting₁
      (agreeOutside_writeBytes machine.mem phys
        (List.replicate (Process.userStackMaxPages * Pmm.frameSize) 0#8)) ?_
    intro frame touches isKept
    rw [length_replicate] at touches
    exact (isReserved frame isKept).used (block frame (inBlock frame touches)).1

end Setting

structure StackPlaced (reach : Nat → Prop) (layout : StackLayout) (phys : Nat)
    (before after : Space) (machine : Machine) (proc : Process) : Prop where
  setting : Setting reach after machine
  pml4 : after.pml4 = before.pml4
  views : ∀ page, page < 2 ^ 20 → after.view page =
    if layout.regionStart ≤ page * 4096 ∧ page * 4096 < Process.userStackTop then
      some (leafFor Process.dataFlags (phys + (page * 4096 - Process.userStackLowLimit)))
    else before.view page
  table : ∀ k, k < layout.table.length →
    machine.mem (phys + (layout.finalRsp - Process.userStackLowLimit) + k) =
      layout.table.getD k 0#8
  data : ∀ k, k < layout.data.length →
    machine.mem (phys + (layout.dataVaddr - Process.userStackLowLimit) + k) =
      layout.data.getD k 0#8
  low : proc.stackLow = layout.regionStart
  base : proc.stackPhysBase = phys

def EnoughForStack (pmm : Pmm) : Prop :=
  ∃ phys after, pmm.allocContiguous Process.userStackMaxPages = (some phys, after) ∧
    after.Stocked 1

theorem Setting.setupLinuxStack {reach : Nat → Prop} {space : Space} {machine : Machine}
    {proc : Process} {elfBytes : Elf.Bytes} {prog : Elf.Program} {atBase ticks : Nat}
    {argv envp : List Elf.Bytes} (setting : Setting reach space machine) :
    Yields (Loader.setupLinuxStack space.pml4 elfBytes prog atBase ticks argv envp)
      (machine, proc)
      (fun rsp state => ∃ layout phys after,
        stackLayout elfBytes prog atBase ticks argv envp = .ok layout ∧
        rsp = layout.finalRsp ∧
        StackPlaced reach layout phys space after state.1 state.2 ∧
        (∀ kept, (∀ frame, kept frame → Reserved reach space machine frame) →
          Setting.Keeping reach kept machine.mem after state.1) ∧
        state.2.mappings = proc.mappings ++ [stackMapping phys])
      (fun failure _ => (∃ message, failure = .refused message) ∧
        ¬ ((∃ layout, stackLayout elfBytes prog atBase ticks argv envp = .ok layout) ∧
          EnoughForStack machine.pmm)) := by
  unfold Loader.setupLinuxStack
  cases built : stackLayout elfBytes prog atBase ticks argv envp with
  | error message =>
      refine yields_of_error rfl ⟨⟨message, rfl⟩, ?_⟩
      rintro ⟨⟨layout, laidOut⟩, -⟩
      cases laidOut
  | ok layout =>
      have shape := Laid.stackLayout_ok built
      obtain ⟨startAligned, startBelow, rounded⟩ := shape.aligned
      have ⟨_, low, below, adjacent, top⟩ := shape
      have limit : Process.userStackLowLimit = 0xFF00000 := rfl
      have topOf : Process.userStackTop = 0x10000000 := rfl
      have fourGiB : identityMapEnd = 4294967296 := rfl
      have valid : ValidRange layout.regionStart (Process.userStackTop - layout.regionStart) :=
        ⟨startAligned, by omega, by omega, by omega⟩
      have oneTable : tablesNeeded space (layout.regionStart / 4096)
          ((Process.userStackTop - layout.regionStart) / 4096) ≤ 1 := by
        refine (tablesNeeded_le_blocksTouched valid).trans ?_
        unfold blocksTouched
        omega
      have fitsTable : layout.finalRsp - Process.userStackLowLimit + layout.table.length ≤
          0x100000 := by omega
      have fitsData : layout.dataVaddr - Process.userStackLowLimit + layout.data.length ≤
          0x100000 := by omega
      dsimp only
      refine setting.initStackBacking.bind_with ?_ (by
        rintro failure state ⟨refused, missing⟩
        refine ⟨refused, ?_⟩
        rintro ⟨-, phys, after, given, -⟩
        rw [given] at missing
        cases missing)
      rintro - ⟨machine₁, proc₁⟩ ⟨phys, rfl, given, aligned, high, setting₁, block, keeps⟩
      dsimp only at given setting₁ block keeps
      have inBlock : ∀ offset len frame, offset + len ≤ 0x100000 →
          Touches (phys + offset) len frame →
          frame ∈ Pmm.frameRun phys Process.userStackMaxPages := by
        intro offset len frame fits touches
        exact Touches.mem_frameRun aligned fits touches
      have written : ∀ frame,
          Touches (phys + (layout.finalRsp - Process.userStackLowLimit)) layout.table.length frame ∨
            Touches (phys + (layout.dataVaddr - Process.userStackLowLimit)) layout.data.length
              frame → frame ∈ Pmm.frameRun phys Process.userStackMaxPages := by
        rintro frame (touches | touches)
        · exact inBlock _ _ frame fitsTable touches
        · exact inBlock _ _ frame fitsData touches
      obtain ⟨middle, mem, tabled, copied, named, setting₃, agree⟩ := @Setting.copyPair reach space
        machine₁ (phys + (layout.finalRsp - Process.userStackLowLimit))
        (phys + (layout.dataVaddr - Process.userStackLowLimit)) layout.table layout.data setting₁
        (fun frame touches => (block frame (written frame touches)).2)
      have tableAt := shape.tableAt phys
      have dataAt := shape.dataAt phys
      have current : ∀ state : Machine × Process, Loader.process state = (.ok state.2, state) :=
        fun _ => rfl
      refine Yields.after (current _) ?_
      dsimp only [Process.stackPhysFor]
      rw [tableAt, dataAt, rounded]
      refine Yields.after (onMachine_of_ok tabled) (Yields.after (onMachine_of_ok copied) ?_)
      have reserved : ∀ frame, frame ∈ Pmm.frameRun phys Process.userStackMaxPages →
          Reserved reach space { machine₁ with mem } frame :=
        fun frame member => ⟨(block frame member).2.reached, (block frame member).2.apart,
          (block frame member).2.used⟩
      have mapped := @Setting.mapOrRefuse reach space _
        { proc with
          frames := proc.frames ++ Pmm.frameRun phys Process.userStackMaxPages
          stackPhysBase := phys
          mappings := proc.mappings ++ [stackMapping phys] }
        layout.regionStart (phys + (layout.regionStart - Process.userStackLowLimit))
        (Process.userStackTop - layout.regionStart) Process.dataFlags setting₃
        valid (by omega) (by omega) "failed to map linux-style stack"
      refine mapped.bind_with ?_ (by
        rintro failure state ⟨rfl, short⟩
        refine ⟨⟨_, rfl⟩, ?_⟩
        rintro ⟨-, other, left, again, stocked⟩
        rw [given] at again
        cases again
        exact short (stocked.of_le oneTable))
      rintro - ⟨machine₄, proc₄⟩ ⟨fresh, after, rfl, setting₄, extends₄, views, -⟩
      dsimp only at setting₄ extends₄
      refine yields_of_ok rfl ⟨layout, phys, after, rfl, rfl, ?_, ?_, rfl⟩
      · -- Mapping the pages leaves the bytes of the block alone.
        have same : ∀ offset, offset < 0x100000 →
            machine₄.mem (phys + offset) = mem (phys + offset) := by
          intro offset inside
          exact setting₃.sameOn_extend (reserved _ (mem_stackBlock inside)) extends₄
            (phys + offset) (by omega) (by omega)
        have apart : [(phys + (layout.finalRsp - Process.userStackLowLimit), layout.table),
            (phys + (layout.dataVaddr - Process.userStackLowLimit), layout.data)].Pairwise
              ByteMemory.ChunksApart := by
          refine pairwise_pair.mpr (Or.inl ?_)
          dsimp only
          omega
        exact
          { setting := setting₄
            pml4 := extends₄.pml4
            views := by
              intro page inside
              rw [views.views page inside]
              have range : (layout.regionStart / 4096 ≤ page ∧ page < layout.regionStart / 4096 +
                  (Process.userStackTop - layout.regionStart) / 4096) ↔
                  layout.regionStart ≤ page * 4096 ∧ page * 4096 < Process.userStackTop := by
                omega
              by_cases mappedHere : layout.regionStart ≤ page * 4096 ∧
                  page * 4096 < Process.userStackTop
              · have place : phys + (layout.regionStart - Process.userStackLowLimit) +
                    (page - layout.regionStart / 4096) * 4096 =
                      phys + (page * 4096 - Process.userStackLowLimit) := by omega
                rw [if_pos mappedHere, if_pos (range.mpr mappedHere), place]
              · rw [if_neg mappedHere, if_neg (fun both => mappedHere (range.mp both))]
            table := by
              intro k inside
              rw [Nat.add_assoc, same _ (by omega), ← Nat.add_assoc, named]
              exact ByteMemory.writeChunks_inside apart mem_cons_self inside
            data := by
              intro k inside
              rw [Nat.add_assoc, same _ (by omega), ← Nat.add_assoc, named]
              exact ByteMemory.writeChunks_inside apart
                (mem_cons_of_mem _ mem_cons_self) inside
            low := rfl
            base := rfl }
      · intro kept isReserved
        refine Setting.Keeping.extend (Setting.Keeping.write (keeps kept isReserved) setting₁ agree
          ?_) setting₃ extends₄
        intro frame touches isKept
        exact (isReserved frame isKept).used (block frame (written frame touches)).1

theorem Setting.setupLinuxStack_runs {reach : Nat → Prop} {space : Space} {machine : Machine}
    {proc : Process} {elfBytes : Elf.Bytes} {prog : Elf.Program} {atBase ticks : Nat}
    {argv envp : List Elf.Bytes} (setting : Setting reach space machine)
    (laidOut : ∃ layout, stackLayout elfBytes prog atBase ticks argv envp = .ok layout)
    (enough : EnoughForStack machine.pmm) :
    ∃ rsp machine' proc', Loader.setupLinuxStack space.pml4 elfBytes prog atBase ticks argv
      envp (machine, proc) = (.ok rsp, (machine', proc')) := by
  have yields := @setting.setupLinuxStack reach space machine proc elfBytes prog atBase ticks
    argv envp
  rcases ran : Loader.setupLinuxStack space.pml4 elfBytes prog atBase ticks argv envp
    (machine, proc) with ⟨failure | rsp, machine', proc'⟩
  · exact absurd ⟨laidOut, enough⟩ (yields.of_error ran).2
  · exact ⟨rsp, machine', proc', rfl⟩

/-! ### The blob, read back -/

section

variable {read : Reader} {elfBytes copy random : Elf.Bytes} {prog : Elf.Program} {atBase rsp : Nat}
  {argv envp : List Elf.Bytes} {data : StackData} {dataVaddr : Nat}

section

variable (blob : Serialized elfBytes prog argv envp copy random data)
include blob

theorem tableContents_ptrs (atBase dataVaddr : Nat) :
    (tableContents prog atBase dataVaddr data).argvPtrs = placed argv dataVaddr ∧
      (tableContents prog atBase dataVaddr data).envpPtrs =
        placed envp (dataVaddr + (terminated argv).length) := by
  unfold tableContents
  dsimp only
  rw [blob.argvOffsets, blob.envpOffsets, placed_map, placed_map, Nat.add_zero]
  exact ⟨rfl, rfl⟩

theorem regions_eq
    (place : dataVaddr = rsp + 8 * (tableContents prog atBase dataVaddr data).words.length) :
    (tableContents prog atBase dataVaddr data).regions rsp prog argv envp =
      tiles rsp (8 * (tableContents prog atBase dataVaddr data).words.length ::
        (argv.map (fun text => text.length + 1) ++ (envp.map (fun text => text.length + 1) ++
          ((if phdrInSegment prog = none then [copy.length] else []) ++ [16])))) := by
  obtain ⟨argvPtrs, envpPtrs⟩ := tableContents_ptrs blob atBase dataVaddr
  unfold StackContents.regions
  rw [tiles, ← place, tiles_append, tiles_append, tiles_append, argvPtrs, envpPtrs, zip_placed,
    length_terminated, zip_placed]
  have starts : dataVaddr + (argv.map (fun text => text.length + 1)).sum +
      (envp.map (fun text => text.length + 1)).sum =
        dataVaddr + ((terminated argv).length + (terminated envp).length) := by
    rw [length_terminated, length_terminated, Nat.add_assoc]
  rw [starts]
  rcases blob.headers with ⟨missing, found, offset⟩ | ⟨found, empty, offset⟩
  · have size : copy.length = prog.phentsize * prog.phnum := by
      unfold Elf.slice at found
      split at found
      · obtain rfl := Option.some.inj found
        rw [length_take, length_drop]
        omega
      · cases found
    have phdr : (tableContents prog atBase dataVaddr data).phdr =
        dataVaddr + ((terminated argv).length + (terminated envp).length) := by
      unfold tableContents
      dsimp only
      rw [offset]
    have last : (tableContents prog atBase dataVaddr data).random =
        dataVaddr + ((terminated argv).length + (terminated envp).length) +
          (prog.phentsize * prog.phnum) := by
      unfold tableContents
      dsimp only
      rw [blob.randomOff, size, ← Nat.add_assoc]
    rw [if_pos missing, if_pos missing, phdr, last, size]
    rfl
  · have last : (tableContents prog atBase dataVaddr data).random =
        dataVaddr + ((terminated argv).length + (terminated envp).length) := by
      unfold tableContents
      dsimp only
      rw [blob.randomOff, empty, length_nil, Nat.add_zero]
    rw [if_neg found, if_neg found, last]
    rfl

theorem words_lt (below : dataVaddr + data.bytes.length ≤ Process.userStackTop)
    (count : argv.length < 2 ^ 32)
    (phdrs : ∀ place, phdrInSegment prog = some place → place < 2 ^ 64)
    (fields : prog.entry < 2 ^ 64 ∧ prog.phnum < 2 ^ 64 ∧ prog.phentsize < 2 ^ 64 ∧
      atBase < 2 ^ 64) :
    ∀ word, word ∈ (tableContents prog atBase dataVaddr data).words → word < 256 ^ 8 := by
  obtain ⟨entry, phnum, phent, base⟩ := fields
  obtain ⟨argvPtrs, envpPtrs⟩ := tableContents_ptrs blob atBase dataVaddr
  have top : Process.userStackTop = 0x10000000 := rfl
  have size : pageSize = 4096 := rfl
  have length : data.bytes.length = (terminated argv).length +
      ((terminated envp).length + (copy.length + random.length)) := by
    rw [blob.bytes, length_append, length_append, length_append]
  have sixteen := blob.sixteen
  have phdr : (tableContents prog atBase dataVaddr data).phdr < 2 ^ 64 := by
    unfold tableContents
    dsimp only
    rcases blob.headers with ⟨-, -, offset⟩ | ⟨-, -, offset⟩
    · rw [offset]
      dsimp only
      omega
    · rw [offset]
      dsimp only
      cases found : phdrInSegment prog with
      | none => decide
      | some place => exact phdrs place found
  have lastPlace : (tableContents prog atBase dataVaddr data).random < 2 ^ 64 := by
    unfold tableContents
    dsimp only
    rw [blob.randomOff]
    omega
  have fromArgv : ∀ pointer, pointer ∈ placed argv dataVaddr → pointer < 2 ^ 64 := by
    intro pointer member
    have inside := mem_placed member
    omega
  have fromEnvp : ∀ pointer, pointer ∈ placed envp (dataVaddr + (terminated argv).length) →
      pointer < 2 ^ 64 := by
    intro pointer member
    have inside := mem_placed member
    omega
  have execfn : ∀ place, (placed argv dataVaddr).head? = some place → place < 2 ^ 64 :=
    fun place found => fromArgv place (mem_of_mem_head? found)
  have aux : ∀ pair, pair ∈ (tableContents prog atBase dataVaddr data).aux →
      pair.1 < 2 ^ 64 ∧ pair.2 < 2 ^ 64 := by
    have execfn' : ∀ place, data.argvOffsets.head?.map (fun offset => dataVaddr + offset) =
        some place → place < 2 ^ 64 := by
      intro place found
      rw [← List.head?_map, blob.argvOffsets, placed_map, Nat.add_zero] at found
      exact execfn place found
    exact auxv_lt phdr lastPlace entry phnum phent base execfn'
  intro word member
  have power : 256 ^ 8 = 2 ^ 64 := by decide
  rw [power]
  unfold StackContents.words at member
  rw [argvPtrs, envpPtrs] at member
  simp only [mem_cons, mem_append, mem_flatMap, not_mem_nil, or_false] at member
  rcases member with rfl | isArgv | rfl | isEnvp | rfl | ⟨pair, isPair, rfl | rfl⟩
  · rw [length_placed]
    omega
  · exact fromArgv word isArgv
  · decide
  · exact fromEnvp word isEnvp
  · decide
  · exact (aux pair isPair).1
  · exact (aux pair isPair).2

theorem decodes_of_holds
    (place : dataVaddr = rsp + 8 * (tableContents prog atBase dataVaddr data).words.length)
    (below : dataVaddr + data.bytes.length ≤ Process.userStackTop)
    (phdrs : ∀ place, phdrInSegment prog = some place → place < 2 ^ 64)
    (fields : prog.entry < 2 ^ 64 ∧ prog.phnum < 2 ^ 64 ∧ prog.phentsize < 2 ^ 64 ∧
      atBase < 2 ^ 64)
    (free : ∀ text, text ∈ argv ++ envp → 0#8 ∉ text)
    (table : Holds read rsp
      ((tableContents prog atBase dataVaddr data).words.flatMap (leBytes 8)))
    (bytes : Holds read dataVaddr data.bytes) :
    Decodes read rsp prog atBase argv envp (tableContents prog atBase dataVaddr data) := by
  obtain ⟨argvPtrs, envpPtrs⟩ := tableContents_ptrs blob atBase dataVaddr
  have positive : 0 < (tableContents prog atBase dataVaddr data).words.length := Nat.succ_pos _
  have top : Process.userStackTop = 0x10000000 := rfl
  have counted : argv.length ≤ (tableContents prog atBase dataVaddr data).words.length := by
    unfold StackContents.words
    rw [length_cons, length_append, argvPtrs, length_placed]
    omega
  have sixteen := blob.sixteen
  have length : data.bytes.length = (terminated argv).length +
      ((terminated envp).length + (copy.length + random.length)) := by
    rw [blob.bytes, length_append, length_append, length_append]
  rw [blob.bytes] at bytes
  obtain ⟨execfn, randomEntry, phdrEntry, entry, phnum, phent, base⟩ :=
    auxEntry_auxv prog atBase (tableContents prog atBase dataVaddr data).phdr
      (dataVaddr + data.randomOff) (data.argvOffsets.head?.map (fun offset => dataVaddr + offset))
  have tiled := regions_eq blob place
  exact
    { words := words_of_holds table (words_lt blob below (by omega) phdrs fields)
      arguments := by
        rw [argvPtrs]
        exact cstrings_of_holds bytes.left (fun text member =>
          free text (mem_append_left _ member))
      environment := by
        rw [envpPtrs]
        exact cstrings_of_holds bytes.right.left (fun text member =>
          free text (mem_append_right _ member))
      pointers := by
        intro pointer member
        rw [argvPtrs, envpPtrs] at member
        rcases mem_append.mp member with isArgv | isEnvp
        · have inside := mem_placed isArgv
          omega
        · have inside := mem_placed isEnvp
          omega
      ends := auxv_ends _ _ _ _ _
      execfn := by
        refine execfn.trans ?_
        rw [argvPtrs, ← List.head?_map, blob.argvOffsets, placed_map, Nat.add_zero]
      random := by
        refine ⟨randomEntry, random, sixteen, ?_⟩
        have here := bytes.right.right.right
        have start : dataVaddr + (terminated argv).length + (terminated envp).length + copy.length =
            (tableContents prog atBase dataVaddr data).random := by
          unfold tableContents
          dsimp only
          rw [blob.randomOff]
          omega
        rw [start] at here
        exact here
      phdr := phdrEntry
      entry
      phnum
      phent
      base
      apart := by
        rw [tiled]
        exact tiles_apart _ _
      within := by
        intro region member
        rw [tiled] at member
        have inside := tiles_within member
        have sum : (if phdrInSegment prog = none then [copy.length] else []).sum =
            copy.length := by
          rcases blob.headers with ⟨missing, -, -⟩ | ⟨found, empty, -⟩
          · rw [if_pos missing, sum_singleton]
          · rw [if_neg found, empty]
            rfl
        rw [sum_cons, sum_append, sum_append, sum_append, sum,
          ← length_terminated, ← length_terminated, sum_singleton] at inside
        omega }

end

theorem phdr_of_holds (blob : Serialized elfBytes prog argv envp copy random data)
    (bytes : Holds read dataVaddr data.bytes) :
    (∀ place, phdrInSegment prog = some place →
      (tableContents prog atBase dataVaddr data).phdr = place) ∧
    (phdrInSegment prog = none → ∃ headers,
      Elf.slice elfBytes prog.phoff (prog.phentsize * prog.phnum) = some headers ∧
      Holds read (tableContents prog atBase dataVaddr data).phdr headers) := by
  unfold tableContents
  dsimp only
  rcases blob.headers with ⟨missing, found, offset⟩ | ⟨inSegment, -, offset⟩
  · refine ⟨fun place isPlace => ?_, fun _ => ⟨copy, found, ?_⟩⟩
    · rw [missing] at isPlace
      cases isPlace
    · rw [offset]
      rw [blob.bytes] at bytes
      have here := bytes.right.right.left
      rw [Nat.add_assoc] at here
      exact here
  · refine ⟨fun place isPlace => ?_, fun missing => absurd missing inSegment⟩
    rw [offset, isPlace]
    rfl

end

/-! ### The stack of a new program -/

section

variable {reach : Nat → Prop} {space after : Space} {machine machine' : Machine}
  {proc proc' : Process} {elfBytes : Elf.Bytes} {prog : Elf.Program}
  {layout : StackLayout} {phys heapStart heapEnd : Nat}

namespace StackPlaced

theorem walk_stack (placed : StackPlaced reach layout phys space after machine proc)
    (startAligned : layout.regionStart % 4096 = 0) {addr : Nat}
    (lower : layout.regionStart ≤ addr) (upper : addr < Process.userStackTop) :
    walk machine.mem space.pml4 addr = some (leafFor Process.dataFlags
      (phys + (addr / 4096 * 4096 - Process.userStackLowLimit))) := by
  have topOf : Process.userStackTop = 0x10000000 := rfl
  have fourGiB : identityMapEnd = 4294967296 := rfl
  rw [← placed.pml4, Space.walk_eq_view placed.setting.editing.wellFormed placed.setting.upward
    placed.setting.editing.represents (by omega), placed.views _ (by omega), if_pos (by omega)]

theorem holds (placed : StackPlaced reach layout phys space after machine proc)
    (startAligned : layout.regionStart % 4096 = 0)
    (low : Process.userStackLowLimit ≤ layout.regionStart) {addr : Nat} {bytes : Elf.Bytes}
    (lower : layout.regionStart ≤ addr)
    (upper : addr + bytes.length ≤ Process.userStackTop)
    (stored : ∀ k, k < bytes.length →
      machine.mem (phys + (addr - Process.userStackLowLimit) + k) = bytes.getD k 0#8) :
    Holds (readThrough machine.mem space.pml4) addr bytes := by
  intro k inside
  have limit : Process.userStackLowLimit = 0xFF00000 := rfl
  have place : phys + ((addr + k) / 4096 * 4096 - Process.userStackLowLimit) +
      (addr + k) % 4096 = phys + (addr - Process.userStackLowLimit) + k := by omega
  unfold readThrough
  rw [placed.walk_stack startAligned (by omega) (by omega), Option.map_some]
  dsimp only [leafFor]
  rw [place, stored k inside, getD_eq_getElem?_getD, List.getElem?_eq_getElem inside,
    Option.getD_some]

end StackPlaced

theorem phdrInSegment_some {place : Nat} (found : phdrInSegment prog = some place) :
    ∃ seg, seg ∈ prog.segments ∧ seg.fileOffset ≤ prog.phoff ∧
      prog.phoff + prog.phentsize * prog.phnum ≤ seg.fileOffset + seg.filesz ∧
      place = seg.vaddr + (prog.phoff - seg.fileOffset) := by
  unfold phdrInSegment at found
  obtain ⟨seg, isFirst, rfl⟩ := Option.map_eq_some_iff.mp found
  have covers := List.find?_some isFirst
  rw [decide_eq_true_eq] at covers
  exact ⟨seg, mem_of_find?_eq_some isFirst, covers.1, covers.2, rfl⟩

theorem headers_in_segment {place : Nat} {headers : Elf.Bytes}
    (placed : StackPlaced reach layout phys space after machine' proc')
    (low : Process.userStackLowLimit ≤ layout.regionStart)
    (keeping : Setting.Keeping reach (Reserved reach space machine) machine.mem after machine')
    (loaded : Loaded reach prog.segments elfBytes space machine)
    (accepted : ∀ seg, seg ∈ prog.segments → Accepted heapStart heapEnd seg)
    (sized : ∀ seg, seg ∈ prog.segments → seg.filesz ≤ seg.memsz ∧
      seg.fileOffset + seg.filesz ≤ elfBytes.length)
    (found : phdrInSegment prog = some place)
    (table : Elf.slice elfBytes prog.phoff (prog.phentsize * prog.phnum) = some headers) :
    Holds (readThrough machine'.mem space.pml4) place headers := by
  have limit : Process.userStackLowLimit = 0xFF00000 := rfl
  have topOf : Process.userStackTop = 0x10000000 := rfl
  have stubOf : Process.userExitStubVirt = 0x10000000 := rfl
  have size : pageSize = 4096 := rfl
  have fourGiB : identityMapEnd = 4294967296 := rfl
  obtain ⟨seg, member, lower, upper, rfl⟩ := phdrInSegment_some found
  obtain ⟨fits, inFile⟩ := sized seg member
  have inTerritory := (accepted seg member).stack
  have below := (accepted seg member).below
  unfold Elf.slice at table
  split at table
  · obtain rfl := Option.some.inj table
    intro k inside
    rw [length_take, length_drop] at inside
    have stored := loaded seg member (prog.phoff - seg.fileOffset + k) (by omega)
    have addr : seg.vaddr + (prog.phoff - seg.fileOffset + k) =
        seg.vaddr + (prog.phoff - seg.fileOffset) + k := by omega
    have offset : seg.fileOffset + (prog.phoff - seg.fileOffset + k) =
        prog.phoff + k := by omega
    rw [addr, offset] at stored
    have view : after.view ((seg.vaddr + (prog.phoff - seg.fileOffset) + k) / 4096) =
        space.view ((seg.vaddr + (prog.phoff - seg.fileOffset) + k) / 4096) := by
      rw [placed.views _ (by omega), if_neg (by omega)]
    have kept := stored.keep view keeping
    rw [← placed.pml4, kept.reads placed.setting (by omega), List.getElem?_take_of_lt (by omega),
      List.getElem?_drop, getD_eq_getElem?_getD, List.getElem?_eq_getElem (by omega),
      Option.getD_some]
  · cases table

/-- Whatever the arguments, the environment and the program: the stack a new Linux process
starts with reads back as what it was set up from. -/
theorem stack_decodes {original : Elf.Program} {bias atBase ticks rsp : Nat}
    {argv envp : List Elf.Bytes} (setting : Setting reach space machine)
    (parsed : Elf.parse elfBytes = .ok original)
    (validated : validateSegments heapStart heapEnd (applyBias bias original).segments = .ok ())
    (base : atBase < wordLimit) (free : ∀ text, text ∈ argv ++ envp → 0#8 ∉ text)
    (ran : Loader.setupLinuxStack space.pml4 elfBytes (applyBias bias original) atBase ticks argv
      envp (machine, proc) = (.ok rsp, (machine', proc'))) :
    rsp % 16 = 0 ∧ proc'.stackLow = alignDown rsp ∧
    (∀ addr, rsp ≤ addr → addr < Process.userStackTop →
      ∃ leaf, walk machine'.mem space.pml4 addr = some leaf ∧ leaf.user = true ∧
        leaf.writable = true) ∧
    ∃ contents, Decodes (readThrough machine'.mem space.pml4) rsp (applyBias bias original) atBase
        argv envp contents ∧
      ∃ headers, Elf.slice elfBytes original.phoff (original.phentsize * original.phnum) =
          some headers ∧
        (phdrInSegment (applyBias bias original) = none ∨
            Loaded reach (applyBias bias original).segments elfBytes space machine →
          Holds (readThrough machine'.mem space.pml4) contents.phdr headers) := by
  have wellFormed := Elf.parse_wellFormed parsed
  have accepted := validateSegments_ok validated
  have sized := sized_applyBias bias wellFormed
  obtain ⟨entryEq, -, phentEq, phnumEq⟩ := wellFormed.header
  have tableInFile := wellFormed.table
  have word : wordLimit = 18446744073709551616 := rfl
  have fourGiB : identityMapEnd = 4294967296 := rfl
  have same : (applyBias bias original).phoff = original.phoff ∧
      (applyBias bias original).phentsize = original.phentsize ∧
      (applyBias bias original).phnum = original.phnum := by
    unfold applyBias
    split <;> exact ⟨rfl, rfl, rfl⟩
  have entry : (applyBias bias original).entry < 2 ^ 64 := by
    unfold applyBias
    split
    · exact Nat.mod_lt _ (by decide)
    · rw [entryEq]
      exact lt_of_lt_of_le (Elf.fromLeBytes_lt _) (Nat.pow_le_pow_right (by decide)
        (List.length_take_le _ _))
  have phnum : original.phnum < 2 ^ 16 := by
    rw [phnumEq]
    exact lt_of_lt_of_le (Elf.fromLeBytes_lt _) (Nat.pow_le_pow_right (by decide)
      (List.length_take_le _ _))
  have phent : original.phentsize = 56 := phentEq
  generalize applyBias bias original = prog at *
  obtain ⟨layout, phys, after, built, rfl, placed, keeps, -⟩ := setting.setupLinuxStack.of_ok ran
  have shape := Laid.stackLayout_ok built
  obtain ⟨startAligned, startBelow, -⟩ := shape.aligned
  obtain ⟨start, low, below, adjacent, top⟩ := shape
  obtain ⟨aligned, copy, random, data, blob, dataEq, tableEq⟩ := stackLayout_eq built
  have tableHolds := placed.holds startAligned low startBelow (by omega) placed.table
  have dataHolds := placed.holds startAligned low (by omega) top placed.data
  rw [tableEq] at tableHolds
  rw [dataEq] at dataHolds
  have place : layout.dataVaddr =
      layout.finalRsp + 8 * (tableContents prog atBase layout.dataVaddr data).words.length := by
    refine adjacent.trans ?_
    rw [tableEq, ← length_words]
  have slice : Elf.slice elfBytes original.phoff (original.phentsize * original.phnum) =
      some ((elfBytes.drop original.phoff).take (original.phentsize * original.phnum)) := by
    unfold Elf.slice
    rw [if_pos (by rw [Nat.mul_comm]; exact tableInFile)]
  obtain ⟨inSegment, embedded⟩ := @phdr_of_holds _ _ _ _ _ atBase _ _ _ _ blob dataHolds
  refine ⟨aligned, ?_, ?_, tableContents prog atBase layout.dataVaddr data, ?_, _, slice, ?_⟩
  · rw [placed.low, start]
  · intro addr lower upper
    exact ⟨_, placed.walk_stack startAligned (by omega) upper,
      show Process.dataFlags.getLsbD 2 = true by decide,
      show Process.dataFlags.getLsbD 1 = true by decide⟩
  · refine decodes_of_holds blob place (by rw [← dataEq]; exact top) ?_ ⟨entry, by omega, by omega,
      base⟩ free tableHolds dataHolds
    intro place found
    obtain ⟨seg, member, offsets, inFile, rfl⟩ := phdrInSegment_some found
    have fits := (accepted seg member).below
    have short := (sized seg member).1
    omega
  · intro reason
    cases found : phdrInSegment prog with
    | none =>
        obtain ⟨headers, sliced, holds⟩ := embedded found
        rw [same.1, same.2.1, same.2.2, slice] at sliced
        rw [Option.some.inj sliced]
        exact holds
    | some place =>
        rcases reason with missing | loaded
        · rw [found] at missing
          cases missing
        · rw [inSegment place found]
          refine headers_in_segment placed low (keeps _ (fun _ reserved => reserved)) loaded accepted
            sized found ?_
          rw [same.1, same.2.1, same.2.2, slice]

end

end Loader

namespace Boot

theorem plain_setup : ∃ machine proc rsp machine' proc', ∃ space : Paging.Space,
    Loader.Setting (fun frame => plain.initialPmm.Free frame ∧ ¬ False) space machine ∧
    proc.mappings = [] ∧
    Loader.setupLinuxStack space.pml4 Elf.gigabyteImage Elf.gigabyteProgram 0 0 [[0x61#8]] []
      (machine, proc) = (.ok rsp, (machine', proc')) := by
  obtain ⟨first, machine, proc, space, -, -, setting, nothing, stock⟩ :=
    plain_setting 0x40000000 0x40002000
  have fine : (Loader.stackLayout Elf.gigabyteImage Elf.gigabyteProgram 0 0 [[0x61#8]] []).isOk =
      true := by decide +kernel
  have laidOut : ∃ layout,
      Loader.stackLayout Elf.gigabyteImage Elf.gigabyteProgram 0 0 [[0x61#8]] [] = .ok layout := by
    cases built : Loader.stackLayout Elf.gigabyteImage Elf.gigabyteProgram 0 0 [[0x61#8]] [] with
    | error message =>
        rw [built] at fine
        cases fine
    | ok layout => exact ⟨layout, rfl⟩
  have enough : Loader.EnoughForStack machine.pmm := by
    have few := stock.of_le (show Process.userStackMaxPages + 1 ≤ 4096 by decide)
    rcases given : machine.pmm.allocContiguous Process.userStackMaxPages with ⟨_ | phys, after⟩
    · exact absurd trivial (few.allocContiguous_none (by decide) given)
    · exact ⟨phys, after, given, (few.allocContiguous_some given).2.stocked trivial⟩
  obtain ⟨rsp, machine', proc', ran⟩ :=
    @Loader.Setting.setupLinuxStack_runs _ _ _ proc _ _ _ _ _ _ setting laidOut enough
  exact ⟨machine, proc, rsp, machine', proc', space, setting, nothing, ran⟩

theorem stack_decodes_gigabyte : ∃ machine rsp contents, ∃ space : Paging.Space,
    rsp % 16 = 0 ∧ Loader.Decodes (Loader.readThrough machine space.pml4) rsp
      Elf.gigabyteProgram 0 [[0x61#8]] [] contents := by
  obtain ⟨machine, proc, rsp, machine', proc', space, setting, -, ran⟩ := plain_setup
  have same : Loader.applyBias 0 Elf.gigabyteProgram = Elf.gigabyteProgram := by
    unfold Loader.applyBias
    rw [if_neg (by decide)]
  have decoded := @Loader.stack_decodes _ space machine machine' proc proc' Elf.gigabyteImage
    0x4000000 0x6800000 Elf.gigabyteProgram 0 0 0 rsp [[0x61#8]] [] setting (by decide +kernel)
    (by decide +kernel) (by decide) (by decide) (by rw [same]; exact ran)
  rw [same] at decoded
  obtain ⟨aligned, -, -, contents, decodes, -⟩ := decoded
  exact ⟨machine'.mem, rsp, contents, space, aligned, decodes⟩

end Boot
end MachaOS
