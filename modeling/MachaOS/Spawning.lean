/-
What `spawn` and `spawn_linux` accept, and the ranges they map.

A program is accepted after parsing, biasing and validating it, its interpreter
likewise.  The ranges of the image, the interpreter and the stack follow from
the segments alone; a process that is created has exactly these as mappings.
-/

import MachaOS.Process.Gather
import MachaOS.System

namespace MachaOS.System

open Fallible Machine Paging Loader

theorem applyBias_ne_nil {bias : Nat} {prog : Elf.Program} (nonempty : prog.segments ≠ []) :
    (applyBias bias prog).segments ≠ [] := by
  unfold applyBias
  split
  · simpa using nonempty
  · exact nonempty

structure Validated (layout : Layout) (segments : List Elf.Segment) : Prop where
  nonempty : segments ≠ []
  accepted : ∀ seg ∈ segments, Accepted layout.heapStart layout.heapEnd seg

theorem acceptProgram_ok {layout : Layout} {bias : Nat} {elfBytes : Elf.Bytes}
    {prog : Elf.Program} (accepted : acceptProgram layout bias elfBytes = .ok prog) :
    Validated layout prog.segments := by
  unfold acceptProgram at accepted
  obtain ⟨parsed, parsing, accepted⟩ := Elf.except_bind_ok accepted
  obtain ⟨_, validated, accepted⟩ := Elf.except_bind_ok accepted
  cases accepted
  exact ⟨applyBias_ne_nil (Elf.parse_loadable parsing).1, validateSegments_ok validated⟩

theorem findInterpreter_ok {layout : Layout} {readFile : String → Option Elf.Bytes}
    {path : String} {bytes : Elf.Bytes} {interp : Elf.Program}
    (found : findInterpreter layout readFile path = .ok (bytes, interp)) :
    Validated layout interp.segments := by
  unfold findInterpreter at found
  split at found
  · cases found
  · obtain ⟨parsed, parsing, found⟩ := Elf.except_bind_ok found
    obtain ⟨_, validated, found⟩ := Elf.except_bind_ok found
    cases found
    exact ⟨applyBias_ne_nil (Elf.parse_loadable parsing).1, validateSegments_ok validated⟩

/-- The interpreter `spawn_linux` loads besides the program, if it names one. -/
def acceptInterpreter (layout : Layout) (readFile : String → Option Elf.Bytes)
    (prog : Elf.Program) : Except String (Option Elf.Program) :=
  match prog.interp with
  | none => .ok none
  | some path =>
      match findInterpreter layout readFile path with
      | .error message => .error message
      | .ok (_, interp) => .ok (some interp)

theorem acceptInterpreter_ok {layout : Layout} {readFile : String → Option Elf.Bytes}
    {prog interp : Elf.Program}
    (found : acceptInterpreter layout readFile prog = .ok (some interp)) :
    Validated layout interp.segments := by
  unfold acceptInterpreter at found
  split at found
  · cases found
  · split at found
    · cases found
    · rename_i searched
      cases found
      exact findInterpreter_ok searched

def imageRange (segments : List Elf.Segment) : List (Nat × Nat) :=
  match segmentStart segments, segmentEnd segments with
  | some overallStart, some overallEnd => [(overallStart, overallEnd)]
  | _, _ => []

def linuxRanges (prog : Elf.Program) (interp : Option Elf.Program) : List (Nat × Nat) :=
  imageRange prog.segments ++ (interp.map (fun image => imageRange image.segments)).getD [] ++
    [(Process.userStackLowLimit, Process.userStackTop)]

def nativeRanges (prog : Elf.Program) : List (Nat × Nat) :=
  imageRange prog.segments ++
    [(Process.userStackLowLimit, Process.userStackTop),
      (Process.userExitStubVirt, Process.userExitStubVirt + pageSize)]

def RangesApart (first second : Nat × Nat) : Prop :=
  first.2 ≤ second.1 ∨ second.2 ≤ first.1

theorem imageRange_eq {segments : List Elf.Segment} {overallStart overallEnd : Nat}
    (span : Span segments overallStart overallEnd) :
    imageRange segments = [(overallStart, overallEnd)] := by
  unfold imageRange
  rw [span.start, span.stop]

end MachaOS.System

namespace MachaOS

open Fallible Machine Paging Loader

def Mapping.range (mapping : Mapping) : Nat × Nat :=
  (mapping.vaddr, mapping.vaddr + mapping.len)

namespace System

variable {layout : Layout}

theorem records_image {segments : List Elf.Segment} (pml4 : Nat) (data : Elf.Bytes)
    (validated : Validated layout segments) :
    Records (fun added => added.map Mapping.range = imageRange segments)
      (loadSegments pml4 segments data) := by
  obtain ⟨overallStart, overallEnd, span⟩ := Span.exists_of_ne_nil validated.nonempty
  have ordered := span.start_lt validated.accepted
  refine (records_loadSegments data span).weaken ?_
  rintro added ⟨phys, rfl⟩
  rw [imageRange_eq span]
  simp only [List.map_cons, List.map_nil, Mapping.range, List.cons.injEq, Prod.mk.injEq, and_true,
    true_and]
  omega

theorem records_loadInterpreter (readFile : String → Option Elf.Bytes) (pml4 : Nat)
    (prog : Elf.Program) :
    Records (fun added => ∃ interp, acceptInterpreter layout readFile prog = .ok interp ∧
        added.map Mapping.range = (interp.map (fun image => imageRange image.segments)).getD [])
      (loadInterpreter layout readFile pml4 prog) := by
  unfold loadInterpreter
  cases named : prog.interp with
  | none =>
      refine (gathers_pure _).records.weaken ?_
      rintro added rfl
      exact ⟨none, by simp [acceptInterpreter, named], rfl⟩
  | some path =>
      cases searched : findInterpreter layout readFile path with
      | error message =>
          simp only [searched]
          exact records_refuse _ _
      | ok found =>
          obtain ⟨bytes, interp⟩ := found
          simp only [searched]
          refine ((records_image pml4 bytes (findInterpreter_ok searched)).followedBy
            (fun _ => gathers_pure _)).weaken ?_
          intro added ranges
          exact ⟨some interp, by simp [acceptInterpreter, named, searched], ranges⟩

theorem range_stackMapping (phys : Nat) :
    (stackMapping phys).range = (Process.userStackLowLimit, Process.userStackTop) := by
  have fits : Process.userStackMaxPages * pageSize ≤ Process.userStackTop := by decide
  exact Prod.ext rfl (Nat.sub_add_cancel fits)

theorem records_loadNative {prog : Elf.Program} (elfBytes : Elf.Bytes)
    (validated : Validated layout prog.segments) :
    Records (fun added => added.map Mapping.range = nativeRanges prog)
      (loadNative layout prog elfBytes) := by
  refine Records.after (gathers_buildAddressSpace _) (fun pml4 =>
    (records_image pml4 elfBytes validated).bind (fun _ =>
      (records_setupUserStack pml4).followedBy (fun _ => gathers_pure _)) ?_)
  rintro image stack ranges ⟨phys, stub, rfl⟩
  rw [List.map_append, ranges, List.map_cons, range_stackMapping]
  rfl

theorem records_interpreterAndStack (pml4 : Nat) (prog : Elf.Program) (elfBytes : Elf.Bytes)
    (argv envp : List Elf.Bytes) (ticks : Nat) (readFile : String → Option Elf.Bytes) :
    Records (fun added => ∃ interp, acceptInterpreter layout readFile prog = .ok interp ∧
        added.map Mapping.range =
          (interp.map (fun image => imageRange image.segments)).getD [] ++
            [(Process.userStackLowLimit, Process.userStackTop)])
      (do
        let (entry, interpBase) ← loadInterpreter layout readFile pml4 prog
        update (fun proc => { proc with entry })
        let userRsp ← setupLinuxStack pml4 elfBytes prog interpBase ticks argv envp
        update (fun proc => { proc with userRsp })
        pure pml4) := by
  refine (records_loadInterpreter readFile pml4 prog).bind (fun loaded =>
    Records.after (gathers_update (fun _ => rfl) (fun _ => rfl) (fun _ => rfl)) (fun _ =>
      (records_setupLinuxStack _ _ _ _ _ _ _).followedBy (fun _ =>
        gathers_bind (gathers_update (fun _ => rfl) (fun _ => rfl) (fun _ => rfl))
          (fun _ => gathers_pure _)))) ?_
  rintro middle stack ⟨interp, accepted, ranges⟩ ⟨phys, rfl⟩
  refine ⟨interp, accepted, ?_⟩
  rw [List.map_append, ranges, List.map_cons, range_stackMapping]
  rfl

theorem records_loadLinux {prog : Elf.Program} (elfBytes : Elf.Bytes)
    (argv envp : List Elf.Bytes) (ticks : Nat) (readFile : String → Option Elf.Bytes)
    (validated : Validated layout prog.segments) :
    Records (fun added => ∃ interp, acceptInterpreter layout readFile prog = .ok interp ∧
        added.map Mapping.range = linuxRanges prog interp)
      (loadLinux layout prog elfBytes argv envp ticks readFile) := by
  refine Records.after (gathers_buildAddressSpace _) (fun pml4 =>
    (records_image pml4 elfBytes validated).bind
      (fun _ => records_interpreterAndStack pml4 prog elfBytes argv envp ticks readFile) ?_)
  rintro image rest ranges ⟨interp, accepted, later⟩
  refine ⟨interp, accepted, ?_⟩
  rw [List.map_append, ranges, later, linuxRanges, List.append_assoc]

theorem processAt_append (sys : System) (machine : Machine) (pml4 : Nat) (built : Process)
    (index : Nat) :
    ({ sys with machine, tasks := sys.tasks ++ [{ cr3 := pml4, process := some built }] } :
      System).processAt index =
      if index = sys.tasks.length then some built else sys.processAt index := by
  unfold processAt
  rw [List.getElem?_append]
  by_cases inside : index < sys.tasks.length
  · rw [if_pos inside, if_neg (by omega)]
  · rw [if_neg inside]
    by_cases last : index = sys.tasks.length
    · simp [last]
    · rw [if_neg last, List.getElem?_eq_none (by simp; omega), List.getElem?_eq_none (by omega)]

theorem launch_eq_ok {proc : Process} {loader : Loader Nat} {sys after : System} {pid : Nat}
    (ran : launch proc loader sys = (.ok (.ok pid), after)) :
    ∃ pml4 machine built, loader (sys.machine, proc) = (.ok pml4, (machine, built)) ∧
      pid = sys.tasks.length ∧
      after = { sys with
        machine, tasks := sys.tasks ++ [{ cr3 := pml4, process := some built }] } := by
  unfold launch at ran
  rcases outcome : loader (sys.machine, proc) with ⟨stop | pml4, machine, built⟩
  · rw [outcome] at ran
    cases stop with
    | fault fault => cases ran
    | refused message =>
        dsimp only at ran
        rcases freeing : freeProcess built.frames machine with ⟨fault | value, machine'⟩ <;>
        · rw [freeing] at ran
          cases ran
  · rw [outcome] at ran
    cases ran
    exact ⟨pml4, machine, built, rfl, rfl, rfl⟩

theorem launch_refused {proc : Process} {loader : Loader Nat} {sys after : System}
    {message : String} (ran : launch proc loader sys = (.ok (.error message), after)) :
    ∃ machine, after = { sys with machine } := by
  unfold launch at ran
  rcases outcome : loader (sys.machine, proc) with ⟨stop | pml4, machine, built⟩
  · rw [outcome] at ran
    cases stop with
    | fault fault => cases ran
    | refused message =>
        dsimp only at ran
        rcases freeing : freeProcess built.frames machine with ⟨fault | value, machine'⟩
        · rw [freeing] at ran
          cases ran
        · rw [freeing] at ran
          cases ran
          exact ⟨machine', rfl⟩
  · rw [outcome] at ran
    cases ran

theorem spawnLinux_ranges {elfBytes : Elf.Bytes} {argv envp : List Elf.Bytes} {ticks pid : Nat}
    {readFile : String → Option Elf.Bytes} {sys after : System}
    (ran : spawnLinux elfBytes argv envp ticks readFile sys = (.ok (.ok pid), after)) :
    ∃ prog interp proc,
      acceptProgram sys.layout Process.pieLoadBase elfBytes = .ok prog ∧
      acceptInterpreter sys.layout readFile prog = .ok interp ∧
      after.processAt pid = some proc ∧
      proc.mappings.map Mapping.range = linuxRanges prog interp := by
  unfold spawnLinux at ran
  cases accepted : acceptProgram sys.layout Process.pieLoadBase elfBytes with
  | error message =>
      rw [accepted] at ran
      cases ran
  | ok prog =>
      rw [accepted] at ran
      dsimp only at ran
      cases located : heapStartOf prog.segments with
      | none =>
          rw [located] at ran
          cases ran
      | some heapStart =>
          rw [located] at ran
          obtain ⟨pml4, machine, built, loaded, rfl, rfl⟩ := launch_eq_ok ran
          obtain ⟨added, ⟨⟨taken, grown⟩, -⟩, -, done⟩ :=
            records_loadLinux elfBytes argv envp ticks readFile (acceptProgram_ok accepted)
              _ _ _ loaded (by simp)
          obtain ⟨interp, found, ranges⟩ := done pml4 rfl
          refine ⟨prog, interp, built, rfl, found, ?_, ?_⟩
          · rw [processAt_append, if_pos rfl]
          · have mappings : built.mappings = added := grown.mappings
            rw [mappings]
            exact ranges

end System
end MachaOS
