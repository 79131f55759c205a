/-
What the loader gathers: every frame it takes is recorded in the process, and
every mapping it records is backed by frames it took.

This holds whenever the loader comes back, with a process or with an error, so
that freeing the list of a half-built process gives back exactly what was taken.
-/

import MachaOS.Process.Ownership
import MachaOS.Process.Span

namespace MachaOS

open Fallible Machine Paging

namespace Loader

def Builds (added : List Mapping) (before after : Machine × Process) : Prop :=
  (∃ taken, Grown before.2 after.2 before.1 after.1 added taken) ∧ after.2.fds = before.2.fds

theorem Builds.refl (state : Machine × Process) : Builds [] state state :=
  ⟨⟨[], Grown.refl _ _⟩, rfl⟩

theorem Builds.trans {first second : List Mapping} {before middle after : Machine × Process}
    (left : Builds first before middle) (right : Builds second middle after) :
    Builds (first ++ second) before after := by
  obtain ⟨⟨early, grownEarly⟩, sameEarly⟩ := left
  obtain ⟨⟨late, grownLate⟩, sameLate⟩ := right
  exact ⟨⟨early ++ late, grownEarly.trans grownLate⟩, sameLate.trans sameEarly⟩

def IsFault (stop : Stop) : Prop :=
  ∃ fault, stop = .fault fault

abbrev Gathers {α : Type} (routine : Loader α) : Prop :=
  PreservesUnless IsFault (Builds []) routine

variable {α β : Type}

theorem gathers_pure (value : α) : Gathers (pure value : Loader α) :=
  preservesUnless_pure Builds.refl value

theorem gathers_refuse (message : String) : Gathers (refuse message : Loader α) :=
  preservesUnless_fail Builds.refl _

variable {next : α → Loader β} {first : Loader α}

theorem gathers_bind (before : Gathers first) (later : ∀ value, Gathers (next value)) :
    Gathers (first >>= next) :=
  preservesUnless_bind (fun _ _ _ left right => left.trans right) before later

theorem gathers_process : Gathers process := by
  intro state outcome final ran _
  cases ran
  exact Builds.refl state

variable {routine : Kernel α}

theorem gathers_quiet (quiet : Quiet routine) : Gathers (onMachine routine) := by
  intro state outcome final ran allowed
  unfold onMachine at ran
  rcases inner : routine state.1 with ⟨fault | value, machine⟩
  · rw [inner] at ran
    cases ran
    exact absurd ⟨fault, rfl⟩ (allowed _ rfl)
  · rw [inner] at ran
    cases ran
    have same := quiet.of_run inner
    exact ⟨⟨[], Grown.of_takes (Takes.of_same same) (by simp) rfl⟩, rfl⟩

theorem gathers_update {change : Process → Process}
    (frames : ∀ proc, (change proc).frames = proc.frames)
    (mappings : ∀ proc, (change proc).mappings = proc.mappings)
    (fds : ∀ proc, (change proc).fds = proc.fds) : Gathers (update change) := by
  intro state outcome final ran _
  cases ran
  exact ⟨⟨[], Grown.of_takes (Takes.of_same (SameFrames.refl _)) (by simp [frames])
    (mappings _)⟩, fds _⟩

variable {state : Machine × Process}

theorem builds_of_takes {machine : Machine} {taken : List Nat} (takes : Takes state.1 machine taken) :
    Builds [] state (machine, { state.2 with frames := state.2.frames ++ taken }) :=
  ⟨⟨taken, Grown.of_takes takes rfl rfl⟩, rfl⟩

variable {final : Machine × Process}

theorem onMachine_eq_ok {value : α} (ran : onMachine routine state = (.ok value, final)) :
    routine state.1 = (.ok value, final.1) ∧ final.2 = state.2 := by
  unfold onMachine at ran
  rcases inner : routine state.1 with ⟨fault | result, machine⟩
  · rw [inner] at ran
    cases ran
  · rw [inner] at ran
    cases ran
    exact ⟨rfl, rfl⟩

theorem onMachine_eq_error {stop : Stop} (ran : onMachine routine state = (.error stop, final)) :
    IsFault stop := by
  unfold onMachine at ran
  rcases inner : routine state.1 with ⟨fault | result, machine⟩
  · rw [inner] at ran
    cases ran
    exact ⟨fault, rfl⟩
  · rw [inner] at ran
    cases ran

theorem gathers_mapRange (pml4 virt phys len : Nat) (flags : BitVec 64) :
    Gathers (mapRange pml4 virt phys len flags) := by
  rintro ⟨machine, current⟩ outcome final ran allowed
  have entered : mapRange pml4 virt phys len flags (machine, current) =
      (onMachine (mapRangeIn pml4 virt phys len flags current.frames) >>= fun result => do
        update (fun proc => { proc with frames := result.2 })
        pure result.1) (machine, current) := rfl
  rw [entered, bind_run] at ran
  rcases inner : onMachine (mapRangeIn pml4 virt phys len flags current.frames)
    (machine, current) with ⟨stop | ⟨mapped, frames⟩, middle⟩
  · rw [inner] at ran
    cases ran
    exact absurd (onMachine_eq_error inner) (allowed _ rfl)
  · rw [inner] at ran
    cases ran
    obtain ⟨mapping, same⟩ := onMachine_eq_ok inner
    obtain ⟨taken, takes, rfl⟩ := mapRangeIn_takes mapping
    obtain ⟨machine₁, proc₁⟩ := middle
    cases same
    exact builds_of_takes takes

theorem gathers_mapOrRefuse (pml4 virt phys len : Nat) (flags : BitVec 64) (message : String) :
    Gathers (mapOrRefuse pml4 virt phys len flags message) := by
  refine gathers_bind (gathers_mapRange pml4 virt phys len flags) (fun mapped => ?_)
  cases mapped
  · exact gathers_refuse message
  · exact gathers_pure ()

theorem gathers_allocFrame : Gathers allocFrame := by
  rintro ⟨machine, current⟩ outcome final ran allowed
  unfold allocFrame at ran
  rw [bind_run] at ran
  cases given : machine.pmm.frameAlloc with
  | mk found pmm =>
    have entered : onMachine frameAlloc (machine, current) =
        (.ok found, ({ machine with pmm }, current)) := by
      simp [onMachine, frameAlloc, given]
    rw [entered] at ran
    cases found with
    | none =>
        cases ran
        obtain ⟨rfl, -⟩ := Pmm.frameAlloc_none given
        exact Builds.refl _
    | some frame =>
        have taking := Takes.of_frameAlloc given
        dsimp only at ran
        rw [bind_run] at ran
        rcases zeroed : onMachine (zeroBytes frame Pmm.frameSize) ({ machine with pmm }, current)
          with ⟨stop | value, middle⟩
        · rw [zeroed] at ran
          cases ran
          exact absurd (onMachine_eq_error zeroed) (allowed _ rfl)
        · rw [zeroed] at ran
          cases ran
          obtain ⟨filled, same⟩ := onMachine_eq_ok zeroed
          obtain ⟨machine₁, proc₁⟩ := middle
          cases same
          have quiet := Takes.of_same ((quiet_zeroBytes _ _).of_run filled)
          have takes := taking.trans quiet
          rw [List.append_nil] at takes
          exact builds_of_takes takes

theorem allocFrame_eq_ok {frame : Nat} (ran : allocFrame state = (.ok frame, final)) :
    frame % 4096 = 0 ∧ Grown state.2 final.2 state.1 final.1 [] (Pmm.frameRun frame 1) ∧
      final.2 = { state.2 with frames := state.2.frames ++ [frame] } ∧
      ∃ middle, frameAlloc state.1 = (.ok (some frame), middle) ∧
        zeroBytes frame Pmm.frameSize middle = (.ok (), final.1) := by
  obtain ⟨machine, current⟩ := state
  obtain ⟨found, middle, given, rest⟩ := bind_eq_ok ran
  obtain ⟨given, same⟩ := onMachine_eq_ok given
  obtain ⟨machine₁, proc₁⟩ := middle
  cases same
  have takes := frameAlloc_takes given
  cases found with
  | none => cases rest
  | some start =>
      obtain ⟨_, middle, zeroed, rest⟩ := bind_eq_ok rest
      cases rest
      obtain ⟨zeroed, same⟩ := onMachine_eq_ok zeroed
      obtain ⟨machine₂, proc₂⟩ := middle
      cases same
      have run : Pmm.frameRun frame 1 = [frame] := by simp [Pmm.frameRun]
      have both := takes.trans (Takes.of_same ((quiet_zeroBytes _ _).of_run zeroed))
      rw [run]
      refine ⟨Pmm.free_aligned (takes.wasFree frame (by simp)), ?_, rfl, _, given, zeroed⟩
      exact Grown.of_takes (by simpa using both) rfl rfl

theorem allocBlock_eq_ok {pages phys : Nat} (ran : allocBlock pages state = (.ok phys, final)) :
    phys % 4096 = 0 ∧ 0 < pages ∧
      Grown state.2 final.2 state.1 final.1 [] (Pmm.frameRun phys pages) ∧
      final.2 = { state.2 with frames := state.2.frames ++ Pmm.frameRun phys pages } ∧
      allocContiguous pages state.1 = (.ok (some phys), final.1) := by
  obtain ⟨machine, current⟩ := state
  obtain ⟨found, middle, given, rest⟩ := bind_eq_ok ran
  obtain ⟨given, same⟩ := onMachine_eq_ok given
  obtain ⟨machine₁, proc₁⟩ := middle
  cases same
  rcases allocContiguous_takes given with ⟨rfl, -⟩ | ⟨start, rfl, positive, aligned, takes⟩
  · cases rest
  · cases rest
    exact ⟨aligned, positive, Grown.of_takes takes rfl rfl, rfl, given⟩

theorem gathers_allocBlock (pages : Nat) : Gathers (allocBlock pages) := by
  rintro ⟨machine, current⟩ outcome final ran allowed
  unfold allocBlock at ran
  rw [bind_run] at ran
  rcases given : onMachine (allocContiguous pages) (machine, current) with
    ⟨stop | found, middle⟩
  · rw [given] at ran
    cases ran
    exact absurd (onMachine_eq_error given) (allowed _ rfl)
  · rw [given] at ran
    obtain ⟨given, same⟩ := onMachine_eq_ok given
    obtain ⟨machine₁, proc₁⟩ := middle
    cases same
    rcases allocContiguous_takes given with ⟨rfl, rfl⟩ | ⟨start, rfl, -, -, takes⟩
    · cases ran
      exact Builds.refl _
    · cases ran
      exact builds_of_takes takes

theorem quiet_copyWords (source target index left : Nat) :
    Quiet (copyWords source target index left) := by
  induction left generalizing index with
  | zero => exact quiet_pure ()
  | succ left ih =>
      exact quiet_bind (quiet_loadU64 _) (fun word =>
        quiet_bind (quiet_storeU64 _ word) (fun _ => ih (index + 1)))

theorem gathers_copyDirectory (kernelPd pd index left : Nat) :
    Gathers (copyDirectory kernelPd pd index left) := by
  induction left generalizing index with
  | zero => exact gathers_pure ()
  | succ left ih =>
      refine gathers_bind (gathers_quiet (quiet_loadU64 _)) (fun pde => ?_)
      split
      · exact ih (index + 1)
      split
      · exact gathers_bind (gathers_quiet (quiet_storeU64 _ _)) (fun _ => ih (index + 1))
      · exact gathers_bind gathers_allocFrame (fun pt =>
          gathers_bind (gathers_quiet (quiet_copyWords _ _ _ _)) (fun _ =>
            gathers_bind (gathers_quiet (quiet_storeU64 _ _)) (fun _ => ih (index + 1))))

theorem gathers_copyDirectories (kernelPdpt pdpt index left : Nat) :
    Gathers (copyDirectories kernelPdpt pdpt index left) := by
  induction left generalizing index with
  | zero => exact gathers_pure ()
  | succ left ih =>
      refine gathers_bind (gathers_quiet (quiet_loadU64 _)) (fun entry => ?_)
      split
      · exact ih (index + 1)
      split
      · exact gathers_refuse _
      · exact gathers_bind gathers_allocFrame (fun pd =>
          gathers_bind (gathers_copyDirectory _ _ _ _) (fun _ =>
            gathers_bind (gathers_quiet (quiet_storeU64 _ _)) (fun _ => ih (index + 1))))

theorem gathers_buildAddressSpace (kernelPml4 : Nat) : Gathers (buildAddressSpace kernelPml4) :=
  gathers_bind gathers_allocFrame (fun _ =>
    gathers_bind gathers_allocFrame (fun _ =>
      gathers_bind (gathers_quiet (quiet_copyWords _ _ _ _)) (fun _ =>
        gathers_bind (gathers_quiet (quiet_storeU64 _ _)) (fun _ =>
          gathers_bind (gathers_quiet (quiet_loadU64 _)) (fun _ =>
            gathers_bind (gathers_copyDirectories _ _ _ _) (fun _ => gathers_pure _))))))

theorem gathers_mapSegmentPages (pml4 : Nat) (segments : List Elf.Segment) (pages : List Nat)
    (phys : Nat) : Gathers (mapSegmentPages pml4 segments pages phys) := by
  induction pages generalizing phys with
  | nil => exact gathers_pure ()
  | cons virt rest ih =>
      exact gathers_bind (gathers_mapOrRefuse _ _ _ _ _ _) (fun _ => ih (phys + Pmm.frameSize))

theorem quiet_copySegments (phys overallStart : Nat) (data : Elf.Bytes)
    (segments : List Elf.Segment) : Quiet (copySegments phys overallStart data segments) := by
  induction segments with
  | nil => exact quiet_pure ()
  | cons seg rest ih =>
      unfold copySegments
      split
      · exact ih
      · exact quiet_bind (quiet_copyBytes _ _) (fun _ => ih)

theorem Grown.record {proc proc' : Process} {machine machine' : Machine}
    {taken : List Nat} {mapping : Mapping}
    (grown : Grown proc proc' machine machine' [] taken)
    (whole : mapping.len % 4096 = 0) (aligned : mapping.phys % 4096 = 0)
    (backed : ∀ frame, frame ∈ mapping.run → frame ∈ taken) :
    Grown proc { proc' with mappings := proc'.mappings ++ [mapping] } machine machine'
      [mapping] taken :=
  { takes := grown.takes
    frames := grown.frames
    mappings := by simp [grown.mappings]
    whole := by
      intro other mem
      rw [List.mem_singleton.mp mem]
      exact ⟨whole, aligned⟩
    backed := by
      intro other mem _ frame inRun
      rw [List.mem_singleton.mp mem] at inRun
      exact backed frame inRun
    apart := List.pairwise_singleton _ _ }

/-- A loader routine that records private mappings as it goes, and `recorded` when it
finishes. -/
def Records (recorded : List Mapping → Prop) (routine : Loader α) : Prop :=
  ∀ state outcome final, routine state = (outcome, final) →
    (∀ stop, outcome = .error stop → ¬ IsFault stop) →
    ∃ added, Builds added state final ∧ (∀ mapping, mapping ∈ added → mapping.shmId = none) ∧
      ∀ value, outcome = .ok value → recorded added

theorem Gathers.records {routine : Loader α} (gathers : Gathers routine) :
    Records (fun added => added = []) routine :=
  fun state outcome final ran allowed =>
    ⟨[], gathers state outcome final ran allowed, by simp, fun _ _ => rfl⟩

theorem Records.bind {early late both : List Mapping → Prop} (before : Records early first)
    (later : ∀ value, Records late (next value))
    (combine : ∀ left right, early left → late right → both (left ++ right)) :
    Records both (first >>= next) := by
  intro state outcome final ran allowed
  rw [bind_run] at ran
  rcases ranFirst : first state with ⟨stop | value, middle⟩
  · rw [ranFirst] at ran
    cases ran
    obtain ⟨added, builds, isPrivate, -⟩ := before _ _ _ ranFirst
      (fun failure same => allowed failure (by cases same; rfl))
    exact ⟨added, builds, isPrivate, by simp⟩
  · rw [ranFirst] at ran
    obtain ⟨left, buildsLeft, privateLeft, doneLeft⟩ := before _ _ _ ranFirst (by simp)
    obtain ⟨right, buildsRight, privateRight, doneRight⟩ := later value _ _ _ ran allowed
    refine ⟨left ++ right, buildsLeft.trans buildsRight, ?_, ?_⟩
    · intro mapping mem
      rcases List.mem_append.mp mem with old | new
      · exact privateLeft mapping old
      · exact privateRight mapping new
    · intro result same
      exact combine left right (doneLeft value rfl) (doneRight result same)

theorem Records.after {recorded : List Mapping → Prop} (before : Gathers first)
    (later : ∀ value, Records recorded (next value)) : Records recorded (first >>= next) :=
  before.records.bind later (fun _ _ empty done => by rw [empty]; exact done)

theorem Records.followedBy {recorded : List Mapping → Prop} (before : Records recorded first)
    (later : ∀ value, Gathers (next value)) : Records recorded (first >>= next) :=
  before.bind (fun value => (later value).records)
    (fun _ _ done empty => by rw [empty, List.append_nil]; exact done)

theorem Records.weaken {routine : Loader α} {strong weak : List Mapping → Prop}
    (records : Records strong routine) (weaker : ∀ added, strong added → weak added) :
    Records weak routine := by
  intro state outcome final ran allowed
  obtain ⟨added, builds, isPrivate, done⟩ := records _ _ _ ran allowed
  exact ⟨added, builds, isPrivate, fun value same => weaker added (done value same)⟩

theorem records_refuse (recorded : List Mapping → Prop) (message : String) :
    Records recorded (refuse message : Loader α) := by
  intro state outcome final ran allowed
  cases ran
  exact ⟨[], Builds.refl _, by simp, by simp⟩

/-- A routine that takes a run of `pages` frames and returns its start. -/
structure TakesRun (pages : Nat) (routine : Loader Nat) : Prop where
  gathers : Gathers routine
  finished : ∀ state phys final, routine state = (.ok phys, final) →
    phys % 4096 = 0 ∧ Grown state.2 final.2 state.1 final.1 [] (Pmm.frameRun phys pages) ∧
      final.2.fds = state.2.fds

theorem takesRun_allocBlock (pages : Nat) : TakesRun pages (allocBlock pages) where
  gathers := gathers_allocBlock pages
  finished := by
    intro state phys final ran
    obtain ⟨aligned, -, grown, recorded, -⟩ := allocBlock_eq_ok ran
    exact ⟨aligned, grown, by rw [recorded]⟩

theorem takesRun_allocFrame : TakesRun 1 allocFrame where
  gathers := gathers_allocFrame
  finished := by
    intro state phys final ran
    obtain ⟨aligned, grown, recorded, -⟩ := allocFrame_eq_ok ran
    exact ⟨aligned, grown, by rw [recorded]⟩

theorem records_run {pages virt len : Nat} {alloc : Loader Nat}
    (takesRun : TakesRun pages alloc) (covers : len = pages * 4096) {work : Nat → Loader Unit} (gathers : ∀ phys, Gathers (work phys))
    {change : Nat → Process → Process}
    (frames : ∀ phys proc, (change phys proc).frames = proc.frames)
    (fds : ∀ phys proc, (change phys proc).fds = proc.fds)
    (mappings : ∀ phys proc, (change phys proc).mappings = proc.mappings ++
      [{ vaddr := virt, phys, len, shmId := none }]) :
    Records (fun added => ∃ phys, added = [{ vaddr := virt, phys, len, shmId := none }])
      (alloc >>= fun phys => work phys >>= fun _ => update (change phys)) := by
  subst covers
  intro state outcome final ran allowed
  rw [bind_run] at ran
  rcases given : alloc state with ⟨stop | phys, middle⟩
  · rw [given] at ran
    cases ran
    exact ⟨[], takesRun.gathers _ _ _ given
      (fun failure same => allowed failure (by cases same; rfl)), by simp, by simp⟩
  rw [given] at ran
  dsimp only at ran
  obtain ⟨aligned, grown, sameBefore⟩ := takesRun.finished _ _ _ given
  rw [bind_run] at ran
  rcases worked : work phys middle with ⟨stop | value, last⟩
  · rw [worked] at ran
    cases ran
    have first : Builds [] state middle := ⟨⟨_, grown⟩, sameBefore⟩
    have second := gathers phys _ _ _ worked
      (fun failure same => allowed failure (by cases same; rfl))
    exact ⟨[], first.trans second, by simp, by simp⟩
  · rw [worked] at ran
    cases ran
    obtain ⟨⟨taken, grownWork⟩, sameFds⟩ := gathers phys _ _ _ worked (by simp)
    have both := grown.trans grownWork
    have backed : ∀ frame,
        frame ∈ Mapping.run { vaddr := virt, phys, len := pages * 4096, shmId := none } →
        frame ∈ Pmm.frameRun phys pages ++ taken := by
      intro frame inRun
      simp only [Mapping.run, Nat.mul_div_cancel pages (show 0 < 4096 by decide)] at inRun
      exact List.mem_append_left _ inRun
    have ready := Grown.record both (Nat.mul_mod_left pages 4096) aligned backed
    refine ⟨[{ vaddr := virt, phys, len := pages * 4096, shmId := none }],
      ⟨⟨_, ⟨ready.takes, ?_, ?_, ready.whole, ready.backed, ready.apart⟩⟩, ?_⟩, by simp,
      fun _ _ => ⟨phys, rfl⟩⟩
    · rw [frames]
      exact ready.frames
    · rw [mappings]
      exact ready.mappings
    · rw [fds, sameFds, sameBefore]

theorem records_loadSegments {pml4 overallStart overallEnd : Nat} {segments : List Elf.Segment}
    (data : Elf.Bytes) (span : Span segments overallStart overallEnd) :
    Records
      (fun added => ∃ phys, added =
        [{ vaddr := overallStart, phys, len := overallEnd - overallStart, shmId := none }])
      (loadSegments pml4 segments data) := by
  have whole : (overallEnd - overallStart) / pageSize * 4096 = overallEnd - overallStart := by
    have startAligned := span.start_aligned
    have stopAligned := span.stop_aligned
    unfold pageSize
    omega
  have expanded : loadSegments pml4 segments data =
      (allocBlock ((overallEnd - overallStart) / pageSize) >>= fun phys =>
        (mapSegmentPages pml4 segments
            (pagesFrom overallStart ((overallEnd - overallStart) / pageSize)) phys >>= fun _ =>
          onMachine (zeroBytes phys (overallEnd - overallStart)) >>= fun _ =>
          onMachine (copySegments phys overallStart data segments)) >>= fun _ =>
        update (fun proc =>
          { proc with
            mappings := proc.mappings ++
              [{ vaddr := overallStart, phys, len := overallEnd - overallStart
                 shmId := none }] })) := by
    simp only [loadSegments, span.start, span.stop, Fallible.bind_assoc]
  rw [expanded]
  refine records_run (takesRun_allocBlock _) whole.symm (fun phys => ?_) (fun _ _ => rfl)
    (fun _ _ => rfl) (fun _ _ => rfl)
  exact gathers_bind (gathers_mapSegmentPages _ _ _ _) (fun _ =>
    gathers_bind (gathers_quiet (quiet_zeroBytes _ _)) (fun _ =>
      gathers_quiet (quiet_copySegments _ _ _ _)))

def stackMapping (phys : Nat) : Mapping :=
  { vaddr := Process.userStackLowLimit
    phys
    len := Process.userStackMaxPages * pageSize
    shmId := none }

theorem records_initStackBacking :
    Records (fun added => ∃ phys, added = [stackMapping phys]) initStackBacking :=
  records_run (takesRun_allocBlock _) rfl (fun _ => gathers_quiet (quiet_zeroBytes _ _))
    (fun _ _ => rfl) (fun _ _ => rfl) (fun _ _ => rfl)

theorem records_setupLinuxStack (pml4 : Nat) (elfBytes : Elf.Bytes) (prog : Elf.Program)
    (atBase ticks : Nat) (argv envp : List Elf.Bytes) :
    Records (fun added => ∃ phys, added = [stackMapping phys])
      (setupLinuxStack pml4 elfBytes prog atBase ticks argv envp) := by
  unfold setupLinuxStack
  split
  · exact records_refuse _ _
  · exact records_initStackBacking.followedBy (fun _ =>
      gathers_bind gathers_process (fun _ =>
        gathers_bind (gathers_quiet (quiet_copyBytes _ _)) (fun _ =>
          gathers_bind (gathers_quiet (quiet_copyBytes _ _)) (fun _ =>
            gathers_bind (gathers_mapOrRefuse _ _ _ _ _ _) (fun _ =>
              gathers_bind (gathers_update (fun _ => rfl) (fun _ => rfl) (fun _ => rfl))
                (fun _ => gathers_pure _))))))

def stubMapping (phys : Nat) : Mapping :=
  { vaddr := Process.userExitStubVirt, phys, len := pageSize, shmId := none }

/-- The part of `setup_user_stack` that places the exit trampoline. -/
def installExitStub (pml4 : Nat) : Loader Unit := do
  let stubPhys ← allocFrame
  onMachine (copyBytes stubPhys exitStub)
  mapOrRefuse pml4 Process.userExitStubVirt stubPhys pageSize (pagePresent ||| pageUser)
    "failed to map exit trampoline"
  update (fun proc => { proc with mappings := proc.mappings ++ [stubMapping stubPhys] })

theorem setupUserStack_eq (pml4 : Nat) : setupUserStack pml4 =
    (initStackBacking >>= fun _ => process >>= fun built =>
      mapOrRefuse pml4 Process.userStackBase (built.stackPhysFor Process.userStackBase)
        (Process.userStackPages * pageSize) Process.dataFlags "failed to map user stack" >>=
      fun _ => installExitStub pml4 >>= fun _ =>
      (onMachine (copyBytes (built.stackPhysFor Process.userStackBase +
            (Process.userStackTop - 8 - Process.userStackBase))
          (toLeBytes Process.userExitStubVirt)) >>= fun _ =>
        update (fun proc => { proc with userRsp := Process.userStackTop - 8 }))) := by
  simp only [setupUserStack, installExitStub, Fallible.bind_assoc, stubMapping]

theorem records_exitStub (pml4 : Nat) :
    Records (fun added => ∃ stub, added = [stubMapping stub]) (installExitStub pml4) := by
  have expanded : installExitStub pml4 =
      (allocFrame >>= fun stubPhys =>
        (onMachine (copyBytes stubPhys exitStub) >>= fun _ =>
          mapOrRefuse pml4 Process.userExitStubVirt stubPhys pageSize (pagePresent ||| pageUser)
            "failed to map exit trampoline") >>= fun _ =>
        update (fun proc => { proc with mappings := proc.mappings ++ [stubMapping stubPhys] })) := by
    simp only [installExitStub, Fallible.bind_assoc]
  rw [expanded]
  refine records_run takesRun_allocFrame rfl (fun _ => ?_) (fun _ _ => rfl) (fun _ _ => rfl)
    (fun _ _ => rfl)
  exact gathers_bind (gathers_quiet (quiet_copyBytes _ _)) (fun _ =>
    gathers_mapOrRefuse _ _ _ _ _ _)

theorem records_setupUserStack (pml4 : Nat) :
    Records (fun added => ∃ phys stub, added = [stackMapping phys, stubMapping stub])
      (setupUserStack pml4) := by
  rw [setupUserStack_eq]
  refine Records.bind records_initStackBacking (fun _ =>
    Records.after gathers_process (fun built =>
      Records.after (gathers_mapOrRefuse _ _ _ _ _ _) (fun _ =>
        (records_exitStub pml4).followedBy (fun _ => ?_)))) ?_
  · exact gathers_bind (gathers_quiet (quiet_copyBytes _ _)) (fun _ =>
      gathers_update (fun _ => rfl) (fun _ => rfl) (fun _ => rfl))
  · rintro left right ⟨phys, rfl⟩ ⟨stub, rfl⟩
    exact ⟨phys, stub, rfl⟩

end Loader
end MachaOS
