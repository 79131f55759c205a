/-
Every process in a table of its own, in every state of the system.

`Housing` says that memory holds the boot map, and for each process a table that
`Hosted` ties to its record.  A step keeps it when the frames it takes can be
reached at their own addresses and it maps none of `kept`.  Whatever else is to hold
of each process and its table comes along if `Endures` says what the acts keep of it.
-/

import MachaOS.Steps

namespace MachaOS

open Fallible Machine Paging Loader

theorem Loaded.hosted {kernel : Space} {pool cover kept : Nat → Prop} {origin : ByteMemory}
    {space : Space} {machine : Machine} {proc : Process}
    (loaded : Loaded kernel pool cover origin space machine proc)
    (below : ∀ addr, kept addr → addr < identityMapEnd)
    (clear : ∀ addr, kept addr → ¬ cover addr) :
    Hosted kept proc space machine.mem := by
  obtain ⟨⟨filled, laid, recorded⟩, stack⟩ := loaded
  have top : Process.userStackTop = 0x10000000 := rfl
  have low : Process.userStackLowLimit = 0xFF00000 := rfl
  have region : Process.userStackMaxPages * pageSize = 0x100000 := rfl
  have fourGiB : identityMapEnd = 4294967296 := rfl
  have lowInside := stack.lowInside
  have stackTable : space.pt (Process.userStackLowLimit / 2 ^ 21) ≠ none := by
    have lowAligned := stack.lowAligned
    have shown := (stack.shown (proc.stackLow / 4096) (by unfold InRange; omega)).1
    rwa [show proc.stackLow / 4096 / 512 = Process.userStackLowLimit / 2 ^ 21 by omega] at shown
  have placed : ∀ mapping, mapping ∈ proc.mappings → space.Placed mapping := by
    intro mapping member
    rcases recorded mapping member with inFilled | rfl
    · obtain ⟨valid, aligned, bounded⟩ := laid.valid mapping inFilled
      exact ⟨valid, aligned, bounded,
        fun page covered => (laid.shown mapping inFilled page covered).1⟩
    · refine ⟨?_, stack.aligned, stack.bounded, ?_⟩
      · have valid : ValidRange Process.userStackLowLimit
            (Process.userStackMaxPages * pageSize) :=
          ⟨by decide, by decide, by decide, by decide⟩
        exact valid
      intro page covered
      have lower : Process.userStackLowLimit ≤ page * 4096 := covered.1
      have upper : page * 4096 < Process.userStackLowLimit +
        Process.userStackMaxPages * pageSize := covered.2
      rwa [show page / 512 = Process.userStackLowLimit / 2 ^ 21 by omega]
  have uncovered : ∀ addr, ¬ cover addr → ¬ Process.Covers proc.mappings addr := by
    rintro addr free (⟨mapping, member, covers⟩ | inStack)
    · exact free (laid.covered mapping member addr covers)
    · refine free (laid.covered _ stack.record.2.2 addr ?_)
      unfold Mapping.Covers Loader.stackMapping
      dsimp only
      omega
  have kernel' : ∀ addr, addr < identityMapEnd → ¬ cover addr → space.Kernel addr := by
    intro addr inside free
    refine laid.untouched (addr / 4096) (by omega) (fun mapping member covers => ?_)
    obtain ⟨aligned, whole, -, -⟩ := (placed mapping member).valid
    refine free (laid.covered mapping member addr ?_)
    unfold Mapping.Covers at *
    omega
  exact
    { wellFormed := laid.wellFormed
      upward := laid.upward
      represents := laid.represents
      tables := laid.tables
      spare := fun frame owns mapping member _ => laid.spare frame owns mapping member
      below
      kernel := by
        rintro addr (inFrames | isKept)
        · obtain ⟨pooled, free⟩ := laid.stage.frames addr inFrames
          exact ⟨kernel' addr (laid.stage.apart addr pooled).2.1 free, uncovered addr free⟩
        · exact ⟨kernel' addr (below addr isKept) (clear addr isKept),
            uncovered addr (clear addr isKept)⟩
      placed
      stackTable
      stackPhys := ⟨stack.aligned, stack.bounded⟩
      stackLow := ⟨lowInside.1, Nat.le_of_lt lowInside.2, stack.lowAligned⟩ }

namespace System

def InRanges (ranges : List (Nat × Nat)) (addr : Nat) : Prop :=
  ∃ range, range ∈ ranges ∧ range.1 ≤ addr ∧ addr < range.2

/-- The ranges leave `kept` alone, and the next `count` frames lie outside of them. -/
def Spares (kept : Nat → Prop) (ranges : List (Nat × Nat)) (count : Nat) (pmm : Pmm) : Prop :=
  (∀ addr, kept addr → ¬ InRanges ranges addr) ∧
    Pmm.Clear (fun frame => ¬ InRanges ranges frame) count pmm

inductive Claimed (layout : Layout) : Event → List (Nat × Nat) → Nat → Prop where
  | native {elfBytes : Elf.Bytes} {prog : Elf.Program}
      (accepted : acceptProgram layout Process.pieLoadBase elfBytes = .ok prog) :
      Claimed layout (.spawn elfBytes) (nativeRanges prog)
        (6 + (imageFrames prog.segments + (Process.userStackMaxPages + (1 + (1 + (1 + 0))))))
  | linux {elfBytes : Elf.Bytes} {argv envp : List Elf.Bytes} {ticks : Nat}
      {readFile : String → Option Elf.Bytes} {prog : Elf.Program} {interp : Option Elf.Program}
      (accepted : acceptProgram layout Process.pieLoadBase elfBytes = .ok prog)
      (found : acceptInterpreter layout readFile prog = .ok interp) :
      Claimed layout (.spawnLinux elfBytes argv envp ticks readFile) (linuxRanges prog interp)
        (6 + (imageFrames prog.segments + (interpreterFrames layout readFile prog +
          (Process.userStackMaxPages + (1 + 0)))))
  | uninterpreted {elfBytes : Elf.Bytes} {argv envp : List Elf.Bytes} {ticks : Nat}
      {readFile : String → Option Elf.Bytes} {prog : Elf.Program} {message : String}
      (accepted : acceptProgram layout Process.pieLoadBase elfBytes = .ok prog)
      (missing : acceptInterpreter layout readFile prog = .error message) :
      Claimed layout (.spawnLinux elfBytes argv envp ticks readFile) (imageRange prog.segments)
        (6 + (imageFrames prog.segments + (interpreterFrames layout readFile prog +
          (Process.userStackMaxPages + (1 + 0)))))

/-- The frames the step works on can be reached at their own addresses, and it maps neither
them nor anything of `kept`. -/
structure Careful (kept : Nat → Prop) (sys : System) (event : Event) : Prop where
  acts : ∀ cr3 proc act, sys.currentProcess = some (cr3, proc) →
    event.act sys.shm proc = some act → act.Safe kept proc sys.machine
  launches : ∀ ranges count, sys.current = 0 → Claimed sys.layout event ranges count →
    Spares kept ranges count sys.machine.pmm
  grows : ∀ fd len cr3 proc id cursor phys pmm, event = .ftruncate fd len →
    sys.currentProcess = some (cr3, proc) → proc.fd fd = some (.shm id cursor) →
    Shm.Outgrows sys.shm id len →
    sys.machine.pmm.allocContiguous (max ((len + Pmm.frameSize - 1) / Pmm.frameSize) 1) =
      (some phys, pmm) →
    ∀ frame, frame ∈ Pmm.frameRun phys (max ((len + Pmm.frameSize - 1) / Pmm.frameSize) 1) →
      Safe proc.mappings sys.machine 0 0 frame

structure Endures (kept : Nat → Prop) (condition : MemoryAct → Process → Machine → Prop)
    (births : List (Nat × Nat) → Prop) (property : Process → Space → Prop) : Prop where
  congr : ∀ (proc proc' : Process) (space : Space), proc'.books = proc.books →
    property proc space → property proc' space
  change : ∀ (act : MemoryAct) (proc proc' : Process) (machine : Machine)
    (space after : Space), Hosted kept proc space machine.mem → OwnedBy machine.pmm proc →
    property proc space → condition act proc machine →
    act.Change proc proc' machine space after → property proc' after
  birth : ∀ (kernel : Space) (pool cover : Nat → Prop) (origin : ByteMemory) (space : Space)
    (machine : Machine) (proc : Process),
    Loaded kernel pool cover origin space machine proc →
    (∀ mapping, mapping ∈ proc.mappings → mapping.shmId = none) →
    births (proc.mappings.map Mapping.range) → property proc space

structure Allows (condition : MemoryAct → Process → Machine → Prop)
    (births : List (Nat × Nat) → Prop) (sys : System) (event : Event) : Prop where
  acts : ∀ cr3 proc act, sys.currentProcess = some (cr3, proc) →
    event.act sys.shm proc = some act → condition act proc sys.machine
  launches : ∀ ranges count, sys.current = 0 → Claimed sys.layout event ranges count →
    births ranges

structure Homes (boot : Boot) (kept : Nat → Prop) (property : Process → Space → Prop)
    (sys : System) : Prop where
  kernel : (Boot.kernelSpace boot.pml4).Represents sys.machine.mem
  table : sys.layout.kernelPml4 = boot.pml4
  main : ∃ task : Task, sys.tasks[0]? = some task ∧ task.process = none
  roots : ∀ (index : Nat) (task : Task), sys.tasks[index]? = some task →
    task.process = none → task.cr3 = boot.pml4
  active : ∀ task : Task, sys.tasks[sys.current]? = some task →
    sys.machine.cr3 = task.cr3
  spaces : ∀ (index : Nat) (task : Task) (proc : Process), sys.tasks[index]? = some task →
    task.process = some proc →
    ∃ space, space.pml4 = task.cr3 ∧ Hosted kept proc space sys.machine.mem ∧
      property proc space

structure Housing (boot : Boot) (kept : Nat → Prop) (property : Process → Space → Prop)
    (sys : System) : Prop where
  ledger : sys.Ledger boot.initialPmm.Free
  homes : Homes boot kept property sys

section

variable {boot : Boot} {kept : Nat → Prop} {condition : MemoryAct → Process → Machine → Prop}
  {births : List (Nat × Nat) → Prop} {property : Process → Space → Prop} {sys after : System}
  {event : Event}

theorem Homes.calm (homes : Homes boot kept property sys)
    (endures : Endures kept condition births property) (calm : Calm sys after) :
    Homes boot kept property after := by
  obtain ⟨⟨mem, cr3⟩, layout, current, same⟩ := calm
  have back : ∀ (index : Nat) (task : Task), after.tasks[index]? = some task →
      ∃ before : Task, sys.tasks[index]? = some before ∧ task.home = before.home :=
    fun index task found => Calm.task ⟨⟨mem, cr3⟩, layout, current, same⟩ found
  have unclaimed : ∀ task before : Task, task.home = before.home →
      (task.process = none ↔ before.process = none) := by
    intro task before home
    have books := congrArg Prod.snd home
    simp only [Task.home] at books
    rw [← Option.map_eq_none_iff, books, Option.map_eq_none_iff]
  refine ⟨by rw [mem]; exact homes.kernel, by rw [layout]; exact homes.table, ?_, ?_, ?_, ?_⟩
  · obtain ⟨task, first, none'⟩ := homes.main
    have there := congrArg (fun list => list[0]?) same
    simp only [List.getElem?_map, first, Option.map_some] at there
    obtain ⟨other, present, home⟩ := Option.map_eq_some_iff.mp there
    exact ⟨other, present, (unclaimed other task home).mpr none'⟩
  · intro index task found none'
    obtain ⟨before, was, home⟩ := back index task found
    rw [show task.cr3 = before.cr3 from congrArg Prod.fst home]
    exact homes.roots index before was ((unclaimed task before home).mp none')
  · intro task found
    rw [current] at found
    obtain ⟨before, was, home⟩ := back _ task found
    rw [cr3, show task.cr3 = before.cr3 from congrArg Prod.fst home]
    exact homes.active before was
  · intro index task proc found isProcess
    obtain ⟨before, was, home⟩ := back index task found
    have books := congrArg Prod.snd home
    simp only [Task.home, isProcess, Option.map_some] at books
    obtain ⟨earlier, wasProcess, same'⟩ := Option.map_eq_some_iff.mp books.symm
    obtain ⟨space, pml4, hosted, holds⟩ := homes.spaces index before earlier was wasProcess
    refine ⟨space, pml4.trans (congrArg Prod.fst home).symm, ?_,
      endures.congr earlier proc space same'.symm holds⟩
    rw [mem]
    exact hosted.congr same'.symm

theorem Homes.switched (homes : Homes boot kept property sys) {task : Task}
    (found : sys.tasks[after.current]? = some task)
    (mem : after.machine.mem = sys.machine.mem) (active : after.machine.cr3 = task.cr3)
    (layout : after.layout = sys.layout) (tasks : after.tasks = sys.tasks) :
    Homes boot kept property after := by
  refine ⟨by rw [mem]; exact homes.kernel, by rw [layout]; exact homes.table,
    by rw [tasks]; exact homes.main, by rw [tasks]; exact homes.roots, ?_,
    by rw [tasks, mem]; exact homes.spaces⟩
  intro other there
  rw [tasks, found] at there
  cases there
  exact active

variable {proc : Process}

theorem Housing.elsewhere (housing : Housing boot kept property sys) {written : Nat → Prop}
    {mem : ByteMemory} (agree : Space.AgreeOutside written sys.machine.mem mem) {index : Nat}
    {task : Task} (found : sys.tasks[index]? = some task)
    (isProcess : task.process = some proc)
    (apart : ∀ frame, written frame → sys.machine.pmm.Free frame ∨
      ∃ holder, holder ≠ .process index ∧ frame ∈ sys.holdings holder) :
    ∃ space, space.pml4 = task.cr3 ∧ Hosted kept proc space mem ∧ property proc space := by
  obtain ⟨space, pml4, hosted, holds⟩ := housing.homes.spaces index task proc found isProcess
  refine ⟨space, pml4, hosted.of_agree agree (fun frame owns wrote => ?_), holds⟩
  have here : sys.processAt index = some proc := by
    unfold processAt
    rw [found]
    exact isProcess
  have mine : frame ∈ sys.holdings (.process index) := by
    rw [holdings_process here]
    exact hosted.tables frame owns
  rcases apart frame wrote with free | ⟨holder, different, theirs⟩
  · exact (housing.ledger.held _ frame mine).2.2.2 free
  · exact different (housing.ledger.exclusive.alone _ _ frame theirs mine)

theorem Housing.kernelKept (housing : Housing boot kept property sys) (valid : boot.Valid)
    {written : Nat → Prop} {mem : ByteMemory}
    (agree : Space.AgreeOutside written sys.machine.mem mem)
    (pooled : ∀ frame, written frame → boot.initialPmm.Free frame) :
    (Boot.kernelSpace boot.pml4).Represents mem :=
  housing.homes.kernel.congr valid.wellFormed agree
    (fun _ owns wrote => (valid.pool_apart (pooled _ wrote)).2.2 owns)

theorem Housing.hosted (housing : Housing boot kept property sys) {cr3 : Nat}
    {proc : Process} (calling : sys.currentProcess = some (cr3, proc)) :
    ∃ space, space.pml4 = cr3 ∧ sys.machine.cr3 = cr3 ∧
      Hosted kept proc space sys.machine.mem ∧ property proc space := by
  have found := currentProcess_eq_some calling
  obtain ⟨space, pml4, hosted, holds⟩ := housing.homes.spaces _ _ proc found rfl
  exact ⟨space, pml4, housing.homes.active _ found, hosted, holds⟩

theorem Housing.inMemory (housing : Housing boot kept property sys) (valid : boot.Valid)
    {act : MemoryAct} (asked : event.act sys.shm proc = some act) : act.InMemory := by
  cases act with
  | mmapShared at' table shmId writable executable =>
      obtain rfl := Event.act_table asked
      intro phys pages isPhys isPages some'
      obtain ⟨obj, found, rfl⟩ := Option.map_eq_some_iff.mp isPhys
      obtain ⟨other, same, rfl⟩ := Option.map_eq_some_iff.mp isPages
      rw [found] at same
      cases same
      have last : obj.phys + (obj.pages - 1) * Pmm.frameSize ∈ sys.holdings (.object shmId) := by
        rw [holdings_object found]
        exact Pmm.mem_frameRun.mpr ⟨obj.pages - 1, by omega, rfl⟩
      obtain ⟨-, below, -⟩ := valid.pool_apart (housing.ledger.heldPool _ _ last)
      have size : Pmm.frameSize = 4096 := rfl
      have fourGiB : identityMapEnd = 4294967296 := rfl
      rw [size, fourGiB] at below
      exact ⟨(housing.ledger.objects shmId obj found).1, by omega⟩
  | _ => trivial

theorem Housing.acted (housing : Housing boot kept property sys) (valid : boot.Valid)
    (endures : Endures kept condition births property) {cr3 : Nat} {proc' : Process}
    {act : MemoryAct} {machine : Machine} (calling : sys.currentProcess = some (cr3, proc))
    (asked : event.act sys.shm proc = some act) (safe : act.Safe kept proc sys.machine)
    (holds : condition act proc sys.machine)
    (ran : act.run proc cr3 sys.machine = (.ok proc', machine)) :
    Homes boot kept property ({ sys with machine }.setCurrentProcess proc') := by
  obtain ⟨space, rfl, active, hosted, was⟩ := housing.hosted calling
  have owned := housing.ledger.owned _ _ (processAt_current calling)
  obtain ⟨other, machine', later, same, hosted', pml4, cr3, writes, change⟩ :=
    hosted.acts owned housing.ledger.bounded active act safe (housing.inMemory valid asked)
  rw [ran] at same
  cases same
  have found := currentProcess_eq_some calling
  have tasks : ∀ index, ({ sys with machine }.setCurrentProcess proc').tasks[index]? =
      if sys.current = index then some { cr3 := space.pml4, process := some proc' }
      else sys.tasks[index]? := by
    intro index
    unfold setCurrentProcess
    rw [List.getElem?_modify]
    by_cases here : sys.current = index
    · subst here
      simp [found]
    · simp [here]
  have apart : ∀ frame, (frame ∈ proc.frames ∨ sys.machine.pmm.Free frame) →
      boot.initialPmm.Free frame := by
    rintro frame (mine | free)
    · refine housing.ledger.heldPool (.process sys.current) frame ?_
      rwa [holdings_process (processAt_current calling)]
    · exact housing.ledger.freePool frame free
  obtain ⟨main, first, none'⟩ := housing.homes.main
  have notMain : sys.current ≠ 0 := by
    intro here
    rw [here, first] at found
    cases found
    cases none'
  refine
    { kernel := housing.kernelKept valid writes apart
      table := housing.homes.table
      main := ⟨main, by rw [tasks, if_neg notMain]; exact first, none'⟩
      roots := ?_
      active := ?_
      spaces := ?_ }
  · intro index task there isKernel
    rw [tasks] at there
    split at there
    · cases there
      cases isKernel
    · exact housing.homes.roots index task there isKernel
  · intro task there
    have here : ({ sys with machine }.setCurrentProcess proc').current = sys.current := rfl
    rw [here, tasks, if_pos rfl] at there
    cases there
    exact cr3.trans active
  · intro index task other there isProcess
    rw [tasks] at there
    split at there
    · cases there
      cases isProcess
      exact ⟨later, pml4, hosted',
        endures.change act proc _ sys.machine space later hosted owned was holds change⟩
    · rename_i elsewhere
      refine housing.elsewhere writes there isProcess ?_
      rintro frame (mine | free)
      · refine Or.inr ⟨.process sys.current, fun same => elsewhere (Holder.process.inj same), ?_⟩
        rwa [holdings_process (processAt_current calling)]
      · exact Or.inl free

/-! ### Launching -/

theorem Housing.stage (housing : Housing boot kept property sys) (valid : boot.Valid)
    (main : sys.current = 0) (cover : Nat → Prop) {proc : Process}
    (fresh : proc.frames = [] ∧ proc.mappings = []) :
    Stage (Boot.kernelSpace boot.pml4) sys.machine.pmm.Free cover sys.machine.mem
      sys.machine proc := by
  obtain ⟨task, first, isKernel⟩ := housing.homes.main
  have active := housing.homes.active task (by rw [main]; exact first)
  have ready : boot.Ready sys :=
    { valid
      ledger := housing.ledger
      represents := housing.homes.kernel
      active := active.trans (housing.homes.roots 0 task first isKernel)
      table := housing.homes.table
      main }
  have pooled := housing.ledger.freePool
  obtain ⟨wellFormed, represents, direct, active, apart, free, bounded, owned, frames, wrote⟩ :=
    ready.stage cover fresh
  have frames' : ∀ frame, frame ∈ proc.frames → sys.machine.pmm.Free frame ∧ ¬ cover frame := by
    simp [fresh.1]
  exact ⟨wellFormed, represents, fun frame reached => direct frame (reached.imp_left (pooled frame)),
    active, fun frame isFree => apart frame (pooled frame isFree), fun _ isFree => isFree, bounded, owned,
    frames', Space.AgreeOutside.refl _ _⟩

variable {loader : Loader Nat}

theorem Launches.fresh {layout : Layout} (launches : Launches layout event proc loader) :
    proc.frames = [] ∧ proc.mappings = [] ∧ proc.stackLow = Process.userStackBase := by
  cases launches <;> exact ⟨rfl, rfl, rfl⟩

theorem Launches.isPrivate {layout : Layout} {fresh built : Process} {machine machine' : Machine}
    {pml4 : Nat} (launches : Launches layout event fresh loader)
    (ran : loader (machine, fresh) = (.ok pml4, (machine', built))) :
    ∀ mapping, mapping ∈ built.mappings → mapping.shmId = none := by
  obtain ⟨-, noMappings, -⟩ := launches.fresh
  have recorded : ∃ added, (∀ mapping, mapping ∈ added → mapping.shmId = none) ∧
      built.mappings = fresh.mappings ++ added := by
    cases launches with
    | native accepted =>
        obtain ⟨added, ⟨⟨taken, grown⟩, -⟩, isPrivate, -⟩ :=
          records_loadNative _ (acceptProgram_ok accepted) _ _ _ ran (by simp)
        exact ⟨added, isPrivate, grown.mappings⟩
    | linux accepted heap =>
        obtain ⟨added, ⟨⟨taken, grown⟩, -⟩, isPrivate, -⟩ :=
          records_loadLinux _ _ _ _ _ (acceptProgram_ok accepted) _ _ _ ran (by simp)
        exact ⟨added, isPrivate, grown.mappings⟩
  obtain ⟨added, isPrivate, mappings⟩ := recorded
  rw [mappings, noMappings, List.nil_append]
  exact isPrivate

section

variable (housing : Housing boot kept property sys) (valid : boot.Valid)
include housing valid

theorem Housing.launch_yields (main : sys.current = 0) {fresh : Process}
    (launches : Launches sys.layout event fresh loader)
    (careful : ∀ ranges count, Claimed sys.layout event ranges count →
      Spares kept ranges count sys.machine.pmm) :
    Yields loader (sys.machine, fresh)
      (fun pml4 state => ∃ ranges count space, Claimed sys.layout event ranges count ∧
        space.pml4 = pml4 ∧
        Delivers (Boot.kernelSpace boot.pml4) sys.machine.pmm.Free (InRanges ranges)
          sys.machine.mem False 0 ranges fresh space state.1 state.2)
      (Stopped (Boot.kernelSpace boot.pml4) sys.machine.pmm.Free sys.machine.mem False) := by
  have claims : ∀ ranges some', (∀ range, range ∈ some' → range ∈ ranges) →
      Claims (InRanges ranges) some' :=
    fun ranges some' subset range member addr lower upper =>
      ⟨range, subset range member, lower, upper⟩
  obtain ⟨noFrames, noMappings, low⟩ := launches.fresh
  cases launches with
  | @native elfBytes prog accepted =>
      have claimed := @Claimed.native sys.layout _ _ accepted
      obtain ⟨-, clear⟩ := careful _ _ claimed
      refine (loadNative_yields (housing.stage valid main _ ⟨noFrames, noMappings⟩)
        (fun _ => rfl) ⟨noFrames, noMappings, low⟩ housing.homes.table
        (acceptProgram_loadable accepted) (claims _ _ (fun _ member => member))
        ⟨clear, fun sure => sure.elim⟩).mono ?_
      rintro pml4 state ⟨space, pml4, delivers⟩
      exact ⟨_, _, space, claimed, pml4, delivers⟩
  | @linux elfBytes argv envp ticks heapStart readFile prog accepted heap =>
      have stage : ∀ cover : Nat → Prop, Stage (Boot.kernelSpace boot.pml4)
          sys.machine.pmm.Free cover sys.machine.mem sys.machine
          (newProcess prog.entry heapStart .linux) :=
        fun cover => housing.stage valid main cover ⟨noFrames, noMappings⟩
      have loads := fun (ranges : List (Nat × Nat)) stock image claims =>
        @loadLinux_yields _ _ (InRanges ranges) _ False _ _ _ prog elfBytes argv envp ticks 0
          readFile (stage _) (fun _ => rfl) ⟨noFrames, noMappings⟩ housing.homes.table
          (acceptProgram_loadable accepted) (fun sure => sure.elim) claims
          (fun sure => sure.elim) image stock
      have image : ∀ interp, ∀ range, range ∈ imageRange prog.segments →
          range ∈ linuxRanges prog interp :=
        fun interp range member => by
          unfold linuxRanges
          exact List.mem_append_left _ (List.mem_append_left _ member)
      cases found : acceptInterpreter sys.layout readFile prog with
      | ok interp =>
          have claimed := @Claimed.linux sys.layout elfBytes argv envp ticks readFile prog
            interp accepted found
          obtain ⟨-, clear⟩ := careful _ _ claimed
          refine (loads (linuxRanges prog interp) ⟨clear, fun sure => sure.elim⟩
            (claims _ _ (image interp)) ?_).mono ?_
          · intro other same
            rw [found] at same
            cases same
            exact claims _ _ (fun _ member => member)
          · rintro pml4 state ⟨other, same, space, pml4, delivers⟩
            rw [found] at same
            cases same
            exact ⟨_, _, space, claimed, pml4, delivers⟩
      | error message =>
          have claimed := @Claimed.uninterpreted sys.layout elfBytes argv envp ticks readFile
            prog message accepted found
          obtain ⟨-, clear⟩ := careful _ _ claimed
          refine (loads (imageRange prog.segments) ⟨clear, fun sure => sure.elim⟩
            (claims _ _ (fun _ member => member)) ?_).mono ?_
          · intro other same
            rw [found] at same
            cases same
          · rintro pml4 state ⟨other, same, -⟩
            rw [found] at same
            cases same

theorem Housing.machine {machine : Machine} (cr3 : machine.cr3 = sys.machine.cr3)
    (agree : Space.AgreeOutside sys.machine.pmm.Free sys.machine.mem machine.mem) :
    Homes boot kept property { sys with machine } := by
  refine
    { kernel := housing.kernelKept valid agree housing.ledger.freePool
      table := housing.homes.table
      main := housing.homes.main
      roots := housing.homes.roots
      active := fun task found => cr3.trans (housing.homes.active task found)
      spaces := ?_ }
  intro index task proc found isProcess
  exact housing.elsewhere agree found isProcess (fun frame free => Or.inl free)

theorem Housing.launched (endures : Endures kept condition births property)
    (below : ∀ addr, kept addr → addr < identityMapEnd) (main : sys.current = 0)
    {fresh built : Process} {pml4 : Nat} {machine : Machine}
    (launches : Launches sys.layout event fresh loader)
    (careful : ∀ ranges count, Claimed sys.layout event ranges count →
      Spares kept ranges count sys.machine.pmm)
    (born : ∀ ranges count, Claimed sys.layout event ranges count → births ranges)
    (ran : loader (sys.machine, fresh) = (.ok pml4, (machine, built))) :
    Homes boot kept property
      { sys with machine, tasks := sys.tasks ++ [{ cr3 := pml4, process := some built }] } := by
  obtain ⟨ranges, count, space, claimed, rfl, delivers⟩ :=
    (housing.launch_yields valid main launches careful).of_ok ran
  obtain ⟨loaded, recorded, -, -⟩ := delivers
  obtain ⟨filled, laid, -⟩ := loaded.laid
  obtain ⟨task, first, isKernel⟩ := housing.homes.main
  have cr3 : machine.cr3 = sys.machine.cr3 := by
    rw [laid.stage.active, housing.homes.active task (by rw [main]; exact first),
      housing.homes.roots 0 task first isKernel]
    rfl
  have homes := housing.machine valid cr3 laid.stage.wrote
  obtain ⟨inside, -⟩ := List.getElem?_eq_some_iff.mp first
  have old : ∀ index, index < sys.tasks.length →
      (sys.tasks ++ [{ cr3 := space.pml4, process := some built }])[index]? =
        sys.tasks[index]? :=
    fun index small => List.getElem?_append_left small
  have either : ∀ (index : Nat) (other : Task),
      (sys.tasks ++ [{ cr3 := space.pml4, process := some built }])[index]? = some other →
      sys.tasks[index]? = some other ∨ other = { cr3 := space.pml4, process := some built } := by
    intro index other there
    by_cases small : index < sys.tasks.length
    · exact Or.inl (by rwa [old index small] at there)
    · rw [List.getElem?_append_right (Nat.le_of_not_lt small)] at there
      have member := List.mem_of_getElem? there
      rw [List.mem_singleton] at member
      exact Or.inr member
  refine
    { kernel := homes.kernel
      table := homes.table
      main := ⟨task, (old 0 inside).trans first, isKernel⟩
      roots := ?_
      active := ?_
      spaces := ?_ }
  · intro index other there none'
    rcases either index other there with was | rfl
    · exact homes.roots index other was none'
    · cases none'
  · intro other there
    rw [main, old 0 inside] at there
    exact homes.active other (by rw [main]; exact there)
  · intro index other proc there isProcess
    rcases either index other there with was | rfl
    · exact homes.spaces index other proc was isProcess
    · cases isProcess
      refine ⟨space, rfl, ?_,
        endures.birth _ _ _ _ space machine built loaded (launches.isPrivate ran) ?_⟩
      · obtain ⟨spared, -⟩ := careful ranges count claimed
        exact loaded.hosted below spared
      · rw [recorded]
        exact born ranges count claimed

theorem Housing.refused (main : sys.current = 0) {fresh built : Process} {stop : Stop}
    {machine : Machine} (launches : Launches sys.layout event fresh loader)
    (careful : ∀ ranges count, Claimed sys.layout event ranges count →
      Spares kept ranges count sys.machine.pmm)
    (ran : loader (sys.machine, fresh) = (.error stop, (machine, built))) :
    Homes boot kept property { sys with machine } := by
  obtain ⟨-, -, cr3, agree⟩ := (housing.launch_yields valid main launches careful).of_error ran
  obtain ⟨task, first, isKernel⟩ := housing.homes.main
  refine housing.machine valid ?_ agree
  rw [cr3, housing.homes.active task (by rw [main]; exact first),
    housing.homes.roots 0 task first isKernel]
  rfl

end

/-! ### Removing and moving -/

theorem Homes.removed (homes : Homes boot kept property sys) {pid : Nat}
    (main : sys.current = 0) (apart : pid ≠ 0) (inside : pid < sys.tasks.length)
    (tasks : after.tasks = swapRemove sys.tasks pid) (current : after.current = 0)
    (machine : after.machine = sys.machine) (layout : after.layout = sys.layout) :
    Homes boot kept property after := by
  have back : ∀ (index : Nat) (task : Task), after.tasks[index]? = some task →
      ∃ other, sys.tasks[other]? = some task ∧ (index = 0 → other = 0) := by
    intro index task found
    rw [tasks, getElem?_swapRemove inside] at found
    split at found
    · split at found
      · rename_i same
        exact ⟨_, found, fun zero => absurd (same.symm.trans zero) apart⟩
      · exact ⟨_, found, fun zero => zero⟩
    · cases found
  obtain ⟨task, first, isKernel⟩ := homes.main
  refine
    { kernel := by rw [machine]; exact homes.kernel
      table := by rw [layout]; exact homes.table
      main := ⟨task, ?_, isKernel⟩
      roots := ?_
      active := ?_
      spaces := ?_ }
  · rw [tasks, getElem?_swapRemove inside, if_pos (by omega), if_neg (Ne.symm apart)]
    exact first
  · intro index other found none'
    obtain ⟨before, was, -⟩ := back index other found
    exact homes.roots before other was none'
  · intro other found
    rw [current] at found
    obtain ⟨before, was, zero⟩ := back 0 other found
    rw [zero rfl, ← main] at was
    rw [machine]
    exact homes.active other was
  · intro index other proc found isProcess
    obtain ⟨before, was, -⟩ := back index other found
    rw [machine]
    exact homes.spaces before other proc was isProcess

theorem truncate_writes {space : Space} {machine machine' : Machine}
    (hosted : Hosted kept proc space machine.mem) (owned : OwnedBy machine.pmm proc)
    (bounded : machine.pmm.Bounded) (active : machine.cr3 = space.pml4) {table table' : Shm.Table}
    {id len : Nat} {done : Bool}
    (safe : ∀ phys pmm, Shm.Outgrows table id len →
      machine.pmm.allocContiguous (max ((len + Pmm.frameSize - 1) / Pmm.frameSize) 1) =
        (some phys, pmm) →
      ∀ frame, frame ∈ Pmm.frameRun phys (max ((len + Pmm.frameSize - 1) / Pmm.frameSize) 1) →
        MachaOS.Safe proc.mappings machine 0 0 frame)
    (ran : Shm.truncate table id len machine = (.ok (done, table'), machine')) :
    Space.AgreeOutside machine.pmm.Free machine.mem machine'.mem ∧ machine'.cr3 = machine.cr3 := by
  have nothing : Space.AgreeOutside machine.pmm.Free machine.mem machine.mem ∧
      machine.cr3 = machine.cr3 := ⟨Space.AgreeOutside.refl _ _, rfl⟩
  unfold Shm.truncate at ran
  cases found : table.lookup id with
  | none =>
      rw [found] at ran
      cases ran
      exact nothing
  | some obj =>
      rw [found] at ran
      dsimp only at ran
      split at ran
      · cases ran
        exact nothing
      split at ran
      · cases ran
        exact nothing
      rename_i longer larger
      obtain ⟨allocation, machine₁, given, rest⟩ := bind_eq_ok ran
      rcases allocContiguous_takes given with ⟨rfl, rfl⟩ | ⟨newPhys, rfl, -, aligned, takes⟩
      · cases rest
        exact nothing
      generalize pages : max ((len + Pmm.frameSize - 1) / Pmm.frameSize) 1 = count at *
      have size : Pmm.frameSize = 4096 := rfl
      obtain ⟨pmm, given', rfl⟩ : ∃ pmm,
          machine.pmm.allocContiguous count = (some newPhys, pmm) ∧
            machine₁ = { machine with pmm } := by
        have result := congrArg Prod.fst given
        have state := congrArg Prod.snd given
        exact ⟨_, Prod.ext (Except.ok.inj result) rfl, state.symm⟩
      have lent : ∀ frame, frame ∈ Pmm.frameRun newPhys count →
          Lends proc.mappings space 0 0 frame ∧ ¬ space.Owns frame := by
        intro frame member
        have free := takes.wasFree frame member
        exact ⟨hosted.lends_of_safe bounded active free
          (safe newPhys pmm ⟨obj, found, by omega, by omega⟩ given' frame member),
          fun owns => (owned.held frame (hosted.tables frame owns)).2.2.2 free⟩
      have touched : ∀ length, length ≤ count * Pmm.frameSize → ∀ frame,
          Touches newPhys length frame → frame ∈ Pmm.frameRun newPhys count := by
        intro length inside frame touches
        rw [size] at inside
        exact Touches.mem_frameRun aligned (show 0 + length ≤ count * 4096 by omega) touches
      have whole := touched _ (le_refl _)
      have editing : Editing (Lends proc.mappings space 0 0) space { machine with pmm } :=
        (hosted.editing owned active (fun _ _ within => Nat.not_lt_zero _ within.2)).with_pmm
          (fun frame free => ((takes.free frame).mp free).1)
      have zeroes := @Editing.zeroBytes _ _ _ editing newPhys (count * Pmm.frameSize)
        (fun frame touches => lent frame (whole frame touches))
      have agree := agreeOutside_writeBytes machine.mem newPhys
        (List.replicate (count * Pmm.frameSize) 0#8)
      rw [List.length_replicate] at agree
      have wrote := agree.mono (fun frame touches => takes.wasFree frame (whole frame touches))
      have edited : Editing (Lends proc.mappings space 0 0) space
          { machine with
            pmm
            mem := machine.mem.writeBytes newPhys (List.replicate (count * Pmm.frameSize) 0#8) } :=
        editing.agree_outside rfl rfl agree (fun frame touches => (lent frame (whole frame touches)).1)
          (fun frame touches => (lent frame (whole frame touches)).2)
      dsimp only at rest
      rw [bind_of_ok zeroes] at rest
      split at rest
      · obtain ⟨_, machine₂, moved, rest⟩ := bind_eq_ok rest
        obtain ⟨_, machine₃, freed, rest⟩ := bind_eq_ok rest
        cases rest
        have inside : obj.pages * Pmm.frameSize ≤ count * Pmm.frameSize :=
          Nat.mul_le_mul_right _ (by omega)
        obtain ⟨copied, cr3⟩ := edited.moveBytes
          (fun frame touches => lent frame (touched _ inside frame touches)) moved
        obtain ⟨mem, cr3'⟩ := (freeFrames_calm _ _).of_run freed
        rw [mem]
        exact ⟨wrote.trans (copied.mono (fun frame touches =>
          takes.wasFree frame (touched _ inside frame touches))), cr3'.trans cr3⟩
      · cases rest
        exact ⟨wrote, rfl⟩

theorem Housing.truncated (housing : Housing boot kept property sys) (valid : boot.Valid)
    {fd len cr3 id cursor : Nat} {proc : Process} {done : Bool} {table : Shm.Table}
    {machine : Machine} (careful : Careful kept sys (.ftruncate fd len))
    (calling : sys.currentProcess = some (cr3, proc))
    (entry : proc.fd fd = some (.shm id cursor))
    (ran : Shm.truncate sys.shm id len sys.machine = (.ok (done, table), machine)) :
    Homes boot kept property { sys with machine, shm := table } := by
  obtain ⟨space, rfl, active, hosted, -⟩ := housing.hosted calling
  obtain ⟨agree, cr3⟩ := truncate_writes hosted
    (housing.ledger.owned _ _ (processAt_current calling)) housing.ledger.bounded active
    (fun phys pmm outgrows given =>
      careful.grows fd len _ proc id cursor phys pmm rfl calling entry outgrows given) ran
  obtain ⟨kernel, table', main, roots, active', spaces⟩ := housing.machine valid cr3 agree
  exact ⟨kernel, table', main, roots, active', spaces⟩

theorem Housing.step (housing : Housing boot kept property sys) (valid : boot.Valid)
    (endures : Endures kept condition births property)
    (below : ∀ addr, kept addr → addr < identityMapEnd)
    (careful : Careful kept sys event) (allows : Allows condition births sys event)
    (stepped : System.step sys event = some after) : Housing boot kept property after := by
  refine ⟨housing.ledger.step stepped, ?_⟩
  cases step_does stepped with
  | calm calm => exact housing.homes.calm endures calm
  | switched found mem active layout tasks =>
      exact housing.homes.switched found mem active layout tasks
  | acted calling asked ran calm =>
      exact (housing.acted valid endures calling asked
        (careful.acts _ _ _ calling asked) (allows.acts _ _ _ calling asked) ran).calm endures calm
  | launched main launches ran result =>
      rw [result]
      exact housing.launched valid endures below main launches
        (fun ranges count claimed => careful.launches ranges count main claimed)
        (fun ranges count claimed => allows.launches ranges count main claimed) ran
  | refused main launches ran calm =>
      exact (housing.refused valid main launches
        (fun ranges count claimed => careful.launches ranges count main claimed) ran).calm endures
        calm
  | removed main apart inside tasks current machine layout calm =>
      exact (housing.homes.removed main apart inside tasks current machine layout).calm endures calm
  | truncated isEvent calling entry ran result =>
      subst isEvent
      rw [result]
      exact housing.truncated valid careful calling entry ran

end

end System

namespace Boot

open MachaOS.System

variable {sys : System}

theorem housing_start {boot : Boot} (kept : Nat → Prop) (property : Process → Space → Prop)
    (valid : boot.Valid) (started : boot.start = some sys) :
    Housing boot kept property sys := by
  have ready := ready_start valid started
  have tasks : ∀ (index : Nat) (task : Task), sys.tasks[index]? = some task →
      task = { cr3 := boot.pml4, process := none } := by
    intro index task found
    obtain ⟨heapStart, pmm, -, rfl⟩ := start_cases started
    exact List.eq_of_mem_replicate (List.mem_of_getElem? found)
  have main : sys.tasks[0]? = some { cr3 := boot.pml4, process := none } := by
    obtain ⟨heapStart, pmm, -, rfl⟩ := start_cases started
    rfl
  refine ⟨ready.ledger, ready.represents, ready.table, ⟨_, main, rfl⟩, ?_, ?_, ?_⟩
  · intro index task found _
    rw [tasks index task found]
  · intro task found
    rw [tasks _ task found, ready.active]
  · intro index task proc found isProcess
    rw [tasks index task found] at isProcess
    cases isProcess

variable {kept : Nat → Prop}

theorem housing_run {boot : Boot} {condition : MemoryAct → Process → Machine → Prop}
    {births : List (Nat × Nat) → Prop} {property : Process → Space → Prop} (valid : boot.Valid)
    (endures : Endures kept condition births property)
    (below : ∀ addr, kept addr → addr < identityMapEnd) {events : List System.Event}
    (meets : boot.Meets (fun state event => Careful kept state event ∧
      Allows condition births state event) events)
    (ran : boot.run events = some sys) : Housing boot kept property sys :=
  run_invariant (Housing boot kept property)
    (fun _ started => housing_start kept property valid started)
    (fun _ _ _ housing condition stepped =>
      housing.step valid endures below condition.1 condition.2 stepped) meets ran

/-! ### One process at work -/

def lowRam (addr : Nat) : Prop :=
  0x4000000 ≤ addr ∧ addr < 0xFF00000

theorem page_apart {virt : Nat} (above : 0x10000000 ≤ virt) :
    ∀ address, lowRam address → ¬ InRange virt 4096 address := by
  rintro address ⟨-, upper⟩ ⟨lower, -⟩
  omega

/-- The process of `gigabyteEvents` is running, with frames to spare. -/
structure Alone (length : Nat) (sys : System) (proc : Process) (space : Space) : Prop where
  ledger : sys.Ledger (ofRam length).initialPmm.Free
  current : sys.current = 4
  tasks : sys.tasks = List.replicate 4 { cr3 := (ofRam length).pml4, process := none } ++
    [{ cr3 := space.pml4, process := some proc }]
  layout : sys.layout =
    { kernelStart
      kernelEnd := 0x200000
      kernelPml4 := 0x101000
      heapStart := 0x4000000
      heapEnd := 0x6800000 }
  noObjects : sys.shm = []
  active : sys.machine.cr3 = space.pml4
  hosted : Hosted lowRam proc space sys.machine.mem
  loaded : ∃ kernel pool origin machine, Loaded kernel pool gigabyteCover origin space machine proc
  stock : Pmm.Stock (fun frame => ¬ gigabyteCover frame) True 2048 sys.machine.pmm
  mappings : proc.mappings.map Mapping.range = System.linuxRanges Elf.gigabyteProgram none
  record : FillsIn (System.newProcess 0x40000000 0x40002000 .linux) proc
  low : proc.stackLow = 0xFFFF000

variable {length : Nat}

theorem ofRam_alone (fits : RamFits length) : ∃ sys proc space,
    (ofRam length).run gigabyteEvents = some sys ∧ Alone length sys proc space := by
  obtain ⟨first, sys, machine, proc, space, started, ran, named, delivers, stackLow⟩ :=
    ofRam_running fits
  obtain ⟨loaded, ranges, record, stock⟩ := delivers
  have ledger := ledger_run ran
  obtain ⟨pmm, started', -⟩ := ofRam_start fits
  rw [started] at started'
  have isFirst := Option.some.inj started'
  have low : Process.userStackLowLimit = 0xFF00000 := rfl
  have hosted := @Loaded.hosted _ _ _ lowRam _ _ _ _ loaded
    (fun addr ram => lt_trans ram.2 (by decide))
    (fun addr ram covered => by
      unfold gigabyteCover at covered
      rw [low] at covered
      unfold lowRam at ram
      omega)
  refine ⟨sys, proc, space, ran, ?_⟩
  subst named
  exact
    { ledger
      current := rfl
      tasks := rfl
      layout := by rw [isFirst]; rfl
      noObjects := by rw [isFirst]; rfl
      active := rfl
      hosted
      loaded := ⟨_, _, _, machine, loaded⟩
      stock
      mappings := ranges
      record
      low := stackLow }

theorem claimed_gigabyte (fits : RamFits length) (started : (ofRam length).start = some sys)
    {ranges : List (Nat × Nat)} {count : Nat}
    (claimed : Claimed sys.layout (.spawnLinux Elf.gigabyteImage [] [] 0 (fun _ => none)) ranges
      count) :
    ranges = System.linuxRanges Elf.gigabyteProgram none ∧
      (∀ addr, InRanges ranges addr → gigabyteCover addr) ∧ count ≤ 4096 := by
  obtain ⟨pmm, started', -⟩ := ofRam_start fits
  rw [started] at started'
  have isFirst := Option.some.inj started'
  have layout : sys.layout.heapStart = 0x4000000 ∧ sys.layout.heapEnd = 0x6800000 := by
    rw [isFirst]
    exact ⟨rfl, rfl⟩
  have accepts : System.acceptProgram sys.layout Process.pieLoadBase Elf.gigabyteImage =
      .ok Elf.gigabyteProgram := by
    unfold System.acceptProgram
    rw [layout.1, layout.2]
    decide +kernel
  cases claimed with
  | linux accepted found =>
      rw [accepts] at accepted
      cases accepted
      cases found
      refine ⟨rfl, ?_, ?_⟩
      · rintro addr ⟨range, member, lower, upper⟩
        exact claims_gigabyte range member addr lower upper
      · rw [show interpreterFrames sys.layout (fun _ => none) Elf.gigabyteProgram = 0 from rfl]
        decide +kernel
  | uninterpreted accepted missing =>
      rw [accepts] at accepted
      cases accepted
      cases missing

theorem careful_gigabyte (fits : RamFits length) (started : (ofRam length).start = some sys)
    (clear : ∀ addr, kept addr → ¬ gigabyteCover addr) :
    Careful kept sys (.spawnLinux Elf.gigabyteImage [] [] 0 (fun _ => none)) := by
  refine ⟨fun _ _ _ _ asked => ?_, fun ranges count _ claimed => ?_, fun _ _ _ _ _ _ _ _ same => ?_⟩
  · cases asked
  · obtain ⟨-, covered, few⟩ := claimed_gigabyte fits started claimed
    obtain ⟨pmm, started', free⟩ := ofRam_start fits
    rw [started] at started'
    have isFirst := Option.some.inj started'
    have room : 0x7800000 ≤ 0x100000 + length := by
      have lower := fits.2.1
      omega
    refine ⟨fun addr isKept within => clear addr isKept (covered addr within), ?_⟩
    rw [show sys.machine.pmm = pmm by rw [isFirst]; rfl]
    rcases (stock_beyond far_gigabyte free room few).clear with always | ⟨start, run, low⟩
    · exact Or.inl (fun frame isFree within => always frame isFree (covered frame within))
    · exact Or.inr ⟨start, run, fun frame isFree below within =>
        low frame isFree below (covered frame within)⟩
  · cases same

theorem meets_gigabyte {boot : Boot} {condition : System → System.Event → Prop}
    (spawns : ∀ sys, boot.start = some sys →
      condition sys (.spawnLinux Elf.gigabyteImage [] [] 0 (fun _ => none)))
    (schedules : ∀ sys, condition sys .schedule) : boot.Meets condition gigabyteEvents := by
  intro first started
  refine ⟨spawns first started, fun next _ => Runs.Meets.of_mem (fun event member state => ?_) next⟩
  obtain rfl : event = .schedule := by simpa using member
  exact schedules state

theorem careful_schedule (kept : Nat → Prop) (sys : System) : Careful kept sys .schedule := by
  refine ⟨fun _ _ _ _ asked => ?_, fun _ _ _ claimed => ?_, fun _ _ _ _ _ _ _ _ same => ?_⟩
  · cases asked
  · cases claimed
  · cases same

theorem lowRam_of_pool (fits : RamFits length) {frame : Nat}
    (pooled : (ofRam length).initialPmm.Free frame)
    (outside : ¬ (Process.userStackLowLimit ≤ frame ∧ frame < Process.userStackTop)) :
    lowRam frame := by
  obtain ⟨-, above, below⟩ := (ofRam_free fits frame).mp pooled
  have top := fits.2.2
  have stackTop : Process.userStackTop = 0x10000000 := rfl
  have low : Process.userStackLowLimit = 0xFF00000 := rfl
  rw [low, stackTop] at outside
  exact ⟨above, by omega⟩

theorem room_of_stock (fits : RamFits length) {proc : Process} {space : Space}
    {machine : Machine} {sure : Prop} {virt len : Nat}
    (hosted : Hosted lowRam proc space machine.mem) (active : machine.cr3 = space.pml4)
    (pooled : ∀ frame, machine.pmm.Free frame → (ofRam length).initialPmm.Free frame)
    (mine : ∀ frame, frame ∈ proc.frames → lowRam frame)
    (stock : Pmm.Stock (fun frame => ¬ gigabyteCover frame) sure
      (len / 4096 + blocksTouched virt len) machine.pmm)
    (apart : ∀ addr, lowRam addr → ¬ InRange virt len addr)
    (clear : ∀ addr, kept addr → ¬ InRange virt len addr) :
    proc.Room kept machine virt len := by
  intro phys pmm given
  have safe : ∀ frame, machine.pmm.Free frame → ¬ gigabyteCover frame →
      Safe proc.mappings machine virt len frame := by
    intro frame free outside
    have ram := lowRam_of_pool fits (pooled frame free) (fun inStack => outside (Or.inr inStack))
    obtain ⟨kernel, uncovered⟩ := hosted.kernel frame (Or.inr ram)
    refine ⟨?_, uncovered, apart frame ram⟩
    rw [active, hosted.walk_eq (lt_trans ram.2 (by decide))]
    exact kernel
  obtain ⟨-, blockFree, -, -, -⟩ := Pmm.allocContiguous_some given
  obtain ⟨outside, rest⟩ := stock.allocContiguous_some given
  refine ⟨⟨?_, ?_⟩, ?_⟩
  · rintro addr (inFrames | isKept)
    · exact apart addr (mine addr inFrames)
    · exact clear addr isKept
  · refine (rest.supplies.and (Pmm.supplies_free _ pmm)).mono ?_
    rintro frame ⟨good, free⟩
    exact safe frame ((Pmm.free_allocContiguous given frame).mp free).1 good
  · intro frame member
    obtain ⟨index, inside, rfl⟩ := Pmm.mem_frameRun.mp member
    exact safe _ (blockFree index inside) (outside _ member)

namespace Alone

variable {length : Nat} {sys : System} {proc : Process} {space : Space}

section

variable (alone : Alone length sys proc space)
include alone

theorem calling : sys.currentProcess = some (space.pml4, proc) := by
  unfold System.currentProcess System.currentTask
  rw [alone.current, alone.tasks]
  rfl

theorem owned : OwnedBy sys.machine.pmm proc :=
  alone.ledger.owned _ _ (processAt_current alone.calling)

theorem lowRam_frames (fits : RamFits length) {frame : Nat} (mine : frame ∈ proc.frames) :
    lowRam frame := by
  refine lowRam_of_pool fits ?_ (fun inStack => ?_)
  · refine alone.ledger.heldPool (.process sys.current) frame ?_
    rwa [holdings_process (processAt_current alone.calling)]
  · exact (alone.hosted.kernel frame (Or.inl mine)).2 (Or.inr inStack)

theorem room (fits : RamFits length) {virt len : Nat}
    (few : len / 4096 + blocksTouched virt len ≤ 2048)
    (apart : ∀ addr, lowRam addr → ¬ InRange virt len addr) {kept : Nat → Prop}
    (clear : ∀ addr, kept addr → ¬ InRange virt len addr) :
    proc.Room kept sys.machine virt len :=
  room_of_stock fits alone.hosted alone.active alone.ledger.freePool
    (fun _ mine => alone.lowRam_frames fits mine) (alone.stock.of_le few) apart clear

end

theorem mmapRange_fixed {virt pages : Nat} (valid : ValidRange virt (pages * 4096)) :
    proc.mmapRange (some virt) (alignUp (max (pages * 4096) 1)) = some (virt, pages * 4096) := by
  obtain ⟨aligned, -, positive, bounded⟩ := valid
  have fourGiB : identityMapEnd = 4294967296 := rfl
  have word : wordLimit = 18446744073709551616 := rfl
  have rounded : alignUp (max (pages * 4096) 1) = pages * 4096 := by
    unfold alignUp
    rw [Nat.max_eq_left positive, word, Nat.mod_eq_of_lt (by omega)]
    omega
  have start : alignDown virt = virt := by
    unfold alignDown
    omega
  rw [rounded]
  unfold Process.mmapRange Process.mmapAddress
  dsimp only
  rw [start]
  rfl

theorem act_mmap {virt pages : Nat} (valid : ValidRange virt (pages * 4096)) (table : Shm.Table)
    (proc : Process) : Event.act table proc (.mmap virt (pages * 4096) 3 0x32 0 []) =
      some (.mmap (some virt) (pages * 4096) true false none) := by
  have positive := valid.2.2.1
  have fixed : hasBit 0x32 mapFixed = true := by decide
  have anonymous : hasBit 0x32 mapAnonymous = true := by decide
  have rights : hasBit 3 protWrite = true ∧ hasBit 3 protExec = false := by decide
  unfold Event.act
  dsimp only
  rw [if_neg (by omega), fixed, anonymous, rights.1, rights.2, Bool.true_or, if_pos rfl, if_pos rfl]

theorem mmap (alone : Alone length sys proc space) (fits : RamFits length)
    {virt pages : Nat} (valid : ValidRange virt (pages * 4096))
    (few : pages + blocksTouched virt (pages * 4096) ≤ 2048)
    (apart : ∀ addr, lowRam addr → ¬ InRange virt (pages * 4096) addr) :
    ∃ after machine proc' later phys pmm,
      System.step sys (.mmap virt (pages * 4096) 3 0x32 0 []) = some after ∧
      after = ({ sys with machine }.setCurrentProcess proc') ∧
      sys.machine.pmm.allocContiguous pages = (some phys, pmm) ∧
      MapOutcome lowRam proc proc' space later sys.machine machine
        { vaddr := virt, phys, len := pages * 4096, shmId := none }
        (Process.protFlags true false) (Pmm.frameRun phys pages) true pages := by
  have range := @mmapRange_fixed proc _ _ valid
  obtain ⟨aligned, -, positive, bounded⟩ := valid
  have count : pages * 4096 / 4096 = pages := Nat.mul_div_cancel _ (by decide)
  obtain ⟨result, proc', machine, ran, outcome⟩ := @Hosted.mmapWithContent_outcome _ _ _ _
    alone.hosted alone.owned alone.ledger.bounded alone.active (some virt) (pages * 4096) true false
    none (fun other whole same => by
      rw [range] at same
      cases same
      exact alone.room fits (by rwa [count]) apart apart)
  rw [range] at outcome
  have some' : 0 < pages := by omega
  cases outcome with
  | nothing _ _ reason =>
      have none' := reason virt (pages * 4096) rfl
      rw [count] at none'
      obtain ⟨first, free⟩ := alone.stock.plenty trivial
      obtain ⟨phys, pmm, given, -⟩ := Pmm.allocContiguous_of_freeRun some'
        (fun index inside => free index (lt_of_lt_of_le inside (by omega)))
      rw [given] at none'
      cases none'
  | @mapped _ _ phys pmm done mapped later same _ given outcome stocked =>
      cases same
      rw [count] at given outcome
      obtain ⟨-, rest⟩ := (alone.stock.of_le few).allocContiguous_some given
      obtain rfl : done = true :=
        stocked ⟨aligned, Nat.mul_mod_left _ _, positive, bounded⟩ (rest.stocked trivial)
      obtain rfl : mapped = pages := by
        have whole := (outcome.remaps.complete rfl).2
        dsimp only at whole
        rwa [count] at whole
      refine ⟨_, machine, proc', later, phys, pmm, ?_, rfl, given, outcome⟩
      refine @step_of_bind _ _ _ _ _ (some result) (by rfl) ?_
      have fixed : hasBit 0x32 mapFixed = true := by decide
      have anonymous : hasBit 0x32 mapAnonymous = true := by decide
      have rights : hasBit 3 protWrite = true ∧ hasBit 3 protExec = false := by decide
      unfold sysMmap
      rw [if_neg (by omega)]
      dsimp only
      rw [fixed, anonymous, rights.1, rights.2, Bool.true_or, if_pos rfl, if_pos rfl]
      exact onProcess_of_ok alone.calling ran

section

variable (alone : Alone length sys proc space)
include alone

theorem careful_mmap (fits : RamFits length) {virt pages : Nat}
    (valid : ValidRange virt (pages * 4096))
    (few : pages + blocksTouched virt (pages * 4096) ≤ 2048)
    (apart : ∀ addr, lowRam addr → ¬ InRange virt (pages * 4096) addr) {kept : Nat → Prop}
    (clear : ∀ addr, kept addr → ¬ InRange virt (pages * 4096) addr) :
    Careful kept sys (.mmap virt (pages * 4096) 3 0x32 0 []) := by
  refine ⟨?_, fun _ _ _ claimed => ?_, fun _ _ _ _ _ _ _ _ same => ?_⟩
  · intro cr3 other act calling asked
    rw [alone.calling] at calling
    cases calling
    rw [act_mmap valid] at asked
    cases asked
    intro other whole same
    rw [show MemoryAct.range (.mmap (some virt) (pages * 4096) true false none) proc =
      some (virt, pages * 4096) from mmapRange_fixed valid] at same
    cases same
    exact alone.room fits (by rwa [Nat.mul_div_cancel _ (by decide)]) apart clear
  · cases claimed
  · cases same

theorem acted (machine : Machine) (proc' : Process) :
    ({ sys with machine }.setCurrentProcess proc').tasks[4]? =
      some { cr3 := space.pml4, process := some proc' } := by
  have found := currentProcess_eq_some alone.calling
  unfold System.setCurrentProcess
  dsimp only
  rw [alone.current, List.getElem?_modify_eq]
  rw [alone.current] at found
  rw [found]
  rfl

theorem stack_recorded : Loader.stackMapping proc.stackPhysBase ∈ proc.mappings := by
  obtain ⟨kernel, pool, origin, machine, loaded⟩ := alone.loaded
  exact loaded.stack.record.2.2

theorem munmap (virt pages : Nat) (aligned : virt % 4096 = 0) (some' : 0 < pages)
    (below : virt + pages * 4096 < wordLimit) :
    ∃ machine proc' later,
      System.step sys (.munmap virt (pages * 4096)) =
        some ({ sys with machine }.setCurrentProcess proc') ∧
      Hosted lowRam proc' later machine.mem ∧ later.pml4 = space.pml4 ∧
      machine.cr3 = sys.machine.cr3 ∧
      proc'.mappings = proc.mappings.filter (fun mapping =>
        !decide (Process.Covered virt (virt + pages * 4096) mapping)) ∧
      Hosted.Remaining virt (virt + pages * 4096) proc.mappings proc.frames proc'.frames ∧
      Hosted.Cleared virt (virt + pages * 4096) proc.mappings space later ∧
      proc'.stackLow = proc.stackLow ∧ proc'.stackPhysBase = proc.stackPhysBase := by
  have word : wordLimit = 18446744073709551616 := rfl
  have start : alignDown virt = virt := by
    unfold alignDown
    omega
  have rounded : alignUp (max (pages * 4096) 1) = pages * 4096 := by
    unfold alignUp
    rw [Nat.max_eq_left (by omega), Nat.mod_eq_of_lt (by omega)]
    omega
  obtain ⟨proc', machine, later, ran, hosted, pml4, cr3, -, mappings, remaining, cleared, low,
    base⟩ := @Hosted.munmap_outcome _ _ _ _ alone.hosted alone.owned alone.active virt (pages * 4096)
  rw [start, rounded, Nat.mod_eq_of_lt below] at mappings remaining cleared
  exact ⟨machine, proc', later,
    @step_of_bind _ _ _ _ _ (some true) (by rfl) (onProcess_of_ok alone.calling ran), hosted, pml4,
    cr3, mappings, remaining, cleared, low, base⟩

end

end Alone

end Boot
end MachaOS
