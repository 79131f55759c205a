/-
Pointers that system calls receive (`process::translate`,
`process::resolve_syscall_ptr`, `syscall::resolve_user_buffer`).

A pointer is good when one recorded mapping covers its whole range; the kernel
then works on the physical bytes behind it.  While no shared-memory object
exists these bytes lie in frames the calling process owns.
-/

import MachaOS.Processes
import MachaOS.Territory
import Mathlib.Data.List.Find

namespace MachaOS

open Fallible Machine Paging

namespace System

/-- `process::translate`, with the sums as a release build computes them. -/
def translate (sys : System) (pid vaddr len : Nat) : Option Nat :=
  if vaddr + len ≥ wordLimit then none
  else
    match sys.processAt pid with
    | none => none
    | some proc =>
        (proc.mappings.find? (fun m =>
          decide (m.vaddr ≤ vaddr ∧ vaddr + len ≤ (m.vaddr + m.len) % wordLimit))).map
          (fun m => (m.phys + (vaddr - m.vaddr)) % wordLimit)

/-- `process::resolve_syscall_ptr`: the stack of the current process may grow first. -/
def resolvePtrOf (pid vaddr len : Nat) : Sys (Option Nat) := fun sys =>
  match sys.translate pid vaddr len with
  | some phys => (.ok (some phys), sys)
  | none =>
      if pid ≠ sys.current then (.ok none, sys)
      else
        (do
          let grown ← onProcess (fun proc pml4 => proc.tryGrowStack pml4 vaddr)
          if grown = some true then do
            let sys ← Fallible.get
            pure (sys.translate pid vaddr len)
          else pure none) sys

/-- `paging::is_identity_mapped` -/
def isIdentityMapped (addr len : Nat) : Bool :=
  decide (addr + len < wordLimit ∧ addr + len ≤ identityMapEnd)

def resolveUserBuffer (ptr len : Nat) : Sys (Option Nat) := fun sys =>
  if sys.currentProcess.isSome then resolvePtrOf sys.current ptr len sys
  else if isIdentityMapped ptr len then (.ok (some ptr), sys)
  else (.ok none, sys)

end System

namespace Shm

theorem truncate_nil (id newSize : Nat) (machine : Machine) :
    truncate [] id newSize machine = (.ok (false, []), machine) :=
  rfl

theorem foldl_dup_nil (ids : List Nat) : ids.foldl dup [] = [] := by
  induction ids with
  | nil => rfl
  | cons id rest ih => exact ih

end Shm

namespace Socket

theorem closeAll_nil (ids : List Nat) (machine : Machine) :
    closeAll [] ids machine = (.ok [], machine) := by
  induction ids with
  | nil => rfl
  | cons id rest ih => exact ih

theorem close_nil (state : State) (id : Nat) (machine : Machine) :
    close state [] id machine = (.ok (withoutEndpoint state id, []), machine) := by
  unfold close
  rw [bind_of_ok (closeAll_nil _ machine)]
  rfl

theorem send_nil {state : State} {id : Nat} {bytes : List (BitVec 8)} {fds : List Nat}
    {machine machine' : Machine} {result : Option Nat × State × Shm.Table}
    (ran : send state [] id bytes fds machine = (.ok result, machine')) : result.2.2 = [] := by
  unfold send at ran
  cases peer : peerOf state id with
  | none =>
      rw [peer] at ran
      cases ran
      rfl
  | some peerId =>
      rw [peer] at ran
      simp only [Shm.foldl_dup_nil] at ran
      cases there : lookup state peerId with
      | none =>
          simp only [there] at ran
          rw [bind_of_ok (closeAll_nil _ machine)] at ran
          cases ran
          rfl
      | some endpoint =>
          simp only [there] at ran
          cases ran
          rfl

end Socket

namespace System

/-- There is no shared-memory object. -/
def NoObjects (sys : System) : Prop :=
  sys.shm = []

variable {sys after : System}

theorem noObjects_launch {proc : Process} {loader : Loader Nat} {result : Except String Nat}
    (none' : sys.NoObjects) (ran : launch proc loader sys = (.ok result, after)) :
    after.NoObjects := by
  cases result with
  | error message =>
      obtain ⟨machine, rfl⟩ := launch_refused ran
      exact none'
  | ok pid =>
      obtain ⟨pml4, machine, built, -, -, rfl⟩ := launch_eq_ok ran
      exact none'

theorem maintains_noObjects_dropFd (entry : FdEntry) : Maintains NoObjects (dropFd entry) := by
  intro sys result after none' ran
  have empty : sys.shm = [] := none'
  cases dropFd_dropped ran with
  | file => exact none'
  | shm closed =>
      rw [empty] at closed
      cases closed
      rfl
  | socket closed =>
      rw [empty, Socket.close_nil] at closed
      cases closed
      rfl

theorem maintains_noObjects_dropFds (fds : List (Option FdEntry)) :
    Maintains NoObjects (dropFds fds) := by
  induction fds with
  | nil => exact maintains_pure ()
  | cons slot rest ih =>
      cases slot with
      | none => exact ih
      | some entry => exact maintains_bind (maintains_noObjects_dropFd entry) (fun _ => ih)

theorem noObjects_reap {pid : Nat} {value : Unit} (none' : sys.NoObjects)
    (ran : reap pid sys = (.ok value, after)) : after.NoObjects := by
  rcases reap_cases ran with rfl | ⟨middle, removed, outcome⟩
  · exact none'
  have middleNone : NoObjects middle := removed.shm.trans none'
  rcases outcome with ⟨-, rfl⟩ | ⟨proc, machine, freed, -, -, ran⟩
  · exact middleNone
  · exact maintains_noObjects_dropFds _ { middle with machine } _ _ middleNone ran

theorem noObjects_compositor {act : CompositorAct} {value : Unit} (none' : sys.NoObjects)
    (ran : compositor act sys = (.ok value, after)) : after.NoObjects := by
  have empty : sys.shm = [] := none'
  cases act with
  | create | bind | listen | accept | recv =>
      cases ran
      exact none'
  | send id bytes =>
      obtain ⟨sent, sockets, table, machine, delivered, rfl⟩ := compositor_send ran
      rw [empty] at delivered
      exact Socket.send_nil delivered
  | release id =>
      rcases compositor_release ran with rfl | ⟨-, table, machine, closed, rfl⟩
      · exact none'
      rw [empty] at closed
      cases closed
      rfl
  | close id =>
      obtain ⟨sockets, table, machine, closed, rfl⟩ := compositor_close ran
      rw [empty, Socket.close_nil] at closed
      cases closed
      rfl

theorem NoObjects.performed {event : Event} (none' : sys.NoObjects)
    (other : event ≠ .memfdCreate) (performed : Performed sys event after) :
    after.NoObjects := by
  have empty : sys.shm = [] := none'
  cases performed with
  | createdMemory => exact absurd rfl other
  | nothing | connected => exact none'
  | ticked =>
      unfold NoObjects schedulerTick
      split
      · exact none'
      · split <;> exact none'
  | launched _ _ ran => exact noObjects_launch none' ran
  | reaped _ ran => exact noObjects_reap none' ran
  | acted acted =>
      cases acted
      exact none'
  | killed first ran =>
      refine (sameBooks_markCurrentExited ran).2.1.trans ?_
      rcases first with rfl | acted
      · exact none'
      · cases acted
        exact none'
  | exited ran => exact (sameBooks_markCurrentExited ran).2.1.trans none'
  | openedFile ran | createdSocket ran => exact (sameBooks_openFd ran).2.1.trans none'
  | truncated _ _ ran =>
      rw [empty, Shm.truncate_nil] at ran
      cases ran
      rfl
  | closed _ _ _ ran =>
      have cleared : ∀ proc, NoObjects (sys.setCurrentProcess proc) := fun _ => none'
      exact maintains_noObjects_dropFd _ _ _ _ (cleared _) ran
  | sent _ ran =>
      rw [empty] at ran
      exact Socket.send_nil ran
  | received _ _ _ opening dropping =>
      have opened := (sameBooks_openShmFds opening).2.1.trans empty
      rw [opened, Socket.closeAll_nil] at dropping
      cases dropping
      rfl
  | composited _ ran => exact noObjects_compositor none' ran

theorem NoObjects.step {event : Event} (none' : sys.NoObjects) (other : event ≠ .memfdCreate)
    (stepped : System.step sys event = some after) : after.NoObjects :=
  none'.performed other (step_performed stepped)

end System

theorem Paging.mapRangeIn_true {pml4 virt phys len : Nat} {flags : BitVec 64}
    {frames after : List Nat} {machine machine' : Machine}
    (ran : mapRangeIn pml4 virt phys len flags frames machine = (.ok (true, after), machine')) :
    0 < len ∧ virt + len ≤ identityMapEnd := by
  unfold mapRangeIn at ran
  split at ran
  · cases ran
  · omega

namespace Process

def InBounds (proc : Process) : Prop :=
  ∀ mapping, mapping ∈ proc.mappings →
    mapping.shmId = none ∧ 0 < mapping.len ∧ mapping.vaddr + mapping.len ≤ identityMapEnd

variable {proc' proc : Process}

theorem InBounds.of_subset (inBounds : proc.InBounds)
    (subset : ∀ mapping, mapping ∈ proc'.mappings → mapping ∈ proc.mappings) :
    proc'.InBounds :=
  fun mapping mem => inBounds mapping (subset mapping mem)

theorem InBounds.add {mapping : Mapping} (inBounds : proc.InBounds)
    (added : proc'.mappings = proc.mappings ++ [mapping]) (isPrivate : mapping.shmId = none)
    (below : 0 < mapping.len ∧ mapping.vaddr + mapping.len ≤ identityMapEnd) :
    proc'.InBounds := by
  intro other mem
  rw [added] at mem
  rcases List.mem_append.mp mem with old | new
  · exact inBounds other old
  · rw [List.mem_singleton.mp new]
    exact ⟨isPrivate, below⟩

theorem InBounds.brk {pml4 requested result : Nat} {machine machine' : Machine}
    (inBounds : proc.InBounds)
    (ran : proc.brk pml4 requested machine = (.ok (result, proc'), machine')) :
    proc'.InBounds := by
  unfold Process.brk at ran
  split at ran
  · cases ran
    exact inBounds
  dsimp only at ran
  split at ran
  · obtain ⟨found, machine₁, -, rest⟩ := bind_eq_ok ran
    cases found with
    | none =>
        cases rest
        exact inBounds
    | some phys =>
        obtain ⟨_, machine₂, -, rest⟩ := bind_eq_ok rest
        obtain ⟨⟨mapped, frames⟩, machine₃, mapping, rest⟩ := bind_eq_ok rest
        cases mapped with
        | false =>
            cases rest
            exact inBounds
        | true =>
            cases rest
            exact inBounds.add rfl rfl (mapRangeIn_true mapping)
  · cases ran
    exact inBounds

theorem InBounds.mmapWithContent {pml4 len : Nat} {at' result : Option Nat}
    {writable executable : Bool} {content : Option (List (BitVec 8))} {machine machine' : Machine}
    (inBounds : proc.InBounds)
    (ran : proc.mmapWithContent pml4 at' len writable executable content machine =
      (.ok (result, proc'), machine')) :
    proc'.InBounds := by
  simp only [Process.mmapWithContent] at ran
  cases chosen : proc.mmapAddress at' (alignUp (max len 1)) with
  | none =>
      simp only [chosen] at ran
      cases ran
      exact inBounds
  | some addr =>
      simp only [chosen] at ran
      obtain ⟨found, machine₁, -, rest⟩ := bind_eq_ok ran
      cases found with
      | none =>
          cases rest
          exact inBounds
      | some phys =>
          obtain ⟨_, machine₂, -, rest⟩ := bind_eq_ok rest
          obtain ⟨_, machine₃, -, rest⟩ := bind_eq_ok rest
          obtain ⟨⟨mapped, frames⟩, machine₄, mapping, rest⟩ := bind_eq_ok rest
          cases mapped with
          | false =>
              cases rest
              exact inBounds
          | true =>
              cases rest
              exact inBounds.add rfl rfl (mapRangeIn_true mapping)

end Process

namespace System

theorem inBounds_of_ranges {proc : Process} {ranges : List (Nat × Nat)}
    (isPrivate : ∀ mapping, mapping ∈ proc.mappings → mapping.shmId = none)
    (recorded : proc.mappings.map Mapping.range = ranges)
    (below : ∀ range, range ∈ ranges → range.1 < range.2 ∧ range.2 ≤ identityMapEnd) :
    proc.InBounds := by
  intro mapping mem
  have placed : mapping.range ∈ ranges := by
    rw [← recorded]
    exact List.mem_map_of_mem mem
  obtain ⟨ordered, inside⟩ := below mapping.range placed
  unfold Mapping.range at ordered inside
  exact ⟨isPrivate mapping mem, by omega, inside⟩

theorem imageRange_below {layout : Layout} {segments : List Elf.Segment}
    (validated : Validated layout segments) :
    ∀ range, range ∈ imageRange segments → range.1 < range.2 ∧ range.2 ≤ identityMapEnd := by
  obtain ⟨overallStart, overallEnd, span⟩ := Loader.Span.exists_of_ne_nil validated.nonempty
  rw [imageRange_eq span]
  intro range mem
  rw [List.mem_singleton.mp mem]
  exact ⟨span.start_lt validated.accepted, span.stop_le validated.accepted⟩

theorem inBounds_of_records {proc built : Process} {loader : Loader Nat} {machine machine' : Machine}
    {pml4 : Nat} {recorded : List Mapping → Prop} (records : Loader.Records recorded loader)
    (empty : proc.mappings = [])
    (loaded : loader (machine, proc) = (.ok pml4, (machine', built)))
    (below : ∀ added, recorded added → ∀ range, range ∈ added.map Mapping.range →
      range.1 < range.2 ∧ range.2 ≤ identityMapEnd) : built.InBounds := by
  obtain ⟨added, ⟨⟨taken, grown⟩, -⟩, isPrivate, done⟩ := records _ _ _ loaded (by simp)
  have mappings : built.mappings = added := by
    rw [grown.mappings, empty, List.nil_append]
  refine inBounds_of_ranges (fun mapping mem => isPrivate mapping (mappings ▸ mem)) rfl ?_
  rw [mappings]
  exact below added (done pml4 rfl)

theorem lasting_inBounds :
    Lasting (fun table => table = []) Process.InBounds where
  books := fun proc proc' _ mappings inBounds =>
    inBounds.of_subset (fun mapping mem => mappings ▸ mem)
  native := by
    intro layout prog elfBytes machine machine' pml4 built loadable loaded
    refine inBounds_of_records (records_loadNative elfBytes loadable.validated) rfl loaded ?_
    intro added ranges range mem
    rw [ranges, nativeRanges] at mem
    rcases List.mem_append.mp mem with image | rest
    · exact imageRange_below loadable.validated range image
    · simp only [List.mem_cons, List.not_mem_nil, or_false] at rest
      rcases rest with rfl | rfl <;> decide
  linux := by
    intro layout prog elfBytes argv envp ticks readFile heapStart machine machine' pml4 built
      loadable loaded
    refine inBounds_of_records (records_loadLinux elfBytes argv envp ticks readFile
      loadable.validated) rfl loaded ?_
    rintro added ⟨interp, accepted, ranges⟩ range mem
    rw [ranges, linuxRanges] at mem
    rcases List.mem_append.mp mem with images | stack
    · rcases List.mem_append.mp images with image | image
      · exact imageRange_below loadable.validated range image
      · cases interp with
        | none => simp at image
        | some prog => exact imageRange_below (acceptInterpreter_ok accepted) range image
    · rw [List.mem_singleton.mp stack]
      decide
  brk := fun addr proc pml4 machine value proc' machine' _ inBounds ran => inBounds.brk ran
  mmap := fun at' len writable executable content proc pml4 machine value proc' machine' _
    inBounds ran => inBounds.mmapWithContent ran
  shared := by
    intro table empty at' shmId writable executable _ proc pml4 machine value proc' machine'
      _ inBounds ran
    subst empty
    cases ran
    exact inBounds
  munmap := by
    intro addr len proc pml4 machine value proc' machine' owned inBounds ran
    obtain ⟨-, -, subset, -⟩ := Process.munmap_owned owned ran
    exact inBounds.of_subset subset
  mprotect := by
    intro addr len writable executable proc pml4 machine value proc' machine' _ inBounds ran
    obtain ⟨⟨taken, grown⟩, -⟩ := Process.mprotect_grown ran
    exact inBounds.of_subset (fun mapping mem => by simpa [grown.mappings] using mem)
  grow := by
    intro faultAddr proc pml4 machine value proc' machine' _ inBounds ran
    obtain ⟨⟨taken, grown⟩, -⟩ := Process.tryGrowStack_grown ran
    exact inBounds.of_subset (fun mapping mem => by simpa [grown.mappings] using mem)

end System

theorem System.Ledger.mapping_below {pool : Nat → Prop} {sys : System} {index : Nat}
    {proc : Process} {mapping : Mapping} (ledger : sys.Ledger pool)
    (found : sys.processAt index = some proc) (inBounds : proc.InBounds)
    (mem : mapping ∈ proc.mappings) : mapping.phys + mapping.len ≤ Pmm.maxPhysMem := by
  have owned := ledger.owned index proc found
  obtain ⟨isPrivate, positive, -⟩ := inBounds mapping mem
  obtain ⟨whole, aligned⟩ := owned.whole mapping mem
  have last : mapping.phys + (mapping.len / 4096 - 1) * 4096 ∈ mapping.run :=
    Pmm.mem_frameRun.mpr ⟨mapping.len / 4096 - 1, by omega, rfl⟩
  obtain ⟨-, below, -, -⟩ := owned.held _ (owned.backed mapping mem isPrivate _ last)
  have top : Pmm.maxPhysMem = 268435456 := rfl
  rw [top] at below ⊢
  omega

namespace System

variable {pool : Nat → Prop} {sys after : System} {pid ptr vaddr len phys : Nat}

variable {proc : Process}

theorem translate_eq_translateLocal (ledger : sys.Ledger pool)
    (found : sys.processAt pid = some proc) (inBounds : proc.InBounds) :
    sys.translate pid vaddr len = proc.translateLocal vaddr len := by
  unfold translate Process.translateLocal
  split
  · rfl
  rw [found]
  have word : identityMapEnd < wordLimit := by decide
  have physWord : Pmm.maxPhysMem < wordLimit := by decide
  have noWrap : ∀ mapping, mapping ∈ proc.mappings →
      (mapping.vaddr + mapping.len) % wordLimit = mapping.vaddr + mapping.len :=
    fun mapping mem => Nat.mod_eq_of_lt (lt_of_le_of_lt (inBounds mapping mem).2.2 word)
  have sameSearch : proc.mappings.find? (fun m =>
        decide (m.vaddr ≤ vaddr ∧ vaddr + len ≤ (m.vaddr + m.len) % wordLimit)) =
      proc.mappings.find? (fun m =>
        decide (m.vaddr ≤ vaddr ∧ vaddr + len ≤ m.vaddr + m.len)) := by
    refine List.find?_congr (fun mapping mem => ?_)
    rw [noWrap mapping mem]
  dsimp only
  rw [sameSearch]
  refine Option.map_congr (fun mapping search => ?_)
  have mem := List.mem_of_find?_eq_some search
  have covers := List.find?_some search
  rw [decide_eq_true_eq] at covers
  have physBelow := ledger.mapping_below found inBounds mem
  refine Nat.mod_eq_of_lt ?_
  generalize wordLimit = limit at *
  omega

theorem translate_confined (ledger : sys.Ledger pool)
    (found : sys.processAt pid = some proc) (inBounds : proc.InBounds)
    (translated : sys.translate pid vaddr len = some phys) :
    ∀ byte, phys ≤ byte → byte < phys + len →
      byte / 4096 * 4096 ∈ proc.frames ∧
        sys.machine.pmm.frameIsFree (byte / 4096) = false := by
  rw [translate_eq_translateLocal ledger found inBounds] at translated
  obtain ⟨mapping, mem, lower, upper, rfl⟩ := Hosted.translateLocal_some translated
  have owned := ledger.owned pid proc found
  obtain ⟨whole, aligned⟩ := owned.whole mapping mem
  intro byte above below
  have inRun : byte / 4096 * 4096 ∈ mapping.run :=
    Pmm.mem_frameRun.mpr ⟨(byte - mapping.phys) / 4096, by omega, by omega⟩
  have inFrames := owned.backed mapping mem (inBounds mapping mem).1 _ inRun
  refine ⟨inFrames, ?_⟩
  have inUse := (owned.held _ inFrames).frameIsFree
  rwa [Nat.mul_div_cancel _ (by decide)] at inUse

theorem resolveUserBuffer_some {cr3 : Nat} (calling : sys.currentProcess = some (cr3, proc))
    (resolved : resolveUserBuffer ptr len sys = (.ok (some phys), after)) :
    (after = sys ∧ sys.translate sys.current ptr len = some phys) ∨
      (onProcess (fun proc pml4 => proc.tryGrowStack pml4 ptr) sys =
          (.ok (some true), after) ∧
        after.translate sys.current ptr len = some phys) := by
  unfold resolveUserBuffer at resolved
  rw [calling, Option.isSome_some, if_pos rfl] at resolved
  unfold resolvePtrOf at resolved
  cases direct : sys.translate sys.current ptr len with
  | some other =>
      rw [direct] at resolved
      cases resolved
      exact Or.inl ⟨rfl, rfl⟩
  | none =>
      rw [direct] at resolved
      dsimp only at resolved
      rw [if_neg (by simp)] at resolved
      obtain ⟨grown, middle, grew, rest⟩ := bind_eq_ok resolved
      split at rest
      · rename_i succeeded
        obtain ⟨_, _, got, rest⟩ := bind_eq_ok rest
        cases got
        have translated : middle.translate sys.current ptr len = some phys := by
          have same := congrArg Prod.fst rest
          exact Except.ok.inj same
        obtain rfl : middle = after := congrArg Prod.snd rest
        subst succeeded
        exact Or.inr ⟨grew, translated⟩
      · cases rest

theorem resolve_confined {cr3 : Nat} (ledger : sys.Ledger pool)
    (every : Every Process.InBounds sys) (calling : sys.currentProcess = some (cr3, proc))
    (resolved : resolveUserBuffer ptr len sys = (.ok (some phys), after)) :
    ∃ proc', after.currentProcess = some (cr3, proc') ∧
      ∀ byte, phys ≤ byte → byte < phys + len →
        byte / 4096 * 4096 ∈ proc'.frames ∧
          after.machine.pmm.frameIsFree (byte / 4096) = false := by
  rcases resolveUserBuffer_some calling resolved with ⟨rfl, translated⟩ | ⟨grew, translated⟩
  · have here := processAt_current calling
    exact ⟨proc, calling, translate_confined ledger here (every _ _ here) translated⟩
  · rcases onProcess_eq_ok grew with ⟨none', -⟩ |
      ⟨cr3', proc₁, value, proc', machine, found, operated, -, rfl⟩
    · rw [none'] at calling
      cases calling
    · rw [calling] at found
      cases found
      have here := processAt_current calling
      have bounds := lasting_inBounds.grow ptr _ _ _ _ _ _ (ledger.owned _ _ here) (every _ _ here)
        operated
      have acted : Acted sys (.pageFault ptr) ({ sys with machine }.setCurrentProcess proc') :=
        .mk calling rfl (act_run operated)
      have located : ({ sys with machine } : System).currentProcess = some (cr3, proc) :=
        calling
      have placed := currentProcess_setCurrentProcess located proc'
      exact ⟨proc', placed,
        translate_confined (ledger.acted acted) (processAt_current placed) bounds translated⟩

end System

namespace Boot

variable {boot : Boot} {events : List System.Event} {sys : System}

theorem inBounds_run (noObjects : System.Event.memfdCreate ∉ events)
    (ran : boot.run events = some sys) :
    sys.Ledger boot.initialPmm.Free ∧ sys.Every Process.InBounds := by
  have all : sys.Ledger boot.initialPmm.Free ∧ sys.NoObjects ∧
      sys.Every Process.InBounds := by
    have meets : boot.Meets (fun _ event => event ≠ .memfdCreate) events := fun first _ =>
      Runs.Meets.of_mem (fun event mem _ => by rintro rfl; exact noObjects mem) first
    refine run_invariant (fun sys => sys.Ledger boot.initialPmm.Free ∧ sys.NoObjects ∧
      sys.Every Process.InBounds) ?_ ?_ meets ran
    · intro first started
      refine ⟨ledger_start started, ?_, ?_⟩
      · obtain ⟨heapStart, pmm, -, rfl⟩ := start_cases started
        rfl
      · intro index proc found
        rw [processAt_start started] at found
        cases found
    · rintro before event after ⟨ledger, none', every⟩ other stepped
      exact ⟨ledger.step stepped, none'.step other stepped,
        every.step System.lasting_inBounds ledger none' stepped⟩
  exact ⟨all.1, all.2.2⟩

/-- A system-call pointer that resolves leads into the memory of the calling process, and the
sums of the check stay below 2^64. -/
theorem user_buffer_confined (noObjects : System.Event.memfdCreate ∉ events)
    (ran : boot.run events = some sys) {cr3 : Nat} {proc : Process}
    (calling : sys.currentProcess = some (cr3, proc)) (ptr len : Nat) :
    (∀ phys after, System.resolveUserBuffer ptr len sys = (.ok (some phys), after) →
      ∃ proc', after.currentProcess = some (cr3, proc') ∧
        ∀ byte, phys ≤ byte → byte < phys + len →
          byte / 4096 * 4096 ∈ proc'.frames ∧
            after.machine.pmm.frameIsFree (byte / 4096) = false) ∧
    ∀ mapping, mapping ∈ proc.mappings → mapping.vaddr + mapping.len < wordLimit ∧
      mapping.phys + mapping.len < wordLimit := by
  obtain ⟨ledger, every⟩ := inBounds_run noObjects ran
  have here := System.processAt_current calling
  refine ⟨fun phys after resolved => System.resolve_confined ledger every calling resolved, ?_⟩
  intro mapping mem
  obtain ⟨-, -, below⟩ := every _ _ here mapping mem
  exact ⟨lt_of_le_of_lt below (by decide),
    lt_of_le_of_lt (ledger.mapping_below here (every _ _ here) mem) (by decide)⟩

theorem user_buffer_confined_image : ∃ sys cr3 proc phys,
    plain.run gigabyteEvents = some sys ∧ sys.currentProcess = some (cr3, proc) ∧
    System.resolveUserBuffer 0x40000000 8 sys = (.ok (some phys), sys) ∧
    phys / 4096 * 4096 ∈ proc.frames ∧
    sys.machine.pmm.frameIsFree (phys / 4096) = false := by
  obtain ⟨first, sys, machine, proc, space, -, ran, named, delivers⟩ := plain_running
  have calling : sys.currentProcess = some (space.pml4, proc) := by
    rw [named]
    rfl
  have recorded := delivers.ranges
  rw [linuxRanges_gigabyte] at recorded
  obtain ⟨image, rest, listed, range, -⟩ := List.map_eq_cons_iff.mp recorded
  obtain ⟨imageStart, imageEnd⟩ := Prod.mk.inj range
  have resolved : System.resolveUserBuffer 0x40000000 8 sys =
      (.ok (some (image.phys % wordLimit)), sys) := by
    have translated : sys.translate sys.current 0x40000000 8 =
        some (image.phys % wordLimit) := by
      unfold System.translate
      rw [if_neg (by decide), System.processAt_current calling]
      dsimp only
      rw [listed, List.find?_cons_of_pos]
      · rw [Option.map_some, imageStart, Nat.sub_self, Nat.add_zero]
      · rw [imageEnd, imageStart]
        decide
    unfold System.resolveUserBuffer System.resolvePtrOf
    rw [calling, Option.isSome_some, if_pos rfl, translated]
  refine ⟨sys, _, proc, _, ran, calling, resolved, ?_⟩
  obtain ⟨proc', same, bytes⟩ :=
    (user_buffer_confined (by simp [gigabyteEvents]) ran calling 0x40000000 8).1 _ _ resolved
  rw [calling] at same
  cases same
  exact bytes _ (le_refl _) (by omega)

end Boot
end MachaOS
