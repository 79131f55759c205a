/-
The kernel's own pages in the tables of processes.

A process table starts as the kernel's identity map, and ring-0 code keeps running
under it.  Only ELF segments are checked against the kernel image and the heap, and
nothing is checked against the frames the PMM hands out.  So these pages stay the
kernel's in exactly the runs in which no range that is asked for reaches them.
-/

import MachaOS.Housing

namespace MachaOS

open Fallible Machine Paging

def Layout.Owns (layout : Layout) (addr : Nat) : Prop :=
  (layout.kernelStart ≤ addr ∧ addr < layout.kernelEnd) ∨
    (layout.heapStart ≤ addr ∧ addr < layout.heapEnd)

namespace System

theorem Does.layout {sys after : System} {event : Event} (does : Does sys event after) :
    after.layout = sys.layout := by
  cases does with
  | calm calm => exact calm.layout
  | switched _ _ _ layout _ => exact layout
  | acted _ _ _ calm => exact calm.layout
  | launched _ _ _ result => rw [result]
  | refused _ _ _ calm => exact calm.layout
  | removed _ _ _ _ _ _ layout calm => exact calm.layout.trans layout
  | truncated _ _ _ _ result => rw [result]

theorem endures_trivial (kept : Nat → Prop) :
    Endures kept (fun _ _ _ => True) (fun _ => True) (fun _ _ => True) :=
  ⟨fun _ _ _ _ _ => trivial, fun _ _ _ _ _ _ _ _ _ _ _ => trivial,
    fun _ _ _ _ _ _ _ _ _ _ => trivial⟩

theorem allows_trivial (sys : System) (event : Event) :
    Allows (fun _ _ _ => True) (fun _ => True) sys event :=
  ⟨fun _ _ _ _ _ => trivial, fun _ _ _ _ => trivial⟩

theorem Housing.walk_kept {boot : Boot} {kept : Nat → Prop} {property : Process → Space → Prop}
    {sys : System} (housing : Housing boot kept property sys) {index : Nat} {task : Task}
    {proc : Process} (found : sys.tasks[index]? = some task)
    (isProcess : task.process = some proc) {addr : Nat} (isKept : kept addr) :
    walk sys.machine.mem task.cr3 addr = some (Space.kernelLeaf (addr / 4096)) := by
  obtain ⟨space, pml4, hosted, -⟩ := housing.homes.spaces index task proc found isProcess
  rw [← pml4, hosted.walk_eq (hosted.below addr isKept)]
  exact (hosted.kernel addr (Or.inr isKept)).1

end System

namespace Boot

open MachaOS.System

theorem layout_below {boot : Boot} {sys : System} (valid : boot.Valid)
    (started : boot.start = some sys) {addr : Nat} (owns : sys.layout.Owns addr) :
    addr < identityMapEnd := by
  obtain ⟨heapStart, pmm, given, rfl⟩ := start_cases started
  have bounded := valid.bounded
  have size : Pmm.frameSize = 4096 := rfl
  have amount : heapSize / Pmm.frameSize = 10240 := by decide
  have length : heapSize = 10240 * 4096 := by decide
  rcases owns with ⟨lower, upper⟩ | ⟨lower, upper⟩
  · exact lt_of_lt_of_le upper bounded
  · obtain ⟨-, block, -, -, -⟩ := Pmm.allocContiguous_some given
    rw [amount] at block
    have last := (valid.pool_apart (block 10239 (by decide))).2.1
    have top : addr < heapStart + heapSize := upper
    have fourGiB : identityMapEnd = 4294967296 := rfl
    have aligned := (valid.pool_apart (block 0 (by decide))).1
    rw [size] at last aligned
    rw [length] at top
    omega

/-- Every page of the kernel image and of the heap keeps its identity translation, closed to
ring 3, in the table of every process. -/
theorem kernel_pages_kept {boot : Boot} (valid : boot.Valid) {events : List System.Event}
    {sys : System}
    (meets : boot.Meets (fun state event => Careful state.layout.Owns state event) events)
    (ran : boot.run events = some sys) {index : Nat} {task : Task} {proc : Process}
    (found : sys.tasks[index]? = some task) (isProcess : task.process = some proc)
    {addr : Nat} (owns : sys.layout.Owns addr) :
    walk sys.machine.mem task.cr3 addr = some (Space.kernelLeaf (addr / 4096)) := by
  have both : Housing boot sys.layout.Owns (fun _ _ => True) sys ∧
      ∀ addr, sys.layout.Owns addr → addr < identityMapEnd := by
    refine run_invariant (fun sys => Housing boot sys.layout.Owns (fun _ _ => True) sys ∧
      ∀ addr, sys.layout.Owns addr → addr < identityMapEnd) ?_ ?_ meets ran
    · exact fun first started => ⟨housing_start _ _ valid started,
        fun addr => layout_below valid started⟩
    · rintro before event after ⟨housing, below⟩ careful stepped
      rw [(step_does stepped).layout]
      exact ⟨housing.step valid (endures_trivial _) below careful (allows_trivial _ _) stepped,
        below⟩
  exact both.1.walk_kept found isProcess owns

theorem Layout.Owns.lt {layout : Layout} {addr : Nat} (owns : layout.Owns addr)
    (kernel : layout.kernelEnd = 0x200000) (heap : layout.heapEnd = 0x6800000) :
    addr < 0x6800000 := by
  rcases owns with ⟨-, upper⟩ | ⟨-, upper⟩
  · rw [kernel] at upper
    exact lt_trans upper (by decide)
  · rwa [heap] at upper

theorem Alone.owns_kernel {length : Nat} {sys : System} {proc : Process} {space : Space}
    (alone : Alone length sys proc space) : sys.layout.Owns 0x100000 := by
  rw [alone.layout]
  exact Or.inl ⟨by decide, by decide⟩

theorem kernel_pages_kept_mmap : ∃ sys task,
    plain.run (gigabyteEvents ++ [.mmap 0x50000000 4096 3 0x32 0 []]) = some sys ∧
    sys.tasks[4]? = some task ∧
    walk sys.machine.mem task.cr3 0x100000 = some (Space.kernelLeaf 256) := by
  obtain ⟨sys, proc, space, ran, alone⟩ := ofRam_alone plain_fits
  have valid : ValidRange 0x50000000 (1 * 4096) := ⟨by decide, by decide, by decide, by decide⟩
  have apart := page_apart (show 0x10000000 ≤ 0x50000000 by decide)
  obtain ⟨after, machine, proc', later, phys, pmm, stepped, rfl, -, -⟩ :=
    alone.mmap plain_fits valid (by decide) apart
  have meets : plain.Meets (fun state event => Careful state.layout.Owns state event)
      (gigabyteEvents ++ [.mmap 0x50000000 4096 3 0x32 0 []]) := by
    refine meets_snoc (meets_gigabyte (fun first started => ?_)
      (fun state => careful_schedule _ state)) (fun state reached => ?_)
    · refine careful_gigabyte plain_fits started (fun addr owns covered => ?_)
      obtain ⟨pmm, started', -⟩ := plain_start
      rw [started] at started'
      obtain rfl := Option.some.inj started'
      have low := Layout.Owns.lt owns rfl rfl
      have stack : Process.userStackLowLimit = 0xFF00000 := rfl
      unfold gigabyteCover at covered
      omega
    · obtain rfl := Option.some.inj (reached.symm.trans ran)
      refine alone.careful_mmap plain_fits valid (by decide) apart (fun addr owns within => ?_)
      have low := Layout.Owns.lt owns (by rw [alone.layout]) (by rw [alone.layout])
      unfold InRange at within
      omega
  exact ⟨_, _, run_snoc ran stepped, alone.acted machine proc',
    kernel_pages_kept plain_valid meets (run_snoc ran stepped) (alone.acted machine proc') rfl
      alone.owns_kernel⟩

def kernelMmap : System.Event :=
  .mmap 0x100000 4096 3 0x32 0 []

/-- It is mapped, open to ring 3 and writable. -/
theorem kernel_page_remapped : ∃ sys task proc leaf,
    plain.run (gigabyteEvents ++ [kernelMmap]) = some sys ∧
    sys.tasks[4]? = some task ∧ task.process = some proc ∧
    sys.layout.Owns 0x100000 ∧ walk sys.machine.mem task.cr3 0x100000 = some leaf ∧
    leaf.user = true ∧ leaf.writable = true ∧ leaf.phys ≠ 0x100000 := by
  obtain ⟨sys, proc, space, ran, alone⟩ := ofRam_alone plain_fits
  obtain ⟨after, machine, proc', later, phys, pmm, stepped, rfl, given, outcome⟩ :=
    @Alone.mmap _ _ _ _ alone plain_fits 0x100000 1
      ⟨by decide, by decide, by decide, by decide⟩ (by decide)
      (fun addr ram within => by
        unfold lowRam at ram
        unfold InRange at within
        omega)
  have view := outcome.remaps.views.views 256 (by decide)
  dsimp only at view
  rw [if_pos (by decide)] at view
  have walked := @Hosted.walk_eq _ _ _ _ outcome.hosted 0x100000 (by decide)
  rw [outcome.pml4, view] at walked
  obtain ⟨-, block, -, -, -⟩ := Pmm.allocContiguous_some given
  have low := ((ofRam_free plain_fits _).mp (alone.ledger.freePool _ (block 0 (by decide)))).2.1
  refine ⟨_, _, proc', _, run_snoc ran stepped, alone.acted machine proc', rfl,
    alone.owns_kernel, walked,
    show (Process.protFlags true false).getLsbD 2 = true by decide,
    show (Process.protFlags true false).getLsbD 1 = true by decide, ?_⟩
  simp only [leafFor]
  omega

structure SparesFrames (boot : Boot) (sys : System) (event : System.Event) : Prop where
  acts : ∀ cr3 proc act virt len, sys.currentProcess = some (cr3, proc) →
    event.act sys.shm proc = some act → act.range proc = some (virt, len) →
    ∀ frame, boot.initialPmm.Free frame → ¬ InRange virt len frame
  launches : ∀ ranges count, sys.current = 0 → Claimed sys.layout event ranges count →
    ∀ frame, boot.initialPmm.Free frame → ¬ InRanges ranges frame

theorem SparesFrames.careful {boot : Boot} {sys : System} {event : System.Event}
    {property : Process → Space → Prop} (spares : boot.SparesFrames sys event)
    (housing : Housing boot boot.initialPmm.Free property sys) :
    Careful boot.initialPmm.Free sys event := by
  have pooled := housing.ledger.freePool
  have safe : ∀ cr3 proc virt len, sys.currentProcess = some (cr3, proc) →
      (∀ frame, boot.initialPmm.Free frame → ¬ InRange virt len frame) →
      ∀ frame, sys.machine.pmm.Free frame →
        Safe proc.mappings sys.machine virt len frame := by
    intro cr3 proc virt len calling apart frame free
    obtain ⟨space, rfl, active, hosted, -⟩ := housing.hosted calling
    obtain ⟨kernel, uncovered⟩ := hosted.kernel frame (Or.inr (pooled frame free))
    refine ⟨?_, uncovered, apart frame (pooled frame free)⟩
    rw [active, hosted.walk_eq (hosted.below frame (pooled frame free))]
    exact kernel
  refine ⟨?_, ?_, ?_⟩
  · intro cr3 proc act calling asked virt len range
    have apart := spares.acts cr3 proc act virt len calling asked range
    have clears : ∀ pmm : Pmm, (∀ frame, pmm.Free frame → sys.machine.pmm.Free frame) →
        proc.Clears boot.initialPmm.Free sys.machine virt len pmm := by
      intro pmm fewer
      refine ⟨?_, Pmm.Clear.supplies (Or.inl (fun frame free =>
        safe cr3 proc virt len calling apart frame (fewer frame free)))⟩
      rintro addr (mine | isKept)
      · refine apart addr (housing.ledger.heldPool (.process sys.current) addr ?_)
        rwa [holdings_process (processAt_current calling)]
      · exact apart addr isKept
    have room : proc.Room boot.initialPmm.Free sys.machine virt len := by
      intro phys pmm given
      obtain ⟨-, block, -, -, -⟩ := Pmm.allocContiguous_some given
      refine ⟨clears pmm (fun frame free =>
        ((Pmm.free_allocContiguous given frame).mp free).1), fun frame mem => ?_⟩
      obtain ⟨index, inside, rfl⟩ := Pmm.mem_frameRun.mp mem
      exact safe cr3 proc virt len calling apart _ (block index inside)
    cases act with
    | mmapShared => exact clears _ (fun _ free => free)
    | _ => exact room
  · intro ranges count main claimed
    have apart := spares.launches ranges count main claimed
    exact ⟨apart, Or.inl (fun frame free => apart frame (pooled frame free))⟩
  · intro fd len cr3 proc id cursor phys pmm _ calling _ _ given frame mem
    obtain ⟨-, block, -, -, -⟩ := Pmm.allocContiguous_some given
    obtain ⟨index, inside, rfl⟩ := Pmm.mem_frameRun.mp mem
    exact safe cr3 proc 0 0 calling (fun _ _ within => Nat.not_lt_zero _ within.2) _
      (block index inside)

/-- Every frame the PMM can hand out is identity-mapped, closed to ring 3, in the table of every
process. -/
theorem frames_identity_mapped {boot : Boot} (valid : boot.Valid) {events : List System.Event}
    {sys : System} (meets : boot.Meets boot.SparesFrames events)
    (ran : boot.run events = some sys) {index : Nat} {task : Task} {proc : Process}
    (found : sys.tasks[index]? = some task) (isProcess : task.process = some proc)
    {frame : Nat} (free : boot.initialPmm.Free frame) :
    walk sys.machine.mem task.cr3 frame = some (Space.kernelLeaf (frame / 4096)) := by
  have below : ∀ addr, boot.initialPmm.Free addr → addr < identityMapEnd :=
    fun addr free => (valid.pool_apart free).2.1
  have housing : Housing boot boot.initialPmm.Free (fun _ _ => True) sys :=
    run_invariant (Housing boot boot.initialPmm.Free (fun _ _ => True))
      (fun first started => housing_start _ _ valid started)
      (fun before event after housing spares stepped =>
        housing.step valid (endures_trivial _) below (spares.careful housing)
          (allows_trivial _ _) stepped) meets ran
  exact housing.walk_kept found isProcess free

theorem frames_identity_mapped_mmap : ∃ sys task,
    (ofRam 0xE000000).run (gigabyteEvents ++ [.mmap 0x50000000 4096 3 0x32 0 []]) = some sys ∧
    sys.tasks[4]? = some task ∧
    walk sys.machine.mem task.cr3 0xE000000 = some (Space.kernelLeaf 0xE000) := by
  have fits : RamFits 0xE000000 := ⟨by decide, by decide, by decide⟩
  obtain ⟨sys, proc, space, ran, alone⟩ := ofRam_alone fits
  have valid : ValidRange 0x50000000 (1 * 4096) := ⟨by decide, by decide, by decide, by decide⟩
  have apart := page_apart (show 0x10000000 ≤ 0x50000000 by decide)
  have stack : Process.userStackLowLimit = 0xFF00000 := rfl
  obtain ⟨after, machine, proc', later, phys, pmm, stepped, rfl, -, -⟩ :=
    alone.mmap fits valid (by decide) apart
  have meets : (ofRam 0xE000000).Meets (ofRam 0xE000000).SparesFrames
      (gigabyteEvents ++ [.mmap 0x50000000 4096 3 0x32 0 []]) := by
    refine meets_snoc (meets_gigabyte (fun first started => ⟨?_, ?_⟩)
      (fun state => ⟨?_, ?_⟩)) (fun state reached => ⟨?_, ?_⟩)
    · intro _ _ _ _ _ _ asked
      cases asked
    · intro ranges count _ claimed frame free within
      have covered := (claimed_gigabyte fits started claimed).2.1 frame within
      have bounds := (ofRam_free fits frame).mp free
      unfold gigabyteCover at covered
      omega
    · intro _ _ _ _ _ _ asked
      cases asked
    · intro _ _ _ claimed
      cases claimed
    · obtain rfl := Option.some.inj (reached.symm.trans ran)
      intro cr3 other act virt len calling asked range frame free within
      have bounds := (ofRam_free fits frame).mp free
      rw [Alone.act_mmap valid] at asked
      cases asked
      rw [show MemoryAct.range (.mmap (some 0x50000000) (1 * 4096) true false none) other =
        some (0x50000000, 1 * 4096) from Alone.mmapRange_fixed valid] at range
      cases range
      unfold InRange at within
      omega
    · intro _ _ _ claimed
      cases claimed
  exact ⟨_, _, run_snoc ran stepped, alone.acted machine proc',
    frames_identity_mapped (ofRam_valid _) meets (run_snoc ran stepped)
      (alone.acted machine proc') rfl
      ((ofRam_free fits _).mpr ⟨by decide, by decide, by decide⟩)⟩

/-- With 256 MiB it does: the pages of a new stack lie over allocatable frames. -/
theorem stack_over_frames : ∃ sys task proc frame leaf,
    plain.run gigabyteEvents = some sys ∧ sys.tasks[4]? = some task ∧
    task.process = some proc ∧ plain.initialPmm.Free frame ∧
    walk sys.machine.mem task.cr3 frame = some leaf ∧ leaf.user = true := by
  obtain ⟨sys, proc, space, ran, alone⟩ := ofRam_alone plain_fits
  obtain ⟨kernel, pool, origin, machine, loaded⟩ := alone.loaded
  have low : Process.userStackLowLimit = 0xFF00000 := rfl
  have top : Process.userStackTop = 0x10000000 := rfl
  have inside := loaded.stack.lowInside
  have aligned := loaded.stack.lowAligned
  rw [low, top] at inside
  obtain ⟨-, leaf, view, isUser⟩ := loaded.stack.shown (proc.stackLow / 4096) (by
    unfold InRange
    omega)
  refine ⟨sys, { cr3 := space.pml4, process := some proc }, proc, proc.stackLow, leaf,
    ran, ?_, rfl, (ofRam_free plain_fits _).mpr ⟨aligned, by omega, by omega⟩, ?_, isUser⟩
  · rw [alone.tasks]
    rfl
  · have fourGiB : identityMapEnd = 4294967296 := rfl
    rw [alone.hosted.walk_eq (by omega)]
    exact view

end Boot
end MachaOS
