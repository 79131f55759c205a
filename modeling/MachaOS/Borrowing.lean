/-
The frames a shared mapping borrows.

A mapping of an object holds no reference.  It stays good as long as the descriptors of the
object, in processes or under way, leave it one, and `ftruncate` does not move it.  A process that
maps an object and closes its only descriptor keeps the mapping and loses the frames.
-/

import MachaOS.ProgramBreak

namespace MachaOS

open Fallible Machine Paging

namespace Boot

/-- In every run that leaves an object a reference, in its place, while it is mapped, the frames of
a mapping of it are in use and are its backing. -/
theorem shared_mappings_backed {boot : Boot} {events : List System.Event} {sys : System}
    {id : Nat} (meets : boot.Meets (System.KeepsShared id) events)
    (ran : boot.run events = some sys) {index : Nat} {proc : Process} {mapping : Mapping}
    (live : sys.processAt index = some proc) (mapped : mapping ∈ proc.mappings)
    (shared : mapping.shmId = some id) :
    Shm.physOf sys.shm id = some mapping.phys ∧
      Shm.pagesOf sys.shm id = some (mapping.len / 4096) ∧
      ∀ frame, frame ∈ mapping.run → sys.machine.pmm.frameIsFree (frame / 4096) = false := by
  obtain ⟨ledger, backed⟩ := backed_run meets ran
  obtain ⟨-, phys, pages⟩ := backed index proc mapping live mapped shared
  refine ⟨phys, pages, fun frame inRun => ?_⟩
  have inObject : frame ∈ sys.holdings (.object id) := by
    cases found : sys.shm.lookup id with
    | none => simp [Shm.physOf, found] at phys
    | some obj =>
        simp only [Shm.physOf, found, Option.map_some, Option.some.injEq] at phys
        simp only [Shm.pagesOf, found, Option.map_some, Option.some.injEq] at pages
        rw [System.holdings_object found, phys, pages]
        exact inRun
  exact (ledger.held _ frame inObject).frameIsFree

end Boot

namespace System

variable {sys : System} {cr3 fd id : Nat} {proc : Process}

theorem onMachine_of_ok {α : Type} {routine : Kernel α} {value : α} {machine : Machine}
    (ran : routine sys.machine = (.ok value, machine)) :
    onMachine routine sys = (.ok value, { sys with machine }) := by
  unfold onMachine
  rw [ran]

theorem step_memfdCreate (calling : sys.currentProcess = some (cr3, proc)) :
    step sys .memfdCreate =
      some ({ sys with shm := (Shm.create sys.shm).1 }.setCurrentProcess
        (proc.allocFd (.shm (Shm.create sys.shm).2 0)).1) := by
  apply step_of_ok
  have located : ({ sys with shm := (Shm.create sys.shm).1 } : System).currentProcess =
      some (cr3, proc) := calling
  show sysMemfdCreate sys = _
  unfold sysMemfdCreate
  rw [bind_of_ok (get_run sys)]
  dsimp only
  rw [bind_of_ok (modify_run _ _)]
  unfold openFd
  rw [modify_run, located]

theorem step_ftruncate (calling : sys.currentProcess = some (cr3, proc))
    {cursor len : Nat} (entry : proc.fd fd = some (.shm id cursor)) {done : Bool}
    {table : Shm.Table} {machine : Machine}
    (ran : Shm.truncate sys.shm id len sys.machine = (.ok (done, table), machine)) :
    step sys (.ftruncate fd len) = some { sys with machine, shm := table } := by
  apply step_of_ok
  show sysFtruncate fd len sys = _
  unfold sysFtruncate
  rw [calling]
  dsimp only
  rw [entry]
  dsimp only
  rw [bind_of_ok (onMachine_of_ok ran)]
  rfl

theorem step_mmap_shared (calling : sys.currentProcess = some (cr3, proc)) {cursor virt : Nat}
    (entry : proc.fd fd = some (.shm id cursor)) (low : fd < 2 ^ 63) {result : Option Nat}
    {proc' : Process} {machine : Machine}
    (ran : proc.mmapShared cr3 (some virt) sys.shm id true false sys.machine =
      (.ok (result, proc'), machine)) :
    step sys (.mmap virt 4096 3 0x11 fd []) =
      some ({ sys with machine }.setCurrentProcess proc') := by
  refine @step_of_bind _ _ _ _ _ (some result) (by rfl) ?_
  have fixed : hasBit 0x11 mapFixed = true := by decide
  have anonymous : hasBit 0x11 mapAnonymous = false := by decide
  have shared : hasBit 0x11 mapShared = true := by decide
  have rights : hasBit 3 protWrite = true ∧ hasBit 3 protExec = false := by decide
  unfold sysMmap
  rw [if_neg (by decide)]
  dsimp only
  rw [fixed, anonymous, rights.1, rights.2, Bool.false_or, decide_eq_false (Nat.not_le.mpr low),
    if_neg Bool.false_ne_true, calling]
  dsimp only
  rw [entry]
  dsimp only
  rw [if_pos shared]
  exact onProcess_of_ok calling ran

theorem step_close_shm (calling : sys.currentProcess = some (cr3, proc)) {cursor : Nat}
    (high : ¬ fd < Process.firstFileFd) (entry : proc.fd fd = some (.shm id cursor))
    {table : Shm.Table} {machine : Machine}
    (ran : Shm.close sys.shm id sys.machine = (.ok table, machine)) :
    step sys (.close fd) =
      some { sys.setCurrentProcess { proc with fds := Slots.clear proc.fds fd } with
        machine, shm := table } := by
  apply step_of_ok
  show sysClose fd sys = _
  unfold sysClose
  rw [calling]
  dsimp only
  rw [if_neg high, entry]
  dsimp only [dropFd]
  have closed := @onMachine_of_ok
    (sys.setCurrentProcess { proc with fds := Slots.clear proc.fds fd }) _ _ _ _ ran
  rw [bind_of_ok (get_run _)]
  exact (bind_of_ok closed).trans rfl

end System

namespace Boot

section

variable {length count : Nat} {proc : Process} {space : Space} {machine : Machine}

theorem Sole.truncate {table : Shm.Table} {id : Nat}
    (sole : Sole length (1 + count) proc space machine) (fits : RamFits length)
    (found : table.lookup id = some { phys := 0, pages := 0, size := 0, refcount := 1 }) :
    ∃ phys machine',
      Shm.truncate table id 4096 machine =
        (.ok (true, table.put id { phys, pages := 1, size := 4096, refcount := 1 }), machine') ∧
      phys % 4096 = 0 ∧ phys + 4096 ≤ 2 ^ 52 ∧ Sole length count proc space machine' := by
  have running := sole.running
  rcases given : machine.pmm.allocContiguous 1 with ⟨_ | phys, pmm⟩
  · exact absurd trivial (sole.stock.allocContiguous_none Nat.one_pos given)
  obtain ⟨good, rest⟩ := sole.stock.allocContiguous_some given
  obtain ⟨-, blockFree, -, aligned, -⟩ := Pmm.allocContiguous_some given
  have lent : ∀ frame, frame ∈ Pmm.frameRun phys 1 → Lends proc.mappings space 0 0 frame := by
    intro frame member
    have outside := good frame member
    obtain ⟨index, inside, rfl⟩ := Pmm.mem_frameRun.mp member
    have free := blockFree index inside
    have ram := lowRam_of_pool fits (sole.free _ free) (fun inStack => outside (Or.inr inStack))
    obtain ⟨kernel, uncovered⟩ := running.hosted.kernel _ (Or.inr ram)
    exact ⟨Pmm.free_aligned free, lt_trans ram.2 (by decide), kernel, uncovered,
      fun within => Nat.not_lt_zero _ within.2⟩
  obtain ⟨hosted, owned, taken, apart, -⟩ := running.hosted.lendBlock running.owned running.bounded
    given (fun _ _ within => Nat.not_lt_zero _ within.2) lent
  have touched : ∀ frame, Touches phys (List.replicate 4096 0#8).length frame →
      frame ∈ Pmm.frameRun phys 1 := by
    intro frame touches
    rw [List.length_replicate] at touches
    exact Touches.mem_frameRun aligned (show 0 + 4096 ≤ 1 * 4096 by decide) touches
  obtain ⟨cleared, zeroed, -, agree⟩ :=
    @Hosted.fill lowRam _ space { machine with pmm } hosted owned running.active phys
      (List.replicate 4096 0#8)
      (fun frame touches => ⟨List.mem_append_right _ (touched frame touches),
        apart frame (touched frame touches)⟩)
  rw [← zeroBytes_eq_copyBytes] at zeroed
  refine ⟨phys, { machine with pmm, mem := cleared }, ?_, aligned,
    Hosted.block_bounded running.bounded given, ?_, ?_, ?_, rest⟩
  · have size : Pmm.frameSize = 4096 := rfl
    unfold Shm.truncate
    rw [found]
    dsimp only
    rw [if_neg (by decide), if_neg (by decide),
      bind_of_ok (show Machine.allocContiguous _ machine = (.ok (some phys), { machine with pmm }) by
        unfold Machine.allocContiguous
        rw [show max ((4096 + Pmm.frameSize - 1) / Pmm.frameSize) 1 = 1 from rfl, given])]
    dsimp only
    rw [show max ((4096 + Pmm.frameSize - 1) / Pmm.frameSize) 1 * Pmm.frameSize = 4096 from rfl,
      bind_of_ok zeroed, if_neg (by decide)]
    rfl
  · constructor
    · exact running.hosted.of_agree agree
        (fun frame owns touches => apart frame (touched frame touches) owns)
    · have books : OwnedBy pmm proc :=
        { running.owned with
          held := fun frame mine => owned.held frame (List.mem_append_left _ mine) }
      exact books
    · show pmm.lastUsableFrame < Pmm.frameCount
      rw [show pmm.lastUsableFrame = machine.pmm.lastUsableFrame from taken.limit]
      exact running.bounded
    · exact running.active
  · exact fun frame free => sole.free frame ((taken.free frame).mp free).1
  · exact sole.mine

theorem Sole.mmapShared {virt phys id : Nat} {table : Shm.Table}
    (sole : Sole length (blocksTouched virt (4096) + count) proc space machine)
    (fits : RamFits length) (backing : Shm.physOf table id = some phys)
    (size : Shm.pagesOf table id = some 1) (aligned : phys % 4096 = 0)
    (bounded : phys + 4096 ≤ 2 ^ 52) (valid : ValidRange virt (4096))
    (apart : ∀ addr, lowRam addr → ¬ InRange virt (4096) addr) :
    ∃ proc' machine',
      proc.mmapShared space.pml4 (some virt) table id true false machine =
        (.ok (some virt, proc'), machine') ∧
      proc'.mappings = proc.mappings ++ [⟨virt, phys, 4096, some id⟩] ∧
      proc'.fds = proc.fds := by
  have running := sole.running
  have safe : ∀ frame, machine.pmm.Free frame → ¬ gigabyteCover frame →
      Lends proc.mappings space virt (4096) frame := by
    intro frame free outside
    have ram := lowRam_of_pool fits (sole.free _ free) (fun inStack => outside (Or.inr inStack))
    obtain ⟨kernel, uncovered⟩ := running.hosted.kernel _ (Or.inr ram)
    exact ⟨Pmm.free_aligned free, lt_trans ram.2 (by decide), kernel, uncovered, apart frame ram⟩
  have few := @tablesNeeded_le_blocksTouched space _ _ valid
  have stock := sole.stock.of_le (few.trans (Nat.le_add_right _ count))
  obtain ⟨done, fresh, machine', after, mapped, ran, -, -, -, -, remaps, -, -, stocked, -⟩ :=
    running.hosted.mapRange running.owned running.active (Process.protFlags true false)
      (fun addr member => by
        rcases member with inFrames | ram
        · exact apart addr (sole.mine addr inFrames)
        · exact apart addr ram) aligned bounded
      (fun _ => (stock.supplies.and (Pmm.supplies_free _ _)).mono
        (fun frame member => safe frame member.2 member.1))
  obtain rfl := stocked valid (stock.stocked trivial)
  have start : alignDown virt = virt := by
    have whole := valid.1
    unfold alignDown
    omega
  refine ⟨{ proc with frames := proc.frames ++ fresh }.addMapping (some virt)
    ⟨virt, phys, 4096, some id⟩, machine', ?_, rfl, rfl⟩
  unfold Process.mmapShared
  rw [backing, size]
  dsimp only
  rw [if_neg (by decide)]
  unfold Process.mmapAddress
  dsimp only
  rw [start]
  exact (bind_of_ok ran).trans rfl

end

def borrowEvents : List System.Event :=
  gigabyteEvents ++ [.memfdCreate] ++ [.ftruncate 3 4096] ++ [.mmap 0x50000000 4096 3 0x11 3 []]

theorem Alone.fds {length : Nat} {sys : System} {proc : Process} {space : Space}
    (alone : Alone length sys proc space) : proc.fds = [none, none, none] := by
  have record := alone.record
  unfold System.FillsIn at record
  rw [record]
  rfl

theorem borrowed : ∃ sys proc cr3 phys,
    plain.run borrowEvents = some sys ∧ plain.Meets (System.KeepsShared 0) borrowEvents ∧
      sys.currentProcess = some (cr3, proc) ∧ proc.fd 3 = some (.shm 0 0) ∧
      phys % 4096 = 0 ∧ sys.shm = [some { phys, pages := 1, size := 4096, refcount := 1 }] ∧
      ⟨0x50000000, phys, 4096, some 0⟩ ∈ proc.mappings := by
  obtain ⟨sys, proc, space, ran, alone⟩ := ofRam_alone plain_fits
  have meets : plain.Meets (System.KeepsShared 0) gigabyteEvents :=
    meets_gigabyte (fun _ _ => .of_nothing rfl (by simp)) (fun _ => .of_nothing rfl (by simp))
  have valid : ValidRange 0x50000000 4096 := ⟨by decide, by decide, by decide, by decide⟩
  have apart := page_apart (show 0x10000000 ≤ 0x50000000 by decide)
  -- the object, empty at first
  have created := System.step_memfdCreate alone.calling
  rw [alone.noObjects, show Shm.create [] = ([some ⟨0, 0, 0, 1⟩], 0) from rfl] at created
  dsimp only at created
  generalize opened : (proc.allocFd (.shm 0 0)).1 = holder at created
  have entry : holder.fd 3 = some (.shm 0 0) := by
    rw [← opened]
    unfold Process.fd Process.allocFd
    dsimp only
    rw [alone.fds]
    rfl
  have sole : Sole 0xFF00000 2048 holder space sys.machine := by
    rw [← opened]
    have first := alone.sole plain_fits
    exact ⟨⟨first.running.hosted.congr rfl, first.running.owned.congr rfl rfl,
      first.running.bounded, first.running.active⟩, first.free, first.mine, first.stock⟩
  have calling := System.currentProcess_setCurrentProcess
    (show ({ sys with shm := [some ⟨0, 0, 0, 1⟩] } : System).currentProcess =
      some (space.pml4, proc) from alone.calling) holder
  have books : System.SameBooks sys
      ({ sys with shm := [some ⟨0, 0, 0, 1⟩] }.setCurrentProcess holder) :=
    System.sameBooks_setCurrentProcess
      (show ({ sys with shm := [some ⟨0, 0, 0, 1⟩] } : System).currentProcess =
        some (space.pml4, proc) from alone.calling)
      (by rw [← opened]; rfl) (by rw [← opened]; rfl)
  -- its page
  obtain ⟨phys, machine, truncated, aligned, bounded, soleThen⟩ :=
    @Sole.truncate _ 2047 _ _ _ [some ⟨0, 0, 0, 1⟩] 0 sole plain_fits rfl
  have sized := System.step_ftruncate calling entry truncated
  -- its mapping
  obtain ⟨mapper, machine', mapped, mappings, fds⟩ :=
    @Sole.mmapShared _ 2046 _ _ _ 0x50000000 phys 0 [some ⟨phys, 1, 4096, 1⟩] soleThen plain_fits
      rfl rfl aligned bounded valid apart
  have holding : ({ ({ sys with shm := [some ⟨0, 0, 0, 1⟩] } : System).setCurrentProcess holder
      with machine, shm := [some ⟨phys, 1, 4096, 1⟩] } : System).currentProcess =
        some (space.pml4, holder) := calling
  have finished := @System.step_mmap_shared _ _ _ _ _ holding _ 0x50000000 entry (by omega) _ _ _
    mapped
  have located := System.currentProcess_setCurrentProcess
    (show ({ ({ sys with shm := [some ⟨0, 0, 0, 1⟩] } : System).setCurrentProcess holder
      with machine := machine', shm := [some ⟨phys, 1, 4096, 1⟩] } : System).currentProcess =
        some (space.pml4, holder) from calling) mapper
  have run₁ := run_snoc ran created
  have run₂ := run_snoc run₁ sized
  have unmapped : ¬ System.MapsObject ({ sys with shm := [some ⟨0, 0, 0, 1⟩] }.setCurrentProcess
      holder) (.ftruncate 3 4096) 0 := by
    rintro ⟨index, other, mapping, found, -, member, shared⟩
    obtain ⟨before, was, -, same⟩ := books index other found
    rw [same] at member
    obtain ⟨-, backing, -⟩ := (backed_run meets ran).2 index before mapping was member shared
    rw [alone.noObjects] at backing
    cases backing
  have meets₁ := meets_snoc meets
    (fun state _ => @System.KeepsShared.of_nothing 0 state .memfdCreate rfl (by simp))
  have meets₂ := @meets_snoc _ _ _ (.ftruncate 3 4096) meets₁ (fun state reached => by
    obtain rfl := Option.some.inj (reached.symm.trans run₁)
    exact .of_nothing rfl (fun _ _ _ => unmapped))
  refine ⟨_, mapper, space.pml4, phys, run_snoc run₂ finished, ?_, located, ?_, aligned, rfl, ?_⟩
  · exact meets_snoc meets₂
      (fun state _ => @System.KeepsShared.of_nothing 0 state (.mmap _ _ _ _ _ _) rfl (by simp))
  · have same : mapper.fd 3 = holder.fd 3 := congrArg (fun table => Slots.lookup table 3) fds
    exact same.trans entry
  · rw [mappings]
    exact List.mem_append_right _ List.mem_cons_self

theorem shared_mappings_backed_borrowed : ∃ sys phys,
    plain.run borrowEvents = some sys ∧ Shm.physOf sys.shm 0 = some phys ∧
      sys.machine.pmm.frameIsFree (phys / 4096) = false := by
  obtain ⟨sys, proc, cr3, phys, ran, meets, calling, -, aligned, -, member⟩ := borrowed
  obtain ⟨backing, -, used⟩ :=
    shared_mappings_backed meets ran (System.processAt_current calling) member rfl
  refine ⟨sys, phys, ran, backing, used phys ?_⟩
  exact Pmm.mem_frameRun.mpr ⟨0, show 0 < 4096 / 4096 by decide, rfl⟩

/-- Closed, the object is gone and its frame is free, and the mapping is still there. -/
theorem closed_object_still_mapped : ∃ sys proc cr3 phys,
    plain.run (borrowEvents ++ [.close 3]) = some sys ∧
      sys.currentProcess = some (cr3, proc) ∧
      ⟨0x50000000, phys, 4096, some 0⟩ ∈ proc.mappings ∧
      Shm.physOf sys.shm 0 = none ∧
      sys.machine.pmm.frameIsFree (phys / 4096) = true := by
  obtain ⟨sys, proc, cr3, phys, ran, meets, calling, entry, aligned, objects, member⟩ :=
    borrowed
  have closed : Shm.close sys.shm 0 sys.machine =
      (.ok [none], { sys.machine with pmm := sys.machine.pmm.frameFree phys }) := by
    rw [objects]
    rfl
  have stepped := @System.step_close_shm _ _ 3 _ _ calling _ (by decide) entry _ _ closed
  have inObject : phys ∈ sys.holdings (.object 0) := by
    rw [System.holdings_object (show sys.shm.lookup 0 = some ⟨phys, 1, 4096, 1⟩ by
      rw [objects]
      rfl)]
    exact Pmm.mem_frameRun.mpr ⟨0, Nat.one_pos, rfl⟩
  obtain ⟨-, below, -, -⟩ := (backed_run meets ran).1.held _ phys inObject
  refine ⟨_, _, cr3, phys, run_snoc ran stepped,
    System.currentProcess_setCurrentProcess calling _, member, rfl, ?_⟩
  have freed := Pmm.frameIsFree_frameFree sys.machine.pmm phys (phys / 4096) aligned below
  rw [show phys / Pmm.frameSize = phys / 4096 from rfl, decide_eq_true rfl, Bool.or_true] at freed
  exact freed

end Boot
end MachaOS
