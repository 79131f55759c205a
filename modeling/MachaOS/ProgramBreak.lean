/-
The program break over the runs of a process (`Process::brk` of `src/process.rs`).

Growing maps the whole pages between the old break and the new one; shrinking moves
the number only.  So the pages on record reach up to the highest break there has been,
while the next call reckons from the present one: the break behaves as it should until a
call raises it after another has lowered it.
-/

import MachaOS.Regions

namespace MachaOS

open Fallible Machine Paging

namespace Process

/-! ### One call -/

inductive BrkDid (proc proc' : Process) (pml4 requested result : Nat)
    (machine machine' : Machine) : Prop where
  | stayed (record : proc' = proc) (memory : machine' = machine)
      (answer : result = proc.heapEnd)
  | moved (above : proc.heapStart ≤ requested) (range : proc.brkRange requested = none)
      (record : proc' = { proc with heapEnd := requested }) (memory : machine' = machine)
      (answer : result = requested)
  | mapped {virt len phys : Nat} {pmm : Pmm} {cleared : Machine} {frames : List Nat} {done : Bool}
      (range : proc.brkRange requested = some (virt, len))
      (given : machine.pmm.allocContiguous (len / 4096) = (some phys, pmm))
      (zeroed : zeroBytes phys len { machine with pmm } = (.ok (), cleared))
      (ran : mapRangeIn pml4 virt phys len dataFlags
        (proc.frames ++ Pmm.frameRun phys (len / 4096)) cleared = (.ok (done, frames), machine'))
      (record : proc' =
        if done then
          { proc with
            frames
            mappings := proc.mappings ++ [{ vaddr := virt, phys, len, shmId := none }]
            heapEnd := requested }
        else { proc with frames })
      (answer : result = if done then requested else proc.heapEnd)

theorem brk_did {proc proc' : Process} {pml4 requested result : Nat}
    {machine machine' : Machine}
    (ran : proc.brk pml4 requested machine = (.ok (result, proc'), machine')) :
    BrkDid proc proc' pml4 requested result machine machine' := by
  have size : pageSize = 4096 := rfl
  unfold brk at ran
  split at ran
  · cases ran
    exact .stayed rfl rfl rfl
  rename_i above
  dsimp only at ran
  split at ran
  · rename_i grows
    have range : proc.brkRange requested =
        some (proc.heapStart +
            alignUp (max proc.heapEnd proc.heapStart - proc.heapStart),
          alignUp (requested - proc.heapStart) -
            alignUp (max proc.heapEnd proc.heapStart - proc.heapStart)) := by
      unfold brkRange
      rw [if_neg above]
      dsimp only
      rw [if_pos grows]
    rw [size] at ran
    rcases given : machine.pmm.allocContiguous
      ((alignUp (requested - proc.heapStart) -
        alignUp (max proc.heapEnd proc.heapStart - proc.heapStart)) / 4096) with
      ⟨_ | phys, pmm⟩
    · have same := Pmm.allocContiguous_none given
      subst same
      rw [bind_of_ok (show allocContiguous _ machine = (.ok none, machine) by
        simp [allocContiguous, given])] at ran
      cases ran
      exact .stayed rfl rfl rfl
    · rw [bind_of_ok (show allocContiguous _ machine = (.ok (some phys), { machine with pmm }) by
        simp [allocContiguous, given])] at ran
      obtain ⟨_, cleared, zeroed, rest⟩ := bind_eq_ok ran
      obtain ⟨⟨done, frames⟩, middle, mapping, rest⟩ := bind_eq_ok rest
      cases done with
      | false =>
          cases rest
          exact .mapped range given zeroed mapping rfl rfl
      | true =>
          cases rest
          exact .mapped range given zeroed mapping rfl rfl
  · rename_i within
    cases ran
    refine .moved (Nat.le_of_not_lt above) ?_ rfl rfl rfl
    unfold brkRange
    rw [if_neg above]
    dsimp only
    rw [if_neg within]

def breakTop (proc : Process) (highest : Nat) : Nat :=
  proc.heapStart + alignUp (highest - proc.heapStart)

theorem breakTop_mod {proc : Process} (aligned : proc.heapStart % 4096 = 0) (highest : Nat) :
    proc.breakTop highest % 4096 = 0 := by
  have whole := alignUp_mod (highest - proc.heapStart)
  unfold breakTop
  omega

theorem breakTop_bounds {proc : Process} {highest : Nat} (start : 4096 ≤ proc.heapStart)
    (above : proc.heapStart ≤ highest) (word : highest < wordLimit) :
    highest ≤ proc.breakTop highest ∧ proc.breakTop highest < highest + 4096 := by
  have limit : wordLimit = 18446744073709551616 := rfl
  unfold breakTop alignUp
  rw [Nat.mod_eq_of_lt (by omega)]
  omega

theorem brkRange_some {proc : Process} {requested virt len : Nat}
    (above : proc.heapStart ≤ proc.heapEnd)
    (range : proc.brkRange requested = some (virt, len)) :
    proc.heapStart ≤ requested ∧ virt = proc.breakTop proc.heapEnd ∧ 0 < len ∧
      virt + len = proc.breakTop requested := by
  unfold brkRange at range
  rw [Nat.max_eq_left above] at range
  split at range
  · cases range
  · dsimp only at range
    split at range
    · cases range
      unfold breakTop
      omega
    · cases range

theorem brkRange_none {proc : Process} {requested : Nat}
    (above : proc.heapStart ≤ proc.heapEnd) (asked : proc.heapStart ≤ requested)
    (range : proc.brkRange requested = none) :
    proc.breakTop requested ≤ proc.breakTop proc.heapEnd := by
  unfold brkRange at range
  rw [if_neg (Nat.not_lt.mpr asked), Nat.max_eq_left above] at range
  dsimp only at range
  split at range
  · cases range
  · unfold breakTop
    omega

end Process

namespace Running

variable {kept : Nat → Prop} {proc : Process} {space : Space} {machine : Machine}

theorem block_memory {virt phys len : Nat} {pmm : Pmm} {cleared machine' : Machine}
    {flags : BitVec 64} {frames : List Nat} {done : Bool}
    (running : Running kept proc space machine) (whole : len % 4096 = 0)
    (room : proc.Room kept machine virt len)
    (given : machine.pmm.allocContiguous (len / 4096) = (some phys, pmm))
    (zeroed : zeroBytes phys len { machine with pmm } = (.ok (), cleared))
    (ran : mapRangeIn space.pml4 virt phys len flags
      (proc.frames ++ Pmm.frameRun phys (len / 4096)) cleared = (.ok (done, frames), machine')) :
    Space.AgreeOutside (fun frame => space.Owns frame ∨ machine.pmm.Free frame) machine.mem
        machine'.mem ∧
      (∀ i, i < len → machine'.mem (phys + i) = 0#8) ∧
      ∃ tables, tables ≤ blocksTouched virt len ∧ machine'.pmm = pmm.allocs tables := by
  obtain ⟨⟨avoids, supplied⟩, safe⟩ := room phys pmm given
  have free := Pmm.free_allocContiguous given
  obtain ⟨-, blockFree, -, aligned, -⟩ := Pmm.allocContiguous_some given
  have lent : ∀ frame, frame ∈ Pmm.frameRun phys (len / 4096) →
      Lends proc.mappings space virt len frame := by
    intro frame member
    obtain ⟨index, inside, rfl⟩ := Pmm.mem_frameRun.mp member
    exact running.hosted.lends_of_safe running.bounded running.active (blockFree index inside)
      (safe _ member)
  obtain ⟨hosted₁, owned₁, taken, apart, avoids₁⟩ :=
    running.hosted.lendBlock running.owned running.bounded given avoids lent
  have inBlock : ∀ frame, Touches phys len frame → frame ∈ Pmm.frameRun phys (len / 4096) := by
    intro frame touches
    exact Touches.mem_frameRun aligned (show 0 + len ≤ len / 4096 * 4096 by omega) touches
  -- Clearing the block.
  have editing := @Hosted.editing kept _ space { machine with pmm } hosted₁ owned₁ running.active
    virt len (fun addr member => avoids₁ addr (Or.inl member))
  have exact' := editing.zeroBytes (fun frame touches =>
    ⟨lent frame (inBlock frame touches), apart frame (inBlock frame touches)⟩)
  rw [zeroed] at exact'
  obtain rfl : cleared =
      { machine with
        pmm
        mem := machine.mem.writeBytes phys (List.replicate len 0#8) } :=
    (Prod.mk.inj exact').2
  have agree := agreeOutside_writeBytes machine.mem phys (List.replicate len 0#8)
  rw [List.length_replicate] at agree
  have hosted₂ := hosted₁.of_agree agree
    (fun frame owns touches => apart frame (inBlock frame touches) owns)
  -- Mapping it.
  have bound := Hosted.block_bounded running.bounded given
  obtain ⟨mapped, tables⟩ := @Hosted.mapRangeIn_memory kept _ space
    { machine with pmm, mem := machine.mem.writeBytes phys (List.replicate len 0#8) } machine'
    hosted₂ owned₁ running.active virt phys len flags frames done
    (fun addr member => avoids₁ addr (Or.inl member)) aligned (by omega)
    (running.hosted.supplies_lends running.bounded running.active
      (fun frame still => ((free frame).mp still).1) supplied) ran
  refine ⟨?_, ?_, tables⟩
  · refine (agree.mono ?_).trans (mapped.mono ?_)
    · exact fun frame touches => Or.inr (taken.wasFree frame (inBlock frame touches))
    · rintro frame (owns | still)
      · exact Or.inl owns
      · exact Or.inr ((free frame).mp still).1
  · intro i inside
    have member := inBlock ((phys + i) / 4096 * 4096) ⟨i, inside, rfl⟩
    rw [mapped (phys + i)]
    · simp only [ByteMemory.writeBytes, List.length_replicate]
      rw [if_pos ⟨by omega, by omega⟩, List.getD_eq_getElem?_getD, List.getElem?_replicate]
      split <;> rfl
    · rintro (owns | still)
      · exact apart _ member owns
      · exact ((taken.free _).mp still).2 member

theorem brk_mapped {virt len phys requested result : Nat} {pmm : Pmm} {done : Bool}
    {proc' : Process} {machine' : Machine} (running : Running kept proc space machine)
    (aligned : virt % 4096 = 0) (room : proc.Room kept machine virt len)
    (range : proc.brkRange requested = some (virt, len))
    (given : machine.pmm.allocContiguous (len / 4096) = (some phys, pmm))
    (ran : proc.brk space.pml4 requested machine = (.ok (result, proc'), machine'))
    (record : proc'.mappings =
      if done then proc.mappings ++ [{ vaddr := virt, phys, len, shmId := none }]
      else proc.mappings) :
    ∃ after : Space, after.pml4 = space.pml4 ∧ Running kept proc' after machine' ∧
      (∀ addr, addr < identityMapEnd → ¬ InRange virt len addr →
        walk machine'.mem space.pml4 addr = walk machine.mem space.pml4 addr) ∧
      (done = true → ∀ addr, InRange virt len addr → walk machine'.mem space.pml4 addr =
          some (leafFor Process.dataFlags (phys + (addr / 4096 * 4096 - virt)))) := by
  obtain ⟨result', proc'', machine'', ran', outcome⟩ :=
    running.hosted.brk_outcome running.owned running.bounded running.active
      (fun other size same => by
        rw [range] at same
        cases same
        exact room)
  rw [ran] at ran'
  cases ran'
  rw [range] at outcome
  cases outcome with
  | nothing books machine_eq reason =>
      have none' := reason virt len rfl
      rw [given] at none'
      cases none'
  | @mapped _ _ phys' pmm' done' pages after same whole given' outcome stocked =>
      cases same
      rw [given] at given'
      cases given'
      obtain ⟨⟨added, taken, grown, -⟩, -⟩ := Process.brk_adds ran
      have fourGiB : identityMapEnd = 4294967296 := rfl
      have running' : Running kept proc' after machine' :=
        ⟨outcome.hosted, (running.owned.grow running.bounded grown).1, by
          unfold Pmm.Bounded
          rw [grown.takes.limit]
          exact running.bounded, outcome.cr3.trans (running.active.trans outcome.pml4.symm)⟩
      have walks : ∀ addr, addr < identityMapEnd →
          walk machine'.mem space.pml4 addr = after.view (addr / 4096) := by
        intro addr below
        rw [← outcome.pml4]
        exact outcome.hosted.walk_eq below
      refine ⟨after, outcome.pml4, running', ?_, ?_⟩
      · intro addr below outside
        rw [walks addr below, running.hosted.walk_eq below]
        refine outcome.remaps.view_outside aligned (by omega) ?_
        intro inside
        refine outside ?_
        unfold InRange at inside ⊢
        dsimp only at inside
        omega
      · rintro rfl addr inside
        obtain ⟨fresh, books⟩ := outcome.books
        have mappings : proc'.mappings = _ := congrArg Process.Books.mappings books
        rw [record, if_pos rfl] at mappings
        dsimp only at mappings
        have finished : done' = true := by
          cases done' with
          | true => rfl
          | false =>
              have length := congrArg List.length mappings
              simp at length
        subst finished
        obtain ⟨valid, all⟩ := outcome.remaps.complete rfl
        obtain ⟨-, -, -, below⟩ := valid
        unfold InRange at inside
        dsimp only at all below
        rw [walks addr (by omega), outcome.remaps.views.views _ (by omega), all]
        dsimp only
        rw [if_pos (by omega), show phys + (addr / 4096 - virt / 4096) * 4096 =
          phys + (addr / 4096 * 4096 - virt) by omega]

end Running

namespace Process

/-! ### The heap between calls -/

/-- The pages up to the highest break there has been are settled, those behind it on no record,
and the last one is zero from that break on. -/
structure Heap (highest : Nat) (proc : Process) (machine : Machine) (pml4 : Nat) : Prop where
  start : 4096 ≤ proc.heapStart ∧ proc.heapStart % 4096 = 0
  order : proc.heapStart ≤ proc.heapEnd ∧ proc.heapEnd ≤ highest ∧ highest < wordLimit
  settled : ∀ addr, proc.heapStart ≤ addr → addr < proc.breakTop highest →
    ∃ mapping, proc.Settled machine.mem pml4 addr mapping
  tail : ∀ addr, highest ≤ addr → addr < proc.breakTop highest →
    Loader.readThrough machine.mem pml4 addr = some 0#8

/-- If there is memory for the pages a call maps, then none of them is on record, and the kernel
can work on the frames it takes. -/
structure BrkClear (kept : Nat → Prop) (proc : Process) (machine : Machine) (requested : Nat) :
    Prop where
  room : ∀ virt len, proc.brkRange requested = some (virt, len) →
    proc.Room kept machine virt len
  unrecorded : ∀ virt len, proc.brkRange requested = some (virt, len) →
    (machine.pmm.allocContiguous (len / 4096)).1 ≠ none →
    ∀ addr, InRange virt len addr → proc.recordsOf addr = []

def Climbs (highest : Nat) (proc : Process) (requested : Nat) : Prop :=
  requested ≤ proc.heapEnd ∨ proc.heapEnd = highest

structure Behaves (pml4 requested result : Nat) (proc proc' : Process)
    (machine machine' : Machine) : Prop where
  refused : result ≠ requested → proc'.heapEnd = proc.heapEnd
  kept : ∀ addr, proc.heapStart ≤ addr →
    addr < min proc.heapEnd proc'.heapEnd →
    Loader.readThrough machine'.mem pml4 addr = Loader.readThrough machine.mem pml4 addr
  zero : ∀ addr, proc.heapEnd ≤ addr → addr < proc'.heapEnd →
    Loader.readThrough machine'.mem pml4 addr = some 0#8

theorem Heap.moved {highest requested : Nat} {proc : Process} {machine : Machine} {pml4 : Nat}
    (heap : proc.Heap highest machine pml4) (word : requested < wordLimit)
    (climbs : proc.Climbs highest requested) (above : proc.heapStart ≤ requested)
    (range : proc.brkRange requested = none) :
    ({ proc with heapEnd := requested } : Process).Heap (max highest requested) machine pml4 ∧
      Behaves pml4 requested requested proc { proc with heapEnd := requested } machine
        machine := by
  obtain ⟨start, aligned⟩ := heap.start
  obtain ⟨order, below, bounded⟩ := heap.order
  have within := brkRange_none order above range
  have old := breakTop_bounds start (order.trans below) bounded
  have new := breakTop_bounds start above word
  have same : proc.breakTop (max highest requested) = proc.breakTop highest := by
    rcases climbs with lower | atTop
    · rw [Nat.max_eq_left (lower.trans below)]
    · rcases Nat.le_total requested highest with lower | higher
      · rw [Nat.max_eq_left lower]
      · have wholeOld := breakTop_mod aligned highest
        have wholeNew := breakTop_mod aligned requested
        rw [Nat.max_eq_right higher]
        rw [atTop] at within
        omega
  constructor
  · constructor
    · exact heap.start
    · exact ⟨above, Nat.le_max_right _ _, by
        rw [Nat.max_def]
        split <;> assumption⟩
    · intro addr lower upper
      obtain ⟨mapping, settled⟩ := heap.settled addr lower (same ▸ upper)
      exact ⟨mapping, settled.records, settled.isPrivate, settled.page⟩
    · intro addr lower upper
      exact heap.tail addr ((Nat.le_max_left _ _).trans lower) (same ▸ upper)
  · constructor
    · exact fun different => absurd rfl different
    · exact fun _ _ _ => rfl
    · intro addr lower upper
      dsimp only at upper
      refine heap.tail addr ?_ ?_
      · rcases climbs with lower' | atTop <;> omega
      · rcases climbs with lower' | atTop
        · omega
        · rw [atTop] at within
          omega

section

variable {kept : Nat → Prop} {proc proc' : Process} {space after : Space}
  {machine machine' : Machine} {highest requested result : Nat}

structure Below (proc proc' : Process) (pml4 virt : Nat) (machine machine' : Machine) : Prop
    where
  settled : ∀ addr mapping, addr < virt → proc.Settled machine.mem pml4 addr mapping →
    proc'.Settled machine'.mem pml4 addr mapping
  reads : ∀ addr mapping, addr < virt → proc.Settled machine.mem pml4 addr mapping →
    Loader.readThrough machine'.mem pml4 addr = Loader.readThrough machine.mem pml4 addr

theorem Below.of_memory {virt : Nat} (running : Running kept proc space machine)
    (running' : Running kept proc' after machine') (pml4 : after.pml4 = space.pml4)
    (records : ∀ addr, addr < virt → proc'.recordsOf addr = proc.recordsOf addr)
    (pages : ∀ addr, addr < identityMapEnd → addr < virt →
      walk machine'.mem space.pml4 addr = walk machine.mem space.pml4 addr)
    (agree : Space.AgreeOutside (fun frame => space.Owns frame ∨ machine.pmm.Free frame)
      machine.mem machine'.mem) :
    proc.Below proc' space.pml4 virt machine machine' := by
  have settled : ∀ addr mapping, addr < virt →
      proc.Settled machine.mem space.pml4 addr mapping →
      proc'.Settled machine'.mem space.pml4 addr mapping := by
    intro addr mapping below settled
    exact settled.congr (records addr below) (pages addr (settled.place running).1 below)
  refine ⟨settled, ?_⟩
  intro addr mapping below before
  have later := settled addr mapping below before
  rw [before.reads running, ← before.byte_kept running agree, ← pml4]
  rw [← pml4] at later
  exact later.reads running'

theorem Heap.refused {virt : Nat} (heap : proc.Heap highest machine space.pml4)
    (behind : proc.breakTop highest ≤ virt)
    (kept' : proc.Below proc' space.pml4 virt machine machine')
    (start : proc'.heapStart = proc.heapStart) (stop : proc'.heapEnd = proc.heapEnd) :
    proc'.Heap highest machine' space.pml4 ∧
      Behaves space.pml4 requested result proc proc' machine machine' := by
  obtain ⟨order, below, bounded⟩ := heap.order
  have top : proc'.breakTop highest = proc.breakTop highest := by
    unfold breakTop
    rw [start]
  have reads : ∀ addr, proc.heapStart ≤ addr → addr < proc.breakTop highest →
      Loader.readThrough machine'.mem space.pml4 addr =
        Loader.readThrough machine.mem space.pml4 addr := by
    intro addr lower upper
    obtain ⟨mapping, settled⟩ := heap.settled addr lower upper
    exact kept'.reads addr mapping (lt_of_lt_of_le upper behind) settled
  constructor
  · constructor
    · rw [start]
      exact heap.start
    · rw [start, stop]
      exact heap.order
    · rw [start, top]
      intro addr lower upper
      obtain ⟨mapping, settled⟩ := heap.settled addr lower upper
      exact ⟨mapping, kept'.settled addr mapping (lt_of_lt_of_le upper behind) settled⟩
    · rw [top]
      intro addr lower upper
      rw [reads addr ((order.trans below).trans lower) upper]
      exact heap.tail addr lower upper
  · have inside := breakTop_bounds heap.start.1 (order.trans below) bounded
    constructor
    · exact fun _ => stop
    · intro addr lower upper
      exact reads addr lower (by omega)
    · intro addr lower upper
      omega

theorem Heap.grown {virt len phys : Nat} (heap : proc.Heap proc.heapEnd machine space.pml4)
    (running' : Running kept proc' after machine') (pml4 : after.pml4 = space.pml4)
    (word : requested < wordLimit) (range : proc.brkRange requested = some (virt, len))
    (kept' : proc.Below proc' space.pml4 virt machine machine')
    (start : proc'.heapStart = proc.heapStart) (stop : proc'.heapEnd = requested)
    (fresh : ∀ addr, InRange virt len addr → proc'.Settled machine'.mem space.pml4 addr
        { vaddr := virt, phys, len, shmId := none })
    (zero : ∀ i, i < len → machine'.mem (phys + i) = 0#8) :
    proc'.Heap requested machine' space.pml4 ∧
      Behaves space.pml4 requested requested proc proc' machine machine' := by
  obtain ⟨low, aligned⟩ := heap.start
  obtain ⟨order, below, bounded⟩ := heap.order
  obtain ⟨asked, first, positive, last⟩ := brkRange_some order range
  have oldWhole := breakTop_mod aligned proc.heapEnd
  have newWhole := breakTop_mod aligned requested
  have old := breakTop_bounds low order bounded
  have new := breakTop_bounds low asked word
  have top : proc'.breakTop requested = proc.breakTop requested := by
    unfold breakTop
    rw [start]
  have freshZero : ∀ addr, InRange virt len addr →
      Loader.readThrough machine'.mem space.pml4 addr = some 0#8 := by
    intro addr within
    have settled := fresh addr within
    rw [← pml4] at settled ⊢
    rw [settled.reads running']
    dsimp only
    rw [zero (addr - virt) (by
      unfold InRange at within
      omega)]
  have oldReads : ∀ addr, proc.heapStart ≤ addr → addr < virt →
      Loader.readThrough machine'.mem space.pml4 addr =
        Loader.readThrough machine.mem space.pml4 addr := by
    intro addr lower upper
    obtain ⟨mapping, settled⟩ := heap.settled addr lower (by omega)
    exact kept'.reads addr mapping upper settled
  constructor
  · constructor
    · rw [start]
      exact heap.start
    · rw [start, stop]
      exact ⟨asked, le_refl _, word⟩
    · rw [start, top]
      intro addr lower upper
      by_cases before : addr < virt
      · obtain ⟨mapping, settled⟩ := heap.settled addr lower (by omega)
        exact ⟨mapping, kept'.settled addr mapping before settled⟩
      · exact ⟨_, fresh addr ⟨by omega, by omega⟩⟩
    · rw [top]
      intro addr lower upper
      exact freshZero addr ⟨by omega, by omega⟩
  · rw [← stop]
    constructor
    · exact fun different => absurd rfl different
    · intro addr lower upper
      exact oldReads addr lower (by omega)
    · intro addr lower upper
      by_cases before : addr < virt
      · rw [oldReads addr (order.trans lower) before]
        exact heap.tail addr lower (by omega)
      · exact freshZero addr ⟨by omega, by omega⟩

theorem Heap.mapped {virt len phys : Nat} {pmm : Pmm} {cleared : Machine} {frames : List Nat}
    {done : Bool} (heap : proc.Heap highest machine space.pml4)
    (running : Running kept proc space machine) (word : requested < wordLimit)
    (climbs : proc.Climbs highest requested) (clear : proc.BrkClear kept machine requested)
    (ran : proc.brk space.pml4 requested machine = (.ok (result, proc'), machine'))
    (range : proc.brkRange requested = some (virt, len))
    (given : machine.pmm.allocContiguous (len / 4096) = (some phys, pmm))
    (zeroed : zeroBytes phys len { machine with pmm } = (.ok (), cleared))
    (mapping : mapRangeIn space.pml4 virt phys len dataFlags
      (proc.frames ++ Pmm.frameRun phys (len / 4096)) cleared = (.ok (done, frames), machine'))
    (record : proc' =
      if done then
        { proc with
          frames
          mappings := proc.mappings ++ [{ vaddr := virt, phys, len, shmId := none }]
          heapEnd := requested }
      else { proc with frames })
    (answer : result = if done then requested else proc.heapEnd) :
    ∃ after : Space, after.pml4 = space.pml4 ∧ Running kept proc' after machine' ∧
      proc'.heapStart = proc.heapStart ∧
      proc'.Heap (max highest proc'.heapEnd) machine' space.pml4 ∧
      Behaves space.pml4 requested result proc proc' machine machine' := by
  obtain ⟨start, aligned⟩ := heap.start
  obtain ⟨order, below, bounded⟩ := heap.order
  obtain ⟨asked, first, positive, last⟩ := brkRange_some order range
  have oldWhole := breakTop_mod aligned proc.heapEnd
  have newWhole := breakTop_mod aligned requested
  have old := breakTop_bounds start order (lt_of_le_of_lt below bounded)
  have new := breakTop_bounds start asked word
  obtain rfl : proc.heapEnd = highest := climbs.resolve_left (by omega)
  obtain ⟨agree, zero, -⟩ := running.block_memory (by omega) (clear.room virt len range) given
    zeroed mapping
  obtain ⟨after, pml4, running', outside, inside⟩ := @Running.brk_mapped _ _ _ _ _ _ _ _ _ _ done _ _
    running (by omega) (clear.room virt len range) range given ran (by
      rw [record]
      split <;> rfl)
  have pages : ∀ addr, addr < identityMapEnd → addr < virt →
      walk machine'.mem space.pml4 addr = walk machine.mem space.pml4 addr := by
    intro addr small before
    exact outside addr small (fun within => by
      unfold InRange at within
      omega)
  cases done with
  | false =>
      have mappings : proc'.mappings = proc.mappings := by rw [record]; rfl
      have startEq : proc'.heapStart = proc.heapStart := by rw [record]; rfl
      have stopEq : proc'.heapEnd = proc.heapEnd := by rw [record]; rfl
      have kept' := @Below.of_memory _ _ _ _ _ _ _ virt running running' pml4
        (fun _ _ => by unfold recordsOf; rw [mappings]) pages agree
      obtain ⟨heap', behaves⟩ := heap.refused (le_of_eq first.symm) kept' startEq stopEq
      refine ⟨after, pml4, running', startEq, ?_, behaves⟩
      rw [stopEq, Nat.max_self]
      exact heap'
  | true =>
      have startEq : proc'.heapStart = proc.heapStart := by rw [record]; rfl
      have stopEq : proc'.heapEnd = requested := by rw [record]; rfl
      have records : ∀ addr, proc'.recordsOf addr = proc.recordsOf addr ++
          (if (⟨virt, phys, len, none⟩ : Mapping).Covers addr then [⟨virt, phys, len, none⟩]
            else []) :=
        fun addr => recordsOf_append addr (by rw [record]; rfl)
      have kept' := @Below.of_memory _ _ _ _ _ _ _ virt running running' pml4
        (fun addr before => by
          rw [records, if_neg (fun covers => Nat.not_le.mpr before covers.1), List.append_nil])
        pages agree
      obtain ⟨heap', behaves⟩ := heap.grown running' pml4 word range kept' startEq stopEq
        (fun addr within => by
          refine ⟨?_, rfl, inside rfl addr within⟩
          rw [records, if_pos (show Mapping.Covers ⟨virt, phys, len, none⟩ addr from within),
            clear.unrecorded virt len range (by
            rw [given]
            simp) addr within, List.nil_append]) zero
      refine ⟨after, pml4, running', startEq, ?_, ?_⟩
      · rw [stopEq, Nat.max_eq_right (by omega)]
        exact heap'
      · obtain rfl : result = requested := answer
        exact behaves

section

variable (heap : proc.Heap highest machine space.pml4)
  (running : Running kept proc space machine)
include heap running

theorem Heap.call (word : requested < wordLimit) (climbs : proc.Climbs highest requested)
    (clear : proc.BrkClear kept machine requested)
    (ran : proc.brk space.pml4 requested machine = (.ok (result, proc'), machine')) :
    ∃ after : Space, after.pml4 = space.pml4 ∧ Running kept proc' after machine' ∧
      proc'.heapStart = proc.heapStart ∧
      proc'.Heap (max highest proc'.heapEnd) machine' space.pml4 ∧
      Behaves space.pml4 requested result proc proc' machine machine' := by
  cases brk_did ran with
  | stayed record memory answer =>
      subst record memory answer
      refine ⟨space, rfl, running, rfl, ?_, ?_⟩
      · rw [Nat.max_eq_left heap.order.2.1]
        exact heap
      · constructor
        · exact fun _ => rfl
        · exact fun _ _ _ => rfl
        · intro addr lower upper
          omega
  | moved above range record memory answer =>
      subst record memory answer
      obtain ⟨heap', behaves⟩ := heap.moved word climbs above range
      exact ⟨space, rfl, ⟨running.hosted.congr rfl, running.owned.congr rfl rfl, running.bounded,
        running.active⟩, rfl, heap', behaves⟩
  | mapped range given zeroed mapping record answer =>
      exact heap.mapped running word climbs clear ran range given zeroed mapping record answer

theorem Heap.store {addr : Nat} {byte : BitVec 8}
    (inside : proc.heapStart ≤ addr ∧ addr < proc.heapEnd)
    (stored : storeThrough space.pml4 addr byte machine = some machine') :
    Running kept proc space machine' ∧ proc.Heap highest machine' space.pml4 := by
  obtain ⟨order, below, bounded⟩ := heap.order
  have top := breakTop_bounds heap.start.1 (order.trans below) bounded
  obtain ⟨mapping, settled⟩ := heap.settled addr inside.1 (by omega)
  obtain ⟨ran, running', walks⟩ := running.storeThrough settled byte
  rw [stored] at ran
  cases ran
  have stays : ∀ other, proc.heapStart ≤ other → other < proc.breakTop highest →
      ∃ mapping', proc.Settled machine.mem space.pml4 other mapping' ∧
        proc.Settled
          (machine.mem.writeByte (mapping.phys + (addr - mapping.vaddr)) byte) space.pml4 other
          mapping' := by
    intro other lower upper
    obtain ⟨mapping', settled'⟩ := heap.settled other lower upper
    have below := (settled'.place running).1
    exact ⟨mapping', settled', settled'.records, settled'.isPrivate,
      (walks other below).trans settled'.page⟩
  refine ⟨running', heap.start, heap.order, ?_, ?_⟩
  · intro other lower upper
    obtain ⟨mapping', -, settled'⟩ := stays other lower upper
    exact ⟨mapping', settled'⟩
  · intro other lower upper
    obtain ⟨mapping', before, settled'⟩ := stays other ((order.trans below).trans lower) upper
    have different : mapping'.phys + (other - mapping'.vaddr) ≠
        mapping.phys + (addr - mapping.vaddr) := by
      intro same
      have equal := before.injective settled running same
      omega
    have zero := heap.tail other lower upper
    rw [before.reads running] at zero
    rw [settled'.reads running']
    simp only [ByteMemory.writeByte, if_neg different]
    exact zero

theorem Heap.elsewhere
    (other : Elsewhere kept
      (fun addr => proc.heapStart ≤ addr ∧ addr < proc.breakTop highest) space.pml4
      proc proc' machine machine') :
    ∃ after : Space, after.pml4 = space.pml4 ∧ Running kept proc' after machine' ∧
      proc'.Heap highest machine' space.pml4 := by
  obtain ⟨start, stop⟩ := other.heap
  obtain ⟨after, pml4, running'⟩ := other.running
  obtain ⟨order, below, bounded⟩ := heap.order
  have top : proc'.breakTop highest = proc.breakTop highest := by
    unfold breakTop
    rw [start]
  have stays : ∀ addr mapping,
      proc.heapStart ≤ addr ∧ addr < proc.breakTop highest →
      proc.Settled machine.mem space.pml4 addr mapping →
      proc'.Settled machine'.mem space.pml4 addr mapping := by
    intro addr mapping region settled
    exact settled.congr (other.records addr region) (other.pages addr region)
  refine ⟨after, pml4, running', ?_, ?_, ?_, ?_⟩
  · rw [start]
    exact heap.start
  · rw [start, stop]
    exact heap.order
  · rw [start, top]
    intro addr lower upper
    obtain ⟨mapping, settled⟩ := heap.settled addr lower upper
    exact ⟨mapping, stays addr mapping ⟨lower, upper⟩ settled⟩
  · rw [top]
    intro addr lower upper
    have region : proc.heapStart ≤ addr ∧ addr < proc.breakTop highest :=
      ⟨(order.trans below).trans lower, upper⟩
    obtain ⟨mapping, settled⟩ := heap.settled addr region.1 region.2
    have later := stays addr mapping region settled
    have zero := heap.tail addr lower upper
    rw [settled.reads running] at zero
    rw [← pml4] at later ⊢
    rw [later.reads running', other.bytes addr mapping region (by
      rw [settled.records]
      exact List.mem_cons_self)]
    exact zero

end

/-- A run of the process from `first` on: its calls of `brk`, the stores of its program into the
heap, and whatever leaves the heap alone.  `highest` is the highest break so far.  Every call
raises the break from there only, and takes pages that nothing else has. -/
inductive BreakRun (kept : Nat → Prop) (pml4 : Nat) (first : Process) (start : Machine) :
    Nat → Process → Machine → Prop where
  | start : BreakRun kept pml4 first start first.heapEnd first start
  | call {highest requested result : Nat} {proc proc' : Process} {machine machine' : Machine}
      (before : BreakRun kept pml4 first start highest proc machine)
      (word : requested < wordLimit) (climbs : proc.Climbs highest requested)
      (clear : proc.BrkClear kept machine requested)
      (ran : proc.brk pml4 requested machine = (.ok (result, proc'), machine')) :
      BreakRun kept pml4 first start (max highest proc'.heapEnd) proc' machine'
  | store {highest addr : Nat} {byte : BitVec 8} {proc : Process} {machine machine' : Machine}
      (before : BreakRun kept pml4 first start highest proc machine)
      (inside : proc.heapStart ≤ addr ∧ addr < proc.heapEnd)
      (stored : storeThrough pml4 addr byte machine = some machine') :
      BreakRun kept pml4 first start highest proc machine'
  | elsewhere {highest : Nat} {proc proc' : Process} {machine machine' : Machine}
      (before : BreakRun kept pml4 first start highest proc machine)
      (other : Elsewhere kept
        (fun addr => proc.heapStart ≤ addr ∧ addr < proc.breakTop highest) pml4
        proc proc' machine machine') :
      BreakRun kept pml4 first start highest proc' machine'

structure FreshHeap (proc : Process) : Prop where
  start : 4096 ≤ proc.heapStart ∧ proc.heapStart % 4096 = 0 ∧ proc.heapStart < wordLimit
  stop : proc.heapEnd = proc.heapStart

theorem FreshHeap.of_loaded {prog : Elf.Program} {heapStart kernelStart kernelEnd : Nat}
    {proc : Process} (accepted : ∀ seg, seg ∈ prog.segments →
      Loader.Accepted kernelStart kernelEnd seg)
    (heap : System.heapStartOf prog.segments = some heapStart)
    (record : System.FillsIn (System.newProcess prog.entry heapStart .linux) proc) :
    proc.FreshHeap := by
  have word : wordLimit = 18446744073709551616 := rfl
  have fourGiB : identityMapEnd = 4294967296 := rfl
  have size : pageSize = 4096 := rfl
  have start : proc.heapStart = heapStart := by
    rw [record]
    rfl
  have stop : proc.heapEnd = heapStart := by
    rw [record]
    rfl
  obtain ⟨seg, member, rfl⟩ := List.mem_map.mp (List.max?_mem heap)
  have below := (accepted seg member).below
  have whole := alignUp_mod (seg.vaddr + seg.memsz)
  have bound : alignUp (seg.vaddr + seg.memsz) < 4294967296 + 4096 := by
    unfold alignUp
    rw [Nat.mod_eq_of_lt (by omega)]
    omega
  constructor
  · rw [start]
    omega
  · rw [start, stop]

theorem FreshHeap.heap (fresh : proc.FreshHeap) (machine : Machine) (pml4 : Nat) :
    proc.Heap proc.heapEnd machine pml4 := by
  obtain ⟨low, aligned, word⟩ := fresh.start
  have empty : proc.breakTop proc.heapEnd = proc.heapStart := by
    unfold breakTop
    rw [fresh.stop, Nat.sub_self]
    rfl
  constructor
  · exact ⟨low, aligned⟩
  · rw [fresh.stop]
    exact ⟨le_refl _, le_refl _, word⟩
  · intro addr lower upper
    omega
  · intro addr lower upper
    rw [fresh.stop] at lower
    omega

theorem BreakRun.heap {first : Process} {start : Machine} (fresh : first.FreshHeap)
    (running : Running kept first space start)
    (run : BreakRun kept space.pml4 first start highest proc machine) :
    ∃ current : Space, current.pml4 = space.pml4 ∧ Running kept proc current machine ∧
      proc.Heap highest machine space.pml4 := by
  induction run with
  | start => exact ⟨space, rfl, running, fresh.heap start space.pml4⟩
  | call before word climbs clear ran ih =>
      obtain ⟨current, pml4, running, heap⟩ := ih
      rw [← pml4] at heap ran ⊢
      obtain ⟨after, same, running', -, heap', -⟩ := heap.call running word climbs clear ran
      exact ⟨after, same, running', heap'⟩
  | store before inside stored ih =>
      obtain ⟨current, pml4, running, heap⟩ := ih
      rw [← pml4] at heap stored ⊢
      obtain ⟨running', heap'⟩ := heap.store running inside stored
      exact ⟨current, rfl, running', heap'⟩
  | elsewhere before other ih =>
      obtain ⟨current, pml4, running, heap⟩ := ih
      rw [← pml4] at heap other ⊢
      exact heap.elsewhere running other

/-- The heap of a process as loaded is fresh.  In every run from there in which the break is raised
from its highest place only, all pages below it are on record once and mapped as recorded, and
the next call does what it is to do. -/
theorem break_behaves {kept : Nat → Prop} {space : Space} :
    (∀ {prog : Elf.Program} {heapStart kernelStart kernelEnd : Nat} {proc : Process},
      (∀ seg, seg ∈ prog.segments → Loader.Accepted kernelStart kernelEnd seg) →
      System.heapStartOf prog.segments = some heapStart →
      System.FillsIn (System.newProcess prog.entry heapStart .linux) proc → proc.FreshHeap) ∧
    ∀ {first proc : Process} {start machine : Machine} {highest : Nat},
      first.FreshHeap → Running kept first space start →
      BreakRun kept space.pml4 first start highest proc machine →
      (∀ addr, proc.heapStart ≤ addr → addr < proc.breakTop proc.heapEnd →
        ∃ mapping, proc.Settled machine.mem space.pml4 addr mapping) ∧
      ∀ requested, requested < wordLimit → proc.Climbs highest requested →
        proc.BrkClear kept machine requested →
        ∃ result proc' machine',
          proc.brk space.pml4 requested machine = (.ok (result, proc'), machine') ∧
          Behaves space.pml4 requested result proc proc' machine machine' := by
  refine ⟨fun accepted heap record => .of_loaded accepted heap record, ?_⟩
  intro first proc start machine highest fresh running run
  obtain ⟨current, pml4, running, heap⟩ := run.heap fresh running
  rw [← pml4] at heap ⊢
  obtain ⟨order, below, bounded⟩ := heap.order
  constructor
  · intro addr lower upper
    refine heap.settled addr lower ?_
    have low := heap.start.1
    have whole := breakTop_mod heap.start.2 proc.heapEnd
    have wholeTop := breakTop_mod heap.start.2 highest
    have inner := breakTop_bounds low order (lt_of_le_of_lt below bounded)
    have outer := breakTop_bounds low (order.trans below) bounded
    omega
  · intro requested word climbs clear
    obtain ⟨result, proc', machine', ran, -⟩ := running.hosted.brk_outcome running.owned
      running.bounded running.active clear.room
    obtain ⟨-, -, -, -, -, behaves⟩ := heap.call running word climbs clear ran
    exact ⟨result, proc', machine', ran, behaves⟩

end

end Process

namespace Boot

open Process

/-! ### A program and its heap -/

/-- A process in the RAM of `ofRam length`, with `count` frames to spare there. -/
structure Sole (length count : Nat) (proc : Process) (space : Space) (machine : Machine) :
    Prop where
  running : Running lowRam proc space machine
  free : ∀ frame, machine.pmm.Free frame → (ofRam length).initialPmm.Free frame
  mine : ∀ frame, frame ∈ proc.frames → lowRam frame
  stock : Pmm.Stock (fun frame => ¬ gigabyteCover frame) True count machine.pmm

section

variable {length count : Nat} {sys : System} {proc : Process} {space : Space}
  {machine : Machine}

theorem Alone.sole (alone : Alone length sys proc space) (fits : RamFits length) :
    Sole length 2048 proc space sys.machine := by
  constructor
  · exact alone.running
  · exact alone.ledger.freePool
  · exact fun _ mine => alone.lowRam_frames fits mine
  · exact alone.stock

theorem Sole.of_le {few : Nat} (sole : Sole length count proc space machine)
    (fewer : few ≤ count) : Sole length few proc space machine :=
  ⟨sole.running, sole.free, sole.mine, sole.stock.of_le fewer⟩

theorem Sole.moved (sole : Sole length count proc space machine) (heapEnd : Nat) :
    Sole length count { proc with heapEnd } space machine :=
  ⟨⟨sole.running.hosted.congr rfl, sole.running.owned.congr rfl rfl, sole.running.bounded,
    sole.running.active⟩, sole.free, sole.mine, sole.stock⟩

theorem Alone.heap (alone : Alone length sys proc space) :
    proc.heapStart = 0x40002000 ∧ proc.heapEnd = 0x40002000 := by
  have record := alone.record
  unfold System.FillsIn at record
  rw [record]
  exact ⟨rfl, rfl⟩

theorem Sole.room {virt len : Nat}
    (sole : Sole length (len / 4096 + blocksTouched virt len + count) proc space machine)
    (fits : RamFits length) (apart : ∀ addr, lowRam addr → ¬ InRange virt len addr) :
    proc.Room lowRam machine virt len :=
  room_of_stock fits sole.running.hosted sole.running.active sole.free sole.mine
    (sole.stock.of_le (Nat.le_add_right _ _)) apart apart

theorem Sole.brk {requested virt len : Nat}
    (sole : Sole length (len / 4096 + blocksTouched virt len + count) proc space machine)
    (fits : RamFits length) (range : proc.brkRange requested = some (virt, len))
    (valid : ValidRange virt len)
    (apart : ∀ addr, lowRam addr → ¬ InRange virt len addr) :
    ∃ phys proc' machine' after,
      proc.brk space.pml4 requested machine = (.ok (requested, proc'), machine') ∧
      after.pml4 = space.pml4 ∧ Sole length count proc' after machine' ∧
      proc'.mappings = proc.mappings ++ [{ vaddr := virt, phys, len, shmId := none }] ∧
      proc'.heapStart = proc.heapStart ∧ proc'.heapEnd = requested := by
  have running := sole.running
  have some' : 0 < len / 4096 := by
    obtain ⟨-, whole, positive, -⟩ := valid
    omega
  have room := sole.room fits apart
  have stocked := sole.stock
  rw [Nat.add_assoc] at stocked
  obtain ⟨result, proc', machine', ran, outcome⟩ :=
    running.hosted.brk_outcome running.owned running.bounded running.active
      (fun other size same => by
        rw [range] at same
        cases same
        exact room)
  rw [range] at outcome
  cases outcome with
  | nothing books memory reason =>
      rcases given : machine.pmm.allocContiguous (len / 4096) with ⟨_ | phys, pmm⟩
      · exact absurd trivial (stocked.allocContiguous_none some' given)
      · have none' := reason virt len rfl
        rw [given] at none'
        cases none'
  | @mapped _ _ phys pmm done pages later same whole given outcome enough =>
      cases same
      obtain ⟨-, rest⟩ := stocked.allocContiguous_some given
      obtain rfl : done = true := enough valid
        ((rest.of_le (Nat.le_add_right _ _)).stocked trivial)
      obtain ⟨fresh, books⟩ := outcome.books
      have mappings : proc'.mappings = proc.mappings ++ [⟨virt, phys, len, none⟩] :=
        congrArg Books.mappings books
      cases brk_did ran with
      | stayed record memory answer =>
          rw [record] at mappings
          exact absurd (congrArg List.length mappings) (by simp)
      | moved above none' record memory answer =>
          rw [range] at none'
          cases none'
      | @mapped _ _ phys' pmm' cleared frames done same given' zeroed mapping record answer =>
          rw [range] at same
          cases same
          rw [given] at given'
          cases given'
          cases done with
          | false =>
              rw [record] at mappings
              exact absurd (congrArg List.length mappings) (by simp)
          | true =>
              obtain rfl : result = requested := answer
              obtain ⟨after, pml4, running', -⟩ := @Running.brk_mapped _ _ _ _ _ _ _ _ _ _ true _ _
                running valid.1 room range given ran mappings
              obtain ⟨-, -, tables, few, books'⟩ :=
                running.block_memory whole room given zeroed mapping
              obtain ⟨⟨added, taken, grown, -⟩, -⟩ := brk_adds ran
              refine ⟨phys, proc', machine', after, ran, pml4, ⟨running', ?_, ?_, ?_⟩, mappings,
                ?_, ?_⟩
              · intro frame free
                exact sole.free frame ((grown.takes.free frame).mp free).1
              · intro frame mine
                have outside := (running'.hosted.kernel frame (Or.inl mine)).2
                rw [grown.frames] at mine
                rcases List.mem_append.mp mine with old | new
                · exact sole.mine frame old
                · exact lowRam_of_pool fits (sole.free frame (grown.takes.wasFree frame new))
                    (fun inStack => outside (Or.inr inStack))
              · rw [books']
                have left := rest.of_le (show tables + count ≤ _ + count by omega)
                exact left.allocs
              · rw [record]
                rfl
              · rw [record]
                rfl

theorem Alone.unrecorded (alone : Alone length sys proc space) {addr : Nat}
    (behind : 0x40001000 ≤ addr) : proc.recordsOf addr = [] := by
  have top : Process.userStackTop = 0x10000000 := rfl
  unfold recordsOf
  apply List.filter_eq_nil_iff.mpr
  intro mapping member covers
  rw [decide_eq_true_eq] at covers
  obtain ⟨lower, upper⟩ := covers
  have range := List.mem_map_of_mem (f := Mapping.range) member
  rw [alone.mappings, linuxRanges_gigabyte] at range
  have stop : (Mapping.range mapping).2 ≤ 0x40001000 := by
    simp only [List.mem_cons, List.not_mem_nil, or_false] at range
    rcases range with same | same
    · rw [same]
    · rw [same, top]
      decide
  have length : (Mapping.range mapping).2 = mapping.vaddr + mapping.len := rfl
  omega

theorem brkRange_page (heap : proc.heapStart = 0x40002000 ∧ proc.heapEnd = 0x40002000) :
    proc.brkRange 0x40003000 = some (0x40002000, 4096) := by
  unfold brkRange
  rw [heap.1, heap.2]
  rfl

theorem brk_back (heap : proc.heapStart = 0x40002000 ∧ proc.heapEnd = 0x40003000)
    (pml4 : Nat) (machine : Machine) : proc.brk pml4 0x40002000 machine =
      (.ok (0x40002000, { proc with heapEnd := 0x40002000 }), machine) := by
  unfold Process.brk
  rw [heap.1, heap.2]
  rfl

theorem covers_start {mapping : Mapping} (positive : 0 < mapping.len) :
    mapping.Covers mapping.vaddr :=
  ⟨le_refl _, Nat.lt_add_of_pos_right positive⟩

theorem valid_page {virt : Nat} (aligned : virt % 4096 = 0) (below : virt ≤ 0x40010000) :
    ValidRange virt 4096 := by
  have fourGiB : identityMapEnd = 4294967296 := rfl
  refine ⟨aligned, rfl, by decide, ?_⟩
  omega

theorem apart_page {virt : Nat} (above : 0x40002000 ≤ virt) :
    ∀ addr, lowRam addr → ¬ InRange virt 4096 addr := by
  rintro addr ⟨-, upper⟩ ⟨lower, -⟩
  omega

end

/-- Grown, shrunk and grown again, the first page of the heap is on record twice. -/
theorem break_mapped_twice : ∃ (sys : System) (proc : Process) (space : Space)
    (grown again : Process) (machine machine' : Machine),
    (ofRam 0xFF00000).run gigabyteEvents = some sys ∧
    sys.currentProcess = some (space.pml4, proc) ∧
    proc.brk space.pml4 0x40003000 sys.machine = (.ok (0x40003000, grown), machine) ∧
    grown.brk space.pml4 0x40002000 machine =
      (.ok (0x40002000, { grown with heapEnd := 0x40002000 }), machine) ∧
    Process.brk { grown with heapEnd := 0x40002000 } space.pml4 0x40003000 machine =
      (.ok (0x40003000, again), machine') ∧
    (again.recordsOf 0x40002000).length = 2 := by
  obtain ⟨sys, proc, space, ran, alone⟩ := ofRam_alone plain_fits
  have heap := alone.heap
  have valid := valid_page (show 0x40002000 % 4096 = 0 by decide) (by decide)
  have apart := apart_page (le_refl 0x40002000)
  obtain ⟨phys, grown, machine, space₁, first, pml4, sole, mappings, start, stop⟩ :=
    Sole.brk ((alone.sole plain_fits).of_le (show 1 + 1 + (1 + 1 + 0) ≤ 2048 by decide)) plain_fits
      (brkRange_page heap) valid apart
  have back := brk_back ⟨start.trans heap.1, stop⟩ space.pml4 machine
  obtain ⟨phys', again, machine', space₂, second, -, -, mappings', -, -⟩ :=
    Sole.brk (sole.moved 0x40002000) plain_fits
      (@brkRange_page { grown with heapEnd := 0x40002000 } ⟨start.trans heap.1, rfl⟩) valid apart
  rw [pml4] at second
  refine ⟨sys, proc, space, grown, again, machine, machine', ran, alone.calling, first, back,
    second, ?_⟩
  have before := alone.unrecorded (show 0x40001000 ≤ 0x40002000 by decide)
  rw [recordsOf_append _ mappings', if_pos (covers_start (show 0 < 4096 by decide))]
  have once := recordsOf_append 0x40002000 mappings
  rw [before, if_pos (covers_start (show 0 < 4096 by decide))] at once
  rw [List.length_append]
  exact congrArg (fun records => List.length records + 1) once

theorem break_behaves_grown : ∃ (proc : Process) (space : Space) (machine : Machine)
    (result : Nat) (proc' : Process) (machine' : Machine),
    proc.heapEnd = 0x40003000 ∧
    (∀ addr, 0x40002000 ≤ addr → addr < 0x40003000 →
      ∃ mapping, proc.Settled machine.mem space.pml4 addr mapping) ∧
    proc.brk space.pml4 0x40003800 machine = (.ok (result, proc'), machine') ∧
    Behaves space.pml4 0x40003800 result proc proc' machine machine' := by
  obtain ⟨sys, proc, space, ran, alone⟩ := ofRam_alone plain_fits
  obtain ⟨startEq, stopEq⟩ := alone.heap
  have valid := valid_page (show 0x40002000 % 4096 = 0 by decide) (by decide)
  have apart := apart_page (le_refl 0x40002000)
  have alone' := (alone.sole plain_fits).of_le (show 1 + 1 + (1 + 1 + 0) ≤ 2048 by decide)
  obtain ⟨phys, grown, machine, space₁, first, pml4, sole, mappings, start, stop⟩ :=
    Sole.brk alone' plain_fits (brkRange_page alone.heap) valid apart
  have clear : proc.BrkClear lowRam sys.machine 0x40003000 := by
    constructor
    · intro virt len range
      rw [brkRange_page alone.heap] at range
      cases range
      exact alone'.room plain_fits apart
    · intro virt len range _ addr within
      rw [brkRange_page alone.heap] at range
      cases range
      exact alone.unrecorded (le_trans (by decide) within.1)
  have run : BreakRun lowRam space.pml4 proc sys.machine _ grown machine :=
    .call .start (by decide) (Or.inr rfl) clear first
  obtain ⟨loaded, behaves⟩ := @break_behaves lowRam space
  have fresh := @loaded Elf.gigabyteProgram _ _ _ _
    (Loader.validateSegments_ok (show Loader.validateSegments 0x4000000 0x6800000 _ = .ok () by
      decide +kernel))
    (show _ = some 0x40002000 by decide +kernel) alone.record
  obtain ⟨settled, behaves⟩ := behaves fresh alone'.running run
  have range : grown.brkRange 0x40003800 = some (0x40003000, 4096) := by
    unfold brkRange
    rw [start, startEq, stop]
    rfl
  have top : grown.breakTop grown.heapEnd = 0x40003000 := by
    unfold breakTop
    rw [start, startEq, stop]
    rfl
  rw [start, startEq, top] at settled
  obtain ⟨result, proc', machine', called, did⟩ := behaves 0x40003800 (by decide)
    (Or.inr (by rw [stopEq, stop]; rfl)) (by
      constructor
      · intro virt len same
        rw [range] at same
        cases same
        exact sole.room plain_fits (apart_page (by decide))
      · intro virt len same _ addr within
        rw [range] at same
        cases same
        rw [recordsOf_append _ mappings, alone.unrecorded (le_trans (by decide) within.1),
          if_neg (fun covers => absurd covers.2 (Nat.not_lt.mpr within.1))]
        rfl)
  exact ⟨grown, space, machine, result, proc', machine', stop, settled, called, did⟩

end Boot
end MachaOS
