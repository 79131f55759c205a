/-
What a process does to its own memory, one act at a time.

`run` is the part of a system call or a page fault that works on the memory of the
process.  `Change` says what an act has done to the record and to the page table;
everything the acts keep is read off it.
-/

import MachaOS.Process.Operations

namespace MachaOS

open Fallible Machine Paging

inductive MemoryAct where
  | brk (requested : Nat)
  | mmap (at' : Option Nat) (len : Nat) (writable executable : Bool)
      (content : Option (List (BitVec 8)))
  | mmapShared (at' : Option Nat) (table : Shm.Table) (shmId : Nat) (writable executable : Bool)
  | munmap (addr len : Nat)
  | mprotect (addr len : Nat) (writable executable : Bool)
  | grow (faultAddr : Nat)

namespace MemoryAct

def run : MemoryAct → Process → Nat → Kernel Process
  | .brk requested, proc, pml4 => do
      let (_, proc) ← proc.brk pml4 requested
      pure proc
  | .mmap at' len writable executable content, proc, pml4 => do
      let (_, proc) ← proc.mmapWithContent pml4 at' len writable executable content
      pure proc
  | .mmapShared at' table shmId writable executable, proc, pml4 => do
      let (_, proc) ← proc.mmapShared pml4 at' table shmId writable executable
      pure proc
  | .munmap addr len, proc, pml4 => do
      let (_, proc) ← proc.munmap pml4 addr len
      pure proc
  | .mprotect addr len writable executable, proc, pml4 => do
      let (_, proc) ← proc.mprotect pml4 addr len writable executable
      pure proc
  | .grow faultAddr, proc, pml4 => do
      let (_, proc) ← proc.tryGrowStack pml4 faultAddr
      pure proc

def range : MemoryAct → Process → Option (Nat × Nat)
  | .brk requested, proc => proc.brkRange requested
  | .mmap at' len _ _ _, proc => proc.mmapRange at' (alignUp (max len 1))
  | .mmapShared at' table shmId _ _, proc =>
      (Shm.pagesOf table shmId).bind (fun pages => proc.mmapRange at' (pages * 4096))
  | _, _ => none

def flags : MemoryAct → BitVec 64
  | .mmap _ _ writable executable _ | .mmapShared _ _ _ writable executable
  | .mprotect _ _ writable executable => Process.protFlags writable executable
  | _ => Process.dataFlags

/-- The kernel can reach the frames it works on through their own addresses, and the request
maps none of them, and nothing of `kept`. -/
def Safe (kept : Nat → Prop) (act : MemoryAct) (proc : Process) (machine : Machine) : Prop :=
  ∀ virt len, act.range proc = some (virt, len) →
    match act with
    | .mmapShared _ _ _ _ _ => proc.Clears kept machine virt len machine.pmm
    | _ => proc.Room kept machine virt len

def InMemory : MemoryAct → Prop
  | .mmapShared _ table shmId _ _ => ∀ phys pages, Shm.physOf table shmId = some phys →
      Shm.pagesOf table shmId = some pages → pages * 4096 ≠ 0 →
      phys % 4096 = 0 ∧ phys + pages * 4096 ≤ 2 ^ 52
  | _ => True

def Backs (act : MemoryAct) (machine : Machine) (mapping : Mapping) (block : List Nat) (pmm : Pmm) :
    Prop :=
  (mapping.shmId = none ∧ block = mapping.run ∧
    machine.pmm.allocContiguous (mapping.len / 4096) = (some mapping.phys, pmm)) ∨
  (∃ at' table shmId writable executable,
    act = .mmapShared at' table shmId writable executable ∧ mapping.Shares table shmId ∧
      block = [] ∧ pmm = machine.pmm)

inductive Change (act : MemoryAct) (proc proc' : Process) (machine : Machine)
    (space after : Space) : Prop where
  | unchanged (books : proc'.books = proc.books) (same : after = space)
  | mapped {mapping : Mapping} {block fresh : List Nat} {pmm : Pmm} {done : Bool} {pages : Nat}
      (range : act.range proc = some (mapping.vaddr, mapping.len))
      (whole : mapping.len % 4096 = 0)
      (backs : act.Backs machine mapping block pmm)
      (books : proc'.books =
        { frames := proc.frames ++ block ++ fresh
          mappings := if done then proc.mappings ++ [mapping] else proc.mappings
          stackLow := proc.stackLow
          stackPhysBase := proc.stackPhysBase })
      (remaps : Hosted.Remaps space after mapping.vaddr mapping.phys mapping.len act.flags done
        pages)
      (stocked : ValidRange mapping.vaddr mapping.len →
        Pmm.Stocked (blocksTouched mapping.vaddr mapping.len) pmm → done = true)
  | grown {faultAddr newLow : Nat} (asked : act = .grow faultAddr)
      (low : newLow = alignDown faultAddr) (aligned : newLow % 4096 = 0)
      (inside : Process.userStackLowLimit ≤ newLow ∧ newLow < proc.stackLow)
      (books : proc'.books =
        { frames := proc.frames
          mappings := proc.mappings
          stackLow := newLow
          stackPhysBase := proc.stackPhysBase })
      (remaps : Hosted.Remaps space after newLow (proc.stackPhysFor newLow)
        (proc.stackLow - newLow) Process.dataFlags true ((proc.stackLow - newLow) / 4096))
  /-- The first `changed` pages of the range were mapped again. -/
  | reprotected {addr len changed : Nat} {writable executable : Bool} {fresh : List Nat}
      (asked : act = .mprotect addr len writable executable)
      (books : proc'.books =
        { frames := proc.frames ++ fresh
          mappings := proc.mappings
          stackLow := proc.stackLow
          stackPhysBase := proc.stackPhysBase })
      (recorded : ∀ index, index < changed →
        proc.translateLocal (alignDown addr + index * 4096) 4096 ≠ none)
      (views : ∀ page, page < 2 ^ 20 → after.view page =
        if alignDown addr / 4096 ≤ page ∧ page < alignDown addr / 4096 + changed then
          (proc.translateLocal (page * 4096) 4096).map (leafFor act.flags)
        else space.view page)
  | unmapped {addr len : Nat} (asked : act = .munmap addr len)
      (mappings : proc'.mappings = proc.mappings.filter (fun mapping =>
        !decide (Process.Covered (alignDown addr)
          ((alignDown addr + alignUp (max len 1)) % wordLimit) mapping)))
      (remaining : Hosted.Remaining (alignDown addr)
        ((alignDown addr + alignUp (max len 1)) % wordLimit) proc.mappings proc.frames
        proc'.frames)
      (cleared : Hosted.Cleared (alignDown addr)
        ((alignDown addr + alignUp (max len 1)) % wordLimit) proc.mappings space after)
      (stack : proc'.stackLow = proc.stackLow ∧
        proc'.stackPhysBase = proc.stackPhysBase)

end MemoryAct

namespace Hosted

variable {kept : Nat → Prop} {proc : Process} {space : Space} {machine : Machine}

def Acts (kept : Nat → Prop) (act : MemoryAct) (proc : Process) (space : Space)
    (machine : Machine) : Prop :=
  ∃ proc' machine' after,
    act.run proc space.pml4 machine = (.ok proc', machine') ∧
    Hosted kept proc' after machine'.mem ∧ after.pml4 = space.pml4 ∧
    machine'.cr3 = machine.cr3 ∧ Writes proc machine machine' ∧
    act.Change proc proc' machine space after

theorem acts_of_block {act : MemoryAct} {proc' : Process} {machine' : Machine}
    (hosted : Hosted kept proc space machine.mem)
    (ran : act.run proc space.pml4 machine = (.ok proc', machine'))
    (outcome : BlockOutcome kept proc proc' space machine machine' (act.range proc)
      act.flags) : Acts kept act proc space machine := by
  cases outcome with
  | nothing books machine_eq reason =>
      subst machine_eq
      exact ⟨proc', _, space, ran, hosted.congr books, rfl, rfl,
        Space.AgreeOutside.refl _ _, .unchanged books rfl⟩
  | @mapped virt len phys pmm done pages after range_eq whole given outcome stocked =>
      obtain ⟨fresh, books⟩ := outcome.books
      exact ⟨proc', machine', after, ran, outcome.hosted, outcome.pml4, outcome.cr3,
        outcome.writes, @MemoryAct.Change.mapped act proc proc' machine space after
          ⟨virt, phys, len, none⟩ _ fresh pmm done pages range_eq whole
          (Or.inl ⟨rfl, rfl, given⟩) books outcome.remaps stocked⟩

theorem acts (hosted : Hosted kept proc space machine.mem)
    (owned : OwnedBy machine.pmm proc) (bounded : machine.pmm.Bounded)
    (active : machine.cr3 = space.pml4) (act : MemoryAct) (safe : act.Safe kept proc machine)
    (inMemory : act.InMemory) : Acts kept act proc space machine := by
  cases act with
  | brk requested =>
      obtain ⟨result, proc', machine', ran, outcome⟩ :=
        hosted.brk_outcome owned bounded active safe
      refine hosted.acts_of_block ?_ outcome
      rw [MemoryAct.run, bind_of_ok ran]
      rfl
  | mmap at' len writable executable content =>
      obtain ⟨result, proc', machine', ran, outcome⟩ :=
        @mmapWithContent_outcome _ _ _ _ hosted owned bounded active at' len writable executable
          content safe
      refine hosted.acts_of_block ?_ outcome
      rw [MemoryAct.run, bind_of_ok ran]
      rfl
  | mmapShared at' table shmId writable executable =>
      obtain ⟨result, proc', machine', ran, outcome⟩ :=
        @mmapShared_outcome _ _ _ _ hosted owned bounded active at' table shmId writable executable
          inMemory
          (fun pages virt whole found range => safe virt whole (by
            rw [MemoryAct.range, found]
            exact range))
      have whole : MemoryAct.run (.mmapShared at' table shmId writable executable) proc
          space.pml4 machine = (.ok proc', machine') := by
        rw [MemoryAct.run, bind_of_ok ran]
        rfl
      cases outcome with
      | nothing books machine_eq =>
          subst machine_eq
          exact ⟨proc', _, space, whole, hosted.congr books, rfl, rfl,
            Space.AgreeOutside.refl _ _, .unchanged books rfl⟩
      | @mapped virt phys pages done mapped after backing range_eq outcome stocked =>
          obtain ⟨fresh, books⟩ := outcome.books
          have count : Shm.pagesOf table shmId = some (pages * 4096 / 4096) := by
            rw [backing.2, Nat.mul_div_cancel _ (by decide)]
          refine ⟨proc', machine', after, whole, outcome.hosted, outcome.pml4, outcome.cr3,
            outcome.writes, @MemoryAct.Change.mapped _ proc proc' machine space after
              ⟨virt, phys, pages * 4096, some shmId⟩ [] fresh machine.pmm done mapped ?_
              (Nat.mul_mod_left _ _) (Or.inr ⟨at', table, shmId, writable, executable, rfl, ⟨rfl, backing.1, count⟩,
                rfl, rfl⟩) books
              outcome.remaps stocked⟩
          rw [MemoryAct.range, backing.2]
          exact range_eq
  | munmap addr len =>
      obtain ⟨proc', machine', after, ran, hosted', pml4, cr3, agree, mappings, remaining,
        cleared, low, base⟩ := @munmap_outcome _ _ _ _ hosted owned active addr len
      refine ⟨proc', machine', after, ?_, hosted', pml4, cr3,
        agree.mono (fun _ mem => Or.inl mem),
        .unmapped rfl mappings remaining cleared ⟨low, base⟩⟩
      rw [MemoryAct.run, bind_of_ok ran]
      rfl
  | mprotect addr len writable executable =>
      obtain ⟨done, proc', machine', after, changed, ran, outcome, -, -⟩ :=
        @mprotect_outcome _ _ _ _ hosted owned bounded active addr len writable executable
      obtain ⟨fresh, books⟩ := outcome.books
      refine ⟨proc', machine', after, ?_, outcome.hosted, outcome.pml4, outcome.cr3,
        outcome.writes, .reprotected rfl books outcome.recorded outcome.views⟩
      rw [MemoryAct.run, bind_of_ok ran]
      rfl
  | grow faultAddr =>
      obtain ⟨done, proc', machine', ran, either⟩ :=
        @tryGrowStack_outcome _ _ _ _ hosted owned active faultAddr
      have whole : MemoryAct.run (.grow faultAddr) proc space.pml4 machine =
          (.ok proc', machine') := by
        rw [MemoryAct.run, bind_of_ok ran]
        rfl
      rcases either with ⟨-, same, machine_eq, -⟩ | ⟨-, after, outcome⟩
      · subst same machine_eq
        exact ⟨_, _, space, whole, hosted, rfl, rfl, Space.AgreeOutside.refl _ _,
          .unchanged rfl rfl⟩
      · exact ⟨proc', machine', after, whole, outcome.hosted, outcome.pml4, outcome.cr3,
          outcome.writes, .grown rfl rfl outcome.aligned outcome.inside outcome.books
            outcome.remaps⟩

end Hosted
end MachaOS
