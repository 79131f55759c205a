/-
Regions of the address space of a running process.

What the process has on record for an address is the list of mappings that cover it.
An address is settled if there is one, and the page table leads where it says.  What
the kernel does to other pages, and what ring 3 stores at other addresses, leaves the
byte behind a settled address alone.
-/

import MachaOS.ImageBytes
import MachaOS.PrivateFrames

namespace MachaOS

open Fallible Machine Paging

instance (mapping : Mapping) (addr : Nat) : Decidable (mapping.Covers addr) :=
  inferInstanceAs (Decidable (_ ∧ _))

structure Running (kept : Nat → Prop) (proc : Process) (space : Space) (machine : Machine) :
    Prop where
  hosted : Hosted kept proc space machine.mem
  owned : OwnedBy machine.pmm proc
  bounded : machine.pmm.Bounded
  active : machine.cr3 = space.pml4

def storeThrough (pml4 addr : Nat) (byte : BitVec 8) (machine : Machine) : Option Machine :=
  match walk machine.mem pml4 addr with
  | some leaf =>
      if leaf.user && leaf.writable then
        some { machine with mem := machine.mem.writeByte (leaf.phys + addr % 4096) byte }
      else none
  | none => none

namespace Process

def recordsOf (proc : Process) (addr : Nat) : List Mapping :=
  proc.mappings.filter (fun mapping => decide (mapping.Covers addr))

/-- `mapping` alone is on record for the address, and the page leads where it says, open to ring
3 for data. -/
structure Settled (proc : Process) (mem : ByteMemory) (pml4 addr : Nat) (mapping : Mapping) :
    Prop where
  records : proc.recordsOf addr = [mapping]
  isPrivate : mapping.shmId = none
  page : walk mem pml4 addr =
    some (leafFor dataFlags (mapping.phys + (addr / 4096 * 4096 - mapping.vaddr)))

/-- Something happened that left the region alone: what is on record for it, where its pages
lead, and the bytes behind the record. -/
structure Elsewhere (kept region : Nat → Prop) (pml4 : Nat) (proc proc' : Process)
    (machine machine' : Machine) : Prop where
  heap : proc'.heapStart = proc.heapStart ∧ proc'.heapEnd = proc.heapEnd
  stack : proc'.stackLow = proc.stackLow ∧ proc'.stackPhysBase = proc.stackPhysBase
  records : ∀ addr, region addr → proc'.recordsOf addr = proc.recordsOf addr
  pages : ∀ addr, region addr →
    walk machine'.mem pml4 addr = walk machine.mem pml4 addr
  bytes : ∀ addr mapping, region addr → mapping ∈ proc.recordsOf addr →
    machine'.mem (mapping.phys + (addr - mapping.vaddr)) =
      machine.mem (mapping.phys + (addr - mapping.vaddr))
  running : ∃ space : Space, space.pml4 = pml4 ∧ Running kept proc' space machine'

theorem mem_recordsOf {proc : Process} {addr : Nat} {mapping : Mapping} :
    mapping ∈ proc.recordsOf addr ↔
      mapping ∈ proc.mappings ∧ mapping.Covers addr := by
  unfold recordsOf
  rw [List.mem_filter, decide_eq_true_eq]

theorem recordsOf_append {proc proc' : Process} {mapping : Mapping} (addr : Nat)
    (added : proc'.mappings = proc.mappings ++ [mapping]) :
    proc'.recordsOf addr =
      proc.recordsOf addr ++ (if mapping.Covers addr then [mapping] else []) := by
  unfold recordsOf
  rw [added, List.filter_append, List.filter_cons, List.filter_nil]
  simp only [decide_eq_true_eq]

end Process

namespace Running

variable {kept : Nat → Prop} {proc : Process} {space : Space} {machine : Machine}
  {mapping : Mapping}

theorem inRun {addr : Nat} (running : Running kept proc space machine)
    (member : mapping ∈ proc.mappings) (covers : mapping.Covers addr) :
    (mapping.phys + (addr - mapping.vaddr)) / 4096 * 4096 ∈ mapping.run := by
  obtain ⟨⟨aligned, whole, -, -⟩, physAligned, -⟩ := running.hosted.placed mapping member
  obtain ⟨lower, upper⟩ := covers
  exact Pmm.mem_frameRun.mpr ⟨(addr - mapping.vaddr) / 4096, by omega, by omega⟩

theorem apart {frame : Nat} (running : Running kept proc space machine)
    (member : mapping ∈ proc.mappings) (isPrivate : mapping.shmId = none)
    (inside : frame ∈ mapping.run) : ¬ (space.Owns frame ∨ machine.pmm.Free frame) := by
  rintro (owns | free)
  · exact running.hosted.spare _ owns mapping member isPrivate inside
  · exact (running.owned.held _ (running.owned.backed mapping member isPrivate _ inside)).2.2.2 free

end Running

namespace Process.Settled

variable {kept : Nat → Prop} {proc proc' : Process} {space : Space}
  {machine machine' : Machine} {addr : Nat} {mapping : Mapping}

theorem member (settled : proc.Settled machine.mem space.pml4 addr mapping) :
    mapping ∈ proc.mappings ∧ mapping.Covers addr := by
  apply mem_recordsOf.mp
  rw [settled.records]
  exact List.mem_cons_self

section

variable (settled : proc.Settled machine.mem space.pml4 addr mapping)
  (running : Running kept proc space machine)
include settled running

theorem place :
    addr < identityMapEnd ∧ mapping.vaddr % 4096 = 0 ∧ mapping.vaddr ≤ addr ∧
      addr < mapping.vaddr + mapping.len ∧ mapping.len % 4096 = 0 ∧ mapping.phys % 4096 = 0 := by
  obtain ⟨inRecord, lower, upper⟩ := settled.member
  obtain ⟨⟨aligned, whole, -, below⟩, physAligned, -⟩ := running.hosted.placed mapping inRecord
  exact ⟨by omega, aligned, lower, upper, whole, physAligned⟩

theorem inRun : (mapping.phys + (addr - mapping.vaddr)) / 4096 * 4096 ∈ mapping.run :=
  running.inRun settled.member.1 settled.member.2

theorem apart :
    ¬ (space.Owns ((mapping.phys + (addr - mapping.vaddr)) / 4096 * 4096) ∨
      machine.pmm.Free ((mapping.phys + (addr - mapping.vaddr)) / 4096 * 4096)) :=
  running.apart settled.member.1 settled.isPrivate (settled.inRun running)

end

theorem reads (settled : proc.Settled machine.mem space.pml4 addr mapping)
    (running : Running kept proc space machine) :
    Loader.readThrough machine.mem space.pml4 addr =
      some (machine.mem (mapping.phys + (addr - mapping.vaddr))) := by
  obtain ⟨-, aligned, lower, -, -, -⟩ := settled.place running
  unfold Loader.readThrough
  rw [settled.page, Option.map_some]
  dsimp only [leafFor]
  rw [show mapping.phys + (addr / 4096 * 4096 - mapping.vaddr) + addr % 4096 =
    mapping.phys + (addr - mapping.vaddr) by omega]

section

variable (settled : proc.Settled machine.mem space.pml4 addr mapping)
include settled

theorem injective {other : Nat} {mapping' : Mapping}
    (settled' : proc.Settled machine.mem space.pml4 other mapping')
    (running : Running kept proc space machine)
    (same : mapping.phys + (addr - mapping.vaddr) = mapping'.phys + (other - mapping'.vaddr)) :
    addr = other := by
  have inFirst := settled.inRun running
  have inSecond := settled'.inRun running
  rw [← same] at inSecond
  obtain rfl := running.owned.same_run settled.member.1 settled'.member.1 settled.isPrivate
    settled'.isPrivate inFirst inSecond
  obtain ⟨-, -, lower, -⟩ := settled.place running
  obtain ⟨-, -, lower', -⟩ := settled'.place running
  omega

theorem byte_kept (running : Running kept proc space machine)
    (agree : Space.AgreeOutside (fun frame => space.Owns frame ∨ machine.pmm.Free frame)
      machine.mem machine'.mem) :
    machine'.mem (mapping.phys + (addr - mapping.vaddr)) =
      machine.mem (mapping.phys + (addr - mapping.vaddr)) :=
  agree _ (settled.apart running)

theorem congr (records : proc'.recordsOf addr = proc.recordsOf addr)
    (page : walk machine'.mem space.pml4 addr = walk machine.mem space.pml4 addr) :
    proc'.Settled machine'.mem space.pml4 addr mapping :=
  ⟨records.trans settled.records, settled.isPrivate, page.trans settled.page⟩

end

end Process.Settled

namespace Running

variable {kept : Nat → Prop} {proc : Process} {space : Space} {machine machine' : Machine}

theorem of_agree {written : Nat → Prop} {mem : ByteMemory}
    (running : Running kept proc space machine)
    (agree : Space.AgreeOutside written machine.mem mem)
    (apart : ∀ frame, space.Owns frame → ¬ written frame) :
    Running kept proc space { machine with mem } ∧
      ∀ addr, addr < identityMapEnd →
        walk mem space.pml4 addr = walk machine.mem space.pml4 addr := by
  have hosted := running.hosted.of_agree agree apart
  refine ⟨⟨hosted, running.owned, running.bounded, running.active⟩, ?_⟩
  intro addr below
  rw [hosted.walk_eq below, running.hosted.walk_eq below]

theorem storeThrough {addr : Nat} {mapping : Mapping}
    (running : Running kept proc space machine)
    (settled : proc.Settled machine.mem space.pml4 addr mapping) (byte : BitVec 8) :
    MachaOS.storeThrough space.pml4 addr byte machine =
        some { machine with
          mem := machine.mem.writeByte (mapping.phys + (addr - mapping.vaddr)) byte } ∧
      Running kept proc space { machine with
        mem := machine.mem.writeByte (mapping.phys + (addr - mapping.vaddr)) byte } ∧
      ∀ other, other < identityMapEnd →
        walk (machine.mem.writeByte (mapping.phys + (addr - mapping.vaddr)) byte) space.pml4
          other = walk machine.mem space.pml4 other := by
  obtain ⟨-, aligned, lower, -, -, -⟩ := settled.place running
  constructor
  · unfold MachaOS.storeThrough
    rw [settled.page]
    dsimp only [leafFor]
    rw [if_pos (by decide), show mapping.phys + (addr / 4096 * 4096 - mapping.vaddr) +
      addr % 4096 = mapping.phys + (addr - mapping.vaddr) by omega]
  · refine running.of_agree (Space.agreeOutside_writeByte _ _ _) ?_
    rintro frame owns rfl
    exact settled.apart running (Or.inl owns)

theorem copyBytes {mapping : Mapping} {offset : Nat} {bytes : List (BitVec 8)}
    (running : Running kept proc space machine) (member : mapping ∈ proc.mappings)
    (isPrivate : mapping.shmId = none) (fits : offset + bytes.length ≤ mapping.len) :
    Machine.copyBytes (mapping.phys + offset) bytes machine =
        (.ok (), { machine with
          mem := machine.mem.writeBytes (mapping.phys + offset) bytes }) ∧
      Running kept proc space { machine with
        mem := machine.mem.writeBytes (mapping.phys + offset) bytes } ∧
      ∀ addr, addr < identityMapEnd →
        walk (machine.mem.writeBytes (mapping.phys + offset) bytes) space.pml4 addr =
          walk machine.mem space.pml4 addr := by
  obtain ⟨⟨-, whole, -, -⟩, physAligned, -⟩ := running.hosted.placed mapping member
  have inRun : ∀ frame, Touches (mapping.phys + offset) bytes.length frame →
      frame ∈ mapping.run :=
    fun frame touches => Touches.mem_frameRun physAligned
      (show offset + bytes.length ≤ mapping.len / 4096 * 4096 by omega) touches
  have apart : ∀ frame, space.Owns frame →
      ¬ Touches (mapping.phys + offset) bytes.length frame :=
    fun frame owns touches => running.apart member isPrivate (inRun frame touches) (Or.inl owns)
  have avoids : ∀ addr, addr ∈ proc.frames → ¬ InRange 0 0 addr :=
    fun _ _ within => Nat.not_lt_zero _ within.2
  constructor
  · apply (running.hosted.editing running.owned running.active avoids).copyBytes
    intro frame touches
    exact ⟨running.hosted.frame_lends running.owned avoids
      (running.owned.backed mapping member isPrivate frame (inRun frame touches)),
      fun owns => apart frame owns touches⟩
  · exact running.of_agree
      (agreeOutside_writeBytes machine.mem (mapping.phys + offset) bytes) apart

end Running

theorem Boot.Alone.running {length : Nat} {sys : System} {proc : Process} {space : Space}
    (alone : Boot.Alone length sys proc space) :
    Running Boot.lowRam proc space sys.machine :=
  ⟨alone.hosted, alone.owned, alone.ledger.bounded, alone.active⟩

end MachaOS
