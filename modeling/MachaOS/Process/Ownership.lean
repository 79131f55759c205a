/-
Who owns which frame, for one process.

`OwnedBy` says that the frames a process lists are in use, and that its private
mappings are backed by listed frames, no two by the same one.  Every memory
operation keeps it, and moves frames only between the process and the free
pool (`Transfer`).  Nothing here depends on what the page tables hold.
-/

import MachaOS.Paging.Accounting
import MachaOS.Process.Basic

namespace MachaOS

open List
open Fallible Machine Paging

def Pmm.Held (pmm : Pmm) (frame : Nat) : Prop :=
  frame % 4096 = 0 ∧ frame < Pmm.maxPhysMem ∧ frame / 4096 ≤ pmm.lastUsableFrame ∧
    ¬ pmm.Free frame

def Pmm.Bounded (pmm : Pmm) : Prop :=
  pmm.lastUsableFrame < Pmm.frameCount

theorem Pmm.Bounded.free_lt {pmm : Pmm} (bounded : pmm.Bounded) {frame : Nat}
    (free : pmm.Free frame) : frame < Pmm.maxPhysMem ∧ frame / 4096 ≤ pmm.lastUsableFrame := by
  obtain ⟨index, rfl, inside, -⟩ := free
  have limit : pmm.lastUsableFrame < 65536 := bounded
  have size : Pmm.frameSize = 4096 := rfl
  have top : Pmm.maxPhysMem = 268435456 := rfl
  rw [size, top]
  omega

namespace Mapping

def run (mapping : Mapping) : List Nat :=
  Pmm.frameRun mapping.phys (mapping.len / 4096)

/-- The mapping covers the whole backing of the shared-memory object `id`. -/
def Shares (table : Shm.Table) (id : Nat) (mapping : Mapping) : Prop :=
  mapping.shmId = some id ∧ Shm.physOf table id = some mapping.phys ∧
    Shm.pagesOf table id = some (mapping.len / 4096)

def Apart (first second : Mapping) : Prop :=
  first.shmId = none → second.shmId = none → ∀ frame, frame ∈ first.run → frame ∉ second.run

end Mapping

structure OwnedBy (pmm : Pmm) (proc : Process) : Prop where
  nodup : proc.frames.Nodup
  held : ∀ frame, frame ∈ proc.frames → pmm.Held frame
  whole : ∀ mapping, mapping ∈ proc.mappings →
    mapping.len % 4096 = 0 ∧ mapping.phys % 4096 = 0
  backed : ∀ mapping, mapping ∈ proc.mappings → mapping.shmId = none →
    ∀ frame, frame ∈ mapping.run → frame ∈ proc.frames
  apart : proc.mappings.Pairwise Mapping.Apart

structure Transfer (proc proc' : Process) (machine machine' : Machine) : Prop where
  came : ∀ frame, frame ∈ proc'.frames → frame ∈ proc.frames ∨ machine.pmm.Free frame
  freed : ∀ frame, machine'.pmm.Free frame → machine.pmm.Free frame ∨ frame ∈ proc.frames
  limit : machine'.pmm.lastUsableFrame = machine.pmm.lastUsableFrame
  cr3 : machine'.cr3 = machine.cr3

structure Grown (proc proc' : Process) (machine machine' : Machine)
    (added : List Mapping) (taken : List Nat) : Prop where
  takes : Takes machine machine' taken
  frames : proc'.frames = proc.frames ++ taken
  mappings : proc'.mappings = proc.mappings ++ added
  whole : ∀ mapping, mapping ∈ added → mapping.len % 4096 = 0 ∧ mapping.phys % 4096 = 0
  backed : ∀ mapping, mapping ∈ added → mapping.shmId = none →
    ∀ frame, frame ∈ mapping.run → frame ∈ taken
  apart : added.Pairwise Mapping.Apart

namespace Grown

variable {proc proc' proc'' : Process} {machine machine' machine'' : Machine}

theorem of_takes {taken : List Nat} (takes : Takes machine machine' taken)
    (frames : proc'.frames = proc.frames ++ taken)
    (mappings : proc'.mappings = proc.mappings) :
    Grown proc proc' machine machine' [] taken :=
  { takes
    frames
    mappings := by rw [mappings, append_nil]
    whole := by simp
    backed := by simp
    apart := List.Pairwise.nil }

theorem refl (proc : Process) (machine : Machine) :
    Grown proc proc machine machine [] [] :=
  of_takes (Takes.of_same (SameFrames.refl machine)) (by simp) rfl

theorem trans {first second : List Mapping} {early late : List Nat}
    (left : Grown proc proc' machine machine' first early)
    (right : Grown proc' proc'' machine' machine'' second late) :
    Grown proc proc'' machine machine'' (first ++ second) (early ++ late) :=
  { takes := left.takes.trans right.takes
    frames := by rw [right.frames, left.frames, append_assoc]
    mappings := by rw [right.mappings, left.mappings, append_assoc]
    whole := by
      intro mapping mem
      rcases mem_append.mp mem with old | new
      · exact left.whole mapping old
      · exact right.whole mapping new
    backed := by
      intro mapping mem isPrivate frame inRun
      rcases mem_append.mp mem with old | new
      · exact mem_append_left _ (left.backed mapping old isPrivate frame inRun)
      · exact mem_append_right _ (right.backed mapping new isPrivate frame inRun)
    apart := by
      refine pairwise_append.mpr ⟨left.apart, right.apart, ?_⟩
      intro old oldMember new newMember oldPrivate newPrivate frame inOld inNew
      have was := right.takes.wasFree frame (right.backed new newMember newPrivate frame inNew)
      exact ((left.takes.free frame).mp was).2
        (left.backed old oldMember oldPrivate frame inOld) }

end Grown

namespace OwnedBy

variable {proc proc' : Process} {machine machine' : Machine}

theorem grow {added : List Mapping} {taken : List Nat} (owned : OwnedBy machine.pmm proc)
    (bounded : machine.pmm.Bounded)
    (grown : Grown proc proc' machine machine' added taken) :
    OwnedBy machine'.pmm proc' ∧ Transfer proc proc' machine machine' := by
  have takes := grown.takes
  have inUse : ∀ frame, frame ∈ proc.frames → ¬ machine.pmm.Free frame :=
    fun frame mem => (owned.held frame mem).2.2.2
  refine ⟨⟨?_, ?_, ?_, ?_, ?_⟩, ⟨?_, ?_, takes.limit, takes.cr3⟩⟩
  · rw [grown.frames]
    refine nodup_append.mpr ⟨owned.nodup, takes.nodup, ?_⟩
    rintro frame old other new rfl
    exact inUse frame old (takes.wasFree frame new)
  · intro frame mem
    rw [grown.frames] at mem
    rcases mem_append.mp mem with old | new
    · obtain ⟨aligned, below, inside, notFree⟩ := owned.held frame old
      refine ⟨aligned, below, by rw [takes.limit]; exact inside, ?_⟩
      exact fun free => notFree ((takes.free frame).mp free).1
    · have was := takes.wasFree frame new
      obtain ⟨below, inside⟩ := bounded.free_lt was
      refine ⟨Pmm.free_aligned was, below, by rw [takes.limit]; exact inside, ?_⟩
      exact fun free => ((takes.free frame).mp free).2 new
  · intro mapping mem
    rw [grown.mappings] at mem
    rcases mem_append.mp mem with old | new
    · exact owned.whole mapping old
    · exact grown.whole mapping new
  · intro mapping mem isPrivate frame inRun
    rw [grown.mappings] at mem
    rw [grown.frames]
    rcases mem_append.mp mem with old | new
    · exact mem_append_left _ (owned.backed mapping old isPrivate frame inRun)
    · exact mem_append_right _ (grown.backed mapping new isPrivate frame inRun)
  · rw [grown.mappings]
    refine pairwise_append.mpr ⟨owned.apart, grown.apart, ?_⟩
    intro old oldMember new newMember oldPrivate newPrivate frame inOld inNew
    exact inUse frame (owned.backed old oldMember oldPrivate frame inOld)
      (takes.wasFree frame (grown.backed new newMember newPrivate frame inNew))
  · intro frame mem
    rw [grown.frames] at mem
    rcases mem_append.mp mem with old | new
    · exact Or.inl old
    · exact Or.inr (takes.wasFree frame new)
  · intro frame free
    exact Or.inl ((takes.free frame).mp free).1

theorem congr {pmm : Pmm} (owned : OwnedBy pmm proc)
    (frames : proc'.frames = proc.frames)
    (mappings : proc'.mappings = proc.mappings) : OwnedBy pmm proc' :=
  ⟨frames ▸ owned.nodup, frames ▸ owned.held, mappings ▸ owned.whole,
    by rw [frames, mappings]; exact owned.backed, mappings ▸ owned.apart⟩

end OwnedBy

namespace Process

variable {proc proc' : Process} {machine machine' : Machine}

variable {pml4 : Nat} {done : Bool}

theorem tryGrowStack_grown {faultAddr : Nat}
    (ran : proc.tryGrowStack pml4 faultAddr machine = (.ok (done, proc'), machine')) :
    (∃ taken, Grown proc proc' machine machine' [] taken) ∧ proc'.fds = proc.fds := by
  unfold tryGrowStack at ran
  split at ran
  · cases ran
    exact ⟨⟨[], Grown.refl _ _⟩, rfl⟩
  · obtain ⟨⟨mapped, frames⟩, machine₁, mapping, ran⟩ := bind_eq_ok ran
    obtain ⟨taken, takes, rfl⟩ := mapRangeIn_takes mapping
    cases mapped <;>
    · cases ran
      exact ⟨⟨taken, Grown.of_takes takes rfl rfl⟩, rfl⟩

theorem grown_of_block {machine₁ machine₂ : Machine} {phys pages : Nat} {taken : List Nat}
    (block : Takes machine machine₁ (Pmm.frameRun phys pages)) (filled : SameFrames machine₁ machine₂)
    (mapped : Takes machine₂ machine' taken) (aligned : phys % 4096 = 0)
    (frames : proc'.frames = proc.frames ++ Pmm.frameRun phys pages ++ taken)
    {added : List Mapping} (mappings : proc'.mappings = proc.mappings ++ added)
    (single : added.length ≤ 1)
    (backing : ∀ mapping, mapping ∈ added → mapping.phys = phys ∧ mapping.len = pages * 4096) :
    Grown proc proc' machine machine' added (Pmm.frameRun phys pages ++ taken) := by
  have takes := (block.trans (Takes.of_same filled)).trans mapped
  rw [append_nil] at takes
  refine ⟨takes, by rw [frames, append_assoc], mappings, ?_, ?_, ?_⟩
  · intro mapping mem
    obtain ⟨samePhys, sameLen⟩ := backing mapping mem
    rw [samePhys, sameLen]
    exact ⟨Nat.mul_mod_left pages 4096, aligned⟩
  · intro mapping mem isPrivate frame inRun
    obtain ⟨samePhys, sameLen⟩ := backing mapping mem
    unfold Mapping.run at inRun
    rw [samePhys, sameLen, Nat.mul_div_cancel pages (by decide)] at inRun
    exact mem_append_left _ inRun
  · match added, single with
    | [], _ => exact List.Pairwise.nil
    | [only], _ => exact pairwise_singleton _ only

def AddsPrivate (proc proc' : Process) (machine machine' : Machine) : Prop :=
  (∃ added taken, Grown proc proc' machine machine' added taken ∧
    ∀ mapping, mapping ∈ added → mapping.shmId = none) ∧ proc'.fds = proc.fds

theorem addsPrivate_refl (proc : Process) (machine : Machine) :
    AddsPrivate proc proc machine machine :=
  ⟨⟨[], [], Grown.refl _ _, by simp⟩, rfl⟩

theorem brk_adds {requested result : Nat}
    (ran : proc.brk pml4 requested machine = (.ok (result, proc'), machine')) :
    AddsPrivate proc proc' machine machine' := by
  unfold brk at ran
  split at ran
  · cases ran
    exact addsPrivate_refl _ _
  dsimp only at ran
  split at ran
  · obtain ⟨found, machine₁, given, rest⟩ := bind_eq_ok ran
    rcases allocContiguous_takes given with ⟨rfl, rfl⟩ | ⟨phys, rfl, -, aligned, block⟩
    · cases rest
      exact addsPrivate_refl _ _
    · obtain ⟨_, machine₂, zeroed, rest⟩ := bind_eq_ok rest
      have filled := (quiet_zeroBytes _ _).of_run zeroed
      obtain ⟨⟨mapped, frames⟩, machine₃, mapping, rest⟩ := bind_eq_ok rest
      obtain ⟨taken, takes, rfl⟩ := mapRangeIn_takes mapping
      have whole : (alignUp (requested - proc.heapStart) -
          alignUp (max proc.heapEnd proc.heapStart - proc.heapStart)) / pageSize * 4096 =
          alignUp (requested - proc.heapStart) -
            alignUp (max proc.heapEnd proc.heapStart - proc.heapStart) := by
        unfold alignUp pageSize
        omega
      cases mapped
      · cases rest
        exact ⟨⟨[], _, grown_of_block block filled takes aligned rfl (by simp) (by simp) (by simp),
          by simp⟩, rfl⟩
      · cases rest
        refine ⟨⟨_, _, grown_of_block block filled takes aligned rfl rfl (by simp) ?_,
          by simp⟩, rfl⟩
        intro mapping mem
        rw [mem_singleton.mp mem, whole]
        exact ⟨rfl, rfl⟩
  · cases ran
    exact ⟨⟨[], [], Grown.of_takes (Takes.of_same (SameFrames.refl _)) (by simp) rfl, by simp⟩, rfl⟩

theorem mmapWithContent_adds {len : Nat} {at' result : Option Nat} {writable executable : Bool}
    {content : Option (List (BitVec 8))}
    (ran : proc.mmapWithContent pml4 at' len writable executable content machine =
      (.ok (result, proc'), machine')) :
    AddsPrivate proc proc' machine machine' := by
  simp only [mmapWithContent] at ran
  cases chosen : proc.mmapAddress at' (alignUp (max len 1)) with
  | none =>
    simp only [chosen] at ran
    cases ran
    exact addsPrivate_refl _ _
  | some addr =>
    simp only [chosen] at ran
    obtain ⟨found, machine₁, given, rest⟩ := bind_eq_ok ran
    rcases allocContiguous_takes given with ⟨rfl, rfl⟩ | ⟨phys, rfl, -, aligned, block⟩
    · cases rest
      exact addsPrivate_refl _ _
    · obtain ⟨_, machine₂, zeroed, rest⟩ := bind_eq_ok rest
      obtain ⟨_, machine₃, copied, rest⟩ := bind_eq_ok rest
      have filled := ((quiet_zeroBytes _ _).of_run zeroed).trans
        ((quiet_copyBytes _ _).of_run copied)
      obtain ⟨⟨mapped, frames⟩, machine₄, mapping, rest⟩ := bind_eq_ok rest
      obtain ⟨taken, takes, rfl⟩ := mapRangeIn_takes mapping
      have whole : alignUp (max len 1) / pageSize * 4096 = alignUp (max len 1) := by
        unfold alignUp pageSize
        omega
      cases mapped
      · cases rest
        exact ⟨⟨[], _, grown_of_block block filled takes aligned rfl (by simp) (by simp) (by simp),
          by simp⟩, rfl⟩
      · cases rest
        refine ⟨⟨_, _, grown_of_block block filled takes aligned rfl rfl (by simp) ?_,
          by simp⟩, rfl⟩
        intro mapping mem
        rw [mem_singleton.mp mem, whole]
        exact ⟨rfl, rfl⟩

theorem mmapShared_adds {shmId : Nat} {at' result : Option Nat} {table : Shm.Table}
    {writable executable : Bool}
    (ran : proc.mmapShared pml4 at' table shmId writable executable machine =
      (.ok (result, proc'), machine'))
    (aligned : ∀ phys, Shm.physOf table shmId = some phys → phys % 4096 = 0) :
    (∃ added taken, Grown proc proc' machine machine' added taken ∧
      ∀ mapping, mapping ∈ added → mapping.Shares table shmId) ∧
      proc'.fds = proc.fds := by
  have nothing : ∃ added taken, Grown proc proc machine machine added taken ∧
      ∀ mapping, mapping ∈ added → mapping.Shares table shmId :=
    ⟨[], [], Grown.refl _ _, by simp⟩
  unfold mmapShared at ran
  cases foundPhys : Shm.physOf table shmId with
  | none =>
    simp only [foundPhys] at ran
    cases ran
    exact ⟨nothing, rfl⟩
  | some phys =>
  cases foundPages : Shm.pagesOf table shmId with
  | none =>
    simp only [foundPhys, foundPages] at ran
    cases ran
    exact ⟨nothing, rfl⟩
  | some pages =>
    simp only [foundPhys, foundPages] at ran
    split at ran
    · cases ran
      exact ⟨nothing, rfl⟩
    cases chosen : proc.mmapAddress at' (pages * pageSize) with
    | none =>
      simp only [chosen] at ran
      cases ran
      exact ⟨nothing, rfl⟩
    | some addr =>
    simp only [chosen] at ran
    obtain ⟨⟨mapped, frames⟩, machine₁, mapping, rest⟩ := bind_eq_ok ran
    obtain ⟨taken, takes, rfl⟩ := mapRangeIn_takes mapping
    cases mapped
    · cases rest
      exact ⟨⟨[], taken, Grown.of_takes takes rfl rfl, by simp⟩, rfl⟩
    · cases rest
      have whole : pages * pageSize / 4096 = pages := Nat.mul_div_cancel pages (by decide)
      refine ⟨⟨_, taken, ⟨takes, rfl, rfl, ?_, by simp, pairwise_singleton _ _⟩, ?_⟩, rfl⟩
      · intro mapping mem
        rw [mem_singleton.mp mem]
        exact ⟨Nat.mul_mod_left pages 4096, aligned phys foundPhys⟩
      · intro mapping mem
        rw [mem_singleton.mp mem]
        exact ⟨rfl, foundPhys, by rw [whole]; exact foundPages⟩

theorem protectPage_takes {virt : Nat} {flags : BitVec 64} {frames after : List Nat}
    (ran : proc.protectPage pml4 virt flags frames machine = (.ok (done, after), machine')) :
    ∃ taken, Takes machine machine' taken ∧ after = frames ++ taken := by
  unfold protectPage at ran
  cases located : proc.translateLocal virt pageSize with
  | none =>
      rw [located] at ran
      cases ran
      exact ⟨[], Takes.of_same (SameFrames.refl _), by simp⟩
  | some phys =>
      rw [located] at ran
      exact mapRangeIn_takes ran

theorem mprotectPages_takes {left virt : Nat} {flags : BitVec 64} {frames after : List Nat}
    (ran : proc.mprotectPages pml4 flags left virt frames machine =
      (.ok (done, after), machine')) :
    ∃ taken, Takes machine machine' taken ∧ after = frames ++ taken := by
  induction left generalizing virt frames machine with
  | zero =>
      cases ran
      exact ⟨[], Takes.of_same (SameFrames.refl _), by simp⟩
  | succ left ih =>
      unfold mprotectPages at ran
      obtain ⟨⟨mapped, grown⟩, machine₁, mapping, rest⟩ := bind_eq_ok ran
      obtain ⟨taken, takes, rfl⟩ := protectPage_takes mapping
      cases mapped
      · cases rest
        exact ⟨taken, takes, rfl⟩
      · simp only [if_true] at rest
        obtain ⟨later, second, rfl⟩ := ih rest
        exact ⟨taken ++ later, takes.trans second, by rw [append_assoc]⟩

theorem mprotect_grown {addr len : Nat} {writable executable : Bool}
    (ran : proc.mprotect pml4 addr len writable executable machine =
      (.ok (done, proc'), machine')) :
    (∃ taken, Grown proc proc' machine machine' [] taken) ∧ proc'.fds = proc.fds := by
  unfold mprotect at ran
  obtain ⟨⟨changed, frames⟩, machine₁, pages, rest⟩ := bind_eq_ok ran
  obtain ⟨taken, takes, rfl⟩ := mprotectPages_takes pages
  cases rest
  exact ⟨⟨taken, Grown.of_takes takes rfl rfl⟩, rfl⟩

end Process

theorem Machine.freeFrames_free {phys count : Nat} {machine machine' : Machine} {value : Unit}
    (aligned : phys % 4096 = 0)
    (ran : freeFrames phys count machine = (.ok value, machine')) :
    machine'.mem = machine.mem ∧ machine'.cr3 = machine.cr3 ∧
      machine'.pmm.lastUsableFrame = machine.pmm.lastUsableFrame ∧
      ∀ frame, machine'.pmm.Free frame ↔ machine.pmm.Free frame ∨
        (frame ∈ Pmm.frameRun phys count ∧ frame < Pmm.maxPhysMem ∧
          frame / 4096 ≤ machine.pmm.lastUsableFrame) := by
  induction count generalizing phys machine with
  | zero =>
      cases ran
      simp [Pmm.frameRun]
  | succ count ih =>
      obtain ⟨_, machine₁, freed, rest⟩ := bind_eq_ok ran
      cases freed
      have size : Pmm.frameSize = 4096 := rfl
      obtain ⟨sameMem, sameCr3, limit, free⟩ := ih (by rw [size]; omega) rest
      refine ⟨sameMem, sameCr3, by simpa using limit, ?_⟩
      intro frame
      have split : frame ∈ Pmm.frameRun phys (count + 1) ↔
          frame = phys ∨ frame ∈ Pmm.frameRun (phys + Pmm.frameSize) count := by
        rw [Pmm.mem_frameRun, Pmm.mem_frameRun, size]
        constructor
        · rintro ⟨index, inside, rfl⟩
          cases index with
          | zero => exact Or.inl (by omega)
          | succ index => exact Or.inr ⟨index, by omega, by omega⟩
        · rintro (rfl | ⟨index, inside, rfl⟩)
          · exact ⟨0, by omega, by omega⟩
          · exact ⟨index + 1, by omega, by omega⟩
      rw [free, split, Pmm.frameFree_lastUsableFrame]
      by_cases below : phys < Pmm.maxPhysMem
      · rw [Pmm.free_frameFree aligned below]
        constructor
        · rintro ((was | ⟨rfl, inside⟩) | ⟨later, upper, inside⟩)
          · exact Or.inl was
          · exact Or.inr ⟨Or.inl rfl, below, inside⟩
          · exact Or.inr ⟨Or.inr later, upper, inside⟩
        · rintro (was | ⟨rfl | later, upper, inside⟩)
          · exact Or.inl (Or.inl was)
          · exact Or.inl (Or.inr ⟨rfl, inside⟩)
          · exact Or.inr ⟨later, upper, inside⟩
      · have refused : machine.pmm.frameFree phys = machine.pmm := by
          unfold Pmm.frameFree
          rw [if_pos (Or.inr (by omega))]
        simp only [refused]
        constructor
        · rintro (was | ⟨later, upper, inside⟩)
          · exact Or.inl was
          · exact Or.inr ⟨Or.inr later, upper, inside⟩
        · rintro (was | ⟨rfl | later, upper, inside⟩)
          · exact Or.inl was
          · exact absurd upper below
          · exact Or.inr ⟨later, upper, inside⟩

namespace OwnedBy

variable {pmm pmm' : Pmm} {proc : Process}

theorem of_free (owned : OwnedBy pmm proc)
    (limit : pmm'.lastUsableFrame = pmm.lastUsableFrame)
    (free : ∀ frame, pmm'.Free frame → pmm.Free frame ∨ frame ∉ proc.frames) :
    OwnedBy pmm' proc :=
  { nodup := owned.nodup
    held := by
      intro frame mem
      obtain ⟨aligned, below, inside, inUse⟩ := owned.held frame mem
      refine ⟨aligned, below, by rw [limit]; exact inside, fun isFree => ?_⟩
      rcases free frame isFree with was | foreign
      · exact inUse was
      · exact foreign mem
    whole := owned.whole
    backed := owned.backed
    apart := owned.apart }

variable {mapping : Mapping}

theorem mem_run (owned : OwnedBy pmm proc) (mem : mapping ∈ proc.mappings) {frame : Nat}
    (aligned : frame % 4096 = 0) :
    frame ∈ mapping.run ↔ mapping.phys ≤ frame ∧ frame < mapping.phys + mapping.len := by
  obtain ⟨wholeLen, wholePhys⟩ := owned.whole mapping mem
  unfold Mapping.run
  rw [Pmm.mem_frameRun_of_aligned wholePhys aligned]
  omega

theorem dropMapping {done rest : List Mapping} (owned : OwnedBy pmm proc)
    (split : proc.mappings = done ++ mapping :: rest) :
    OwnedBy pmm { proc with mappings := done ++ rest } := by
  have sub : ∀ other, other ∈ done ++ rest → other ∈ proc.mappings := by
    intro other mem
    rw [split]
    simp only [mem_append, mem_cons] at mem ⊢
    tauto
  refine ⟨owned.nodup, owned.held, ?_, ?_, ?_⟩
  · exact fun other mem => owned.whole other (sub other mem)
  · exact fun other mem => owned.backed other (sub other mem)
  · have apart := owned.apart
    rw [split] at apart
    exact apart.sublist (List.Sublist.append_left (sublist_cons_self mapping rest) done)

theorem release {done rest : List Mapping} (owned : OwnedBy pmm proc)
    (split : proc.mappings = done ++ mapping :: rest) (isPrivate : mapping.shmId = none)
    (limit : pmm'.lastUsableFrame = pmm.lastUsableFrame)
    (free : ∀ frame, pmm'.Free frame → pmm.Free frame ∨ frame ∈ mapping.run) :
    OwnedBy pmm'
      { proc with
        mappings := done ++ rest
        frames := proc.frames.filter
          (fun frame => decide (frame < mapping.phys ∨ frame ≥ mapping.phys + mapping.len)) } := by
  have mem : mapping ∈ proc.mappings := by
    rw [split]
    simp
  have keeps : ∀ frame, frame ∈ proc.frames → frame ∉ mapping.run →
      frame ∈ proc.frames.filter
        (fun frame => decide (frame < mapping.phys ∨ frame ≥ mapping.phys + mapping.len)) := by
    intro frame old outside
    have aligned := (owned.held frame old).1
    rw [owned.mem_run mem aligned] at outside
    exact mem_filter.mpr ⟨old, decide_eq_true (by omega)⟩
  have dropped := owned.dropMapping split
  refine ⟨owned.nodup.filter _, ?_, dropped.whole, ?_, dropped.apart⟩
  · intro frame kept
    obtain ⟨old, outside⟩ := mem_filter.mp kept
    obtain ⟨aligned, below, inside, inUse⟩ := owned.held frame old
    refine ⟨aligned, below, by rw [limit]; exact inside, fun isFree => ?_⟩
    rcases free frame isFree with was | inRun
    · exact inUse was
    · rw [owned.mem_run mem aligned] at inRun
      have outside := of_decide_eq_true outside
      omega
  · intro other otherMember otherPrivate frame inRun
    refine keeps frame (dropped.backed other otherMember otherPrivate frame inRun) ?_
    have apart := owned.apart
    rw [split, pairwise_append, pairwise_cons] at apart
    rcases mem_append.mp otherMember with before | after
    · exact apart.2.2 other before mapping (by simp) otherPrivate isPrivate frame inRun
    · exact fun both => apart.2.1.1 other after isPrivate otherPrivate frame both inRun

end OwnedBy

namespace Process

variable {proc proc' : Process} {machine machine' : Machine}

def Covered (start stop : Nat) (mapping : Mapping) : Prop :=
  mapping.vaddr ≥ start ∧ mapping.vaddr + mapping.len ≤ stop

instance (start stop : Nat) (mapping : Mapping) : Decidable (Covered start stop mapping) :=
  inferInstanceAs (Decidable (_ ∧ _))

structure Returned (frames after : List Nat) (machine machine' : Machine) : Prop where
  subset : ∀ frame, frame ∈ after → frame ∈ frames
  freed : ∀ frame, machine'.pmm.Free frame → machine.pmm.Free frame ∨ frame ∈ frames
  limit : machine'.pmm.lastUsableFrame = machine.pmm.lastUsableFrame
  cr3 : machine'.cr3 = machine.cr3

variable {after : List Nat}

theorem Returned.trans {frames middle : List Nat} {machine machine' machine'' : Machine}
    (left : Returned frames middle machine machine')
    (right : Returned middle after machine' machine'') : Returned frames after machine machine'' :=
  { subset := fun frame mem => left.subset frame (right.subset frame mem)
    freed := by
      intro frame free
      rcases right.freed frame free with was | old
      · exact left.freed frame was
      · exact Or.inr (left.subset frame old)
    limit := right.limit.trans left.limit
    cr3 := right.cr3.trans left.cr3 }

theorem Returned.of_takes {frames taken : List Nat} (takes : Takes machine machine' taken) :
    Returned frames frames machine machine' :=
  { subset := fun _ mem => mem
    freed := fun frame free => Or.inl ((takes.free frame).mp free).1
    limit := takes.limit
    cr3 := takes.cr3 }

theorem releaseMapping_owned {done rest : List Mapping} {mapping : Mapping}
    (owned : OwnedBy machine.pmm proc) (split : proc.mappings = done ++ mapping :: rest)
    (ran : releaseMapping mapping proc.frames machine = (.ok after, machine')) :
    OwnedBy machine'.pmm { proc with mappings := done ++ rest, frames := after } ∧
      Returned proc.frames after machine machine' := by
  have mem : mapping ∈ proc.mappings := by
    rw [split]
    simp
  unfold releaseMapping at ran
  split at ran
  · rename_i noId
    have isPrivate : mapping.shmId = none := by simpa using noId
    obtain ⟨_, machine₁, freed, rest'⟩ := bind_eq_ok ran
    cases rest'
    obtain ⟨-, sameCr3, limit, free⟩ := freeFrames_free (owned.whole mapping mem).2 freed
    have inRun : ∀ frame, machine'.pmm.Free frame →
        machine.pmm.Free frame ∨ frame ∈ mapping.run := by
      intro frame isFree
      rcases (free frame).mp isFree with was | ⟨inside, -, -⟩
      · exact Or.inl was
      · exact Or.inr inside
    refine ⟨owned.release split isPrivate limit inRun, ⟨?_, ?_, limit, sameCr3⟩⟩
    · exact fun frame kept => (mem_filter.mp kept).1
    · intro frame isFree
      rcases inRun frame isFree with was | inside
      · exact Or.inl was
      · exact Or.inr (owned.backed mapping mem isPrivate frame inside)
  · cases ran
    exact ⟨owned.dropMapping split, Returned.of_takes (Takes.of_same (SameFrames.refl _))⟩

theorem munmapLoop_owned {pml4 start stop : Nat} {done rest kept : List Mapping}
    (owned : OwnedBy machine.pmm proc) (split : proc.mappings = done ++ rest)
    (ran : munmapLoop pml4 start stop rest proc.frames machine = (.ok (kept, after), machine')) :
    OwnedBy machine'.pmm { proc with mappings := done ++ kept, frames := after } ∧
      Returned proc.frames after machine machine' ∧
      kept = rest.filter (fun mapping => !decide (Covered start stop mapping)) := by
  induction rest generalizing proc done kept machine with
  | nil =>
      cases ran
      exact ⟨owned.congr rfl split.symm, Returned.of_takes (Takes.of_same (SameFrames.refl _)), rfl⟩
  | cons mapping rest ih =>
      unfold munmapLoop at ran
      by_cases covered : mapping.vaddr ≥ start ∧ mapping.vaddr + mapping.len ≤ stop
      · rw [if_pos covered] at ran
        obtain ⟨_, machine₁, unmapped, ran⟩ := bind_eq_ok ran
        obtain ⟨frames, machine₂, released, ran⟩ := bind_eq_ok ran
        obtain ⟨taken, takes⟩ := unmapRangeIn_takes unmapped
        have still := owned.of_free takes.limit
          (fun frame free => Or.inl ((takes.free frame).mp free).1)
        obtain ⟨ownedAfter, returned⟩ := releaseMapping_owned still split released
        obtain ⟨ownedLast, returnedLast, sameKept⟩ := ih ownedAfter rfl ran
        refine ⟨ownedLast, (Returned.of_takes takes).trans (returned.trans returnedLast), ?_⟩
        rw [sameKept, filter_cons_of_neg]
        simp only [Bool.not_eq_true', decide_eq_false_iff_not, not_not]
        exact covered
      · rw [if_neg covered] at ran
        obtain ⟨⟨later, frames⟩, machine₁, looped, ran⟩ := bind_eq_ok ran
        cases ran
        have regrouped : proc.mappings = (done ++ [mapping]) ++ rest := by
          rw [split, append_assoc, singleton_append]
        obtain ⟨ownedLast, returned, sameKept⟩ := ih owned regrouped looped
        refine ⟨?_, returned, ?_⟩
        · rw [append_assoc, singleton_append] at ownedLast
          exact ownedLast
        · rw [sameKept, filter_cons_of_pos]
          simp only [Bool.not_eq_true', decide_eq_false_iff_not]
          exact covered

theorem munmap_owned {pml4 addr len : Nat} {done : Bool} (owned : OwnedBy machine.pmm proc)
    (ran : proc.munmap pml4 addr len machine = (.ok (done, proc'), machine')) :
    OwnedBy machine'.pmm proc' ∧ Transfer proc proc' machine machine' ∧
      (∀ mapping, mapping ∈ proc'.mappings → mapping ∈ proc.mappings) ∧
      proc'.fds = proc.fds := by
  unfold munmap at ran
  obtain ⟨⟨kept, frames⟩, machine₁, looped, ran⟩ := bind_eq_ok ran
  cases ran
  obtain ⟨ownedAfter, returned, rfl⟩ := munmapLoop_owned owned (nil_append _).symm looped
  refine ⟨ownedAfter, ⟨?_, returned.freed, returned.limit, returned.cr3⟩, ?_, rfl⟩
  · exact fun frame mem => Or.inl (returned.subset frame mem)
  · exact fun mapping mem => (mem_filter.mp mem).1

end Process
end MachaOS
