/-
All address spaces of the machine (`src/paging.rs`, `build_address_space`).

`Tables` is the kernel's table, the tables of the live processes, and the machine
that holds them.  A run mixes edits of the kernel's table, new address spaces,
edits of a process's table and loads of CR3 in any order.  As long as kernel
pointers reach the frames a routine touches (`Sound`), every table keeps its own
frames and only the edited one changes.
-/

import MachaOS.Launching
import MachaOS.Paging.Path

namespace MachaOS

open List Function
open Fallible Machine Paging

structure Tables where
  machine : Machine
  /-- `kernel_pml4()` -/
  kernel : Nat
  live : List Nat

namespace Tables

inductive Event where
  | mapPage (virt phys : Nat) (flags : BitVec 64)
  | unmapPage (virt : Nat)
  | build
  | mapRangeIn (root virt phys len : Nat) (flags : BitVec 64)
  | unmapRangeIn (root virt len : Nat)
  | activate (root : Nat)
  | allocator (pmm : Pmm)
  | retire (root : Nat)

def roots (tables : Tables) : List Nat :=
  tables.kernel :: tables.live

def edit {α : Type} (tables : Tables) (routine : Kernel α) : Option Tables :=
  match routine tables.machine with
  | (.ok _, machine) => some { tables with machine }
  | (.error _, _) => none

/-- The record `build_address_space` fills for a new process. -/
def blankProcess : Process :=
  System.newProcess 0 0 .native

/-- `build_address_space`; `spawn` and `spawn_linux` run in a kernel task. -/
def build (tables : Tables) : Option Tables :=
  if tables.machine.cr3 = tables.kernel then
    match Loader.buildAddressSpace tables.kernel (tables.machine, blankProcess) with
    | (.ok pml4, (machine, _)) => some { tables with machine, live := tables.live ++ [pml4] }
    | (.error (.refused _), (machine, _)) => some { tables with machine }
    | (.error (.fault _), _) => none
  else none

def step (tables : Tables) : Event → Option Tables
  | .mapPage virt phys flags => tables.edit (KernelMap.mapPage tables.kernel virt phys flags)
  | .unmapPage virt => tables.edit (KernelMap.unmapPage tables.kernel virt)
  | .build => tables.build
  | .mapRangeIn root virt phys len flags =>
      if root ∈ tables.live then tables.edit (mapRangeIn root virt phys len flags []) else none
  | .unmapRangeIn root virt len =>
      if root ∈ tables.live then tables.edit (unmapRangeIn root virt len) else none
  | .activate root =>
      if root ∈ tables.roots then
        some { tables with machine := { tables.machine with cr3 := root } }
      else none
  | .allocator pmm => some { tables with machine := { tables.machine with pmm } }
  | .retire root =>
      if root ∈ tables.live ∧ tables.machine.cr3 ≠ root then
        some { tables with live := tables.live.erase root }
      else none

/-- A frame an edit of `root` may write: it holds one of its tables, or may become one. -/
def Uses (tables : Tables) (root frame : Nat) : Prop :=
  tables.machine.pmm.Free frame ∨ TableFrame tables.machine.mem root frame

def Reaches (tables : Tables) (root : Nat) : Prop :=
  ∀ frame, tables.Uses root frame → tables.machine.resolve frame = some frame

/-- While `root` itself is active, the range does not lead those addresses elsewhere. -/
def KeepsReach (tables : Tables) (root virt phys len : Nat) : Prop :=
  tables.machine.cr3 = root → ∀ frame, tables.Uses root frame → virt ≤ frame →
    frame < virt + len → phys + (frame - virt) = frame

/-- While `root` itself is active, none of those addresses is unmapped. -/
def Spares (tables : Tables) (root virt len : Nat) : Prop :=
  tables.machine.cr3 = root → ∀ frame, tables.Uses root frame →
    ¬(virt ≤ frame ∧ frame < virt + len)

def Apart (tables : Tables) (pmm : Pmm) : Prop :=
  pmm.Bounded ∧ ∀ frame, pmm.Free frame → ∀ root, root ∈ tables.roots →
    ¬ TableFrame tables.machine.mem root frame

def Sound (tables : Tables) : Event → Prop
  | .mapPage virt phys _ =>
      tables.Reaches tables.kernel ∧ tables.KeepsReach tables.kernel virt phys pageSize
  | .unmapPage virt => tables.Reaches tables.kernel ∧ tables.Spares tables.kernel virt pageSize
  | .build => tables.Reaches tables.kernel
  | .mapRangeIn root virt phys len _ =>
      phys + len ≤ 2 ^ 52 ∧ tables.Reaches root ∧ tables.KeepsReach root virt phys len
  | .unmapRangeIn root virt len => tables.Reaches root ∧ tables.Spares root virt len
  | .activate _ => True
  | .allocator pmm => tables.Apart pmm
  | .retire _ => True

/-! ### Every table in frames of its own -/

/-- `spaces` says what each table maps; the tables share no frame with each other, and none
with the allocator. -/
structure Housed (tables : Tables) (spaces : Nat → Space) : Prop where
  nodup : tables.roots.Nodup
  pml4 : ∀ root, root ∈ tables.roots → (spaces root).pml4 = root
  wellFormed : ∀ root, root ∈ tables.roots → (spaces root).WellFormed
  represents : ∀ root, root ∈ tables.roots → (spaces root).Represents tables.machine.mem
  apart : ∀ root, root ∈ tables.roots → ∀ other, other ∈ tables.roots → root ≠ other →
    ∀ frame, (spaces root).Owns frame → ¬ (spaces other).Owns frame
  used : ∀ root, root ∈ tables.roots → ∀ frame, (spaces root).Owns frame →
    ¬ tables.machine.pmm.Free frame
  active : tables.machine.cr3 ∈ tables.roots
  bounded : tables.machine.pmm.Bounded

theorem kernel_mem_roots (tables : Tables) : tables.kernel ∈ tables.roots :=
  mem_cons_self

theorem mem_roots_of_live {tables : Tables} {root : Nat} (live : root ∈ tables.live) :
    root ∈ tables.roots :=
  mem_cons_of_mem _ live

theorem direct_of_resolve {space : Space} {machine : Machine} {frame : Nat}
    (wellFormed : space.WellFormed) (represents : space.Represents machine.mem)
    (active : machine.cr3 = space.pml4) (aligned : frame % 4096 = 0)
    (bounded : frame < identityMapEnd) (reached : machine.resolve frame = some frame) :
    space.Direct frame := by
  unfold Machine.resolve at reached
  obtain ⟨leaf, walked, target⟩ := Option.map_eq_some_iff.mp reached
  have phys := Space.walk_phys wellFormed represents bounded
  rw [← active, walked, Option.map_some] at phys
  obtain ⟨found, present, same⟩ := Option.map_eq_some_iff.mp phys.symm
  exact ⟨found, present, by omega⟩

namespace Housed

variable {tables : Tables} {spaces : Nat → Space} {root : Nat}

theorem tableFrame_iff (housed : tables.Housed spaces) (isRoot : root ∈ tables.roots)
    {frame : Nat} : TableFrame tables.machine.mem root frame ↔ (spaces root).Owns frame := by
  have same := @Space.tableFrame_iff (spaces root) tables.machine.mem
    (housed.wellFormed root isRoot) (housed.represents root isRoot) frame
  rwa [housed.pml4 root isRoot] at same

theorem uses_bounds (housed : tables.Housed spaces) (isRoot : root ∈ tables.roots) {frame : Nat}
    (uses : tables.Uses root frame) : frame % 4096 = 0 ∧ frame < identityMapEnd := by
  rcases uses with free | held
  · exact ⟨Pmm.free_aligned free, lt_trans (housed.bounded.free_lt free).1 (by decide)⟩
  · have owns := (housed.tableFrame_iff isRoot).mp held
    exact ⟨(housed.wellFormed root isRoot).aligned frame owns,
      (housed.wellFormed root isRoot).bounded frame owns⟩

theorem editing (housed : tables.Housed spaces) (isRoot : root ∈ tables.roots)
    (reaches : tables.Reaches root) :
    Editing (tables.Uses root) (spaces root) tables.machine :=
  { wellFormed := housed.wellFormed root isRoot
    represents := housed.represents root isRoot
    owned := fun _ owns => Or.inr ((housed.tableFrame_iff isRoot).mpr owns)
    used := housed.used root isRoot
    aligned := fun _ uses => (housed.uses_bounds isRoot uses).1
    bounded := fun _ uses => (housed.uses_bounds isRoot uses).2
    active := by
      have activeRoot := housed.active
      have atCr3 := housed.pml4 _ activeRoot
      have direct : ∀ frame, tables.Uses root frame →
          (spaces tables.machine.cr3).Direct frame := by
        intro frame uses
        obtain ⟨aligned, below⟩ := housed.uses_bounds isRoot uses
        exact direct_of_resolve (housed.wellFormed _ activeRoot) (housed.represents _ activeRoot)
          atCr3.symm aligned below (reaches frame uses)
      by_cases own : tables.machine.cr3 = root
      · left
        rw [own] at direct atCr3
        exact ⟨by rw [own, atCr3], direct⟩
      · right
        refine ⟨spaces tables.machine.cr3, housed.wellFormed _ activeRoot,
          housed.represents _ activeRoot, atCr3.symm, fun frame uses => ⟨direct frame uses, ?_⟩⟩
        intro owns
        rcases uses with free | held
        · exact housed.used _ activeRoot frame owns free
        · exact housed.apart _ activeRoot root isRoot own frame owns
            ((housed.tableFrame_iff isRoot).mp held) }

theorem supplied (tables : Tables) (root needed : Nat) :
    Pmm.Supplies (tables.Uses root) needed tables.machine.pmm :=
  (Pmm.supplies_free needed tables.machine.pmm).mono (fun _ free => Or.inl free)

section

variable (housed : tables.Housed spaces)
include housed

theorem edited {reach : Nat → Prop} {after : Space} {machine : Machine} {fresh : List Nat}
    (isRoot : root ∈ tables.roots) (editing : Editing reach after machine)
    (extends' : Extends (spaces root) after tables.machine machine fresh) :
    Housed { tables with machine } (Function.update spaces root after) := by
  have others : ∀ other, other ∈ tables.roots → other ≠ root → ∀ frame,
      (spaces other).Owns frame → ¬ after.Owns frame := by
    intro other isOther different frame owns edited
    rcases (extends'.owns frame).mp edited with old | new
    · exact housed.apart other isOther root isRoot different frame owns old
    · exact housed.used other isOther frame owns (extends'.freshFree frame new)
  have at' : ∀ other, other ∈ tables.roots → (other = root ∧
      Function.update spaces root after other = after) ∨
      (other ≠ root ∧ Function.update spaces root after other = spaces other) := by
    intro other _
    by_cases same : other = root
    · subst same
      exact Or.inl ⟨rfl, update_self _ _ _⟩
    · exact Or.inr ⟨same, update_of_ne same _ _⟩
  refine
    { nodup := housed.nodup
      pml4 := ?_
      wellFormed := ?_
      represents := ?_
      apart := ?_
      used := ?_
      active := ?_
      bounded := ?_ }
  · intro other isOther
    rcases at' other isOther with ⟨rfl, same⟩ | ⟨-, same⟩
    · rw [same, extends'.pml4, housed.pml4 other isOther]
    · rw [same, housed.pml4 other isOther]
  · intro other isOther
    rcases at' other isOther with ⟨-, same⟩ | ⟨-, same⟩
    · rw [same]
      exact editing.wellFormed
    · rw [same]
      exact housed.wellFormed other isOther
  · intro other isOther
    rcases at' other isOther with ⟨-, same⟩ | ⟨different, same⟩
    · rw [same]
      exact editing.represents
    · rw [same]
      exact (housed.represents other isOther).congr (housed.wellFormed other isOther)
        extends'.memory (others other isOther different)
  · intro first isFirst second isSecond different frame owns
    rcases at' first isFirst with ⟨rfl, same⟩ | ⟨firstOther, same⟩ <;>
      rcases at' second isSecond with ⟨rfl, same'⟩ | ⟨secondOther, same'⟩ <;>
      rw [same] at owns <;> rw [same']
    · exact absurd rfl different
    · exact fun also => others second isSecond secondOther frame also owns
    · exact others first isFirst firstOther frame owns
    · exact housed.apart first isFirst second isSecond different frame owns
  · intro other isOther frame owns
    rcases at' other isOther with ⟨-, same⟩ | ⟨-, same⟩
    · rw [same] at owns
      exact editing.used frame owns
    · rw [same] at owns
      exact fun free => housed.used other isOther frame owns ((extends'.free frame).mp free).1
  · show machine.cr3 ∈ tables.roots
    rw [extends'.cr3]
    exact housed.active
  · unfold Pmm.Bounded
    rw [extends'.limit]
    exact housed.bounded

theorem walk_congr {after : Tables} {spaces' : Nat → Space} (housed' : after.Housed spaces')
    (isRoot : root ∈ tables.roots) (still : root ∈ after.roots) (same : spaces' root = spaces root)
    {virt : Nat} (canonical : virt < 2 ^ 48) :
    walk after.machine.mem root virt = walk tables.machine.mem root virt := by
  have before := housed.pml4 root isRoot
  have wellFormed := housed.wellFormed root isRoot
  have represents := housed.represents root isRoot
  have represents' := housed'.represents root still
  rw [same] at represents'
  by_cases inside : virt < identityMapEnd
  · have old := Space.walk_eq_narrowed wellFormed represents inside
    have new := Space.walk_eq_narrowed wellFormed represents' inside
    rw [before] at old new
    rw [old, new]
  · have old := Space.walk_eq_none wellFormed represents (Nat.le_of_not_lt inside) canonical
    have new := Space.walk_eq_none wellFormed represents' (Nat.le_of_not_lt inside) canonical
    rw [before] at old new
    rw [old, new]

/-! ### What each event does -/

theorem mapRangeIn (isRoot : root ∈ tables.roots) {virt phys len : Nat} (flags : BitVec 64)
    (frames : List Nat) (sound : tables.Sound (.mapRangeIn root virt phys len flags)) :
    ∃ done after machine fresh mapped,
      Paging.mapRangeIn root virt phys len flags frames tables.machine =
        (.ok (done, frames ++ fresh), machine) ∧
      Editing (tables.Uses root) after machine ∧
      Extends (spaces root) after tables.machine machine fresh ∧ mapped ≤ len / 4096 ∧
      MappedPrefix (spaces root) after (virt / 4096) phys flags mapped ∧
      (0 < mapped → ValidRange virt len) ∧
      (done = true → ValidRange virt len ∧ mapped = len / 4096) ∧
      (ValidRange virt len → phys % 4096 = 0 →
        Pmm.Stocked (tablesNeeded (spaces root) (virt / 4096) (len / 4096)) tables.machine.pmm →
        done = true) := by
  obtain ⟨bounded, reaches, keeps⟩ := sound
  have editing := housed.editing isRoot reaches
  have pml4 := housed.pml4 root isRoot
  by_cases valid : ValidRange virt len ∧ phys % 4096 = 0
  · obtain ⟨done, after, machine, fresh, mapped, ran, edited, extends', few, views, complete,
        progress, -⟩ :=
      mapRangeIn_spec flags frames editing valid.1 valid.2 bounded
        (fun active => keeps (active.trans pml4)) (supplied tables root _)
    rw [pml4] at ran
    exact ⟨done, after, machine, fresh, mapped, ran, edited, extends', few, views,
      fun _ => valid.1, fun finished => ⟨valid.1, complete finished⟩, fun _ _ => progress⟩
  · refine ⟨false, spaces root, tables.machine, [], 0, ?_, editing, Extends.refl _ _,
      Nat.zero_le _, ⟨?_, by simp⟩, by simp, by simp,
      fun range aligned => absurd ⟨range, aligned⟩ valid⟩
    · unfold Paging.mapRangeIn
      rw [if_pos, append_nil]
      · rfl
      · unfold ValidRange at valid
        unfold pageSize
        omega
    · intro other _
      rw [if_neg (by omega)]

theorem unmapRangeIn (isRoot : root ∈ tables.roots) {virt len : Nat}
    (sound : tables.Sound (.unmapRangeIn root virt len)) :
    ∃ done after machine fresh,
      Paging.unmapRangeIn root virt len tables.machine = (.ok done, machine) ∧
      Editing (tables.Uses root) after machine ∧
      Extends (spaces root) after tables.machine machine fresh ∧
      (done = true → Clears (spaces root) after (virt / 4096) (len / 4096)) ∧
      (done = false → after = spaces root) := by
  obtain ⟨reaches, spares⟩ := sound
  have editing := housed.editing isRoot reaches
  have pml4 := housed.pml4 root isRoot
  by_cases valid : ValidRange virt len
  · obtain ⟨after, machine, fresh, ran, edited, extends', clears⟩ :=
      unmapRangeIn_outcome editing valid (supplied tables root)
        (fun active => spares (active.trans pml4))
    rw [pml4] at ran
    exact ⟨true, after, machine, fresh, ran, edited, extends', fun _ => clears, by simp⟩
  · exact ⟨false, spaces root, tables.machine, [], unmapRangeIn_invalid _ _ valid, editing,
      Extends.refl _ _, by simp, fun _ => rfl⟩

theorem mapPage {virt phys : Nat} {flags : BitVec 64}
    (sound : tables.Sound (.mapPage virt phys flags)) :
    ∃ done after machine fresh,
      KernelMap.mapPage tables.kernel virt phys flags tables.machine = (.ok done, machine) ∧
      Editing (tables.Uses tables.kernel) after machine ∧
      Extends (spaces tables.kernel) after tables.machine machine fresh := by
  obtain ⟨reaches, keeps⟩ := sound
  have isRoot := tables.kernel_mem_roots
  have pml4 := housed.pml4 _ isRoot
  have direct : tables.machine.cr3 = (spaces tables.kernel).pml4 →
      tables.Uses tables.kernel virt → phys = virt := by
    intro active uses
    have target := keeps (active.trans pml4) virt uses (le_refl virt) (by simp [pageSize])
    rwa [Nat.sub_self, Nat.add_zero] at target
  have spec := KernelMap.mapPage_spec flags (housed.editing isRoot reaches)
    (supplied tables tables.kernel 1) direct
  rw [pml4] at spec
  obtain ⟨done, after, machine, fresh, ran, editing, extends', -⟩ := spec
  exact ⟨done, after, machine, fresh, ran, editing, extends'⟩

theorem unmapPage {virt : Nat} (sound : tables.Sound (.unmapPage virt)) :
    ∃ done after machine fresh,
      KernelMap.unmapPage tables.kernel virt tables.machine = (.ok done, machine) ∧
      Editing (tables.Uses tables.kernel) after machine ∧
      Extends (spaces tables.kernel) after tables.machine machine fresh := by
  obtain ⟨reaches, spares⟩ := sound
  have isRoot := tables.kernel_mem_roots
  have pml4 := housed.pml4 _ isRoot
  have spec := KernelMap.unmapPage_spec (housed.editing isRoot reaches)
    (supplied tables tables.kernel 1)
    (fun active uses => spares (active.trans pml4) virt uses ⟨le_refl virt, by simp [pageSize]⟩)
  rw [pml4] at spec
  obtain ⟨done, after, machine, fresh, ran, editing, extends', -⟩ := spec
  exact ⟨done, after, machine, fresh, ran, editing, extends'⟩

end

theorem stage (housed : tables.Housed spaces) (active : tables.machine.cr3 = tables.kernel)
    (reaches : tables.Reaches tables.kernel) {proc : Process}
    (fresh : proc.frames = [] ∧ proc.mappings = []) :
    Loader.Stage (spaces tables.kernel) tables.machine.pmm.Free (fun _ => False)
      tables.machine.mem tables.machine proc := by
  have isRoot := tables.kernel_mem_roots
  have pml4 := housed.pml4 _ isRoot
  have wellFormed := housed.wellFormed _ isRoot
  exact
    { wellFormed
      represents := housed.represents _ isRoot
      direct := by
        rintro frame reached
        have uses : tables.Uses tables.kernel frame :=
          reached.imp id (fun owns => (housed.tableFrame_iff isRoot).mpr owns)
        obtain ⟨aligned, below⟩ := housed.uses_bounds isRoot uses
        exact direct_of_resolve wellFormed (housed.represents _ isRoot) (active.trans pml4.symm)
          aligned below (reaches frame uses)
      active := active.trans pml4.symm
      apart := fun frame free => ⟨Pmm.free_aligned free,
        lt_trans (housed.bounded.free_lt free).1 (by decide),
        fun owns => housed.used _ isRoot frame owns free⟩
      free := fun _ free => free
      bounded := housed.bounded
      owned := by
        refine ⟨?_, ?_, ?_, ?_, ?_⟩ <;> simp [fresh.1, fresh.2]
      frames := by simp [fresh.1]
      wrote := Space.AgreeOutside.refl _ _ }

theorem others_kept (housed : tables.Housed spaces) (isRoot : root ∈ tables.roots)
    {mem : ByteMemory}
    (wrote : Space.AgreeOutside tables.machine.pmm.Free tables.machine.mem mem) :
    (spaces root).Represents mem :=
  (housed.represents root isRoot).congr (housed.wellFormed root isRoot) wrote
    (housed.used root isRoot)

theorem buildAddressSpace (housed : tables.Housed spaces)
    (active : tables.machine.cr3 = tables.kernel) (reaches : tables.Reaches tables.kernel)
    {proc : Process} (fresh : proc.frames = [] ∧ proc.mappings = []) (spare : Nat) :
    Yields (Loader.buildAddressSpace tables.kernel) (tables.machine, proc)
      (fun pml4 state => ∃ space, space.pml4 = pml4 ∧
        Loader.Stage.CopyOf (spaces tables.kernel) space ∧
        Housed { tables with machine := state.1, live := tables.live ++ [pml4] }
          (Function.update spaces pml4 space) ∧ pml4 ∉ tables.roots ∧
        (∀ frame, space.Owns frame → tables.machine.pmm.Free frame) ∧
        ((∃ start, tables.machine.pmm.FreeRun start (6 + 2048 + spare)) →
          Pmm.Stocked spare state.1.pmm))
      (fun stop state => (∃ message, stop = .refused message) ∧
        Housed { tables with machine := state.1 } spaces ∧
        ¬ ∃ start, tables.machine.pmm.FreeRun start (6 + 2048 + spare)) := by
  have isRoot := tables.kernel_mem_roots
  have pml4 := housed.pml4 _ isRoot
  have few : Loader.Stage.copyFrames (spaces tables.kernel) ≤ 6 + 2048 := by
    unfold Loader.Stage.copyFrames Loader.Stage.splits
    have bound : (List.range' 0 2048).countP
        (fun block => ((spaces tables.kernel).pt block).isSome) ≤ (List.range' 0 2048).length :=
      countP_le_length
    rw [length_range'] at bound
    omega
  have stage := housed.stage active reaches fresh
  have stock : Pmm.Stock (fun _ => ¬ False)
      (∃ start, tables.machine.pmm.FreeRun start (6 + 2048 + spare))
      (Loader.Stage.copyFrames (spaces tables.kernel) + spare) tables.machine.pmm := by
    refine ⟨Or.inl (fun _ _ => id), fun plenty => ?_⟩
    obtain ⟨start, free⟩ := plenty
    exact ⟨start, fun index below => free index (by omega)⟩
  have yields := stage.buildAddressSpace stock
  rw [pml4] at yields
  rcases ran : Loader.buildAddressSpace tables.kernel (tables.machine, proc) with
    ⟨stop | root, machine, built⟩
  · -- Whatever was taken came from the free frames, and only those were written.
    refine yields_of_error ran ?_
    obtain ⟨short, ⟨message, rfl⟩, sameCr3, wrote⟩ := yields.of_error ran
    obtain ⟨⟨taken, grown⟩, -⟩ := Loader.gathers_buildAddressSpace _ _ _ _ ran (by
      rintro stop same ⟨fault, rfl⟩
      cases same)
    refine ⟨⟨message, rfl⟩, ?_, short⟩
    exact
      { housed with
        represents := fun other isOther => housed.others_kept isOther wrote
        used := fun other isOther frame owns free =>
          housed.used other isOther frame owns ((grown.takes.free frame).mp free).1
        active := by
          show machine.cr3 ∈ tables.roots
          rw [grown.takes.cr3]
          exact housed.active
        bounded := by
          show machine.pmm.Bounded
          unfold Pmm.Bounded
          rw [grown.takes.limit]
          exact housed.bounded }
  · obtain ⟨space, rfl, done⟩ := yields.of_ok ran
    refine yields_of_ok ran ⟨space, rfl, done.copy, ?_⟩
    have taken : ∀ frame, space.Owns frame → tables.machine.pmm.Free frame :=
      fun frame owns => (done.stage.frames frame (done.owned frame owns)).1
    have notRoot : space.pml4 ∉ tables.roots := by
      intro isOther
      refine housed.used _ isOther space.pml4 ?_ (taken _ (Space.owns_pml4 space))
      have owns := Space.owns_pml4 (spaces space.pml4)
      rwa [housed.pml4 _ isOther] at owns
    have at' : ∀ other, other ∈ tables.kernel :: (tables.live ++ [space.pml4]) →
        (other = space.pml4 ∧ Function.update spaces space.pml4 space other = space) ∨
        (other ∈ tables.roots ∧ Function.update spaces space.pml4 space other = spaces other) := by
      intro other member
      by_cases same : other = space.pml4
      · subst same
        exact Or.inl ⟨rfl, update_self _ _ _⟩
      · refine Or.inr ⟨?_, update_of_ne same _ _⟩
        have cases' : other = tables.kernel ∨ other ∈ tables.live ∨ other = space.pml4 := by
          simpa using member
        rcases cases' with rfl | live | isNew
        · exact kernel_mem_roots tables
        · exact mem_roots_of_live live
        · exact absurd isNew same
    refine ⟨?_, notRoot, taken, fun plenty => done.stock.stocked plenty⟩
    refine
      { nodup := ?_
        pml4 := ?_
        wellFormed := ?_
        represents := ?_
        apart := ?_
        used := ?_
        active := ?_
        bounded := done.stage.bounded }
    · show (tables.kernel :: (tables.live ++ [space.pml4])).Nodup
      rw [← cons_append, nodup_append]
      refine ⟨housed.nodup, nodup_singleton _, ?_⟩
      rintro other old _ new rfl
      rw [mem_singleton.mp new] at old
      exact notRoot old
    · intro other isOther
      rcases at' other isOther with ⟨rfl, same⟩ | ⟨old, same⟩
      · rw [same]
      · rw [same, housed.pml4 other old]
    · intro other isOther
      rcases at' other isOther with ⟨-, same⟩ | ⟨old, same⟩
      · rw [same]
        exact done.wellFormed
      · rw [same]
        exact housed.wellFormed other old
    · intro other isOther
      rcases at' other isOther with ⟨-, same⟩ | ⟨old, same⟩
      · rw [same]
        exact done.represents
      · rw [same]
        exact housed.others_kept old done.stage.wrote
    · intro first isFirst second isSecond different frame owns
      rcases at' first isFirst with ⟨rfl, same⟩ | ⟨firstOld, same⟩ <;>
        rcases at' second isSecond with ⟨rfl, same'⟩ | ⟨secondOld, same'⟩ <;>
        rw [same] at owns <;> rw [same']
      · exact absurd rfl different
      · exact fun also => housed.used second secondOld frame also (taken frame owns)
      · exact fun also => housed.used first firstOld frame owns (taken frame also)
      · exact housed.apart first firstOld second secondOld different frame owns
    · intro other isOther frame owns free
      rcases at' other isOther with ⟨-, same⟩ | ⟨old, same⟩
      · rw [same] at owns
        exact (done.stage.owned.held frame (done.owned frame owns)).2.2.2 free
      · rw [same] at owns
        exact housed.used other old frame owns (done.stage.free frame free)
    · show machine.cr3 ∈ tables.kernel :: (tables.live ++ [space.pml4])
      rw [done.stage.active, pml4]
      exact mem_cons_self

end Housed

/-! ### One step -/

def Effect (tables : Tables) (spaces : Nat → Space) (after : Tables) (spaces' : Nat → Space) :
    Event → Prop
  | .mapPage _ _ _ | .unmapPage _ =>
      after.live = tables.live ∧ ∃ space, spaces' = Function.update spaces tables.kernel space
  | .build =>
      (∃ space, after.live = tables.live ++ [space.pml4] ∧ space.pml4 ∉ tables.roots ∧
        spaces' = Function.update spaces space.pml4 space ∧
        Loader.Stage.CopyOf (spaces tables.kernel) space) ∨
      (after.live = tables.live ∧ spaces' = spaces)
  | .mapRangeIn root virt phys len flags =>
      root ∈ tables.live ∧ after.live = tables.live ∧ ∃ done frames mapped space,
        Paging.mapRangeIn root virt phys len flags [] tables.machine =
          (.ok (done, frames), after.machine) ∧
        spaces' = Function.update spaces root space ∧
        ((spaces root).UserUpward → space.UserUpward) ∧ mapped ≤ len / 4096 ∧
        MappedPrefix (spaces root) space (virt / 4096) phys flags mapped ∧
        (done = true → mapped = len / 4096)
  | .unmapRangeIn root virt len =>
      root ∈ tables.live ∧ after.live = tables.live ∧ ∃ done space,
        Paging.unmapRangeIn root virt len tables.machine = (.ok done, after.machine) ∧
        spaces' = Function.update spaces root space ∧
        ((spaces root).UserUpward → space.UserUpward) ∧
        (done = true → Clears (spaces root) space (virt / 4096) (len / 4096)) ∧
        (done = false → space = spaces root)
  | .activate _ | .allocator _ => after.live = tables.live ∧ spaces' = spaces
  | .retire root => after.live = tables.live.erase root ∧ spaces' = spaces

theorem Housed.step {tables after : Tables} {spaces : Nat → Space} {event : Event}
    (housed : tables.Housed spaces) (sound : tables.Sound event)
    (stepped : tables.step event = some after) :
    after.kernel = tables.kernel ∧
      ∃ spaces', after.Housed spaces' ∧ tables.Effect spaces after spaces' event := by
  cases event with
  | mapPage virt phys flags =>
      obtain ⟨done, space, machine, fresh, ran, editing, extends'⟩ := housed.mapPage sound
      simp only [Tables.step, edit, ran, Option.some.injEq] at stepped
      subst stepped
      exact ⟨rfl, _, housed.edited tables.kernel_mem_roots editing extends', rfl, space, rfl⟩
  | unmapPage virt =>
      obtain ⟨done, space, machine, fresh, ran, editing, extends'⟩ := housed.unmapPage sound
      simp only [Tables.step, edit, ran, Option.some.injEq] at stepped
      subst stepped
      exact ⟨rfl, _, housed.edited tables.kernel_mem_roots editing extends', rfl, space, rfl⟩
  | build =>
      simp only [Tables.step, build] at stepped
      split at stepped
      · rename_i active
        have yields := housed.buildAddressSpace active sound
          (show blankProcess.frames = [] ∧ blankProcess.mappings = [] from ⟨rfl, rfl⟩) 0
        rcases ran : Loader.buildAddressSpace tables.kernel (tables.machine, blankProcess) with
          ⟨stop | root, machine, built⟩
        · obtain ⟨⟨message, rfl⟩, kept, -⟩ := yields.of_error ran
          simp only [ran, Option.some.injEq] at stepped
          subst stepped
          exact ⟨rfl, spaces, kept, Or.inr ⟨rfl, rfl⟩⟩
        · obtain ⟨space, rfl, copy, kept, isNew, -⟩ := yields.of_ok ran
          simp only [ran, Option.some.injEq] at stepped
          subst stepped
          exact ⟨rfl, _, kept, Or.inl ⟨space, rfl, isNew, rfl, copy⟩⟩
      · cases stepped
  | mapRangeIn root virt phys len flags =>
      simp only [Tables.step] at stepped
      split at stepped
      · rename_i live
        obtain ⟨done, space, machine, fresh, mapped, ran, editing, extends', few, views, -,
          complete, -⟩ := housed.mapRangeIn (mem_roots_of_live live) flags [] sound
        simp only [edit, ran, Option.some.injEq] at stepped
        subst stepped
        exact ⟨rfl, _, housed.edited (mem_roots_of_live live) editing extends', live, rfl, done, _,
          mapped, space, ran, rfl, extends'.upward, few, views, fun finished => (complete finished).2⟩
      · cases stepped
  | unmapRangeIn root virt len =>
      simp only [Tables.step] at stepped
      split at stepped
      · rename_i live
        obtain ⟨done, space, machine, fresh, ran, editing, extends', clears, kept⟩ :=
          housed.unmapRangeIn (mem_roots_of_live live) sound
        simp only [edit, ran, Option.some.injEq] at stepped
        subst stepped
        exact ⟨rfl, _, housed.edited (mem_roots_of_live live) editing extends', live, rfl, done,
          space, ran, rfl, extends'.upward, clears, kept⟩
      · cases stepped
  | activate root =>
      simp only [Tables.step] at stepped
      split at stepped
      · rename_i isRoot
        cases stepped
        exact ⟨rfl, spaces, { housed with active := isRoot }, rfl, rfl⟩
      · cases stepped
  | allocator pmm =>
      cases stepped
      refine ⟨rfl, spaces, ?_, rfl, rfl⟩
      exact
        { housed with
          used := fun root isRoot frame owns free =>
            sound.2 frame free root isRoot ((housed.tableFrame_iff isRoot).mpr owns)
          bounded := sound.1 }
  | retire root =>
      simp only [Tables.step] at stepped
      split at stepped
      · rename_i leaving
        cases stepped
        have still : ∀ other, other ∈ tables.kernel :: tables.live.erase root →
            other ∈ tables.roots := by
          intro other member
          rcases mem_cons.mp member with rfl | live
          · exact kernel_mem_roots tables
          · exact mem_roots_of_live (mem_of_mem_erase live)
        refine ⟨rfl, spaces, ?_, rfl, rfl⟩
        exact
          { nodup := housed.nodup.sublist (List.Sublist.cons_cons _ erase_sublist)
            pml4 := fun other member => housed.pml4 other (still other member)
            wellFormed := fun other member => housed.wellFormed other (still other member)
            represents := fun other member => housed.represents other (still other member)
            apart := fun first isFirst second isSecond =>
              housed.apart first (still first isFirst) second (still second isSecond)
            used := fun other member => housed.used other (still other member)
            active := by
              rcases mem_cons.mp housed.active with isKernel | live
              · exact mem_cons.mpr (Or.inl isKernel)
              · exact mem_cons_of_mem _ ((mem_erase_of_ne leaving.2).mpr live)
            bounded := housed.bounded }
      · cases stepped

theorem Housed.reaches {tables : Tables} {spaces : Nat → Space} {root : Nat}
    (housed : tables.Housed spaces) (active : tables.machine.cr3 = tables.kernel)
    (identity : ∀ page, page < 2 ^ 20 →
      (spaces tables.kernel).view page = some (Space.kernelLeaf page))
    (isRoot : root ∈ tables.roots) : tables.Reaches root := by
  intro frame uses
  obtain ⟨aligned, below⟩ := housed.uses_bounds isRoot uses
  have limit : frame < 4294967296 := below
  have kernel := tables.kernel_mem_roots
  have phys := Space.walk_phys (housed.wellFormed _ kernel) (housed.represents _ kernel) below
  rw [identity _ (by omega), housed.pml4 _ kernel, ← active, Option.map_some] at phys
  obtain ⟨leaf, walked, target⟩ := Option.map_eq_some_iff.mp phys
  have page : leaf.phys = frame / 4096 * 4096 := target
  unfold Machine.resolve
  rw [walked, Option.map_some, page]
  congr 1
  omega

def ofSystem (sys : System) : Tables :=
  { machine := sys.machine, kernel := sys.layout.kernelPml4, live := [] }

end Tables

namespace Boot

/-- The tables after `events`, unless a kernel access faults on the way. -/
def tables (boot : Boot) (events : List Tables.Event) : Option Tables :=
  boot.start.bind (fun sys => Runs.after Tables.step (Tables.ofSystem sys) events)

def TablesMeet (boot : Boot) (condition : Tables → Tables.Event → Prop)
    (events : List Tables.Event) : Prop :=
  ∀ sys, boot.start = some sys →
    Runs.Meets Tables.step condition (Tables.ofSystem sys) events

end Boot

namespace Tables

theorem housed_start {boot : Boot} {sys : System} (valid : boot.Valid)
    (started : boot.start = some sys) :
    (ofSystem sys).Housed (fun _ => Boot.kernelSpace boot.pml4) := by
  have ready := Boot.ready_start valid started
  have stage := @Boot.Ready.stage _ _ ready (fun _ => False) blankProcess ⟨rfl, rfl⟩
  have kernel : ∀ root, root ∈ (ofSystem sys).roots → root = boot.pml4 := by
    intro root member
    rw [mem_singleton.mp member]
    exact ready.table
  exact
    { nodup := nodup_singleton _
      pml4 := fun root member => (kernel root member).symm
      wellFormed := fun _ _ => stage.wellFormed
      represents := fun _ _ => stage.represents
      apart := fun first isFirst second isSecond different =>
        absurd ((kernel first isFirst).trans (kernel second isSecond).symm) different
      used := fun _ _ frame owns free => (stage.apart frame (stage.free frame free)).2.2 owns
      active := by
        rw [show (ofSystem sys).machine.cr3 = boot.pml4 from ready.active]
        exact mem_singleton.mpr ready.table.symm
      bounded := ready.ledger.bounded }

theorem housed_run {tables after : Tables} {spaces : Nat → Space} {events : List Event}
    (housed : tables.Housed spaces) (meets : Runs.Meets step Sound tables events)
    (ran : Runs.after step tables events = some after) : ∃ spaces', after.Housed spaces' := by
  refine @Runs.after_invariant _ _ _ _ (fun tables => ∃ spaces, tables.Housed spaces) ?_ _ _ _
    ⟨spaces, housed⟩ meets ran
  rintro tables event next ⟨spaces, housed⟩ sound stepped
  obtain ⟨-, spaces', housed', -⟩ := housed.step sound stepped
  exact ⟨spaces', housed'⟩

/-- An edit of the table of `root`, or an event that touches no table. -/
def Event.Within (root : Nat) : Event → Prop
  | .mapRangeIn other _ _ _ _ | .unmapRangeIn other _ _ => other = root
  | .activate _ | .allocator _ => True
  | _ => False

theorem Housed.step_within {tables after : Tables} {spaces : Nat → Space} {event : Event}
    {root : Nat} (housed : tables.Housed spaces) (within : event.Within root)
    (sound : tables.Sound event) (stepped : tables.step event = some after) :
    after.roots = tables.roots ∧ ∃ spaces', after.Housed spaces' ∧
      ∀ other, other ≠ root → spaces' other = spaces other := by
  obtain ⟨kernel, spaces', housed', effect⟩ := housed.step sound stepped
  have sameRoots : after.live = tables.live → after.roots = tables.roots := by
    intro live
    unfold roots
    rw [kernel, live]
  cases event with
  | mapPage virt phys flags => exact absurd within id
  | unmapPage virt => exact absurd within id
  | build => exact absurd within id
  | retire other => exact absurd within id
  | mapRangeIn other virt phys len flags =>
      obtain rfl : other = root := within
      obtain ⟨-, live, done, frames, mapped, space, -, rfl, -⟩ := effect
      exact ⟨sameRoots live, _, housed', fun _ different => update_of_ne different _ _⟩
  | unmapRangeIn other virt len =>
      obtain rfl : other = root := within
      obtain ⟨-, live, done, space, -, rfl, -⟩ := effect
      exact ⟨sameRoots live, _, housed', fun _ different => update_of_ne different _ _⟩
  | activate other =>
      obtain ⟨live, rfl⟩ := effect
      exact ⟨sameRoots live, _, housed', fun _ _ => rfl⟩
  | allocator pmm =>
      obtain ⟨live, rfl⟩ := effect
      exact ⟨sameRoots live, _, housed', fun _ _ => rfl⟩

theorem Housed.run_within {tables after : Tables} {spaces : Nat → Space} {edits : List Event}
    {root : Nat} (housed : tables.Housed spaces)
    (within : ∀ event, event ∈ edits → event.Within root)
    (meets : Runs.Meets Tables.step Sound tables edits)
    (ran : Runs.after Tables.step tables edits = some after) :
    after.roots = tables.roots ∧ ∃ spaces', after.Housed spaces' ∧
      ∀ other, other ≠ root → spaces' other = spaces other := by
  induction edits generalizing tables spaces with
  | nil =>
      cases ran
      exact ⟨rfl, spaces, housed, fun _ _ => rfl⟩
  | cons event rest ih =>
      rw [Runs.after] at ran
      cases stepped : Tables.step tables event with
      | none =>
          rw [stepped] at ran
          cases ran
      | some next =>
          rw [stepped] at ran
          obtain ⟨sameRoots, middle, housed', same⟩ :=
            housed.step_within (within event mem_cons_self) meets.1 stepped
          obtain ⟨sameRoots', spaces', housed'', same'⟩ :=
            ih housed' (fun other member => within other (mem_cons_of_mem _ member))
              (meets.2 next stepped) ran
          exact ⟨sameRoots'.trans sameRoots, spaces', housed'',
            fun other different => (same' other different).trans (same other different)⟩

end Tables

namespace Boot

theorem housed_tables {boot : Boot} {events : List Tables.Event} {tables : Tables}
    (valid : boot.Valid) (meets : boot.TablesMeet Tables.Sound events)
    (ran : boot.tables events = some tables) : ∃ spaces, tables.Housed spaces := by
  unfold Boot.tables at ran
  cases started : boot.start with
  | none =>
      rw [started] at ran
      cases ran
  | some sys =>
      rw [started] at ran
      exact Tables.housed_run (Tables.housed_start valid started) (meets sys started) ran

/-- In every run whose edits kernel pointers can carry out: `build_address_space` copies the
kernel's map into frames of its own or finds memory too short, and edits of one table leave
every translation of the others as it was. -/
theorem address_spaces_apart {boot : Boot} {events : List Tables.Event} {tables : Tables}
    (valid : boot.Valid) (meets : boot.TablesMeet Tables.Sound events)
    (ran : boot.tables events = some tables) :
    (tables.machine.cr3 = tables.kernel → tables.Sound .build → ∀ entry heapStart abi,
      Fallible.Yields (Loader.buildAddressSpace tables.kernel)
        (tables.machine, System.newProcess entry heapStart abi)
        (fun pml4 state =>
          (∀ virt, virt < identityMapEnd → walkLeaf state.1.mem pml4 virt =
            walkLeaf tables.machine.mem tables.kernel virt) ∧
          ∀ root, root ∈ tables.roots → ∀ frame, TableFrame state.1.mem pml4 frame →
            ¬ TableFrame state.1.mem root frame)
        (fun stop _ => (∃ message, stop = .refused message) ∧
          ¬ ∃ start, tables.machine.pmm.FreeRun start (6 + 2048))) ∧
    ∀ root edits after, (∀ event, event ∈ edits → event.Within root) →
      Runs.Meets Tables.step Tables.Sound tables edits →
      Runs.after Tables.step tables edits = some after →
      ∀ other, other ∈ tables.roots → other ≠ root → ∀ virt, virt < 2 ^ 48 →
        walk after.machine.mem other virt = walk tables.machine.mem other virt := by
  obtain ⟨spaces, housed⟩ := housed_tables valid meets ran
  have isRoot := tables.kernel_mem_roots
  refine ⟨?_, ?_⟩
  · intro active reaches entry heapStart abi
    have yields := housed.buildAddressSpace active reaches
      (show (System.newProcess entry heapStart abi).frames = [] ∧
        (System.newProcess entry heapStart abi).mappings = [] from ⟨rfl, rfl⟩) 0
    unfold Fallible.Yields at yields ⊢
    split at yields
    · obtain ⟨space, rfl, copy, housed', isNew, -⟩ := yields
      have inside' : space.pml4 ∈ tables.kernel :: (tables.live ++ [space.pml4]) := by simp
      refine ⟨?_, ?_⟩
      · intro virt below
        have limit : virt < 4294967296 := below
        have theirs := Space.walkLeaf_eq (housed.wellFormed _ isRoot)
          (housed.represents _ isRoot) below
        have represents := housed'.represents _ inside'
        have wellFormed := housed'.wellFormed _ inside'
        rw [Function.update_self] at represents wellFormed
        have ours := Space.walkLeaf_eq wellFormed represents below
        rw [housed.pml4 _ isRoot] at theirs
        exact (ours.trans (copy.view (by omega))).trans theirs.symm
      · intro root member frame ours theirs
        have different : space.pml4 ≠ root := fun same => isNew (same ▸ member)
        have member' : root ∈ tables.kernel :: (tables.live ++ [space.pml4]) := by
          rcases List.mem_cons.mp member with rfl | live
          · exact List.mem_cons_self
          · exact List.mem_cons_of_mem _ (List.mem_append_left _ live)
        exact housed'.apart _ inside' _ member' different frame
          ((housed'.tableFrame_iff inside').mp ours) ((housed'.tableFrame_iff member').mp theirs)
    · exact ⟨yields.1, yields.2.2⟩
  · intro root edits after within meets' ran' other member different virt canonical
    obtain ⟨sameRoots, spaces', housed', same⟩ := housed.run_within within meets' ran'
    exact housed.walk_congr housed' member (sameRoots ▸ member) (same other different) canonical

/-! ### On the small machine -/

theorem plain_tables : ∃ tables, plain.tables [] = some tables ∧
    tables.Housed (fun _ => kernelSpace plain.pml4) ∧ tables.live = [] ∧
    tables.machine.cr3 = tables.kernel ∧ tables.kernel = plain.pml4 ∧
    ∀ frame, tables.machine.pmm.Free frame ↔
      frame % 4096 = 0 ∧ 0x6800000 ≤ frame ∧ frame < 0x10000000 := by
  obtain ⟨pmm, started, free⟩ := plain_start
  have housed := Tables.housed_start plain_valid started
  have ready := ready_start plain_valid started
  refine ⟨Tables.ofSystem (plain.firstSystem plain.bootTables 0x4000000 pmm), ?_, housed, rfl, ?_,
    ready.table, free⟩
  · unfold tables
    rw [started]
    rfl
  · exact ready.active.trans ready.table.symm

theorem tables_snoc {boot : Boot} {events : List Tables.Event} {event : Tables.Event}
    {tables after : Tables} (ran : boot.tables events = some tables)
    (stepped : tables.step event = some after) : boot.tables (events ++ [event]) = some after := by
  unfold Boot.tables at ran ⊢
  cases started : boot.start with
  | none =>
      rw [started] at ran
      cases ran
  | some sys =>
      rw [started] at ran
      refine Runs.after_append.mpr ⟨tables, ran, ?_⟩
      simp only [Runs.after, stepped]

/-- `unmap_page` on a frame the allocator will hand out, then `build_address_space`: the first
write to the new table has nowhere to go. -/
theorem unmapped_frame_stops_copy : ∃ tables virt addr after,
    plain.tables [.unmapPage virt] = some tables ∧
    Loader.buildAddressSpace tables.kernel (tables.machine, System.newProcess 0 0 .native) =
      (.error (.fault ⟨addr⟩), after) := by
  obtain ⟨tables, started, housed, noneLive, active, table, free⟩ := plain_tables
  obtain ⟨first, pmm₁, allocated₁, -⟩ :=
    Pmm.frameAlloc_of_free ((free 0x6800000).mpr (by decide))
  have free₁ := Pmm.free_frameAlloc allocated₁
  obtain ⟨virt, pmm₂, allocated₂, -⟩ : ∃ virt pmm, pmm₁.frameAlloc = (some virt, pmm) ∧ True := by
    by_cases early : first = 0x6800000
    · obtain ⟨virt, pmm, given, -⟩ := Pmm.frameAlloc_of_free
        ((free₁ 0x6801000).mpr ⟨(free _).mpr (by decide), by omega⟩)
      exact ⟨virt, pmm, given, trivial⟩
    · obtain ⟨virt, pmm, given, -⟩ := Pmm.frameAlloc_of_free
        ((free₁ 0x6800000).mpr ⟨(free _).mpr (by decide), fun same => early same.symm⟩)
      exact ⟨virt, pmm, given, trivial⟩
  obtain ⟨wasFree, apart⟩ := (free₁ virt).mp (Pmm.frameAlloc_some allocated₂).1
  obtain ⟨aligned, above, below⟩ := (free virt).mp wasFree
  have isRoot := tables.kernel_mem_roots
  have wellFormed := housed.wellFormed _ isRoot
  have firstFree := (free first).mp (Pmm.frameAlloc_some allocated₁).1
  have fourGiB : identityMapEnd = 4294967296 := rfl
  let reach : Nat → Prop := fun frame => (kernelSpace plain.pml4).Owns frame ∨ frame = first
  have reachAligned : ∀ frame, reach frame → frame % 4096 = 0 := by
    rintro frame (owns | rfl)
    · exact wellFormed.aligned frame owns
    · exact firstFree.1
  have editing : Editing reach (kernelSpace plain.pml4) tables.machine :=
    { wellFormed
      represents := housed.represents _ isRoot
      owned := fun _ owns => Or.inl owns
      used := housed.used _ isRoot
      aligned := reachAligned
      bounded := by
        rintro frame (owns | rfl)
        · exact wellFormed.bounded frame owns
        · omega
      active := by
        refine Or.inl ⟨active.trans table, fun frame reached => ⟨_, rfl, ?_⟩⟩
        have frameAligned := reachAligned frame reached
        simp only [Space.kernelLeaf]
        omega }
  have place : virt / 4096 * 4096 = virt := by omega
  obtain ⟨done, after, machine, fresh, ran, editing', extends', pmm', refused, views⟩ :=
    editEntry_spec (pagePresent ||| pageWritable) 0#64 editing (show virt / 4096 < 2 ^ 20 by omega)
      (by
        unfold Pmm.Supplies
        rw [allocated₁]
        exact ⟨Or.inr rfl, trivial⟩) (by simp)
      (fun _ reached => by
        rw [place] at reached
        rcases reached with owns | same
        · exact absurd wasFree (housed.used _ isRoot virt owns)
        · exact absurd same apart)
  rw [place] at ran
  have finished : done = true := by
    cases done with
    | true => rfl
    | false =>
        have none' := (refused rfl).2
        rw [allocated₁] at none'
        cases none'
  rw [if_pos (kernelSpace_pt _ _), allocated₁] at pmm'
  have unmapped : KernelMap.unmapPage tables.kernel virt tables.machine = (.ok done, machine) := by
    unfold KernelMap.unmapPage
    rw [if_neg, table]
    · exact ran
    · simp only [show pageSize = 4096 from rfl, fourGiB]
      omega
  have stepped : tables.step (.unmapPage virt) = some { tables with machine } := by
    simp only [Tables.step, Tables.edit, unmapped]
  have next := tables_snoc started stepped
  rw [List.nil_append] at next
  refine ⟨_, virt, virt, ({ machine with pmm := pmm₂ }, System.newProcess 0 0 .native), next, ?_⟩
  -- The frame `virt` is the next one, and its page is gone from the active table.
  have gone : ({ machine with pmm := pmm₂ } : Machine).resolve virt = none := by
    have walked := Space.walk_phys editing'.wellFormed editing'.represents
      (show virt < identityMapEnd by omega)
    rw [views _ (by omega), if_pos ⟨finished, rfl⟩] at walked
    unfold Machine.resolve
    rw [show machine.cr3 = after.pml4 from
      extends'.cr3.trans ((active.trans table).trans extends'.pml4.symm)]
    rw [Option.map_eq_none_iff.mp (walked.trans (by simp [leafOf]))]
    rfl
  have taken : frameAlloc machine = (.ok (some virt), { machine with pmm := pmm₂ }) := by
    unfold frameAlloc
    rw [pmm', allocated₂]
  have zeroed : zeroBytes virt Pmm.frameSize { machine with pmm := pmm₂ } =
      (.error ⟨virt⟩, { machine with pmm := pmm₂ }) := by
    refine Fallible.bind_of_error ?_
    unfold storeByte
    rw [gone]
  unfold Loader.buildAddressSpace
  refine Fallible.bind_of_error ?_
  unfold Loader.allocFrame
  rw [Fallible.bind_of_ok (Loader.onMachine_of_ok taken)]
  refine Fallible.bind_of_error ?_
  unfold Loader.onMachine
  rw [zeroed]

theorem plain_built : ∃ tables spaces root, plain.tables [.build] = some tables ∧
    plain.TablesMeet Tables.Sound [.build] ∧ tables.Housed spaces ∧ tables.live = [root] ∧
    tables.machine.cr3 = tables.kernel ∧ root ≠ tables.kernel ∧
    spaces tables.kernel = kernelSpace plain.pml4 ∧ Pmm.Stocked 1 tables.machine.pmm ∧
    (∀ frame, (spaces root).Owns frame → frame < 0x10000000) ∧
    ∀ page, page < 2 ^ 20 → (spaces root).view page = some (Space.kernelLeaf page) := by
  obtain ⟨tables, started, housed, noneLive, active, table, free⟩ := plain_tables
  have reaches := housed.reaches active (fun page _ => kernelSpace_view _ page)
    tables.kernel_mem_roots
  have yields := housed.buildAddressSpace active reaches
    (show Tables.blankProcess.frames = [] ∧ Tables.blankProcess.mappings = [] from ⟨rfl, rfl⟩) 1
  have plenty : ∃ start, tables.machine.pmm.FreeRun start (6 + 2048 + 1) := by
    refine ⟨0x6800000, fun index below => (free _).mpr ?_⟩
    have size : Pmm.frameSize = 4096 := rfl
    rw [size]
    omega
  rcases ran : Loader.buildAddressSpace tables.kernel (tables.machine, Tables.blankProcess) with
    ⟨stop | root, machine, built⟩
  · exact absurd plenty (yields.of_error ran).2.2
  · obtain ⟨space, rfl, copy, housed', isNew, taken, left⟩ := yields.of_ok ran
    rw [noneLive, nil_append] at housed'
    have different : space.pml4 ≠ tables.kernel := fun same => isNew (by
      rw [same]
      exact tables.kernel_mem_roots)
    have stepped : tables.step .build = some
        { tables with machine, live := [space.pml4] } := by
      simp only [Tables.step, Tables.build, if_pos active, ran, noneLive, nil_append]
    have sameCr3 : machine.cr3 = tables.kernel := by
      obtain ⟨⟨taken, grown⟩, -⟩ := Loader.gathers_buildAddressSpace _ _ _ _ ran (by
        rintro stop same
        cases same)
      exact grown.takes.cr3.trans active
    have next := tables_snoc started stepped
    rw [nil_append] at next
    refine ⟨_, _, _, next, ?_, housed', rfl, sameCr3, different, ?_, left plenty, ?_, ?_⟩
    · intro sys at'
      have same : Tables.ofSystem sys = tables := by
        unfold Boot.tables at started
        rw [at'] at started
        exact Option.some.inj started
      rw [same]
      exact ⟨reaches, fun _ _ => trivial⟩
    · exact update_of_ne (Ne.symm different) _ _
    · intro frame owns
      rw [update_self] at owns
      exact ((free frame).mp (taken frame owns)).2.2
    · intro page inside
      rw [update_self, copy.view inside, kernelSpace_view]

theorem address_spaces_apart_mapped : ∃ tables root after, plain.tables [.build] = some tables ∧
    tables.live = [root] ∧ Runs.after Tables.step tables
      [.mapRangeIn root 0x40000000 0x6800000 4096 (pagePresent ||| pageWritable ||| pageUser)] =
      some after ∧
    ∀ virt, virt < 2 ^ 48 →
      walk after.machine.mem tables.kernel virt = walk tables.machine.mem tables.kernel virt := by
  obtain ⟨tables, spaces, root, ran, meets, housed, live, active, different, kernel, -⟩ :=
    plain_built
  have isLive : root ∈ tables.live := by simp [live]
  have sound : tables.Sound (.mapRangeIn root 0x40000000 0x6800000 4096
      (pagePresent ||| pageWritable ||| pageUser)) :=
    ⟨by decide, housed.reaches active (fun page _ => by rw [kernel, kernelSpace_view])
      (Tables.mem_roots_of_live isLive), fun own => absurd (own.symm.trans active) different⟩
  obtain ⟨done, space, machine, fresh, mapped, mapping, -⟩ :=
    housed.mapRangeIn (Tables.mem_roots_of_live isLive) _ [] sound
  have stepped : Runs.after Tables.step tables
      [.mapRangeIn root 0x40000000 0x6800000 4096 (pagePresent ||| pageWritable ||| pageUser)] =
      some { tables with machine } := by
    simp only [Runs.after, Tables.step, if_pos isLive, Tables.edit, mapping]
  refine ⟨tables, root, _, ran, live, stepped, ?_⟩
  have onlyRoot : Runs.Meets Tables.step Tables.Sound tables
      [.mapRangeIn root 0x40000000 0x6800000 4096 (pagePresent ||| pageWritable ||| pageUser)] :=
    ⟨sound, fun _ _ => trivial⟩
  exact (address_spaces_apart plain_valid meets ran).2 root _ _ (by simp [Tables.Event.Within])
    onlyRoot stepped tables.kernel tables.kernel_mem_roots (Ne.symm different)

end Boot
end MachaOS
