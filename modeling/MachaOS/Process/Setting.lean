/-
The loader at work, byte for byte.

`Laid` says which pages of a process the loader has opened and who owns the
frames behind them.  What follows keeps what `Laid` forgets: the entry every
page got and every byte that was written.  It asks for less, only that the
loader edits `space` from another table that maps the free frames at their own
addresses.
-/

import MachaOS.Process.Loading

namespace MachaOS.Loader

open Fallible Machine Paging

structure Setting (reach : Nat → Prop) (space : Space) (machine : Machine) : Prop where
  editing : Editing reach space machine
  upward : space.UserUpward
  inactive : machine.cr3 ≠ space.pml4
  spare : ∀ frame, machine.pmm.Free frame → reach frame

/-- Frames the loader may write to: in use, and no table of `space`. -/
structure Reserved (reach : Nat → Prop) (space : Space) (machine : Machine) (frame : Nat) :
    Prop where
  reached : reach frame
  apart : ¬ space.Owns frame
  used : ¬ machine.pmm.Free frame

namespace Setting

variable {reach : Nat → Prop} {space after : Space} {machine machine' : Machine}
  {proc : Process}

theorem extend {fresh : List Nat} (setting : Setting reach space machine)
    (edited : Editing reach after machine') (extends' : Extends space after machine machine' fresh) :
    Setting reach after machine' :=
  { editing := edited
    upward := extends'.upward setting.upward
    inactive := by
      rw [extends'.cr3, extends'.pml4]
      exact setting.inactive
    spare := fun frame free => setting.spare frame ((extends'.free frame).mp free).1 }

theorem reserved_extend {fresh : List Nat} {frame : Nat}
    (reserved : Reserved reach space machine frame)
    (extends' : Extends space after machine machine' fresh) :
    Reserved reach after machine' frame := by
  refine ⟨reserved.reached, fun owns => ?_, fun free => ?_⟩
  · rcases (extends'.owns frame).mp owns with old | new
    · exact reserved.apart old
    · exact reserved.used (extends'.freshFree frame new)
  · exact reserved.used ((extends'.free frame).mp free).1

theorem sameOn_extend {fresh : List Nat} {frame : Nat} (setting : Setting reach space machine)
    (reserved : Reserved reach space machine frame)
    (extends' : Extends space after machine machine' fresh) :
    ByteMemory.SameOn machine.mem machine'.mem frame 4096 := by
  intro at' lower upper
  have aligned := setting.editing.aligned frame reserved.reached
  have page : at' / 4096 * 4096 = frame := by omega
  apply extends'.memory
  rw [page]
  exact (reserved_extend reserved extends').apart

/-- The frames of `kept` stay reserved and hold what they held in `origin`. -/
def Keeping (reach kept : Nat → Prop) (origin : ByteMemory) (space : Space) (machine : Machine) :
    Prop :=
  ∀ frame, kept frame →
    Reserved reach space machine frame ∧ ByteMemory.SameOn origin machine.mem frame 4096

section

variable {kept : Nat → Prop} {origin : ByteMemory}

theorem Keeping.start (reserved : ∀ frame, kept frame → Reserved reach space machine frame) :
    Keeping reach kept machine.mem space machine :=
  fun frame isKept => ⟨reserved frame isKept, ByteMemory.SameOn.refl _ _ _⟩

theorem Keeping.extend {fresh : List Nat} (keeping : Keeping reach kept origin space machine)
    (setting : Setting reach space machine)
    (extends' : Extends space after machine machine' fresh) :
    Keeping reach kept origin after machine' := by
  intro frame isKept
  obtain ⟨reserved, same⟩ := keeping frame isKept
  exact ⟨reserved_extend reserved extends', same.trans (setting.sameOn_extend reserved extends')⟩

theorem Keeping.take {pmm : Pmm} (keeping : Keeping reach kept origin space machine)
    (fewer : ∀ frame, pmm.Free frame → machine.pmm.Free frame) :
    Keeping reach kept origin space { machine with pmm } := by
  intro frame isKept
  obtain ⟨reserved, same⟩ := keeping frame isKept
  exact ⟨⟨reserved.reached, reserved.apart, fun free => reserved.used (fewer frame free)⟩, same⟩

theorem Keeping.write {written : Nat → Prop} {mem : ByteMemory}
    (keeping : Keeping reach kept origin space machine) (setting : Setting reach space machine)
    (agree : Space.AgreeOutside written machine.mem mem)
    (elsewhere : ∀ frame, written frame → ¬ kept frame) :
    Keeping reach kept origin space { machine with mem } := by
  intro frame isKept
  obtain ⟨reserved, same⟩ := keeping frame isKept
  refine ⟨⟨reserved.reached, reserved.apart, reserved.used⟩, same.trans ?_⟩
  intro at' lower upper
  have aligned := setting.editing.aligned frame reserved.reached
  have page : at' / 4096 * 4096 = frame := by omega
  apply agree
  rw [page]
  exact fun wrote => elsewhere frame wrote isKept

end

theorem allocBlock {pages : Nat} (setting : Setting reach space machine) :
    Yields (Loader.allocBlock pages) (machine, proc)
      (fun phys state => ∃ pmm, machine.pmm.allocContiguous pages = (some phys, pmm) ∧
        state = ({ machine with pmm },
          { proc with frames := proc.frames ++ Pmm.frameRun phys pages }) ∧
        Setting reach space { machine with pmm } ∧
        (∀ frame, frame ∈ Pmm.frameRun phys pages →
          machine.pmm.Free frame ∧ Reserved reach space { machine with pmm } frame) ∧
        ∀ frame, pmm.Free frame → machine.pmm.Free frame)
      (fun stop _ => (∃ message, stop = .refused message) ∧
        (machine.pmm.allocContiguous pages).1 = none) := by
  unfold Loader.allocBlock
  rcases given : machine.pmm.allocContiguous pages with ⟨_ | phys, pmm⟩
  · have ran : allocContiguous pages machine = (.ok none, { machine with pmm }) := by
      simp [allocContiguous, given]
    exact yields_of_error (by rw [bind_of_ok (onMachine_of_ok ran)]; rfl)
      ⟨⟨"out of memory", rfl⟩, rfl⟩
  · have ran : allocContiguous pages machine = (.ok (some phys), { machine with pmm }) := by
      simp [allocContiguous, given]
    obtain ⟨-, blockFree, -, -, -⟩ := Pmm.allocContiguous_some given
    have freeAfter := Pmm.free_allocContiguous given
    have fewer : ∀ frame, pmm.Free frame → machine.pmm.Free frame :=
      fun frame free => ((freeAfter frame).mp free).1
    refine yields_of_ok (by rw [bind_of_ok (onMachine_of_ok ran)]; rfl) ⟨pmm, rfl, rfl, ?_, ?_, ?_⟩
    · exact
        { editing := setting.editing.with_pmm fewer
          upward := setting.upward
          inactive := setting.inactive
          spare := fun frame free => setting.spare frame (fewer frame free) }
    · intro frame member
      obtain ⟨index, inside, same⟩ := Pmm.mem_frameRun.mp member
      have wasFree : machine.pmm.Free frame := by
        rw [same]
        exact blockFree index inside
      refine ⟨wasFree, setting.spare frame wasFree, ?_, ?_⟩
      · intro owns
        exact setting.editing.used frame owns wasFree
      · intro free
        exact ((freeAfter frame).mp free).2 ⟨by omega, by omega⟩
    · exact fewer

theorem of_write {written : Nat → Prop} {mem : ByteMemory}
    (setting : Setting reach space machine)
    (agree : Space.AgreeOutside written machine.mem mem)
    (reserved : ∀ frame, written frame → Reserved reach space machine frame) :
    Setting reach space { machine with mem } :=
  { editing := setting.editing.agree_outside rfl rfl agree
      (fun frame wrote => (reserved frame wrote).reached)
      (fun frame wrote => (reserved frame wrote).apart)
    upward := setting.upward
    inactive := setting.inactive
    spare := setting.spare }

theorem copyBytes {addr : Nat} {bytes : List (BitVec 8)} (setting : Setting reach space machine)
    (reserved : ∀ frame, Touches addr bytes.length frame → Reserved reach space machine frame) :
    Machine.copyBytes addr bytes machine =
        (.ok (), { machine with mem := machine.mem.writeBytes addr bytes }) ∧
      Setting reach space { machine with mem := machine.mem.writeBytes addr bytes } := by
  constructor
  · apply setting.editing.copyBytes
    intro frame touches
    exact ⟨(reserved frame touches).reached, (reserved frame touches).apart⟩
  · exact setting.of_write (agreeOutside_writeBytes machine.mem addr bytes) reserved

theorem zeroBytes {addr len : Nat} (setting : Setting reach space machine)
    (reserved : ∀ frame, Touches addr len frame → Reserved reach space machine frame) :
    Machine.zeroBytes addr len machine =
        (.ok (), { machine with mem := machine.mem.writeBytes addr (List.replicate len 0#8) }) ∧
      Setting reach space
        { machine with mem := machine.mem.writeBytes addr (List.replicate len 0#8) } := by
  rw [zeroBytes_eq_copyBytes]
  apply setting.copyBytes
  rw [List.length_replicate]
  exact reserved

theorem mapOrRefuse {virt phys len : Nat} {flags : BitVec 64}
    (setting : Setting reach space machine) (valid : ValidRange virt len)
    (aligned : phys % 4096 = 0) (bounded : phys + len ≤ 2 ^ 52) (message : String) :
    Yields (Loader.mapOrRefuse space.pml4 virt phys len flags message) (machine, proc)
      (fun _ state => ∃ fresh after, state.2 = { proc with frames := proc.frames ++ fresh } ∧
        Setting reach after state.1 ∧ Extends space after machine state.1 fresh ∧
        MappedPrefix space after (virt / 4096) phys flags (len / 4096) ∧
        ∃ taken, taken ≤ tablesNeeded space (virt / 4096) (len / 4096) ∧
          state.1.pmm = machine.pmm.allocs taken)
      (fun stop _ => stop = .refused message ∧
        ¬ Pmm.Stocked (tablesNeeded space (virt / 4096) (len / 4096)) machine.pmm) := by
  obtain ⟨done, after, machine', fresh, mapped, ran, edited, extends', -, views, complete,
    stocked, drawn⟩ := mapRangeIn_spec flags proc.frames setting.editing valid aligned bounded
      (fun active => absurd active setting.inactive)
      ((Pmm.supplies_free _ _).mono setting.spare)
  unfold Yields Loader.mapOrRefuse
  rw [bind_of_ok (Laid.mapRange_of_ok ran)]
  cases done with
  | false =>
      refine ⟨rfl, fun enough => ?_⟩
      cases stocked enough
  | true =>
      rw [complete rfl] at views
      exact ⟨fresh, after, rfl, setting.extend edited extends', extends', views, drawn⟩

end Setting
end MachaOS.Loader
