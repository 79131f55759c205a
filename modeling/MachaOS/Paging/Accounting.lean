/-
Frame accounting of the paging code, whatever the tables hold.

The loads and stores never touch the frame bitmap; only `frame_alloc` does.
So every frame a routine takes was free before, and, when the caller passes a
list, ends up in it.
-/

import MachaOS.Paging.Map

namespace MachaOS

open Fallible Paging

namespace Machine

def SameFrames (machine machine' : Machine) : Prop :=
  machine'.pmm = machine.pmm ∧ machine'.cr3 = machine.cr3

theorem SameFrames.refl (machine : Machine) : SameFrames machine machine :=
  ⟨rfl, rfl⟩

theorem SameFrames.trans {first second third : Machine} (left : SameFrames first second)
    (right : SameFrames second third) : SameFrames first third :=
  ⟨right.1.trans left.1, right.2.trans left.2⟩

abbrev Quiet {α : Type} (routine : Kernel α) : Prop :=
  Preserves SameFrames routine

theorem quiet_pure {α : Type} (value : α) : Quiet (pure value : Kernel α) :=
  preserves_pure SameFrames.refl value

theorem quiet_bind {α β : Type} {first : Kernel α} {next : α → Kernel β} (before : Quiet first)
    (later : ∀ value, Quiet (next value)) : Quiet (first >>= next) :=
  preserves_bind (fun _ _ _ left right => left.trans right) before later

theorem quiet_loadU64 (addr : Nat) : Quiet (loadU64 addr) := by
  intro machine
  unfold loadU64
  split <;> exact SameFrames.refl machine

theorem quiet_storeU64 (addr : Nat) (word : BitVec 64) : Quiet (storeU64 addr word) := by
  intro machine
  unfold storeU64
  split <;> exact ⟨rfl, rfl⟩

theorem quiet_loadByte (addr : Nat) : Quiet (loadByte addr) := by
  intro machine
  unfold loadByte
  split <;> exact SameFrames.refl machine

theorem quiet_storeByte (addr : Nat) (byte : BitVec 8) : Quiet (storeByte addr byte) := by
  intro machine
  unfold storeByte
  split <;> exact ⟨rfl, rfl⟩

theorem quiet_zeroBytes (addr len : Nat) : Quiet (zeroBytes addr len) := by
  induction len generalizing addr with
  | zero => exact quiet_pure ()
  | succ len ih => exact quiet_bind (quiet_storeByte addr 0#8) (fun _ => ih (addr + 1))

theorem quiet_copyBytes (addr : Nat) (bytes : List (BitVec 8)) :
    Quiet (copyBytes addr bytes) := by
  induction bytes generalizing addr with
  | nil => exact quiet_pure ()
  | cons byte rest ih =>
      exact quiet_bind (quiet_storeByte addr byte) (fun _ => ih (addr + 1))

theorem quiet_moveBytes (source target len : Nat) : Quiet (moveBytes source target len) := by
  induction len generalizing source target with
  | zero => exact quiet_pure ()
  | succ len ih =>
      exact quiet_bind (quiet_loadByte source)
        (fun byte => quiet_bind (quiet_storeByte target byte)
          (fun _ => ih (source + 1) (target + 1)))

/-- The routine took the frames `taken` from the bitmap and nothing else. -/
structure Takes (machine machine' : Machine) (taken : List Nat) : Prop where
  cr3 : machine'.cr3 = machine.cr3
  limit : machine'.pmm.lastUsableFrame = machine.pmm.lastUsableFrame
  free : ∀ frame, machine'.pmm.Free frame ↔ machine.pmm.Free frame ∧ frame ∉ taken
  wasFree : ∀ frame, frame ∈ taken → machine.pmm.Free frame
  nodup : taken.Nodup

namespace Takes

variable {machine machine' machine'' : Machine}

theorem of_same (same : SameFrames machine machine') : Takes machine machine' [] := by
  obtain ⟨samePmm, sameCr3⟩ := same
  exact
    { cr3 := sameCr3
      limit := by rw [samePmm]
      free := by simp [samePmm]
      wasFree := by simp
      nodup := List.nodup_nil }

theorem trans {first second : List Nat} (left : Takes machine machine' first)
    (right : Takes machine' machine'' second) : Takes machine machine'' (first ++ second) :=
  { cr3 := right.cr3.trans left.cr3
    limit := right.limit.trans left.limit
    free := by
      intro frame
      rw [right.free, left.free, List.mem_append]
      tauto
    wasFree := by
      intro frame mem
      rcases List.mem_append.mp mem with early | late
      · exact left.wasFree frame early
      · exact ((left.free frame).mp (right.wasFree frame late)).1
    nodup := by
      refine List.nodup_append.mpr ⟨left.nodup, right.nodup, ?_⟩
      intro frame early other late same
      subst same
      exact ((left.free frame).mp (right.wasFree frame late)).2 early }

theorem of_frameAlloc {frame : Nat} {pmm : Pmm}
    (given : machine.pmm.frameAlloc = (some frame, pmm)) :
    Takes machine { machine with pmm } [frame] :=
  { cr3 := rfl
    limit := (Pmm.frameAlloc_some given).2.1
    free := by
      intro other
      rw [List.mem_singleton]
      exact Pmm.free_frameAlloc given other
    wasFree := by
      intro other mem
      rw [List.mem_singleton.mp mem]
      exact (Pmm.frameAlloc_some given).1
    nodup := List.nodup_singleton frame }

end Takes

theorem frameAlloc_takes {machine machine' : Machine} {result : Option Nat}
    (ran : frameAlloc machine = (.ok result, machine')) :
    Takes machine machine' result.toList := by
  cases ran
  cases given : machine.pmm.frameAlloc with
  | mk found pmm =>
      cases found with
      | none =>
          obtain ⟨rfl, -⟩ := Pmm.frameAlloc_none given
          exact Takes.of_same ⟨rfl, rfl⟩
      | some frame => exact Takes.of_frameAlloc given

theorem allocContiguous_takes {machine machine' : Machine} {count : Nat} {result : Option Nat}
    (ran : allocContiguous count machine = (.ok result, machine')) :
    (result = none ∧ machine' = machine) ∨
      ∃ phys, result = some phys ∧ 0 < count ∧ phys % 4096 = 0 ∧
        Takes machine machine' (Pmm.frameRun phys count) := by
  cases ran
  cases given : machine.pmm.allocContiguous count with
  | mk found pmm =>
      cases found with
      | none =>
          obtain rfl := Pmm.allocContiguous_none given
          exact Or.inl ⟨rfl, rfl⟩
      | some phys =>
          obtain ⟨positive, free, limit, aligned, -⟩ := Pmm.allocContiguous_some given
          refine Or.inr ⟨phys, rfl, positive, aligned, ?_⟩
          exact
            { cr3 := rfl
              limit
              free := by
                intro frame
                rw [Pmm.free_allocContiguous given]
                constructor
                · rintro ⟨was, outside⟩
                  refine ⟨was, fun mem => outside ?_⟩
                  exact (Pmm.mem_frameRun_of_aligned aligned (Pmm.free_aligned was)).mp mem
                · rintro ⟨was, outside⟩
                  refine ⟨was, fun within => outside ?_⟩
                  exact (Pmm.mem_frameRun_of_aligned aligned (Pmm.free_aligned was)).mpr within
              wasFree := by
                intro frame mem
                obtain ⟨index, inside, rfl⟩ := Pmm.mem_frameRun.mp mem
                exact free index inside
              nodup := Pmm.nodup_frameRun phys count }

end Machine

namespace Paging

open Machine

theorem quiet_promoteUser (addr : Nat) (entry flags : BitVec 64) :
    Quiet (promoteUser addr entry flags) := by
  unfold promoteUser orU64
  split
  · exact quiet_bind (quiet_loadU64 addr) (fun _ => quiet_storeU64 addr _)
  · exact quiet_pure ()

theorem quiet_fillTable (frame : Nat) (physBase pageFlags : BitVec 64) (index left : Nat) :
    Quiet (fillTable frame physBase pageFlags index left) := by
  induction left generalizing index with
  | zero => exact quiet_pure ()
  | succ left ih => exact quiet_bind (quiet_storeU64 _ _) (fun _ => ih (index + 1))

variable {machine' machine : Machine} {flags : BitVec 64}

theorem tableEntry_takes {pdEntry ptIdx : Nat} {frames after : Option (List Nat)}
    {result : Option Nat}
    (ran : tableEntry pdEntry ptIdx flags frames machine = (.ok (result, after), machine')) :
    ∃ taken, Takes machine machine' taken ∧ after = frames.map (· ++ taken) := by
  have keep : frames = frames.map (· ++ []) := by cases frames <;> simp
  unfold tableEntry at ran
  obtain ⟨pde, machine₁, loaded, ran⟩ := bind_eq_ok ran
  have first := Takes.of_same ((quiet_loadU64 pdEntry).of_run loaded)
  split at ran
  · obtain ⟨found, machine₂, given, ran⟩ := bind_eq_ok ran
    have second := frameAlloc_takes given
    cases found with
    | none =>
        cases ran
        exact ⟨[], first.trans second, keep⟩
    | some frame =>
        obtain ⟨_, machine₃, zeroed, ran⟩ := bind_eq_ok ran
        obtain ⟨_, machine₄, stored, ran⟩ := bind_eq_ok ran
        cases ran
        have third := Takes.of_same ((quiet_zeroBytes frame _).of_run zeroed)
        have fourth := Takes.of_same ((quiet_storeU64 pdEntry _).of_run stored)
        exact ⟨[frame], by simpa using ((first.trans second).trans third).trans fourth, rfl⟩
  · split at ran
    · obtain ⟨found, machine₂, given, ran⟩ := bind_eq_ok ran
      have second := frameAlloc_takes given
      cases found with
      | none =>
          cases ran
          exact ⟨[], first.trans second, keep⟩
      | some frame =>
          obtain ⟨_, machine₃, filled, ran⟩ := bind_eq_ok ran
          obtain ⟨_, machine₄, stored, ran⟩ := bind_eq_ok ran
          cases ran
          have third := Takes.of_same ((quiet_fillTable frame _ _ _ _).of_run filled)
          have fourth := Takes.of_same ((quiet_storeU64 pdEntry _).of_run stored)
          exact ⟨[frame], by simpa using ((first.trans second).trans third).trans fourth, rfl⟩
    · obtain ⟨current, machine₂, loadedAgain, ran⟩ := bind_eq_ok ran
      obtain ⟨_, machine₃, promoted, ran⟩ := bind_eq_ok ran
      cases ran
      have second := Takes.of_same ((quiet_loadU64 pdEntry).of_run loadedAgain)
      have third := Takes.of_same ((quiet_promoteUser pdEntry _ _).of_run promoted)
      exact ⟨[], by simpa using (first.trans second).trans third, keep⟩

theorem ptEntryPtrIn_takes {pml4 virt : Nat} {frames after : Option (List Nat)}
    {result : Option Nat}
    (ran : ptEntryPtrIn pml4 virt flags frames machine = (.ok (result, after), machine')) :
    ∃ taken, Takes machine machine' taken ∧ after = frames.map (· ++ taken) := by
  have keep : frames = frames.map (· ++ []) := by cases frames <;> simp
  unfold ptEntryPtrIn at ran
  obtain ⟨pml4e, machine₁, loadedTop, ran⟩ := bind_eq_ok ran
  have first := Takes.of_same ((quiet_loadU64 _).of_run loadedTop)
  split at ran
  · cases ran
    exact ⟨[], first, keep⟩
  obtain ⟨_, machine₂, promotedTop, ran⟩ := bind_eq_ok ran
  have second := Takes.of_same ((quiet_promoteUser _ _ _).of_run promotedTop)
  obtain ⟨pdpte, machine₃, loadedPdpt, ran⟩ := bind_eq_ok ran
  have third := Takes.of_same ((quiet_loadU64 _).of_run loadedPdpt)
  split at ran
  · cases ran
    exact ⟨[], by simpa using (first.trans second).trans third, keep⟩
  obtain ⟨_, machine₄, promotedPdpt, ran⟩ := bind_eq_ok ran
  have fourth := Takes.of_same ((quiet_promoteUser _ _ _).of_run promotedPdpt)
  obtain ⟨taken, last, recorded⟩ := tableEntry_takes ran
  exact ⟨taken, by simpa using (((first.trans second).trans third).trans fourth).trans last,
    recorded⟩

theorem mapPages_takes {pml4 left virt phys : Nat} {frames after : List Nat} {done : Bool}
    (ran : mapPages pml4 flags left virt phys frames machine = (.ok (done, after), machine')) :
    ∃ taken, Takes machine machine' taken ∧ after = frames ++ taken := by
  induction left generalizing virt phys frames machine with
  | zero =>
      cases ran
      exact ⟨[], Takes.of_same (SameFrames.refl _), by simp⟩
  | succ left ih =>
      rw [mapPages] at ran
      obtain ⟨⟨entry, recorded⟩, machine₁, found, ran⟩ := bind_eq_ok ran
      obtain ⟨taken, first, rfl⟩ := ptEntryPtrIn_takes found
      cases entry with
      | none =>
          cases ran
          exact ⟨taken, first, rfl⟩
      | some entry =>
          obtain ⟨_, machine₂, stored, ran⟩ := bind_eq_ok ran
          have second := Takes.of_same ((quiet_storeU64 entry _).of_run stored)
          obtain ⟨later, third, rfl⟩ := ih ran
          refine ⟨taken ++ later, by simpa using (first.trans second).trans third, ?_⟩
          simp

theorem mapRangeIn_takes {pml4 virt phys len : Nat} {frames after : List Nat} {done : Bool}
    (ran : mapRangeIn pml4 virt phys len flags frames machine = (.ok (done, after), machine')) :
    ∃ taken, Takes machine machine' taken ∧ after = frames ++ taken := by
  unfold mapRangeIn at ran
  split at ran
  · cases ran
    exact ⟨[], Takes.of_same (SameFrames.refl _), by simp⟩
  · exact mapPages_takes ran

theorem unmapPages_takes {pml4 left virt : Nat} {value : Unit}
    (ran : unmapPages pml4 left virt machine = (.ok value, machine')) :
    ∃ taken, Takes machine machine' taken := by
  induction left generalizing virt machine with
  | zero =>
      cases ran
      exact ⟨[], Takes.of_same (SameFrames.refl _)⟩
  | succ left ih =>
      rw [unmapPages] at ran
      obtain ⟨_, machine₁, cleared, ran⟩ := bind_eq_ok ran
      obtain ⟨later, second⟩ := ih ran
      unfold unmapPage at cleared
      obtain ⟨⟨entry, recorded⟩, machine₂, found, cleared⟩ := bind_eq_ok cleared
      obtain ⟨taken, first, -⟩ := ptEntryPtrIn_takes found
      cases entry with
      | none =>
          cases cleared
          exact ⟨_, first.trans second⟩
      | some entry =>
          have stored := Takes.of_same ((quiet_storeU64 entry _).of_run cleared)
          exact ⟨_, (first.trans stored).trans second⟩

theorem unmapRangeIn_takes {pml4 virt len : Nat} {done : Bool}
    (ran : unmapRangeIn pml4 virt len machine = (.ok done, machine')) :
    ∃ taken, Takes machine machine' taken := by
  unfold unmapRangeIn at ran
  split at ran
  · cases ran
    exact ⟨[], Takes.of_same (SameFrames.refl _)⟩
  · obtain ⟨_, machine₁, cleared, ran⟩ := bind_eq_ok ran
    cases ran
    exact unmapPages_takes cleared

end Paging
end MachaOS
