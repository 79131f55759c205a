/-
Editing an address space through kernel pointers.

`Editing reach space machine` holds while the paging code works on `space`:
memory holds the table, and every frame in `reach` (the tables themselves and
whatever the allocator will hand out) can be written at its own address, in the
table that is being edited or in another one that is active meanwhile.
-/

import MachaOS.Paging.Map

namespace MachaOS.Paging

open Machine

theorem walk_page (mem : ByteMemory) (pml4 : Nat) {frame offset : Nat}
    (aligned : frame % 4096 = 0) (inside : offset < 4096) :
    walk mem pml4 (frame + offset) = walk mem pml4 frame := by
  have top : (frame + offset) / 2 ^ 39 = frame / 2 ^ 39 := by omega
  have gigabyte : (frame + offset) / 2 ^ 30 = frame / 2 ^ 30 := by omega
  have block : (frame + offset) / 2 ^ 21 = frame / 2 ^ 21 := by omega
  have page : (frame + offset) / 2 ^ 12 = frame / 2 ^ 12 := by omega
  have inGigabyte : (frame + offset) % 2 ^ 30 / 4096 = frame % 2 ^ 30 / 4096 := by omega
  have inBlock : (frame + offset) % 2 ^ 21 / 4096 = frame % 2 ^ 21 / 4096 := by omega
  unfold walk
  rw [top, gigabyte, block, page, inGigabyte, inBlock]

namespace Space

def Direct (space : Space) (frame : Nat) : Prop :=
  ∃ leaf, space.view (frame / 4096) = some leaf ∧ leaf.phys = frame

theorem resolve_of_view {space : Space} {machine : Machine} {addr : Nat} {leaf : Leaf}
    (wellFormed : space.WellFormed) (represents : space.Represents machine.mem)
    (active : machine.cr3 = space.pml4) (inside : addr < identityMapEnd)
    (found : space.view (addr / 4096) = some leaf) :
    machine.resolve addr = some (leaf.phys + addr % 4096) := by
  have target := walk_phys wellFormed represents inside
  rw [found, Option.map_some] at target
  obtain ⟨walked, present, phys⟩ := Option.map_eq_some_iff.mp target
  unfold Machine.resolve
  rw [active, present, Option.map_some, phys]

end Space

/-- The table behind CR3 identity-maps `reach`: it is `space` itself, or another
table that keeps out of `reach`. -/
def Active (reach : Nat → Prop) (space : Space) (machine : Machine) : Prop :=
  (machine.cr3 = space.pml4 ∧ ∀ frame, reach frame → space.Direct frame) ∨
  ∃ other : Space, other.WellFormed ∧ other.Represents machine.mem ∧
    machine.cr3 = other.pml4 ∧
    ∀ frame, reach frame → other.Direct frame ∧ ¬ other.Owns frame

structure Editing (reach : Nat → Prop) (space : Space) (machine : Machine) : Prop where
  wellFormed : space.WellFormed
  represents : space.Represents machine.mem
  owned : ∀ frame, space.Owns frame → reach frame
  used : ∀ frame, space.Owns frame → ¬ machine.pmm.Free frame
  aligned : ∀ frame, reach frame → frame % 4096 = 0
  bounded : ∀ frame, reach frame → frame < identityMapEnd
  active : Active reach space machine

namespace Editing

variable {reach : Nat → Prop} {space after : Space} {machine : Machine}

section

variable (editing : Editing reach space machine)
include editing

theorem resolve {frame offset : Nat} (reached : reach frame) (inside : offset < 4096) :
    machine.resolve (frame + offset) = some (frame + offset) := by
  have aligned := editing.aligned frame reached
  have bounded := editing.bounded frame reached
  have remainder : (frame + offset) % 4096 = offset := by omega
  have target : (walk machine.mem machine.cr3 frame).map Leaf.phys = some frame := by
    rcases editing.active with ⟨atCr3, direct⟩ | ⟨other, wellFormed, represents, atCr3, direct⟩
    · obtain ⟨leaf, found, phys⟩ := direct frame reached
      rw [atCr3, Space.walk_phys editing.wellFormed editing.represents bounded, found,
        Option.map_some, phys]
    · obtain ⟨⟨leaf, found, phys⟩, -⟩ := direct frame reached
      rw [atCr3, Space.walk_phys wellFormed represents bounded, found, Option.map_some, phys]
  obtain ⟨leaf, walked, phys⟩ := Option.map_eq_some_iff.mp target
  unfold Machine.resolve
  rw [walk_page _ _ aligned inside, remainder, walked, Option.map_some, phys]

theorem loadU64 {frame index : Nat} (reached : reach frame) (inside : index < 512) :
    Machine.loadU64 (frame + 8 * index) machine =
      (.ok (machine.mem.readU64 (frame + 8 * index)), machine) := by
  unfold Machine.loadU64
  rw [editing.resolve reached (by omega)]

theorem storeU64 {frame index : Nat} (word : BitVec 64) (reached : reach frame)
    (inside : index < 512) :
    Machine.storeU64 (frame + 8 * index) word machine =
      (.ok (), { machine with mem := machine.mem.writeU64 (frame + 8 * index) word }) := by
  unfold Machine.storeU64
  rw [editing.resolve reached (by omega)]

theorem storeByte {frame offset : Nat} (byte : BitVec 8) (reached : reach frame)
    (inside : offset < 4096) :
    Machine.storeByte (frame + offset) byte machine =
      (.ok (), { machine with mem := machine.mem.writeByte (frame + offset) byte }) := by
  unfold Machine.storeByte
  rw [editing.resolve reached inside]

theorem active_of_agree {machine' : Machine} (sameCr3 : machine'.cr3 = machine.cr3)
    (samePml4 : after.pml4 = space.pml4) (agree : Space.AgreeOutside reach machine.mem machine'.mem)
    (direct : machine.cr3 = space.pml4 →
      ∀ frame, reach frame → space.Direct frame → after.Direct frame) :
    Active reach after machine' := by
  rcases editing.active with ⟨atCr3, mapped⟩ | ⟨other, wellFormed, represents, atCr3, mapped⟩
  · left
    exact ⟨by rw [sameCr3, samePml4, atCr3],
      fun frame reached => direct atCr3 frame reached (mapped frame reached)⟩
  · right
    refine ⟨other, wellFormed, represents.congr wellFormed agree ?_, by rw [sameCr3, atCr3],
      mapped⟩
    intro frame owned reached
    exact (mapped frame reached).2 owned

theorem store_entry {node : Node} {frame index : Nat} {word : BitVec 64}
    (placed : space.frameAt node = some frame) (inside : index < 512)
    (frames : ∀ other, after.frameAt other = space.frameAt other)
    (entries : ∀ other at', at' < 512 → after.entryAt other at' =
      if other = node ∧ at' = index then word else space.entryAt other at')
    (direct : machine.cr3 = space.pml4 →
      ∀ frame, reach frame → space.Direct frame → after.Direct frame) :
    Editing reach after
      { machine with mem := machine.mem.writeU64 (frame + 8 * index) word } := by
  have reached : reach frame := editing.owned frame ⟨node, placed⟩
  have samePml4 : after.pml4 = space.pml4 := Option.some.inj (frames .pml4)
  have sameOwns : ∀ other, after.Owns other → space.Owns other := by
    rintro other ⟨at', found⟩
    exact ⟨at', (frames at') ▸ found⟩
  refine
    { wellFormed := editing.wellFormed.of_frames frames
      represents := editing.represents.store editing.wellFormed placed inside frames entries
      owned := fun other owns => editing.owned other (sameOwns other owns)
      used := fun other owns => editing.used other (sameOwns other owns)
      aligned := editing.aligned
      bounded := editing.bounded
      active := editing.active_of_agree rfl samePml4 ?_ direct }
  refine (Space.agreeOutside_writeU64 machine.mem word (editing.aligned frame reached)
    inside).mono ?_
  rintro other rfl
  exact reached

theorem agree_outside {machine' : Machine} {written : Nat → Prop}
    (sameCr3 : machine'.cr3 = machine.cr3) (samePmm : machine'.pmm = machine.pmm)
    (agree : Space.AgreeOutside written machine.mem machine'.mem)
    (reached : ∀ frame, written frame → reach frame)
    (apart : ∀ frame, written frame → ¬ space.Owns frame) : Editing reach space machine' :=
  { wellFormed := editing.wellFormed
    represents := editing.represents.congr editing.wellFormed agree
      (fun frame owned wrote => apart frame wrote owned)
    owned := editing.owned
    used := by
      rw [samePmm]
      exact editing.used
    aligned := editing.aligned
    bounded := editing.bounded
    active := editing.active_of_agree sameCr3 rfl (agree.mono reached)
      (fun _ _ _ direct => direct) }

theorem with_pmm {pmm : Pmm} (fewer : ∀ frame, pmm.Free frame → machine.pmm.Free frame) :
    Editing reach space { machine with pmm } :=
  { editing with
    used := fun frame owned free => editing.used frame owned (fewer frame free)
    active := editing.active_of_agree rfl rfl (Space.AgreeOutside.refl _ _)
      (fun _ _ _ direct => direct) }

end

end Editing

/-- The frames that hold the `len` bytes from `address` on. -/
def Touches (addr len frame : Nat) : Prop :=
  ∃ offset, offset < len ∧ frame = (addr + offset) / 4096 * 4096

theorem Touches.mem_frameRun {phys count offset len frame : Nat} (aligned : phys % 4096 = 0)
    (inside : offset + len ≤ count * 4096) (touches : Touches (phys + offset) len frame) :
    frame ∈ Pmm.frameRun phys count := by
  obtain ⟨index, below, rfl⟩ := touches
  exact Pmm.mem_frameRun.mpr ⟨(offset + index) / 4096, by omega, by omega⟩

theorem Touches.later {addr len frame : Nat} (touches : Touches (addr + 1) len frame) :
    Touches addr (len + 1) frame := by
  obtain ⟨offset, below, rfl⟩ := touches
  exact ⟨offset + 1, by omega, by rw [Nat.add_right_comm, Nat.add_assoc]⟩

theorem zeroBytes_eq_copyBytes (addr len : Nat) :
    zeroBytes addr len = copyBytes addr (List.replicate len 0#8) := by
  induction len generalizing addr with
  | zero => rfl
  | succ len ih => rw [zeroBytes, List.replicate_succ, copyBytes, ih]

theorem agreeOutside_writeBytes (mem : ByteMemory) (addr : Nat) (bytes : List (BitVec 8)) :
    Space.AgreeOutside (Touches addr bytes.length) mem (mem.writeBytes addr bytes) := by
  intro at' outside
  have apart : ¬(addr ≤ at' ∧ at' < addr + bytes.length) := by
    intro inside
    refine outside ⟨at' - addr, by omega, ?_⟩
    rw [Nat.add_sub_cancel' inside.1]
  simp only [ByteMemory.writeBytes, if_neg apart]

theorem copyBytes_of_resolve {invariant : Machine → Prop} {good : Nat → Prop}
    (resolves : ∀ machine, invariant machine → ∀ addr, good (addr / 4096 * 4096) →
      machine.resolve addr = some addr)
    (stable : ∀ machine addr byte, invariant machine → good (addr / 4096 * 4096) →
      invariant { machine with mem := machine.mem.writeByte addr byte })
    {machine : Machine} (holds : invariant machine) {addr : Nat} {bytes : List (BitVec 8)}
    (reached : ∀ frame, Touches addr bytes.length frame → good frame) :
    Machine.copyBytes addr bytes machine =
        (.ok (), { machine with mem := machine.mem.writeBytes addr bytes }) ∧
      invariant { machine with mem := machine.mem.writeBytes addr bytes } := by
  induction bytes generalizing addr machine with
  | nil =>
      rw [ByteMemory.writeBytes_nil]
      exact ⟨rfl, holds⟩
  | cons byte rest ih =>
      have here : good (addr / 4096 * 4096) := reached _ ⟨0, by simp, rfl⟩
      have stored : Machine.storeByte addr byte machine =
          (.ok (), { machine with mem := machine.mem.writeByte addr byte }) := by
        unfold Machine.storeByte
        rw [resolves machine holds addr here]
      obtain ⟨ran, holds'⟩ := ih (stable machine addr byte holds here)
        (fun frame touches => reached frame touches.later)
      rw [Machine.copyBytes, Fallible.bind_of_ok stored, ran, ByteMemory.writeBytes_cons]
      exact ⟨rfl, holds'⟩

theorem Editing.copyBytes {reach : Nat → Prop} {space : Space} {machine : Machine}
    (editing : Editing reach space machine) {addr : Nat} {bytes : List (BitVec 8)}
    (reached : ∀ frame, Touches addr bytes.length frame → reach frame ∧ ¬ space.Owns frame) :
    Machine.copyBytes addr bytes machine =
      (.ok (), { machine with mem := machine.mem.writeBytes addr bytes }) := by
  refine (@copyBytes_of_resolve (Editing reach space)
    (fun frame => reach frame ∧ ¬ space.Owns frame) ?_ ?_ _ editing _ _ reached).1
  · rintro machine editing addr ⟨direct, -⟩
    have resolved := editing.resolve direct (Nat.mod_lt addr (by decide : 4096 > 0))
    rwa [show addr / 4096 * 4096 + addr % 4096 = addr by omega] at resolved
  · rintro machine addr byte editing ⟨direct, apart⟩
    exact editing.agree_outside rfl rfl (Space.agreeOutside_writeByte machine.mem addr byte)
      (by rintro _ rfl; exact direct) (by rintro _ rfl; exact apart)

theorem Editing.zeroBytes {reach : Nat → Prop} {space : Space} {machine : Machine}
    (editing : Editing reach space machine) {addr len : Nat}
    (reached : ∀ frame, Touches addr len frame → reach frame ∧ ¬ space.Owns frame) :
    Machine.zeroBytes addr len machine =
      (.ok (), { machine with mem := machine.mem.writeBytes addr (List.replicate len 0#8) }) := by
  rw [zeroBytes_eq_copyBytes]
  refine editing.copyBytes ?_
  rw [List.length_replicate]
  exact reached

theorem Editing.moveBytes {reach : Nat → Prop} {space : Space} {machine machine' : Machine}
    (editing : Editing reach space machine) {source target len : Nat} {value : Unit}
    (reached : ∀ frame, Touches target len frame → reach frame ∧ ¬ space.Owns frame)
    (ran : Machine.moveBytes source target len machine = (.ok value, machine')) :
    Space.AgreeOutside (Touches target len) machine.mem machine'.mem ∧
      machine'.cr3 = machine.cr3 := by
  induction len generalizing source target machine with
  | zero =>
      cases ran
      exact ⟨Space.AgreeOutside.refl _ _, rfl⟩
  | succ len ih =>
      obtain ⟨byte, machine₁, loaded, rest⟩ := Fallible.bind_eq_ok ran
      obtain rfl : machine₁ = machine := by
        unfold Machine.loadByte at loaded
        split at loaded
        · cases loaded
          rfl
        · cases loaded
      obtain ⟨_, machine₂, stored, rest⟩ := Fallible.bind_eq_ok rest
      obtain ⟨here, apart⟩ := reached (target / 4096 * 4096) ⟨0, Nat.succ_pos len, rfl⟩
      have wrote := editing.storeByte byte here (Nat.mod_lt target (by decide : 4096 > 0))
      rw [show target / 4096 * 4096 + target % 4096 = target by omega, stored] at wrote
      cases wrote
      have first := Space.agreeOutside_writeByte machine₁.mem target byte
      have edited : Editing reach space
          { machine₁ with mem := machine₁.mem.writeByte target byte } :=
        editing.agree_outside rfl rfl first (by rintro _ rfl; exact here)
          (by rintro _ rfl; exact apart)
      obtain ⟨later, cr3⟩ := ih edited (fun frame touches => reached frame touches.later) rest
      refine ⟨(first.mono ?_).trans (later.mono (fun frame touches => touches.later)), cr3⟩
      rintro _ rfl
      exact ⟨0, Nat.succ_pos len, rfl⟩

/-- From `space` on `machine` to `after` on `machine'`, taking the frames `fresh`
for new tables and touching no other frame. -/
structure Extends (space after : Space) (machine machine' : Machine) (fresh : List Nat) :
    Prop where
  pml4 : after.pml4 = space.pml4
  owns : ∀ frame, after.Owns frame ↔ space.Owns frame ∨ frame ∈ fresh
  split : ∀ block frame, space.pt block = some frame → after.pt block = some frame
  places : ∀ node frame, space.frameAt node = some frame → after.frameAt node = some frame
  upward : space.UserUpward → after.UserUpward
  memory : Space.AgreeOutside after.Owns machine.mem machine'.mem
  cr3 : machine'.cr3 = machine.cr3
  limit : machine'.pmm.lastUsableFrame = machine.pmm.lastUsableFrame
  free : ∀ frame, machine'.pmm.Free frame ↔ machine.pmm.Free frame ∧ frame ∉ fresh
  freshFree : ∀ frame, frame ∈ fresh → machine.pmm.Free frame
  nodup : fresh.Nodup

namespace Extends

variable {space middle after : Space} {machine machine' machine'' : Machine}

theorem refl (space : Space) (machine : Machine) : Extends space space machine machine [] :=
  { pml4 := rfl
    owns := by simp
    split := fun _ _ split => split
    places := fun _ _ placed => placed
    upward := fun upward => upward
    memory := Space.AgreeOutside.refl _ _
    cr3 := rfl
    limit := rfl
    free := by simp
    freshFree := by simp
    nodup := List.nodup_nil }

theorem trans {first second : List Nat} (left : Extends space middle machine machine' first)
    (right : Extends middle after machine' machine'' second) :
    Extends space after machine machine'' (first ++ second) :=
  { pml4 := right.pml4.trans left.pml4
    owns := by
      intro frame
      rw [right.owns, left.owns, List.mem_append, or_assoc]
    split := fun block frame split => right.split block frame (left.split block frame split)
    places := fun node frame placed => right.places node frame (left.places node frame placed)
    upward := fun upward => right.upward (left.upward upward)
    memory := by
      refine Space.AgreeOutside.trans (left.memory.mono ?_) right.memory
      intro frame owned
      exact (right.owns frame).mpr (Or.inl owned)
    cr3 := right.cr3.trans left.cr3
    limit := right.limit.trans left.limit
    free := by
      intro frame
      rw [right.free, left.free, List.mem_append]
      tauto
    freshFree := by
      intro frame member
      rcases List.mem_append.mp member with early | late
      · exact left.freshFree frame early
      · exact ((left.free frame).mp (right.freshFree frame late)).1
    nodup := by
      refine List.nodup_append.mpr ⟨left.nodup, right.nodup, ?_⟩
      intro frame early other late same
      subst same
      exact ((left.free frame).mp (right.freshFree frame late)).2 early }

theorem of_store {node : Node} {frame index : Nat} {word : BitVec 64}
    (aligned : frame % 4096 = 0) (placed : space.frameAt node = some frame)
    (inside : index < 512) (samePt : after.pt = space.pt)
    (frames : ∀ other, after.frameAt other = space.frameAt other)
    (upward : space.UserUpward → after.UserUpward) :
    Extends space after machine
      { machine with mem := machine.mem.writeU64 (frame + 8 * index) word } [] :=
  { pml4 := Option.some.inj (frames .pml4)
    owns := by
      intro other
      simp only [Space.Owns, frames, List.not_mem_nil, or_false]
    split := fun _ _ split => samePt ▸ split
    places := fun other _ placed => (frames other).trans placed
    upward
    memory := by
      refine (Space.agreeOutside_writeU64 machine.mem word aligned inside).mono ?_
      rintro other rfl
      exact ⟨node, by rw [frames, placed]⟩
    cr3 := rfl
    limit := rfl
    free := by simp
    freshFree := by simp
    nodup := List.nodup_nil }

end Extends
end MachaOS.Paging
