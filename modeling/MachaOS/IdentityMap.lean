/-
Whether free frames stay mapped at their own addresses (`run_demo` of
`src/syscall.rs` on `map_page`, `unmap_page` and the frame allocator).

`run_demo` is taken one call at a time, so that other parties can allocate and
free in between.  It opens two frames to ring 3 and takes their pages out of the
kernel's table before it gives them back; nothing maps them again.  Up to there
every page of the kernel's table leads to itself, but for the two that are out
and in use.
-/

import MachaOS.AddressSpaces

namespace MachaOS

open List
open Fallible Machine Paging

namespace RunDemo

/-! ### The program -/

def instrLen : Nat := 5 * 4 + 2 + 5 * 2 + 2 + 2

def movImm32 (opcode : BitVec 8) (value : Nat) : List (BitVec 8) :=
  opcode :: ByteMemory.leBytes (BitVec.ofNat 32 value)

def sysWrite : Nat := 0
def sysExit : Nat := 1
def fdStdout : Nat := 1

def prog (codeFrame : Nat) (message : List (BitVec 8)) : List (BitVec 8) :=
  movImm32 0xB8 sysWrite ++ movImm32 0xBF fdStdout ++ movImm32 0xBE (codeFrame + instrLen) ++
    movImm32 0xBA message.length ++ [0x0F, 0x05] ++
    movImm32 0xB8 sysExit ++ movImm32 0xBF 0 ++ [0x0F, 0x05] ++ [0xEB, 0xFE] ++ message

@[simp] theorem length_program (codeFrame : Nat) (message : List (BitVec 8)) :
    (prog codeFrame message).length = instrLen + message.length := by
  simp [prog, movImm32, ByteMemory.leBytes, instrLen]
  omega

inductive Stage where
  | idle
  | hasCode (message : List (BitVec 8)) (code : Nat)
  | hasFrames (message : List (BitVec 8)) (code stack : Nat)
  | codeMapped (message : List (BitVec 8)) (code stack : Nat) (mapped : Bool)
  | mapped (message : List (BitVec 8)) (code stack : Nat)
  | inUserMode (code stack : Nat)
  | codeUnmapped (code stack : Nat)
  | unmapped (code stack : Nat)
  | codeFreed (stack : Nat)

def Stage.frames : Stage → List Nat
  | .idle => []
  | .hasCode _ code => [code]
  | .hasFrames _ code stack | .codeMapped _ code stack _ | .mapped _ code stack
  | .inUserMode code stack | .codeUnmapped code stack | .unmapped code stack => [code, stack]
  | .codeFreed stack => [stack]

def Stage.out : Stage → List Nat
  | .codeUnmapped code _ => [code]
  | .unmapped code stack => [code, stack]
  | .codeFreed stack => [stack]
  | _ => []

def Stage.opened : Stage → List Nat
  | .codeMapped _ code _ true => [code]
  | .mapped _ code stack | .inUserMode code stack | .codeUnmapped code stack
  | .unmapped code stack => [code, stack]
  | _ => []

def Stage.rank : Stage → Nat
  | .idle => 0
  | .hasCode _ _ => 1
  | .hasFrames _ _ _ => 2
  | .codeMapped _ _ _ _ => 3
  | .mapped _ _ _ => 4
  | .inUserMode _ _ => 5
  | .codeUnmapped _ _ => 6
  | .unmapped _ _ => 7
  | .codeFreed _ => 8

def Stage.Fits : Stage → Prop
  | .hasCode message _ | .hasFrames message _ _ => instrLen + message.length ≤ pageSize
  | .codeMapped _ _ _ done => done = true
  | _ => True

def Stage.Proper : Stage → Prop
  | .codeMapped message _ _ _ | .mapped message _ _ => instrLen + message.length ≤ pageSize
  | .codeFreed _ => False
  | _ => True

/-- The kernel's table is active whenever `run_demo` runs. -/
structure World where
  machine : Machine
  /-- `kernel_pml4()` -/
  kernel : Nat
  demo : Stage
  held : List Nat

inductive Event where
  | call (message : List (BitVec 8))
  | advance
  | alloc
  | free (frame : Nat)

/-- Run the next part of `run_demo`; a panic or a fault stops the machine. -/
def World.perform {α : Type} (world : World) (routine : Kernel α) (next : α → Option Stage) :
    Option World :=
  match routine world.machine with
  | (.ok value, machine) => (next value).map (fun demo => { world with machine, demo })
  | (.error _, _) => none

def demoFlags : BitVec 64 :=
  pagePresent ||| pageWritable ||| pageUser

def World.advance (world : World) : Option World :=
  match world.demo with
  | .idle => none
  | .hasCode message code =>
      world.perform frameAlloc (fun stack => stack.map (.hasFrames message code ·))
  | .hasFrames message code stack =>
      if (prog code message).length ≤ pageSize then
        world.perform (KernelMap.mapPage world.kernel code code demoFlags)
          (fun mapped => some (.codeMapped message code stack mapped))
      else none
  | .codeMapped message code stack codeMapped =>
      world.perform (KernelMap.mapPage world.kernel stack stack demoFlags)
        (fun stackMapped => if codeMapped && stackMapped then some (.mapped message code stack) else none)
  | .mapped message code stack =>
      world.perform
        (do
          copyBytes code (List.replicate pageSize 0x90)
          copyBytes code (prog code message))
        (fun _ => some (.inUserMode code stack))
  | .inUserMode code stack =>
      world.perform (KernelMap.unmapPage world.kernel code) (fun _ => some (.codeUnmapped code stack))
  | .codeUnmapped code stack =>
      world.perform (KernelMap.unmapPage world.kernel stack) (fun _ => some (.unmapped code stack))
  | .unmapped code stack => world.perform (frameFree code) (fun _ => some (.codeFreed stack))
  | .codeFreed stack => world.perform (frameFree stack) (fun _ => some .idle)

def World.step (world : World) : Event → Option World
  | .call message =>
      match world.demo with
      | .idle => world.perform frameAlloc (fun code => code.map (.hasCode message ·))
      | _ => none
  | .advance => world.advance
  | .alloc =>
      match world.machine.pmm.frameAlloc with
      | (none, _) => some world
      | (some frame, pmm) =>
          some { world with machine := { world.machine with pmm }, held := frame :: world.held }
  | .free frame =>
      if frame ∈ world.held then
        some { world with
          machine := { world.machine with pmm := world.machine.pmm.frameFree frame }
          held := world.held.erase frame }
      else none

/-! ### The contract -/

/-- Every free frame is mapped at its own address in the kernel's table, present and writable,
and zeroing it through that address does not fault. -/
def World.FreeMapped (world : World) : Prop :=
  ∀ frame, world.machine.pmm.Free frame →
    (∃ leaf, walk world.machine.mem world.kernel frame = some leaf ∧ leaf.phys = frame ∧
      leaf.writable = true) ∧
    ∃ machine, zeroBytes frame Pmm.frameSize world.machine = (.ok (), machine)

/-- `run_demo` does not get to its `frame_free`s. -/
def Withholds (world : World) : Event → Prop
  | .advance => world.demo.rank < 7
  | _ => True

def SelfMapped (page : Nat) (found : Option Leaf) : Prop :=
  ∃ leaf, found = some leaf ∧ leaf.phys = page * 4096 ∧ leaf.writable = true

def World.taken (world : World) : List Nat :=
  world.demo.frames ++ world.held

/-- `space` is the kernel's table; every page leads to itself but for those that are out. -/
structure Sound (world : World) (space : Space) : Prop where
  pml4 : space.pml4 = world.kernel
  active : world.machine.cr3 = world.kernel
  wellFormed : space.WellFormed
  represents : space.Represents world.machine.mem
  upward : space.UserUpward
  used : ∀ frame, space.Owns frame → ¬ world.machine.pmm.Free frame
  bounded : world.machine.pmm.Bounded
  nodup : world.taken.Nodup
  taken : ∀ frame, frame ∈ world.taken → world.machine.pmm.Held frame ∧ ¬ space.Owns frame
  mapped : ∀ page, page < 2 ^ 20 → page * 4096 ∉ world.demo.out →
    SelfMapped page (space.view page)
  opened : ∀ frame, frame ∈ world.demo.opened → space.pt (frame / 2 ^ 21) ≠ none
  gone : ∀ frame, frame ∈ world.demo.out → space.view (frame / 4096) = none
  proper : world.demo.Proper

theorem Stage.out_subset {stage : Stage} {frame : Nat} (out : frame ∈ stage.out) :
    frame ∈ stage.frames := by
  cases stage with
  | codeUnmapped code stack => exact mem_cons.mpr (Or.inl (mem_singleton.mp out))
  | unmapped code stack => exact out
  | codeFreed stack => exact out
  | _ => cases out

theorem Stage.Proper.rank_le {stage : Stage} (proper : stage.Proper) : stage.rank ≤ 7 := by
  cases stage with
  | codeFreed stack => exact absurd proper id
  | _ => simp [Stage.rank]

namespace Sound

variable {world : World} {space : Space}

variable {frame : Nat}

theorem held_lt {pmm : Pmm} (held : pmm.Held frame) : frame < identityMapEnd :=
  Nat.lt_trans held.2.1 (by decide)

theorem out_taken (out : frame ∈ world.demo.out) : frame ∈ world.taken :=
  mem_append_left _ (Stage.out_subset out)

theorem editing (sound : Sound world space) {reach : Nat → Prop}
    (owned : ∀ frame, space.Owns frame → reach frame)
    (proper : ∀ frame, reach frame → frame % 4096 = 0 ∧ frame < identityMapEnd ∧
      frame ∉ world.demo.out) : Editing reach space world.machine := by
  refine ⟨sound.wellFormed, sound.represents, owned, sound.used,
    fun frame reached => (proper frame reached).1, fun frame reached => (proper frame reached).2.1,
    Or.inl ⟨sound.active.trans sound.pml4.symm, fun frame reached => ?_⟩⟩
  obtain ⟨aligned, inside, inTable⟩ := proper frame reached
  have limit : frame < 4294967296 := inside
  have place : frame / 4096 * 4096 = frame := by omega
  obtain ⟨leaf, found, phys, -⟩ := sound.mapped (frame / 4096) (by omega) (by rw [place]; exact inTable)
  exact ⟨leaf, found, phys.trans place⟩

theorem editing_table (sound : Sound world space) :
    Editing (fun frame => space.Owns frame ∨ world.machine.pmm.Free frame) space world.machine := by
  refine sound.editing (fun _ owns => Or.inl owns) ?_
  rintro frame (owns | free)
  · exact ⟨sound.wellFormed.aligned frame owns, sound.wellFormed.bounded frame owns,
      fun out => (sound.taken frame (out_taken out)).2 owns⟩
  · have limit := sound.bounded.free_lt free
    exact ⟨Pmm.free_aligned free, Nat.lt_trans limit.1 (by decide),
      fun out => (sound.taken frame (out_taken out)).1.2.2.2 free⟩

theorem editing_frame (sound : Sound world space) (aligned : frame % 4096 = 0)
    (inside : frame < identityMapEnd) (inTable : frame ∉ world.demo.out) :
    Editing (fun other => space.Owns other ∨ other = frame) space world.machine := by
  refine sound.editing (fun _ owns => Or.inl owns) ?_
  rintro other (owns | rfl)
  · exact ⟨sound.wellFormed.aligned other owns, sound.wellFormed.bounded other owns,
      fun out => (sound.taken other (out_taken out)).2 owns⟩
  · exact ⟨aligned, inside, inTable⟩

theorem touches_frame {len other : Nat} (aligned : frame % 4096 = 0) (fits : len ≤ 4096)
    (touches : Touches frame len other) : other = frame := by
  obtain ⟨offset, below, rfl⟩ := touches
  omega

theorem freeMapped (sound : Sound world space) : world.FreeMapped := by
  intro frame free
  have aligned := Pmm.free_aligned free
  have limit := (sound.bounded.free_lt free).1
  have top : Pmm.maxPhysMem = 268435456 := rfl
  have inside : frame < identityMapEnd := Nat.lt_trans limit (by decide)
  have inTable : frame ∉ world.demo.out :=
    fun out => (sound.taken frame (out_taken out)).1.2.2.2 free
  have place : frame / 4096 * 4096 = frame := by omega
  constructor
  · obtain ⟨leaf, found, phys, writable⟩ :=
      sound.mapped (frame / 4096) (by omega) (by rw [place]; exact inTable)
    refine ⟨leaf, ?_, phys.trans place, writable⟩
    rw [← sound.pml4, Space.walk_eq_view sound.wellFormed sound.upward sound.represents inside]
    exact found
  · refine ⟨_, (sound.editing_frame aligned inside inTable).zeroBytes ?_⟩
    intro other touches
    obtain rfl := touches_frame aligned (Nat.le_refl 4096) touches
    exact ⟨Or.inr rfl, fun owns => sound.used other owns free⟩

variable {demo : Stage}

theorem edited (sound : Sound world space) {reach : Nat → Prop} {machine : Machine} {after : Space}
    {fresh : List Nat} (editing : Editing reach after machine)
    (extends' : Extends space after world.machine machine fresh)
    (frames : demo.frames = world.demo.frames)
    (mapped : ∀ page, page < 2 ^ 20 → page * 4096 ∉ demo.out → SelfMapped page (after.view page))
    (opened : ∀ frame, frame ∈ demo.opened → after.pt (frame / 2 ^ 21) ≠ none)
    (gone : ∀ frame, frame ∈ demo.out → after.view (frame / 4096) = none) (proper : demo.Proper) :
    Sound { world with machine, demo } after := by
  have sameTaken : World.taken { world with machine, demo } = world.taken := by
    unfold World.taken
    rw [frames]
  refine ⟨extends'.pml4.trans sound.pml4, extends'.cr3.trans sound.active, editing.wellFormed,
    editing.represents, extends'.upward sound.upward, editing.used, ?_, ?_, ?_, mapped, opened, gone,
    proper⟩
  · unfold Pmm.Bounded
    rw [extends'.limit]
    exact sound.bounded
  · rw [sameTaken]
    exact sound.nodup
  · intro frame taken
    rw [sameTaken] at taken
    obtain ⟨⟨aligned, low, covered, notFree⟩, notOwned⟩ := sound.taken frame taken
    refine ⟨⟨aligned, low, ?_, fun free => notFree ((extends'.free frame).mp free).1⟩, fun owns => ?_⟩
    · rw [extends'.limit]
      exact covered
    · rcases (extends'.owns frame).mp owns with owns | isFresh
      · exact notOwned owns
      · exact notFree (extends'.freshFree frame isFresh)

/-! ### The parts of `run_demo` -/

theorem supplied (world : World) (space : Space) :
    Pmm.Supplies (fun frame => space.Owns frame ∨ world.machine.pmm.Free frame) 1
      world.machine.pmm :=
  (Pmm.supplies_free 1 world.machine.pmm).mono (fun _ free => Or.inr free)

theorem map (sound : Sound world space) (mine : frame ∈ world.demo.frames)
    (closed : world.demo.out = []) :
    ∃ done after machine,
      KernelMap.mapPage world.kernel frame frame demoFlags world.machine = (.ok done, machine) ∧
      (∀ demo : Stage, demo.frames = world.demo.frames → demo.out = [] →
        (∀ other, other ∈ demo.opened → other ∈ world.demo.opened ∨ done = true ∧ other = frame) →
        demo.Proper → Sound { world with machine, demo } after) ∧
      (machine.pmm = world.machine.pmm ∨ machine.pmm = world.machine.pmm.frameAlloc.2) ∧
      (done = false → world.machine.pmm.frameAlloc.1 = none) := by
  obtain ⟨⟨aligned, low, -, -⟩, -⟩ := sound.taken frame (mem_append_left _ mine)
  have top : Pmm.maxPhysMem = 268435456 := rfl
  have fourGiB : identityMapEnd = 4294967296 := rfl
  have place : frame / 4096 * 4096 = frame := by omega
  obtain ⟨done, after, machine, fresh, ran, editing, extends', views, pmm', refused⟩ :=
    KernelMap.mapPage_spec demoFlags sound.editing_table (supplied world space)
      (fun _ _ => @rfl _ frame)
  rw [sound.pml4] at ran
  refine ⟨done, after, machine, ran, ?_, pmm', fun undone => ?_⟩
  · intro demo frames out opened proper
    refine sound.edited editing extends' frames ?_ ?_ ?_ proper
    · intro page inside _
      rw [views page inside]
      split
      · rename_i here
        refine ⟨_, rfl, ?_, rfl⟩
        rw [here.2, place]
        rfl
      · exact sound.mapped page inside (by rw [closed]; exact not_mem_nil)
    · intro other isOpen
      rcases opened other isOpen with before | ⟨finished, rfl⟩
      · intro missing
        cases split : space.pt (other / 2 ^ 21) with
        | none => exact sound.opened other before split
        | some table =>
            rw [extends'.split _ _ split] at missing
            cases missing
      · intro missing
        have view := views (other / 4096) (by omega)
        rw [if_pos ⟨finished, rfl⟩, Space.view, show other / 4096 / 512 = other / 2 ^ 21 by omega,
          missing] at view
        have users : some false = some true := congrArg (Option.map Leaf.user) view
        cases users
    · rw [out]
      exact fun _ => not_mem_nil.elim
  · exact (refused ⟨by omega, by omega, aligned, aligned⟩ undone).2

theorem unmap (sound : Sound world space) (mine : frame ∈ world.demo.frames)
    (isOpen : frame ∈ world.demo.opened) :
    ∃ after machine,
      KernelMap.unmapPage world.kernel frame world.machine = (.ok true, machine) ∧
      (∀ demo : Stage, demo.frames = world.demo.frames →
        (∀ other, other ∈ demo.out ↔ other ∈ world.demo.out ∨ other = frame) →
        demo.opened = world.demo.opened → demo.Proper → Sound { world with machine, demo } after) ∧
      (machine.pmm = world.machine.pmm ∨ machine.pmm = world.machine.pmm.frameAlloc.2) := by
  obtain ⟨⟨aligned, low, -, notFree⟩, notOwned⟩ :=
    sound.taken frame (mem_append_left _ mine)
  have top : Pmm.maxPhysMem = 268435456 := rfl
  have fourGiB : identityMapEnd = 4294967296 := rfl
  obtain ⟨done, after, machine, fresh, ran, editing, extends', views, pmm', refused⟩ :=
    KernelMap.unmapPage_spec sound.editing_table (supplied world space)
      (fun _ either => either.elim notOwned notFree)
  have finished : done = true := by
    cases done with
    | true => rfl
    | false => exact absurd (refused ⟨by omega, aligned⟩ rfl).1 (sound.opened frame isOpen)
  rw [sound.pml4, finished] at ran
  refine ⟨after, machine, ran, fun demo frames out opened proper => ?_, pmm'⟩
  refine sound.edited editing extends' frames ?_ ?_ ?_ proper
  · intro page inside inTable
    rw [views page inside, if_neg]
    · exact sound.mapped page inside (fun old => inTable ((out _).mpr (Or.inl old)))
    · rintro ⟨-, rfl⟩
      exact inTable ((out _).mpr (Or.inr (by omega)))
  · intro other isOpen missing
    rw [opened] at isOpen
    cases split : space.pt (other / 2 ^ 21) with
    | none => exact sound.opened other isOpen split
    | some table =>
        rw [extends'.split _ _ split] at missing
        cases missing
  · intro other isOut
    have proper : other / 4096 < 2 ^ 20 := by
      have member : other ∈ world.demo.frames := by
        rw [← frames]
        exact Stage.out_subset isOut
      have bounds := (sound.taken other (mem_append_left _ member)).1.2.1
      omega
    rw [views _ proper]
    split
    · rfl
    · rename_i elsewhere
      rcases (out other).mp isOut with old | rfl
      · exact sound.gone other old
      · exact absurd ⟨finished, rfl⟩ elsewhere

theorem write (sound : Sound world space) {frame : Nat} {bytes : List (BitVec 8)}
    (mine : frame ∈ world.demo.frames) (inTable : frame ∉ world.demo.out)
    (fits : bytes.length ≤ 4096) :
    ∃ machine, copyBytes frame bytes world.machine = (.ok (), machine) ∧
      machine.pmm = world.machine.pmm ∧ Sound { world with machine } space := by
  obtain ⟨⟨aligned, low, covered, notFree⟩, notOwned⟩ :=
    sound.taken frame (mem_append_left _ mine)
  have editing := sound.editing_frame aligned (held_lt ⟨aligned, low, covered, notFree⟩) inTable
  have copied := @Editing.copyBytes _ _ _ editing frame bytes (by
    intro other touches
    obtain rfl := touches_frame aligned fits touches
    exact ⟨Or.inr rfl, notOwned⟩)
  refine ⟨_, copied, rfl, { sound with represents := ?_ }⟩
  refine sound.represents.congr sound.wellFormed
    (agreeOutside_writeBytes world.machine.mem frame bytes) ?_
  intro other owns touches
  obtain rfl := touches_frame aligned fits touches
  exact notOwned owns

theorem restage (sound : Sound world space) (frames : demo.frames = world.demo.frames)
    (out : demo.out = world.demo.out) (opened : demo.opened = world.demo.opened)
    (proper : demo.Proper) : Sound { world with demo } space := by
  have sameTaken : World.taken { world with demo } = world.taken := by
    unfold World.taken
    rw [frames]
  refine { sound with nodup := ?_, taken := ?_, mapped := ?_, opened := ?_, gone := ?_, proper }
  · rw [sameTaken]
    exact sound.nodup
  · rw [sameTaken]
    exact sound.taken
  · rw [out]
    exact sound.mapped
  · rw [opened]
    exact sound.opened
  · rw [out]
    exact sound.gone

theorem allocated (sound : Sound world space) {pmm : Pmm}
    (result : world.machine.pmm.frameAlloc = (some frame, pmm)) {held : List Nat}
    (taken : (demo.frames ++ held).Perm (frame :: world.taken)) (out : demo.out = world.demo.out)
    (opened : demo.opened = world.demo.opened) (proper : demo.Proper) :
    Sound { world with machine := { world.machine with pmm }, demo, held } space := by
  have free := Pmm.free_frameAlloc result
  obtain ⟨wasFree, limit, -⟩ := Pmm.frameAlloc_some result
  have bounds := sound.bounded.free_lt wasFree
  refine ⟨sound.pml4, sound.active, sound.wellFormed, sound.represents, sound.upward, ?_, ?_, ?_, ?_,
    ?_, ?_, ?_, proper⟩
  · exact fun other owns isFree => sound.used other owns ((free other).mp isFree).1
  · unfold Pmm.Bounded
    dsimp only
    rw [limit]
    exact sound.bounded
  · refine taken.nodup_iff.mpr (nodup_cons.mpr ⟨fun old => ?_, sound.nodup⟩)
    exact (sound.taken frame old).1.2.2.2 wasFree
  · intro other isTaken
    rcases mem_cons.mp (taken.mem_iff.mp isTaken) with rfl | old
    · refine ⟨⟨Pmm.free_aligned wasFree, bounds.1, ?_, fun isFree => ((free other).mp isFree).2 rfl⟩,
        fun owns => sound.used other owns wasFree⟩
      dsimp only
      rw [limit]
      exact bounds.2
    · obtain ⟨⟨aligned, low, covered, notFree⟩, notOwned⟩ := sound.taken other old
      refine ⟨⟨aligned, low, ?_, fun isFree => notFree ((free other).mp isFree).1⟩, notOwned⟩
      dsimp only
      rw [limit]
      exact covered
  · dsimp only
    rw [out]
    exact sound.mapped
  · dsimp only
    rw [opened]
    exact sound.opened
  · dsimp only
    rw [out]
    exact sound.gone

theorem released (sound : Sound world space) (held : frame ∈ world.held) :
    Sound { world with
      machine := { world.machine with pmm := world.machine.pmm.frameFree frame }
      held := world.held.erase frame } space := by
  have inTaken : frame ∈ world.taken := mem_append_right _ held
  obtain ⟨⟨aligned, low, covered, -⟩, notOwned⟩ := sound.taken frame inTaken
  have free := @Pmm.free_frameFree world.machine.pmm frame aligned low
  have limit := Pmm.frameFree_lastUsableFrame world.machine.pmm frame
  have fewer : (world.demo.frames ++ world.held.erase frame).Sublist world.taken :=
    (List.Sublist.refl _).append erase_sublist
  refine ⟨sound.pml4, sound.active, sound.wellFormed, sound.represents, sound.upward, ?_, ?_,
    sound.nodup.sublist fewer, ?_, sound.mapped, sound.opened, sound.gone, sound.proper⟩
  · intro other owns isFree
    rcases (free other).mp isFree with before | ⟨rfl, -⟩
    · exact sound.used other owns before
    · exact notOwned owns
  · unfold Pmm.Bounded
    dsimp only
    rw [limit]
    exact sound.bounded
  · intro other isTaken
    obtain ⟨⟨otherAligned, otherLow, otherCovered, notFree⟩, otherNotOwned⟩ :=
      sound.taken other (fewer.subset isTaken)
    have apart : other ≠ frame := by
      rintro rfl
      obtain ⟨-, heldNodup, disjoint⟩ := nodup_append.mp sound.nodup
      rcases mem_append.mp isTaken with mine | theirs
      · exact disjoint other mine other held rfl
      · exact (heldNodup.mem_erase_iff.mp theirs).1 rfl
    refine ⟨⟨otherAligned, otherLow, ?_, fun isFree => ?_⟩, otherNotOwned⟩
    · dsimp only
      rw [limit]
      exact otherCovered
    · rcases (free other).mp isFree with before | ⟨same, -⟩
      · exact notFree before
      · exact apart same

theorem perform_of_ok {α : Type} {routine : Kernel α} {next : α → Option Stage} {value : α}
    {machine : Machine} (ran : routine world.machine = (.ok value, machine)) :
    world.perform routine next = (next value).map (fun demo => { world with machine, demo }) := by
  unfold World.perform
  rw [ran]

theorem frameAlloc_ok (machine : Machine) : frameAlloc machine =
    (.ok machine.pmm.frameAlloc.1, { machine with pmm := machine.pmm.frameAlloc.2 }) := rfl

theorem call (sound : Sound world space) (idle : world.demo = .idle) (message : List (BitVec 8)) :
    (world.step (.call message) = none ∧ world.machine.pmm.frameAlloc.1 = none) ∨
    ∃ code next, world.step (.call message) = some next ∧ Sound next space ∧
      next.demo = .hasCode message code ∧
      next.machine.pmm = world.machine.pmm.frameAlloc.2 := by
  obtain ⟨machine, kernel, demo, held⟩ := world
  dsimp only at idle
  subst idle
  have ran := @perform_of_ok ⟨machine, kernel, .idle, held⟩ _ frameAlloc
    (fun code => code.map (.hasCode message ·)) _ _ (frameAlloc_ok machine)
  rcases result : machine.pmm.frameAlloc with ⟨_ | code, pmm⟩
  · rw [result] at ran
    exact Or.inl ⟨ran, rfl⟩
  · rw [result] at ran
    refine Or.inr ⟨code, _, ran, ?_, rfl, rfl⟩
    exact sound.allocated result (List.Perm.refl _) rfl rfl trivial

theorem advance (sound : Sound world space) (before : world.demo.rank < 7)
    (busy : world.demo ≠ .idle) :
    (world.advance = none ∧ (world.demo.Fits → world.machine.pmm.frameAlloc.1 = none)) ∨
    ∃ next after, world.advance = some next ∧ Sound next after ∧
      next.demo.rank = world.demo.rank + 1 ∧
      (world.demo.Fits → world.machine.pmm.frameAlloc.1 ≠ none → next.demo.Fits) ∧
      (next.machine.pmm = world.machine.pmm ∨
        next.machine.pmm = world.machine.pmm.frameAlloc.2) := by
  obtain ⟨machine, kernel, demo, held⟩ := world
  cases demo with
  | idle => exact absurd rfl busy
  | hasCode message code =>
      have ran := @perform_of_ok ⟨machine, kernel, .hasCode message code, held⟩ _ frameAlloc
        (fun stack => stack.map (.hasFrames message code ·)) _ _ (frameAlloc_ok machine)
      rcases result : machine.pmm.frameAlloc with ⟨_ | stack, pmm⟩
      · rw [result] at ran
        exact Or.inl ⟨ran, fun _ => rfl⟩
      · rw [result] at ran
        refine Or.inr ⟨_, space, ran, ?_, rfl, fun fits _ => fits, Or.inr rfl⟩
        exact sound.allocated result (List.Perm.swap stack code held) rfl rfl
            trivial
  | hasFrames message code stack =>
      by_cases short : (prog code message).length ≤ pageSize
      · obtain ⟨done, after, machine', ran, next, pmm, failed⟩ := sound.map mem_cons_self rfl
        have proper := short
        rw [length_program] at proper
        refine Or.inr ⟨_, after, ?_, next (.codeMapped message code stack done) rfl rfl ?_ proper, rfl,
          ?_, pmm⟩
        · show (if _ then World.perform _ _ _ else none) = some _
          rw [if_pos short, perform_of_ok ran]
          rfl
        · intro other isOpen
          cases done with
          | false => cases isOpen
          | true => exact Or.inr ⟨rfl, mem_singleton.mp isOpen⟩
        · intro fits some
          cases done with
          | true => rfl
          | false => exact absurd (failed rfl) some
      · refine Or.inl ⟨if_neg short, fun fits => ?_⟩
        rw [length_program] at short
        exact absurd fits short
  | codeMapped message code stack codeMapped =>
      obtain ⟨done, after, machine', ran, next, pmm, failed⟩ :=
        sound.map (mem_cons_of_mem _ mem_cons_self) rfl
      cases done with
      | false =>
          refine Or.inl ⟨?_, fun _ => failed rfl⟩
          show World.perform _ _ _ = none
          rw [perform_of_ok ran, Bool.and_false]
          rfl
      | true =>
          cases codeMapped with
          | false =>
              refine Or.inl ⟨?_, fun fits => by cases fits⟩
              show World.perform _ _ _ = none
              rw [perform_of_ok ran]
              rfl
          | true =>
              refine Or.inr ⟨_, after, ?_, next (.mapped message code stack) rfl rfl ?_
                sound.proper, rfl, fun _ _ => trivial, pmm⟩
              · show World.perform _ _ _ = some _
                rw [perform_of_ok ran]
                rfl
              · intro other isOpen
                rcases mem_cons.mp isOpen with rfl | second
                · exact Or.inl mem_cons_self
                · exact Or.inr ⟨rfl, mem_singleton.mp second⟩
  | mapped message code stack =>
      have proper : instrLen + message.length ≤ pageSize := sound.proper
      obtain ⟨filled, ran, samePmm, sound'⟩ := @write _ _ sound code
        (List.replicate pageSize 0x90) mem_cons_self not_mem_nil
        (Nat.le_of_eq length_replicate)
      obtain ⟨written, ran', samePmm', sound''⟩ := @write _ _ sound' code (prog code message)
        mem_cons_self not_mem_nil (by rw [length_program]; exact proper)
      refine Or.inr ⟨⟨written, kernel, .inUserMode code stack, held⟩, space, ?_,
        sound''.restage rfl rfl rfl trivial, rfl, fun _ _ => trivial, Or.inl (samePmm'.trans samePmm)⟩
      show World.perform _ _ _ = some _
      rw [perform_of_ok (bind_of_ok ran |>.trans ran')]
      rfl
  | inUserMode code stack =>
      obtain ⟨after, machine', ran, next, pmm⟩ := sound.unmap mem_cons_self mem_cons_self
      refine Or.inr ⟨_, after, ?_, next (.codeUnmapped code stack) rfl ?_ rfl
        trivial, rfl, fun _ _ => trivial, pmm⟩
      · show World.perform _ _ _ = some _
        rw [perform_of_ok ran]
        rfl
      · intro other
        exact mem_singleton.trans (by simp [Stage.out])
  | codeUnmapped code stack =>
      obtain ⟨after, machine', ran, next, pmm⟩ :=
        sound.unmap (mem_cons_of_mem _ mem_cons_self)
          (mem_cons_of_mem _ mem_cons_self)
      refine Or.inr ⟨_, after, ?_, next (.unmapped code stack) rfl ?_ rfl
        trivial, rfl, fun _ _ => trivial, pmm⟩
      · show World.perform _ _ _ = some _
        rw [perform_of_ok ran]
        rfl
      · intro other
        simp [Stage.out]
  | unmapped code stack => exact absurd before (by simp [Stage.rank])
  | codeFreed stack => exact absurd before (by simp [Stage.rank])

theorem call_busy (busy : world.demo ≠ .idle) (message : List (BitVec 8)) :
    world.step (.call message) = none := by
  obtain ⟨machine, kernel, demo, held⟩ := world
  cases demo with
  | idle => exact absurd rfl busy
  | _ => rfl

theorem advance_idle (idle : world.demo = .idle) : world.advance = none := by
  unfold World.advance
  rw [idle]

theorem step (sound : Sound world space) {event : Event} (withholds : Withholds world event)
    {next : World} (stepped : world.step event = some next) : ∃ after, Sound next after := by
  cases event with
  | call message =>
      by_cases idle : world.demo = .idle
      · rcases sound.call idle message with ⟨stopped, -⟩ | ⟨code, next', stepped', sound', -⟩
        · rw [stopped] at stepped
          cases stepped
        · obtain rfl := Option.some.inj (stepped.symm.trans stepped')
          exact ⟨space, sound'⟩
      · cases (call_busy idle message).symm.trans stepped
  | advance =>
      by_cases idle : world.demo = .idle
      · cases (advance_idle idle).symm.trans stepped
      · rcases sound.advance withholds idle with ⟨stopped, -⟩ | ⟨next', after, stepped', sound', -⟩
        · cases stopped.symm.trans stepped
        · obtain rfl := Option.some.inj (Eq.trans stepped.symm stepped')
          exact ⟨after, sound'⟩
  | alloc =>
      simp only [World.step] at stepped
      rcases result : world.machine.pmm.frameAlloc with ⟨_ | frame, pmm⟩
      · rw [result] at stepped
        obtain rfl := Option.some.inj stepped
        exact ⟨space, sound⟩
      · rw [result] at stepped
        obtain rfl := Option.some.inj stepped
        exact ⟨space, sound.allocated result perm_middle rfl rfl sound.proper⟩
  | free frame =>
      simp only [World.step] at stepped
      split at stepped
      · rename_i held
        obtain rfl := Option.some.inj stepped
        exact ⟨space, sound.released held⟩
      · cases stepped

theorem finishes (sound : Sound world space) (fits : world.demo.Fits) (busy : world.demo ≠ .idle)
    {start count : Nat} (free : world.machine.pmm.FreeRun start count)
    (left : world.demo.rank + count = 7) :
    ∃ last after, Runs.after World.step world (List.replicate count .advance) = some last ∧
      Sound last after ∧ last.demo.rank = 7 := by
  induction count generalizing world space start with
  | zero => exact ⟨world, space, rfl, sound, left⟩
  | succ count ih =>
      rw [Nat.add_comm count 1] at free
      have first := free 0 (by omega)
      obtain ⟨phys, pmm, allocated, -⟩ := Pmm.frameAlloc_of_free first
      have plenty : world.machine.pmm.frameAlloc.1 ≠ none := by
        rw [allocated]
        exact Option.some_ne_none _
      rcases sound.advance (by omega) busy with ⟨-, failed⟩ | ⟨next, after, stepped, sound', rank,
        fits', pmm'⟩
      · exact absurd (failed fits) plenty
      · obtain ⟨later, rest⟩ : ∃ later, next.machine.pmm.FreeRun later count := by
          rcases pmm' with same | taken
          · rw [same]
            exact ⟨_, free.rest (fun _ isFree _ => isFree)⟩
          · rw [taken, allocated]
            exact ⟨_, (free.frameAlloc allocated).2⟩
        have busy' : next.demo ≠ .idle := by
          intro idle
          rw [idle] at rank
          cases rank
        obtain ⟨last, final, ran, sound'', rank'⟩ :=
          ih sound' (fits' fits plenty) busy' rest (by omega)
        refine ⟨last, final, ?_, sound'', rank'⟩
        rw [replicate_succ, Runs.after, show world.step .advance = some next from stepped]
        exact ran

theorem withholds (sound : Sound world space) {count : Nat}
    (few : world.demo.rank + count ≤ 7) :
    Runs.Meets World.step Withholds world (List.replicate count .advance) := by
  induction count generalizing world space with
  | zero => exact trivial
  | succ count ih =>
      rw [replicate_succ]
      refine ⟨show world.demo.rank < 7 by omega, fun next stepped => ?_⟩
      by_cases idle : world.demo = .idle
      · cases (advance_idle idle).symm.trans stepped
      · rcases sound.advance (by omega) idle with ⟨stopped, -⟩ | ⟨next', after, stepped', sound',
          rank, -⟩
        · cases stopped.symm.trans stepped
        · obtain rfl := Option.some.inj (Eq.trans stepped.symm stepped')
          exact ih sound' (by omega)

theorem lost (sound : Sound world space) (out : frame ∈ world.demo.out) {after : World}
    (mem : after.machine.mem = world.machine.mem) (kernel : after.kernel = world.kernel)
    (free : after.machine.pmm.Free frame) : ¬ after.FreeMapped := by
  intro every
  obtain ⟨⟨leaf, found, -⟩, -⟩ := every frame free
  rw [mem, kernel, ← sound.pml4, Space.walk_eq_view sound.wellFormed sound.upward sound.represents
    (held_lt (sound.taken frame (out_taken out)).1), sound.gone frame out] at found
  cases found

theorem freed (sound : Sound world space) (last : world.demo.rank = 7) :
    ∃ next finished, world.advance = some next ∧ ¬ next.FreeMapped ∧
      next.advance = some finished ∧ finished.demo = .idle ∧ ¬ finished.FreeMapped := by
  obtain ⟨machine, kernel, demo, held⟩ := world
  cases demo with
  | unmapped code stack =>
      have out : code ∈ (Stage.unmapped code stack).out := mem_cons_self
      obtain ⟨⟨aligned, low, covered, -⟩, -⟩ := sound.taken code (out_taken out)
      obtain ⟨⟨stackAligned, stackLow, -, -⟩, -⟩ :=
        sound.taken stack (out_taken (mem_cons_of_mem _ mem_cons_self))
      have free : (machine.pmm.frameFree code).Free code :=
        (Pmm.free_frameFree aligned low code).mpr (Or.inr ⟨rfl, covered⟩)
      exact ⟨_, _, rfl, sound.lost out rfl rfl free, rfl, rfl, sound.lost out rfl rfl
        ((Pmm.free_frameFree stackAligned stackLow code).mpr (Or.inl free))⟩
  | codeFreed stack => exact absurd sound.proper id
  | _ => simp [Stage.rank] at last

theorem spoils (sound : Sound world space) {event : Event} (gives : ¬ Withholds world event) :
    ∃ next, world.step event = some next ∧ ¬ next.FreeMapped := by
  cases event with
  | advance =>
      have last : world.demo.rank = 7 :=
        Nat.le_antisymm sound.proper.rank_le (Nat.le_of_not_lt gives)
      obtain ⟨next, -, freed, spoiled, -⟩ := sound.freed last
      exact ⟨next, freed, spoiled⟩
  | call message => exact absurd trivial gives
  | alloc => exact absurd trivial gives
  | free frame => exact absurd trivial gives

end Sound

end RunDemo

namespace Boot

open RunDemo

def demoWorld (boot : Boot) : Option World :=
  boot.start.map (fun sys =>
    { machine := sys.machine, kernel := sys.layout.kernelPml4, demo := .idle, held := [] })

theorem sound_demoWorld {boot : Boot} {first : World} (valid : boot.Valid)
    (started : boot.demoWorld = some first) :
    Sound first (kernelSpace boot.pml4) ∧ first.demo = .idle := by
  unfold demoWorld at started
  obtain ⟨sys, booted, rfl⟩ := Option.map_eq_some_iff.mp started
  have housed := Tables.housed_start valid booted
  have ready := ready_start valid booted
  have isRoot := (Tables.ofSystem sys).kernel_mem_roots
  refine ⟨?_, rfl⟩
  exact
    { pml4 := ready.table.symm
      active := ready.active.trans ready.table.symm
      wellFormed := housed.wellFormed _ isRoot
      represents := housed.represents _ isRoot
      upward := fun page _ split => absurd (kernelSpace_pt _ _) split
      used := housed.used _ isRoot
      bounded := housed.bounded
      nodup := nodup_nil
      taken := fun frame none => absurd none not_mem_nil
      mapped := fun page _ _ => ⟨_, kernelSpace_view _ page, rfl, rfl⟩
      opened := fun frame none => absurd none not_mem_nil
      gone := fun frame none => absurd none not_mem_nil
      proper := trivial }

/-- Every free frame stays mapped at its own address exactly in the runs where `run_demo` does not
get to its `frame_free`s. -/
theorem free_frames_mapped_iff {boot : Boot} {first : World} (valid : boot.Valid)
    (started : boot.demoWorld = some first) (events : List Event) :
    (∀ front, front <+: events → ∀ world, Runs.after World.step first front = some world →
      world.FreeMapped) ↔
      Runs.Meets World.step Withholds first events := by
  refine @Runs.always_iff_meets _ _ _ _ (fun world => ∃ space, Sound world space) _ ?_ ?_ ?_ _
    ⟨_, (sound_demoWorld valid started).1⟩ events
  · rintro world event next ⟨space, sound⟩ withholds stepped
    exact sound.step withholds stepped
  · rintro world ⟨space, sound⟩
    exact sound.freeMapped
  · rintro world event ⟨space, sound⟩ gives
    exact sound.spoils gives

theorem plain_demoWorld : ∃ first, plain.demoWorld = some first ∧
    first.machine.pmm.FreeRun 0x6800000 (1 + 6) := by
  obtain ⟨pmm, started, free⟩ := plain_start
  refine ⟨_, by rw [demoWorld, started]; rfl, fun index inside => (free _).mpr ?_⟩
  have size : Pmm.frameSize = 4096 := rfl
  rw [size]
  omega

/-- A call of `run_demo` on `plain`, up to its `frame_free`s. -/
theorem plain_demo : ∃ first next last space after, plain.demoWorld = some first ∧
    World.step first (.call []) = some next ∧ Sound next space ∧ next.demo.rank = 1 ∧
    Runs.after World.step next (List.replicate 6 .advance) = some last ∧ Sound last after ∧
    last.demo.rank = 7 := by
  obtain ⟨first, started, free⟩ := plain_demoWorld
  obtain ⟨sound, idle⟩ := sound_demoWorld plain_valid started
  obtain ⟨phys, pmm, allocated, -⟩ := Pmm.frameAlloc_of_free (free 0 (by omega))
  rcases sound.call idle [] with ⟨-, failed⟩ | ⟨code, next, called, sound', stage, pmm'⟩
  · rw [allocated] at failed
    cases failed
  · have rest := (free.frameAlloc allocated).2
    rw [allocated] at pmm'
    rw [← show next.machine.pmm = pmm from pmm'] at rest
    have fits : next.demo.Fits := by
      rw [stage]
      exact (by decide : instrLen + 0 ≤ pageSize)
    have busy : next.demo ≠ .idle := by
      rw [stage]
      exact Stage.noConfusion
    have one : next.demo.rank = 1 := by rw [stage, Stage.rank]
    obtain ⟨last, after, ran, sound'', rank⟩ :=
      sound'.finishes fits busy rest (show next.demo.rank + 6 = 7 by omega)
    exact ⟨first, next, last, _, after, started, called, sound', one, ran, sound'', rank⟩

theorem free_frames_mapped_unfreed : ∃ first last, plain.demoWorld = some first ∧
    Runs.after World.step first (.call [] :: List.replicate 6 .advance) = some last ∧
    last.demo.rank = 7 ∧
    ∀ front, front <+: (.call [] :: List.replicate 6 .advance) →
      ∀ world, Runs.after World.step first front = some world → world.FreeMapped := by
  obtain ⟨first, next, last, space, after, started, called, sound, one, ran, -, rank⟩ := plain_demo
  refine ⟨first, last, started, ?_, rank,
    (free_frames_mapped_iff plain_valid started _).mpr ⟨trivial, fun other stepped => ?_⟩⟩
  · rw [Runs.after, called]
    exact ran
  · obtain rfl := Option.some.inj (called.symm.trans stepped)
    exact sound.withholds (by omega)

/-- One call of `run_demo`, from beginning to end. -/
theorem run_demo_unmaps_free : ∃ first finished, plain.demoWorld = some first ∧
    Runs.after World.step first (.call [] :: List.replicate 8 .advance) = some finished ∧
    finished.demo = .idle ∧ ¬ finished.FreeMapped := by
  obtain ⟨first, next, last, space, after, started, called, -, -, ran, sound, rank⟩ := plain_demo
  obtain ⟨middle, finished, freed, -, freed', idle, spoiled⟩ := sound.freed rank
  refine ⟨first, finished, started, ?_, idle, spoiled⟩
  rw [Runs.after, called]
  refine (@Runs.after_append _ _ _ _ _ (List.replicate 6 Event.advance)
    [Event.advance, Event.advance]).mpr
    ⟨last, ran, ?_⟩
  simp only [Runs.after, World.step, freed, freed']

end Boot

end MachaOS
