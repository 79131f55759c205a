/-
`build_address_space`: a private copy of the kernel's table.

The loader works under the kernel's own table.  `Stage` is what holds while it
does: that table is intact and maps the frames the loader touches to themselves,
and all the loader has written or taken so far were frames that were free when it
started (`pool`).  The copy has a table of its own wherever the kernel has one,
with the same 4 KiB entries.
-/

import MachaOS.Paging.Refinement
import MachaOS.Process.Gather

namespace MachaOS.Loader

open Fallible Machine Paging Space ByteMemory Function

/-- The kernel's table is active, and the loader has kept to `pool`. -/
structure Stage (kernel : Space) (pool cover : Nat → Prop) (origin : ByteMemory)
    (machine : Machine) (proc : Process) : Prop where
  wellFormed : kernel.WellFormed
  represents : kernel.Represents machine.mem
  direct : ∀ frame, pool frame ∨ kernel.Owns frame → kernel.Direct frame
  active : machine.cr3 = kernel.pml4
  apart : ∀ frame, pool frame → frame % 4096 = 0 ∧ frame < identityMapEnd ∧ ¬ kernel.Owns frame
  free : ∀ frame, machine.pmm.Free frame → pool frame
  bounded : machine.pmm.Bounded
  owned : OwnedBy machine.pmm proc
  frames : ∀ frame, frame ∈ proc.frames → pool frame ∧ ¬ cover frame
  wrote : Space.AgreeOutside pool origin machine.mem

/-- The loader gives up, which it does not where memory is `sure` to suffice. -/
def Stopped (kernel : Space) (pool : Nat → Prop) (origin : ByteMemory) (sure : Prop) (stop : Stop)
    (state : Machine × Process) : Prop :=
  ¬ sure ∧ (∃ message, stop = .refused message) ∧ state.1.cr3 = kernel.pml4 ∧
    Space.AgreeOutside pool origin state.1.mem

theorem onMachine_of_ok {α : Type} {routine : Kernel α} {machine machine' : Machine} {value : α}
    {proc : Process} (ran : routine machine = (.ok value, machine')) :
    onMachine routine (machine, proc) = (.ok value, (machine', proc)) := by
  unfold onMachine
  rw [ran]

namespace Stage

variable {kernel : Space} {pool cover : Nat → Prop} {origin : ByteMemory} {sure : Prop}
  {machine machine' : Machine} {proc proc' : Process}

theorem editing (stage : Stage kernel pool cover origin machine proc) :
    Editing (fun frame => pool frame ∨ kernel.Owns frame) kernel machine :=
  { wellFormed := stage.wellFormed
    represents := stage.represents
    owned := fun frame owns => Or.inr owns
    used := fun frame owns isFree => (stage.apart frame (stage.free frame isFree)).2.2 owns
    aligned := by
      rintro frame (inPool | owns)
      · exact (stage.apart frame inPool).1
      · exact stage.wellFormed.aligned frame owns
    bounded := by
      rintro frame (inPool | owns)
      · exact (stage.apart frame inPool).2.1
      · exact stage.wellFormed.bounded frame owns
    active := Or.inl ⟨stage.active, stage.direct⟩ }

theorem of_write {written : Nat → Prop} {mem : ByteMemory}
    (stage : Stage kernel pool cover origin machine proc)
    (agree : Space.AgreeOutside written machine.mem mem)
    (inPool : ∀ frame, written frame → pool frame) :
    Stage kernel pool cover origin { machine with mem } proc :=
  { stage with
    represents := stage.represents.congr stage.wellFormed agree
      (fun frame owns wrote => (stage.apart frame (inPool frame wrote)).2.2 owns)
    wrote := stage.wrote.trans (agree.mono inPool) }

theorem of_books (stage : Stage kernel pool cover origin machine proc)
    (frames : proc'.frames = proc.frames) (owned : OwnedBy machine.pmm proc') :
    Stage kernel pool cover origin machine proc' :=
  { stage with
    owned
    frames := by
      rw [frames]
      exact stage.frames }

theorem advance {written : Nat → Prop} {taken : List Nat}
    (stage : Stage kernel pool cover origin machine proc)
    (takes : Takes machine machine' taken)
    (agree : Space.AgreeOutside written machine.mem machine'.mem)
    (inPool : ∀ frame, written frame → pool frame)
    (clear : ∀ frame, frame ∈ taken → ¬ cover frame) :
    Stage kernel pool cover origin machine'
      { proc with frames := proc.frames ++ taken } := by
  have grown : Grown proc { proc with frames := proc.frames ++ taken } machine machine'
      [] taken := Grown.of_takes takes rfl rfl
  refine
    { stage with
      represents := stage.represents.congr stage.wellFormed agree
        (fun frame owns wrote => (stage.apart frame (inPool frame wrote)).2.2 owns)
      active := takes.cr3.trans stage.active
      free := fun frame isFree => stage.free frame ((takes.free frame).mp isFree).1
      bounded := ?_
      owned := (stage.owned.grow stage.bounded grown).1
      frames := ?_
      wrote := stage.wrote.trans (agree.mono inPool) }
  · unfold Pmm.Bounded
    rw [takes.limit]
    exact stage.bounded
  · intro frame member
    rcases List.mem_append.mp member with old | new
    · exact stage.frames frame old
    · exact ⟨stage.free frame (takes.wasFree frame new), clear frame new⟩

theorem stopped (stage : Stage kernel pool cover origin machine proc) (unsure : ¬ sure)
    (message : String) :
    Stopped kernel pool origin sure (.refused message) (machine, proc) :=
  ⟨unsure, ⟨message, rfl⟩, stage.active, stage.wrote⟩

theorem allocFrame {count : Nat} (stage : Stage kernel pool cover origin machine proc)
    (stock : Pmm.Stock (fun frame => ¬ cover frame) sure (1 + count) machine.pmm) :
    Yields Loader.allocFrame (machine, proc)
      (fun frame state => ∃ pmm,
        state = ({ machine with
            pmm
            mem := machine.mem.writeBytes frame (List.replicate Pmm.frameSize 0#8) },
          { proc with frames := proc.frames ++ [frame] }) ∧
        Stage kernel pool cover origin state.1 state.2 ∧ pool frame ∧ machine.pmm.Free frame ∧
        Pmm.Stock (fun frame => ¬ cover frame) sure count state.1.pmm)
      (Stopped kernel pool origin sure) := by
  unfold Loader.allocFrame
  rcases given : machine.pmm.frameAlloc with ⟨_ | frame, pmm⟩
  · have same := (Pmm.frameAlloc_none given).1
    subst same
    have ran : frameAlloc machine = (.ok none, machine) := by
      simp [frameAlloc, given]
    refine yields_of_error ?_ (stage.stopped (stock.frameAlloc_none given) "out of memory")
    rw [bind_of_ok (onMachine_of_ok ran)]
    rfl
  · have ran : frameAlloc machine = (.ok (some frame), { machine with pmm }) := by
      simp [frameAlloc, given]
    have takes : Takes machine { machine with pmm } [frame] := Takes.of_frameAlloc given
    obtain ⟨clear, rest⟩ := stock.frameAlloc_some given
    have wasFree := (Pmm.frameAlloc_some given).1
    have stage₁ := stage.advance takes (Space.AgreeOutside.refl (fun _ => False) _) (by simp) (by
      intro other member
      rw [List.mem_singleton.mp member]
      exact clear)
    have inPool := stage.free frame wasFree
    obtain ⟨aligned, -, notKernel⟩ := stage.apart frame inPool
    have touched : ∀ other, Touches frame Pmm.frameSize other → other = frame := by
      rintro other ⟨offset, inside, rfl⟩
      have size : Pmm.frameSize = 4096 := rfl
      omega
    have zeroed := @Editing.zeroBytes _ _ _ stage₁.editing frame Pmm.frameSize
      (fun other touches => by
        rw [touched other touches]
        exact ⟨Or.inl inPool, notKernel⟩)
    have stage₂ := stage₁.of_write
      (agreeOutside_writeBytes machine.mem frame (List.replicate Pmm.frameSize 0#8))
      (by
        intro other touches
        rw [List.length_replicate] at touches
        rw [touched other touches]
        exact inPool)
    unfold Yields
    rw [bind_of_ok (onMachine_of_ok ran)]
    dsimp only
    rw [bind_of_ok (onMachine_of_ok zeroed)]
    exact ⟨pmm, rfl, stage₂, inPool, wasFree, rest⟩

theorem allocBlock {pages count : Nat}
    (stage : Stage kernel pool cover origin machine proc) (positive : 0 < pages)
    (stock : Pmm.Stock (fun frame => ¬ cover frame) sure (pages + count) machine.pmm) :
    Yields (Loader.allocBlock pages) (machine, proc)
      (fun phys state => ∃ pmm, machine.pmm.allocContiguous pages = (some phys, pmm) ∧
        state = ({ machine with pmm },
          { proc with frames := proc.frames ++ Pmm.frameRun phys pages }) ∧
        Stage kernel pool cover origin state.1 state.2 ∧
        Pmm.Stock (fun frame => ¬ cover frame) sure count state.1.pmm)
      (Stopped kernel pool origin sure) := by
  unfold Loader.allocBlock
  rcases given : machine.pmm.allocContiguous pages with ⟨_ | phys, pmm⟩
  · have same := Pmm.allocContiguous_none given
    subst same
    have ran : allocContiguous pages machine = (.ok none, machine) := by
      simp [allocContiguous, given]
    refine yields_of_error ?_
      (stage.stopped (stock.allocContiguous_none positive given) "out of memory")
    rw [bind_of_ok (onMachine_of_ok ran)]
    rfl
  · have ran : allocContiguous pages machine = (.ok (some phys), { machine with pmm }) := by
      simp [allocContiguous, given]
    obtain ⟨clear, rest⟩ := stock.allocContiguous_some given
    have takes : Takes machine { machine with pmm } (Pmm.frameRun phys pages) := by
      rcases allocContiguous_takes ran with ⟨none, -⟩ | ⟨other, same, -, -, takes⟩
      · cases none
      · cases same
        exact takes
    unfold Yields
    rw [bind_of_ok (onMachine_of_ok ran)]
    exact ⟨pmm, rfl, rfl,
      stage.advance takes (Space.AgreeOutside.refl (fun _ => False) _) (by simp) clear, rest⟩

theorem storeU64 {frame index : Nat} (stage : Stage kernel pool cover origin machine proc)
    (inPool : pool frame) (inside : index < 512) (word : BitVec 64) :
    Machine.storeU64 (frame + 8 * index) word machine =
        (.ok (), { machine with mem := machine.mem.writeU64 (frame + 8 * index) word }) ∧
      Stage kernel pool cover origin
        { machine with mem := machine.mem.writeU64 (frame + 8 * index) word } proc := by
  obtain ⟨aligned, -⟩ := stage.apart frame inPool
  refine ⟨stage.editing.storeU64 word (Or.inl inPool) inside, ?_⟩
  refine stage.of_write (agreeOutside_writeU64 machine.mem word aligned inside) ?_
  rintro other rfl
  exact inPool

/-- A loop that stores `value` into consecutive words of a frame leaves `FilledWith`. -/
structure FilledWith (frame index left : Nat) (value : Nat → BitVec 64) (mem mem' : ByteMemory) :
    Prop where
  agree : Space.AgreeOutside (fun other => other = frame) mem mem'
  before : ∀ at', at' < index → mem'.readU64 (frame + 8 * at') = mem.readU64 (frame + 8 * at')
  words : ∀ at', index ≤ at' → at' < index + left → mem'.readU64 (frame + 8 * at') = value at'

theorem FilledWith.nil (frame index : Nat) (value : Nat → BitVec 64) (mem : ByteMemory) :
    FilledWith frame index 0 value mem mem :=
  ⟨Space.AgreeOutside.refl _ _, fun _ _ => rfl, fun at' lower upper => by omega⟩

theorem FilledWith.cons {frame index left : Nat} {value : Nat → BitVec 64} {mem mem' : ByteMemory}
    (aligned : frame % 4096 = 0) (inside : index < 512)
    (rest : FilledWith frame (index + 1) left value
      (mem.writeU64 (frame + 8 * index) (value index)) mem') :
    FilledWith frame index (left + 1) value mem mem' := by
  refine ⟨(agreeOutside_writeU64 mem _ aligned inside).trans rest.agree, ?_, ?_⟩
  · intro at' lower
    rw [rest.before at' (by omega), readU64_writeU64_of_apart _ _ _ _ (by omega)]
  · intro at' lower upper
    by_cases here : at' = index
    · subst here
      rw [rest.before at' (by omega), readU64_writeU64_self]
    · exact rest.words at' (by omega) (by omega)

theorem copyWords {node : Node} {source target index left : Nat}
    (stage : Stage kernel pool cover origin machine proc)
    (placed : kernel.frameAt node = some source) (inPool : pool target)
    (inside : index + left ≤ 512) :
    ∃ mem, Loader.copyWords source target index left machine = (.ok (), { machine with mem }) ∧
      Stage kernel pool cover origin { machine with mem } proc ∧
      FilledWith target index left (kernel.entryAt node) machine.mem mem := by
  induction left generalizing index machine with
  | zero => exact ⟨machine.mem, rfl, stage, FilledWith.nil _ _ _ _⟩
  | succ left ih =>
      have loaded := stage.editing.loadU64
        (stage.editing.owned source ⟨node, placed⟩) (show index < 512 by omega)
      rw [stage.represents node source index placed (by omega)] at loaded
      obtain ⟨stored, stage'⟩ :=
        stage.storeU64 inPool (show index < 512 by omega) (kernel.entryAt node index)
      obtain ⟨mem, ran, final, filled⟩ := ih stage' (show index + 1 + left ≤ 512 by omega)
      refine ⟨mem, ?_, final, filled.cons (stage.apart target inPool).1 (by omega)⟩
      rw [Loader.copyWords, bind_of_ok loaded, bind_of_ok stored]
      exact ran

theorem entryBase_upperEntry {frame : Nat} (user : Bool) (aligned : frame % 4096 = 0)
    (bounded : frame < identityMapEnd) : entryBase (upperEntry frame user) = frame := by
  have same : upperEntry frame user &&& ~~~0xFFF#64 = upperEntry frame user &&& addrMask := by
    apply BitVec.eq_of_getLsbD_eq
    intro index inside
    rw [BitVec.getLsbD_and, BitVec.getLsbD_and, getLsbD_addrMask inside]
    by_cases high : 52 ≤ index
    · have zero : (upperEntry frame user).getLsbD index = false := by
        rw [upperEntry, BitVec.getLsbD_or,
          getLsbD_ofNat_high (lt_trans bounded (by decide)) high, Bool.false_or]
        cases user <;> interval_cases index <;> rfl
      rw [zero]
      rfl
    · have mask : (~~~0xFFF#64 : BitVec 64).getLsbD index = decide (12 ≤ index ∧ index < 52) := by
        interval_cases index <;> rfl
      rw [mask]
  unfold entryBase
  rw [same]
  exact tableBase_upperEntry user aligned bounded

theorem upperEntry_moved {frame : Nat} (other : Nat) (user : Bool) (aligned : frame % 4096 = 0) :
    BitVec.ofNat 64 other ||| (upperEntry frame user &&& 0xFFF#64) = upperEntry other user := by
  have low : upperEntry frame user &&& 0xFFF#64 = if user then 7#64 else 3#64 := by
    apply BitVec.eq_of_getLsbD_eq
    intro index inside
    rw [BitVec.getLsbD_and, upperEntry, BitVec.getLsbD_or]
    by_cases low : index < 12
    · rw [getLsbD_ofNat_low aligned low, Bool.false_or]
      cases user <;> interval_cases index <;> rfl
    · have mask : (0xFFF#64 : BitVec 64).getLsbD index = false := by
        interval_cases index <;> rfl
      have small : (if user then 7#64 else 3#64 : BitVec 64).getLsbD index = false := by
        cases user <;> interval_cases index <;> rfl
      rw [mask, small, Bool.and_false]
  rw [low, upperEntry]

/-! ### The copy under construction -/

/-- The entry the copy gets at `index` of a table once its tables sit in `frameOf`. -/
def copyEntry (kernel : Space) (frameOf : Node → Option Nat) : Node → Nat → BitVec 64
  | .pml4, index => if index = 0 then upperEntry ((frameOf .pdpt).getD 0) false else 0#64
  | .pdpt, index =>
      if index < 4 then upperEntry ((frameOf (.pd index)).getD 0) (kernel.userPdpt index)
      else 0#64
  | .pd gigabyte, index =>
      match kernel.pt (512 * gigabyte + index) with
      | none => bigEntry (512 * gigabyte + index)
      | some _ => upperEntry ((frameOf (.pt (512 * gigabyte + index))).getD 0)
          (kernel.userPd (512 * gigabyte + index))
  | .pt block, index => kernel.leaf (512 * block + index)

/-- The tables placed so far, with the entries that are `written`. -/
structure Copied (kernel : Space) (frameOf : Node → Option Nat) (written : Node → Nat → Prop)
    (frames : List Nat) (mem : ByteMemory) : Prop where
  listed : ∀ node frame, frameOf node = some frame → frame ∈ frames
  distinct : ∀ node other frame, frameOf node = some frame → frameOf other = some frame →
    node = other
  words : ∀ node frame index, frameOf node = some frame → index < 512 → written node index →
    mem.readU64 (frame + 8 * index) = copyEntry kernel frameOf node index

namespace Copied

variable {frameOf : Node → Option Nat} {written written' : Node → Nat → Prop} {frames : List Nat}
  {mem mem' : ByteMemory} {node : Node} {frame index : Nat}

theorem place (copied : Copied kernel frameOf written frames mem) (fresh : frame ∉ frames)
    (aligned : ∀ other, other ∈ frames → other % 4096 = 0)
    (agree : Space.AgreeOutside (fun other => other = frame) mem mem')
    (stable : ∀ other at', at' < 512 → written other at' →
      copyEntry kernel (Function.update frameOf node (some frame)) other at' =
        copyEntry kernel frameOf other at')
    (earlier : ∀ other at', other ≠ node → written' other at' → written other at')
    (filled : ∀ at', at' < 512 → written' node at' → mem'.readU64 (frame + 8 * at') =
      copyEntry kernel (Function.update frameOf node (some frame)) node at') :
    Copied kernel (Function.update frameOf node (some frame)) written' (frames ++ [frame])
      mem' := by
  have found : ∀ other base, Function.update frameOf node (some frame) other = some base →
      (other = node ∧ base = frame) ∨ (other ≠ node ∧ frameOf other = some base) := by
    intro other base placed
    by_cases same : other = node
    · subst same
      rw [update_self] at placed
      exact Or.inl ⟨rfl, (Option.some.inj placed).symm⟩
    · rw [update_of_ne same] at placed
      exact Or.inr ⟨same, placed⟩
  refine ⟨?_, ?_, ?_⟩
  · intro other base placed
    rcases found other base placed with ⟨-, rfl⟩ | ⟨-, old⟩
    · simp
    · exact List.mem_append_left _ (copied.listed other base old)
  · intro first second base placed again
    rcases found first base placed with ⟨rfl, rfl⟩ | ⟨-, old⟩ <;>
      rcases found second _ again with ⟨rfl, same⟩ | ⟨-, other⟩
    · rfl
    · exact absurd (copied.listed second _ other) fresh
    · subst same
      exact absurd (copied.listed first _ old) fresh
    · exact copied.distinct first second base old other
  · intro other base at' placed inside isWritten
    rcases found other base placed with ⟨rfl, rfl⟩ | ⟨different, old⟩
    · exact filled at' inside isWritten
    · have before := earlier other at' different isWritten
      have member := copied.listed other base old
      rw [agree.readU64 (fun same => fresh (same ▸ member)) (aligned base member) inside,
        stable other at' inside before]
      exact copied.words other base at' old inside before

theorem write (copied : Copied kernel frameOf written frames mem)
    (placed : frameOf node = some frame)
    (aligned : ∀ other, other ∈ frames → other % 4096 = 0) (inside : index < 512)
    (earlier : ∀ other at', at' < 512 → written' other at' →
      written other at' ∨ other = node ∧ at' = index) :
    Copied kernel frameOf written' frames
      (mem.writeU64 (frame + 8 * index) (copyEntry kernel frameOf node index)) := by
  refine ⟨copied.listed, copied.distinct, ?_⟩
  intro other base at' found atInside isWritten
  have baseAligned := aligned base (copied.listed other base found)
  have frameAligned := aligned frame (copied.listed node frame placed)
  by_cases here : other = node ∧ at' = index
  · obtain ⟨rfl, rfl⟩ := here
    obtain rfl := Option.some.inj (found.symm.trans placed)
    rw [readU64_writeU64_self]
  · have apart : frame + 8 * index + 8 ≤ base + 8 * at' ∨
        base + 8 * at' + 8 ≤ frame + 8 * index := by
      by_cases sameNode : other = node
      · subst sameNode
        obtain rfl := Option.some.inj (found.symm.trans placed)
        have different : at' ≠ index := fun same => here ⟨rfl, same⟩
        omega
      · have different : base ≠ frame := by
          rintro rfl
          exact sameNode (copied.distinct other node base found placed)
        omega
    rw [readU64_writeU64_of_apart _ _ _ _ apart]
    exact copied.words other base at' found atInside
      ((earlier other at' atInside isWritten).resolve_right here)

end Copied

/-- The entries written once `linked` directories hang in the PDPT and `blocks` directory
entries are done. -/
def Written (linked blocks : Nat) : Node → Nat → Prop
  | .pml4, _ => True
  | .pdpt, index => index < linked ∨ 4 ≤ index
  | .pd gigabyte, index => 512 * gigabyte + index < blocks
  | .pt _, _ => True

structure Placement (kernel : Space) (pml4 pdpt directories blocks : Nat)
    (frameOf : Node → Option Nat) : Prop where
  top : frameOf .pml4 = some pml4
  pdpt : frameOf .pdpt = some pdpt
  pd : ∀ gigabyte, gigabyte < directories → frameOf (.pd gigabyte) ≠ none
  pt : ∀ block, block < blocks → kernel.pt block ≠ none → frameOf (.pt block) ≠ none

/-- The page tables of the kernel among `count` blocks. -/
def splits (kernel : Space) (block count : Nat) : Nat :=
  (List.range' block count).countP (fun block => (kernel.pt block).isSome)

theorem splits_succ (kernel : Space) (block count : Nat) :
    splits kernel block (count + 1) =
      (if kernel.pt block = none then 0 else 1) + splits kernel (block + 1) count := by
  unfold splits
  rw [List.range'_succ, List.countP_cons, Nat.add_comm]
  cases kernel.pt block <;> rfl

theorem splits_add (kernel : Space) (block first second : Nat) :
    splits kernel block (first + second) =
      splits kernel block first + splits kernel (block + first) second := by
  unfold splits
  rw [← List.range'_append_1, List.countP_append]

theorem splits_whole (whole : ∀ block, kernel.pt block = none) (block count : Nat) :
    splits kernel block count = 0 := by
  unfold splits
  rw [List.countP_eq_zero]
  intro other _
  simp [whole]

structure Copying (kernel : Space) (pool cover : Nat → Prop) (origin : ByteMemory) (sure : Prop)
    (pml4 pdpt : Nat) (frameOf : Node → Option Nat) (linked directories blocks count : Nat)
    (before : Process) (state : Machine × Process) : Prop where
  stage : Stage kernel pool cover origin state.1 state.2
  placement : Placement kernel pml4 pdpt directories blocks frameOf
  copied : Copied kernel frameOf (Written linked blocks) state.2.frames state.1.mem
  record : state.2 = { before with frames := state.2.frames }
  stock : Pmm.Stock (fun frame => ¬ cover frame) sure count state.1.pmm

namespace Copying

variable {pml4 pdpt linked directories blocks count : Nat} {frameOf : Node → Option Nat}
  {before : Process} {state : Machine × Process}

theorem aligned
    (copying : Copying kernel pool cover origin sure pml4 pdpt frameOf linked directories blocks
      count before state) : ∀ frame, frame ∈ state.2.frames → frame % 4096 = 0 :=
  fun frame member => (copying.stage.owned.held frame member).1

theorem inPool
    (copying : Copying kernel pool cover origin sure pml4 pdpt frameOf linked directories blocks
      count before state) {node : Node} {frame : Nat} (placed : frameOf node = some frame) :
    pool frame :=
  (copying.stage.frames frame (copying.copied.listed node frame placed)).1

theorem writeBlock {gigabyte index pd : Nat}
    (copying : Copying kernel pool cover origin sure pml4 pdpt frameOf linked directories
      (512 * gigabyte + index) count before state) (inside : index < 512)
    (directory : frameOf (.pd gigabyte) = some pd)
    (table : kernel.pt (512 * gigabyte + index) ≠ none →
      frameOf (.pt (512 * gigabyte + index)) ≠ none) :
    ∃ machine, Machine.storeU64 (pd + 8 * index) (copyEntry kernel frameOf (.pd gigabyte) index)
        state.1 = (.ok (), machine) ∧
      Copying kernel pool cover origin sure pml4 pdpt frameOf linked directories
        (512 * gigabyte + index + 1) count before (machine, state.2) := by
  obtain ⟨stored, stage⟩ := copying.stage.storeU64 (copying.inPool directory) inside
    (copyEntry kernel frameOf (.pd gigabyte) index)
  refine ⟨_, stored, stage, ?_, ?_, copying.record, copying.stock⟩
  · refine { copying.placement with pt := fun block below split => ?_ }
    by_cases here : block = 512 * gigabyte + index
    · subst here
      exact table split
    · exact copying.placement.pt block (by omega) split
  · refine copying.copied.write directory copying.aligned inside ?_
    intro other at' atInside isWritten
    cases other with
    | pml4 => exact Or.inl trivial
    | pdpt => exact Or.inl isWritten
    | pt block => exact Or.inl trivial
    | pd other =>
        have position : 512 * other + at' < 512 * gigabyte + index + 1 := isWritten
        by_cases early : 512 * other + at' < 512 * gigabyte + index
        · exact Or.inl early
        · refine Or.inr ⟨?_, by omega⟩
          rw [show other = gigabyte by omega]

theorem takeFrame
    (copying : Copying kernel pool cover origin sure pml4 pdpt frameOf linked directories blocks
      (1 + count) before state) :
    Yields Loader.allocFrame state
      (fun frame after => ∃ pmm, after = ({ state.1 with
            pmm
            mem := state.1.mem.writeBytes frame (List.replicate Pmm.frameSize 0#8) },
          { state.2 with frames := state.2.frames ++ [frame] }) ∧
        Stage kernel pool cover origin after.1 after.2 ∧ pool frame ∧
        frame ∉ state.2.frames ∧ frame % 4096 = 0 ∧
        Space.AgreeOutside (fun other => other = frame) state.1.mem after.1.mem ∧
        Pmm.Stock (fun frame => ¬ cover frame) sure count after.1.pmm)
      (Stopped kernel pool origin sure) := by
  obtain ⟨machine, proc⟩ := state
  refine (copying.stage.allocFrame copying.stock).mono ?_
  rintro frame after ⟨pmm, rfl, stage, inPool, wasFree, rest⟩
  refine ⟨pmm, rfl, stage, inPool, ?_, (copying.stage.apart frame inPool).1, ?_, rest⟩
  · exact fun member => (copying.stage.owned.held frame member).2.2.2 wasFree
  · refine (agreeOutside_writeBytes machine.mem frame (List.replicate Pmm.frameSize 0#8)).mono ?_
    rintro other ⟨offset, inside, rfl⟩
    have size : Pmm.frameSize = 4096 := rfl
    have frameAligned := (copying.stage.apart frame inPool).1
    rw [List.length_replicate] at inside
    omega

theorem copyTable {gigabyte index pd source : Nat}
    (copying : Copying kernel pool cover origin sure pml4 pdpt frameOf linked directories
      (512 * gigabyte + index) (1 + count) before state) (isGigabyte : gigabyte < 4)
    (inside : index < 512) (directory : frameOf (.pd gigabyte) = some pd)
    (split : kernel.pt (512 * gigabyte + index) = some source) :
    Yields
      (do
        let pt ← Loader.allocFrame
        onMachine (Loader.copyWords source pt 0 512)
        onMachine (Machine.storeU64 (pd + 8 * index) (BitVec.ofNat 64 pt |||
          (upperEntry source (kernel.userPd (512 * gigabyte + index)) &&& 0xFFF#64)))) state
      (fun _ after => ∃ frameOf', frameOf' (.pd gigabyte) = some pd ∧
        Copying kernel pool cover origin sure pml4 pdpt frameOf' linked directories
          (512 * gigabyte + index + 1) count before after)
      (Stopped kernel pool origin sure) := by
  have sourceAligned := copying.stage.wellFormed.aligned source
    (owns_pt (show 512 * gigabyte + index < 2048 by omega) split)
  refine copying.takeFrame.bind ?_
  rintro frame after ⟨pmm, rfl, stage, inPool, fresh, frameAligned, cleared, stock⟩
  obtain ⟨mem, ran, stage', filled⟩ := @Stage.copyWords kernel pool cover origin _ _
    (.pt (512 * gigabyte + index)) source frame 0 512 stage
    (by simp only [Space.frameAt, if_pos (show 512 * gigabyte + index < 2048 by omega), split])
    inPool (by decide)
  have different : Node.pd gigabyte ≠ Node.pt (512 * gigabyte + index) := by
    intro same
    cases same
  have placed : Copying kernel pool cover origin sure pml4 pdpt
      (Function.update frameOf (.pt (512 * gigabyte + index)) (some frame)) linked directories
      (512 * gigabyte + index) count before ({ state.1 with pmm, mem },
        { state.2 with frames := state.2.frames ++ [frame] }) := by
    refine ⟨stage', ⟨copying.placement.top, copying.placement.pdpt, copying.placement.pd, ?_⟩, ?_,
      ?_, stock⟩
    · intro block below isSplit
      by_cases here : block = 512 * gigabyte + index
      · subst here
        simp
      · have other : Node.pt block ≠ Node.pt (512 * gigabyte + index) := by
          intro same
          exact here (Node.pt.inj same)
        rw [update_of_ne other]
        exact copying.placement.pt block below isSplit
    · refine copying.copied.place fresh copying.aligned (cleared.trans filled.agree) ?_
        (fun _ _ _ isWritten => isWritten) ?_
      · intro other at' atInside isWritten
        cases other with
        | pml4 => rfl
        | pdpt => rfl
        | pt block => rfl
        | pd other =>
            have position : 512 * other + at' < 512 * gigabyte + index := isWritten
            have elsewhere : Node.pt (512 * other + at') ≠ Node.pt (512 * gigabyte + index) := by
              intro same
              have := Node.pt.inj same
              omega
            simp only [copyEntry, update_of_ne elsewhere]
      · intro at' atInside _
        exact filled.words at' (Nat.zero_le _) (by omega)
    · dsimp only
      rw [copying.record]
  obtain ⟨machine, stored, final⟩ := placed.writeBlock inside
    (by rw [update_of_ne different]; exact directory) (by simp)
  have word : BitVec.ofNat 64 frame |||
      (upperEntry source (kernel.userPd (512 * gigabyte + index)) &&& 0xFFF#64) =
      copyEntry kernel (Function.update frameOf (.pt (512 * gigabyte + index)) (some frame))
        (.pd gigabyte) index := by
    rw [upperEntry_moved frame _ sourceAligned]
    simp only [copyEntry, split, update_self, Option.getD_some]
  refine Yields.after (onMachine_of_ok ran) ?_
  rw [word]
  refine yields_of_ok (onMachine_of_ok stored) ⟨_, ?_, final⟩
  rw [update_of_ne different]
  exact directory

theorem copyDirectory {gigabyte pd index left : Nat}
    (copying : Copying kernel pool cover origin sure pml4 pdpt frameOf linked directories
      (512 * gigabyte + index) (splits kernel (512 * gigabyte + index) left + count) before state)
    (isGigabyte : gigabyte < 4) (directory : frameOf (.pd gigabyte) = some pd)
    (all : index + left = 512) :
    Yields (Loader.copyDirectory (kernel.pd gigabyte) pd index left) state
      (fun _ after => ∃ frameOf', frameOf' (.pd gigabyte) = some pd ∧
        Copying kernel pool cover origin sure pml4 pdpt frameOf' linked directories
          (512 * gigabyte + 512) count before after)
      (Stopped kernel pool origin sure) := by
  induction left generalizing index state frameOf with
  | zero =>
      obtain rfl : index = 512 := by omega
      refine yields_of_ok rfl ⟨frameOf, directory, ?_⟩
      simpa [splits] using copying
  | succ left ih =>
      obtain ⟨machine, proc⟩ := state
      have inside : index < 512 := by omega
      have blockInside : 512 * gigabyte + index < 2048 := by omega
      have place : kernel.frameAt (.pd gigabyte) = some (kernel.pd gigabyte) := by
        simp only [Space.frameAt, if_pos isGigabyte]
      have loaded := copying.stage.editing.loadU64
        (copying.stage.editing.owned _ ⟨_, place⟩) inside
      rw [copying.stage.represents _ _ index place inside] at loaded
      have stock := copying.stock
      rw [splits_succ, Nat.add_assoc] at stock
      rw [Loader.copyDirectory]
      refine Yields.after (onMachine_of_ok loaded) ?_
      have next : 512 * gigabyte + index + 1 = 512 * gigabyte + (index + 1) := by omega
      cases split : kernel.pt (512 * gigabyte + index) with
      | none =>
          obtain ⟨present, -, -, big⟩ := bigEntry_bits (512 * gigabyte + index)
          rw [if_pos split, Nat.zero_add] at stock
          obtain ⟨machine', stored, written⟩ :=
            ({ copying with stock } : Copying _ _ _ _ _ _ _ _ _ _ _ _ _ _).writeBlock inside
              directory (fun isSplit => absurd split isSplit)
          rw [next] at written
          simp only [copyEntry, split] at stored
          simp only [Space.entryAt, split, and_pagePresent_eq_zero, present, Bool.true_eq_false,
            if_false, ne_eq, and_psBit_eq_zero, big, not_false_iff, if_true]
          exact Yields.after (onMachine_of_ok stored) (ih written directory (by omega))
      | some source =>
          have owns := owns_pt blockInside split
          have sourceAligned := copying.stage.wellFormed.aligned source owns
          have sourceBounded := copying.stage.wellFormed.bounded source owns
          obtain ⟨present, -, -, big⟩ :=
            upperEntry_bits (kernel.userPd (512 * gigabyte + index)) sourceAligned
          rw [if_neg (by simp [split])] at stock
          have step :=
            (({ copying with stock } : Copying _ _ _ _ _ _ _ _ _ _ _ _ _ _).copyTable isGigabyte
              inside directory split).bind
            (fun _ after (later : ∃ frameOf', frameOf' (.pd gigabyte) = some pd ∧
              Copying kernel pool cover origin sure pml4 pdpt frameOf' linked directories
                (512 * gigabyte + index + 1)
                (splits kernel (512 * gigabyte + index + 1) left + count) before after) => by
              obtain ⟨frameOf', directory', copying'⟩ := later
              rw [next] at copying'
              exact ih copying' directory' (by omega))
          simp only [Space.entryAt, split, and_pagePresent_eq_zero, present, Bool.true_eq_false,
            if_false, ne_eq, and_psBit_eq_zero, big, not_true,
            entryBase_upperEntry _ sourceAligned sourceBounded]
          simp only [Fallible.bind_assoc] at step
          exact step

/-- The frames the directories from `index` on will take. -/
def framesFrom (kernel : Space) (index : Nat) : Nat :=
  4 - index + splits kernel (512 * index) (2048 - 512 * index)

theorem framesFrom_next {index : Nat} (kernel : Space) (isGigabyte : index < 4) :
    framesFrom kernel index = 1 + (splits kernel (512 * index) 512 + framesFrom kernel (index + 1)) := by
  unfold framesFrom
  have rest : 2048 - 512 * index = 512 + (2048 - 512 * (index + 1)) := by omega
  rw [rest, splits_add, show 512 * index + 512 = 512 * (index + 1) by omega]
  omega

theorem directory {index : Nat}
    (copying : Copying kernel pool cover origin sure pml4 pdpt frameOf index index (512 * index)
      (framesFrom kernel index + count) before state) (isGigabyte : index < 4) :
    Yields
      (do
        let pd ← Loader.allocFrame
        Loader.copyDirectory (kernel.pd index) pd 0 512
        onMachine (Machine.storeU64 (pdpt + 8 * index) (BitVec.ofNat 64 pd |||
          (upperEntry (kernel.pd index) (kernel.userPdpt index) &&& 0xFFF#64)))) state
      (fun _ after => ∃ frameOf',
        Copying kernel pool cover origin sure pml4 pdpt frameOf' (index + 1) (index + 1)
          (512 * (index + 1)) (framesFrom kernel (index + 1) + count) before after)
      (Stopped kernel pool origin sure) := by
  have pdAligned := copying.stage.wellFormed.aligned _ (owns_pd isGigabyte)
  have stock := copying.stock
  rw [framesFrom_next kernel isGigabyte, Nat.add_assoc, Nat.add_assoc] at stock
  refine ({ copying with stock } : Copying _ _ _ _ _ _ _ _ _ _ _ _ _ _).takeFrame.bind ?_
  rintro frame after ⟨pmm, rfl, stage, inPool, fresh, frameAligned, cleared, stock'⟩
  have placed : Copying kernel pool cover origin sure pml4 pdpt
      (Function.update frameOf (.pd index) (some frame)) index (index + 1) (512 * index + 0)
      (splits kernel (512 * index + 0) 512 + (framesFrom kernel (index + 1) + count)) before
      ({ state.1 with
          pmm
          mem := state.1.mem.writeBytes frame (List.replicate Pmm.frameSize 0#8) },
        { state.2 with frames := state.2.frames ++ [frame] }) := by
    refine ⟨stage, ⟨copying.placement.top, copying.placement.pdpt, ?_, copying.placement.pt⟩, ?_,
      ?_, stock'⟩
    · intro gigabyte below
      by_cases here : gigabyte = index
      · subst here
        simp
      · have other : Node.pd gigabyte ≠ Node.pd index := fun same => here (Node.pd.inj same)
        rw [update_of_ne other]
        exact copying.placement.pd gigabyte (by omega)
    · refine copying.copied.place fresh copying.aligned cleared ?_
        (fun _ _ _ isWritten => isWritten) ?_
      · intro other at' atInside isWritten
        cases other with
        | pml4 => rfl
        | pt block => rfl
        | pd other => rfl
        | pdpt =>
            have position : at' < index ∨ 4 ≤ at' := isWritten
            have elsewhere : Node.pd at' ≠ Node.pd index := by
              intro same
              have := Node.pd.inj same
              omega
            simp only [copyEntry, update_of_ne elsewhere]
      · intro at' _ isWritten
        have position : 512 * index + at' < 512 * index + 0 := isWritten
        omega
    · dsimp only
      rw [copying.record]
  refine (placed.copyDirectory isGigabyte (by simp) (by decide)).bind ?_
  rintro _ ⟨machine, proc⟩ ⟨frameOf', isDirectory, filled⟩
  rw [upperEntry_moved frame _ pdAligned]
  have word : upperEntry frame (kernel.userPdpt index) = copyEntry kernel frameOf' .pdpt index := by
    simp only [copyEntry, if_pos isGigabyte, isDirectory, Option.getD_some]
  obtain ⟨stored, stage'⟩ := filled.stage.storeU64 (filled.inPool filled.placement.pdpt)
    (show index < 512 by omega) (copyEntry kernel frameOf' .pdpt index)
  rw [word]
  refine yields_of_ok (onMachine_of_ok stored)
    ⟨frameOf', stage', filled.placement, ?_, filled.record, filled.stock⟩
  refine filled.copied.write filled.placement.pdpt filled.aligned (by omega) ?_
  intro other at' _ isWritten
  cases other with
  | pml4 => exact Or.inl trivial
  | pt block => exact Or.inl trivial
  | pd other => exact Or.inl isWritten
  | pdpt =>
      have position : at' < index + 1 ∨ 4 ≤ at' := isWritten
      by_cases here : at' = index
      · exact Or.inr ⟨rfl, here⟩
      · exact Or.inl (by unfold Written; omega)

theorem copyDirectories {index left : Nat}
    (copying : Copying kernel pool cover origin sure pml4 pdpt frameOf (min index 4) (min index 4)
      (512 * min index 4) (framesFrom kernel (min index 4) + count) before state)
    (all : index + left = 512) :
    Yields (Loader.copyDirectories kernel.pdpt pdpt index left) state
      (fun _ after => ∃ frameOf', Copying kernel pool cover origin sure pml4 pdpt frameOf' 4 4 2048
        count before after)
      (Stopped kernel pool origin sure) := by
  induction left generalizing index state frameOf with
  | zero =>
      obtain rfl : index = 512 := by omega
      refine yields_of_ok rfl ⟨frameOf, ?_⟩
      simpa [framesFrom, splits] using copying
  | succ left ih =>
      obtain ⟨machine, proc⟩ := state
      have loaded := copying.stage.editing.loadU64
        (copying.stage.editing.owned _ (owns_pdpt kernel)) (show index < 512 by omega)
      rw [copying.stage.represents .pdpt kernel.pdpt index rfl (by omega)] at loaded
      simp only [Space.entryAt] at loaded
      rw [Loader.copyDirectories]
      by_cases isGigabyte : index < 4
      · have pdAligned := copying.stage.wellFormed.aligned _ (owns_pd isGigabyte)
        have pdBounded := copying.stage.wellFormed.bounded _ (owns_pd isGigabyte)
        obtain ⟨present, -, -, big⟩ := upperEntry_bits (kernel.userPdpt index) pdAligned
        have here : min index 4 = index := by omega
        have later : min (index + 1) 4 = index + 1 := by omega
        rw [here] at copying
        have step := (copying.directory isGigabyte).bind
          (fun _ after (next : ∃ frameOf', Copying kernel pool cover origin sure pml4 pdpt frameOf'
            (index + 1) (index + 1) (512 * (index + 1)) (framesFrom kernel (index + 1) + count)
            before after) => by
            obtain ⟨frameOf', copying'⟩ := next
            rw [← later] at copying'
            exact ih copying' (by omega))
        rw [if_pos isGigabyte] at loaded
        refine Yields.after (onMachine_of_ok loaded) ?_
        simp only [and_pagePresent_eq_zero, present, Bool.true_eq_false, if_false, ne_eq,
          and_psBit_eq_zero, big, not_true, entryBase_upperEntry _ pdAligned pdBounded]
        simp only [Fallible.bind_assoc] at step
        exact step
      · have same : min (index + 1) 4 = min index 4 := by omega
        rw [if_neg isGigabyte] at loaded
        rw [← same] at copying
        refine Yields.after (onMachine_of_ok loaded) ?_
        rw [if_pos (by decide)]
        exact ih copying (by omega)

end Copying

/-! ### The finished copy -/

def copySpace (kernel : Space) (pml4 pdpt : Nat) (frameOf : Node → Option Nat) : Space :=
  { pml4
    pdpt
    pd := fun gigabyte => (frameOf (.pd gigabyte)).getD 0
    pt := fun block => if kernel.pt block = none then none else frameOf (.pt block)
    userTop := false
    userPdpt := kernel.userPdpt
    userPd := kernel.userPd
    leaf := kernel.leaf }

structure CopyOf (kernel space : Space) : Prop where
  split : ∀ block, block < 2048 → (space.pt block = none ↔ kernel.pt block = none)
  whole : ∀ block, kernel.pt block = none → space.pt block = none
  leaf : space.leaf = kernel.leaf

theorem CopyOf.view {space : Space} (copy : CopyOf kernel space) {page : Nat}
    (inside : page < 2 ^ 20) : space.view page = kernel.view page := by
  have split := copy.split (page / 512) (by omega)
  unfold Space.view
  rw [copy.leaf]
  cases own : space.pt (page / 512) <;> cases theirs : kernel.pt (page / 512) <;> simp_all

section Finished

variable {pml4 pdpt : Nat} {frameOf : Node → Option Nat} {mem : ByteMemory} {frames : List Nat}

section

variable (placement : Placement kernel pml4 pdpt 4 2048 frameOf)
include placement

theorem frameAt_copySpace {node : Node} {frame : Nat}
    (placed : (copySpace kernel pml4 pdpt frameOf).frameAt node = some frame) :
    frameOf node = some frame := by
  cases node with
  | pml4 =>
      obtain rfl := Option.some.inj placed
      exact placement.top
  | pdpt =>
      obtain rfl := Option.some.inj placed
      exact placement.pdpt
  | pd gigabyte =>
      simp only [Space.frameAt, copySpace] at placed
      split at placed
      · rename_i inside
        obtain ⟨base, found⟩ := Option.ne_none_iff_exists'.mp (placement.pd gigabyte inside)
        rw [found, Option.getD_some] at placed
        rw [found, placed]
      · cases placed
  | pt block =>
      simp only [Space.frameAt, copySpace] at placed
      split at placed
      · split at placed
        · cases placed
        · exact placed
      · cases placed

theorem wellFormed_copySpace (copied : Copied kernel frameOf (Written 4 2048) proc.frames mem)
    (owned : OwnedBy machine.pmm proc) : (copySpace kernel pml4 pdpt frameOf).WellFormed := by
  have held : ∀ frame, (copySpace kernel pml4 pdpt frameOf).Owns frame →
      frame ∈ proc.frames := by
    rintro frame ⟨node, placed⟩
    exact copied.listed node frame (frameAt_copySpace placement placed)
  refine ⟨fun frame owns => (owned.held frame (held frame owns)).1,
    fun frame owns => lt_trans (owned.held frame (held frame owns)).2.1 (by decide), ?_⟩
  intro node other frame placed found
  exact copied.distinct node other frame (frameAt_copySpace placement placed)
    (frameAt_copySpace placement found)

theorem represents_copySpace (copied : Copied kernel frameOf (Written 4 2048) frames mem) :
    (copySpace kernel pml4 pdpt frameOf).Represents mem := by
  intro node frame index placed inside
  have found := frameAt_copySpace placement placed
  cases node with
  | pml4 =>
      rw [copied.words _ _ _ found inside trivial]
      simp only [copyEntry, Space.entryAt, copySpace, placement.pdpt, Option.getD_some]
  | pdpt =>
      rw [copied.words _ _ _ found inside (by unfold Written; omega)]
      rfl
  | pd gigabyte =>
      have isGigabyte : gigabyte < 4 := by
        by_contra outside
        simp [Space.frameAt, outside] at placed
      have blockInside : 512 * gigabyte + index < 2048 := by omega
      rw [copied.words _ _ _ found inside (by unfold Written; omega)]
      simp only [copyEntry, Space.entryAt, copySpace]
      cases split : kernel.pt (512 * gigabyte + index) with
      | none => simp
      | some source =>
          obtain ⟨base, table⟩ := Option.ne_none_iff_exists'.mp
            (placement.pt (512 * gigabyte + index) blockInside (by simp [split]))
          simp [table]
  | pt block =>
      rw [copied.words _ _ _ found inside trivial]
      rfl

theorem copyOf_copySpace : CopyOf kernel (copySpace kernel pml4 pdpt frameOf) := by
  refine ⟨?_, fun block whole => by simp [copySpace, whole], rfl⟩
  intro block inside
  simp only [copySpace]
  split
  · simp_all
  · rename_i split
    exact ⟨fun none => absurd none (placement.pt block inside split), fun none => absurd none split⟩

end

end Finished

def copyFrames (kernel : Space) : Nat :=
  6 + splits kernel 0 2048

theorem copyFrames_whole (whole : ∀ block, kernel.pt block = none) : copyFrames kernel = 6 := by
  unfold copyFrames
  rw [splits_whole whole]

/-- What `build_address_space` leaves: a table of the process's own, equal to the kernel's. -/
structure Built (kernel : Space) (pool cover : Nat → Prop) (origin : ByteMemory) (sure : Prop)
    (count : Nat) (before : Process) (space : Space) (state : Machine × Process) : Prop where
  stage : Stage kernel pool cover origin state.1 state.2
  wellFormed : space.WellFormed
  represents : space.Represents state.1.mem
  copy : CopyOf kernel space
  owned : ∀ frame, space.Owns frame → frame ∈ state.2.frames
  record : state.2 = { before with frames := state.2.frames }
  stock : Pmm.Stock (fun frame => ¬ cover frame) sure count state.1.pmm

theorem Built.of_copying {pml4 pdpt count : Nat} {frameOf : Node → Option Nat} {before : Process}
    {state : Machine × Process}
    (copying : Copying kernel pool cover origin sure pml4 pdpt frameOf 4 4 2048 count before state) :
    Built kernel pool cover origin sure count before (copySpace kernel pml4 pdpt frameOf) state :=
  { stage := copying.stage
    wellFormed := wellFormed_copySpace copying.placement copying.copied copying.stage.owned
    represents := represents_copySpace copying.placement copying.copied
    copy := copyOf_copySpace copying.placement
    owned := by
      rintro frame ⟨node, placed⟩
      exact copying.copied.listed node frame (frameAt_copySpace copying.placement placed)
    record := copying.record
    stock := copying.stock }

theorem buildAddressSpace {count : Nat} (stage : Stage kernel pool cover origin machine proc)
    (stock : Pmm.Stock (fun frame => ¬ cover frame) sure (copyFrames kernel + count) machine.pmm) :
    Yields (Loader.buildAddressSpace kernel.pml4) (machine, proc)
      (fun pml4 state => ∃ space, space.pml4 = pml4 ∧
        Built kernel pool cover origin sure count proc space state)
      (Stopped kernel pool origin sure) := by
  have first : copyFrames kernel + count = 1 + (1 + (Copying.framesFrom kernel 0 + count)) := by
    show 6 + splits kernel 0 2048 + count = 1 + (1 + (4 + splits kernel 0 2048 + count))
    omega
  rw [first] at stock
  unfold Loader.buildAddressSpace
  refine (stage.allocFrame stock).bind ?_
  rintro pml4 state ⟨pmm₁, rfl, stage₁, inPool₁, free₁, stock₁⟩
  refine (stage₁.allocFrame stock₁).bind ?_
  rintro pdpt state ⟨pmm₂, rfl, stage₂, inPool₂, free₂, stock₂⟩
  have different : pml4 ≠ pdpt := by
    rintro rfl
    exact (stage₁.owned.held pml4 (by simp)).2.2.2 free₂
  have pml4Aligned : pml4 % 4096 = 0 := (stage.apart pml4 inPool₁).1
  have pdptAligned : pdpt % 4096 = 0 := (stage.apart pdpt inPool₂).1
  obtain ⟨mem₃, copied, stage₃, filled⟩ :=
    @copyWords kernel pool cover origin _ _ .pml4 kernel.pml4 pml4 0 512 stage₂ rfl inPool₁
      (by decide)
  obtain ⟨stored, stage₄⟩ :=
    stage₃.storeU64 inPool₁ (show 0 < 512 by decide) (upperEntry pdpt false)
  have value : BitVec.ofNat 64 pdpt ||| pagePresent ||| pageWritable = upperEntry pdpt false := by
    rw [BitVec.or_assoc]
    rfl
  have loaded := stage₄.editing.loadU64 (stage₄.editing.owned _ (owns_pml4 kernel))
    (show 0 < 512 by decide)
  rw [stage₄.represents .pml4 kernel.pml4 0 rfl (by decide)] at loaded
  have kernelAligned := stage.wellFormed.aligned _ (owns_pdpt kernel)
  have kernelBounded := stage.wellFormed.bounded _ (owns_pdpt kernel)
  let frameOf : Node → Option Nat := fun node =>
    match node with
    | .pml4 => some pml4
    | .pdpt => some pdpt
    | _ => none
  have start : Copying kernel pool cover origin sure pml4 pdpt frameOf (min 0 4) (min 0 4)
      (512 * min 0 4) (Copying.framesFrom kernel (min 0 4) + count) proc
      ({ machine with
          pmm := pmm₂
          mem := mem₃.writeU64 (pml4 + 8 * 0) (upperEntry pdpt false) },
        { proc with frames := proc.frames ++ [pml4] ++ [pdpt] }) := by
    refine ⟨stage₄, ⟨rfl, rfl, by omega, by omega⟩, ⟨?_, ?_, ?_⟩, rfl, stock₂⟩
    · intro node frame placed
      cases node <;> simp_all [frameOf]
    · intro node other frame placed found
      cases node <;> cases other <;> simp_all [frameOf]
    · intro node frame index placed inside isWritten
      cases node with
      | pml4 =>
          obtain rfl := Option.some.inj placed
          by_cases here : index = 0
          · subst here
            rw [readU64_writeU64_self]
            simp [copyEntry, frameOf]
          · rw [readU64_writeU64_of_apart _ _ _ _ (by omega),
              filled.words index (by omega) (by omega)]
            simp only [Space.entryAt, copyEntry, if_neg here]
      | pdpt =>
          obtain rfl := Option.some.inj placed
          have high : ¬ index < 4 := by
            have position : index < min 0 4 ∨ 4 ≤ index := isWritten
            omega
          rw [readU64_writeU64_of_apart _ _ _ _ (by omega),
            filled.agree.readU64 (fun same => different same.symm) pdptAligned inside,
            readU64_writeBytes_zero _ (by omega)
              (by have size : Pmm.frameSize = 4096 := rfl; omega)]
          simp only [copyEntry, if_neg high]
      | pd gigabyte => cases placed
      | pt block => cases placed
  refine Yields.after (onMachine_of_ok copied) ?_
  rw [value]
  refine Yields.after (onMachine_of_ok stored) ?_
  refine Yields.after (onMachine_of_ok loaded) ?_
  simp only [Space.entryAt, if_true, entryBase_upperEntry _ kernelAligned kernelBounded]
  refine (Copying.copyDirectories start (by decide)).bind ?_
  rintro _ after ⟨frameOf', done⟩
  exact yields_of_ok rfl ⟨_, rfl, Built.of_copying done⟩

end Stage
end MachaOS.Loader
