/-
The growing stack of a process (`Process::try_grow_stack` of `src/process.rs`).

Three things describe the region: one mapping on record for all of it, `stack_low`, and
the pages from there up.  A fault moves `stack_low` down to its page and maps what lies
between; a system call that writes below `stack_low` goes by the record alone.  Both
lead to the same block, so the bytes are there when the pages come.
-/

import MachaOS.InitialStack
import MachaOS.Regions

namespace MachaOS

open List
open Fallible Machine Paging Loader

namespace Process

inductive GrowDid (proc proc' : Process) (pml4 faultAddr : Nat) (done : Bool)
    (machine machine' : Machine) : Prop where
  | refused (answer : done = false) (record : proc' = proc) (memory : machine' = machine)
  | mapped {frames : List Nat}
      (inside : userStackLowLimit ≤ faultAddr ∧ faultAddr < proc.stackLow)
      (ran : mapRangeIn pml4 (alignDown faultAddr) (proc.stackPhysFor (alignDown faultAddr))
        (proc.stackLow - alignDown faultAddr) dataFlags proc.frames machine =
          (.ok (done, frames), machine'))
      (record : proc' =
        if done then { proc with frames, stackLow := alignDown faultAddr }
        else { proc with frames })

theorem grow_did {proc proc' : Process} {pml4 faultAddr : Nat} {done : Bool}
    {machine machine' : Machine}
    (ran : proc.tryGrowStack pml4 faultAddr machine = (.ok (done, proc'), machine')) :
    GrowDid proc proc' pml4 faultAddr done machine machine' := by
  unfold tryGrowStack at ran
  split at ran
  · cases ran
    exact .refused rfl rfl rfl
  · rename_i inside
    obtain ⟨⟨answer, frames⟩, middle, mapping, rest⟩ := bind_eq_ok ran
    cases answer with
    | false =>
        cases rest
        exact .mapped (by omega) mapping rfl
    | true =>
        cases rest
        exact .mapped (by omega) mapping rfl

def InStack (addr : Nat) : Prop :=
  userStackLowLimit ≤ addr ∧ addr < userStackTop

/-- The region as the loader sets it up: its mapping is the only one on record there, and its
pages are open from `stack_low` on. -/
structure StackReady (proc : Process) (mem : ByteMemory) (pml4 : Nat) : Prop where
  records : ∀ addr, InStack addr →
    proc.recordsOf addr = [stackMapping proc.stackPhysBase]
  pages : ∀ addr, proc.stackLow ≤ addr → addr < userStackTop →
    walk mem pml4 addr =
      some (leafFor dataFlags (proc.stackPhysFor (addr / 4096 * 4096)))

theorem leafFor_dataFlags (phys : Nat) :
    leafFor dataFlags phys = { phys, writable := true, user := true, noExecute := true } := by
  have bits : dataFlags.getLsbD 1 = true ∧ dataFlags.getLsbD 2 = true ∧
      dataFlags.getLsbD 63 = true := by decide
  unfold leafFor
  rw [bits.1, bits.2.1, bits.2.2]

section

variable {kept : Nat → Prop} {proc proc' : Process} {space : Space}
  {machine machine' : Machine} {faultAddr : Nat} {done : Bool}

theorem translateLocal_stack {vaddr len phys : Nat}
    (record : proc.recordsOf vaddr = [stackMapping proc.stackPhysBase]) (some' : 0 < len)
    (translated : proc.translateLocal vaddr len = some phys) :
    phys = proc.stackPhysFor vaddr ∧ vaddr + len ≤ userStackTop := by
  obtain ⟨mapping, member, lower, upper, rfl⟩ := Hosted.translateLocal_some translated
  have covers : mapping ∈ proc.recordsOf vaddr :=
    mem_recordsOf.mpr ⟨member, lower, by omega⟩
  rw [record, mem_singleton] at covers
  subst covers
  have region : userStackLowLimit + userStackMaxPages * pageSize = userStackTop := by decide
  exact ⟨rfl, upper.trans (le_of_eq region)⟩

theorem translateLocal_of_record {vaddr len : Nat}
    (record : proc.recordsOf vaddr = [stackMapping proc.stackPhysBase]) (some' : 0 < len)
    (upper : vaddr + len ≤ userStackTop) :
    proc.translateLocal vaddr len = some (proc.stackPhysFor vaddr) := by
  cases translated : proc.translateLocal vaddr len with
  | none =>
      obtain ⟨member, lower, -⟩ := mem_recordsOf.mp (show stackMapping proc.stackPhysBase ∈
        proc.recordsOf vaddr by
          rw [record]
          exact mem_cons_self)
      have region : (stackMapping proc.stackPhysBase).vaddr +
          (stackMapping proc.stackPhysBase).len = userStackTop :=
        show userStackLowLimit + userStackMaxPages * pageSize = userStackTop by decide
      have word : userStackTop < wordLimit := by decide
      unfold Process.translateLocal at translated
      rw [if_neg (by omega), Option.map_eq_none_iff, List.find?_eq_none] at translated
      have missed := translated _ member
      rw [decide_eq_true_eq] at missed
      exact absurd ⟨lower, by omega⟩ missed
  | some phys =>
      obtain ⟨place, -⟩ := translateLocal_stack record some' translated
      rw [place]

namespace StackReady

theorem member (ready : proc.StackReady machine.mem space.pml4) :
    stackMapping proc.stackPhysBase ∈ proc.mappings := by
  have record := ready.records userStackLowLimit ⟨le_refl _, by decide⟩
  apply And.left
  apply mem_recordsOf.mp
  rw [record]
  exact mem_cons_self

theorem settled (ready : proc.StackReady machine.mem space.pml4)
    (running : Running kept proc space machine) {addr : Nat}
    (lower : proc.stackLow ≤ addr) (upper : addr < userStackTop) :
    proc.Settled machine.mem space.pml4 addr (stackMapping proc.stackPhysBase) := by
  constructor
  · exact ready.records addr ⟨running.hosted.stackLow.1.trans lower, upper⟩
  · rfl
  · exact ready.pages addr lower upper

theorem apart (ready : proc.StackReady machine.mem space.pml4)
    (running : Running kept proc space machine) {addr : Nat} (inside : InStack addr) :
    ¬ (space.Owns (proc.stackPhysFor addr / 4096 * 4096) ∨
      machine.pmm.Free (proc.stackPhysFor addr / 4096 * 4096)) :=
  running.apart ready.member rfl (running.inRun ready.member (Loader.Laid.covers_stackMapping.mpr inside))

end StackReady

/-! ### Growing -/

theorem grow_memory (running : Running kept proc space machine)
    (ran : proc.tryGrowStack space.pml4 faultAddr machine = (.ok (done, proc'), machine')) :
    Space.AgreeOutside (fun frame => space.Owns frame ∨ machine.pmm.Free frame) machine.mem
      machine'.mem := by
  cases grow_did ran with
  | refused answer record memory =>
      rw [memory]
      exact Space.AgreeOutside.refl _ _
  | mapped inside mapping record =>
      have limit : userStackLowLimit = 0xFF00000 := rfl
      have lower : userStackLowLimit ≤ alignDown faultAddr := by
        unfold alignDown
        omega
      have upper := lt_of_le_of_lt (alignDown_le faultAddr) inside.2
      obtain ⟨-, avoids, noTables, physAligned, physFits⟩ :=
        running.hosted.growable (alignDown_mod faultAddr) ⟨lower, upper⟩
      exact (running.hosted.mapRangeIn_memory running.owned running.active
        (fun addr member => avoids addr (Or.inl member)) physAligned physFits
        (fun _ => by
          rw [noTables]
          trivial) mapping).1

/-- The stack grew down to `newLow`: the pages from there to the old bottom are open, and no other
page has changed. -/
structure Sank (kept : Nat → Prop) (proc proc' : Process) (space after : Space) (newLow : Nat)
    (machine machine' : Machine) : Prop where
  pml4 : after.pml4 = space.pml4
  running : Running kept proc' after machine'
  mappings : proc'.mappings = proc.mappings
  low : proc'.stackLow = newLow
  base : proc'.stackPhysBase = proc.stackPhysBase
  inside : userStackLowLimit ≤ newLow ∧ newLow < proc.stackLow
  pages : ∀ addr, newLow ≤ addr → addr < proc.stackLow →
    walk machine'.mem space.pml4 addr =
      some (leafFor dataFlags (proc.stackPhysFor (addr / 4096 * 4096)))
  outside : ∀ addr, addr < 2 ^ 48 → ¬ (newLow ≤ addr ∧ addr < proc.stackLow) →
    walk machine'.mem space.pml4 addr = walk machine.mem space.pml4 addr

theorem grow_sank (running : Running kept proc space machine)
    (ran : proc.tryGrowStack space.pml4 faultAddr machine = (.ok (done, proc'), machine')) :
    (done = false ∧ proc' = proc ∧ machine' = machine ∧
      (proc.stackLow ≤ faultAddr ∨ faultAddr < userStackLowLimit)) ∨
    done = true ∧ ∃ after, Sank kept proc proc' space after (alignDown faultAddr) machine
      machine' := by
  obtain ⟨done', proc'', machine'', ran', outcome⟩ :=
    running.hosted.tryGrowStack_outcome running.owned running.active
  rw [ran] at ran'
  cases ran'
  rcases outcome with refused | ⟨rfl, after, outcome⟩
  · exact Or.inl refused
  obtain ⟨⟨taken, grown⟩, -⟩ := tryGrowStack_grown ran
  obtain ⟨-, highest, oldAligned⟩ := running.hosted.stackLow
  have books := outcome.books
  have walks : ∀ addr, addr < identityMapEnd →
      walk machine'.mem space.pml4 addr = after.view (addr / 4096) := by
    intro addr below
    rw [← outcome.pml4]
    exact outcome.hosted.walk_eq below
  have fourGiB : identityMapEnd = 4294967296 := rfl
  have top : userStackTop = 0x10000000 := rfl
  have aligned := outcome.aligned
  have inside := outcome.inside
  refine Or.inr ⟨rfl, after, ?_⟩
  constructor
  · exact outcome.pml4
  · constructor
    · exact outcome.hosted
    · exact (running.owned.grow running.bounded grown).1
    · unfold Pmm.Bounded
      rw [grown.takes.limit]
      exact running.bounded
    · exact outcome.cr3.trans (running.active.trans outcome.pml4.symm)
  · exact congrArg Books.mappings books
  · exact congrArg Books.stackLow books
  · exact congrArg Books.stackPhysBase books
  · exact inside
  · intro addr lower upper
    obtain ⟨-, all⟩ := outcome.remaps.complete rfl
    rw [walks addr (by omega), outcome.remaps.views.views _ (by omega), if_pos (by omega)]
    unfold stackPhysFor
    rw [show proc.stackPhysBase + (alignDown faultAddr - userStackLowLimit) +
        (addr / 4096 - alignDown faultAddr / 4096) * 4096 =
      proc.stackPhysBase + (addr / 4096 * 4096 - userStackLowLimit) by omega]
  · intro addr canonical apart
    by_cases below : addr < identityMapEnd
    · rw [walks addr below, running.hosted.walk_eq below]
      refine outcome.remaps.view_outside aligned (by omega) ?_
      unfold InRange
      omega
    · have above := Nat.le_of_not_lt below
      rw [Space.walk_eq_none running.hosted.wellFormed running.hosted.represents above canonical,
        ← outcome.pml4,
        Space.walk_eq_none outcome.hosted.wellFormed outcome.hosted.represents above canonical]

/-- What a call for a fault is to do.  `written` has the bytes that were last written to the
region. -/
structure GrowsExactly (written : Nat → Option (BitVec 8)) (pml4 faultAddr : Nat) (done : Bool)
    (proc proc' : Process) (machine machine' : Machine) : Prop where
  grown : done = true → proc'.stackLow = alignDown faultAddr ∧
    ∀ addr, alignDown faultAddr ≤ addr → addr < userStackTop →
      walk machine'.mem pml4 addr =
        some
          { phys := proc.stackPhysBase + (addr / 4096 * 4096 - userStackLowLimit)
            writable := true
            user := true
            noExecute := true }
  refused : done = false → proc'.stackLow = proc.stackLow ∧
    (proc.stackLow ≤ faultAddr ∨ faultAddr < userStackLowLimit)
  low : userStackLowLimit ≤ proc'.stackLow ∧ proc'.stackLow ≤ proc.stackLow
  outside : ∀ addr, addr < 2 ^ 48 →
    ¬ (userStackLowLimit ≤ addr ∧ addr < proc.stackLow) →
    walk machine'.mem pml4 addr = walk machine.mem pml4 addr
  reads : ∀ addr byte, proc'.stackLow ≤ addr → written addr = some byte →
    readThrough machine'.mem pml4 addr = some byte

def StackHolds (written : Nat → Option (BitVec 8)) (proc : Process) (mem : ByteMemory) : Prop :=
  ∀ addr byte, written addr = some byte →
    InStack addr ∧ mem (proc.stackPhysFor addr) = byte

theorem StackHolds.reads {written : Nat → Option (BitVec 8)}
    (holds : StackHolds written proc machine.mem)
    (ready : proc.StackReady machine.mem space.pml4)
    (running : Running kept proc space machine) {addr : Nat} {byte : BitVec 8}
    (lower : proc.stackLow ≤ addr) (found : written addr = some byte) :
    readThrough machine.mem space.pml4 addr = some byte := by
  obtain ⟨inside, stored⟩ := holds addr byte found
  rw [(ready.settled running lower inside.2).reads running]
  exact congrArg some stored

variable {written : Nat → Option (BitVec 8)}

theorem StackReady.grow (ready : proc.StackReady machine.mem space.pml4)
    (running : Running kept proc space machine) (holds : StackHolds written proc machine.mem)
    (ran : proc.tryGrowStack space.pml4 faultAddr machine = (.ok (done, proc'), machine')) :
    ∃ after : Space, after.pml4 = space.pml4 ∧ Running kept proc' after machine' ∧
      proc'.StackReady machine'.mem space.pml4 ∧ StackHolds written proc' machine'.mem ∧
      GrowsExactly written space.pml4 faultAddr done proc proc' machine machine' := by
  have agree := grow_memory running ran
  rcases grow_sank running ran with ⟨rfl, rfl, rfl, reason⟩ | ⟨rfl, after, sank⟩
  · refine ⟨space, rfl, running, ready, holds, ?_⟩
    constructor
    · nofun
    · exact fun _ => ⟨rfl, reason⟩
    · exact ⟨running.hosted.stackLow.1, le_refl _⟩
    · exact fun _ _ _ => rfl
    · exact fun _ _ lower found => holds.reads ready running lower found
  · obtain ⟨lowest, lower⟩ := sank.inside
    have top : userStackTop = 0x10000000 := rfl
    have physFor : ∀ addr, proc'.stackPhysFor addr = proc.stackPhysFor addr := by
      intro addr
      unfold stackPhysFor
      rw [sank.base]
    have pages : ∀ addr, alignDown faultAddr ≤ addr → addr < userStackTop →
        walk machine'.mem space.pml4 addr =
          some (leafFor dataFlags (proc.stackPhysFor (addr / 4096 * 4096))) := by
      intro addr from' upper
      by_cases new : addr < proc.stackLow
      · exact sank.pages addr from' new
      · rw [sank.outside addr (by omega) (by omega)]
        exact ready.pages addr (by omega) upper
    have ready' : proc'.StackReady machine'.mem space.pml4 := by
      constructor
      · intro addr inside
        unfold recordsOf
        rw [sank.mappings, sank.base]
        exact ready.records addr inside
      · intro addr from' upper
        rw [sank.low] at from'
        rw [physFor]
        exact pages addr from' upper
    have holds' : StackHolds written proc' machine'.mem := by
      intro addr byte found
      obtain ⟨inside, stored⟩ := holds addr byte found
      refine ⟨inside, ?_⟩
      rw [physFor, agree _ (ready.apart running inside)]
      exact stored
    refine ⟨after, sank.pml4, sank.running, ready', holds', ?_⟩
    constructor
    · intro _
      refine ⟨sank.low, fun addr from' upper => ?_⟩
      rw [pages addr from' upper, leafFor_dataFlags]
      rfl
    · nofun
    · rw [sank.low]
      exact ⟨lowest, le_of_lt lower⟩
    · intro addr canonical apart
      exact sank.outside addr canonical (by omega)
    · intro addr byte from' found
      have reads := @StackHolds.reads kept proc' after machine' written holds'
      rw [sank.pml4] at reads
      exact reads ready' sank.running from' found

/-- The bytes last written, after `bytes` at `vaddr`. -/
def wrote (written : Nat → Option (BitVec 8)) (vaddr : Nat) (bytes : List (BitVec 8)) :
    Nat → Option (BitVec 8) := fun addr =>
  if vaddr ≤ addr ∧ addr < vaddr + bytes.length then bytes[addr - vaddr]?
  else written addr

theorem wrote_nil (written : Nat → Option (BitVec 8)) (vaddr : Nat) :
    wrote written vaddr [] = written := by
  funext addr
  unfold wrote
  rw [length_nil, if_neg (by omega)]

theorem StackHolds.writeBytes {written : Nat → Option (BitVec 8)} {mem : ByteMemory} {vaddr : Nat}
    {bytes : List (BitVec 8)} (holds : StackHolds written proc mem)
    (lower : userStackLowLimit ≤ vaddr) (upper : vaddr + bytes.length ≤ userStackTop) :
    StackHolds (wrote written vaddr bytes) proc
      (mem.writeBytes (proc.stackPhysFor vaddr) bytes) := by
  intro addr byte found
  unfold wrote at found
  split at found
  · rename_i within
    refine ⟨⟨by omega, by omega⟩, ?_⟩
    have place : proc.stackPhysFor addr =
        proc.stackPhysFor vaddr + (addr - vaddr) := by
      unfold stackPhysFor
      omega
    simp only [ByteMemory.writeBytes]
    rw [place, if_pos (by omega), Nat.add_sub_cancel_left, getD_eq_getElem?_getD, found]
    rfl
  · rename_i apart
    obtain ⟨inside, stored⟩ := holds addr byte found
    refine ⟨inside, ?_⟩
    have outside : ¬ (proc.stackPhysFor vaddr ≤ proc.stackPhysFor addr ∧
        proc.stackPhysFor addr < proc.stackPhysFor vaddr + bytes.length) := by
      have start := inside.1
      unfold stackPhysFor
      omega
    simp only [ByteMemory.writeBytes]
    rw [if_neg outside]
    exact stored

theorem StackReady.of_walks {mem : ByteMemory} (ready : proc.StackReady machine.mem space.pml4)
    (walks : ∀ addr, addr < identityMapEnd →
      walk mem space.pml4 addr = walk machine.mem space.pml4 addr) :
    proc.StackReady mem space.pml4 := by
  refine ⟨ready.records, fun addr lower upper => ?_⟩
  rw [walks addr (lt_trans upper (by decide))]
  exact ready.pages addr lower upper

theorem StackReady.write {written : Nat → Option (BitVec 8)} {vaddr len phys : Nat}
    {bytes : List (BitVec 8)} (ready : proc.StackReady machine.mem space.pml4)
    (running : Running kept proc space machine)
    (holds : StackHolds written proc machine.mem) (inside : InStack vaddr)
    (fits : bytes.length ≤ len) (translated : proc.translateLocal vaddr len = some phys)
    (ran : copyBytes phys bytes machine = (.ok (), machine')) :
    Running kept proc space machine' ∧ proc.StackReady machine'.mem space.pml4 ∧
      StackHolds (wrote written vaddr bytes) proc machine'.mem := by
  by_cases some' : 0 < len
  · obtain ⟨place, below⟩ := translateLocal_stack (ready.records vaddr inside) some' translated
    rw [place] at ran
    have region : userStackLowLimit + userStackMaxPages * pageSize = userStackTop := by decide
    have lower := inside.1
    obtain ⟨ran', running', walks⟩ := @Running.copyBytes _ _ _ _ _ (vaddr - userStackLowLimit) bytes
      running ready.member rfl (show vaddr - userStackLowLimit + bytes.length ≤
        userStackMaxPages * pageSize by omega)
    rw [show (stackMapping proc.stackPhysBase).phys + (vaddr - userStackLowLimit) =
      proc.stackPhysFor vaddr from rfl] at ran' running' walks
    rw [ran] at ran'
    have result := (Prod.mk.inj ran').2
    rw [result]
    dsimp only
    exact ⟨running', ready.of_walks walks, holds.writeBytes lower (by omega)⟩
  · obtain rfl : bytes = [] := length_eq_zero_iff.mp (by omega)
    cases ran
    rw [wrote_nil]
    exact ⟨running, ready, holds⟩

section

variable (ready : proc.StackReady machine.mem space.pml4)
  (running : Running kept proc space machine) (holds : StackHolds written proc machine.mem)
include ready running holds

theorem StackReady.store {addr : Nat} {byte : BitVec 8} (lower : proc.stackLow ≤ addr)
    (upper : addr < userStackTop)
    (stored : storeThrough space.pml4 addr byte machine = some machine') :
    Running kept proc space machine' ∧ proc.StackReady machine'.mem space.pml4 ∧
      StackHolds (wrote written addr [byte]) proc machine'.mem := by
  have settled := ready.settled running lower upper
  obtain ⟨ran, running', walks⟩ := running.storeThrough settled byte
  rw [stored] at ran
  cases ran
  refine ⟨running', ready.of_walks walks, ?_⟩
  have single : machine.mem.writeByte (proc.stackPhysFor addr) byte =
      machine.mem.writeBytes (proc.stackPhysFor addr) [byte] := by
    rw [ByteMemory.writeBytes_cons, ByteMemory.writeBytes_nil]
  have start := running.hosted.stackLow.1
  have after := @StackHolds.writeBytes _ _ _ _ [byte] holds (start.trans lower)
    (by
      rw [length_singleton]
      exact upper)
  rw [← single] at after
  exact after

theorem StackReady.elsewhere
    (other : Elsewhere kept InStack space.pml4 proc proc' machine machine') :
    ∃ after : Space, after.pml4 = space.pml4 ∧ Running kept proc' after machine' ∧
      proc'.StackReady machine'.mem space.pml4 ∧ StackHolds written proc' machine'.mem := by
  obtain ⟨low, base⟩ := other.stack
  obtain ⟨after, pml4, running'⟩ := other.running
  have start := running.hosted.stackLow.1
  have physFor : ∀ addr, proc'.stackPhysFor addr = proc.stackPhysFor addr := by
    intro addr
    unfold stackPhysFor
    rw [base]
  refine ⟨after, pml4, running', ?_, ?_⟩
  · constructor
    · intro addr inside
      rw [other.records addr inside, base]
      exact ready.records addr inside
    · intro addr lower upper
      rw [low] at lower
      rw [other.pages addr ⟨start.trans lower, upper⟩, physFor]
      exact ready.pages addr lower upper
  · intro addr byte found
    obtain ⟨inside, stored⟩ := holds addr byte found
    refine ⟨inside, ?_⟩
    rw [physFor, ← stored]
    refine other.bytes addr (stackMapping proc.stackPhysBase) inside ?_
    rw [ready.records addr inside]
    exact mem_cons_self

end

/-- A run of the process from `first` on: faults handed to `try_grow_stack`, system calls that
write to stack addresses through the record, the program's own stores, and whatever leaves the
region alone, in any order.  `written` has the bytes that were last written to the region. -/
inductive StackRun (kept : Nat → Prop) (pml4 : Nat) (first : Process) (start : Machine) :
    (Nat → Option (BitVec 8)) → Process → Machine → Prop where
  | start : StackRun kept pml4 first start (fun _ => none) first start
  | fault {written : Nat → Option (BitVec 8)} {faultAddr : Nat} {done : Bool}
      {proc proc' : Process} {machine machine' : Machine}
      (before : StackRun kept pml4 first start written proc machine)
      (ran : proc.tryGrowStack pml4 faultAddr machine = (.ok (done, proc'), machine')) :
      StackRun kept pml4 first start written proc' machine'
  | write {written : Nat → Option (BitVec 8)} {vaddr len phys : Nat} {bytes : List (BitVec 8)}
      {proc : Process} {machine machine' : Machine}
      (before : StackRun kept pml4 first start written proc machine) (inside : InStack vaddr)
      (fits : bytes.length ≤ len) (translated : proc.translateLocal vaddr len = some phys)
      (ran : copyBytes phys bytes machine = (.ok (), machine')) :
      StackRun kept pml4 first start (wrote written vaddr bytes) proc machine'
  | store {written : Nat → Option (BitVec 8)} {addr : Nat} {byte : BitVec 8}
      {proc : Process} {machine machine' : Machine}
      (before : StackRun kept pml4 first start written proc machine)
      (lower : proc.stackLow ≤ addr) (upper : addr < userStackTop)
      (stored : storeThrough pml4 addr byte machine = some machine') :
      StackRun kept pml4 first start (wrote written addr [byte]) proc machine'
  | elsewhere {written : Nat → Option (BitVec 8)} {proc proc' : Process}
      {machine machine' : Machine}
      (before : StackRun kept pml4 first start written proc machine)
      (other : Elsewhere kept InStack pml4 proc proc' machine machine') :
      StackRun kept pml4 first start written proc' machine'

theorem StackRun.ready {first : Process} {start : Machine}
    (ready : first.StackReady start.mem space.pml4) (running : Running kept first space start)
    (run : StackRun kept space.pml4 first start written proc machine) :
    proc.stackLow ≤ first.stackLow ∧
      ∃ current : Space, current.pml4 = space.pml4 ∧ Running kept proc current machine ∧
        proc.StackReady machine.mem space.pml4 ∧ StackHolds written proc machine.mem := by
  induction run with
  | start => exact ⟨le_refl _, space, rfl, running, ready, nofun⟩
  | fault before ran ih =>
      obtain ⟨lower, current, pml4, running, ready, holds⟩ := ih
      rw [← pml4] at ready ran ⊢
      obtain ⟨after, same, running', ready', holds', exact'⟩ := ready.grow running holds ran
      exact ⟨exact'.low.2.trans lower, after, same, running', ready', holds'⟩
  | write before inside fits translated ran ih =>
      obtain ⟨lower, current, pml4, running, ready, holds⟩ := ih
      rw [← pml4] at ready ⊢
      obtain ⟨running', ready', holds'⟩ :=
        ready.write running holds inside fits translated ran
      exact ⟨lower, current, rfl, running', ready', holds'⟩
  | store before from' upper stored ih =>
      obtain ⟨lower, current, pml4, running, ready, holds⟩ := ih
      rw [← pml4] at ready stored ⊢
      obtain ⟨running', ready', holds'⟩ := ready.store running holds from' upper stored
      exact ⟨lower, current, rfl, running', ready', holds'⟩
  | elsewhere before other ih =>
      obtain ⟨lower, current, pml4, running, ready, holds⟩ := ih
      rw [← pml4] at ready other ⊢
      obtain ⟨after, same, running', ready', holds'⟩ := ready.elsewhere running holds other
      exact ⟨(le_of_eq other.stack.1).trans lower, after, same, running', ready', holds'⟩

theorem StackReady.of_setup {reach : Nat → Prop} {elfBytes : Elf.Bytes} {prog : Elf.Program}
    {atBase ticks rsp : Nat} {argv envp : List Elf.Bytes} (setting : Setting reach space machine)
    (unrecorded : ∀ addr, InStack addr → proc.recordsOf addr = [])
    (ran : setupLinuxStack space.pml4 elfBytes prog atBase ticks argv envp (machine, proc) =
      (.ok rsp, (machine', proc'))) :
    proc'.StackReady machine'.mem space.pml4 := by
  obtain ⟨layout, phys, after, built, -, placed, -, mappings⟩ := setting.setupLinuxStack.of_ok ran
  have startAligned := (Laid.stackLayout_ok built).aligned.1
  dsimp only at mappings
  constructor
  · intro addr inside
    rw [recordsOf_append addr mappings, unrecorded addr inside, placed.base,
      if_pos (Loader.Laid.covers_stackMapping.mpr inside)]
    rfl
  · intro addr lower upper
    rw [placed.low] at lower
    rw [placed.walk_stack startAligned lower upper]
    unfold stackPhysFor
    rw [placed.base]

/-- The region is ready once `setup_linux_stack` has set it up.  In every run from there,
`stack_low` only sinks, and never below the limit; ring 3 reads above it what was last written
there; and the next fault, at whatever address, does exactly what it is to do. -/
theorem stack_grows_exactly {kept : Nat → Prop} {space : Space} :
    (∀ {reach : Nat → Prop} {elfBytes : Elf.Bytes} {prog : Elf.Program} {atBase ticks rsp : Nat}
      {argv envp : List Elf.Bytes} {machine machine' : Machine} {proc first : Process},
      Setting reach space machine → (∀ addr, InStack addr → proc.recordsOf addr = []) →
      setupLinuxStack space.pml4 elfBytes prog atBase ticks argv envp (machine, proc) =
        (.ok rsp, (machine', first)) → first.StackReady machine'.mem space.pml4) ∧
    ∀ {first proc : Process} {start machine : Machine} {written : Nat → Option (BitVec 8)},
      first.StackReady start.mem space.pml4 → Running kept first space start →
      StackRun kept space.pml4 first start written proc machine →
      (userStackLowLimit ≤ proc.stackLow ∧ proc.stackLow ≤ first.stackLow) ∧
      (∀ addr byte, proc.stackLow ≤ addr → written addr = some byte →
        readThrough machine.mem space.pml4 addr = some byte) ∧
      ∀ faultAddr, ∃ done proc' machine',
        proc.tryGrowStack space.pml4 faultAddr machine = (.ok (done, proc'), machine') ∧
        GrowsExactly written space.pml4 faultAddr done proc proc' machine machine' := by
  refine ⟨fun setting unrecorded ran => .of_setup setting unrecorded ran, ?_⟩
  intro first proc start machine written ready running run
  obtain ⟨sunk, current, pml4, running, ready, holds⟩ := run.ready ready running
  rw [← pml4] at ready ⊢
  refine ⟨⟨running.hosted.stackLow.1, sunk⟩, ?_, ?_⟩
  · intro addr byte lower found
    exact holds.reads ready running lower found
  · intro faultAddr
    obtain ⟨done, proc', machine', ran, -⟩ :=
      @Hosted.tryGrowStack_outcome _ _ _ _ running.hosted running.owned running.active faultAddr
    obtain ⟨-, -, -, -, -, exact'⟩ := ready.grow running holds ran
    exact ⟨done, proc', machine', ran, exact'⟩

end

end Process

namespace Boot

open Process

variable {length : Nat} {sys : System} {proc : Process} {space : Space}

theorem Alone.stack_records (alone : Alone length sys proc space) {addr : Nat}
    (inside : InStack addr) :
    proc.recordsOf addr = [stackMapping proc.stackPhysBase] := by
  have ranges := alone.mappings
  rw [linuxRanges_gigabyte] at ranges
  have recorded := alone.stack_recorded
  have region : (stackMapping proc.stackPhysBase).Covers addr :=
    Loader.Laid.covers_stackMapping.mpr inside
  obtain ⟨image, rest, same, first, ranges⟩ := map_eq_cons_iff.mp ranges
  obtain ⟨stack, rest, rfl, -, ranges⟩ := map_eq_cons_iff.mp ranges
  obtain rfl := map_eq_nil_iff.mp ranges
  have start : image.vaddr = 0x40000000 := congrArg Prod.fst first
  have apart : ¬ image.Covers addr := by
    rintro ⟨lower, -⟩
    have upper := inside.2
    have top : userStackTop = 0x10000000 := rfl
    omega
  have isStack : stackMapping proc.stackPhysBase = stack := by
    rw [same] at recorded
    rcases mem_cons.mp recorded with isImage | isStack
    · rw [isImage] at region
      exact absurd region apart
    · exact mem_singleton.mp isStack
  subst isStack
  unfold recordsOf
  rw [same, filter_cons_of_neg (by simpa using apart),
    filter_cons_of_pos (by simpa using region)]
  rfl

theorem Alone.protectStack (alone : Alone length sys proc space)
    (writable executable : Bool) : ∃ proc' machine' after,
      proc.mprotect space.pml4 0xFFFF000 4096 writable executable sys.machine =
        (.ok (true, proc'), machine') ∧
      after.pml4 = space.pml4 ∧ Running lowRam proc' after machine' ∧
      proc'.stackLow = 0xFFFF000 ∧ proc'.stackPhysBase = proc.stackPhysBase ∧
      proc'.mappings = proc.mappings ∧
      ∀ addr, 0xFFFF000 ≤ addr → addr < userStackTop →
        walk machine'.mem space.pml4 addr =
          some (leafFor (protFlags writable executable)
            (proc.stackPhysFor (addr / 4096 * 4096))) := by
  have running := alone.running
  have record := alone.stack_records (show InStack 0xFFFF000 from ⟨by decide, by decide⟩)
  have top : userStackTop = 0x10000000 := rfl
  obtain ⟨done, proc', machine', after, changed, ran, outcome, complete, stopped⟩ :=
    @Hosted.mprotect_outcome _ _ _ _ running.hosted running.owned running.bounded running.active
      0xFFFF000 4096 writable executable
  have translated := @translateLocal_of_record proc 0xFFFF000 4096 record (by decide) (by decide)
  have one : ((alignDown 0xFFFF000 + alignUp (max 4096 1)) % wordLimit -
      alignDown 0xFFFF000) / 4096 = 1 := by decide
  have start : alignDown 0xFFFF000 = 0xFFFF000 := by decide
  rw [one] at complete stopped
  have views := outcome.views
  rw [start] at stopped views
  cases done with
  | false =>
      obtain ⟨few, missing⟩ := stopped rfl
      rw [show changed = 0 by omega, translated] at missing
      cases missing
  | true =>
      obtain rfl := complete rfl
      obtain ⟨fresh, books⟩ := outcome.books
      obtain ⟨⟨taken, grown⟩, -⟩ := mprotect_grown ran
      refine ⟨proc', machine', after, ran, outcome.pml4, ?_,
        (congrArg Books.stackLow books).trans alone.low, congrArg Books.stackPhysBase books,
        congrArg Books.mappings books, ?_⟩
      · constructor
        · exact outcome.hosted
        · exact (running.owned.grow running.bounded grown).1
        · unfold Pmm.Bounded
          rw [grown.takes.limit]
          exact running.bounded
        · exact outcome.cr3.trans (running.active.trans outcome.pml4.symm)
      · intro addr lower upper
        have fourGiB : identityMapEnd = 4294967296 := rfl
        rw [← outcome.pml4, outcome.hosted.walk_eq (by omega), views _ (by omega),
          if_pos (by omega), show addr / 4096 * 4096 = 0xFFFF000 by omega, translated]
        rfl

/-- A program guards the lowest page of its stack with `mprotect`; the stack grows past it, and
the page stays closed for writing. -/
theorem stack_guarded : ∃ (sys : System) (proc : Process) (space : Space)
    (guarded grown : Process) (machine machine' : Machine) (leaf : Leaf),
    (ofRam 0xFF00000).run gigabyteEvents = some sys ∧
    sys.currentProcess = some (space.pml4, proc) ∧
    proc.mprotect space.pml4 0xFFFF000 4096 false false sys.machine =
      (.ok (true, guarded), machine) ∧
    guarded.tryGrowStack space.pml4 0xFFFE000 machine = (.ok (true, grown), machine') ∧
    walk machine'.mem space.pml4 0xFFFF000 = some leaf ∧ leaf.writable = false := by
  obtain ⟨sys, proc, space, ran, alone⟩ := ofRam_alone plain_fits
  obtain ⟨guarded, machine, after, protect, pml4, running, low, -, -, pages⟩ :=
    alone.protectStack false false
  obtain ⟨done, grown, machine', grow, -⟩ :=
    @Hosted.tryGrowStack_outcome _ _ _ _ running.hosted running.owned running.active 0xFFFE000
  have limit : userStackLowLimit = 0xFF00000 := rfl
  rcases grow_sank running grow with ⟨-, -, -, reason⟩ | ⟨rfl, later, sank⟩
  · omega
  · have page := sank.outside 0xFFFF000 (by decide) (by omega)
    rw [pml4] at grow page
    rw [pages 0xFFFF000 (le_refl _) (by decide)] at page
    exact ⟨sys, proc, space, guarded, grown, machine, machine', _, ran, alone.calling,
      protect, grow, page, show (protFlags false false).getLsbD 1 = false by decide⟩

theorem stack_grows_over_written :
    (∃ (first : Process) (space : Space) (machine : Machine),
      first.StackReady machine.mem space.pml4) ∧
    ∃ (proc : Process) (space : Space) (machine : Machine)
    (proc' : Process) (machine' : Machine), proc.stackLow = 0xFFFF000 ∧
    proc.tryGrowStack space.pml4 0xFFFE020 machine = (.ok (true, proc'), machine') ∧
    proc'.stackLow = 0xFFFE000 ∧
    readThrough machine'.mem space.pml4 0xFFFE010 = some 0x4D#8 := by
  refine ⟨?_, ?_⟩
  · obtain ⟨machine, proc, rsp, machine', first, space, setting, nothing, ran⟩ := plain_setup
    have unrecorded : ∀ addr, InStack addr → proc.recordsOf addr = [] := by
      intro addr inside
      unfold recordsOf
      rw [nothing, filter_nil]
    exact ⟨first, space, machine',
      (@stack_grows_exactly lowRam space).1 setting unrecorded ran⟩
  obtain ⟨sys, proc, space, ran, alone⟩ := ofRam_alone plain_fits
  obtain ⟨opened, machine, after, protect, pml4, running, low, base, mappings, pages⟩ :=
    alone.protectStack true false
  have limit : userStackLowLimit = 0xFF00000 := rfl
  have records : ∀ addr, InStack addr →
      opened.recordsOf addr = [stackMapping opened.stackPhysBase] := by
    intro addr inside
    unfold recordsOf
    rw [mappings, base]
    exact alone.stack_records inside
  have ready : opened.StackReady machine.mem after.pml4 := by
    constructor
    · exact records
    · intro addr lower upper
      rw [low] at lower
      rw [pml4, pages addr lower upper, show protFlags true false = dataFlags by decide]
      unfold stackPhysFor
      rw [base]
  have below : InStack 0xFFFE010 := ⟨by decide, by decide⟩
  obtain ⟨wrote', -, -⟩ := @Running.copyBytes _ _ _ _ _ (0xFFFE010 - userStackLowLimit) [0x4D#8]
    running ready.member rfl (show 0xFFFE010 - userStackLowLimit + 1 ≤
      userStackMaxPages * pageSize by decide)
  have run : StackRun lowRam after.pml4 opened machine _ opened _ :=
    .write .start below (le_refl 1)
      (translateLocal_of_record (records _ below) (by decide) (by decide)) wrote'
  obtain ⟨-, grows⟩ := @stack_grows_exactly lowRam after
  obtain ⟨-, -, next⟩ := grows ready running run
  obtain ⟨done, grown, machine', ran', exact'⟩ := next 0xFFFE020
  obtain rfl : done = true := by
    by_contra refused
    have reason := (exact'.refused (by simpa using refused)).2
    omega
  obtain ⟨bottom, -⟩ := exact'.grown rfl
  rw [show alignDown 0xFFFE020 = 0xFFFE000 by decide] at bottom
  refine ⟨opened, after, _, grown, machine', low, ran', bottom, ?_⟩
  exact exact'.reads 0xFFFE010 0x4D#8 (by omega) rfl

end Boot
end MachaOS
