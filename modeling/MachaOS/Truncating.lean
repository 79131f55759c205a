/-
Shared-memory objects as files: `shm::truncate` with `shm_read` and `shm_write` of
`src/linux_abi.rs`.

Growing an object clears only the frames it adds.  What the object shows at an offset is therefore the
last byte written there, at whatever size, and a file that shrinks and grows again shows bytes that
were cut off.
-/

import MachaOS.DirectMemory
import MachaOS.Lib.Runs
import MachaOS.Shm
import MachaOS.Launching

namespace MachaOS.Shm

open List ByteMemory
open Fallible Machine Paging

def span (phys size cursor len : Nat) : Nat × Nat :=
  (phys + cursor, min (size - cursor) len)

def shmRead (table : Table) (id cursor len : Nat) : Kernel (List (BitVec 8) × Nat) :=
  match physOf table id, sizeOf table id with
  | some phys, some size =>
      let (addr, n) := span phys size cursor len
      if n > 0 then do
        let bytes ← loadBytes addr n
        pure (bytes, cursor + n)
      else pure ([], cursor)
  | _, _ => pure ([], cursor)

def shmWrite (table : Table) (id cursor : Nat) (data : List (BitVec 8)) : Kernel (Nat × Nat) :=
  match physOf table id, sizeOf table id with
  | some phys, some size =>
      let (addr, n) := span phys size cursor data.length
      if n > 0 then do
        copyBytes addr (data.take n)
        pure (n, cursor + n)
      else pure (n, cursor)
  | _, _ => pure (0, cursor)

inductive Call where
  | truncate (newSize : Nat)
  | write (cursor : Nat) (data : List (BitVec 8))
  | read (cursor len : Nat)

/-- `sheet` is the last byte that a write has put at each offset. -/
structure Session where
  table : Table
  machine : Machine
  sheet : ByteMemory

def step (id : Nat) (session : Session) : Call → Option Session
  | .truncate newSize =>
      match truncate session.table id newSize session.machine with
      | (.ok (_, table), machine) => some { session with table, machine }
      | (.error _, _) => none
  | .write cursor data =>
      match shmWrite session.table id cursor data session.machine with
      | (.ok (n, _), machine) =>
          some { session with machine, sheet := session.sheet.writeBytes cursor (data.take n) }
      | (.error _, _) => none
  | .read cursor len =>
      match shmRead session.table id cursor len session.machine with
      | (.ok _, machine) => some { session with machine }
      | (.error _, _) => none

def contents (table : Table) (mem : ByteMemory) (id : Nat) : List (BitVec 8) :=
  match table.lookup id with
  | none => []
  | some obj => mem.readBytes obj.phys obj.size

def resize (bytes : List (BitVec 8)) (size : Nat) : List (BitVec 8) :=
  bytes.take size ++ List.replicate (size - bytes.length) 0#8

def Resizes (id newSize : Nat) (session : Session) : Prop :=
  ∃ done table machine,
    truncate session.table id newSize session.machine = (.ok (done, table), machine) ∧
    (done = true → sizeOf table id = some newSize ∧ contents table machine.mem id =
        resize (contents session.table session.machine.mem id) newSize) ∧
    (done = false → table = session.table ∧ machine = session.machine)

def Behaves (id : Nat) (session : Session) : Call → Prop
  | .truncate newSize => Resizes id newSize session
  | .write _ _ => True
  | .read _ _ => True

def Inside (id : Nat) (session : Session) : Prop :=
  ∃ obj, session.table.lookup id = some obj ∧ obj.size ≤ obj.pages * Pmm.frameSize ∧
    ∀ cursor len, 0 < (span obj.phys obj.size cursor len).2 →
      obj.phys ≤ (span obj.phys obj.size cursor len).1 ∧
        (span obj.phys obj.size cursor len).1 + (span obj.phys obj.size cursor len).2 ≤
          obj.phys + obj.pages * Pmm.frameSize

def neededPages (newSize : Nat) : Nat :=
  max ((newSize + Pmm.frameSize - 1) / Pmm.frameSize) 1

def Room (obj : SharedMem) (newSize : Nat) (pmm : Pmm) : Prop :=
  newSize ≤ obj.pages * Pmm.frameSize ∨ (pmm.allocContiguous (neededPages newSize)).1 ≠ none

def Clean (id : Nat) (session : Session) : Call → Prop
  | .truncate newSize => ∀ obj, session.table.lookup id = some obj →
      Room obj newSize session.machine.pmm →
        ∀ offset, obj.size ≤ offset → offset < newSize → session.sheet offset = 0#8
  | .write _ _ => True
  | .read _ _ => True

theorem neededPages_covers (newSize : Nat) : newSize ≤ neededPages newSize * Pmm.frameSize := by
  have size : Pmm.frameSize = 4096 := rfl
  unfold neededPages
  rw [size]
  omega

theorem neededPages_le_iff {newSize pages : Nat} (positive : 0 < newSize) :
    neededPages newSize ≤ pages ↔ newSize ≤ pages * Pmm.frameSize := by
  have size : Pmm.frameSize = 4096 := rfl
  unfold neededPages
  rw [size]
  omega

section

variable {sheet : ByteMemory}

theorem getElem?_resize (bytes : List (BitVec 8)) (size i : Nat) :
    (resize bytes size)[i]? = if i < size then some (bytes.getD i 0#8) else none := by
  unfold resize
  rw [List.getElem?_append, length_take, List.getElem?_take, List.getElem?_replicate,
    getD_eq_getElem?_getD]
  by_cases inBytes : i < bytes.length
  · rw [List.getElem?_eq_getElem inBytes, Option.getD_some]
    by_cases inSize : i < size
    · rw [if_pos (by omega), if_pos inSize]
    · rw [if_neg (by omega), if_neg (by omega), if_neg inSize]
  · rw [List.getElem?_eq_none (by omega), Option.getD_none, if_neg (by omega)]
    by_cases inSize : i < size
    · rw [if_pos (by omega), if_pos inSize]
    · rw [if_neg (by omega), if_neg inSize]

theorem getElem?_readBytes (addr len i : Nat) :
    (sheet.readBytes addr len)[i]? = if i < len then some (sheet (addr + i)) else none := by
  unfold ByteMemory.readBytes
  rw [List.getElem?_map]
  split
  · rename_i inside
    rw [List.getElem?_range inside]
    rfl
  · rename_i outside
    rw [List.getElem?_eq_none (by rw [length_range]; omega)]
    rfl

theorem readBytes_eq_resize_iff (old size : Nat) :
    sheet.readBytes 0 size = resize (sheet.readBytes 0 old) size ↔
      ∀ offset, old ≤ offset → offset < size → sheet offset = 0#8 := by
  constructor
  · intro same offset above below
    have here : (sheet.readBytes 0 size)[offset]? =
        (resize (sheet.readBytes 0 old) size)[offset]? := by rw [same]
    rw [getElem?_readBytes, getElem?_resize, if_pos below, if_pos below,
      getD_eq_getElem?_getD, getElem?_readBytes, if_neg (by omega), Nat.zero_add] at here
    exact Option.some.inj here
  · intro blank
    apply ext_getElem?
    intro i
    rw [getElem?_readBytes, getElem?_resize, getD_eq_getElem?_getD, getElem?_readBytes,
      Nat.zero_add]
    by_cases below : i < size
    · rw [if_pos below, if_pos below]
      by_cases old' : i < old
      · rw [if_pos old', Option.getD_some]
      · rw [if_neg old', Option.getD_none, blank i (by omega) below]
    · rw [if_neg below, if_neg below]

end

theorem relocated (mem : ByteMemory) {source target len count i : Nat} (inside : i < count)
    (apart : 0 < len → source + len ≤ target ∨ target + count ≤ source) :
    let cleared := mem.writeBytes target (List.replicate count 0#8)
    cleared.writeBytes target (cleared.readBytes source len) (target + i) =
      if i < len then mem (source + i) else 0#8 := by
  intro cleared
  have length := length_readBytes cleared source len
  by_cases early : i < len
  · rw [if_pos early, writeBytes_inside _ _ (by rw [length]; exact early),
      getD_eq_getElem?_getD, getElem?_readBytes, if_pos early, Option.getD_some]
    apply writeBytes_outside
    rw [length_replicate]
    have separate := apart (by omega)
    omega
  · rw [if_neg early, writeBytes_outside _ (by rw [length]; omega)]
    change mem.writeBytes target (List.replicate count 0#8) (target + i) = 0#8
    rw [writeBytes_inside _ _ (by rw [length_replicate]; exact inside),
      getD_eq_getElem?_getD, List.getElem?_replicate, if_pos inside, Option.getD_some]

theorem runs_apart {first second few count : Nat} (aligned : first % 4096 = 0)
    (aligned' : second % 4096 = 0)
    (disjoint : ∀ frame, frame ∈ Pmm.frameRun second count → frame ∉ Pmm.frameRun first few)
    (some' : 0 < few * 4096) (larger : few < count) :
    first + few * 4096 ≤ second ∨ second + count * 4096 ≤ first := by
  by_contra meet
  apply disjoint (max first second)
  · exact Pmm.mem_frameRun.mpr ⟨(max first second - second) / 4096, by omega, by omega⟩
  · exact Pmm.mem_frameRun.mpr ⟨(max first second - first) / 4096, by omega, by omega⟩

theorem step_of_truncate {id newSize : Nat} {session : Session} {done : Bool} {table : Table}
    {machine : Machine}
    (ran : truncate session.table id newSize session.machine = (.ok (done, table), machine)) :
    step id session (.truncate newSize) = some { session with table, machine } := by
  unfold step
  dsimp only
  rw [ran]

/-- The object shows its sheet: all of its block does, and nothing was written behind the block.
`good` are the frames the kernel reaches at their own addresses. -/
structure Kept (good : Nat → Prop) (id : Nat) (session : Session) (obj : SharedMem) : Prop where
  found : session.table.lookup id = some obj
  small : obj.size ≤ obj.pages * Pmm.frameSize
  aligned : obj.phys % 4096 = 0
  backed : ∀ frame, frame ∈ Pmm.frameRun obj.phys obj.pages →
    good frame ∧ ¬ session.machine.pmm.Free frame
  spare : ∀ frame, session.machine.pmm.Free frame → good frame
  reaches : session.machine.Reaches good
  shows : ∀ offset, offset < obj.pages * Pmm.frameSize →
    session.machine.mem (obj.phys + offset) = session.sheet offset
  blank : ∀ offset, obj.pages * Pmm.frameSize ≤ offset → session.sheet offset = 0#8

namespace Kept

variable {good : Nat → Prop} {id : Nat} {session : Session} {obj : SharedMem}

section

variable (kept : Kept good id session obj)
include kept

theorem physOf : Shm.physOf session.table id = some obj.phys := by
  rw [Shm.physOf, kept.found, Option.map_some]

theorem sizeOf : Shm.sizeOf session.table id = some obj.size := by
  rw [Shm.sizeOf, kept.found, Option.map_some]

theorem inside : Inside id session := by
  refine ⟨obj, kept.found, kept.small, ?_⟩
  intro cursor len some'
  have small := kept.small
  unfold span at some' ⊢
  dsimp only at some' ⊢
  omega

theorem touched {cursor len frame : Nat} (within : cursor + len ≤ obj.size)
    (touches : Touches (obj.phys + cursor) len frame) : good frame := by
  have small := kept.small
  have size : Pmm.frameSize = 4096 := rfl
  rw [size] at small
  exact (kept.backed frame (touches.mem_frameRun kept.aligned (le_trans within small))).1

theorem contents :
    Shm.contents session.table session.machine.mem id = session.sheet.readBytes 0 obj.size := by
  unfold Shm.contents
  rw [kept.found]
  apply map_congr_left
  intro offset member
  rw [mem_range] at member
  rw [Nat.zero_add]
  exact kept.shows offset (lt_of_lt_of_le member kept.small)

theorem resized {newSize : Nat} (room : newSize ≤ obj.pages * Pmm.frameSize) :
    Kept good id { session with table := session.table.put id { obj with size := newSize } }
      { obj with size := newSize } := by
  constructor
  · rw [Slots.lookup_put _ kept.found, if_pos rfl]
  · exact room
  · exact kept.aligned
  · exact kept.backed
  · exact kept.spare
  · exact kept.reaches
  · exact kept.shows
  · exact kept.blank

theorem relocate {count newPhys : Nat} {pmm : Pmm} (larger : obj.pages < count)
    (given : session.machine.pmm.allocContiguous count = (some newPhys, pmm)) :
    ∃ cleared machine,
      zeroBytes newPhys (count * Pmm.frameSize) { session.machine with pmm } = (.ok (), cleared) ∧
      (do
        moveBytes obj.phys newPhys (obj.pages * Pmm.frameSize)
        freeFrames obj.phys obj.pages : Kernel Unit) cleared = (.ok (), machine) ∧
      machine.Reaches good ∧ newPhys % 4096 = 0 ∧
      (∀ frame, frame ∈ Pmm.frameRun newPhys count → good frame ∧ ¬ machine.pmm.Free frame) ∧
      (∀ frame, machine.pmm.Free frame → good frame) ∧
      ∀ offset, offset < count * Pmm.frameSize →
        machine.mem (newPhys + offset) = session.sheet offset := by
  have size : Pmm.frameSize = 4096 := rfl
  obtain ⟨-, blockFree, -, newAligned, -⟩ := Pmm.allocContiguous_some given
  have freeAfter := Pmm.free_allocContiguous given
  have wasFree : ∀ frame, frame ∈ Pmm.frameRun newPhys count → session.machine.pmm.Free frame := by
    intro frame member
    obtain ⟨index, below, rfl⟩ := Pmm.mem_frameRun.mp member
    exact blockFree index below
  have notOld : ∀ frame, frame ∈ Pmm.frameRun newPhys count →
      frame ∉ Pmm.frameRun obj.phys obj.pages :=
    fun frame isNew isOld => (kept.backed frame isOld).2 (wasFree frame isNew)
  have apart : 0 < obj.pages * 4096 →
      obj.phys + obj.pages * 4096 ≤ newPhys ∨ newPhys + count * 4096 ≤ obj.phys :=
    fun some' => runs_apart kept.aligned newAligned notOld some' larger
  have shorter : obj.pages * 4096 ≤ count * 4096 := by omega
  have separate : obj.phys + obj.pages * 4096 ≤ newPhys ∨ newPhys + obj.pages * 4096 ≤ obj.phys := by
    omega
  have intoNew : ∀ len, len ≤ count * 4096 → ∀ frame, Touches newPhys len frame → good frame :=
    fun len short frame touches => kept.spare frame (wasFree frame
      (Touches.mem_frameRun newAligned (show 0 + len ≤ count * 4096 by omega) touches))
  have fromOld : ∀ frame, Touches obj.phys (obj.pages * 4096) frame → good frame :=
    fun frame touches => (kept.backed frame (Touches.mem_frameRun kept.aligned
      (show 0 + obj.pages * 4096 ≤ obj.pages * 4096 by omega) touches)).1
  obtain ⟨zeroed, reaches₁⟩ := @Reaches.zeroBytes _ { session.machine with pmm }
    (kept.reaches.of_same rfl rfl) newPhys (count * 4096) (intoNew (count * 4096) (le_refl _))
  obtain ⟨copied, reaches₂⟩ :=
    reaches₁.moveBytes fromOld (intoNew (obj.pages * 4096) shorter) separate
  obtain ⟨machine, freed⟩ := Hosted.freeFrames_ok obj.phys obj.pages _
  obtain ⟨sameMem, sameCr3, -, frees⟩ := Machine.freeFrames_free kept.aligned freed
  refine ⟨_, machine, zeroed, (bind_of_ok copied).trans freed, ?_, newAligned, ?_, ?_, ?_⟩
  · exact reaches₂.of_same sameMem sameCr3
  · intro frame member
    refine ⟨kept.spare frame (wasFree frame member), ?_⟩
    intro free
    rcases (frees frame).mp free with stillFree | ⟨old, -, -⟩
    · apply ((freeAfter frame).mp stillFree).2
      obtain ⟨index, below, rfl⟩ := Pmm.mem_frameRun.mp member
      omega
    · exact notOld frame member old
  · intro frame free
    rcases (frees frame).mp free with stillFree | ⟨old, -, -⟩
    · exact kept.spare frame ((freeAfter frame).mp stillFree).1
    · exact (kept.backed frame old).1
  · intro offset below
    rw [sameMem]
    refine (relocated session.machine.mem below apart).trans ?_
    split
    · rename_i early
      exact kept.shows offset early
    · rename_i late
      exact (kept.blank offset (by rw [size]; omega)).symm

end

theorem truncate (kept : Kept good id session obj) (newSize : Nat) :
    ∃ done table machine after,
      Shm.truncate session.table id newSize session.machine = (.ok (done, table), machine) ∧
      Kept good id { session with table, machine } after ∧
      (done = true ↔ Room obj newSize session.machine.pmm) ∧
      obj.pages ≤ after.pages ∧ (done = true → after.size = newSize) ∧
      (done = false → table = session.table ∧ machine = session.machine) := by
  have small := kept.small
  unfold Shm.truncate
  rw [kept.found]
  dsimp only
  by_cases shrinks : newSize ≤ obj.size
  · rw [if_pos shrinks]
    have room := le_trans shrinks small
    exact ⟨true, _, _, _, rfl, kept.resized room, iff_of_true rfl (Or.inl room),
      le_refl obj.pages, fun _ => rfl, fun never => (nomatch never)⟩
  · rw [if_neg shrinks]
    change ∃ done table machine after, (if neededPages newSize ≤ obj.pages then _ else _ :
      Kernel (Bool × Table)) session.machine = _ ∧ _
    by_cases fits : neededPages newSize ≤ obj.pages
    · rw [if_pos fits]
      have room := (neededPages_le_iff (by omega)).mp fits
      exact ⟨true, _, _, _, rfl, kept.resized room, iff_of_true rfl (Or.inl room),
        le_refl obj.pages, fun _ => rfl, fun never => (nomatch never)⟩
    · rw [if_neg fits]
      have full : ¬ newSize ≤ obj.pages * Pmm.frameSize :=
        fun inBlock => fits ((neededPages_le_iff (by omega)).mpr inBlock)
      rcases given : session.machine.pmm.allocContiguous (neededPages newSize) with
        ⟨_ | newPhys, pmm⟩
      · have ran : allocContiguous (neededPages newSize) session.machine =
            (.ok none, session.machine) := by
          unfold Machine.allocContiguous
          rw [given, Pmm.allocContiguous_none given]
        refine ⟨false, session.table, session.machine, obj, bind_of_ok ran, kept, ?_,
          le_refl obj.pages, ?_, ?_⟩
        · apply iff_of_false (nomatch ·)
          rintro (inBlock | found)
          · exact full inBlock
          · rw [given] at found
            exact found rfl
        · exact fun never => (nomatch never)
        · exact fun _ => ⟨rfl, rfl⟩
      · have ran : allocContiguous (neededPages newSize) session.machine =
            (.ok (some newPhys), { session.machine with pmm }) := by
          unfold Machine.allocContiguous
          rw [given]
        obtain ⟨cleared, machine, zeroed, filled, reaches, aligned, backed, spare, shows⟩ :=
          kept.relocate (show obj.pages < neededPages newSize by omega) given
        refine ⟨true, session.table.put id
            { obj with phys := newPhys, pages := neededPages newSize, size := newSize },
          machine, { obj with phys := newPhys, pages := neededPages newSize, size := newSize },
          ?_, ?_, ?_, Nat.le_of_not_le fits, ?_, ?_⟩
        · refine (bind_of_ok ran).trans ((bind_of_ok zeroed).trans ?_)
          split
          · rw [← bind_assoc, bind_of_ok filled]
            rfl
          · rename_i empty
            have none' : obj.pages = 0 := by omega
            rw [none'] at filled
            cases filled
            rfl
        · constructor
          · rw [Slots.lookup_put _ kept.found, if_pos rfl]
          · exact neededPages_covers newSize
          · exact aligned
          · exact backed
          · exact spare
          · exact reaches
          · exact shows
          · intro offset behind
            exact kept.blank offset
              (le_trans (Nat.mul_le_mul_right Pmm.frameSize (Nat.le_of_not_le fits)) behind)
        · apply iff_of_true rfl
          right
          rw [given]
          exact fun never => (nomatch never)
        · exact fun _ => rfl
        · exact fun never => (nomatch never)

theorem resizes_iff (kept : Kept good id session obj) (newSize : Nat) :
    Resizes id newSize session ↔ Clean id session (.truncate newSize) := by
  obtain ⟨done, table, machine, after, ran, keptAfter, does, -, sized, undone⟩ :=
    kept.truncate newSize
  have before := kept.contents
  have behind := keptAfter.contents
  have newSizeOf := keptAfter.sizeOf
  dsimp only at behind newSizeOf
  constructor
  · rintro ⟨done', table', machine', ran', resized, -⟩ other isFound room
    cases kept.found.symm.trans isFound
    rw [ran] at ran'
    cases ran'
    have isDone := does.mpr room
    obtain ⟨-, grown⟩ := resized isDone
    rw [before, behind, sized isDone] at grown
    exact (readBytes_eq_resize_iff obj.size newSize).mp grown
  · intro clean
    refine ⟨done, table, machine, ran, ?_, undone⟩
    intro isDone
    rw [newSizeOf, before, behind, sized isDone]
    exact ⟨rfl, (readBytes_eq_resize_iff obj.size newSize).mpr (clean obj kept.found (does.mp isDone))⟩

theorem shmWrite_run (kept : Kept good id session obj) (cursor : Nat) (data : List (BitVec 8)) :
    let bytes := data.take (min (obj.size - cursor) data.length)
    shmWrite session.table id cursor data session.machine =
        (.ok (min (obj.size - cursor) data.length, cursor + min (obj.size - cursor) data.length),
          { session.machine with
            mem := session.machine.mem.writeBytes (obj.phys + cursor) bytes }) ∧
      Reaches good { session.machine with
        mem := session.machine.mem.writeBytes (obj.phys + cursor) bytes } := by
  intro bytes
  have length : bytes.length = min (obj.size - cursor) data.length := by
    rw [length_take]
    omega
  unfold shmWrite
  rw [kept.physOf, kept.sizeOf]
  unfold span
  dsimp only
  by_cases some' : min (obj.size - cursor) data.length > 0
  · obtain ⟨copied, reaches⟩ := kept.reaches.copyBytes
      (show ∀ frame, Touches (obj.phys + cursor) bytes.length frame → good frame from
        fun frame touches => kept.touched (by omega) touches)
    rw [if_pos some', bind_of_ok copied]
    exact ⟨rfl, reaches⟩
  · have none' : min (obj.size - cursor) data.length = 0 := by omega
    have nothing : bytes = [] := length_eq_zero_iff.mp (length.trans none')
    rw [if_neg some', nothing, none', writeBytes_nil]
    exact ⟨rfl, kept.reaches⟩

theorem shmRead_run (kept : Kept good id session obj) (cursor len : Nat) :
    shmRead session.table id cursor len session.machine =
      (.ok (session.machine.mem.readBytes (obj.phys + cursor) (min (obj.size - cursor) len),
        cursor + min (obj.size - cursor) len), session.machine) := by
  unfold shmRead
  rw [kept.physOf, kept.sizeOf]
  unfold span
  dsimp only
  by_cases some' : min (obj.size - cursor) len > 0
  · rw [if_pos some', bind_of_ok (kept.reaches.loadBytes
      (fun frame touches => kept.touched (by omega) touches))]
    rfl
  · have none' : min (obj.size - cursor) len = 0 := by omega
    rw [if_neg some', none']
    rfl

theorem write (kept : Kept good id session obj) (cursor : Nat) (data : List (BitVec 8)) :
    ∃ after, step id session (.write cursor data) = some after ∧ Kept good id after obj ∧
      after.sheet =
        session.sheet.writeBytes cursor (data.take (min (obj.size - cursor) data.length)) := by
  have small := kept.small
  obtain ⟨wrote, reaches⟩ := kept.shmWrite_run cursor data
  have length : (data.take (min (obj.size - cursor) data.length)).length =
      min (obj.size - cursor) data.length := by
    rw [length_take]
    omega
  unfold step
  dsimp only at reaches ⊢
  rw [wrote]
  dsimp only
  generalize data.take (min (obj.size - cursor) data.length) = bytes at *
  refine ⟨_, rfl, ⟨kept.found, small, kept.aligned, kept.backed, kept.spare, reaches, ?_, ?_⟩, rfl⟩
  · intro offset below
    have shown := kept.shows offset below
    dsimp only
    unfold ByteMemory.writeBytes
    rw [shown]
    by_cases here : cursor ≤ offset ∧ offset < cursor + bytes.length
    · have place : obj.phys + offset - (obj.phys + cursor) = offset - cursor := by omega
      rw [if_pos (by omega), if_pos here, place]
    · rw [if_neg (by omega), if_neg here]
  · intro offset behind
    dsimp only
    by_cases some' : bytes = []
    · rw [some', writeBytes_nil]
      exact kept.blank offset behind
    · have nonempty := length_pos_iff.mpr some'
      rw [writeBytes_outside _ (by omega)]
      exact kept.blank offset behind

theorem read (kept : Kept good id session obj) (cursor len : Nat) :
    step id session (.read cursor len) = some session := by
  unfold step
  dsimp only
  rw [kept.shmRead_run cursor len]

theorem step (kept : Kept good id session obj) (call : Call) :
    ∃ after next, Shm.step id session call = some after ∧ Kept good id after next := by
  cases call with
  | truncate newSize =>
      obtain ⟨done, table, machine, next, ran, keptAfter, -⟩ := kept.truncate newSize
      exact ⟨{ session with table, machine }, next, step_of_truncate ran, keptAfter⟩
  | write cursor data =>
      obtain ⟨after, stepped, keptAfter, -⟩ := kept.write cursor data
      exact ⟨after, obj, stepped, keptAfter⟩
  | read cursor len => exact ⟨session, obj, kept.read cursor len, kept⟩

theorem behaves_iff (kept : Kept good id session obj) (call : Call) :
    Behaves id session call ↔ Clean id session call := by
  cases call with
  | truncate newSize => exact kept.resizes_iff newSize
  | write cursor data => exact Iff.rfl
  | read cursor len => exact Iff.rfl

end Kept

section

variable {machine : Machine}

def opened (table : Table) (machine : Machine) : Session :=
  { table := (create table).1, machine, sheet := fun _ => 0#8 }

theorem kept_opened (table : Table) (reaches : machine.Reaches machine.pmm.Free) :
    Kept machine.pmm.Free (create table).2 (opened table machine)
      { phys := 0, pages := 0, size := 0, refcount := 1 } := by
  constructor
  · exact (Slots.lookup_insert _ table _).trans (if_pos rfl)
  · exact Nat.zero_le _
  · rfl
  · intro frame member
    obtain ⟨index, below, -⟩ := Pmm.mem_frameRun.mp member
    exact absurd below (Nat.not_lt_zero index)
  · exact fun frame free => free
  · exact reaches
  · intro offset below
    rw [Nat.zero_mul] at below
    exact absurd below (Nat.not_lt_zero offset)
  · exact fun offset _ => rfl

theorem meets_behaves_iff (table : Table) (reaches : machine.Reaches machine.pmm.Free)
    (calls : List Call) :
    Runs.Meets (step (create table).2) (Behaves (create table).2) (opened table machine) calls ↔
      Runs.Meets (step (create table).2) (Clean (create table).2) (opened table machine) calls := by
  apply @Runs.meets_congr _ _ _ _ _
    (fun session => ∃ obj, Kept machine.pmm.Free (create table).2 session obj)
  · rintro session call next ⟨obj, kept⟩ stepped
    obtain ⟨after, obj', same, keptAfter⟩ := kept.step call
    rw [stepped] at same
    cases same
    exact ⟨obj', keptAfter⟩
  · rintro session call ⟨obj, kept⟩
    exact kept.behaves_iff call
  · exact ⟨_, kept_opened table reaches⟩

theorem inside_run (table : Table) (reaches : machine.Reaches machine.pmm.Free) (calls : List Call) :
    ∃ session, Runs.after (step (create table).2) (opened table machine) calls = some session ∧
      Inside (create table).2 session := by
  have start := kept_opened table reaches
  generalize opened table machine = session at start ⊢
  generalize ({ phys := 0, pages := 0, size := 0, refcount := 1 } : SharedMem) = obj at start
  induction calls generalizing session obj with
  | nil => exact ⟨session, rfl, start.inside⟩
  | cons call rest ih =>
      obtain ⟨next, obj', stepped, kept⟩ := start.step call
      rw [Runs.after, stepped]
      exact ih next obj' kept

/-- Where the kernel reaches its free frames at their own addresses, every run of calls on a new object
goes to its end with the size inside the block, and every truncation in it resizes a zero-filled file
exactly if none of them adds an offset at which something else than zero was last written. -/
theorem truncate_resizes_iff (table : Table) (machine : Machine)
    (reaches : machine.Reaches machine.pmm.Free) (calls : List Call) :
    (∃ session, Runs.after (step (create table).2) (opened table machine) calls = some session ∧
      Inside (create table).2 session) ∧
    (Runs.Meets (step (create table).2) (Behaves (create table).2) (opened table machine) calls ↔
      Runs.Meets (step (create table).2) (Clean (create table).2) (opened table machine) calls) := by
  constructor
  · exact inside_run table reaches calls
  · exact meets_behaves_iff table reaches calls

theorem reaches_start {boot : Boot} {sys : System} (valid : boot.Valid)
    (started : boot.start = some sys) :
    sys.machine.Reaches sys.machine.pmm.Free := by
  have ready := Boot.ready_start valid started
  have wellFormed := valid.wellFormed
  have apart := fun frame free => valid.pool_apart (ready.ledger.freePool frame free)
  have editing : Editing (fun frame => (Boot.kernelSpace boot.pml4).Owns frame ∨
      sys.machine.pmm.Free frame) (Boot.kernelSpace boot.pml4) sys.machine := by
    have aligned : ∀ frame, (Boot.kernelSpace boot.pml4).Owns frame ∨ sys.machine.pmm.Free frame →
        frame % 4096 = 0 := by
      rintro frame (owns | free)
      · exact wellFormed.aligned frame owns
      · exact (apart frame free).1
    constructor
    · exact wellFormed
    · exact ready.represents
    · exact fun frame owns => Or.inl owns
    · exact fun frame owns free => (apart frame free).2.2 owns
    · exact aligned
    · rintro frame (owns | free)
      · exact wellFormed.bounded frame owns
      · exact (apart frame free).2.1
    · left
      refine ⟨ready.active, fun frame reached => ⟨_, rfl, ?_⟩⟩
      have whole := aligned frame reached
      simp only [Space.kernelLeaf]
      omega
  apply (Reaches.of_editing editing).mono
  exact fun frame free => ⟨Or.inr free, (apart frame free).2.2⟩

def regrow : List Call :=
  [.truncate 4096, .write 0 [1#8], .truncate 0, .truncate 1]

theorem not_behaves_regrow (table : Table) (reaches : machine.Reaches machine.pmm.Free)
    (memory : (machine.pmm.allocContiguous 1).1 ≠ none) :
    ¬ Runs.Meets (step (create table).2) (Behaves (create table).2) (opened table machine) regrow := by
  have kept₀ := kept_opened table reaches
  intro behaves
  have clean := (meets_behaves_iff table reaches regrow).mp behaves
  generalize (create table).2 = id at *
  obtain ⟨done₁, table₁, machine₁, obj₁, ran₁, kept₁, does₁, -, sized₁, -⟩ := kept₀.truncate 4096
  have size₁ := sized₁ (does₁.mpr (Or.inr memory))
  obtain ⟨session₂, wrote, kept₂, sheet₂⟩ := kept₁.write 0 [1#8]
  obtain ⟨done₃, table₃, machine₃, obj₃, ran₃, kept₃, does₃, larger, sized₃, -⟩ := kept₂.truncate 0
  have size₃ := sized₃ (does₃.mpr (Or.inl (Nat.zero_le _)))
  have some' := kept₁.small
  have frameSize : Pmm.frameSize = 4096 := rfl
  have room : 1 ≤ obj₃.pages * Pmm.frameSize := by
    rw [size₁, frameSize] at some'
    rw [frameSize]
    omega
  have last := ((clean.2 _ (step_of_truncate ran₁)).2 _ wrote).2 _ (step_of_truncate ran₃)
  have blank := last.1 obj₃ kept₃.found (Or.inl room) 0 (le_of_eq size₃) Nat.one_pos
  dsimp only at blank
  rw [sheet₂, size₁] at blank
  change ByteMemory.writeBytes (fun _ => 0#8) 0 [1#8] 0 = 0#8 at blank
  exact absurd blank (by decide)

/-- On a freshly booted kernel. -/
theorem cut_byte_comes_back : ∃ sys, Boot.plain.start = some sys ∧
    sys.machine.Reaches sys.machine.pmm.Free ∧
    ¬ Runs.Meets (step 0) (Behaves 0) (opened [] sys.machine) regrow := by
  obtain ⟨pmm, started, free⟩ := Boot.plain_start
  have reaches := reaches_start Boot.plain_valid started
  have run : pmm.FreeRun 0x6800000 1 := by
    intro index one
    have first : index = 0 := by omega
    subst first
    exact (free _).mpr (by decide)
  obtain ⟨phys, after, given, -⟩ := Pmm.allocContiguous_of_freeRun Nat.one_pos run
  refine ⟨_, started, reaches, not_behaves_regrow [] reaches ?_⟩
  change (pmm.allocContiguous 1).1 ≠ none
  rw [given]
  exact fun never => (nomatch never)

theorem truncate_resizes_booted : ∃ sys, Boot.plain.start = some sys ∧
    (∃ session, Runs.after (step 0) (opened [] sys.machine) regrow = some session ∧
      Inside 0 session) ∧
    (Runs.Meets (step 0) (Behaves 0) (opened [] sys.machine) regrow ↔
      Runs.Meets (step 0) (Clean 0) (opened [] sys.machine) regrow) := by
  obtain ⟨pmm, started, -⟩ := Boot.plain_start
  exact ⟨_, started, truncate_resizes_iff [] _ (reaches_start Boot.plain_valid started) regrow⟩

end

end MachaOS.Shm
