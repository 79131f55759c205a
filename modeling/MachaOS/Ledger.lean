/-
The ledger of frames: who holds which frame, in every state of the system.

A frame is listed by one process, or backs one shared-memory object, or is
neither.  Frames in use are marked so in the bitmap.  This holds after every
step, whatever the page tables map and in whatever order the steps come.
-/

import MachaOS.Lib.Holdings
import MachaOS.Boot
import MachaOS.Performed
import Mathlib.Logic.Equiv.Basic

namespace MachaOS

open Fallible Machine Paging

inductive Holder where
  | process (index : Nat)
  | object (id : Nat)
deriving DecidableEq

namespace System

def holdings (sys : System) : Holder → List Nat
  | .process index => ((sys.processAt index).map Process.frames).getD []
  | .object id =>
      ((sys.shm.lookup id).map (fun obj => Pmm.frameRun obj.phys obj.pages)).getD []

/-- The frame bookkeeping of the whole system is in order, over the frames of `pool`. -/
structure Ledger (pool : Nat → Prop) (sys : System) : Prop where
  bounded : sys.machine.pmm.Bounded
  owned : ∀ index proc, sys.processAt index = some proc →
    OwnedBy sys.machine.pmm proc
  objects : ∀ id obj, sys.shm.lookup id = some obj →
    obj.phys % 4096 = 0 ∧ 0 < obj.refcount
  held : ∀ holder frame, frame ∈ sys.holdings holder → sys.machine.pmm.Held frame
  exclusive : Holdings (fun holder frame => frame ∈ sys.holdings holder)
    sys.machine.pmm.Free
  freePool : ∀ frame, sys.machine.pmm.Free frame → pool frame
  heldPool : ∀ holder frame, frame ∈ sys.holdings holder → pool frame

variable {pool : Nat → Prop}

variable {sys : System} {proc : Process}

theorem holdings_process {index : Nat} (found : sys.processAt index = some proc) :
    sys.holdings (.process index) = proc.frames := by
  simp [holdings, found]

variable {obj : Shm.SharedMem} {id : Nat}

theorem holdings_object (found : sys.shm.lookup id = some obj) :
    sys.holdings (.object id) = Pmm.frameRun obj.phys obj.pages := by
  simp [holdings, found]

def SameBooks (sys after : System) : Prop :=
  ∀ index proc', after.processAt index = some proc' →
    ∃ proc, sys.processAt index = some proc ∧
      proc'.frames = proc.frames ∧ proc'.mappings = proc.mappings

variable {after : System}

theorem SameBooks.of_tasks (same : after.tasks = sys.tasks) : SameBooks sys after := by
  intro index proc' found
  refine ⟨proc', ?_, rfl, rfl⟩
  unfold processAt at found ⊢
  rw [← same]
  exact found

theorem SameBooks.holdings_subset (same : SameBooks sys after) {index frame : Nat}
    (mem : frame ∈ after.holdings (.process index)) :
    frame ∈ sys.holdings (.process index) := by
  cases found : after.processAt index with
  | none => simp [holdings, found] at mem
  | some proc' =>
      obtain ⟨proc, was, frames, -⟩ := same index proc' found
      rw [holdings_process found, frames] at mem
      rw [holdings_process was]
      exact mem

theorem Ledger.of_same (ledger : Ledger pool sys) (pmm : after.machine.pmm = sys.machine.pmm)
    (shm : after.shm = sys.shm) (books : SameBooks sys after) : Ledger pool after := by
  have subset : ∀ holder frame, frame ∈ after.holdings holder →
      frame ∈ sys.holdings holder := by
    intro holder frame mem
    cases holder with
    | process index => exact books.holdings_subset mem
    | object id =>
        simp only [holdings, shm] at mem ⊢
        exact mem
  refine ⟨by rw [pmm]; exact ledger.bounded, ?_, ?_, ?_, ?_, by rw [pmm]; exact ledger.freePool,
    fun holder frame mem => ledger.heldPool holder frame (subset holder frame mem)⟩
  · intro index proc' found
    obtain ⟨proc, was, frames, mappings⟩ := books index proc' found
    rw [pmm]
    exact (ledger.owned index proc was).congr frames mappings
  · rw [shm]
    exact ledger.objects
  · intro holder frame mem
    rw [pmm]
    exact ledger.held holder frame (subset holder frame mem)
  · rw [pmm]
    exact ledger.exclusive.rename Function.injective_id subset (fun _ free => Or.inl free)

theorem Ledger.exchange (ledger : Ledger pool sys) (holder : Holder)
    (limit : after.machine.pmm.lastUsableFrame = sys.machine.pmm.lastUsableFrame)
    (others : ∀ other frame, other ≠ holder → frame ∈ after.holdings other →
      frame ∈ sys.holdings other)
    (came : ∀ frame, frame ∈ after.holdings holder →
      frame ∈ sys.holdings holder ∨ sys.machine.pmm.Free frame)
    (freed : ∀ frame, after.machine.pmm.Free frame →
      sys.machine.pmm.Free frame ∨ frame ∈ sys.holdings holder)
    (kept : ∀ frame, frame ∈ after.holdings holder → after.machine.pmm.Held frame)
    (books : ∀ index proc', after.processAt index = some proc' →
      (holder = .process index ∧ OwnedBy after.machine.pmm proc') ∨
      (holder ≠ .process index ∧ ∃ proc, sys.processAt index = some proc ∧
        proc'.frames = proc.frames ∧ proc'.mappings = proc.mappings))
    (objects : ∀ id obj, after.shm.lookup id = some obj → obj.phys % 4096 = 0 ∧ 0 < obj.refcount) :
    Ledger pool after := by
  have exclusive : Holdings (fun holder frame => frame ∈ after.holdings holder)
      after.machine.pmm.Free :=
    ledger.exclusive.exchange holder others came freed
      (fun frame mem => (kept frame mem).2.2.2)
  refine ⟨?_, ?_, objects, ?_, exclusive, ?_, ?_⟩
  · unfold Pmm.Bounded
    rw [limit]
    exact ledger.bounded
  · intro index proc' found
    rcases books index proc' found with ⟨-, owned⟩ | ⟨different, proc, was, frames, mappings⟩
    · exact owned
    · refine OwnedBy.congr (OwnedBy.of_free (ledger.owned index proc was) limit ?_) frames
        mappings
      intro frame free
      rcases freed frame free with before | mine
      · exact Or.inl before
      · refine Or.inr (fun mem => different ?_)
        rw [← holdings_process was] at mem
        exact ledger.exclusive.alone holder (.process index) frame mine mem
  · intro other frame mem
    by_cases same : other = holder
    · rw [same] at mem
      exact kept frame mem
    · obtain ⟨aligned, below, inside, -⟩ := ledger.held other frame (others other frame same mem)
      exact ⟨aligned, below, by rw [limit]; exact inside, exclusive.inUse other frame mem⟩
  · intro frame free
    rcases freed frame free with was | mine
    · exact ledger.freePool frame was
    · exact ledger.heldPool holder frame mine
  · intro other frame mem
    by_cases same : other = holder
    · rw [same] at mem
      rcases came frame mem with mine | was
      · exact ledger.heldPool holder frame mine
      · exact ledger.freePool frame was
    · exact ledger.heldPool other frame (others other frame same mem)

variable {cr3 : Nat}

section

variable (found : sys.currentProcess = some (cr3, proc))
include found

theorem currentProcess_eq_some :
    sys.tasks[sys.current]? = some { cr3, process := some proc } := by
  unfold currentProcess currentTask at found
  split at found
  · rename_i task
    cases found
    exact task
  · cases found

theorem processAt_current : sys.processAt sys.current = some proc := by
  unfold processAt
  rw [currentProcess_eq_some found]
  rfl

theorem processAt_setCurrentProcess (proc' : Process) (index : Nat) :
    (sys.setCurrentProcess proc').processAt index =
      if index = sys.current then some proc' else sys.processAt index := by
  have task := currentProcess_eq_some found
  unfold processAt setCurrentProcess
  rw [List.getElem?_modify]
  by_cases same : index = sys.current
  · subst same
    simp [task]
  · have different : ¬ sys.current = index := fun equal => same equal.symm
    simp [same, different]

theorem processAt_acted (machine : Machine) (proc' : Process) (index : Nat) :
    ({ sys with machine }.setCurrentProcess proc').processAt index =
      if index = sys.current then some proc' else sys.processAt index := by
  have located : ({ sys with machine } : System).currentProcess = some (cr3, proc) := found
  exact processAt_setCurrentProcess located proc' index

theorem currentProcess_setCurrentProcess (proc' : Process) :
    (sys.setCurrentProcess proc').currentProcess = some (cr3, proc') := by
  have located := currentProcess_eq_some found
  unfold currentProcess currentTask setCurrentProcess
  dsimp only
  rw [List.getElem?_modify_eq, located]
  rfl

theorem sameBooks_setCurrentProcess {proc' : Process} (frames : proc'.frames = proc.frames)
    (mappings : proc'.mappings = proc.mappings) :
    SameBooks sys (sys.setCurrentProcess proc') := by
  intro index other located
  rw [processAt_setCurrentProcess found] at located
  split at located
  · rename_i same
    cases located
    rw [same]
    exact ⟨proc, processAt_current found, frames, mappings⟩
  · exact ⟨other, located, rfl, rfl⟩

end

variable {machine : Machine}

theorem Ledger.ofTransfer (ledger : Ledger pool sys) {proc' : Process}
    (found : sys.currentProcess = some (cr3, proc)) (owned : OwnedBy machine.pmm proc')
    (transfer : Transfer proc proc' sys.machine machine) :
    Ledger pool ({ sys with machine }.setCurrentProcess proc') := by
  have here := processAt_current found
  have places := processAt_acted found machine proc'
  have mine : ({ sys with machine }.setCurrentProcess proc').holdings
      (.process sys.current) = proc'.frames :=
    holdings_process (by rw [places, if_pos rfl])
  refine ledger.exchange (.process sys.current) transfer.limit ?_ ?_ ?_ ?_ ?_
    (fun id obj => ledger.objects id obj)
  · intro other frame different mem
    cases other with
    | object id => exact mem
    | process index =>
        have elsewhere : index ≠ sys.current := fun same => different (by rw [same])
        simp only [holdings, places, if_neg elsewhere] at mem ⊢
        exact mem
  · intro frame mem
    rw [mine] at mem
    rw [holdings_process here]
    exact transfer.came frame mem
  · intro frame free
    rw [holdings_process here]
    exact transfer.freed frame free
  · intro frame mem
    rw [mine] at mem
    exact owned.held frame mem
  · intro index other placed
    rw [places] at placed
    split at placed
    · rename_i same
      cases placed
      rw [same]
      exact Or.inl ⟨rfl, owned⟩
    · rename_i different
      refine Or.inr ⟨fun same => different ?_, other, placed, rfl, rfl⟩
      cases same
      rfl

/-! ### Shared-memory objects -/

variable {table : Shm.Table}

theorem Ledger.exchange_object (ledger : Ledger pool sys) (id : Nat)
    (limit : machine.pmm.lastUsableFrame = sys.machine.pmm.lastUsableFrame)
    (others : ∀ other, other ≠ id → table.lookup other = sys.shm.lookup other)
    (mine : ∀ obj, table.lookup id = some obj →
      obj.phys % 4096 = 0 ∧ 0 < obj.refcount ∧ ∀ frame, frame ∈ Pmm.frameRun obj.phys obj.pages →
        (frame ∈ sys.holdings (.object id) ∨ sys.machine.pmm.Free frame) ∧
          machine.pmm.Held frame)
    (freed : ∀ frame, machine.pmm.Free frame →
      sys.machine.pmm.Free frame ∨ frame ∈ sys.holdings (.object id)) :
    Ledger pool { sys with machine, shm := table } := by
  have inObject : ∀ frame,
      frame ∈ ({ sys with machine, shm := table } : System).holdings (.object id) →
      ∃ obj, table.lookup id = some obj ∧ frame ∈ Pmm.frameRun obj.phys obj.pages := by
    intro frame mem
    simp only [holdings] at mem
    cases found : table.lookup id with
    | none => simp [found] at mem
    | some obj => exact ⟨obj, rfl, by simpa [found] using mem⟩
  refine ledger.exchange (.object id) limit ?_ ?_ freed ?_ ?_ ?_
  · intro other frame different mem
    cases other with
    | process index => exact mem
    | object other =>
        have elsewhere : other ≠ id := fun same => different (by rw [same])
        simp only [holdings, others other elsewhere] at mem ⊢
        exact mem
  · intro frame mem
    obtain ⟨obj, found, inRun⟩ := inObject frame mem
    exact ((mine obj found).2.2 frame inRun).1
  · intro frame mem
    obtain ⟨obj, found, inRun⟩ := inObject frame mem
    exact ((mine obj found).2.2 frame inRun).2
  · intro index proc' found
    exact Or.inr ⟨by simp, proc', found, rfl, rfl⟩
  · intro other obj found
    by_cases same : other = id
    · subst same
      exact ⟨(mine obj found).1, (mine obj found).2.1⟩
    · exact ledger.objects other obj ((others other same).symm.trans found)

theorem Ledger.physOf_aligned (ledger : Ledger pool sys) (id : Nat) :
    ∀ phys, Shm.physOf sys.shm id = some phys → phys % 4096 = 0 := by
  intro phys found
  unfold Shm.physOf at found
  cases object : sys.shm.lookup id with
  | none => simp [object] at found
  | some obj =>
      rw [object] at found
      cases found
      exact (ledger.objects id obj object).1

variable {event : Event}

section

variable (ledger : Ledger pool sys)
include ledger

theorem Ledger.act_books {proc' : Process} {act : MemoryAct}
    (calling : sys.currentProcess = some (cr3, proc))
    (asked : event.act sys.shm proc = some act)
    (ran : act.run proc cr3 sys.machine = (.ok proc', machine)) :
    (OwnedBy machine.pmm proc' ∧ Transfer proc proc' sys.machine machine) ∧
      proc'.fds = proc.fds ∧
      ∀ mapping, mapping ∈ proc'.mappings → mapping ∈ proc.mappings ∨
        ∀ id, mapping.shmId = some id → mapping.Shares sys.shm id := by
  obtain ⟨books, fds, mappings⟩ := MemoryAct.run_books
    (ledger.owned _ _ (processAt_current calling)) ledger.bounded (by
      rintro at' table shmId writable executable rfl
      cases Event.act_table asked
      exact ledger.physOf_aligned shmId) ran
  refine ⟨books, fds, fun mapping mem => (mappings mapping mem).imp_right ?_⟩
  rintro (isPrivate | ⟨at', table, shmId, writable, executable, rfl, shares⟩) id shared
  · rw [isPrivate] at shared
    cases shared
  · cases Event.act_table asked
    rw [shares.1] at shared
    cases shared
    exact shares

theorem Ledger.acted (acted : Acted sys event after) : Ledger pool after := by
  cases acted with
  | mk calling asked ran =>
      obtain ⟨⟨owned, transfer⟩, -⟩ := ledger.act_books calling asked ran
      exact ledger.ofTransfer calling owned transfer

theorem Ledger.put_object {obj' : Shm.SharedMem} (found : sys.shm.lookup id = some obj)
    (phys : obj'.phys = obj.phys) (pages : obj'.pages = obj.pages) (counted : 0 < obj'.refcount) :
    Ledger pool { sys with shm := sys.shm.put id obj' } := by
  refine ledger.exchange_object id rfl ?_ ?_ (fun _ => Or.inl)
  · intro other different
    rw [Slots.lookup_put _ found, if_neg different]
  · intro other placed
    rw [Slots.lookup_put _ found, if_pos rfl] at placed
    cases placed
    rw [phys, pages, ← holdings_object found]
    exact ⟨(ledger.objects id obj found).1, counted, fun frame mem =>
      ⟨Or.inl mem, ledger.held _ frame mem⟩⟩

theorem Ledger.create : Ledger pool { sys with shm := (Shm.create sys.shm).1 } := by
  refine ledger.exchange_object (Shm.create sys.shm).2 rfl ?_ ?_
    (fun _ => Or.inl)
  · intro other different
    unfold Shm.create at different ⊢
    rw [Slots.lookup_insert, if_neg different]
  · intro obj placed
    unfold Shm.create at placed
    rw [Slots.lookup_insert, if_pos rfl] at placed
    cases placed
    exact ⟨rfl, by decide, fun frame mem => by simp [Pmm.frameRun] at mem⟩

theorem Ledger.dup (id : Nat) : Ledger pool { sys with shm := Shm.dup sys.shm id } := by
  unfold Shm.dup
  cases found : sys.shm.lookup id with
  | none => exact ledger
  | some obj => exact ledger.put_object found rfl rfl (Nat.succ_pos _)

theorem Ledger.dupAll (ids : List Nat) :
    Ledger pool { sys with shm := ids.foldl Shm.dup sys.shm } := by
  induction ids generalizing sys with
  | nil => exact ledger
  | cons id rest ih => exact ih (ledger.dup id)

end

variable {value : Unit}

theorem Ledger.freed_object (ledger : Ledger pool sys) (found : sys.shm.lookup id = some obj)
    {machine' : Machine}
    (sameFree : ∀ frame, machine.pmm.Free frame → sys.machine.pmm.Free frame)
    (ran : freeFrames obj.phys obj.pages machine = (.ok value, machine')) :
    ∀ frame, machine'.pmm.Free frame →
      sys.machine.pmm.Free frame ∨ frame ∈ sys.holdings (.object id) := by
  intro frame free
  obtain ⟨-, -, -, iff⟩ := freeFrames_free (ledger.objects id obj found).1 ran
  rcases (iff frame).mp free with was | ⟨inRun, -, -⟩
  · exact Or.inl (sameFree frame was)
  · rw [holdings_object found]
    exact Or.inr inRun

theorem Ledger.close (ledger : Ledger pool sys)
    (ran : Shm.close sys.shm id sys.machine = (.ok table, machine)) :
    Ledger pool { sys with machine, shm := table } := by
  unfold Shm.close at ran
  cases found : sys.shm.lookup id with
  | none =>
      rw [found] at ran
      cases ran
      exact ledger
  | some obj =>
      rw [found] at ran
      dsimp only at ran
      split at ran
      · obtain ⟨_, machine₁, freed, rest⟩ := bind_eq_ok ran
        cases rest
        have limit := (freeFrames_free (ledger.objects id obj found).1 freed).2.2.1
        refine ledger.exchange_object id limit ?_ ?_
          (ledger.freed_object found (fun _ free => free) freed)
        · intro other different
          rw [Slots.lookup_clear, if_neg different]
        · intro other placed
          rw [Slots.lookup_clear, if_pos rfl] at placed
          cases placed
      · rename_i remaining
        cases ran
        exact ledger.put_object found rfl rfl (Nat.pos_of_ne_zero remaining)

variable {ids : List Nat}

theorem Ledger.closeAll (ledger : Ledger pool sys)
    (ran : Socket.closeAll sys.shm ids sys.machine = (.ok table, machine)) :
    Ledger pool { sys with machine, shm := table } := by
  induction ids generalizing sys with
  | nil =>
      cases ran
      exact ledger
  | cons id rest ih =>
      obtain ⟨middle, machine₁, closed, ran⟩ := bind_eq_ok ran
      have rest := ih (ledger.close closed) ran
      exact rest

theorem Ledger.move_object (ledger : Ledger pool sys) {newPhys pages : Nat}
    (obj' : Shm.SharedMem) (found : sys.shm.lookup id = some obj) (phys : obj'.phys = newPhys)
    (count : obj'.pages = pages) (counted : 0 < obj'.refcount) (aligned : newPhys % 4096 = 0)
    {machine' : Machine} (takes : Takes sys.machine machine (Pmm.frameRun newPhys pages))
    (limit : machine'.pmm.lastUsableFrame = machine.pmm.lastUsableFrame)
    (freed : ∀ frame, machine'.pmm.Free frame →
      machine.pmm.Free frame ∨ frame ∈ sys.holdings (.object id)) :
    Ledger pool { sys with machine := machine', shm := sys.shm.put id obj' } := by
  refine ledger.exchange_object id (limit.trans takes.limit) ?_ ?_ ?_
  · intro other different
    rw [Slots.lookup_put _ found, if_neg different]
  · intro other placed
    rw [Slots.lookup_put _ found, if_pos rfl] at placed
    cases placed
    rw [phys, count]
    refine ⟨aligned, counted, fun frame mem => ?_⟩
    have was := takes.wasFree frame mem
    obtain ⟨below, inside⟩ := ledger.bounded.free_lt was
    refine ⟨Or.inr was, Pmm.free_aligned was, below, ?_, fun free => ?_⟩
    · rw [limit, takes.limit]
      exact inside
    · rcases freed frame free with still | old
      · exact ((takes.free frame).mp still).2 mem
      · exact (ledger.held _ frame old).2.2.2 was
  · intro frame free
    rcases freed frame free with still | old
    · exact Or.inl ((takes.free frame).mp still).1
    · exact Or.inr old

theorem Ledger.truncate {sys : System} (ledger : Ledger pool sys) {id newSize : Nat}
    {machine : Machine} {table : Shm.Table} {done : Bool}
    (ran : Shm.truncate sys.shm id newSize sys.machine = (.ok (done, table), machine)) :
    Ledger pool { sys with machine, shm := table } := by
  unfold Shm.truncate at ran
  cases found : sys.shm.lookup id with
  | none =>
      rw [found] at ran
      cases ran
      exact ledger
  | some obj =>
      obtain ⟨oldAligned, counted⟩ := ledger.objects id obj found
      rw [found] at ran
      dsimp only at ran
      split at ran
      · cases ran
        exact ledger.put_object found rfl rfl counted
      split at ran
      · cases ran
        exact ledger.put_object found rfl rfl counted
      obtain ⟨allocation, machine₁, given, rest⟩ := bind_eq_ok ran
      rcases allocContiguous_takes given with ⟨rfl, rfl⟩ | ⟨newPhys, rfl, -, aligned, takes⟩
      · cases rest
        exact ledger
      obtain ⟨_, machine₂, zeroed, rest⟩ := bind_eq_ok rest
      have filled := (quiet_zeroBytes _ _).of_run zeroed
      split at rest
      · obtain ⟨_, machine₃, moved, rest⟩ := bind_eq_ok rest
        obtain ⟨_, machine₄, freed, rest⟩ := bind_eq_ok rest
        cases rest
        obtain ⟨samePmm, -⟩ := filled.trans ((quiet_moveBytes _ _ _).of_run moved)
        obtain ⟨-, -, limit, free⟩ := freeFrames_free oldAligned freed
        refine ledger.move_object { obj with phys := newPhys, pages := _, size := newSize } found rfl rfl
          counted aligned takes (by rw [limit, samePmm]) ?_
        intro frame isFree
        rw [holdings_object found]
        rcases (free frame).mp isFree with was | ⟨inRun, -, -⟩
        · rw [samePmm] at was
          exact Or.inl was
        · exact Or.inr inRun
      · cases rest
        refine ledger.move_object { obj with phys := newPhys, pages := _, size := newSize } found rfl rfl
          counted aligned takes (by rw [filled.1]) ?_
        intro frame isFree
        rw [filled.1] at isFree
        exact Or.inl isFree

theorem Ledger.socketClose (ledger : Ledger pool sys) {sockets : Socket.State}
    (ran : Socket.close sys.sockets sys.shm id sys.machine =
      (.ok (sockets, table), machine)) :
    Ledger pool { sys with machine, shm := table } := by
  obtain ⟨middle, machine₁, closed, rest⟩ := bind_eq_ok ran
  cases rest
  exact ledger.closeAll closed

theorem Ledger.socketSend (ledger : Ledger pool sys) {bytes : List (BitVec 8)}
    {sent : Option Nat} {sockets : Socket.State}
    (ran : Socket.send sys.sockets sys.shm id bytes ids sys.machine =
      (.ok (sent, sockets, table), machine)) :
    Ledger pool { sys with machine, shm := table } := by
  unfold Socket.send at ran
  cases peer : Socket.peerOf sys.sockets id with
  | none =>
      rw [peer] at ran
      cases ran
      exact ledger
  | some peerId =>
      simp only [peer] at ran
      cases endpoint : Socket.lookup sys.sockets peerId with
      | none =>
          simp only [endpoint] at ran
          obtain ⟨middle, machine₁, closed, rest⟩ := bind_eq_ok ran
          cases rest
          exact (ledger.dupAll ids).closeAll closed
      | some peer =>
          simp only [endpoint] at ran
          cases ran
          exact ledger.dupAll ids

theorem Ledger.of_eq (ledger : Ledger pool sys) (machine : after.machine = sys.machine)
    (shm : after.shm = sys.shm) (tasks : after.tasks = sys.tasks) : Ledger pool after :=
  ledger.of_same (by rw [machine]) shm (SameBooks.of_tasks tasks)

theorem maintains_dropFd (entry : FdEntry) : Maintains (Ledger pool) (dropFd entry) := by
  intro sys value after ledger ran
  cases dropFd_dropped ran with
  | file => exact ledger
  | shm closed => exact ledger.close closed
  | socket closed => exact (ledger.socketClose closed).of_eq rfl rfl rfl

theorem maintains_dropFds (fds : List (Option FdEntry)) : Maintains (Ledger pool) (dropFds fds) := by
  induction fds with
  | nil => exact maintains_pure ()
  | cons slot rest ih =>
      cases slot with
      | none => exact ih
      | some entry => exact maintains_bind (maintains_dropFd entry) (fun _ => ih)

theorem sameBooks_openFd {entry : FdEntry} (ran : openFd entry sys = (.ok value, after)) :
    SameBooks sys after ∧ after.shm = sys.shm ∧ after.machine = sys.machine := by
  cases ran
  dsimp only
  cases found : sys.currentProcess with
  | none => exact ⟨SameBooks.of_tasks rfl, rfl, rfl⟩
  | some current =>
      obtain ⟨cr3, proc⟩ := current
      exact ⟨sameBooks_setCurrentProcess found rfl rfl, rfl, rfl⟩

theorem SameBooks.trans {first second third : System} (left : SameBooks first second)
    (right : SameBooks second third) : SameBooks first third := by
  intro index proc'' found
  obtain ⟨proc', was, frames', mappings'⟩ := right index proc'' found
  obtain ⟨proc, before, frames, mappings⟩ := left index proc' was
  exact ⟨proc, before, frames'.trans frames, mappings'.trans mappings⟩

theorem sameBooks_openShmFds (ran : openShmFds ids sys = (.ok value, after)) :
    SameBooks sys after ∧ after.shm = sys.shm ∧ after.machine = sys.machine := by
  induction ids generalizing sys with
  | nil =>
      cases ran
      exact ⟨SameBooks.of_tasks rfl, rfl, rfl⟩
  | cons id rest ih =>
      obtain ⟨_, middle, opened, ran⟩ := bind_eq_ok ran
      obtain ⟨books, shm, machine⟩ := sameBooks_openFd opened
      obtain ⟨laterBooks, laterShm, laterMachine⟩ := ih ran
      exact ⟨books.trans laterBooks, laterShm.trans shm, laterMachine.trans machine⟩

theorem sameBooks_markCurrentExited {info : ExitInfo}
    (ran : markCurrentExited info sys = (.ok value, after)) :
    SameBooks sys after ∧ after.shm = sys.shm ∧ after.machine = sys.machine := by
  cases ran
  dsimp only
  cases found : sys.currentProcess with
  | none => exact ⟨SameBooks.of_tasks rfl, rfl, rfl⟩
  | some current =>
      obtain ⟨cr3, proc⟩ := current
      refine ⟨sameBooks_setCurrentProcess found ?_ ?_, rfl, rfl⟩ <;>
      · unfold Process.markExited
        split <;> rfl

theorem Ledger.of_books (ledger : Ledger pool sys)
    (same : SameBooks sys after ∧ after.shm = sys.shm ∧ after.machine = sys.machine) :
    Ledger pool after := by
  obtain ⟨books, shm, machine⟩ := same
  exact ledger.of_same (by rw [machine]) shm books

/-! ### Creating and removing processes -/

theorem freeProcess_free {frames : List Nat} {machine' : Machine}
    (ran : freeProcess frames machine = (.ok value, machine')) :
    machine'.mem = machine.mem ∧ machine'.cr3 = machine.cr3 ∧
      machine'.pmm.lastUsableFrame = machine.pmm.lastUsableFrame ∧
      ∀ frame, machine'.pmm.Free frame → machine.pmm.Free frame ∨ frame ∈ frames := by
  induction frames generalizing machine with
  | nil =>
      cases ran
      exact ⟨rfl, rfl, rfl, fun _ => Or.inl⟩
  | cons first rest ih =>
      obtain ⟨_, machine₁, freed, ran⟩ := bind_eq_ok ran
      cases freed
      obtain ⟨sameMem, sameCr3, limit, free⟩ := ih ran
      refine ⟨sameMem, sameCr3, by simpa using limit, ?_⟩
      intro frame isFree
      rcases free frame isFree with was | mem
      · by_cases accepted : first % 4096 = 0 ∧ first < Pmm.maxPhysMem
        · rcases (Pmm.free_frameFree accepted.1 accepted.2 frame).mp was with before | ⟨rfl, -⟩
          · exact Or.inl before
          · exact Or.inr (List.mem_cons_self ..)
        · have refused : machine.pmm.frameFree first = machine.pmm := by
            unfold Pmm.frameFree Pmm.frameSize
            rw [if_pos (by omega)]
          simp only [refused] at was
          exact Or.inl was
      · exact Or.inr (List.mem_cons_of_mem _ mem)

theorem Ledger.release (ledger : Ledger pool sys) {frames : List Nat}
    (limit : machine.pmm.lastUsableFrame = sys.machine.pmm.lastUsableFrame)
    (nobody : ∀ frame, frame ∈ frames → ∀ holder, frame ∉ sys.holdings holder)
    (pooled : ∀ frame, frame ∈ frames → pool frame)
    (freed : ∀ frame, machine.pmm.Free frame → sys.machine.pmm.Free frame ∨ frame ∈ frames) :
    Ledger pool { sys with machine } := by
  have exclusive : Holdings (fun holder frame => frame ∈ sys.holdings holder)
      machine.pmm.Free := by
    refine ledger.exclusive.rename Function.injective_id (fun _ _ mem => mem) ?_
    intro frame free
    rcases freed frame free with was | mem
    · exact Or.inl was
    · exact Or.inr (nobody frame mem)
  refine ⟨?_, ?_, ledger.objects, ?_, exclusive, ?_, ledger.heldPool⟩
  · unfold Pmm.Bounded
    rw [limit]
    exact ledger.bounded
  · intro index proc placed
    have found : sys.processAt index = some proc := placed
    refine (ledger.owned index proc found).of_free limit (fun frame free => ?_)
    rcases freed frame free with was | mem
    · exact Or.inl was
    · have notHeld := nobody frame mem (.process index)
      rw [holdings_process found] at notHeld
      exact Or.inr notHeld
  · intro holder frame mem
    obtain ⟨aligned, below, inside, -⟩ := ledger.held holder frame mem
    exact ⟨aligned, below, by rw [limit]; exact inside, exclusive.inUse holder frame mem⟩
  · intro frame free
    rcases freed frame free with was | mem
    · exact ledger.freePool frame was
    · exact pooled frame mem

theorem owned_newProcess (pmm : Pmm) (entry heapStart : Nat) (abi : Abi) :
    OwnedBy pmm (newProcess entry heapStart abi) :=
  ⟨List.nodup_nil, by simp [newProcess], by simp [newProcess], by simp [newProcess],
    List.Pairwise.nil⟩

theorem Ledger.launch (ledger : Ledger pool sys) {entry heapStart : Nat} {abi : Abi}
    {loader : Loader Nat} {recorded : List Mapping → Prop}
    (records : Loader.Records recorded loader) {result : Except String Nat}
    (ran : System.launch (newProcess entry heapStart abi) loader sys = (.ok result, after)) :
    Ledger pool after := by
  unfold System.launch at ran
  rcases outcome : loader (sys.machine, newProcess entry heapStart abi) with
    ⟨stop | pml4, machine, built⟩
  · cases stop with
    | fault fault =>
        rw [outcome] at ran
        cases ran
    | refused message =>
        obtain ⟨added, ⟨⟨taken, grown⟩, -⟩, -, -⟩ := records _ _ _ outcome (by
          intro stop same
          cases same
          rintro ⟨fault, never⟩
          cases never)
        rw [outcome] at ran
        dsimp only at ran
        rcases freeing : freeProcess built.frames machine with ⟨fault | value, machine'⟩
        · rw [freeing] at ran
          cases ran
        · rw [freeing] at ran
          cases ran
          obtain ⟨-, -, limit, free⟩ := freeProcess_free freeing
          have taken_eq : built.frames = taken := by
            rw [grown.frames]
            rfl
          have back : ∀ frame, machine'.pmm.Free frame →
              sys.machine.pmm.Free frame ∨ frame ∈ ([] : List Nat) := by
            intro frame isFree
            rcases free frame isFree with was | mem
            · exact Or.inl ((grown.takes.free frame).mp was).1
            · rw [taken_eq] at mem
              exact Or.inl (grown.takes.wasFree frame mem)
          exact ledger.release (limit.trans grown.takes.limit) (by simp) (by simp) back
  · obtain ⟨added, ⟨⟨taken, grown⟩, -⟩, -, -⟩ := records _ _ _ outcome (by simp)
    rw [outcome] at ran
    cases ran
    obtain ⟨owned, transfer⟩ :=
      (owned_newProcess sys.machine.pmm entry heapStart abi).grow ledger.bounded grown
    have places := processAt_append sys machine pml4 built
    have mine := holdings_process ((places sys.tasks.length).trans (if_pos rfl))
    refine ledger.exchange (.process sys.tasks.length) transfer.limit ?_ ?_ ?_ ?_ ?_
      (fun id obj => ledger.objects id obj)
    · intro other frame different mem
      cases other with
      | object id => exact mem
      | process index =>
          have elsewhere : index ≠ sys.tasks.length := fun same => different (by rw [same])
          simp only [holdings, places, if_neg elsewhere] at mem ⊢
          exact mem
    · intro frame mem
      rw [mine] at mem
      rcases transfer.came frame mem with never | free
      · simp [newProcess] at never
      · exact Or.inr free
    · intro frame free
      rcases transfer.freed frame free with was | never
      · exact Or.inl was
      · simp [newProcess] at never
    · intro frame mem
      rw [mine] at mem
      exact owned.held frame mem
    · intro index other placed
      rw [places] at placed
      split at placed
      · rename_i same
        cases placed
        rw [same]
        exact Or.inl ⟨rfl, owned⟩
      · rename_i different
        refine Or.inr ⟨fun same => different ?_, other, placed, rfl, rfl⟩
        cases same
        rfl

variable {pid : Nat}

theorem getElem?_swapRemove {tasks : List Task} (inside : pid < tasks.length) (index : Nat) :
    (swapRemove tasks pid)[index]? =
      if index < tasks.length - 1 then
        (if index = pid then tasks[tasks.length - 1]? else tasks[index]?)
      else none := by
  have nonempty : tasks ≠ [] := by
    rintro rfl
    simp at inside
  have last : tasks.getLast? = some (tasks.getLast nonempty) := List.getLast?_eq_some_getLast nonempty
  have lastAt : tasks[tasks.length - 1]? = some (tasks.getLast nonempty) := by
    rw [← last, List.getLast?_eq_getElem?]
  unfold swapRemove
  rw [last, lastAt]
  dsimp only
  rw [List.getElem?_dropLast, List.length_set]
  split
  · by_cases same : index = pid
    · subst same
      simp [inside]
    · rw [if_neg same, List.getElem?_set_ne (fun equal => same equal.symm)]
  · rfl

theorem processAt_swapRemove {index : Nat} (inside : pid < sys.tasks.length)
    (tasks : after.tasks = swapRemove sys.tasks pid)
    (found : after.processAt index = some proc) :
    index < sys.tasks.length - 1 ∧
      sys.processAt (if index = pid then sys.tasks.length - 1 else index) = some proc := by
  unfold processAt at found ⊢
  rw [tasks, getElem?_swapRemove inside] at found
  split at found
  · rename_i below
    refine ⟨below, ?_⟩
    by_cases same : index = pid
    · simpa [same] using found
    · simpa [same] using found
  · cases found

section

variable (ledger : Ledger pool sys)
include ledger

theorem Ledger.remove (removed : Removed sys pid after) :
    Ledger pool after ∧ ∀ frame, frame ∈ sys.holdings (.process pid) →
      ∀ holder, frame ∉ after.holdings holder := by
  have inside := removed.inside
  have machine := removed.machine
  have moved : ∀ holder frame, frame ∈ after.holdings holder →
      frame ∈ sys.holdings
        (Equiv.swap (Holder.process pid) (.process (sys.tasks.length - 1)) holder) ∧
      Equiv.swap (Holder.process pid) (.process (sys.tasks.length - 1)) holder ≠
        .process pid := by
    intro holder frame mem
    cases holder with
    | object id =>
        rw [Equiv.swap_apply_of_ne_of_ne (by simp) (by simp)]
        simp only [holdings, removed.shm] at mem ⊢
        exact ⟨mem, by simp⟩
    | process index =>
        cases found : after.processAt index with
        | none => simp [holdings, found] at mem
        | some proc =>
            obtain ⟨below, was⟩ := processAt_swapRemove inside removed.tasks found
            rw [holdings_process found] at mem
            by_cases same : index = pid
            · rw [if_pos same] at was
              rw [same, Equiv.swap_apply_left, holdings_process was]
              refine ⟨mem, fun equal => ?_⟩
              cases equal
              omega
            · rw [if_neg same] at was
              have notLast : index ≠ sys.tasks.length - 1 := by omega
              rw [Equiv.swap_apply_of_ne_of_ne (by simp [same]) (by simp [notLast]),
                holdings_process was]
              exact ⟨mem, by simp [same]⟩
  have exclusive : Holdings (fun holder frame => frame ∈ after.holdings holder)
      after.machine.pmm.Free := by
    rw [machine]
    exact ledger.exclusive.rename (Equiv.injective _)
      (fun holder frame mem => (moved holder frame mem).1) (fun _ free => Or.inl free)
  refine ⟨⟨by rw [machine]; exact ledger.bounded, ?_, by rw [removed.shm]; exact ledger.objects, ?_,
    exclusive, by rw [machine]; exact ledger.freePool,
    fun holder frame mem => ledger.heldPool _ frame (moved holder frame mem).1⟩, ?_⟩
  · intro index proc found
    rw [machine]
    exact ledger.owned _ proc (processAt_swapRemove inside removed.tasks found).2
  · intro holder frame mem
    rw [machine]
    exact ledger.held _ frame (moved holder frame mem).1
  · intro frame mine holder mem
    obtain ⟨elsewhere, different⟩ := moved holder frame mem
    exact different (ledger.exclusive.alone _ _ frame elsewhere mine)

theorem Ledger.reap (ran : System.reap pid sys = (.ok value, after)) : Ledger pool after := by
  rcases reap_cases ran with rfl | ⟨middle, removed, outcome⟩
  · exact ledger
  obtain ⟨ledgerMiddle, nobody⟩ := ledger.remove removed
  rcases outcome with ⟨-, rfl⟩ | ⟨proc, machine, freed, found, freeing, ran⟩
  · exact ledgerMiddle
  · obtain ⟨-, -, limit, free⟩ := freeProcess_free freeing
    have pooled := ledger.heldPool (.process pid)
    rw [holdings_process found] at nobody pooled
    exact maintains_dropFds proc.fds _ _ _ (ledgerMiddle.release limit nobody pooled free) ran

theorem Ledger.compositor {act : CompositorAct}
    (ran : System.compositor act sys = (.ok value, after)) : Ledger pool after := by
  cases act with
  | send id bytes =>
      obtain ⟨sent, sockets, table, machine, delivered, rfl⟩ := compositor_send ran
      exact (ledger.socketSend delivered).of_eq rfl rfl rfl
  | release id =>
      rcases compositor_release ran with rfl | ⟨-, table, machine, closed, rfl⟩
      · exact ledger
      · exact (ledger.close closed).of_eq rfl rfl rfl
  | close id =>
      obtain ⟨sockets, table, machine, closed, rfl⟩ := compositor_close ran
      exact (ledger.socketClose closed).of_eq rfl rfl rfl
  | _ =>
      cases ran
      exact ledger.of_eq rfl rfl rfl

theorem Ledger.schedulerTick : Ledger pool sys.schedulerTick := by
  unfold System.schedulerTick
  split
  · exact ledger
  · split
    · exact ledger
    · exact ledger.of_same rfl rfl (SameBooks.of_tasks rfl)

theorem Ledger.performed (performed : Performed sys event after) : Ledger pool after := by
  cases performed with
  | nothing => exact ledger
  | ticked => exact ledger.schedulerTick
  | launched _ launches ran =>
      obtain ⟨⟨entry, heapStart, abi, rfl⟩, recorded, records⟩ := launches.records
      exact ledger.launch records ran
  | reaped _ ran => exact ledger.reap ran
  | acted acted => exact ledger.acted acted
  | killed first ran =>
      refine Ledger.of_books ?_ (sameBooks_markCurrentExited ran)
      rcases first with rfl | acted
      · exact ledger
      · exact ledger.acted acted
  | exited ran => exact ledger.of_books (sameBooks_markCurrentExited ran)
  | openedFile ran => exact ledger.of_books (sameBooks_openFd ran)
  | createdMemory ran => exact ledger.create.of_books (sameBooks_openFd ran)
  | createdSocket ran =>
      refine Ledger.of_books ?_ (sameBooks_openFd ran)
      exact ledger.of_eq rfl rfl rfl
  | truncated _ _ ran => exact ledger.truncate ran
  | closed calling _ _ ran =>
      refine maintains_dropFd _ _ _ _ ?_ ran
      exact ledger.of_same rfl rfl (sameBooks_setCurrentProcess calling rfl rfl)
  | connected => exact ledger.of_eq rfl rfl rfl
  | sent _ ran => exact (ledger.socketSend ran).of_eq rfl rfl rfl
  | received _ _ _ opening dropping =>
      refine Ledger.closeAll (Ledger.of_books ?_ (sameBooks_openShmFds opening)) dropping
      exact ledger.of_eq rfl rfl rfl
  | composited _ ran => exact ledger.compositor ran

theorem Ledger.step (stepped : System.step sys event = some after) : Ledger pool after :=
  ledger.performed (step_performed stepped)

end

end System

theorem Pmm.bounded_init (regions : List Pmm.MemoryRegion) (kernelStart kernelEnd : Nat) :
    (Pmm.init regions kernelStart kernelEnd).Bounded := by
  have scanned : ∀ pmm : Pmm, pmm.Bounded → (regions.foldl Pmm.initRegion pmm).Bounded := by
    induction regions with
    | nil => exact fun pmm bounded => bounded
    | cons region rest ih =>
        intro pmm bounded
        refine ih _ ?_
        have limit : pmm.lastUsableFrame < 65536 := bounded
        have count : Pmm.frameCount = 65536 := rfl
        have top : Pmm.maxPhysMem = 268435456 := rfl
        have size : Pmm.frameSize = 4096 := rfl
        unfold Pmm.initRegion Pmm.Bounded
        rw [count]
        split
        · exact limit
        split
        · exact limit
        dsimp only
        rw [top, size]
        split <;> omega
  have reserved : ∀ (pmm : Pmm) (base len : Nat), pmm.Bounded → (pmm.markReserved base len).Bounded := by
    intro pmm base len bounded
    unfold Pmm.markReserved Pmm.Bounded
    split
    · exact bounded
    · rw [Pmm.setFrames_lastUsableFrame]
      exact bounded
  exact reserved _ _ _ (reserved _ _ _ (scanned _ (show 0 < Pmm.frameCount by decide)))

theorem Pmm.Held.frameIsFree {pmm : Pmm} {frame : Nat} (held : pmm.Held frame) :
    pmm.frameIsFree (frame / 4096) = false := by
  obtain ⟨aligned, -, inside, inUse⟩ := held
  cases bit : pmm.frameIsFree (frame / 4096) with
  | false => rfl
  | true =>
      have size : Pmm.frameSize = 4096 := rfl
      exact absurd ⟨frame / 4096, by rw [size]; omega, inside, bit⟩ inUse

namespace Boot

variable {sys : System} {boot : Boot}

theorem withHeap_cases {allocation : Option Nat × Pmm}
    (started : boot.withHeap allocation = some sys) :
    ∃ heapStart pmm, allocation = (some heapStart, pmm) ∧
      sys = boot.firstSystem boot.bootTables heapStart pmm := by
  obtain ⟨_ | heapStart, pmm⟩ := allocation
  · cases started
  · exact ⟨heapStart, pmm, rfl, (Option.some.inj started).symm⟩

theorem start_cases (started : boot.start = some sys) :
    ∃ heapStart pmm, boot.initialPmm.allocContiguous (heapSize / Pmm.frameSize) =
        (some heapStart, pmm) ∧ sys = boot.firstSystem boot.bootTables heapStart pmm :=
  withHeap_cases started

theorem processAt_start (started : boot.start = some sys) (index : Nat) :
    sys.processAt index = none := by
  obtain ⟨heapStart, pmm, -, rfl⟩ := start_cases started
  simp only [System.processAt, firstSystem, List.getElem?_replicate]
  split <;> rfl

theorem ledger_start (started : boot.start = some sys) : sys.Ledger boot.initialPmm.Free := by
  have noProcess := processAt_start started
  obtain ⟨heapStart, pmm, given, rfl⟩ := start_cases started
  have shm : (boot.firstSystem boot.bootTables heapStart pmm).shm = [] := rfl
  have nothing : ∀ holder frame,
      frame ∉ (boot.firstSystem boot.bootTables heapStart pmm).holdings holder := by
    intro holder frame mem
    cases holder with
    | process index => simp [System.holdings, noProcess] at mem
    | object id => simp [System.holdings, shm] at mem
  obtain ⟨-, -, limit, -⟩ := Pmm.allocContiguous_some given
  refine ⟨?_, ?_, ?_, ?_, ?_, ?_, ?_⟩
  · have first : pmm.Bounded := by
      unfold Pmm.Bounded
      rw [limit]
      exact Pmm.bounded_init _ _ _
    exact first
  · intro index proc found
    rw [noProcess] at found
    cases found
  · intro id obj found
    rw [shm] at found
    simp at found
  · exact fun holder frame mem => absurd mem (nothing holder frame)
  · exact ⟨fun holder other frame mem => absurd mem (nothing holder frame),
      fun holder frame mem => absurd mem (nothing holder frame)⟩
  · exact fun frame free => ((Pmm.free_allocContiguous given frame).mp free).1
  · exact fun holder frame mem => absurd mem (nothing holder frame)

theorem ledger_run {events : List System.Event} (ran : boot.run events = some sys) :
    sys.Ledger boot.initialPmm.Free :=
  run_invariant (System.Ledger boot.initialPmm.Free) (fun _ => ledger_start)
    (fun _ _ _ ledger _ stepped => ledger.step stepped)
    (fun sys _ => Runs.Meets.of_forall (fun _ _ => trivial) sys events) ran

end Boot
end MachaOS
