/-
Who refers to a shared-memory object.

A reference is a descriptor in some process, an id that waits on a socket, or one
the compositor has received.  A kernel routine may have references in hand while
it moves them: `Owes` counts those as well, and a routine that returns has none.
So an object's counter is always the number of references to it, and a slot of
the table is free exactly when nothing refers to it.
-/

import MachaOS.Launching
import MachaOS.SharedMemory
import MachaOS.Tasks

namespace MachaOS

open List Slots Socket
open Fallible Machine Paging

/-! ### The counters -/

namespace Shm

def refcountOf (table : Table) (id : Nat) : Nat :=
  ((table.lookup id).map SharedMem.refcount).getD 0

def Live (table : Table) : Prop :=
  ∀ id obj, table.lookup id = some obj → 0 < obj.refcount

section Counters

variable {table : Table} {id : Nat} {obj : SharedMem}

theorem refcountOf_of_lookup (found : table.lookup id = some obj) :
    refcountOf table id = obj.refcount := by
  rw [refcountOf, found]
  rfl

theorem refcountOf_of_none (free : table.lookup id = none) : refcountOf table id = 0 := by
  rw [refcountOf, free]
  rfl

theorem refcountOf_put (found : table.lookup id = some obj) (obj' : SharedMem) (other : Nat) :
    refcountOf (table.put id obj') other =
      if other = id then obj'.refcount else refcountOf table other := by
  unfold refcountOf
  rw [lookup_put _ found]
  split
  · rfl
  · rfl

theorem Live.put (live : Live table) (found : table.lookup id = some obj) {obj' : SharedMem}
    (positive : 0 < obj'.refcount) : Live (table.put id obj') := by
  intro other obj'' isThere
  rw [lookup_put _ found] at isThere
  split at isThere
  · cases isThere
    exact positive
  · exact live other obj'' isThere

theorem create_counts (live : Live table) : Live (create table).1 ∧
    ∀ other, refcountOf (create table).1 other =
      refcountOf table other + if other = (create table).2 then 1 else 0 := by
  constructor
  · intro other obj found
    unfold create at found
    rw [lookup_insert] at found
    split at found
    · cases found
      exact Nat.zero_lt_one
    · exact live other obj found
  · intro other
    by_cases same : other = (create table).2
    · have free : refcountOf table other = 0 := by
        rw [same]
        exact refcountOf_of_none (lookup_insert_fresh _ table)
      have here : (create table).1.lookup other =
          some { phys := 0, pages := 0, size := 0, refcount := 1 } :=
        (lookup_insert _ table other).trans (if_pos same)
      rw [refcountOf_of_lookup here, free, if_pos same]
    · have there : (create table).1.lookup other = table.lookup other :=
        (lookup_insert _ table other).trans (if_neg same)
      rw [refcountOf, there, if_neg same]
      rfl

theorem dup_counts (live : Live table) (isThere : 0 < refcountOf table id) : Live (dup table id) ∧
    ∀ other, refcountOf (dup table id) other =
      refcountOf table other + if other = id then 1 else 0 := by
  unfold dup
  cases found : table.lookup id with
  | none =>
      rw [refcountOf_of_none found] at isThere
      cases isThere
  | some obj =>
      refine ⟨live.put found (Nat.succ_pos _), fun other => ?_⟩
      dsimp only
      rw [refcountOf_put found]
      split
      · rename_i same
        rw [same, refcountOf_of_lookup found]
      · rfl

theorem close_counts {table' : Table} {machine machine' : Machine} (live : Live table)
    (ran : close table id machine = (.ok table', machine')) : Live table' ∧
      ∀ other, refcountOf table' other = refcountOf table other - if other = id then 1 else 0 := by
  unfold close at ran
  cases found : table.lookup id with
  | none =>
      rw [found] at ran
      cases ran
      refine ⟨live, fun other => ?_⟩
      split
      · rename_i same
        rw [same, refcountOf_of_none found]
      · rfl
  | some obj =>
      rw [found] at ran
      dsimp only at ran
      have positive := live id obj found
      split at ran
      · rename_i isLast
        obtain ⟨_, machine₁, freed, rest⟩ := bind_eq_ok ran
        cases rest
        constructor
        · intro other obj' isThere
          rw [lookup_clear] at isThere
          split at isThere
          · cases isThere
          · exact live other obj' isThere
        · intro other
          unfold refcountOf
          rw [lookup_clear]
          split
          · rename_i same
            rw [same, found]
            exact isLast.symm
          · rfl
      · rename_i isLeft
        cases ran
        refine ⟨live.put found (Nat.pos_of_ne_zero isLeft), fun other => ?_⟩
        rw [refcountOf_put found]
        split
        · rename_i same
          rw [same, refcountOf_of_lookup found]
        · rfl

theorem truncate_counts {table' : Table} {newSize : Nat} {done : Bool}
    {machine machine' : Machine} (live : Live table)
    (ran : truncate table id newSize machine = (.ok (done, table'), machine')) :
    Live table' ∧ refcountOf table' = refcountOf table := by
  have same : ∀ obj obj' : SharedMem, table.lookup id = some obj → obj'.refcount = obj.refcount →
      Live (table.put id obj') ∧ refcountOf (table.put id obj') = refcountOf table := by
    intro obj obj' found counter
    refine ⟨live.put found (counter ▸ live id obj found), ?_⟩
    funext other
    rw [refcountOf_put found]
    split
    · rename_i isId
      rw [isId, refcountOf_of_lookup found, counter]
    · rfl
  unfold truncate at ran
  cases found : table.lookup id with
  | none =>
      rw [found] at ran
      cases ran
      exact ⟨live, rfl⟩
  | some obj =>
      rw [found] at ran
      dsimp only at ran
      split at ran
      · cases ran
        exact same obj { obj with size := newSize } found rfl
      split at ran
      · cases ran
        exact same obj { obj with size := newSize } found rfl
      obtain ⟨allocation, machine₁, given, rest⟩ := bind_eq_ok ran
      cases allocation with
      | none =>
          cases rest
          exact ⟨live, rfl⟩
      | some newPhys =>
          obtain ⟨_, machine₂, zeroed, rest⟩ := bind_eq_ok rest
          split at rest
          · obtain ⟨_, machine₃, moved, rest⟩ := bind_eq_ok rest
            obtain ⟨_, machine₄, freed, rest⟩ := bind_eq_ok rest
            cases rest
            exact same obj _ found rfl
          · cases rest
            exact same obj _ found rfl

end Counters

end Shm

namespace Socket

theorem dupAll_counts {table : Shm.Table} (live : Shm.Live table) {ids : List Nat}
    (there : ∀ id, id ∈ ids → 0 < Shm.refcountOf table id) :
    Shm.Live (ids.foldl Shm.dup table) ∧
      ∀ other, Shm.refcountOf (ids.foldl Shm.dup table) other =
        Shm.refcountOf table other + ids.count other := by
  induction ids generalizing table with
  | nil => exact ⟨live, fun other => rfl⟩
  | cons id rest ih =>
      obtain ⟨liveOnce, once⟩ := Shm.dup_counts live (there id mem_cons_self)
      obtain ⟨liveAll, all⟩ := ih liveOnce (fun other mem => by
        rw [once]
        exact Nat.lt_of_lt_of_le (there other (mem_cons_of_mem _ mem)) (Nat.le_add_right _ _))
      refine ⟨liveAll, fun other => ?_⟩
      rw [foldl_cons, all, once, count_cons, Nat.add_assoc]
      by_cases same : other = id
      · simp [same, Nat.add_comm]
      · have different : ¬ id = other := fun equal => same equal.symm
        simp [same, different]

theorem closeAll_counts {table table' : Shm.Table} {ids : List Nat} {machine machine' : Machine}
    (live : Shm.Live table) (ran : closeAll table ids machine = (.ok table', machine')) :
    Shm.Live table' ∧
      ∀ other, Shm.refcountOf table' other = Shm.refcountOf table other - ids.count other := by
  induction ids generalizing table machine with
  | nil =>
      cases ran
      exact ⟨live, fun other => rfl⟩
  | cons id rest ih =>
      obtain ⟨middle, machine₁, closed, ran⟩ := bind_eq_ok ran
      obtain ⟨liveOnce, once⟩ := Shm.close_counts live closed
      obtain ⟨liveAll, all⟩ := ih liveOnce ran
      refine ⟨liveAll, fun other => ?_⟩
      rw [all, once, count_cons, Nat.sub_sub, Nat.add_comm]
      by_cases same : other = id
      · simp [same]
      · have different : ¬ id = other := fun equal => same equal.symm
        simp [same, different]

def waiting (state : State) (id : Nat) : Nat :=
  Slots.total (fun endpoint => endpoint.inboxFds.count id) state.endpoints

section Waiting

variable {state : State} {id : Nat} {endpoint old : Endpoint}

theorem waiting_setEndpoint (present : lookup state id = some old) (object : Nat) :
    waiting (setEndpoint state id endpoint) object + old.inboxFds.count object =
      waiting state object + endpoint.inboxFds.count object :=
  total_put _ present endpoint

theorem waiting_setEndpoint_same (present : lookup state id = some old)
    (same : endpoint.inboxFds = old.inboxFds) (object : Nat) :
    waiting (setEndpoint state id endpoint) object = waiting state object := by
  have whole := @waiting_setEndpoint state id endpoint old present object
  rw [same] at whole
  omega

theorem waiting_allocEndpoint (object : Nat) :
    waiting (allocEndpoint state endpoint).1 object =
      waiting state object + endpoint.inboxFds.count object :=
  total_insert _ endpoint state.endpoints

theorem waiting_withoutEndpoint (object : Nat) :
    waiting (withoutEndpoint state id) object + (pendingFds state id).count object =
      waiting state object := by
  unfold pendingFds
  cases found : lookup state id with
  | none =>
      have same : (withoutEndpoint state id).endpoints = state.endpoints :=
        clear_of_free found
      unfold waiting
      rw [same]
      rfl
  | some endpoint => exact total_clear _ found

theorem waiting_create (object : Nat) : waiting (create state).1 object = waiting state object :=
  waiting_allocEndpoint object

theorem waiting_bind (path : String) (object : Nat) :
    waiting (bind state id path).2 object = waiting state object := by
  unfold bind
  split
  · rfl
  · cases found : lookup state id with
    | none => rfl
    | some endpoint =>
        dsimp only
        split
        · exact waiting_setEndpoint_same found (by rfl) object
        · rfl

theorem waiting_listen (object : Nat) :
    waiting (listen state id).2 object = waiting state object := by
  unfold listen
  cases found : lookup state id with
  | none => rfl
  | some endpoint =>
      dsimp only
      split
      · exact waiting_setEndpoint_same found (by rfl) object
      · rfl

theorem waiting_accept (object : Nat) :
    waiting (accept state id).2 object = waiting state object := by
  unfold accept
  cases found : lookup state id with
  | none => rfl
  | some endpoint =>
      dsimp only
      split
      · rfl
      · exact waiting_setEndpoint_same found (by rfl) object

theorem waiting_connect (path : String) (object : Nat) :
    waiting (connect state id path).2 object = waiting state object := by
  unfold connect
  split
  · rfl
  · dsimp only
    have paired : waiting (allocEndpoint state { Endpoint.new with role := .connected id }).1 object =
        waiting state object := waiting_allocEndpoint object
    split
    · exact paired
    · rename_i listener found
      have queued := (@waiting_setEndpoint_same _ _ { listener with
        backlog := listener.backlog ++
          [(allocEndpoint state { Endpoint.new with role := .connected id }).2] } _
        found rfl object).trans paired
      split
      · exact queued
      · rename_i client isThere
        exact (waiting_setEndpoint_same isThere (by rfl) object).trans queued

theorem waiting_recv (len object : Nat) :
    waiting (recv state id len).2 object + (recv state id len).1.2.count object =
      waiting state object := by
  unfold recv
  cases found : lookup state id with
  | none => rfl
  | some endpoint =>
      exact @waiting_setEndpoint _ _ { endpoint with
        inbox := endpoint.inbox.drop len, inboxFds := [] } _ found object

end Waiting

end Socket

/-! ### The references of the whole system -/

def FdEntry.refers (object : Nat) : FdEntry → Nat
  | .shm id _ => if id = object then 1 else 0
  | _ => 0

@[simp] theorem FdEntry.refers_file (object : Nat) : FdEntry.file.refers object = 0 := rfl

@[simp] theorem FdEntry.refers_socket (object id : Nat) :
    (FdEntry.socket id).refers object = 0 := rfl

theorem FdEntry.refers_shm (object id cursor : Nat) :
    (FdEntry.shm id cursor).refers object = [id].count object := by
  rw [refers, count_singleton]
  simp only [beq_iff_eq]

def Process.refers (proc : Process) (object : Nat) : Nat :=
  Slots.total (FdEntry.refers object) proc.fds

def Task.refers (object : Nat) (task : Task) : Nat :=
  (task.process.map (fun proc => proc.refers object)).getD 0

theorem sum_map_modify {α : Type} (weight : α → Nat) {items : List α} {index : Nat} {item : α}
    (found : items[index]? = some item) (change : α → α) :
    ((items.modify index change).map weight).sum + weight item =
      (items.map weight).sum + weight (change item) := by
  induction items generalizing index with
  | nil => cases found
  | cons first rest ih =>
      cases index with
      | zero =>
          cases found
          rw [modify_zero_cons, map_cons, map_cons, sum_cons, sum_cons]
          omega
      | succ index =>
          have later := ih (by simpa using found)
          rw [modify_succ_cons, map_cons, map_cons, sum_cons, sum_cons]
          omega

namespace Process

variable (proc : Process) (object : Nat)

theorem refers_allocFd (entry : FdEntry) :
    (proc.allocFd entry).1.refers object = proc.refers object + entry.refers object := by
  unfold allocFd refers
  dsimp only
  rw [total_append, total_insert, ← Nat.add_assoc, ← total_append,
    take_append_drop]

theorem refers_clear {proc : Process} {fd : Nat} {entry : FdEntry}
    (opened : proc.fd fd = some entry) :
    ({ proc with fds := Slots.clear proc.fds fd } : Process).refers object +
      entry.refers object = proc.refers object :=
  total_clear _ opened

theorem refers_of_fds {proc proc' : Process} (same : proc'.fds = proc.fds) :
    proc'.refers object = proc.refers object := by
  unfold refers
  rw [same]

theorem refers_pos {proc : Process} {fd id cursor : Nat}
    (opened : proc.fd fd = some (.shm id cursor)) : 0 < proc.refers id := by
  have one := weight_le_total (FdEntry.refers id) opened
  rw [FdEntry.refers, if_pos rfl] at one
  exact one

end Process

namespace System

def references (sys : System) (object : Nat) : Nat :=
  (sys.tasks.map (Task.refers object)).sum + Socket.waiting sys.sockets object +
    sys.compositorFds.count object

structure Owes (inHand : Nat → Nat) (sys : System) : Prop where
  live : Shm.Live sys.shm
  exact : ∀ object, Shm.refcountOf sys.shm object = sys.references object + inHand object

abbrev Referenced (sys : System) : Prop :=
  Owes (fun _ => 0) sys

variable {sys after : System} {inHand : Nat → Nat} {value : Unit}

theorem references_setCurrentProcess {cr3 : Nat} {proc : Process}
    (found : sys.currentProcess = some (cr3, proc)) (proc' : Process) (object : Nat) :
    (sys.setCurrentProcess proc').references object + proc.refers object =
      sys.references object + proc'.refers object := by
  have task := currentProcess_eq_some found
  have sums := sum_map_modify (Task.refers object) task
    (fun task => { task with process := some proc' })
  have before : Task.refers object { cr3, process := some proc } = proc.refers object := rfl
  have behind : Task.refers object { cr3, process := some proc' } = proc'.refers object := rfl
  dsimp only at sums
  rw [before, behind] at sums
  unfold references setCurrentProcess
  dsimp only
  omega

theorem refers_le_references {cr3 : Nat} {proc : Process}
    (found : sys.currentProcess = some (cr3, proc)) (object : Nat) :
    proc.refers object ≤ sys.references object := by
  have none := references_setCurrentProcess found { proc with fds := [] } object
  have empty : ({ proc with fds := [] } : Process).refers object = 0 := rfl
  omega

namespace Owes

theorem of_same (owes : Owes inHand sys) (counters : Shm.refcountOf after.shm = Shm.refcountOf sys.shm)
    (live : Shm.Live after.shm)
    (references : ∀ object, after.references object = sys.references object) :
    Owes inHand after :=
  ⟨live, fun object => by rw [counters, references, owes.exact]⟩

theorem of_eq (owes : Owes inHand sys) (shm : after.shm = sys.shm)
    (tasks : after.tasks = sys.tasks) (sockets : after.sockets = sys.sockets)
    (compositorFds : after.compositorFds = sys.compositorFds) : Owes inHand after := by
  refine owes.of_same (by rw [shm]) (by rw [shm]; exact owes.live) (fun object => ?_)
  unfold System.references
  rw [tasks, sockets, compositorFds]

variable {proc : Process} {cr3 : Nat}

theorem setCurrentProcess (owes : Owes inHand sys) {proc' : Process}
    (found : sys.currentProcess = some (cr3, proc)) (same : proc'.fds = proc.fds) :
    Owes inHand (sys.setCurrentProcess proc') := by
  refine owes.of_same rfl owes.live (fun object => ?_)
  have moved := references_setCurrentProcess found proc' object
  rw [Process.refers_of_fds object same] at moved
  omega

variable {entry : FdEntry}

theorem openFd (owes : Owes (fun object => entry.refers object + inHand object) sys)
    (found : sys.currentProcess = some (cr3, proc))
    (ran : System.openFd entry sys = (.ok value, after)) :
    Owes inHand after ∧ after.currentProcess = some (cr3, (proc.allocFd entry).1) := by
  cases ran
  dsimp only
  rw [found]
  dsimp only
  refine ⟨⟨owes.live, fun object => ?_⟩, ?_⟩
  · have moved := references_setCurrentProcess found (proc.allocFd entry).1 object
    have exact := owes.exact object
    rw [Process.refers_allocFd] at moved
    have same : (sys.setCurrentProcess (proc.allocFd entry).1).shm = sys.shm := rfl
    rw [same]
    omega
  · exact currentProcess_setCurrentProcess found _

theorem openFd_plain (plain : ∀ object, entry.refers object = 0) (owes : Owes inHand sys)
    (ran : System.openFd entry sys = (.ok value, after)) : Owes inHand after := by
  cases found : sys.currentProcess with
  | none =>
      cases ran
      dsimp only
      rw [found]
      exact owes
  | some current =>
      have inHands : Owes (fun object => entry.refers object + inHand object) sys :=
        ⟨owes.live, fun object => by rw [owes.exact, plain, Nat.zero_add]⟩
      exact (inHands.openFd found ran).1

variable {ids : List Nat}

theorem openShmFds (owes : Owes (fun object => ids.count object + inHand object) sys)
    (found : sys.currentProcess = some (cr3, proc))
    (ran : System.openShmFds ids sys = (.ok value, after)) : Owes inHand after := by
  induction ids generalizing sys proc with
  | nil =>
      cases ran
      refine ⟨owes.live, fun object => ?_⟩
      have exact := owes.exact object
      rwa [count_nil, Nat.zero_add] at exact
  | cons id rest ih =>
      obtain ⟨_, middle, opened, ran⟩ := bind_eq_ok ran
      have first : Owes (fun object => (FdEntry.shm id 0).refers object +
          (rest.count object + inHand object)) sys := by
        refine ⟨owes.live, fun object => ?_⟩
        have exact := owes.exact object
        rw [← singleton_append, count_append] at exact
        rw [FdEntry.refers_shm]
        omega
      obtain ⟨owesRest, still⟩ := first.openFd found opened
      exact ih owesRest still ran

variable {table : Shm.Table} {machine : Machine}

theorem closeAll (owes : Owes (fun object => ids.count object + inHand object) sys)
    (ran : Socket.closeAll sys.shm ids sys.machine = (.ok table, machine)) :
    Owes inHand { sys with shm := table, machine } := by
  obtain ⟨live, counts⟩ := closeAll_counts owes.live ran
  refine ⟨live, fun object => ?_⟩
  have exact := owes.exact object
  have same : ({ sys with shm := table, machine } : System).references object =
      sys.references object := rfl
  dsimp only
  rw [counts, same]
  omega

theorem dropFd (owes : Owes (fun object => entry.refers object + inHand object) sys)
    (ran : System.dropFd entry sys = (.ok value, after)) : Owes inHand after := by
  cases dropFd_dropped ran with
  | file => exact ⟨owes.live, fun object => by rw [owes.exact, FdEntry.refers_file, Nat.zero_add]⟩
  | @shm id cursor table machine closed =>
      have inList : Owes (fun object => [id].count object + inHand object) sys := by
        refine ⟨owes.live, fun object => ?_⟩
        have exact := owes.exact object
        rwa [FdEntry.refers_shm] at exact
      exact inList.closeAll (closeAll_single closed)
  | @socket id sockets table machine closed =>
      obtain ⟨dropped, machine₁, dropping, finished⟩ := bind_eq_ok closed
      cases finished
      obtain ⟨live, counts⟩ := closeAll_counts owes.live dropping
      refine ⟨live, fun object => ?_⟩
      have exact := owes.exact object
      have left := @Socket.waiting_withoutEndpoint sys.sockets id object
      dsimp only
      rw [counts]
      unfold System.references at exact ⊢
      rw [FdEntry.refers_socket] at exact
      dsimp only
      omega

theorem dropFds {fds : List (Option FdEntry)}
    (owes : Owes (fun object => Slots.total (FdEntry.refers object) fds + inHand object) sys)
    (ran : System.dropFds fds sys = (.ok value, after)) : Owes inHand after := by
  induction fds generalizing sys with
  | nil =>
      cases ran
      exact ⟨owes.live, fun object => by rw [owes.exact, Slots.total, Nat.zero_add]⟩
  | cons slot rest ih =>
      cases slot with
      | none => exact ih owes ran
      | some entry =>
          obtain ⟨_, middle, dropped, ran⟩ := bind_eq_ok ran
          have first : Owes (fun object => entry.refers object +
              (Slots.total (FdEntry.refers object) rest + inHand object)) sys :=
            ⟨owes.live, fun object => by rw [owes.exact, Slots.total, Nat.add_assoc]⟩
          exact ih (first.dropFd dropped) ran

theorem acted {pool : Nat → Prop} {event : Event} (ledger : Ledger pool sys)
    (owes : Owes inHand sys) (acted : Acted sys event after) : Owes inHand after := by
  cases acted with
  | @mk cr3 proc proc' act machine calling asked ran =>
      obtain ⟨-, fds, -⟩ := ledger.act_books calling asked ran
      have moved : Owes inHand { sys with machine } := owes.of_eq rfl rfl rfl rfl
      exact moved.setCurrentProcess calling fds

theorem markCurrentExited {info : ExitInfo} (owes : Owes inHand sys)
    (ran : System.markCurrentExited info sys = (.ok value, after)) : Owes inHand after := by
  cases ran
  dsimp only
  cases found : sys.currentProcess with
  | none => exact owes
  | some current =>
      obtain ⟨cr3, proc⟩ := current
      refine owes.setCurrentProcess found ?_
      unfold Process.markExited
      split <;> rfl

theorem launch {loader : Loader Nat} {recorded : List Mapping → Prop} {result : Except String Nat}
    (owes : Owes inHand sys) (records : Loader.Records recorded loader)
    (empty : proc.fds = List.replicate Process.firstFileFd none)
    (ran : System.launch proc loader sys = (.ok result, after)) : Owes inHand after := by
  cases result with
  | error message =>
      obtain ⟨machine, rfl⟩ := launch_refused ran
      exact owes.of_eq rfl rfl rfl rfl
  | ok pid =>
      obtain ⟨pml4, machine, built, loaded, rfl, rfl⟩ := launch_eq_ok ran
      obtain ⟨added, ⟨-, fds⟩, -, -⟩ := records _ _ _ loaded (by simp)
      refine owes.of_same rfl owes.live (fun object => ?_)
      have fresh : Task.refers object { cr3 := pml4, process := some built } = 0 := by
        have same : built.fds = proc.fds := fds
        show built.refers object = 0
        unfold Process.refers
        rw [same, empty]
        rfl
      unfold System.references
      dsimp only
      rw [map_append, sum_append, map_singleton, sum_singleton, fresh, Nat.add_zero]

theorem reap {pid : Nat} (owes : Owes inHand sys)
    (ran : System.reap pid sys = (.ok value, after)) : Owes inHand after := by
  rcases reap_cases ran with rfl | ⟨middle, removed, outcome⟩
  · exact owes
  obtain ⟨task, found⟩ : ∃ task, sys.tasks[pid]? = some task :=
    ⟨_, List.getElem?_eq_getElem removed.inside⟩
  have parts : ∀ object, Task.refers object task + middle.references object =
      sys.references object := by
    intro object
    have sums := ((swapRemoveAt_perm found).map (Task.refers object)).sum_nat
    rw [map_cons, sum_cons, ← swapRemove_eq, ← removed.tasks] at sums
    unfold System.references
    rw [removed.sockets, removed.compositorFds]
    omega
  have owesMiddle : Owes (fun object => Task.refers object task + inHand object) middle := by
    refine ⟨removed.shm ▸ owes.live, fun object => ?_⟩
    have exact := owes.exact object
    have part := parts object
    rw [removed.shm]
    omega
  have isProcess : sys.processAt pid = task.process := by
    rw [processAt, found]
    rfl
  rcases outcome with ⟨none', rfl⟩ | ⟨proc, machine, freed, some', freeing, ran⟩
  · refine ⟨owesMiddle.live, fun object => ?_⟩
    have exact := owesMiddle.exact object
    rwa [Task.refers, ← isProcess, none', Option.map_none, Option.getD_none, Nat.zero_add] at exact
  · have inHands : Owes (fun object => Slots.total (FdEntry.refers object) proc.fds +
        inHand object) { middle with machine } := by
      refine ⟨owesMiddle.live, fun object => ?_⟩
      have exact := owesMiddle.exact object
      rwa [Task.refers, ← isProcess, some', Option.map_some, Option.getD_some] at exact
    exact inHands.dropFds ran

/-! ### Sockets -/

variable {sockets : Socket.State}

theorem withSockets (owes : Owes inHand sys)
    (same : ∀ object, Socket.waiting sockets object = Socket.waiting sys.sockets object) :
    Owes inHand { sys with sockets } := by
  refine owes.of_same rfl owes.live (fun object => ?_)
  unfold System.references
  dsimp only
  rw [same]

theorem send {id : Nat} {bytes : List (BitVec 8)} {sent : Option Nat} (owes : Referenced sys)
    (there : ∀ object, object ∈ ids → 0 < Shm.refcountOf sys.shm object)
    (ran : Socket.send sys.sockets sys.shm id bytes ids sys.machine =
      (.ok (sent, sockets, table), machine)) :
    Referenced { sys with sockets, shm := table, machine } := by
  unfold Socket.send at ran
  cases peer : Socket.peerOf sys.sockets id with
  | none =>
      rw [peer] at ran
      cases ran
      exact owes.of_eq rfl rfl rfl rfl
  | some peerId =>
      rw [peer] at ran
      dsimp only at ran
      obtain ⟨heldLive, held⟩ := dupAll_counts owes.live there
      cases endpoint : Socket.lookup sys.sockets peerId with
      | none =>
          rw [endpoint] at ran
          obtain ⟨dropped, machine₁, closed, rest⟩ := bind_eq_ok ran
          cases rest
          obtain ⟨live, counts⟩ := closeAll_counts heldLive closed
          refine owes.of_same (funext fun object => ?_) live (fun object => rfl)
          dsimp only
          rw [counts, held, Nat.add_sub_cancel]
      | some target =>
          rw [endpoint] at ran
          cases ran
          refine ⟨heldLive, fun object => ?_⟩
          have exact := owes.exact object
          have came := @Socket.waiting_setEndpoint sys.sockets peerId
            { target with inbox := target.inbox ++ bytes, inboxFds := target.inboxFds ++ ids }
            target endpoint object
          rw [count_append] at came
          dsimp only
          rw [held]
          unfold System.references at exact ⊢
          dsimp only
          omega

theorem recv (owes : Owes inHand sys) (id len : Nat) :
    Owes (fun object => (Socket.recv sys.sockets id len).1.2.count object + inHand object)
      { sys with sockets := (Socket.recv sys.sockets id len).2 } := by
  refine ⟨owes.live, fun object => ?_⟩
  have exact := owes.exact object
  have moved := @Socket.waiting_recv sys.sockets id len object
  dsimp only
  unfold System.references at exact ⊢
  dsimp only
  omega

theorem closeEndpoint {id : Nat} (owes : Referenced sys)
    (ran : Socket.close sys.sockets sys.shm id sys.machine =
      (.ok (sockets, table), machine)) :
    Referenced { sys with sockets, shm := table, machine } := by
  obtain ⟨dropped, machine₁, dropping, finished⟩ := bind_eq_ok ran
  cases finished
  obtain ⟨live, counts⟩ := closeAll_counts owes.live dropping
  refine ⟨live, fun object => ?_⟩
  have exact := owes.exact object
  have left := @Socket.waiting_withoutEndpoint sys.sockets id object
  dsimp only
  rw [counts]
  unfold System.references at exact ⊢
  dsimp only
  omega

theorem passedIds_there (owes : Referenced sys)
    (found : sys.currentProcess = some (cr3, proc)) {fds : List Nat} {object : Nat}
    (passed : object ∈ passedIds proc fds) : 0 < Shm.refcountOf sys.shm object := by
  obtain ⟨fd, -, named⟩ := mem_filterMap.mp passed
  have opened : ∃ cursor, proc.fd fd = some (.shm object cursor) := by
    split at named
    · rename_i id cursor opened
      cases named
      exact ⟨cursor, opened⟩
    · cases named
  obtain ⟨cursor, isOpen⟩ := opened
  have one := Process.refers_pos isOpen
  have some' := refers_le_references found object
  have exact := owes.exact object
  omega

theorem compositor {act : CompositorAct} (owes : Referenced sys)
    (ran : System.compositor act sys = (.ok value, after)) : Referenced after := by
  cases act with
  | create =>
      cases ran
      exact owes.withSockets (fun object => waiting_create object)
  | bind id path =>
      cases ran
      exact owes.withSockets (fun object => waiting_bind path object)
  | listen id =>
      cases ran
      exact owes.withSockets (fun object => waiting_listen object)
  | accept id =>
      cases ran
      exact owes.withSockets (fun object => waiting_accept object)
  | recv id len =>
      cases ran
      have received := owes.recv id len
      refine ⟨received.live, fun object => ?_⟩
      have exact := received.exact object
      unfold System.references at exact ⊢
      dsimp only at exact ⊢
      rw [count_append]
      omega
  | send id bytes =>
      obtain ⟨sent, sockets, table, machine, delivered, rfl⟩ := compositor_send ran
      exact owes.send (fun object => not_mem_nil.elim) delivered
  | release id =>
      rcases compositor_release ran with rfl | ⟨holding, table, machine, closed, rfl⟩
      · exact owes
      obtain ⟨live, counts⟩ := Shm.close_counts owes.live closed
      refine ⟨live, fun object => ?_⟩
      have exact := owes.exact object
      dsimp only
      rw [counts]
      unfold System.references at exact ⊢
      dsimp only
      by_cases same : object = id
      · subst same
        have has := count_pos_iff.mpr holding
        rw [if_pos rfl, count_erase_self]
        omega
      · rw [if_neg same, count_erase_of_ne same]
        omega
  | close id =>
      obtain ⟨sockets, table, machine, closed, rfl⟩ := compositor_close ran
      exact owes.closeEndpoint closed

end Owes

def CalledByProcess (sys : System) (event : Event) : Prop :=
  event = .memfdCreate → sys.currentProcess.isSome

theorem schedulerTick_kept (sys : System) :
    sys.schedulerTick.shm = sys.shm ∧ sys.schedulerTick.tasks = sys.tasks ∧
      sys.schedulerTick.sockets = sys.sockets ∧
      sys.schedulerTick.compositorFds = sys.compositorFds := by
  unfold schedulerTick
  split
  · exact ⟨rfl, rfl, rfl, rfl⟩
  · split
    · exact ⟨rfl, rfl, rfl, rfl⟩
    · exact ⟨rfl, rfl, rfl, rfl⟩

theorem Referenced.performed {pool : Nat → Prop} {event : Event} {after : System}
    (ledger : Ledger pool sys) (owes : Referenced sys) (called : CalledByProcess sys event)
    (performed : Performed sys event after) : Referenced after := by
  cases performed with
  | nothing => exact owes
  | ticked =>
      obtain ⟨shm, tasks, sockets, compositorFds⟩ := schedulerTick_kept sys
      exact owes.of_eq shm tasks sockets compositorFds
  | launched _ launches ran =>
      obtain ⟨⟨entry, heapStart, abi, rfl⟩, recorded, records⟩ := launches.records
      exact owes.launch records rfl ran
  | reaped _ ran => exact owes.reap ran
  | acted acted => exact Owes.acted ledger owes acted
  | killed first ran =>
      refine Owes.markCurrentExited ?_ ran
      rcases first with rfl | acted
      · exact owes
      · exact Owes.acted ledger owes acted
  | exited ran => exact owes.markCurrentExited ran
  | openedFile ran => exact owes.openFd_plain (fun _ => rfl) ran
  | createdMemory ran =>
      obtain ⟨⟨cr3, proc⟩, found⟩ := Option.isSome_iff_exists.mp (called rfl)
      obtain ⟨live, counts⟩ := Shm.create_counts owes.live
      have inHand : Owes (fun object => (FdEntry.shm (Shm.create sys.shm).2 0).refers object + 0)
          { sys with shm := (Shm.create sys.shm).1 } := by
        refine ⟨live, fun object => ?_⟩
        have exact := owes.exact object
        have same : ({ sys with shm := (Shm.create sys.shm).1 } : System).references object =
            sys.references object := rfl
        have one : (if object = (Shm.create sys.shm).2 then 1 else 0) =
            (FdEntry.shm (Shm.create sys.shm).2 0).refers object :=
          if_congr eq_comm rfl rfl
        dsimp only
        rw [counts, same, one]
        omega
      exact (inHand.openFd found ran).1
  | createdSocket ran =>
      have opened := owes.withSockets (fun object => @Socket.waiting_create sys.sockets object)
      exact opened.openFd_plain (fun _ => rfl) ran
  | truncated _ _ ran =>
      obtain ⟨live, counts⟩ := Shm.truncate_counts owes.live ran
      exact owes.of_same counts live (fun object => rfl)
  | @closed fd cr3 proc entry value after calling high opened ran =>
      have inHand : Owes (fun object => entry.refers object + 0)
          (sys.setCurrentProcess { proc with fds := Slots.clear proc.fds fd }) := by
        refine ⟨owes.live, fun object => ?_⟩
        have exact := owes.exact object
        have moved := references_setCurrentProcess calling
          { proc with fds := Slots.clear proc.fds fd } object
        have parts := Process.refers_clear object opened
        have same : (sys.setCurrentProcess
            { proc with fds := Slots.clear proc.fds fd }).shm = sys.shm := rfl
        rw [same]
        omega
      exact inHand.dropFd ran
  | @connected fd id path => exact owes.withSockets (fun object => waiting_connect path object)
  | sent calling ran =>
      exact owes.send (fun object passed => owes.passedIds_there calling passed) ran
  | @received fd len maxFds cr3 id proc value middle table machine calling _ _ opening dropping =>
      have inHands : Owes (fun object =>
          ((Socket.recv sys.sockets id len).1.2.take maxFds).count object +
            (((Socket.recv sys.sockets id len).1.2.drop maxFds).count object + 0))
          { sys with sockets := (Socket.recv sys.sockets id len).2 } := by
        have received := owes.recv id len
        refine ⟨received.live, fun object => ?_⟩
        have exact := received.exact object
        have parts := congrArg (List.count object)
          (take_append_drop maxFds (Socket.recv sys.sockets id len).1.2)
        rw [count_append] at parts
        omega
      have taken := inHands.openShmFds calling opening
      exact (taken.closeAll dropping).of_eq rfl rfl rfl rfl
  | composited _ ran => exact owes.compositor ran

theorem Referenced.step {pool : Nat → Prop} {event : Event} {after : System}
    (ledger : Ledger pool sys) (owes : Referenced sys) (called : CalledByProcess sys event)
    (stepped : step sys event = some after) : Referenced after :=
  owes.performed ledger called (step_performed stepped)

end System

namespace Boot

theorem referenced_start {boot : Boot} {sys : System} (started : boot.start = some sys) :
    sys.Referenced := by
  obtain ⟨heapStart, pmm, -, rfl⟩ := start_cases started
  refine ⟨fun id obj found => ?_, fun object => rfl⟩
  simp [firstSystem] at found

/-- Reference counts are exact in every state of every run: an object's counter is the number
of descriptors and waiting ids that name it (with those the compositor has), and an id is free
exactly when nothing names it. -/
theorem references_exact (boot : Boot) (events : List System.Event) (sys : System)
    (meets : boot.Meets System.CalledByProcess events) (ran : boot.run events = some sys)
    (object : Nat) :
    (∀ obj, sys.shm.lookup object = some obj →
      obj.refcount = sys.references object ∧ 0 < obj.refcount) ∧
      (sys.shm.lookup object = none ↔ sys.references object = 0) := by
  have both : sys.Ledger boot.initialPmm.Free ∧ sys.Referenced := by
    refine Boot.run_invariant
      (fun sys => sys.Ledger boot.initialPmm.Free ∧ sys.Referenced)
      (fun first started => ⟨Boot.ledger_start started, referenced_start started⟩) ?_ meets ran
    rintro before event after ⟨ledger, owes⟩ called stepped
    exact ⟨ledger.step stepped, owes.step ledger called stepped⟩
  obtain ⟨-, live, exact⟩ := both
  have here := exact object
  rw [Nat.add_zero] at here
  constructor
  · intro obj found
    rw [Shm.refcountOf_of_lookup found] at here
    exact ⟨here, live object obj found⟩
  · cases found : sys.shm.lookup object with
    | none =>
        rw [Shm.refcountOf_of_none found] at here
        exact ⟨fun _ => here.symm, fun _ => rfl⟩
    | some obj =>
        rw [Shm.refcountOf_of_lookup found] at here
        have positive := live object obj found
        exact iff_of_false (Option.some_ne_none obj) (by omega)

theorem references_exact_memfd : ∃ sys,
    plain.run (gigabyteEvents ++ [.memfdCreate]) = some sys ∧
      sys.shm.lookup 0 = some { phys := 0, pages := 0, size := 0, refcount := 1 } ∧
      sys.references 0 = 1 := by
  obtain ⟨first, running, machine, proc, space, started, ran, isRunning, -⟩ := plain_running
  have empty : running.shm = [] := by
    obtain ⟨pmm, isFirst, -⟩ := plain_start
    rw [started] at isFirst
    rw [isRunning, Option.some.inj isFirst]
    rfl
  have current : running.currentProcess = some (space.pml4, proc) := by
    rw [isRunning]
    rfl
  obtain ⟨after, stepped, shm⟩ : ∃ after, System.step running .memfdCreate = some after ∧
      after.shm = (Shm.create running.shm).1 := by
    refine ⟨_, rfl, ?_⟩
    dsimp only
    split <;> rfl
  have whole : plain.run (gigabyteEvents ++ [.memfdCreate]) = some after := by
    unfold run at ran ⊢
    rw [started] at ran ⊢
    exact Runs.after_append.mpr ⟨running, ran, by rw [Runs.after, stepped]; rfl⟩
  have meets : plain.Meets System.CalledByProcess (gigabyteEvents ++ [.memfdCreate]) := by
    intro sys isFirst
    refine Runs.Meets.append (Runs.Meets.of_mem (fun event mem state => ?_) sys) ?_
    · intro isMemfd
      rw [isMemfd] at mem
      simp [gigabyteEvents] at mem
    · intro middle reached
      have same : middle = running := by
        unfold run at ran
        rw [isFirst] at ran
        exact Option.some.inj (reached.symm.trans ran)
      refine ⟨fun _ => ?_, fun _ _ => trivial⟩
      rw [same, current]
      rfl
  have isObject : after.shm.lookup 0 = some { phys := 0, pages := 0, size := 0, refcount := 1 } := by
    rw [shm, empty]
    rfl
  have exact := (references_exact plain _ after meets whole 0).1 _ isObject
  exact ⟨after, whole, isObject, exact.1.symm⟩

end Boot
end MachaOS
