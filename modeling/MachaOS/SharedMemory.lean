/-
Shared mappings and the objects behind them.

References to an object are counted per descriptor, wherever it is: in a
process, in flight on a socket, or with the compositor.  A mapping borrows the
frames without a reference of its own.  So a mapping stays backed as long as
every step leaves its object a reference and does not move the object.
-/

import MachaOS.Boot
import MachaOS.Ledger

namespace MachaOS

open Fallible Machine Paging

namespace Shm

def SameBacking (table table' : Table) (id : Nat) : Prop :=
  physOf table' id = physOf table id ∧ pagesOf table' id = pagesOf table id

theorem SameBacking.refl (table : Table) (id : Nat) : SameBacking table table id :=
  ⟨rfl, rfl⟩

variable {obj : SharedMem} {table : Table} {id : Nat}

theorem SameBacking.of_lookup {table' : Table} {obj' : SharedMem}
    (before : table.lookup id = some obj) (after : table'.lookup id = some obj')
    (phys : obj'.phys = obj.phys) (pages : obj'.pages = obj.pages) :
    SameBacking table table' id := by
  unfold SameBacking physOf pagesOf
  simp [before, after, phys, pages]

theorem sameBacking_put (obj' : SharedMem) (found : table.lookup id = some obj)
    (phys : obj'.phys = obj.phys) (pages : obj'.pages = obj.pages) (other : Nat) :
    SameBacking table (table.put id obj') other := by
  by_cases same : other = id
  · subst same
    exact SameBacking.of_lookup found (by rw [Slots.lookup_put _ found, if_pos rfl]) phys pages
  · unfold SameBacking physOf pagesOf
    rw [Slots.lookup_put _ found, if_neg same]
    exact ⟨rfl, rfl⟩

theorem sameBacking_create (table : Table) (found : table.lookup id = some obj) :
    SameBacking table (create table).1 id := by
  have fresh : id ≠ (create table).2 := by
    intro same
    have free := Slots.lookup_insert_fresh
      ({ phys := 0, pages := 0, size := 0, refcount := 1 } : SharedMem) table
    rw [same] at found
    unfold create at found
    rw [free] at found
    cases found
  unfold SameBacking physOf pagesOf create at *
  rw [Slots.lookup_insert, if_neg fresh]
  exact ⟨rfl, rfl⟩

theorem sameBacking_dup (table : Table) (id other : Nat) : SameBacking table (dup table id) other := by
  unfold dup
  cases found : table.lookup id with
  | none => exact SameBacking.refl _ _
  | some obj => exact sameBacking_put { obj with refcount := obj.refcount + 1 } found rfl rfl other

def Outgrows (table : Table) (id newSize : Nat) : Prop :=
  ∃ obj, table.lookup id = some obj ∧ obj.size < newSize ∧
    obj.pages < max ((newSize + Pmm.frameSize - 1) / Pmm.frameSize) 1

theorem truncate_other {table' : Table} {newSize other : Nat} {done : Bool}
    {machine machine' : Machine}
    (ran : truncate table id newSize machine = (.ok (done, table'), machine'))
    (kept : other = id → ¬ Outgrows table id newSize) : SameBacking table table' other := by
  unfold truncate at ran
  cases found : table.lookup id with
  | none =>
      rw [found] at ran
      cases ran
      exact SameBacking.refl _ _
  | some obj =>
      rw [found] at ran
      dsimp only at ran
      split at ran
      · cases ran
        exact sameBacking_put { obj with size := newSize } found rfl rfl other
      split at ran
      · cases ran
        exact sameBacking_put { obj with size := newSize } found rfl rfl other
      have different : other ≠ id := by
        intro same
        exact kept same ⟨obj, found, by omega, by omega⟩
      have elsewhere : ∀ obj', SameBacking table (table.put id obj') other := by
        intro obj'
        unfold SameBacking physOf pagesOf
        rw [Slots.lookup_put _ found, if_neg different]
        exact ⟨rfl, rfl⟩
      obtain ⟨allocation, machine₁, given, rest⟩ := bind_eq_ok ran
      cases allocation with
      | none =>
          cases rest
          exact SameBacking.refl _ _
      | some newPhys =>
          obtain ⟨_, machine₂, zeroed, rest⟩ := bind_eq_ok rest
          split at rest
          · obtain ⟨_, machine₃, moved, rest⟩ := bind_eq_ok rest
            obtain ⟨_, machine₄, freed, rest⟩ := bind_eq_ok rest
            cases rest
            exact elsewhere _
          · cases rest
            exact elsewhere _

theorem close_keeps {table' : Table} {other : Nat} {machine machine' : Machine}
    (ran : close table id machine = (.ok table', machine')) (found : table.lookup other = some obj)
    (left : other = id → 1 < obj.refcount) :
    ∃ obj', table'.lookup other = some obj' ∧ obj'.phys = obj.phys ∧ obj'.pages = obj.pages ∧
      obj'.refcount = if other = id then obj.refcount - 1 else obj.refcount := by
  unfold close at ran
  by_cases same : other = id
  · subst same
    have enough := left rfl
    rw [found] at ran
    dsimp only at ran
    rw [if_neg (by omega)] at ran
    cases ran
    exact ⟨{ obj with refcount := obj.refcount - 1 },
      by rw [Slots.lookup_put _ found, if_pos rfl], rfl, rfl, by rw [if_pos rfl]⟩
  · refine ⟨obj, ?_, rfl, rfl, by rw [if_neg same]⟩
    cases present : table.lookup id with
    | none =>
        rw [present] at ran
        cases ran
        exact found
    | some closing =>
        rw [present] at ran
        dsimp only at ran
        split at ran
        · obtain ⟨_, machine₁, freed, rest⟩ := bind_eq_ok ran
          cases rest
          rw [Slots.lookup_clear, if_neg same]
          exact found
        · cases ran
          rw [Slots.lookup_put _ present, if_neg same]
          exact found

end Shm

namespace Socket

theorem closeAll_single {table table' : Shm.Table} {id : Nat} {machine machine' : Machine}
    (ran : Shm.close table id machine = (.ok table', machine')) :
    closeAll table [id] machine = (.ok table', machine') := by
  rw [closeAll, bind_of_ok ran]
  rfl

theorem closeAll_keeps {table table' : Shm.Table} {ids : List Nat} {other : Nat}
    {obj : Shm.SharedMem} {machine machine' : Machine}
    (ran : closeAll table ids machine = (.ok table', machine'))
    (found : table.lookup other = some obj) (left : ids.count other < obj.refcount) :
    ∃ obj', table'.lookup other = some obj' ∧ obj'.phys = obj.phys ∧ obj'.pages = obj.pages ∧
      obj'.refcount = obj.refcount - ids.count other := by
  induction ids generalizing table obj machine with
  | nil =>
      cases ran
      exact ⟨obj, found, rfl, rfl, by simp⟩
  | cons id rest ih =>
      obtain ⟨middle, machine₁, closed, rest'⟩ := bind_eq_ok ran
      rw [List.count_cons] at left
      have several : other = id → 1 < obj.refcount := by
        rintro rfl
        simp only [beq_self_eq_true, if_true] at left
        omega
      obtain ⟨obj₁, found₁, phys₁, pages₁, count₁⟩ := Shm.close_keeps closed found several
      have remaining : rest.count other < obj₁.refcount := by
        rw [count₁]
        by_cases same : other = id
        · subst same
          simp at left ⊢
          omega
        · have different : ¬ id = other := fun equal => same equal.symm
          simp [different] at left
          simpa [same] using left
      obtain ⟨obj₂, found₂, phys₂, pages₂, count₂⟩ := ih rest' found₁ remaining
      refine ⟨obj₂, found₂, phys₂.trans phys₁, pages₂.trans pages₁, ?_⟩
      rw [count₂, count₁, List.count_cons]
      by_cases same : other = id
      · subst same
        simp
        omega
      · have different : ¬ id = other := fun equal => same equal.symm
        simp [same, different]

end Socket
namespace System

variable {pool : Nat → Prop} {object : Nat}

def fdReferences (sockets : Socket.State) : FdEntry → List Nat
  | .file => []
  | .shm id _ => [id]
  | .socket id => Socket.pendingFds sockets id

def socketsWithout (sockets : Socket.State) : FdEntry → Socket.State
  | .socket id => Socket.withoutEndpoint sockets id
  | _ => sockets

def fdsReferences (sockets : Socket.State) : List (Option FdEntry) → List Nat
  | [] => []
  | none :: rest => fdsReferences sockets rest
  | some entry :: rest =>
      fdReferences sockets entry ++ fdsReferences (socketsWithout sockets entry) rest

def compositorReferences (sys : System) : CompositorAct → List Nat
  | .release id => if id ∈ sys.compositorFds then [id] else []
  | .close id => Socket.pendingFds sys.sockets id
  | _ => []

def droppedReferences (sys : System) : Event → List Nat
  | .close fd =>
      match sys.currentProcess with
      | none => []
      | some (_, proc) =>
          if fd < Process.firstFileFd then []
          else ((proc.fd fd).map (fdReferences sys.sockets)).getD []
  | .recvmsg fd len maxFds =>
      match sys.currentProcess with
      | none => []
      | some (_, proc) =>
          match proc.fd fd with
          | some (.socket id) =>
              if Socket.hasData sys.sockets id then
                (Socket.recv sys.sockets id len).1.2.drop maxFds
              else []
          | _ => []
  | .reap pid =>
      if sys.current = 0 then
        ((sys.processAt pid).map (fun p => fdsReferences sys.sockets p.fds)).getD []
      else []
  | .compositor act =>
      if sys.currentProcess.isNone then compositorReferences sys act else []
  | _ => []

def MapsObject (sys : System) (event : Event) (id : Nat) : Prop :=
  ∃ index proc mapping, sys.processAt index = some proc ∧ event ≠ .reap index ∧
    mapping ∈ proc.mappings ∧ mapping.shmId = some id

structure KeepsShared (object : Nat) (sys : System) (event : Event) : Prop where
  references : ∀ obj, object ∈ sys.droppedReferences event → sys.MapsObject event object →
    sys.shm.lookup object = some obj →
    (sys.droppedReferences event).count object < obj.refcount
  backing : ∀ fd len cr3 proc cursor, event = .ftruncate fd len →
    sys.currentProcess = some (cr3, proc) → proc.fd fd = some (.shm object cursor) →
    sys.MapsObject event object → ¬ Shm.Outgrows sys.shm object len

variable {sys : System} {event : Event} {obj : Shm.SharedMem}

theorem KeepsShared.left (keeps : KeepsShared object sys event) (ledger : Ledger pool sys)
    (mapped : sys.MapsObject event object) (found : sys.shm.lookup object = some obj) :
    (sys.droppedReferences event).count object < obj.refcount := by
  by_cases dropped : object ∈ sys.droppedReferences event
  · exact keeps.references obj dropped mapped found
  · rw [List.count_eq_zero_of_not_mem dropped]
    exact (ledger.objects object obj found).2

theorem KeepsShared.of_nothing {sys : System} {event : Event}
    (dropped : sys.droppedReferences event = [])
    (sized : ∀ fd len, event = .ftruncate fd len → ¬ sys.MapsObject event object) :
    KeepsShared object sys event := by
  constructor
  · intro obj mem
    rw [dropped] at mem
    cases mem
  · intro fd len _ _ _ same _ _ mapped
    exact absurd mapped (sized fd len same)

def Backed (object : Nat) (sys : System) : Prop :=
  ∀ index proc mapping, sys.processAt index = some proc →
    mapping ∈ proc.mappings → mapping.shmId = some object → mapping.Shares sys.shm object

def MappingsFrom (sys after : System) (event : Event) : Prop :=
  ∀ index proc' mapping id, after.processAt index = some proc' →
    mapping ∈ proc'.mappings → mapping.shmId = some id →
    (∃ before proc, sys.processAt before = some proc ∧ event ≠ .reap before ∧
      mapping ∈ proc.mappings) ∨ mapping.Shares after.shm id

variable {after : System}

theorem Backed.next (backed : Backed object sys) (mappings : MappingsFrom sys after event)
    (table : ∀ obj, sys.MapsObject event object → sys.shm.lookup object = some obj →
      Shm.SameBacking sys.shm after.shm object) :
    Backed object after := by
  intro index proc' mapping found mem shared
  rcases mappings index proc' mapping object found mem shared with
    ⟨before, proc, was, stays, old⟩ | fresh
  · obtain ⟨named, phys, pages⟩ := backed before proc mapping was old shared
    have mapped : sys.MapsObject event object :=
      ⟨before, proc, mapping, was, stays, old, shared⟩
    cases entry : sys.shm.lookup object with
    | none => simp [Shm.physOf, entry] at phys
    | some obj =>
        obtain ⟨samePhys, samePages⟩ := table obj mapped entry
        exact ⟨named, samePhys.trans phys, samePages.trans pages⟩
  · exact fresh

theorem MappingsFrom.of_books (books : SameBooks sys after)
    (stays : ∀ index, event ≠ .reap index) : MappingsFrom sys after event := by
  intro index proc' mapping id found mem _
  obtain ⟨proc, was, -, mappings⟩ := books index proc' found
  rw [mappings] at mem
  exact Or.inl ⟨index, proc, was, stays index, mem⟩

theorem Backed.of_same (backed : Backed object sys) (shm : after.shm = sys.shm)
    (books : SameBooks sys after) : Backed object after := by
  intro index proc' mapping found mem shared
  obtain ⟨proc, was, -, mappings⟩ := books index proc' found
  rw [mappings] at mem
  rw [shm]
  exact backed index proc mapping was mem shared

theorem Backed.of_table (event : Event) (backed : Backed object sys)
    (books : SameBooks sys after) (stays : ∀ index, event ≠ .reap index)
    (table : ∀ obj, sys.MapsObject event object → sys.shm.lookup object = some obj →
      Shm.SameBacking sys.shm after.shm object) :
    Backed object after :=
  backed.next (MappingsFrom.of_books books stays) table

variable {value : Unit}

theorem dropFd_keeps {entry : FdEntry} (ran : dropFd entry sys = (.ok value, after)) :
    after.tasks = sys.tasks ∧ after.sockets = socketsWithout sys.sockets entry ∧
      ∀ id obj, sys.shm.lookup id = some obj →
        (fdReferences sys.sockets entry).count id < obj.refcount →
        ∃ obj', after.shm.lookup id = some obj' ∧ obj'.phys = obj.phys ∧
          obj'.pages = obj.pages ∧
          obj'.refcount = obj.refcount - (fdReferences sys.sockets entry).count id := by
  cases dropFd_dropped ran with
  | file => exact ⟨rfl, rfl, fun id obj found _ => ⟨obj, found, rfl, rfl, by simp [fdReferences]⟩⟩
  | shm closed =>
      refine ⟨rfl, rfl, fun id obj found left => ?_⟩
      exact Socket.closeAll_keeps (Socket.closeAll_single closed) found left
  | socket closed =>
      obtain ⟨final, machine₁, dropped, finished⟩ := bind_eq_ok closed
      cases finished
      exact ⟨rfl, rfl, fun id obj found left => Socket.closeAll_keeps dropped found left⟩

theorem dropFds_keeps {fds : List (Option FdEntry)} (ran : dropFds fds sys = (.ok value, after)) :
    after.tasks = sys.tasks ∧
      ∀ id obj, sys.shm.lookup id = some obj →
        (fdsReferences sys.sockets fds).count id < obj.refcount →
        Shm.SameBacking sys.shm after.shm id := by
  induction fds generalizing sys with
  | nil =>
      cases ran
      exact ⟨rfl, fun id obj _ _ => Shm.SameBacking.refl _ _⟩
  | cons slot rest ih =>
      cases slot with
      | none => exact ih ran
      | some entry =>
          obtain ⟨_, middle, dropped, ran⟩ := bind_eq_ok ran
          obtain ⟨tasks, sockets, kept⟩ := dropFd_keeps dropped
          obtain ⟨laterTasks, later⟩ := ih ran
          refine ⟨laterTasks.trans tasks, fun id obj found left => ?_⟩
          rw [fdsReferences, List.count_append] at left
          obtain ⟨obj', found', phys, pages, counted⟩ := kept id obj found (by omega)
          obtain ⟨samePhys, samePages⟩ := later id obj' found' (by rw [sockets, counted]; omega)
          obtain ⟨firstPhys, firstPages⟩ := Shm.SameBacking.of_lookup found found' phys pages
          exact ⟨samePhys.trans firstPhys, samePages.trans firstPages⟩

theorem Backed.acted (ledger : Ledger pool sys) (backed : Backed object sys)
    (acted : Acted sys event after) : Backed object after := by
  cases acted with
  | mk calling asked ran =>
      obtain ⟨-, -, mappings⟩ := ledger.act_books calling asked ran
      intro index other mapping placed mem shared
      rw [processAt_acted calling] at placed
      split at placed
      · cases placed
        rcases mappings mapping mem with old | fresh
        · exact backed sys.current _ mapping (processAt_current calling) old shared
        · exact fresh object shared
      · exact backed index other mapping placed mem shared

theorem backed_reap {pid : Nat} (ledger : Ledger pool sys) (backed : Backed object sys)
    (main : sys.current = 0) (keeps : KeepsShared object sys (.reap pid))
    (ran : reap pid sys = (.ok value, after)) : Backed object after := by
  rcases reap_cases ran with rfl | ⟨middle, removed, outcome⟩
  · exact backed
  -- a process in the table after `swap_remove` was there before, elsewhere than at `pid`
  have moved : ∀ final : System, final.tasks = middle.tasks →
      MappingsFrom sys final (.reap pid) := by
    intro final sameTasks index proc' mapping id found mem _
    rw [removed.tasks] at sameTasks
    obtain ⟨below, was⟩ := processAt_swapRemove removed.inside sameTasks found
    refine Or.inl ⟨_, proc', was, ?_, mem⟩
    intro reaped
    have equal : pid = if index = pid then sys.tasks.length - 1 else index :=
      Event.reap.inj reaped
    split at equal <;> omega
  rcases outcome with ⟨-, rfl⟩ | ⟨proc, machine, freed, gone, freeing, ran⟩
  · refine backed.next (moved _ rfl) (fun obj _ _ => ?_)
    rw [removed.shm]
    exact Shm.SameBacking.refl _ _
  · obtain ⟨finalTasks, kept⟩ := dropFds_keeps ran
    refine backed.next (moved _ finalTasks) (fun obj mapped found => ?_)
    have left := keeps.left ledger mapped found
    simp only [droppedReferences, if_pos main, gone, Option.map_some, Option.getD_some] at left
    have result := kept object obj (by rw [← removed.shm] at found; exact found)
      (by rw [← removed.sockets] at left; exact left)
    rw [← removed.shm]
    exact result

theorem sameBacking_dupAll (ids : List Nat) (table : Shm.Table) (id : Nat) :
    Shm.SameBacking table (ids.foldl Shm.dup table) id := by
  induction ids generalizing table with
  | nil => exact Shm.SameBacking.refl _ _
  | cons first rest ih =>
      obtain ⟨phys, pages⟩ := Shm.sameBacking_dup table first id
      obtain ⟨laterPhys, laterPages⟩ := ih (Shm.dup table first)
      exact ⟨laterPhys.trans phys, laterPages.trans pages⟩

theorem refcount_dupAll (ids : List Nat) {table : Shm.Table} {id : Nat}
    (found : table.lookup id = some obj) :
    ∃ obj', (ids.foldl Shm.dup table).lookup id = some obj' ∧
      obj'.refcount = obj.refcount + ids.count id := by
  induction ids generalizing table obj with
  | nil => exact ⟨obj, found, by simp⟩
  | cons first rest ih =>
      have stepped : ∃ obj₁, (Shm.dup table first).lookup id = some obj₁ ∧
          obj₁.refcount = obj.refcount + if first = id then 1 else 0 := by
        unfold Shm.dup
        cases present : table.lookup first with
        | none =>
            refine ⟨obj, found, ?_⟩
            by_cases same : first = id
            · rw [same, found] at present
              cases present
            · simp [same]
        | some other =>
            dsimp only
            rw [Slots.lookup_put _ present]
            by_cases same : id = first
            · subst same
              rw [found] at present
              cases present
              exact ⟨_, by rw [if_pos rfl], by simp⟩
            · have different : ¬ first = id := fun equal => same equal.symm
              exact ⟨obj, by rw [if_neg same]; exact found, by simp [different]⟩
      obtain ⟨obj₁, found₁, count₁⟩ := stepped
      obtain ⟨obj₂, found₂, count₂⟩ := ih found₁
      refine ⟨obj₂, found₂, ?_⟩
      rw [count₂, count₁, List.count_cons]
      by_cases same : first = id <;> simp [same]
      omega

theorem sameBacking_send {sockets sockets' : Socket.State} {table table' : Shm.Table}
    {id other : Nat} {bytes : List (BitVec 8)} {ids : List Nat} {sent : Option Nat}
    {machine machine' : Machine} (counted : 0 < obj.refcount)
    (found : table.lookup other = some obj)
    (ran : Socket.send sockets table id bytes ids machine =
      (.ok (sent, sockets', table'), machine')) :
    Shm.SameBacking table table' other := by
  unfold Socket.send at ran
  cases peer : Socket.peerOf sockets id with
  | none =>
      rw [peer] at ran
      cases ran
      exact Shm.SameBacking.refl _ _
  | some peerId =>
      simp only [peer] at ran
      cases endpoint : Socket.lookup sockets peerId with
      | none =>
          simp only [endpoint] at ran
          obtain ⟨middle, machine₁, closed, rest⟩ := bind_eq_ok ran
          cases rest
          obtain ⟨held, foundHeld, countHeld⟩ := refcount_dupAll ids found
          obtain ⟨last, foundLast, phys, pages, -⟩ :=
            Socket.closeAll_keeps closed foundHeld (by omega)
          obtain ⟨samePhys, samePages⟩ := sameBacking_dupAll ids table other
          obtain ⟨lastPhys, lastPages⟩ := Shm.SameBacking.of_lookup foundHeld foundLast phys pages
          exact ⟨lastPhys.trans samePhys, lastPages.trans samePages⟩
      | some peer =>
          simp only [endpoint] at ran
          cases ran
          exact sameBacking_dupAll ids table other

theorem backed_compositor {act : CompositorAct} (ledger : Ledger pool sys)
    (backed : Backed object sys) (kernel : sys.currentProcess.isNone)
    (keeps : KeepsShared object sys (.compositor act))
    (ran : compositor act sys = (.ok value, after)) : Backed object after := by
  have stays : ∀ index, Event.compositor act ≠ .reap index := by simp
  have dropped : ∀ obj, sys.MapsObject (.compositor act) object →
      sys.shm.lookup object = some obj →
      (compositorReferences sys act).count object < obj.refcount := by
    intro obj mapped found
    have left := keeps.left ledger mapped found
    simpa only [droppedReferences, kernel, if_true] using left
  cases act with
  | send id bytes =>
      obtain ⟨sent, sockets, table, machine, delivered, rfl⟩ := compositor_send ran
      exact backed.of_table _ (SameBooks.of_tasks rfl) stays (fun obj _ found =>
        sameBacking_send (ledger.objects object obj found).2 found delivered)
  | release id =>
      rcases compositor_release ran with rfl | ⟨holding, table, machine, closed, rfl⟩
      · exact backed
      refine backed.of_table _ (SameBooks.of_tasks rfl) stays (fun obj mapped found => ?_)
      have left := dropped obj mapped found
      rw [compositorReferences, if_pos holding] at left
      obtain ⟨obj', found', phys, pages, -⟩ :=
        Socket.closeAll_keeps (Socket.closeAll_single closed) found left
      exact Shm.SameBacking.of_lookup found found' phys pages
  | close id =>
      obtain ⟨sockets, table, machine, closed, rfl⟩ := compositor_close ran
      obtain ⟨final, machine₁, dropping, finished⟩ := bind_eq_ok closed
      cases finished
      refine backed.of_table _ (SameBooks.of_tasks rfl) stays (fun obj mapped found => ?_)
      obtain ⟨obj', found', phys, pages, -⟩ :=
        Socket.closeAll_keeps dropping found (dropped obj mapped found)
      exact Shm.SameBacking.of_lookup found found' phys pages
  | _ =>
      cases ran
      exact backed.of_same rfl (SameBooks.of_tasks rfl)

theorem backed_launch {proc : Process} {loader : Loader Nat} {recorded : List Mapping → Prop}
    (records : Loader.Records recorded loader) (empty : proc.mappings = [])
    {result : Except String Nat} (backed : Backed object sys)
    (ran : launch proc loader sys = (.ok result, after)) : Backed object after := by
  cases result with
  | error message =>
      obtain ⟨machine, rfl⟩ := launch_refused ran
      exact backed.of_same rfl (SameBooks.of_tasks rfl)
  | ok pid =>
      obtain ⟨pml4, machine, built, loaded, rfl, rfl⟩ := launch_eq_ok ran
      obtain ⟨added, ⟨⟨taken, grown⟩, -⟩, isPrivate, -⟩ := records _ _ _ loaded (by simp)
      intro index other mapping placed mem shared
      rw [processAt_append] at placed
      split at placed
      · cases placed
        rw [grown.mappings, empty, List.nil_append] at mem
        rw [isPrivate mapping mem] at shared
        cases shared
      · exact backed index other mapping placed mem shared

theorem Backed.of_books (backed : Backed object sys)
    (same : SameBooks sys after ∧ after.shm = sys.shm ∧ after.machine = sys.machine) :
    Backed object after := by
  obtain ⟨books, shm, -⟩ := same
  exact backed.of_same shm books

theorem Backed.performed (ledger : Ledger pool sys) (backed : Backed object sys)
    (keeps : KeepsShared object sys event) (performed : Performed sys event after) :
    Backed object after := by
  cases performed with
  | nothing => exact backed
  | ticked =>
      refine backed.of_same ?_ (SameBooks.of_tasks ?_) <;>
      · unfold System.schedulerTick
        split
        · rfl
        · split <;> rfl
  | launched _ launches ran =>
      obtain ⟨⟨entry, heapStart, abi, rfl⟩, recorded, records⟩ := launches.records
      exact backed_launch records rfl backed ran
  | reaped main ran => exact backed_reap ledger backed main keeps ran
  | acted acted => exact backed.acted ledger acted
  | killed first ran =>
      refine Backed.of_books ?_ (sameBooks_markCurrentExited ran)
      rcases first with rfl | acted
      · exact backed
      · exact backed.acted ledger acted
  | exited ran => exact backed.of_books (sameBooks_markCurrentExited ran)
  | openedFile ran => exact backed.of_books (sameBooks_openFd ran)
  | createdMemory ran =>
      obtain ⟨books, shm, -⟩ := sameBooks_openFd ran
      refine backed.of_table .memfdCreate books (by simp) (fun obj _ found => ?_)
      rw [shm]
      exact Shm.sameBacking_create sys.shm found
  | createdSocket ran =>
      obtain ⟨books, shm, -⟩ := sameBooks_openFd ran
      exact backed.of_same shm books
  | @truncated fd len cr3 id cursor proc done table machine calling entry ran =>
      refine backed.of_table (.ftruncate fd len) (SameBooks.of_tasks rfl) (by simp)
        (fun obj mapped found => Shm.truncate_other ran ?_)
      rintro rfl
      exact keeps.backing fd len cr3 proc cursor rfl calling entry mapped
  | @closed fd cr3 proc entry value after calling high opened ran =>
      obtain ⟨tasks, -, kept⟩ := dropFd_keeps ran
      refine backed.of_table (.close fd) ?_ (by simp) (fun obj mapped found => ?_)
      · intro index proc' located
        have books : SameBooks sys
            (sys.setCurrentProcess { proc with fds := Slots.clear proc.fds fd }) :=
          sameBooks_setCurrentProcess calling rfl rfl
        refine books index proc' ?_
        unfold processAt at located ⊢
        rw [← tasks]
        exact located
      · have left := keeps.left ledger mapped found
        simp only [droppedReferences, calling, if_neg high, opened, Option.map_some,
          Option.getD_some] at left
        obtain ⟨obj', found', phys, pages, -⟩ := kept object obj found left
        exact Shm.SameBacking.of_lookup found found' phys pages
  | connected => exact backed.of_same rfl (SameBooks.of_tasks rfl)
  | @sent fd _ _ bytes fds _ _ _ _ _ _ ran =>
      exact backed.of_table (.sendmsg fd bytes fds) (SameBooks.of_tasks rfl) (by simp)
        (fun obj _ found => sameBacking_send (ledger.objects object obj found).2 found ran)
  | @received fd len maxFds cr3 id proc value middle table machine calling opened ready opening
      dropping =>
      obtain ⟨books, shm, -⟩ := sameBooks_openShmFds opening
      refine backed.of_table (.recvmsg fd len maxFds) books (by simp) (fun obj mapped found => ?_)
      have left := keeps.left ledger mapped found
      simp only [droppedReferences, calling, opened] at left
      rw [if_pos ready] at left
      rw [shm] at dropping
      obtain ⟨obj', found', phys, pages, -⟩ := Socket.closeAll_keeps dropping found left
      exact Shm.SameBacking.of_lookup found found' phys pages
  | composited kernel ran => exact backed_compositor ledger backed kernel keeps ran

theorem Backed.step (ledger : Ledger pool sys) (backed : Backed object sys)
    (keeps : KeepsShared object sys event) (stepped : System.step sys event = some after) :
    Backed object after :=
  backed.performed ledger keeps (step_performed stepped)

end System

theorem Boot.backed_run {boot : Boot} {object : Nat} {events : List System.Event} {sys : System}
    (meets : boot.Meets (System.KeepsShared object) events) (ran : boot.run events = some sys) :
    sys.Ledger boot.initialPmm.Free ∧ System.Backed object sys := by
  refine Boot.run_invariant
    (fun sys => sys.Ledger boot.initialPmm.Free ∧ System.Backed object sys)
    (fun first started => ⟨Boot.ledger_start started, ?_⟩) ?_ meets ran
  · intro place other _ found
    rw [Boot.processAt_start started] at found
    cases found
  · rintro before event after ⟨ledger, backed⟩ keeps stepped
    exact ⟨ledger.step stepped, backed.step ledger keeps stepped⟩

end MachaOS
