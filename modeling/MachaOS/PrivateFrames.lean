/-
Which frames ring 3 can reach while there is no shared memory.

Every page open to ring 3 leads to a frame the process lists, and if a mapping
records that frame, the page lies in that mapping.  So `munmap` closes every page
that leads to a frame it frees.  Only the stack keeps a second note of its frames,
`stack_phys_base`, and grows onto them whether or not they are still its own.
-/

import MachaOS.Housing
import MachaOS.UserPointers
import Mathlib.Data.List.Pairwise

namespace MachaOS

open Fallible Machine Paging

namespace Process

structure OwnPages (proc : Process) (space : Space) : Prop where
  listed : ∀ page leaf, page < 2 ^ 20 → space.view page = some leaf → leaf.user = true →
    leaf.phys ∈ proc.frames
  inPlace : ∀ page leaf, page < 2 ^ 20 → space.view page = some leaf → leaf.user = true →
    ∀ mapping, mapping ∈ proc.mappings → mapping.shmId = none → leaf.phys ∈ mapping.run →
      mapping.Covers (page * 4096)

def GrowsRecorded (proc : Process) (act : MemoryAct) : Prop :=
  ∀ faultAddr, act = .grow faultAddr → userStackLowLimit ≤ faultAddr →
    faultAddr < proc.stackLow → Loader.stackMapping proc.stackPhysBase ∈ proc.mappings

structure Unshared (act : MemoryAct) (proc : Process) (machine : Machine) : Prop where
  grows : proc.GrowsRecorded act
  isPrivate : ∀ mapping, mapping ∈ proc.mappings → mapping.shmId = none
  table : ∀ at' table shmId writable executable,
    act = .mmapShared at' table shmId writable executable → table = []

end Process

instance : Std.Symm Mapping.Apart :=
  ⟨fun _ _ apart left right frame inSecond inFirst => apart right left frame inFirst inSecond⟩

theorem OwnedBy.same_run {pmm : Pmm} {proc : Process} (owned : OwnedBy pmm proc)
    {first second : Mapping} (left : first ∈ proc.mappings) (right : second ∈ proc.mappings)
    (leftPrivate : first.shmId = none) (rightPrivate : second.shmId = none) {frame : Nat}
    (inFirst : frame ∈ first.run) (inSecond : frame ∈ second.run) : first = second := by
  by_contra different
  exact owned.apart.forall left right different leftPrivate rightPrivate frame inFirst inSecond

namespace Process.OwnPages

variable {proc proc' : Process} {space after : Space} {machine : Machine}

theorem congr (own : proc.OwnPages space) (same : proc'.books = proc.books) :
    proc'.OwnPages space := by
  have frames : proc'.frames = proc.frames := congrArg Books.frames same
  have mappings : proc'.mappings = proc.mappings := congrArg Books.mappings same
  refine ⟨?_, ?_⟩
  · rw [frames]
    exact own.listed
  · rw [mappings]
    exact own.inPlace

theorem run_covers {mapping : Mapping} {page : Nat} (whole : mapping.len % 4096 = 0)
    (aligned : mapping.vaddr % 4096 = 0) (lower : mapping.vaddr / 4096 ≤ page)
    (upper : page < mapping.vaddr / 4096 + mapping.len / 4096) :
    mapping.Covers (page * 4096) ∧
      mapping.phys + (page - mapping.vaddr / 4096) * 4096 ∈ mapping.run := by
  refine ⟨?_, Pmm.mem_frameRun.mpr ⟨page - mapping.vaddr / 4096, by omega, rfl⟩⟩
  unfold Mapping.Covers
  omega

theorem remap (own : proc.OwnPages space) {pmm : Pmm} (owned : OwnedBy pmm proc)
    (isPrivate : ∀ mapping, mapping ∈ proc.mappings → mapping.shmId = none)
    (frames : ∀ frame, frame ∈ proc.frames → frame ∈ proc'.frames)
    (mappings : proc'.mappings = proc.mappings)
    (views : ∀ page leaf, page < 2 ^ 20 → after.view page = some leaf → leaf.user = true →
      space.view page = some leaf ∨ ∃ mapping, mapping ∈ proc.mappings ∧
        mapping.Covers (page * 4096) ∧ leaf.phys ∈ mapping.run) :
    proc'.OwnPages after := by
  refine ⟨?_, ?_⟩
  · intro page leaf inside found isUser
    rcases views page leaf inside found isUser with old | ⟨mapping, mem, -, inRun⟩
    · exact frames _ (own.listed page leaf inside old isUser)
    · exact frames _ (owned.backed mapping mem (isPrivate mapping mem) _ inRun)
  · intro page leaf inside found isUser other otherMember otherPrivate inOther
    rw [mappings] at otherMember
    rcases views page leaf inside found isUser with old | ⟨mapping, mem, covers, inRun⟩
    · exact own.inPlace page leaf inside old isUser other otherMember otherPrivate inOther
    · rw [owned.same_run otherMember mem otherPrivate (isPrivate mapping mem) inOther inRun]
      exact covers

theorem mapped (own : proc.OwnPages space) {act : MemoryAct} (owned : OwnedBy machine.pmm proc)
    {mapping : Mapping} {fresh : List Nat} {pmm : Pmm} {done : Bool} {pages : Nat}
    (whole : mapping.len % 4096 = 0)
    (given : machine.pmm.allocContiguous (mapping.len / 4096) = (some mapping.phys, pmm))
    (books : proc'.books =
      { frames := proc.frames ++ mapping.run ++ fresh
        mappings := if done then proc.mappings ++ [mapping] else proc.mappings
        stackLow := proc.stackLow
        stackPhysBase := proc.stackPhysBase })
    (remaps : Hosted.Remaps space after mapping.vaddr mapping.phys mapping.len act.flags done
      pages) : proc'.OwnPages after := by
  have frames : proc'.frames = proc.frames ++ mapping.run ++ fresh :=
    congrArg Books.frames books
  have mappings : proc'.mappings =
      if done then proc.mappings ++ [mapping] else proc.mappings :=
    congrArg Books.mappings books
  have new : ∀ frame, frame ∈ mapping.run → frame ∉ proc.frames := by
    intro frame inRun mine
    obtain ⟨index, below, rfl⟩ := Pmm.mem_frameRun.mp inRun
    obtain ⟨-, block, -, -, -⟩ := Pmm.allocContiguous_some given
    exact (owned.held _ mine).2.2.2 (block index below)
  have listed : ∀ frame, frame ∈ proc.frames ∨ frame ∈ mapping.run → frame ∈ proc'.frames := by
    intro frame either
    rw [frames]
    exact List.mem_append_left _ (List.mem_append.mpr either)
  have cases' : ∀ page leaf, page < 2 ^ 20 → after.view page = some leaf →
      space.view page = some leaf ∨ (mapping.Covers (page * 4096) ∧ leaf.phys ∈ mapping.run) := by
    intro page leaf inside found
    rw [remaps.views.views page inside] at found
    split at found
    · rename_i within
      have valid : ValidRange mapping.vaddr mapping.len := by
        by_contra wrong
        have none' := remaps.invalid wrong
        omega
      have bounded := remaps.bounded
      cases found
      exact Or.inr (run_covers whole valid.1 within.1 (by omega))
    · exact Or.inl found
  refine ⟨?_, ?_⟩
  · intro page leaf inside found isUser
    rcases cases' page leaf inside found with old | ⟨-, inRun⟩
    · exact listed _ (Or.inl (own.listed page leaf inside old isUser))
    · exact listed _ (Or.inr inRun)
  · intro page leaf inside found isUser other mem isPrivate inOther
    have either : other ∈ proc.mappings ∨ other = mapping := by
      rw [mappings] at mem
      split at mem
      · simpa using mem
      · exact Or.inl mem
    rcases cases' page leaf inside found with old | ⟨covers, inRun⟩
    · have mine := own.listed page leaf inside old isUser
      rcases either with earlier | rfl
      · exact own.inPlace page leaf inside old isUser other earlier isPrivate inOther
      · exact absurd mine (new _ inOther)
    · rcases either with earlier | rfl
      · exact absurd (owned.backed other earlier isPrivate _ inOther) (new _ inRun)
      · exact covers

theorem grown (own : proc.OwnPages space) {pmm : Pmm} (owned : OwnedBy pmm proc)
    (isPrivate : ∀ mapping, mapping ∈ proc.mappings → mapping.shmId = none) {newLow : Nat}
    (recorded : Loader.stackMapping proc.stackPhysBase ∈ proc.mappings)
    (aligned : newLow % 4096 = 0) (top : proc.stackLow ≤ userStackTop)
    (inside : userStackLowLimit ≤ newLow ∧ newLow < proc.stackLow)
    (books : proc'.books =
      { frames := proc.frames
        mappings := proc.mappings
        stackLow := newLow
        stackPhysBase := proc.stackPhysBase })
    (remaps : Hosted.Remaps space after newLow (proc.stackPhysFor newLow)
      (proc.stackLow - newLow) dataFlags true ((proc.stackLow - newLow) / 4096)) :
    proc'.OwnPages after := by
  have low : userStackLowLimit = 0xFF00000 := rfl
  have high : userStackTop = 0x10000000 := rfl
  have region : userStackMaxPages * pageSize = 0x100000 := rfl
  refine own.remap owned isPrivate ?_ (congrArg Books.mappings books) ?_
  · intro frame mine
    rw [show proc'.frames = _ from congrArg Books.frames books]
    exact mine
  · intro page leaf small found isUser
    rw [remaps.views.views page small] at found
    split at found
    · cases found
      have within : Loader.stackMapping proc.stackPhysBase |>.Covers (page * 4096) := by
        unfold Mapping.Covers Loader.stackMapping
        dsimp only
        omega
      refine Or.inr ⟨_, recorded, within, Pmm.mem_frameRun.mpr
        ⟨page - userStackLowLimit / 4096, ?_, ?_⟩⟩
      · have len : (Loader.stackMapping proc.stackPhysBase).len = 0x100000 := region
        rw [len]
        omega
      · have phys : (Loader.stackMapping proc.stackPhysBase).phys = proc.stackPhysBase := rfl
        simp only [leafFor, stackPhysFor]
        rw [phys]
        omega
    · exact Or.inl found

theorem unmapped (own : proc.OwnPages space) {start stop : Nat}
    (mappings : proc'.mappings =
      proc.mappings.filter (fun mapping => !decide (Covered start stop mapping)))
    (remaining : Hosted.Remaining start stop proc.mappings proc.frames proc'.frames)
    (cleared : Hosted.Cleared start stop proc.mappings space after) :
    proc'.OwnPages after := by
  have old : ∀ page leaf, page < 2 ^ 20 → after.view page = some leaf →
      space.view page = some leaf ∧ ∀ mapping, mapping ∈ proc.mappings →
        Covered start stop mapping → ¬ mapping.Covers (page * 4096) := by
    intro page leaf inside found
    have outside : ∀ mapping, mapping ∈ proc.mappings → Covered start stop mapping →
        ¬ mapping.Covers (page * 4096) := by
      intro mapping mem covered covers
      have gone := (cleared page inside).1 ⟨mapping, mem, covered, covers⟩
      rw [found] at gone
      cases gone
    exact ⟨by rw [← (cleared page inside).2 outside]; exact found, outside⟩
  refine ⟨?_, ?_⟩
  · intro page leaf inside found isUser
    obtain ⟨was, outside⟩ := old page leaf inside found
    refine (remaining _).mpr ⟨own.listed page leaf inside was isUser, ?_⟩
    intro mapping mem covered isPrivate inRun
    exact outside mapping mem covered
      (own.inPlace page leaf inside was isUser mapping mem isPrivate inRun)
  · intro page leaf inside found isUser mapping mem isPrivate inRun
    rw [mappings] at mem
    exact own.inPlace page leaf inside (old page leaf inside found).1 isUser mapping
      (List.mem_of_mem_filter mem) isPrivate inRun

theorem change (own : proc.OwnPages space) {act : MemoryAct} {kept : Nat → Prop}
    (hosted : Hosted kept proc space machine.mem) (owned : OwnedBy machine.pmm proc)
    (unshared : Unshared act proc machine)
    (change : act.Change proc proc' machine space after) : proc'.OwnPages after := by
  have isPrivate := unshared.isPrivate
  cases change with
  | unchanged books same =>
      rw [same]
      exact own.congr books
  | mapped range whole backs books remaps stocked =>
      rcases backs with ⟨-, rfl, given⟩ |
        ⟨at', table, shmId, writable, executable, asked, ⟨-, phys, -⟩, -, -⟩
      · exact own.mapped owned whole given books remaps
      · rw [unshared.table _ _ _ _ _ asked] at phys
        cases phys
  | @grown faultAddr newLow asked low aligned inside books remaps =>
      obtain ⟨-, top, lowAligned⟩ := hosted.stackLow
      refine own.grown owned isPrivate (unshared.grows faultAddr asked ?_ ?_) aligned top inside
        books remaps
      · rw [low] at inside
        exact le_trans inside.1 (alignDown_le faultAddr)
      · unfold alignDown at low
        omega
  | reprotected asked books recorded views =>
      refine own.remap owned isPrivate ?_ (congrArg Books.mappings books) ?_
      · intro frame mine
        rw [show proc'.frames = _ from congrArg Books.frames books]
        exact List.mem_append_left _ mine
      · intro page leaf inside found isUser
        rw [views page inside] at found
        split at found
        · obtain ⟨phys, translated, rfl⟩ := Option.map_eq_some_iff.mp found
          obtain ⟨mapping, mem, lower, upper, rfl⟩ := Hosted.translateLocal_some translated
          obtain ⟨aligned, whole, -, -⟩ := (hosted.placed mapping mem).valid
          obtain ⟨covers, inRun⟩ := @run_covers mapping page whole aligned
            (by omega) (by omega)
          refine Or.inr ⟨mapping, mem, covers, ?_⟩
          simp only [leafFor]
          rwa [show page * 4096 - mapping.vaddr = (page - mapping.vaddr / 4096) * 4096 by omega]
        · exact Or.inl found
  | unmapped asked mappings remaining cleared stack =>
      exact own.unmapped mappings remaining cleared

theorem loaded {kernel : Space} {pool cover : Nat → Prop} {origin : ByteMemory}
    (loaded : Loaded kernel pool cover origin space machine proc)
    (isPrivate : ∀ mapping, mapping ∈ proc.mappings → mapping.shmId = none) :
    proc.OwnPages space := by
  have hosted := @Loaded.hosted _ _ _ (fun _ => False) _ _ _ _ loaded (fun _ none' => none'.elim)
    (fun _ none' => none'.elim)
  obtain ⟨filled, laid, -⟩ := loaded.laid
  have matched : ∀ page leaf, page < 2 ^ 20 → space.view page = some leaf → leaf.user = true →
      ∃ mapping, mapping ∈ proc.mappings ∧ mapping.Covers (page * 4096) ∧
        leaf.phys ∈ mapping.run := by
    intro page leaf inside found isUser
    obtain ⟨mapping, mem, covers, phys⟩ := laid.matched page leaf inside found isUser
    obtain ⟨aligned, whole, -, -⟩ := (hosted.placed mapping mem).valid
    refine ⟨mapping, mem, covers, ?_⟩
    unfold Mapping.Covers at covers
    obtain ⟨-, inRun⟩ := @run_covers mapping page whole aligned (by omega)
      (by omega)
    rwa [phys, show page * 4096 - mapping.vaddr = (page - mapping.vaddr / 4096) * 4096 by omega]
  refine ⟨?_, ?_⟩
  · intro page leaf inside found isUser
    obtain ⟨mapping, mem, -, inRun⟩ := matched page leaf inside found isUser
    exact laid.backed mapping mem _ inRun
  · intro page leaf inside found isUser other otherMember otherPrivate inOther
    obtain ⟨mapping, mem, covers, inRun⟩ := matched page leaf inside found isUser
    rwa [laid.stage.owned.same_run otherMember mem otherPrivate (isPrivate mapping mem)
      inOther inRun]

end Process.OwnPages

namespace System

def GrowsRecorded (sys : System) (event : Event) : Prop :=
  ∀ cr3 proc act, sys.currentProcess = some (cr3, proc) →
    event.act sys.shm proc = some act → proc.GrowsRecorded act

theorem endures_ownPages (kept : Nat → Prop) :
    Endures kept Process.Unshared (fun _ => True) Process.OwnPages :=
  { congr := fun _ _ _ same own => own.congr same
    change := fun _ _ _ _ _ _ hosted owned own unshared change =>
      own.change hosted owned unshared change
    birth := fun _ _ _ _ _ _ _ loaded isPrivate _ => .loaded loaded isPrivate }

end System

namespace Boot

open MachaOS.System

theorem allows_unshared {sys : System} {event : System.Event} (empty : sys.NoObjects)
    (every : sys.Every Process.InBounds) (grows : sys.GrowsRecorded event) :
    Allows Process.Unshared (fun _ => True) sys event := by
  refine ⟨fun cr3 proc act calling asked => ⟨grows cr3 proc act calling asked, ?_, ?_⟩,
    fun _ _ _ _ => trivial⟩
  · exact fun mapping mem => (every _ _ (processAt_current calling) mapping mem).1
  · intro at' table shmId writable executable same
    rw [same] at asked
    exact (Event.act_table asked).trans empty

/-- While there are no shared-memory objects, ring 3 reaches frames of its own process only,
which are in use, and no two processes list the same frame. -/
theorem user_frames_owned {boot : Boot} (valid : boot.Valid) {events : List System.Event}
    {sys : System} (noObjects : System.Event.memfdCreate ∉ events)
    (meets : boot.Meets (fun state event =>
      Careful (fun _ => False) state event ∧ state.GrowsRecorded event) events)
    (ran : boot.run events = some sys) :
    (∀ (index : Nat) (task : Task) (proc : Process), sys.tasks[index]? = some task →
      task.process = some proc → ∀ virt leaf, virt < 2 ^ 48 →
      walk sys.machine.mem task.cr3 virt = some leaf → leaf.user = true →
      leaf.phys ∈ proc.frames ∧
        sys.machine.pmm.frameIsFree (leaf.phys / 4096) = false) ∧
    ∀ first second one two frame, sys.processAt first = some one →
      sys.processAt second = some two → frame ∈ one.frames → frame ∈ two.frames →
      first = second := by
  have all : Housing boot (fun _ => False) Process.OwnPages sys ∧ sys.NoObjects ∧
      sys.Every Process.InBounds := by
    have apart : boot.Meets (fun _ event => event ≠ .memfdCreate) events := fun first _ =>
      Runs.Meets.of_mem (fun event mem _ => by rintro rfl; exact noObjects mem) first
    refine run_invariant (fun sys => Housing boot (fun _ => False) Process.OwnPages sys ∧
      sys.NoObjects ∧ sys.Every Process.InBounds) ?_ ?_
      (fun first started => (meets first started).and (apart first started)) ran
    · intro first started
      refine ⟨housing_start _ _ valid started, ?_, ?_⟩
      · obtain ⟨heapStart, pmm, -, rfl⟩ := start_cases started
        rfl
      · intro index proc found
        rw [processAt_start started] at found
        cases found
    · rintro before event after ⟨housing, empty, every⟩ ⟨⟨careful, grows⟩, other⟩ stepped
      exact ⟨housing.step valid (endures_ownPages _) (fun _ none' => none'.elim) careful
        (allows_unshared empty every grows) stepped, empty.step other stepped,
        every.step lasting_inBounds housing.ledger empty stepped⟩
  obtain ⟨housing, -, -⟩ := all
  refine ⟨?_, ?_⟩
  · intro index task proc found isProcess virt leaf canonical walked isUser
    obtain ⟨space, pml4, hosted, own⟩ := housing.homes.spaces index task proc found isProcess
    rw [← pml4] at walked
    have inside : virt < identityMapEnd := by
      by_contra above
      rw [Space.walk_eq_none hosted.wellFormed hosted.represents (Nat.le_of_not_lt above)
        canonical] at walked
      cases walked
    rw [hosted.walk_eq inside] at walked
    have fourGiB : identityMapEnd = 4294967296 := rfl
    have listed := own.listed (virt / 4096) leaf (by omega) walked isUser
    have here : sys.processAt index = some proc := by
      unfold processAt
      rw [found]
      exact isProcess
    exact ⟨listed, ((housing.ledger.owned index proc here).held _ listed).frameIsFree⟩
  · intro first second one two frame isOne isTwo inOne inTwo
    have same := housing.ledger.exclusive.alone (.process first) (.process second) frame
      (by rwa [holdings_process isOne]) (by rwa [holdings_process isTwo])
    exact Holder.process.inj same

theorem user_frames_owned_mmap : ∃ sys task proc leaf,
    plain.run (gigabyteEvents ++ [.mmap 0x50000000 4096 3 0x32 0 []]) = some sys ∧
    sys.tasks[4]? = some task ∧ task.process = some proc ∧
    walk sys.machine.mem task.cr3 0x50000000 = some leaf ∧ leaf.phys ∈ proc.frames ∧
    sys.machine.pmm.frameIsFree (leaf.phys / 4096) = false := by
  obtain ⟨sys, proc, space, ran, alone⟩ := ofRam_alone plain_fits
  have valid : ValidRange 0x50000000 (1 * 4096) := ⟨by decide, by decide, by decide, by decide⟩
  have apart := page_apart (show 0x10000000 ≤ 0x50000000 by decide)
  obtain ⟨after, machine, proc', later, phys, pmm, stepped, rfl, -, outcome⟩ :=
    alone.mmap plain_fits valid (by decide) apart
  have idle : ∀ (state : System) (event : System.Event), (∀ proc, event.act state.shm proc = none) →
      state.GrowsRecorded event := by
    intro state event silent cr3 proc act _ asked
    rw [silent proc] at asked
    cases asked
  have meets : plain.Meets (fun state event =>
      Careful (fun _ => False) state event ∧ state.GrowsRecorded event)
      (gigabyteEvents ++ [.mmap 0x50000000 4096 3 0x32 0 []]) := by
    refine meets_snoc (meets_gigabyte (fun first started => ⟨?_, idle _ _ (fun _ => rfl)⟩)
      (fun state => ⟨careful_schedule _ state, idle _ _ (fun _ => rfl)⟩)) (fun state reached => ?_)
    · exact careful_gigabyte plain_fits started (fun _ none' => none'.elim)
    · obtain rfl := Option.some.inj (reached.symm.trans ran)
      refine ⟨alone.careful_mmap plain_fits valid (by decide) apart (fun _ none' => none'.elim), ?_⟩
      intro cr3 other act calling asked faultAddr grows
      rw [grows, Alone.act_mmap valid] at asked
      cases asked
  have view := outcome.remaps.views.views 0x50000 (by decide)
  dsimp only at view
  rw [if_pos (by decide)] at view
  have walked := @Hosted.walk_eq _ _ _ _ outcome.hosted 0x50000000 (by decide)
  rw [outcome.pml4, view] at walked
  have placed := alone.acted machine proc'
  obtain ⟨listed, used⟩ := (user_frames_owned plain_valid
    (by simp [gigabyteEvents]) meets (run_snoc ran stepped)).1 4 _ proc' placed rfl 0x50000000 _
    (by decide) walked (show (Process.protFlags true false).getLsbD 2 = true by decide)
  exact ⟨_, _, proc', _, run_snoc ran stepped, placed, rfl, walked, listed, used⟩

def stackEvents : List System.Event :=
  gigabyteEvents ++ [.munmap 0xFF00000 (256 * 4096)] ++ [.pageFault 0xFF00000]

/-- The region's frames went back to the allocator, and the fault maps them again. -/
theorem stack_grows_onto_freed : ∃ sys task proc leaf,
    plain.run stackEvents = some sys ∧ sys.tasks[4]? = some task ∧
    task.process = some proc ∧ walk sys.machine.mem task.cr3 0xFF00000 = some leaf ∧
    leaf.user = true ∧ leaf.phys ∉ proc.frames := by
  obtain ⟨sys, proc, space, ran, alone⟩ := ofRam_alone plain_fits
  have word : wordLimit = 18446744073709551616 := rfl
  obtain ⟨machine, proc', later, stepped, hosted, pml4, cr3, -, remaining, -, low, base⟩ :=
    alone.munmap 0xFF00000 256 (by decide) (by decide) (by omega)
  have ledger := alone.ledger.step stepped
  have calling := currentProcess_setCurrentProcess
    (show ({ sys with machine } : System).currentProcess = some (space.pml4, proc) from
      alone.calling) proc'
  have owned := ledger.owned _ _ (processAt_current calling)
  obtain ⟨done, grown, machine', fault, either⟩ := @Hosted.tryGrowStack_outcome _ _ _ _ hosted owned
    (cr3.trans (alone.active.trans pml4.symm)) 0xFF00000
  have stackLow : proc'.stackLow = 0xFFFF000 := low.trans alone.low
  rcases either with ⟨-, -, -, refused⟩ | ⟨rfl, after, outcome⟩
  · have limit : Process.userStackLowLimit = 0xFF00000 := rfl
    omega
  have frames : grown.frames = proc'.frames := congrArg Process.Books.frames outcome.books
  obtain ⟨middle, named⟩ : ∃ middle, middle = { sys with machine }.setCurrentProcess proc' :=
    ⟨_, rfl⟩
  rw [← named] at stepped calling
  have here : middle.machine = machine := by
    rw [named]
    rfl
  have stepped' : System.step middle (.pageFault 0xFF00000) =
      some ({ middle with machine := machine' }.setCurrentProcess grown) := by
    refine step_of_ok ?_
    rw [← here, pml4] at fault
    change System.pageFault 0xFF00000 middle = _
    unfold System.pageFault
    rw [bind_of_ok (onProcess_of_ok calling fault)]
    rfl
  have found := currentProcess_eq_some
    (currentProcess_setCurrentProcess
      (show ({ middle with machine := machine' } : System).currentProcess =
        some (space.pml4, proc') from calling) grown)
  have view := outcome.remaps.views.views 0xFF00 (by decide)
  rw [stackLow, if_pos (by decide)] at view
  have walked := @Hosted.walk_eq _ _ _ _ outcome.hosted 0xFF00000 (by decide)
  rw [outcome.pml4, pml4, show 0xFF00000 / 4096 = 0xFF00 by decide, view] at walked
  have phys : proc'.stackPhysFor (alignDown 0xFF00000) + (0xFF00 - alignDown 0xFF00000 / 4096) * 4096 =
      proc.stackPhysBase := by
    have start : alignDown 0xFF00000 = 0xFF00000 := by decide
    have limit : Process.userStackLowLimit = 0xFF00000 := rfl
    unfold Process.stackPhysFor
    rw [start, base]
    omega
  rw [phys] at walked
  have isUser : (leafFor Process.dataFlags proc.stackPhysBase).user = true :=
    show Process.dataFlags.getLsbD 2 = true by decide
  refine ⟨_, { cr3 := space.pml4, process := some grown }, grown,
    leafFor Process.dataFlags proc.stackPhysBase, run_snoc (run_snoc ran stepped) stepped', ?_, rfl,
    walked, isUser, ?_⟩
  · have current : middle.current = 4 := by
      rw [named]
      exact alone.current
    have place : (({ middle with machine := machine' } : System).setCurrentProcess grown).current = 4 :=
      current
    rw [place] at found
    exact found
  · rw [frames]
    intro inFrames
    have covered : Process.Covered 0xFF00000 (0xFF00000 + 256 * 4096)
        (Loader.stackMapping proc.stackPhysBase) :=
      ⟨show 0xFF00000 ≤ Process.userStackLowLimit by decide,
        show Process.userStackLowLimit + Process.userStackMaxPages * pageSize ≤
          0xFF00000 + 256 * 4096 by decide⟩
    have inRun : proc.stackPhysBase ∈ (Loader.stackMapping proc.stackPhysBase).run :=
      Pmm.mem_frameRun.mpr
        ⟨0, show 0 < Process.userStackMaxPages * pageSize / 4096 by decide, rfl⟩
    exact ((remaining _).mp inFrames).2 _ alone.stack_recorded covered rfl inRun

end Boot
end MachaOS
