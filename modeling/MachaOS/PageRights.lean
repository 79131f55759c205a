/-
What ring 3 can reach (`map_range_in` and `unmap_range_in` from the boot map on).

The kernel's table stays the boot map, every process's table starts as a copy of it
and changes by edits of ranges.  `Logged` keeps what the edits did to each page; in
every state reached the last of them decides what the walk of the page finds.
-/

import MachaOS.AddressSpaces

namespace MachaOS

open Fallible Machine Paging Function

namespace Tables

inductive Operation where
  | fresh (root : Nat)
  | map (root page count phys : Nat) (flags : BitVec 64)
  | unmap (root page count : Nat)

namespace Operation

def touches (root page : Nat) : Operation → Bool
  | .fresh other => other = root
  | .map other first count _ _ | .unmap other first count =>
      other = root ∧ first ≤ page ∧ page < first + count

def opens : Operation → Bool
  | .map _ _ _ _ flags => flags.getLsbD 2
  | _ => false

end Operation

def lastOn (log : List Operation) (root page : Nat) : Option Operation :=
  log.find? (Operation.touches root page)

/-- What a step adds to the log: a `map_range_in` that gives up has still mapped the pages
before the one it could not map. -/
def Records (tables after : Tables) (added : List Operation) : Event → Prop
  | .build => added = (after.live.drop tables.live.length).map Operation.fresh
  | .mapRangeIn root virt phys len flags => ∃ done frames mapped,
      Paging.mapRangeIn root virt phys len flags [] tables.machine =
        (.ok (done, frames), after.machine) ∧ mapped ≤ len / 4096 ∧
      (done = true → mapped = len / 4096) ∧
      added = [.map root (virt / 4096) mapped phys flags]
  | .unmapRangeIn root virt len => ∃ done,
      Paging.unmapRangeIn root virt len tables.machine = (.ok done, after.machine) ∧
      added = if done then [.unmap root (virt / 4096) (len / 4096)] else []
  | _ => added = []

def Logged (tables : Tables) : List Event → List Operation → Prop
  | [], log => log = []
  | event :: rest, log => ∃ after added later, tables.step event = some after ∧
      Records tables after added event ∧ Logged after rest later ∧ log = later ++ added

def Event.Private : Event → Prop
  | .mapPage _ _ _ | .unmapPage _ => False
  | _ => True

def Explains (page : Nat) (found : Option Leaf) : Option Operation → Prop
  | some (.map _ first _ phys flags) =>
      found = some (leafFor flags (phys + (page - first) * 4096))
  -- Where memory is out for a page table, the kernel's own entry stays.
  | some (.unmap _ _ _) => found = none ∨ found = some (Space.kernelLeaf page)
  | _ => found = some (Space.kernelLeaf page)

structure Explained (tables : Tables) (spaces : Nat → Space) (log : List Operation) : Prop where
  housed : tables.Housed spaces
  whole : ∀ block, (spaces tables.kernel).pt block = none
  upward : ∀ root, root ∈ tables.live → (spaces root).UserUpward
  views : ∀ root, root ∈ tables.live → ∀ page, page < 2 ^ 20 →
    Explains page ((spaces root).view page) (lastOn log root page)

namespace Explained

variable {tables after : Tables} {spaces spaces' : Nat → Space} {log added : List Operation}

theorem live_ne_kernel (explained : tables.Explained spaces log) {root : Nat}
    (live : root ∈ tables.live) : root ≠ tables.kernel := by
  rintro rfl
  exact (List.nodup_cons.mp explained.housed.nodup).1 live

theorem kernel_view (explained : tables.Explained spaces log) (page : Nat) :
    (spaces tables.kernel).view page = some (Space.kernelLeaf page) := by
  unfold Space.view
  rw [explained.whole]

theorem lastOn_append_of_not {root page : Nat}
    (untouched : ∀ operation, operation ∈ added → operation.touches root page = false) :
    lastOn (added ++ log) root page = lastOn log root page := by
  unfold lastOn
  rw [List.find?_append, List.find?_eq_none.mpr, Option.none_or]
  intro operation member
  rw [untouched operation member]
  decide

section

variable (explained : tables.Explained spaces log)
include explained

theorem of_edit {root : Nat} {space : Space} {operation : Operation} (live : root ∈ tables.live)
    (housed : after.Housed (Function.update spaces root space))
    (kernel : after.kernel = tables.kernel) (sameLive : after.live = tables.live)
    (upward : (spaces root).UserUpward → space.UserUpward)
    (elsewhere : ∀ other page, other ≠ root → operation.touches other page = false)
    (touched : ∀ page, page < 2 ^ 20 → operation.touches root page = true →
      Explains page (space.view page) (some operation))
    (untouched : ∀ page, page < 2 ^ 20 → operation.touches root page = false →
      space.view page = (spaces root).view page) :
    after.Explained (Function.update spaces root space) ([operation] ++ log) := by
  refine ⟨housed, ?_, ?_, ?_⟩
  · rw [kernel, update_of_ne (Ne.symm (explained.live_ne_kernel live))]
    exact explained.whole
  · rw [sameLive]
    intro other isLive
    by_cases same : other = root
    · subst same
      rw [update_self]
      exact upward (explained.upward other isLive)
    · rw [update_of_ne same]
      exact explained.upward other isLive
  · rw [sameLive]
    intro other isLive page inside
    by_cases same : other = root
    · subst same
      rw [update_self]
      cases touches : operation.touches other page with
      | true =>
          have last : lastOn ([operation] ++ log) other page = some operation := by
            unfold lastOn
            rw [List.singleton_append, List.find?_cons_of_pos touches]
          rw [last]
          exact touched page inside touches
      | false =>
          rw [lastOn_append_of_not (by simpa using touches), untouched page inside touches]
          exact explained.views other isLive page inside
    · rw [update_of_ne same,
        lastOn_append_of_not (by simpa using elsewhere other page same)]
      exact explained.views other isLive page inside

theorem of_same (housed : after.Housed spaces) (kernel : after.kernel = tables.kernel)
    (fewer : ∀ root, root ∈ after.live → root ∈ tables.live) : after.Explained spaces log :=
  ⟨housed, by rw [kernel]; exact explained.whole,
    fun root live => explained.upward root (fewer root live),
    fun root live => explained.views root (fewer root live)⟩

theorem step {event : Event} (isPrivate : event.Private) (sound : tables.Sound event)
    (stepped : tables.step event = some after) :
    ∃ spaces' added, Records tables after added event ∧ after.Explained spaces' (added ++ log) := by
  obtain ⟨kernel, spaces', housed', effect⟩ := explained.housed.step sound stepped
  cases event with
  | mapPage virt phys flags => exact absurd isPrivate id
  | unmapPage virt => exact absurd isPrivate id
  | build =>
      rcases effect with ⟨space, live, isNew, rfl, copy⟩ | ⟨live, rfl⟩
      · have notKernel : space.pml4 ≠ tables.kernel := fun same => isNew (by
          rw [same]
          exact tables.kernel_mem_roots)
        refine ⟨_, [.fresh space.pml4], ?_, housed', ?_, ?_, ?_⟩
        · simp [Records, live]
        · rw [kernel, update_of_ne (Ne.symm notKernel)]
          exact explained.whole
        · rw [live]
          intro root member
          rcases List.mem_append.mp member with old | new
          · have different : root ≠ space.pml4 := fun same => isNew (same ▸ mem_roots_of_live old)
            rw [update_of_ne different]
            exact explained.upward root old
          · rw [List.mem_singleton.mp new, update_self]
            exact fun _ _ split => absurd (copy.whole _ (explained.whole _)) split
        · rw [live]
          intro root member page inside
          rcases List.mem_append.mp member with old | new
          · have different : space.pml4 ≠ root := fun same => isNew (same ▸ mem_roots_of_live old)
            rw [update_of_ne (Ne.symm different),
              lastOn_append_of_not (by simp [Operation.touches, different])]
            exact explained.views root old page inside
          · rw [List.mem_singleton.mp new, update_self]
            have last : lastOn ([.fresh space.pml4] ++ log) space.pml4 page =
                some (.fresh space.pml4) := by
              simp [lastOn, Operation.touches]
            rw [last]
            show space.view page = some (Space.kernelLeaf page)
            rw [copy.view inside, explained.kernel_view]
      · refine ⟨spaces', [], ?_, explained.of_same housed' kernel (by rw [live]; exact fun _ => id)⟩
        simp [Records, live]
  | mapRangeIn root virt phys len flags =>
      obtain ⟨live, sameLive, done, frames, mapped, space, ran, rfl, upward, few, prefix', complete⟩ :=
        effect
      refine ⟨_, [.map root (virt / 4096) mapped phys flags],
        ⟨done, frames, mapped, ran, few, complete, rfl⟩,
        explained.of_edit live housed' kernel sameLive upward ?_ ?_ ?_⟩
      · intro other page different
        simp [Operation.touches, Ne.symm different]
      · intro page inside touches
        simp only [Operation.touches, decide_eq_true_eq, true_and] at touches
        show space.view page = _
        rw [prefix'.views page inside, if_pos touches]
      · intro page inside misses
        simp only [Operation.touches, decide_eq_false_iff_not, true_and] at misses
        rw [prefix'.views page inside, if_neg misses]
  | unmapRangeIn root virt len =>
      obtain ⟨live, sameLive, done, space, ran, rfl, upward, clears, kept⟩ := effect
      cases done with
      | false =>
          obtain rfl := kept rfl
          rw [update_eq_self] at housed'
          refine ⟨spaces, [], ⟨false, ran, rfl⟩, ?_⟩
          exact explained.of_same housed' kernel (by rw [sameLive]; exact fun _ => id)
      | true =>
          refine ⟨_, [.unmap root (virt / 4096) (len / 4096)], ⟨true, ran, rfl⟩,
            explained.of_edit live housed' kernel sameLive upward ?_ ?_ ?_⟩
          · intro other page different
            simp [Operation.touches, Ne.symm different]
          · intro page inside touches
            simp only [Operation.touches, decide_eq_true_eq, true_and] at touches
            show space.view page = none ∨ space.view page = some (Space.kernelLeaf page)
            rcases (clears rfl).inside page touches.1 touches.2 with gone | ⟨absent, same⟩
            · exact Or.inl gone
            · refine Or.inr (same.trans ?_)
              unfold Space.view
              rw [absent]
          · intro page inside misses
            simp only [Operation.touches, decide_eq_false_iff_not, true_and] at misses
            exact (clears rfl).outside page inside misses
  | activate root =>
      obtain ⟨live, rfl⟩ := effect
      exact ⟨_, [], rfl, explained.of_same housed' kernel (by rw [live]; exact fun _ => id)⟩
  | allocator pmm =>
      obtain ⟨live, rfl⟩ := effect
      exact ⟨_, [], rfl, explained.of_same housed' kernel (by rw [live]; exact fun _ => id)⟩
  | retire root =>
      obtain ⟨live, rfl⟩ := effect
      exact ⟨_, [], rfl, explained.of_same housed' kernel (by
        rw [live]
        exact fun _ => List.mem_of_mem_erase)⟩

theorem run {events : List Event} (isPrivate : ∀ event, event ∈ events → event.Private)
    (meets : Runs.Meets Tables.step Sound tables events)
    (ran : Runs.after Tables.step tables events = some after) :
    ∃ spaces' later, Logged tables events later ∧ after.Explained spaces' (later ++ log) := by
  induction events generalizing tables spaces log with
  | nil =>
      cases ran
      exact ⟨spaces, [], rfl, explained⟩
  | cons event rest ih =>
      rw [Runs.after] at ran
      cases stepped : Tables.step tables event with
      | none =>
          rw [stepped] at ran
          cases ran
      | some next =>
          rw [stepped] at ran
          obtain ⟨middle, added, records, explained'⟩ :=
            explained.step (isPrivate event List.mem_cons_self) meets.1 stepped
          obtain ⟨spaces', later, logged, final⟩ := ih explained'
            (fun other member => isPrivate other (List.mem_cons_of_mem _ member))
            (meets.2 next stepped) ran
          refine ⟨spaces', later ++ added, ⟨next, added, later, stepped, records, logged, rfl⟩, ?_⟩
          rw [List.append_assoc]
          exact final

end

end Explained
end Tables

namespace Tables.Explained

variable {tables : Tables} {spaces : Nat → Space} {log : List Operation} {root : Nat}

theorem walk_eq (explained : tables.Explained spaces log) (live : root ∈ tables.live) {virt : Nat}
    (inside : virt < identityMapEnd) :
    walk tables.machine.mem root virt = (spaces root).view (virt / 4096) := by
  have isRoot := mem_roots_of_live live
  have found := Space.walk_eq_view (explained.housed.wellFormed root isRoot)
    (explained.upward root live) (explained.housed.represents root isRoot) inside
  rwa [explained.housed.pml4 root isRoot] at found

section

variable (explained : tables.Explained spaces log) (live : root ∈ tables.live)
include explained live

theorem walk_above {virt : Nat} (above : identityMapEnd ≤ virt) (canonical : virt < 2 ^ 48) :
    walk tables.machine.mem root virt = none := by
  have isRoot := mem_roots_of_live live
  have found := Space.walk_eq_none (explained.housed.wellFormed root isRoot)
    (explained.housed.represents root isRoot) above canonical
  rwa [explained.housed.pml4 root isRoot] at found

theorem user_iff {virt : Nat} (inside : virt < identityMapEnd) :
    (∃ leaf, walk tables.machine.mem root virt = some leaf ∧ leaf.user = true) ↔
      ∃ operation, lastOn log root (virt / 4096) = some operation ∧ operation.opens = true := by
  have limit : virt < 4294967296 := inside
  rw [explained.walk_eq live inside]
  have explains := explained.views root live (virt / 4096) (by omega)
  have closed : ∀ {found}, found = some (Space.kernelLeaf (virt / 4096)) →
      ¬ ∃ leaf, found = some leaf ∧ leaf.user = true := by
    rintro found rfl ⟨leaf, same, user⟩
    rw [← Option.some.inj same] at user
    cases user
  cases last : lastOn log root (virt / 4096) with
  | none =>
      rw [last] at explains
      exact iff_of_false (closed explains) (by simp)
  | some operation =>
      rw [last] at explains
      cases operation with
      | fresh other => exact iff_of_false (closed explains) (by simp [Operation.opens])
      | unmap other first count =>
          refine iff_of_false ?_ (by simp [Operation.opens])
          rcases explains with gone | kept
          · rw [gone]
            simp
          · exact closed kept
      | map other first count phys flags =>
          have mapped : (spaces root).view (virt / 4096) =
              some (leafFor flags (phys + (virt / 4096 - first) * 4096)) := explains
          rw [mapped]
          simp [Operation.opens, leafFor]

theorem map_exact {virt phys len : Nat} (flags : BitVec 64) (frames : List Nat)
    (sound : tables.Sound (.mapRangeIn root virt phys len flags)) :
    ∃ done recorded machine,
      Paging.mapRangeIn root virt phys len flags frames tables.machine =
        (.ok (done, recorded), machine) ∧
      (done = true → ∀ at', virt ≤ at' → at' < virt + len →
        walk machine.mem root at' = some (leafFor flags (phys + (at' - virt) / 4096 * 4096))) ∧
      ∀ at', at' < 2 ^ 48 → ¬(virt ≤ at' ∧ at' < virt + len) →
        walk machine.mem root at' = walk tables.machine.mem root at' := by
  have isRoot := mem_roots_of_live live
  have pml4 := explained.housed.pml4 root isRoot
  obtain ⟨done, space, machine, fresh, mapped, ran, editing, extends', few, prefix', accepted,
    complete, -⟩ := explained.housed.mapRangeIn isRoot flags frames sound
  have samePml4 : space.pml4 = root := extends'.pml4.trans pml4
  have walked : ∀ at', at' < identityMapEnd →
      walk machine.mem root at' = space.view (at' / 4096) := by
    intro at' inside
    have found := Space.walk_eq_view editing.wellFormed
      (extends'.upward (explained.upward root live)) editing.represents inside
    rwa [samePml4] at found
  have fourGiB : identityMapEnd = 4294967296 := rfl
  refine ⟨done, _, machine, ran, ?_, ?_⟩
  · intro finished at' low high
    obtain ⟨⟨virtAligned, lenAligned, -, below⟩, rfl⟩ := complete finished
    rw [walked at' (by omega), prefix'.views _ (by omega), if_pos (by omega)]
    rw [show at' / 4096 - virt / 4096 = (at' - virt) / 4096 by omega]
  · intro at' canonical outside
    by_cases inside : at' < identityMapEnd
    · rw [walked at' inside, explained.walk_eq live inside, prefix'.views _ (by omega)]
      by_cases within : virt / 4096 ≤ at' / 4096 ∧ at' / 4096 < virt / 4096 + mapped
      · obtain ⟨virtAligned, lenAligned, -, -⟩ := accepted (by omega)
        omega
      · rw [if_neg within]
    · have gone := Space.walk_eq_none editing.wellFormed editing.represents
        (Nat.le_of_not_lt inside) canonical
      rw [samePml4] at gone
      rw [gone, explained.walk_above live (Nat.le_of_not_lt inside) canonical]

theorem upper_nx {virt : Nat} (inside : virt < identityMapEnd) {step : Nat × BitVec 64}
    (upper : step ∈ (walkPath tables.machine.mem root virt).dropLast) :
    step.2.getLsbD 63 = false := by
  have isRoot := mem_roots_of_live live
  refine Space.upper_nx (explained.housed.wellFormed root isRoot)
    (explained.housed.represents root isRoot) inside ?_
  rwa [explained.housed.pml4 root isRoot]

end

end Tables.Explained

namespace Boot

def Logs (boot : Boot) (events : List Tables.Event) (log : List Tables.Operation) : Prop :=
  ∃ sys, boot.start = some sys ∧ Tables.Logged (Tables.ofSystem sys) events log

theorem explained_start {boot : Boot} {sys : System} (valid : boot.Valid)
    (started : boot.start = some sys) :
    (Tables.ofSystem sys).Explained (fun _ => kernelSpace boot.pml4) [] :=
  ⟨Tables.housed_start valid started, fun _ => rfl, by simp [Tables.ofSystem],
    by simp [Tables.ofSystem]⟩

theorem explained_tables {boot : Boot} {events : List Tables.Event} {tables : Tables}
    (valid : boot.Valid) (isPrivate : ∀ event, event ∈ events → event.Private)
    (meets : boot.TablesMeet Tables.Sound events) (ran : boot.tables events = some tables) :
    ∃ spaces log, boot.Logs events log ∧ tables.Explained spaces log := by
  unfold Boot.tables at ran
  cases started : boot.start with
  | none =>
      rw [started] at ran
      cases ran
  | some sys =>
      rw [started] at ran
      obtain ⟨spaces, log, logged, explained⟩ :=
        (explained_start valid started).run isPrivate (meets sys started) ran
      rw [List.append_nil] at explained
      exact ⟨spaces, log, ⟨sys, started, logged⟩, explained⟩

/-- In every run whose edits kernel pointers can carry out: `map_range_in` is exact and keeps
to its range, ring 3 reaches exactly the pages last mapped with `PAGE_USER`, and no
intermediate entry carries NX. -/
theorem page_edits_exact {boot : Boot} {events : List Tables.Event} {tables : Tables}
    (valid : boot.Valid) (isPrivate : ∀ event, event ∈ events → event.Private)
    (meets : boot.TablesMeet Tables.Sound events) (ran : boot.tables events = some tables) :
    (∀ root, root ∈ tables.live → ∀ virt phys len flags frames,
      tables.Sound (.mapRangeIn root virt phys len flags) → ∃ done recorded machine,
        mapRangeIn root virt phys len flags frames tables.machine =
          (.ok (done, recorded), machine) ∧
        (done = true → ∀ at', virt ≤ at' → at' < virt + len →
          walk machine.mem root at' = some (leafFor flags (phys + (at' - virt) / 4096 * 4096))) ∧
        ∀ at', at' < 2 ^ 48 → ¬(virt ≤ at' ∧ at' < virt + len) →
          walk machine.mem root at' = walk tables.machine.mem root at') ∧
    (∃ log, boot.Logs events log ∧ ∀ root, root ∈ tables.live → (∀ virt, virt < identityMapEnd →
        ((∃ leaf, walk tables.machine.mem root virt = some leaf ∧ leaf.user = true) ↔
          ∃ operation, Tables.lastOn log root (virt / 4096) = some operation ∧
            operation.opens = true)) ∧
      ∀ virt, identityMapEnd ≤ virt → virt < 2 ^ 48 →
        walk tables.machine.mem root virt = none) ∧
    ∀ root, root ∈ tables.live → ∀ virt, virt < identityMapEnd →
      ∀ step, step ∈ (walkPath tables.machine.mem root virt).dropLast →
        step.2.getLsbD 63 = false := by
  obtain ⟨spaces, log, logged, explained⟩ := explained_tables valid isPrivate meets ran
  refine ⟨?_, ⟨log, logged, ?_⟩, ?_⟩
  · intro root live virt phys len flags frames sound
    exact explained.map_exact live flags frames sound
  · intro root live
    exact ⟨fun virt inside => explained.user_iff live inside,
      fun virt above canonical => explained.walk_above live above canonical⟩
  · intro root live virt inside step upper
    exact explained.upper_nx live inside upper

theorem page_edits_exact_mapped : ∃ tables root done recorded machine,
    plain.tables [.build] = some tables ∧ tables.live = [root] ∧
    mapRangeIn root 0x40000000 0x6800000 4096 (pagePresent ||| pageWritable ||| pageUser) []
      tables.machine = (.ok (done, recorded), machine) ∧
    (done = true → walk machine.mem root 0x40000000 =
      some { phys := 0x6800000, writable := true, user := true, noExecute := false }) ∧
    walk machine.mem root 0x40001000 = walk tables.machine.mem root 0x40001000 := by
  obtain ⟨tables, spaces, root, ran, meets, housed, live, active, different, kernel, -⟩ :=
    plain_built
  have isLive : root ∈ tables.live := by simp [live]
  have sound : tables.Sound (.mapRangeIn root 0x40000000 0x6800000 4096
      (pagePresent ||| pageWritable ||| pageUser)) :=
    ⟨by decide, housed.reaches active (fun page _ => by rw [kernel, kernelSpace_view])
      (Tables.mem_roots_of_live isLive), fun own => absurd (own.symm.trans active) different⟩
  obtain ⟨done, recorded, machine, mapping, exact', outside⟩ :=
    (page_edits_exact plain_valid (by simp [Tables.Event.Private]) meets ran).1 root isLive
      0x40000000 0x6800000 4096 (pagePresent ||| pageWritable ||| pageUser) [] sound
  refine ⟨tables, root, done, recorded, machine, ran, live, mapping, ?_,
    outside 0x40001000 (by omega) (by omega)⟩
  intro finished
  exact exact' finished 0x40000000 (le_refl _) (by omega)

theorem mapRangeIn_covered {space : Space} {machine : Machine} {virt phys other table : Nat}
    {flags : BitVec 64} {user : Bool} {leaf : Leaf} (frames : List Nat)
    (wellFormed : space.WellFormed) (represents : space.Represents machine.mem)
    (active : machine.cr3 = space.pml4) (topDirect : space.Direct space.pml4)
    (pdptDirect : space.Direct space.pdpt) (valid : ValidRange virt 4096)
    (physAligned : phys % 4096 = 0) (closed : flags.getLsbD 2 = false)
    (covered : space.view (space.pd (virt / 2 ^ 30) / 4096) = some leaf) (leads : leaf.phys = other)
    (entry : machine.mem.readU64 (other + 8 * (virt / 2 ^ 21 % 512)) = upperEntry table user)
    (tableAligned : table % 4096 = 0) (tableBounded : table < identityMapEnd)
    (tableDirect : space.Direct table) :
    mapRangeIn space.pml4 virt phys 4096 flags frames machine =
      (.ok (true, frames), { machine with
        mem := machine.mem.writeU64 (table + 8 * (virt / 2 ^ 12 % 512))
          (BitVec.ofNat 64 phys ||| (flags &&& presentMask) ||| pagePresent) }) := by
  obtain ⟨virtAligned, -, -, inside⟩ := valid
  have fourGiB : identityMapEnd = 4294967296 := rfl
  have gigabyteInside : virt / 2 ^ 30 < 4 := by omega
  have pdAligned := wellFormed.aligned _ (Space.owns_pd gigabyteInside)
  have pdBounded := wellFormed.bounded _ (Space.owns_pd gigabyteInside)
  have masked : (flags &&& presentMask).getLsbD 2 = false := by
    rw [BitVec.getLsbD_and, closed, Bool.false_and]
  have pdLoad : loadU64 (space.pd (virt / 2 ^ 30) + 8 * (virt / 2 ^ 21 % 512)) machine =
      (.ok (upperEntry table user), machine) := by
    have page : space.pd (virt / 2 ^ 30) / 4096 =
        (space.pd (virt / 2 ^ 30) + 8 * (virt / 2 ^ 21 % 512)) / 4096 := by omega
    rw [page] at covered
    have resolved := Space.resolve_of_view wellFormed represents active (by omega) covered
    rw [leads, show (space.pd (virt / 2 ^ 30) + 8 * (virt / 2 ^ 21 % 512)) % 4096 =
      8 * (virt / 2 ^ 21 % 512) by omega] at resolved
    unfold loadU64
    simp only [resolved, entry]
  have found : ptEntryPtrIn space.pml4 virt (flags &&& presentMask) (some frames) machine =
      (.ok (some (table + 8 * (virt / 2 ^ 12 % 512)), some frames), machine) := by
    obtain ⟨bit0, -, -, bit7⟩ := upperEntry_bits user tableAligned
    rw [ptEntryPtrIn_directory _ _ wellFormed represents active topDirect pdptDirect (by omega)
      masked]
    unfold tableEntry
    rw [bind_of_ok pdLoad]
    simp only [and_pagePresent_eq_zero, bit0, Bool.true_eq_false, if_false, ne_eq,
      and_psBit_eq_zero, bit7, not_true]
    rw [bind_of_ok pdLoad]
    unfold promoteUser
    rw [if_neg (fun both => both.1 ((and_pageUser_eq_zero _).mpr masked)),
      tableBase_upperEntry _ tableAligned tableBounded]
    rfl
  have stored : storeU64 (table + 8 * (virt / 2 ^ 12 % 512))
      (BitVec.ofNat 64 phys ||| (flags &&& presentMask) ||| pagePresent) machine =
        (.ok (), { machine with
          mem := machine.mem.writeU64 (table + 8 * (virt / 2 ^ 12 % 512))
            (BitVec.ofNat 64 phys ||| (flags &&& presentMask) ||| pagePresent) }) := by
    obtain ⟨reached, view, target⟩ := tableDirect
    rw [show table / 4096 = (table + 8 * (virt / 2 ^ 12 % 512)) / 4096 by omega] at view
    have resolved := Space.resolve_of_view wellFormed represents active (by omega) view
    rw [target, show table + (table + 8 * (virt / 2 ^ 12 % 512)) % 4096 =
      table + 8 * (virt / 2 ^ 12 % 512) by omega] at resolved
    unfold storeU64
    simp only [resolved]
  unfold mapRangeIn
  rw [if_neg]
  · show mapPages space.pml4 flags 1 virt phys frames machine = _
    rw [mapPages, bind_of_ok found]
    simp only []
    rw [bind_of_ok stored]
    rfl
  · simp only [show pageSize = 4096 from rfl]
    omega

/-- The process's own table leads the address of one of its directories to the kernel's
`pdp`: the next map below that directory returns true, and the page stays as it was. -/
theorem page_edits_exact_covered : ∃ tables root virt machine recorded,
    plain.tables [.build,
      .mapRangeIn root virt (plain.pml4 + 4096) 4096 (pagePresent ||| pageWritable),
      .activate root] = some tables ∧ tables.live = [root] ∧
    (∀ frame, tables.machine.pmm.Free frame → ∀ other, other ∈ tables.roots →
      ¬ TableFrame tables.machine.mem other frame) ∧
    mapRangeIn root 0x40064000 0x6800000 4096 (pagePresent ||| pageWritable) []
      tables.machine = (.ok (true, recorded), machine) ∧
    walk machine.mem root 0x40064000 ≠
      some (leafFor (pagePresent ||| pageWritable) 0x6800000) := by
  obtain ⟨tables, spaces, root, ran, meets, housed, live, active, different, kernel, stocked,
    low, views⟩ := plain_built
  have isLive : root ∈ tables.live := by simp [live]
  have isRoot := Tables.mem_roots_of_live isLive
  have placed : (spaces root).frameAt (.pd 1) = some ((spaces root).pd 1) := rfl
  generalize (spaces root).pd 1 = virt at placed
  have virtAligned := (housed.wellFormed root isRoot).aligned virt ⟨_, placed⟩
  have virtBounded := low virt ⟨_, placed⟩
  have fourGiB : identityMapEnd = 4294967296 := rfl
  have sound : tables.Sound (.mapRangeIn root virt (plain.pml4 + 4096) 4096
      (pagePresent ||| pageWritable)) :=
    ⟨by decide, housed.reaches active (fun page _ => by rw [kernel, kernelSpace_view]) isRoot,
      fun own => absurd (own.symm.trans active) different⟩
  obtain ⟨done, space, machine, fresh, mapped, mapping, editing, extends', -, prefix', -,
    complete, progress⟩ := housed.mapRangeIn isRoot (pagePresent ||| pageWritable) [] sound
  have valid : ValidRange virt 4096 := by
    unfold ValidRange
    omega
  have few : tablesNeeded (spaces root) (virt / 4096) (4096 / 4096) ≤ 1 := by
    unfold tablesNeeded
    split
    · omega
    · split <;> omega
  obtain ⟨-, rfl⟩ := complete (progress valid (by decide) (stocked.of_le few))
  have housed' := housed.edited isRoot editing extends'
  -- The run: the page is mapped from the kernel's table, then the process is switched in.
  have first : tables.step (.mapRangeIn root virt (plain.pml4 + 4096) 4096
      (pagePresent ||| pageWritable)) = some { tables with machine } := by
    simp only [Tables.step, if_pos isLive, Tables.edit, mapping]
  have second : Tables.step { tables with machine } (.activate root) =
      some { tables with machine := { machine with cr3 := root } } :=
    if_pos isRoot
  have next := tables_snoc (tables_snoc ran first) second
  have pml4 : space.pml4 = root := extends'.pml4.trans (housed.pml4 root isRoot)
  have directory : space.pd 1 = virt := by
    simpa [Space.frameAt] using extends'.places _ _ placed
  -- Only the page of the directory leads elsewhere.
  have elsewhere : ∀ page, page < 2 ^ 20 → page ≠ virt / 4096 →
      space.view page = some (Space.kernelLeaf page) := by
    intro page inside other
    rw [prefix'.views page inside, if_neg (by omega), views page inside]
  have covered : space.view (virt / 4096) =
      some (leafFor (pagePresent ||| pageWritable) (plain.pml4 + 4096)) := by
    rw [prefix'.views _ (by omega), if_pos (by omega), Nat.sub_self, Nat.zero_mul, Nat.add_zero]
  have direct : ∀ node frame, space.frameAt node = some frame → node ≠ .pd 1 →
      space.Direct frame := by
    intro node frame found other
    have aligned := editing.wellFormed.aligned frame ⟨node, found⟩
    have bounded := editing.wellFormed.bounded frame ⟨node, found⟩
    have apart : frame ≠ virt := by
      rintro rfl
      exact other (editing.wellFormed.distinct node (.pd 1) frame found
        (by simpa [Space.frameAt] using directory))
    refine ⟨_, elsewhere _ (by omega) (by omega), ?_⟩
    simp only [Space.kernelLeaf]
    omega
  have isKernel := tables.kernel_mem_roots
  have kernelRepresents := housed'.represents _ isKernel
  rw [Function.update_of_ne (Ne.symm different), kernel] at kernelRepresents
  have lower : (kernelSpace plain.pml4).Owns ((kernelSpace plain.pml4).pd 0) :=
    Space.owns_pd (by decide)
  have kernelApart : ¬ space.Owns ((kernelSpace plain.pml4).pd 0) := by
    have apart := housed'.apart _ isKernel root isRoot (Ne.symm different)
      ((kernelSpace plain.pml4).pd 0)
    rw [Function.update_of_ne (Ne.symm different), kernel, Function.update_self] at apart
    exact apart lower
  have entry : machine.mem.readU64 (plain.pml4 + 4096 + 8 * 0) =
      upperEntry ((kernelSpace plain.pml4).pd 0) false :=
    kernelRepresents .pdpt _ 0 rfl (by decide)
  have tableAligned : (kernelSpace plain.pml4).pd 0 % 4096 = 0 := by decide
  have tableBounded : (kernelSpace plain.pml4).pd 0 < 0x40000000 := by decide
  have tableApart : (kernelSpace plain.pml4).pd 0 ≠ virt := by
    intro same
    rw [same, ← directory] at kernelApart
    exact kernelApart (Space.owns_pd (by decide))
  generalize (kernelSpace plain.pml4).pd 0 = table at *
  have page : ∃ page, page = 0x40064000 := ⟨_, rfl⟩
  obtain ⟨page, same⟩ := page
  rw [← same]
  have pageValid : ValidRange page 4096 := by
    unfold ValidRange
    omega
  have edit := @mapRangeIn_covered space { machine with cr3 := root } page 0x6800000 _ _
    (pagePresent ||| pageWritable) _ _ [] editing.wellFormed editing.represents pml4.symm
    (direct .pml4 _ rfl (by simp)) (direct .pdpt _ rfl (by simp)) pageValid (by decide) (by decide)
    (by rw [show page / 2 ^ 30 = 1 by omega, directory]; exact covered) rfl
    (by rw [show page / 2 ^ 21 % 512 = 0 by omega]; exact entry) tableAligned (by omega)
    ⟨_, elsewhere _ (by omega) (by omega), by simp only [Space.kernelLeaf]; omega⟩
  rw [pml4] at edit
  refine ⟨_, root, virt, _, [], next, live, ?_, edit, ?_⟩
  · intro frame free other isOther held
    exact housed'.used other isOther frame ((housed'.tableFrame_iff isOther).mp held) free
  · intro mapped
    have agree := Space.agreeOutside_writeU64 machine.mem
      (BitVec.ofNat 64 0x6800000 ||| ((pagePresent ||| pageWritable) &&& presentMask) |||
        pagePresent) tableAligned (show page / 2 ^ 12 % 512 < 512 by omega)
    have represents := editing.represents.congr editing.wellFormed agree (by
      rintro frame owns rfl
      exact kernelApart owns)
    have phys := Space.walk_phys editing.wellFormed represents (show page < identityMapEnd by omega)
    rw [pml4, elsewhere _ (by omega) (by omega)] at phys
    have target := (congrArg (Option.map Leaf.phys) mapped).symm.trans phys
    simp only [Option.map_some, Option.some.injEq, leafFor, Space.kernelLeaf] at target
    omega

end Boot
end MachaOS
