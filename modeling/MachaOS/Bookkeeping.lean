/-
The record of a process against its page table.

The record is a list of mappings, searched from its front; the table is overwritten from the back.
The two agree while no address is on record twice: what ring 3 can reach is on record, where it
leads, and what is on record can be reached.
-/

import MachaOS.Regions

namespace MachaOS

open List
open Fallible Machine Paging

theorem MemoryAct.flags_user (act : MemoryAct) : act.flags.getLsbD 2 = true := by
  have protects : ∀ writable executable,
      (Process.protFlags writable executable).getLsbD 2 = true := by
    decide
  have isData : Process.dataFlags.getLsbD 2 = true := by
    decide
  cases act with
  | mmap at' len writable executable content => exact protects writable executable
  | mmapShared at' table shmId writable executable => exact protects writable executable
  | mprotect addr len writable executable => exact protects writable executable
  | brk requested => exact isData
  | munmap addr len => exact isData
  | grow faultAddr => exact isData

namespace Process

def GrownInto (proc : Process) (page : Nat) : Prop :=
  ¬ (userStackLowLimit ≤ page * 4096 ∧ page * 4096 < proc.stackLow)

structure Agrees (proc : Process) (space : Space) : Prop where
  once : proc.mappings.Pairwise
    (fun first second => ∀ address, first.Covers address → ¬ second.Covers address)
  told : Loader.Matched proc.mappings space
  shown : ∀ mapping, mapping ∈ proc.mappings → ∀ page, mapping.Covers (page * 4096) →
    proc.GrownInto page → ∃ leaf, space.view page = some leaf ∧ leaf.user = true

/-- A request maps what is not on record yet, with frames to spare for its tables, and the stack
grows while the mapping of its region is on record. -/
structure Fresh (act : MemoryAct) (proc : Process) (machine : Machine) : Prop where
  clear : ∀ virt len, act.range proc = some (virt, len) →
    ∀ mapping, mapping ∈ proc.mappings → ∀ address, InRange virt len address →
      ¬ mapping.Covers address
  stocked : ∀ mapping block pmm, act.range proc = some (mapping.vaddr, mapping.len) →
    act.Backs machine mapping block pmm →
    Pmm.Stocked (blocksTouched mapping.vaddr mapping.len) pmm
  grows : proc.GrowsRecorded act

namespace Agrees

variable {proc proc' : Process} {space after : Space} {machine : Machine}
  {kept : Nat → Prop} {mem : ByteMemory}

theorem same (agrees : proc.Agrees space) {first second : Mapping}
    (left : first ∈ proc.mappings) (right : second ∈ proc.mappings) {address : Nat}
    (covers : first.Covers address) (covers' : second.Covers address) : first = second := by
  by_contra different
  have symmetric : Std.Symm (fun first second : Mapping =>
      ∀ address, first.Covers address → ¬ second.Covers address) :=
    ⟨fun _ _ apart address inSecond inFirst => apart address inFirst inSecond⟩
  exact agrees.once.forall left right different address covers covers'

theorem translateLocal (agrees : proc.Agrees space) (hosted : Hosted kept proc space mem)
    {mapping : Mapping} (member : mapping ∈ proc.mappings) {page : Nat}
    (covers : mapping.Covers (page * 4096)) :
    proc.translateLocal (page * 4096) 4096 =
      some (mapping.phys + (page * 4096 - mapping.vaddr)) := by
  obtain ⟨aligned, whole, -, below⟩ := (hosted.placed mapping member).valid
  have fourGiB : identityMapEnd = 4294967296 := rfl
  have word : wordLimit = 18446744073709551616 := rfl
  have inside : mapping.vaddr ≤ page * 4096 ∧ page * 4096 + 4096 ≤ mapping.vaddr + mapping.len := by
    unfold Mapping.Covers at covers
    omega
  unfold Process.translateLocal
  rw [if_neg (by omega)]
  cases found : proc.mappings.find?
      (fun m => decide (m.vaddr ≤ page * 4096 ∧ page * 4096 + 4096 ≤ m.vaddr + m.len)) with
  | none =>
      have refused := List.find?_eq_none.mp found mapping member
      rw [decide_eq_true_eq] at refused
      exact absurd inside refused
  | some other =>
      have fits := List.find?_some found
      rw [decide_eq_true_eq] at fits
      obtain rfl := agrees.same (mem_of_find?_eq_some found) member
        (show other.Covers (page * 4096) from ⟨fits.1, by omega⟩) covers
      rfl

theorem small (hosted : Hosted kept proc space mem) {mapping : Mapping}
    (member : mapping ∈ proc.mappings) {page : Nat} (covers : mapping.Covers (page * 4096)) :
    page < 2 ^ 20 := by
  obtain ⟨-, -, -, below⟩ := (hosted.placed mapping member).valid
  have fourGiB : identityMapEnd = 4294967296 := rfl
  unfold Mapping.Covers at covers
  omega

theorem congr (agrees : proc.Agrees space) (same : proc'.books = proc.books) :
    proc'.Agrees space := by
  have mappings : proc'.mappings = proc.mappings := congrArg Books.mappings same
  have low : proc'.stackLow = proc.stackLow := congrArg Books.stackLow same
  constructor
  · rw [mappings]
    exact agrees.once
  · rw [mappings]
    exact agrees.told
  · intro mapping member page covers grown
    rw [mappings] at member
    unfold GrownInto at grown
    rw [low] at grown
    exact agrees.shown mapping member page covers grown

theorem mapped (agrees : proc.Agrees space) (hosted : Hosted kept proc space mem) {act : MemoryAct} {mapping : Mapping} {pages : Nat}
    (whole : mapping.len % 4096 = 0)
    (clear : ∀ other, other ∈ proc.mappings → ∀ address,
      InRange mapping.vaddr mapping.len address → ¬ other.Covers address)
    (mappings : proc'.mappings = proc.mappings ++ [mapping])
    (low : proc'.stackLow = proc.stackLow) (opens : act.flags.getLsbD 2 = true)
    (remaps : Hosted.Remaps space after mapping.vaddr mapping.phys mapping.len act.flags true
      pages) : proc'.Agrees after := by
  obtain ⟨⟨aligned, -, positive, below⟩, rfl⟩ := remaps.complete rfl
  have fourGiB : identityMapEnd = 4294967296 := rfl
  have inside : ∀ page, mapping.vaddr / 4096 ≤ page ∧
      page < mapping.vaddr / 4096 + mapping.len / 4096 ↔ mapping.Covers (page * 4096) := by
    intro page
    unfold Mapping.Covers
    omega
  have outside : ∀ other page, other ∈ proc.mappings → other.Covers (page * 4096) →
      ¬ mapping.Covers (page * 4096) :=
    fun other page member covers within => clear other member _ within covers
  constructor
  · rw [mappings]
    apply pairwise_append.mpr
    refine ⟨agrees.once, pairwise_singleton _ _, ?_⟩
    intro other member new same address covers covers'
    obtain rfl := mem_singleton.mp same
    exact clear other member address covers' covers
  · intro page leaf small found isUser
    rw [remaps.views.views page small] at found
    rw [mappings]
    split at found
    · rename_i within
      cases found
      have covers := (inside page).mp within
      refine ⟨mapping, mem_append_right _ mem_cons_self, covers, ?_⟩
      unfold Mapping.Covers at covers
      simp only [leafFor]
      omega
    · obtain ⟨other, member, covers, phys⟩ := agrees.told page leaf small found isUser
      exact ⟨other, mem_append_left _ member, covers, phys⟩
  · intro other member page covers grown
    unfold GrownInto at grown
    rw [low] at grown
    rw [mappings] at member
    rcases mem_append.mp member with old | new
    · obtain ⟨leaf, found, isUser⟩ := agrees.shown other old page covers grown
      refine ⟨leaf, ?_, isUser⟩
      rw [remaps.views.views page (small hosted old covers), if_neg]
      · exact found
      · exact fun within => outside other page old covers ((inside page).mp within)
    · obtain rfl := mem_singleton.mp new
      have within := (inside page).mpr covers
      refine ⟨leafFor act.flags (other.phys + (page - other.vaddr / 4096) * 4096), ?_, opens⟩
      rw [remaps.views.views page (by omega), if_pos within]

theorem remapped (agrees : proc.Agrees space) (again : Nat → Prop)
    (hosted : Hosted kept proc space mem) (mappings : proc'.mappings = proc.mappings)
    {flags : BitVec 64} (opens : flags.getLsbD 2 = true)
    (touched : ∀ page, page < 2 ^ 20 → again page → ∃ mapping, mapping ∈ proc.mappings ∧
      mapping.Covers (page * 4096) ∧ after.view page =
        some (leafFor flags (mapping.phys + (page * 4096 - mapping.vaddr))))
    (untouched : ∀ page, page < 2 ^ 20 → ¬ again page → after.view page = space.view page)
    (low : ∀ page, proc'.GrownInto page → proc.GrownInto page ∨ again page) :
    proc'.Agrees after := by
  constructor
  · rw [mappings]
    exact agrees.once
  · intro page leaf small found isUser
    rw [mappings]
    by_cases changed : again page
    · obtain ⟨mapping, member, covers, view⟩ := touched page small changed
      rw [view] at found
      cases found
      exact ⟨mapping, member, covers, rfl⟩
    · rw [untouched page small changed] at found
      exact agrees.told page leaf small found isUser
  · intro mapping member page covers grown
    rw [mappings] at member
    have inside := small hosted member covers
    by_cases changed : again page
    · obtain ⟨other, -, -, view⟩ := touched page inside changed
      exact ⟨_, view, opens⟩
    · rw [untouched page inside changed]
      rcases low page grown with before | now
      · exact agrees.shown mapping member page covers before
      · exact absurd now changed

theorem grown (agrees : proc.Agrees space) (hosted : Hosted kept proc space mem) {newLow : Nat}
    (recorded : Loader.stackMapping proc.stackPhysBase ∈ proc.mappings)
    (aligned : newLow % 4096 = 0)
    (inside : userStackLowLimit ≤ newLow ∧ newLow < proc.stackLow)
    (mappings : proc'.mappings = proc.mappings) (low : proc'.stackLow = newLow)
    (remaps : Hosted.Remaps space after newLow (proc.stackPhysFor newLow)
      (proc.stackLow - newLow) dataFlags true ((proc.stackLow - newLow) / 4096)) :
    proc'.Agrees after := by
  obtain ⟨-, highest, lowAligned⟩ := hosted.stackLow
  have limit : userStackLowLimit = 0xFF00000 := rfl
  have top : userStackTop = 0x10000000 := rfl
  have region : userStackMaxPages * pageSize = 0x100000 := rfl
  apply agrees.remapped (fun page => newLow / 4096 ≤ page ∧
    page < newLow / 4096 + (proc.stackLow - newLow) / 4096) hosted mappings
    (show dataFlags.getLsbD 2 = true by decide)
  · intro page small within
    refine ⟨_, recorded, ?_, ?_⟩
    · unfold Mapping.Covers Loader.stackMapping
      dsimp only
      omega
    · rw [remaps.views.views page small, if_pos within]
      unfold stackPhysFor Loader.stackMapping
      dsimp only
      rw [show proc.stackPhysBase + (newLow - userStackLowLimit) +
        (page - newLow / 4096) * 4096 =
          proc.stackPhysBase + (page * 4096 - userStackLowLimit) by omega]
  · intro page small beyond
    rw [remaps.views.views page small, if_neg beyond]
  · intro page grown
    unfold GrownInto at grown ⊢
    rw [low] at grown
    omega

theorem unmapped (agrees : proc.Agrees space) (hosted : Hosted kept proc space mem)
    {start stop : Nat}
    (mappings : proc'.mappings =
      proc.mappings.filter (fun mapping => !decide (Covered start stop mapping)))
    (low : proc'.stackLow = proc.stackLow)
    (cleared : Hosted.Cleared start stop proc.mappings space after) : proc'.Agrees after := by
  have stays : ∀ mapping, mapping ∈ proc'.mappings ↔
      mapping ∈ proc.mappings ∧ ¬ Covered start stop mapping := by
    intro mapping
    rw [mappings, mem_filter, Bool.not_eq_true', decide_eq_false_iff_not]
  constructor
  · rw [mappings]
    exact agrees.once.filter _
  · intro page leaf inside found isUser
    have outside : ∀ mapping, mapping ∈ proc.mappings → Covered start stop mapping →
        ¬ mapping.Covers (page * 4096) := by
      intro mapping member covered covers
      have gone := (cleared page inside).1 ⟨mapping, member, covered, covers⟩
      rw [found] at gone
      cases gone
    rw [(cleared page inside).2 outside] at found
    obtain ⟨mapping, member, covers, phys⟩ := agrees.told page leaf inside found isUser
    exact ⟨mapping, (stays mapping).mpr ⟨member, fun covered => outside mapping member covered covers⟩,
      covers, phys⟩
  · intro mapping member page covers grown
    obtain ⟨old, left⟩ := (stays mapping).mp member
    unfold GrownInto at grown
    rw [low] at grown
    rw [(cleared page (small hosted old covers)).2]
    · exact agrees.shown mapping old page covers grown
    · intro other inRecord covered within
      obtain rfl := agrees.same inRecord old within covers
      exact left covered

theorem change (agrees : proc.Agrees space) {act : MemoryAct}
    (hosted : Hosted kept proc space machine.mem) (fresh : Fresh act proc machine)
    (change : act.Change proc proc' machine space after) : proc'.Agrees after := by
  cases change with
  | unchanged books same =>
      rw [same]
      exact agrees.congr books
  | @mapped mapping block taken pmm done pages range whole backs books remaps stocked =>
      have mappings := congrArg Books.mappings books
      have low := congrArg Books.stackLow books
      have opens : act.flags.getLsbD 2 = true := act.flags_user
      cases done with
      | true => exact agrees.mapped hosted whole (fresh.clear _ _ range) mappings low opens remaps
      | false =>
          have invalid : ¬ ValidRange mapping.vaddr mapping.len := by
            intro valid
            cases stocked valid (fresh.stocked mapping block pmm range backs)
          obtain rfl := remaps.invalid invalid
          refine agrees.remapped (fun _ => False) hosted mappings opens
            (fun _ _ none' => none'.elim) (fun page small _ => ?_) (fun page grown => Or.inl ?_)
          · rw [remaps.views.views page small, if_neg (by omega)]
          · unfold GrownInto at grown ⊢
            rwa [show proc'.stackLow = proc.stackLow from low] at grown
  | @grown faultAddr newLow asked low aligned inside books remaps =>
      refine agrees.grown hosted (fresh.grows faultAddr asked ?_ ?_) aligned inside
        (congrArg Books.mappings books) (congrArg Books.stackLow books) remaps
      · rw [low] at inside
        exact le_trans inside.1 (alignDown_le faultAddr)
      · obtain ⟨-, -, lowAligned⟩ := hosted.stackLow
        unfold alignDown at low
        omega
  | @reprotected addr len changed writable executable taken asked books recorded views =>
      refine agrees.remapped
        (fun page => alignDown addr / 4096 ≤ page ∧ page < alignDown addr / 4096 + changed) hosted
        (congrArg Books.mappings books) act.flags_user (fun page small within => ?_) (fun page small beyond => ?_) (fun page grown => Or.inl ?_)
      · have start := alignDown_mod addr
        have told := recorded (page - alignDown addr / 4096) (by omega)
        rw [show alignDown addr + (page - alignDown addr / 4096) * 4096 = page * 4096 by omega]
          at told
        obtain ⟨phys, translated⟩ := Option.ne_none_iff_exists'.mp told
        obtain ⟨mapping, member, lower, upper, rfl⟩ := Hosted.translateLocal_some translated
        refine ⟨mapping, member, ⟨lower, by omega⟩, ?_⟩
        rw [views page small, if_pos within, translated]
        rfl
      · rw [views page small, if_neg beyond]
      · unfold GrownInto at grown ⊢
        rwa [show proc'.stackLow = proc.stackLow from congrArg Books.stackLow books] at grown
  | unmapped asked mappings remaining cleared stack =>
      exact agrees.unmapped hosted mappings stack.1 cleared

theorem loaded {kernel : Space} {pool cover : Nat → Prop} {origin : ByteMemory}
    (loaded : Loaded kernel pool cover origin space machine proc)
    (apart : (proc.mappings.map Mapping.range).Pairwise System.RangesApart) :
    proc.Agrees space := by
  obtain ⟨⟨filled, laid, recorded⟩, stack⟩ := loaded
  have limit : userStackLowLimit = 0xFF00000 := rfl
  have top : userStackTop = 0x10000000 := rfl
  have region : userStackMaxPages * pageSize = 0x100000 := rfl
  constructor
  · rw [pairwise_map] at apart
    refine apart.imp ?_
    intro first second either address inFirst inSecond
    unfold System.RangesApart Mapping.range at either
    unfold Mapping.Covers at inFirst inSecond
    dsimp only at either
    omega
  · exact laid.matched
  · intro mapping member page covers grown
    rcases recorded mapping member with inFilled | rfl
    · exact (laid.shown mapping inFilled page covers).2
    · refine (stack.shown page ?_).2
      have inner := stack.lowInside
      unfold GrownInto at grown
      unfold Mapping.Covers Loader.stackMapping at covers
      dsimp only at covers
      unfold InRange
      omega

end Agrees

theorem endures_agrees (kept : Nat → Prop) :
    System.Endures kept Process.Fresh (fun ranges => ranges.Pairwise System.RangesApart)
      Process.Agrees := by
  constructor
  · exact fun _ _ _ same agrees => agrees.congr same
  · exact fun _ _ _ _ _ _ hosted _ agrees fresh change => agrees.change hosted fresh change
  · exact fun _ _ _ _ _ _ _ loaded _ apart => Agrees.loaded loaded apart

end Process

namespace Boot

variable {boot : Boot} {events : List System.Event} {sys : System}

def Orderly (boot : Boot) (events : List System.Event) : Prop :=
  boot.Meets (fun state event => System.Careful (fun _ => False) state event ∧
    System.Allows Process.Fresh (fun ranges => ranges.Pairwise System.RangesApart) state event)
    events

theorem housing_of_orderly (valid : boot.Valid) (orderly : boot.Orderly events)
    (ran : boot.run events = some sys) :
    System.Housing boot (fun _ => False) Process.Agrees sys :=
  housing_run valid (Process.endures_agrees _) (fun _ none' => none'.elim) orderly ran

/-! ### One program -/

theorem orderly_gigabyte : plain.Orderly gigabyteEvents := by
  apply meets_gigabyte
  · intro first started
    refine ⟨careful_gigabyte plain_fits started (fun _ none' => none'.elim), ?_, ?_⟩
    · intro _ _ _ _ asked
      cases asked
    · intro ranges count _ claimed
      rw [(claimed_gigabyte plain_fits started claimed).1, linuxRanges_gigabyte]
      apply pairwise_pair.mpr
      exact Or.inr (show Process.userStackTop ≤ 0x40000000 by decide)
  · intro state
    refine ⟨careful_schedule _ state, ?_, ?_⟩
    · intro _ _ _ _ asked
      cases asked
    · intro _ _ _ claimed
      cases claimed

namespace Alone

variable {length : Nat} {proc : Process} {space : Space}

theorem covers_recorded (alone : Alone length sys proc space) {mapping : Mapping}
    (member : mapping ∈ proc.mappings) {address : Nat} (covers : mapping.Covers address) :
    gigabyteCover address := by
  have range := mem_map_of_mem (f := Mapping.range) member
  rw [alone.mappings] at range
  exact claims_gigabyte _ range address covers.1 covers.2

theorem orderly_mmap (alone : Alone 0xFF00000 sys proc space)
    (ran : plain.run gigabyteEvents = some sys) {virt pages : Nat}
    (valid : ValidRange virt (pages * 4096))
    (few : pages + blocksTouched virt (pages * 4096) ≤ 2048)
    (apart : ∀ address, lowRam address → ¬ InRange virt (pages * 4096) address)
    (clear : ∀ address, gigabyteCover address → ¬ InRange virt (pages * 4096) address) :
    plain.Orderly (gigabyteEvents ++ [.mmap virt (pages * 4096) 3 0x32 0 []]) := by
  apply meets_snoc orderly_gigabyte
  intro state reached
  obtain rfl := Option.some.inj (reached.symm.trans ran)
  refine ⟨alone.careful_mmap plain_fits valid few apart (fun _ none' => none'.elim), ?_, ?_⟩
  · intro cr3 other act calling asked
    rw [alone.calling] at calling
    cases calling
    rw [act_mmap valid] at asked
    cases asked
    have range : MemoryAct.range (.mmap (some virt) (pages * 4096) true false none) proc =
        some (virt, pages * 4096) := mmapRange_fixed valid
    constructor
    · intro start size same mapping member address within covers
      rw [range] at same
      cases same
      exact clear address (alone.covers_recorded member covers) within
    · intro mapping block pmm same backs
      rw [range] at same
      obtain ⟨rfl, length⟩ := Prod.mk.inj (Option.some.inj same)
      rw [← length]
      rcases backs with ⟨-, -, given⟩ | ⟨_, _, _, _, _, other, -⟩
      · rw [← length, Nat.mul_div_cancel _ (by decide)] at given
        exact ((alone.stock.of_le few).allocContiguous_some given).2.stocked trivial
      · cases other
    · intro faultAddr grows
      cases grows
  · intro _ _ _ claimed
    cases claimed

end Alone

/-- In every state of an orderly run the record of a process and its table agree. -/
theorem record_agrees (valid : boot.Valid) (orderly : boot.Orderly events)
    (ran : boot.run events = some sys) {index : Nat} {task : Task} {proc : Process}
    (found : sys.tasks[index]? = some task) (isProcess : task.process = some proc) :
    (∀ virt leaf, virt < 2 ^ 48 → virt % 4096 = 0 →
      walk sys.machine.mem task.cr3 virt = some leaf → leaf.user = true →
      proc.translateLocal virt 4096 = some leaf.phys) ∧
    ∀ mapping, mapping ∈ proc.mappings → ∀ virt, virt % 4096 = 0 → mapping.Covers virt →
      ¬ (Process.userStackLowLimit ≤ virt ∧ virt < proc.stackLow) →
      ∃ leaf, walk sys.machine.mem task.cr3 virt = some leaf ∧ leaf.user = true ∧
        leaf.phys = mapping.phys + (virt - mapping.vaddr) := by
  have housing := housing_of_orderly valid orderly ran
  obtain ⟨space, pml4, hosted, agrees⟩ := housing.homes.spaces index task proc found isProcess
  have fourGiB : identityMapEnd = 4294967296 := rfl
  rw [← pml4]
  constructor
  · intro virt leaf canonical aligned walked isUser
    have inside : virt < identityMapEnd := by
      by_contra above
      rw [Space.walk_eq_none hosted.wellFormed hosted.represents (Nat.le_of_not_lt above)
        canonical] at walked
      cases walked
    rw [hosted.walk_eq inside] at walked
    obtain ⟨mapping, member, covers, phys⟩ :=
      agrees.told (virt / 4096) leaf (by omega) walked isUser
    have translated := agrees.translateLocal hosted member covers
    rw [← phys, show virt / 4096 * 4096 = virt by omega] at translated
    exact translated
  · intro mapping member virt aligned covers grown
    have back : virt / 4096 * 4096 = virt := by omega
    rw [← back] at covers
    have small := Process.Agrees.small hosted member covers
    obtain ⟨leaf, shown, isUser⟩ := agrees.shown mapping member (virt / 4096) covers (by
      unfold Process.GrownInto
      rwa [back])
    obtain ⟨other, member', covers', phys⟩ := agrees.told _ leaf small shown isUser
    obtain rfl := agrees.same member member' covers covers'
    refine ⟨leaf, ?_, isUser, by rwa [back] at phys⟩
    rw [hosted.walk_eq (by omega)]
    exact shown

theorem record_agrees_mmap : ∃ sys task proc leaf,
    plain.run (gigabyteEvents ++ [.mmap 0x50000000 4096 3 0x32 0 []]) = some sys ∧
    sys.tasks[4]? = some task ∧ task.process = some proc ∧
    walk sys.machine.mem task.cr3 0x50000000 = some leaf ∧
    proc.translateLocal 0x50000000 4096 = some leaf.phys := by
  obtain ⟨sys, proc, space, ran, alone⟩ := ofRam_alone plain_fits
  have valid : ValidRange 0x50000000 (1 * 4096) := ⟨by decide, by decide, by decide, by decide⟩
  have apart := page_apart (show 0x10000000 ≤ 0x50000000 by decide)
  obtain ⟨after, machine, proc', later, phys, pmm, stepped, rfl, -, outcome⟩ :=
    alone.mmap plain_fits valid (by decide) apart
  have orderly := alone.orderly_mmap ran valid (by decide) apart (by
    intro address covered within
    have top : Process.userStackTop = 0x10000000 := rfl
    unfold gigabyteCover at covered
    unfold InRange at within
    omega)
  have view := outcome.remaps.views.views 0x50000 (by decide)
  dsimp only at view
  rw [if_pos (by decide)] at view
  have walked := @Hosted.walk_eq _ _ _ _ outcome.hosted 0x50000000 (by decide)
  rw [outcome.pml4, view] at walked
  have placed := alone.acted machine proc'
  exact ⟨_, _, proc', _, run_snoc ran stepped, placed, rfl, walked,
    (record_agrees plain_valid orderly (run_snoc ran stepped) placed rfl).1 _ _ (by decide)
      (by decide) walked (show (Process.protFlags true false).getLsbD 2 = true by decide)⟩

def overlay : System.Event :=
  .mmap 0x40000000 4096 3 0x32 0 []

theorem overlaid : ∃ sys proc space leaf phys,
    plain.run (gigabyteEvents ++ [overlay]) = some sys ∧
    sys.currentProcess = some (space.pml4, proc) ∧
    Running lowRam proc space sys.machine ∧
    walk sys.machine.mem space.pml4 0x40000000 = some leaf ∧ leaf.user = true ∧
    proc.translateLocal 0x40000000 4096 = some phys ∧ phys ≠ leaf.phys := by
  obtain ⟨sys, proc, space, ran, alone⟩ := ofRam_alone plain_fits
  obtain ⟨after, machine, proc', later, phys, pmm, stepped, rfl, given, outcome⟩ :=
    @Alone.mmap _ _ _ _ alone plain_fits 0x40000000 1
      ⟨by decide, by decide, by decide, by decide⟩ (by decide)
      (page_apart (show 0x10000000 ≤ 0x40000000 by decide))
  have ledger := alone.ledger.step stepped
  have calling := System.currentProcess_setCurrentProcess
    (show ({ sys with machine } : System).currentProcess = some (space.pml4, proc) from
      alone.calling) proc'
  have running : Running lowRam proc' later machine :=
    ⟨outcome.hosted, ledger.owned _ _ (System.processAt_current calling), ledger.bounded,
      outcome.cr3.trans (alone.active.trans outcome.pml4.symm)⟩
  have view := outcome.remaps.views.views 0x40000 (by decide)
  dsimp only at view
  rw [if_pos (by decide)] at view
  have walked := @Hosted.walk_eq _ _ _ _ outcome.hosted 0x40000000 (by decide)
  rw [view] at walked
  obtain ⟨fresh, books⟩ := outcome.books
  have mappings := congrArg Process.Books.mappings books
  -- the page of the program is still first on record
  obtain ⟨image, rest, record, range, -⟩ := map_eq_cons_iff.mp
    (alone.mappings.trans linuxRanges_gigabyte)
  have start : image.vaddr = 0x40000000 := congrArg Prod.fst range
  have stop : image.vaddr + image.len = 0x40001000 := congrArg Prod.snd range
  have member : image ∈ proc.mappings := by
    rw [record]
    exact mem_cons_self
  have translated : proc'.translateLocal 0x40000000 4096 = some image.phys := by
    unfold Process.translateLocal
    rw [show proc'.mappings = proc.mappings ++ _ from mappings, record, cons_append,
      List.find?_cons_of_pos (by
        rw [decide_eq_true_eq]
        omega), if_neg (by decide), Option.map_some, start]
    rfl
  have mine : image.phys ∈ proc.frames := by
    obtain ⟨kernel, pool, origin, loaded, ⟨⟨filled, laid, -⟩, -⟩⟩ := alone.loaded
    apply laid.backed image member
    exact Pmm.mem_frameRun.mpr ⟨0, by omega, rfl⟩
  obtain ⟨-, block, -, -, -⟩ := Pmm.allocContiguous_some given
  rw [← outcome.pml4] at calling
  refine ⟨_, proc', later, _, image.phys, run_snoc ran stepped, calling, running, walked,
    show (Process.protFlags true false).getLsbD 2 = true by decide, translated, ?_⟩
  intro same
  have free := block 0 (by decide)
  apply (alone.owned.held _ mine).2.2.2
  rw [same]
  exact free

/-- What the kernel reads for the page and what ring 3 reads lie in different frames. -/
theorem record_overlaid : ∃ sys cr3 proc leaf phys,
    plain.run (gigabyteEvents ++ [overlay]) = some sys ∧
    sys.currentProcess = some (cr3, proc) ∧
    walk sys.machine.mem cr3 0x40000000 = some leaf ∧ leaf.user = true ∧
    proc.translateLocal 0x40000000 4096 = some phys ∧ phys ≠ leaf.phys := by
  obtain ⟨sys, proc, space, leaf, phys, ran, calling, -, walked, isUser, translated,
    different⟩ := overlaid
  exact ⟨sys, space.pml4, proc, leaf, phys, ran, calling, walked, isUser, translated,
    different⟩

/-! ### `mprotect` -/

theorem leafFor_protFlags (writable executable : Bool) (phys : Nat) :
    leafFor (Process.protFlags writable executable) phys =
      { phys, writable, user := true, noExecute := !executable } := by
  cases writable <;> cases executable <;> rfl

def Asks (addr len virt : Nat) : Prop :=
  virt % 4096 = 0 ∧ alignDown addr ≤ virt ∧ virt < alignDown addr + alignUp (max len 1)

/-- In every state of an orderly run `mprotect` changes the rights of the pages it is asked for,
unless the sums wrap or the stack has yet to grow there; where they lead stays. -/
theorem mprotect_keeps_frames (valid : boot.Valid) (orderly : boot.Orderly events)
    (ran : boot.run events = some sys) {cr3 : Nat} {proc : Process}
    (calling : sys.currentProcess = some (cr3, proc)) {addr len : Nat}
    (writable executable : Bool)
    (unwrapped : max len 1 + 4095 < wordLimit ∧ alignDown addr + alignUp (max len 1) < wordLimit)
    (grown : ∀ virt, Asks addr len virt →
      ¬ (Process.userStackLowLimit ≤ virt ∧ virt < proc.stackLow)) :
    ∃ done proc' machine',
      proc.mprotect cr3 addr len writable executable sys.machine =
        (.ok (done, proc'), machine') ∧
      (done = true → ∀ virt, Asks addr len virt → ∃ leaf,
        walk sys.machine.mem cr3 virt = some leaf ∧ leaf.user = true ∧
        walk machine'.mem cr3 virt =
          some { phys := leaf.phys, writable, user := true, noExecute := !executable }) ∧
      (∀ virt, virt < 2 ^ 48 → virt % 4096 = 0 → ¬ Asks addr len virt →
        walk machine'.mem cr3 virt = walk sys.machine.mem cr3 virt) ∧
      (done = false → ∀ virt, virt < 2 ^ 48 → virt % 4096 = 0 →
        (walk machine'.mem cr3 virt).map Leaf.phys =
          (walk sys.machine.mem cr3 virt).map Leaf.phys) ∧
      ∀ mapping, mapping ∈ proc.mappings → mapping.shmId = none → ∀ virt, mapping.Covers virt →
        machine'.mem (mapping.phys + (virt - mapping.vaddr)) =
          sys.machine.mem (mapping.phys + (virt - mapping.vaddr)) := by
  have housing := housing_of_orderly valid orderly ran
  obtain ⟨space, rfl, active, hosted, agrees⟩ := housing.hosted calling
  have owned := housing.ledger.owned _ _ (System.processAt_current calling)
  have running : Running (fun _ => False) proc space sys.machine :=
    ⟨hosted, owned, housing.ledger.bounded, active⟩
  have start := alignDown_mod addr
  have whole := alignUp_mod (max len 1)
  obtain ⟨done, proc', machine', after, changed, called, outcome, complete, stopped⟩ :=
    @Hosted.mprotect_outcome _ _ _ _ hosted owned housing.ledger.bounded active addr len writable
      executable
  rw [Nat.mod_eq_of_lt unwrapped.2, Nat.add_sub_cancel_left] at complete stopped
  have within : changed ≤ alignUp (max len 1) / 4096 := by
    cases done with
    | true => exact le_of_eq (complete rfl)
    | false => exact Nat.le_of_lt (stopped rfl).1
  have fourGiB : identityMapEnd = 4294967296 := rfl
  -- a page is left as it was, or leads again to where it led
  have either : ∀ page, page < 2 ^ 20 →
      (after.view page = space.view page ∧ ¬ (alignDown addr / 4096 ≤ page ∧
        page < alignDown addr / 4096 + changed)) ∨
      Asks addr len (page * 4096) ∧ ∃ leaf, space.view page = some leaf ∧ leaf.user = true ∧
        after.view page = some (leafFor (Process.protFlags writable executable) leaf.phys) := by
    intro page small
    rw [outcome.views page small]
    by_cases inside : alignDown addr / 4096 ≤ page ∧ page < alignDown addr / 4096 + changed
    · rw [if_pos inside]
      have asked : Asks addr len (page * 4096) := ⟨Nat.mul_mod_left _ _, by omega, by omega⟩
      have told := outcome.recorded (page - alignDown addr / 4096) (by omega)
      rw [show alignDown addr + (page - alignDown addr / 4096) * 4096 = page * 4096 by omega] at told
      obtain ⟨phys, translated⟩ := Option.ne_none_iff_exists'.mp told
      obtain ⟨mapping, member, lower, upper, same⟩ := Hosted.translateLocal_some translated
      have covers : mapping.Covers (page * 4096) := ⟨lower, by omega⟩
      obtain ⟨leaf, shown, isUser⟩ := agrees.shown mapping member page covers (grown _ asked)
      obtain ⟨other, member', covers', leads⟩ := agrees.told page leaf small shown isUser
      obtain rfl := agrees.same member member' covers covers'
      refine Or.inr ⟨asked, leaf, shown, isUser, ?_⟩
      rw [translated, leads, same]
      rfl
    · rw [if_neg inside]
      exact Or.inl ⟨rfl, inside⟩
  have walks : ∀ virt, virt < identityMapEnd →
      walk machine'.mem space.pml4 virt = after.view (virt / 4096) ∧
        walk sys.machine.mem space.pml4 virt = space.view (virt / 4096) := by
    intro virt below
    rw [← outcome.pml4, outcome.hosted.walk_eq below, outcome.pml4, hosted.walk_eq below]
    exact ⟨rfl, rfl⟩
  have above : ∀ virt, virt < 2 ^ 48 → identityMapEnd ≤ virt →
      walk machine'.mem space.pml4 virt = walk sys.machine.mem space.pml4 virt := by
    intro virt canonical high
    have later := Space.walk_eq_none outcome.hosted.wellFormed outcome.hosted.represents high
      canonical
    rw [outcome.pml4] at later
    rw [later, Space.walk_eq_none hosted.wellFormed hosted.represents high canonical]
  refine ⟨done, proc', machine', called, ?_, ?_, ?_, ?_⟩
  · rintro rfl virt ⟨aligned, lower, upper⟩
    have all := complete rfl
    have told := outcome.recorded ((virt - alignDown addr) / 4096) (by omega)
    rw [show alignDown addr + (virt - alignDown addr) / 4096 * 4096 = virt / 4096 * 4096 by omega]
      at told
    obtain ⟨phys, translated⟩ := Option.ne_none_iff_exists'.mp told
    obtain ⟨mapping, member, first, last, -⟩ := Hosted.translateLocal_some translated
    have small : virt / 4096 < 2 ^ 20 := by
      apply Process.Agrees.small hosted member
      exact ⟨first, by omega⟩
    obtain ⟨later, before⟩ := walks virt (by omega)
    rcases either _ small with ⟨-, missed⟩ | ⟨-, leaf, shown, isUser, view⟩
    · exact absurd ⟨by omega, by omega⟩ missed
    · refine ⟨leaf, before.trans shown, isUser, later.trans (view.trans ?_)⟩
      rw [leafFor_protFlags]
  · intro virt canonical aligned other
    rcases Nat.lt_or_ge virt identityMapEnd with below | high
    · obtain ⟨later, before⟩ := walks virt below
      rcases either (virt / 4096) (by omega) with ⟨same, -⟩ | ⟨asked, -⟩
      · rw [later, before, same]
      · rw [show virt / 4096 * 4096 = virt by omega] at asked
        exact absurd asked other
    · exact above virt canonical high
  · intro _ virt canonical aligned
    rcases Nat.lt_or_ge virt identityMapEnd with below | high
    · obtain ⟨later, before⟩ := walks virt below
      rcases either (virt / 4096) (by omega) with ⟨same, -⟩ | ⟨-, leaf, shown, -, view⟩
      · rw [later, before, same]
      · rw [later, before, view, shown]
        rfl
    · rw [above virt canonical high]
  · intro mapping member isPrivate virt covers
    apply hosted.mprotect_memory owned housing.ledger.bounded active called
    exact running.apart member isPrivate (running.inRun member covers)

theorem mprotect_keeps_frames_image : ∃ sys cr3 proc done proc' machine',
    plain.run gigabyteEvents = some sys ∧ sys.currentProcess = some (cr3, proc) ∧
    proc.mprotect cr3 0x40000000 4096 false false sys.machine =
      (.ok (done, proc'), machine') ∧
    (done = true → ∃ leaf, walk sys.machine.mem cr3 0x40000000 = some leaf ∧
      walk machine'.mem cr3 0x40000000 =
        some { phys := leaf.phys, writable := false, user := true, noExecute := true }) := by
  obtain ⟨sys, proc, space, ran, alone⟩ := ofRam_alone plain_fits
  have word : wordLimit = 18446744073709551616 := rfl
  have asked : alignDown 0x40000000 = 0x40000000 ∧ alignUp (max 4096 1) = 4096 := by decide
  obtain ⟨done, proc', machine', called, right, -⟩ :=
    @mprotect_keeps_frames _ _ _ plain_valid orderly_gigabyte ran _ _ alone.calling 0x40000000 4096
      false false ⟨by omega, by omega⟩ (by
        rintro virt ⟨-, lower, upper⟩ ⟨-, below⟩
        have low := alone.low
        omega)
  refine ⟨sys, space.pml4, proc, done, proc', machine', ran, alone.calling, called, ?_⟩
  intro finished
  obtain ⟨leaf, walked, -, after⟩ := right finished 0x40000000 ⟨by decide, by omega, by omega⟩
  exact ⟨leaf, walked, after⟩

/-- `mprotect` of a page mapped over the page of the program brings the program's page back. -/
theorem mprotect_overlaid : ∃ sys cr3 proc leaf proc' machine' leaf',
    plain.run (gigabyteEvents ++ [overlay]) = some sys ∧
    sys.currentProcess = some (cr3, proc) ∧
    walk sys.machine.mem cr3 0x40000000 = some leaf ∧
    proc.mprotect cr3 0x40000000 4096 true false sys.machine =
      (.ok (true, proc'), machine') ∧
    walk machine'.mem cr3 0x40000000 = some leaf' ∧ leaf'.phys ≠ leaf.phys := by
  obtain ⟨sys, proc, space, leaf, phys, ran, calling, running, walked, isUser, translated,
    different⟩ := overlaid
  obtain ⟨done, proc', machine', after, changed, called, outcome, complete, stopped⟩ :=
    @Hosted.mprotect_outcome _ _ _ _ running.hosted running.owned running.bounded running.active
      0x40000000 4096 true false
  have asked : alignDown 0x40000000 = 0x40000000 ∧
      ((alignDown 0x40000000 + alignUp (max 4096 1)) % wordLimit - alignDown 0x40000000) / 4096 =
        1 := by
    decide
  rw [asked.2] at complete stopped
  rw [asked.1] at outcome stopped
  cases done with
  | false =>
      obtain ⟨few, missing⟩ := stopped rfl
      obtain rfl : changed = 0 := by omega
      rw [Nat.zero_mul, Nat.add_zero, translated] at missing
      cases missing
  | true =>
      obtain rfl := complete rfl
      have view := outcome.views 0x40000 (by decide)
      rw [if_pos (by decide), show 0x40000 * 4096 = 0x40000000 by decide, translated,
        Option.map_some] at view
      have later := @Hosted.walk_eq _ _ _ _ outcome.hosted 0x40000000 (by decide)
      rw [outcome.pml4, view] at later
      exact ⟨sys, space.pml4, proc, leaf, proc', machine', _, ran, calling, walked, called,
        later, different⟩

end Boot
end MachaOS
