/-
Loading a process: its segments and its stack in the fresh address space.

`Laid` describes the table while the loader fills it.  The mappings of
`claimed` are the ranges it has begun, with the frames that back them: a page
outside them is still the kernel's, and a page open to ring 3 leads to the frame
one of them has for it.  The mappings of `filled` are open from end to end.
-/

import MachaOS.Process.AddressSpace
import MachaOS.Process.Operations

namespace MachaOS.Loader

open List
open Fallible Machine Paging

def Shown (space : Space) (virt len : Nat) : Prop :=
  ∀ page, InRange virt len (page * 4096) → space.pt (page / 512) ≠ none ∧
    ∃ leaf, space.view page = some leaf ∧ leaf.user = true

def Matched (mappings : List Mapping) (space : Space) : Prop :=
  ∀ page leaf, page < 2 ^ 20 → space.view page = some leaf → leaf.user = true →
    ∃ mapping, mapping ∈ mappings ∧ mapping.Covers (page * 4096) ∧
      leaf.phys = mapping.phys + (page * 4096 - mapping.vaddr)

structure Laid (kernel : Space) (pool cover : Nat → Prop) (origin : ByteMemory)
    (claimed filled : List Mapping) (space : Space) (machine : Machine) (proc : Process) :
    Prop where
  stage : Stage kernel pool cover origin machine proc
  wellFormed : space.WellFormed
  upward : space.UserUpward
  represents : space.Represents machine.mem
  tables : ∀ frame, space.Owns frame → frame ∈ proc.frames
  spare : ∀ frame, space.Owns frame → ∀ mapping, mapping ∈ claimed → frame ∉ mapping.run
  backed : ∀ mapping, mapping ∈ claimed → ∀ frame, frame ∈ mapping.run → frame ∈ proc.frames
  whole : ∀ mapping, mapping ∈ claimed → mapping.len % 4096 = 0 ∧ mapping.phys % 4096 = 0
  apart : claimed.Pairwise Mapping.Apart
  covered : ∀ mapping, mapping ∈ claimed → ∀ addr, mapping.Covers addr → cover addr
  untouched : ∀ page, page < 2 ^ 20 →
    (∀ mapping, mapping ∈ claimed → ¬ mapping.Covers (page * 4096)) →
    space.view page = some (Space.kernelLeaf page)
  matched : Matched claimed space
  valid : ∀ mapping, mapping ∈ filled → ValidRange mapping.vaddr mapping.len ∧
    mapping.phys % 4096 = 0 ∧ mapping.phys + mapping.len ≤ 2 ^ 52
  shown : ∀ mapping, mapping ∈ filled → Shown space mapping.vaddr mapping.len

structure Widens (space after : Space) : Prop where
  pml4 : after.pml4 = space.pml4
  tables : ∀ block, space.pt block ≠ none → after.pt block ≠ none
  pages : ∀ page, page < 2 ^ 20 → (∃ leaf, space.view page = some leaf ∧ leaf.user = true) →
    ∃ leaf, after.view page = some leaf ∧ leaf.user = true

theorem Widens.refl (space : Space) : Widens space space :=
  ⟨rfl, fun _ table => table, fun _ _ shown => shown⟩

theorem Widens.trans {space middle after : Space} (first : Widens space middle)
    (second : Widens middle after) : Widens space after :=
  ⟨second.pml4.trans first.pml4, fun block table => second.tables block (first.tables block table),
    fun page inside shown => second.pages page inside (first.pages page inside shown)⟩

theorem Shown.widen {space after : Space} {virt len : Nat} (shown : Shown space virt len)
    (widens : Widens space after) (below : virt + len ≤ identityMapEnd) : Shown after virt len := by
  intro page inRange
  obtain ⟨table, leaf, found, isUser⟩ := shown page inRange
  have fourGiB : identityMapEnd = 4294967296 := rfl
  unfold InRange at inRange
  exact ⟨widens.tables _ table, widens.pages page (by omega) ⟨leaf, found, isUser⟩⟩

namespace Laid

variable {kernel : Space} {pool cover : Nat → Prop} {origin : ByteMemory} {sure : Prop}
  {claimed filled : List Mapping} {space after : Space} {machine : Machine} {proc : Process}

theorem editing (laid : Laid kernel pool cover origin claimed filled space machine proc) :
    Editing (fun frame => pool frame ∧ ¬ cover frame) space machine :=
  { wellFormed := laid.wellFormed
    represents := laid.represents
    owned := fun frame owns => laid.stage.frames frame (laid.tables frame owns)
    used := fun frame owns => (laid.stage.owned.held frame (laid.tables frame owns)).2.2.2
    aligned := fun frame reached => (laid.stage.apart frame reached.1).1
    bounded := fun frame reached => (laid.stage.apart frame reached.1).2.1
    active := by
      refine Or.inr ⟨kernel, laid.stage.wellFormed, laid.stage.represents, laid.stage.active, ?_⟩
      rintro frame ⟨inPool, -⟩
      exact ⟨laid.stage.direct frame (Or.inl inPool), (laid.stage.apart frame inPool).2.2⟩ }

theorem inactive (laid : Laid kernel pool cover origin claimed filled space machine proc) :
    machine.cr3 ≠ space.pml4 := by
  intro same
  rw [laid.stage.active] at same
  have inFrames := laid.tables _ (Space.owns_pml4 space)
  rw [← same] at inFrames
  exact (laid.stage.apart _ (laid.stage.frames _ inFrames).1).2.2 (Space.owns_pml4 kernel)

theorem of_remap {machine' : Machine} {fresh : List Nat} {virt phys len mapped : Nat}
    {flags : BitVec 64} {done : Bool} {mapping : Mapping}
    (laid : Laid kernel pool cover origin claimed filled space machine proc)
    (edited : Editing (fun frame => pool frame ∧ ¬ cover frame) after machine')
    (extends' : Extends space after machine machine' fresh)
    (remaps : Hosted.Remaps space after virt phys len flags done mapped)
    (virtAligned : virt % 4096 = 0) (user : flags.getLsbD 2 = true) (claims : mapping ∈ claimed)
    (within : mapping.vaddr ≤ virt ∧ virt + len ≤ mapping.vaddr + mapping.len)
    (place : phys = mapping.phys + (virt - mapping.vaddr)) :
    Laid kernel pool cover origin claimed filled after machine'
      { proc with frames := proc.frames ++ fresh } := by
  have few := remaps.bounded
  have split : ∀ block, space.pt block ≠ none → after.pt block ≠ none := by
    intro block present
    obtain ⟨frame, found⟩ := Option.ne_none_iff_exists'.mp present
    rw [extends'.split block frame found]
    simp
  have freshOwned : ∀ frame, frame ∈ fresh → after.Owns frame :=
    fun frame member => (extends'.owns frame).mpr (Or.inr member)
  refine
    { stage := laid.stage.advance
        ⟨extends'.cr3, extends'.limit, extends'.free, extends'.freshFree, extends'.nodup⟩
        extends'.memory (fun frame owns => (edited.owned frame owns).1)
        (fun frame member => (edited.owned frame (freshOwned frame member)).2)
      wellFormed := edited.wellFormed
      upward := extends'.upward laid.upward
      represents := edited.represents
      tables := ?_
      spare := ?_
      backed := fun other member frame inRun =>
        mem_append_left _ (laid.backed other member frame inRun)
      whole := laid.whole
      apart := laid.apart
      covered := laid.covered
      untouched := ?_
      matched := ?_
      valid := laid.valid
      shown := ?_ }
  · intro frame owns
    rcases (extends'.owns frame).mp owns with old | new
    · exact mem_append_left _ (laid.tables frame old)
    · exact mem_append_right _ new
  · intro frame owns other member inRun
    rcases (extends'.owns frame).mp owns with old | new
    · exact laid.spare frame old other member inRun
    · exact (laid.stage.owned.held frame (laid.backed other member frame inRun)).2.2.2
        (extends'.freshFree frame new)
  · intro page inside outside
    rw [remaps.views.views page inside, if_neg]
    · exact laid.untouched page inside outside
    · intro inRange
      exact outside mapping claims ⟨by omega, by omega⟩
  · intro page leaf inside found isUser
    rw [remaps.views.views page inside] at found
    split at found
    · rename_i inRange
      obtain rfl := Option.some.inj found
      refine ⟨mapping, claims, ⟨by omega, by omega⟩, ?_⟩
      simp only [leafFor]
      omega
    · exact laid.matched page leaf inside found isUser
  · intro other member page inRange
    obtain ⟨table, leaf, found, isUser⟩ := laid.shown other member page inRange
    refine ⟨split _ table, ?_⟩
    have limit : page < 2 ^ 20 := by
      obtain ⟨-, -, -, below⟩ := (laid.valid other member).1
      have fourGiB : identityMapEnd = 4294967296 := rfl
      unfold InRange at inRange
      omega
    rw [remaps.views.views page limit]
    split
    · exact ⟨_, rfl, user⟩
    · exact ⟨leaf, found, isUser⟩

theorem mapRange_of_ok {pml4 virt phys len : Nat} {flags : BitVec 64} {machine' : Machine}
    {done : Bool} {frames : List Nat}
    (ran : mapRangeIn pml4 virt phys len flags proc.frames machine =
      (.ok (done, frames), machine')) :
    Loader.mapRange pml4 virt phys len flags (machine, proc) =
      (.ok done, (machine', { proc with frames })) := by
  have current : Loader.process (machine, proc) = (.ok proc, (machine, proc)) := rfl
  unfold Loader.mapRange
  rw [bind_of_ok current, bind_of_ok (onMachine_of_ok ran)]
  rfl

theorem mapOrRefuse {virt phys len count : Nat} {flags : BitVec 64} {mapping : Mapping}
    (laid : Laid kernel pool cover origin claimed filled space machine proc)
    (stock : Pmm.Stock (fun frame => ¬ cover frame) sure
      (tablesNeeded space (virt / 4096) (len / 4096) + count) machine.pmm)
    (valid : ValidRange virt len) (aligned : phys % 4096 = 0) (bounded : phys + len ≤ 2 ^ 52)
    (user : flags.getLsbD 2 = true) (claims : mapping ∈ claimed)
    (within : mapping.vaddr ≤ virt ∧ virt + len ≤ mapping.vaddr + mapping.len)
    (place : phys = mapping.phys + (virt - mapping.vaddr)) (message : String) :
    Yields (Loader.mapOrRefuse space.pml4 virt phys len flags message) (machine, proc)
      (fun _ state => ∃ fresh after, state.2 = { proc with frames := proc.frames ++ fresh } ∧
        Laid kernel pool cover origin claimed filled after state.1 state.2 ∧
        Widens space after ∧ Shown after virt len ∧ Pmm.Stock (fun frame => ¬ cover frame) sure count state.1.pmm)
      (Stopped kernel pool origin sure) := by
  have supplied : Pmm.Supplies (fun frame => pool frame ∧ ¬ cover frame)
      (tablesNeeded space (virt / 4096) (len / 4096)) machine.pmm :=
    ((stock.of_le (Nat.le_add_right _ _)).supplies.and (Pmm.supplies_free _ _)).mono
      (fun frame both => ⟨laid.stage.free frame both.2, both.1⟩)
  obtain ⟨done, after, machine', fresh, mapped, ran, edited, extends', few, views, complete,
    stocked, taken, atMost, drawn⟩ := mapRangeIn_spec flags proc.frames laid.editing valid aligned
      bounded (fun active => absurd active laid.inactive) supplied
  have remaps : Hosted.Remaps space after virt phys len flags done mapped :=
    ⟨views, few, fun finished => ⟨valid, complete finished⟩, fun bad => absurd valid bad⟩
  have laid' := laid.of_remap edited extends' remaps valid.1 user claims within place
  have stock' : Pmm.Stock (fun frame => ¬ cover frame) sure count machine'.pmm := by
    rw [drawn]
    exact (stock.of_le (show taken + count ≤ _ by omega)).allocs
  unfold Yields Loader.mapOrRefuse
  rw [bind_of_ok (mapRange_of_ok ran)]
  cases done with
  | false =>
      refine laid'.stage.stopped (fun certain => ?_) message
      have finished := stocked ((stock.of_le (Nat.le_add_right _ _)).stocked certain)
      cases finished
  | true =>
      have all := complete rfl
      obtain ⟨virtAligned, lenAligned, -, below⟩ := valid
      have fourGiB : identityMapEnd = 4294967296 := rfl
      refine ⟨fresh, after, rfl, laid', ⟨extends'.pml4, ?_, ?_⟩, ?_, stock'⟩
      · intro block present
        obtain ⟨frame, found⟩ := Option.ne_none_iff_exists'.mp present
        rw [extends'.split block frame found]
        simp
      · rintro page inside ⟨leaf, found, isUser⟩
        rw [views.views page inside]
        split
        · exact ⟨_, rfl, user⟩
        · exact ⟨leaf, found, isUser⟩
      · intro page inRange
        unfold InRange at inRange
        refine ⟨?_, ?_⟩
        · have table := views.tables (page - virt / 4096) (by omega)
          have same : virt / 4096 + (page - virt / 4096) = page := by omega
          rw [same] at table
          exact table
        · rw [views.views page (by omega), if_pos (by omega)]
          exact ⟨_, rfl, user⟩

/-! ### Blocks -/

theorem claim {machine' : Machine} {block : List Nat} (mapping : Mapping)
    (laid : Laid kernel pool cover origin claimed filled space machine proc)
    (wasFree : ∀ frame, frame ∈ block → machine.pmm.Free frame)
    (stage : Stage kernel pool cover origin machine'
      { proc with frames := proc.frames ++ block })
    (agree : Space.AgreeOutside (fun frame => frame ∈ block) machine.mem machine'.mem)
    (run : mapping.run = block) (whole : mapping.len % 4096 = 0 ∧ mapping.phys % 4096 = 0)
    (covers : ∀ addr, mapping.Covers addr → cover addr) :
    Laid kernel pool cover origin (claimed ++ [mapping]) filled space machine'
      { proc with frames := proc.frames ++ block } := by
  have inUse : ∀ frame, frame ∈ proc.frames → frame ∉ block :=
    fun frame member inBlock => (laid.stage.owned.held frame member).2.2.2 (wasFree frame inBlock)
  refine
    { laid with
      stage
      represents := laid.represents.congr laid.wellFormed agree
        (fun frame owns => inUse frame (laid.tables frame owns))
      tables := fun frame owns => mem_append_left _ (laid.tables frame owns)
      spare := ?_
      backed := ?_
      whole := ?_
      apart := ?_
      covered := ?_
      untouched := fun page inside outside => laid.untouched page inside
        (fun other member => outside other (mem_append_left _ member))
      matched := ?_ }
  · intro frame owns other member inRun
    rcases mem_append.mp member with old | new
    · exact laid.spare frame owns other old inRun
    · rw [mem_singleton.mp new, run] at inRun
      exact inUse frame (laid.tables frame owns) inRun
  · intro other member frame inRun
    rcases mem_append.mp member with old | new
    · exact mem_append_left _ (laid.backed other old frame inRun)
    · rw [mem_singleton.mp new, run] at inRun
      exact mem_append_right _ inRun
  · intro other member
    rcases mem_append.mp member with old | new
    · exact laid.whole other old
    · rw [mem_singleton.mp new]
      exact whole
  · refine pairwise_append.mpr ⟨laid.apart, pairwise_singleton _ _, ?_⟩
    intro other old new isNew _ _ frame inRun shared
    rw [mem_singleton.mp isNew, run] at shared
    exact inUse frame (laid.backed other old frame inRun) shared
  · intro other member
    rcases mem_append.mp member with old | new
    · exact laid.covered other old
    · rw [mem_singleton.mp new]
      exact covers
  · intro page leaf inside found isUser
    obtain ⟨other, member, rest⟩ := laid.matched page leaf inside found isUser
    exact ⟨other, mem_append_left _ member, rest⟩

theorem claimBlock {phys pages : Nat} {pmm : Pmm} (mapping : Mapping)
    (laid : Laid kernel pool cover origin claimed filled space machine proc)
    (given : machine.pmm.allocContiguous pages = (some phys, pmm))
    (stage : Stage kernel pool cover origin { machine with pmm }
      { proc with frames := proc.frames ++ Pmm.frameRun phys pages })
    (run : mapping.run = Pmm.frameRun phys pages)
    (whole : mapping.len % 4096 = 0 ∧ mapping.phys % 4096 = 0)
    (covers : ∀ addr, mapping.Covers addr → cover addr) :
    Laid kernel pool cover origin (claimed ++ [mapping]) filled space { machine with pmm }
      { proc with frames := proc.frames ++ Pmm.frameRun phys pages } := by
  obtain ⟨-, blockFree, -, -, -⟩ := Pmm.allocContiguous_some given
  refine laid.claim mapping ?_ stage (Space.AgreeOutside.refl _ _) run whole covers
  intro frame member
  obtain ⟨index, inside, rfl⟩ := Pmm.mem_frameRun.mp member
  exact blockFree index inside

theorem copyBytes {mapping : Mapping} {offset : Nat} {bytes : List (BitVec 8)}
    (laid : Laid kernel pool cover origin claimed filled space machine proc)
    (claims : mapping ∈ claimed) (aligned : mapping.phys % 4096 = 0)
    (fits : offset + bytes.length ≤ mapping.len / 4096 * 4096) :
    ∃ mem, Machine.copyBytes (mapping.phys + offset) bytes machine =
        (.ok (), { machine with mem }) ∧
      Laid kernel pool cover origin claimed filled space { machine with mem } proc := by
  have inRun : ∀ frame, Touches (mapping.phys + offset) bytes.length frame →
      frame ∈ mapping.run :=
    fun frame touches => Touches.mem_frameRun aligned fits touches
  have inPool : ∀ frame, Touches (mapping.phys + offset) bytes.length frame →
      pool frame ∧ ¬ cover frame :=
    fun frame touches => laid.stage.frames frame
      (laid.backed mapping claims frame (inRun frame touches))
  have agree := agreeOutside_writeBytes machine.mem (mapping.phys + offset) bytes
  refine ⟨_, laid.editing.copyBytes (fun frame touches => ⟨inPool frame touches, fun owns =>
    laid.spare frame owns mapping claims (inRun frame touches)⟩), ?_⟩
  exact
    { laid with
      stage := laid.stage.of_write agree (fun frame touches => (inPool frame touches).1)
      represents := laid.represents.congr laid.wellFormed agree
        (fun frame owns touches => laid.spare frame owns mapping claims (inRun frame touches)) }

theorem zeroBytes {mapping : Mapping} {len : Nat}
    (laid : Laid kernel pool cover origin claimed filled space machine proc)
    (claims : mapping ∈ claimed) (fits : len ≤ mapping.len / 4096 * 4096) :
    ∃ mem, Machine.zeroBytes mapping.phys len machine = (.ok (), { machine with mem }) ∧
      Laid kernel pool cover origin claimed filled space { machine with mem } proc := by
  have filled := @copyBytes kernel pool cover origin claimed filled space machine proc mapping 0
    (List.replicate len 0#8) laid claims (laid.whole mapping claims).2
  rw [length_replicate, Nat.zero_add, Nat.add_zero, ← zeroBytes_eq_copyBytes] at filled
  exact filled fits

theorem record {proc' : Process}
    (laid : Laid kernel pool cover origin claimed filled space machine proc)
    (frames : proc'.frames = proc.frames) (mappings : proc'.mappings = claimed) :
    Laid kernel pool cover origin claimed filled space machine proc' :=
  { laid with
    stage := laid.stage.of_books frames
      { nodup := by
          rw [frames]
          exact laid.stage.owned.nodup
        held := by
          rw [frames]
          exact laid.stage.owned.held
        whole := by
          rw [mappings]
          exact laid.whole
        backed := by
          rw [mappings, frames]
          exact fun mapping member _ => laid.backed mapping member
        apart := by
          rw [mappings]
          exact laid.apart }
    tables := by
      rw [frames]
      exact laid.tables
    backed := by
      rw [frames]
      exact laid.backed }

theorem fill {mapping : Mapping}
    (laid : Laid kernel pool cover origin claimed filled space machine proc)
    (valid : ValidRange mapping.vaddr mapping.len ∧ mapping.phys % 4096 = 0 ∧
      mapping.phys + mapping.len ≤ 2 ^ 52) (shown : Shown space mapping.vaddr mapping.len) :
    Laid kernel pool cover origin claimed (filled ++ [mapping]) space machine proc :=
  { laid with
    valid := by
      intro other member
      rcases mem_append.mp member with old | new
      · exact laid.valid other old
      · rw [mem_singleton.mp new]
        exact valid
    shown := by
      intro other member
      rcases mem_append.mp member with old | new
      · exact laid.shown other old
      · rw [mem_singleton.mp new]
        exact shown }

/-! ### Segments -/

theorem segmentFlags_user (segments : List Elf.Segment) (page : Nat) :
    (segmentFlags segments page).getLsbD 2 = true := by
  unfold segmentFlags
  dsimp only
  split <;> split <;> rfl

theorem mapSegmentPages {segments : List Elf.Segment} {page phys pages count : Nat}
    {mapping : Mapping}
    (laid : Laid kernel pool cover origin claimed filled space machine proc)
    (stock : Pmm.Stock (fun frame => ¬ cover frame) sure (tablesNeeded space page pages + count)
      machine.pmm)
    (claims : mapping ∈ claimed) (valid : ValidRange mapping.vaddr mapping.len)
    (aligned : mapping.phys % 4096 = 0) (bounded : mapping.phys + mapping.len ≤ 2 ^ 52)
    (within : mapping.vaddr ≤ page * 4096 ∧ (page + pages) * 4096 ≤ mapping.vaddr + mapping.len)
    (place : phys = mapping.phys + (page * 4096 - mapping.vaddr)) :
    Yields (Loader.mapSegmentPages space.pml4 segments (pagesFrom (page * 4096) pages) phys)
      (machine, proc)
      (fun _ state => ∃ fresh after, state.2 = { proc with frames := proc.frames ++ fresh } ∧
        Laid kernel pool cover origin claimed filled after state.1 state.2 ∧
        Widens space after ∧ Shown after (page * 4096) (pages * 4096) ∧
        Pmm.Stock (fun frame => ¬ cover frame) sure count state.1.pmm)
      (Stopped kernel pool origin sure) := by
  obtain ⟨vaddrAligned, lenAligned, positive, below⟩ := valid
  have size : pageSize = 4096 := rfl
  induction pages generalizing page phys space machine proc with
  | zero =>
      refine ⟨[], space, ?_, laid, Widens.refl space, ?_, stock.of_le (by omega)⟩
      · rw [append_nil]
      · intro other inRange
        unfold InRange at inRange
        omega
  | succ pages ih =>
      have within' : mapping.vaddr ≤ (page + 1) * 4096 ∧
          (page + 1 + pages) * 4096 ≤ mapping.vaddr + mapping.len := by
        have shift : page + 1 + pages = page + (pages + 1) := by omega
        rw [shift]
        exact ⟨by omega, within.2⟩
      have place' : phys + 4096 = mapping.phys + ((page + 1) * 4096 - mapping.vaddr) := by omega
      have one : pageSize / 4096 = 1 := rfl
      have pageOf : page * 4096 / 4096 = page := by omega
      have single : tablesNeeded space page 1 =
          if space.pt (page / 512) = none then 1 else 0 := by
        unfold tablesNeeded
        rw [if_neg (by decide), Nat.add_sub_cancel, Nat.sub_self, Nat.zero_add]
      have enough : tablesNeeded space page 1 ≤ tablesNeeded space page (pages + 1) := by
        rw [single]
        unfold tablesNeeded
        rw [if_neg (Nat.succ_ne_zero pages)]
        omega
      have budget : tablesNeeded space page (pages + 1) + count =
          tablesNeeded space (page * 4096 / 4096) (pageSize / 4096) +
            (tablesNeeded space page (pages + 1) - tablesNeeded space page 1 + count) := by
        rw [pageOf, one]
        omega
      rw [budget] at stock
      rw [pagesFrom, Loader.mapSegmentPages]
      refine (laid.mapOrRefuse stock ⟨by omega, rfl, by decide, by omega⟩ (by omega) (by omega)
        (segmentFlags_user segments (page * 4096)) claims ⟨within.1, by omega⟩ place
        "failed to map segment").bind ?_
      rintro - ⟨machine₁, proc₁⟩ ⟨early, middle, rfl, laid₁, widens₁, shown₁, stock₁⟩
      have opened : middle.pt (page / 512) ≠ none := (shown₁ page ⟨le_refl _, by omega⟩).1
      have step := @tablesNeeded_step space middle page pages opened
      rw [← single] at step
      have next : page * 4096 + pageSize = (page + 1) * 4096 := by omega
      have frameSize : Pmm.frameSize = 4096 := rfl
      rw [next, frameSize, ← widens₁.pml4]
      have later : tablesNeeded middle (page + 1) pages + count ≤
          tablesNeeded space page (pages + 1) - tablesNeeded space page 1 + count := by omega
      refine (ih laid₁ (stock₁.of_le later) within' place').mono ?_
      rintro - ⟨machine₂, proc₂⟩ ⟨late, after, rfl, laid₂, widens₂, shown₂, stock₂⟩
      refine ⟨early ++ late, after, ?_, laid₂, widens₁.trans widens₂, ?_, stock₂⟩
      · rw [append_assoc]
      · intro other inRange
        unfold InRange at inRange
        by_cases here : other = page
        · rw [here]
          exact (shown₁.widen widens₂ (by omega)) page ⟨le_refl _, by omega⟩
        · exact shown₂ other ⟨by omega, by omega⟩

theorem copySegments {segments : List Elf.Segment} {mapping : Mapping} {data : Elf.Bytes}
    (laid : Laid kernel pool cover origin claimed filled space machine proc)
    (claims : mapping ∈ claimed)
    (inside : ∀ seg, seg ∈ segments → mapping.vaddr ≤ seg.vaddr ∧
      seg.vaddr + seg.filesz ≤ mapping.vaddr + mapping.len) :
    ∃ mem, Loader.copySegments mapping.phys mapping.vaddr data segments machine =
        (.ok (), { machine with mem }) ∧
      Laid kernel pool cover origin claimed filled space { machine with mem } proc := by
  induction segments generalizing machine with
  | nil => exact ⟨machine.mem, rfl, laid⟩
  | cons seg rest ih =>
      have later := fun other member => inside other (mem_cons_of_mem seg member)
      rw [Loader.copySegments]
      by_cases empty : seg.filesz = 0
      · rw [if_pos empty]
        exact ih laid later
      · rw [if_neg empty]
        obtain ⟨lower, upper⟩ := inside seg mem_cons_self
        obtain ⟨lenAligned, physAligned⟩ := laid.whole mapping claims
        have short : ((data.drop seg.fileOffset).take seg.filesz).length ≤ seg.filesz :=
          length_take_le _ _
        obtain ⟨mem, copied, laid'⟩ := laid.copyBytes claims physAligned
          (show seg.vaddr - mapping.vaddr +
            ((data.drop seg.fileOffset).take seg.filesz).length ≤
              mapping.len / 4096 * 4096 by omega)
        obtain ⟨final, ran, laid''⟩ := ih laid' later
        exact ⟨final, by rw [bind_of_ok copied, ran], laid''⟩

def imageMapping (overallStart overallEnd phys : Nat) : Mapping :=
  { vaddr := overallStart, phys, len := overallEnd - overallStart, shmId := none }

theorem loadSegments {segments : List Elf.Segment} {data : Elf.Bytes}
    {overallStart overallEnd count : Nat}
    (laid : Laid kernel pool cover origin proc.mappings filled space machine proc)
    (span : Span segments overallStart overallEnd) (ordered : overallStart < overallEnd)
    (below : overallEnd ≤ identityMapEnd)
    (inside : ∀ seg, seg ∈ segments → overallStart ≤ seg.vaddr ∧
      seg.vaddr + seg.filesz ≤ overallEnd)
    (covers : ∀ addr, InRange overallStart (overallEnd - overallStart) addr → cover addr)
    (stock : Pmm.Stock (fun frame => ¬ cover frame) sure ((overallEnd - overallStart) / 4096 +
        (blocksTouched overallStart (overallEnd - overallStart) + count)) machine.pmm) :
    Yields (Loader.loadSegments space.pml4 segments data) (machine, proc)
      (fun _ state => ∃ frames phys after, state.2 =
          { proc with
            frames
            mappings := proc.mappings ++ [imageMapping overallStart overallEnd phys] } ∧
        Laid kernel pool cover origin state.2.mappings
          (filled ++ [imageMapping overallStart overallEnd phys]) after state.1 state.2 ∧
        Widens space after ∧ Pmm.Stock (fun frame => ¬ cover frame) sure count state.1.pmm)
      (Stopped kernel pool origin sure) := by
  have size : pageSize = 4096 := rfl
  have startAligned := span.start_aligned
  have stopAligned := span.stop_aligned
  have valid : ValidRange overallStart (overallEnd - overallStart) :=
    ⟨startAligned, by omega, by omega, by omega⟩
  unfold Loader.loadSegments
  rw [span.start, span.stop]
  dsimp only
  rw [size]
  refine (laid.stage.allocBlock (by omega) stock).bind ?_
  rintro phys state ⟨pmm, given, rfl, stage₁, stock₁⟩
  obtain ⟨-, -, -, physAligned, -⟩ := Pmm.allocContiguous_some given
  have fits : phys + (overallEnd - overallStart) ≤ 2 ^ 52 := by
    have block := Hosted.block_bounded laid.stage.bounded given
    omega
  have laid₁ := laid.claimBlock (imageMapping overallStart overallEnd phys) given stage₁ rfl
    ⟨valid.2.1, physAligned⟩ covers
  have claims : imageMapping overallStart overallEnd phys ∈
      proc.mappings ++ [imageMapping overallStart overallEnd phys] :=
    mem_append_right _ (mem_singleton.mpr rfl)
  have pageOf : overallStart / 4096 * 4096 = overallStart := by omega
  have pagesOf : (overallEnd - overallStart) / 4096 * 4096 = overallEnd - overallStart :=
    Nat.div_mul_cancel (Nat.dvd_of_mod_eq_zero valid.2.1)
  have budget := Nat.add_le_add_right (@tablesNeeded_le_blocksTouched space _ _ valid) count
  have within : overallStart ≤ overallStart / 4096 * 4096 ∧
      (overallStart / 4096 + (overallEnd - overallStart) / 4096) * 4096 ≤
        overallStart + (overallEnd - overallStart) := by omega
  have place : phys = phys + (overallStart / 4096 * 4096 - overallStart) := by omega
  have mapped := @mapSegmentPages _ _ _ _ sure _ _ _ _ _ segments _ _ _ count _ laid₁
    (stock₁.of_le budget) claims valid physAligned fits within place
  rw [pageOf, pagesOf] at mapped
  refine mapped.bind ?_
  rintro - ⟨machine₂, proc₂⟩ ⟨fresh, after, rfl, laid₂, widens, shown, stock₂⟩
  obtain ⟨mem₃, zeroed, laid₃⟩ :=
    laid₂.zeroBytes claims (show overallEnd - overallStart ≤ _ from le_of_eq pagesOf.symm)
  obtain ⟨mem₄, copied, laid₄⟩ := @copySegments _ _ _ _ _ _ _ _ _ segments _ data laid₃ claims (by
    intro seg member
    obtain ⟨lower, upper⟩ := inside seg member
    exact ⟨lower, by simp only [imageMapping]; omega⟩)
  unfold Yields
  dsimp only [imageMapping] at zeroed copied
  rw [bind_of_ok (onMachine_of_ok zeroed), bind_of_ok (onMachine_of_ok copied)]
  refine ⟨_, phys, after, rfl, ?_, widens, stock₂⟩
  exact fill (laid₄.record rfl rfl) (show ValidRange _ _ ∧ _ from ⟨valid, physAligned, fits⟩) shown

/-! ### The initial stack of a Linux process -/

theorem length_toLeBytes (value : Nat) : (toLeBytes value).length = 8 := by
  simp [toLeBytes]

theorem length_flatMap_toLeBytes {α : Type} (values : List α) (word : α → Nat) :
    (values.flatMap (fun value => toLeBytes (word value))).length = 8 * values.length := by
  induction values with
  | nil => rfl
  | cons first rest ih =>
      rw [flatMap_cons, length_append, ih, length_toLeBytes, length_cons]
      omega

theorem length_pushStrings (texts : List Elf.Bytes) (data : Elf.Bytes) :
    (pushStrings texts data).2.length = texts.length := by
  induction texts generalizing data with
  | nil => rfl
  | cons text rest ih => simp [pushStrings, ih]

theorem length_auxvBytes (pairs : List (Nat × Nat)) :
    (pairs.flatMap (fun pair => toLeBytes pair.1 ++ toLeBytes pair.2)).length =
      16 * pairs.length := by
  induction pairs with
  | nil => rfl
  | cons first rest ih =>
      rw [flatMap_cons, length_append, ih, length_append, length_toLeBytes,
        length_toLeBytes, length_cons]
      omega

structure FitsStack (layout : StackLayout) : Prop where
  start : layout.regionStart = alignDown layout.finalRsp
  low : Process.userStackLowLimit ≤ layout.regionStart
  below : layout.finalRsp < Process.userStackTop
  adjacent : layout.dataVaddr = layout.finalRsp + layout.table.length
  top : layout.dataVaddr + layout.data.length ≤ Process.userStackTop

namespace FitsStack

variable {layout : StackLayout} (fits : FitsStack layout)
include fits

theorem aligned : layout.regionStart % 4096 = 0 ∧ layout.regionStart ≤ layout.finalRsp ∧
    alignUp (Process.userStackTop - layout.regionStart) =
      Process.userStackTop - layout.regionStart := by
  have topOf : Process.userStackTop = 0x10000000 := rfl
  have startAligned := alignDown_mod layout.finalRsp
  have startBelow := alignDown_le layout.finalRsp
  rw [← fits.start] at startAligned startBelow
  refine ⟨startAligned, startBelow, ?_⟩
  have small : Process.userStackTop - layout.regionStart + 4095 < wordLimit := by
    unfold wordLimit
    omega
  unfold alignUp
  rw [Nat.mod_eq_of_lt small]
  omega

theorem tableAt (phys : Nat) : phys + (layout.regionStart - Process.userStackLowLimit) +
    (layout.finalRsp - layout.regionStart) =
      phys + (layout.finalRsp - Process.userStackLowLimit) := by
  have low := fits.low
  have startBelow := fits.aligned.2.1
  omega

theorem dataAt (phys : Nat) : phys + (layout.regionStart - Process.userStackLowLimit) +
    (layout.dataVaddr - layout.regionStart) =
      phys + (layout.dataVaddr - Process.userStackLowLimit) := by
  have low := fits.low
  have adjacent := fits.adjacent
  have startBelow := fits.aligned.2.1
  omega

end FitsStack

theorem serializeStackData_counts {elfBytes : Elf.Bytes} {prog : Elf.Program} {ticks : Nat}
    {argv envp : List Elf.Bytes} {data : StackData}
    (serialized : serializeStackData elfBytes prog ticks argv envp = .ok data) :
    data.argvOffsets.length = argv.length ∧ data.envpOffsets.length = envp.length := by
  have argvCount := length_pushStrings argv []
  have envpCount := length_pushStrings envp (pushStrings argv []).1
  unfold serializeStackData at serialized
  dsimp only at serialized
  split at serialized
  · cases serialized
    exact ⟨argvCount, envpCount⟩
  · split at serialized
    · cases serialized
    · cases serialized
      exact ⟨argvCount, envpCount⟩

theorem length_pointerTable (prog : Elf.Program) (atBase argc dataVaddr : Nat)
    (data : StackData) :
    (pointerTable prog atBase argc dataVaddr data).length =
      (1 + (data.argvOffsets.length + 1) + (data.envpOffsets.length + 1) +
        (17 + (if data.argvOffsets = [] then 0 else 1)) * 2) * 8 := by
  unfold pointerTable
  dsimp only
  simp only [length_append, length_toLeBytes, length_flatMap_toLeBytes, length_auxvBytes,
    auxv, length_cons, length_nil]
  cases data.argvOffsets with
  | nil =>
      simp
      omega
  | cons first rest =>
      simp
      omega

theorem stackLayout_ok {elfBytes : Elf.Bytes} {prog : Elf.Program} {atBase ticks : Nat}
    {argv envp : List Elf.Bytes} {layout : StackLayout}
    (built : stackLayout elfBytes prog atBase ticks argv envp = .ok layout) :
    FitsStack layout := by
  unfold stackLayout at built
  cases serialized : serializeStackData elfBytes prog ticks argv envp with
  | error message =>
      rw [serialized] at built
      cases built
  | ok data =>
      rw [serialized] at built
      obtain ⟨argvCount, envpCount⟩ := serializeStackData_counts serialized
      have length : ∀ dataVaddr, (pointerTable prog atBase argv.length dataVaddr data).length =
          (1 + (argv.length + 1) + (envp.length + 1) +
            (17 + (if data.argvOffsets = [] then 0 else 1)) * 2) * 8 := by
        intro dataVaddr
        rw [length_pointerTable, argvCount, envpCount]
      have positive : 0 < (1 + (argv.length + 1) + (envp.length + 1) +
          (17 + (if data.argvOffsets = [] then 0 else 1)) * 2) * 8 := by omega
      unfold placeStack at built
      dsimp only at built
      generalize (1 + (argv.length + 1) + (envp.length + 1) +
        (17 + (if data.argvOffsets = [] then 0 else 1)) * 2) * 8 = tableLen
        at built length positive
      split at built
      · cases built
      · split at built
        · cases built
        · cases built
          rename_i room low
          refine ⟨rfl, Nat.le_of_not_lt low, ?_, ?_, ?_⟩
          · dsimp only
            omega
          · dsimp only
            rw [length]
          · dsimp only
            omega

theorem run_stackMapping (phys : Nat) :
    (stackMapping phys).run = Pmm.frameRun phys Process.userStackMaxPages := by
  have pages : Process.userStackMaxPages * pageSize / 4096 = Process.userStackMaxPages := by decide
  unfold Mapping.run stackMapping
  dsimp only
  rw [pages]

theorem covers_stackMapping {phys addr : Nat} :
    (stackMapping phys).Covers addr ↔
      Process.userStackLowLimit ≤ addr ∧ addr < Process.userStackTop := by
  have top : Process.userStackLowLimit + Process.userStackMaxPages * pageSize =
      Process.userStackTop := by decide
  unfold Mapping.Covers stackMapping
  dsimp only
  rw [top]

theorem len_stackMapping (phys : Nat) : (stackMapping phys).len / 4096 * 4096 = 0x100000 := by
  unfold stackMapping
  dsimp only
  decide

theorem initStackBacking {count : Nat}
    (laid : Laid kernel pool cover origin proc.mappings filled space machine proc)
    (covers : ∀ addr, Process.userStackLowLimit ≤ addr ∧ addr < Process.userStackTop →
      cover addr)
    (stock : Pmm.Stock (fun frame => ¬ cover frame) sure (Process.userStackMaxPages + count)
      machine.pmm) :
    Yields Loader.initStackBacking (machine, proc)
      (fun _ state => ∃ frames phys, state.2 =
          { proc with
            frames
            stackPhysBase := phys
            mappings := proc.mappings ++ [stackMapping phys] } ∧
        phys % 4096 = 0 ∧ phys + Process.userStackMaxPages * pageSize ≤ 2 ^ 52 ∧
        Laid kernel pool cover origin state.2.mappings filled space state.1 state.2 ∧
        Pmm.Stock (fun frame => ¬ cover frame) sure count state.1.pmm)
      (Stopped kernel pool origin sure) := by
  have size : pageSize = 4096 := rfl
  unfold Loader.initStackBacking
  refine (laid.stage.allocBlock (by decide) stock).bind ?_
  rintro phys state ⟨pmm, given, rfl, stage₁, stock₁⟩
  obtain ⟨-, -, -, aligned, -⟩ := Pmm.allocContiguous_some given
  have fits : phys + Process.userStackMaxPages * pageSize ≤ 2 ^ 52 := by
    rw [size]
    exact Hosted.block_bounded laid.stage.bounded given
  have laid₁ := laid.claimBlock (stackMapping phys) given stage₁ (run_stackMapping phys)
    ⟨show Process.userStackMaxPages * pageSize % 4096 = 0 by decide, aligned⟩
    (fun addr inside => covers addr (covers_stackMapping.mp inside))
  obtain ⟨mem₂, zeroed, laid₂⟩ := laid₁.zeroBytes
    (mem_append_right _ (mem_singleton.mpr rfl))
    (show Process.userStackMaxPages * Pmm.frameSize ≤ _ by rw [len_stackMapping]; decide)
  unfold Yields
  dsimp only [stackMapping] at zeroed
  rw [bind_of_ok (onMachine_of_ok zeroed)]
  exact ⟨_, phys, rfl, aligned, fits, laid₂.record rfl rfl, stock₁⟩

/-- The stack of a loaded process: the region is recorded, and open from `stackLow` on. -/
structure HasStack (proc : Process) (space : Space) (phys low : Nat) : Prop where
  record : proc.stackPhysBase = phys ∧ proc.stackLow = low ∧
    stackMapping phys ∈ proc.mappings
  aligned : phys % 4096 = 0
  bounded : phys + Process.userStackMaxPages * pageSize ≤ 2 ^ 52
  lowAligned : low % 4096 = 0
  lowInside : Process.userStackLowLimit ≤ low ∧ low < Process.userStackTop
  shown : Shown space low (Process.userStackTop - low)

theorem mapStackTop {phys low count : Nat}
    (laid : Laid kernel pool cover origin claimed filled space machine proc)
    (claims : stackMapping phys ∈ claimed) (aligned : phys % 4096 = 0)
    (bounded : phys + Process.userStackMaxPages * pageSize ≤ 2 ^ 52) (lowAligned : low % 4096 = 0)
    (lowInside : Process.userStackLowLimit ≤ low ∧ low < Process.userStackTop)
    (stock : Pmm.Stock (fun frame => ¬ cover frame) sure (1 + count) machine.pmm)
    (message : String) :
    Yields (Loader.mapOrRefuse space.pml4 low (phys + (low - Process.userStackLowLimit))
        (Process.userStackTop - low) Process.dataFlags message) (machine, proc)
      (fun _ state => ∃ fresh after, state.2 = { proc with frames := proc.frames ++ fresh } ∧
        Laid kernel pool cover origin claimed filled after state.1 state.2 ∧
        Widens space after ∧ Shown after low (Process.userStackTop - low) ∧
        Pmm.Stock (fun frame => ¬ cover frame) sure count state.1.pmm)
      (Stopped kernel pool origin sure) := by
  have topOf : Process.userStackTop = 0x10000000 := rfl
  have lowOf : Process.userStackLowLimit = 0xFF00000 := rfl
  have size : Process.userStackMaxPages * pageSize = 0x100000 := by decide
  have valid : ValidRange low (Process.userStackTop - low) := by
    have fourGiB : identityMapEnd = 4294967296 := rfl
    exact ⟨lowAligned, by omega, by omega, by omega⟩
  have oneBlock : blocksTouched low (Process.userStackTop - low) = 1 := by
    unfold blocksTouched
    omega
  have budget : tablesNeeded space (low / 4096) ((Process.userStackTop - low) / 4096) + count ≤
      1 + count := by
    have few := @tablesNeeded_le_blocksTouched space _ _ valid
    omega
  have within : (stackMapping phys).vaddr ≤ low ∧ low + (Process.userStackTop - low) ≤
      (stackMapping phys).vaddr + (stackMapping phys).len :=
    ⟨lowInside.1, by simp only [stackMapping]; omega⟩
  exact laid.mapOrRefuse (stock.of_le budget) valid
    (show (phys + (low - Process.userStackLowLimit)) % 4096 = 0 by omega) (by omega)
    (show Process.dataFlags.getLsbD 2 = true by decide) claims within rfl message

theorem setupLinuxStack {elfBytes : Elf.Bytes} {prog : Elf.Program} {atBase ticks count : Nat}
    {argv envp : List Elf.Bytes}
    (laid : Laid kernel pool cover origin proc.mappings filled space machine proc)
    (covers : ∀ addr, Process.userStackLowLimit ≤ addr ∧ addr < Process.userStackTop →
      cover addr)
    (layouts : sure → ∃ layout, stackLayout elfBytes prog atBase ticks argv envp = .ok layout)
    (stock : Pmm.Stock (fun frame => ¬ cover frame) sure
      (Process.userStackMaxPages + (1 + count)) machine.pmm) :
    Yields (Loader.setupLinuxStack space.pml4 elfBytes prog atBase ticks argv envp)
      (machine, proc)
      (fun _ state => ∃ frames phys low after, state.2 =
          { proc with
            frames
            stackPhysBase := phys
            stackLow := low
            mappings := proc.mappings ++ [stackMapping phys] } ∧
        Laid kernel pool cover origin state.2.mappings filled after state.1 state.2 ∧
        Widens space after ∧ HasStack state.2 after phys low ∧
        Pmm.Stock (fun frame => ¬ cover frame) sure count state.1.pmm)
      (Stopped kernel pool origin sure) := by
  unfold Loader.setupLinuxStack
  cases built : stackLayout elfBytes prog atBase ticks argv envp with
  | error message =>
      refine yields_of_error rfl (laid.stage.stopped (fun certain => ?_) message)
      obtain ⟨layout, fits⟩ := layouts certain
      rw [built] at fits
      cases fits
  | ok layout =>
      have shape := stackLayout_ok built
      obtain ⟨startAligned, startBelow, rounded⟩ := shape.aligned
      have ⟨_, low, below, adjacent, top⟩ := shape
      have limit : Process.userStackLowLimit = 0xFF00000 := rfl
      have topOf : Process.userStackTop = 0x10000000 := rfl
      dsimp only
      refine (laid.initStackBacking covers stock).bind ?_
      rintro - ⟨machine₁, proc₁⟩ ⟨frames, phys, rfl, aligned, bounded, laid₁, stock₁⟩
      have claims : stackMapping phys ∈ proc.mappings ++ [stackMapping phys] :=
        mem_append_right _ (mem_singleton.mpr rfl)
      have whole := len_stackMapping phys
      obtain ⟨mem₂, tabled, laid₂⟩ := @copyBytes _ _ _ _ _ _ _ _ _ _
        (layout.finalRsp - Process.userStackLowLimit) layout.table laid₁ claims aligned
        (by rw [whole]; omega)
      obtain ⟨mem₃, copied, laid₃⟩ := @copyBytes _ _ _ _ _ _ _ _ _ _
        (layout.dataVaddr - Process.userStackLowLimit) layout.data laid₂ claims aligned
        (by rw [whole]; omega)
      have tableAt := shape.tableAt phys
      have dataAt := shape.dataAt phys
      have mapped := laid₃.mapStackTop claims aligned bounded startAligned ⟨low, by omega⟩ stock₁
        "failed to map linux-style stack"
      have current : ∀ state : Machine × Process, Loader.process state = (.ok state.2, state) :=
        fun _ => rfl
      unfold Yields
      rw [bind_of_ok (current _)]
      dsimp only [stackMapping, Process.stackPhysFor] at tabled copied ⊢
      rw [tableAt, dataAt, rounded, bind_of_ok (onMachine_of_ok tabled),
        bind_of_ok (onMachine_of_ok copied)]
      refine mapped.bind ?_
      rintro - ⟨machine₄, proc₄⟩ ⟨fresh, after, rfl, laid₄, widens, shown, stock₄⟩
      refine ⟨_, phys, layout.regionStart, after, rfl, laid₄.record rfl rfl, widens, ?_, stock₄⟩
      exact ⟨⟨rfl, rfl, claims⟩, aligned, bounded, startAligned, ⟨low, by omega⟩, shown⟩

/-! ### The initial stack of a native process -/

theorem exitStub {count : Nat}
    (laid : Laid kernel pool cover origin proc.mappings filled space machine proc)
    (covers : ∀ addr, InRange Process.userExitStubVirt pageSize addr → cover addr)
    (stock : Pmm.Stock (fun frame => ¬ cover frame) sure (1 + (1 + count)) machine.pmm) :
    Yields (Loader.installExitStub space.pml4) (machine, proc)
      (fun _ state => ∃ frames stub after, state.2 =
          { proc with frames, mappings := proc.mappings ++ [stubMapping stub] } ∧
        Laid kernel pool cover origin state.2.mappings (filled ++ [stubMapping stub]) after state.1
          state.2 ∧
        Widens space after ∧ Pmm.Stock (fun frame => ¬ cover frame) sure count state.1.pmm)
      (Stopped kernel pool origin sure) := by
  have size : pageSize = 4096 := rfl
  refine (laid.stage.allocFrame stock).bind ?_
  rintro stub state ⟨pmm, rfl, stage₁, inPool, wasFree, stock₁⟩
  obtain ⟨aligned, below, -⟩ := laid.stage.apart stub inPool
  have fits : stub + pageSize ≤ 2 ^ 52 := by
    have limit : stub < 4294967296 := below
    omega
  have run : (stubMapping stub).run = [stub] := by
    have onePage : pageSize / 4096 = 1 := by decide
    unfold Mapping.run stubMapping
    dsimp only
    rw [onePage]
    rfl
  have laid₁ := laid.claim (stubMapping stub)
    (show ∀ frame, frame ∈ [stub] → machine.pmm.Free frame by
      intro frame member
      rw [mem_singleton.mp member]
      exact wasFree) stage₁
    ((agreeOutside_writeBytes machine.mem stub (List.replicate Pmm.frameSize 0#8)).mono (by
      rintro frame ⟨offset, inside, rfl⟩
      have frameSize : Pmm.frameSize = 4096 := rfl
      rw [length_replicate] at inside
      exact mem_singleton.mpr (by omega)))
    run ⟨show pageSize % 4096 = 0 by decide, aligned⟩ covers
  have claims : stubMapping stub ∈ proc.mappings ++ [stubMapping stub] :=
    mem_append_right _ (mem_singleton.mpr rfl)
  obtain ⟨mem₂, copied, laid₂⟩ := @copyBytes _ _ _ _ _ _ _ _ _ _ 0 Loader.exitStub laid₁ claims
    aligned (show 0 + Loader.exitStub.length ≤ pageSize / 4096 * 4096 by decide)
  have valid : ValidRange Process.userExitStubVirt pageSize :=
    ⟨by decide, by decide, by decide, by decide⟩
  have budget : tablesNeeded space (Process.userExitStubVirt / 4096) (pageSize / 4096) + count ≤
      1 + count := by
    have few := @tablesNeeded_le_blocksTouched space _ _ valid
    have one : blocksTouched Process.userExitStubVirt pageSize = 1 := by decide
    omega
  have mapped := laid₂.mapOrRefuse (stock₁.of_le budget) valid aligned fits
    (show (pagePresent ||| pageUser).getLsbD 2 = true by decide) claims
    ⟨le_refl _, le_refl _⟩ (show stub = stub + (Process.userExitStubVirt -
      Process.userExitStubVirt) by omega) "failed to map exit trampoline"
  unfold Yields
  dsimp only [stubMapping] at copied
  rw [Nat.add_zero] at copied
  rw [bind_of_ok (onMachine_of_ok copied)]
  refine mapped.bind ?_
  rintro - ⟨machine₃, proc₃⟩ ⟨fresh, after, rfl, laid₃, widens, shown, stock₃⟩
  refine ⟨_, stub, after, rfl, ?_, widens, stock₃⟩
  exact fill (laid₃.record rfl rfl) (show ValidRange _ _ ∧ _ from ⟨valid, aligned, fits⟩) shown

theorem withStackBacking {count : Nat} {rest : Loader Unit} {last : Unit → Machine × Process → Prop}
    (laid : Laid kernel pool cover origin proc.mappings filled space machine proc)
    (covers : ∀ addr, Process.userStackLowLimit ≤ addr ∧ addr < Process.userStackTop →
      cover addr)
    (stock : Pmm.Stock (fun frame => ¬ cover frame) sure (Process.userStackMaxPages + count)
      machine.pmm)
    (next : ∀ machine' frames phys, phys % 4096 = 0 →
      phys + Process.userStackMaxPages * pageSize ≤ 2 ^ 52 →
      Laid kernel pool cover origin (proc.mappings ++ [stackMapping phys]) filled space machine'
        { proc with
          frames
          stackPhysBase := phys
          mappings := proc.mappings ++ [stackMapping phys] } →
      Pmm.Stock (fun frame => ¬ cover frame) sure count machine'.pmm →
      Yields rest (machine',
        { proc with
          frames
          stackPhysBase := phys
          mappings := proc.mappings ++ [stackMapping phys] }) last
        (Stopped kernel pool origin sure)) :
    Yields (Loader.initStackBacking >>= fun _ => rest) (machine, proc) last
      (Stopped kernel pool origin sure) := by
  refine (laid.initStackBacking covers stock).bind ?_
  rintro - ⟨machine', proc'⟩ ⟨frames, phys, rfl, aligned, bounded, laid', stock'⟩
  exact next machine' frames phys aligned bounded laid' stock'

theorem setupUserStack {count : Nat}
    (laid : Laid kernel pool cover origin proc.mappings filled space machine proc)
    (fresh : proc.stackLow = Process.userStackBase)
    (covers : ∀ addr, Process.userStackLowLimit ≤ addr ∧
      addr < Process.userExitStubVirt + pageSize → cover addr)
    (stock : Pmm.Stock (fun frame => ¬ cover frame) sure
      (Process.userStackMaxPages + (1 + (1 + (1 + count)))) machine.pmm) :
    Yields (Loader.setupUserStack space.pml4) (machine, proc)
      (fun _ state => ∃ frames phys stub after, state.2 =
          { proc with
            frames
            stackPhysBase := phys
            userRsp := Process.userStackTop - 8
            mappings := proc.mappings ++ [stackMapping phys, stubMapping stub] } ∧
        Laid kernel pool cover origin state.2.mappings (filled ++ [stubMapping stub]) after state.1
          state.2 ∧
        Widens space after ∧ HasStack state.2 after phys Process.userStackBase ∧
        Pmm.Stock (fun frame => ¬ cover frame) sure count state.1.pmm)
      (Stopped kernel pool origin sure) := by
  have topOf : Process.userStackTop = 0x10000000 := rfl
  have lowOf : Process.userStackLowLimit = 0xFF00000 := rfl
  have stubOf : Process.userExitStubVirt = 0x10000000 := rfl
  have baseAligned : Process.userStackBase % 4096 = 0 := by decide
  have baseInside : Process.userStackLowLimit ≤ Process.userStackBase ∧
      Process.userStackBase + 8 ≤ Process.userStackTop := by decide
  have topPages : Process.userStackPages * pageSize =
      Process.userStackTop - Process.userStackBase := by decide
  rw [setupUserStack_eq, topPages]
  -- The base is kept abstract: the goal would otherwise be evaluated at its value.
  clear topPages
  generalize Process.userStackBase = base at *
  refine laid.withStackBacking (fun addr inside => covers addr ⟨inside.1, by omega⟩) stock ?_
  intro machine₁ frames₁ phys aligned bounded laid₁ stock₁
  have current : ∀ state : Machine × Process, Loader.process state = (.ok state.2, state) :=
    fun _ => rfl
  have claims : stackMapping phys ∈ proc.mappings ++ [stackMapping phys] :=
    mem_append_right _ (mem_singleton.mpr rfl)
  have mapped := laid₁.mapStackTop claims aligned bounded baseAligned
    ⟨baseInside.1, by omega⟩ stock₁ "failed to map user stack"
  refine Yields.after (current _) ?_
  dsimp only [Process.stackPhysFor]
  refine mapped.bind ?_
  rintro - ⟨machine₂, proc₂⟩ ⟨fresh₂, space₂, rfl, laid₂, widens₂, shown₂, stock₂⟩
  have stubbed := @exitStub kernel pool cover origin sure filled space₂ machine₂
    { proc with
      frames := frames₁ ++ fresh₂
      stackPhysBase := phys
      mappings := proc.mappings ++ [stackMapping phys] } count laid₂
    (fun addr inside => covers addr (by
      unfold InRange at inside
      omega)) stock₂
  rw [← widens₂.pml4]
  refine stubbed.bind ?_
  rintro - ⟨machine₃, proc₃⟩ ⟨frames₃, stub, space₃, rfl, laid₃, widens₃, stock₃⟩
  have claims₃ : stackMapping phys ∈
      proc.mappings ++ [stackMapping phys] ++ [stubMapping stub] :=
    mem_append_left _ claims
  have whole := len_stackMapping phys
  obtain ⟨mem₄, copied, laid₄⟩ := @copyBytes _ _ _ _ _ _ _ _ _ _
    (Process.userStackTop - 8 - Process.userStackLowLimit) (toLeBytes Process.userExitStubVirt)
    laid₃ claims₃ aligned (by rw [whole, length_toLeBytes]; omega)
  have wordAt : phys + (base - Process.userStackLowLimit) + (Process.userStackTop - 8 - base) =
      phys + (Process.userStackTop - 8 - Process.userStackLowLimit) := by omega
  dsimp only [stackMapping] at copied
  rw [wordAt]
  refine Yields.after (onMachine_of_ok copied) (yields_of_ok rfl ?_)
  refine ⟨frames₃, phys, stub, space₃, ?_, laid₄.record rfl rfl, widens₂.trans widens₃, ?_, stock₃⟩
  · rw [append_assoc]
    rfl
  · refine ⟨⟨rfl, fresh, claims₃⟩, aligned, bounded, baseAligned, ⟨baseInside.1, by omega⟩, ?_⟩
    have fourGiB : identityMapEnd = 4294967296 := rfl
    exact shown₂.widen widens₃ (by omega)

end Laid
end MachaOS.Loader
