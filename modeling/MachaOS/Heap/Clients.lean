/-
The heap under arbitrary use: allocations, frees of live pointers, and stores
into payloads, in any order.

`Sound` says what a client may rely on: the free list is sorted and has no two
adjacent blocks, free and live blocks tile the region, and every live pointer
owns the bytes it asked for.  `allocated` follows the sizes in the headers as
long as no allocation takes a block with exactly one header to spare.
-/

import MachaOS.Heap.Blocks
import MachaOS.Lib.Runs

namespace MachaOS.FreeListAllocator

open List
open Chunk

/-- The blocks of the free list, read from memory; `none` when the list does not end. -/
def walkFree (mem : ByteMemory) : Nat → Nat → Option (List Chunk)
  | 0, _ => none
  | steps + 1, current =>
      if current = 0 then some []
      else
        (walkFree mem steps (blockNext mem current)).map
          (fun rest => { addr := current, size := blockSize mem current, free := true } :: rest)

def freeBlocks (heap : FreeListAllocator) : Option (List Chunk) :=
  walkFree heap.mem (stepLimit heap) heap.head

structure Client where
  heap : FreeListAllocator
  live : List (Nat × Nat)

inductive Request where
  | alloc (size : Nat)
  | dealloc (ptr : Nat)
  | store (address : Nat) (byte : BitVec 8)

namespace Client

def initial (mem : ByteMemory) (start stop : Nat) : Client :=
  { heap := init mem start stop, live := [] }

/-- `isize::MAX`, the largest size a `Layout` can have. -/
def isizeMax : Nat := 2 ^ 63 - 1

/-- One request.  Clients ask for at most `isize::MAX` bytes, free live pointers and store
into live payloads; a null pointer is not live. -/
def step (client : Client) : Request → Option Client
  | .alloc size =>
      if size ≤ isizeMax then
        (alloc client.heap size).map (fun result =>
          { heap := result.2
            live := if result.1 = 0 then client.live else (result.1, size) :: client.live })
      else none
  | .dealloc ptr =>
      match client.live.find? (fun entry => entry.1 == ptr) with
      | none => none
      | some entry =>
          (dealloc client.heap ptr).map (fun heap =>
            { heap, live := client.live.erase entry })
  | .store address byte =>
      if client.live.any (fun entry => entry.1 ≤ address && address < entry.1 + entry.2) then
        some { client with
          heap := { client.heap with mem := client.heap.mem.writeByte address byte } }
      else none

def liveBlock (client : Client) (entry : Nat × Nat) : Chunk :=
  { addr := entry.1 - headerSize
    size := blockSize client.heap.mem (entry.1 - headerSize)
    free := false }

def liveBlocks (client : Client) : List Chunk :=
  client.live.map client.liveBlock

structure Sound (start stop : Nat) (client : Client) (blocks : List Chunk) : Prop where
  listed : freeBlocks client.heap = some blocks
  sorted : blocks.Pairwise (fun left right => left.addr < right.addr)
  apart : blocks.Pairwise (fun left right => left.finish headerSize ≠ right.addr)
  tiles : ∃ tiles, tiles.Perm (blocks ++ client.liveBlocks) ∧ Tiled headerSize start stop tiles
  served : ∀ entry, entry ∈ client.live →
    entry.1 ≠ 0 ∧ entry.1 % 16 = 0 ∧ entry.2 ≤ (client.liveBlock entry).size
  disjoint : client.live.Pairwise (fun left right =>
    left.1 + left.2 ≤ right.1 ∨ right.1 + right.2 ≤ left.1)
  offFree : ∀ entry, entry ∈ client.live → ∀ block, block ∈ blocks →
    entry.1 + entry.2 ≤ block.addr ∨ block.finish headerSize ≤ entry.1
  emptied : client.live = [] →
    blocks = [{ addr := start, size := stop - start - headerSize, free := true }]

structure Holds (start stop : Nat) (client : Client) (chunks : List Chunk) : Prop where
  rep : Represents start stop client.heap chunks
  settled : Settled chunks
  pointers : client.live.map Prod.fst |>.Perm ((used chunks).map (fun chunk => chunk.addr + 16))
  served : ∀ entry, entry ∈ client.live → ∃ chunk, chunk ∈ used chunks ∧
    chunk.addr + 16 = entry.1 ∧ entry.2 ≤ chunk.size

variable {start stop : Nat} {client : Client} {chunks : List Chunk}

theorem walkFree_eq {mem : ByteMemory} {steps current : Nat} {chunks : List Chunk}
    (links : Links (blockNext mem) current (chunks.map Chunk.addr) 0)
    (proper : ∀ chunk, chunk ∈ chunks → chunk.addr ≠ 0 ∧ chunk.free = true ∧
      blockSize mem chunk.addr = chunk.size) (enough : chunks.length < steps) :
    walkFree mem steps current = some chunks := by
  induction chunks generalizing steps current with
  | nil =>
      cases steps with
      | zero => cases enough
      | succ steps => rw [walkFree, if_pos (show current = 0 from links)]
  | cons first rest ih =>
      cases steps with
      | zero => cases enough
      | succ steps =>
          obtain ⟨rfl, tail⟩ := links
          obtain ⟨nonzero, isFree, size⟩ := proper first mem_cons_self
          rw [walkFree, if_neg nonzero, ih tail
            (fun chunk member => proper chunk (mem_cons_of_mem first member))
            (Nat.lt_of_succ_lt_succ enough), size, ← isFree]
          rfl

theorem freeBlocks_eq {heap : FreeListAllocator} (rep : Represents start stop heap chunks)
    (region : Region start stop) : freeBlocks heap = some (chunks.filter Chunk.free) := by
  refine walkFree_eq rep.linked ?_ ?_
  · intro chunk member
    obtain ⟨inside, isFree⟩ := mem_filter.mp member
    have bounds := rep.bounds region inside
    exact ⟨by omega, isFree, rep.sizes chunk inside⟩
  · have enough := rep.steps_enough
    unfold frees at enough
    rwa [length_map] at enough

section

variable (holds : Holds start stop client chunks)
include holds

theorem liveBlocks_perm : client.liveBlocks.Perm (used chunks) := by
  have read : ∀ chunk, chunk ∈ used chunks →
      { addr := chunk.addr + 16 - headerSize
        size := blockSize client.heap.mem (chunk.addr + 16 - headerSize)
        free := false : Chunk } = chunk := by
    intro chunk member
    obtain ⟨inside, isUsed⟩ := mem_used.mp member
    have place : chunk.addr + 16 - headerSize = chunk.addr := Nat.add_sub_cancel chunk.addr 16
    rw [place, holds.rep.sizes chunk inside, ← isUsed]
  have mapped := holds.pointers.map (fun ptr =>
    ({ addr := ptr - headerSize, size := blockSize client.heap.mem (ptr - headerSize)
       free := false } : Chunk))
  rw [map_map, map_map] at mapped
  have same : (used chunks).map ((fun ptr =>
      ({ addr := ptr - headerSize, size := blockSize client.heap.mem (ptr - headerSize)
         free := false } : Chunk)) ∘ (fun chunk => chunk.addr + 16)) = used chunks := by
    conv_rhs => rw [← map_id (used chunks)]
    exact map_congr_left read
  rw [same] at mapped
  exact mapped

theorem Holds.tiles : chunks.Perm (chunks.filter Chunk.free ++ client.liveBlocks) := by
  have parts := (filter_append_perm Chunk.free chunks).symm
  exact parts.trans (List.Perm.append_left _ (liveBlocks_perm holds).symm)

theorem Holds.distinct : client.live.Pairwise (fun left right => left.1 ≠ right.1) := by
  have ordered : ((used chunks).map (fun chunk => chunk.addr + 16)).Nodup := by
    unfold List.Nodup
    rw [pairwise_map]
    refine (holds.rep.tiled.pairwise.sublist filter_sublist).imp ?_
    intro left right apart
    have header : headerSize = 16 := rfl
    unfold Chunk.finish at apart
    omega
  exact pairwise_map.mp (holds.pointers.nodup_iff.mpr ordered)

theorem Holds.sound (region : Region start stop) :
    Sound start stop client (chunks.filter Chunk.free) := by
  have header : headerSize = 16 := rfl
  have tiled := holds.rep.tiled
  have ordered : (chunks.filter Chunk.free).Pairwise (fun left right =>
      left.finish headerSize ≤ right.addr) := tiled.pairwise.sublist filter_sublist
  refine
    { listed := freeBlocks_eq holds.rep region
      sorted := ?_
      apart := ?_
      tiles := ⟨chunks, holds.tiles, tiled⟩
      served := ?_
      disjoint := ?_
      offFree := ?_
      emptied := ?_ }
  · refine ordered.imp ?_
    intro left right apart
    unfold Chunk.finish at apart
    omega
  · exact not_adjacent tiled holds.settled (by decide)
  · intro entry member
    obtain ⟨chunk, inUsed, place, fits⟩ := holds.served entry member
    obtain ⟨inside, -⟩ := mem_used.mp inUsed
    have bounds := holds.rep.bounds region inside
    have aligned := holds.rep.aligned region inside
    refine ⟨by omega, by omega, ?_⟩
    have back : entry.1 - headerSize = chunk.addr := by omega
    simp only [liveBlock, back, holds.rep.sizes chunk inside]
    exact fits
  · refine (List.Pairwise.imp_of_mem ?_ holds.distinct)
    intro left right inLeft inRight different
    obtain ⟨chunk, inUsed, place, fits⟩ := holds.served left inLeft
    obtain ⟨other, otherUsed, otherPlace, otherFits⟩ := holds.served right inRight
    have apart := tiled.apart_of_ne (mem_used.mp inUsed).1 (mem_used.mp otherUsed).1 (by omega)
    unfold Chunk.finish at apart
    omega
  · intro entry member block inFree
    obtain ⟨chunk, inUsed, place, fits⟩ := holds.served entry member
    obtain ⟨inside, isFree⟩ := mem_filter.mp inFree
    have isUsed := (mem_used.mp inUsed).2
    have different : block.addr ≠ chunk.addr := by
      intro same
      have sameChunk := eq_of_addr tiled inside (mem_used.mp inUsed).1 same (by decide)
      rw [sameChunk, isUsed] at isFree
      cases isFree
    have apart := tiled.apart_of_ne (mem_used.mp inUsed).1 inside different
    unfold Chunk.finish at apart ⊢
    omega
  · intro nothing
    have noneUsed : used chunks = [] := by
      have perm := holds.pointers
      rw [nothing] at perm
      exact map_eq_nil_iff.mp perm.nil_eq.symm
    have allFree : ∀ chunk, chunk ∈ chunks → chunk.free = true := by
      intro chunk member
      by_contra notFree
      have inUsed := mem_used.mpr ⟨member, Bool.eq_false_iff.mpr notFree⟩
      rw [noneUsed] at inUsed
      cases inUsed
    have proper : start < stop := by
      have room := region.room
      omega
    obtain ⟨chunk, rfl, starts, ends⟩ := single_of_settled tiled holds.settled proper allFree
    have isFree := allFree chunk (by simp)
    unfold Chunk.finish at ends
    have size : chunk.size = stop - start - headerSize := by omega
    have whole : chunk = { addr := start, size := stop - start - headerSize, free := true } := by
      rw [← size, ← starts, ← isFree]
    rw [filter_cons_of_pos isFree, filter_nil, whole]

end

/-- `allocated` is the sum of the sizes in the headers of the chunks in use. -/
def Balanced (heap : FreeListAllocator) (chunks : List Chunk) : Prop :=
  heap.allocated = ((used chunks).map Chunk.size).sum

def firstFit (heap : FreeListAllocator) (size : Nat) : Option Chunk :=
  (freeBlocks heap).bind (fun blocks => blocks.find? (fun block => roundUp size ≤ block.size))

def Snug (client : Client) : Request → Prop
  | .alloc size => ∀ block, firstFit client.heap size = some block →
      block.size ≠ roundUp size + headerSize
  | _ => True

theorem sum_used_le (tiled : Tiled headerSize start stop chunks) :
    ((used chunks).map Chunk.size).sum ≤ stop - start := by
  induction chunks generalizing start with
  | nil => simp [used]
  | cons first rest ih =>
      obtain ⟨here, tail⟩ := tiled
      have later := ih tail
      have inside := tail.le
      unfold Chunk.finish at later inside
      cases isFree : first.free with
      | true =>
          rw [used_cons_free isFree]
          omega
      | false =>
          rw [used_cons_used isFree, map_cons, sum_cons]
          omega

theorem firstFit_eq {before after : List Chunk} {chunk : Chunk} {heap : FreeListAllocator}
    {size : Nat} (rep : Represents start stop heap (before ++ chunk :: after))
    (region : Region start stop) (isFree : chunk.free = true)
    (small : ∀ other, other ∈ before → other.free = true → other.size < roundUp size)
    (fits : roundUp size ≤ chunk.size) : firstFit heap size = some chunk := by
  unfold firstFit
  rw [freeBlocks_eq rep region, Option.bind_some, filter_append,
    filter_cons_of_pos isFree, List.find?_append]
  have noneBefore : (before.filter Chunk.free).find? (fun block => roundUp size ≤ block.size) =
      none := by
    rw [List.find?_eq_none]
    intro other member
    obtain ⟨inside, otherFree⟩ := mem_filter.mp member
    have less := small other inside otherFree
    simp only [decide_eq_true_eq]
    omega
  rw [noneBefore, Option.none_or, List.find?_cons_of_pos (by simpa using fits)]

theorem perm_append_cons {α : Type} {first : α} {before after rest : List α}
    (perm : rest.Perm (before ++ after)) : (first :: rest).Perm (before ++ first :: after) :=
  (List.Perm.cons first perm).trans perm_middle.symm

section

variable (holds : Holds start stop client chunks)
include holds

theorem Holds.alloc {size : Nat} {next : Client} (region : Region start stop)
    (stepped : step client (.alloc size) = some next) :
    ∃ chunks', Holds start stop next chunks' ∧
      (Snug client (.alloc size) → Balanced client.heap chunks → Balanced next.heap chunks') := by
  unfold step at stepped
  dsimp only at stepped
  split at stepped
  case isFalse => cases stepped
  case isTrue atMost =>
      have small : size < 2 ^ 63 := by
        unfold isizeMax at atMost
        omega
      rcases holds.rep.alloc_cases region holds.settled small with
        ⟨ran, -⟩ | ⟨before, chunk, after, heap', rfl, isFree, tooSmall, fits, ran, counted, rep',
          settled'⟩
      · rw [ran] at stepped
        cases stepped
        exact ⟨chunks, ⟨holds.rep, holds.settled, holds.pointers, holds.served⟩,
          fun _ balanced => balanced⟩
      · rw [ran] at stepped
        have nonNull : chunk.addr + 16 ≠ 0 := by omega
        simp only [Option.map_some, if_neg nonNull, Option.some.injEq] at stepped
        subst stepped
        obtain ⟨taken, isTaken, place, takenUsed, takenSize⟩ := used_pieces chunk (roundUp size)
        have parts : used (before ++ (pieces chunk (roundUp size) ++ after)) =
            used before ++ taken :: used after := by
          rw [used_append, used_append, isTaken]
          rfl
        have old : used (before ++ chunk :: after) = used before ++ used after := by
          rw [used_append, used_cons_free isFree]
        have rounded : size ≤ roundUp size := by
          rw [roundUp_eq small]
          omega
        have enough : size ≤ taken.size := by
          rw [takenSize]
          split <;> omega
        refine ⟨_, ⟨rep', settled', ?_, ?_⟩, ?_⟩
        · have pointers := holds.pointers
          rw [old, map_append] at pointers
          rw [parts, map_append, map_cons, map_cons, place]
          exact perm_append_cons pointers
        · intro entry member
          rcases mem_cons.mp member with rfl | earlier
          · refine ⟨taken, ?_, by rw [place], enough⟩
            rw [parts]
            exact mem_append_right _ mem_cons_self
          · obtain ⟨other, inUsed, otherPlace, otherFits⟩ := holds.served entry earlier
            refine ⟨other, ?_, otherPlace, otherFits⟩
            rw [old] at inUsed
            rw [parts]
            rcases mem_append.mp inUsed with left | right
            · exact mem_append_left _ left
            · exact mem_append_right _ (mem_cons_of_mem _ right)
        · intro snug balanced
          have header : headerSize = 16 := rfl
          have member : chunk ∈ before ++ chunk :: after :=
            mem_append_right before mem_cons_self
          have notSpare := snug chunk (firstFit_eq holds.rep region isFree tooSmall fits)
          have whole := holds.rep.whole chunk member
          have rounded16 : roundUp size % 16 = 0 := by
            rw [roundUp_eq small]
            omega
          have exactSize : taken.size = roundUp size := by
            rw [takenSize]
            split <;> omega
          have sum : ((used (before ++ (pieces chunk (roundUp size) ++ after))).map Chunk.size).sum =
              client.heap.allocated + roundUp size := by
            unfold Balanced at balanced
            rw [balanced, parts, old, map_append, map_cons, map_append,
              sum_append, sum_cons, sum_append, exactSize]
            omega
          have inRegion := sum_used_le rep'.tiled
          have bounded := region.bounded
          unfold Balanced
          rw [sum] at inRegion ⊢
          rw [counted]
          exact Nat.mod_eq_of_lt (by omega)

theorem Holds.dealloc {ptr : Nat} {next : Client} (region : Region start stop)
    (stepped : step client (.dealloc ptr) = some next) :
    ∃ chunks', Holds start stop next chunks' ∧
      (Balanced client.heap chunks → Balanced next.heap chunks') := by
  unfold step at stepped
  dsimp only at stepped
  split at stepped
  case h_1 => cases stepped
  case h_2 entry found =>
      have member := mem_of_find?_eq_some found
      have isPtr : entry.1 = ptr := by simpa using List.find?_some found
      obtain ⟨chunk, inUsed, place, -⟩ := holds.served entry member
      obtain ⟨inside, isUsed⟩ := mem_used.mp inUsed
      obtain ⟨before, after, rfl⟩ := append_of_mem inside
      obtain ⟨heap', all, ran, counted, rep', settled', usedAll⟩ :=
        holds.rep.dealloc_ok region holds.settled isUsed
      rw [← isPtr, ← place, ran] at stepped
      cases stepped
      have old : used (before ++ chunk :: after) = used before ++ chunk :: used after := by
        rw [used_append, used_cons_used isUsed]
      have removed : (client.live.erase entry).map Prod.fst |>.Perm
          ((used before ++ used after).map (fun chunk => chunk.addr + 16)) := by
        have pointers := holds.pointers
        rw [old] at pointers
        have front := (perm_cons_erase member).map Prod.fst
        rw [map_cons] at front
        have moved : ((used before ++ chunk :: used after).map (fun chunk => chunk.addr + 16)).Perm
            (entry.1 :: (used before ++ used after).map (fun chunk => chunk.addr + 16)) := by
          rw [← place]
          exact List.Perm.map _ perm_middle
        exact List.Perm.cons_inv (front.symm.trans (pointers.trans moved))
      refine ⟨all, ⟨rep', settled', ?_, ?_⟩, ?_⟩
      · rw [usedAll]
        exact removed
      · intro other inRest
        obtain ⟨found', otherUsed, otherPlace, otherFits⟩ :=
          holds.served other (mem_of_mem_erase inRest)
        refine ⟨found', ?_, otherPlace, otherFits⟩
        have different : other.1 ≠ entry.1 := by
          have apart := holds.distinct.perm (perm_cons_erase member) (fun apart => apart.symm)
          exact Ne.symm ((pairwise_cons.mp apart).1 other inRest)
        rw [old] at otherUsed
        rw [usedAll]
        rcases mem_append.mp otherUsed with left | right
        · exact mem_append_left _ left
        · rcases mem_cons.mp right with rfl | later
          · exact absurd (otherPlace.symm.trans place) different
          · exact mem_append_right _ later
      · intro balanced
        unfold Balanced at balanced ⊢
        have inRegion := sum_used_le holds.rep.tiled
        have bounded := region.bounded
        rw [← balanced] at inRegion
        rw [old, map_append, map_cons, sum_append, sum_cons] at balanced
        rw [counted, wrappingSub_of_le (by omega) (by omega), usedAll, map_append,
          sum_append]
        omega

theorem Holds.store {address : Nat} {byte : BitVec 8} {next : Client}
    (stepped : step client (.store address byte) = some next) :
    Holds start stop next chunks ∧ next.heap.allocated = client.heap.allocated := by
  unfold step at stepped
  dsimp only at stepped
  split at stepped
  case isFalse => cases stepped
  case isTrue inPayload =>
      cases stepped
      obtain ⟨entry, member, within⟩ := any_eq_true.mp inPayload
      simp only [Bool.and_eq_true, decide_eq_true_eq] at within
      obtain ⟨chunk, inUsed, place, fits⟩ := holds.served entry member
      have inside := (mem_used.mp inUsed).1
      have header : headerSize = 16 := rfl
      have offHeaders : ∀ other, other ∈ chunks →
          address < other.addr ∨ other.addr + 16 ≤ address := by
        intro other otherInside
        by_cases same : other.addr = chunk.addr
        · omega
        · have apart := holds.rep.tiled.apart_of_ne inside otherInside same
          unfold Chunk.finish at apart
          omega
      have sameSize : ∀ other, other ∈ chunks →
          blockSize (client.heap.mem.writeByte address byte) other.addr =
            blockSize client.heap.mem other.addr := by
        intro other otherInside
        have apart := offHeaders other otherInside
        unfold blockSize
        rw [ByteMemory.readU64_congr (ByteMemory.writeByte_sameOn _ _ _ _ _ (by omega))]
      have sameNext : ∀ addr, addr ∈ frees chunks →
          blockNext (client.heap.mem.writeByte address byte) addr =
            blockNext client.heap.mem addr := by
        intro addr listed
        obtain ⟨other, otherInside, -, rfl⟩ := mem_frees.mp listed
        have apart := offHeaders other otherInside
        unfold blockNext
        rw [ByteMemory.readU64_congr (ByteMemory.writeByte_sameOn _ _ _ _ _ (by omega))]
      refine ⟨⟨?_, holds.settled, holds.pointers, holds.served⟩, rfl⟩
      exact
        { tiled := holds.rep.tiled
          whole := holds.rep.whole
          sizes := fun other otherInside =>
            (sameSize other otherInside).trans (holds.rep.sizes other otherInside)
          linked := holds.rep.linked.congr sameNext
          total := holds.rep.total }

theorem Holds.step {request : Request} {next : Client} (region : Region start stop)
    (stepped : step client request = some next) :
    ∃ chunks', Holds start stop next chunks' ∧
      (Snug client request → Balanced client.heap chunks → Balanced next.heap chunks') := by
  cases request with
  | alloc size => exact holds.alloc region stepped
  | dealloc ptr =>
      obtain ⟨chunks', holds', balances⟩ := holds.dealloc region stepped
      exact ⟨chunks', holds', fun _ => balances⟩
  | store address byte =>
      obtain ⟨holds', same⟩ := holds.store stepped
      exact ⟨chunks, holds', fun _ balanced => same.trans balanced⟩

end

theorem initial_holds (region : Region start stop) (mem : ByteMemory) :
    Holds start stop (initial mem start stop)
        [{ addr := start, size := stop - start - headerSize, free := true }] ∧
      Balanced (initial mem start stop).heap
        [{ addr := start, size := stop - start - headerSize, free := true }] := by
  obtain ⟨positive, aligned, stopAligned, room, bounded⟩ := region
  have header : headerSize = 16 := rfl
  have total : wrappingSub stop start = stop - start := wrappingSub_of_le bounded (by omega)
  have size : wrappingSub (stop - start) headerSize = stop - start - headerSize :=
    wrappingSub_of_le (by omega) (by omega)
  have sizeHere : blockSize (init mem start stop).mem start = stop - start - headerSize := by
    unfold init
    dsimp only
    rw [total, size, blockSize_setNext aligned aligned, blockSize_setSize_self (by omega)]
  have nextHere : blockNext (init mem start stop).mem start = 0 :=
    blockNext_setNext_self (Nat.two_pow_pos 64)
  refine ⟨⟨⟨?_, ?_, ?_, ?_, ?_⟩, ?_, ?_, ?_⟩, rfl⟩
  · refine ⟨rfl, ?_⟩
    simp only [Tiled, Chunk.finish]
    omega
  · intro chunk member
    rw [mem_singleton.mp member]
    simp only
    omega
  · intro chunk member
    rw [mem_singleton.mp member]
    exact sizeHere
  · exact ⟨rfl, nextHere⟩
  · exact total
  · exact List.IsChain.singleton _
  · exact List.Perm.refl _
  · intro entry member
    cases member

theorem run_holds {mem : ByteMemory} {requests : List Request} (region : Region start stop)
    (ran : Runs.after step (initial mem start stop) requests = some client) :
    ∃ chunks, Holds start stop client chunks := by
  refine @Runs.after_invariant Client Request step (fun _ _ => True)
    (fun client => ∃ chunks, Holds start stop client chunks) ?_ _ _ _
    ⟨_, (initial_holds region mem).1⟩ (Runs.Meets.of_forall (fun _ _ => trivial) _ _) ran
  rintro state request next ⟨chunks, holds⟩ - stepped
  obtain ⟨chunks', holds', -⟩ := holds.step region stepped
  exact ⟨chunks', holds'⟩

theorem snug_run_balanced {mem : ByteMemory} {requests : List Request}
    (region : Region start stop)
    (snug : Runs.Meets step Snug (initial mem start stop) requests)
    (ran : Runs.after step (initial mem start stop) requests = some client) :
    ∃ chunks, Holds start stop client chunks ∧ Balanced client.heap chunks := by
  refine @Runs.after_invariant Client Request step Snug
    (fun client => ∃ chunks, Holds start stop client chunks ∧ Balanced client.heap chunks) ?_ _ _ _
    ⟨_, initial_holds region mem⟩ snug ran
  rintro state request next ⟨chunks, holds, balanced⟩ isSnug stepped
  obtain ⟨chunks', holds', balances⟩ := holds.step region stepped
  exact ⟨chunks', holds', balances isSnug balanced⟩

/-- After any run the heap is sound, and the next request returns. -/
theorem heap_stays_sound {mem : ByteMemory} {requests : List Request}
    (region : Region start stop)
    (ran : Runs.after step (initial mem start stop) requests = some client) :
    (∃ blocks, Sound start stop client blocks) ∧
    (∀ size, size ≤ isizeMax → ∃ next, step client (.alloc size) = some next) ∧
    (∀ entry, entry ∈ client.live → ∃ next, step client (.dealloc entry.1) = some next) := by
  obtain ⟨chunks, holds⟩ := run_holds region ran
  refine ⟨⟨_, holds.sound region⟩, ?_, ?_⟩
  · intro size atMost
    have small : size < 2 ^ 63 := by
      unfold isizeMax at atMost
      omega
    unfold Client.step
    dsimp only
    rw [if_pos atMost]
    rcases holds.rep.alloc_cases region holds.settled small with
      ⟨returns, -⟩ | ⟨before, chunk, after, heap', -, -, -, -, returns, -⟩
    · rw [returns]
      exact ⟨_, rfl⟩
    · rw [returns]
      exact ⟨_, rfl⟩
  · intro entry member
    unfold Client.step
    dsimp only
    cases found : client.live.find? (fun other => other.1 == entry.1) with
    | none =>
        have absent := List.find?_eq_none.mp found entry member
        simp at absent
    | some other =>
        obtain ⟨chunk, inUsed, place, -⟩ := holds.served entry member
        obtain ⟨inside, isUsed⟩ := mem_used.mp inUsed
        obtain ⟨before, after, rfl⟩ := List.append_of_mem inside
        obtain ⟨heap', all, returns, -⟩ := holds.rep.dealloc_ok region holds.settled isUsed
        dsimp only
        rw [← place, returns]
        exact ⟨_, rfl⟩

theorem heap_stays_sound_reused : ∃ client,
    Runs.after step (initial (fun _ => 0#8) 16 4096) [.alloc 24, .alloc 100, .dealloc 32] =
      some client ∧ ∃ blocks, Sound 16 4096 client blocks := by
  obtain ⟨client, ran⟩ := Option.isSome_iff_exists.mp
    (show (Runs.after step (initial (fun _ => 0#8) 16 4096)
      [.alloc 24, .alloc 100, .dealloc 32]).isSome = true by decide +kernel)
  exact ⟨client, ran, (heap_stays_sound (by constructor <;> decide) ran).1⟩

/-- After a run of snug allocations the account is exact. -/
theorem snug_account_exact {mem : ByteMemory} {requests : List Request}
    (region : Region start stop)
    (snug : Runs.Meets step Snug (initial mem start stop) requests)
    (ran : Runs.after step (initial mem start stop) requests = some client) :
    allocatedBytes client.heap = (client.liveBlocks.map Chunk.size).sum ∧
    (∀ entry, entry ∈ client.live → (client.liveBlock entry).size ≤ allocatedBytes client.heap) ∧
    allocatedBytes client.heap ≤ client.heap.total ∧
    freeBytes client.heap = client.heap.total - allocatedBytes client.heap ∧
    (client.live = [] → allocatedBytes client.heap = 0) := by
  obtain ⟨chunks, holds, balanced⟩ := snug_run_balanced region snug ran
  have sum : allocatedBytes client.heap = (client.liveBlocks.map Chunk.size).sum := by
    have perm := (liveBlocks_perm holds).map Chunk.size
    rw [perm.sum_nat]
    exact balanced
  have inRegion : allocatedBytes client.heap ≤ client.heap.total := by
    have atMost := sum_used_le holds.rep.tiled
    rw [← balanced] at atMost
    rw [holds.rep.total]
    exact atMost
  have totalFits : client.heap.total < wordLimit := by
    rw [holds.rep.total]
    have bounded := region.bounded
    omega
  refine ⟨sum, ?_, inRegion, wrappingSub_of_le totalFits inRegion, ?_⟩
  · intro entry member
    have listed : (client.liveBlock entry).size ∈ client.liveBlocks.map Chunk.size :=
      List.mem_map_of_mem (List.mem_map_of_mem member)
    have parted := (List.perm_cons_erase listed).sum_nat
    rw [List.sum_cons] at parted
    omega
  · intro nothing
    rw [sum]
    unfold liveBlocks
    rw [nothing]
    rfl

theorem snug_account_exact_reused : ∃ client,
    Runs.after step (initial (fun _ => 0#8) 16 4096) [.alloc 24, .dealloc 32] = some client ∧
      allocatedBytes client.heap = 0 := by
  obtain ⟨client, ran⟩ := Option.isSome_iff_exists.mp
    (show (Runs.after step (initial (fun _ => 0#8) 16 4096) [.alloc 24, .dealloc 32]).isSome = true
      by decide +kernel)
  have freed : client.live = [] := by
    have live : (Runs.after step (initial (fun _ => 0#8) 16 4096) [.alloc 24, .dealloc 32]).map
        Client.live = some [] := by decide +kernel
    rw [ran] at live
    exact Option.some.inj live
  have snug : Runs.Meets step Snug (initial (fun _ => 0#8) 16 4096) [.alloc 24, .dealloc 32] := by
    refine ⟨?_, fun _ _ => ⟨trivial, fun _ _ => trivial⟩⟩
    intro block found
    have fit : firstFit (initial (fun _ => 0#8) 16 4096).heap 24 =
        some { addr := 16, size := 4064, free := true } := by decide +kernel
    rw [fit] at found
    cases found
    decide
  exact ⟨client, ran, (snug_account_exact (by constructor <;> decide) snug ran).2.2.2.2 freed⟩

/-- One allocation of 32 bytes from a block of 48 counts 32 bytes for a block of 48. -/
theorem spare_header_miscounted :
    (Runs.after step (initial (fun _ => 0#8) 16 80) [.alloc 32]).map (fun client =>
      (allocatedBytes client.heap, (client.liveBlocks.map Chunk.size).sum)) = some (32, 48) ∧
    (Runs.after step (initial (fun _ => 0#8) 16 80) [.alloc 32, .dealloc 32]).map (fun client =>
      (client.live, allocatedBytes client.heap)) = some ([], 2 ^ 64 - 16) := by
  decide +kernel

end Client
end MachaOS.FreeListAllocator
