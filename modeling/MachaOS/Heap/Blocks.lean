/-
What the allocator does to the blocks of its region.

`Represents` reads the region as a list of chunks, one per header: they tile it,
every header holds the size of its chunk, and the free list runs through the
free chunks in order.  `alloc` cuts a free chunk, `dealloc` frees one and joins
it with free neighbours; the lemmas below say so one memory update at a time.
-/

import MachaOS.Heap.Allocator
import MachaOS.Lib.Links
import MachaOS.Lib.Tiling

namespace MachaOS.FreeListAllocator

open List ByteMemory
open Chunk

section Headers

variable {mem : ByteMemory} {block other value : Nat}

theorem toNat_word (fits : value < wordLimit) : (BitVec.ofNat 64 value).toNat = value := by
  rw [BitVec.toNat_ofNat]
  exact Nat.mod_eq_of_lt fits

theorem blockSize_setSize_self (fits : value < wordLimit) :
    blockSize (setSize mem block value) block = value := by
  unfold blockSize setSize
  rw [readU64_writeU64_self, toNat_word fits]

theorem blockNext_setNext_self (fits : value < wordLimit) :
    blockNext (setNext mem block value) block = value := by
  unfold blockNext setNext
  rw [readU64_writeU64_self, toNat_word fits]

theorem blockNext_lt : blockNext mem block < wordLimit :=
  BitVec.isLt _

section

variable (aligned : block % 16 = 0) (otherAligned : other % 16 = 0)
include aligned otherAligned

theorem blockSize_setSize_of_ne (different : other ≠ block) :
    blockSize (setSize mem block value) other = blockSize mem other := by
  unfold blockSize setSize
  rw [readU64_writeU64_of_apart _ _ _ _ (by omega)]

theorem blockNext_setNext_of_ne (different : other ≠ block) :
    blockNext (setNext mem block value) other = blockNext mem other := by
  unfold blockNext setNext
  rw [readU64_writeU64_of_apart _ _ _ _ (by omega)]

theorem blockSize_setNext : blockSize (setNext mem block value) other = blockSize mem other := by
  unfold blockSize setNext
  rw [readU64_writeU64_of_apart _ _ _ _ (by omega)]

theorem blockNext_setSize : blockNext (setSize mem block value) other = blockNext mem other := by
  unfold blockNext setSize
  rw [readU64_writeU64_of_apart _ _ _ _ (by omega)]

end

theorem wrappingSub_of_le {left right : Nat} (fits : left < wordLimit) (le : right ≤ left) :
    wrappingSub left right = left - right := by
  unfold wrappingSub
  have shift : left + wordLimit - right = left - right + wordLimit := by omega
  rw [shift, Nat.add_mod_right, Nat.mod_eq_of_lt (by omega)]

end Headers

/-- A region `init` can be handed: aligned, off the null pointer, with room for a header. -/
structure Region (start stop : Nat) : Prop where
  positive : 0 < start
  aligned : start % 16 = 0
  stopAligned : stop % 16 = 0
  room : start + headerSize ≤ stop
  bounded : stop < wordLimit

def frees (chunks : List Chunk) : List Nat :=
  (chunks.filter Chunk.free).map Chunk.addr

structure Represents (start stop : Nat) (heap : FreeListAllocator) (chunks : List Chunk) :
    Prop where
  tiled : Tiled headerSize start stop chunks
  whole : ∀ chunk, chunk ∈ chunks → chunk.size % 16 = 0
  sizes : ∀ chunk, chunk ∈ chunks → blockSize heap.mem chunk.addr = chunk.size
  linked : Links (blockNext heap.mem) heap.head (frees chunks) 0
  total : heap.total = stop - start

section Lists

variable {before after chunks : List Chunk} {chunk : Chunk}

theorem frees_append : frees (before ++ after) = frees before ++ frees after := by
  simp [frees]

theorem frees_cons_free (isFree : chunk.free = true) :
    frees (chunk :: after) = chunk.addr :: frees after := by
  simp [frees, isFree]

theorem frees_cons_used (isUsed : chunk.free = false) : frees (chunk :: after) = frees after := by
  simp [frees, isUsed]

theorem mem_frees {addr : Nat} :
    addr ∈ frees chunks ↔ ∃ chunk, chunk ∈ chunks ∧ chunk.free = true ∧ chunk.addr = addr := by
  simp [frees, and_assoc]

theorem addr_of_either {addr : Nat} (place : addr ∈ frees before ∨ addr ∈ frees after) :
    ∃ other, (other ∈ before ∨ other ∈ after) ∧ other.addr = addr := by
  rcases place with old | old
  · obtain ⟨other, inside, -, rfl⟩ := mem_frees.mp old
    exact ⟨other, Or.inl inside, rfl⟩
  · obtain ⟨other, inside, -, rfl⟩ := mem_frees.mp old
    exact ⟨other, Or.inr inside, rfl⟩

theorem addr_aligned {start stop : Nat} (tiled : Tiled headerSize start stop chunks)
    (aligned : start % 16 = 0) (whole : ∀ chunk, chunk ∈ chunks → chunk.size % 16 = 0) :
    ∀ chunk, chunk ∈ chunks → chunk.addr % 16 = 0 := by
  induction chunks generalizing start with
  | nil => simp
  | cons first rest ih =>
      obtain ⟨here, tail⟩ := tiled
      have size := whole first mem_cons_self
      have nextAligned : first.finish headerSize % 16 = 0 := by
        have header : headerSize = 16 := rfl
        unfold Chunk.finish
        omega
      intro chunk member
      rcases mem_cons.mp member with rfl | later
      · omega
      · exact ih tail nextAligned
          (fun other inRest => whole other (mem_cons_of_mem first inRest)) chunk later

theorem length_le {start stop : Nat} (tiled : Tiled headerSize start stop chunks) :
    chunks.length * headerSize ≤ stop - start := by
  induction chunks generalizing start with
  | nil => simp
  | cons first rest ih =>
      obtain ⟨here, tail⟩ := tiled
      have later := ih tail
      have atMost := tail.le
      unfold Chunk.finish at later atMost
      rw [length_cons, Nat.add_mul]
      omega

end Lists

namespace Represents

variable {start stop : Nat} {heap : FreeListAllocator} {before after chunks : List Chunk}
  {chunk : Chunk}

section

variable (rep : Represents start stop heap chunks) (region : Region start stop)
include rep region

theorem aligned (member : chunk ∈ chunks) : chunk.addr % 16 = 0 :=
  addr_aligned rep.tiled region.aligned rep.whole chunk member

theorem bounds (member : chunk ∈ chunks) :
    16 ≤ chunk.addr ∧ chunk.addr + 16 + chunk.size < wordLimit := by
  have inside := rep.tiled.within member
  have header : headerSize = 16 := rfl
  have positive := region.positive
  have bounded := region.bounded
  have startAligned := region.aligned
  unfold Chunk.finish at inside
  omega

theorem frees_bounds {addr : Nat} (member : addr ∈ frees chunks) :
    addr ≠ 0 ∧ addr % 16 = 0 ∧ addr < wordLimit := by
  obtain ⟨chunk, inChunks, -, rfl⟩ := mem_frees.mp member
  have bounds := rep.bounds region inChunks
  exact ⟨by omega, rep.aligned region inChunks, by omega⟩

end

theorem before_lt (rep : Represents start stop heap (before ++ chunk :: after)) {addr : Nat}
    (member : addr ∈ frees before) : addr < chunk.addr := by
  obtain ⟨other, inBefore, -, rfl⟩ := mem_frees.mp member
  have apart := rep.tiled.before_le inBefore
  have header : headerSize = 16 := rfl
  unfold Chunk.finish at apart
  omega

theorem lt_after (rep : Represents start stop heap (before ++ chunk :: after)) {addr : Nat}
    (member : addr ∈ frees after) : chunk.addr + 16 + chunk.size ≤ addr := by
  obtain ⟨other, inAfter, -, rfl⟩ := mem_frees.mp member
  exact rep.tiled.le_after inAfter

theorem steps_enough (rep : Represents start stop heap chunks) :
    (frees chunks).length < stepLimit heap := by
  have many := length_le rep.tiled
  have few : (frees chunks).length ≤ chunks.length := by
    unfold frees
    rw [length_map]
    exact length_filter_le _ _
  have header : headerSize = 16 := rfl
  rw [header] at many
  unfold stepLimit
  rw [rep.total, header]
  omega

theorem ascending (rep : Represents start stop heap chunks) :
    (frees chunks).Pairwise (· < ·) := by
  unfold frees
  rw [pairwise_map]
  refine (rep.tiled.pairwise.sublist filter_sublist).imp ?_
  intro left right apart
  have header : headerSize = 16 := rfl
  unfold Chunk.finish at apart
  omega

end Represents

section Loops

variable {heap : FreeListAllocator} {items : List Nat}

theorem search_cases {size steps previous current : Nat}
    (links : Links (blockNext heap.mem) current items 0)
    (nonzero : ∀ addr, addr ∈ items → addr ≠ 0) (enough : items.length < steps) :
    (search heap size steps previous current = some (0, heap) ∧
      ∀ addr, addr ∈ items → blockSize heap.mem addr < size) ∨
    ∃ early found late, items = early ++ found :: late ∧
      (∀ addr, addr ∈ early → blockSize heap.mem addr < size) ∧
      size ≤ blockSize heap.mem found ∧
      search heap size steps previous current = some ((found + headerSize) % wordLimit,
        takeBlock heap size (early.getLast?.getD previous) found) := by
  induction items generalizing steps previous current with
  | nil =>
      cases steps with
      | zero => cases enough
      | succ steps =>
          refine Or.inl ⟨?_, by simp⟩
          rw [search, if_pos (show current = 0 from links)]
  | cons first rest ih =>
      cases steps with
      | zero => cases enough
      | succ steps =>
          obtain ⟨rfl, tail⟩ := links
          rw [search, if_neg (nonzero current mem_cons_self)]
          by_cases large : blockSize heap.mem current ≥ size
          · exact Or.inr ⟨[], current, rest, rfl, by simp, large, if_pos large⟩
          · rw [if_neg large]
            rcases @ih steps current _ tail
                (fun addr member => nonzero addr (mem_cons_of_mem current member))
                (Nat.lt_of_succ_lt_succ enough) with
              ⟨ran, small⟩ | ⟨early, found, late, rfl, small, fits, ran⟩
            · refine Or.inl ⟨ran, ?_⟩
              intro addr member
              rcases mem_cons.mp member with rfl | later
              · exact Nat.lt_of_not_le large
              · exact small addr later
            · refine Or.inr ⟨current :: early, found, late, rfl, ?_, fits, ?_⟩
              · intro addr member
                rcases mem_cons.mp member with rfl | later
                · exact Nat.lt_of_not_le large
                · exact small addr later
              · rw [ran, List.getLast?_cons]
                rfl

theorem findPlace_eq {mem : ByteMemory} {block steps previous current : Nat}
    {early late : List Nat} (links : Links (blockNext mem) current (early ++ late) 0)
    (below : ∀ addr, addr ∈ early → addr ≠ 0 ∧ addr < block)
    (above : ∀ addr, addr ∈ late → block ≤ addr) (enough : early.length < steps) :
    findPlace mem block steps previous current =
      some (early.getLast?.getD previous, late.head?.getD 0) := by
  induction early generalizing steps previous current with
  | nil =>
      cases steps with
      | zero => cases enough
      | succ steps =>
          rw [findPlace]
          cases late with
          | nil =>
              have isNull : current = 0 := links
              rw [if_neg (fun both => both.1 isNull), isNull]
              rfl
          | cons first rest =>
              obtain ⟨here, -⟩ := links
              have high := above first mem_cons_self
              rw [if_neg (by omega), here]
              rfl
  | cons first rest ih =>
      cases steps with
      | zero => cases enough
      | succ steps =>
          obtain ⟨rfl, tail⟩ := links
          rw [findPlace, if_pos (below current mem_cons_self),
            ih tail (fun addr member => below addr (mem_cons_of_mem current member))
              (Nat.lt_of_succ_lt_succ enough), List.getLast?_cons]
          rfl

end Loops

section Relink

variable {heap : FreeListAllocator} {previous target : Nat}

@[simp] theorem relink_total : (relink heap previous target).total = heap.total := by
  unfold relink
  split <;> rfl

@[simp] theorem relink_allocated : (relink heap previous target).allocated = heap.allocated := by
  unfold relink
  split <;> rfl

theorem blockSize_relink {other : Nat} (aligned : previous % 16 = 0)
    (otherAligned : other % 16 = 0) :
    blockSize (relink heap previous target).mem other = blockSize heap.mem other := by
  unfold relink
  split
  · rfl
  · exact blockSize_setNext aligned otherAligned

theorem blockNext_relink {other : Nat} (aligned : previous % 16 = 0)
    (otherAligned : other % 16 = 0) (different : other ≠ previous) :
    blockNext (relink heap previous target).mem other = blockNext heap.mem other := by
  unfold relink
  split
  · rfl
  · exact blockNext_setNext_of_ne aligned otherAligned different

theorem links_relink {early : List Nat} {last : Nat}
    (links : Links (blockNext heap.mem) heap.head early last)
    (proper : ∀ addr, addr ∈ early → addr ≠ 0 ∧ addr % 16 = 0) (distinct : early.Nodup)
    (fits : target < wordLimit) :
    Links (blockNext (relink heap (early.getLast?.getD 0) target).mem)
      (relink heap (early.getLast?.getD 0) target).head early target := by
  rcases eq_nil_or_concat early with rfl | ⟨first, item, rfl⟩
  · rfl
  · rw [concat_eq_append] at links proper distinct ⊢
    obtain ⟨nonzero, aligned⟩ := proper item (by simp)
    have ends : (first ++ [item]).getLast?.getD 0 = item := by simp
    rw [ends]
    unfold relink
    rw [if_neg nonzero]
    refine links.redirect ?_ (blockNext_setNext_self fits)
    intro other member
    have different : other ≠ item := by
      rintro rfl
      exact (nodup_append.mp distinct).2.2 other member other (by simp) rfl
    exact blockNext_setNext_of_ne aligned (proper other (by simp [member])).2 different

theorem getLast_aligned {early : List Nat} (proper : ∀ addr, addr ∈ early → addr % 16 = 0) :
    early.getLast?.getD 0 % 16 = 0 := by
  cases found : early.getLast? with
  | none => rfl
  | some addr => exact proper addr (mem_of_getLast? found)

theorem getLast_ne {early : List Nat} {other : Nat} (absent : other ∉ early)
    (nonzero : other ≠ 0) : other ≠ early.getLast?.getD 0 := by
  cases found : early.getLast? with
  | none => exact nonzero
  | some addr =>
      rintro rfl
      exact absent (mem_of_getLast? found)

end Relink

/-! ### Taking a block -/

def pieces (chunk : Chunk) (size : Nat) : List Chunk :=
  if size + 32 ≤ chunk.size then
    [{ chunk with size, free := false },
      { addr := chunk.addr + 16 + size, size := chunk.size - size - 16, free := true }]
  else [{ chunk with free := false }]

section Split

variable {mem : ByteMemory} {current size : Nat}

theorem split_headers (aligned : current % 16 = 0) (rounded : size % 16 = 0)
    (fits : size + 32 ≤ blockSize mem current)
    (bounded : current + 16 + blockSize mem current < wordLimit) :
    blockSize (split mem current size) current = size ∧
    blockNext (split mem current size) current = current + 16 + size ∧
    blockSize (split mem current size) (current + 16 + size) =
      blockSize mem current - size - 16 ∧
    blockNext (split mem current size) (current + 16 + size) = blockNext mem current ∧
    ∀ other, other % 16 = 0 → other ≠ current → other ≠ current + 16 + size →
      blockSize (split mem current size) other = blockSize mem other ∧
      blockNext (split mem current size) other = blockNext mem other := by
  have header : headerSize = 16 := rfl
  have place : (current + headerSize + size) % wordLimit = current + 16 + size :=
    Nat.mod_eq_of_lt (by omega)
  have restSize : wrappingSub (wrappingSub (blockSize mem current) size) headerSize =
      blockSize mem current - size - 16 := by
    have inner : wrappingSub (blockSize mem current) size = blockSize mem current - size :=
      wrappingSub_of_le (by omega) (by omega)
    rw [inner, header]
    exact wrappingSub_of_le (by omega) (by omega)
  have restAligned : (current + 16 + size) % 16 = 0 := by omega
  have apart : current + 16 + size ≠ current := by omega
  unfold split
  dsimp only
  rw [place, restSize]
  refine ⟨?_, ?_, ?_, ?_, ?_⟩
  · rw [blockSize_setNext aligned aligned, blockSize_setSize_self (by omega)]
  · rw [blockNext_setNext_self (by omega)]
  · rw [blockSize_setNext aligned restAligned,
      blockSize_setSize_of_ne aligned restAligned apart, blockSize_setNext restAligned restAligned,
      blockSize_setSize_self (by omega)]
  · rw [blockNext_setNext_of_ne aligned restAligned apart, blockNext_setSize aligned restAligned,
      blockNext_setNext_self blockNext_lt, blockNext_setSize restAligned aligned]
  · intro other otherAligned notCurrent notRest
    constructor
    · rw [blockSize_setNext aligned otherAligned,
        blockSize_setSize_of_ne aligned otherAligned notCurrent,
        blockSize_setNext restAligned otherAligned,
        blockSize_setSize_of_ne restAligned otherAligned notRest]
    · rw [blockNext_setNext_of_ne aligned otherAligned notCurrent,
        blockNext_setSize aligned otherAligned,
        blockNext_setNext_of_ne restAligned otherAligned notRest,
        blockNext_setSize restAligned otherAligned]

end Split

namespace Represents

variable {start stop : Nat} {heap : FreeListAllocator} {before after chunks : List Chunk}
  {chunk : Chunk}

section

variable (rep : Represents start stop heap (before ++ chunk :: after))
include rep

theorem links_around (isFree : chunk.free = true) :
    Links (blockNext heap.mem) heap.head (frees before) chunk.addr ∧
      Links (blockNext heap.mem) (blockNext heap.mem chunk.addr) (frees after) 0 := by
  have linked := rep.linked
  rw [frees_append, frees_cons_free isFree] at linked
  obtain ⟨middle, early, rfl, late⟩ := Links.append.mp linked
  exact ⟨early, late⟩

theorem proper_before (region : Region start stop) :
    ∀ addr, addr ∈ frees before → addr ≠ 0 ∧ addr % 16 = 0 := by
  intro addr member
  have inAll : addr ∈ frees (before ++ chunk :: after) := by
    rw [frees_append]
    exact mem_append_left _ member
  exact ⟨(rep.frees_bounds region inAll).1, (rep.frees_bounds region inAll).2.1⟩

theorem distinct_before : (frees before).Nodup := by
  have ascending := rep.ascending
  rw [frees_append] at ascending
  exact (pairwise_append.mp ascending).1.imp (fun less => Nat.ne_of_lt less)

theorem previous_aligned (region : Region start stop) : (frees before).getLast?.getD 0 % 16 = 0 :=
  getLast_aligned (fun addr member => (rep.proper_before region addr member).2)

theorem ne_previous (region : Region start stop) {other : Nat} (later : chunk.addr ≤ other) :
    other ≠ (frees before).getLast?.getD 0 := by
  have positive := rep.bounds region (mem_append_right before mem_cons_self)
  refine getLast_ne ?_ (by omega)
  intro member
  have earlier := rep.before_lt member
  omega

/-- A chunk changes hands: the cut stays, and so do the sizes. -/
theorem marked {heap' : FreeListAllocator} {isFree : Bool}
    (sizes : ∀ other, other ∈ before ++ chunk :: after →
      blockSize heap'.mem other.addr = other.size)
    (linked : Links (blockNext heap'.mem) heap'.head
      (frees (before ++ { chunk with free := isFree } :: after)) 0)
    (total : heap'.total = heap.total) :
    Represents start stop heap' (before ++ { chunk with free := isFree } :: after) := by
  have member : chunk ∈ before ++ chunk :: after := mem_append_right before mem_cons_self
  refine
    { tiled := ?_
      whole := ?_
      sizes := ?_
      linked
      total := total.trans rep.total }
  · obtain ⟨prior, rest⟩ := rep.tiled.around
    exact tiled_append.mpr ⟨_, prior, rfl, rest⟩
  · intro other inside
    rcases mem_append.mp inside with old | new
    · exact rep.whole other (mem_append_left _ old)
    · rcases mem_cons.mp new with rfl | old
      · exact rep.whole chunk member
      · exact rep.whole other (mem_append_right _ (mem_cons_of_mem _ old))
  · intro other inside
    rcases mem_append.mp inside with old | new
    · exact sizes other (mem_append_left _ old)
    · rcases mem_cons.mp new with rfl | old
      · exact sizes chunk member
      · exact sizes other (mem_append_right _ (mem_cons_of_mem _ old))

theorem take_whole (region : Region start stop) (isFree : chunk.free = true) :
    Represents start stop
      (relink heap ((frees before).getLast?.getD 0) (blockNext heap.mem chunk.addr))
      (before ++ { chunk with free := false } :: after) := by
  obtain ⟨early, late⟩ := rep.links_around isFree
  have previousAligned := rep.previous_aligned region
  refine rep.marked (fun other inside => ?_) ?_ relink_total
  · rw [blockSize_relink previousAligned (rep.aligned region inside), rep.sizes other inside]
  · rw [frees_append, frees_cons_used rfl]
    refine Links.append.mpr ⟨_, links_relink early (rep.proper_before region)
      rep.distinct_before blockNext_lt, late.congr ?_⟩
    intro addr inAfter
    have inAll : addr ∈ frees (before ++ chunk :: after) := by
      rw [frees_append, frees_cons_free isFree]
      exact mem_append_right _ (mem_cons_of_mem _ inAfter)
    have above := rep.lt_after inAfter
    exact blockNext_relink previousAligned (rep.frees_bounds region inAll).2.1
      (rep.ne_previous region (by omega))

theorem split_chunk {size : Nat} (region : Region start stop) (isFree : chunk.free = true)
    (rounded : size % 16 = 0) (fits : size + 32 ≤ chunk.size) :
    Represents start stop { heap with mem := split heap.mem chunk.addr size }
      (before ++ { chunk with size } ::
        { addr := chunk.addr + 16 + size, size := chunk.size - size - 16, free := true } ::
        after) := by
  have header : headerSize = 16 := rfl
  have member : chunk ∈ before ++ chunk :: after := mem_append_right before mem_cons_self
  have stored := rep.sizes chunk member
  have bounds := rep.bounds region member
  have chunkWhole := rep.whole chunk member
  obtain ⟨sizeHere, nextHere, sizeRest, nextRest, others⟩ := split_headers
    (rep.aligned region member) rounded (stored ▸ fits) (stored ▸ bounds.2)
  rw [stored] at sizeRest
  obtain ⟨early, late⟩ := rep.links_around isFree
  -- No other header lies inside the chunk that is cut.
  have otherHeaders : ∀ other, other ∈ before ∨ other ∈ after → other.addr % 16 = 0 ∧
      other.addr ≠ chunk.addr ∧ other.addr ≠ chunk.addr + 16 + size := by
    intro other place
    rcases place with old | old
    · have apart := rep.tiled.before_le old
      unfold Chunk.finish at apart
      exact ⟨rep.aligned region (mem_append_left _ old), by omega, by omega⟩
    · have apart := rep.tiled.le_after old
      unfold Chunk.finish at apart
      exact ⟨rep.aligned region (mem_append_right _ (mem_cons_of_mem _ old)), by omega, by omega⟩
  have freeHeaders : ∀ addr, addr ∈ frees before ∨ addr ∈ frees after →
      blockNext (split heap.mem chunk.addr size) addr = blockNext heap.mem addr := by
    intro addr place
    obtain ⟨other, inside, rfl⟩ := addr_of_either place
    obtain ⟨aligned, notHere, notRest⟩ := otherHeaders other inside
    exact (others other.addr aligned notHere notRest).2
  refine
    { tiled := ?_
      whole := ?_
      sizes := ?_
      linked := ?_
      total := rep.total }
  · have cut : Tiled headerSize chunk.addr (chunk.finish headerSize)
        [{ chunk with size },
          { addr := chunk.addr + 16 + size, size := chunk.size - size - 16, free := true }] := by
      refine ⟨rfl, rfl, ?_⟩
      simp only [Tiled, Chunk.finish, header]
      omega
    exact rep.tiled.replace cut
  · intro other inside
    simp only [mem_append, mem_cons] at inside
    rcases inside with old | rfl | rfl | old
    · exact rep.whole other (mem_append_left _ old)
    · exact rounded
    · simp only
      omega
    · exact rep.whole other (mem_append_right _ (mem_cons_of_mem _ old))
  · intro other inside
    simp only [mem_append, mem_cons] at inside
    rcases inside with old | rfl | rfl | old
    · obtain ⟨aligned, notHere, notRest⟩ := otherHeaders other (Or.inl old)
      rw [(others other.addr aligned notHere notRest).1]
      exact rep.sizes other (mem_append_left _ old)
    · exact sizeHere
    · exact sizeRest
    · obtain ⟨aligned, notHere, notRest⟩ := otherHeaders other (Or.inr old)
      rw [(others other.addr aligned notHere notRest).1]
      exact rep.sizes other (mem_append_right _ (mem_cons_of_mem _ old))
  · rw [frees_append, @frees_cons_free _ { chunk with size } isFree, frees_cons_free rfl]
    refine Links.append.mpr ⟨_, early.congr (fun addr inside => freeHeaders addr (Or.inl inside)),
      rfl, nextHere, ?_⟩
    rw [nextRest]
    exact late.congr (fun addr inside => freeHeaders addr (Or.inr inside))

end

theorem with_allocated (rep : Represents start stop heap chunks) (allocated : Nat) :
    Represents start stop { heap with allocated } chunks :=
  ⟨rep.tiled, rep.whole, rep.sizes, rep.linked, rep.total⟩

theorem takeBlock {size : Nat} (rep : Represents start stop heap (before ++ chunk :: after))
    (region : Region start stop) (isFree : chunk.free = true) (rounded : size % 16 = 0)
    (fits : size ≤ chunk.size) :
    Represents start stop
      (FreeListAllocator.takeBlock heap size ((frees before).getLast?.getD 0) chunk.addr)
      (before ++ (pieces chunk size ++ after)) := by
  have member : chunk ∈ before ++ chunk :: after := mem_append_right before mem_cons_self
  have stored := rep.sizes chunk member
  have bounds := rep.bounds region member
  have threshold : (size + headerSize + minAlign) % wordLimit = size + 32 :=
    Nat.mod_eq_of_lt (show size + 16 + 16 < wordLimit by omega)
  unfold FreeListAllocator.takeBlock pieces
  dsimp only
  rw [threshold, stored]
  by_cases large : size + 32 ≤ chunk.size
  · rw [if_pos large, if_pos large]
    exact ((rep.split_chunk region isFree rounded large).take_whole region isFree).with_allocated _
  · rw [if_neg large, if_neg large]
    exact (rep.take_whole region isFree).with_allocated _

/-! ### Giving a block back -/

theorem insert (rep : Represents start stop heap (before ++ chunk :: after))
    (region : Region start stop) (isUsed : chunk.free = false) :
    Represents start stop
      (relink { heap with mem := setNext heap.mem chunk.addr ((frees after).head?.getD 0) }
        ((frees before).getLast?.getD 0) chunk.addr)
      (before ++ { chunk with free := true } :: after) := by
  have member : chunk ∈ before ++ chunk :: after := mem_append_right before mem_cons_self
  have chunkAligned := rep.aligned region member
  have bounds := rep.bounds region member
  have previousAligned := rep.previous_aligned region
  have linked := rep.linked
  rw [frees_append, frees_cons_used isUsed] at linked
  obtain ⟨middle, early, late⟩ := Links.append.mp linked
  obtain rfl := late.first_eq
  have inBefore : ∀ addr, addr ∈ frees before →
      blockNext (setNext heap.mem chunk.addr ((frees after).head?.getD 0)) addr =
        blockNext heap.mem addr := by
    intro addr inside
    have below := rep.before_lt inside
    exact blockNext_setNext_of_ne chunkAligned (rep.proper_before region addr inside).2 (by omega)
  have afterProper : ∀ addr, addr ∈ frees after → addr % 16 = 0 ∧ addr < wordLimit := by
    intro addr inside
    have inAll : addr ∈ frees (before ++ chunk :: after) := by
      rw [frees_append, frees_cons_used isUsed]
      exact mem_append_right _ inside
    exact (rep.frees_bounds region inAll).2
  refine rep.marked (fun other inside => ?_) ?_ relink_total
  · have otherAligned := rep.aligned region inside
    rw [blockSize_relink previousAligned otherAligned, blockSize_setNext chunkAligned otherAligned]
    exact rep.sizes other inside
  · rw [frees_append, frees_cons_free rfl]
    have firstFits : (frees after).head?.getD 0 < wordLimit := by
      cases found : (frees after).head? with
      | none => exact Nat.two_pow_pos 64
      | some addr => exact (afterProper addr (mem_of_head? found)).2
    refine Links.append.mpr ⟨_, links_relink (early.congr inBefore) (rep.proper_before region)
      rep.distinct_before (by omega), rfl, ?_⟩
    rw [blockNext_relink previousAligned chunkAligned (rep.ne_previous region (le_refl _)),
      blockNext_setNext_self firstFits]
    refine late.congr ?_
    intro addr inside
    obtain ⟨addrAligned, -⟩ := afterProper addr inside
    have above := rep.lt_after inside
    rw [blockNext_relink previousAligned addrAligned (rep.ne_previous region (by omega))]
    exact blockNext_setNext_of_ne chunkAligned addrAligned (by omega)

theorem absorb {left right : Chunk}
    (rep : Represents start stop heap (before ++ left :: right :: after))
    (region : Region start stop) (leftFree : left.free = true) (rightFree : right.free = true) :
    Represents start stop { heap with mem := FreeListAllocator.absorb heap.mem left.addr right.addr }
      (before ++ Chunk.merge headerSize left right :: after) := by
  have header : headerSize = 16 := rfl
  have inLeft : left ∈ before ++ left :: right :: after := mem_append_right _ mem_cons_self
  have inRight : right ∈ before ++ left :: right :: after :=
    mem_append_right _ (mem_cons_of_mem _ mem_cons_self)
  have leftAligned := rep.aligned region inLeft
  have rightAligned := rep.aligned region inRight
  have adjacent : right.addr = left.finish headerSize := rep.tiled.around.2.1
  have rightBounds := rep.bounds region inRight
  unfold Chunk.finish at adjacent
  obtain ⟨early, late⟩ := rep.links_around leftFree
  rw [frees_cons_free rightFree] at late
  obtain ⟨-, late⟩ := late
  have merged : (blockSize heap.mem left.addr + (headerSize + blockSize heap.mem right.addr)) %
      wordLimit = left.size + headerSize + right.size := by
    rw [rep.sizes left inLeft, rep.sizes right inRight, Nat.mod_eq_of_lt (by omega)]
    omega
  have unchanged : ∀ other, other % 16 = 0 → other ≠ left.addr →
      blockSize (FreeListAllocator.absorb heap.mem left.addr right.addr) other =
        blockSize heap.mem other ∧
      blockNext (FreeListAllocator.absorb heap.mem left.addr right.addr) other =
        blockNext heap.mem other := by
    intro other otherAligned different
    unfold FreeListAllocator.absorb
    dsimp only
    rw [blockSize_setNext leftAligned otherAligned,
      blockSize_setSize_of_ne leftAligned otherAligned different,
      blockNext_setNext_of_ne leftAligned otherAligned different,
      blockNext_setSize leftAligned otherAligned]
    exact ⟨rfl, rfl⟩
  have otherHeaders : ∀ other, other ∈ before ∨ other ∈ after →
      other.addr % 16 = 0 ∧ other.addr ≠ left.addr := by
    intro other place
    rcases place with old | old
    · have apart := rep.tiled.before_le old
      unfold Chunk.finish at apart
      exact ⟨rep.aligned region (mem_append_left _ old), by omega⟩
    · have apart := rep.tiled.le_after (mem_cons_of_mem right old)
      unfold Chunk.finish at apart
      exact ⟨rep.aligned region
        (mem_append_right _ (mem_cons_of_mem _ (mem_cons_of_mem _ old))), by omega⟩
  have freeHeaders : ∀ addr, addr ∈ frees before ∨ addr ∈ frees after →
      blockNext (FreeListAllocator.absorb heap.mem left.addr right.addr) addr =
        blockNext heap.mem addr := by
    intro addr place
    obtain ⟨other, inside, rfl⟩ := addr_of_either place
    obtain ⟨aligned, different⟩ := otherHeaders other inside
    exact (unchanged other.addr aligned different).2
  refine
    { tiled := rep.tiled.merge
      whole := ?_
      sizes := ?_
      linked := ?_
      total := rep.total }
  · intro other inside
    simp only [mem_append, mem_cons] at inside
    rcases inside with old | rfl | old
    · exact rep.whole other (mem_append_left _ old)
    · have leftWhole := rep.whole left inLeft
      have rightWhole := rep.whole right inRight
      simp only [Chunk.merge]
      omega
    · exact rep.whole other (mem_append_right _ (by simp [old]))
  · intro other inside
    simp only [mem_append, mem_cons] at inside
    rcases inside with old | rfl | old
    · obtain ⟨aligned, different⟩ := otherHeaders other (Or.inl old)
      rw [(unchanged other.addr aligned different).1]
      exact rep.sizes other (mem_append_left _ old)
    · unfold FreeListAllocator.absorb
      dsimp only [Chunk.merge]
      rw [blockSize_setNext leftAligned leftAligned, merged, blockSize_setSize_self (by omega)]
    · obtain ⟨aligned, different⟩ := otherHeaders other (Or.inr old)
      rw [(unchanged other.addr aligned different).1]
      exact rep.sizes other (mem_append_right _ (by simp [old]))
  · rw [frees_append, @frees_cons_free _ (Chunk.merge headerSize left right) leftFree]
    refine Links.append.mpr ⟨_, early.congr (fun addr inside => freeHeaders addr (Or.inl inside)),
      rfl, ?_⟩
    have follows : blockNext (FreeListAllocator.absorb heap.mem left.addr right.addr) left.addr =
        blockNext heap.mem right.addr := by
      unfold FreeListAllocator.absorb
      dsimp only
      rw [blockNext_setNext_self blockNext_lt, blockNext_setSize leftAligned rightAligned]
    dsimp only [Chunk.merge]
    rw [follows]
    exact late.congr (fun addr inside => freeHeaders addr (Or.inr inside))

end Represents

/-! ### Whole operations -/

def used (chunks : List Chunk) : List Chunk :=
  chunks.filter (fun chunk => !chunk.free)

theorem used_append {before after : List Chunk} :
    used (before ++ after) = used before ++ used after := by
  simp [used]

theorem mem_used {chunks : List Chunk} {chunk : Chunk} :
    chunk ∈ used chunks ↔ chunk ∈ chunks ∧ chunk.free = false := by
  simp [used]

theorem used_cons_free {chunk : Chunk} {after : List Chunk} (isFree : chunk.free = true) :
    used (chunk :: after) = used after := by
  simp [used, isFree]

theorem used_cons_used {chunk : Chunk} {after : List Chunk} (isUsed : chunk.free = false) :
    used (chunk :: after) = chunk :: used after := by
  simp [used, isUsed]

def StartsUsed (chunks : List Chunk) : Prop :=
  ∀ chunk, chunk ∈ chunks.head? → chunk.free = false

def EndsUsed (chunks : List Chunk) : Prop :=
  ∀ chunk, chunk ∈ chunks.getLast? → chunk.free = false

theorem settled_around {before after : List Chunk} {chunk : Chunk}
    (isFree : chunk.free = true) :
    Settled (before ++ chunk :: after) ↔
      Settled before ∧ EndsUsed before ∧ Settled after ∧ StartsUsed after := by
  unfold Settled EndsUsed StartsUsed
  rw [isChain_append, isChain_cons]
  simp only [List.head?_cons, Option.mem_def, Option.some.injEq, isFree]
  constructor
  · rintro ⟨left, ⟨starts, right⟩, ends⟩
    refine ⟨left, ?_, right, ?_⟩
    · intro other last
      have apart := ends other last chunk rfl
      simpa [isFree] using apart
    · intro other first
      simpa using starts other first
  · rintro ⟨left, ends, right, starts⟩
    refine ⟨left, ⟨?_, right⟩, ?_⟩
    · intro other first
      simp [starts other first]
    · rintro other last - rfl
      simp [ends other last]

theorem settled_used {before after : List Chunk} {chunk : Chunk} (isUsed : chunk.free = false) :
    Settled (before ++ chunk :: after) ↔ Settled before ∧ Settled after := by
  unfold Settled
  rw [isChain_append, isChain_cons]
  simp only [List.head?_cons, Option.mem_def, Option.some.injEq, isUsed]
  constructor
  · rintro ⟨left, ⟨-, right⟩, -⟩
    exact ⟨left, right⟩
  · rintro ⟨left, right⟩
    refine ⟨left, ⟨by simp, right⟩, ?_⟩
    intro other _ next same
    rw [← same]
    simp [isUsed]

namespace Represents

variable {start stop : Nat} {heap : FreeListAllocator} {before after chunks : List Chunk}
  {chunk : Chunk}

theorem finish_eq (rep : Represents start stop heap chunks) (region : Region start stop)
    (member : chunk ∈ chunks) :
    (chunk.addr + headerSize + blockSize heap.mem chunk.addr) % wordLimit =
      chunk.addr + 16 + chunk.size := by
  have bounds := rep.bounds region member
  rw [rep.sizes chunk member]
  exact Nat.mod_eq_of_lt bounds.2

theorem coalesce_next (rep : Represents start stop heap (before ++ chunk :: after))
    (region : Region start stop) (isFree : chunk.free = true) (settled : Settled after) :
    ∃ joined rest, Represents start stop
        (if (frees after).head?.getD 0 ≠ 0 then
          { heap with mem := coalesce heap.mem chunk.addr ((frees after).head?.getD 0) }
        else heap) (before ++ joined :: rest) ∧
      joined.addr = chunk.addr ∧ joined.free = true ∧ used rest = used after ∧ Settled rest ∧
      StartsUsed rest := by
  have member : chunk ∈ before ++ chunk :: after := mem_append_right before mem_cons_self
  have finish := rep.finish_eq region member
  cases after with
  | nil => exact ⟨chunk, [], rep, rfl, isFree, rfl, settled, by simp [StartsUsed]⟩
  | cons right rest =>
      have adjacent : right.addr = chunk.addr + 16 + chunk.size := rep.tiled.around.2.1
      cases rightFree : right.free with
      | true =>
          have bounds := rep.bounds region (mem_append_right before
            (mem_cons_of_mem chunk mem_cons_self))
          have here : (frees (right :: rest)).head?.getD 0 = right.addr := by
            rw [frees_cons_free rightFree]
            rfl
          have starts : StartsUsed rest := ((@settled_around [] rest right rightFree).mp settled).2.2.2
          rw [here, if_pos (by omega)]
          unfold coalesce
          rw [if_pos (finish.trans adjacent.symm)]
          refine ⟨_, rest, rep.absorb region isFree rightFree, rfl, isFree, ?_,
            settled.tail, starts⟩
          rw [used_cons_free rightFree]
      | false =>
          have starts : StartsUsed (right :: rest) := by
            intro other first
            cases first
            exact rightFree
          have apart : (frees (right :: rest)).head?.getD 0 ≠ chunk.addr + 16 + chunk.size := by
            rw [frees_cons_used rightFree]
            cases found : (frees rest).head? with
            | none =>
                intro zero
                rw [Option.getD_none] at zero
                omega
            | some addr =>
                obtain ⟨other, inRest, -, rfl⟩ := mem_frees.mp (mem_of_head? found)
                have above : right.addr + 16 + right.size ≤ other.addr :=
                  (rep.tiled.around.2.2.within inRest).1
                rw [Option.getD_some]
                omega
          refine ⟨chunk, right :: rest, ?_, rfl, isFree, rfl, settled, starts⟩
          split
          · unfold coalesce
            rw [finish, if_neg (Ne.symm apart)]
            exact rep
          · exact rep

theorem coalesce_previous (rep : Represents start stop heap (before ++ chunk :: after))
    (region : Region start stop) (isFree : chunk.free = true) (settled : Settled before)
    (later : Settled after) (starts : StartsUsed after) :
    ∃ all, Represents start stop
        (if (frees before).getLast?.getD 0 ≠ 0 then
          { heap with mem := coalesce heap.mem ((frees before).getLast?.getD 0) chunk.addr }
        else heap) all ∧
      Settled all ∧ used all = used before ++ used after := by
  rcases eq_nil_or_concat before with rfl | ⟨first, left, rfl⟩
  · refine ⟨chunk :: after, rep, ?_, ?_⟩
    · exact (@settled_around [] after chunk isFree).mpr ⟨List.IsChain.nil, by simp [EndsUsed], later, starts⟩
    · rw [used_cons_free isFree]
      rfl
  · rw [concat_eq_append] at rep settled ⊢
    rw [append_assoc, singleton_append] at rep
    have inLeft : left ∈ first ++ left :: chunk :: after :=
      mem_append_right _ mem_cons_self
    have adjacent : chunk.addr = left.addr + 16 + left.size := rep.tiled.around.2.1
    cases leftFree : left.free with
    | true =>
        have here : (frees (first ++ [left])).getLast?.getD 0 = left.addr := by
          rw [frees_append, frees_cons_free leftFree]
          simp [frees]
        have bounds := rep.bounds region inLeft
        obtain ⟨firstSettled, ends, -, -⟩ := (settled_around leftFree).mp settled
        rw [here, if_pos (by omega)]
        unfold coalesce
        rw [rep.finish_eq region inLeft, if_pos adjacent.symm]
        refine ⟨_, rep.absorb region leftFree isFree, ?_, ?_⟩
        · exact (@settled_around first after (Chunk.merge headerSize left chunk) leftFree).mpr
            ⟨firstSettled, ends, later, starts⟩
        · rw [used_append, used_append, @used_cons_free (Chunk.merge headerSize left chunk) _ leftFree,
            used_cons_free leftFree]
          simp [used]
    | false =>
        have sameFrees : frees (first ++ [left]) = frees first := by
          rw [frees_append, frees_cons_used leftFree]
          simp [frees]
        refine ⟨first ++ left :: chunk :: after, ?_, ?_, ?_⟩
        · rw [sameFrees]
          split
          · rename_i nonzero
            cases found : (frees first).getLast? with
            | none => simp [found] at nonzero
            | some addr =>
                obtain ⟨other, inFirst, -, rfl⟩ := mem_frees.mp (mem_of_getLast? found)
                have below : other.addr + 16 + other.size ≤ left.addr := rep.tiled.before_le inFirst
                rw [Option.getD_some]
                unfold coalesce
                rw [rep.finish_eq region (mem_append_left _ inFirst), if_neg (by omega)]
                exact rep
          · exact rep
        · have parts := (@settled_used first [] left leftFree).mp settled
          refine (settled_used leftFree).mpr ⟨parts.1, ?_⟩
          exact (@settled_around [] after chunk isFree).mpr
            ⟨List.IsChain.nil, by simp [EndsUsed], later, starts⟩
        · rw [used_append, used_append, used_cons_used leftFree, used_cons_used leftFree,
            used_cons_free isFree]
          simp [used]

end Represents

theorem frees_split {chunks : List Chunk} {early late : List Nat} {addr : Nat}
    (listed : frees chunks = early ++ addr :: late) :
    ∃ before chunk after, chunks = before ++ chunk :: after ∧ chunk.free = true ∧
      chunk.addr = addr ∧ frees before = early ∧ frees after = late := by
  induction chunks generalizing early with
  | nil => simp [frees] at listed
  | cons first rest ih =>
      cases isFree : first.free with
      | false =>
          rw [frees_cons_used isFree] at listed
          obtain ⟨before, chunk, after, rfl, free, here, left, right⟩ := ih listed
          exact ⟨first :: before, chunk, after, rfl, free, here,
            (frees_cons_used isFree).trans left, right⟩
      | true =>
          rw [frees_cons_free isFree] at listed
          cases early with
          | nil =>
              obtain ⟨here, rest'⟩ := List.cons.inj listed
              exact ⟨[], first, rest, rfl, isFree, here, rfl, rest'⟩
          | cons head tail =>
              obtain ⟨here, rest'⟩ := List.cons.inj listed
              obtain ⟨before, chunk, after, rfl, free, place, left, right⟩ := ih rest'
              refine ⟨first :: before, chunk, after, rfl, free, place, ?_, right⟩
              rw [frees_cons_free isFree, here, left]

theorem used_pieces (chunk : Chunk) (size : Nat) :
    ∃ taken, used (pieces chunk size) = [taken] ∧ taken.addr = chunk.addr ∧
      taken.free = false ∧
      taken.size = if size + 32 ≤ chunk.size then size else chunk.size := by
  unfold pieces
  split
  · exact ⟨_, rfl, rfl, rfl, rfl⟩
  · exact ⟨_, rfl, rfl, rfl, rfl⟩

theorem settled_pieces {before after : List Chunk} {chunk : Chunk} (size : Nat)
    (isFree : chunk.free = true) (settled : Settled (before ++ chunk :: after)) :
    Settled (before ++ (pieces chunk size ++ after)) := by
  obtain ⟨left, ends, right, starts⟩ := (settled_around isFree).mp settled
  unfold pieces
  split
  · refine (settled_used rfl).mpr ⟨left, ?_⟩
    exact (@settled_around [] after _ rfl).mpr ⟨List.IsChain.nil, by simp [EndsUsed], right, starts⟩
  · exact (settled_used rfl).mpr ⟨left, right⟩

theorem roundUp_eq {size : Nat} (small : size < 2 ^ 63) :
    roundUp size = (size + 15) / 16 * 16 := by
  have limit : wordLimit = 2 ^ 64 := rfl
  have align : minAlign = 16 := rfl
  unfold roundUp
  rw [align, Nat.mod_eq_of_lt (by omega)]

namespace Represents

variable {start stop : Nat} {heap : FreeListAllocator} {before after chunks : List Chunk}
  {chunk : Chunk}

theorem alloc_cases {size : Nat} (rep : Represents start stop heap chunks)
    (region : Region start stop) (settled : Settled chunks) (small : size < 2 ^ 63) :
    (alloc heap size = some (0, heap) ∧
      ∀ chunk, chunk ∈ chunks → chunk.free = true → chunk.size < roundUp size) ∨
    ∃ before chunk after heap', chunks = before ++ chunk :: after ∧ chunk.free = true ∧
      (∀ other, other ∈ before → other.free = true → other.size < roundUp size) ∧
      roundUp size ≤ chunk.size ∧ alloc heap size = some (chunk.addr + 16, heap') ∧
      heap'.allocated = (heap.allocated + roundUp size) % wordLimit ∧
      Represents start stop heap' (before ++ (pieces chunk (roundUp size) ++ after)) ∧
      Settled (before ++ (pieces chunk (roundUp size) ++ after)) := by
  have rounded : roundUp size % 16 = 0 := by
    rw [roundUp_eq small]
    omega
  rcases @search_cases heap (frees chunks) (roundUp size) (stepLimit heap) 0 heap.head rep.linked
      (fun addr member => (rep.frees_bounds region member).1) rep.steps_enough with
    ⟨ran, none⟩ | ⟨early, found, late, listed, small', fits, ran⟩
  · refine Or.inl ⟨ran, ?_⟩
    intro chunk member isFree
    have less := none chunk.addr (mem_frees.mpr ⟨chunk, member, isFree, rfl⟩)
    rwa [rep.sizes chunk member] at less
  · obtain ⟨before, chunk, after, rfl, isFree, rfl, rfl, rfl⟩ := frees_split listed
    have member : chunk ∈ before ++ chunk :: after :=
      mem_append_right before mem_cons_self
    have bounds := rep.bounds region member
    have header : headerSize = 16 := rfl
    rw [rep.sizes chunk member] at fits
    rw [header, Nat.mod_eq_of_lt (by omega)] at ran
    refine Or.inr ⟨before, chunk, after, _, rfl, isFree, ?_, fits, ran, ?_,
      rep.takeBlock region isFree rounded fits, settled_pieces _ isFree settled⟩
    · intro other inside otherFree
      have less := small' other.addr (mem_frees.mpr ⟨other, inside, otherFree, rfl⟩)
      rwa [rep.sizes other (mem_append_left _ inside)] at less
    · unfold FreeListAllocator.takeBlock
      dsimp only
      rw [relink_allocated]
      split <;> rfl

theorem dealloc_ok (rep : Represents start stop heap (before ++ chunk :: after))
    (region : Region start stop) (settled : Settled (before ++ chunk :: after))
    (isUsed : chunk.free = false) :
    ∃ heap' all, dealloc heap (chunk.addr + 16) = some heap' ∧
      heap'.allocated = wrappingSub heap.allocated chunk.size ∧
      Represents start stop heap' all ∧ Settled all ∧ used all = used before ++ used after := by
  have member : chunk ∈ before ++ chunk :: after := mem_append_right before mem_cons_self
  have bounds := rep.bounds region member
  have header : headerSize = 16 := rfl
  obtain ⟨left, right⟩ := (settled_used isUsed).mp settled
  have block : wrappingSub (chunk.addr + 16) headerSize = chunk.addr := by
    rw [header, wrappingSub_of_le (by omega) (by omega), Nat.add_sub_cancel]
  have linked := rep.linked
  have enough := rep.steps_enough
  rw [frees_append, frees_cons_used isUsed] at linked enough
  rw [length_append] at enough
  have place : findPlace heap.mem chunk.addr (stepLimit heap) 0 heap.head =
      some ((frees before).getLast?.getD 0, (frees after).head?.getD 0) := by
    refine findPlace_eq linked ?_ ?_ (by omega)
    · intro addr inside
      exact ⟨(rep.proper_before region addr inside).1, rep.before_lt inside⟩
    · intro addr inside
      have above := rep.lt_after inside
      omega
  have inserted := (rep.with_allocated (wrappingSub heap.allocated chunk.size)).insert region isUsed
  obtain ⟨joined, rest, rep₁, here, joinedFree, sameUsed, restSettled, starts⟩ :=
    inserted.coalesce_next region rfl right
  obtain ⟨all, rep₂, allSettled, usedAll⟩ :=
    rep₁.coalesce_previous region joinedFree left restSettled starts
  unfold dealloc
  dsimp only
  rw [block, rep.sizes chunk member]
  have limit : ∀ allocated, stepLimit { heap with allocated } = stepLimit heap := fun _ => rfl
  rw [limit, place]
  dsimp only
  rw [here] at rep₂
  refine ⟨_, all, rfl, ?_, rep₂, allSettled, ?_⟩
  · split <;> split <;> simp
  · rw [usedAll, sameUsed]

end Represents
end MachaOS.FreeListAllocator
