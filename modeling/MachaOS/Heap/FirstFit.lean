/-
Which bytes an allocation takes.

A maximal run of bytes that no live block owns is a free block, header and all, because free blocks
never touch.  So an allocation fails only when no such run is long enough, it takes the lowest that
is, and it writes nowhere but inside free blocks.
-/

import MachaOS.Heap.Clients

namespace MachaOS.FreeListAllocator

open Chunk

def OnlyFree (chunks : List Chunk) (mem mem' : ByteMemory) : Prop :=
  ∀ address, (∀ chunk, chunk ∈ chunks → chunk.free = true →
    ¬ (chunk.addr ≤ address ∧ address < chunk.finish headerSize)) → mem' address = mem address

section Writes

variable {chunks : List Chunk} {mem mem' mem'' : ByteMemory} {chunk : Chunk}

theorem OnlyFree.refl (mem : ByteMemory) : OnlyFree chunks mem mem := fun _ _ => rfl

theorem OnlyFree.trans (first : OnlyFree chunks mem mem') (second : OnlyFree chunks mem' mem'') :
    OnlyFree chunks mem mem'' :=
  fun address outside => (second address outside).trans (first address outside)

theorem onlyFree_write {address : Nat} {word : BitVec 64} (member : chunk ∈ chunks)
    (isFree : chunk.free = true) (lower : chunk.addr ≤ address)
    (upper : address + 8 ≤ chunk.finish headerSize) :
    OnlyFree chunks mem (mem.writeU64 address word) := by
  intro other outside
  have apart := outside chunk member isFree
  exact ByteMemory.writeU64_sameOn mem address other 1 word (by omega) other (le_refl other)
    (Nat.lt_succ_self other)

section

variable {block : Nat} (only : OnlyFree chunks mem mem') (member : chunk ∈ chunks)
  (isFree : chunk.free = true) (lower : chunk.addr ≤ block)
  (upper : block + 16 ≤ chunk.finish headerSize)
include only member isFree lower upper

theorem OnlyFree.setSize {value : Nat} :
    OnlyFree chunks mem (FreeListAllocator.setSize mem' block value) :=
  only.trans (onlyFree_write member isFree lower (by omega))

theorem OnlyFree.setNext {value : Nat} :
    OnlyFree chunks mem (FreeListAllocator.setNext mem' block value) :=
  only.trans (onlyFree_write member isFree (by omega) (by omega))

end

theorem onlyFree_split {size : Nat} (member : chunk ∈ chunks) (isFree : chunk.free = true)
    (fits : size + 32 ≤ chunk.size) (bounded : chunk.addr + 16 + chunk.size < wordLimit) :
    OnlyFree chunks mem (split mem chunk.addr size) := by
  have header : headerSize = 16 := rfl
  have place : (chunk.addr + headerSize + size) % wordLimit = chunk.addr + 16 + size := by
    rw [header, Nat.mod_eq_of_lt (by omega)]
  have here : chunk.addr + 16 ≤ chunk.finish headerSize := by
    unfold Chunk.finish
    omega
  have there : chunk.addr + 16 + size + 16 ≤ chunk.finish headerSize := by
    unfold Chunk.finish
    omega
  unfold split
  dsimp only
  rw [place]
  apply OnlyFree.setNext _ member isFree (le_refl _) here
  apply OnlyFree.setSize _ member isFree (le_refl _) here
  apply OnlyFree.setNext _ member isFree (by omega) there
  exact (OnlyFree.refl mem).setSize member isFree (by omega) there

end Writes

namespace Represents

variable {start stop : Nat} {heap : FreeListAllocator} {chunks : List Chunk}

theorem alloc_onlyFree {size : Nat} (rep : Represents start stop heap chunks)
    (region : Region start stop) (small : size < 2 ^ 63) {ptr : Nat} {heap' : FreeListAllocator}
    (ran : alloc heap size = some (ptr, heap')) : OnlyFree chunks heap.mem heap'.mem := by
  have header : headerSize = 16 := rfl
  rcases @search_cases heap (frees chunks) (roundUp size) (stepLimit heap) 0 heap.head rep.linked
      (fun addr member => (rep.frees_bounds region member).1) rep.steps_enough with
    ⟨failed, -⟩ | ⟨early, found, late, listed, -, fits, took⟩
  · have same : search heap (roundUp size) (stepLimit heap) 0 heap.head = some (ptr, heap') := ran
    rw [failed] at same
    cases same
    exact OnlyFree.refl heap.mem
  · have same : search heap (roundUp size) (stepLimit heap) 0 heap.head = some (ptr, heap') := ran
    rw [took] at same
    cases same
    obtain ⟨before, chunk, after, rfl, isFree, rfl, rfl, rfl⟩ := frees_split listed
    have member : chunk ∈ before ++ chunk :: after :=
      List.mem_append_right before List.mem_cons_self
    have bounds := rep.bounds region member
    have relinked : ∀ (changed : FreeListAllocator) (target : Nat),
        OnlyFree (before ++ chunk :: after) changed.mem
          (relink changed ((frees before).getLast?.getD 0) target).mem := by
      intro changed target
      unfold relink
      split
      · exact OnlyFree.refl changed.mem
      · rename_i nonzero
        cases last : (frees before).getLast? with
        | none =>
            rw [last] at nonzero
            exact absurd rfl nonzero
        | some previous =>
            obtain ⟨other, inBefore, otherFree, rfl⟩ := mem_frees.mp (List.mem_of_getLast? last)
            have room : other.addr + 16 ≤ other.finish headerSize := by
              unfold Chunk.finish
              omega
            exact (OnlyFree.refl changed.mem).setNext (List.mem_append_left _ inBefore) otherFree
              (le_refl _) room
    unfold FreeListAllocator.takeBlock
    dsimp only
    split
    · rename_i roomy
      rw [rep.sizes chunk member, header, show minAlign = 16 from rfl, Nat.mod_eq_of_lt (by
        rw [roundUp_eq small]
        have limit : wordLimit = 2 ^ 64 := rfl
        omega)] at roomy
      exact (onlyFree_split member isFree (by omega) bounds.2).trans (relinked _ _)
    · exact relinked heap _

end Represents

namespace Client

variable {start stop : Nat} {client : Client} {chunks : List Chunk}

def Unowned (start stop : Nat) (client : Client) (address : Nat) : Prop :=
  start ≤ address ∧ address < stop ∧ ∀ block, block ∈ client.liveBlocks →
    ¬ (block.addr ≤ address ∧ address < block.finish headerSize)

theorem unowned_eq (holds : Holds start stop client chunks) :
    Unowned start stop client = Idle headerSize start stop chunks := by
  have perm := liveBlocks_perm holds
  funext address
  unfold Unowned Idle
  apply propext
  constructor
  · rintro ⟨lower, upper, outside⟩
    exact ⟨lower, upper, fun chunk member isUsed =>
      outside chunk (perm.mem_iff.mpr (mem_used.mpr ⟨member, isUsed⟩))⟩
  · rintro ⟨lower, upper, outside⟩
    refine ⟨lower, upper, fun block member => ?_⟩
    obtain ⟨inside, isUsed⟩ := mem_used.mp (perm.mem_iff.mp member)
    exact outside block inside isUsed

/-- After any run, an allocation fails exactly if every maximal run of bytes that no live block owns
is too short for a header and the rounded size; otherwise it takes the lowest run that is long
enough.  Every live block keeps its place and its bytes. -/
theorem first_fit_complete {mem : ByteMemory} {requests : List Request}
    (region : Region start stop)
    (ran : Runs.after step (initial mem start stop) requests = some client) {size : Nat}
    (atMost : size ≤ isizeMax) :
    ∃ ptr heap', alloc client.heap size = some (ptr, heap') ∧
      (ptr = 0 ↔ ∀ lo hi, MaximalRun (Unowned start stop client) lo hi →
        hi - lo < 16 + (size + 15) / 16 * 16) ∧
      (ptr ≠ 0 → ∃ lo hi, MaximalRun (Unowned start stop client) lo hi ∧ ptr = lo + 16 ∧
        16 + (size + 15) / 16 * 16 ≤ hi - lo ∧
        (∀ lo' hi', MaximalRun (Unowned start stop client) lo' hi' →
          16 + (size + 15) / 16 * 16 ≤ hi' - lo' → lo ≤ lo') ∧
        size ≤ blockSize heap'.mem lo ∧ ptr + blockSize heap'.mem lo ≤ hi) ∧
      ∀ block, block ∈ client.liveBlocks → ∀ address, block.addr ≤ address →
        address < block.finish headerSize → heap'.mem address = client.heap.mem address := by
  obtain ⟨chunks, holds⟩ := run_holds region ran
  have header : headerSize = 16 := rfl
  have small : size < 2 ^ 63 := by
    unfold isizeMax at atMost
    omega
  have runs : ∀ lo hi, MaximalRun (Unowned start stop client) lo hi ↔
      ∃ chunk, chunk ∈ chunks ∧ chunk.free = true ∧ chunk.addr = lo ∧
        chunk.finish headerSize = hi := by
    intro lo hi
    rw [unowned_eq holds]
    exact maximalRun_iff holds.rep.tiled holds.settled (by decide)
  have kept : ∀ {ptr : Nat} {heap' : FreeListAllocator},
      alloc client.heap size = some (ptr, heap') →
      ∀ block, block ∈ client.liveBlocks → ∀ address, block.addr ≤ address →
        address < block.finish headerSize → heap'.mem address = client.heap.mem address := by
    intro ptr heap' returned block member address lower upper
    obtain ⟨inside, isUsed⟩ := mem_used.mp ((liveBlocks_perm holds).mem_iff.mp member)
    apply holds.rep.alloc_onlyFree region small returned
    intro chunk inChunks isFree overlaps
    have idle := idle_of_free holds.rep.tiled (by decide) inChunks isFree overlaps
    exact idle.2.2 block inside isUsed ⟨lower, upper⟩
  have rounded := roundUp_eq small
  rcases holds.rep.alloc_cases region holds.settled small with
    ⟨returned, short⟩ | ⟨before, chunk, after, heap', rfl, isFree, tooSmall, fits, returned, -, rep',
      -⟩
  · refine ⟨0, client.heap, returned, ⟨?_, fun _ => rfl⟩, fun nonNull => absurd rfl nonNull,
      kept returned⟩
    intro _ lo hi run
    obtain ⟨chunk, member, isFree, rfl, rfl⟩ := (runs lo hi).mp run
    have less := short chunk member isFree
    rw [rounded] at less
    unfold Chunk.finish
    omega
  · have member : chunk ∈ before ++ chunk :: after :=
      List.mem_append_right before List.mem_cons_self
    have run := (runs chunk.addr (chunk.finish headerSize)).mpr ⟨chunk, member, isFree, rfl, rfl⟩
    have long : 16 + (size + 15) / 16 * 16 ≤ chunk.finish headerSize - chunk.addr := by
      rw [← rounded]
      unfold Chunk.finish
      omega
    refine ⟨chunk.addr + 16, heap', returned, ⟨?_, ?_⟩, ?_, kept returned⟩
    · intro null
      omega
    · intro allShort
      have less := allShort _ _ run
      omega
    · intro _
      refine ⟨chunk.addr, chunk.finish headerSize, run, rfl, long, ?_, ?_⟩
      · intro lo' hi' otherRun otherLong
        obtain ⟨other, otherMember, otherFree, rfl, rfl⟩ := (runs lo' hi').mp otherRun
        rcases List.mem_append.mp otherMember with early | late
        · have less := tooSmall other early otherFree
          rw [rounded] at less
          unfold Chunk.finish at otherLong
          omega
        · rcases List.mem_cons.mp late with rfl | later
          · exact le_refl _
          · have above := holds.rep.tiled.le_after later
            unfold Chunk.finish at above
            omega
      · obtain ⟨taken, isTaken, place, takenUsed, takenSize⟩ := used_pieces chunk (roundUp size)
        have inPieces : taken ∈ used (pieces chunk (roundUp size)) := by
          rw [isTaken]
          exact List.mem_cons_self
        have inNew : taken ∈ before ++ (pieces chunk (roundUp size) ++ after) :=
          List.mem_append_right before (List.mem_append_left after (mem_used.mp inPieces).1)
        have recorded := rep'.sizes taken inNew
        rw [place, takenSize] at recorded
        rw [recorded]
        unfold Chunk.finish
        constructor
        · split <;> omega
        · split <;> omega

theorem first_fit_complete_reused : ∃ client ptr heap',
    Runs.after step (initial (fun _ => 0#8) 16 4096) [.alloc 24, .alloc 100, .dealloc 32] =
      some client ∧ alloc client.heap 16 = some (ptr, heap') := by
  obtain ⟨client, ran⟩ := Option.isSome_iff_exists.mp
    (show (Runs.after step (initial (fun _ => 0#8) 16 4096)
      [.alloc 24, .alloc 100, .dealloc 32]).isSome = true by decide +kernel)
  obtain ⟨ptr, heap', returned, -⟩ :=
    @first_fit_complete 16 4096 client _ _ (by constructor <;> decide) ran 16 (by decide)
  exact ⟨client, ptr, heap', ran, returned⟩

end Client
end MachaOS.FreeListAllocator
