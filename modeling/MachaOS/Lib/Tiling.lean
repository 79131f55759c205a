/-
An interval cut into consecutive chunks.

Every chunk starts with a header of fixed length and is free or in use.
`Tiled` says that the chunks follow each other without a gap from one end of
the interval to the other; `Settled` that no two neighbours are free.
-/

import Mathlib.Data.List.Chain
import Mathlib.Data.List.Perm.Basic
import Mathlib.Tactic.Common

structure Chunk where
  addr : Nat
  /-- The length behind the header. -/
  size : Nat
  free : Bool
deriving DecidableEq

namespace Chunk

open List

variable {header start stop : Nat} {chunks before after : List Chunk} {chunk : Chunk}

def finish (header : Nat) (chunk : Chunk) : Nat :=
  chunk.addr + header + chunk.size

def Tiled (header start stop : Nat) : List Chunk → Prop
  | [] => start = stop
  | chunk :: rest => chunk.addr = start ∧ Tiled header (chunk.finish header) stop rest

def Settled (chunks : List Chunk) : Prop :=
  chunks.IsChain (fun left right => ¬ (left.free = true ∧ right.free = true))

theorem tiled_append : Tiled header start stop (before ++ after) ↔
    ∃ middle, Tiled header start middle before ∧ Tiled header middle stop after := by
  induction before generalizing start with
  | nil => simp [Tiled]
  | cons chunk rest ih =>
      simp only [cons_append, Tiled, ih]
      constructor
      · rintro ⟨here, middle, left, right⟩
        exact ⟨middle, ⟨here, left⟩, right⟩
      · rintro ⟨middle, ⟨here, left⟩, right⟩
        exact ⟨here, middle, left, right⟩

theorem Tiled.le (tiled : Tiled header start stop chunks) : start ≤ stop := by
  induction chunks generalizing start with
  | nil => exact le_of_eq tiled
  | cons chunk rest ih =>
      obtain ⟨here, tail⟩ := tiled
      have later := ih tail
      unfold Chunk.finish at later
      omega

theorem Tiled.within (tiled : Tiled header start stop chunks) (mem : chunk ∈ chunks) :
    start ≤ chunk.addr ∧ chunk.finish header ≤ stop := by
  obtain ⟨before, after, rfl⟩ := append_of_mem mem
  obtain ⟨middle, left, here, right⟩ := tiled_append.mp tiled
  have atMost := left.le
  exact ⟨by omega, right.le⟩

section

variable (tiled : Tiled header start stop (before ++ chunk :: after))
include tiled

theorem Tiled.around :
    Tiled header start chunk.addr before ∧ Tiled header (chunk.finish header) stop after := by
  obtain ⟨middle, left, here, right⟩ := tiled_append.mp tiled
  rw [here]
  exact ⟨left, right⟩

theorem Tiled.before_le {other : Chunk} (mem : other ∈ before) :
    other.finish header ≤ chunk.addr :=
  (tiled.around.1.within mem).2

theorem Tiled.le_after {other : Chunk} (mem : other ∈ after) :
    chunk.finish header ≤ other.addr :=
  (tiled.around.2.within mem).1

end

section

variable (tiled : Tiled header start stop chunks)
include tiled

theorem Tiled.apart_of_ne {other : Chunk} (mem : chunk ∈ chunks) (otherMember : other ∈ chunks)
    (different : other.addr ≠ chunk.addr) :
    other.finish header ≤ chunk.addr ∨ chunk.finish header ≤ other.addr := by
  obtain ⟨before, after, rfl⟩ := append_of_mem mem
  rcases mem_append.mp otherMember with earlier | rest
  · exact Or.inl (tiled.before_le earlier)
  · rcases mem_cons.mp rest with rfl | later
    · exact absurd rfl different
    · exact Or.inr (tiled.le_after later)

theorem Tiled.pairwise : chunks.Pairwise (fun left right => left.finish header ≤ right.addr) := by
  induction chunks generalizing start with
  | nil => exact List.Pairwise.nil
  | cons chunk rest ih =>
      obtain ⟨-, tail⟩ := tiled
      exact List.Pairwise.cons (fun other mem => (tail.within mem).1) (ih tail)

theorem eq_of_addr {other : Chunk} (mem : chunk ∈ chunks) (otherMember : other ∈ chunks)
    (same : chunk.addr = other.addr) (positive : 0 < header) : chunk = other := by
  obtain ⟨before, after, rfl⟩ := append_of_mem mem
  rcases mem_append.mp otherMember with earlier | rest
  · have apart := tiled.before_le earlier
    unfold Chunk.finish at apart
    omega
  · rcases mem_cons.mp rest with rfl | later
    · rfl
    · have apart := tiled.le_after later
      unfold Chunk.finish at apart
      omega

theorem not_adjacent (settled : Settled chunks) (positive : 0 < header) :
    (chunks.filter Chunk.free).Pairwise (fun left right => left.finish header ≠ right.addr) := by
  induction chunks generalizing start with
  | nil => exact List.Pairwise.nil
  | cons first rest ih =>
      obtain ⟨-, tail⟩ := tiled
      have later := ih tail settled.tail
      cases isFree : first.free with
      | false => rwa [filter_cons_of_neg (by simp [isFree])]
      | true =>
          rw [filter_cons_of_pos isFree]
          refine List.Pairwise.cons ?_ later
          intro other mem touching
          obtain ⟨inRest, otherFree⟩ := mem_filter.mp mem
          cases rest with
          | nil => cases inRest
          | cons second rest =>
              have same := eq_of_addr tail inRest mem_cons_self
                (touching.symm.trans tail.1.symm) positive
              exact (isChain_cons_cons.mp settled).1 ⟨isFree, same ▸ otherFree⟩

end

theorem Tiled.replace {pieces : List Chunk}
    (tiled : Tiled header start stop (before ++ chunk :: after))
    (cut : Tiled header chunk.addr (chunk.finish header) pieces) :
    Tiled header start stop (before ++ (pieces ++ after)) := by
  obtain ⟨left, right⟩ := tiled.around
  exact tiled_append.mpr ⟨_, left, tiled_append.mpr ⟨_, cut, right⟩⟩

def merge (header : Nat) (left right : Chunk) : Chunk :=
  { left with size := left.size + header + right.size }

theorem finish_merge {left right : Chunk} (adjacent : right.addr = left.finish header) :
    (merge header left right).finish header = right.finish header := by
  unfold Chunk.finish at adjacent ⊢
  simp only [merge]
  omega

theorem Tiled.merge {left right : Chunk}
    (tiled : Tiled header start stop (before ++ left :: right :: after)) :
    Tiled header start stop (before ++ Chunk.merge header left right :: after) := by
  obtain ⟨prior, adjacent, rest⟩ := tiled.around
  refine tiled_append.mpr ⟨_, prior, rfl, ?_⟩
  rw [finish_merge adjacent]
  exact rest

theorem single_of_settled (tiled : Tiled header start stop chunks) (settled : Settled chunks)
    (proper : start < stop) (allFree : ∀ chunk, chunk ∈ chunks → chunk.free = true) :
    ∃ chunk, chunks = [chunk] ∧ chunk.addr = start ∧ chunk.finish header = stop := by
  cases chunks with
  | nil => exact absurd tiled (Nat.ne_of_lt proper)
  | cons first rest =>
      cases rest with
      | nil => exact ⟨first, rfl, tiled.1, tiled.2⟩
      | cons second rest =>
          have apart := (isChain_cons_cons.mp settled).1
          exact absurd ⟨allFree first (by simp), allFree second (by simp)⟩ apart

theorem Tiled.covers {address : Nat} (tiled : Tiled header start stop chunks)
    (lower : start ≤ address) (upper : address < stop) :
    ∃ chunk, chunk ∈ chunks ∧ chunk.addr ≤ address ∧ address < chunk.finish header := by
  induction chunks generalizing start with
  | nil =>
      have same : start = stop := tiled
      omega
  | cons first rest ih =>
      obtain ⟨here, tail⟩ := tiled
      by_cases inside : address < first.finish header
      · exact ⟨first, mem_cons_self, by omega, inside⟩
      · obtain ⟨chunk, mem, within⟩ := ih tail (by omega)
        exact ⟨chunk, mem_cons_of_mem first mem, within⟩

def Idle (header start stop : Nat) (chunks : List Chunk) (address : Nat) : Prop :=
  start ≤ address ∧ address < stop ∧ ∀ chunk, chunk ∈ chunks → chunk.free = false →
    ¬ (chunk.addr ≤ address ∧ address < chunk.finish header)

/-- The addresses of `[lo, hi)` have the property and the ones next to them do not. -/
structure MaximalRun (property : Nat → Prop) (lo hi : Nat) : Prop where
  proper : lo < hi
  all : ∀ address, lo ≤ address → address < hi → property address
  left : ∀ address, address + 1 = lo → ¬ property address
  right : ¬ property hi

theorem idle_of_free {address : Nat} (tiled : Tiled header start stop chunks)
    (positive : 0 < header) (mem : chunk ∈ chunks) (isFree : chunk.free = true)
    (inside : chunk.addr ≤ address ∧ address < chunk.finish header) :
    Idle header start stop chunks address := by
  have within := tiled.within mem
  refine ⟨by omega, by omega, ?_⟩
  intro other otherMember isUsed overlaps
  by_cases same : other.addr = chunk.addr
  · rw [eq_of_addr tiled otherMember mem same positive, isFree] at isUsed
    cases isUsed
  · have apart := tiled.apart_of_ne mem otherMember same
    omega

theorem maximalRun_iff {lo hi : Nat} (tiled : Tiled header start stop chunks)
    (settled : Settled chunks) (positive : 0 < header) :
    MaximalRun (Idle header start stop chunks) lo hi ↔
      ∃ chunk, chunk ∈ chunks ∧ chunk.free = true ∧ chunk.addr = lo ∧ chunk.finish header = hi := by
  have inFree : ∀ address, Idle header start stop chunks address →
      ∃ chunk, chunk ∈ chunks ∧ chunk.free = true ∧ chunk.addr ≤ address ∧
        address < chunk.finish header := by
    intro address idle
    obtain ⟨chunk, mem, within⟩ := tiled.covers idle.1 idle.2.1
    refine ⟨chunk, mem, ?_, within⟩
    by_contra notFree
    exact idle.2.2 chunk mem (Bool.eq_false_iff.mpr notFree) within
  have touching : ∀ left right, left ∈ chunks → right ∈ chunks → left.free = true →
      right.free = true → left.finish header = right.addr → False := by
    intro left right inLeft inRight leftFree rightFree touch
    obtain ⟨before, after, rfl⟩ := append_of_mem inLeft
    have apart := not_adjacent tiled settled positive
    rw [filter_append, filter_cons_of_pos leftFree, pairwise_append] at apart
    rcases mem_append.mp inRight with early | late
    · have below := tiled.before_le early
      unfold Chunk.finish at below touch
      omega
    · rcases mem_cons.mp late with rfl | later
      · unfold Chunk.finish at touch
        omega
      · exact (pairwise_cons.mp apart.2.1).1 right
          (mem_filter.mpr ⟨later, rightFree⟩) touch
  constructor
  · intro run
    have proper := run.proper
    obtain ⟨chunk, mem, isFree, below, above⟩ := inFree lo (run.all lo (le_refl lo) proper)
    refine ⟨chunk, mem, isFree, ?_, ?_⟩
    · by_contra before
      exact run.left (lo - 1) (by omega) (idle_of_free tiled positive mem isFree (by omega))
    · by_contra different
      rcases Nat.lt_or_gt_of_ne different with short | long
      · have next := run.all (chunk.finish header) (by omega) short
        obtain ⟨other, otherMember, otherFree, otherBelow, otherAbove⟩ := inFree _ next
        have apart : other.addr ≠ chunk.addr := by
          intro same
          have equal := eq_of_addr tiled mem otherMember same.symm positive
          rw [← equal] at otherAbove
          omega
        refine touching chunk other mem otherMember isFree otherFree ?_
        rcases tiled.apart_of_ne mem otherMember apart with early | late
        · unfold Chunk.finish at *
          omega
        · omega
      · exact run.right (idle_of_free tiled positive mem isFree ⟨by omega, long⟩)
  · rintro ⟨chunk, mem, isFree, rfl, rfl⟩
    constructor
    · unfold Chunk.finish
      omega
    · intro address lower upper
      exact idle_of_free tiled positive mem isFree ⟨lower, upper⟩
    · intro address next idle
      obtain ⟨other, otherMember, otherFree, otherBelow, otherAbove⟩ := inFree address idle
      refine touching other chunk otherMember mem otherFree isFree ?_
      rcases tiled.apart_of_ne mem otherMember (by omega) with early | late
      · omega
      · unfold Chunk.finish at late
        omega
    · intro idle
      obtain ⟨other, otherMember, otherFree, otherBelow, otherAbove⟩ := inFree _ idle
      have apart : other.addr ≠ chunk.addr := by
        intro same
        have equal := eq_of_addr tiled mem otherMember same.symm positive
        rw [← equal] at otherAbove
        omega
      refine touching chunk other mem otherMember isFree otherFree ?_
      rcases tiled.apart_of_ne mem otherMember apart with early | late
      · unfold Chunk.finish at *
        omega
      · omega

end Chunk
