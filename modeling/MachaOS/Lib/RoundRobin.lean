/-
Round robin over a table of fixed length.

The next choice is the first eligible index after the last one, going round the
table and stopping short of the last one itself.  Unrolled along the numbers,
the choices are the eligible numbers in order: an index is eligible again after
one round of the table, and so each window of as many choices as there are
eligible indices holds every one of them once.
-/

import Mathlib.Data.List.Perm.Basic
import Mathlib.Data.Nat.Count
import Mathlib.Data.Nat.Periodic

namespace RoundRobin

open List

/-- The first eligible index among `last + 1`, .., `last + length - 1`, taken round the table. -/
def next (eligible : Nat → Bool) (length last : Nat) : Option Nat :=
  (((List.range length).drop 1).map (fun step => (last + step) % length)).find? eligible

def indices (eligible : Nat → Bool) (length : Nat) : List Nat :=
  (List.range length).filter eligible

variable {eligible : Nat → Bool} {length last chosen : Nat}

theorem next_eligible (chose : next eligible length last = some chosen) :
    eligible chosen = true ∧ chosen < length := by
  refine ⟨List.find?_some chose, ?_⟩
  obtain ⟨step, mem, rfl⟩ := mem_map.mp (mem_of_find?_eq_some chose)
  have inside := mem_range.mp (mem_of_mem_drop mem)
  exact Nat.mod_lt _ (by omega)

theorem next_eq_some : next eligible length last = some chosen ↔
    ∃ step, 0 < step ∧ step < length ∧ chosen = (last + step) % length ∧ eligible chosen = true ∧
      ∀ skipped, 0 < skipped → skipped < step → eligible ((last + skipped) % length) = false := by
  have steps : (List.range length).drop 1 = List.range' 1 (length - 1) := by
    rw [range_eq_range', drop_range']
  unfold next
  rw [List.find?_map, Option.map_eq_some_iff, steps]
  constructor
  · rintro ⟨step, found, rfl⟩
    obtain ⟨isEligible, mem, skips⟩ := List.find?_range'_eq_some.mp found
    obtain ⟨positive, inside⟩ := mem_range'_1.mp mem
    refine ⟨step, positive, by omega, rfl, isEligible, fun skipped positive before => ?_⟩
    simpa using skips skipped positive before
  · rintro ⟨step, positive, inside, rfl, isEligible, skips⟩
    refine ⟨step, List.find?_range'_eq_some.mpr ⟨isEligible, ?_, ?_⟩, rfl⟩
    · exact mem_range'_1.mpr ⟨positive, by omega⟩
    · intro skipped positive before
      simpa using skips skipped positive before

theorem next_isSome {first second : Nat} (firstInside : first < length)
    (secondInside : second < length) (different : first ≠ second)
    (firstEligible : eligible first = true) (secondEligible : eligible second = true)
    (last : Nat) : (next eligible length last).isSome = true := by
  obtain ⟨other, inside, isEligible, apart⟩ : ∃ other, other < length ∧ eligible other = true ∧
      other ≠ last % length := by
    by_cases same : first = last % length
    · exact ⟨second, secondInside, secondEligible, fun again => different (same.trans again.symm)⟩
    · exact ⟨first, firstInside, firstEligible, same⟩
  rw [Option.isSome_iff_ne_none]
  intro missing
  unfold next at missing
  rw [List.find?_eq_none] at missing
  have lastInside := Nat.mod_lt last (Nat.zero_lt_of_lt inside)
  -- the step that leads from the last choice to the other index
  have place : (last + (length - last % length + other) % length) % length = other := by
    rw [Nat.add_mod, Nat.mod_mod]
    rcases Nat.lt_or_ge other (last % length) with before | behind
    · rw [Nat.mod_eq_of_lt (by omega : length - last % length + other < length)]
      have total : last % length + (length - last % length + other) = length + other := by omega
      rw [total, Nat.add_mod_left, Nat.mod_eq_of_lt inside]
    · have past : length - last % length + other = length + (other - last % length) := by omega
      rw [past, Nat.add_mod_left, Nat.mod_eq_of_lt (by omega : other - last % length < length)]
      rw [Nat.add_sub_cancel' behind, Nat.mod_eq_of_lt inside]
  have step : (length - last % length + other) % length ≠ 0 := by
    intro zero
    rw [zero, Nat.add_zero] at place
    exact apart place.symm
  refine missing other (mem_map.mpr ⟨_, ?_, place⟩) isEligible
  rw [range_eq_range', drop_range', mem_range'_1]
  have stepInside := Nat.mod_lt (length - last % length + other) (Nat.zero_lt_of_lt inside)
  omega

/-- A number stands for the index it leaves when counted round the table. -/
def Lifted (eligible : Nat → Bool) (length number : Nat) : Prop :=
  eligible (number % length) = true

instance (eligible : Nat → Bool) (length : Nat) : DecidablePred (Lifted eligible length) :=
  fun number => inferInstanceAs (Decidable (eligible (number % length) = true))

theorem count_round (eligible : Nat → Bool) (length number : Nat) :
    Nat.count (Lifted eligible length) (number + length) =
      Nat.count (Lifted eligible length) number + (indices eligible length).length := by
  have periodic : Function.Periodic (Lifted eligible length) length := by
    intro other
    unfold Lifted
    rw [Nat.add_mod_right]
  have round := Nat.filter_Ico_card_eq_of_periodic number length (Lifted eligible length) periodic
  have eachOnce : Nat.count (Lifted eligible length) length = (indices eligible length).length := by
    unfold indices
    rw [Nat.count, countP_eq_length_filter]
    refine congrArg List.length (filter_congr (fun index mem => ?_))
    rw [Bool.eq_iff_iff, decide_eq_true_iff, Lifted, Nat.mod_eq_of_lt (mem_range.mp mem)]
  have split : (Finset.range (number + length)).filter (Lifted eligible length) =
      (Finset.range number).filter (Lifted eligible length) ∪
        (Finset.Ico number (number + length)).filter (Lifted eligible length) := by
    ext other
    simp only [Finset.mem_filter, Finset.mem_range, Finset.mem_union, Finset.mem_Ico]
    constructor
    · rintro ⟨inside, lifted⟩
      rcases Nat.lt_or_ge other number with before | behind
      · exact Or.inl ⟨before, lifted⟩
      · exact Or.inr ⟨⟨behind, inside⟩, lifted⟩
    · rintro (⟨before, lifted⟩ | ⟨⟨-, inside⟩, lifted⟩)
      · exact ⟨by omega, lifted⟩
      · exact ⟨inside, lifted⟩
  have apart : Disjoint ((Finset.range number).filter (Lifted eligible length))
      ((Finset.Ico number (number + length)).filter (Lifted eligible length)) := by
    rw [Finset.disjoint_left]
    intro other low high
    have before := Finset.mem_range.mp (Finset.mem_filter.mp low).1
    have behind := (Finset.mem_Ico.mp (Finset.mem_filter.mp high).1).1
    omega
  rw [Nat.count_eq_card_filter_range, Nat.count_eq_card_filter_range, split,
    Finset.card_union_of_disjoint apart, round, eachOnce]

theorem next_number {number : Nat} (place : number % length = last % length)
    (chose : next eligible length last = some chosen) :
    ∃ following, following % length = chosen ∧ Lifted eligible length following ∧
      Nat.count (Lifted eligible length) following =
        Nat.count (Lifted eligible length) (number + 1) := by
  obtain ⟨step, positive, inside, rfl, isEligible, skips⟩ := next_eq_some.mp chose
  have moved : ∀ ahead, (number + ahead) % length = (last + ahead) % length := by
    intro ahead
    rw [Nat.add_mod, place, ← Nat.add_mod]
  refine ⟨number + step, moved step, ?_, ?_⟩
  · unfold Lifted
    rwa [moved]
  · obtain ⟨rest, rfl⟩ : ∃ rest, step = 1 + rest := ⟨step - 1, by omega⟩
    rw [← Nat.add_assoc, Nat.count_add, Nat.add_eq_left]
    refine Nat.count_iff_forall_not.mpr (fun index before isLifted => ?_)
    rw [Lifted, Nat.add_assoc, moved, skips (1 + index) (by omega) (by omega)] at isLifted
    cases isLifted

section Run

variable {selected : Nat → Nat} {switches : Nat}

theorem run_numbers
    (run : ∀ index, index < switches →
      next eligible length (selected index) = some (selected (index + 1)))
    {index : Nat} (inside : index < switches) :
    ∃ number, number % length = selected (index + 1) ∧ Lifted eligible length number ∧
      Nat.count (Lifted eligible length) number =
        Nat.count (Lifted eligible length) (selected 0 + 1) + index := by
  induction index with
  | zero => exact next_number rfl (run 0 inside)
  | succ index ih =>
      obtain ⟨number, place, lifted, counted⟩ := ih (by omega)
      have chose := run (index + 1) inside
      have small : selected (index + 1) % length = selected (index + 1) := by
        rw [← place, Nat.mod_mod]
      obtain ⟨following, followingPlace, followingLifted, followingCounted⟩ :=
        next_number (place.trans small.symm) chose
      refine ⟨following, followingPlace, followingLifted, ?_⟩
      rw [followingCounted, Nat.count_succ, if_pos lifted, counted, Nat.add_assoc]

theorem selected_ne
    (run : ∀ index, index < switches →
      next eligible length (selected index) = some (selected (index + 1)))
    {early late : Nat} (ordered : early < late) (inside : late < switches)
    (win : late < early + (indices eligible length).length) :
    selected (early + 1) ≠ selected (late + 1) := by
  obtain ⟨first, firstPlace, firstLifted, firstCounted⟩ := run_numbers run (ordered.trans inside)
  obtain ⟨second, secondPlace, secondLifted, secondCounted⟩ := run_numbers run inside
  intro same
  have ahead : first < second := by
    refine @Nat.lt_of_count_lt_count (Lifted eligible length) _ first second ?_
    omega
  have round : first + length ≤ second := by
    have residues : (second - first) % length = 0 :=
      Nat.sub_mod_eq_zero_of_mod_eq (secondPlace.trans (same.symm.trans firstPlace.symm))
    have whole := Nat.le_of_dvd (by omega) (Nat.dvd_of_mod_eq_zero residues)
    omega
  have far := Nat.count_monotone (Lifted eligible length) round
  rw [count_round] at far
  omega

theorem window_perm
    (run : ∀ index, index < switches →
      next eligible length (selected index) = some (selected (index + 1)))
    {start : Nat} (inside : start + (indices eligible length).length ≤ switches) :
    ((List.range (indices eligible length).length).map
      (fun index => selected (start + index + 1))).Perm (indices eligible length) := by
  have distinct : ((List.range (indices eligible length).length).map
      (fun index => selected (start + index + 1))).Nodup := by
    refine List.Nodup.map_on (fun left leftMember right rightMember same => ?_) nodup_range
    have leftInside := mem_range.mp leftMember
    have rightInside := mem_range.mp rightMember
    rcases Nat.lt_trichotomy left right with less | equal | more
    · exact absurd same (selected_ne run (by omega) (by omega) (by omega))
    · exact equal
    · exact absurd same.symm (selected_ne run (by omega) (by omega) (by omega))
  refine (subperm_of_subset distinct (fun index mem => ?_)).perm_of_length_le (by simp)
  obtain ⟨place, placeMember, rfl⟩ := mem_map.mp mem
  have placeInside := mem_range.mp placeMember
  obtain ⟨isEligible, isInside⟩ := next_eligible (run (start + place) (by omega))
  exact mem_filter.mpr ⟨mem_range.mpr isInside, isEligible⟩

end Run

end RoundRobin
