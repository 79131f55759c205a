/-
Link tables: every item is free, the last of its chain, or linked to another item.

A table is well formed when links lead to taken items, no item is linked to twice,
and every taken item starts a chain that ends.  The lemmas say what taking a free
item, joining two chains and freeing a chain do to such a table.
-/

import Mathlib.Data.List.Nodup
import Mathlib.Logic.Function.Basic
import Mathlib.Tactic.Common

inductive Cell (α : Type) where
  | free
  | last
  | link (next : α)
deriving DecidableEq

namespace Chains

open List Function

variable {α : Type} {table table' : α → Cell α} {item other next head : α} {items rest : List α}

/-- The items follow each other, and the last of them ends the chain. -/
def IsChain (table : α → Cell α) : List α → Prop
  | [] => False
  | [item] => table item = .last
  | item :: next :: rest => table item = .link next ∧ IsChain table (next :: rest)

def Unreferenced (table : α → Cell α) (item : α) : Prop :=
  ∀ other, table other ≠ .link item

structure WellFormed (table : α → Cell α) : Prop where
  target : ∀ item next, table item = .link next → table next ≠ .free
  injective : ∀ item other next, table item = .link next → table other = .link next → item = other
  ends : ∀ item, table item ≠ .free → ∃ rest, IsChain table (item :: rest)

def ascends (table : Nat → Cell Nat) (item : Nat) : Bool :=
  match table item with
  | .link next => item < next && table next ≠ .free
  | _ => true

/-- Links that lead upwards cannot run in a circle. -/
theorem wellFormed_of_ascending {table : Nat → Cell Nat} {bound : Nat}
    (beyond : ∀ item, bound ≤ item → table item = .free)
    (upwards : ∀ item, item < bound → ascends table item = true)
    (once : ∀ item, item < bound → ∀ other, other < bound → table item = table other →
      item = other ∨ table item = .free ∨ table item = .last) : WellFormed table := by
  have taken {item : Nat} (used : table item ≠ .free) : item < bound :=
    Nat.lt_of_not_le (fun late => used (beyond item late))
  have above {item next : Nat} (linked : table item = .link next) :
      item < next ∧ table next ≠ .free := by
    have up := upwards item (taken (by rw [linked]; nofun))
    rw [ascends, linked] at up
    simpa using up
  have ends : ∀ left item, bound ≤ item + left → table item ≠ .free →
      ∃ rest, IsChain table (item :: rest) := by
    intro left
    induction left with
    | zero => exact fun item late used => absurd (beyond item late) used
    | succ left ih =>
        intro item late used
        cases entry : table item with
        | free => exact absurd entry used
        | last => exact ⟨[], entry⟩
        | link next =>
            obtain ⟨rest, chain⟩ := ih next (by have := (above entry).1; omega) (above entry).2
            exact ⟨next :: rest, entry, chain⟩
  refine ⟨fun item next linked => (above linked).2, fun item other next first second => ?_,
    fun item used => ends bound item (Nat.le_add_left _ _) used⟩
  have inside := taken (show table item ≠ .free by rw [first]; nofun)
  have inside' := taken (show table other ≠ .free by rw [second]; nofun)
  rcases once item inside other inside' (first.trans second.symm) with same | free | last
  · exact same
  · rw [first] at free
    cases free
  · rw [first] at last
    cases last

theorem IsChain.congr (chain : IsChain table items)
    (same : ∀ item, item ∈ items → table' item = table item) : IsChain table' items := by
  induction items with
  | nil => exact chain
  | cons item rest ih =>
      cases rest with
      | nil =>
          show table' item = .last
          rw [same item mem_cons_self]
          exact chain
      | cons next rest =>
          refine ⟨?_, ih chain.2 (fun other mem => same other (mem_cons_of_mem _ mem))⟩
          rw [same item mem_cons_self]
          exact chain.1

theorem IsChain.taken (chain : IsChain table items) (mem : item ∈ items) :
    table item ≠ .free := by
  induction items with
  | nil => cases mem
  | cons first rest ih =>
      cases rest with
      | nil =>
          rw [mem_singleton.mp mem]
          intro free
          rw [show table first = .last from chain] at free
          cases free
      | cons second rest =>
          rcases mem_cons.mp mem with rfl | later
          · intro free
            rw [chain.1] at free
            cases free
          · exact ih chain.2 later

theorem IsChain.unique {items' : List α} (chain : IsChain table (head :: items))
    (chain' : IsChain table (head :: items')) : items = items' := by
  induction items generalizing head items' with
  | nil =>
      cases items' with
      | nil => rfl
      | cons next rest =>
          have linked := chain'.1
          rw [show table head = .last from chain] at linked
          cases linked
  | cons next rest ih =>
      cases items' with
      | nil =>
          have linked := chain.1
          rw [show table head = .last from chain'] at linked
          cases linked
      | cons next' rest' =>
          have linked := chain.1
          rw [chain'.1] at linked
          cases linked
          rw [ih chain.2 chain'.2]

theorem IsChain.suffix {early : List α} (chain : IsChain table (early ++ item :: rest)) :
    IsChain table (item :: rest) := by
  induction early with
  | nil => exact chain
  | cons first early ih =>
      cases early with
      | nil => exact chain.2
      | cons second early => exact ih chain.2

theorem IsChain.head_not_mem (chain : IsChain table (head :: items)) : head ∉ items := by
  intro mem
  obtain ⟨early, late, same⟩ := append_of_mem mem
  have again : IsChain table (head :: late) := by
    rw [same, ← cons_append] at chain
    exact chain.suffix
  have shorter := congrArg List.length (chain.unique again)
  rw [same, length_append, length_cons] at shorter
  omega

theorem IsChain.nodup (chain : IsChain table items) : items.Nodup := by
  induction items with
  | nil => exact nodup_nil
  | cons item rest ih =>
      refine nodup_cons.mpr ⟨chain.head_not_mem, ?_⟩
      cases rest with
      | nil => exact nodup_nil
      | cons next rest => exact ih chain.2

theorem IsChain.referenced (chain : IsChain table (head :: items)) (mem : item ∈ items) :
    ∃ other, other ∈ head :: items ∧ table other = .link item := by
  induction items generalizing head with
  | nil => cases mem
  | cons next rest ih =>
      rcases mem_cons.mp mem with rfl | later
      · exact ⟨head, mem_cons_self, chain.1⟩
      · obtain ⟨other, present, linked⟩ := ih chain.2 later
        exact ⟨other, mem_cons_of_mem _ present, linked⟩

theorem IsChain.eq_head (chain : IsChain table (head :: items))
    (unreferenced : Unreferenced table item) (mem : item ∈ head :: items) : item = head := by
  rcases mem_cons.mp mem with same | later
  · exact same
  · obtain ⟨other, -, linked⟩ := chain.referenced later
    exact absurd linked (unreferenced other)

theorem IsChain.link_mem_tail (chain : IsChain table (head :: items)) (mem : item ∈ head :: items)
    (linked : table item = .link next) : next ∈ items := by
  induction items generalizing head with
  | nil =>
      rw [mem_singleton.mp mem, show table head = .last from chain] at linked
      cases linked
  | cons second rest ih =>
      rcases mem_cons.mp mem with rfl | later
      · rw [chain.1] at linked
        cases linked
        exact mem_cons_self
      · exact mem_cons_of_mem _ (ih chain.2 later)

theorem IsChain.link_mem (chain : IsChain table items) (mem : item ∈ items)
    (linked : table item = .link next) : next ∈ items := by
  cases items with
  | nil => cases mem
  | cons head items => exact mem_cons_of_mem _ (chain.link_mem_tail mem linked)

theorem IsChain.mem_of_link (wellFormed : WellFormed table) (chain : IsChain table (head :: items))
    (unreferenced : Unreferenced table head) (mem : next ∈ head :: items)
    (linked : table item = .link next) : item ∈ head :: items := by
  rcases mem_cons.mp mem with rfl | later
  · exact absurd linked (unreferenced item)
  · obtain ⟨other, present, linked'⟩ := chain.referenced later
    rw [wellFormed.injective item other next linked linked']
    exact present

theorem IsChain.all_or_none {property : α → Prop} (chain : IsChain table (head :: items))
    (along : ∀ item next, table item = .link next → (property item ↔ property next)) :
    ∀ item, item ∈ head :: items → (property item ↔ property head) := by
  induction items generalizing head with
  | nil =>
      intro item mem
      rw [mem_singleton.mp mem]
  | cons next rest ih =>
      intro item mem
      rcases mem_cons.mp mem with rfl | later
      · exact Iff.rfl
      · exact (ih chain.2 item later).trans (along head next chain.1).symm

theorem IsChain.disjoint {head' : α} {items' : List α} (wellFormed : WellFormed table)
    (chain : IsChain table (head :: items)) (chain' : IsChain table (head' :: items'))
    (unreferenced : Unreferenced table head) (unreferenced' : Unreferenced table head')
    (different : head ≠ head') : ∀ item, item ∈ head :: items → item ∉ head' :: items' := by
  intro item mem mem'
  have along : ∀ item next, table item = .link next →
      (item ∈ head' :: items' ↔ next ∈ head' :: items') := fun item next linked =>
    ⟨fun present => chain'.link_mem present linked,
      fun present => chain'.mem_of_link wellFormed unreferenced' present linked⟩
  have headPresent := (chain.all_or_none along item mem).mp mem'
  exact different (chain'.eq_head unreferenced headPresent)

theorem IsChain.eq_concat (chain : IsChain table items) (mem : item ∈ items)
    (ends : table item = .last) : ∃ early, items = early ++ [item] := by
  obtain ⟨early, late, rfl⟩ := append_of_mem mem
  cases late with
  | nil => exact ⟨early, rfl⟩
  | cons next late =>
      have linked := chain.suffix.1
      rw [ends] at linked
      cases linked

theorem unreferenced_of_free (wellFormed : WellFormed table) (free : table item = .free) :
    Unreferenced table item :=
  fun other linked => wellFormed.target other item linked free

section Update

variable [DecidableEq α]

theorem WellFormed.take (wellFormed : WellFormed table) (free : table item = .free) :
    WellFormed (Function.update table item .last) := by
  have kept : ∀ other, other ≠ item → Function.update table item .last other = table other :=
    fun other different => update_of_ne different _ _
  have changed : Function.update table item .last item = .last := update_self ..
  have source {other next : α} (linked : Function.update table item .last other = .link next) :
      table other = .link next := by
    by_cases same : other = item
    · rw [same, changed] at linked
      cases linked
    · rwa [kept other same] at linked
  refine ⟨fun other next linked => ?_, fun first second next linked linked' => ?_,
    fun other taken => ?_⟩
  · by_cases same : next = item
    · rw [same, changed]
      simp
    · rw [kept next same]
      exact wellFormed.target other next (source linked)
  · exact wellFormed.injective first second next (source linked) (source linked')
  · by_cases same : other = item
    · exact ⟨[], by rw [same]; exact changed⟩
    · rw [kept other same] at taken
      obtain ⟨rest, chain⟩ := wellFormed.ends other taken
      refine ⟨rest, chain.congr (fun mem present => kept mem ?_)⟩
      rintro rfl
      exact chain.taken present free

theorem IsChain.join {early : List α} (chain : IsChain table (early ++ [item]))
    (late : IsChain table (next :: rest)) (fresh : item ∉ next :: rest) :
    IsChain (Function.update table item (.link next)) (early ++ item :: next :: rest) := by
  have lateKept : IsChain (Function.update table item (.link next)) (next :: rest) :=
    late.congr (fun other mem => update_of_ne (by rintro rfl; exact fresh mem) _ _)
  induction early with
  | nil => exact ⟨update_self .., lateKept⟩
  | cons first early ih =>
      have distinct : first ≠ item := by
        rintro rfl
        exact chain.head_not_mem (by simp)
      have changed : Function.update table item (.link next) first = table first :=
        update_of_ne distinct _ _
      cases early with
      | nil => exact ⟨changed.trans chain.1, ih chain.2⟩
      | cons second early => exact ⟨changed.trans chain.1, ih chain.2⟩

theorem WellFormed.join (wellFormed : WellFormed table) (ends : table item = .last)
    (late : IsChain table (next :: rest)) (unreferenced : Unreferenced table next)
    (fresh : item ∉ next :: rest) : WellFormed (Function.update table item (.link next)) := by
  have kept : ∀ other, other ≠ item → Function.update table item (.link next) other = table other :=
    fun other different => update_of_ne different _ _
  have changed : Function.update table item (.link next) item = .link next := update_self ..
  have taken : table next ≠ .free := late.taken mem_cons_self
  have stillTaken {other : α} (takenBefore : table other ≠ .free) :
      Function.update table item (.link next) other ≠ .free := by
    by_cases same : other = item
    · rw [same, changed]
      simp
    · rwa [kept other same]
  refine ⟨fun other target linked => ?_, fun first second target linked linked' => ?_,
    fun other takenNow => ?_⟩
  · by_cases same : other = item
    · rw [same, changed] at linked
      cases linked
      exact stillTaken taken
    · rw [kept other same] at linked
      exact stillTaken (wellFormed.target other target linked)
  · by_cases same : first = item
    · by_cases same' : second = item
      · rw [same, same']
      · rw [same, changed] at linked
        cases linked
        rw [kept second same'] at linked'
        exact absurd linked' (unreferenced second)
    · rw [kept first same] at linked
      by_cases same' : second = item
      · rw [same', changed] at linked'
        cases linked'
        exact absurd linked (unreferenced first)
      · rw [kept second same'] at linked'
        exact wellFormed.injective first second target linked linked'
  · have takenBefore : table other ≠ .free := by
      by_cases same : other = item
      · rw [same, ends]
        simp
      · rwa [kept other same] at takenNow
    obtain ⟨items, chain⟩ := wellFormed.ends other takenBefore
    by_cases mem : item ∈ other :: items
    · obtain ⟨early, same⟩ := chain.eq_concat mem ends
      rw [same] at chain
      have joined := chain.join late fresh
      cases early with
      | nil =>
          cases same
          exact ⟨_, joined⟩
      | cons first early =>
          cases same
          exact ⟨_, joined⟩
    · exact ⟨items, chain.congr (fun mem' present =>
        kept mem' (fun same => mem (same ▸ present)))⟩

theorem WellFormed.release (wellFormed : WellFormed table)
    (unreferenced : Unreferenced table item) :
    WellFormed (Function.update table item .free) := by
  have kept : ∀ other, other ≠ item → Function.update table item .free other = table other :=
    fun other different => update_of_ne different _ _
  have changed : Function.update table item .free item = .free := update_self ..
  have source {other target : α} (linked : Function.update table item .free other = .link target) :
      other ≠ item ∧ table other = .link target := by
    by_cases same : other = item
    · rw [same, changed] at linked
      cases linked
    · exact ⟨same, by rwa [kept other same] at linked⟩
  refine ⟨fun other target linked => ?_, fun first second target linked linked' =>
    wellFormed.injective first second target (source linked).2 (source linked').2,
    fun other taken => ?_⟩
  · have different : target ≠ item := by
      rintro rfl
      exact unreferenced other (source linked).2
    rw [kept target different]
    exact wellFormed.target other target (source linked).2
  · by_cases same : other = item
    · rw [same] at taken
      exact absurd changed taken
    · rw [kept other same] at taken
      obtain ⟨items, chain⟩ := wellFormed.ends other taken
      refine ⟨items, chain.congr (fun mem present => kept mem ?_)⟩
      rintro rfl
      exact same (chain.eq_head unreferenced present).symm

theorem WellFormed.unreferenced_next (wellFormed : WellFormed table)
    (linked : table item = .link next) :
    Unreferenced (Function.update table item .free) next := by
  intro other linked'
  by_cases same : other = item
  · rw [same, update_self] at linked'
    cases linked'
  · rw [update_of_ne same] at linked'
    exact same (wellFormed.injective other item next linked' linked)

end Update
end Chains
