/-
Resources in exclusive use.

Every resource is free, or held by at most one holder.  The rules say which
changes keep this: a holder exchanging resources with the free pool, and
holders changing their names.
-/

import Mathlib.Logic.Function.Basic

/-- No resource has two holders, and no resource in use is free. -/
structure Holdings {H R : Type} (holds : H → R → Prop) (free : R → Prop) : Prop where
  alone : ∀ holder other resource, holds holder resource → holds other resource → holder = other
  inUse : ∀ holder resource, holds holder resource → ¬ free resource

namespace Holdings

variable {H R : Type} {holds holds' : H → R → Prop} {free free' : R → Prop}

theorem exchange (holdings : Holdings holds free) (holder : H)
    (others : ∀ other resource, other ≠ holder → holds' other resource → holds other resource)
    (came : ∀ resource, holds' holder resource → holds holder resource ∨ free resource)
    (freed : ∀ resource, free' resource → free resource ∨ holds holder resource)
    (kept : ∀ resource, holds' holder resource → ¬ free' resource) : Holdings holds' free' := by
  have apart : ∀ other resource, other ≠ holder → holds' other resource →
      ¬ holds' holder resource := by
    intro other resource different held mine
    have old := others other resource different held
    rcases came resource mine with before | was
    · exact different (holdings.alone other holder resource old before)
    · exact holdings.inUse other resource old was
  refine ⟨?_, ?_⟩
  · intro first second resource left right
    by_cases isFirst : first = holder
    · by_cases isSecond : second = holder
      · rw [isFirst, isSecond]
      · rw [isFirst] at left
        exact absurd left (apart second resource isSecond right)
    · by_cases isSecond : second = holder
      · rw [isSecond] at right
        exact absurd right (apart first resource isFirst left)
      · exact holdings.alone first second resource (others first resource isFirst left)
          (others second resource isSecond right)
  · intro other resource held
    by_cases same : other = holder
    · rw [same] at held
      exact kept resource held
    · intro isFree
      have old := others other resource same held
      rcases freed resource isFree with was | mine
      · exact holdings.inUse other resource old was
      · exact same (holdings.alone other holder resource old mine)

theorem rename (holdings : Holdings holds free) {name : H → H} (injective : name.Injective)
    (moved : ∀ holder resource, holds' holder resource → holds (name holder) resource)
    (freed : ∀ resource, free' resource → free resource ∨ ∀ holder, ¬ holds' holder resource) :
    Holdings holds' free' := by
  refine ⟨?_, ?_⟩
  · intro first second resource left right
    exact injective (holdings.alone _ _ resource (moved first resource left)
      (moved second resource right))
  · intro holder resource held isFree
    rcases freed resource isFree with was | nobody
    · exact holdings.inUse _ resource (moved holder resource held) was
    · exact nobody holder held

end Holdings
