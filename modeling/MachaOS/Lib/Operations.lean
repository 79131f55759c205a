/-
The operations of a piece of code that are not defined on all their operands: differences of unsigned
numbers, divisions, and clamps.

A piece of code is given as the list of those it carries out, in order; it never goes wrong exactly if
all of them are defined.
-/

import Mathlib.Data.List.Basic

inductive Operation where
  | sub (a b : Nat)
  | div (divisor : Nat)
  | clamp (low high : Int)
deriving DecidableEq, Repr

namespace Operation

/-- A difference does not underflow, a divisor is not zero, a clamp has its bounds in order. -/
def Defined : Operation → Prop
  | .sub a b => b ≤ a
  | .div divisor => divisor ≠ 0
  | .clamp low high => low ≤ high

instance (operation : Operation) : Decidable operation.Defined :=
  match operation with
  | .sub a b => inferInstanceAs (Decidable (b ≤ a))
  | .div divisor => inferInstanceAs (Decidable (divisor ≠ 0))
  | .clamp low high => inferInstanceAs (Decidable (low ≤ high))

def AllDefined (operations : List Operation) : Prop :=
  ∀ operation ∈ operations, operation.Defined

instance (operations : List Operation) : Decidable (AllDefined operations) :=
  inferInstanceAs (Decidable (∀ operation ∈ operations, operation.Defined))

@[simp] theorem defined_sub {a b : Nat} : (Operation.sub a b).Defined ↔ b ≤ a := Iff.rfl

@[simp] theorem defined_div {divisor : Nat} : (Operation.div divisor).Defined ↔ divisor ≠ 0 := Iff.rfl

@[simp] theorem defined_clamp {low high : Int} :
    (Operation.clamp low high).Defined ↔ low ≤ high := Iff.rfl

variable {first second : List Operation}

@[simp] theorem allDefined_nil : AllDefined [] := List.forall_mem_nil _

@[simp] theorem allDefined_cons {operation : Operation} {rest : List Operation} :
    AllDefined (operation :: rest) ↔ operation.Defined ∧ AllDefined rest :=
  List.forall_mem_cons

@[simp] theorem allDefined_append :
    AllDefined (first ++ second) ↔ AllDefined first ∧ AllDefined second :=
  List.forall_mem_append

@[simp] theorem allDefined_flatMap {α : Type} {items : List α} {each : α → List Operation} :
    AllDefined (items.flatMap each) ↔ ∀ item ∈ items, AllDefined (each item) := by
  constructor
  · intro all item mem operation inside
    exact all operation (List.mem_flatMap.mpr ⟨item, mem, inside⟩)
  · intro all operation mem
    obtain ⟨item, present, inside⟩ := List.mem_flatMap.mp mem
    exact all item present operation inside

@[simp] theorem allDefined_ite {condition : Prop} [Decidable condition] :
    AllDefined (if condition then first else second) ↔
      (condition → AllDefined first) ∧ (¬ condition → AllDefined second) := by
  by_cases holds : condition
  · rw [if_pos holds]
    exact ⟨fun all => ⟨fun _ => all, fun fails => absurd holds fails⟩, fun both => both.1 holds⟩
  · rw [if_neg holds]
    exact ⟨fun all => ⟨fun met => absurd met holds, fun _ => all⟩, fun both => both.2 holds⟩

end Operation
