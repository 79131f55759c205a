/-
Sequencing of computations that end in `Except.ok` or `Except.error`.

The rules read off, from what a sequence ended in, what its parts ended in.
-/

import Mathlib.Tactic.Common

instance Except.decidableEq {ε α : Type} [DecidableEq ε] [DecidableEq α] : DecidableEq (Except ε α)
  | .ok a, .ok b => decidable_of_iff (a = b) ⟨congrArg _, Except.ok.inj⟩
  | .error a, .error b => decidable_of_iff (a = b) ⟨congrArg _, Except.error.inj⟩
  | .ok _, .error _ => isFalse (by intro same; cases same)
  | .error _, .ok _ => isFalse (by intro same; cases same)

namespace Except

variable {ε α β : Type}

@[simp] theorem ok_bind (value : α) (next : α → Except ε β) : (ok value >>= next) = next value := rfl

@[simp] theorem error_bind (failure : ε) (next : α → Except ε β) :
    (error failure >>= next) = error failure := rfl

theorem bind_eq_ok {first : Except ε α} {next : α → Except ε β} {result : β} :
    (first >>= next) = ok result ↔ ∃ value, first = ok value ∧ next value = ok result := by
  cases first <;> simp

theorem bind_eq_error {first : Except ε α} {next : α → Except ε β} {failure : ε} :
    (first >>= next) = error failure ↔
      first = error failure ∨ ∃ value, first = ok value ∧ next value = error failure := by
  cases first <;> simp

end Except
