/-
Code that may panic: arithmetic that must stay inside 64 bits, and accesses that must stay inside a
buffer.  A routine over it returns a value or an error of its own, or panics.

`Completes` says that a routine does not panic, and gives what it returns.
-/

import Mathlib.Algebra.Ring.Int.Defs
import Mathlib.Algebra.Ring.Nat
import MachaOS.Lib.Results

inductive Panic where
  | overflow
  | outOfRange
  | divisionByZero
deriving DecidableEq, Repr

abbrev Checked (α : Type) : Type := Except Panic α

namespace Checked

def limit : Nat := 2 ^ 64

def add (a b : Nat) : Checked Nat :=
  if a + b < limit then .ok (a + b) else .error .overflow

def mul (a b : Nat) : Checked Nat :=
  if a * b < limit then .ok (a * b) else .error .overflow

/-- A sum of two `u32` values. -/
def addU32 (a b : Nat) : Checked Nat :=
  if a + b < 2 ^ 32 then .ok (a + b) else .error .overflow

def mulU32 (a b : Nat) : Checked Nat :=
  if a * b < 2 ^ 32 then .ok (a * b) else .error .overflow

/-- The value of an `i32` operation. -/
def i32 (value : Int) : Checked Int :=
  if -2 ^ 31 ≤ value ∧ value < 2 ^ 31 then .ok value else .error .overflow

def div (a b : Nat) : Checked Nat :=
  if b = 0 then .error .divisionByZero else .ok (a / b)

def sub (a b : Nat) : Checked Nat :=
  if b ≤ a then .ok (a - b) else .error .overflow

def inside (condition : Prop) [Decidable condition] : Checked Unit :=
  if condition then .ok () else .error .outOfRange

def index {α : Type} (cells : List α) (i : Nat) : Checked α :=
  match cells[i]? with
  | some cell => .ok cell
  | none => .error .outOfRange

def range {α : Type} (cells : List α) (start stop : Nat) : Checked (List α) :=
  if start ≤ stop ∧ stop ≤ cells.length then .ok ((cells.drop start).take (stop - start))
  else .error .outOfRange

variable {a b : Nat}

theorem add_ok (fits : a + b < limit) : add a b = .ok (a + b) :=
  if_pos fits

theorem mul_ok (fits : a * b < limit) : mul a b = .ok (a * b) :=
  if_pos fits

theorem addU32_ok (fits : a + b < 2 ^ 32) : addU32 a b = .ok (a + b) :=
  if_pos fits

theorem mulU32_ok (fits : a * b < 2 ^ 32) : mulU32 a b = .ok (a * b) :=
  if_pos fits

theorem i32_ok {value : Int} (fits : -2 ^ 31 ≤ value ∧ value < 2 ^ 31) : i32 value = .ok value :=
  if_pos fits

theorem div_ok (positive : 0 < b) : div a b = .ok (a / b) :=
  if_neg (Nat.ne_of_gt positive)

variable {α : Type}

theorem guarded_eq_ok {guard : Prop} [Decidable guard] {panic : Panic} {value result : α} :
    (if guard then Except.ok value else Except.error panic : Checked α) = .ok result ↔
      guard ∧ result = value := by
  split
  · rename_i holds
    exact ⟨fun done => ⟨holds, (Except.ok.inj done).symm⟩,
      fun both => congrArg Except.ok both.2.symm⟩
  · rename_i fails
    exact ⟨fun never => (nomatch never), fun both => absurd both.1 fails⟩

theorem add_eq_ok {sum : Nat} : add a b = .ok sum ↔ a + b < limit ∧ sum = a + b := guarded_eq_ok

theorem mul_eq_ok {product : Nat} : mul a b = .ok product ↔ a * b < limit ∧ product = a * b :=
  guarded_eq_ok

theorem addU32_eq_ok {sum : Nat} : addU32 a b = .ok sum ↔ a + b < 2 ^ 32 ∧ sum = a + b :=
  guarded_eq_ok

theorem mulU32_eq_ok {product : Nat} :
    mulU32 a b = .ok product ↔ a * b < 2 ^ 32 ∧ product = a * b :=
  guarded_eq_ok

theorem bind_eq_ok {β : Type} {first : Checked α} {next : α → Checked β} {result : β}
    (done : (first >>= next) = .ok result) :
    ∃ value, first = .ok value ∧ next value = .ok result := by
  cases first with
  | error panic => cases done
  | ok value => exact ⟨value, rfl, done⟩

theorem sub_ok (ordered : b ≤ a) : sub a b = .ok (a - b) :=
  if_pos ordered

theorem inside_ok {condition : Prop} [Decidable condition] (holds : condition) :
    inside condition = .ok () :=
  if_pos holds

theorem index_ok {cells : List α} {i : Nat} {cell : α} (found : cells[i]? = some cell) :
    index cells i = .ok cell := by
  rw [index, found]

theorem range_ok {cells : List α} {start stop : Nat} (ordered : start ≤ stop ∧ stop ≤ cells.length) :
    range cells start stop = .ok ((cells.drop start).take (stop - start)) :=
  if_pos ordered

theorem mapM_ok {α β : Type} {step : α → Checked β} {value : α → β} {items : List α}
    (each : ∀ item, item ∈ items → step item = .ok (value item)) :
    items.mapM step = .ok (items.map value) := by
  induction items with
  | nil => rfl
  | cons item rest ih =>
      rw [List.mapM_cons, each item List.mem_cons_self,
        ih (fun other mem => each other (List.mem_cons_of_mem item mem))]
      rfl

theorem mapM_each {β : Type} {step : α → Checked β} {items : List α} {values : List β}
    (done : items.mapM step = .ok values) :
    ∀ item, item ∈ items → ∃ value, step item = .ok value ∧ value ∈ values := by
  induction items generalizing values with
  | nil => exact fun item mem => nomatch mem
  | cons first rest ih =>
      rw [List.mapM_cons] at done
      obtain ⟨head, atFirst, others⟩ := bind_eq_ok done
      obtain ⟨tail, atRest, finished⟩ := bind_eq_ok others
      cases finished
      intro item mem
      rcases List.mem_cons.mp mem with rfl | later
      · exact ⟨head, atFirst, List.mem_cons_self⟩
      · obtain ⟨value, done, inTail⟩ := ih atRest item later
        exact ⟨value, done, List.mem_cons_of_mem _ inTail⟩

end Checked

abbrev Routine (ε α : Type) : Type := ExceptT ε Checked α

namespace Routine

variable {ε α β : Type}

def lift (checked : Checked α) : Routine ε α :=
  ExceptT.lift checked

def orReturn (result : Except ε α) : Routine ε α :=
  ExceptT.mk (.ok result)

def Completes (routine : Routine ε α) (result : Except ε α) : Prop :=
  routine.run = .ok result

theorem completes_pure (value : α) : Completes (pure value : Routine ε α) (.ok value) := rfl

theorem completes_orReturn (result : Except ε α) : Completes (orReturn result) result := rfl

variable {next : α → Routine ε β}

theorem Completes.bind {first : Routine ε α} {result : Except ε α} {follow : α → Except ε β}
    (before : first.Completes result)
    (after : ∀ value, result = .ok value → (next value).Completes (follow value)) :
    (first >>= next).Completes (result >>= follow) := by
  have unfolded : (first >>= next).run = first.run >>= fun
      | .ok value => (next value).run
      | .error failure => .ok (.error failure) := rfl
  unfold Completes at *
  rw [unfolded, before]
  cases result with
  | error failure => rfl
  | ok value => exact after value rfl

theorem Completes.lift {checked : Checked α} {value : α} {result : Except ε β}
    (fine : checked = .ok value) (after : (next value).Completes result) :
    (Routine.lift checked >>= next).Completes result := by
  subst fine
  exact after

theorem Completes.returned {value : α} {result : Except ε β} (after : (next value).Completes result) :
    (orReturn (.ok value) >>= next).Completes result :=
  after

end Routine
