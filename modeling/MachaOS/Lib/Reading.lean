/-
Reading words and strings out of a partly readable memory.

A reader says which byte an address shows, if any.  `Holds` places a list of
bytes at an address; the lemmas turn that into what a program finds there:
little-endian words, NUL-terminated strings, and regions that follow each other.
-/

import Mathlib.Data.List.Forall2
import Mathlib.Data.BitVec
import Mathlib.Tactic.Common

namespace Reading

open List

abbrev Reader : Type :=
  Nat → Option (BitVec 8)

variable {read : Reader}

def Holds (read : Reader) (addr : Nat) (bytes : List (BitVec 8)) : Prop :=
  ∀ k, k < bytes.length → read (addr + k) = bytes[k]?

theorem Holds.left {addr : Nat} {before after : List (BitVec 8)}
    (holds : Holds read addr (before ++ after)) : Holds read addr before := by
  intro k inside
  rw [holds k (by rw [length_append]; omega), List.getElem?_append_left inside]

theorem Holds.right {addr : Nat} {before after : List (BitVec 8)}
    (holds : Holds read addr (before ++ after)) :
    Holds read (addr + before.length) after := by
  intro k inside
  have found := holds (before.length + k) (by rw [length_append]; omega)
  rw [List.getElem?_append_right (Nat.le_add_right _ _), Nat.add_sub_cancel_left] at found
  rw [← found, Nat.add_assoc]

theorem Holds.head {addr : Nat} {byte : BitVec 8} {rest : List (BitVec 8)}
    (holds : Holds read addr (byte :: rest)) :
    read addr = some byte ∧ Holds read (addr + 1) rest := by
  refine ⟨holds 0 (Nat.succ_pos _), ?_⟩
  exact @Holds.right read addr [byte] rest holds

/-- The `count` low bytes of a number, least significant first. -/
def leBytes (count value : Nat) : List (BitVec 8) :=
  (List.range count).map (fun index => BitVec.ofNat 8 (value / 256 ^ index))

def readLe (read : Reader) (addr : Nat) : Nat → Option Nat
  | 0 => some 0
  | count + 1 => do
      let low ← read addr
      let high ← readLe read (addr + 1) count
      pure (low.toNat + 256 * high)

@[simp] theorem length_leBytes (count value : Nat) : (leBytes count value).length = count := by
  simp [leBytes]

theorem leBytes_succ (count value : Nat) :
    leBytes (count + 1) value = BitVec.ofNat 8 value :: leBytes count (value / 256) := by
  unfold leBytes
  rw [range_succ_eq_map, map_cons, map_map, Nat.pow_zero, Nat.div_one]
  congr 1
  apply map_congr_left
  intro index _
  rw [Function.comp_apply, Nat.pow_succ, Nat.mul_comm, Nat.div_div_eq_div_mul]

theorem readLe_of_holds {addr count value : Nat}
    (holds : Holds read addr (leBytes count value)) :
    readLe read addr count = some (value % 256 ^ count) := by
  induction count generalizing addr value with
  | zero => rw [readLe, Nat.pow_zero, Nat.mod_one]
  | succ count ih =>
      rw [leBytes_succ] at holds
      obtain ⟨first, rest⟩ := holds.head
      have split : value % 256 ^ (count + 1) = value % 256 + 256 * (value / 256 % 256 ^ count) := by
        rw [Nat.pow_succ, Nat.mul_comm, Nat.mod_mul]
      rw [readLe, first, ih rest, split]
      simp

def Words (read : Reader) (addr : Nat) (values : List Nat) : Prop :=
  ∀ index value, values[index]? = some value → readLe read (addr + 8 * index) 8 = some value

theorem words_of_holds {addr : Nat} {values : List Nat}
    (holds : Holds read addr (values.flatMap (leBytes 8)))
    (small : ∀ value, value ∈ values → value < 256 ^ 8) : Words read addr values := by
  induction values generalizing addr with
  | nil =>
      intro index value found
      cases found
  | cons first rest ih =>
      rw [flatMap_cons] at holds
      have later := holds.right
      rw [length_leBytes] at later
      intro index value found
      cases index with
      | zero =>
          obtain rfl := Option.some.inj found
          rw [Nat.mul_zero, Nat.add_zero, readLe_of_holds holds.left,
            Nat.mod_eq_of_lt (small first mem_cons_self)]
      | succ index =>
          have place : addr + 8 * (index + 1) = addr + 8 + 8 * index := by omega
          rw [place]
          exact ih later (fun other mem => small other (mem_cons_of_mem first mem)) index
            value found

def CString (read : Reader) (addr : Nat) (text : List (BitVec 8)) : Prop :=
  Holds read addr (text ++ [0#8]) ∧ 0#8 ∉ text

def terminated (texts : List (List (BitVec 8))) : List (BitVec 8) :=
  texts.flatMap (fun text => text ++ [0#8])

def placed : List (List (BitVec 8)) → Nat → List Nat
  | [], _ => []
  | text :: rest, base => base :: placed rest (base + (text.length + 1))

theorem placed_map (texts : List (List (BitVec 8))) (base shift : Nat) :
    (placed texts base).map (fun offset => shift + offset) = placed texts (shift + base) := by
  induction texts generalizing base with
  | nil => rfl
  | cons text rest ih => rw [placed, map_cons, ih, placed, Nat.add_assoc]

theorem length_placed (texts : List (List (BitVec 8))) (base : Nat) :
    (placed texts base).length = texts.length := by
  induction texts generalizing base with
  | nil => rfl
  | cons text rest ih => rw [placed, length_cons, ih, length_cons]

theorem length_terminated (texts : List (List (BitVec 8))) :
    (terminated texts).length = (texts.map (fun text => text.length + 1)).sum := by
  induction texts with
  | nil => rfl
  | cons text rest ih =>
      rw [terminated, flatMap_cons, length_append, map_cons, sum_cons, ← ih, length_append]
      rfl

theorem mem_placed {texts : List (List (BitVec 8))} {base place : Nat}
    (mem : place ∈ placed texts base) :
    base ≤ place ∧ place < base + (terminated texts).length := by
  induction texts generalizing base with
  | nil => cases mem
  | cons text rest ih =>
      rw [length_terminated, map_cons, sum_cons, ← length_terminated]
      rcases mem_cons.mp mem with rfl | later
      · omega
      · have inside := ih later
        omega

theorem cstrings_of_holds {texts : List (List (BitVec 8))} {base : Nat}
    (holds : Holds read base (terminated texts)) (free : ∀ text, text ∈ texts → 0#8 ∉ text) :
    List.Forall₂ (CString read) (placed texts base) texts := by
  induction texts generalizing base with
  | nil => exact List.Forall₂.nil
  | cons text rest ih =>
      rw [terminated, flatMap_cons] at holds
      have later := holds.right
      rw [length_append] at later
      exact List.Forall₂.cons ⟨holds.left, free text mem_cons_self⟩
        (ih later (fun other mem => free other (mem_cons_of_mem text mem)))

def tiles (base : Nat) : List Nat → List (Nat × Nat)
  | [] => []
  | length :: rest => (base, length) :: tiles (base + length) rest

/-- The first ends before the second starts, or the other way round. -/
def RegionsApart (region other : Nat × Nat) : Prop :=
  region.1 + region.2 ≤ other.1 ∨ other.1 + other.2 ≤ region.1

theorem tiles_append (base : Nat) (before after : List Nat) :
    tiles base (before ++ after) = tiles base before ++ tiles (base + before.sum) after := by
  induction before generalizing base with
  | nil => rfl
  | cons length rest ih =>
      rw [cons_append, tiles, ih, tiles, cons_append, sum_cons, Nat.add_assoc]

theorem tiles_within {base : Nat} {lengths : List Nat} {region : Nat × Nat}
    (mem : region ∈ tiles base lengths) :
    base ≤ region.1 ∧ region.1 + region.2 ≤ base + lengths.sum := by
  induction lengths generalizing base with
  | nil => cases mem
  | cons length rest ih =>
      rw [sum_cons]
      rcases mem_cons.mp mem with rfl | later
      · dsimp only
        omega
      · have inside := ih later
        omega

theorem tiles_apart (base : Nat) (lengths : List Nat) :
    (tiles base lengths).Pairwise RegionsApart := by
  induction lengths generalizing base with
  | nil => exact List.Pairwise.nil
  | cons length rest ih =>
      refine List.Pairwise.cons ?_ (ih (base + length))
      intro other mem
      exact Or.inl (tiles_within mem).1

theorem zip_placed (texts : List (List (BitVec 8))) (base : Nat) :
    (placed texts base).zip (texts.map (fun text => text.length + 1)) =
      tiles base (texts.map (fun text => text.length + 1)) := by
  induction texts generalizing base with
  | nil => rfl
  | cons text rest ih => rw [placed, map_cons, zip_cons_cons, ih, tiles]

end Reading
