/-
Byte-addressed memory with little-endian 64-bit words and bulk writes.

Memory is total: every address holds a byte.  The lemmas are the frame rules
of the accessors: what a write changes, and that it changes nothing else.
-/

import Mathlib.Data.BitVec
import Mathlib.Tactic.Common
import Mathlib.Tactic.IntervalCases

def ByteMemory : Type :=
  Nat → BitVec 8

namespace ByteMemory

def readU64 (mem : ByteMemory) (addr : Nat) : BitVec 64 :=
  mem (addr + 7) ++ mem (addr + 6) ++ mem (addr + 5) ++ mem (addr + 4) ++
    mem (addr + 3) ++ mem (addr + 2) ++ mem (addr + 1) ++ mem addr

def readU16 (mem : ByteMemory) (addr : Nat) : BitVec 16 :=
  mem (addr + 1) ++ mem addr

def readU32 (mem : ByteMemory) (addr : Nat) : BitVec 32 :=
  mem (addr + 3) ++ mem (addr + 2) ++ mem (addr + 1) ++ mem addr

def leBytes (word : BitVec 32) : List (BitVec 8) :=
  (List.range 4).map (fun i => (word >>> (8 * i)).setWidth 8)

def writeU64 (mem : ByteMemory) (addr : Nat) (word : BitVec 64) : ByteMemory :=
  fun at' =>
    if addr ≤ at' ∧ at' < addr + 8 then
      word.extractLsb' (8 * (at' - addr)) 8
    else mem at'

def writeByte (mem : ByteMemory) (addr : Nat) (byte : BitVec 8) : ByteMemory :=
  fun at' => if at' = addr then byte else mem at'

def writeBytes (mem : ByteMemory) (addr : Nat) (bytes : List (BitVec 8)) : ByteMemory :=
  fun at' =>
    if addr ≤ at' ∧ at' < addr + bytes.length then bytes.getD (at' - addr) 0#8
    else mem at'

/-- The two memories hold the same bytes in `[base, base + len)`. -/
def SameOn (mem mem' : ByteMemory) (base len : Nat) : Prop :=
  ∀ at', base ≤ at' → at' < base + len → mem' at' = mem at'

theorem getLsbD_readU64 (mem : ByteMemory) (addr index : Nat) (bounded : index < 64) :
    (mem.readU64 addr).getLsbD index =
      (mem (addr + index / 8)).getLsbD (index % 8) := by
  unfold readU64
  simp only [BitVec.getLsbD_append]
  by_cases low : index < 8
  · have byteZero : index / 8 = 0 := by omega
    have bitSame : index % 8 = index := by omega
    simp [low, byteZero, bitSame]
  · interval_cases index <;> simp

@[simp] theorem readU64_writeU64_self (mem : ByteMemory) (addr : Nat) (word : BitVec 64) :
    (mem.writeU64 addr word).readU64 addr = word := by
  apply BitVec.eq_of_getLsbD_eq
  intro index bounded
  rw [getLsbD_readU64 _ _ _ bounded]
  have byteBound : index / 8 < 8 := by omega
  have bitBound : index % 8 < 8 := by omega
  have recombine : 8 * (index / 8) + index % 8 = index := by omega
  simp [writeU64, byteBound, bitBound, recombine]

variable {mem mem' : ByteMemory} {addr : Nat}

theorem readU64_congr (same : SameOn mem mem' addr 8) :
    mem'.readU64 addr = mem.readU64 addr := by
  unfold readU64
  rw [same addr, same (addr + 1), same (addr + 2), same (addr + 3),
    same (addr + 4), same (addr + 5), same (addr + 6), same (addr + 7)] <;> omega

theorem writeU64_sameOn (mem : ByteMemory) (addr base len : Nat) (word : BitVec 64)
    (apart : addr + 8 ≤ base ∨ base + len ≤ addr) :
    SameOn mem (mem.writeU64 addr word) base len := by
  intro at' lower upper
  have outside : ¬(addr ≤ at' ∧ at' < addr + 8) := by omega
  simp [writeU64, outside]

theorem readU64_writeU64_of_apart (mem : ByteMemory) (addr other : Nat) (word : BitVec 64)
    (apart : addr + 8 ≤ other ∨ other + 8 ≤ addr) :
    (mem.writeU64 addr word).readU64 other = mem.readU64 other :=
  readU64_congr (writeU64_sameOn mem addr other 8 word apart)

theorem writeByte_sameOn (mem : ByteMemory) (addr base len : Nat) (byte : BitVec 8)
    (apart : addr < base ∨ base + len ≤ addr) :
    SameOn mem (mem.writeByte addr byte) base len := by
  intro at' lower upper
  have different : at' ≠ addr := by omega
  simp [writeByte, different]

theorem SameOn.refl (mem : ByteMemory) (base len : Nat) : SameOn mem mem base len :=
  fun _ _ _ => rfl

theorem SameOn.trans {mem'' : ByteMemory} {base len : Nat} (first : SameOn mem mem' base len)
    (second : SameOn mem' mem'' base len) : SameOn mem mem'' base len :=
  fun at' lower upper => (second at' lower upper).trans (first at' lower upper)

theorem SameOn.mono {base len inner innerLen : Nat} (same : SameOn mem mem' base len)
    (starts : base ≤ inner) (ends : inner + innerLen ≤ base + len) :
    SameOn mem mem' inner innerLen :=
  fun at' lower upper => same at' (by omega) (by omega)

@[simp] theorem writeBytes_nil (mem : ByteMemory) (addr : Nat) :
    mem.writeBytes addr [] = mem := by
  funext at'
  have empty : ¬(addr ≤ at' ∧ at' < addr + 0) := by omega
  simp only [writeBytes, List.length_nil, if_neg empty]

theorem writeBytes_cons (mem : ByteMemory) (addr : Nat) (byte : BitVec 8)
    (bytes : List (BitVec 8)) :
    mem.writeBytes addr (byte :: bytes) =
      (mem.writeByte addr byte).writeBytes (addr + 1) bytes := by
  funext at'
  simp only [writeBytes, writeByte, List.length_cons]
  by_cases later : addr + 1 ≤ at' ∧ at' < addr + 1 + bytes.length
  · have place : at' - addr = at' - (addr + 1) + 1 := by omega
    rw [if_pos later, if_pos (by omega), place, List.getD_cons_succ]
  · rw [if_neg later]
    by_cases here : at' = addr
    · subst here
      rw [if_pos (by omega), if_pos rfl, Nat.sub_self, List.getD_cons_zero]
    · rw [if_neg (by omega), if_neg here]

theorem readU64_writeBytes_zero (mem : ByteMemory) {len other : Nat} (starts : addr ≤ other)
    (ends : other + 8 ≤ addr + len) :
    (mem.writeBytes addr (List.replicate len 0#8)).readU64 other = 0#64 := by
  apply BitVec.eq_of_getLsbD_eq
  intro index inside
  rw [getLsbD_readU64 _ _ _ inside]
  have within : addr ≤ other + index / 8 ∧ other + index / 8 < addr + len := by omega
  have place : other + index / 8 - addr < len := by omega
  simp [writeBytes, within, place]

theorem extractLsb'_readU32 (mem : ByteMemory) (addr : Nat) {k : Nat} (inside : k < 4) :
    (mem.readU32 addr).extractLsb' (8 * k) 8 = mem (addr + k) := by
  unfold readU32
  apply BitVec.eq_of_getLsbD_eq
  intro bit bound
  simp only [BitVec.getLsbD_extractLsb', bound, decide_true, Bool.true_and, BitVec.getLsbD_append]
  interval_cases k
  all_goals interval_cases bit <;> simp

theorem readU16_congr (same : SameOn mem mem' addr 2) :
    mem'.readU16 addr = mem.readU16 addr := by
  unfold readU16
  rw [same addr, same (addr + 1)] <;> omega

theorem readU32_congr (same : SameOn mem mem' addr 4) :
    mem'.readU32 addr = mem.readU32 addr := by
  unfold readU32
  rw [same addr, same (addr + 1), same (addr + 2), same (addr + 3)] <;> omega

theorem eq_of_bytes {word word' : BitVec 32}
    (same : ∀ k, k < 4 → word.extractLsb' (8 * k) 8 = word'.extractLsb' (8 * k) 8) :
    word = word' := by
  apply BitVec.eq_of_getLsbD_eq
  intro bit bound
  have byte := congrArg (fun bytes => bytes.getLsbD (bit % 8)) (same (bit / 8) (by omega))
  have inByte : bit % 8 < 8 := by omega
  have place : 8 * (bit / 8) + bit % 8 = bit := by omega
  simpa [BitVec.getLsbD_extractLsb', inByte, place] using byte

theorem writeBytes_inside (mem : ByteMemory) (addr : Nat) {bytes : List (BitVec 8)} {k : Nat}
    (inside : k < bytes.length) : mem.writeBytes addr bytes (addr + k) = bytes.getD k 0#8 := by
  unfold writeBytes
  rw [if_pos (by omega), Nat.add_sub_cancel_left]

theorem writeBytes_outside (mem : ByteMemory) {at' : Nat} {bytes : List (BitVec 8)}
    (outside : at' < addr ∨ addr + bytes.length ≤ at') :
    mem.writeBytes addr bytes at' = mem at' := by
  unfold writeBytes
  rw [if_neg (by omega)]

def writeChunks (mem : ByteMemory) : List (Nat × List (BitVec 8)) → ByteMemory
  | [] => mem
  | chunk :: rest => (mem.writeBytes chunk.1 chunk.2).writeChunks rest

def ChunksApart (chunk other : Nat × List (BitVec 8)) : Prop :=
  chunk.1 + chunk.2.length ≤ other.1 ∨ other.1 + other.2.length ≤ chunk.1

theorem writeChunks_outside {chunks : List (Nat × List (BitVec 8))} {at' : Nat}
    (outside : ∀ chunk, chunk ∈ chunks → at' < chunk.1 ∨ chunk.1 + chunk.2.length ≤ at') :
    mem.writeChunks chunks at' = mem at' := by
  induction chunks generalizing mem with
  | nil => rfl
  | cons chunk rest ih =>
      rw [writeChunks, ih (fun other member => outside other (List.mem_cons_of_mem chunk member)),
        writeBytes_outside mem (outside chunk List.mem_cons_self)]

theorem writeChunks_inside {mem : ByteMemory} {chunks : List (Nat × List (BitVec 8))}
    {chunk : Nat × List (BitVec 8)} (apart : chunks.Pairwise ChunksApart) (member : chunk ∈ chunks)
    {k : Nat} (inside : k < chunk.2.length) :
    mem.writeChunks chunks (chunk.1 + k) = chunk.2.getD k 0#8 := by
  induction chunks generalizing mem with
  | nil => cases member
  | cons first rest ih =>
      obtain ⟨fromFirst, restApart⟩ := List.pairwise_cons.mp apart
      rcases List.mem_cons.mp member with rfl | later
      · rw [writeChunks, writeChunks_outside, writeBytes_inside mem _ inside]
        intro other isOther
        have separate := fromFirst other isOther
        unfold ChunksApart at separate
        omega
      · exact ih restApart later

end ByteMemory
