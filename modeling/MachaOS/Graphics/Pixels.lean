/-
Pixels: the bytes of one, and its three colour channels.
-/

import MachaOS.Desktop.Framebuffer
import MachaOS.Lib.Checked

namespace MachaOS

namespace Graphics

open Checked
open Desktop (Pixel)

def fromLeBytes (b0 b1 b2 b3 : UInt8) : Pixel :=
  b3.toBitVec ++ b2.toBitVec ++ b1.toBitVec ++ b0.toBitVec

/-- The pixel whose bytes start at `4 * i`. -/
def pixelAt (data : List UInt8) (i : Nat) : Checked Pixel := do
  let b0 ← index data (i * 4)
  let b1 ← index data (i * 4 + 1)
  let b2 ← index data (i * 4 + 2)
  let b3 ← index data (i * 4 + 3)
  .ok (fromLeBytes b0 b1 b2 b3)

theorem pixelAt_ok {data : List UInt8} {i : Nat} (inside : i * 4 + 3 < data.length) :
    ∃ pixel, pixelAt data i = .ok pixel := by
  unfold pixelAt
  rw [index_ok (List.getElem?_eq_getElem (by omega)), index_ok (List.getElem?_eq_getElem (by omega)),
    index_ok (List.getElem?_eq_getElem (by omega)), index_ok (List.getElem?_eq_getElem inside)]
  exact ⟨_, rfl⟩

/-- `(color >> shift) & 0xFF` -/
def channel (color : Pixel) (shift : Nat) : Nat := (color >>> shift).toNat % 256

/-- The loops over the three channels: `out |= (v & 0xFF) << shift`. -/
def fromChannels (value : Nat → Nat) : Pixel :=
  [16, 8, 0].foldl (fun out shift => out ||| BitVec.ofNat 32 (value shift % 256) <<< shift) 0

theorem channel_lt (color : Pixel) (shift : Nat) : channel color shift < 256 :=
  Nat.mod_lt _ (by decide)

theorem toNat_fromChannels (value : Nat → Nat) :
    (fromChannels value).toNat =
      value 16 % 256 * 2 ^ 16 + value 8 % 256 * 2 ^ 8 + value 0 % 256 := by
  have red : value 16 % 256 < 256 := Nat.mod_lt _ (by decide)
  have green : value 8 % 256 < 256 := Nat.mod_lt _ (by decide)
  have blue : value 0 % 256 < 256 := Nat.mod_lt _ (by decide)
  simp only [fromChannels, List.foldl_cons, List.foldl_nil, BitVec.toNat_or, BitVec.toNat_shiftLeft,
    BitVec.toNat_ofNat, Nat.shiftLeft_zero]
  generalize value 16 % 256 = r at red ⊢
  generalize value 8 % 256 = g at green ⊢
  generalize value 0 % 256 = b at blue ⊢
  rw [Nat.mod_eq_of_lt (show r < 2 ^ 32 by omega), Nat.mod_eq_of_lt (show g < 2 ^ 32 by omega),
    Nat.mod_eq_of_lt (show b < 2 ^ 32 by omega), Nat.shiftLeft_eq, Nat.shiftLeft_eq,
    Nat.mod_eq_of_lt (show r * 2 ^ 16 < 2 ^ 32 by omega),
    Nat.mod_eq_of_lt (show g * 2 ^ 8 < 2 ^ 32 by omega),
    Nat.mod_eq_of_lt (show b < 2 ^ 32 by omega)]
  have high : r * 2 ^ 16 ||| g * 2 ^ 8 = 2 ^ 8 * (2 ^ 8 * r + g) := by
    rw [Nat.mul_comm r, ← Nat.two_pow_add_eq_or_of_lt (show g * 2 ^ 8 < 2 ^ 16 by omega)]
    omega
  rw [show BitVec.toNat (0 : Pixel) = 0 from rfl, Nat.zero_or, high,
    ← Nat.two_pow_add_eq_or_of_lt blue]
  omega

theorem channel_fromChannels (value : Nat → Nat) {shift : Nat} (channels : shift ∈ [16, 8, 0]) :
    channel (fromChannels value) shift = value shift % 256 := by
  have red : value 16 % 256 < 256 := Nat.mod_lt _ (by decide)
  have green : value 8 % 256 < 256 := Nat.mod_lt _ (by decide)
  have blue : value 0 % 256 < 256 := Nat.mod_lt _ (by decide)
  simp only [List.mem_cons, List.not_mem_nil, or_false] at channels
  rw [channel, BitVec.toNat_ushiftRight, toNat_fromChannels, Nat.shiftRight_eq_div_pow]
  rcases channels with rfl | rfl | rfl <;> omega

theorem fromChannels_channel (color : Pixel) : fromChannels (channel color) = color &&& 0xFFFFFF := by
  refine BitVec.eq_of_toNat_eq ?_
  have mask : (0xFFFFFF : Pixel).toNat = 2 ^ 24 - 1 := rfl
  rw [toNat_fromChannels, BitVec.toNat_and, mask, Nat.and_two_pow_sub_one_eq_mod]
  simp only [channel, BitVec.toNat_ushiftRight, Nat.shiftRight_eq_div_pow]
  omega

end Graphics

end MachaOS
