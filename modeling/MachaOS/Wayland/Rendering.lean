/-
What the compositor reads when it draws a client's buffer (`render` in `src/wayland.rs`).

The arithmetic is that of the source, in `u32` or `usize`, and panics where it leaves its type.  A
row is read as one slice of pixels.  The copy of the pixels into the back buffer is left out, and so
is the heap that holds them.
-/

import MachaOS.Lib.Checked
import MachaOS.Shm

namespace MachaOS.Wayland

open Checked (addU32 mulU32)

def surfaceX : Nat := 40
def surfaceY : Nat := 40

structure Drawn where
  rows : List (Nat × Nat)
  pixels : List (BitVec 32)

/-- `gfx::blit` of `srcLen` pixels onto a surface of the given size. -/
def blit (surfaceW surfaceH dstX dstY srcLen srcW srcH : Nat) : Checked Unit := do
  let right ← addU32 dstX srcW
  let bottom ← addU32 dstY srcH
  let xEnd := min right surfaceW
  let yEnd := min bottom surfaceH
  if xEnd ≤ dstX ∨ yEnd ≤ dstY then pure ()
  else do
    let _ ← (List.range (yEnd - dstY)).mapM (fun y => do
      let start ← mulU32 y srcW
      Checked.inside (start + (xEnd - dstX) ≤ srcLen))
    pure ()

/-- One row of the buffer, copied to its place among `count` pixels. -/
def readRow (mem : ByteMemory) (phys offset stride width count row : Nat) :
    Checked ((Nat × Nat) × List (BitVec 32)) := do
  let base ← Checked.add phys offset
  let skipped ← Checked.mul row stride
  let rowPhys ← Checked.add base skipped
  let start ← Checked.mul row width
  let below ← Checked.add row 1
  let stop ← Checked.mul below width
  Checked.inside (start ≤ stop ∧ stop ≤ count)
  pure ((rowPhys, 4 * width), (List.range width).map (fun i => mem.readU32 (rowPhys + 4 * i)))

def render (mem : ByteMemory) (table : Shm.Table) (surfaceW surfaceH shmId poolSize offset width
    height stride : Nat) : Checked (Option Drawn) :=
  match Shm.physOf table shmId with
  | none => pure none
  | some phys => do
      let rows ← Checked.mul stride height
      let need ← Checked.add offset rows
      if need > poolSize then pure none
      else do
        let count ← mulU32 width height
        let read ← (List.range height).mapM (readRow mem phys offset stride width count)
        blit surfaceW surfaceH surfaceX surfaceY count width height
        pure (some { rows := read.map Prod.fst, pixels := (read.map Prod.snd).flatten })

def ReadsInside (table : Shm.Table) (shmId : Nat) (rendered : Checked (Option Drawn)) : Prop :=
  ∃ outcome, rendered = .ok outcome ∧
    ∀ drawn, outcome = some drawn → ∀ row, row ∈ drawn.rows → 0 < row.2 →
      ∃ obj, table.lookup shmId = some obj ∧
        obj.phys ≤ row.1 ∧ row.1 + row.2 ≤ obj.phys + obj.size

structure Contained (obj : Shm.SharedMem) (offset width height stride : Nat) : Prop where
  count : width * height < 2 ^ 32
  right : surfaceX + width < 2 ^ 32
  bottom : surfaceY + height < 2 ^ 32
  addressed : 0 < height → obj.phys + offset + stride * (height - 1) < 2 ^ 64
  last : 0 < height → 0 < width → offset + stride * (height - 1) + 4 * width ≤ obj.size

variable {mem : ByteMemory} {table : Shm.Table} {obj : Shm.SharedMem}
  {surfaceW surfaceH shmId phys poolSize offset width height stride row : Nat}

theorem row_before_last (inside : row < height) : stride * row ≤ stride * (height - 1) :=
  Nat.mul_le_mul_left stride (by omega)

theorem row_in_count (inside : row < height) :
    row * width ≤ (row + 1) * width ∧ (row + 1) * width ≤ width * height := by
  constructor
  · exact Nat.mul_le_mul_right width (Nat.le_succ row)
  · rw [Nat.mul_comm width height]
    exact Nat.mul_le_mul_right width inside

theorem readRow_ok (inside : row < height) (small : height < 2 ^ 32)
    (count : width * height < 2 ^ 32)
    (addressed : phys + offset + stride * (height - 1) < 2 ^ 64) :
    readRow mem phys offset stride width (width * height) row =
      .ok ((phys + offset + row * stride, 4 * width),
        (List.range width).map (fun i => mem.readU32 (phys + offset + row * stride + 4 * i))) := by
  have ordered := @row_before_last height stride row inside
  have slots := @row_in_count width height row inside
  have limit : Checked.limit = 2 ^ 64 := rfl
  rw [Nat.mul_comm stride row] at ordered
  unfold readRow
  rw [Checked.add_ok (show phys + offset < Checked.limit by omega),
    Checked.mul_ok (show row * stride < Checked.limit by omega)]
  change (Checked.add (phys + offset) (row * stride) >>= _) = _
  rw [Checked.add_ok (show phys + offset + row * stride < Checked.limit by omega),
    Checked.mul_ok (show row * width < Checked.limit by omega),
    Checked.add_ok (show row + 1 < Checked.limit by omega)]
  change (Checked.mul (row + 1) width >>= _) = _
  rw [Checked.mul_ok (show (row + 1) * width < Checked.limit by omega)]
  change (Checked.inside (row * width ≤ (row + 1) * width ∧ (row + 1) * width ≤ width * height) >>=
    _) = _
  rw [Checked.inside_ok slots]
  rfl

theorem readRow_place {count : Nat} {read : (Nat × Nat) × List (BitVec 32)}
    (done : readRow mem phys offset stride width count row = .ok read) :
    phys + offset + row * stride < 2 ^ 64 ∧
      read.1 = (phys + offset + row * stride, 4 * width) := by
  unfold readRow at done
  obtain ⟨base, isBase, done⟩ := Checked.bind_eq_ok done
  obtain ⟨skipped, isSkipped, done⟩ := Checked.bind_eq_ok done
  obtain ⟨rowPhys, isRow, done⟩ := Checked.bind_eq_ok done
  obtain ⟨start, -, done⟩ := Checked.bind_eq_ok done
  obtain ⟨below, -, done⟩ := Checked.bind_eq_ok done
  obtain ⟨stop, -, done⟩ := Checked.bind_eq_ok done
  obtain ⟨_, -, done⟩ := Checked.bind_eq_ok done
  cases done
  obtain ⟨fits, rfl⟩ := Checked.add_eq_ok.mp isRow
  obtain ⟨-, rfl⟩ := Checked.add_eq_ok.mp isBase
  obtain ⟨-, rfl⟩ := Checked.mul_eq_ok.mp isSkipped
  exact ⟨fits, rfl⟩

theorem blit_ok {dstX dstY srcW srcH : Nat} (count : srcW * srcH < 2 ^ 32)
    (right : dstX + srcW < 2 ^ 32) (bottom : dstY + srcH < 2 ^ 32) :
    blit surfaceW surfaceH dstX dstY (srcW * srcH) srcW srcH = .ok () := by
  unfold blit
  rw [Checked.addU32_ok right, Checked.addU32_ok bottom]
  change (if min (dstX + srcW) surfaceW ≤ dstX ∨ min (dstY + srcH) surfaceH ≤ dstY then _ else _) = _
  split
  · rfl
  · have each : ∀ y, y ∈ List.range (min (dstY + srcH) surfaceH - dstY) →
        (do
          let start ← mulU32 y srcW
          Checked.inside (start + (min (dstX + srcW) surfaceW - dstX) ≤ srcW * srcH)) = .ok () := by
      intro y member
      rw [List.mem_range] at member
      have inside : y < srcH := by omega
      have slots := @row_in_count srcW srcH y inside
      rw [Nat.succ_mul] at slots
      rw [Checked.mulU32_ok (show y * srcW < 2 ^ 32 by omega)]
      change Checked.inside (y * srcW + (min (dstX + srcW) surfaceW - dstX) ≤ srcW * srcH) = _
      exact Checked.inside_ok (by omega)
    rw [@Checked.mapM_ok Nat Unit _ (fun _ => ()) _ each]
    rfl

theorem blit_sums {dstX dstY srcLen srcW srcH : Nat}
    (done : blit surfaceW surfaceH dstX dstY srcLen srcW srcH = .ok ()) :
    dstX + srcW < 2 ^ 32 ∧ dstY + srcH < 2 ^ 32 := by
  unfold blit at done
  obtain ⟨right, isRight, done⟩ := Checked.bind_eq_ok done
  obtain ⟨bottom, isBottom, done⟩ := Checked.bind_eq_ok done
  exact ⟨(Checked.addU32_eq_ok.mp isRight).1, (Checked.addU32_eq_ok.mp isBottom).1⟩

def buffer (mem : ByteMemory) (phys offset width height stride : Nat) : Drawn :=
  { rows := (List.range height).map (fun row => (phys + offset + row * stride, 4 * width))
    pixels := ((List.range height).map (fun row =>
      (List.range width).map (fun i => mem.readU32 (phys + offset + row * stride + 4 * i)))).flatten }

section

variable (found : table.lookup shmId = some obj)
include found

theorem render_present (need : offset + stride * height < 2 ^ 64) :
    render mem table surfaceW surfaceH shmId poolSize offset width height stride =
      (if offset + stride * height > poolSize then pure none
      else do
        let count ← mulU32 width height
        let read ← (List.range height).mapM (readRow mem obj.phys offset stride width count)
        blit surfaceW surfaceH surfaceX surfaceY count width height
        pure (some { rows := read.map Prod.fst, pixels := (read.map Prod.snd).flatten })) := by
  have phys : Shm.physOf table shmId = some obj.phys := by
    rw [Shm.physOf, found, Option.map_some]
  have limit : Checked.limit = 2 ^ 64 := rfl
  unfold render
  rw [phys]
  dsimp only
  rw [Checked.mul_ok (show stride * height < Checked.limit by omega)]
  change (Checked.add offset (stride * height) >>= _) = _
  rw [Checked.add_ok (show offset + stride * height < Checked.limit by omega)]
  rfl

theorem render_ok (small : height < 2 ^ 32) (need : offset + stride * height < 2 ^ 64)
    (covered : offset + stride * height ≤ poolSize)
    (contained : Contained obj offset width height stride) :
    render mem table surfaceW surfaceH shmId poolSize offset width height stride =
      .ok (some (buffer mem obj.phys offset width height stride)) := by
  have rows := @Checked.mapM_ok Nat _ (readRow mem obj.phys offset stride width (width * height))
    (fun row => ((obj.phys + offset + row * stride, 4 * width),
      (List.range width).map (fun i => mem.readU32 (obj.phys + offset + row * stride + 4 * i))))
    (List.range height) (by
      intro row member
      rw [List.mem_range] at member
      exact readRow_ok member small contained.count (contained.addressed (by omega)))
  rw [render_present found need, if_neg (Nat.not_lt.mpr covered), Checked.mulU32_ok contained.count]
  change ((List.range height).mapM
    (readRow mem obj.phys offset stride width (width * height)) >>= _) = _
  rw [rows]
  change (blit surfaceW surfaceH surfaceX surfaceY (width * height) width height >>= _) = _
  rw [blit_ok contained.count contained.right contained.bottom]
  change Except.ok (some _) = Except.ok (some _)
  rw [List.map_map, List.map_map]
  rfl

theorem render_drawn {outcome : Option Drawn} (covered : offset + stride * height ≤ poolSize)
    (done : render mem table surfaceW surfaceH shmId poolSize offset width height stride =
      .ok outcome) :
    width * height < 2 ^ 32 ∧ surfaceX + width < 2 ^ 32 ∧ surfaceY + height < 2 ^ 32 ∧
      ∃ drawn, outcome = some drawn ∧ ∀ row, row < height →
        obj.phys + offset + row * stride < 2 ^ 64 ∧
          (obj.phys + offset + row * stride, 4 * width) ∈ drawn.rows := by
  have phys : Shm.physOf table shmId = some obj.phys := by
    rw [Shm.physOf, found, Option.map_some]
  unfold render at done
  rw [phys] at done
  dsimp only at done
  obtain ⟨rows, isRows, done⟩ := Checked.bind_eq_ok done
  obtain ⟨need, isNeed, done⟩ := Checked.bind_eq_ok done
  obtain ⟨-, rfl⟩ := Checked.mul_eq_ok.mp isRows
  obtain ⟨-, rfl⟩ := Checked.add_eq_ok.mp isNeed
  rw [if_neg (Nat.not_lt.mpr covered)] at done
  obtain ⟨count, isCount, done⟩ := Checked.bind_eq_ok done
  obtain ⟨fits, rfl⟩ := Checked.mulU32_eq_ok.mp isCount
  obtain ⟨read, isRead, done⟩ := Checked.bind_eq_ok done
  obtain ⟨_, blitted, done⟩ := Checked.bind_eq_ok done
  cases done
  obtain ⟨right, bottom⟩ := blit_sums blitted
  refine ⟨fits, right, bottom, _, rfl, ?_⟩
  intro row inside
  obtain ⟨one, isOne, member⟩ := Checked.mapM_each isRead row (List.mem_range.mpr inside)
  obtain ⟨addressed, place⟩ := readRow_place isOne
  refine ⟨addressed, ?_⟩
  rw [← place]
  exact List.mem_map_of_mem member

theorem render_small (need : offset + stride * height < 2 ^ 64)
    (uncovered : poolSize < offset + stride * height) :
    render mem table surfaceW surfaceH shmId poolSize offset width height stride = .ok none := by
  rw [render_present found need, if_pos uncovered]
  rfl

end

theorem need_fits (offset height stride : BitVec 32) :
    offset.toNat + stride.toNat * height.toNat < 2 ^ 64 := by
  have product : stride.toNat * height.toNat ≤ (2 ^ 32 - 1) * (2 ^ 32 - 1) :=
    Nat.mul_le_mul (by omega) (by omega)
  omega

def onePage : Shm.Table := [some { phys := 0x5000000, pages := 1, size := 4096, refcount := 1 }]

end MachaOS.Wayland
