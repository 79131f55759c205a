/-
The disk as the filesystem sees it (`src/ata.rs`, one sector at a time).

`disk` holds the bytes of all sectors in a row.  Whether an access succeeds is up
to the hardware: an access may fail at any time, for any sector, and a failed write
leaves anything in the sector it was for.  `clock` counts the writes, so that the
hardware may behave differently every time.
-/

import MachaOS.Lib.ByteMemory
import MachaOS.Lib.Fallible

namespace MachaOS

structure DateTime where
  year : Nat
  month : Nat
  day : Nat
  hour : Nat
  minute : Nat
  second : Nat
deriving DecidableEq

namespace Fat

abbrev Sector : Type := ByteMemory

structure Hardware where
  readError : Nat → Nat → Option String
  writeError : Nat → Nat → Option String
  residue : Nat → Nat → BitVec 8
  rtc : Nat → DateTime

structure AtaDevice where
  present : Bool
  atapi : Bool
  disk : ByteMemory
  clock : Nat
  hardware : Hardware

namespace AtaDevice

def lbaLimit : Nat := 2 ^ 28

def sectorAt (device : AtaDevice) (lba : Nat) : Sector :=
  fun offset => device.disk (512 * lba + offset)

def readSector (device : AtaDevice) (lba : Nat) : Except String Sector :=
  if !device.present || device.atapi then .error "no ATA block device"
  else if lba ≥ lbaLimit then .error "LBA28 range exceeded"
  else
    match device.hardware.readError device.clock lba with
    | some message => .error message
    | none => .ok (device.sectorAt lba)

def overwrite (disk : ByteMemory) (lba : Nat) (bytes : Sector) : ByteMemory :=
  fun addr => if addr / 512 = lba then bytes (addr % 512) else disk addr

def writeSector (device : AtaDevice) (lba : Nat) (sector : Sector) : Except String Unit × AtaDevice :=
  if !device.present || device.atapi then (.error "no ATA block device", device)
  else if lba ≥ lbaLimit then (.error "LBA28 range exceeded", device)
  else
    match device.hardware.writeError device.clock lba with
    | some message =>
        (.error message, { device with
          clock := device.clock + 1
          disk := overwrite device.disk lba
            (fun offset => device.hardware.residue device.clock (512 * lba + offset)) })
    | none =>
        (.ok (), { device with
          clock := device.clock + 1
          disk := overwrite device.disk lba sector })

theorem readSector_eq_ok {device : AtaDevice} {lba : Nat} {sector : Sector}
    (read : device.readSector lba = .ok sector) :
    (!device.present || device.atapi) = false ∧ lba < lbaLimit ∧
      device.hardware.readError device.clock lba = none ∧ sector = device.sectorAt lba := by
  unfold readSector at read
  split at read
  · cases read
  · rename_i usable
    split at read
    · cases read
    · rename_i inRange
      split at read
      · cases read
      · rename_i quiet
        cases read
        exact ⟨by simpa using usable, by omega, quiet, rfl⟩

theorem readSector_of_quiet {device : AtaDevice} {lba : Nat}
    (usable : (!device.present || device.atapi) = false) (inRange : lba < lbaLimit)
    (quiet : device.hardware.readError device.clock lba = none) :
    device.readSector lba = .ok (device.sectorAt lba) := by
  unfold readSector
  rw [usable, if_neg (by simp), if_neg (by omega), quiet]

theorem overwrite_here (disk : ByteMemory) (lba : Nat) (bytes : Sector) {offset : Nat}
    (inside : offset < 512) : overwrite disk lba bytes (512 * lba + offset) = bytes offset := by
  have sector : (512 * lba + offset) / 512 = lba := by omega
  have place : (512 * lba + offset) % 512 = offset := by omega
  unfold overwrite
  rw [if_pos sector, place]

variable (device : AtaDevice) (lba : Nat) (sector : Sector)

theorem writeSector_frame :
    (device.writeSector lba sector).2 = { device with
        disk := (device.writeSector lba sector).2.disk
        clock := (device.writeSector lba sector).2.clock } ∧
      ∀ addr, addr / 512 ≠ lba →
        (device.writeSector lba sector).2.disk addr = device.disk addr := by
  unfold writeSector
  split
  · exact ⟨rfl, fun _ _ => rfl⟩
  · split
    · exact ⟨rfl, fun _ _ => rfl⟩
    · split
      · exact ⟨rfl, fun _ elsewhere => if_neg elsewhere⟩
      · exact ⟨rfl, fun _ elsewhere => if_neg elsewhere⟩

theorem writeSector_written (written : (device.writeSector lba sector).1 = .ok ()) {offset : Nat}
    (inside : offset < 512) :
    (device.writeSector lba sector).2.disk (512 * lba + offset) = sector offset := by
  unfold writeSector at written ⊢
  split at written
  · cases written
  · rename_i usable
    rw [if_neg usable]
    split at written
    · cases written
    · rename_i inRange
      rw [if_neg inRange]
      split at written
      · cases written
      · exact overwrite_here device.disk lba sector inside

end AtaDevice
end Fat
end MachaOS
