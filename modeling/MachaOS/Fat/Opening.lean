/-
What `open` makes of a device: the fields it takes from the boot sector, and the
FAT it caches.
-/

import MachaOS.Fat.Walks

namespace MachaOS.Fat.Fat32

open Except Int

/-- The boot sectors that `open` takes for those of a FAT32 volume. -/
structure Accepted (boot : Sector) : Prop where
  bytesPerSector : (boot.readU16 0x0B).toNat = 512
  sectorsPerCluster : (boot 0x0D).toNat ≠ 0
  powerOfTwo : isPowerOfTwo (boot 0x0D).toNat = true
  signature : boot 0x1FE = 0x55#8 ∧ boot 0x1FF = 0xAA#8
  fatSizeSectors : (boot.readU32 0x24).toNat ≠ 0
  rootCluster : 2 ≤ (boot.readU32 0x2C).toNat
  totalSectors : (boot.readU32 0x20).toNat ≠ 0

def tablesEnd (boot : Sector) : Nat :=
  (boot.readU16 0x0E).toNat + (boot 0x10).toNat * (boot.readU32 0x24).toNat

def described (overflowChecks : Bool) (device : AtaDevice) (boot : Sector) (firstDataSector : Nat)
    (fat : List (BitVec 32)) : Fat32 where
  overflowChecks
  device
  sectorsPerCluster := (boot 0x0D).toNat
  reservedSectors := (boot.readU16 0x0E).toNat
  fatCount := (boot 0x10).toNat
  fatSizeSectors := (boot.readU32 0x24).toNat
  rootCluster := (boot.readU32 0x2C).toNat
  firstDataSector
  totalSectors := (boot.readU32 0x20).toNat
  fat
  fatDirty := List.replicate (boot.readU32 0x24).toNat false
  freeClusters := 0

variable {device : AtaDevice} {overflowChecks : Bool} {boot : Sector} {allocates : Nat → Bool}

theorem openDevice_rejected (read : device.readSector 0 = .ok boot) (rejected : ¬ Accepted boot) :
    openDevice overflowChecks device allocates = .error (.error .invalidVolume) := by
  unfold openDevice
  rw [read, io, ok_bind]
  dsimp only
  rw [if_pos]
  · rfl
  · by_contra fine
    apply rejected
    push Not at fine
    obtain ⟨bytes, some', power, low, high, size, root, total⟩ := fine
    exact ⟨bytes, some', by simpa using power, ⟨low, high⟩, size, root, total⟩

theorem openDevice_accepted (read : device.readSector 0 = .ok boot) (accepted : Accepted boot) :
    openDevice overflowChecks device allocates = (do
      let tables ← u32 overflowChecks ((boot 0x10).toNat * (boot.readU32 0x24).toNat)
      let firstDataSector ← u32 overflowChecks ((boot.readU16 0x0E).toNat + tables)
      let fat ← cacheFat allocates device (boot.readU16 0x0E).toNat (boot.readU32 0x24).toNat
      pure (described overflowChecks device boot firstDataSector fat)) := by
  unfold openDevice
  rw [read, io, ok_bind]
  dsimp only
  rw [if_neg]
  · rfl
  · rintro (bytes | none | power | low | high | size | root | total)
    · exact bytes accepted.bytesPerSector
    · exact accepted.sectorsPerCluster none
    · rw [accepted.powerOfTwo] at power
      cases power
    · exact low accepted.signature.1
    · exact high accepted.signature.2
    · exact accepted.fatSizeSectors size
    · exact absurd accepted.rootCluster (by omega)
    · exact accepted.totalSectors total

theorem readFat_ne_panic {reservedSectors left i : Nat} :
    readFat device reservedSectors left i ≠ .error .panic := by
  induction left generalizing i with
  | zero => simp [readFat]
  | succ left ih =>
      intro stopped
      rw [readFat] at stopped
      rcases bind_eq_error.mp stopped with early | ⟨sector, -, later⟩
      · exact io_ne_panic _ early
      · rcases bind_eq_error.mp later with early | ⟨rest, -, last⟩
        · exact ih early
        · cases last

/-- What `open` caches, and that there was room for it. -/
theorem cacheFat_eq_ok {reservedSectors size : Nat} {fat : List (BitVec 32)} :
    cacheFat allocates device reservedSectors size = .ok fat ↔
      (allocates (size * 512) = true ∧ allocates size = true) ∧
        readFat device reservedSectors size 0 = .ok fat := by
  unfold cacheFat
  cases table : allocates (size * 512) <;> cases flags : allocates size <;>
    cases readFat device reservedSectors size 0 <;> simp [bind, Except.bind, pure, Except.pure, throw,
      throwThe, MonadExceptOf.throw]

theorem cacheFat_eq_panic_iff {reservedSectors size : Nat} :
    cacheFat allocates device reservedSectors size = .error .panic ↔
      allocates (size * 512) = false ∨
        allocates size = false ∧ ∃ fat, readFat device reservedSectors size 0 = .ok fat := by
  have returns := @readFat_ne_panic device reservedSectors size 0
  unfold cacheFat
  cases table : allocates (size * 512) <;> cases flags : allocates size <;>
    cases cached : readFat device reservedSectors size 0 <;> simp_all [bind, Except.bind, pure,
      Except.pure, throw, throwThe, MonadExceptOf.throw]

theorem firstDataSector_computed (fits : overflowChecks = true → tablesEnd boot < 2 ^ 32) :
    ∃ tables firstDataSector,
      u32 overflowChecks ((boot 0x10).toNat * (boot.readU32 0x24).toNat) = .ok tables ∧
        u32 overflowChecks ((boot.readU16 0x0E).toNat + tables) = .ok firstDataSector := by
  cases overflowChecks with
  | false =>
      obtain ⟨tables, multiplied⟩ := u32_wraps ((boot 0x10).toNat * (boot.readU32 0x24).toNat)
      obtain ⟨firstDataSector, added⟩ := u32_wraps ((boot.readU16 0x0E).toNat + tables)
      exact ⟨tables, firstDataSector, multiplied, added⟩
  | true =>
      have bound := fits rfl
      unfold tablesEnd at bound
      rw [← natCast_mul, u32_of_lt _ (natCast_nonneg _) (by omega), toNat_natCast]
      refine ⟨_, tablesEnd boot, rfl, ?_⟩
      rw [← natCast_add, u32_of_lt _ (natCast_nonneg _) (by omega), toNat_natCast]
      rfl

theorem openDevice_eq_panic_iff : openDevice overflowChecks device allocates = .error .panic ↔
      ∃ boot, device.readSector 0 = .ok boot ∧ Accepted boot ∧
        ((overflowChecks = true ∧ 2 ^ 32 ≤ tablesEnd boot) ∨
          cacheFat allocates device (boot.readU16 0x0E).toNat (boot.readU32 0x24).toNat =
            .error .panic) := by
  have computed (boot : Sector) (fits : ¬ (overflowChecks = true ∧ 2 ^ 32 ≤ tablesEnd boot)) :=
    @firstDataSector_computed overflowChecks boot (fun checks =>
      Nat.lt_of_not_le (fun large => fits ⟨checks, large⟩))
  constructor
  · intro stopped
    cases read : device.readSector 0 with
    | error message =>
        have early : openDevice overflowChecks device allocates = .error (.error (.io message)) := by
          unfold openDevice
          rw [read]
          rfl
        rw [early] at stopped
        cases stopped
    | ok boot =>
        by_cases accepted : Accepted boot
        · refine ⟨boot, rfl, accepted, ?_⟩
          by_contra fine
          obtain ⟨fits, cached⟩ := not_or.mp fine
          obtain ⟨tables, firstDataSector, multiplied, added⟩ := computed boot fits
          rw [openDevice_accepted read accepted, multiplied, ok_bind, added, ok_bind]
            at stopped
          rcases bind_eq_error.mp stopped with early | ⟨fat, -, late⟩
          · exact cached early
          · cases late
        · rw [openDevice_rejected read accepted] at stopped
          cases stopped
  · rintro ⟨boot, read, accepted, stops⟩
    rw [openDevice_accepted read accepted]
    by_cases fits : overflowChecks = true ∧ 2 ^ 32 ≤ tablesEnd boot
    · obtain ⟨rfl, large⟩ := fits
      unfold tablesEnd at large
      by_cases tablesFit : (boot 0x10).toNat * (boot.readU32 0x24).toNat < 2 ^ 32
      · rw [← natCast_mul, u32_of_lt _ (natCast_nonneg _) (by omega), toNat_natCast,
          ok_bind, ← natCast_add, u32_eq_panic_iff.mpr ⟨rfl, by omega⟩]
        rfl
      · rw [← natCast_mul, u32_eq_panic_iff.mpr ⟨rfl, by omega⟩]
        rfl
    · obtain ⟨tables, firstDataSector, multiplied, added⟩ := computed boot fits
      rw [multiplied, ok_bind, added, ok_bind, stops.resolve_left fits]
      rfl

theorem openDevice_eq_ok {vol : Fat32}
    (opened : openDevice overflowChecks device allocates = .ok vol) :
    ∃ boot firstDataSector fat, device.readSector 0 = .ok boot ∧ Accepted boot ∧
      (tablesEnd boot < 2 ^ 32 → firstDataSector = tablesEnd boot) ∧
      readFat device (boot.readU16 0x0E).toNat (boot.readU32 0x24).toNat 0 = .ok fat ∧
      vol = described overflowChecks device boot firstDataSector fat := by
  cases read : device.readSector 0 with
  | error message =>
      unfold openDevice at opened
      rw [read] at opened
      cases opened
  | ok boot =>
      by_cases accepted : Accepted boot
      · rw [openDevice_accepted read accepted] at opened
        obtain ⟨tables, multiplied, opened⟩ := bind_eq_ok.mp opened
        obtain ⟨firstDataSector, added, opened⟩ := bind_eq_ok.mp opened
        obtain ⟨fat, cached, opened⟩ := bind_eq_ok.mp opened
        refine ⟨boot, firstDataSector, fat, rfl, accepted, ?_, (cacheFat_eq_ok.mp cached).2,
          (Except.ok.inj opened).symm⟩
        intro fits
        unfold tablesEnd at fits ⊢
        rw [← natCast_mul, u32_of_lt _ (natCast_nonneg _) (by omega), toNat_natCast,
          Except.ok.injEq] at multiplied
        subst multiplied
        rw [← natCast_add, u32_of_lt _ (natCast_nonneg _) (by omega), toNat_natCast,
          Except.ok.injEq] at added
        exact added.symm
      · rw [openDevice_rejected read accepted] at opened
        cases opened

theorem entriesOf_length (sector : Sector) : (entriesOf sector).length = 128 := by
  simp [entriesOf]

theorem readFat_length {reservedSectors left i : Nat} {fat : List (BitVec 32)}
    (cached : readFat device reservedSectors left i = .ok fat) : fat.length = 128 * left := by
  induction left generalizing i fat with
  | zero =>
      cases cached
      rfl
  | succ left ih =>
      rw [readFat] at cached
      obtain ⟨sector, -, cached⟩ := bind_eq_ok.mp cached
      obtain ⟨rest, cachedRest, same⟩ := bind_eq_ok.mp cached
      rw [← Except.ok.inj same, List.length_append, entriesOf_length, ih cachedRest]
      omega

/-- What `open` checks or sets up, and no operation changes. -/
structure Laid (vol : Fat32) : Prop where
  sectorsPerCluster : 0 < vol.sectorsPerCluster
  fatSizeSectors : 0 < vol.fatSizeSectors
  entries : vol.fat.length = 128 * vol.fatSizeSectors
  flags : vol.fatDirty.length = vol.fatSizeSectors
  rootCluster : 2 ≤ vol.rootCluster

theorem laid_of_open {vol : Fat32} (opened : openDevice overflowChecks device allocates = .ok vol) :
    Laid vol := by
  obtain ⟨boot, firstDataSector, fat, -, accepted, -, cached, rfl⟩ := openDevice_eq_ok opened
  exact
    { sectorsPerCluster := Nat.pos_of_ne_zero accepted.sectorsPerCluster
      fatSizeSectors := Nat.pos_of_ne_zero accepted.fatSizeSectors
      entries := readFat_length cached
      flags := List.length_replicate
      rootCluster := accepted.rootCluster }

theorem scanFreeClusters_run (opened : Fat32) : ∃ freeClusters,
    (scanFreeClusters opened).2 = { opened with freeClusters } := by
  unfold scanFreeClusters
  split
  · exact ⟨_, rfl⟩
  · exact ⟨opened.freeClusters, rfl⟩

end MachaOS.Fat.Fat32
