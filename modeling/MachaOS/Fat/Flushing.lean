/-
The cached FAT and the first copy of it on the disk.

A sector of the FAT whose dirty flag is clear holds on the disk what the cache holds.
Everything that works on the FAT keeps this, whether it finishes or not; a flush
that finishes leaves no flag set.
-/

import MachaOS.Fat.Opening
import MachaOS.Fat.Table
import MachaOS.Lib.Runs

namespace MachaOS.Fat.Fat32

open List Except Fallible

variable {vol vol' : Fat32}

def Synced (vol : Fat32) : Prop :=
  ∀ i, i < vol.fatSizeSectors → vol.fatDirty.getD i false = false →
    ∀ offset, offset < 512 →
      vol.device.disk (512 * (vol.reservedSectors + i) + offset) = vol.fatSector i offset

theorem fatSector_congr {i : Nat}
    (same : ∀ j, j < 128 → vol'.fat[i * 128 + j]? = vol.fat[i * 128 + j]?) {offset : Nat}
    (inside : offset < 512) : vol'.fatSector i offset = vol.fatSector i offset := by
  unfold fatSector
  rw [getD_eq_getElem?_getD, same (offset / 4) (by omega), ← getD_eq_getElem?_getD]

theorem entriesOf_getD (sector : Sector) {j : Nat} (inside : j < 128) :
    (entriesOf sector)[j]? = some (sector.readU32 (4 * j)) := by
  simp [entriesOf, inside]

theorem readFat_sector {device : AtaDevice} {reservedSectors left first : Nat}
    {fat : List (BitVec 32)} (cached : readFat device reservedSectors left first = .ok fat)
    {i : Nat} (inside : i < left) {offset : Nat} (within : offset < 512) :
    (fat.getD (i * 128 + offset / 4) 0#32).extractLsb' (8 * (offset % 4)) 8 =
      device.disk (512 * (reservedSectors + (first + i)) + offset) := by
  induction left generalizing first fat i with
  | zero => omega
  | succ left ih =>
      rw [readFat] at cached
      obtain ⟨sector, read, cached⟩ := bind_eq_ok.mp cached
      obtain ⟨rest, cachedRest, same⟩ := bind_eq_ok.mp cached
      rw [← Except.ok.inj same, getD_eq_getElem?_getD]
      cases i with
      | zero =>
          have found : sector = device.sectorAt (reservedSectors + first) :=
            (AtaDevice.readSector_eq_ok (io_eq_ok read)).2.2.2
          rw [List.getElem?_append_left (by rw [entriesOf_length]; omega), Nat.zero_mul, Nat.zero_add,
            entriesOf_getD sector (by omega), Option.getD_some,
            ByteMemory.extractLsb'_readU32 _ _ (by omega), found]
          show device.disk _ = _
          congr 1
          omega
      | succ i =>
          have later := @ih _ _ cachedRest i (by omega)
          rw [List.getElem?_append_right (by rw [entriesOf_length]; omega), entriesOf_length,
            show (i + 1) * 128 + offset / 4 - 128 = i * 128 + offset / 4 by omega,
            ← getD_eq_getElem?_getD, later]
          congr 1
          omega

theorem readFat_of_quiet {device : AtaDevice} {reservedSectors left first : Nat}
    (usable : (!device.present || device.atapi) = false)
    (inRange : reservedSectors + (first + left) ≤ AtaDevice.lbaLimit)
    (quiet : ∀ i, first ≤ i → i < first + left →
      device.hardware.readError device.clock (reservedSectors + i) = none) :
    ∃ fat, readFat device reservedSectors left first = .ok fat := by
  induction left generalizing first with
  | zero => exact ⟨[], rfl⟩
  | succ left ih =>
      obtain ⟨rest, cached⟩ := @ih (first + 1) (by omega)
        (fun i lower upper => quiet i (by omega) (by omega))
      rw [readFat, AtaDevice.readSector_of_quiet usable (by omega) (quiet first (by omega) (by omega)),
        io, ok_bind, cached]
      exact ⟨_, rfl⟩

theorem readFat_inRange {device : AtaDevice} {reservedSectors left first : Nat}
    {fat : List (BitVec 32)} (cached : readFat device reservedSectors left first = .ok fat)
    (some' : 0 < left) : reservedSectors + (first + left) ≤ AtaDevice.lbaLimit := by
  induction left generalizing first fat with
  | zero => omega
  | succ left ih =>
      rw [readFat] at cached
      obtain ⟨sector, read, cached⟩ := bind_eq_ok.mp cached
      obtain ⟨rest, cachedRest, -⟩ := bind_eq_ok.mp cached
      have here := (AtaDevice.readSector_eq_ok (io_eq_ok read)).2.1
      rcases Nat.eq_zero_or_pos left with rfl | more
      · omega
      · have later := ih cachedRest more
        omega

structure FieldsOf (boot : Sector) (vol : Fat32) : Prop where
  sectorsPerCluster : vol.sectorsPerCluster = (boot 0x0D).toNat
  reservedSectors : vol.reservedSectors = (boot.readU16 0x0E).toNat
  fatCount : vol.fatCount = (boot 0x10).toNat
  totalSectors : vol.totalSectors = (boot.readU32 0x20).toNat
  fatSizeSectors : vol.fatSizeSectors = (boot.readU32 0x24).toNat
  rootCluster : vol.rootCluster = (boot.readU32 0x2C).toNat

/-- The volume is laid out as its boot sector says, the FAT on the disk follows the cache, and
the boot sector is still there unless the FAT starts in its place. -/
structure Mirrored (overflowChecks : Bool) (boot : Sector) (vol : Fat32) : Prop where
  checks : vol.overflowChecks = overflowChecks
  laid : Laid vol
  accepted : Accepted boot
  fields : FieldsOf boot vol
  sum : ∃ tables,
    u32 vol.overflowChecks ((boot 0x10).toNat * (boot.readU32 0x24).toNat) = .ok tables ∧
      u32 vol.overflowChecks ((boot.readU16 0x0E).toNat + tables) = .ok vol.firstDataSector
  usable : (!vol.device.present || vol.device.atapi) = false
  inRange : vol.reservedSectors + vol.fatSizeSectors ≤ AtaDevice.lbaLimit
  count : vol.freeClusters < 2 ^ 32
  synced : Synced vol
  bootKept : 0 < vol.reservedSectors → ∀ offset, offset < 512 →
    vol.device.disk offset = boot offset

theorem mirrored_of_open {overflowChecks : Bool} {device : AtaDevice} {vol : Fat32}
    (opened : openDevice overflowChecks device = .ok vol) :
    Mirrored overflowChecks (device.sectorAt 0) vol := by
  have laid := laid_of_open opened
  cases read : device.readSector 0 with
  | error message =>
      unfold openDevice at opened
      rw [read] at opened
      cases opened
  | ok boot =>
      obtain ⟨usable, -, -, rfl⟩ := AtaDevice.readSector_eq_ok read
      by_cases accepted : Accepted (device.sectorAt 0)
      · rw [openDevice_accepted read accepted] at opened
        obtain ⟨tables, multiplied, opened⟩ := bind_eq_ok.mp opened
        obtain ⟨firstDataSector, added, opened⟩ := bind_eq_ok.mp opened
        obtain ⟨fat, cached, opened⟩ := bind_eq_ok.mp opened
        replace cached := (cacheFat_eq_ok.mp cached).2
        obtain rfl := (Except.ok.inj opened).symm
        exact
          { checks := rfl
            laid
            accepted
            fields := ⟨rfl, rfl, rfl, rfl, rfl, rfl⟩
            sum := ⟨tables, multiplied, added⟩
            usable
            inRange := by
              have bound := readFat_inRange cached laid.fatSizeSectors
              rw [Nat.zero_add] at bound
              exact bound
            count := Nat.two_pow_pos 32
            synced := fun i inside _ offset within => by
              have bytes := readFat_sector cached inside within
              rw [Nat.zero_add] at bytes
              exact bytes.symm
            bootKept := fun _ offset _ => by
              show device.disk offset = device.disk (512 * 0 + offset)
              rw [Nat.mul_zero, Nat.zero_add] }
      · rw [openDevice_rejected read accepted] at opened
        cases opened

theorem Mirrored.withEntry {overflowChecks : Bool} {boot : Sector} (mirrored : Mirrored overflowChecks boot vol) (cluster : Nat)
    (value : BitVec 32) : Mirrored overflowChecks boot (vol.withEntry cluster value) := by
  have flags := mirrored.laid.flags
  have synced : Synced (vol.withEntry cluster value) := by
    intro i bound clear offset within
    have elsewhere : i ≠ cluster / 128 := by
      rintro rfl
      have raised : (vol.withEntry cluster value).fatDirty.getD (cluster / 128) false = true := by
        rw [getD_eq_getElem?_getD]
        show ((vol.fatDirty.set (cluster / 128) true)[cluster / 128]?).getD false = true
        rw [List.getElem?_set_self (by rw [flags]; exact bound)]
        rfl
      rw [raised] at clear
      cases clear
    have clearBefore : vol.fatDirty.getD i false = false := by
      have unchanged : (vol.withEntry cluster value).fatDirty[i]? = vol.fatDirty[i]? :=
        List.getElem?_set_ne (Ne.symm elsewhere)
      rw [getD_eq_getElem?_getD, ← unchanged, ← getD_eq_getElem?_getD]
      exact clear
    rw [fatSector_congr (fun j small => withEntry_getElem? (show i * 128 + j ≠ cluster by omega))
      within]
    exact mirrored.synced i bound clearBefore offset within
  exact
    { mirrored with
      laid :=
        { mirrored.laid with
          entries := length_set.trans mirrored.laid.entries
          flags := length_set.trans flags }
      fields := { mirrored.fields with }
      synced }

theorem Mirrored.withCount {overflowChecks : Bool} {boot : Sector} (mirrored : Mirrored overflowChecks boot vol) {freeClusters : Nat}
    (count : freeClusters < 2 ^ 32) : Mirrored overflowChecks boot { vol with freeClusters } :=
  { mirrored with
    laid := { mirrored.laid with }
    fields := { mirrored.fields with }
    count }

theorem setCluster_keeps {overflowChecks : Bool} {boot : Sector} (cluster : Nat) (value : BitVec 32) :
    Fallible.Keeps (Mirrored overflowChecks boot) (setCluster cluster value) := by
  intro vol mirrored
  by_cases inside : cluster < vol.fat.length
  · rw [setCluster_of_lt inside]
    exact mirrored.withEntry cluster value
  · rw [show setCluster cluster value vol = (.error .panic, vol) from if_neg inside]
    exact mirrored

theorem u32_lt {checks : Bool} {exact : Int} {value : Nat}
    (done : u32 checks exact = .ok value) : value < 2 ^ 32 := by
  unfold u32 at done
  split at done
  · rename_i fits
    rw [← Except.ok.inj done]
    exact fits.2
  · split at done
    · cases done
    · rw [← Except.ok.inj done]
      omega

theorem scanFreeClusters_keeps {overflowChecks : Bool} {boot : Sector} :
    Fallible.Keeps (Mirrored overflowChecks boot) scanFreeClusters := by
  intro vol mirrored
  unfold scanFreeClusters
  cases counted : u32 vol.overflowChecks ((vol.fat.drop 2).countP isFree) with
  | ok free => exact mirrored.withCount (u32_lt counted)
  | error stop => exact mirrored

theorem countFreed_keeps {overflowChecks : Bool} {boot : Sector} : Fallible.Keeps (Mirrored overflowChecks boot) countFreed := by
  intro vol mirrored
  unfold countFreed
  cases counted : u32 vol.overflowChecks (vol.freeClusters + 1) with
  | ok free => exact mirrored.withCount (u32_lt counted)
  | error stop => exact mirrored

theorem allocCluster_keeps {overflowChecks : Bool} {boot : Sector} : Fallible.Keeps (Mirrored overflowChecks boot) allocCluster := by
  refine keeps_bind (keeps_query _) (fun found => ?_)
  cases found with
  | none => exact keeps_fail _
  | some cluster =>
      refine keeps_bind (setCluster_keeps _ _) (fun _ => ?_)
      refine keeps_bind (keeps_modify (fun vol mirrored => ?_))
        (fun _ => keeps_pure _)
      exact mirrored.withCount (Nat.lt_of_le_of_lt (Nat.sub_le _ _) mirrored.count)

theorem freeClustersFrom_keeps {overflowChecks : Bool} {boot : Sector} (left cluster : Nat) :
    Fallible.Keeps (Mirrored overflowChecks boot) (freeClustersFrom left cluster) := by
  induction left using Nat.strongRecOn generalizing cluster with
  | ind left ih =>
    rw [freeClustersFrom.eq_def]
    dsimp only
    split
    · exact keeps_pure _
    · split
      · exact keeps_fail _
      · cases left with
        | zero => exact keeps_fail _
        | succ left =>
            refine keeps_bind (keeps_query _) (fun next => ?_)
            refine keeps_bind (setCluster_keeps _ _) (fun _ => ?_)
            exact keeps_bind countFreed_keeps (fun _ => ih left (Nat.lt_succ_self left) next)

section

variable {overflowChecks : Bool} {boot : Sector} (mirrored : Mirrored overflowChecks boot vol)
include mirrored

/-- A sector that caches no clean FAT sector and is not the boot sector may be written. -/
theorem Mirrored.writtenAt {lba : Nat}
    (elsewhere : ∀ k, k < vol.fatSizeSectors → vol.fatDirty.getD k false = false →
      vol.reservedSectors + k ≠ lba)
    (behind : 0 < vol.reservedSectors → lba ≠ 0) (sector : Sector) :
    Mirrored overflowChecks boot (writeSector lba sector vol).2 := by
  obtain ⟨same, others⟩ := vol.device.writeSector_frame lba sector
  show Mirrored overflowChecks boot { vol with device := (vol.device.writeSector lba sector).2 }
  generalize (vol.device.writeSector lba sector).2 = device at same others
  refine
    { mirrored with
      laid := { mirrored.laid with }
      fields := { mirrored.fields with }
      usable := ?_
      synced := fun k bound clear offset within => ?_
      bootKept := fun some' offset within => ?_ }
  · show (!device.present || device.atapi) = false
    rw [same]
    exact mirrored.usable
  · have apart := elsewhere k bound clear
    show device.disk (512 * (vol.reservedSectors + k) + offset) = vol.fatSector k offset
    rw [others _ (by omega)]
    exact mirrored.synced k bound clear offset within
  · have apart := behind some'
    show device.disk offset = boot offset
    rw [others _ (by omega)]
    exact mirrored.bootKept some' offset within

theorem Mirrored.written {i : Nat} (dirty : vol.fatDirty.getD i false = true) (sector : Sector) :
    Mirrored overflowChecks boot (writeSector (vol.reservedSectors + i) sector vol).2 := by
  refine mirrored.writtenAt (fun k _ clear same => ?_) (fun _ => by omega) sector
  obtain rfl : k = i := by omega
  rw [clear] at dirty
  cases dirty

theorem Mirrored.cleared {i : Nat}
    (written : ∀ offset, offset < 512 →
      vol.device.disk (512 * (vol.reservedSectors + i) + offset) = vol.fatSector i offset) :
    Mirrored overflowChecks boot { vol with fatDirty := vol.fatDirty.set i false } := by
  refine
    { mirrored with
      laid := { mirrored.laid with flags := length_set.trans mirrored.laid.flags }
      fields := { mirrored.fields with }
      synced := fun k bound clear offset within => ?_ }
  by_cases same : k = i
  · subst same
    exact written offset within
  · have clearBefore : vol.fatDirty.getD k false = false := by
      have clear' : (vol.fatDirty.set i false).getD k false = false := clear
      rw [getD_eq_getElem?_getD, List.getElem?_set_ne (Ne.symm same)] at clear'
      rw [getD_eq_getElem?_getD]
      exact clear'
    exact mirrored.synced k bound clearBefore offset within

theorem flushSectors_spec (left i : Nat) :
    Fallible.Yields (flushSectors left i) vol
      (fun _ after => Mirrored overflowChecks boot after ∧ after.fat = vol.fat ∧
        after.freeClusters = vol.freeClusters ∧
        (∀ k, vol.fatDirty.getD k false = false → after.fatDirty.getD k false = false) ∧
        ∀ k, i ≤ k → k < i + left → after.fatDirty.getD k false = false)
      (fun _ after => Mirrored overflowChecks boot after) := by
  induction left generalizing vol i with
  | zero =>
      exact yields_of_ok rfl
        ⟨mirrored, rfl, rfl, fun _ clear => clear, fun k lower upper => by omega⟩
  | succ left ih =>
      rw [flushSectors]
      refine Fallible.Yields.after rfl ?_
      split
      · rename_i dirty
        have kept := mirrored.written dirty (vol.fatSector i)
        cases outcome : writeSector (vol.reservedSectors + i) (vol.fatSector i) vol with
        | mk result middle =>
            rw [outcome] at kept
            cases result with
            | error stop => exact yields_of_error (bind_of_error outcome) kept
            | ok value =>
                have written : ∀ offset, offset < 512 →
                    middle.device.disk (512 * (middle.reservedSectors + i) + offset) =
                      middle.fatSector i offset := by
                  intro offset within
                  unfold writeSector at outcome
                  have device := congrArg Prod.snd outcome
                  have done := congrArg Prod.fst outcome
                  dsimp only at device done
                  rw [← device]
                  exact vol.device.writeSector_written _ _ (io_eq_ok done) within
                have frame : middle.fat = vol.fat ∧ middle.freeClusters = vol.freeClusters ∧
                    middle.fatDirty = vol.fatDirty := by
                  unfold writeSector at outcome
                  have device := congrArg Prod.snd outcome
                  dsimp only at device
                  rw [← device]
                  exact ⟨rfl, rfl, rfl⟩
                refine Fallible.Yields.after outcome (Fallible.Yields.after rfl ?_)
                refine (ih (kept.cleared written) (i + 1)).mono ?_
                rintro _ after ⟨keptAfter, sameFat, sameCount, clears, clearLater⟩
                have clearedHere : ∀ k, vol.fatDirty.getD k false = false ∨ k = i →
                    (middle.fatDirty.set i false).getD k false = false := by
                  intro k reason
                  rw [getD_eq_getElem?_getD, List.getElem?_set]
                  by_cases same : i = k
                  · rw [if_pos same]
                    split <;> rfl
                  · rw [if_neg same, frame.2.2, ← getD_eq_getElem?_getD]
                    rcases reason with clear | here
                    · exact clear
                    · exact absurd here.symm same
                refine ⟨keptAfter, sameFat.trans frame.1, sameCount.trans frame.2.1,
                  fun k clear => clears k (clearedHere k (Or.inl clear)), fun k lower upper => ?_⟩
                by_cases here : k = i
                · exact clears k (clearedHere k (Or.inr here))
                · exact clearLater k (by omega) (by omega)
      · rename_i clean
        refine (ih mirrored (i + 1)).mono ?_
        rintro _ after ⟨keptAfter, sameFat, sameCount, clears, clearLater⟩
        refine ⟨keptAfter, sameFat, sameCount, clears, fun k lower upper => ?_⟩
        by_cases here : k = i
        · subst here
          exact clears k (by simpa using clean)
        · exact clearLater k (by omega) (by omega)

theorem flushFat_spec :
    Fallible.Yields flushFat vol
      (fun _ after => Mirrored overflowChecks boot after ∧ after.fat = vol.fat ∧
        after.freeClusters = vol.freeClusters ∧ ∀ k, after.fatDirty.getD k false = false)
      (fun _ after => Mirrored overflowChecks boot after) := by
  refine Fallible.Yields.after rfl ((flushSectors_spec mirrored _ 0).mono ?_)
  rintro _ after ⟨kept, sameFat, sameCount, clears, cleared⟩
  refine ⟨kept, sameFat, sameCount, fun k => ?_⟩
  by_cases inside : k < vol.fatDirty.length
  · exact cleared k (Nat.zero_le k) (by omega)
  · refine clears k ?_
    rw [getD_eq_getElem?_getD, List.getElem?_eq_none (by omega)]
    rfl

end

theorem flushFat_keeps {overflowChecks : Bool} {boot : Sector} : Fallible.Keeps (Mirrored overflowChecks boot) flushFat := by
  intro vol mirrored
  have spec := flushFat_spec mirrored
  cases outcome : flushFat vol with
  | mk result after =>
      cases result with
      | ok value => exact (spec.of_ok outcome).1
      | error stop => exact spec.of_error outcome

theorem accepted_congr {boot boot' : Sector} (same : ByteMemory.SameOn boot boot' 0 512)
    (accepted : Accepted boot) : Accepted boot' := by
  have at' (offset : Nat) (inside : offset < 512) : boot' offset = boot offset :=
    same offset (Nat.zero_le _) (by omega)
  have word (offset : Nat) (inside : offset + 4 ≤ 512) : boot'.readU32 offset = boot.readU32 offset :=
    ByteMemory.readU32_congr (same.mono (Nat.zero_le _) (by omega))
  have half : boot'.readU16 0x0B = boot.readU16 0x0B :=
    ByteMemory.readU16_congr (same.mono (Nat.zero_le _) (by omega))
  refine ⟨?_, ?_, ?_, ⟨?_, ?_⟩, ?_, ?_, ?_⟩
  · rw [half]
    exact accepted.bytesPerSector
  · rw [at' _ (by omega)]
    exact accepted.sectorsPerCluster
  · rw [at' _ (by omega)]
    exact accepted.powerOfTwo
  · rw [at' _ (by omega)]
    exact accepted.signature.1
  · rw [at' _ (by omega)]
    exact accepted.signature.2
  · rw [word _ (by omega)]
    exact accepted.fatSizeSectors
  · rw [word _ (by omega)]
    exact accepted.rootCluster
  · rw [word _ (by omega)]
    exact accepted.totalSectors

def Readable (vol : Fat32) : Prop :=
  vol.device.hardware.readError vol.device.clock 0 = none ∧
    ∀ i, i < vol.fatSizeSectors →
      vol.device.hardware.readError vol.device.clock (vol.reservedSectors + i) = none

theorem Mirrored.reopened {overflowChecks : Bool} {boot : Sector} (mirrored : Mirrored overflowChecks boot vol)
    (apart : 0 < vol.reservedSectors) (clean : ∀ k, vol.fatDirty.getD k false = false)
    (readable : Readable vol) :
    ∃ fresh, openDevice overflowChecks vol.device = .ok fresh ∧ fresh.fat = vol.fat ∧
      fresh.overflowChecks = overflowChecks := by
  obtain rfl := mirrored.checks
  have inRange := mirrored.inRange
  have some' := mirrored.laid.fatSizeSectors
  have read := AtaDevice.readSector_of_quiet mirrored.usable
    (show 0 < AtaDevice.lbaLimit from by decide) readable.1
  have same : ByteMemory.SameOn boot (vol.device.sectorAt 0) 0 512 := by
    intro offset _ within
    show vol.device.disk (512 * 0 + offset) = boot offset
    rw [Nat.mul_zero, Nat.zero_add]
    exact mirrored.bootKept apart offset (by omega)
  have accepted := accepted_congr same mirrored.accepted
  have copies : vol.device.sectorAt 0 0x10 = boot 0x10 := same _ (Nat.zero_le _) (by omega)
  have sizeWord : (vol.device.sectorAt 0).readU32 0x24 = boot.readU32 0x24 :=
    ByteMemory.readU32_congr (same.mono (Nat.zero_le _) (by omega))
  have reservedWord : (vol.device.sectorAt 0).readU16 0x0E = boot.readU16 0x0E :=
    ByteMemory.readU16_congr (same.mono (Nat.zero_le _) (by omega))
  obtain ⟨tables, multiplied, added⟩ := mirrored.sum
  have reserved := mirrored.fields.reservedSectors
  have size := mirrored.fields.fatSizeSectors
  obtain ⟨fat, cached⟩ := @readFat_of_quiet vol.device vol.reservedSectors
    vol.fatSizeSectors 0 mirrored.usable (by omega)
    (fun i _ upper => readable.2 i (by omega))
  refine ⟨described vol.overflowChecks vol.device (vol.device.sectorAt 0)
    vol.firstDataSector fat, ?_, ?_, rfl⟩
  · rw [openDevice_accepted read accepted, copies, sizeWord, reservedWord, multiplied,
      ok_bind, added, ok_bind, ← reserved, ← size, cacheFat_eq_ok.mpr ⟨⟨rfl, rfl⟩, cached⟩]
    rfl
  · have lengths : fat.length = vol.fat.length := by
      rw [readFat_length cached, mirrored.laid.entries]
    refine ext_getElem lengths (fun n inside inside' => ?_)
    refine ByteMemory.eq_of_bytes (fun k small => ?_)
    have entries := mirrored.laid.entries
    have onDisk := readFat_sector cached (show n / 128 < vol.fatSizeSectors by omega)
      (show 4 * (n % 128) + k < 512 by omega)
    have inCache := mirrored.synced (n / 128) (by omega) (clean _) (4 * (n % 128) + k) (by omega)
    have place : n / 128 * 128 + (4 * (n % 128) + k) / 4 = n := by omega
    have byte : (4 * (n % 128) + k) % 4 = k := by omega
    unfold fatSector at inCache
    rw [Nat.zero_add] at onDisk
    have same := onDisk.trans inCache
    rw [place, byte, getD_eq_getElem?_getD, getD_eq_getElem?_getD,
      List.getElem?_eq_getElem (show n < fat.length from inside),
      List.getElem?_eq_getElem inside'] at same
    exact same

inductive TableOp where
  | scan
  | set (cluster : Nat) (value : BitVec 32)
  | alloc
  | free (cluster : Nat)
  | flush

def TableOp.run : TableOp → Volume Unit
  | .scan => scanFreeClusters
  | .set cluster value => setCluster cluster value
  | .alloc => do
      let _ ← allocCluster
      pure ()
  | .free cluster => freeChain cluster
  | .flush => flushFat

def applyTable (vol : Fat32) (op : TableOp) : Option Fat32 :=
  match op.run vol with
  | (.error .panic, _) => none
  | (_, after) => some after

theorem applyTable_eq {op : TableOp} (applied : applyTable vol op = some vol') :
    vol' = (op.run vol).2 := by
  unfold applyTable at applied
  split at applied
  · cases applied
  · rename_i outcome
    rw [outcome]
    exact (Option.some.inj applied).symm

theorem TableOp.keeps {overflowChecks : Bool} {boot : Sector} (op : TableOp) : Fallible.Keeps (Mirrored overflowChecks boot) op.run := by
  cases op with
  | scan => exact scanFreeClusters_keeps
  | set cluster value => exact setCluster_keeps cluster value
  | alloc => exact keeps_bind allocCluster_keeps (fun _ => keeps_pure _)
  | free cluster => exact freeClustersFrom_keeps _ cluster
  | flush => exact flushFat_keeps

theorem Mirrored.after_run {overflowChecks : Bool} {boot : Sector} (mirrored : Mirrored overflowChecks boot vol) {ops : List TableOp}
    (ran : Runs.after applyTable vol ops = some vol') : Mirrored overflowChecks boot vol' := by
  refine @Runs.after_invariant _ _ applyTable (fun _ _ => True) _ ?_ _ _ _ mirrored
    (Runs.Meets.of_forall (fun _ _ => trivial) vol ops) ran
  intro before op after kept _ applied
  rw [applyTable_eq applied]
  exact op.keeps before kept

/-- Whatever works on the FAT of an opened volume, a FAT sector without a dirty flag is on the
disk as it is in the cache.  After a flush that finished, opening the device again gives the
same FAT and the same count, unless the FAT starts at the boot sector. -/
theorem fat_on_disk_follows_cache {overflowChecks : Bool} {device : AtaDevice}
    {ops : List TableOp} (opened : openDevice overflowChecks device = .ok vol)
    (ran : Runs.after applyTable vol ops = some vol') :
    Synced vol' ∧
      (0 < vol'.reservedSectors → ∀ flushed, flushFat vol' = (.ok (), flushed) →
        Readable flushed →
        ∃ fresh, openDevice overflowChecks flushed.device = .ok fresh ∧ fresh.fat = vol'.fat ∧
          (vol'.freeClusters = (vol'.fat.drop 2).countP isFree →
            (scanFreeClusters fresh).2.freeClusters = vol'.freeClusters)) := by
  have after := (mirrored_of_open opened).after_run ran
  refine ⟨after.synced, fun apart flushed flushes readable => ?_⟩
  obtain ⟨kept, sameFat, sameCount, clean⟩ := (flushFat_spec after).of_ok flushes
  have apartAfter : 0 < flushed.reservedSectors := by
    rw [kept.fields.reservedSectors, ← after.fields.reservedSectors]
    exact apart
  obtain ⟨fresh, reopened, freshFat, checks⟩ := kept.reopened apartAfter clean readable
  refine ⟨fresh, reopened, freshFat.trans sameFat, fun exact' => ?_⟩
  have counted : u32 fresh.overflowChecks ((fresh.fat.drop 2).countP isFree) =
      .ok vol'.freeClusters := by
    have bound := after.count
    rw [freshFat, sameFat, ← exact', u32_of_lt _ (Int.natCast_nonneg _) (by omega),
      Int.toNat_natCast]
  unfold scanFreeClusters
  rw [counted]

def uncounted : Fat32 := { formatted with freeClusters := 0 }

def oneSet : Fat32 :=
  (flushFat (uncounted.withEntry 5 eofMark)).2

set_option maxRecDepth 4000 in
theorem fat_on_disk_follows_cache_formatted :
    openDevice false formattedDevice = .ok uncounted ∧
      Synced (uncounted.withEntry 5 eofMark) ∧
      ∃ fresh, openDevice false oneSet.device = .ok fresh ∧
        fresh.fat = (uncounted.withEntry 5 eofMark).fat := by
  have opened : openDevice false formattedDevice = .ok uncounted := rfl
  have ran : Runs.after applyTable uncounted [.set 5 eofMark] =
      some (uncounted.withEntry 5 eofMark) := rfl
  obtain ⟨synced, reopens⟩ := fat_on_disk_follows_cache opened ran
  obtain ⟨fresh, reopened, same, -⟩ := reopens (by decide) oneSet rfl ⟨rfl, fun _ _ => rfl⟩
  exact ⟨opened, synced, fresh, reopened, same⟩

def unreservedDevice : AtaDevice := { formattedDevice with
  disk := fun addr => if addr = 0x0E then 0x00#8 else formattedDisk addr }

def unreserved : Fat32 := { formatted with
  device := unreservedDevice
  reservedSectors := 0
  firstDataSector := 1
  fat := entriesOf (unreservedDevice.sectorAt 0)
  freeClusters := 0 }

def signatureLost : Fat32 :=
  ((setCluster 127 eofMark >>= fun _ => flushFat) unreserved).2

set_option maxRecDepth 4000 in
theorem unreserved_not_reopened :
    openDevice false unreservedDevice = .ok unreserved ∧
      Runs.after applyTable unreserved [.set 127 eofMark] =
        some (unreserved.withEntry 127 eofMark) ∧
      flushFat (unreserved.withEntry 127 eofMark) = (.ok (), signatureLost) ∧
      Readable signatureLost ∧
      ∀ fresh, openDevice false signatureLost.device ≠ .ok fresh := by
  have lost : (openDevice false signatureLost.device).isOk = false := by decide +kernel
  refine ⟨rfl, rfl, rfl, ⟨rfl, fun _ _ => rfl⟩, fun fresh same => ?_⟩
  rw [same] at lost
  cases lost

end MachaOS.Fat.Fat32
