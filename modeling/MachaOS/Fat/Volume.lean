/-
A mounted FAT32 volume (`src/fat.rs`): the fields `open` reads from the boot
sector, the FAT cached in memory, and the routines that work on the FAT alone.

Routines that change the volume run over it and may stop half way; routines that
only look at it are functions of the volume.  A slice index out of range is a
`panic`.  `u32` arithmetic goes through `u32`, which wraps or panics as the build
has it.
-/

import MachaOS.Fat.Device

namespace MachaOS.Fat

inductive FatError where
  | noDisk
  | io (message : String)
  | invalidVolume
  | notFound
  | notDir
  | alreadyExists
  | notEmpty
  | invalidName
  | outOfSpace
  | corrupt
deriving DecidableEq

inductive Stop where
  | error (error : FatError)
  | panic
deriving DecidableEq

/-- `map_err(FatError::Io)?` -/
def io {α : Type} : Except String α → Except Stop α
  | .ok value => .ok value
  | .error message => .error (.error (.io message))

/-- The exact result of `u32` arithmetic, as the machine keeps it: with overflow checks a
result that does not fit panics, without them it wraps. -/
def u32 (overflowChecks : Bool) (exact : Int) : Except Stop Nat :=
  if 0 ≤ exact ∧ exact.toNat < 2 ^ 32 then .ok exact.toNat
  else if overflowChecks then .error .panic
  else .ok (exact % 2 ^ 32).toNat

def eofMark : BitVec 32 := 0x0FFFFFFF#32
def clusterMask : BitVec 32 := 0x0FFFFFFF#32
def chainGuard : Nat := 1000000
def maxName : Nat := 128

structure Fat32 where
  overflowChecks : Bool
  device : AtaDevice
  sectorsPerCluster : Nat
  reservedSectors : Nat
  fatCount : Nat
  fatSizeSectors : Nat
  rootCluster : Nat
  firstDataSector : Nat
  totalSectors : Nat
  fat : List (BitVec 32)
  fatDirty : List Bool
  freeClusters : Nat

abbrev Volume (α : Type) : Type :=
  Fallible Fat32 Stop α

namespace Fat32

def entriesOf (sector : Sector) : List (BitVec 32) :=
  (List.range 128).map (fun j => sector.readU32 (4 * j))

/-- The loop of `open` that caches the FAT, over the sectors still to be read. -/
def readFat (device : AtaDevice) (reservedSectors : Nat) :
    Nat → Nat → Except Stop (List (BitVec 32))
  | 0, _ => .ok []
  | left + 1, i => do
      let sector ← io (device.readSector (reservedSectors + i))
      let rest ← readFat device reservedSectors left (i + 1)
      pure (entriesOf sector ++ rest)

def isPowerOfTwo (value : Nat) : Bool :=
  (List.range 8).any (fun bit => value = 2 ^ bit)

/-- The FAT and its flags in memory; without room for one of them the kernel stops. -/
def cacheFat (allocates : Nat → Bool) (device : AtaDevice) (reservedSectors fatSizeSectors : Nat) :
    Except Stop (List (BitVec 32)) :=
  if allocates (fatSizeSectors * 512) then do
    let fat ← readFat device reservedSectors fatSizeSectors 0
    if allocates fatSizeSectors then pure fat else throw .panic
  else throw .panic

/-- `open`; `allocates` says whether the heap has a block of so many bytes. -/
def openDevice (overflowChecks : Bool) (device : AtaDevice) (allocates : Nat → Bool := fun _ => true) :
    Except Stop Fat32 := do
  let sector ← io (device.readSector 0)
  let bytesPerSector := (sector.readU16 0x0B).toNat
  let sectorsPerCluster := (sector 0x0D).toNat
  let reservedSectors := (sector.readU16 0x0E).toNat
  let fatCount := (sector 0x10).toNat
  let totalSectors := (sector.readU32 0x20).toNat
  let fatSizeSectors := (sector.readU32 0x24).toNat
  let rootCluster := (sector.readU32 0x2C).toNat
  if bytesPerSector ≠ 512 ∨ sectorsPerCluster = 0 ∨ isPowerOfTwo sectorsPerCluster = false ∨
      sector 0x1FE ≠ 0x55#8 ∨ sector 0x1FF ≠ 0xAA#8 ∨ fatSizeSectors = 0 ∨ rootCluster < 2 ∨
      totalSectors = 0 then
    throw (.error .invalidVolume)
  let tables ← u32 overflowChecks (fatCount * fatSizeSectors)
  let firstDataSector ← u32 overflowChecks (reservedSectors + tables)
  let fat ← cacheFat allocates device reservedSectors fatSizeSectors
  pure
    { overflowChecks
      device
      sectorsPerCluster
      reservedSectors
      fatCount
      fatSizeSectors
      rootCluster
      firstDataSector
      totalSectors
      fat
      fatDirty := List.replicate fatSizeSectors false
      freeClusters := 0 }

def clusterToSector (vol : Fat32) (cluster : Nat) : Except Stop Nat := do
  let index ← u32 vol.overflowChecks (cluster - 2)
  let offset ← u32 vol.overflowChecks (index * vol.sectorsPerCluster)
  u32 vol.overflowChecks (vol.firstDataSector + offset)

def nextCluster (vol : Fat32) (cluster : Nat) : Except Stop Nat :=
  match vol.fat[cluster]? with
  | some entry => .ok (entry &&& clusterMask).toNat
  | none => .error .panic

def isEof (cluster : Nat) : Bool :=
  cluster ≥ eofMark.toNat

def isFree (entry : BitVec 32) : Bool :=
  entry &&& clusterMask = 0#32

def clusterBytes (vol : Fat32) : Nat :=
  vol.sectorsPerCluster * 512

/-- `device.read_sectors(self.cluster_to_sector(cluster) + s, 1, ..)` -/
def readClusterSector (vol : Fat32) (cluster s : Nat) : Except Stop Sector := do
  let start ← vol.clusterToSector cluster
  io (vol.device.readSector (start + s))

def scanFreeClusters : Volume Unit := fun vol =>
  match u32 vol.overflowChecks ((vol.fat.drop 2).countP isFree) with
  | .ok free => (.ok (), { vol with freeClusters := free })
  | .error stop => (.error stop, vol)

def setCluster (cluster : Nat) (value : BitVec 32) : Volume Unit := fun vol =>
  if cluster < vol.fat.length then
    (.ok (), { vol with
      fat := vol.fat.set cluster value
      fatDirty := vol.fatDirty.set (cluster / 128) true })
  else (.error .panic, vol)

/-- The first free cluster of the loop in `alloc_cluster`. -/
def firstFree (vol : Fat32) : Option Nat :=
  (List.range' 2 (vol.fat.length - 2)).find? (fun cluster => vol.fat[cluster]?.any isFree)

def allocCluster : Volume Nat := do
  match ← Fallible.query (fun vol => .ok vol.firstFree) with
  | none => Fallible.fail (.error .outOfSpace)
  | some cluster => do
      setCluster (cluster % 2 ^ 32) eofMark
      Fallible.modify (fun vol => { vol with freeClusters := vol.freeClusters - 1 })
      pure (cluster % 2 ^ 32)

/-- `self.free_clusters += 1` -/
def countFreed : Volume Unit := fun vol =>
  match u32 vol.overflowChecks (vol.freeClusters + 1) with
  | .ok free => (.ok (), { vol with freeClusters := free })
  | .error stop => (.error stop, vol)

/-- The loop of `free_chain`, with the number of clusters the guard still lets through. -/
def freeClustersFrom : Nat → Nat → Volume Unit
  | left, cluster =>
      if isEof cluster then pure ()
      else if cluster < 2 then Fallible.fail (.error .corrupt)
      else
        match left with
        | 0 => Fallible.fail (.error .corrupt)
        | left + 1 => do
            let next ← Fallible.query (fun vol => vol.nextCluster cluster)
            setCluster cluster 0#32
            countFreed
            freeClustersFrom left next

def freeChain (cluster : Nat) : Volume Unit :=
  freeClustersFrom (chainGuard + 1) cluster

def writeSector (lba : Nat) (sector : Sector) : Volume Unit := fun vol =>
  let (result, device) := vol.device.writeSector lba sector
  (io result, { vol with device })

/-- `device.write_sectors(self.cluster_to_sector(cluster) + s, 1, ..)` -/
def writeClusterSector (cluster s : Nat) (sector : Sector) : Volume Unit := do
  let start ← Fallible.query (fun vol => vol.clusterToSector cluster)
  writeSector (start + s) sector

def fatSector (vol : Fat32) (i : Nat) : Sector := fun offset =>
  (vol.fat.getD (i * 128 + offset / 4) 0#32).extractLsb' (8 * (offset % 4)) 8

/-- The loop of `flush_fat` over the sectors from `i` on. -/
def flushSectors : Nat → Nat → Volume Unit
  | 0, _ => pure ()
  | left + 1, i => do
      let vol ← Fallible.get
      if vol.fatDirty.getD i false then do
        writeSector (vol.reservedSectors + i) (vol.fatSector i)
        Fallible.modify (fun vol => { vol with fatDirty := vol.fatDirty.set i false })
        flushSectors left (i + 1)
      else flushSectors left (i + 1)

def flushFat : Volume Unit := do
  let vol ← Fallible.get
  flushSectors vol.fatDirty.length 0

end Fat32
end MachaOS.Fat
