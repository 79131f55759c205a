/-
The operations on a mounted volume (`src/fat.rs`, from `write_file_impl` on).

Without a mounted volume each of them returns `NoDisk`; here one is mounted.
-/

import MachaOS.Fat.Directory
import MachaOS.Lib.Results

namespace MachaOS.Fat.Fat32

/-- `content.len().div_ceil(cluster_bytes)` -/
def clustersFor (vol : Fat32) (size : Nat) : Nat :=
  (size + vol.clusterBytes - 1) / vol.clusterBytes

def allocClusters : Nat → Volume (List Nat)
  | 0 => pure []
  | needed + 1 => do
      let cluster ← allocCluster
      let rest ← allocClusters needed
      pure (cluster :: rest)

def linkClusters : List Nat → Volume Unit
  | [] => pure ()
  | [last] => setCluster last eofMark
  | cluster :: next :: rest => do
      setCluster cluster (BitVec.ofNat 32 next)
      linkClusters (next :: rest)

def sectorOf (bytes : List (BitVec 8)) : Sector :=
  fun offset => bytes.getD offset 0#8

def writeSectors (cluster : Nat) : Nat → Nat → List (BitVec 8) → Volume (List (BitVec 8))
  | 0, _, content => pure content
  | left + 1, s, content => do
      writeClusterSector cluster s (sectorOf (content.take 512))
      if (content.drop 512).isEmpty then pure []
      else writeSectors cluster left (s + 1) (content.drop 512)

def writeClusters : List Nat → List (BitVec 8) → Volume Unit
  | [], _ => pure ()
  | cluster :: rest, content => do
      let vol ← Fallible.get
      let content ← writeSectors cluster vol.sectorsPerCluster 0 content
      if content.isEmpty then pure () else writeClusters rest content

/-- The allocation loop of `write_file_impl` and the links between its clusters. -/
def allocateChain (needed : Nat) : Volume (List Nat) := do
  let clusters ← allocClusters needed
  linkClusters clusters
  pure clusters

/-- The middle of `write_file_impl`: the clusters and the data in them. -/
def storeContent (content : List (BitVec 8)) : Volume Nat := do
  let vol ← Fallible.get
  let needed := vol.clustersFor content.length
  if needed = 0 then pure 0
  else do
    let clusters ← allocateChain needed
    writeClusters clusters content
    pure (clusters.headD 0)

/-- The beginning of `write_file_impl`: a file of that name gives way. -/
def replaceExisting (parent : Nat) (name : List Char) : Volume Unit := do
  match ← Fallible.query (fun vol => vol.findDirEntry parent name) with
  | none => pure ()
  | some existing =>
      if existing.isDir then Fallible.fail (.error .notDir)
      else do
        deleteEntryAt existing.location.1 existing.location.2
        if existing.firstCluster ≠ 0 then freeChain existing.firstCluster else pure ()

def writeFile (path : List Char) (content : List (BitVec 8)) : Volume Unit := do
  let (parent, name) ← Fallible.query (fun vol => vol.resolveParent path)
  Fallible.query (fun _ => validateName name)
  replaceExisting parent name
  let firstCluster ← storeContent content
  writeDirEntries parent name firstCluster (content.length % 2 ^ 32) false
  flushFat

/-- The `.` or `..` slot: a name padded with spaces, the directory attribute and a cluster. -/
def dotSlot (name : List (BitVec 8)) (cluster : Nat) : List (BitVec 8) :=
  let word := le32 (BitVec.ofNat 32 cluster)
  name ++ List.replicate (11 - name.length) 0x20#8 ++ [0x10#8] ++ List.replicate 8 0#8 ++
    word.drop 2 ++ List.replicate 4 0#8 ++ word.take 2 ++ List.replicate 4 0#8

/-- `make_dir`; of the new cluster it writes the first sector. -/
def makeDir (path : List Char) : Volume Unit := do
  let (parent, name) ← Fallible.query (fun vol => vol.resolveParent path)
  Fallible.query (fun _ => validateName name)
  match ← Fallible.query (fun vol => vol.findDirEntry parent name) with
  | some _ => Fallible.fail (.error .alreadyExists)
  | none => do
      let cluster ← allocCluster
      setCluster cluster eofMark
      writeClusterSector cluster 0
        (sectorOf (dotSlot [0x2E#8] cluster ++ dotSlot [0x2E#8, 0x2E#8] parent))
      writeDirEntries parent name cluster 0 true
      flushFat

def remove (path : List Char) : Volume Unit := do
  let (parent, name) ← Fallible.query (fun vol => vol.resolveParent path)
  match ← Fallible.query (fun vol => vol.findDirEntry parent name) with
  | none => Fallible.fail (.error .notFound)
  | some entry => do
      let contents ← Fallible.query (fun vol =>
        if entry.isDir then vol.readDir entry.firstCluster else .ok [])
      if contents.isEmpty then do
        deleteEntryAt entry.location.1 entry.location.2
        if entry.firstCluster ≠ 0 then freeChain entry.firstCluster else pure ()
        flushFat
      else Fallible.fail (.error .notEmpty)

def rename (path newName : List Char) : Volume Unit := do
  let (parent, name) ← Fallible.query (fun vol => vol.resolveParent path)
  Fallible.query (fun _ => validateName newName)
  if name = newName then pure ()
  else do
    match ← Fallible.query (fun vol => vol.findDirEntry parent name) with
    | none => Fallible.fail (.error .notFound)
    | some entry => do
        let taken ← Fallible.query (fun vol => vol.findDirEntry parent newName)
        if taken.isSome then Fallible.fail (.error .alreadyExists)
        else do
          deleteEntryAt entry.location.1 entry.location.2
          writeDirEntries parent newName entry.firstCluster entry.size entry.isDir
          flushFat

def listDir (vol : Fat32) (path : List Char)
    (readDir : Nat → Except Stop (List DirEntry) := vol.readDir) : Except Stop (List DirEntry) := do
  let cluster ← vol.descend (components path) vol.rootCluster readDir
  readDir cluster

def readFile (vol : Fat32) (path : List Char)
    (readDir : Nat → Except Stop (List DirEntry) := vol.readDir)
    (readFileData : Nat → Nat → Except Stop (List (BitVec 8)) := vol.readFileData) :
    Except Stop (List (BitVec 8)) := do
  let (parent, name) ← vol.resolveParent path readDir
  let entries ← readDir parent
  match entries.find? (fun entry => !entry.isDir && nameMatches entry.name name) with
  | none => throw (.error .notFound)
  | some entry => readFileData entry.firstCluster entry.size

def isDir (vol : Fat32) (path : List Char)
    (readDir : Nat → Except Stop (List DirEntry) := vol.readDir) : Except Stop Bool :=
  if path = ['/'] then .ok true
  else do
    let (parent, name) ← vol.resolveParent path readDir
    match ← vol.findDirEntry parent name readDir with
    | some entry => pure entry.isDir
    | none => throw (.error .notFound)

/-- `move_file`: copy and delete. -/
def moveFile (src dst : List Char) : Volume Unit :=
  if src = dst then pure ()
  else do
    let directory ← Fallible.query (fun vol => vol.isDir src)
    if directory then do
      let entries ← Fallible.query (fun vol => vol.listDir src)
      if entries.isEmpty then do
        makeDir dst
        remove src
      else Fallible.fail (.error .notEmpty)
    else do
      let data ← Fallible.query (fun vol => vol.readFile src)
      writeFile dst data
      remove src

def mount (overflowChecks : Bool) (device : AtaDevice) : Except Stop Fat32 :=
  if !device.present || device.atapi then throw (.error .noDisk)
  else do
    let vol ← openDevice overflowChecks device
    match scanFreeClusters vol with
    | (.ok (), vol) => pure vol
    | (.error stop, _) => throw stop

def quietHardware : Hardware where
  readError := fun _ _ => none
  writeError := fun _ _ => none
  residue := fun _ _ => 0#8
  rtc := fun _ => { year := 2026, month := 1, day := 1, hour := 0, minute := 0, second := 0 }

def formattedDisk : ByteMemory := fun addr =>
  match addr with
  | 0x0C => 0x02#8
  | 0x0D => 0x01#8
  | 0x0E => 0x01#8
  | 0x10 => 0x01#8
  | 0x20 => 0x80#8
  | 0x24 => 0x01#8
  | 0x2C => 0x02#8
  | 0x1FE => 0x55#8
  | 0x1FF => 0xAA#8
  | 512 => 0xF8#8
  | 513 => 0xFF#8
  | 514 => 0xFF#8
  | 515 => 0x0F#8
  | 516 => 0xFF#8
  | 517 => 0xFF#8
  | 518 => 0xFF#8
  | 519 => 0x0F#8
  | 520 => 0xFF#8
  | 521 => 0xFF#8
  | 522 => 0xFF#8
  | 523 => 0x0F#8
  | _ => 0x00#8

def formattedDevice : AtaDevice where
  present := true
  atapi := false
  disk := formattedDisk
  clock := 0
  hardware := quietHardware

def formatted : Fat32 where
  overflowChecks := false
  device := formattedDevice
  sectorsPerCluster := 1
  reservedSectors := 1
  fatCount := 1
  fatSizeSectors := 1
  rootCluster := 2
  firstDataSector := 2
  totalSectors := 128
  fat := [0x0FFFFFF8#32, 0x0FFFFFFF#32, 0x0FFFFFFF#32] ++ List.replicate 125 0#32
  fatDirty := [false]
  freeClusters := 125

set_option maxRecDepth 4000 in
theorem mount_formatted : mount false formattedDevice = .ok formatted := rfl

/-- The volume with the directory `SYSTEM` of clusters 3 and 4, which hold these entries, and with this
content in cluster 5. -/
def installedDevice (entries : List (List (BitVec 8))) (content : List (BitVec 8)) : AtaDevice :=
  { formattedDevice with
    disk := fun addr =>
      if 524 ≤ addr ∧ addr < 536 then
        (le32 4#32 ++ le32 0x0FFFFFFF#32 ++ le32 0x0FFFFFFF#32).getD (addr - 524) 0#8
      else if 1024 ≤ addr ∧ addr < 1056 then
        (sfnEntry "SYSTEM".toList 3 0 true (quietHardware.rtc 0)).getD (addr - 1024) 0#8
      else if 1536 ≤ addr ∧ addr < 2560 then entries.flatten.getD (addr - 1536) 0#8
      else if 2560 ≤ addr ∧ addr < 3072 then content.getD (addr - 2560) 0#8
      else formattedDisk addr }

def installed (entries : List (List (BitVec 8))) (content : List (BitVec 8)) : Fat32 :=
  { formatted with
    device := installedDevice entries content
    fat := [0x0FFFFFF8#32, 0x0FFFFFFF#32, 0x0FFFFFFF#32, 4#32, 0x0FFFFFFF#32, 0x0FFFFFFF#32] ++
      List.replicate 122 0#32
    freeClusters := 122 }

end MachaOS.Fat.Fat32
