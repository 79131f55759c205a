/-
Directories (`src/fat.rs`): the scan that lists one, the walk along a file's
clusters, path lookup, and the writing and deleting of entries.

A directory is a chain of clusters, a cluster a row of sectors, a sector sixteen
slots of 32 bytes.  The loops of the source are recursions over what is left of a
sector's slots, of a cluster's sectors and of the chain guard.
-/

import MachaOS.Fat.Names

namespace MachaOS.Fat

structure DirEntry where
  name : List Char
  isDir : Bool
  size : Nat
  firstCluster : Nat
  location : Nat × Nat
deriving DecidableEq

abbrev Slot : Type := ByteMemory

structure Scan where
  lfnParts : List (List (BitVec 16))
  out : List DirEntry

/-- Where a stretch of `read_dir` leaves it: at the end mark, or still going. -/
inductive Reading where
  | ended (out : List DirEntry)
  | going (scan : Scan)

def slotAt (sector : Sector) (offset : Nat) : Slot :=
  fun i => sector (offset + i)

def slotsOf (cluster s : Nat) (sector : Sector) : List ((Nat × Nat) × Slot) :=
  (List.range 16).map (fun i => ((cluster, s * 512 + 32 * i), slotAt sector (32 * i)))

def slotPart (slot : Slot) : List (BitVec 16) :=
  (List.range 5).map (fun i => slot.readU16 (1 + i * 2)) ++
    (List.range 6).map (fun i => slot.readU16 (14 + i * 2)) ++
    (List.range 2).map (fun i => slot.readU16 (28 + i * 2))

def slotName (slot : Slot) (lfnParts : List (List (BitVec 16))) : List Char :=
  if lfnParts.isEmpty then sfnName ((List.range 11).map slot) else assembleLfn lfnParts

/-- The entry a slot holds, after the long-name parts before it. -/
def slotEntry (slot : Slot) (place : Nat × Nat) (lfnParts : List (List (BitVec 16))) :
    DirEntry where
  name := slotName slot lfnParts
  isDir := slot 0x0B &&& 0x10#8 ≠ 0#8
  size := (slot.readU32 0x1C).toNat
  firstCluster := (slot.readU16 0x14 ++ slot.readU16 0x1A).toNat
  location := place

/-- Nameless entries, `.` and `..` are not listed. -/
def isListed (name : List Char) : Bool :=
  !name.isEmpty && name ≠ ['.'] && name ≠ ['.', '.']

/-- One turn of the inner loop of `read_dir`; `none` at the end of the directory. -/
def readSlot (slot : Slot) (place : Nat × Nat) (scan : Scan) : Option Scan :=
  if slot 0 = 0x00#8 then none
  else if slot 0 = 0xE5#8 then some { scan with lfnParts := [] }
  else if slot 0x0B = 0x0F#8 then some { scan with lfnParts := slotPart slot :: scan.lfnParts }
  else
    let entry := slotEntry slot place scan.lfnParts
    some { lfnParts := [], out := if isListed entry.name then scan.out ++ [entry] else scan.out }

def readSlots : List ((Nat × Nat) × Slot) → Scan → Reading
  | [], scan => .going scan
  | (place, slot) :: rest, scan =>
      match readSlot slot place scan with
      | none => .ended scan.out
      | some scan => readSlots rest scan

def isVacant (first : BitVec 8) : Bool :=
  first = 0x00#8 || first = 0xE5#8

namespace Fat32

def readSectors (vol : Fat32) (cluster : Nat) : Nat → Nat → Scan → Except Stop Reading
  | 0, _, scan => .ok (.going scan)
  | left + 1, s, scan => do
      let sector ← vol.readClusterSector cluster s
      match readSlots (slotsOf cluster s sector) scan with
      | .ended out => pure (.ended out)
      | .going scan => readSectors vol cluster left (s + 1) scan

/-- The loop of `read_dir`; `left` clusters may still follow. -/
def readClusters (vol : Fat32) : Nat → Nat → Scan → Except Stop (List DirEntry)
  | left, current, scan => do
      match ← vol.readSectors current vol.sectorsPerCluster 0 scan with
      | .ended out => pure out
      | .going scan => do
          let next ← vol.nextCluster current
          if isEof next then pure scan.out
          else if next < 2 then throw (.error .corrupt)
          else
            match left with
            | 0 => throw (.error .corrupt)
            | left + 1 => readClusters vol left next scan

def readDir (vol : Fat32) (cluster : Nat) : Except Stop (List DirEntry) :=
  vol.readClusters chainGuard cluster { lfnParts := [], out := [] }

def bytesOf (sector : Sector) (count : Nat) : List (BitVec 8) :=
  (List.range count).map sector

def takeSectors (vol : Fat32) (cluster : Nat) :
    Nat → Nat → Nat → Except Stop (List (BitVec 8))
  | 0, _, _ => .ok []
  | left + 1, s, remaining => do
      let sector ← vol.readClusterSector cluster s
      if remaining ≤ 512 then pure (bytesOf sector remaining)
      else do
        let rest ← takeSectors vol cluster left (s + 1) (remaining - 512)
        pure (bytesOf sector 512 ++ rest)

/-- The loop of `read_file_data`, with the number of clusters the guard still lets through. -/
def takeClusters (vol : Fat32) : Nat → Nat → Nat → Except Stop (List (BitVec 8))
  | left, cluster, remaining =>
      if remaining = 0 then pure []
      else if cluster < 2 then throw (.error .corrupt)
      else
        match left with
        | 0 => throw (.error .corrupt)
        | left + 1 => do
            let part ← vol.takeSectors cluster vol.sectorsPerCluster 0 remaining
            let next ← vol.nextCluster cluster
            if remaining - part.length > 0 ∧ isEof next then throw (.error .corrupt)
            else do
              let rest ← takeClusters vol left next (remaining - part.length)
              pure (part ++ rest)

def readFileData (vol : Fat32) (firstCluster size : Nat) : Except Stop (List (BitVec 8)) :=
  vol.takeClusters (chainGuard + 1) firstCluster size

/-- The descent of `resolve_parent` and `list_dir` from directory to directory. -/
def descend (vol : Fat32) (path : List (List Char)) (cluster : Nat)
    (readDir : Nat → Except Stop (List DirEntry) := vol.readDir) : Except Stop Nat :=
  match path with
  | [] => .ok cluster
  | component :: rest => do
      let entries ← readDir cluster
      match entries.find? (fun entry => entry.isDir && nameMatches entry.name component) with
      | none => throw (.error .notFound)
      | some dir => descend vol rest dir.firstCluster readDir

def resolveParent (vol : Fat32) (path : List Char)
    (readDir : Nat → Except Stop (List DirEntry) := vol.readDir) : Except Stop (Nat × List Char) :=
  match (components path).getLast? with
  | none => throw (.error .invalidName)
  | some name =>
      if utf8Len name > maxName then throw (.error .invalidName)
      else do
        let cluster ← vol.descend (components path).dropLast vol.rootCluster readDir
        pure (cluster, name)

/-- `find_dir_entry`: a directory that cannot be read has no entries. -/
def findDirEntry (vol : Fat32) (parent : Nat) (name : List Char)
    (readDir : Nat → Except Stop (List DirEntry) := vol.readDir) : Except Stop (Option DirEntry) :=
  match readDir parent with
  | .ok entries => .ok (entries.find? (fun entry => nameMatches entry.name name))
  | .error .panic => .error .panic
  | .error (.error _) => .ok none

/-- The long-name slots before `back` are freed, as far as they follow each other. -/
def freeLfnBefore : Nat → Nat → Sector → Sector
  | 0, _, sector => sector
  | left + 1, back, sector =>
      if sector (back - 32 + 0x0B) = 0x0F#8 then
        freeLfnBefore left (back - 32) (sector.writeByte (back - 32) 0xE5#8)
      else sector

def deleteEntryAt (cluster offset : Nat) : Volume Unit := do
  let sector ← Fallible.query (fun vol => vol.readClusterSector cluster (offset / 512))
  let slotOffset := offset % 512
  writeClusterSector cluster (offset / 512)
    (freeLfnBefore (slotOffset / 32) slotOffset (sector.writeByte slotOffset 0xE5#8))

/-- The inner loop of `find_free_run`, over the slots from `i` on. -/
def runInSector (sector : Sector) (slots : Nat) : Nat → Nat → Nat → Option Nat
  | 0, _, _ => none
  | left + 1, i, run =>
      let run := if isVacant (sector (32 * i)) then run + 1 else 0
      if run = slots then some (32 * i + 32 - slots * 32)
      else runInSector sector slots left (i + 1) run

def runInCluster (vol : Fat32) (cluster slots : Nat) :
    Nat → Nat → Except Stop (Option Nat)
  | 0, _ => .ok none
  | left + 1, s => do
      let sector ← vol.readClusterSector cluster s
      match runInSector sector slots 16 0 0 with
      | some offset => pure (some offset)
      | none => runInCluster vol cluster slots left (s + 1)

def freeRunFrom (vol : Fat32) (slots : Nat) :
    Nat → Nat → Except Stop (Option (Nat × Nat))
  | left, current => do
      match ← vol.runInCluster current slots vol.sectorsPerCluster 0 with
      | some offset => pure (some (current, offset))
      | none => do
          let next ← vol.nextCluster current
          if isEof next then pure none
          else
            match left with
            | 0 => throw (.error .corrupt)
            | left + 1 => freeRunFrom vol slots left next

def findFreeRun (vol : Fat32) (parent slots : Nat) : Except Stop (Option (Nat × Nat)) :=
  vol.freeRunFrom slots chainGuard parent

/-- The walk of `extend_dir` to the end of the chain. -/
def lastCluster (vol : Fat32) : Nat → Nat → Except Stop Nat
  | left, current => do
      let next ← vol.nextCluster current
      if isEof next then pure current
      else
        match left with
        | 0 => throw (.error .corrupt)
        | left + 1 => lastCluster vol left next

def zeroSectors (cluster : Nat) : Nat → Nat → Volume Unit
  | 0, _ => pure ()
  | left + 1, s => do
      writeClusterSector cluster s (fun _ => 0#8)
      zeroSectors cluster left (s + 1)

def extendDir (parent : Nat) : Volume Nat := do
  let newCluster ← allocCluster
  let current ← Fallible.query (fun vol => vol.lastCluster chainGuard parent)
  setCluster current (BitVec.ofNat 32 newCluster)
  let vol ← Fallible.get
  zeroSectors newCluster vol.sectorsPerCluster 0
  pure newCluster

def findPlace (parent slots : Nat) : Volume (Nat × Nat) := do
  match ← Fallible.query (fun vol => vol.findFreeRun parent slots) with
  | some place => pure place
  | none => do
      let newCluster ← extendDir parent
      pure (newCluster, 0)

def writeDirEntries (parent : Nat) (name : List Char) (firstCluster size : Nat) (isDir : Bool) :
    Volume Unit := do
  let vol ← Fallible.get
  let now := vol.device.hardware.rtc vol.device.clock
  let entries := dirEntryBytes name firstCluster size isDir now
  let place ← findPlace parent entries.length
  let sector ← Fallible.query (fun vol => vol.readClusterSector place.1 (place.2 / 512))
  writeClusterSector place.1 (place.2 / 512)
    (sector.writeBytes (place.2 % 512) entries.flatten)

end Fat32
end MachaOS.Fat
