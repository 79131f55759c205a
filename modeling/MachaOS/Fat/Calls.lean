/-
The operations on a volume, and the calls they are made of.

Whatever an operation does to the volume, finished or not, it does through a few
routines: it takes a cluster, sets an entry of the FAT, gives a cluster back, writes a
sector of a cluster, or flushes the FAT.  What each of these keeps, every operation
keeps.
-/

import MachaOS.Fat.Operations
import MachaOS.Lib.Runs

namespace MachaOS.Fat

open Fallible (Keeps keeps_pure keeps_fail keeps_get keeps_query keeps_bind)

inductive Operation where
  | writeFile (path : List Char) (content : List (BitVec 8))
  | makeDir (path : List Char)
  | remove (path : List Char)
  | rename (path newName : List Char)
  | moveFile (src dst : List Char)

def Operation.run : Operation → Volume Unit
  | .writeFile path content => Fat32.writeFile path content
  | .makeDir path => Fat32.makeDir path
  | .remove path => Fat32.remove path
  | .rename path newName => Fat32.rename path newName
  | .moveFile src dst => Fat32.moveFile src dst

inductive Call where
  | alloc
  | set (cluster : Nat) (value : BitVec 32)
  /-- One turn of `free_chain`. -/
  | release (cluster : Nat)
  | write (cluster s : Nat) (sector : Sector)
  | flush

def Call.run : Call → Volume Unit
  | .alloc => do
      let _ ← Fat32.allocCluster
      pure ()
  | .set cluster value => Fat32.setCluster cluster value
  | .release cluster => do
      Fat32.setCluster cluster 0#32
      Fat32.countFreed
  | .write cluster s sector => Fat32.writeClusterSector cluster s sector
  | .flush => Fat32.flushFat

namespace Fat32

variable {invariant : Fat32 → Prop}

section Routines

variable (calls : ∀ call : Call, Keeps invariant call.run)

include calls

theorem keeps_allocCluster : Keeps invariant allocCluster := by
  intro vol holds
  have kept : invariant ((allocCluster >>= fun _ => pure ()) vol).2 := calls .alloc vol holds
  rw [Fallible.bind_run] at kept
  rcases outcome : allocCluster vol with ⟨_ | cluster, after⟩ <;> rw [outcome] at kept <;> exact kept

theorem keeps_allocClusters (needed : Nat) : Keeps invariant (allocClusters needed) := by
  induction needed with
  | zero => exact keeps_pure _
  | succ needed ih =>
      exact keeps_bind (keeps_allocCluster calls) (fun _ => keeps_bind ih (fun _ => keeps_pure _))

theorem keeps_linkClusters (clusters : List Nat) : Keeps invariant (linkClusters clusters) := by
  induction clusters with
  | nil => exact keeps_pure _
  | cons cluster rest ih =>
      cases rest with
      | nil => exact calls (.set cluster eofMark)
      | cons next rest => exact keeps_bind (calls (.set cluster _)) (fun _ => ih)

theorem keeps_freeClustersFrom (left cluster : Nat) :
    Keeps invariant (freeClustersFrom left cluster) := by
  induction left using Nat.strongRecOn generalizing cluster with
  | ind left ih =>
    rw [freeClustersFrom.eq_def]
    dsimp only
    split
    · exact keeps_pure _
    · split
      · exact keeps_fail _
      · cases left with
        | zero => exact keeps_fail _
        | succ left =>
            refine keeps_bind (keeps_query _) (fun next => ?_)
            have released := keeps_bind (calls (.release cluster))
              (fun _ => ih left (Nat.lt_succ_self left) next)
            rw [Call.run, Fallible.bind_assoc] at released
            exact released

theorem keeps_writeSectors (cluster left s : Nat) (content : List (BitVec 8)) :
    Keeps invariant (writeSectors cluster left s content) := by
  induction left generalizing s content with
  | zero => exact keeps_pure _
  | succ left ih =>
      refine keeps_bind (calls (.write cluster s _)) (fun _ => ?_)
      split
      · exact keeps_pure _
      · exact ih _ _

theorem keeps_writeClusters (clusters : List Nat) (content : List (BitVec 8)) :
    Keeps invariant (writeClusters clusters content) := by
  induction clusters generalizing content with
  | nil => exact keeps_pure _
  | cons cluster rest ih =>
      refine keeps_bind keeps_get (fun vol => ?_)
      refine keeps_bind (keeps_writeSectors calls _ _ _ _) (fun content => ?_)
      split
      · exact keeps_pure _
      · exact ih content

theorem keeps_storeContent (content : List (BitVec 8)) :
    Keeps invariant (storeContent content) := by
  refine keeps_bind keeps_get (fun vol => ?_)
  dsimp only
  split
  · exact keeps_pure _
  · refine keeps_bind ?_ (fun clusters => ?_)
    · exact keeps_bind (keeps_allocClusters calls _)
        (fun clusters => keeps_bind (keeps_linkClusters calls _) (fun _ => keeps_pure _))
    · exact keeps_bind (keeps_writeClusters calls _ _) (fun _ => keeps_pure _)

theorem keeps_deleteEntryAt (cluster offset : Nat) :
    Keeps invariant (deleteEntryAt cluster offset) :=
  keeps_bind (keeps_query _) (fun _ => calls (.write cluster _ _))

theorem keeps_replaceExisting (parent : Nat) (name : List Char) :
    Keeps invariant (replaceExisting parent name) := by
  refine keeps_bind (keeps_query _) (fun found => ?_)
  cases found with
  | none => exact keeps_pure _
  | some existing =>
      dsimp only
      split
      · exact keeps_fail _
      · refine keeps_bind (keeps_deleteEntryAt calls _ _) (fun _ => ?_)
        split
        · exact keeps_freeClustersFrom calls _ _
        · exact keeps_pure _

theorem keeps_zeroSectors (cluster left s : Nat) :
    Keeps invariant (zeroSectors cluster left s) := by
  induction left generalizing s with
  | zero => exact keeps_pure _
  | succ left ih => exact keeps_bind (calls (.write cluster s _)) (fun _ => ih _)

theorem keeps_findPlace (parent slots : Nat) : Keeps invariant (findPlace parent slots) := by
  refine keeps_bind (keeps_query _) (fun found => ?_)
  cases found with
  | some place => exact keeps_pure _
  | none =>
      refine keeps_bind ?_ (fun newCluster => keeps_pure _)
      refine keeps_bind (keeps_allocCluster calls) (fun newCluster => ?_)
      refine keeps_bind (keeps_query _) (fun current => ?_)
      refine keeps_bind (calls (.set current _)) (fun _ => keeps_bind keeps_get (fun vol => ?_))
      exact keeps_bind (keeps_zeroSectors calls _ _ _) (fun _ => keeps_pure _)

theorem keeps_writeDirEntries (parent : Nat) (name : List Char) (firstCluster size : Nat)
    (isDir : Bool) : Keeps invariant (writeDirEntries parent name firstCluster size isDir) := by
  refine keeps_bind keeps_get (fun vol => ?_)
  refine keeps_bind (keeps_findPlace calls _ _) (fun place => ?_)
  exact keeps_bind (keeps_query _) (fun sector => calls (.write place.1 _ _))

theorem keeps_writeFile (path : List Char) (content : List (BitVec 8)) :
    Keeps invariant (writeFile path content) := by
  refine keeps_bind (keeps_query _) (fun target => keeps_bind (keeps_query _) (fun _ => ?_))
  refine keeps_bind (keeps_replaceExisting calls _ _) (fun _ => ?_)
  refine keeps_bind (keeps_storeContent calls _) (fun firstCluster => ?_)
  exact keeps_bind (keeps_writeDirEntries calls _ _ _ _ _) (fun _ => calls .flush)

theorem keeps_makeDir (path : List Char) : Keeps invariant (makeDir path) := by
  refine keeps_bind (keeps_query _) (fun target => keeps_bind (keeps_query _) (fun _ => ?_))
  refine keeps_bind (keeps_query _) (fun found => ?_)
  cases found with
  | some entry => exact keeps_fail _
  | none =>
      refine keeps_bind (keeps_allocCluster calls) (fun cluster => ?_)
      refine keeps_bind (calls (.set cluster eofMark)) (fun _ => ?_)
      refine keeps_bind (calls (.write cluster 0 _)) (fun _ => ?_)
      exact keeps_bind (keeps_writeDirEntries calls _ _ _ _ _) (fun _ => calls .flush)

theorem keeps_remove (path : List Char) : Keeps invariant (remove path) := by
  refine keeps_bind (keeps_query _) (fun target => keeps_bind (keeps_query _) (fun found => ?_))
  cases found with
  | none => exact keeps_fail _
  | some entry =>
      refine keeps_bind (keeps_query _) (fun contents => ?_)
      split
      · refine keeps_bind (keeps_deleteEntryAt calls _ _) (fun _ => ?_)
        dsimp only
        split
        · exact keeps_bind (keeps_freeClustersFrom calls _ _) (fun _ => calls .flush)
        · exact calls .flush
      · exact keeps_fail _

theorem keeps_rename (path newName : List Char) : Keeps invariant (rename path newName) := by
  refine keeps_bind (keeps_query _) (fun target => keeps_bind (keeps_query _) (fun _ => ?_))
  split
  · exact keeps_pure _
  · refine keeps_bind (keeps_query _) (fun found => ?_)
    cases found with
    | none => exact keeps_fail _
    | some entry =>
        refine keeps_bind (keeps_query _) (fun taken => ?_)
        split
        · exact keeps_fail _
        · refine keeps_bind (keeps_deleteEntryAt calls _ _) (fun _ => ?_)
          exact keeps_bind (keeps_writeDirEntries calls _ _ _ _ _) (fun _ => calls .flush)

theorem keeps_moveFile (src dst : List Char) : Keeps invariant (moveFile src dst) := by
  unfold moveFile
  split
  · exact keeps_pure _
  · refine keeps_bind (keeps_query _) (fun directory => ?_)
    split
    · refine keeps_bind (keeps_query _) (fun entries => ?_)
      split
      · exact keeps_bind (keeps_makeDir calls _) (fun _ => keeps_remove calls _)
      · exact keeps_fail _
    · refine keeps_bind (keeps_query _) (fun data => ?_)
      exact keeps_bind (keeps_writeFile calls _ _) (fun _ => keeps_remove calls _)

theorem keeps_operation (op : Operation) : Keeps invariant op.run := by
  cases op with
  | writeFile path content => exact keeps_writeFile calls path content
  | makeDir path => exact keeps_makeDir calls path
  | remove path => exact keeps_remove calls path
  | rename path newName => exact keeps_rename calls path newName
  | moveFile src dst => exact keeps_moveFile calls src dst

end Routines

def DeviceOnly (vol vol' : Fat32) : Prop :=
  vol' = { vol with device := vol'.device, fatDirty := vol'.fatDirty }

theorem DeviceOnly.refl (vol : Fat32) : DeviceOnly vol vol := rfl

theorem DeviceOnly.trans (first second third : Fat32) (before : DeviceOnly first second)
    (after : DeviceOnly second third) : DeviceOnly first third := by
  unfold DeviceOnly at before after ⊢
  rw [after, before]

theorem writeSector_deviceOnly (lba : Nat) (sector : Sector) :
    Fallible.Preserves DeviceOnly (writeSector lba sector) :=
  fun _ => rfl

theorem writeClusterSector_deviceOnly (cluster s : Nat) (sector : Sector) :
    Fallible.Preserves DeviceOnly (writeClusterSector cluster s sector) :=
  Fallible.preserves_bind DeviceOnly.trans (fun _ => rfl)
    (fun start => writeSector_deviceOnly (start + s) sector)

theorem flushSectors_deviceOnly (left i : Nat) :
    Fallible.Preserves DeviceOnly (flushSectors left i) := by
  induction left generalizing i with
  | zero => exact Fallible.preserves_pure DeviceOnly.refl _
  | succ left ih =>
      refine Fallible.preserves_bind DeviceOnly.trans (fun _ => rfl) (fun vol => ?_)
      split
      · refine Fallible.preserves_bind DeviceOnly.trans (writeSector_deviceOnly _ _) (fun _ => ?_)
        exact Fallible.preserves_bind DeviceOnly.trans (fun _ => rfl) (fun _ => ih (i + 1))
      · exact ih (i + 1)

theorem flushFat_deviceOnly : Fallible.Preserves DeviceOnly flushFat :=
  Fallible.preserves_bind DeviceOnly.trans (fun _ => rfl) (fun _ => flushSectors_deviceOnly _ 0)

def applyOperation (vol : Fat32) (op : Operation) : Option Fat32 :=
  match op.run vol with
  | (.error .panic, _) => none
  | (_, after) => some after

theorem applyOperation_eq {vol vol' : Fat32} {op : Operation}
    (applied : applyOperation vol op = some vol') : vol' = (op.run vol).2 := by
  unfold applyOperation at applied
  split at applied
  · cases applied
  · rename_i outcome
    rw [outcome]
    exact (Option.some.inj applied).symm

def applyCall (vol : Fat32) (call : Call) : Option Fat32 :=
  some (call.run vol).2

end Fat32
end MachaOS.Fat
