/-
Clusters on a device that works.

The tables of the volume lie before its data, and every cluster that the FAT has an
entry for can be addressed: then a sector of a cluster can always be read and written,
and a write changes that sector alone.
-/

import MachaOS.Fat.Calls
import MachaOS.Fat.Table

namespace MachaOS.Fat

open Chains (IsChain Unreferenced)
open Fallible (Keeps)

structure AtaDevice.Working (device : AtaDevice) : Prop where
  usable : (!device.present || device.atapi) = false
  reads : ∀ clock lba, device.hardware.readError clock lba = none
  writes : ∀ clock lba, device.hardware.writeError clock lba = none

namespace Fat32

variable {vol vol' vol'' : Fat32} {cluster s : Nat}

structure Geometry (vol : Fat32) : Prop where
  working : vol.device.Working
  sectorsPerCluster : 0 < vol.sectorsPerCluster
  entries : vol.fat.length = 128 * vol.fatSizeSectors
  flags : vol.fatDirty.length = vol.fatSizeSectors
  tables : vol.reservedSectors + vol.fatSizeSectors ≤ vol.firstDataSector
  fits : vol.firstDataSector + (vol.fat.length - 2) * vol.sectorsPerCluster ≤
    AtaDevice.lbaLimit

def sectorNumber (vol : Fat32) (cluster s : Nat) : Nat :=
  vol.firstDataSector + (cluster - 2) * vol.sectorsPerCluster + s

def clusterSector (vol : Fat32) (cluster s : Nat) : Sector :=
  vol.device.sectorAt (vol.sectorNumber cluster s)

structure InCluster (vol : Fat32) (cluster s : Nat) : Prop where
  least : 2 ≤ cluster
  inside : cluster < vol.fat.length
  sector : s < vol.sectorsPerCluster

def withSector (vol : Fat32) (cluster s : Nat) (bytes : Sector) : Fat32 :=
  { vol with device := { vol.device with
      clock := vol.device.clock + 1
      disk := AtaDevice.overwrite vol.device.disk (vol.sectorNumber cluster s) bytes } }

section

variable (geometry : Geometry vol) (at' : InCluster vol cluster s)
include geometry at'

theorem Geometry.sectorNumber_lt : vol.sectorNumber cluster s < AtaDevice.lbaLimit := by
  have fits := geometry.fits
  have least := at'.least
  have inside := at'.inside
  have sector := at'.sector
  have row : (cluster - 2 + 1) * vol.sectorsPerCluster ≤
      (vol.fat.length - 2) * vol.sectorsPerCluster := Nat.mul_le_mul_right _ (by omega)
  rw [Nat.succ_mul] at row
  unfold sectorNumber
  omega

theorem Geometry.clusterToSector :
    vol.clusterToSector cluster =
      .ok (vol.firstDataSector + (cluster - 2) * vol.sectorsPerCluster) := by
  have below := geometry.sectorNumber_lt at'
  have limit : AtaDevice.lbaLimit = 2 ^ 28 := rfl
  unfold sectorNumber at below
  exact clusterToSector_of_le geometry.sectorsPerCluster at'.least (by omega)

theorem Geometry.readClusterSector :
    vol.readClusterSector cluster s = .ok (vol.clusterSector cluster s) := by
  have below := geometry.sectorNumber_lt at'
  unfold Fat32.readClusterSector
  rw [geometry.clusterToSector at', Except.ok_bind]
  exact congrArg io (AtaDevice.readSector_of_quiet geometry.working.usable below
    (geometry.working.reads _ _))

theorem Geometry.writeClusterSector (bytes : Sector) :
    Fat32.writeClusterSector cluster s bytes vol =
      (.ok (), vol.withSector cluster s bytes) := by
  have below := geometry.sectorNumber_lt at'
  unfold sectorNumber at below
  unfold Fat32.writeClusterSector
  rw [Fallible.bind_run, Fallible.query_run, geometry.clusterToSector at']
  unfold writeSector AtaDevice.writeSector
  dsimp only
  rw [geometry.working.usable, if_neg (by simp), if_neg (by omega), geometry.working.writes]
  rfl

end

theorem sectorNumber_inj {cluster' s' : Nat} (at' : InCluster vol cluster s)
    (other : InCluster vol cluster' s')
    (same : vol.sectorNumber cluster s = vol.sectorNumber cluster' s') :
    cluster = cluster' ∧ s = s' := by
  have sector := at'.sector
  have sector' := other.sector
  have least := at'.least
  have least' := other.least
  unfold sectorNumber at same
  have equal : vol.sectorsPerCluster * (cluster - 2) + s =
      vol.sectorsPerCluster * (cluster' - 2) + s' := by
    rw [Nat.mul_comm, Nat.mul_comm _ (cluster' - 2)]
    omega
  have quotient := congrArg (· / vol.sectorsPerCluster) equal
  rw [Nat.mul_add_div (by omega), Nat.mul_add_div (by omega), Nat.div_eq_of_lt sector,
    Nat.div_eq_of_lt sector'] at quotient
  have sameCluster : cluster = cluster' := by omega
  subst sameCluster
  exact ⟨rfl, by omega⟩

theorem clusterSector_withSector_self (bytes : Sector) :
    ByteMemory.SameOn bytes ((vol.withSector cluster s bytes).clusterSector cluster s) 0 512 := by
  intro offset _ inside
  exact AtaDevice.overwrite_here _ _ _ (by omega)

theorem clusterSector_withSector_of_ne {cluster' s' : Nat} (bytes : Sector)
    (different : vol.sectorNumber cluster' s' ≠ vol.sectorNumber cluster s) :
    ByteMemory.SameOn (vol.clusterSector cluster' s')
      ((vol.withSector cluster s bytes).clusterSector cluster' s') 0 512 := by
  intro offset _ inside
  refine if_neg ?_
  show (512 * vol.sectorNumber cluster' s' + offset) / 512 ≠ vol.sectorNumber cluster s
  omega

structure SameShape (vol vol' : Fat32) : Prop where
  fields : vol' = { vol with
    device := { vol.device with disk := vol'.device.disk, clock := vol'.device.clock }
    fat := vol'.fat
    fatDirty := vol'.fatDirty
    freeClusters := vol'.freeClusters }
  entries : vol'.fat.length = vol.fat.length
  flags : vol'.fatDirty.length = vol.fatDirty.length

theorem SameShape.refl (vol : Fat32) : SameShape vol vol := ⟨rfl, rfl, rfl⟩

theorem SameShape.trans (first : SameShape vol vol') (second : SameShape vol' vol'') :
    SameShape vol vol'' := by
  refine ⟨?_, second.entries.trans first.entries, second.flags.trans first.flags⟩
  rw [second.fields, first.fields]

theorem SameShape.sectorsPerCluster (same : SameShape vol vol') :
    vol'.sectorsPerCluster = vol.sectorsPerCluster := by
  rw [same.fields]

theorem SameShape.sectorNumber (same : SameShape vol vol') (cluster s : Nat) :
    vol'.sectorNumber cluster s = vol.sectorNumber cluster s := by
  rw [same.fields]
  rfl

theorem SameShape.inCluster (same : SameShape vol vol') :
    InCluster vol' cluster s ↔ InCluster vol cluster s := by
  have width := same.sectorsPerCluster
  have entries := same.entries
  constructor
  · rintro ⟨least, inside, sector⟩
    exact ⟨least, by omega, by omega⟩
  · rintro ⟨least, inside, sector⟩
    exact ⟨least, by omega, by omega⟩

theorem Geometry.of_sameShape (geometry : Geometry vol) (same : SameShape vol vol') :
    Geometry vol' := by
  have entries := same.entries
  have flags := same.flags
  rw [same.fields]
  exact
    { working := ⟨geometry.working.usable, geometry.working.reads, geometry.working.writes⟩
      sectorsPerCluster := geometry.sectorsPerCluster
      entries := entries.trans geometry.entries
      flags := flags.trans geometry.flags
      tables := geometry.tables
      fits := by
        show vol.firstDataSector + (vol'.fat.length - 2) * vol.sectorsPerCluster ≤ _
        rw [entries]
        exact geometry.fits }

theorem sameShape_withEntry (value : BitVec 32) :
    SameShape vol (vol.withEntry cluster value) :=
  ⟨rfl, List.length_set, List.length_set⟩

theorem sameShape_withSector (bytes : Sector) : SameShape vol (vol.withSector cluster s bytes) :=
  ⟨rfl, rfl, rfl⟩

theorem setCluster_shape {start : Fat32} (cluster : Nat) (value : BitVec 32) :
    Keeps (SameShape start) (setCluster cluster value) := by
  intro vol same
  by_cases inside : cluster < vol.fat.length
  · rw [setCluster_of_lt inside]
    exact same.trans (sameShape_withEntry value)
  · rw [setCluster_of_le (Nat.not_lt.mp inside)]
    exact same

theorem sameShape_withCount {freeClusters : Nat} :
    SameShape vol { vol with freeClusters } := ⟨rfl, rfl, rfl⟩

theorem writeSector_shape {start : Fat32} (lba : Nat) (sector : Sector) :
    Keeps (SameShape start) (writeSector lba sector) := by
  intro vol same
  obtain ⟨device, -⟩ := vol.device.writeSector_frame lba sector
  refine same.trans ⟨?_, rfl, rfl⟩
  show { vol with device := (vol.device.writeSector lba sector).2 } = _
  rw [device]
  rfl

theorem flushSectors_shape {start : Fat32} (left i : Nat) :
    Keeps (SameShape start) (flushSectors left i) := by
  induction left generalizing i with
  | zero => exact Fallible.keeps_pure _
  | succ left ih =>
      refine Fallible.keeps_bind Fallible.keeps_get (fun vol => ?_)
      split
      · refine Fallible.keeps_bind (writeSector_shape _ _) (fun _ => ?_)
        refine Fallible.keeps_bind (Fallible.keeps_modify (fun after same => ?_)) (fun _ => ih _)
        exact same.trans ⟨rfl, rfl, List.length_set⟩
      · exact ih _

theorem countFreed_shape {start : Fat32} : Keeps (SameShape start) countFreed := by
  intro vol same
  unfold countFreed
  split
  · exact same.trans sameShape_withCount
  · exact same

theorem call_shape {start : Fat32} (call : Call) : Keeps (SameShape start) call.run := by
  cases call with
  | alloc =>
      refine Fallible.keeps_bind ?_ (fun _ => Fallible.keeps_pure _)
      refine Fallible.keeps_bind (Fallible.keeps_query _) (fun found => ?_)
      cases found with
      | none => exact Fallible.keeps_fail _
      | some cluster =>
          refine Fallible.keeps_bind (setCluster_shape _ _) (fun _ => ?_)
          exact Fallible.keeps_bind
            (Fallible.keeps_modify (fun after same => same.trans sameShape_withCount))
            (fun _ => Fallible.keeps_pure _)
  | set cluster value => exact setCluster_shape cluster value
  | release cluster =>
      exact Fallible.keeps_bind (setCluster_shape cluster _) (fun _ => countFreed_shape)
  | write cluster s sector =>
      exact Fallible.keeps_bind (Fallible.keeps_query _) (fun _ => writeSector_shape _ _)
  | flush => exact Fallible.keeps_bind Fallible.keeps_get (fun _ => flushSectors_shape _ _)

end Fat32
end MachaOS.Fat
