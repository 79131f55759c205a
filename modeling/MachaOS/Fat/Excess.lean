/-
Entries of the FAT beyond the last cluster of the volume.

The FAT is sized in whole sectors and may have entries for clusters that the volume does
not have.  Nothing in the driver tells them from the others: a free one is counted, and
taken in its turn.
-/

import MachaOS.Fat.Calls
import MachaOS.Fat.Opening
import MachaOS.Fat.Table

namespace MachaOS.Fat.Fat32

open List Fallible

variable {vol vol' : Fat32} {cluster : Nat}

def InsideVolume (vol : Fat32) (cluster : Nat) : Prop :=
  (2 ≤ cluster ∧ cluster < 2 ^ 32) ∧
    vol.firstDataSector + (cluster - 2) * vol.sectorsPerCluster + vol.sectorsPerCluster ≤
      vol.totalSectors

instance (vol : Fat32) : DecidablePred vol.InsideVolume := fun _ =>
  inferInstanceAs (Decidable (_ ∧ _))

def FreeEntry (vol : Fat32) (cluster : Nat) : Prop :=
  2 ≤ cluster ∧ cluster < vol.fat.length ∧ isFree (vol.fat.getD cluster 0#32) = true

instance (vol : Fat32) : DecidablePred vol.FreeEntry := fun _ =>
  inferInstanceAs (Decidable (_ ∧ _ ∧ _))

structure AllocatesInside (vol : Fat32) : Prop where
  allocates : ∀ cluster after, allocCluster vol = (.ok cluster, after) →
    ∃ start, vol.clusterToSector cluster = .ok start ∧
      start + vol.sectorsPerCluster ≤ vol.totalSectors
  counts : vol.freeClusters =
    (List.range vol.fat.length).countP
      (fun cluster => vol.FreeEntry cluster ∧ vol.InsideVolume cluster)
  exhausted : (∀ cluster, vol.FreeEntry cluster → ¬ vol.InsideVolume cluster) →
    (allocCluster vol).1 = .error (.error .outOfSpace)

structure Spared (vol : Fat32) : Prop where
  total : vol.totalSectors < 2 ^ 32
  sectorsPerCluster : 0 < vol.sectorsPerCluster
  inside : ∀ cluster, vol.FreeEntry cluster → vol.InsideVolume cluster
  counted : vol.freeClusters = (vol.fat.drop 2).countP isFree

theorem clusterToSector_of_inside (total : vol.totalSectors < 2 ^ 32)
    (sectorsPerCluster : 0 < vol.sectorsPerCluster) (inside : vol.InsideVolume cluster) :
    ∃ start, vol.clusterToSector cluster = .ok start ∧
      start + vol.sectorsPerCluster ≤ vol.totalSectors := by
  obtain ⟨⟨least, -⟩, below⟩ := inside
  have product : ((cluster - 2 : Nat) : Int) * vol.sectorsPerCluster =
      ((cluster - 2) * vol.sectorsPerCluster : Nat) := by push_cast; rfl
  have index : cluster - 2 ≤ (cluster - 2) * vol.sectorsPerCluster :=
    Nat.le_mul_of_pos_right _ sectorsPerCluster
  refine ⟨vol.firstDataSector + (cluster - 2) * vol.sectorsPerCluster, ?_, by omega⟩
  unfold clusterToSector
  rw [u32_of_lt _ (by omega) (by omega), Except.ok_bind,
    show ((cluster : Int) - 2).toNat = cluster - 2 by omega, product,
    u32_of_lt _ (by omega) (by omega), Except.ok_bind, u32_of_lt _ (by omega) (by omega)]
  rfl

theorem countFree_eq (vol : Fat32) :
    (vol.fat.drop 2).countP isFree =
      (List.range vol.fat.length).countP (fun cluster => decide (vol.FreeEntry cluster)) := by
  have entries : vol.fat.drop 2 =
      (List.range' 2 (vol.fat.length - 2)).map (fun cluster => vol.fat.getD cluster 0#32) := by
    refine ext_getElem (by simp) (fun i inside inside' => ?_)
    rw [getElem_drop, getElem_map, getElem_range', getD_eq_getElem?_getD,
      List.getElem?_eq_getElem (by rw [length_drop] at inside; omega)]
    simp
  rw [entries, countP_map]
  by_cases few : vol.fat.length < 2
  · rw [show vol.fat.length - 2 = 0 by omega, List.range'_zero, countP_nil, eq_comm,
      countP_eq_zero]
    intro cluster mem free
    have between := of_decide_eq_true free
    rw [mem_range] at mem
    exact absurd between.1 (by omega)
  · have split : List.range vol.fat.length = [0, 1] ++ List.range' 2 (vol.fat.length - 2) := by
      rw [range_eq_range', show ([0, 1] : List Nat) = List.range' 0 2 from rfl,
        List.range'_append_1, show 2 + (vol.fat.length - 2) = vol.fat.length by omega]
    rw [split, countP_append, show List.countP (fun cluster => decide (vol.FreeEntry cluster))
      [0, 1] = 0 by simp [FreeEntry], Nat.zero_add]
    refine countP_congr (fun cluster mem => ?_)
    obtain ⟨least, below⟩ := mem_range'_1.mp mem
    exact ⟨fun free => decide_eq_true ⟨least, by omega, free⟩,
      fun free => (of_decide_eq_true free).2.2⟩

theorem Spared.countFree_lt (spared : Spared vol) :
    (vol.fat.drop 2).countP isFree ≤ vol.totalSectors := by
  have few : ((vol.fat.drop 2).drop vol.totalSectors).countP isFree = 0 := by
    rw [countP_eq_zero]
    intro entry mem free
    obtain ⟨i, inside, rfl⟩ := getElem_of_mem mem
    rw [length_drop, length_drop] at inside
    rw [getElem_drop, getElem_drop] at free
    have below := (spared.inside (2 + (vol.totalSectors + i)) ⟨by omega, by omega, by
      rw [getD_eq_getElem?_getD, List.getElem?_eq_getElem (by omega)]
      exact free⟩).2
    have index : vol.totalSectors + i ≤ (vol.totalSectors + i) * vol.sectorsPerCluster :=
      Nat.le_mul_of_pos_right _ spared.sectorsPerCluster
    have positive := spared.sectorsPerCluster
    rw [show 2 + (vol.totalSectors + i) - 2 = vol.totalSectors + i by omega] at below
    omega
  rw [← take_append_drop vol.totalSectors (vol.fat.drop 2), countP_append, few, Nat.add_zero]
  exact countP_le_length.trans (length_take_le _ _)

theorem freeEntry_of_firstFree (found : vol.firstFree = some cluster) :
    vol.FreeEntry cluster := by
  obtain ⟨least, inside, free, -⟩ := firstFree_eq_some found
  exact ⟨least, inside, free⟩

theorem Spared.allocCluster_run (spared : Spared vol) (found : vol.firstFree = some cluster) :
    allocCluster vol = (.ok cluster, vol.allocated cluster) := by
  obtain ⟨-, inside, -, -⟩ := firstFree_eq_some found
  have small := (spared.inside cluster (freeEntry_of_firstFree found)).1.2
  simp only [allocCluster, bind_run, query_run, found, Nat.mod_eq_of_lt small,
    setCluster_of_lt inside, modify_run, pure_run]
  rfl

theorem Spared.allocatesInside (spared : Spared vol) : AllocatesInside vol := by
  refine ⟨fun cluster after allocates => ?_, ?_, fun none' => ?_⟩
  · cases found : vol.firstFree with
    | none =>
        rw [allocCluster_of_none found] at allocates
        cases allocates
    | some taken =>
        rw [spared.allocCluster_run found] at allocates
        cases allocates
        exact clusterToSector_of_inside spared.total spared.sectorsPerCluster
          (spared.inside cluster (freeEntry_of_firstFree found))
  · rw [spared.counted, countFree_eq]
    refine countP_congr (fun cluster _ => ?_)
    rw [decide_eq_true_iff, decide_eq_true_iff]
    exact ⟨fun free => ⟨free, spared.inside cluster free⟩, And.left⟩
  · cases found : vol.firstFree with
    | none => rw [allocCluster_of_none found]
    | some taken =>
        have free := freeEntry_of_firstFree found
        exact absurd (spared.inside taken free) (none' taken free)

/-- A call under which the free entries stay those that `alloc_cluster` may take: an entry that
is set stays free, or taken, as it was, and what is given back is a taken cluster of the volume. -/
def Orderly (vol : Fat32) : Call → Prop
  | .set cluster value =>
      2 ≤ cluster → cluster < vol.fat.length →
        isFree (vol.fat.getD cluster 0#32) = isFree value
  | .release cluster =>
      cluster < vol.fat.length → vol.InsideVolume cluster ∧ ¬ vol.FreeEntry cluster
  | .alloc | .write _ _ _ | .flush => True

theorem freeEntry_withEntry {value : BitVec 32} {other : Nat}
    (free : (vol.withEntry cluster value).FreeEntry other) :
    vol.FreeEntry other ∨ other = cluster ∧ isFree value = true := by
  obtain ⟨least, inside, isFree'⟩ := free
  have length : (vol.withEntry cluster value).fat.length = vol.fat.length := length_set
  rw [length] at inside
  by_cases same : other = cluster
  · subst same
    refine Or.inr ⟨rfl, ?_⟩
    rw [getD_eq_getElem?_getD] at isFree'
    rwa [show (vol.withEntry other value).fat[other]? = some value from
      List.getElem?_set_self inside] at isFree'
  · refine Or.inl ⟨least, inside, ?_⟩
    rwa [getD_eq_getElem?_getD, withEntry_getElem? same, ← getD_eq_getElem?_getD]
      at isFree'

theorem Spared.alloc (spared : Spared vol) (found : vol.firstFree = some cluster) :
    Spared (vol.allocated cluster) := by
  obtain ⟨least, inside, free, -⟩ := firstFree_eq_some found
  refine ⟨spared.total, spared.sectorsPerCluster, fun other otherFree => ?_, ?_⟩
  · rcases freeEntry_withEntry (show (vol.withEntry cluster eofMark).FreeEntry other from
      otherFree) with before | ⟨-, never⟩
    · exact spared.inside other before
    · cases never
  · have counted := @countFree_withEntry vol cluster eofMark least inside
    have before := spared.counted
    rw [if_pos free, if_neg (by decide)] at counted
    show vol.freeClusters - 1 = ((vol.withEntry cluster eofMark).fat.drop 2).countP isFree
    omega

theorem Spared.set (spared : Spared vol) {value : BitVec 32}
    (orderly : Orderly vol (.set cluster value)) (inside : cluster < vol.fat.length) :
    Spared (vol.withEntry cluster value) := by
  by_cases least : 2 ≤ cluster
  · have same := orderly least inside
    refine ⟨spared.total, spared.sectorsPerCluster, fun other otherFree => ?_, ?_⟩
    · rcases freeEntry_withEntry otherFree with before | ⟨rfl, free⟩
      · exact spared.inside other before
      · exact spared.inside other ⟨least, inside, same.trans free⟩
    · have counted := @countFree_withEntry vol cluster value least inside
      have before := spared.counted
      rw [same] at counted
      show vol.freeClusters = ((vol.withEntry cluster value).fat.drop 2).countP isFree
      omega
  · refine ⟨spared.total, spared.sectorsPerCluster, fun other otherFree => ?_, ?_⟩
    · rcases freeEntry_withEntry otherFree with before | ⟨rfl, -⟩
      · exact spared.inside other before
      · exact absurd otherFree.1 least
    · show vol.freeClusters = ((vol.fat.set cluster value).drop 2).countP isFree
      rw [drop_set_of_lt (by omega)]
      exact spared.counted

theorem Spared.release (spared : Spared vol)
    (orderly : Orderly vol (.release cluster)) (inside : cluster < vol.fat.length) :
    (Call.release cluster).run vol = (.ok (), vol.freed cluster) ∧
      Spared (vol.freed cluster) := by
  obtain ⟨place, taken⟩ := orderly inside
  have least := place.1.1
  have isTaken : isFree (vol.fat.getD cluster 0#32) = false := by
    rw [Bool.eq_false_iff]
    exact fun free => taken ⟨least, inside, free⟩
  have counted := @countFree_withEntry vol cluster 0#32 least inside
  rw [isTaken, if_neg (by decide), if_pos (by decide), Nat.add_zero] at counted
  have before := spared.counted
  have kept : Spared (vol.freed cluster) := by
    refine ⟨spared.total, spared.sectorsPerCluster, fun other otherFree => ?_, ?_⟩
    · rcases freeEntry_withEntry (show (vol.withEntry cluster 0#32).FreeEntry other from
        otherFree) with earlier | ⟨rfl, -⟩
      · exact spared.inside other earlier
      · exact place
    · show vol.freeClusters + 1 = ((vol.withEntry cluster 0#32).fat.drop 2).countP isFree
      omega
  have bound : vol.freeClusters + 1 < 2 ^ 32 := by
    have few := kept.countFree_lt
    rw [← kept.counted] at few
    exact Nat.lt_of_le_of_lt few spared.total
  refine ⟨?_, kept⟩
  show (setCluster cluster 0#32 >>= fun _ => countFreed) vol = _
  rw [bind_of_ok (setCluster_of_lt inside), countFreed,
    u32_of_lt _ (by omega) (by simp only [withEntry]; omega)]
  rfl

theorem Spared.of_deviceOnly (spared : Spared vol) (same : DeviceOnly vol vol') :
    Spared vol' := by
  rw [same]
  exact ⟨spared.total, spared.sectorsPerCluster, spared.inside, spared.counted⟩

theorem Spared.call (spared : Spared vol) {call : Call} (orderly : Orderly vol call) :
    Spared (call.run vol).2 := by
  cases call with
  | alloc =>
      show Spared ((allocCluster >>= fun _ => pure ()) vol).2
      cases found : vol.firstFree with
      | none =>
          rw [bind_of_error (allocCluster_of_none found)]
          exact spared
      | some cluster =>
          rw [bind_of_ok (spared.allocCluster_run found)]
          exact spared.alloc found
  | set cluster value =>
      show Spared (setCluster cluster value vol).2
      by_cases inside : cluster < vol.fat.length
      · rw [setCluster_of_lt inside]
        exact spared.set orderly inside
      · rw [setCluster_of_le (Nat.not_lt.mp inside)]
        exact spared
  | release cluster =>
      by_cases inside : cluster < vol.fat.length
      · obtain ⟨ran, kept⟩ := spared.release orderly inside
        rw [ran]
        exact kept
      · show Spared ((setCluster cluster 0#32 >>= fun _ => countFreed) vol).2
        rw [bind_of_error (setCluster_of_le (Nat.not_lt.mp inside))]
        exact spared
  | write cluster s sector =>
      exact spared.of_deviceOnly (writeClusterSector_deviceOnly cluster s sector vol)
  | flush => exact spared.of_deviceOnly (flushFat_deviceOnly vol)

theorem spared_of_scan {opened : Fat32} (total : opened.totalSectors < 2 ^ 32)
    (sectorsPerCluster : 0 < opened.sectorsPerCluster)
    (inside : ∀ cluster, opened.FreeEntry cluster → opened.InsideVolume cluster) :
    ∃ scanned, scanFreeClusters opened = (.ok (), scanned) ∧ Spared scanned := by
  have spared : Spared { opened with freeClusters := (opened.fat.drop 2).countP isFree } :=
    ⟨total, sectorsPerCluster, inside, rfl⟩
  have few := spared.countFree_lt
  refine ⟨_, ?_, spared⟩
  unfold scanFreeClusters
  rw [u32_of_lt _ (Int.natCast_nonneg _) (by dsimp only at few; omega), Int.toNat_natCast]

theorem spared_of_mount {overflowChecks : Bool} {device : AtaDevice}
    (mounted : mount overflowChecks device = .ok vol)
    (inside : ∀ cluster, vol.FreeEntry cluster → vol.InsideVolume cluster) :
    Spared vol := by
  unfold mount at mounted
  split at mounted
  · cases mounted
  · obtain ⟨opened, opens, scans⟩ := Except.bind_eq_ok.mp mounted
    obtain ⟨boot, firstDataSector, fat, -, accepted, -, -, described⟩ := openDevice_eq_ok opens
    obtain ⟨freeClusters, frame⟩ := scanFreeClusters_run opened
    have total : opened.totalSectors < 2 ^ 32 := by
      rw [described]
      exact (boot.readU32 0x20).isLt
    have positive := (laid_of_open opens).sectorsPerCluster
    rcases outcome : scanFreeClusters opened with ⟨_ | _, scanned⟩
    · rw [outcome] at scans
      cases scans
    · rw [outcome] at scans frame
      have same : scanned = vol := Except.ok.inj scans
      have scannedSame : scanned = { opened with freeClusters } := frame
      rw [← same, scannedSame] at inside
      obtain ⟨again, scanAgain, spared⟩ := spared_of_scan total positive inside
      rw [outcome] at scanAgain
      have agree : scanned = again := congrArg Prod.snd scanAgain
      rw [← same, agree]
      exact spared

/-- Every operation is a sequence of calls. -/
theorem operation_calls (op : Operation) (vol : Fat32) :
    ∃ calls, Runs.after applyCall vol calls = some (op.run vol).2 := by
  refine @keeps_operation (fun after => ∃ calls, Runs.after applyCall vol calls = some after) ?_ op
    vol ⟨[], rfl⟩
  rintro call before ⟨calls, ran⟩
  exact ⟨calls ++ [call], Runs.after_append.mpr ⟨before, ran, rfl⟩⟩

/-- Where every free entry of the FAT is that of a cluster of the volume, and the calls keep it
so, each cluster that is allocated lies inside the volume, only such clusters are counted, and
without one the volume is full.  What an operation does next is a run of calls too. -/
theorem allocation_stays_inside {overflowChecks : Bool} {device : AtaDevice} {calls : List Call}
    (mounted : mount overflowChecks device = .ok vol)
    (inside : ∀ cluster, vol.FreeEntry cluster → vol.InsideVolume cluster)
    (orderly : Runs.Meets applyCall Orderly vol calls)
    (ran : Runs.after applyCall vol calls = some vol') :
    AllocatesInside vol' ∧
      ∀ op : Operation, ∃ more, Runs.after applyCall vol (calls ++ more) = some (op.run vol').2 := by
  have spared := spared_of_mount mounted inside
  refine ⟨Spared.allocatesInside (Runs.after_invariant ?_ spared orderly ran), fun op => ?_⟩
  · intro before call next kept allowed applied
    rw [← Option.some.inj applied]
    exact kept.call allowed
  · obtain ⟨more, again⟩ := operation_calls op vol'
    exact ⟨more, Runs.after_append.mpr ⟨vol', ran, again⟩⟩

/-- Two clusters are taken and linked, the second is given back and taken again. -/
def linkedCalls : List Call := [.alloc, .alloc, .set 3 4#32, .release 4, .flush, .alloc]

theorem allocation_stays_inside_linked : ∃ after,
    Runs.after applyCall formatted linkedCalls = some after ∧
      (after.fat.drop 2).take 4 = [0x0FFFFFFF#32, 4#32, 0x0FFFFFFF#32, 0#32] ∧
      AllocatesInside after := by
  have inside : ∀ cluster, formatted.FreeEntry cluster → formatted.InsideVolume cluster := by
    rintro cluster ⟨least, below, -⟩
    have length : formatted.fat.length = 128 := by decide +kernel
    rw [length] at below
    exact ⟨⟨least, by omega⟩, show 2 + (cluster - 2) * 1 + 1 ≤ 128 by omega⟩
  have orderly : Runs.Meets applyCall Orderly formatted linkedCalls := by
    refine ⟨trivial, fun _ one => ⟨trivial, fun _ two => ⟨?_, fun _ linked => ⟨?_, fun _ freed =>
      ⟨trivial, fun _ flushed => ⟨trivial, fun _ _ => trivial⟩⟩⟩⟩⟩⟩
    · obtain rfl := Option.some.inj one
      obtain rfl := Option.some.inj two
      exact fun _ _ => by decide +kernel
    · obtain rfl := Option.some.inj one
      obtain rfl := Option.some.inj two
      obtain rfl := Option.some.inj linked
      exact fun _ => by decide +kernel
  exact ⟨_, rfl, by decide +kernel,
    (allocation_stays_inside mount_formatted inside orderly rfl).1⟩

def shortDevice : AtaDevice := { formattedDevice with
  disk := fun addr => if addr = 0x20 then 64#8 else formattedDisk addr }

def short : Fat32 := { formatted with
  device := shortDevice
  totalSectors := 64 }

set_option maxRecDepth 4000 in
/-- When 61 clusters have been taken, all of them, the next one is the sector after the last. -/
theorem short_allocates_outside :
    mount false shortDevice = .ok short ∧ ¬ AllocatesInside short ∧
      ∃ full, Runs.after applyCall short (List.replicate 61 .alloc) = some full ∧
        (allocCluster full).1 = .ok 64 ∧ full.clusterToSector 64 = .ok 64 := by
  refine ⟨rfl, fun allocates => ?_, _, rfl, ?_, ?_⟩
  · have miscounted : short.freeClusters ≠ (List.range short.fat.length).countP
        (fun cluster => short.FreeEntry cluster ∧ short.InsideVolume cluster) := by decide +kernel
    exact miscounted allocates.counts
  · decide +kernel
  · decide +kernel

end MachaOS.Fat.Fat32
