/-
What `write_file_impl` puts into new clusters, `read_file_data` reads back.

The entries of the FAT are arbitrary: the clusters taken are free ones, wherever they
lie, and a chain through them leads nowhere else.
-/

import MachaOS.Fat.Contents

namespace MachaOS.Fat

open List Fallible
open Chains (IsChain)

namespace Fat32

variable {vol vol' : Fat32} {cluster : Nat} {clusters : List Nat}

theorem Geometry.small (geometry : Geometry vol) : vol.fat.length ≤ 0x0FFFFFF7 := by
  have fits := geometry.fits
  have tables := geometry.tables
  have entries := geometry.entries
  have width : vol.fat.length - 2 ≤ (vol.fat.length - 2) * vol.sectorsPerCluster :=
    Nat.le_mul_of_pos_right _ geometry.sectorsPerCluster
  have limit : AtaDevice.lbaLimit = 2 ^ 28 := rfl
  omega

structure Taken (vol vol' : Fat32) (clusters : List Nat) : Prop where
  tableOnly : TableOnly vol vol'
  length : vol'.fat.length = vol.fat.length
  nodup : clusters.Nodup
  free : ∀ cluster, cluster ∈ clusters → 2 ≤ cluster ∧ cluster < vol.fat.length ∧
    isFree (vol.fat.getD cluster 0#32) = true

theorem Taken.cons (found : vol.firstFree = some cluster)
    (later : Taken (vol.allocated cluster) vol' clusters) :
    Taken vol vol' (cluster :: clusters) := by
  obtain ⟨least, inside, free, -⟩ := firstFree_eq_some found
  have sameLength : (vol.allocated cluster).fat.length = vol.fat.length := length_set
  have entry : (vol.allocated cluster).fat.getD cluster 0#32 = eofMark := by
    show (vol.fat.set cluster eofMark).getD cluster 0#32 = eofMark
    rw [getD_eq_getElem?_getD, List.getElem?_set_self inside, Option.getD_some]
  have fresh : cluster ∉ clusters := by
    intro mem
    have never := (later.free cluster mem).2.2
    rw [entry] at never
    revert never
    decide
  constructor
  · exact (show TableOnly vol (vol.allocated cluster) from rfl).trans later.tableOnly
  · exact later.length.trans sameLength
  · exact nodup_cons.mpr ⟨fresh, later.nodup⟩
  · intro other mem
    rcases mem_cons.mp mem with rfl | rest
    · exact ⟨least, inside, free⟩
    · obtain ⟨otherLeast, otherInside, otherFree⟩ := later.free other rest
      have different : cluster ≠ other := by
        rintro rfl
        exact fresh rest
      have same : (vol.allocated cluster).fat.getD other 0#32 = vol.fat.getD other 0#32 := by
        show (vol.fat.set cluster eofMark).getD other 0#32 = _
        rw [getD_eq_getElem?_getD, List.getElem?_set_ne different, ← getD_eq_getElem?_getD]
      rw [same] at otherFree
      exact ⟨otherLeast, by omega, otherFree⟩

theorem countFree_allocated (found : vol.firstFree = some cluster) :
    ((vol.allocated cluster).fat.drop 2).countP isFree + 1 =
      (vol.fat.drop 2).countP isFree := by
  obtain ⟨least, inside, free, -⟩ := firstFree_eq_some found
  have counted := @countFree_withEntry vol cluster eofMark least inside
  rw [if_pos free, if_neg (by decide)] at counted
  exact counted

theorem countFree_eq_zero (none' : vol.firstFree = none) :
    (vol.fat.drop 2).countP isFree = 0 := by
  rw [countP_eq_zero]
  intro entry mem
  obtain ⟨index, inside, rfl⟩ := getElem_of_mem mem
  rw [length_drop] at inside
  have taken := firstFree_eq_none none' (Nat.le_add_right 2 index) (by omega)
  rw [getD_eq_getElem?_getD, List.getElem?_eq_getElem (by omega), Option.getD_some] at taken
  rw [getElem_drop, taken]
  decide

theorem allocClusters_run {needed : Nat} (small : vol.fat.length ≤ 2 ^ 32)
    (enough : needed ≤ (vol.fat.drop 2).countP isFree) :
    ∃ clusters after, allocClusters needed vol = (.ok clusters, after) ∧
      Taken vol after clusters ∧ clusters.length = needed := by
  induction needed generalizing vol with
  | zero =>
      exact ⟨[], vol, rfl, ⟨TableOnly.refl vol, rfl, nodup_nil, by simp⟩, rfl⟩
  | succ needed ih =>
      cases found : vol.firstFree with
      | none =>
          have nothing := countFree_eq_zero found
          omega
      | some cluster =>
          have count := countFree_allocated found
          have sameLength : (vol.allocated cluster).fat.length = vol.fat.length :=
            length_set
          obtain ⟨clusters, after, ran, taken, length⟩ :=
            @ih (vol.allocated cluster) (by omega) (by omega)
          refine ⟨cluster :: clusters, after, ?_, taken.cons found, by simp [length]⟩
          rw [allocClusters, bind_of_ok (allocCluster_of_some found small),
            bind_of_ok ran]
          rfl

theorem link_withEntry {value : BitVec 32} (inside : cluster < vol.fat.length) :
    (vol.withEntry cluster value).link cluster = (value &&& clusterMask).toNat := by
  show (((vol.fat.set cluster value).getD cluster 0#32) &&& clusterMask).toNat = _
  rw [getD_eq_getElem?_getD, List.getElem?_set_self inside, Option.getD_some]

theorem marked_withEntry_last (least : 2 ≤ cluster) (inside : cluster < vol.fat.length) :
    (vol.withEntry cluster eofMark).marked eofMark.toNat cluster = .last := by
  have length : (vol.withEntry cluster eofMark).fat.length = vol.fat.length :=
    length_set
  unfold marked
  rw [length, if_pos ⟨least, inside⟩, link_withEntry inside]
  exact if_pos (by decide)

theorem marked_withEntry_link {next : Nat} (small : vol.fat.length ≤ 0x0FFFFFF7)
    (least : 2 ≤ cluster) (inside : cluster < vol.fat.length)
    (nextInside : next < vol.fat.length) :
    (vol.withEntry cluster (BitVec.ofNat 32 next)).marked eofMark.toNat cluster =
      .link next := by
  have length : (vol.withEntry cluster (BitVec.ofNat 32 next)).fat.length =
      vol.fat.length := length_set
  have value : (BitVec.ofNat 32 next).toNat = next := by
    rw [BitVec.toNat_ofNat]
    omega
  have mark : eofMark.toNat = 0x0FFFFFFF := rfl
  unfold marked
  rw [length, if_pos ⟨least, inside⟩, link_withEntry inside, masked_of_lt (by omega), value,
    if_neg (by omega)]

theorem linkClusters_run (small : vol.fat.length ≤ 0x0FFFFFF7) (nodup : clusters.Nodup)
    (inFat : ∀ cluster, cluster ∈ clusters → 2 ≤ cluster ∧ cluster < vol.fat.length) :
    ∃ after, linkClusters clusters vol = (.ok (), after) ∧ TableOnly vol after ∧
      after.fat.length = vol.fat.length ∧
      (∀ other, other ∉ clusters → after.fat[other]? = vol.fat[other]?) ∧
      ∀ head rest, clusters = head :: rest →
        IsChain (after.marked eofMark.toNat) (head :: rest) := by
  induction clusters generalizing vol with
  | nil => exact ⟨vol, rfl, rfl, rfl, fun _ _ => rfl, fun _ _ never => nomatch never⟩
  | cons cluster rest ih =>
      obtain ⟨least, inside⟩ := inFat cluster mem_cons_self
      obtain ⟨fresh, laterNodup⟩ := nodup_cons.mp nodup
      cases rest with
      | nil =>
          refine ⟨vol.withEntry cluster eofMark, setCluster_of_lt inside, rfl, length_set,
            fun other absent => withEntry_getElem? (by simpa using absent), ?_⟩
          intro head rest same
          cases same
          exact marked_withEntry_last least inside
      | cons next rest =>
          have nextInside := (inFat next (mem_cons_of_mem _ mem_cons_self)).2
          have sameLength : (vol.withEntry cluster (BitVec.ofNat 32 next)).fat.length =
              vol.fat.length := length_set
          obtain ⟨after, ran, tableOnly, length, others, chain⟩ :=
            @ih (vol.withEntry cluster (BitVec.ofNat 32 next)) (by omega) laterNodup
              (fun other mem => by
                rw [sameLength]
                exact inFat other (mem_cons_of_mem _ mem))
          refine ⟨after, ?_, (tableOnly_withEntry _ _ _).trans tableOnly, length.trans sameLength,
            ?_, ?_⟩
          · rw [linkClusters, bind_of_ok (setCluster_of_lt inside), ran]
          · intro other absent
            rw [mem_cons, not_or] at absent
            rw [others other absent.2, withEntry_getElem? absent.1]
          · intro head tail same
            cases same
            refine ⟨?_, chain next rest rfl⟩
            rw [marked_congr length (others cluster fresh),
              marked_withEntry_link small least inside nextInside]

def SameElsewhere (vol vol' : Fat32) (clusters : List Nat) : Prop :=
  ∀ lba, (∀ cluster, cluster ∈ clusters → ∀ s, s < vol.sectorsPerCluster →
    lba ≠ vol.sectorNumber cluster s) →
    ByteMemory.SameOn (vol.device.sectorAt lba) (vol'.device.sectorAt lba) 0 512

theorem SameElsewhere.refl (vol : Fat32) (clusters : List Nat) :
    SameElsewhere vol vol clusters :=
  fun lba _ => ByteMemory.SameOn.refl (vol.device.sectorAt lba) 0 512

theorem SameElsewhere.trans {vol'' : Fat32} (shape : SameShape vol vol')
    (first : SameElsewhere vol vol' clusters)
    (second : SameElsewhere vol' vol'' clusters) : SameElsewhere vol vol'' clusters := by
  intro lba apart
  refine (first lba apart).trans (second lba (fun cluster mem s inside => ?_))
  rw [shape.sectorsPerCluster] at inside
  rw [shape.sectorNumber]
  exact apart cluster mem s inside

theorem SameElsewhere.mono {wider : List Nat} (same : SameElsewhere vol vol' clusters)
    (subset : ∀ cluster, cluster ∈ clusters → cluster ∈ wider) :
    SameElsewhere vol vol' wider :=
  fun lba apart => same lba (fun cluster mem => apart cluster (subset cluster mem))

theorem sameElsewhere_withSector {s : Nat} (inside : s < vol.sectorsPerCluster)
    (bytes : Sector) : SameElsewhere vol (vol.withSector cluster s bytes) [cluster] := by
  intro lba apart offset _ bound
  have different := apart cluster mem_cons_self s inside
  refine if_neg ?_
  show (512 * lba + offset) / 512 ≠ vol.sectorNumber cluster s
  omega

theorem writeSectors_elsewhere {left s : Nat} {content rest : List (BitVec 8)}
    (geometry : Geometry vol) (least : 2 ≤ cluster) (inside : cluster < vol.fat.length)
    (within : s + left ≤ vol.sectorsPerCluster)
    (ran : writeSectors cluster left s content vol = (.ok rest, vol')) :
    SameShape vol vol' ∧ SameElsewhere vol vol' [cluster] := by
  induction left generalizing vol s content with
  | zero =>
      cases ran
      exact ⟨SameShape.refl _, SameElsewhere.refl _ _⟩
  | succ left ih =>
      have at' : InCluster vol cluster s := ⟨least, inside, by omega⟩
      have shape : SameShape vol
          (vol.withSector cluster s (sectorOf (content.take 512))) := sameShape_withSector _
      have here := @sameElsewhere_withSector vol cluster s at'.sector
        (sectorOf (content.take 512))
      rw [writeSectors, bind_of_ok (geometry.writeClusterSector at' _)] at ran
      split at ran
      · cases ran
        exact ⟨shape, here⟩
      · obtain ⟨laterShape, later⟩ := ih (geometry.of_sameShape shape) inside
          (show s + 1 + left ≤ vol.sectorsPerCluster by omega) ran
        exact ⟨shape.trans laterShape, here.trans shape later⟩

theorem writeClusters_elsewhere {content : List (BitVec 8)} (geometry : Geometry vol)
    (inFat : ∀ cluster, cluster ∈ clusters → 2 ≤ cluster ∧ cluster < vol.fat.length)
    (ran : writeClusters clusters content vol = (.ok (), vol')) :
    SameElsewhere vol vol' clusters := by
  induction clusters generalizing vol content with
  | nil =>
      cases ran
      exact SameElsewhere.refl _ _
  | cons cluster rest ih =>
      obtain ⟨least, inside⟩ := inFat cluster mem_cons_self
      rw [writeClusters, bind_of_ok (get_run vol)] at ran
      obtain ⟨left, middle, wrote, ran⟩ := bind_eq_ok ran
      obtain ⟨shape, here⟩ := writeSectors_elsewhere geometry least inside
        (show 0 + vol.sectorsPerCluster ≤ vol.sectorsPerCluster by omega) wrote
      have first : SameElsewhere vol middle (cluster :: rest) :=
        here.mono (fun other mem => by
          rw [mem_singleton.mp mem]
          exact mem_cons_self)
      split at ran
      · cases ran
        exact first
      · have later := ih (geometry.of_sameShape shape) (fun other mem => by
          rw [shape.entries]
          exact inFat other (mem_cons_of_mem _ mem)) ran
        exact first.trans shape (later.mono (fun other mem => mem_cons_of_mem _ mem))

/-- When there are as many free clusters as a content needs, and no more than a walk visits,
storing it takes free clusters, writes to no other sector, and reading from the first of them
gives the content back. -/
theorem file_content_survives (geometry : Geometry vol) (content : List (BitVec 8))
    (fits : vol.clustersFor content.length ≤
      min ((vol.fat.drop 2).countP isFree) chainGuard) :
    ∃ clusters after, storeContent content vol = (.ok (clusters.headD 0), after) ∧
      clusters.length = vol.clustersFor content.length ∧ clusters.Nodup ∧
      (∀ cluster, cluster ∈ clusters → 2 ≤ cluster ∧ cluster < vol.fat.length ∧
        isFree (vol.fat.getD cluster 0#32) = true) ∧
      after.readFileData (clusters.headD 0) content.length = .ok content ∧
      SameElsewhere vol after clusters := by
  have small := geometry.small
  unfold storeContent
  rw [Fallible.bind_of_ok (Fallible.get_run vol)]
  by_cases none : vol.clustersFor content.length = 0
  · have empty : content = [] :=
      List.length_eq_zero_iff.mp ((clustersFor_eq_zero geometry.sectorsPerCluster).mp none)
    rw [if_pos none, none]
    subst empty
    exact ⟨[], vol, rfl, rfl, List.nodup_nil, by simp, rfl, SameElsewhere.refl _ _⟩
  · obtain ⟨clusters, middle, allocated, taken, count⟩ :=
      @allocClusters_run vol (vol.clustersFor content.length) (by omega) (by omega)
    have inFat : ∀ cluster, cluster ∈ clusters → 2 ≤ cluster ∧ cluster < middle.fat.length := by
      intro cluster mem
      obtain ⟨least, inside, -⟩ := taken.free cluster mem
      exact ⟨least, by rw [taken.length]; exact inside⟩
    obtain ⟨linked, linking, linkedOnly, sameLength, others, chain⟩ :=
      linkClusters_run (by rw [taken.length]; exact small) taken.nodup inFat
    have chained : allocateChain (vol.clustersFor content.length) vol =
        (.ok clusters, linked) := by
      rw [allocateChain, Fallible.bind_of_ok allocated, Fallible.bind_of_ok linking]
      rfl
    have shape : SameShape vol linked := by
      have kept := @allocateChain_shape vol (vol.clustersFor content.length) vol
        (SameShape.refl vol)
      rw [chained] at kept
      exact kept
    have geometryLinked := geometry.of_sameShape shape
    have inLinked : ∀ cluster, cluster ∈ clusters →
        2 ≤ cluster ∧ cluster < linked.fat.length := by
      intro cluster mem
      rw [sameLength]
      exact inFat cluster mem
    obtain ⟨after, written, wrote, bytes⟩ :=
      writeClusters_run geometryLinked taken.nodup inLinked content
    have elsewhere := writeClusters_elsewhere geometryLinked inLinked written
    have sameDevice : linked.device = vol.device := by
      have only := taken.tableOnly.trans linkedOnly
      rw [only]
    refine ⟨clusters, after, ?_, count, taken.nodup, taken.free, ?_, ?_⟩
    · rw [if_neg none, Fallible.bind_of_ok chained, Fallible.bind_of_ok written]
      rfl
    · cases clusters with
      | nil => exact absurd count.symm none
      | cons first rest =>
          have sameFat : after.fat = linked.fat := wrote.table.1
          have chainAfter : IsChain (after.marked eofMark.toNat) (first :: rest) :=
            (chain first rest rfl).congr (fun other _ => marked_congr
              (by rw [sameFat]) (by rw [sameFat]))
          have width : after.sectorsPerCluster = vol.sectorsPerCluster :=
            (shape.trans wrote.shape).sectorsPerCluster
          have enough := le_clustersFor geometry.sectorsPerCluster content.length
          rw [← count] at enough
          have long : content.length ≤ (after.contentsOf (first :: rest)).length := by
            rw [contentsOf_length, width]
            exact enough
          unfold readFileData
          rw [List.headD_cons,
            takeClusters_of_chain (geometryLinked.of_sameShape wrote.shape).small chainAfter
              (by omega), takeOver_eq (geometryLinked.of_sameShape wrote.shape)
              (fun other mem => by rw [sameFat]; exact inLinked other mem), if_pos long, bytes,
            shape.sectorsPerCluster, List.take_of_length_le enough]
    · intro lba apart
      have same := elsewhere lba (fun cluster mem s inside => by
        rw [shape.sectorNumber]
        rw [shape.sectorsPerCluster] at inside
        exact apart cluster mem s inside)
      rw [sameDevice] at same
      exact same

theorem geometry_formatted : Geometry formatted where
  working := ⟨rfl, fun _ _ => rfl, fun _ _ => rfl⟩
  sectorsPerCluster := Nat.one_pos
  entries := by decide +kernel
  flags := rfl
  tables := le_refl 2
  fits := by decide +kernel

theorem geometry_installed (entries : List (List (BitVec 8))) (content : List (BitVec 8)) :
    Geometry (installed entries content) :=
  geometry_formatted.of_sameShape ⟨rfl, rfl, rfl⟩

theorem file_content_survives_formatted :
    ∃ (clusters : List Nat) (after : Fat32), storeContent [1#8, 2#8] formatted = (.ok (clusters.headD 0), after) ∧
      clusters.length = 1 ∧ after.readFileData (clusters.headD 0) 2 = .ok [1#8, 2#8] := by
  have fits : formatted.clustersFor 2 ≤
      min ((formatted.fat.drop 2).countP isFree) chainGuard := by decide +kernel
  obtain ⟨clusters, after, stored, count, -, -, read, -⟩ :=
    file_content_survives geometry_formatted [1#8, 2#8] fits
  exact ⟨clusters, after, stored, count, read⟩

end Fat32
end MachaOS.Fat
