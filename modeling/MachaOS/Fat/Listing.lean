/-
The row of records that a chain of clusters holds, and the directory it lists.

On a device that works, listing a directory reads this row.  Rows change only with the
sectors of their own chain.
-/

import MachaOS.Fat.Entries
import MachaOS.Fat.Heads

namespace MachaOS.Fat

open List
open Chains (IsChain Unreferenced)

theorem slotPart_congr {slot slot' : Slot} (same : ByteMemory.SameOn slot slot' 0 32) :
    slotPart slot' = slotPart slot := by
  have word {offset : Nat} (inside : offset + 2 ≤ 32) : slot'.readU16 offset = slot.readU16 offset :=
    ByteMemory.readU16_congr (same.mono (Nat.zero_le _) (by omega))
  unfold slotPart
  congr 1
  · congr 1
    · exact map_congr_left (fun i mem => word (by
        have := mem_range.mp mem
        omega))
    · exact map_congr_left (fun i mem => word (by
        have := mem_range.mp mem
        omega))
  · exact map_congr_left (fun i mem => word (by
      have := mem_range.mp mem
      omega))

theorem recordOf_congr {slot slot' : Slot} (same : ByteMemory.SameOn slot slot' 0 32) :
    recordOf slot' = recordOf slot := by
  have byte {offset : Nat} (inside : offset < 32) : slot' offset = slot offset :=
    same offset (Nat.zero_le _) (by omega)
  have word {offset : Nat} (inside : offset + 2 ≤ 32) : slot'.readU16 offset = slot.readU16 offset :=
    ByteMemory.readU16_congr (same.mono (Nat.zero_le _) (by omega))
  have sizeWord : slot'.readU32 0x1C = slot.readU32 0x1C :=
    ByteMemory.readU32_congr (same.mono (Nat.zero_le _) (by omega))
  have short : (List.range 11).map (fun i => slot' i) = (List.range 11).map (fun i => slot i) :=
    map_congr_left (fun i mem => byte (by
      have := mem_range.mp mem
      omega))
  have long := slotPart_congr same
  unfold recordOf
  rw [byte (show 0 < 32 by decide), byte (show 0x0B < 32 by decide), long, sizeWord,
    word (show 0x14 + 2 ≤ 32 by decide), word (show 0x1A + 2 ≤ 32 by decide)]
  exact congrArg (fun names => if slot 0 = 0x00#8 then Record.stop
    else if slot 0 = 0xE5#8 then .vacant
    else if slot 0x0B = 0x0F#8 then .part (slotPart slot)
    else .entry (sfnName names) (slot 0x0B &&& 0x10#8 ≠ 0#8) (slot.readU32 0x1C).toNat
      (slot.readU16 0x14 ++ slot.readU16 0x1A).toNat) short

def sectorRow (cluster s : Nat) (sector : Sector) : Row :=
  (List.range 16).map (fun i =>
    ((cluster, s * 512 + 32 * i), recordOf (slotAt sector (32 * i))))

theorem sectorRow_congr {sector sector' : Sector} (same : ByteMemory.SameOn sector sector' 0 512)
    (cluster s : Nat) : sectorRow cluster s sector' = sectorRow cluster s sector := by
  refine map_congr_left (fun i mem => ?_)
  have inside := mem_range.mp mem
  refine congrArg (Prod.mk _) (recordOf_congr (fun offset _ within => ?_))
  exact same (32 * i + offset) (Nat.zero_le _) (by omega)

namespace Fat32

variable {vol vol' : Fat32} {head cluster s : Nat} {rest : List Nat}

def clusterRow (vol : Fat32) (cluster : Nat) : Row :=
  (List.range vol.sectorsPerCluster).flatMap
    (fun s => sectorRow cluster s (vol.clusterSector cluster s))

def rowOf (vol : Fat32) (clusters : List Nat) : Row :=
  clusters.flatMap vol.clusterRow

theorem clusterRow_congr (width : vol'.sectorsPerCluster = vol.sectorsPerCluster)
    (same : SameSectors vol vol' cluster) : vol'.clusterRow cluster = vol.clusterRow cluster := by
  unfold clusterRow
  rw [width]
  refine flatMap_congr (fun s mem => ?_)
  exact sectorRow_congr (same s (mem_range.mp mem)) cluster s

theorem rowOf_congr {clusters : List Nat}
    (width : vol'.sectorsPerCluster = vol.sectorsPerCluster)
    (same : ∀ cluster, cluster ∈ clusters → SameSectors vol vol' cluster) :
    vol'.rowOf clusters = vol.rowOf clusters :=
  flatMap_congr (fun cluster mem => clusterRow_congr width (same cluster mem))

theorem readSectors_row (geometry : Geometry vol) (least : 2 ≤ cluster)
    (inside : cluster < vol.fat.length) {left : Nat}
    (within : s + left ≤ vol.sectorsPerCluster) (scan : Scan) :
    vol.readSectors cluster left s scan =
      .ok (readRow ((List.range' s left).flatMap
        (fun s => sectorRow cluster s (vol.clusterSector cluster s))) scan) := by
  induction left generalizing s scan with
  | zero =>
      rw [readSectors, List.range'_zero, flatMap_nil, readRow, if_neg not_stops_nil, listed,
        append_nil]
      rfl
  | succ left ih =>
      have slots : (slotsOf cluster s (vol.clusterSector cluster s)).map
          (fun slot => (slot.1, recordOf slot.2)) =
          sectorRow cluster s (vol.clusterSector cluster s) := by
        unfold slotsOf sectorRow
        rw [map_map]
        rfl
      rw [readSectors, geometry.readClusterSector ⟨least, inside, by omega⟩, Except.ok_bind,
        readSlots_eq, slots, List.range'_succ, flatMap_cons, readRow_append]
      cases readRow (sectorRow cluster s (vol.clusterSector cluster s)) scan with
      | ended out => rfl
      | going scan => exact ih (by omega) scan

theorem readSectors_cluster (geometry : Geometry vol) (least : 2 ≤ cluster)
    (inside : cluster < vol.fat.length) (scan : Scan) :
    vol.readSectors cluster vol.sectorsPerCluster 0 scan =
      .ok (readRow (vol.clusterRow cluster) scan) := by
  rw [readSectors_row geometry least inside (by omega), clusterRow, range_eq_range']

theorem readClusters_row (geometry : Geometry vol) (wellFormed : WellFormed vol) {left : Nat}
    (chain : IsChain vol.cell (head :: rest)) (enough : rest.length ≤ left) (scan : Scan) :
    vol.readClusters left head scan = .ok (listedSo (readRow (vol.rowOf (head :: rest)) scan)) := by
  induction rest generalizing head left scan with
  | nil =>
      obtain ⟨least, inside⟩ := inside_of_taken (chain.taken mem_cons_self)
      rw [readClusters.eq_def]
      dsimp only
      rw [readSectors_cluster geometry least inside, Except.ok_bind]
      have alone : vol.rowOf [head] = vol.clusterRow head := by simp [rowOf]
      rw [alone]
      cases readRow (vol.clusterRow head) scan with
      | ended out => rfl
      | going scan =>
          dsimp only
          rw [link_of_last chain, Except.ok_bind, if_pos isEof_eofMark]
          rfl
  | cons next rest ih =>
      obtain ⟨least, inside⟩ := inside_of_taken (chain.taken mem_cons_self)
      obtain ⟨found, nextLeast, nextInside⟩ := wellFormed.link_of_link chain.1
      have split : vol.rowOf (head :: next :: rest) =
          vol.clusterRow head ++ vol.rowOf (next :: rest) := by simp [rowOf]
      rw [readClusters.eq_def]
      dsimp only
      rw [readSectors_cluster geometry least inside, Except.ok_bind, split, readRow_append]
      cases readRow (vol.clusterRow head) scan with
      | ended out => rfl
      | going scan =>
          dsimp only
          rw [found, Except.ok_bind, if_neg (by rw [wellFormed.not_eof nextInside]; simp),
            if_neg (by omega)]
          cases left with
          | zero => simp at enough
          | succ left => exact ih chain.2 (Nat.le_of_succ_le_succ enough) scan

theorem listedSo_readRow (row : Row) (scan : Scan) :
    listedSo (readRow row scan) = scan.out ++ listed row scan.lfnParts := by
  unfold readRow
  split <;> rfl

theorem readDir_row (geometry : Geometry vol) (wellFormed : WellFormed vol)
    (chain : IsChain vol.cell (head :: rest)) (enough : rest.length ≤ chainGuard) :
    vol.readDir head = .ok (listed (vol.rowOf (head :: rest)) []) := by
  unfold readDir
  rw [readClusters_row geometry wellFormed chain enough, listedSo_readRow]
  rfl

theorem rowOf_withSector {clusters : List Nat} (nodup : clusters.Nodup)
    (inFat : ∀ cluster, cluster ∈ clusters → 2 ≤ cluster ∧ cluster < vol.fat.length)
    (mem : cluster ∈ clusters) (inside : s < vol.sectorsPerCluster) (bytes : Sector) :
    ∃ early late,
      vol.rowOf clusters =
        early ++ sectorRow cluster s (vol.clusterSector cluster s) ++ late ∧
      (vol.withSector cluster s bytes).rowOf clusters =
        early ++ sectorRow cluster s bytes ++ late := by
  obtain ⟨least, below⟩ := inFat cluster mem
  obtain ⟨before, after, rfl⟩ := append_of_mem mem
  have others {other s' : Nat} (present : other ∈ before ++ cluster :: after)
      (inside' : s' < vol.sectorsPerCluster) (different : other ≠ cluster ∨ s' ≠ s) :
      sectorRow other s' ((vol.withSector cluster s bytes).clusterSector other s') =
        sectorRow other s' (vol.clusterSector other s') := by
    refine sectorRow_congr (clusterSector_withSector_of_ne bytes (fun same => ?_)) _ _
    obtain ⟨otherLeast, otherBelow⟩ := inFat other present
    obtain ⟨sameCluster, sameSector⟩ := sectorNumber_inj ⟨otherLeast, otherBelow, inside'⟩
      ⟨least, below, inside⟩ same
    rcases different with notCluster | notSector
    · exact notCluster sameCluster
    · exact notSector sameSector
  have whole {side : List Nat} (part : ∀ other, other ∈ side →
      other ∈ before ++ cluster :: after ∧ other ≠ cluster) :
      (vol.withSector cluster s bytes).rowOf side = vol.rowOf side := by
    refine flatMap_congr (fun other present => ?_)
    obtain ⟨present, different⟩ := part other present
    exact flatMap_congr (fun s' within =>
      others present (mem_range.mp within) (Or.inl different))
  have apart := nodup_middle.mp nodup
  rw [nodup_cons] at apart
  have sameBefore := @whole before (fun other present =>
    ⟨mem_append_left _ present, by rintro rfl; exact apart.1 (mem_append_left _ present)⟩)
  have sameAfter := @whole after (fun other present =>
    ⟨mem_append_right _ (mem_cons_of_mem _ present),
      by rintro rfl; exact apart.1 (mem_append_right _ present)⟩)
  have sectors : List.range vol.sectorsPerCluster =
      List.range s ++ s :: List.range' (s + 1) (vol.sectorsPerCluster - (s + 1)) := by
    rw [range_eq_range', range_eq_range', ← List.range'_succ,
      show List.range' s (vol.sectorsPerCluster - (s + 1) + 1) =
        List.range' (0 + s) (vol.sectorsPerCluster - (s + 1) + 1) by rw [Nat.zero_add],
      List.range'_append_1]
    congr 1
    omega
  have split (after' : Fat32) (width : after'.sectorsPerCluster = vol.sectorsPerCluster) :
      after'.clusterRow cluster =
        (List.range s).flatMap (fun s' => sectorRow cluster s' (after'.clusterSector cluster s')) ++
          (sectorRow cluster s (after'.clusterSector cluster s) ++
            (List.range' (s + 1) (vol.sectorsPerCluster - (s + 1))).flatMap
              (fun s' => sectorRow cluster s' (after'.clusterSector cluster s'))) := by
    unfold clusterRow
    rw [width, sectors, flatMap_append, flatMap_cons]
  refine ⟨vol.rowOf before ++ (List.range s).flatMap
      (fun s' => sectorRow cluster s' (vol.clusterSector cluster s')),
    (List.range' (s + 1) (vol.sectorsPerCluster - (s + 1))).flatMap
      (fun s' => sectorRow cluster s' (vol.clusterSector cluster s')) ++ vol.rowOf after, ?_, ?_⟩
  · show (before ++ cluster :: after).flatMap vol.clusterRow = _
    rw [flatMap_append, flatMap_cons, split vol rfl]
    simp only [append_assoc]
    rfl
  · have rows (list : List Nat) (each : ∀ s', s' ∈ list → s' < vol.sectorsPerCluster ∧ s' ≠ s) :
        list.flatMap (fun s' => sectorRow cluster s'
          ((vol.withSector cluster s bytes).clusterSector cluster s')) =
        list.flatMap (fun s' => sectorRow cluster s' (vol.clusterSector cluster s')) :=
      flatMap_congr (fun s' present => others mem (each s' present).1
        (Or.inr (each s' present).2))
    show (before ++ cluster :: after).flatMap (vol.withSector cluster s bytes).clusterRow = _
    rw [flatMap_append, flatMap_cons, split (vol.withSector cluster s bytes) rfl,
      rows _ (fun s' present => by
        have bound := mem_range.mp present
        omega),
      rows _ (fun s' present => by
        have bound := mem_range'_1.mp present
        omega),
      sectorRow_congr (clusterSector_withSector_self bytes) cluster s]
    show (vol.withSector cluster s bytes).rowOf before ++
      (_ ++ (_ ++ _) ++ (vol.withSector cluster s bytes).rowOf after) = _
    rw [sameBefore, sameAfter]
    simp only [append_assoc]

end Fat32
end MachaOS.Fat
