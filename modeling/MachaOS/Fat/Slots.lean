/-
Deleting and writing entries, slot by slot.

Deleting an entry takes it out of the listing and leaves the rest of it; writing one puts
it where its slots are, provided no end mark comes before them.
-/

import MachaOS.Fat.Listing

namespace MachaOS.Fat

open List
open Fat32 (freeLfnBefore)

theorem sectorRow_places (cluster s : Nat) (sector : Sector) :
    (sectorRow cluster s sector).map Prod.fst =
      (List.range 16).map (fun i => (cluster, s * 512 + 32 * i)) := by
  rw [sectorRow, map_map]
  rfl

namespace Fat32

variable {vol : Fat32}

theorem mem_rowOf_places {clusters : List Nat} {place : Nat × Nat} :
    place ∈ (vol.rowOf clusters).map Prod.fst ↔
      ∃ cluster, cluster ∈ clusters ∧ ∃ s, s < vol.sectorsPerCluster ∧
        ∃ i, i < 16 ∧ place = (cluster, s * 512 + 32 * i) := by
  simp only [rowOf, clusterRow, map_flatMap, sectorRow_places, mem_flatMap, mem_map, mem_range]
  constructor
  · rintro ⟨cluster, mem, s, inside, i, within, rfl⟩
    exact ⟨cluster, mem, s, inside, i, within, rfl⟩
  · rintro ⟨cluster, mem, s, inside, i, within, rfl⟩
    exact ⟨cluster, mem, s, inside, i, within, rfl⟩

theorem rowOf_places_nodup {clusters : List Nat} (nodup : clusters.Nodup) :
    ((vol.rowOf clusters).map Prod.fst).Nodup := by
  have sectorPlaces (cluster s : Nat) :
      ((List.range 16).map (fun i => (cluster, s * 512 + 32 * i))).Nodup := by
    refine nodup_range.map (fun i j same => ?_)
    have offsets := congrArg Prod.snd same
    dsimp only at offsets
    omega
  have clusterPlaces (cluster : Nat) :
      ((List.range vol.sectorsPerCluster).flatMap
        (fun s => (List.range 16).map (fun i => (cluster, s * 512 + 32 * i)))).Nodup := by
    rw [nodup_flatMap]
    refine ⟨fun s _ => sectorPlaces cluster s, nodup_range.imp (fun different => ?_)⟩
    intro place inFirst inSecond
    obtain ⟨i, within, rfl⟩ := mem_map.mp inFirst
    obtain ⟨j, within', same⟩ := mem_map.mp inSecond
    have offsets := congrArg Prod.snd same
    rw [mem_range] at within within'
    dsimp only at offsets
    omega
  simp only [rowOf, clusterRow, map_flatMap, sectorRow_places]
  rw [nodup_flatMap]
  refine ⟨fun cluster _ => clusterPlaces cluster, nodup.imp (fun different => ?_)⟩
  intro place inFirst inSecond
  obtain ⟨s, -, inFirst⟩ := mem_flatMap.mp inFirst
  obtain ⟨s', -, inSecond⟩ := mem_flatMap.mp inSecond
  obtain ⟨i, -, rfl⟩ := mem_map.mp inFirst
  obtain ⟨j, -, same⟩ := mem_map.mp inSecond
  exact different (congrArg Prod.fst same).symm

end Fat32

theorem split_unique {early early' run run' late late' : Row} (nodup : ((early ++ run ++ late).map Prod.fst).Nodup)
    (same : early ++ run ++ late = early' ++ run' ++ late') (some' : run ≠ [])
    (places : run.map Prod.fst = run'.map Prod.fst) :
    early = early' ∧ run = run' ∧ late = late' := by
  have length : run.length = run'.length := by
    have lengths := congrArg List.length places
    rwa [length_map, length_map] at lengths
  have start : early.length = early'.length := by
    have positive := length_pos_iff.mpr some'
    have first : ((early ++ run ++ late).map Prod.fst)[early.length]? =
        (run.map Prod.fst)[0]? := by
      rw [append_assoc, map_append, List.getElem?_append_right (by simp)]
      simp [positive]
    have second : ((early ++ run ++ late).map Prod.fst)[early'.length]? =
        (run.map Prod.fst)[0]? := by
      rw [same, places, append_assoc, map_append, List.getElem?_append_right (by simp)]
      simp [← length, positive]
    refine (List.getElem?_inj ?_ nodup).mp (first.trans second.symm)
    simp only [length_map, length_append]
    omega
  rw [append_assoc, append_assoc] at same
  obtain ⟨sameEarly, rest⟩ := append_inj same start
  obtain ⟨sameRun, sameLate⟩ := append_inj rest length
  exact ⟨sameEarly, sameRun, sameLate⟩

def slotRow (cluster s : Nat) (sector : Sector) (first count : Nat) : Row :=
  (List.range' first count).map (fun i =>
    ((cluster, s * 512 + 32 * i), recordOf (slotAt sector (32 * i))))

theorem sectorRow_eq_slotRow (cluster s : Nat) (sector : Sector) :
    sectorRow cluster s sector = slotRow cluster s sector 0 16 := by
  rw [sectorRow, slotRow, range_eq_range']

theorem slotRow_add (cluster s : Nat) (sector : Sector) (first count more : Nat) :
    slotRow cluster s sector first (count + more) =
      slotRow cluster s sector first count ++ slotRow cluster s sector (first + count) more := by
  rw [slotRow, slotRow, slotRow, ← map_append, List.range'_append_1]

theorem slotRow_succ (cluster s : Nat) (sector : Sector) (first count : Nat) :
    slotRow cluster s sector first (count + 1) =
      ((cluster, s * 512 + 32 * first), recordOf (slotAt sector (32 * first))) ::
        slotRow cluster s sector (first + 1) count := by
  rw [slotRow, List.range'_succ, map_cons, slotRow]

theorem slotRow_congr {sector sector' : Sector} (cluster s : Nat) {first count : Nat}
    (same : ∀ i, first ≤ i → i < first + count →
      recordOf (slotAt sector' (32 * i)) = recordOf (slotAt sector (32 * i))) :
    slotRow cluster s sector' first count = slotRow cluster s sector first count := by
  refine map_congr_left (fun i mem => ?_)
  obtain ⟨lower, upper⟩ := mem_range'_1.mp mem
  rw [same i lower upper]

theorem slotRow_places (cluster s : Nat) (sector : Sector) (first count : Nat) :
    (slotRow cluster s sector first count).map Prod.fst =
      (List.range count).map (fun i => (cluster, s * 512 + 32 * first + 32 * i)) := by
  rw [slotRow, map_map, List.range'_eq_map_range, map_map]
  refine map_congr_left (fun i _ => ?_)
  show (cluster, s * 512 + 32 * (first + i)) = _
  rw [Nat.mul_add, Nat.add_assoc]

theorem sectorRow_split (cluster s : Nat) (sector : Sector) {first count : Nat}
    (fits : first + count ≤ 16) :
    sectorRow cluster s sector =
      slotRow cluster s sector 0 first ++ slotRow cluster s sector first count ++
        slotRow cluster s sector (first + count) (16 - (first + count)) := by
  have early := slotRow_add cluster s sector 0 first count
  have whole := slotRow_add cluster s sector 0 (first + count) (16 - (first + count))
  rw [Nat.zero_add] at early whole
  rw [sectorRow_eq_slotRow, ← early, ← whole, Nat.add_sub_cancel' fits]

theorem recordOf_writeByte (sector : Sector) (i j : Nat) :
    recordOf (slotAt (sector.writeByte (32 * j) 0xE5#8) (32 * i)) =
      if i = j then .vacant else recordOf (slotAt sector (32 * i)) := by
  split
  · rename_i same
    subst same
    have marked : slotAt (sector.writeByte (32 * i) 0xE5#8) (32 * i) 0 = 0xE5#8 := if_pos rfl
    unfold recordOf
    rw [marked, if_neg (by decide), if_pos rfl]
  · rename_i different
    refine recordOf_congr (fun offset _ inside => ?_)
    refine if_neg ?_
    show 32 * i + offset ≠ 32 * j
    omega

theorem freeLfnBefore_records (left : Nat) (sector : Sector) :
    ∃ freed, freed ≤ left ∧
      (∀ i, left - freed ≤ i → i < left → sector (32 * i + 0x0B) = 0x0F#8) ∧
      ∀ i, recordOf (slotAt (freeLfnBefore left (32 * left) sector) (32 * i)) =
        if left - freed ≤ i ∧ i < left then .vacant else recordOf (slotAt sector (32 * i)) := by
  induction left generalizing sector with
  | zero =>
      refine ⟨0, le_refl 0, fun i _ inside => (Nat.not_lt_zero i inside).elim, fun i => ?_⟩
      rw [if_neg (fun within => Nat.not_lt_zero i within.2)]
      rfl
  | succ left ih =>
      have back : 32 * (left + 1) - 32 = 32 * left := by omega
      rw [freeLfnBefore, back]
      by_cases long : sector (32 * left + 0x0B) = 0x0F#8
      · rw [if_pos long]
        obtain ⟨freed, within, marks, records⟩ := ih (sector.writeByte (32 * left) 0xE5#8)
        refine ⟨freed + 1, Nat.succ_le_succ within, fun i lower upper => ?_, fun i => ?_⟩
        · rcases Nat.lt_succ_iff_lt_or_eq.mp upper with before | rfl
          · have mark := marks i (by omega) before
            rwa [ByteMemory.writeByte, if_neg (by omega)] at mark
          · exact long
        · rw [records i, recordOf_writeByte]
          by_cases inside : left - freed ≤ i ∧ i < left
          · rw [if_pos inside, if_pos (by omega)]
          · rw [if_neg inside]
            by_cases here : i = left
            · rw [if_pos here, if_pos (by omega)]
            · rw [if_neg here, if_neg (by omega)]
      · rw [if_neg long]
        refine ⟨0, Nat.zero_le _, fun i lower upper => (by omega), fun i => ?_⟩
        rw [if_neg (by omega)]

theorem recordOf_long {slot : Slot} (long : slot 0x0B = 0x0F#8) (goes : recordOf slot ≠ .stop) :
    recordOf slot = .vacant ∨ ∃ units, recordOf slot = .part units := by
  unfold recordOf at goes ⊢
  by_cases ends : slot 0 = 0x00#8
  · rw [if_pos ends] at goes
    exact absurd rfl goes
  · rw [if_neg ends]
    by_cases deleted : slot 0 = 0xE5#8
    · rw [if_pos deleted]
      exact Or.inl rfl
    · rw [if_neg deleted, if_pos long]
      exact Or.inr ⟨_, rfl⟩

theorem sectorRow_deleted (cluster s : Nat) (sector : Sector) {k : Nat} (inside : k < 16) :
    ∃ early before before' late,
      sectorRow cluster s sector = early ++ before ++
        ((cluster, s * 512 + 32 * k), recordOf (slotAt sector (32 * k))) :: late ∧
      sectorRow cluster s (freeLfnBefore k (32 * k) (sector.writeByte (32 * k) 0xE5#8)) =
        early ++ before' ++ ((cluster, s * 512 + 32 * k), .vacant) :: late ∧
      (¬ Stops before → Unlisted before) ∧ Unlisted before' := by
  obtain ⟨freed, within, marks, records⟩ :=
    freeLfnBefore_records k (sector.writeByte (32 * k) 0xE5#8)
  have split (any : Sector) : sectorRow cluster s any =
      slotRow cluster s any 0 (k - freed) ++ slotRow cluster s any (k - freed) freed ++
        ((cluster, s * 512 + 32 * k), recordOf (slotAt any (32 * k))) ::
          slotRow cluster s any (k + 1) (15 - k) := by
    rw [sectorRow_eq_slotRow, ← slotRow_succ, show (16 : Nat) = k - freed + (freed + (15 - k + 1)) by omega,
      slotRow_add, slotRow_add, append_assoc]
    simp only [Nat.zero_add, Nat.sub_add_cancel within]
  have result (i : Nat) : recordOf (slotAt
      (freeLfnBefore k (32 * k) (sector.writeByte (32 * k) 0xE5#8)) (32 * i)) =
      if k - freed ≤ i ∧ i ≤ k then .vacant else recordOf (slotAt sector (32 * i)) := by
    rw [records i, recordOf_writeByte]
    by_cases here : i = k
    · rw [if_neg (by omega), if_pos here, if_pos (by omega)]
    · by_cases freedHere : k - freed ≤ i ∧ i < k
      · rw [if_pos freedHere, if_pos (by omega)]
      · rw [if_neg freedHere, if_neg here, if_neg (by omega)]
  refine ⟨slotRow cluster s sector 0 (k - freed), slotRow cluster s sector (k - freed) freed,
    slotRow cluster s (freeLfnBefore k (32 * k) (sector.writeByte (32 * k) 0xE5#8)) (k - freed) freed,
    slotRow cluster s sector (k + 1) (15 - k), split sector, ?_, ?_, ?_⟩
  · have start := @slotRow_congr sector _ cluster s 0 (k - freed) (fun i _ upper =>
      (result i).trans (if_neg (by omega)))
    have rest := @slotRow_congr sector _ cluster s (k + 1) (15 - k) (fun i lower _ =>
      (result i).trans (if_neg (by omega)))
    rw [split, result k, if_pos (by omega), start, rest]
  · rintro goes item mem
    obtain ⟨i, place, rfl⟩ := mem_map.mp mem
    obtain ⟨lower, upper⟩ := mem_range'_1.mp place
    have mark := marks i lower (by omega)
    rw [ByteMemory.writeByte, if_neg (by omega)] at mark
    exact recordOf_long mark (fun ends => goes ⟨_, mem, ends⟩)
  · intro item mem
    obtain ⟨i, place, rfl⟩ := mem_map.mp mem
    obtain ⟨lower, upper⟩ := mem_range'_1.mp place
    refine Or.inl ?_
    show recordOf _ = _
    rw [result i, if_pos (by omega)]

namespace Fat32

variable {vol : Fat32} {clusters : List Nat}

variable {entry : DirEntry}

theorem place_of_listed (mem : entry ∈ listed (vol.rowOf clusters) []) :
    ∃ s, s < vol.sectorsPerCluster ∧ ∃ k, k < 16 ∧ entry.location.1 ∈ clusters ∧
      entry.location.2 = s * 512 + 32 * k := by
  have place : entry.location ∈ (vol.rowOf clusters).map Prod.fst :=
    listed_places.subset (mem_map_of_mem mem)
  obtain ⟨cluster, inside, s, within, k, slot, same⟩ := mem_rowOf_places.mp place
  exact ⟨s, within, k, slot, by rw [same]; exact inside, by rw [same]⟩

section

variable (geometry : Geometry vol) (nodup : clusters.Nodup)
  (inFat : ∀ cluster, cluster ∈ clusters → 2 ≤ cluster ∧ cluster < vol.fat.length)
  (mem : entry ∈ listed (vol.rowOf clusters) [])
include geometry nodup inFat mem

theorem deleteEntryAt_row :
    ∃ cluster s bytes, cluster ∈ clusters ∧ s < vol.sectorsPerCluster ∧
      deleteEntryAt entry.location.1 entry.location.2 vol =
        (.ok (), vol.withSector cluster s bytes) ∧
      ∃ early long freed late short isDir size firstCluster,
        vol.rowOf clusters =
          early ++ long ++ (entry.location, .entry short isDir size firstCluster) :: late ∧
        (vol.withSector cluster s bytes).rowOf clusters =
          early ++ freed ++ (entry.location, .vacant) :: late ∧
        ¬ Stops early ∧ Unlisted long ∧ Unlisted freed ∧
        entry = entryOf entry.location short isDir size firstCluster (pending (early ++ long) []) ∧
        isListed entry.name = true := by
  obtain ⟨s, within, k, slot, inside, offset⟩ := place_of_listed mem
  have at' : InCluster vol entry.location.1 s :=
    ⟨(inFat _ inside).1, (inFat _ inside).2, within⟩
  have sectorIndex : (s * 512 + 32 * k) / 512 = s := by omega
  have slotOffset : (s * 512 + 32 * k) % 512 = 32 * k := by omega
  have slotIndex : 32 * k / 32 = k := by omega
  refine ⟨entry.location.1, s, freeLfnBefore k (32 * k)
    ((vol.clusterSector entry.location.1 s).writeByte (32 * k) 0xE5#8), inside, within, ?_, ?_⟩
  · unfold deleteEntryAt
    rw [offset, sectorIndex, slotOffset, Fallible.bind_of_ok
      (show Fallible.query _ vol = (.ok _, vol) by
        rw [Fallible.query_run, geometry.readClusterSector at'])]
    rw [slotIndex]
    exact geometry.writeClusterSector at' _
  · obtain ⟨front, back, before, after⟩ := rowOf_withSector nodup inFat inside within
      (freeLfnBefore k (32 * k)
        ((vol.clusterSector entry.location.1 s).writeByte (32 * k) 0xE5#8))
    obtain ⟨early, long, freed, late, held, left, unlisted, vacated⟩ :=
      sectorRow_deleted entry.location.1 s (vol.clusterSector entry.location.1 s) slot
    obtain ⟨ahead, short, isDir, size, firstCluster, behind, split, goes, same, shown⟩ :=
      mem_listed mem
    have here : entry.location = (entry.location.1, s * 512 + 32 * k) := by rw [← offset]
    have places := @rowOf_places_nodup vol clusters nodup
    have regroup : vol.rowOf clusters = (front ++ early ++ long) ++
        [((entry.location.1, s * 512 + 32 * k),
          recordOf (slotAt (vol.clusterSector entry.location.1 s) (32 * k)))] ++ (late ++ back) := by
      rw [before, held]
      simp only [append_assoc, cons_append, nil_append]
    have split' : vol.rowOf clusters = ahead ++
        [(entry.location, Record.entry short isDir size firstCluster)] ++ behind := by
      rw [split]
      simp only [append_assoc, cons_append, nil_append]
    obtain ⟨rfl, -, rfl⟩ := split_unique (split' ▸ places) (split'.symm.trans regroup)
      (cons_ne_nil _ _) (by rw [map_singleton, map_singleton, ← here])
    rw [stops_append, not_or] at goes
    refine ⟨front ++ early, long, freed, late ++ back, short, isDir, size, firstCluster, split, ?_,
      goes.1, unlisted goes.2, vacated, same, shown⟩
    rw [after, left, here]
    simp only [append_assoc, cons_append]

theorem deleteEntryAt_listed :
    ∃ cluster s bytes, cluster ∈ clusters ∧ s < vol.sectorsPerCluster ∧
      deleteEntryAt entry.location.1 entry.location.2 vol =
        (.ok (), vol.withSector cluster s bytes) ∧
      ∃ above below, listed (vol.rowOf clusters) [] = above ++ entry :: below ∧
        listed ((vol.withSector cluster s bytes).rowOf clusters) [] = above ++ below := by
  obtain ⟨cluster, s, bytes, inside, within, ran, early, long, freed, late, short, isDir, size,
    firstCluster, before, after, goes, unlisted, vacated, same, shown⟩ :=
    deleteEntryAt_row geometry nodup inFat mem
  refine ⟨cluster, s, bytes, inside, within, ran, listed early [], listed late [], ?_, ?_⟩
  · have clear : ¬ Stops (early ++ long) := by
      rw [stops_append, not_or]
      exact ⟨goes, unlisted.not_stops⟩
    rw [before, listed_split clear (same ▸ shown), ← same, listed_append goes, unlisted.listed_eq,
      append_nil]
  · rw [after, listed_vacate goes vacated]

end

end Fat32

theorem sfnEntry_length (name : List Char) (firstCluster size : Nat) (isDir : Bool)
    (now : DateTime) : (sfnEntry name firstCluster size isDir now).length = 32 := by
  rw [sfnEntry_eq, length_append, makeSfn_length]
  rfl

theorem dirEntryBytes_sizes {name : List Char} {firstCluster size : Nat} {isDir : Bool}
    {now : DateTime} {bytes : List (BitVec 8)}
    (mem : bytes ∈ dirEntryBytes name firstCluster size isDir now) : bytes.length = 32 := by
  rw [dirEntryBytes, mem_append, mem_singleton] at mem
  rcases mem with long | rfl
  · obtain ⟨i, -, rfl⟩ := mem_map.mp long
    exact lfnEntryBytes_length _ _ _ (lfnPart_length _ _ _)
  · exact sfnEntry_length _ _ _ _ _

def slotsFor (name : List Char) : Nat :=
  (name.length + 12) / 13 + 1

theorem dirEntryBytes_length (name : List Char) (firstCluster size : Nat) (isDir : Bool)
    (now : DateTime) : (dirEntryBytes name firstCluster size isDir now).length = slotsFor name := by
  rw [dirEntryBytes, length_append, length_singleton, lfnEntries, length_map,
    length_reverse, length_range, lfnChars_length, slotsFor]

variable {entries : List (List (BitVec 8))}

theorem flatten_length (sizes : ∀ bytes, bytes ∈ entries → bytes.length = 32) :
    entries.flatten.length = 32 * entries.length := by
  induction entries with
  | nil => rfl
  | cons bytes rest ih =>
      have size := sizes bytes mem_cons_self
      have later := ih (fun other mem => sizes other (mem_cons_of_mem _ mem))
      rw [flatten_cons, length_append, length_cons]
      omega

theorem flatten_getD (sizes : ∀ bytes, bytes ∈ entries → bytes.length = 32) {q j : Nat}
    (inside : j < 32) : entries.flatten.getD (32 * q + j) 0#8 = (entries.getD q []).getD j 0#8 := by
  induction entries generalizing q with
  | nil => rfl
  | cons bytes rest ih =>
      have size := sizes bytes mem_cons_self
      have later := @ih (fun other mem => sizes other (mem_cons_of_mem _ mem))
      rw [flatten_cons]
      cases q with
      | zero =>
          rw [getD_cons_zero, getD_eq_getElem?_getD, List.getElem?_append_left (by omega),
            ← getD_eq_getElem?_getD, Nat.mul_zero, Nat.zero_add]
      | succ q =>
          rw [getD_cons_succ, getD_eq_getElem?_getD, List.getElem?_append_right (by omega),
            ← getD_eq_getElem?_getD, size, show 32 * (q + 1) + j - 32 = 32 * q + j by omega]
          exact later

theorem rowFrom_eq_map (cluster offset : Nat) (entries : List (List (BitVec 8))) :
    rowFrom cluster offset entries = (List.range entries.length).map (fun i =>
      ((cluster, offset + 32 * i), recordOf (slotOf (entries.getD i [])))) := by
  induction entries generalizing offset with
  | nil => rfl
  | cons bytes rest ih =>
      rw [rowFrom, ih, length_cons, range_succ_eq_map, map_cons, map_map]
      congr 1
      refine map_congr_left (fun i _ => ?_)
      show ((cluster, offset + 32 + 32 * i), _) = ((cluster, offset + 32 * (i + 1)), _)
      rw [show offset + 32 + 32 * i = offset + 32 * (i + 1) by omega]
      rfl

theorem rowFrom_places (cluster offset : Nat) (entries : List (List (BitVec 8))) :
    (rowFrom cluster offset entries).map Prod.fst =
      (List.range entries.length).map (fun i => (cluster, offset + 32 * i)) := by
  rw [rowFrom_eq_map, map_map]
  rfl

theorem sectorRow_written (cluster s : Nat) (sector : Sector) {k : Nat}
    (sizes : ∀ bytes, bytes ∈ entries → bytes.length = 32) (fits : k + entries.length ≤ 16) :
    sectorRow cluster s (sector.writeBytes (32 * k) entries.flatten) =
      slotRow cluster s sector 0 k ++ rowFrom cluster (s * 512 + 32 * k) entries ++
        slotRow cluster s sector (k + entries.length) (16 - (k + entries.length)) := by
  have total := flatten_length sizes
  have outside {i : Nat} (apart : i < k ∨ k + entries.length ≤ i) :
      recordOf (slotAt (sector.writeBytes (32 * k) entries.flatten) (32 * i)) =
        recordOf (slotAt sector (32 * i)) := by
    refine recordOf_congr (fun offset _ within => if_neg ?_)
    rw [total]
    omega
  have written {i : Nat} (inside : i < entries.length) :
      recordOf (slotAt (sector.writeBytes (32 * k) entries.flatten) (32 * (k + i))) =
        recordOf (slotOf (entries.getD i [])) := by
    refine recordOf_congr (fun offset _ within => ?_)
    show (if _ then _ else _) = _
    rw [if_pos (by rw [total]; omega),
      show 32 * (k + i) + offset - 32 * k = 32 * i + offset by omega]
    exact flatten_getD sizes (by omega)
  have middle : slotRow cluster s (sector.writeBytes (32 * k) entries.flatten) k entries.length =
      rowFrom cluster (s * 512 + 32 * k) entries := by
    rw [rowFrom_eq_map, slotRow, List.range'_eq_map_range, map_map]
    refine map_congr_left (fun i mem => ?_)
    show ((cluster, s * 512 + 32 * (k + i)), recordOf _) = _
    rw [written (mem_range.mp mem), Nat.mul_add, Nat.add_assoc]
  have start := @slotRow_congr sector _ cluster s 0 k (fun i _ upper => outside (Or.inl (by omega)))
  have rest := @slotRow_congr sector _ cluster s (k + entries.length) (16 - (k + entries.length))
    (fun i lower _ => outside (Or.inr lower))
  rw [sectorRow_split cluster s _ fits, middle, start, rest]

def placesFrom (cluster offset slots : Nat) : List (Nat × Nat) :=
  (List.range slots).map (fun i => (cluster, offset + 32 * i))

namespace Fat32

variable {vol : Fat32} {clusters : List Nat}

theorem writeEntries_row (geometry : Geometry vol) (nodup : clusters.Nodup)
    (inFat : ∀ cluster, cluster ∈ clusters → 2 ≤ cluster ∧ cluster < vol.fat.length)
    {cluster k : Nat} (mem : cluster ∈ clusters) {entries : List (List (BitVec 8))}
    (sizes : ∀ bytes, bytes ∈ entries → bytes.length = 32) (fits : k + entries.length ≤ 16) :
    ∃ early late,
      vol.rowOf clusters = early ++
        slotRow cluster 0 (vol.clusterSector cluster 0) k entries.length ++ late ∧
      (vol.withSector cluster 0 ((vol.clusterSector cluster 0).writeBytes (32 * k)
        entries.flatten)).rowOf clusters = early ++ rowFrom cluster (32 * k) entries ++ late := by
  obtain ⟨front, back, before, after⟩ := rowOf_withSector nodup inFat mem
    geometry.sectorsPerCluster ((vol.clusterSector cluster 0).writeBytes (32 * k) entries.flatten)
  rw [sectorRow_split cluster 0 _ fits] at before
  rw [sectorRow_written cluster 0 _ sizes fits, Nat.zero_mul, Nat.zero_add] at after
  refine ⟨front ++ slotRow cluster 0 (vol.clusterSector cluster 0) 0 k,
    slotRow cluster 0 (vol.clusterSector cluster 0) (k + entries.length)
      (16 - (k + entries.length)) ++ back, ?_, ?_⟩
  · rw [before]
    simp only [append_assoc]
  · rw [after]
    simp only [append_assoc]

end Fat32
end MachaOS.Fat
