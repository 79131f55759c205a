/-
Where a directory takes new entries, and what it lists with them.

The search walks the sectors of the directory for vacant slots that follow each other,
but returns an offset in a sector; the entries are written at that offset of the first
sector of the cluster.  They are listed if no end mark comes before them.
-/

import MachaOS.Fat.Contents
import MachaOS.Fat.Slots

namespace MachaOS.Fat

open List Fallible
open Chains (IsChain Unreferenced)

theorem runInSector_spec {sector : Sector} {slots left i run offset : Nat}
    (found : Fat32.runInSector sector slots left i run = some offset) (before : run ≤ i)
    (vacant : ∀ j, i - run ≤ j → j < i → isVacant (sector (32 * j)) = true) :
    ∃ k, offset = 32 * k ∧ k + slots ≤ i + left ∧
      ∀ j, k ≤ j → j < k + slots → isVacant (sector (32 * j)) = true := by
  induction left generalizing i run with
  | zero => cases found
  | succ left ih =>
      rw [Fat32.runInSector] at found
      by_cases free : isVacant (sector (32 * i)) = true
      · rw [if_pos free] at found
        have longer : ∀ j, i + 1 - (run + 1) ≤ j → j < i + 1 → isVacant (sector (32 * j)) = true := by
          intro j lower upper
          rcases Nat.lt_succ_iff_lt_or_eq.mp upper with earlier | rfl
          · exact vacant j (by omega) earlier
          · exact free
        by_cases enough : run + 1 = slots
        · rw [if_pos enough] at found
          refine ⟨i + 1 - slots, ?_, by omega, fun j lower upper => longer j (by omega) (by omega)⟩
          rw [← Option.some.inj found]
          omega
        · rw [if_neg enough] at found
          obtain ⟨k, place, within, clear⟩ := ih found (by omega) longer
          exact ⟨k, place, by omega, clear⟩
      · rw [if_neg free] at found
        by_cases enough : 0 = slots
        · rw [if_pos enough] at found
          refine ⟨i + 1, ?_, by omega, fun j lower upper => by omega⟩
          rw [← Option.some.inj found]
          omega
        · rw [if_neg enough] at found
          obtain ⟨k, place, within, clear⟩ := ih found (Nat.zero_le _) (fun j lower upper => by omega)
          exact ⟨k, place, by omega, clear⟩

namespace Fat32

variable {vol vol' : Fat32} {parent cluster slots : Nat} {rest clusters : List Nat}

theorem runInCluster_run (geometry : Geometry vol) (least : 2 ≤ cluster)
    (inside : cluster < vol.fat.length) {left s : Nat}
    (within : s + left ≤ vol.sectorsPerCluster) :
    ∃ found, vol.runInCluster cluster slots left s = .ok found ∧
      ∀ offset, found = some offset → ∃ k, offset = 32 * k ∧ k + slots ≤ 16 := by
  induction left generalizing s with
  | zero => exact ⟨none, rfl, fun offset none' => by cases none'⟩
  | succ left ih =>
      rw [runInCluster, geometry.readClusterSector ⟨least, inside, by omega⟩, Except.ok_bind]
      cases run : runInSector (vol.clusterSector cluster s) slots 16 0 0 with
      | some offset =>
          obtain ⟨k, place, fits, -⟩ := runInSector_spec run (le_refl 0)
            (fun j _ upper => absurd upper (Nat.not_lt_zero j))
          refine ⟨some offset, rfl, fun other same => ?_⟩
          rw [← Option.some.inj same]
          exact ⟨k, place, by omega⟩
      | none => exact ih (by omega)

theorem runOver_run (geometry : Geometry vol)
    (inFat : ∀ cluster, cluster ∈ clusters → 2 ≤ cluster ∧ cluster < vol.fat.length) :
    ∃ found, vol.runOver slots clusters = .ok found ∧
      ∀ cluster offset, found = some (cluster, offset) →
        cluster ∈ clusters ∧ ∃ k, offset = 32 * k ∧ k + slots ≤ 16 := by
  induction clusters with
  | nil => exact ⟨none, rfl, fun cluster offset none' => by cases none'⟩
  | cons cluster rest ih =>
      obtain ⟨least, inside⟩ := inFat cluster mem_cons_self
      obtain ⟨here, ran, place⟩ := @runInCluster_run vol cluster slots geometry least inside
        vol.sectorsPerCluster 0 (by omega)
      rw [runOver, ran, Except.ok_bind]
      cases here with
      | some offset =>
          refine ⟨some (cluster, offset), rfl, fun other offset' same => ?_⟩
          obtain ⟨rfl, rfl⟩ := Prod.mk.inj (Option.some.inj same)
          exact ⟨mem_cons_self, place offset rfl⟩
      | none =>
          obtain ⟨found, later, places⟩ := ih (fun other mem =>
            inFat other (mem_cons_of_mem _ mem))
          refine ⟨found, later, fun other offset same => ?_⟩
          obtain ⟨mem, fits⟩ := places other offset same
          exact ⟨mem_cons_of_mem _ mem, fits⟩

theorem findFreeRun_run (geometry : Geometry vol) (wellFormed : WellFormed vol)
    (chain : IsChain vol.cell (parent :: rest)) (short : rest.length ≤ chainGuard) :
    ∃ found, vol.findFreeRun parent slots = .ok found ∧
      ∀ cluster offset, found = some (cluster, offset) →
        cluster ∈ parent :: rest ∧ ∃ k, offset = 32 * k ∧ k + slots ≤ 16 := by
  unfold findFreeRun
  rw [freeRunFrom_of_chain wellFormed.small (wellFormed.marked chain) short]
  exact runOver_run geometry (fun cluster mem => inside_of_taken (chain.taken mem))

/-- Where the entries of a name go; `none` when the directory has to be extended. -/
def placeFor (vol : Fat32) (parent slots : Nat) : Option (Nat × Nat) :=
  match vol.findFreeRun parent slots with
  | .ok found => found
  | .error _ => none

end Fat32

def Row.before (row : Row) : Option (Nat × Nat) → Row
  | none => row
  | some place => row.takeWhile (fun item => item.1 ≠ place)

def Row.taken (row : Row) (place : Nat × Nat) (slots : Nat) : Row :=
  (row.dropWhile (fun item => item.1 ≠ place)).take slots

def Row.behind (row : Row) (place : Nat × Nat) (slots : Nat) : Row :=
  (row.dropWhile (fun item => item.1 ≠ place)).drop slots

theorem row_split {early run late : Row} {cluster offset slots : Nat}
    (nodup : ((early ++ run ++ late).map Prod.fst).Nodup) (some' : 0 < slots)
    (places : run.map Prod.fst = placesFrom cluster offset slots) :
    Row.before (early ++ run ++ late) (some (cluster, offset)) = early ∧
      Row.taken (early ++ run ++ late) (cluster, offset) slots = run ∧
      Row.behind (early ++ run ++ late) (cluster, offset) slots = late := by
  have length : run.length = slots := by
    have lengths := congrArg List.length places
    rwa [length_map, placesFrom, length_map, length_range] at lengths
  cases run with
  | nil =>
      rw [length_nil] at length
      omega
  | cons item others =>
      have first : item.1 = (cluster, offset) := by
        have heads := congrArg List.head? places
        rw [map_cons, List.head?_cons, placesFrom, List.head?_map, List.head?_range,
          if_neg (by omega)] at heads
        exact Option.some.inj heads
      have apart : ∀ other, other ∈ early → decide (other.1 ≠ (cluster, offset)) = true := by
        intro other mem
        rw [append_assoc, map_append, nodup_append] at nodup
        refine decide_eq_true (fun same => ?_)
        refine nodup.2.2 other.1 (mem_map_of_mem mem) item.1 ?_ (same.trans first.symm)
        exact mem_map_of_mem (mem_append_left _ mem_cons_self)
      have stops : decide (item.1 ≠ (cluster, offset)) = false := decide_eq_false (not_not_intro first)
      have dropped : (early ++ (item :: others) ++ late).dropWhile
          (fun item => decide (item.1 ≠ (cluster, offset))) = (item :: others) ++ late := by
        rw [append_assoc, dropWhile_append_of_pos apart, cons_append, dropWhile_cons, stops]
        rfl
      refine ⟨?_, ?_, ?_⟩
      · rw [Row.before, append_assoc, takeWhile_append_of_pos apart, cons_append,
          takeWhile_cons, stops]
        simp
      · rw [Row.taken, dropped, ← length, take_left']
        rfl
      · rw [Row.behind, dropped, ← length, drop_left']
        rfl

namespace Fat32

variable {vol vol' : Fat32} {parent cluster slots s : Nat} {rest clusters : List Nat}

theorem zeroSectors_run (geometry : Geometry vol) (least : 2 ≤ cluster)
    (inside : cluster < vol.fat.length) {left : Nat}
    (within : s + left ≤ vol.sectorsPerCluster) :
    ∃ after, zeroSectors cluster left s vol = (.ok (), after) ∧ Wrote vol after [cluster] ∧
      (∀ s', s' < s → ByteMemory.SameOn (vol.clusterSector cluster s')
        (after.clusterSector cluster s') 0 512) ∧
      ∀ s', s ≤ s' → s' < s + left →
        ByteMemory.SameOn (fun _ => 0#8) (after.clusterSector cluster s') 0 512 := by
  induction left generalizing vol s with
  | zero =>
      exact ⟨vol, rfl, Wrote.refl vol _, fun s' _ => ByteMemory.SameOn.refl _ 0 512,
        fun s' lower upper => by omega⟩
  | succ left ih =>
      have at' : InCluster vol cluster s := ⟨least, inside, by omega⟩
      have wrote := wrote_withSector at' (fun _ => 0#8)
      obtain ⟨after, ran, later, kept, zeros⟩ := @ih _ (s + 1) (geometry.of_sameShape wrote.shape)
        inside (show s + 1 + left ≤ vol.sectorsPerCluster by omega)
      refine ⟨after, ?_, wrote.trans later, fun s' before => ?_, fun s' lower upper => ?_⟩
      · exact (bind_of_ok (geometry.writeClusterSector at' _)).trans ran
      · refine ByteMemory.SameOn.trans ?_ (kept s' (by omega))
        refine clusterSector_withSector_of_ne _ (fun same => ?_)
        have equal := (sectorNumber_inj ⟨least, inside, by omega⟩ at' same).2
        omega
      · by_cases here : s' = s
        · subst here
          exact (clusterSector_withSector_self _).trans (kept s' (Nat.lt_succ_self s'))
        · exact zeros s' (by omega) (by omega)

theorem recordOf_zero : recordOf (slotAt (fun _ => 0#8) 0) = .stop := rfl

theorem clusterRow_zero (zeros : ∀ s, s < vol.sectorsPerCluster →
      ByteMemory.SameOn (fun _ => 0#8) (vol.clusterSector cluster s) 0 512) :
    ∀ item, item ∈ vol.clusterRow cluster → item.2 = .stop := by
  intro item mem
  obtain ⟨s, inside, mem⟩ := mem_flatMap.mp mem
  rw [sectorRow_congr (zeros s (mem_range.mp inside))] at mem
  obtain ⟨i, -, rfl⟩ := mem_map.mp mem
  exact recordOf_zero

theorem clusterRow_start (some' : 0 < vol.sectorsPerCluster) {count : Nat} (fits : count ≤ 16) :
    ∃ more, vol.clusterRow cluster =
      slotRow cluster 0 (vol.clusterSector cluster 0) 0 count ++ more := by
  obtain ⟨others, width⟩ := Nat.exists_eq_succ_of_ne_zero (Nat.ne_of_gt some')
  refine ⟨slotRow cluster 0 (vol.clusterSector cluster 0) (0 + count) (16 - (0 + count)) ++
    (List.range' 1 others).flatMap
      (fun s => sectorRow cluster s (vol.clusterSector cluster s)), ?_⟩
  rw [clusterRow, width, range_eq_range', List.range'_succ, flatMap_cons,
    sectorRow_split cluster 0 _ (show 0 + count ≤ 16 by omega), append_assoc]
  rfl

theorem Head.extended (wellFormed : WellFormed vol) (isHead : Head vol parent)
    (chain : IsChain vol.cell (parent :: rest)) (found : vol.firstFree = some cluster) :
    Head (vol.extended cluster ((parent :: rest).getLast (cons_ne_nil _ _))) parent := by
  obtain ⟨-, cells, chain'⟩ := wellFormed.extended chain found
  have free := wellFormed.free_of_firstFree found
  refine ⟨chain'.taken mem_cons_self, fun source linked => ?_⟩
  rw [cells] at linked
  by_cases tail : source = (parent :: rest).getLast (cons_ne_nil _ _)
  · rw [tail, Function.update_self] at linked
    exact isHead.1 (by rw [← Cell.link.inj linked]; exact free)
  · rw [Function.update_of_ne tail] at linked
    by_cases isNew : source = cluster
    · rw [isNew, Function.update_self] at linked
      cases linked
    · rw [Function.update_of_ne isNew] at linked
      exact isHead.2 source linked

structure Changed (vol vol' : Fat32) (parent : Nat) : Prop where
  shape : SameShape vol vol'
  wellFormed : WellFormed vol'
  isHead : Head vol' parent
  others : ∀ other, Head vol other → other ≠ parent → Kept vol vol' other

theorem Changed.wrote (changed : Changed vol vol' parent) (wellFormed : WellFormed vol)
    {vol'' : Fat32} (chain : IsChain vol'.cell (parent :: rest))
    (wrote : Wrote vol' vol'' clusters)
    (part : ∀ cluster, cluster ∈ clusters → cluster ∈ parent :: rest) :
    Changed vol vol'' parent :=
  ⟨changed.shape.trans wrote.shape, wrote.wellFormed changed.wellFormed,
    wrote.isHead changed.isHead, fun other isOther different =>
      (changed.others other isOther different).trans
        (wrote.kept_other changed.wellFormed chain changed.isHead part
          ((changed.others other isOther different).isHead wellFormed isOther) different)⟩

theorem Changed.refl (wellFormed : WellFormed vol) (isHead : Head vol parent) :
    Changed vol vol parent :=
  ⟨SameShape.refl vol, wellFormed, isHead, fun _ isOther _ => Kept.refl isOther⟩

theorem extendDir_yields (geometry : Geometry vol) (wellFormed : WellFormed vol)
    (isHead : Head vol parent) (chain : IsChain vol.cell (parent :: rest))
    (short : rest.length ≤ chainGuard) :
    Fallible.Yields (extendDir parent) vol
      (fun newCluster after => Changed vol after parent ∧ vol.firstFree = some newCluster ∧
        IsChain after.cell (parent :: (rest ++ [newCluster])) ∧
        after.rowOf (parent :: (rest ++ [newCluster])) =
          vol.rowOf (parent :: rest) ++ after.clusterRow newCluster ∧
        ∀ item, item ∈ after.clusterRow newCluster → item.2 = .stop)
      (fun stop after => stop = .error .outOfSpace ∧ after = vol ∧ vol.firstFree = none) := by
  unfold Fallible.Yields
  rw [wellFormed.extendDir_run chain]
  cases found : vol.firstFree with
  | none => exact ⟨rfl, rfl, rfl⟩
  | some newCluster =>
      obtain ⟨least, inside, -, -⟩ := firstFree_eq_some found
      obtain ⟨well, cells, chain'⟩ := wellFormed.extended chain found
      have free := wellFormed.free_of_firstFree found
      have fresh : newCluster ∉ parent :: rest := fun mem => chain.taken mem free
      have entries : (vol.extended newCluster
          ((parent :: rest).getLast (cons_ne_nil _ _))).fat.length = vol.fat.length :=
        length_set.trans length_set
      have shape : SameShape vol (vol.extended newCluster
          ((parent :: rest).getLast (cons_ne_nil _ _))) :=
        ⟨rfl, entries, length_set.trans length_set⟩
      obtain ⟨after, ran, wrote, -, zeros⟩ := @zeroSectors_run _ newCluster 0
        (geometry.of_sameShape shape) least (by rw [entries]; exact inside)
        vol.sectorsPerCluster (show 0 + vol.sectorsPerCluster ≤ _ by
          rw [Nat.zero_add]
          exact le_refl _)
      dsimp only
      rw [if_pos short, bind_of_ok ran]
      have extended : Changed vol (vol.extended newCluster
          ((parent :: rest).getLast (cons_ne_nil _ _))) parent :=
        ⟨shape, well, isHead.extended wellFormed chain found, fun other isOther different =>
          Kept.extended wellFormed chain isHead found isOther different⟩
      have width : after.sectorsPerCluster = vol.sectorsPerCluster :=
        wrote.shape.sectorsPerCluster
      refine ⟨extended.wrote wellFormed chain' wrote (fun cluster mem => ?_), rfl, ?_, ?_, ?_⟩
      · rw [mem_singleton.mp mem]
        simp
      · rw [wrote.cells]
        exact chain'
      · have old : after.rowOf (parent :: rest) = vol.rowOf (parent :: rest) := by
          refine rowOf_congr width (fun cluster mem s inside' => ?_)
          have at' := IsChain.inCluster chain mem inside'
          refine (sameSectors_of_disk shape rfl cluster s inside').trans ?_
          refine wrote.others cluster s (shape.inCluster.mpr at') (fun isNew => ?_)
          rw [mem_singleton.mp isNew] at mem
          exact fresh mem
        have split : after.rowOf (parent :: (rest ++ [newCluster])) =
            after.rowOf (parent :: rest) ++ after.clusterRow newCluster := by
          rw [← cons_append, rowOf, flatMap_append, flatMap_singleton]
          rfl
        rw [split, old]
      · exact clusterRow_zero (fun s inside' => zeros s (Nat.zero_le _) (by omega))

def Tail (row late : Row) (slots : Nat) : Option (Nat × Nat) → Prop
  | some place => late = row.behind place slots
  | none => ∀ item, item ∈ late → item.2 = .stop

structure Written (vol after : Fat32) (parent : Nat) (rest : List Nat) (name : List Char)
    (firstCluster size : Nat) (isDir : Bool) : Prop where
  changed : Changed vol after parent
  rows : ∃ (rest' : List Nat) (cluster offset : Nat) (now : DateTime) (late : Row),
    IsChain after.cell (parent :: rest') ∧
    (vol.placeFor parent (slotsFor name) ≠ none → rest' = rest) ∧
    rest'.length ≤ rest.length + 1 ∧
    after.rowOf (parent :: rest') =
      (vol.rowOf (parent :: rest)).before (vol.placeFor parent (slotsFor name)) ++
        rowFrom cluster offset (dirEntryBytes name firstCluster size isDir now) ++ late ∧
    Tail (vol.rowOf (parent :: rest)) late (slotsFor name)
      (vol.placeFor parent (slotsFor name))

def entryPlace (vol : Fat32) (parent slots : Nat) : Option (Nat × Nat) :=
  match vol.placeFor parent slots with
  | some place => some place
  | none => vol.firstFree.map (fun cluster => (cluster, 0))

structure WrittenAt (vol after : Fat32) (parent : Nat) (rest : List Nat) (name : List Char)
    (firstCluster size : Nat) (isDir : Bool) (place : Nat × Nat) : Prop where
  changed : Changed vol after parent
  found : vol.entryPlace parent (slotsFor name) = some place
  rows : ∃ (rest' : List Nat) (now : DateTime) (late : Row),
    IsChain after.cell (parent :: rest') ∧
    (vol.placeFor parent (slotsFor name) ≠ none → rest' = rest) ∧
    rest'.length ≤ rest.length + 1 ∧
    after.rowOf (parent :: rest') =
      (vol.rowOf (parent :: rest)).before (vol.placeFor parent (slotsFor name)) ++
        rowFrom place.1 place.2 (dirEntryBytes name firstCluster size isDir now) ++ late ∧
    Tail (vol.rowOf (parent :: rest)) late (slotsFor name)
      (vol.placeFor parent (slotsFor name))

theorem WrittenAt.written {after : Fat32} {name : List Char} {firstCluster size : Nat}
    {isDir : Bool} {place : Nat × Nat}
    (written : WrittenAt vol after parent rest name firstCluster size isDir place) :
    Written vol after parent rest name firstCluster size isDir := by
  obtain ⟨changed, -, rest', now, late, rows⟩ := written
  exact ⟨changed, rest', place.1, place.2, now, late, rows⟩

theorem slotsFor_le {name : List Char} (short : name.length ≤ maxName) : slotsFor name ≤ 16 := by
  have limit : maxName = 128 := rfl
  unfold slotsFor
  omega

section

variable {name : List Char} (geometry : Geometry vol) (wellFormed : WellFormed vol)
  (isHead : Head vol parent) (chain : IsChain vol.cell (parent :: rest))
  (short : rest.length ≤ chainGuard) (named : name.length ≤ maxName) (firstCluster size : Nat)
  (isDir : Bool)
include geometry wellFormed isHead chain short named firstCluster size isDir

theorem writeDirEntries_placed :
    Fallible.Yields (writeDirEntries parent name firstCluster size isDir) vol
      (fun _ after => ∃ place,
        WrittenAt vol after parent rest name firstCluster size isDir place)
      (fun stop after => stop = .error .outOfSpace ∧ after = vol ∧
        vol.placeFor parent (slotsFor name) = none ∧ vol.firstFree = none) := by
  obtain ⟨found, searched, place⟩ := @findFreeRun_run vol parent (slotsFor name) rest geometry
    wellFormed chain short
  have placed : vol.placeFor parent (slotsFor name) = found := by rw [placeFor, searched]
  have enough := slotsFor_le named
  unfold writeDirEntries
  refine Fallible.Yields.after (get_run vol) ?_
  dsimp only
  generalize vol.device.hardware.rtc vol.device.clock = now
  have sizes : ∀ bytes, bytes ∈ dirEntryBytes name firstCluster size isDir now → bytes.length = 32 :=
    fun bytes mem => dirEntryBytes_sizes mem
  have count := dirEntryBytes_length name firstCluster size isDir now
  rw [count]
  cases found with
  | some at' =>
      obtain ⟨cluster, offset⟩ := at'
      obtain ⟨mem, k, rfl, fits⟩ := place cluster offset rfl
      obtain ⟨least, inside⟩ := inside_of_taken (chain.taken mem)
      have finds : findPlace parent (slotsFor name) vol = (.ok (cluster, 32 * k), vol) := by
        unfold findPlace
        rw [bind_of_ok (show Fallible.query _ vol = (.ok _, vol) by
          rw [query_run, searched])]
        rfl
      have at' : InCluster vol cluster 0 := ⟨least, inside, geometry.sectorsPerCluster⟩
      have first : 32 * k / 512 = 0 := Nat.div_eq_of_lt (by
        have some' : 0 < slotsFor name := Nat.succ_pos _
        omega)
      have same : 32 * k % 512 = 32 * k := Nat.mod_eq_of_lt (by
        have some' : 0 < slotsFor name := Nat.succ_pos _
        omega)
      have nodup := chain.nodup
      have inFat : ∀ cluster, cluster ∈ parent :: rest → 2 ≤ cluster ∧ cluster < vol.fat.length :=
        fun cluster mem => inside_of_taken (chain.taken mem)
      obtain ⟨early, late, before, after⟩ := writeEntries_row geometry nodup inFat mem sizes
        (by rw [count]; exact fits)
      have wrote := wrote_withSector at' ((vol.clusterSector cluster 0).writeBytes (32 * k)
        (dirEntryBytes name firstCluster size isDir now).flatten)
      refine Fallible.Yields.after finds ?_
      dsimp only
      rw [first, same]
      refine Fallible.Yields.after (show Fallible.query _ vol = (.ok _, vol) by
        rw [query_run, geometry.readClusterSector at']) ?_
      refine yields_of_ok (geometry.writeClusterSector at' _)
        ⟨(cluster, 32 * k), ?_, ?_, ?_⟩
      · exact (Changed.refl wellFormed isHead).wrote wellFormed chain wrote (fun other isIt => by
          rw [mem_singleton.mp isIt]
          exact mem)
      · rw [entryPlace, placed]
      · have nodupPlaces := @rowOf_places_nodup vol _ nodup
        rw [before] at nodupPlaces
        obtain ⟨isBefore, -, isBehind⟩ := row_split nodupPlaces (Nat.succ_pos _) (by
          rw [slotRow_places, count, Nat.zero_mul, Nat.zero_add]
          rfl)
        refine ⟨rest, now, late, ?_, fun _ => rfl, Nat.le_succ _, ?_, ?_⟩
        · rw [wrote.cells]
          exact chain
        · rw [placed, after, before, isBefore]
        · rw [placed, before]
          exact isBehind.symm
  | none =>
      have extends' := extendDir_yields geometry wellFormed isHead chain short
      have finds : findPlace parent (slotsFor name) vol =
          (do
            let newCluster ← extendDir parent
            pure (newCluster, 0)) vol := by
        unfold findPlace
        rw [bind_of_ok (show Fallible.query _ vol = (.ok _, vol) by
          rw [query_run, searched])]
      rcases outcome : extendDir parent vol with ⟨stop | newCluster, middle⟩
      · obtain ⟨rfl, rfl, none'⟩ := extends'.of_error outcome
        refine yields_of_error (bind_of_error
          (finds.trans (bind_of_error outcome))) ⟨rfl, rfl, placed, none'⟩
      · obtain ⟨changed, free, chain', row, ends⟩ := extends'.of_ok outcome
        have mem : newCluster ∈ parent :: (rest ++ [newCluster]) := by simp
        obtain ⟨least, inside⟩ := inside_of_taken (chain'.taken mem)
        have geometry' := geometry.of_sameShape changed.shape
        have at' : InCluster middle newCluster 0 := ⟨least, inside, geometry'.sectorsPerCluster⟩
        have nodup := chain'.nodup
        have inFat : ∀ cluster, cluster ∈ parent :: (rest ++ [newCluster]) →
            2 ≤ cluster ∧ cluster < middle.fat.length :=
          fun cluster mem => inside_of_taken (chain'.taken mem)
        obtain ⟨early, late, before, after⟩ := @writeEntries_row middle _ geometry' nodup inFat
          newCluster 0 mem (dirEntryBytes name firstCluster size isDir now) sizes
          (by rw [count]; omega)
        have wrote := wrote_withSector at' ((middle.clusterSector newCluster 0).writeBytes (32 * 0)
          (dirEntryBytes name firstCluster size isDir now).flatten)
        refine Fallible.Yields.after (finds.trans ((bind_of_ok outcome).trans rfl)) ?_
        dsimp only
        refine Fallible.Yields.after (show Fallible.query _ middle = (.ok _, middle) by
          rw [query_run, Nat.zero_div, geometry'.readClusterSector at']) ?_
        refine yields_of_ok (geometry'.writeClusterSector at' _)
          ⟨(newCluster, 0), ?_, ?_, ?_⟩
        · exact changed.wrote wellFormed chain' wrote (fun other isIt => by
            rw [mem_singleton.mp isIt]
            exact mem)
        · rw [entryPlace, placed, free]
          rfl
        · have nodupPlaces := @rowOf_places_nodup middle _ nodup
          obtain ⟨more, start⟩ := @clusterRow_start middle newCluster geometry'.sectorsPerCluster _ enough
          rw [before] at nodupPlaces
          rw [start, ← append_assoc, before, count] at row
          rw [count] at nodupPlaces
          obtain ⟨rfl, -, rfl⟩ := split_unique nodupPlaces row (fun none' => by
            have length := congrArg List.length none'
            rw [slotRow, length_map, length_range'] at length
            exact absurd length (Nat.succ_ne_zero _)) rfl
          refine ⟨rest ++ [newCluster], now, late, ?_, ?_, ?_, ?_, ?_⟩
          · rw [wrote.cells]
            exact chain'
          · exact fun some' => absurd placed some'
          · rw [length_append, length_singleton]
          · rw [placed]
            exact after
          · rw [placed]
            exact fun item inLate => ends item (by
              rw [start]
              exact mem_append_right _ inLate)

theorem writeDirEntries_yields :
    Fallible.Yields (writeDirEntries parent name firstCluster size isDir) vol
      (fun _ after => Written vol after parent rest name firstCluster size isDir)
      (fun stop after => stop = .error .outOfSpace ∧ after = vol ∧
        vol.placeFor parent (slotsFor name) = none ∧ vol.firstFree = none) :=
  (writeDirEntries_placed geometry wellFormed isHead chain short named firstCluster size isDir).weaken
    (fun _ _ placed => placed.elim (fun _ written => written.written)) (fun _ _ stop => stop)

end

end Fat32
end MachaOS.Fat
