/-
The copies of the FAT on the disk.

A flush writes the first copy only.  On a volume with one copy an operation that
returns `Ok` leaves it equal to the cache; with more of them the others go stale as soon
as an entry changes.
-/

import MachaOS.Fat.Builds
import MachaOS.Fat.Flushing

namespace MachaOS.Fat.Fat32

open Fallible (Keeps keeps_pure keeps_fail keeps_query keeps_bind kept_bind)

variable {vol vol' : Fat32}

def CopiesAgree (vol : Fat32) : Prop :=
  ∀ copy, copy < vol.fatCount → ∀ i, i < vol.fatSizeSectors → ∀ offset, offset < 512 →
    vol.device.disk
        (512 * (vol.reservedSectors + copy * vol.fatSizeSectors + i) + offset) =
      vol.fatSector i offset

def Clean (vol : Fat32) : Prop :=
  ∀ i, vol.fatDirty.getD i false = false

/-- The operation returns `Ok` without having done anything. -/
def Idle (vol : Fat32) : Operation → Prop
  | .rename path newName => ∃ parent, vol.resolveParent path = .ok (parent, newName)
  | .moveFile src dst => src = dst
  | .writeFile _ _ | .makeDir _ | .remove _ => False

def HasRoom (vol : Fat32) (parent : Nat) (name : List Char) : Prop :=
  ∃ place, vol.findFreeRun parent ((lfnEntries name).length + 1) = .ok (some place)

/-- The operation takes no cluster and gives none back: it is about an empty file, or a new name,
and there is room for the entry. -/
def Untouched (vol : Fat32) : Operation → Prop
  | .writeFile path content =>
      content = [] ∧ ∀ target, vol.resolveParent path = .ok target →
        (∀ existing, vol.findDirEntry target.1 target.2 = .ok (some existing) →
          existing.firstCluster = 0) ∧
        HasRoom (replaceExisting target.1 target.2 vol).2 target.1 target.2
  | .remove path =>
      ∀ target, vol.resolveParent path = .ok target →
        ∀ entry, vol.findDirEntry target.1 target.2 = .ok (some entry) → entry.firstCluster = 0
  | .rename path newName =>
      ∀ target, vol.resolveParent path = .ok target →
        ∀ entry, vol.findDirEntry target.1 target.2 = .ok (some entry) →
          HasRoom (deleteEntryAt entry.location.1 entry.location.2 vol).2 target.1 newName
  | .makeDir _ => False
  | .moveFile src dst => src = dst

/-- A step after which the copies agree: no `u32` arithmetic overflows, there is one copy or no
entry is touched, and what the last operations left in the cache is flushed. -/
structure Mirrors (vol : Fat32) (op : Operation) : Prop where
  exact' : (op.run vol.checked).1 ≠ .error .panic
  copies : vol.fatCount = 1 ∨ Untouched vol.checked op
  flushes : Idle vol op → Clean vol

section Ending

variable {invariant : Fat32 → Prop} (calls : ∀ call : Call, Keeps invariant call.run)

include calls

variable {path : List Char}

section

variable (holds : invariant vol)
include holds

theorem writeFile_flushes {content : List (BitVec 8)}
    (done : writeFile path content vol = (.ok (), vol')) :
    ∃ middle, invariant middle ∧ flushFat middle = (.ok (), vol') := by
  unfold writeFile at done
  obtain ⟨target, _, -, holds, done⟩ := (keeps_query _).of_bind_ok holds done
  obtain ⟨_, _, -, holds, done⟩ := (keeps_query _).of_bind_ok holds done
  obtain ⟨_, _, -, holds, done⟩ := (keeps_replaceExisting calls _ _).of_bind_ok holds done
  obtain ⟨firstCluster, _, -, holds, done⟩ := (keeps_storeContent calls _).of_bind_ok holds done
  obtain ⟨_, middle, -, holds, done⟩ := (keeps_writeDirEntries calls _ _ _ _ _).of_bind_ok holds done
  exact ⟨middle, holds, done⟩

theorem makeDir_flushes (done : makeDir path vol = (.ok (), vol')) :
    ∃ middle, invariant middle ∧ flushFat middle = (.ok (), vol') := by
  unfold makeDir at done
  obtain ⟨target, _, -, holds, done⟩ := (keeps_query _).of_bind_ok holds done
  obtain ⟨_, _, -, holds, done⟩ := (keeps_query _).of_bind_ok holds done
  obtain ⟨found, _, -, holds, done⟩ := (keeps_query _).of_bind_ok holds done
  cases found with
  | some entry => cases done
  | none =>
      obtain ⟨cluster, _, -, holds, done⟩ := (keeps_allocCluster calls).of_bind_ok holds done
      obtain ⟨_, _, -, holds, done⟩ := (calls (.set cluster eofMark)).of_bind_ok holds done
      obtain ⟨_, _, -, holds, done⟩ := (calls (.write cluster 0 _)).of_bind_ok holds done
      obtain ⟨_, middle, -, holds, done⟩ :=
        (keeps_writeDirEntries calls _ _ _ _ _).of_bind_ok holds done
      exact ⟨middle, holds, done⟩

theorem remove_flushes (done : remove path vol = (.ok (), vol')) :
    ∃ middle, invariant middle ∧ flushFat middle = (.ok (), vol') := by
  unfold remove at done
  obtain ⟨target, _, -, holds, done⟩ := (keeps_query _).of_bind_ok holds done
  obtain ⟨found, _, -, holds, done⟩ := (keeps_query _).of_bind_ok holds done
  cases found with
  | none => cases done
  | some entry =>
      obtain ⟨contents, _, -, holds, done⟩ := (keeps_query _).of_bind_ok holds done
      split at done
      · obtain ⟨_, _, -, holds, done⟩ := (keeps_deleteEntryAt calls _ _).of_bind_ok holds done
        dsimp only at done
        split at done
        · obtain ⟨_, middle, -, holds, done⟩ :=
            (keeps_freeClustersFrom calls _ _).of_bind_ok holds done
          exact ⟨middle, holds, done⟩
        · exact ⟨_, holds, done⟩
      · cases done

theorem rename_flushes {newName : List Char} (done : rename path newName vol = (.ok (), vol')) :
    Idle vol (.rename path newName) ∨
      ∃ middle, invariant middle ∧ flushFat middle = (.ok (), vol') := by
  unfold rename at done
  obtain ⟨target, _, resolved, holds, done⟩ := (keeps_query _).of_bind_ok holds done
  obtain ⟨_, _, -, holds, done⟩ := (keeps_query _).of_bind_ok holds done
  split at done
  · rename_i same
    refine Or.inl ⟨target.1, ?_⟩
    rw [← same]
    exact congrArg Prod.fst resolved
  · obtain ⟨found, _, -, holds, done⟩ := (keeps_query _).of_bind_ok holds done
    cases found with
    | none => cases done
    | some entry =>
        obtain ⟨taken, _, -, holds, done⟩ := (keeps_query _).of_bind_ok holds done
        split at done
        · cases done
        · obtain ⟨_, _, -, holds, done⟩ := (keeps_deleteEntryAt calls _ _).of_bind_ok holds done
          obtain ⟨_, middle, -, holds, done⟩ :=
            (keeps_writeDirEntries calls _ _ _ _ _).of_bind_ok holds done
          exact Or.inr ⟨middle, holds, done⟩

theorem moveFile_flushes {src dst : List Char} (done : moveFile src dst vol = (.ok (), vol')) :
    src = dst ∨ ∃ middle, invariant middle ∧ flushFat middle = (.ok (), vol') := by
  unfold moveFile at done
  split at done
  · rename_i same
    exact Or.inl same
  · refine Or.inr ?_
    obtain ⟨directory, _, -, holds, done⟩ := (keeps_query _).of_bind_ok holds done
    split at done
    · obtain ⟨entries, _, -, holds, done⟩ := (keeps_query _).of_bind_ok holds done
      split at done
      · obtain ⟨_, _, -, holds, done⟩ := (keeps_makeDir calls _).of_bind_ok holds done
        exact remove_flushes calls holds done
      · cases done
    · obtain ⟨data, _, -, holds, done⟩ := (keeps_query _).of_bind_ok holds done
      obtain ⟨_, _, -, holds, done⟩ := (keeps_writeFile calls _ _).of_bind_ok holds done
      exact remove_flushes calls holds done

theorem operation_flushes {op : Operation} (done : op.run vol = (.ok (), vol')) :
    Idle vol op ∨ ∃ middle, invariant middle ∧ flushFat middle = (.ok (), vol') := by
  cases op with
  | writeFile path content => exact Or.inr (writeFile_flushes calls holds done)
  | makeDir path => exact Or.inr (makeDir_flushes calls holds done)
  | remove path => exact Or.inr (remove_flushes calls holds done)
  | rename path newName => exact rename_flushes calls holds done
  | moveFile src dst => exact moveFile_flushes calls holds done

end

end Ending

variable {op : Operation}

theorem idle_unchanged (idle : Idle vol op) : (op.run vol).2 = vol := by
  cases op with
  | writeFile path content => exact absurd idle id
  | makeDir path => exact absurd idle id
  | remove path => exact absurd idle id
  | rename path newName =>
      obtain ⟨parent, resolved⟩ := idle
      show (rename path newName vol).2 = vol
      unfold rename
      rw [Fallible.bind_run, Fallible.query_run, resolved]
      dsimp only
      rw [Fallible.bind_run, Fallible.query_run]
      cases validateName newName with
      | error stop => rfl
      | ok _ =>
          dsimp only
          rw [if_pos rfl]
          rfl
  | moveFile src dst =>
      have same : src = dst := idle
      show (moveFile src dst vol).2 = vol
      unfold moveFile
      rw [if_pos same]
      rfl

variable {boot : Sector}

theorem Mirrored.firstDataSector (mirrored : Mirrored true boot vol) :
    vol.firstDataSector = vol.reservedSectors + vol.fatCount * vol.fatSizeSectors := by
  obtain ⟨tables, multiplied, added⟩ := mirrored.sum
  rw [mirrored.checks] at multiplied added
  have product := u32_exact multiplied
  have sum := u32_exact added
  rw [mirrored.fields.reservedSectors, mirrored.fields.fatCount, mirrored.fields.fatSizeSectors]
  rw [← Nat.cast_mul] at product
  omega

theorem clusterToSector_ge (checks : vol.overflowChecks = true) {cluster start : Nat}
    (found : vol.clusterToSector cluster = .ok start) : vol.firstDataSector ≤ start := by
  unfold clusterToSector at found
  rw [checks] at found
  obtain ⟨index, -, found⟩ := Except.bind_eq_ok.mp found
  obtain ⟨offset, -, added⟩ := Except.bind_eq_ok.mp found
  have same := u32_exact added
  omega

theorem Mirrored.writtenBeyond (mirrored : Mirrored true boot vol) {lba : Nat}
    (beyond : vol.reservedSectors + vol.fatSizeSectors ≤ lba) (sector : Sector) :
    Mirrored true boot (writeSector lba sector vol).2 :=
  mirrored.writtenAt (fun _ _ _ => by omega) (fun _ => by omega) sector

theorem writeClusterSector_keeps (copies : 1 ≤ (boot 0x10).toNat) (cluster s : Nat)
    (sector : Sector) : Keeps (Mirrored true boot) (writeClusterSector cluster s sector) := by
  intro vol mirrored
  unfold writeClusterSector
  rw [Fallible.bind_run, Fallible.query_run]
  cases found : vol.clusterToSector cluster with
  | error stop => exact mirrored
  | ok start =>
      have beyond := clusterToSector_ge mirrored.checks found
      rw [mirrored.firstDataSector] at beyond
      rw [← mirrored.fields.fatCount] at copies
      have first : vol.fatSizeSectors ≤ vol.fatCount * vol.fatSizeSectors :=
        Nat.le_mul_of_pos_left _ copies
      exact mirrored.writtenBeyond (by omega) sector

theorem call_keeps (copies : 1 ≤ (boot 0x10).toNat) (call : Call) :
    Keeps (Mirrored true boot) call.run := by
  cases call with
  | alloc => exact keeps_bind allocCluster_keeps (fun _ => keeps_pure _)
  | set cluster value => exact setCluster_keeps cluster value
  | release cluster => exact keeps_bind (setCluster_keeps cluster _) (fun _ => countFreed_keeps)
  | write cluster s sector => exact writeClusterSector_keeps copies cluster s sector
  | flush => exact flushFat_keeps

theorem Mirrored.copiesAgree (mirrored : Mirrored true boot vol) (single : vol.fatCount = 1)
    (clean : Clean vol) : CopiesAgree vol := by
  intro copy few i bound offset within
  obtain rfl : copy = 0 := by omega
  rw [Nat.zero_mul, Nat.add_zero]
  exact mirrored.synced i bound (clean i) offset within

structure Settled (vol : Fat32) : Prop where
  checks : vol.overflowChecks = true
  firstDataSector :
    vol.firstDataSector = vol.reservedSectors + vol.fatCount * vol.fatSizeSectors
  clean : Clean vol
  copiesAgree : CopiesAgree vol

theorem writeClusterSector_settled (cluster s : Nat) (sector : Sector) :
    Keeps Settled (writeClusterSector cluster s sector) := by
  intro vol settled
  unfold writeClusterSector
  rw [Fallible.bind_run, Fallible.query_run]
  cases found : vol.clusterToSector cluster with
  | error stop => exact settled
  | ok start =>
      have beyond := clusterToSector_ge settled.checks found
      rw [settled.firstDataSector] at beyond
      obtain ⟨-, elsewhere⟩ := vol.device.writeSector_frame (start + s) sector
      refine ⟨settled.checks, settled.firstDataSector, settled.clean, ?_⟩
      intro copy few i bound offset within
      have few' : copy + 1 ≤ vol.fatCount := few
      have bound' : i < vol.fatSizeSectors := bound
      have below := Nat.mul_le_mul_right vol.fatSizeSectors few'
      rw [Nat.succ_mul] at below
      show (vol.device.writeSector (start + s) sector).2.disk (512 * (vol.reservedSectors +
        copy * vol.fatSizeSectors + i) + offset) = vol.fatSector i offset
      rw [elsewhere _ (by omega)]
      exact settled.copiesAgree copy few i bound offset within

theorem flushSectors_of_clean (clean : Clean vol) (left i : Nat) :
    flushSectors left i vol = (.ok (), vol) := by
  induction left generalizing i with
  | zero => rfl
  | succ left ih =>
      rw [flushSectors, Fallible.bind_run, Fallible.get_run]
      dsimp only
      rw [clean i, if_neg (by decide)]
      exact ih (i + 1)

theorem flushFat_settled : Keeps Settled flushFat := by
  intro vol settled
  have ran : flushFat vol = (.ok (), vol) := flushSectors_of_clean settled.clean _ 0
  rw [ran]
  exact settled

theorem deleteEntryAt_settled (cluster offset : Nat) :
    Keeps Settled (deleteEntryAt cluster offset) :=
  keeps_bind (keeps_query _) (fun _ => writeClusterSector_settled cluster _ _)

theorem writeDirEntries_settled (settled : Settled vol) {parent : Nat} {name : List Char}
    (room : HasRoom vol parent name) (firstCluster size : Nat) (isDir : Bool) :
    Settled (writeDirEntries parent name firstCluster size isDir vol).2 := by
  obtain ⟨place, found⟩ := room
  have finds (now : DateTime) : findPlace parent (dirEntryBytes name firstCluster size isDir now).length
      vol = (.ok place, vol) := by
    unfold findPlace
    rw [dirEntryBytes, List.length_append, List.length_singleton, Fallible.bind_run,
      Fallible.query_run, found]
    rfl
  unfold writeDirEntries
  rw [Fallible.bind_run, Fallible.get_run]
  dsimp only
  rw [Fallible.bind_of_ok (finds _)]
  exact keeps_bind (keeps_query _) (fun _ => writeClusterSector_settled place.1 _ _) vol settled

theorem storeContent_nil (vol : Fat32) : storeContent [] vol = (.ok 0, vol) := by
  have needed : vol.clustersFor 0 = 0 := by
    unfold clustersFor
    rcases Nat.eq_zero_or_pos vol.clusterBytes with none' | some'
    · rw [none', Nat.div_zero]
    · exact Nat.div_eq_of_lt (by omega)
  unfold storeContent
  rw [Fallible.bind_run, Fallible.get_run]
  dsimp only
  rw [List.length_nil, needed, if_pos rfl]
  rfl

theorem replaceExisting_settled (settled : Settled vol) {parent : Nat} {name : List Char}
    (empty : ∀ existing, vol.findDirEntry parent name = .ok (some existing) →
      existing.firstCluster = 0) : Settled (replaceExisting parent name vol).2 := by
  refine kept_bind settled ?_
  rintro found after ran holds
  obtain ⟨asked, rfl⟩ := Prod.mk.inj ran
  cases found with
  | none => exact settled
  | some existing =>
      dsimp only
      split
      · exact settled
      · refine keeps_bind (deleteEntryAt_settled _ _) (fun _ => ?_) vol settled
        rw [if_neg (not_not_intro (empty existing asked))]
        exact keeps_pure _

variable {path : List Char}

theorem untouched_writeFile (settled : Settled vol) {content : List (BitVec 8)}
    (untouched : Untouched vol (.writeFile path content)) :
    Settled (writeFile path content vol).2 := by
  obtain ⟨rfl, each⟩ := untouched
  refine kept_bind settled ?_
  rintro target after ran -
  obtain ⟨resolved, rfl⟩ := Prod.mk.inj ran
  obtain ⟨empty, room⟩ := each target resolved
  refine kept_bind settled ?_
  rintro _ after ran -
  obtain ⟨-, rfl⟩ := Prod.mk.inj ran
  refine kept_bind (replaceExisting_settled settled empty) ?_
  rintro _ middle replaced holds
  rw [replaced] at room
  refine kept_bind (by rw [storeContent_nil]; exact holds) ?_
  rintro firstCluster after stored -
  rw [storeContent_nil] at stored
  obtain ⟨-, rfl⟩ := Prod.mk.inj stored
  refine kept_bind (writeDirEntries_settled holds room _ _ _) ?_
  rintro _ last - written
  exact flushFat_settled last written

theorem untouched_remove (settled : Settled vol) (untouched : Untouched vol (.remove path)) :
    Settled (remove path vol).2 := by
  refine kept_bind settled ?_
  rintro target after ran -
  obtain ⟨resolved, rfl⟩ := Prod.mk.inj ran
  refine kept_bind settled ?_
  rintro found after ran -
  obtain ⟨asked, rfl⟩ := Prod.mk.inj ran
  cases found with
  | none => exact settled
  | some entry =>
      refine keeps_bind (keeps_query _) (fun contents => ?_) vol settled
      split
      · refine keeps_bind (deleteEntryAt_settled _ _) (fun _ => ?_)
        dsimp only
        rw [if_neg (not_not_intro (untouched target resolved entry asked))]
        exact flushFat_settled
      · exact keeps_fail _

theorem untouched_rename (settled : Settled vol) {newName : List Char}
    (untouched : Untouched vol (.rename path newName)) :
    Settled (rename path newName vol).2 := by
  refine kept_bind settled ?_
  rintro target after ran -
  obtain ⟨resolved, rfl⟩ := Prod.mk.inj ran
  refine kept_bind settled ?_
  rintro _ after ran -
  obtain ⟨-, rfl⟩ := Prod.mk.inj ran
  split
  · exact settled
  · refine kept_bind settled ?_
    rintro found after ran -
    obtain ⟨asked, rfl⟩ := Prod.mk.inj ran
    cases found with
    | none => exact settled
    | some entry =>
        have room := untouched target resolved entry asked
        refine kept_bind settled ?_
        rintro taken after ran -
        obtain ⟨-, rfl⟩ := Prod.mk.inj ran
        split
        · exact settled
        · refine kept_bind (deleteEntryAt_settled _ _ _ settled) ?_
          rintro _ middle deleted holds
          rw [deleted] at room
          refine kept_bind (writeDirEntries_settled holds room _ _ _) ?_
          rintro _ last - written
          exact flushFat_settled last written

theorem untouched_keeps (settled : Settled vol) (untouched : Untouched vol op) :
    Settled (op.run vol).2 := by
  cases op with
  | writeFile path content => exact untouched_writeFile settled untouched
  | makeDir path => exact absurd untouched id
  | remove path => exact untouched_remove settled untouched
  | rename path newName => exact untouched_rename settled untouched
  | moveFile src dst =>
      rw [idle_unchanged (show Idle vol (.moveFile src dst) from untouched)]
      exact settled

/-- The copies lie before the data, and the sums of `open` have not wrapped. -/
def TablesFit (vol : Fat32) : Prop :=
  1 ≤ vol.fatCount ∧
    vol.firstDataSector = vol.reservedSectors + vol.fatCount * vol.fatSizeSectors

theorem Mirrored.inChecked {overflowChecks : Bool} (mirrored : Mirrored overflowChecks boot vol)
    (fit : TablesFit vol) : Mirrored true boot vol.checked := by
  obtain ⟨tables, -, added⟩ := mirrored.sum
  have below := u32_lt added
  have exact' := fit.2
  have product : ((boot 0x10).toNat : Int) * (boot.readU32 0x24).toNat =
      (vol.fatCount * vol.fatSizeSectors : Nat) := by
    rw [mirrored.fields.fatCount, mirrored.fields.fatSizeSectors, Nat.cast_mul]
  have reserved := mirrored.fields.reservedSectors
  exact
    { mirrored with
      checks := rfl
      laid := { mirrored.laid with }
      fields := { mirrored.fields with }
      sum := by
        refine ⟨vol.fatCount * vol.fatSizeSectors, ?_, ?_⟩
        · rw [product]
          exact u32_of_lt true (by omega) (by omega)
        · rw [← reserved]
          exact (u32_of_lt true (by omega) (by omega)).trans (congrArg Except.ok (by
            show _ = vol.firstDataSector
            omega)) }

theorem mirrored_of_mount {overflowChecks : Bool} {device : AtaDevice}
    (mounted : mount overflowChecks device = .ok vol) (fit : TablesFit vol) :
    Mirrored true (device.sectorAt 0) vol.checked ∧ Clean vol := by
  unfold mount at mounted
  split at mounted
  · cases mounted
  · obtain ⟨opened, opens, scans⟩ := Except.bind_eq_ok.mp mounted
    have mirrored := mirrored_of_open opens
    have kept := scanFreeClusters_keeps opened mirrored
    obtain ⟨boot, firstDataSector, fat, -, -, -, -, described⟩ := openDevice_eq_ok opens
    obtain ⟨freeClusters, frame⟩ := scanFreeClusters_run opened
    rcases outcome : scanFreeClusters opened with ⟨_ | _, scanned⟩
    · rw [outcome] at scans
      cases scans
    · rw [outcome] at scans kept frame
      obtain rfl : scanned = vol := Except.ok.inj scans
      refine ⟨kept.inChecked fit, fun i => ?_⟩
      have scannedSame : scanned = { opened with freeClusters } := frame
      rw [scannedSame, described]
      show (List.replicate _ false).getD i false = false
      rw [List.getD_eq_getElem?_getD, List.getElem?_replicate]
      split <;> rfl

structure MirroredRun (boot : Sector) (vol : Fat32) : Prop where
  fit : TablesFit vol
  mirrored : Mirrored true boot vol.checked
  settled : vol.fatCount ≠ 1 → Settled vol.checked

theorem MirroredRun.step (run : MirroredRun boot vol) (mirrors : Mirrors vol op) :
    MirroredRun boot (op.run vol).2 := by
  obtain ⟨-, same⟩ := operation_agrees op vol mirrors.exact'
  have copies : 1 ≤ (boot 0x10).toNat := by
    have count : vol.fatCount = _ := run.mirrored.fields.fatCount
    rw [← count]
    exact run.fit.1
  have mirrored := keeps_operation (call_keeps copies) op _ run.mirrored
  rw [← same] at mirrored
  have count : (op.run vol).2.fatCount = vol.fatCount :=
    mirrored.fields.fatCount.trans run.mirrored.fields.fatCount.symm
  refine ⟨⟨count ▸ run.fit.1, mirrored.firstDataSector⟩, mirrored, fun several => ?_⟩
  rw [count] at several
  have settled := untouched_keeps (run.settled several) (mirrors.copies.resolve_left several)
  rw [← same] at settled
  exact settled

theorem idle_checked (idle : Idle vol.checked op) : Idle vol op := by
  cases op with
  | rename path newName =>
      obtain ⟨parent, resolved⟩ := idle
      refine ⟨parent, ?_⟩
      rw [resolveParent_follows vol path (by rw [resolved]; exact fun panics => by cases panics),
        resolved]
  | moveFile src dst => exact idle
  | writeFile path content => exact idle
  | makeDir path => exact idle
  | remove path => exact idle

/-- After a run of operations in which no `u32` arithmetic overflows, on a volume with one copy of
the FAT or without touching an entry, an operation that returns `Ok` leaves every copy on the disk
equal to the cache, unless it had nothing to do while the FAT still waited to be flushed. -/
theorem copies_stay_mirrored {overflowChecks : Bool} {device : AtaDevice} {ops : List Operation}
    {before after : Fat32} {op : Operation} (mounted : mount overflowChecks device = .ok vol)
    (fit : TablesFit vol) (agree : CopiesAgree vol)
    (mirrors : Runs.Meets applyOperation Mirrors vol ops)
    (ran : Runs.after applyOperation vol ops = some before) (last : Mirrors before op)
    (returned : op.run before = (.ok (), after)) : CopiesAgree after := by
  obtain ⟨mirrored, clean⟩ := mirrored_of_mount mounted fit
  have start : MirroredRun (device.sectorAt 0) vol :=
    ⟨fit, mirrored, fun _ => ⟨rfl, fit.2, clean, agree⟩⟩
  have reached : MirroredRun (device.sectorAt 0) before := by
    refine Runs.after_invariant ?_ start mirrors ran
    intro vol op next run condition applied
    rw [applyOperation_eq applied]
    exact run.step condition
  have final := reached.step last
  rw [returned] at final
  by_cases single : after.fatCount = 1
  · have copies : 1 ≤ (device.sectorAt 0 0x10).toNat := by
      have count : after.fatCount = _ := final.mirrored.fields.fatCount
      rw [← count]
      exact final.fit.1
    obtain ⟨sameResult, sameState⟩ := operation_agrees op before last.exact'
    rw [returned] at sameResult sameState
    have returnedChecked : op.run before.checked = (.ok (), after.checked) :=
      Prod.ext sameResult.symm sameState.symm
    have clean : Clean after := by
      rcases operation_flushes (call_keeps copies) reached.mirrored returnedChecked with
        idle | ⟨middle, holds, flushed⟩
      · have waits := last.flushes (idle_checked idle)
        have unchanged := idle_unchanged (idle_checked idle)
        rw [returned] at unchanged
        obtain rfl : after = before := unchanged
        exact waits
      · exact ((flushFat_spec holds).of_ok flushed).2.2.2
    exact final.mirrored.copiesAgree single clean
  · exact (final.settled single).copiesAgree

theorem copies_stay_mirrored_formatted :
    CopiesAgree formatted ∧ (writeFile ['a'] [1#8, 2#8] formatted).1 = .ok () ∧
      CopiesAgree (writeFile ['a'] [1#8, 2#8] formatted).2 := by
  have fit : TablesFit formatted := ⟨le_refl 1, rfl⟩
  obtain ⟨mirrored, clean⟩ := mirrored_of_mount mount_formatted fit
  have agree : CopiesAgree formatted := mirrored.copiesAgree rfl clean
  have returned : (writeFile ['a'] [1#8, 2#8] formatted).1 = .ok () := by decide +kernel
  have mirrors : Mirrors formatted (.writeFile ['a'] [1#8, 2#8]) :=
    ⟨by decide +kernel, Or.inl rfl, fun idle => absurd idle id⟩
  exact ⟨agree, returned, copies_stay_mirrored mount_formatted fit agree
    (show Runs.Meets applyOperation Mirrors formatted [] from trivial) rfl mirrors
    (Prod.ext returned rfl)⟩

def twoCopiesDevice : AtaDevice := { formattedDevice with
  disk := fun addr =>
    if addr = 0x10 then 2#8
    else if 1024 ≤ addr ∧ addr < 1536 then formattedDisk (addr - 512)
    else formattedDisk addr }

def twoCopies : Fat32 := { formatted with
  device := twoCopiesDevice
  fatCount := 2
  firstDataSector := 3 }

set_option maxRecDepth 4000 in
/-- The second copy knows nothing of a new directory. -/
theorem second_copy_stale :
    mount false twoCopiesDevice = .ok twoCopies ∧ CopiesAgree twoCopies ∧
      (makeDir ['d'] twoCopies).1 = .ok () ∧ ¬ CopiesAgree (makeDir ['d'] twoCopies).2 := by
  refine ⟨rfl, fun copy few i bound offset within => ?_, by decide +kernel, fun agree => ?_⟩
  · have equal : (List.range 2).all (fun copy => (List.range 512).all (fun offset =>
        decide (twoCopies.device.disk (512 * (1 + copy * 1 + 0) + offset) =
          twoCopies.fatSector 0 offset))) = true := by decide +kernel
    obtain rfl : i = 0 := Nat.lt_one_iff.mp bound
    have same := List.all_eq_true.mp equal copy (List.mem_range.mpr few)
    exact of_decide_eq_true (List.all_eq_true.mp same offset (List.mem_range.mpr within))
  have second := agree 1 (by decide +kernel) 0 (by decide +kernel) 12 (by decide)
  have stale : (makeDir ['d'] twoCopies).2.device.disk (512 * ((makeDir ['d'] twoCopies).2.reservedSectors +
      1 * (makeDir ['d'] twoCopies).2.fatSizeSectors + 0) + 12) ≠
        (makeDir ['d'] twoCopies).2.fatSector 0 12 := by decide +kernel
  exact stale second

end MachaOS.Fat.Fat32
