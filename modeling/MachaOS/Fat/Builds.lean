/-
Builds with and without overflow checks.

The two differ only where `u32` arithmetic overflows.  Whatever the build with checks
does without a panic, the other does in the same way.
-/

import MachaOS.Fat.Calls

namespace MachaOS.Fat

def Follows {α : Type} (loose strict : Except Stop α) : Prop :=
  strict ≠ .error .panic → loose = strict

namespace Follows

variable {α β : Type}

theorem refl (computed : Except Stop α) : Follows computed computed := fun _ => rfl

theorem bind {loose strict : Except Stop α} {next next' : α → Except Stop β}
    (first : Follows loose strict) (later : ∀ value, Follows (next value) (next' value)) :
    Follows (loose >>= next) (strict >>= next') := by
  intro returns
  have firstReturns : strict ≠ .error .panic := by
    rintro rfl
    exact returns rfl
  rw [first firstReturns]
  cases strict with
  | error stop => rfl
  | ok value => exact later value returns

end Follows

theorem u32_follows (overflowChecks : Bool) (exact' : Int) :
    Follows (u32 overflowChecks exact') (u32 true exact') := by
  intro returns
  unfold u32 at returns ⊢
  split
  · rfl
  · rename_i large
    rw [if_neg large] at returns
    exact absurd rfl returns

namespace Fat32

def checked (vol : Fat32) : Fat32 := { vol with overflowChecks := true }

section Looking

variable (vol : Fat32)

theorem clusterToSector_follows (cluster : Nat) :
    Follows (vol.clusterToSector cluster) (vol.checked.clusterToSector cluster) :=
  (u32_follows _ _).bind (fun _ => (u32_follows _ _).bind (fun _ => u32_follows _ _))

theorem readClusterSector_follows (cluster s : Nat) :
    Follows (vol.readClusterSector cluster s) (vol.checked.readClusterSector cluster s) :=
  (clusterToSector_follows vol cluster).bind (fun _ => Follows.refl _)

theorem readSectors_follows (cluster left s : Nat) (scan : Scan) :
    Follows (vol.readSectors cluster left s scan) (vol.checked.readSectors cluster left s scan) := by
  induction left generalizing s scan with
  | zero => exact Follows.refl _
  | succ left ih =>
      refine (readClusterSector_follows vol cluster s).bind (fun sector => ?_)
      cases readSlots (slotsOf cluster s sector) scan with
      | ended out => exact Follows.refl _
      | going scan => exact ih _ _

theorem readClusters_follows (left current : Nat) (scan : Scan) :
    Follows (vol.readClusters left current scan) (vol.checked.readClusters left current scan) := by
  induction left using Nat.strongRecOn generalizing current scan with
  | ind left ih =>
    rw [readClusters.eq_def, readClusters.eq_def]
    refine (readSectors_follows vol current _ 0 scan).bind (fun reading => ?_)
    cases reading with
    | ended out => exact Follows.refl _
    | going scan =>
        refine (Follows.refl (vol.nextCluster current)).bind (fun next => ?_)
        split
        · exact Follows.refl _
        · split
          · exact Follows.refl _
          · cases left with
            | zero => exact Follows.refl _
            | succ left => exact ih left (Nat.lt_succ_self left) _ _

theorem readDir_follows (cluster : Nat) :
    Follows (vol.readDir cluster) (vol.checked.readDir cluster) :=
  readClusters_follows vol _ _ _

theorem takeSectors_follows (cluster left s remaining : Nat) :
    Follows (vol.takeSectors cluster left s remaining)
      (vol.checked.takeSectors cluster left s remaining) := by
  induction left generalizing s remaining with
  | zero => exact Follows.refl _
  | succ left ih =>
      refine (readClusterSector_follows vol cluster s).bind (fun sector => ?_)
      split
      · exact Follows.refl _
      · exact (ih _ _).bind (fun _ => Follows.refl _)

theorem takeClusters_follows (left cluster remaining : Nat) :
    Follows (vol.takeClusters left cluster remaining)
      (vol.checked.takeClusters left cluster remaining) := by
  induction left using Nat.strongRecOn generalizing cluster remaining with
  | ind left ih =>
    rw [takeClusters.eq_def, takeClusters.eq_def]
    dsimp only
    split
    · exact Follows.refl _
    · split
      · exact Follows.refl _
      · cases left with
        | zero => exact Follows.refl _
        | succ left =>
            refine (takeSectors_follows vol cluster _ 0 remaining).bind (fun part => ?_)
            refine (Follows.refl (vol.nextCluster cluster)).bind (fun next => ?_)
            split
            · exact Follows.refl _
            · exact (ih left (Nat.lt_succ_self left) _ _).bind (fun _ => Follows.refl _)

theorem descend_follows (parts : List (List Char)) (cluster : Nat) :
    Follows (vol.descend parts cluster) (vol.checked.descend parts cluster) := by
  induction parts generalizing cluster with
  | nil =>
      rw [descend, descend]
      exact Follows.refl _
  | cons component rest ih =>
      rw [descend, descend]
      refine (readDir_follows vol cluster).bind (fun entries => ?_)
      split
      · exact Follows.refl _
      · exact ih _

theorem resolveParent_follows (path : List Char) :
    Follows (vol.resolveParent path) (vol.checked.resolveParent path) := by
  unfold resolveParent
  split
  · exact Follows.refl _
  · split
    · exact Follows.refl _
    · exact (descend_follows vol _ _).bind (fun _ => Follows.refl _)

theorem findDirEntry_follows (parent : Nat) (name : List Char) :
    Follows (vol.findDirEntry parent name) (vol.checked.findDirEntry parent name) := by
  intro returns
  have lists : vol.checked.readDir parent ≠ .error .panic := by
    intro stops
    unfold findDirEntry at returns
    rw [stops] at returns
    exact returns rfl
  unfold findDirEntry
  rw [readDir_follows vol parent lists]

theorem runInCluster_follows (cluster slots left s : Nat) :
    Follows (vol.runInCluster cluster slots left s)
      (vol.checked.runInCluster cluster slots left s) := by
  induction left generalizing s with
  | zero => exact Follows.refl _
  | succ left ih =>
      refine (readClusterSector_follows vol cluster s).bind (fun sector => ?_)
      split
      · exact Follows.refl _
      · exact ih _

theorem freeRunFrom_follows (slots left current : Nat) :
    Follows (vol.freeRunFrom slots left current) (vol.checked.freeRunFrom slots left current) := by
  induction left using Nat.strongRecOn generalizing current with
  | ind left ih =>
    rw [freeRunFrom.eq_def, freeRunFrom.eq_def]
    refine (runInCluster_follows vol current slots _ 0).bind (fun found => ?_)
    cases found with
    | some offset => exact Follows.refl _
    | none =>
        refine (Follows.refl (vol.nextCluster current)).bind (fun next => ?_)
        split
        · exact Follows.refl _
        · cases left with
          | zero => exact Follows.refl _
          | succ left => exact ih left (Nat.lt_succ_self left) _

theorem listDir_follows (path : List Char) :
    Follows (vol.listDir path) (vol.checked.listDir path) :=
  (descend_follows vol _ _).bind (fun cluster => readDir_follows vol cluster)

theorem readFile_follows (path : List Char) :
    Follows (vol.readFile path) (vol.checked.readFile path) := by
  refine (resolveParent_follows vol path).bind (fun target => ?_)
  refine (readDir_follows vol target.1).bind (fun entries => ?_)
  split
  · exact Follows.refl _
  · exact takeClusters_follows vol _ _ _

theorem isDir_follows (path : List Char) :
    Follows (vol.isDir path) (vol.checked.isDir path) := by
  unfold isDir
  split
  · exact Follows.refl _
  · refine (resolveParent_follows vol path).bind (fun target => ?_)
    exact (findDirEntry_follows vol target.1 target.2).bind (fun found => Follows.refl _)

theorem lastCluster_follows (left current : Nat) :
    Follows (vol.lastCluster left current) (vol.checked.lastCluster left current) := by
  induction left using Nat.strongRecOn generalizing current with
  | ind left ih =>
    rw [lastCluster.eq_def, lastCluster.eq_def]
    refine (Follows.refl (vol.nextCluster current)).bind (fun next => ?_)
    split
    · exact Follows.refl _
    · cases left with
      | zero => exact Follows.refl _
      | succ left => exact ih left (Nat.lt_succ_self left) _

end Looking

def Agrees {α : Type} (routine : Volume α) : Prop :=
  ∀ vol : Fat32, (routine vol.checked).1 ≠ .error .panic →
    (routine vol).1 = (routine vol.checked).1 ∧
      (routine vol).2.checked = (routine vol.checked).2

section Rules

variable {α β : Type}

theorem agrees_pure (value : α) : Agrees (pure value : Volume α) :=
  fun _ _ => ⟨rfl, rfl⟩

theorem agrees_fail (stop : Stop) : Agrees (Fallible.fail stop : Volume α) :=
  fun _ _ => ⟨rfl, rfl⟩

theorem agrees_query {ask : Fat32 → Except Stop α}
    (follows : ∀ vol : Fat32, Follows (ask vol) (ask vol.checked)) :
    Agrees (Fallible.query ask) :=
  fun vol returns => ⟨follows vol returns, rfl⟩

theorem agrees_get {next : Fat32 → Volume α} (same : ∀ vol : Fat32, next vol.checked = next vol)
    (later : ∀ vol, Agrees (next vol)) : Agrees (Fallible.get >>= next) := by
  intro vol returns
  have strict : (Fallible.get >>= next) vol.checked = next vol vol.checked :=
    congrFun (same vol) vol.checked
  rw [strict] at returns ⊢
  exact later vol vol returns

theorem agrees_bind {first : Volume α} {next : α → Volume β} (before : Agrees first)
    (later : ∀ value, Agrees (next value)) : Agrees (first >>= next) := by
  intro vol returns
  rcases strict : first vol.checked with ⟨stop | value, after⟩
  · have firstReturns : (first vol.checked).1 ≠ .error .panic := by
      intro panics
      rw [strict] at panics
      cases panics
      rw [Fallible.bind_of_error strict] at returns
      exact returns rfl
    obtain ⟨sameResult, sameState⟩ := before vol firstReturns
    rcases loose : first vol with ⟨result, middle⟩
    rw [loose, strict] at sameResult sameState
    obtain rfl : result = .error stop := sameResult
    rw [Fallible.bind_of_error strict, Fallible.bind_of_error loose]
    exact ⟨rfl, sameState⟩
  · have firstReturns : (first vol.checked).1 ≠ .error .panic := by
      rw [strict]
      intro panics
      cases panics
    obtain ⟨sameResult, sameState⟩ := before vol firstReturns
    rcases loose : first vol with ⟨result, middle⟩
    rw [loose, strict] at sameResult sameState
    obtain rfl : result = .ok value := sameResult
    have sameMiddle : middle.checked = after := sameState
    rw [Fallible.bind_of_ok strict] at returns ⊢
    rw [Fallible.bind_of_ok loose, ← sameMiddle]
    rw [← sameMiddle] at returns
    exact later value middle returns

end Rules

theorem setCluster_agrees (cluster : Nat) (value : BitVec 32) : Agrees (setCluster cluster value) := by
  intro vol returns
  by_cases inside : cluster < vol.fat.length
  · rw [show setCluster cluster value vol = _ from if_pos inside,
      show setCluster cluster value vol.checked = _ from if_pos inside]
    exact ⟨rfl, rfl⟩
  · rw [show setCluster cluster value vol = _ from if_neg inside,
      show setCluster cluster value vol.checked = _ from if_neg inside]
    exact ⟨rfl, rfl⟩

theorem countFreed_agrees : Agrees countFreed := by
  intro vol returns
  unfold countFreed at returns ⊢
  have follows := u32_follows vol.overflowChecks (vol.freeClusters + 1)
  cases strict : u32 true (vol.freeClusters + 1) with
  | error stop =>
      rw [show u32 vol.checked.overflowChecks (vol.checked.freeClusters + 1) = _ from strict]
        at returns ⊢
      have stops : stop ≠ .panic := fun panics => returns (by rw [panics])
      rw [follows (by rw [strict]; exact fun panics => stops (Except.error.inj panics)), strict]
      exact ⟨rfl, rfl⟩
  | ok free =>
      rw [show u32 vol.checked.overflowChecks (vol.checked.freeClusters + 1) = _ from strict]
      rw [follows (by rw [strict]; intro panics; cases panics), strict]
      exact ⟨rfl, rfl⟩

theorem allocCluster_agrees : Agrees allocCluster := by
  refine agrees_bind (agrees_query (fun vol => Follows.refl _)) (fun found => ?_)
  cases found with
  | none => exact agrees_fail _
  | some cluster =>
      refine agrees_bind (setCluster_agrees _ _) (fun _ => agrees_bind ?_ (fun _ => agrees_pure _))
      exact fun _ _ => ⟨rfl, rfl⟩

theorem freeClustersFrom_agrees (left cluster : Nat) : Agrees (freeClustersFrom left cluster) := by
  induction left using Nat.strongRecOn generalizing cluster with
  | ind left ih =>
    rw [freeClustersFrom.eq_def]
    dsimp only
    split
    · exact agrees_pure _
    · split
      · exact agrees_fail _
      · cases left with
        | zero => exact agrees_fail _
        | succ left =>
            refine agrees_bind (agrees_query (fun vol => Follows.refl _)) (fun next => ?_)
            refine agrees_bind (setCluster_agrees _ _) (fun _ => ?_)
            exact agrees_bind countFreed_agrees (fun _ => ih left (Nat.lt_succ_self left) next)

theorem writeSector_agrees (lba : Nat) (sector : Sector) : Agrees (writeSector lba sector) :=
  fun _ _ => ⟨rfl, rfl⟩

theorem writeClusterSector_agrees (cluster s : Nat) (sector : Sector) :
    Agrees (writeClusterSector cluster s sector) :=
  agrees_bind (agrees_query (fun vol => clusterToSector_follows vol cluster))
    (fun start => writeSector_agrees (start + s) sector)

theorem flushSectors_agrees (left i : Nat) : Agrees (flushSectors left i) := by
  induction left generalizing i with
  | zero => exact agrees_pure _
  | succ left ih =>
      refine agrees_get (fun vol => rfl) (fun vol => ?_)
      split
      · refine agrees_bind (writeSector_agrees _ _) (fun _ => agrees_bind ?_ (fun _ => ih (i + 1)))
        exact fun _ _ => ⟨rfl, rfl⟩
      · exact ih (i + 1)

theorem flushFat_agrees : Agrees flushFat :=
  agrees_get (fun _ => rfl) (fun _ => flushSectors_agrees _ 0)

theorem allocClusters_agrees (needed : Nat) : Agrees (allocClusters needed) := by
  induction needed with
  | zero => exact agrees_pure _
  | succ needed ih =>
      exact agrees_bind allocCluster_agrees (fun _ => agrees_bind ih (fun _ => agrees_pure _))

theorem linkClusters_agrees (clusters : List Nat) : Agrees (linkClusters clusters) := by
  induction clusters with
  | nil => exact agrees_pure _
  | cons cluster rest ih =>
      cases rest with
      | nil => exact setCluster_agrees _ _
      | cons next rest => exact agrees_bind (setCluster_agrees _ _) (fun _ => ih)

theorem writeSectors_agrees (cluster left s : Nat) (content : List (BitVec 8)) :
    Agrees (writeSectors cluster left s content) := by
  induction left generalizing s content with
  | zero => exact agrees_pure _
  | succ left ih =>
      refine agrees_bind (writeClusterSector_agrees _ _ _) (fun _ => ?_)
      split
      · exact agrees_pure _
      · exact ih _ _

theorem writeClusters_agrees (clusters : List Nat) (content : List (BitVec 8)) :
    Agrees (writeClusters clusters content) := by
  induction clusters generalizing content with
  | nil => exact agrees_pure _
  | cons cluster rest ih =>
      refine agrees_get (fun vol => rfl) (fun vol => ?_)
      refine agrees_bind (writeSectors_agrees _ _ _ _) (fun content => ?_)
      split
      · exact agrees_pure _
      · exact ih content

theorem storeContent_agrees (content : List (BitVec 8)) : Agrees (storeContent content) := by
  refine agrees_get (fun vol => rfl) (fun vol => ?_)
  dsimp only
  split
  · exact agrees_pure _
  · refine agrees_bind ?_ (fun clusters => ?_)
    · exact agrees_bind (allocClusters_agrees _)
        (fun clusters => agrees_bind (linkClusters_agrees _) (fun _ => agrees_pure _))
    · exact agrees_bind (writeClusters_agrees _ _) (fun _ => agrees_pure _)

theorem deleteEntryAt_agrees (cluster offset : Nat) : Agrees (deleteEntryAt cluster offset) :=
  agrees_bind (agrees_query (fun vol => readClusterSector_follows vol _ _))
    (fun _ => writeClusterSector_agrees _ _ _)

theorem replaceExisting_agrees (parent : Nat) (name : List Char) :
    Agrees (replaceExisting parent name) := by
  refine agrees_bind (agrees_query (fun vol => findDirEntry_follows vol _ _)) (fun found => ?_)
  cases found with
  | none => exact agrees_pure _
  | some existing =>
      dsimp only
      split
      · exact agrees_fail _
      · refine agrees_bind (deleteEntryAt_agrees _ _) (fun _ => ?_)
        split
        · exact freeClustersFrom_agrees _ _
        · exact agrees_pure _

theorem zeroSectors_agrees (cluster left s : Nat) : Agrees (zeroSectors cluster left s) := by
  induction left generalizing s with
  | zero => exact agrees_pure _
  | succ left ih => exact agrees_bind (writeClusterSector_agrees _ _ _) (fun _ => ih _)

theorem extendDir_agrees (parent : Nat) : Agrees (extendDir parent) := by
  refine agrees_bind allocCluster_agrees (fun newCluster => ?_)
  refine agrees_bind (agrees_query (fun vol => lastCluster_follows vol _ _)) (fun current => ?_)
  refine agrees_bind (setCluster_agrees _ _) (fun _ => agrees_get (fun vol => rfl) (fun vol => ?_))
  exact agrees_bind (zeroSectors_agrees _ _ _) (fun _ => agrees_pure _)

theorem findPlace_agrees (parent slots : Nat) : Agrees (findPlace parent slots) := by
  refine agrees_bind (agrees_query (fun vol => freeRunFrom_follows vol _ _ _)) (fun found => ?_)
  cases found with
  | some place => exact agrees_pure _
  | none => exact agrees_bind (extendDir_agrees parent) (fun _ => agrees_pure _)

theorem writeDirEntries_agrees (parent : Nat) (name : List Char) (firstCluster size : Nat)
    (isDir : Bool) : Agrees (writeDirEntries parent name firstCluster size isDir) := by
  refine agrees_get (fun vol => rfl) (fun vol => ?_)
  refine agrees_bind (findPlace_agrees _ _) (fun place => ?_)
  exact agrees_bind (agrees_query (fun vol => readClusterSector_follows vol _ _))
    (fun sector => writeClusterSector_agrees _ _ _)

theorem writeFile_agrees (path : List Char) (content : List (BitVec 8)) :
    Agrees (writeFile path content) := by
  refine agrees_bind (agrees_query (fun vol => resolveParent_follows vol path)) (fun target => ?_)
  refine agrees_bind (agrees_query (fun _ => Follows.refl _)) (fun _ => ?_)
  refine agrees_bind (replaceExisting_agrees _ _) (fun _ => ?_)
  refine agrees_bind (storeContent_agrees _) (fun firstCluster => ?_)
  exact agrees_bind (writeDirEntries_agrees _ _ _ _ _) (fun _ => flushFat_agrees)

theorem makeDir_agrees (path : List Char) : Agrees (makeDir path) := by
  refine agrees_bind (agrees_query (fun vol => resolveParent_follows vol path)) (fun target => ?_)
  refine agrees_bind (agrees_query (fun _ => Follows.refl _)) (fun _ => ?_)
  refine agrees_bind (agrees_query (fun vol => findDirEntry_follows vol _ _)) (fun found => ?_)
  cases found with
  | some entry => exact agrees_fail _
  | none =>
      refine agrees_bind allocCluster_agrees (fun cluster => ?_)
      refine agrees_bind (setCluster_agrees _ _) (fun _ => ?_)
      refine agrees_bind (writeClusterSector_agrees _ _ _) (fun _ => ?_)
      exact agrees_bind (writeDirEntries_agrees _ _ _ _ _) (fun _ => flushFat_agrees)

theorem remove_agrees (path : List Char) : Agrees (remove path) := by
  refine agrees_bind (agrees_query (fun vol => resolveParent_follows vol path)) (fun target => ?_)
  refine agrees_bind (agrees_query (fun vol => findDirEntry_follows vol _ _)) (fun found => ?_)
  cases found with
  | none => exact agrees_fail _
  | some entry =>
      refine agrees_bind (agrees_query (fun vol => ?_)) (fun contents => ?_)
      · split
        · exact readDir_follows vol _
        · exact Follows.refl _
      · split
        · refine agrees_bind (deleteEntryAt_agrees _ _) (fun _ => ?_)
          dsimp only
          split
          · exact agrees_bind (freeClustersFrom_agrees _ _) (fun _ => flushFat_agrees)
          · exact flushFat_agrees
        · exact agrees_fail _

theorem rename_agrees (path newName : List Char) : Agrees (rename path newName) := by
  refine agrees_bind (agrees_query (fun vol => resolveParent_follows vol path)) (fun target => ?_)
  refine agrees_bind (agrees_query (fun _ => Follows.refl _)) (fun _ => ?_)
  split
  · exact agrees_pure _
  · refine agrees_bind (agrees_query (fun vol => findDirEntry_follows vol _ _)) (fun found => ?_)
    cases found with
    | none => exact agrees_fail _
    | some entry =>
        refine agrees_bind (agrees_query (fun vol => findDirEntry_follows vol _ _)) (fun taken => ?_)
        split
        · exact agrees_fail _
        · refine agrees_bind (deleteEntryAt_agrees _ _) (fun _ => ?_)
          exact agrees_bind (writeDirEntries_agrees _ _ _ _ _) (fun _ => flushFat_agrees)

theorem moveFile_agrees (src dst : List Char) : Agrees (moveFile src dst) := by
  unfold moveFile
  split
  · exact agrees_pure _
  · refine agrees_bind (agrees_query (fun vol => isDir_follows vol src)) (fun directory => ?_)
    split
    · refine agrees_bind (agrees_query (fun vol => listDir_follows vol src)) (fun entries => ?_)
      split
      · exact agrees_bind (makeDir_agrees _) (fun _ => remove_agrees _)
      · exact agrees_fail _
    · refine agrees_bind (agrees_query (fun vol => readFile_follows vol src)) (fun data => ?_)
      exact agrees_bind (writeFile_agrees _ _) (fun _ => remove_agrees _)

theorem operation_agrees (op : Operation) : Agrees op.run := by
  cases op with
  | writeFile path content => exact writeFile_agrees path content
  | makeDir path => exact makeDir_agrees path
  | remove path => exact remove_agrees path
  | rename path newName => exact rename_agrees path newName
  | moveFile src dst => exact moveFile_agrees src dst

end Fat32
end MachaOS.Fat
