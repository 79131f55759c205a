/-
A file that is created (`write_file` of `src/fat.rs`, for a name that its directory does not have).

The content goes to free clusters, the entry to the parent's slots and the tables to their own sectors.
So nothing that a file or another directory holds is touched on the way, nor if the disk fills up.
-/

import MachaOS.Fat.LongNames
import MachaOS.Fat.Orphans

namespace MachaOS.Fat.Fat32

open Chains (IsChain)

variable {vol vol' after : Fat32} {parent first size : Nat} {rest : List Nat} {name : List Char}

/-- Only table sectors of the device and flags have changed. -/
structure Flushed (vol after : Fat32) : Prop where
  shape : SameShape vol after
  fat : after.fat = vol.fat
  count : after.freeClusters = vol.freeClusters
  sectors : ∀ cluster, SameSectors vol after cluster

theorem Flushed.trans {vol'' : Fat32} (first : Flushed vol vol')
    (second : Flushed vol' vol'') : Flushed vol vol'' := by
  refine ⟨first.shape.trans second.shape, second.fat.trans first.fat, second.count.trans first.count,
    fun cluster s inside => (first.sectors cluster s inside).trans (second.sectors cluster s ?_)⟩
  rw [first.shape.sectorsPerCluster]
  exact inside

theorem Flushed.cells (flushed : Flushed vol after) : after.cell = vol.cell := by
  funext cluster
  exact cell_congr (by rw [flushed.fat])

theorem Flushed.kept (flushed : Flushed vol after) {head : Nat} (isHead : Head vol head) :
    Kept vol after head := by
  refine ⟨flushed.shape, ?_, fun rest chain => ?_, fun _ _ cluster _ => flushed.sectors cluster⟩
  · rw [flushed.cells]
    exact isHead.2
  · rw [flushed.cells]
    exact chain

theorem Flushed.wellFormed (flushed : Flushed vol after) (wellFormed : WellFormed vol) :
    WellFormed after := by
  refine ⟨?_, ?_, ?_⟩
  · rw [flushed.fat]
    exact wellFormed.small
  · rw [flushed.cells]
    exact wellFormed.table
  · rw [flushed.fat, flushed.count]
    exact wellFormed.counted

/-- The volume after one table sector was written and its flag cleared. -/
def withFlushed (vol : Fat32) (i : Nat) : Fat32 :=
  { vol with
    fatDirty := vol.fatDirty.set i false
    device := { vol.device with
      clock := vol.device.clock + 1
      disk := AtaDevice.overwrite vol.device.disk (vol.reservedSectors + i) (vol.fatSector i) } }

/-- The sector lies before the data. -/
theorem flushed_withFlushed (geometry : Geometry vol) {i : Nat} (inside : i < vol.fatSizeSectors) :
    Flushed vol (vol.withFlushed i) := by
  have tables := geometry.tables
  have shape : SameShape vol (vol.withFlushed i) := ⟨rfl, rfl, List.length_set⟩
  refine ⟨shape, rfl, rfl, fun cluster s _ offset _ small => if_neg ?_⟩
  show (512 * vol.sectorNumber cluster s + offset) / 512 ≠ vol.reservedSectors + i
  unfold sectorNumber
  omega

theorem flushSectors_run (geometry : Geometry vol) {left i : Nat}
    (inside : i + left ≤ vol.fatSizeSectors) :
    ∃ after, flushSectors left i vol = (.ok (), after) ∧ Flushed vol after := by
  induction left generalizing vol i with
  | zero =>
      exact ⟨vol, rfl, SameShape.refl vol, rfl, rfl,
        fun cluster => sameSectors_of_disk (SameShape.refl vol) rfl cluster⟩
  | succ left ih =>
      rw [flushSectors, Fallible.bind_of_ok (Fallible.get_run vol)]
      by_cases dirty : vol.fatDirty.getD i false = true
      · have tables := geometry.tables
        have fits := geometry.fits
        have here := @flushed_withFlushed _ geometry i (by omega)
        obtain ⟨after, ran, later⟩ := ih (geometry.of_sameShape here.shape)
          (show i + 1 + left ≤ vol.fatSizeSectors by omega)
        refine ⟨after, ?_, here.trans later⟩
        rw [if_pos dirty, ← ran, Fallible.bind_run]
        unfold Fat32.writeSector AtaDevice.writeSector
        dsimp only
        rw [geometry.working.usable, if_neg (by simp), if_neg (by omega), geometry.working.writes]
        rfl
      · rw [if_neg dirty]
        exact ih geometry (by omega)

theorem flushFat_run (geometry : Geometry vol) :
    ∃ after, flushFat vol = (.ok (), after) ∧ Flushed vol after := by
  unfold flushFat
  rw [Fallible.bind_of_ok (Fallible.get_run vol)]
  exact flushSectors_run geometry (by rw [geometry.flags, Nat.zero_add])

/-- A file or directory reads as before, and a directory that is no longer than the guard lists what it
did. -/
structure Undisturbed (vol after : Fat32) (head : Nat) : Prop where
  data : ∀ size, after.readFileData head size = vol.readFileData head size
  listing : ∀ rest, IsChain vol.cell (head :: rest) → rest.length ≤ chainGuard →
    after.readDir head = vol.readDir head

theorem Kept.undisturbed {head : Nat} (kept : Kept vol after head) (geometry : Geometry vol)
    (wellFormed : WellFormed vol) (wellFormed' : WellFormed after) (isHead : Head vol head) :
    Undisturbed vol after head := by
  refine ⟨kept.readFileData geometry wellFormed wellFormed' isHead, fun rest chain short => ?_⟩
  rw [readDir_row geometry wellFormed chain short, readDir_row (geometry.of_sameShape kept.shape)
    wellFormed' (kept.chain rest chain) short, rowOf_congr kept.shape.sectorsPerCluster
    (kept.sectors rest chain)]

theorem runInSector_congr {sector sector' : Sector} (same : ByteMemory.SameOn sector sector' 0 512)
    {slots left i run : Nat} (within : i + left ≤ 16) :
    runInSector sector' slots left i run = runInSector sector slots left i run := by
  induction left generalizing i run with
  | zero => rfl
  | succ left ih =>
      have here : sector' (32 * i) = sector (32 * i) := same _ (Nat.zero_le _) (by omega)
      unfold runInSector
      simp only [here, ih (show i + 1 + left ≤ 16 by omega)]

section

variable {slots : Nat} (geometry : Geometry vol) (shape : SameShape vol after)
include geometry shape

theorem runInCluster_congr {cluster s left : Nat} (least : 2 ≤ cluster)
    (inside : cluster < vol.fat.length) (same : SameSectors vol after cluster)
    (within : s + left ≤ vol.sectorsPerCluster) :
    after.runInCluster cluster slots left s = vol.runInCluster cluster slots left s := by
  induction left generalizing s with
  | zero => rfl
  | succ left ih =>
      have at' : InCluster vol cluster s := ⟨least, inside, by omega⟩
      rw [runInCluster, runInCluster, geometry.readClusterSector at',
        (geometry.of_sameShape shape).readClusterSector (shape.inCluster.mpr at'), Except.ok_bind,
        Except.ok_bind, runInSector_congr (same s (by omega)) (Nat.le_refl _), ih (by omega)]

theorem runOver_congr {clusters : List Nat}
    (inFat : ∀ cluster, cluster ∈ clusters → 2 ≤ cluster ∧ cluster < vol.fat.length)
    (same : ∀ cluster, cluster ∈ clusters → SameSectors vol after cluster) :
    after.runOver slots clusters = vol.runOver slots clusters := by
  induction clusters with
  | nil => rfl
  | cons cluster others ih =>
      obtain ⟨least, inside⟩ := inFat cluster List.mem_cons_self
      rw [runOver, runOver, shape.sectorsPerCluster, runInCluster_congr geometry shape least inside
        (same cluster List.mem_cons_self) (by omega),
        ih (fun other mem => inFat other (List.mem_cons_of_mem _ mem))
          (fun other mem => same other (List.mem_cons_of_mem _ mem))]

end

theorem Kept.placeFor (kept : Kept vol after parent) (geometry : Geometry vol)
    (wellFormed : WellFormed vol) (wellFormed' : WellFormed after)
    (chain : IsChain vol.cell (parent :: rest)) (short : rest.length ≤ chainGuard) (slots : Nat) :
    after.placeFor parent slots = vol.placeFor parent slots := by
  unfold Fat32.placeFor findFreeRun
  rw [freeRunFrom_of_chain wellFormed'.small (wellFormed'.marked (kept.chain rest chain)) short,
    freeRunFrom_of_chain wellFormed.small (wellFormed.marked chain) short,
    runOver_congr geometry kept.shape (fun cluster mem => inside_of_taken (chain.taken mem))
      (kept.sectors rest chain)]

/-- The slots for the entries of a name are vacant, and what is written there is listed: no end mark stands
before them, and behind one among them nothing is listed. -/
structure OpenPlace (row : Row) (place : Option (Nat × Nat)) (name : List Char) : Prop where
  vacant : ∀ at', place = some at' → Vacant (row.taken at' (slotsFor name))
  reached : ¬ Stops (row.before place)
  ended : ∀ at', place = some at' → Stops (row.taken at' (slotsFor name)) →
    listed (row.behind at' (slotsFor name)) [] = []

/-- What the long-name slots that wait before a place add to a name written there. -/
def waiting (row : Row) (place : Option (Nat × Nat)) (name : List Char) : List Char :=
  if name.length % 13 = 0 then assembleLfn (pending (row.before place) []) else []

section

variable {row late : Row} {place : Option (Nat × Nat)} (free : OpenPlace row place name)
include free

theorem OpenPlace.listed_eq (tail : Tail row late (slotsFor name) place) :
    listed row [] = listed (row.before place) [] ++ listed late [] := by
  cases place with
  | none =>
      have ends : Vacant late := fun item mem => Or.inr (tail item mem)
      rw [ends.listed_eq, List.append_nil]
      rfl
  | some at' =>
      have isBehind : late = row.behind at' (slotsFor name) := tail
      have vacant := free.vacant at' rfl
      rw [isBehind]
      conv_lhs => rw [Row.split_at row at' (slotsFor name), listed_append free.reached]
      congr 1
      by_cases none : row.taken at' (slotsFor name) = []
      · rw [none, Row.behind_eq_nil none]
        rfl
      by_cases ends : Stops (row.taken at' (slotsFor name))
      · rw [listed_append_of_stops ends, vacant.listed_eq, free.ended at' rfl ends]
      · rw [listed_append ends, vacant.listed_eq, vacant.pending_eq none, List.nil_append]

theorem OpenPlace.listed_written (late : Row) (valid : validateName name = .ok ()) {isDir : Bool} {now : DateTime}
    (ascii : ∀ c, c ∈ name → c.toNat < 0x80) (clusterFits : first < 2 ^ 32) (sizeFits : size < 2 ^ 32)
    (cluster offset : Nat) : ∃ location,
    listed (row.before place ++ rowFrom cluster offset (dirEntryBytes name first size isDir now) ++ late)
      [] = listed (row.before place) [] ++
        { name := name ++ waiting row place name, isDir, size, firstCluster := first, location } ::
          listed late [] := by
  obtain ⟨some', bytes, -⟩ := validateName_cases valid
  have shown := @listed_dirEntryBytes name ((length_le_utf8Len name).trans bytes) some' first size isDir
    now clusterFits sizeFits (row.before place) late free.reached cluster offset []
  have same : readBack name (pending (row.before place) []) = name ++ waiting row place name :=
    readBack_ascii (ascii_of_valid ascii valid) _
  simp only [same, isListed_of_valid valid, if_true] at shown
  rw [shown, List.append_assoc, List.singleton_append]
  exact ⟨_, rfl⟩

end

/-- The parent lists one entry more, and the clusters of that file, free until then, have the content;
every other file and directory is as it was. -/
structure Created (vol after : Fat32) (parent : Nat) (name : List Char)
    (content : List (BitVec 8)) : Prop where
  shape : SameShape vol after
  wellFormed : WellFormed after
  others : ∀ head, Head vol head → head ≠ parent → Undisturbed vol after head
  entered : ∃ above below entry, vol.readDir parent = .ok (above ++ below) ∧
    after.readDir parent = .ok (above ++ entry :: below) ∧ entry.name = name ∧ entry.isDir = false ∧
    entry.size = content.length ∧ after.readFileData entry.firstCluster entry.size = .ok content ∧
    (entry.firstCluster ≠ 0 → vol.cell entry.firstCluster = .free)

section

variable (geometry : Geometry vol) (wellFormed : WellFormed vol)
  (ascii : ∀ c, c ∈ name → c.toNat < 0x80) (valid : validateName name = .ok ())
  (isHead : Head vol parent) (chain : IsChain vol.cell (parent :: rest))
  (short : rest.length < chainGuard) {content : List (BitVec 8)}
  (fits : vol.clustersFor content.length ≤ chainGuard + 1) (small : content.length < 2 ^ 32)
  (free : OpenPlace (vol.rowOf (parent :: rest)) (vol.placeFor parent (slotsFor name)) name)
include geometry wellFormed ascii valid isHead chain short fits small free

/-- What `write_file_impl` does once the name is free. -/
theorem create_yields :
    Fallible.Yields (do
        let firstCluster ← storeContent content
        writeDirEntries parent name firstCluster (content.length % 2 ^ 32) false
        flushFat) vol
      (fun _ after => Created vol after parent (name ++ waiting (vol.rowOf (parent :: rest))
        (vol.placeFor parent (slotsFor name)) name) content)
      (fun stop after => stop = .error .outOfSpace ∧ WellFormed after ∧
        ∀ head, Head vol head → Undisturbed vol after head) := by
  have named : name.length ≤ maxName :=
    (length_le_utf8Len name).trans (validateName_cases valid).2.1
  refine Fallible.Yields.bind_with (storeContent_yields geometry wellFormed content) ?_
    (fun stop after stopped => ⟨stopped.1, stopped.2.wellFormed, fun head here =>
      (stopped.2.kept head here).undisturbed geometry wellFormed stopped.2.wellFormed here⟩)
  rintro first middle ⟨keeps, stores, fresh⟩
  have geometry' := geometry.of_sameShape keeps.shape
  have atParent := keeps.kept parent isHead
  have sameRow : middle.rowOf (parent :: rest) = vol.rowOf (parent :: rest) :=
    rowOf_congr keeps.shape.sectorsPerCluster (atParent.sectors rest chain)
  have samePlace := atParent.placeFor geometry wellFormed keeps.wellFormed chain
    (Nat.le_of_lt short) (slotsFor name)
  refine Fallible.Yields.bind_with (writeDirEntries_yields geometry' keeps.wellFormed
    (atParent.isHead wellFormed isHead) (atParent.chain rest chain) (Nat.le_of_lt short) named first _
    false) ?_ ?_
  · rintro - late ⟨changed, rest', cluster, offset, now, behind, chain', -, longer, rows, tail⟩
    obtain ⟨after, ran, flushed⟩ := flushFat_run (geometry'.of_sameShape changed.shape)
    have well := flushed.wellFormed changed.wellFormed
    have others {head : Nat} (here : Head middle head) (different : head ≠ parent) :
        Kept middle after head :=
      (changed.others head here different).trans (flushed.kept
        ((changed.others head here different).isHead keeps.wellFormed here))
    refine Fallible.yields_of_ok ran ⟨keeps.shape.trans (changed.shape.trans flushed.shape), well,
      fun head here different => ?_, ?_⟩
    · exact ((keeps.kept head here).trans (others ((keeps.kept head here).isHead wellFormed here)
        different)).undisturbed geometry wellFormed well here
    have clusterFits : first < 2 ^ 32 := by
      by_cases none : first = 0
      · omega
      · have inside := (inside_of_taken (fresh none).1.1).2
        have limit := keeps.wellFormed.small
        omega
    have sized : content.length % 2 ^ 32 = content.length := Nat.mod_eq_of_lt small
    rw [sameRow, samePlace, sized] at rows
    rw [sameRow, samePlace] at tail
    obtain ⟨location, shown⟩ := free.listed_written behind valid ascii clusterFits small cluster offset
    have flushedChain : IsChain after.cell (parent :: rest') := by
      rw [flushed.cells]
      exact chain'
    refine ⟨listed ((vol.rowOf (parent :: rest)).before (vol.placeFor parent (slotsFor name))) [],
      listed behind [],
      { name := name ++ waiting _ _ name, isDir := false, size := content.length, firstCluster := first,
        location },
      ?_, ?_, rfl, rfl, rfl, ?_, ?_⟩
    · rw [readDir_row geometry wellFormed chain (Nat.le_of_lt short), free.listed_eq tail]
    · rw [readDir_row (geometry'.of_sameShape (changed.shape.trans flushed.shape)) well flushedChain
        (by omega), rowOf_congr flushed.shape.sectorsPerCluster
        (fun cluster _ => flushed.sectors cluster), rows, shown]
    · dsimp only
      by_cases none : first = 0
      · rcases stores with ⟨rfl, rfl⟩ | ⟨tail, linked, -⟩
        · rfl
        · exact absurd (inside_of_taken (linked.taken List.mem_cons_self)).1 (by omega)
      · obtain ⟨here, free⟩ := fresh none
        rw [(others here (fun isParent => isHead.1 (isParent ▸ free))).readFileData geometry'
          keeps.wellFormed well here]
        refine stores.read geometry' keeps.wellFormed ?_
        rw [clustersFor, clusterBytes, keeps.shape.sectorsPerCluster]
        exact fits
    · exact fun some' => (fresh some').2
  · rintro stop after ⟨rfl, rfl, -⟩
    exact ⟨rfl, keeps.wellFormed, fun head here =>
      (keeps.kept head here).undisturbed geometry wellFormed keeps.wellFormed here⟩

/-- Creating a file stores the content and lists one entry more, in the parent; every other file and
directory stays as it is.  If the disk is full the call fails, and then the parent stays as well. -/
theorem writeFile_creates {path : List Char} (resolved : vol.resolveParent path = .ok (parent, name))
    (absent : vol.findDirEntry parent name = .ok none) :
    Fallible.Yields (writeFile path content) vol
      (fun _ after => Created vol after parent (name ++ waiting (vol.rowOf (parent :: rest))
        (vol.placeFor parent (slotsFor name)) name) content)
      (fun stop after => stop = .error .outOfSpace ∧ WellFormed after ∧
        ∀ head, Head vol head → Undisturbed vol after head) := by
  unfold writeFile
  refine Fallible.Yields.after (show Fallible.query _ vol = (.ok (parent, name), vol) by
    rw [Fallible.query_run, resolved]) ?_
  refine Fallible.Yields.after (show Fallible.query _ vol = (.ok (), vol) by
    rw [Fallible.query_run, valid]) ?_
  refine Fallible.Yields.after (show replaceExisting parent name vol = (.ok (), vol) by
    rw [replaceExisting, Fallible.bind_of_ok (show Fallible.query _ vol = (.ok none, vol) by
      rw [Fallible.query_run, absent])]
    rfl) ?_
  exact create_yields geometry wellFormed ascii valid isHead chain short fits small free

end

/-- The file is found if its entry has its name, and else there is none. -/
theorem Created.readFile {content : List (BitVec 8)} {more : List Char}
    (created : Created vol after parent (name ++ more) content)
    (absent : vol.findDirEntry parent name = .ok none) {path : List Char}
    (resolved : after.resolveParent path = .ok (parent, name)) :
    after.readFile path = if more = [] then .ok content else .error (.error .notFound) := by
  obtain ⟨above, below, entry, before, behind, sameName, isFile, -, read, -⟩ := created.entered
  rw [findDirEntry, before] at absent
  have others := List.find?_eq_none.mp (Except.ok.inj absent)
  have above' : above.find? (fun entry => !entry.isDir && nameMatches entry.name name) = none := by
    refine List.find?_eq_none.mpr (fun other mem => ?_)
    rw [Bool.and_eq_true, not_and]
    exact fun _ => others other (List.mem_append_left _ mem)
  have below' : below.find? (fun entry => !entry.isDir && nameMatches entry.name name) = none := by
    refine List.find?_eq_none.mpr (fun other mem => ?_)
    rw [Bool.and_eq_true, not_and]
    exact fun _ => others other (List.mem_append_right _ mem)
  have named : nameMatches (name ++ more) name = decide (more = []) := by
    rw [nameMatches, List.map_append]
    simp
  unfold Fat32.readFile
  rw [resolved, Except.ok_bind]
  dsimp only
  rw [behind, Except.ok_bind, List.find?_append, above', Option.none_or, List.find?_cons, isFile,
    sameName, named, below']
  by_cases none : more = []
  · rw [if_pos none, decide_eq_true none]
    exact read
  · rw [if_neg none, decide_eq_false none]
    rfl

theorem installed_isHead (entries : List (List (BitVec 8))) (content : List (BitVec 8)) {cluster : Nat}
    (isHead : cluster ∈ [2, 3, 5]) : Head (installed entries content) cluster := by
  have same : (installed entries content).cell = (installed [] []).cell := rfl
  unfold Head
  rw [same]
  have heads : ∀ head, head ∈ [2, 3, 5] → (installed [] []).cell head ≠ .free ∧
      ∀ other, other < 6 → (installed [] []).cell other ≠ .link head := by decide +kernel
  obtain ⟨taken, alone⟩ := heads cluster isHead
  refine ⟨taken, fun other linked => ?_⟩
  by_cases inside : other < 6
  · exact alone other inside linked
  · have free : (installed [] []).cell other = .free := cell_beyond rfl (Nat.le_of_not_lt inside)
    rw [free] at linked
    cases linked

theorem installed_chain (entries : List (List (BitVec 8))) (content : List (BitVec 8)) :
    IsChain (installed entries content).cell [3, 4] := by
  have same : (installed entries content).cell = (installed [] []).cell := rfl
  rw [same]
  exact ⟨by decide +kernel, show (installed [] []).cell 4 = .last by decide +kernel⟩

def oneFile : Fat32 :=
  installed (dirEntryBytes ['a'] 5 2 false (quietHardware.rtc 0)) [1#8, 2#8]

theorem openPlace_oneFile :
    OpenPlace (oneFile.rowOf [3, 4]) (oneFile.placeFor 3 (slotsFor ['b'])) ['b'] := by
  have place : oneFile.placeFor 3 (slotsFor ['b']) = some (3, 64) := by decide +kernel
  rw [place]
  refine ⟨fun at' same => ?_, by decide +kernel, fun at' same _ => ?_⟩
  · cases same
    unfold Vacant
    decide +kernel
  · cases same
    decide +kernel

theorem writeFile_creates_oneFile : ∃ after,
    writeFile "/system/b".toList [7#8] oneFile = (.ok (), after) ∧
      Created oneFile after 3 ['b'] [7#8] := by
  have returned : (writeFile "/system/b".toList [7#8] oneFile).1 = .ok () := by decide +kernel
  have ascii : ∀ c, c ∈ ['b'] → c.toNat < 0x80 := by simp
  have creates := writeFile_creates (geometry_installed _ _) (installed_wellFormed _ _) ascii rfl
    (installed_isHead _ _ (by decide)) (installed_chain _ _) (show 1 < chainGuard by decide)
    (show oneFile.clustersFor [7#8].length ≤ chainGuard + 1 by decide +kernel) (by decide)
    openPlace_oneFile (show oneFile.resolveParent "/system/b".toList = .ok (3, ['b']) by decide +kernel)
    (show oneFile.findDirEntry 3 ['b'] = .ok none by decide +kernel)
  exact ⟨_, Prod.ext returned rfl, creates.of_ok (Prod.ext returned rfl)⟩

/-- Giving back the clusters of a file, if it has any. -/
theorem release_run (wellFormed : WellFormed vol)
    (own : first ≠ 0 → Head vol first ∧
      ∀ tail, IsChain vol.cell (first :: tail) → tail.length ≤ chainGuard) :
    ∃ after, (if first ≠ 0 then freeChain first vol = (.ok (), after) else after = vol) ∧
      SameShape vol after ∧ WellFormed after ∧
      (∀ head, Head vol head → head ≠ first → Kept vol after head) ∧
      ∀ tail, IsChain vol.cell (first :: tail) → ∀ cluster ∈ first :: tail, after.cell cluster = .free := by
  by_cases none : first = 0
  · refine ⟨vol, by rw [if_neg (not_not.mpr none)], SameShape.refl vol, wellFormed,
      fun head here _ => Kept.refl here, fun tail chain => ?_⟩
    have least := (inside_of_taken (chain.taken List.mem_cons_self)).1
    omega
  · obtain ⟨here, short⟩ := own none
    obtain ⟨tail, chain⟩ := here.chain wellFormed
    obtain ⟨after, ran, freed⟩ := wellFormed.freeClustersFrom chain here.2
      (Nat.succ_le_succ (short tail chain))
    have frees : freeChain first vol = (.ok (), after) := ran
    have shape := keeps_freeClustersFrom (@call_shape vol) (chainGuard + 1) first vol
      (SameShape.refl vol)
    rw [ran] at shape
    refine ⟨after, by rwa [if_pos none], shape, freed.wellFormed,
      fun head isHead different => Kept.freed wellFormed chain here freed shape isHead different,
      fun tail' chain' cluster mem => ?_⟩
    obtain rfl := chain'.unique chain
    exact cell_freed_of freed mem

/-- The volume once an entry and the clusters of its file are gone from a directory. -/
structure TakenOut (vol after : Fat32) (parent : Nat) (rest : List Nat) (entry : DirEntry) :
    Prop where
  wellFormed : WellFormed after
  parentKept : SameShape vol after ∧ Head after parent ∧ IsChain after.cell (parent :: rest)
  others : ∀ head, Head vol head → head ≠ parent → head ≠ entry.firstCluster →
    Kept vol after head
  listing : ∃ above below, listed (vol.rowOf (parent :: rest)) [] = above ++ entry :: below ∧
    listed (after.rowOf (parent :: rest)) [] = above ++ below
  freed : ∀ tail, IsChain vol.cell (entry.firstCluster :: tail) →
    ∀ cluster ∈ entry.firstCluster :: tail, after.cell cluster = .free

section

variable (geometry : Geometry vol) (wellFormed : WellFormed vol) {entry : DirEntry}
  (found : vol.findDirEntry parent name = .ok (some entry))
  (isHead : Head vol parent) (chain : IsChain vol.cell (parent :: rest))
  (short : rest.length ≤ chainGuard)
  (own : entry.firstCluster ≠ 0 → (Head vol entry.firstCluster ∧
    ∀ tail, IsChain vol.cell (entry.firstCluster :: tail) → tail.length ≤ chainGuard) ∧
    entry.firstCluster ≠ parent)
include geometry wellFormed found isHead chain short own

/-- Deleting an entry and freeing its clusters, as `remove_impl` and `write_file_impl` do it. -/
theorem takeOut_run :
    ∃ middle after,
      deleteEntryAt entry.location.1 entry.location.2 vol = (.ok (), middle) ∧
      (if entry.firstCluster ≠ 0 then freeChain entry.firstCluster middle = (.ok (), after)
        else after = middle) ∧ TakenOut vol after parent rest entry := by
  have lists := readDir_row geometry wellFormed chain short
  have mem : entry ∈ listed (vol.rowOf (parent :: rest)) [] := by
    rw [findDirEntry, lists] at found
    exact List.mem_of_find?_eq_some (Except.ok.inj found)
  obtain ⟨cluster, s, bytes, inside, within, deleted, above, below, before, behind⟩ :=
    deleteEntryAt_listed geometry chain.nodup
      (fun cluster mem => inside_of_taken (chain.taken mem)) mem
  have wrote := wrote_withSector (IsChain.inCluster chain inside within) bytes
  have part : ∀ other, other ∈ [cluster] → other ∈ parent :: rest := fun other isIt => by
    rw [List.mem_singleton.mp isIt]
    exact inside
  have wellMiddle := wrote.wellFormed wellFormed
  obtain ⟨after, released, shape, well, others, freed⟩ := release_run wellMiddle
    (fun some' => ⟨wrote.isHead (own some').1.1, fun tail linked => (own some').1.2 tail (by
      rwa [wrote.cells] at linked)⟩)
  have different : parent ≠ entry.firstCluster := by
    intro same
    have least := (inside_of_taken isHead.1).1
    exact (own (by omega)).2 same.symm
  have kept := others parent (wrote.isHead isHead) different
  have chain' : IsChain (vol.withSector cluster s bytes).cell (parent :: rest) := by
    rw [wrote.cells]
    exact chain
  refine ⟨_, after, deleted, released, well, ⟨wrote.shape.trans shape,
    kept.isHead wellMiddle (wrote.isHead isHead), kept.chain rest chain'⟩,
    fun head here notParent notOwn => ?_, ⟨above, below, before, ?_⟩, fun tail linked => ?_⟩
  · have first := wrote.kept_other wellFormed chain isHead part here notParent
    exact first.trans (others head (first.isHead wellFormed here) notOwn)
  · rw [rowOf_congr kept.shape.sectorsPerCluster (kept.sectors rest chain'), behind]
  · refine freed tail ?_
    rw [wrote.cells]
    exact linked

/-- The beginning of `write_file_impl` over a file: its entry and clusters go, if there is one. -/
theorem replaceExisting_run (isFile : entry.isDir = false) :
    ∃ after, replaceExisting parent name vol = (.ok (), after) ∧
      TakenOut vol after parent rest entry := by
  obtain ⟨middle, after, deleted, released, gone⟩ :=
    takeOut_run geometry wellFormed found isHead chain short own
  refine ⟨after, ?_, gone⟩
  rw [replaceExisting, Fallible.bind_of_ok (show Fallible.query _ vol = (.ok (some entry), vol) by
    rw [Fallible.query_run, found])]
  simp only [isFile, Bool.false_eq_true, if_false]
  rw [Fallible.bind_of_ok deleted]
  split at released
  · rename_i some'
    rw [if_pos some', released]
  · rename_i none
    rw [if_neg none, released]
    rfl

/-- Removing a file takes its entry out of the parent's listing and frees its clusters; every other file
and directory stays as it is. -/
theorem remove_file {path : List Char} (resolved : vol.resolveParent path = .ok (parent, name))
    (isFile : entry.isDir = false) :
    ∃ after, remove path vol = (.ok (), after) ∧ WellFormed after ∧
      (∀ head, Head vol head → head ≠ parent → head ≠ entry.firstCluster →
        Undisturbed vol after head) ∧
      (∃ above below, vol.readDir parent = .ok (above ++ entry :: below) ∧
        after.readDir parent = .ok (above ++ below)) ∧
      ∀ tail, IsChain vol.cell (entry.firstCluster :: tail) →
        ∀ cluster ∈ entry.firstCluster :: tail, after.cell cluster = .free := by
  obtain ⟨middle, late, deleted, released, well, ⟨shape, isHead', chain'⟩, others,
    ⟨above, below, before, behind⟩, freed⟩ :=
    takeOut_run geometry wellFormed found isHead chain short own
  have geometry' := geometry.of_sameShape shape
  obtain ⟨after, ran, flushed⟩ := flushFat_run geometry'
  have wellAfter := flushed.wellFormed well
  have kept := flushed.kept isHead'
  refine ⟨after, ?_, wellAfter, fun head here notParent notOwn => ?_, ⟨above, below, ?_, ?_⟩,
    fun tail linked other inside => ?_⟩
  · unfold remove
    rw [Fallible.bind_of_ok (show Fallible.query _ vol = (.ok (parent, name), vol) by
      rw [Fallible.query_run, resolved])]
    dsimp only
    rw [Fallible.bind_of_ok (show Fallible.query _ vol = (.ok (some entry), vol) by
      rw [Fallible.query_run, found])]
    dsimp only
    rw [Fallible.bind_of_ok (show Fallible.query _ vol = (.ok [], vol) by
      rw [Fallible.query_run, isFile]
      rfl), List.isEmpty_nil, if_pos rfl, Fallible.bind_of_ok deleted]
    split at released
    · rename_i some'
      rw [if_pos some', Fallible.bind_of_ok released, ran]
    · rename_i none
      rw [if_neg none, ← released, ran]
  · have first := others head here notParent notOwn
    exact (first.trans (flushed.kept (first.isHead wellFormed here))).undisturbed geometry wellFormed
      wellAfter here
  · rw [readDir_row geometry wellFormed chain short, before]
  · rw [readDir_row (geometry'.of_sameShape kept.shape) wellAfter (kept.chain rest chain') short,
      rowOf_congr kept.shape.sectorsPerCluster (kept.sectors rest chain'), behind]
  · rw [flushed.cells]
    exact freed tail linked other inside

end

theorem remove_file_oneFile : ∃ after,
    remove "/system/a".toList oneFile = (.ok (), after) ∧ WellFormed after ∧
      after.readDir 3 = .ok [] ∧ after.cell 5 = .free := by
  have found : oneFile.findDirEntry 3 ['a'] = .ok (some
      { name := ['a'], isDir := false, size := 2, firstCluster := 5, location := (3, 32) }) := by
    decide +kernel
  have alone : IsChain oneFile.cell [5] := show oneFile.cell 5 = .last by decide +kernel
  have own : ∀ tail, IsChain oneFile.cell (5 :: tail) → tail.length ≤ chainGuard := by
    intro tail linked
    obtain rfl := linked.unique alone
    exact Nat.zero_le _
  obtain ⟨after, removed, well, -, ⟨above, below, before, behind⟩, freed⟩ :=
    remove_file (geometry_installed _ _) (installed_wellFormed _ _) found
      (installed_isHead _ _ (by decide)) (installed_chain _ _) (show 1 ≤ chainGuard by decide)
      (fun _ => ⟨⟨installed_isHead _ _ (show 5 ∈ [2, 3, 5] by decide), own⟩, show 5 ≠ 3 by decide⟩)
      (show oneFile.resolveParent "/system/a".toList = .ok (3, ['a']) by decide +kernel) rfl
  have single : oneFile.readDir 3 = .ok
      [{ name := ['a'], isDir := false, size := 2, firstCluster := 5, location := (3, 32) }] := by
    decide +kernel
  have count := congrArg List.length (Except.ok.inj (single.symm.trans before))
  simp only [List.length_append, List.length_cons, List.length_nil] at count
  rw [List.length_eq_zero_iff.mp (show above.length = 0 by omega),
    List.length_eq_zero_iff.mp (show below.length = 0 by omega)] at behind
  exact ⟨after, removed, well, behind, freed [] alone 5 List.mem_cons_self⟩

end MachaOS.Fat.Fat32
