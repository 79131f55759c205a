/-
Volumes with any contents whatever: when opening and reading one can stop the
kernel.

A cluster number comes from the boot sector, from a directory entry or from the
FAT, and nothing checks it before it is used; nor are the sizes that the boot sector
and the entries give, before memory is asked for.  The condition names the clusters a
lookup comes to, what has to be in order about each, and the memory it takes.
-/

import MachaOS.Fat.Opening

namespace MachaOS.Fat.Fat32

open Except

/-- The kernel heap; where it has no room the kernel stops. -/
structure Heap where
  /-- Is there a block of so many bytes? -/
  allocates : Nat → Bool
  /-- Is there room for what a scan of a directory has pushed? -/
  holds : Scan → Bool

/-- What the scan of a directory has pushed, after each slot. -/
def slotScans : List ((Nat × Nat) × Slot) → Scan → List Scan
  | [], _ => []
  | (place, slot) :: rest, scan =>
      match readSlot slot place scan with
      | none => []
      | some scan => scan :: slotScans rest scan

def sectorScans (vol : Fat32) (cluster : Nat) : Nat → Nat → Scan → List Scan
  | 0, _, _ => []
  | left + 1, s, scan =>
      match vol.readClusterSector cluster s with
      | .error _ => []
      | .ok sector =>
          slotScans (slotsOf cluster s sector) scan ++
            match readSlots (slotsOf cluster s sector) scan with
            | .ended _ => []
            | .going scan => sectorScans vol cluster left (s + 1) scan

def clusterScans (vol : Fat32) : Nat → Nat → Scan → List Scan
  | left, current, scan =>
      vol.sectorScans current vol.sectorsPerCluster 0 scan ++
        match vol.readSectors current vol.sectorsPerCluster 0 scan, vol.nextCluster current, left with
        | .ok (.going scan), .ok next, left + 1 =>
            if isEof next ∨ next < 2 then [] else clusterScans vol left next scan
        | _, _, _ => []

def Held (vol : Fat32) (heap : Heap) (cluster : Nat) : Prop :=
  (vol.clusterScans chainGuard cluster { lfnParts := [], out := [] }).all heap.holds = true

instance (vol : Fat32) (heap : Heap) (cluster : Nat) : Decidable (vol.Held heap cluster) :=
  inferInstanceAs (Decidable (_ = true))

/-- `read_dir` with the memory it takes. -/
def readDirIn (vol : Fat32) (heap : Heap) (cluster : Nat) : Except Stop (List DirEntry) :=
  if vol.Held heap cluster then vol.readDir cluster else .error .panic

/-- `read_file_data` with `Vec::with_capacity(size)`. -/
def readFileDataIn (vol : Fat32) (heap : Heap) (firstCluster size : Nat) :
    Except Stop (List (BitVec 8)) :=
  if size = 0 ∨ heap.allocates size = true then vol.readFileData firstCluster size else .error .panic

variable {vol : Fat32} {heap : Heap}

theorem readDirIn_eq_panic_iff (some' : 0 < vol.sectorsPerCluster) {cluster : Nat} :
    vol.readDirIn heap cluster = .error .panic ↔
      ¬ (vol.DirSound cluster ∧ vol.Held heap cluster) := by
  unfold readDirIn
  split
  · rename_i held
    rw [readDir_eq_panic_iff some', and_iff_left held]
  · rename_i full
    exact iff_of_true rfl (fun both => full both.2)

theorem readFileDataIn_eq_panic_iff (some' : 0 < vol.sectorsPerCluster) {firstCluster size : Nat} :
    vol.readFileDataIn heap firstCluster size = .error .panic ↔
      ¬ (vol.FileSound firstCluster size ∧ (size = 0 ∨ heap.allocates size = true)) := by
  unfold readFileDataIn
  split
  · rename_i granted
    rw [readFileData_eq_panic_iff some', and_iff_left granted]
  · rename_i refused
    exact iff_of_true rfl (fun both => refused both.2)

/-- The directories that a lookup enters. -/
inductive LeadsBy (readDir : Nat → Except Stop (List DirEntry)) (root : Nat) :
    List (List Char) → Nat → Prop where
  | root : LeadsBy readDir root [] root
  | enter {before : List (List Char)} {cluster : Nat} {entries : List DirEntry}
      {component : List Char} {dir : DirEntry} (leads : LeadsBy readDir root before cluster)
      (listed : readDir cluster = .ok entries)
      (found : entries.find? (fun entry => entry.isDir && nameMatches entry.name component) =
        some dir) :
      LeadsBy readDir root (before ++ [component]) dir.firstCluster

abbrev Leads (vol : Fat32) (path : List (List Char)) (cluster : Nat)
    (readDir : Nat → Except Stop (List DirEntry) := vol.readDir) : Prop :=
  LeadsBy readDir vol.rootCluster path cluster

variable {readDir : Nat → Except Stop (List DirEntry)}

theorem descend_append {early late : List (List Char)} {cluster : Nat} :
    vol.descend (early ++ late) cluster readDir =
      (vol.descend early cluster readDir >>=
        fun middle => vol.descend late middle readDir) := by
  induction early generalizing cluster with
  | nil => rfl
  | cons component rest ih =>
      rw [List.cons_append, descend, descend]
      cases readDir cluster with
      | error stop => rfl
      | ok entries =>
          simp only [ok_bind]
          cases entries.find? (fun entry => entry.isDir && nameMatches entry.name component) with
          | none => rfl
          | some dir => exact ih

theorem descend_concat {before : List (List Char)} {component : List Char} {cluster : Nat} :
    vol.descend (before ++ [component]) cluster readDir = (do
      let parent ← vol.descend before cluster readDir
      let entries ← readDir parent
      match entries.find? (fun entry => entry.isDir && nameMatches entry.name component) with
      | none => throw (.error .notFound)
      | some dir => pure dir.firstCluster) := by
  rw [descend_append]
  congr 1

theorem leads_iff {path : List (List Char)} {cluster : Nat} :
    Leads vol path cluster readDir ↔ vol.descend path vol.rootCluster readDir = .ok cluster := by
  constructor
  · intro leads
    induction leads with
    | root => rfl
    | enter leads listed found ih =>
        rw [descend_concat, ih, ok_bind, listed, ok_bind, found]
        rfl
  · intro reached
    induction path using List.reverseRecOn generalizing cluster with
    | nil =>
        cases reached
        exact LeadsBy.root
    | append_singleton before component ih =>
        rw [descend_concat] at reached
        obtain ⟨parent, reachedParent, reached⟩ := bind_eq_ok.mp reached
        obtain ⟨entries, listed, reached⟩ := bind_eq_ok.mp reached
        split at reached
        · cases reached
        · rename_i dir found
          cases reached
          exact LeadsBy.enter (ih reachedParent) listed found

theorem descend_eq_panic_iff (some' : 0 < vol.sectorsPerCluster) {path : List (List Char)} :
    vol.descend path vol.rootCluster (vol.readDirIn heap) = .error .panic ↔
      ∃ before component after cluster, path = before ++ component :: after ∧
        Leads vol before cluster (vol.readDirIn heap) ∧
        ¬ (vol.DirSound cluster ∧ vol.Held heap cluster) := by
  induction path using List.reverseRecOn with
  | nil =>
      refine iff_of_false (fun same => by cases same) ?_
      rintro ⟨before, component, after, cluster, never, -⟩
      simp at never
  | append_singleton path last ih =>
      rw [descend_concat]
      constructor
      · intro stopped
        rcases bind_eq_error.mp stopped with early | ⟨parent, reached, late⟩
        · obtain ⟨before, component, after, cluster, rfl, leads, unsound⟩ := ih.mp early
          exact ⟨before, component, after ++ [last], cluster, by simp, leads, unsound⟩
        · rcases bind_eq_error.mp late with early | ⟨entries, -, late⟩
          · exact ⟨path, last, [], parent, rfl, leads_iff.mpr reached,
              (readDirIn_eq_panic_iff some').mp early⟩
          · split at late
            · cases late
            · cases late
      · rintro ⟨before, component, after, cluster, same, leads, unsound⟩
        rcases List.eq_nil_or_concat after with rfl | ⟨rest, final, rfl⟩
        · obtain ⟨rfl, -⟩ := List.append_inj' same rfl
          rw [leads_iff.mp leads, ok_bind, (readDirIn_eq_panic_iff some').mpr unsound]
          rfl
        · have shorter : path = before ++ component :: rest := by
            rw [List.concat_eq_append, ← List.cons_append, ← List.append_assoc] at same
            exact (List.append_inj' same rfl).1
          rw [ih.mpr ⟨before, component, rest, cluster, shorter, leads, unsound⟩]
          rfl

structure PathSound (vol : Fat32) (heap : Heap) (path : List Char) : Prop where
  directories : ∀ before cluster, before <+: components path →
    Leads vol before cluster (vol.readDirIn heap) → vol.DirSound cluster ∧ vol.Held heap cluster
  file : ∀ parent name entries entry,
    Leads vol (components path).dropLast parent (vol.readDirIn heap) →
    (components path).getLast? = some name → utf8Len name ≤ maxName →
    vol.readDirIn heap parent = .ok entries →
    entries.find? (fun entry => !entry.isDir && nameMatches entry.name name) = some entry →
    vol.FileSound entry.firstCluster entry.size ∧ (entry.size = 0 ∨ heap.allocates entry.size = true)

theorem listDir_eq_panic_iff (some' : 0 < vol.sectorsPerCluster) {path : List Char} :
    vol.listDir path (vol.readDirIn heap) = .error .panic ↔
      ∃ before cluster, before <+: components path ∧ Leads vol before cluster (vol.readDirIn heap) ∧
        ¬ (vol.DirSound cluster ∧ vol.Held heap cluster) := by
  unfold listDir
  rw [bind_eq_error, descend_eq_panic_iff some']
  constructor
  · rintro (⟨before, component, after, cluster, same, leads, unsound⟩ | ⟨cluster, reached, stopped⟩)
    · exact ⟨before, cluster, ⟨component :: after, same.symm⟩, leads, unsound⟩
    · exact ⟨components path, cluster, List.prefix_rfl, leads_iff.mpr reached,
        (readDirIn_eq_panic_iff some').mp stopped⟩
  · rintro ⟨before, cluster, ⟨after, same⟩, leads, unsound⟩
    cases after with
    | nil =>
        rw [List.append_nil] at same
        subst same
        exact Or.inr ⟨cluster, leads_iff.mp leads, (readDirIn_eq_panic_iff some').mpr unsound⟩
    | cons component after =>
        exact Or.inl ⟨before, component, after, cluster, same.symm, leads, unsound⟩

theorem resolveParent_ne_panic (some' : 0 < vol.sectorsPerCluster) {path : List Char}
    (directories : ∀ before cluster, before <+: components path →
      Leads vol before cluster (vol.readDirIn heap) → vol.DirSound cluster ∧ vol.Held heap cluster) :
    vol.resolveParent path (vol.readDirIn heap) ≠ .error .panic := by
  intro stopped
  unfold resolveParent at stopped
  split at stopped
  · cases stopped
  · split at stopped
    · cases stopped
    · rcases bind_eq_error.mp stopped with early | ⟨cluster, -, late⟩
      · obtain ⟨before, component, after, cluster, same, leads, unsound⟩ :=
          (descend_eq_panic_iff some').mp early
        have within : before <+: (components path).dropLast := ⟨component :: after, same.symm⟩
        exact unsound (directories before cluster (within.trans (List.dropLast_prefix _)) leads)
      · cases late

theorem resolveParent_eq_ok {path : List Char} {parent : Nat} {name : List Char}
    (resolved : vol.resolveParent path readDir = .ok (parent, name)) :
    (components path).getLast? = some name ∧ utf8Len name ≤ maxName ∧
      Leads vol (components path).dropLast parent readDir := by
  unfold resolveParent at resolved
  split at resolved
  · cases resolved
  · rename_i last found
    split at resolved
    · cases resolved
    · rename_i short
      obtain ⟨cluster, reached, same⟩ := bind_eq_ok.mp resolved
      cases same
      exact ⟨found, by omega, leads_iff.mpr reached⟩

theorem resolveParent_of_leads {path : List Char} {parent : Nat} {name : List Char}
    (last : (components path).getLast? = some name) (short : utf8Len name ≤ maxName)
    (leads : Leads vol (components path).dropLast parent readDir) :
    vol.resolveParent path readDir = .ok (parent, name) := by
  unfold resolveParent
  simp only [last]
  rw [if_neg (by omega), leads_iff.mp leads]
  rfl

def LookupsReturn (vol : Fat32) (heap : Heap) (path : List Char) : Prop :=
  vol.listDir path (vol.readDirIn heap) ≠ .error .panic ∧
    vol.readFile path (vol.readDirIn heap) (vol.readFileDataIn heap) ≠ .error .panic ∧
    vol.isDir path (vol.readDirIn heap) ≠ .error .panic

theorem lookups_return_iff (some' : 0 < vol.sectorsPerCluster) {path : List Char} :
    vol.LookupsReturn heap path ↔ vol.PathSound heap path := by
  constructor
  · rintro ⟨lists, reads, -⟩
    have directories : ∀ before cluster, before <+: components path →
        Leads vol before cluster (vol.readDirIn heap) → vol.DirSound cluster ∧ vol.Held heap cluster := by
      intro before cluster within leads
      by_contra unsound
      exact lists ((listDir_eq_panic_iff some').mpr ⟨before, cluster, within, leads, unsound⟩)
    refine ⟨directories, fun parent name entries entry leads last short listed found => ?_⟩
    by_contra unsound
    apply reads
    unfold readFile
    rw [resolveParent_of_leads last short leads, ok_bind]
    dsimp only
    rw [listed, ok_bind]
    simp only [found]
    exact (readFileDataIn_eq_panic_iff some').mpr unsound
  · intro sound
    have parentSound {parent : Nat}
        (leads : Leads vol (components path).dropLast parent (vol.readDirIn heap)) :
        vol.readDirIn heap parent ≠ .error .panic := fun stopped =>
      (readDirIn_eq_panic_iff some').mp stopped
        (sound.directories _ _ (List.dropLast_prefix _) leads)
    refine ⟨fun stopped => ?_, fun stopped => ?_, fun stopped => ?_⟩
    · obtain ⟨before, cluster, within, leads, unsound⟩ := (listDir_eq_panic_iff some').mp stopped
      exact unsound (sound.directories before cluster within leads)
    · unfold readFile at stopped
      rcases bind_eq_error.mp stopped with early | ⟨⟨parent, name⟩, resolved, late⟩
      · exact resolveParent_ne_panic some' sound.directories early
      · obtain ⟨last, short, leads⟩ := resolveParent_eq_ok resolved
        rcases bind_eq_error.mp late with early | ⟨entries, listed, late⟩
        · exact parentSound leads early
        · split at late
          · cases late
          · rename_i entry found
            exact (readFileDataIn_eq_panic_iff some').mp late
              (sound.file parent name entries entry leads last short listed found)
    · unfold isDir at stopped
      split at stopped
      · cases stopped
      · rcases bind_eq_error.mp stopped with early | ⟨⟨parent, name⟩, resolved, late⟩
        · exact resolveParent_ne_panic some' sound.directories early
        · obtain ⟨-, -, leads⟩ := resolveParent_eq_ok resolved
          rcases bind_eq_error.mp late with early | ⟨entry, -, late⟩
          · unfold findDirEntry at early
            split at early
            · cases early
            · rename_i panicked
              exact parentSound leads panicked
            · cases early
          · split at late
            · cases late
            · cases late

def Returns (overflowChecks : Bool) (heap : Heap) (device : AtaDevice) (path : List Char) : Prop :=
  openDevice overflowChecks device heap.allocates ≠ .error .panic ∧
    ∀ vol, openDevice overflowChecks device heap.allocates = .ok vol →
      (scanFreeClusters vol).1 ≠ .error .panic ∧ LookupsReturn (scanFreeClusters vol).2 heap path

/-- The sizes in the boot sector and the number of free clusters are `u32`s where that is
checked, there is room for the tables, and the path is sound. -/
structure Harmless (overflowChecks : Bool) (heap : Heap) (device : AtaDevice) (path : List Char) :
    Prop where
  tables : ∀ boot, device.readSector 0 = .ok boot → Accepted boot → overflowChecks = true →
    tablesEnd boot < 2 ^ 32
  room : ∀ boot, device.readSector 0 = .ok boot → Accepted boot →
    heap.allocates ((boot.readU32 0x24).toNat * 512) = true ∧
      ∀ fat, readFat device (boot.readU16 0x0E).toNat (boot.readU32 0x24).toNat 0 = .ok fat →
        heap.allocates (boot.readU32 0x24).toNat = true
  count : ∀ vol, openDevice overflowChecks device heap.allocates = .ok vol → overflowChecks = true →
    (vol.fat.drop 2).countP isFree < 2 ^ 32
  sound : ∀ vol, openDevice overflowChecks device heap.allocates = .ok vol →
    PathSound (scanFreeClusters vol).2 heap path

theorem scanFreeClusters_eq_panic_iff :
    (scanFreeClusters vol).1 = .error .panic ↔
      vol.overflowChecks = true ∧ 2 ^ 32 ≤ (vol.fat.drop 2).countP isFree := by
  unfold scanFreeClusters
  cases counted : u32 vol.overflowChecks ((vol.fat.drop 2).countP isFree) with
  | ok free =>
      refine iff_of_false (fun same => by cases same) ?_
      rintro ⟨checks, large⟩
      rw [u32_eq_panic_iff.mpr ⟨checks, by omega⟩] at counted
      cases counted
  | error stop =>
      obtain rfl := u32_error counted
      obtain ⟨checks, unfit⟩ := u32_eq_panic_iff.mp counted
      exact iff_of_true rfl ⟨checks, by omega⟩

theorem scanFreeClusters_frame :
    (scanFreeClusters vol).2.sectorsPerCluster = vol.sectorsPerCluster := by
  unfold scanFreeClusters
  split <;> rfl

def misrootedDevice : AtaDevice := { formattedDevice with
  disk := fun addr =>
    if addr = 0x2C then 200#8 else if addr < 1024 then formattedDisk addr else 0xE5#8 }

def misrooted : Fat32 := { formatted with
  device := misrootedDevice
  rootCluster := 200
  freeClusters := 0 }

end MachaOS.Fat.Fat32
