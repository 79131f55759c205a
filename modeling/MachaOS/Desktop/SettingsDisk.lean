/-
The settings file on a FAT volume (`Settings::load` and `Settings::save` over `src/fat.rs`).

Saving takes the old file out of `/system` and writes its entries anew.  The thirteen characters of
`settings.conf` fill their long-name slot, so what waits before it becomes part of the name: then the
file that was saved is not found.
-/

import MachaOS.Desktop.SettingsFile
import MachaOS.Fat.Creating

namespace MachaOS.Desktop.Settings

open Fat Fat.Fat32
open Chains (IsChain)

def fileName : List Char := "settings.conf".toList

/-- `fat::read_file` and `fat::write_file`; of an error the settings only ask whether there is one. -/
def fatFiles : Notepad.Files Fat32 where
  writeFile := fun path bytes vol => (writeFile path bytes vol).map (Except.mapError (fun _ => [])) id
  readFile := fun path vol => (vol.readFile path).mapError (fun _ => [])

/-- The volume without the old settings file. -/
def cleared (vol : Fat32) (parent : Nat) : Fat32 := (replaceExisting parent fileName vol).2

/-- A sound volume with a settings file in `/system`, which is the only one there; once it is taken out,
the entries go to an open place. -/
structure Replaceable (vol : Fat32) (parent : Nat) (rest : List Nat) (entry : Fat.DirEntry) :
    Prop where
  geometry : Geometry vol
  wellFormed : WellFormed vol
  root : Head vol vol.rootCluster ∧ ∃ tail, IsChain vol.cell (vol.rootCluster :: tail) ∧
    tail.length ≤ chainGuard
  resolved : vol.resolveParent path = .ok (parent, fileName)
  isHead : Head vol parent ∧ parent ≠ vol.rootCluster
  chain : IsChain vol.cell (parent :: rest)
  short : rest.length < chainGuard
  found : vol.findDirEntry parent fileName = .ok (some entry)
  isFile : entry.isDir = false
  own : entry.firstCluster ≠ 0 → (Head vol entry.firstCluster ∧
    ∀ tail, IsChain vol.cell (entry.firstCluster :: tail) → tail.length ≤ chainGuard) ∧
    entry.firstCluster ≠ parent
  apart : entry.firstCluster ≠ vol.rootCluster
  alone : (cleared vol parent).findDirEntry parent fileName = .ok none
  free : OpenPlace ((cleared vol parent).rowOf (parent :: rest))
    ((cleared vol parent).placeFor parent (slotsFor fileName)) fileName

/-- What the long-name slots that wait before the new entries add to the name. -/
def joined (vol : Fat32) (parent : Nat) (rest : List Nat) : List Char :=
  waiting ((cleared vol parent).rowOf (parent :: rest))
    ((cleared vol parent).placeFor parent (slotsFor fileName)) fileName

variable {vol after : Fat32} {parent : Nat} {rest : List Nat} {entry : Fat.DirEntry}

/-- The path has one directory, so only the root's listing decides where it leads. -/
theorem resolveParent_path (vol : Fat32) : vol.resolveParent path =
    (do
      let entries ← vol.readDir vol.rootCluster
      match entries.find? (fun entry => entry.isDir && nameMatches entry.name "system".toList) with
      | none => throw (.error .notFound)
      | some dir => pure (dir.firstCluster, fileName)) := by
  have parts : components path = ["system".toList, fileName] := by decide
  unfold resolveParent
  rw [parts]
  show (do
    let cluster ← vol.descend ["system".toList] vol.rootCluster
    pure (cluster, fileName)) = _
  simp only [descend, bind_assoc]
  congr 1
  funext entries
  cases entries.find? _ with
  | none => rfl
  | some dir => rfl

theorem writeFile_reads (place : Replaceable vol parent rest entry) {content : List (BitVec 8)}
    (fits : vol.clustersFor content.length ≤ chainGuard + 1) (small : content.length < 2 ^ 32)
    (ran : writeFile path content vol = (.ok (), after)) :
    after.readFile path = if joined vol parent rest = [] then .ok content else .error (.error .notFound) := by
  obtain ⟨geometry, wellFormed, ⟨root, tail, rootChain, rootShort⟩, resolved, ⟨isHead, notRoot⟩, chain,
    short, found, isFile, own, apart, alone, free⟩ := place
  obtain ⟨late, replaced, gone⟩ :=
    replaceExisting_run geometry wellFormed found isHead chain (Nat.le_of_lt short) own isFile
  have isLate : cleared vol parent = late := by rw [cleared, replaced]
  rw [isLate] at alone free
  rw [joined, isLate]
  obtain ⟨shape, isHead', chain'⟩ := gone.parentKept
  have ascii : ∀ c, c ∈ fileName → c.toNat < 0x80 :=
    List.forall_iff_forall_mem.mp (by decide)
  have fitsLate : late.clustersFor content.length ≤ chainGuard + 1 := by
    rw [clustersFor, clusterBytes, shape.sectorsPerCluster]
    exact fits
  have creates := create_yields (geometry.of_sameShape shape) gone.wellFormed ascii rfl isHead' chain'
    short fitsLate small free
  have runs : (do
      let firstCluster ← storeContent content
      writeDirEntries parent fileName firstCluster (content.length % 2 ^ 32) false
      flushFat) late = (.ok (), after) := by
    unfold writeFile at ran
    rw [Fallible.bind_of_ok (show Fallible.query _ vol = (.ok (parent, fileName), vol) by
      rw [Fallible.query_run, resolved])] at ran
    dsimp only at ran
    rw [Fallible.bind_of_ok (show Fallible.query _ vol = (.ok (), vol) from rfl),
      Fallible.bind_of_ok replaced] at ran
    exact ran
  have created := creates.of_ok runs
  have kept := gone.others vol.rootCluster root notRoot.symm apart.symm
  have rootListing : after.readDir vol.rootCluster = vol.readDir vol.rootCluster := by
    rw [(created.others _ (kept.isHead wellFormed root) notRoot.symm).listing tail
      (kept.chain tail rootChain) rootShort]
    exact (kept.undisturbed geometry wellFormed gone.wellFormed root).listing tail rootChain rootShort
  have sameRoot : after.rootCluster = vol.rootCluster := by
    rw [(shape.trans created.shape).fields]
  refine created.readFile alone ?_
  rw [resolveParent_path, sameRoot, rootListing, ← resolveParent_path, resolved]

theorem writeFile_of_saved {settings : Settings} (saved : settings.save fatFiles vol = (true, after)) :
    writeFile path (Notepad.encode settings.saveText) vol = (.ok (), after) := by
  have written : fatFiles.writeFile path (Notepad.encode settings.saveText) vol =
      (writeFile path (Notepad.encode settings.saveText) vol).map (Except.mapError (fun _ => [])) id := rfl
  rw [save, written] at saved
  rcases outcome : writeFile path (Notepad.encode settings.saveText) vol with ⟨stop | done, late⟩
  · rw [outcome] at saved
    cases saved
  · rw [outcome] at saved
    cases saved
    rfl

def darkText : Text := "wallpaper=false".toList

def dark : Settings := { defaults with wallpaper := false }

/-- The settings file behind other entries of `/system`. -/
def behind (entries : List (List (BitVec 8))) : Fat32 :=
  installed (entries ++ dirEntryBytes fileName 5 15 false (quietHardware.rtc 0)) (Notepad.encode darkText)

theorem load_dark (vol : Fat32) (read : vol.readFile path = .ok (Notepad.encode darkText)) :
    load fatFiles ⟨1, (1024, 768)⟩ vol = dark :=
  (load_of_read (congrArg (Except.mapError (fun _ => [])) read)).trans (by decide +kernel)

def cluttered : Fat32 :=
  behind (letters.map (fun name => sfnEntry name 0 0 false (quietHardware.rtc 0)) ++
    lfnEntries crossing ++ [0xE5#8 :: List.replicate 31 0#8])

end MachaOS.Desktop.Settings
