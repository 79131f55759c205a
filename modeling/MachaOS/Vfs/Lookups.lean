/-
The three ways to look a path up: `list_dir` descends through every component,
`resolve_parent` stops before the last one and checks its length, and `is_dir` knows the
root by the string "/".
-/

import MachaOS.Fat.Malformed
import MachaOS.Vfs.Handle

namespace MachaOS.Vfs

open Fat (Fat32 DirEntry components maxName nameMatches utf8Len)
open Fat.Fat32 (Leads leads_iff)

variable {vol : Fat32} {path : List Char}

theorem find?_and_of_unique {α : Type} {items : List α} (kind named : α → Bool)
    (unique : items.Pairwise (fun one other => ¬ (named one = true ∧ named other = true))) :
    items.find? (fun item => kind item && named item) =
      (items.find? named).filter kind := by
  induction items with
  | nil => rfl
  | cons item rest ih =>
      obtain ⟨apart, uniqueRest⟩ := List.pairwise_cons.mp unique
      cases here : named item with
      | false =>
          rw [List.find?_cons_of_neg (by simp [here]), List.find?_cons_of_neg (by simp [here])]
          exact ih uniqueRest
      | true =>
          rw [List.find?_cons_of_pos here, Option.filter_some]
          cases right : kind item with
          | true =>
              rw [List.find?_cons_of_pos (by rw [right, here]; rfl)]
              rfl
          | false =>
              rw [List.find?_cons_of_neg (by rw [right]; simp)]
              refine List.find?_eq_none.mpr (fun other mem => ?_)
              have different := apart other mem
              rw [here, eq_self_iff_true, true_and] at different
              rw [Bool.not_eq_true] at different
              rw [different]
              simp

def UniqueNames (vol : Fat32) : Prop :=
  ∀ parts cluster entries, Leads vol parts cluster → vol.readDir cluster = .ok entries →
    entries.Pairwise (fun one other => nameMatches one.name other.name = false)

theorem nameMatches_both {one other needle : List Char} (first : nameMatches one needle = true)
    (second : nameMatches other needle = true) : nameMatches one other = true := by
  unfold nameMatches at first second ⊢
  rw [decide_eq_true_eq] at first second ⊢
  exact first.trans second.symm

theorem UniqueNames.find? (unique : UniqueNames vol) {parts : List (List Char)}
    {cluster : Nat} {entries : List DirEntry} (leads : Leads vol parts cluster)
    (listed : vol.readDir cluster = .ok entries) (kind : DirEntry → Bool) (name : List Char) :
    entries.find? (fun entry => kind entry && nameMatches entry.name name) =
      (entries.find? (fun entry => nameMatches entry.name name)).filter kind := by
  refine find?_and_of_unique kind (fun entry => nameMatches entry.name name) ?_
  refine (unique parts cluster entries leads listed).imp (fun apart => ?_)
  rintro ⟨first, second⟩
  rw [nameMatches_both first second] at apart
  cases apart

/-- `is_dir` takes the path: it is "/", or its last component is there and not too long. -/
def Accepts (path : List Char) : Prop :=
  path = ['/'] ∨ ∃ name, (components path).getLast? = some name ∧ utf8Len name ≤ maxName

theorem components_root : components ['/'] = [] := by
  decide

theorem components_split {name : List Char} (last : (components path).getLast? = some name) :
    components path = (components path).dropLast ++ [name] := by
  obtain ⟨before, same⟩ := List.getLast?_eq_some_iff.mp last
  rw [same, List.dropLast_concat]

theorem listDir_isOk_iff : (vol.listDir path).isOk = true ↔
    ∃ cluster, Leads vol (components path) cluster ∧ (vol.readDir cluster).isOk = true := by
  unfold Fat32.listDir
  constructor
  · intro listed
    cases reached : vol.descend (components path) vol.rootCluster with
    | error stop =>
        rw [reached] at listed
        cases listed
    | ok cluster =>
        rw [reached] at listed
        exact ⟨cluster, leads_iff.mpr reached, listed⟩
  · rintro ⟨cluster, leads, listed⟩
    rw [leads_iff.mp leads]
    exact listed

theorem findDirEntry_eq_some {parent : Nat} {name : List Char} {entry : DirEntry} :
    vol.findDirEntry parent name = .ok (some entry) ↔
      ∃ entries, vol.readDir parent = .ok entries ∧
        entries.find? (fun entry => nameMatches entry.name name) = some entry := by
  unfold Fat32.findDirEntry
  cases listed : vol.readDir parent with
  | ok entries => simp
  | error stop => cases stop <;> simp

theorem leads_concat_iff (unique : UniqueNames vol) {before : List (List Char)}
    {name : List Char} :
    (∃ cluster, Leads vol (before ++ [name]) cluster) ↔
      ∃ parent entry, Leads vol before parent ∧
        vol.findDirEntry parent name = .ok (some entry) ∧ entry.isDir = true := by
  constructor
  · rintro ⟨cluster, leads⟩
    rw [leads_iff, Fat32.descend_concat] at leads
    obtain ⟨parent, reached, leads⟩ := Except.bind_eq_ok.mp leads
    obtain ⟨entries, listed, leads⟩ := Except.bind_eq_ok.mp leads
    rw [unique.find? (leads_iff.mpr reached) listed DirEntry.isDir name] at leads
    cases found : entries.find? (fun entry => nameMatches entry.name name) with
    | none =>
        rw [found] at leads
        cases leads
    | some entry =>
        refine ⟨parent, entry, leads_iff.mpr reached,
          findDirEntry_eq_some.mpr ⟨entries, listed, found⟩, ?_⟩
        rw [found, Option.filter_some] at leads
        cases directory : entry.isDir with
        | true => rfl
        | false =>
            rw [directory] at leads
            cases leads
  · rintro ⟨parent, entry, leads, found, directory⟩
    obtain ⟨entries, listed, found⟩ := findDirEntry_eq_some.mp found
    refine ⟨entry.firstCluster, .enter leads listed ?_⟩
    rw [unique.find? leads listed DirEntry.isDir name, found, Option.filter_some, if_pos directory]

theorem isDir_eq_ok_iff (other : path ≠ ['/']) {answer : Bool} :
    vol.isDir path = .ok answer ↔
      ∃ parent name entry, vol.resolveParent path = .ok (parent, name) ∧
        vol.findDirEntry parent name = .ok (some entry) ∧ entry.isDir = answer := by
  unfold Fat32.isDir
  rw [if_neg other]
  constructor
  · intro answered
    obtain ⟨⟨parent, name⟩, resolved, answered⟩ := Except.bind_eq_ok.mp answered
    obtain ⟨found, search, answered⟩ := Except.bind_eq_ok.mp answered
    cases found with
    | none => cases answered
    | some entry =>
        cases answered
        exact ⟨parent, name, entry, resolved, search, rfl⟩
  · rintro ⟨parent, name, entry, resolved, search, rfl⟩
    rw [resolved, Except.ok_bind]
    dsimp only
    rw [search, Except.ok_bind]
    rfl

theorem isDir_eq_true_iff (unique : UniqueNames vol) :
    vol.isDir path = .ok true ↔
      Accepts path ∧ ∃ cluster, Leads vol (components path) cluster := by
  by_cases root : path = ['/']
  · subst root
    have here : vol.isDir ['/'] = .ok true := if_pos rfl
    rw [here, components_root]
    exact iff_of_true rfl ⟨Or.inl rfl, vol.rootCluster, .root⟩
  · rw [isDir_eq_ok_iff root]
    constructor
    · rintro ⟨parent, name, entry, resolved, search, directory⟩
      obtain ⟨last, short, leads⟩ := Fat32.resolveParent_eq_ok resolved
      refine ⟨Or.inr ⟨name, last, short⟩, ?_⟩
      rw [components_split last]
      exact (leads_concat_iff unique).mpr ⟨parent, entry, leads, search, directory⟩
    · rintro ⟨accepts, leads⟩
      obtain ⟨name, last, short⟩ := accepts.resolve_left root
      rw [components_split last] at leads
      obtain ⟨parent, entry, leads, search, directory⟩ := (leads_concat_iff unique).mp leads
      exact ⟨parent, name, entry, Fat32.resolveParent_of_leads last short leads, search, directory⟩

theorem isDir_of_readFile (unique : UniqueNames vol)
    (reads : (vol.readFile path).isOk = true) : vol.isDir path = .ok false := by
  unfold Fat32.readFile at reads
  cases resolved : vol.resolveParent path with
  | error stop =>
      rw [resolved] at reads
      cases reads
  | ok place =>
      obtain ⟨parent, name⟩ := place
      obtain ⟨last, short, leads⟩ := Fat32.resolveParent_eq_ok resolved
      have other : path ≠ ['/'] := by
        rintro rfl
        rw [components_root] at last
        cases last
      rw [resolved, Except.ok_bind] at reads
      dsimp only at reads
      cases listed : vol.readDir parent with
      | error stop =>
          rw [listed] at reads
          cases reads
      | ok entries =>
          rw [listed, Except.ok_bind,
            unique.find? leads listed (fun entry => !entry.isDir) name] at reads
          cases found : entries.find? (fun entry => nameMatches entry.name name) with
          | none =>
              rw [found] at reads
              cases reads
          | some entry =>
              refine (isDir_eq_ok_iff other).mpr ⟨parent, name, entry, resolved,
                findDirEntry_eq_some.mpr ⟨entries, listed, found⟩, ?_⟩
              rw [found, Option.filter_some] at reads
              cases directory : entry.isDir with
              | false => rfl
              | true =>
                  rw [directory] at reads
                  cases reads

/-- `open` without flags gives the handle of a directory. -/
def OpensDirectory (vol : Fat32) (path : List Char) : Prop :=
  ∃ handle, FileHandle.openFile vol path ⟨false, false, false, false, false⟩ = .ok handle ∧
    handle.isDir = true

theorem opensDirectory_iff : OpensDirectory vol path ↔ vol.isDir path = .ok true := by
  unfold OpensDirectory FileHandle.openFile
  constructor
  · rintro ⟨handle, opened, directory⟩
    split at opened
    · cases opened
    · assumption
    · split at opened
      · cases opened
      · cases opened
        cases directory
  · intro answered
    rw [answered]
    exact ⟨_, rfl, rfl⟩

structure Agree (vol : Fat32) (path : List Char) : Prop where
  lists : vol.isDir path = .ok true ↔ (vol.listDir path).isOk = true
  reads : (vol.readFile path).isOk = true → vol.isDir path = .ok false
  opens : OpensDirectory vol path ↔ (vol.listDir path).isOk = true

/-- The lookups agree on a path exactly when the directory it leads to, if it leads to one, can
be read if and only if `is_dir` takes the path. -/
theorem lookups_agree_iff (unique : UniqueNames vol) :
    Agree vol path ↔ ∀ cluster, Leads vol (components path) cluster →
      (Accepts path ↔ (vol.readDir cluster).isOk = true) := by
  have agree : Agree vol path ↔
      (vol.isDir path = .ok true ↔ (vol.listDir path).isOk = true) := by
    constructor
    · intro agree
      exact agree.lists
    · intro lists
      exact ⟨lists, isDir_of_readFile unique, opensDirectory_iff.trans lists⟩
  rw [agree, isDir_eq_true_iff unique, listDir_isOk_iff]
  constructor
  · intro same cluster leads
    constructor
    · intro accepts
      obtain ⟨other, leadsOther, listed⟩ := same.mp ⟨accepts, cluster, leads⟩
      have equal := (leads_iff.mp leads).symm.trans (leads_iff.mp leadsOther)
      cases equal
      exact listed
    · intro listed
      exact (same.mpr ⟨cluster, leads, listed⟩).1
  · intro each
    constructor
    · rintro ⟨accepts, cluster, leads⟩
      exact ⟨cluster, leads, (each cluster leads).mp accepts⟩
    · rintro ⟨cluster, leads, listed⟩
      exact ⟨(each cluster leads).mpr listed, cluster, leads⟩

theorem readDir_formatted : Fat32.formatted.readDir 2 = .ok [] := by
  decide +kernel

theorem uniqueNames_formatted : UniqueNames Fat32.formatted := by
  intro parts cluster entries leads listed
  have root : parts = [] := by
    rw [leads_iff] at leads
    cases parts with
    | nil => rfl
    | cons component rest =>
        rw [Fat32.descend, show Fat32.formatted.rootCluster = 2 from rfl, readDir_formatted] at leads
        cases leads
  subst root
  cases leads_iff.mp leads
  rw [show Fat32.formatted.rootCluster = 2 from rfl, readDir_formatted] at listed
  cases listed
  exact List.Pairwise.nil

/-- `/SYSTEM` with the files `a` and `b`. -/
def twoNames : Fat32 :=
  Fat32.installed (Fat.dirEntryBytes ['a'] 5 2 false (Fat32.quietHardware.rtc 0) ++
    Fat.dirEntryBytes ['b'] 0 0 false (Fat32.quietHardware.rtc 0)) [1#8, 2#8]

theorem readDir_twoNames :
    twoNames.readDir 2 = .ok [⟨"SYSTEM".toList, true, 0, 3, (2, 0)⟩] ∧
    twoNames.readDir 3 = .ok [⟨['a'], false, 2, 5, (3, 32)⟩, ⟨['b'], false, 0, 0, (3, 96)⟩] := by
  decide +kernel

theorem leads_twoNames {parts : List (List Char)} {cluster : Nat}
    (leads : Leads twoNames parts cluster) :
    (parts = [] ∧ cluster = 2) ∨ (parts.length = 1 ∧ cluster = 3) := by
  obtain ⟨inRoot, inSystem⟩ := readDir_twoNames
  have root : twoNames.rootCluster = 2 := rfl
  rw [leads_iff, root] at leads
  cases parts with
  | nil =>
      cases leads
      exact Or.inl ⟨rfl, rfl⟩
  | cons component rest =>
      rw [Fat32.descend, inRoot, Except.ok_bind, List.find?_cons, List.find?_nil] at leads
      cases named : nameMatches "SYSTEM".toList component with
      | false =>
          rw [named] at leads
          cases leads
      | true =>
          rw [named] at leads
          cases rest with
          | nil =>
              cases leads
              exact Or.inr ⟨rfl, rfl⟩
          | cons =>
              -- Neither `a` nor `b` is a directory.
              change Fat32.descend twoNames (_ :: _) 3 = .ok cluster at leads
              rw [Fat32.descend, inSystem] at leads
              cases leads

theorem uniqueNames_twoNames : UniqueNames twoNames := by
  obtain ⟨inRoot, inSystem⟩ := readDir_twoNames
  intro parts cluster entries leads listed
  rcases leads_twoNames leads with ⟨-, rfl⟩ | ⟨-, rfl⟩
  · rw [inRoot] at listed
    cases listed
    exact List.pairwise_singleton _ _
  · rw [inSystem] at listed
    cases listed
    exact List.pairwise_pair.mpr (by decide)

theorem lookups_agree_iff_system :
    UniqueNames twoNames ∧ Agree twoNames "/system".toList := by
  have split : components "/system".toList = ["system".toList] := by decide
  refine ⟨uniqueNames_twoNames, (lookups_agree_iff uniqueNames_twoNames).mpr ?_⟩
  intro cluster leads
  rw [split] at leads
  rcases leads_twoNames leads with ⟨never, -⟩ | ⟨-, rfl⟩
  · cases never
  · rw [readDir_twoNames.2]
    exact iff_of_true (Or.inr ⟨"system".toList, by rw [split]; rfl, by decide⟩) rfl

/-- The root by another spelling: it is listed, and it is no directory. -/
theorem double_slash_disagrees : UniqueNames Fat32.formatted ∧
    Fat32.formatted.listDir ['/', '/'] = .ok [] ∧
    Fat32.formatted.isDir ['/', '/'] = .error (.error .invalidName) ∧
    ¬ Agree Fat32.formatted ['/', '/'] := by
  have lists : Fat32.formatted.listDir ['/', '/'] = .ok [] := readDir_formatted
  have refuses : Fat32.formatted.isDir ['/', '/'] = .error (.error .invalidName) := rfl
  refine ⟨uniqueNames_formatted, lists, refuses, fun agree => ?_⟩
  have answered := agree.lists.mpr (by rw [lists]; rfl)
  rw [refuses] at answered
  cases answered

end MachaOS.Vfs
