/-
Long-name slots that outlive their entry (`delete_entry_at` of `src/fat.rs`).

Deleting frees the long-name slots of an entry in its own sector only; those in the
sector before stay.  `read_dir` drops them at the vacant slot that follows, until entries
are written there: then they wait before the parts of the new name.  They do not get into
it unless it fills its last part.
-/

import MachaOS.Fat.FileData
import MachaOS.Fat.Placing

namespace MachaOS.Fat

open List
open Chains (IsChain)

def opened (row : Row) : Row :=
  row.map (fun item => (item.1, if item.2 = .stop then .vacant else item.2))

def rowEntries (row : Row) : List DirEntry :=
  listed (opened row) []

section

variable {row early late : Row} {parts : List (List (BitVec 16))}

theorem opened_append : opened (early ++ late) = opened early ++ opened late := by
  unfold opened
  rw [map_append]

theorem opened_places (row : Row) : (opened row).map Prod.fst = row.map Prod.fst := by
  unfold opened
  rw [map_map]
  rfl

theorem not_stops_opened (row : Row) : ¬ Stops (opened row) := by
  rintro ⟨item, mem, ends⟩
  obtain ⟨⟨place, record⟩, -, rfl⟩ := mem_map.mp mem
  dsimp only at ends
  split at ends
  · cases ends
  · rename_i goes
    exact goes ends

theorem opened_of_not_stops (goes : ¬ Stops row) : opened row = row := by
  unfold opened
  conv_rhs => rw [← map_id row]
  apply map_congr_left
  rintro ⟨place, record⟩ mem
  have open' : record ≠ .stop := fun ends => goes ⟨_, mem, ends⟩
  dsimp only
  rw [if_neg open']
  rfl

theorem pending_opened : pending (opened row) parts = pending row parts := by
  induction row generalizing parts with
  | nil => rfl
  | cons item rest ih =>
      obtain ⟨place, record⟩ := item
      cases record with
      | stop => exact ih
      | vacant => exact ih
      | part units => exact ih
      | entry short isDir size firstCluster => exact ih

theorem listed_subset {entry : DirEntry} (mem : entry ∈ listed row parts) :
    entry ∈ listed (opened row) parts := by
  induction row generalizing parts with
  | nil => cases mem
  | cons item rest ih =>
      obtain ⟨place, record⟩ := item
      cases record with
      | stop => cases mem
      | vacant => exact ih mem
      | part units => exact ih mem
      | entry short isDir size firstCluster =>
          rw [listed] at mem
          show entry ∈ listed ((place, .entry short isDir size firstCluster) :: opened rest) parts
          rw [listed]
          split at mem
          · rename_i shown
            rw [if_pos shown]
            rcases mem_cons.mp mem with here | later
            · rw [here]
              exact mem_cons_self
            · exact mem_cons_of_mem _ (ih later)
          · rename_i hidden
            rw [if_neg hidden]
            exact ih mem

theorem rowEntries_append :
    rowEntries (early ++ late) = rowEntries early ++ listed (opened late) (pending early []) := by
  unfold rowEntries
  rw [opened_append, listed_append (not_stops_opened early), pending_opened]

theorem rowEntries_places {entry : DirEntry} (mem : entry ∈ listed (opened row) parts) :
    entry.location ∈ row.map Prod.fst := by
  have places := @listed_places (opened row) parts
  rw [opened_places] at places
  exact places.subset (mem_map_of_mem mem)

theorem listed_after_vacant {run : Row} (vacant : Vacant run) (some' : run ≠ []) :
    listed (opened (run ++ late)) parts = rowEntries late := by
  have free : Vacant (opened run) := by
    intro item mem
    obtain ⟨⟨place, record⟩, inRun, rfl⟩ := mem_map.mp mem
    dsimp only
    split
    · exact Or.inl rfl
    · exact vacant _ inRun
  have nonempty : opened run ≠ [] := by
    intro none'
    exact some' (map_eq_nil_iff.mp none')
  unfold rowEntries
  rw [opened_append, listed_append (not_stops_opened run), free.listed_eq,
    free.pending_eq nonempty, nil_append]

end

theorem rowEntries_deleted {early long freed late : Row} {place : Nat × Nat} {short : List Char}
    {isDir : Bool} {size firstCluster : Nat} (unlisted : Unlisted long) (vacated : Unlisted freed)
    {entry : DirEntry} (mem : entry ∈ rowEntries (early ++ freed ++ (place, .vacant) :: late)) :
    entry ∈ rowEntries (early ++ long ++ (place, .entry short isDir size firstCluster) :: late) := by
  rw [append_assoc, rowEntries_append] at mem ⊢
  rw [opened_append, opened_of_not_stops vacated.not_stops,
    listed_append vacated.not_stops, vacated.listed_eq, nil_append] at mem
  rw [opened_append, opened_of_not_stops unlisted.not_stops,
    listed_append unlisted.not_stops, unlisted.listed_eq, nil_append]
  rcases mem_append.mp mem with before | after
  · exact mem_append_left _ before
  · apply mem_append_right
    show entry ∈ listed ((place, .entry short isDir size firstCluster) :: opened late) _
    rw [listed]
    split
    · exact mem_cons_of_mem _ after
    · exact after

/-- The slots for the entries of a name are vacant; and no long-name part waits before them,
unless the name leaves its last part open. -/
structure CleanPlace (row : Row) (place : Option (Nat × Nat)) (name : List Char) : Prop where
  vacant : ∀ at', place = some at' → Vacant (row.taken at' (slotsFor name))
  closed : name.length % 13 ≠ 0 ∨ pending (row.before place) [] = []

theorem Row.split_at (row : Row) (place : Nat × Nat) (slots : Nat) :
    row = row.before (some place) ++ (row.taken place slots ++ row.behind place slots) := by
  unfold Row.before Row.taken Row.behind
  rw [take_append_drop, takeWhile_append_dropWhile]

theorem Row.behind_eq_nil {row : Row} {place : Nat × Nat} {name : List Char}
    (none : row.taken place (slotsFor name) = []) : row.behind place (slotsFor name) = [] := by
  unfold Row.taken at none
  unfold Row.behind
  rw [(take_eq_nil_iff.mp none).resolve_left (Nat.succ_ne_zero _), drop_nil]

theorem rowEntries_around {row late : Row} {place : Option (Nat × Nat)} {name : List Char}
    (clean : CleanPlace row place name) (tail : Fat32.Tail row late (slotsFor name) place) :
    rowEntries row = rowEntries (row.before place) ++ rowEntries late := by
  cases place with
  | none =>
      have ends : Vacant (opened late) := by
        intro item mem
        obtain ⟨⟨at', record⟩, inLate, rfl⟩ := mem_map.mp mem
        have isStop : record = .stop := tail _ inLate
        rw [isStop]
        exact Or.inl rfl
      have none' : rowEntries late = [] := ends.listed_eq
      rw [none', append_nil]
      rfl
  | some at' =>
      have isBehind : late = row.behind at' (slotsFor name) := tail
      rw [isBehind]
      conv_lhs => rw [Row.split_at row at' (slotsFor name), rowEntries_append]
      congr 1
      by_cases none : row.taken at' (slotsFor name) = []
      · rw [none, Row.behind_eq_nil none]
        rfl
      · exact listed_after_vacant (clean.vacant at' rfl) none

/-- The slot of the short entry, behind the long-name slots. -/
def shortSlot (place : Nat × Nat) (name : List Char) : Nat × Nat :=
  (place.1, place.2 + 32 * ((name.length + 12) / 13))

theorem lfnEntries_length (name : List Char) :
    (lfnEntries name).length = (name.length + 12) / 13 := by
  rw [lfnEntries, length_map, length_reverse, length_range, lfnChars_length]

section

variable {name : List Char} {firstCluster size : Nat} {isDir : Bool} {now : DateTime}
  {early late : Row} {place : Nat × Nat}

theorem not_stops_rowFrom (short : name.length ≤ maxName) (clusterFits : firstCluster < 2 ^ 32)
    (sizeFits : size < 2 ^ 32) :
    ¬ Stops (rowFrom place.1 place.2 (dirEntryBytes name firstCluster size isDir now)) := by
  obtain ⟨unlisted, -⟩ := @rowFrom_parts place.1 place.2 (lfnEntries name) _
    (lfnEntries_records short) []
  rw [dirEntryBytes, rowFrom_append, rowFrom, rowFrom,
    recordOf_sfnEntry name isDir now clusterFits sizeFits, stops_append, not_or]
  refine ⟨unlisted.not_stops, ?_⟩
  rw [stops_cons, not_or]
  refine ⟨?_, not_stops_nil⟩
  intro stop
  cases stop

theorem rowEntries_written (short : name.length ≤ maxName) (some' : name ≠ [])
    (clusterFits : firstCluster < 2 ^ 32) (sizeFits : size < 2 ^ 32)
    (closed : name.length % 13 ≠ 0 ∨ pending early [] = []) {entry : DirEntry}
    (mem : entry ∈ rowEntries (early ++
      rowFrom place.1 place.2 (dirEntryBytes name firstCluster size isDir now) ++ late)) :
    (entry.name = storedName name ∧ entry.location = shortSlot place name) ∨
      entry ∈ rowEntries early ∨ entry ∈ rowEntries late := by
  have goes := @not_stops_rowFrom name firstCluster size isDir now place short clusterFits sizeFits
  have shown := @listed_dirEntryBytes name short some' firstCluster size isDir now clusterFits
    sizeFits (opened early) (opened late) (not_stops_opened early) place.1 place.2 []
  unfold rowEntries at mem
  rw [opened_append, opened_append, opened_of_not_stops goes, shown, pending_opened,
    readBack_eq closed, lfnEntries_length] at mem
  rcases mem_append.mp mem with front | after
  · rcases mem_append.mp front with before | new
    · exact Or.inr (Or.inl before)
    · split at new
      · rw [mem_singleton.mp new]
        exact Or.inl ⟨rfl, rfl⟩
      · cases new
  · exact Or.inr (Or.inr after)

end

/-- Every entry, listed or hidden, has the name that `made` says. -/
def Named (made : Nat × Nat → List Char) (row : Row) : Prop :=
  ∀ entry, entry ∈ rowEntries row → entry.name = made entry.location

theorem Named.deleted {made : Nat × Nat → List Char} {early long freed late : Row}
    {place : Nat × Nat} {short : List Char} {isDir : Bool} {size firstCluster : Nat}
    (named : Named made (early ++ long ++ (place, .entry short isDir size firstCluster) :: late))
    (unlisted : Unlisted long) (vacated : Unlisted freed) :
    Named made (early ++ freed ++ (place, .vacant) :: late) :=
  fun entry mem => named entry (rowEntries_deleted unlisted vacated mem)

theorem Named.written {made : Nat × Nat → List Char} {row late : Row}
    {place : Option (Nat × Nat)} {at' : Nat × Nat} {name : List Char} {firstCluster size : Nat}
    {isDir : Bool} {now : DateTime} (named : Named made row) (clean : CleanPlace row place name)
    (tail : Fat32.Tail row late (slotsFor name) place) (short : name.length ≤ maxName)
    (some' : name ≠ []) (ascii : ∀ c, c ∈ name → IsAscii c) (clusterFits : firstCluster < 2 ^ 32)
    (sizeFits : size < 2 ^ 32)
    (places : ((row.before place ++
      rowFrom at'.1 at'.2 (dirEntryBytes name firstCluster size isDir now) ++ late).map
        Prod.fst).Nodup) :
    Named (Function.update made (shortSlot at' name) name) (row.before place ++
      rowFrom at'.1 at'.2 (dirEntryBytes name firstCluster size isDir now) ++ late) := by
  intro entry mem
  rw [map_append, map_append] at places
  obtain ⟨front, -, behind⟩ := nodup_append.mp places
  obtain ⟨-, -, ahead⟩ := nodup_append.mp front
  have inside : shortSlot at' name ∈
      (rowFrom at'.1 at'.2 (dirEntryBytes name firstCluster size isDir now)).map Prod.fst := by
    rw [rowFrom_places, dirEntryBytes_length]
    exact mem_map.mpr ⟨(name.length + 12) / 13, mem_range.mpr (Nat.lt_succ_self _), rfl⟩
  have old : ∀ other, other ∈ rowEntries (row.before place) ∨ other ∈ rowEntries late →
      other.name = made other.location := by
    intro other held
    apply named other
    rw [rowEntries_around clean tail]
    exact mem_append.mpr held
  rcases rowEntries_written short some' clusterFits sizeFits clean.closed mem with
    ⟨isName, isPlace⟩ | before | after
  · rw [isName, isPlace, Function.update_self, storedName_ascii ascii]
  · have apart : entry.location ≠ shortSlot at' name :=
      ahead _ (rowEntries_places before) _ inside
    rw [Function.update_of_ne apart]
    exact old entry (Or.inl before)
  · have apart : entry.location ≠ shortSlot at' name := by
      intro same
      exact behind _ (mem_append_right _ inside) _ (rowEntries_places after) same.symm
    rw [Function.update_of_ne apart]
    exact old entry (Or.inr after)

namespace Fat32

/-- A directory whose entries have the names that `made` says. -/
structure Directory (vol : Fat32) (parent : Nat) (rest : List Nat)
    (made : Nat × Nat → List Char) : Prop where
  geometry : Geometry vol
  wellFormed : WellFormed vol
  isHead : Head vol parent
  chain : IsChain vol.cell (parent :: rest)
  named : Named made (vol.rowOf (parent :: rest))

variable {vol vol' : Fat32} {parent : Nat} {rest : List Nat}
  {made : Nat × Nat → List Char}

section

variable (directory : Directory vol parent rest made)
include directory

theorem Directory.listed (short : rest.length ≤ chainGuard) :
    ∃ entries, vol.readDir parent = .ok entries ∧
      ∀ entry, entry ∈ entries → entry.name = made entry.location :=
  ⟨_, readDir_row directory.geometry directory.wellFormed directory.chain short,
    fun entry mem => directory.named entry (listed_subset mem)⟩

theorem Directory.inFat :
    ∀ cluster, cluster ∈ parent :: rest → 2 ≤ cluster ∧ cluster < vol.fat.length :=
  fun _ mem => inside_of_taken (directory.chain.taken mem)

theorem Directory.deleted {entries : List DirEntry} {entry : DirEntry}
    (short : rest.length ≤ chainGuard) (found : vol.readDir parent = .ok entries)
    (mem : entry ∈ entries)
    (ran : deleteEntryAt entry.location.1 entry.location.2 vol = (.ok (), vol')) :
    Directory vol' parent rest made := by
  have listing := readDir_row directory.geometry directory.wellFormed directory.chain short
  rw [found] at listing
  cases listing
  obtain ⟨cluster, s, bytes, inside, within, ran', early, long, freed, late, short, isDir, size,
    firstCluster, before, after, -, unlisted, vacated, -, -⟩ :=
    deleteEntryAt_row directory.geometry directory.chain.nodup directory.inFat mem
  rw [ran] at ran'
  obtain rfl : vol' = vol.withSector cluster s bytes := (Prod.mk.inj ran').2
  have at' : InCluster vol cluster s := IsChain.inCluster directory.chain inside within
  have wrote := wrote_withSector at' bytes
  have named := directory.named
  rw [before] at named
  constructor
  · exact directory.geometry.of_sameShape wrote.shape
  · exact wrote.wellFormed directory.wellFormed
  · exact wrote.isHead directory.isHead
  · rw [wrote.cells]
    exact directory.chain
  · rw [after]
    exact named.deleted unlisted vacated

theorem Directory.created {name : List Char} {firstCluster size : Nat} {isDir : Bool}
    (short : rest.length ≤ chainGuard) (named : name ≠ [] ∧ name.length ≤ maxName)
    (ascii : ∀ c, c ∈ name → IsAscii c) (clusterFits : firstCluster < 2 ^ 32)
    (sizeFits : size < 2 ^ 32)
    (clean : CleanPlace (vol.rowOf (parent :: rest)) (vol.placeFor parent (slotsFor name)) name)
    (ran : writeDirEntries parent name firstCluster size isDir vol = (.ok (), vol')) :
    ∃ place rest', vol.entryPlace parent (slotsFor name) = some place ∧
      Directory vol' parent rest' (Function.update made (shortSlot place name) name) := by
  obtain ⟨place, changed, found, rest', now, late, chain, -, -, after, tail⟩ :=
    (writeDirEntries_placed directory.geometry directory.wellFormed directory.isHead
      directory.chain short named.2 firstCluster size isDir).of_ok ran
  refine ⟨place, rest', found, ?_⟩
  have places := @rowOf_places_nodup vol' (parent :: rest') chain.nodup
  constructor
  · exact directory.geometry.of_sameShape changed.shape
  · exact changed.wellFormed
  · exact changed.isHead
  · exact chain
  · rw [after] at places ⊢
    exact directory.named.written clean tail named.2 named.1 ascii clusterFits sizeFits places

end

/-- Deletions and creations in a directory, and whatever happens to the rest of the volume.
`made` has the name that the entry at each place was created with.  Every new name is ASCII, and
its entries go to clean slots. -/
inductive DirectoryRun (parent : Nat) (first : Fat32) (initially : Nat × Nat → List Char) :
    (Nat × Nat → List Char) → Fat32 → Prop where
  | start : DirectoryRun parent first initially initially first
  | delete {made : Nat × Nat → List Char} {vol vol' : Fat32} {rest : List Nat}
      {entries : List DirEntry} {entry : DirEntry}
      (before : DirectoryRun parent first initially made vol)
      (chain : IsChain vol.cell (parent :: rest)) (short : rest.length ≤ chainGuard)
      (found : vol.readDir parent = .ok entries) (mem : entry ∈ entries)
      (ran : deleteEntryAt entry.location.1 entry.location.2 vol = (.ok (), vol')) :
      DirectoryRun parent first initially made vol'
  | create {made : Nat × Nat → List Char} {vol vol' : Fat32} {rest : List Nat}
      {name : List Char} {firstCluster size : Nat} {isDir : Bool} {place : Nat × Nat}
      (before : DirectoryRun parent first initially made vol)
      (chain : IsChain vol.cell (parent :: rest)) (short : rest.length ≤ chainGuard)
      (named : name ≠ [] ∧ name.length ≤ maxName) (ascii : ∀ c, c ∈ name → IsAscii c)
      (clusterFits : firstCluster < 2 ^ 32) (sizeFits : size < 2 ^ 32)
      (clean : CleanPlace (vol.rowOf (parent :: rest))
        (vol.placeFor parent (slotsFor name)) name)
      (found : vol.entryPlace parent (slotsFor name) = some place)
      (ran : writeDirEntries parent name firstCluster size isDir vol = (.ok (), vol')) :
      DirectoryRun parent first initially (Function.update made (shortSlot place name) name) vol'
  | elsewhere {made : Nat × Nat → List Char} {vol vol' : Fat32}
      (before : DirectoryRun parent first initially made vol)
      (kept : Kept vol vol' parent) (wellFormed : WellFormed vol') :
      DirectoryRun parent first initially made vol'

theorem Directory.elsewhere (directory : Directory vol parent rest made)
    (kept : Kept vol vol' parent) (wellFormed : WellFormed vol') :
    Directory vol' parent rest made := by
  constructor
  · exact directory.geometry.of_sameShape kept.shape
  · exact wellFormed
  · exact kept.isHead directory.wellFormed directory.isHead
  · exact kept.chain rest directory.chain
  · rw [rowOf_congr kept.shape.sectorsPerCluster (kept.sectors rest directory.chain)]
    exact directory.named

theorem DirectoryRun.directory {first : Fat32} {initially : Nat × Nat → List Char}
    (consistent : Directory first parent rest initially)
    (run : DirectoryRun parent first initially made vol) :
    ∃ rest', Directory vol parent rest' made := by
  induction run with
  | start => exact ⟨rest, consistent⟩
  | delete before chain short found mem ran ih =>
      obtain ⟨rest', directory⟩ := ih
      obtain rfl := directory.chain.unique chain
      exact ⟨_, directory.deleted short found mem ran⟩
  | create before chain short named ascii clusterFits sizeFits clean found ran ih =>
      obtain ⟨rest', directory⟩ := ih
      obtain rfl := directory.chain.unique chain
      obtain ⟨place, more, found', created⟩ :=
        directory.created short named ascii clusterFits sizeFits clean ran
      rw [found] at found'
      cases found'
      exact ⟨more, created⟩
  | elsewhere before kept wellFormed ih =>
      obtain ⟨rest', directory⟩ := ih
      exact ⟨rest', directory.elsewhere kept wellFormed⟩

/-- Whatever was deleted and created in a directory: each entry that `read_dir` lists has the
name it was created with. -/
theorem names_stay {first : Fat32} {initially : Nat × Nat → List Char}
    (consistent : Directory first parent rest initially)
    (run : DirectoryRun parent first initially made vol) {rest' : List Nat}
    (chain : IsChain vol.cell (parent :: rest')) (short : rest'.length ≤ chainGuard) :
    ∃ entries, vol.readDir parent = .ok entries ∧
      ∀ entry, entry ∈ entries → entry.name = made entry.location := by
  obtain ⟨more, directory⟩ := run.directory consistent
  obtain rfl := directory.chain.unique chain
  exact directory.listed short

theorem directory_formatted : Directory formatted 2 [] (fun _ => []) := by
  constructor
  · exact geometry_formatted
  · exact formatted_wellFormed
  · constructor
    · rw [formatted_cell, if_pos rfl]
      nofun
    · intro cluster linked
      rw [formatted_cell] at linked
      split at linked <;> cases linked
  · show formatted.cell 2 = .last
    rw [formatted_cell, if_pos rfl]
  · intro entry mem
    have none' : rowEntries (formatted.rowOf [2]) = [] := by decide +kernel
    rw [none'] at mem
    cases mem

def full : List Char := List.replicate 13 'n'

/-- The root directory with a file created, and the file removed. -/
def oneMade : Fat32 := (writeDirEntries 2 ['a'] 0 0 false formatted).2

def oneGone : Fat32 := (deleteEntryAt 2 32 oneMade).2

theorem clean_first {vol : Fat32} {name : List Char}
    (place : vol.placeFor 2 (slotsFor name) = some (2, 0))
    (vacant : Vacant ((vol.rowOf [2]).taken (2, 0) (slotsFor name)))
    (closed : name.length % 13 ≠ 0 ∨ pending ((vol.rowOf [2]).before (some (2, 0))) [] = []) :
    CleanPlace (vol.rowOf [2]) (vol.placeFor 2 (slotsFor name)) name ∧
      vol.entryPlace 2 (slotsFor name) = some (2, 0) := by
  refine ⟨⟨fun at' same => ?_, ?_⟩, by rw [entryPlace, place]⟩
  · rw [place] at same
    cases same
    exact vacant
  · rw [place]
    exact closed

/-- `a` is created and removed, and a name that fills its last slot takes the place. -/
theorem names_stay_again : ∃ entries,
    (writeDirEntries 2 full 0 0 false oneGone).2.readDir 2 = .ok entries ∧
      ∀ entry, entry ∈ entries →
        entry.name = Function.update (Function.update (fun _ => []) (2, 32) ['a']) (2, 32) full
          entry.location := by
  have made : (writeDirEntries 2 ['a'] 0 0 false formatted).1 = .ok () := by decide +kernel
  have gone : (deleteEntryAt 2 32 oneMade).1 = .ok () := by decide +kernel
  have again : (writeDirEntries 2 full 0 0 false oneGone).1 = .ok () := by decide +kernel
  have listed : oneMade.readDir 2 = .ok [⟨['a'], false, 0, 0, (2, 32)⟩] := by decide +kernel
  obtain ⟨clean, found⟩ := @clean_first formatted ['a'] (by decide +kernel)
    (by unfold Vacant; decide +kernel) (Or.inl (by decide))
  obtain ⟨clean', found'⟩ := @clean_first oneGone full (by decide +kernel)
    (by unfold Vacant; decide +kernel) (Or.inr (by decide +kernel))
  have chained : oneMade.cell 2 = .last ∧ oneGone.cell 2 = .last ∧
      (writeDirEntries 2 full 0 0 false oneGone).2.cell 2 = .last := by decide +kernel
  have ascii : ∀ c, c ∈ ['a'] → IsAscii c := by
    intro c mem
    rw [List.mem_singleton.mp mem]
    exact ⟨by decide, by decide⟩
  have ascii' : ∀ c, c ∈ full → IsAscii c := by
    intro c mem
    rw [(List.mem_replicate.mp mem).2]
    exact ⟨by decide, by decide⟩
  have one : DirectoryRun 2 formatted (fun _ => []) (Function.update (fun _ => []) (2, 32) ['a'])
      oneMade :=
    .create .start directory_formatted.chain (Nat.zero_le _) ⟨List.cons_ne_nil _ _, by decide⟩
      ascii (by decide) (by decide) clean found (Prod.ext made rfl)
  have none : DirectoryRun 2 formatted (fun _ => []) _ oneGone :=
    .delete one (show IsChain oneMade.cell [2] from chained.1) (Nat.zero_le _) listed
      List.mem_cons_self (Prod.ext gone rfl)
  have run : DirectoryRun 2 formatted (fun _ => []) _
      (writeDirEntries 2 full 0 0 false oneGone).2 :=
    .create none (show IsChain oneGone.cell [2] from chained.2.1) (Nat.zero_le _)
      ⟨List.cons_ne_nil _ _, by decide⟩ ascii' (by decide) (by decide) clean' found'
      (Prod.ext again rfl)
  exact names_stay directory_formatted run
    (show IsChain (writeDirEntries 2 full 0 0 false oneGone).2.cell [2] from chained.2.2)
    (Nat.zero_le _)

def letters : List (List Char) :=
  (List.range 14).map (fun i => [Char.ofNat (0x41 + i)])

def crossing : List Char := List.replicate 20 'c'

def crossingBytes : List (BitVec 8) :=
  let now := quietHardware.rtc 0
  (letters.map (fun name => sfnEntry name 0 0 false now) ++
    dirEntryBytes crossing 0 0 false now).flatten

def crossedDevice : AtaDevice := { formattedDevice with
  disk := fun addr =>
    if 1024 ≤ addr ∧ addr < 1568 then crossingBytes.getD (addr - 1024) 0#8
    else if 520 ≤ addr ∧ addr < 528 then
      [3#8, 0#8, 0#8, 0#8, 0xFF#8, 0xFF#8, 0xFF#8, 0x0F#8].getD (addr - 520) 0#8
    else formattedDisk addr }

def crossed : Fat32 := { formatted with
  device := crossedDevice
  fat := [0x0FFFFFF8#32, 0x0FFFFFFF#32, 3#32, 0x0FFFFFFF#32] ++ List.replicate 124 0#32
  freeClusters := 124 }

def rootNames (vol : Fat32) : Option (List (List Char)) :=
  (vol.readDir vol.rootCluster).toOption.map (List.map DirEntry.name)

set_option maxRecDepth 4000 in
/-- The long name is removed, and a file with a name of thirteen characters takes its place: it is
listed with the removed name behind its own. -/
theorem orphans_leak :
    mount false crossedDevice = .ok crossed ∧
      rootNames crossed = some (letters ++ [crossing]) ∧
      (remove crossing crossed).1 = .ok () ∧
      (writeFile full [] (remove crossing crossed).2).1 = .ok () ∧
      rootNames (writeFile full [] (remove crossing crossed).2).2 =
        some (letters ++ [full ++ crossing]) :=
  ⟨rfl, by decide +kernel⟩

end Fat32

end MachaOS.Fat
