/-
What the slots of a directory say, and what a row of them lists.

A slot is an end mark, vacant, a part of a long name, or an entry.  `read_dir` reads a
row of such records up to the first end mark.  The lemmas say what a row lists when it is
put together, when an entry is taken out of it, and when one is written into it.
-/

import MachaOS.Fat.Directory

namespace MachaOS.Fat

open List

inductive Record where
  | stop
  | vacant
  | part (units : List (BitVec 16))
  | entry (short : List Char) (isDir : Bool) (size firstCluster : Nat)
deriving DecidableEq

abbrev Row : Type := List ((Nat × Nat) × Record)

def recordOf (slot : Slot) : Record :=
  if slot 0 = 0x00#8 then .stop
  else if slot 0 = 0xE5#8 then .vacant
  else if slot 0x0B = 0x0F#8 then .part (slotPart slot)
  else
    .entry (sfnName ((List.range 11).map slot)) (slot 0x0B &&& 0x10#8 ≠ 0#8)
      (slot.readU32 0x1C).toNat (slot.readU16 0x14 ++ slot.readU16 0x1A).toNat

/-- The entry of a record, after the long-name parts before it. -/
def entryOf (place : Nat × Nat) (short : List Char) (isDir : Bool) (size firstCluster : Nat)
    (parts : List (List (BitVec 16))) : DirEntry where
  name := if parts.isEmpty then short else assembleLfn parts
  isDir := isDir
  size := size
  firstCluster := firstCluster
  location := place

/-- The entries of a row, after the long-name parts before it. -/
def listed : Row → List (List (BitVec 16)) → List DirEntry
  | [], _ => []
  | (_, .stop) :: _, _ => []
  | (_, .vacant) :: rest, _ => listed rest []
  | (_, .part units) :: rest, parts => listed rest (units :: parts)
  | (place, .entry short isDir size firstCluster) :: rest, parts =>
      let entry := entryOf place short isDir size firstCluster parts
      if isListed entry.name then entry :: listed rest [] else listed rest []

/-- The long-name parts that wait for their entry at the end of a row. -/
def pending : Row → List (List (BitVec 16)) → List (List (BitVec 16))
  | [], parts => parts
  | (_, .part units) :: rest, parts => pending rest (units :: parts)
  | (_, .stop) :: rest, _ | (_, .vacant) :: rest, _ | (_, .entry _ _ _ _) :: rest, _ =>
      pending rest []

def Stops (row : Row) : Prop :=
  ∃ item, item ∈ row ∧ item.2 = .stop

instance (row : Row) : Decidable (Stops row) :=
  inferInstanceAs (Decidable (∃ item, item ∈ row ∧ item.2 = .stop))

/-- How `read_dir` comes out of a row. -/
def readRow (row : Row) (scan : Scan) : Reading :=
  if Stops row then .ended (scan.out ++ listed row scan.lfnParts)
  else .going { lfnParts := pending row scan.lfnParts, out := scan.out ++ listed row scan.lfnParts }

variable {row early late : Row} {item : (Nat × Nat) × Record} {parts : List (List (BitVec 16))}

theorem stops_cons : Stops (item :: row) ↔ item.2 = .stop ∨ Stops row := by
  simp [Stops]

theorem stops_append : Stops (early ++ late) ↔ Stops early ∨ Stops late := by
  simp [Stops, or_and_right, exists_or]

@[simp] theorem not_stops_nil : ¬ Stops [] := by
  simp [Stops]

theorem listed_append (goes : ¬ Stops early) :
    listed (early ++ late) parts = listed early parts ++ listed late (pending early parts) := by
  induction early generalizing parts with
  | nil => rfl
  | cons item rest ih =>
      obtain ⟨place, record⟩ := item
      rw [stops_cons, not_or] at goes
      cases record with
      | stop => exact absurd rfl goes.1
      | vacant => exact ih goes.2
      | part units => exact ih goes.2
      | entry short isDir size firstCluster =>
          simp only [cons_append, listed, pending, ih goes.2]
          split
          · rfl
          · rfl

theorem listed_append_of_stops (stops : Stops early) :
    listed (early ++ late) parts = listed early parts := by
  induction early generalizing parts with
  | nil => exact absurd stops not_stops_nil
  | cons item rest ih =>
      obtain ⟨place, record⟩ := item
      rw [stops_cons] at stops
      cases record with
      | stop => rfl
      | vacant => exact ih (stops.resolve_left (by simp))
      | part units => exact ih (stops.resolve_left (by simp))
      | entry short isDir size firstCluster =>
          simp only [cons_append, listed, ih (stops.resolve_left (by simp))]

theorem pending_append :
    pending (early ++ late) parts = pending late (pending early parts) := by
  induction early generalizing parts with
  | nil => rfl
  | cons item rest ih =>
      obtain ⟨place, record⟩ := item
      cases record <;> exact ih

theorem readRow_append (scan : Scan) :
    readRow (early ++ late) scan =
      match readRow early scan with
      | .ended out => .ended out
      | .going scan => readRow late scan := by
  unfold readRow
  by_cases ends : Stops early
  · rw [if_pos ends, if_pos (stops_append.mpr (Or.inl ends)), listed_append_of_stops ends]
  · rw [if_neg ends, listed_append ends, pending_append]
    by_cases endsLate : Stops late
    · rw [if_pos (stops_append.mpr (Or.inr endsLate))]
      simp only [if_pos endsLate, append_assoc]
    · rw [if_neg (fun both => (stops_append.mp both).elim ends endsLate)]
      simp only [if_neg endsLate, append_assoc]

theorem readRow_entry (place : Nat × Nat) (short : List Char) (isDir : Bool)
    (size firstCluster : Nat) (scan : Scan) :
    readRow [(place, .entry short isDir size firstCluster)] scan =
      .going { lfnParts := [], out :=
        if isListed (entryOf place short isDir size firstCluster scan.lfnParts).name
        then scan.out ++ [entryOf place short isDir size firstCluster scan.lfnParts]
        else scan.out } := by
  rw [readRow, if_neg (by simp [Stops])]
  simp only [listed, pending]
  split
  · rfl
  · rw [append_nil]

theorem readSlot_eq (slot : Slot) (place : Nat × Nat) (scan : Scan) :
    readRow [(place, recordOf slot)] scan =
      match readSlot slot place scan with
      | none => .ended scan.out
      | some scan => .going scan := by
  unfold readSlot recordOf
  by_cases ends : slot 0 = 0x00#8
  · simp [ends, readRow, Stops, listed]
  · by_cases deleted : slot 0 = 0xE5#8
    · simp [deleted, readRow, Stops, listed, pending]
    · by_cases long : slot 0x0B = 0x0F#8
      · simp [ends, deleted, long, readRow, Stops, listed, pending]
      · rw [if_neg ends, if_neg deleted, if_neg long, if_neg ends, if_neg deleted, if_neg long,
          readRow_entry]
        rfl

theorem readSlots_eq (slots : List ((Nat × Nat) × Slot)) (scan : Scan) :
    readSlots slots scan = readRow (slots.map (fun slot => (slot.1, recordOf slot.2))) scan := by
  induction slots generalizing scan with
  | nil =>
      rw [readSlots, map_nil, readRow, if_neg not_stops_nil, listed, append_nil]
      rfl
  | cons slot rest ih =>
      obtain ⟨place, slot⟩ := slot
      have turn := readSlot_eq slot place scan
      show readSlots ((place, slot) :: rest) scan = readRow ([(place, recordOf slot)] ++ _) scan
      rw [readRow_append, turn, readSlots]
      cases readSlot slot place scan with
      | none => rfl
      | some scan => exact ih scan

theorem listed_places :
    ((listed row parts).map DirEntry.location).Sublist (row.map Prod.fst) := by
  induction row generalizing parts with
  | nil => exact List.Sublist.slnil
  | cons item rest ih =>
      obtain ⟨place, record⟩ := item
      cases record with
      | stop => exact nil_sublist _
      | vacant => exact (ih).cons place
      | part units => exact (ih).cons place
      | entry short isDir size firstCluster =>
          rw [listed]
          split
          · exact (ih).cons_cons place
          · exact (ih).cons place

theorem mem_listed {entry : DirEntry} (mem : entry ∈ listed row parts) :
    ∃ early short isDir size firstCluster late,
      row = early ++ (entry.location, .entry short isDir size firstCluster) :: late ∧
        ¬ Stops early ∧
        entry = entryOf entry.location short isDir size firstCluster (pending early parts) ∧
        isListed entry.name = true := by
  induction row generalizing parts with
  | nil => cases mem
  | cons item rest ih =>
      have later {parts' : List (List (BitVec 16))} (found : entry ∈ listed rest parts')
          (goes : item.2 ≠ .stop) (waits : pending [item] parts = parts') :
          ∃ early short isDir size firstCluster late,
            item :: rest = early ++ (entry.location, .entry short isDir size firstCluster) :: late ∧
              ¬ Stops early ∧
              entry = entryOf entry.location short isDir size firstCluster (pending early parts) ∧
              isListed entry.name = true := by
        obtain ⟨early, short, isDir, size, firstCluster, late, split, clear, same, shown⟩ := ih found
        refine ⟨item :: early, short, isDir, size, firstCluster, late, by rw [split]; rfl, ?_, ?_, shown⟩
        · rw [stops_cons, not_or]
          exact ⟨goes, clear⟩
        · rw [← singleton_append, pending_append, waits]
          exact same
      obtain ⟨place, record⟩ := item
      cases record with
      | stop => cases mem
      | vacant => exact later mem (by simp) rfl
      | part units => exact later mem (by simp) rfl
      | entry short isDir size firstCluster =>
          rw [listed] at mem
          split at mem
          · rename_i shown
            rcases mem_cons.mp mem with rfl | after
            · exact ⟨[], short, isDir, size, firstCluster, rest, rfl, not_stops_nil, rfl, shown⟩
            · exact later after (by simp) rfl
          · exact later mem (by simp) rfl

theorem listed_split {place : Nat × Nat} {short : List Char} {isDir : Bool} {size firstCluster : Nat}
    (goes : ¬ Stops early)
    (shown : isListed (entryOf place short isDir size firstCluster (pending early parts)).name = true) :
    listed (early ++ (place, .entry short isDir size firstCluster) :: late) parts =
      listed early parts ++
        entryOf place short isDir size firstCluster (pending early parts) :: listed late [] := by
  rw [listed_append goes, listed]
  simp only [shown, if_true]

def Unlisted (row : Row) : Prop :=
  ∀ item, item ∈ row → item.2 = .vacant ∨ ∃ units, item.2 = .part units

theorem Unlisted.not_stops (unlisted : Unlisted row) : ¬ Stops row := by
  rintro ⟨item, mem, ends⟩
  rcases unlisted item mem with vacant | ⟨units, long⟩
  · rw [vacant] at ends
    cases ends
  · rw [long] at ends
    cases ends

theorem Unlisted.listed_eq (unlisted : Unlisted row) : listed row parts = [] := by
  induction row generalizing parts with
  | nil => rfl
  | cons item rest ih =>
      obtain ⟨place, record⟩ := item
      have restUnlisted : Unlisted rest := fun other mem =>
        unlisted other (mem_cons_of_mem _ mem)
      rcases unlisted _ mem_cons_self with vacant | ⟨units, long⟩
      · obtain rfl : record = .vacant := vacant
        exact ih restUnlisted
      · obtain rfl : record = .part units := long
        exact ih restUnlisted

theorem listed_vacate {before : Row} {place : Nat × Nat}
    (goes : ¬ Stops early) (unlisted : Unlisted before) :
    listed (early ++ before ++ (place, .vacant) :: late) parts =
      listed early parts ++ listed late [] := by
  rw [listed_append (by rw [stops_append, not_or]; exact ⟨goes, unlisted.not_stops⟩),
    listed_append goes, unlisted.listed_eq, append_nil]
  rfl

def Vacant (row : Row) : Prop :=
  ∀ item, item ∈ row → item.2 = .vacant ∨ item.2 = .stop

theorem Vacant.listed_eq (vacant : Vacant row) : listed row parts = [] := by
  induction row generalizing parts with
  | nil => rfl
  | cons item rest ih =>
      obtain ⟨place, record⟩ := item
      rcases vacant _ mem_cons_self with free | ends
      · obtain rfl : record = .vacant := free
        exact ih (fun other mem => vacant other (mem_cons_of_mem _ mem))
      · obtain rfl : record = .stop := ends
        rfl

theorem Vacant.pending_eq (vacant : Vacant row) (some' : row ≠ []) : pending row parts = [] := by
  induction row generalizing parts with
  | nil => exact absurd rfl some'
  | cons item rest ih =>
      obtain ⟨place, record⟩ := item
      have cleared : pending ((place, record) :: rest) parts = pending rest [] := by
        rcases vacant _ mem_cons_self with free | ends
        · obtain rfl : record = .vacant := free
          rfl
        · obtain rfl : record = .stop := ends
          rfl
      rw [cleared]
      cases rest with
      | nil => rfl
      | cons next rest =>
          exact ih (fun other mem => vacant other (mem_cons_of_mem _ mem)) (by simp)

theorem listed_written {names : Row} {place : Nat × Nat} {short : List Char} {isDir : Bool}
    {size firstCluster : Nat} (goes : ¬ Stops early) (long : Unlisted names) :
    let entry := entryOf place short isDir size firstCluster (pending names (pending early parts))
    listed (early ++ (names ++ [(place, .entry short isDir size firstCluster)]) ++ late) parts =
      listed early parts ++ (if isListed entry.name then [entry] else []) ++ listed late [] := by
  dsimp only
  have clear : ¬ Stops (early ++ names) := by
    rw [stops_append, not_or]
    exact ⟨goes, long.not_stops⟩
  rw [append_assoc, append_assoc, ← append_assoc early, singleton_append,
    listed_append clear, listed_append goes, long.listed_eq, append_nil, pending_append, listed,
    append_assoc]
  split
  · rfl
  · rfl

end MachaOS.Fat
