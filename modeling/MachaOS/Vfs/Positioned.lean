/-
Reads at an offset and the cursor of the descriptor: `pread64` saves and restores it,
`mmap` of a file leaves it behind the bytes it copied.
-/

import MachaOS.Vfs.Descriptors

namespace MachaOS.Vfs

open Fallible Option FileHandle

namespace FileHandle

def Reached (overflowChecks : Bool) (handle : FileHandle) : Prop :=
  ∃ vol path flags opened ops answers, openFile vol path flags = .ok opened ∧
    opened.performAll overflowChecks ops = some (answers, handle)

variable {handle : FileHandle}

theorem fits_openFile {vol : Fat.Fat32} {path : List Char} {flags : OpenFlags}
    (opened : openFile vol path flags = .ok handle) : handle.file.Fits := by
  cases directory : handle.isDir with
  | false => exact opened_fits opened directory
  | true =>
      unfold openFile at opened
      split at opened
      · cases opened
      · cases opened
        exact ⟨Nat.zero_le _, Nat.zero_le _⟩
      · split at opened
        · cases opened
        · cases opened
          cases directory

variable {overflowChecks : Bool}

theorem i64_lt {exact value : Int} (fits : i64 overflowChecks exact = some value) :
    value < 2 ^ 63 := by
  unfold i64 at fits
  split at fits
  · rename_i within
    cases fits
    exact within.2
  · split at fits
    · cases fits
    · cases fits
      exact BitVec.toInt_lt

variable {after : FileHandle}

theorem seek_cases {pos : SeekFrom} {reached : Nat}
    (ran : handle.seek overflowChecks pos = some (reached, after)) :
    reached ≤ i64Max ∧ after = { handle with cursor := reached } := by
  unfold seek at ran
  obtain ⟨base, based, same⟩ := map_eq_some_iff.mp ran
  cases same
  have bounded : base < 2 ^ 63 := by
    cases pos with
    | start p =>
        cases based
        exact BitVec.toInt_lt
    | current p => exact i64_lt based
    | fromEnd p => exact i64_lt based
  refine ⟨?_, rfl⟩
  unfold i64Max
  omega

variable {bytes : List (BitVec 8)}

theorem read_cases {len : Nat} (ran : handle.read len = some (bytes, after)) :
    after = { handle with cursor := handle.cursor + bytes.length } ∧
      (bytes = [] ∨ handle.cursor + bytes.length ≤ handle.data.length) := by
  unfold read at ran
  split at ran
  · cases ran
    exact ⟨rfl, Or.inl rfl⟩
  · dsimp only at ran
    split at ran
    · rename_i within
      cases ran
      have length : ((handle.data.drop handle.cursor).take
          (min (handle.data.length - handle.cursor) len)).length =
          min (handle.data.length - handle.cursor) len := by
        rw [List.length_take, List.length_drop, Nat.min_comm, ← Nat.min_assoc, Nat.min_self]
      rw [length]
      exact ⟨rfl, Or.inr within⟩
    · cases ran

theorem fits_read {len : Nat} (fits : handle.file.Fits)
    (ran : handle.read len = some (bytes, after)) : after.file.Fits := by
  obtain ⟨rfl, short⟩ := read_cases ran
  obtain ⟨lengthFits, cursorFits⟩ := fits
  refine ⟨lengthFits, ?_⟩
  rcases short with rfl | short
  · exact cursorFits
  · exact short.trans lengthFits

theorem fits_seek {pos : SeekFrom} {reached : Nat} (fits : handle.file.Fits)
    (ran : handle.seek overflowChecks pos = some (reached, after)) : after.file.Fits := by
  obtain ⟨within, rfl⟩ := seek_cases ran
  exact ⟨fits.1, within⟩

theorem fits_write {buf : List (BitVec 8)} {result : Except VfsError Nat} (fits : handle.file.Fits)
    (ran : handle.write buf = some (result, after)) : after.file.Fits := by
  unfold write at ran
  split at ran
  · cases ran
    exact fits
  · dsimp only at ran
    split at ran
    · rename_i within
      cases ran
      obtain ⟨lengthFits, -⟩ := fits
      change handle.data.length ≤ i64Max at lengthFits
      refine ⟨?_, within⟩
      simp only [file, List.length_append, List.length_take, List.length_drop,
        List.length_replicate]
      omega
    · cases ran

theorem fits_perform {op : FileOp} {answer : Answer} (fits : handle.file.Fits)
    (ran : handle.perform overflowChecks op = some (answer, after)) : after.file.Fits := by
  cases op with
  | read len =>
      obtain ⟨⟨bytes, final⟩, done, same⟩ := map_eq_some_iff.mp ran
      cases same
      exact fits_read fits done
  | write buf =>
      obtain ⟨⟨result, final⟩, done, same⟩ := map_eq_some_iff.mp ran
      cases same
      exact fits_write fits done
  | seek pos =>
      obtain ⟨⟨reached, final⟩, done, same⟩ := map_eq_some_iff.mp ran
      cases same
      exact fits_seek fits done
  | pread64 count offset =>
      obtain ⟨⟨bytes, final⟩, done, same⟩ := map_eq_some_iff.mp ran
      cases same
      obtain ⟨saved, saving, done⟩ := bind_eq_some_iff.mp done
      obtain ⟨sought, seeking, done⟩ := bind_eq_some_iff.mp done
      obtain ⟨result, reading, done⟩ := bind_eq_some_iff.mp done
      obtain ⟨restored, restoring, done⟩ := bind_eq_some_iff.mp done
      cases done
      exact fits_seek (fits_read (fits_seek (fits_seek fits saving) seeking) reading) restoring
  | mmapRead len offset =>
      obtain ⟨⟨bytes, final⟩, done, same⟩ := map_eq_some_iff.mp ran
      cases same
      unfold mmapRead at done
      obtain ⟨sought, seeking, reading⟩ := bind_eq_some_iff.mp done
      exact fits_read (fits_seek fits seeking) reading

theorem Reached.fits (reached : handle.Reached overflowChecks) : handle.file.Fits := by
  obtain ⟨vol, path, flags, opened, ops, answers, opening, ran⟩ := reached
  have start := fits_openFile opening
  clear opening
  induction ops generalizing opened answers with
  | nil =>
      cases ran
      exact start
  | cons op rest ih =>
      obtain ⟨⟨answer, middle⟩, performed, ran⟩ := bind_eq_some_iff.mp ran
      obtain ⟨⟨later, final⟩, ranRest, same⟩ := bind_eq_some_iff.mp ran
      cases same
      exact ih middle later ranRest (fits_perform start performed)

/-- Where a seek to an offset leads: the offset is taken for an `i64`. -/
def startOf (offset : BitVec 64) : Nat :=
  offset.toInt.toNat

theorem seek_start (overflowChecks : Bool) (handle : FileHandle) (offset : BitVec 64) :
    handle.seek overflowChecks (.start offset) =
      some (startOf offset, { handle with cursor := startOf offset }) := by
  simp only [seek, map_some, max_toNat, startOf]

theorem startOf_ofNat {n : Nat} (fits : n ≤ i64Max) : startOf (BitVec.ofNat 64 n) = n := by
  have same := toNat_ofNat_of_le fits
  unfold startOf
  rw [toInt_of_le (by rw [same]; exact fits), same, Int.toNat_natCast]

theorem read_elsewhere {start len : Nat}
    (ran : FileHandle.read { handle with cursor := start } len = some (bytes, after)) :
    { after with cursor := handle.cursor } = handle := by
  obtain ⟨rfl, -⟩ := read_cases ran
  rfl

theorem pread64_eq (overflowChecks : Bool) (count : Nat) (offset : BitVec 64)
    (fits : handle.file.Fits) :
    handle.pread64 overflowChecks count offset =
      (FileHandle.read { handle with cursor := startOf offset } count).map
        (fun result => (result.1, handle)) := by
  have here : handle.file.target (.current 0#64) = handle.cursor := by
    simp [ByteFile.target, file]
  have saving : handle.seek overflowChecks (.current 0#64) = some (handle.cursor, handle) := by
    rw [seek_spec overflowChecks fits (by rw [here]; exact fits.2), here]
  unfold pread64
  rw [saving, bind_eq_bind, bind_some, seek_start, bind_eq_bind,
    bind_some]
  cases reading : FileHandle.read { handle with cursor := startOf offset } count with
  | none => rfl
  | some result =>
      obtain ⟨bytes, after⟩ := result
      have back : startOf (BitVec.ofNat 64 handle.cursor) = handle.cursor :=
        startOf_ofNat fits.2
      rw [bind_some, seek_start, back, bind_some, read_elsewhere reading]
      rfl

theorem mmapRead_eq (overflowChecks : Bool) (handle : FileHandle) (len : Nat)
    (offset : BitVec 64) :
    handle.mmapRead overflowChecks len offset =
      FileHandle.read { handle with cursor := startOf offset } len := by
  unfold mmapRead
  rw [seek_start]
  rfl

/-- Where a read of `len` bytes from `start` on ends. -/
def stopOf (handle : FileHandle) (start len : Nat) : Nat :=
  if handle.isDir then start else min (start + len) handle.data.length

def Readable (handle : FileHandle) (start : Nat) : Prop :=
  handle.isDir = true ∨ start ≤ handle.data.length

theorem read_isSome_iff (handle : FileHandle) (start len : Nat) :
    (FileHandle.read { handle with cursor := start } len).isSome = true ↔
      handle.Readable start := by
  rw [isSome_iff_ne_none, ne_eq, read_eq_none_iff]
  unfold Readable
  cases handle.isDir <;> simp

theorem cursor_of_read {start len : Nat}
    (ran : FileHandle.read { handle with cursor := start } len = some (bytes, after)) :
    after.cursor = handle.stopOf start len := by
  unfold FileHandle.read at ran
  unfold stopOf
  dsimp only at ran
  split at ran
  · rename_i directory
    cases ran
    rw [if_pos directory]
  · rename_i regular
    split at ran
    · rename_i within
      cases ran
      rw [if_neg regular]
      dsimp only at within ⊢
      omega
    · cases ran

end FileHandle

def KeepsCursor {α : Type} (fd : Nat) (before : Caller) (outcome : Except Crash α × Caller) :
    Prop :=
  outcome.1 ≠ .error .panic ∧ (outcome.2.files fd).cursor = (before.files fd).cursor ∧
    ∀ len, (outcome.2.files fd).read len = (before.files fd).read len

/-- `pread64` gets to the handle of the descriptor. -/
def readsAt (caller : Caller) (fd buf count : Nat) : Prop :=
  3 ≤ fd ∧ (caller.resolve buf count).isSome = true ∧ caller.fd fd = some .file

theorem KeepsCursor.refl {α : Type} {outcome : Except Crash α} {fd : Nat} {caller : Caller}
    (goesOn : outcome ≠ .error .panic) : KeepsCursor fd caller (outcome, caller) :=
  ⟨goesOn, rfl, fun _ => rfl⟩

@[simp] theorem files_setFile (caller : Caller) (fd : Nat) (handle : FileHandle) :
    (caller.setFile fd handle).files fd = handle := by
  simp [Caller.setFile]

@[simp] theorem files_writeMemory (caller : Caller) (phys : Nat) (bytes : List (BitVec 8)) :
    (caller.writeMemory phys bytes).files = caller.files := rfl

theorem onSystem_files {α : Type} (routine : Sys α) (caller : Caller) :
    (onSystem routine caller).1 ≠ .error .panic ∧
      (onSystem routine caller).2.files = caller.files := by
  unfold onSystem
  rcases routine caller.system with ⟨_ | _, _⟩
  · exact ⟨fun same => (nomatch same), rfl⟩
  · exact ⟨fun same => (nomatch same), rfl⟩

section

variable {overflowChecks : Bool} {caller : Caller} {fd : Nat}

theorem sysPread64_early {buf count : Nat} (offset : BitVec 64)
    (early : ¬ readsAt caller fd buf count) :
    ∃ result, sysPread64 overflowChecks fd buf count offset caller = (.ok result, caller) := by
  unfold sysPread64
  by_cases low : fd < 3
  · exact ⟨_, if_pos low⟩
  · rw [if_neg low]
    cases resolved : caller.resolve buf count with
    | none => exact ⟨_, rfl⟩
    | some phys =>
        dsimp only
        split
        · rename_i file
          exact absurd ⟨Nat.le_of_not_lt low, by rw [resolved]; rfl, file⟩ early
        · exact ⟨_, rfl⟩

theorem sysPread64_file {buf count : Nat} (offset : BitVec 64)
    (fits : (caller.files fd).file.Fits) (reads : readsAt caller fd buf count) :
    KeepsCursor fd caller (sysPread64 overflowChecks fd buf count offset caller) ↔
      (caller.files fd).Readable (FileHandle.startOf offset) := by
  obtain ⟨notStdio, resolved, file⟩ := reads
  obtain ⟨phys, resolved⟩ := isSome_iff_exists.mp resolved
  rw [← read_isSome_iff _ _ count]
  unfold sysPread64
  rw [if_neg (by omega), resolved]
  dsimp only
  rw [file]
  dsimp only
  rw [pread64_eq overflowChecks count offset fits]
  cases reading : FileHandle.read
      { caller.files fd with cursor := FileHandle.startOf offset } count with
  | none =>
      constructor
      · intro keeps
        exact absurd rfl keeps.1
      · intro never
        cases never
  | some result =>
      constructor
      · intro _
        rfl
      · intro _
        refine ⟨fun same => (nomatch same), ?_, fun len => ?_⟩
        · simp only [map_some, files_writeMemory, files_setFile]
        · simp only [map_some, files_writeMemory, files_setFile]

theorem sysMmap_file {allocates : Nat → Bool} {len flags : Nat} (addr prot : Nat)
    (offset : BitVec 64) (reads : readsFile caller len flags fd = true) :
    KeepsCursor fd caller
        (sysMmap overflowChecks allocates addr len prot flags fd offset caller) ↔
      allocates len = true ∧ (caller.files fd).Readable (FileHandle.startOf offset) ∧
        (caller.files fd).stopOf (FileHandle.startOf offset) len = (caller.files fd).cursor := by
  rw [← read_isSome_iff _ _ len]
  unfold sysMmap
  rw [if_pos reads]
  cases room : allocates len with
  | false =>
      rw [if_neg (by decide)]
      constructor
      · intro keeps
        exact absurd rfl keeps.1
      · rintro ⟨never, -⟩
        cases never
  | true =>
      rw [if_pos rfl, mmapRead_eq]
      cases reading : FileHandle.read
          { caller.files fd with cursor := FileHandle.startOf offset } len with
      | none =>
          constructor
          · intro keeps
            exact absurd rfl keeps.1
          · rintro ⟨-, never, -⟩
            cases never
      | some result =>
          obtain ⟨bytes, after⟩ := result
          have stops := cursor_of_read reading
          have rest := read_elsewhere reading
          obtain ⟨goesOn, files⟩ := onSystem_files
            (System.sysMmap addr len prot flags fd bytes) (caller.setFile fd after)
          dsimp only
          rw [← stops]
          unfold KeepsCursor
          rw [files, files_setFile]
          constructor
          · rintro ⟨-, same, -⟩
            exact ⟨rfl, rfl, same⟩
          · rintro ⟨-, -, same⟩
            have whole : after = caller.files fd := by
              rw [← rest, ← same]
            exact ⟨goesOn, same, fun len => by rw [whole]⟩

/-- A `pread64` leaves the descriptor as it was exactly when it starts within the file, and
an `mmap` exactly when its copy also ends at the cursor; a call that does not get to a file
always does. -/
theorem positioned_reads_iff (allocates : Nat → Bool) (offset : BitVec 64)
    (reached : (caller.files fd).Reached overflowChecks) :
    (∀ buf count, KeepsCursor fd caller (sysPread64 overflowChecks fd buf count offset caller) ↔
      (readsAt caller fd buf count → (caller.files fd).Readable (FileHandle.startOf offset))) ∧
    ∀ addr len prot flags, KeepsCursor fd caller
        (sysMmap overflowChecks allocates addr len prot flags fd offset caller) ↔
      (readsFile caller len flags fd = true →
        allocates len = true ∧ (caller.files fd).Readable (FileHandle.startOf offset) ∧
          (caller.files fd).stopOf (FileHandle.startOf offset) len =
            (caller.files fd).cursor) := by
  constructor
  · intro buf count
    by_cases reads : readsAt caller fd buf count
    · rw [sysPread64_file offset reached.fits reads]
      exact ⟨fun readable _ => readable, fun readable => readable reads⟩
    · obtain ⟨result, ran⟩ := @sysPread64_early overflowChecks _ _ _ _ offset reads
      rw [ran]
      exact ⟨fun _ reads' => absurd reads' reads,
        fun _ => KeepsCursor.refl (fun same => (nomatch same))⟩
  · intro addr len prot flags
    by_cases reads : readsFile caller len flags fd = true
    · rw [sysMmap_file addr prot offset reads]
      exact ⟨fun keeps _ => keeps, fun keeps => keeps reads⟩
    · unfold sysMmap
      rw [if_neg reads]
      obtain ⟨goesOn, files⟩ := onSystem_files (System.sysMmap addr len prot flags fd []) caller
      refine ⟨fun _ reads' => absurd reads' reads, fun _ => ⟨goesOn, ?_, fun _ => ?_⟩⟩
      · rw [files]
      · rw [files]

end

def oneFile : Caller where
  system :=
    { layout := { kernelStart := 0, kernelEnd := 0, kernelPml4 := 0, heapStart := 0, heapEnd := 0 }
      machine := { mem := fun _ => 0#8, pmm := Pmm.init [] 0 0, cr3 := 0 }
      shm := []
      sockets := { endpoints := [], listeners := [] }
      compositorFds := []
      tasks :=
        [{ cr3 := 0, process := some
            { ((System.newProcess 0 0 .linux).allocFd .file).1 with
              mappings := [{ vaddr := 0x1000, phys := 0x1000, len := 4096, shmId := none }] } }]
      current := 0 }
  files := fun _ =>
    { FileHandle.newFile with data := [1#8, 2#8, 3#8], cursor := 0, dirty := true }
  printed := []

theorem oneFile_reached : (oneFile.files 3).Reached false :=
  ⟨_, _, _, FileHandle.newFile, [.write [1#8, 2#8, 3#8], .seek (.start 0#64)], _,
    newFile_opened, rfl⟩

theorem positioned_reads_iff_peek : (oneFile.files 3).Reached false ∧
    readsAt oneFile 3 0x1000 2 ∧
    KeepsCursor 3 oneFile (sysPread64 false 3 0x1000 2 1#64 oneFile) := by
  refine ⟨oneFile_reached, ⟨by decide, by decide, by decide⟩, ?_⟩
  exact ((positioned_reads_iff (fun _ => true) 1#64 oneFile_reached).1 0x1000 2).mpr
    (fun _ => Or.inr (by decide))

/-- A private mapping of the first two bytes moves the cursor behind them. -/
theorem mmap_moves_cursor : (oneFile.files 3).Reached false ∧
    ¬ KeepsCursor 3 oneFile (sysMmap false (fun _ => true) 0 2 1 2 3 0#64 oneFile) := by
  refine ⟨oneFile_reached, fun keeps => ?_⟩
  have reads : readsFile oneFile 2 2 3 = true := by decide
  have same := ((sysMmap_file 0 1 0#64 reads).mp keeps).2.2
  revert same
  decide

end MachaOS.Vfs
