/-
Open files (`src/vfs.rs`): a private copy of the contents with a cursor, written
back when it changed.  Two system calls read through a seek (`src/linux_abi.rs`).

`none` is a panic of the kernel.
-/

import MachaOS.Fat.Walks
import MachaOS.Lib.Runs

namespace MachaOS.Vfs

open List Option
open Fat (FatError Fat32)

inductive VfsError where
  | noDisk
  | notFound
  | notDir
  | isDir
  | alreadyExists
  | notEmpty
  | invalidName
  | outOfSpace
  | corrupt
  | io
deriving DecidableEq

/-- `From<FatError>` -/
def VfsError.ofFat : FatError → VfsError
  | .noDisk => .noDisk
  | .notFound => .notFound
  | .notDir => .notDir
  | .alreadyExists => .alreadyExists
  | .notEmpty => .notEmpty
  | .invalidName => .invalidName
  | .outOfSpace => .outOfSpace
  | .corrupt => .corrupt
  | .invalidVolume => .io
  | .io _ => .io

inductive Stop where
  | error (error : VfsError)
  | panic
deriving DecidableEq

def Stop.ofFat : Fat.Stop → Stop
  | .error failure => .error (.ofFat failure)
  | .panic => .panic

/-- An offset from the start is a `u64`, the others are `i64`s. -/
inductive SeekFrom where
  | start (p : BitVec 64)
  | current (p : BitVec 64)
  | fromEnd (p : BitVec 64)

structure OpenFlags where
  wronly : Bool
  rdwr : Bool
  creat : Bool
  trunc : Bool
  append : Bool
deriving DecidableEq

structure FileHandle where
  path : List Char
  data : List (BitVec 8)
  cursor : Nat
  dirty : Bool
  writable : Bool
  isDir : Bool
deriving DecidableEq

/-- The largest `i64`, and the largest size of a vector. -/
def i64Max : Nat := 2 ^ 63 - 1

def asI64 (n : Nat) : Int :=
  (BitVec.ofNat 64 n).toInt

/-- The exact result of `i64` arithmetic, as the machine keeps it. -/
def i64 (overflowChecks : Bool) (exact : Int) : Option Int :=
  if -2 ^ 63 ≤ exact ∧ exact < 2 ^ 63 then some exact
  else if overflowChecks then none
  else some (BitVec.ofInt 64 exact).toInt

namespace FileHandle

def initialData (vol : Fat32) (path : List Char) (flags : OpenFlags) :
    Except Fat.Stop (List (BitVec 8)) :=
  match vol.readFile path with
  | .ok bytes => .ok (if flags.trunc then [] else bytes)
  | .error stop =>
      if stop = .error .notFound ∧ flags.creat = true then .ok [] else .error stop

def openFile (vol : Fat32) (path : List Char) (flags : OpenFlags) : Except Stop FileHandle :=
  match vol.isDir path with
  | .error .panic => .error .panic
  | .ok true => .ok { path, data := [], cursor := 0, dirty := false, writable := false, isDir := true }
  | _ =>
      match initialData vol path flags with
      | .error stop => .error (.ofFat stop)
      | .ok data =>
          .ok
            { path
              data
              cursor := if flags.append then data.length else 0
              dirty := false
              writable := flags.wronly || flags.rdwr
              isDir := false }

def read (handle : FileHandle) (len : Nat) : Option (List (BitVec 8) × FileHandle) :=
  if handle.isDir then some ([], handle)
  else
    let avail := handle.data.length - handle.cursor
    let n := min avail len
    -- `self.data[self.cursor..self.cursor + n]`
    if handle.cursor + n ≤ handle.data.length then
      some ((handle.data.drop handle.cursor).take n, { handle with cursor := handle.cursor + n })
    else none

def write (handle : FileHandle) (buf : List (BitVec 8)) :
    Option (Except VfsError Nat × FileHandle) :=
  if handle.isDir || !handle.writable then some (.error .isDir, handle)
  else
    let stop := handle.cursor + buf.length
    if stop ≤ i64Max then
      let data := handle.data ++ List.replicate (stop - handle.data.length) 0#8
      some (.ok buf.length, { handle with
        data := data.take handle.cursor ++ buf ++ data.drop stop
        cursor := stop
        dirty := true })
    else none

def seek (overflowChecks : Bool) (handle : FileHandle) (pos : SeekFrom) :
    Option (Nat × FileHandle) :=
  let base :=
    match pos with
    | .start p => some p.toInt
    | .current p => i64 overflowChecks (asI64 handle.cursor + p.toInt)
    | .fromEnd p => i64 overflowChecks (asI64 handle.data.length + p.toInt)
  base.map (fun base =>
    let cursor := (max base 0).toNat
    (cursor, { handle with cursor }))

/-- `sys_pread64` on the handle of its descriptor. -/
def pread64 (overflowChecks : Bool) (handle : FileHandle) (count : Nat) (offset : BitVec 64) :
    Option (List (BitVec 8) × FileHandle) := do
  let saved ← handle.seek overflowChecks (.current 0#64)
  let sought ← saved.2.seek overflowChecks (.start offset)
  let result ← sought.2.read count
  let restored ← result.2.seek overflowChecks (.start (BitVec.ofNat 64 saved.1))
  pure (result.1, restored.2)

/-- The bytes `sys_mmap` takes from a file. -/
def mmapRead (overflowChecks : Bool) (handle : FileHandle) (len : Nat) (offset : BitVec 64) :
    Option (List (BitVec 8) × FileHandle) := do
  let sought ← handle.seek overflowChecks (.start offset)
  sought.2.read len

def flush (handle : FileHandle) : Fallible Fat32 Stop FileHandle := fun vol =>
  if handle.dirty then
    match Fat32.writeFile handle.path handle.data vol with
    | (.ok (), vol) => (.ok { handle with dirty := false }, vol)
    | (.error stop, vol) => (.error (.ofFat stop), vol)
  else (.ok handle, vol)

end FileHandle

structure ByteFile where
  contents : List (BitVec 8)
  cursor : Nat
  writable : Bool

inductive FileOp where
  | read (len : Nat)
  | write (buf : List (BitVec 8))
  | seek (pos : SeekFrom)
  | pread64 (count : Nat) (offset : BitVec 64)
  | mmapRead (len : Nat) (offset : BitVec 64)

inductive Answer where
  | bytes (bytes : List (BitVec 8))
  | written (result : Except VfsError Nat)
  | position (cursor : Nat)

namespace ByteFile

/-- The bytes from `at'` on, `len` of them or as many as there are. -/
def slice (file : ByteFile) (at' len : Nat) : List (BitVec 8) :=
  (file.contents.drop at').take len

def target (file : ByteFile) : SeekFrom → Nat
  | .start p => p.toNat
  | .current p => (file.cursor + p.toInt).toNat
  | .fromEnd p => (file.contents.length + p.toInt).toNat

/-- The contents with `buf` at the cursor, after zeros where there was nothing. -/
def overwritten (file : ByteFile) (buf : List (BitVec 8)) : List (BitVec 8) :=
  file.contents.take file.cursor ++ List.replicate (file.cursor - file.contents.length) 0#8 ++
    buf ++ file.contents.drop (file.cursor + buf.length)

def perform (file : ByteFile) : FileOp → Answer × ByteFile
  | .read len =>
      let bytes := file.slice file.cursor len
      (.bytes bytes, { file with cursor := file.cursor + bytes.length })
  | .write buf =>
      if file.writable then
        (.written (.ok buf.length),
          { file with contents := file.overwritten buf, cursor := file.cursor + buf.length })
      else (.written (.error .isDir), file)
  | .seek pos => (.position (file.target pos), { file with cursor := file.target pos })
  | .pread64 count offset => (.bytes (file.slice offset.toNat count), file)
  | .mmapRead len offset =>
      let bytes := file.slice offset.toNat len
      (.bytes bytes, { file with cursor := offset.toNat + bytes.length })

def performAll (file : ByteFile) : List FileOp → List Answer × ByteFile
  | [] => ([], file)
  | op :: rest =>
      let (answer, after) := file.perform op
      let (answers, final) := performAll after rest
      (answer :: answers, final)

/-- Reading starts inside the file, writing stays within memory, and a seek goes no further
than an `i64`. -/
def Allows (file : ByteFile) : FileOp → Prop
  | .read _ => file.cursor ≤ file.contents.length
  | .write buf => file.cursor + buf.length ≤ i64Max
  | .seek pos => file.target pos ≤ i64Max
  | .pread64 _ offset => offset.toNat ≤ file.contents.length
  | .mmapRead _ offset => offset.toNat ≤ file.contents.length

def AllowsAll (file : ByteFile) (ops : List FileOp) : Prop :=
  Runs.Meets (fun file op => some (ByteFile.perform file op).2) Allows file ops

def Fits (file : ByteFile) : Prop :=
  file.contents.length ≤ i64Max ∧ file.cursor ≤ i64Max

end ByteFile

namespace FileHandle

def file (handle : FileHandle) : ByteFile where
  contents := handle.data
  cursor := handle.cursor
  writable := handle.writable

def perform (overflowChecks : Bool) (handle : FileHandle) : FileOp → Option (Answer × FileHandle)
  | .read len => (handle.read len).map (fun (bytes, after) => (.bytes bytes, after))
  | .write buf => (handle.write buf).map (fun (result, after) => (.written result, after))
  | .seek pos => (handle.seek overflowChecks pos).map (fun (at', after) => (.position at', after))
  | .pread64 count offset =>
      (handle.pread64 overflowChecks count offset).map (fun (bytes, after) => (.bytes bytes, after))
  | .mmapRead len offset =>
      (handle.mmapRead overflowChecks len offset).map (fun (bytes, after) => (.bytes bytes, after))

def performAll (overflowChecks : Bool) (handle : FileHandle) :
    List FileOp → Option (List Answer × FileHandle)
  | [] => some ([], handle)
  | op :: rest => do
      let (answer, after) ← handle.perform overflowChecks op
      let (answers, final) ← performAll overflowChecks after rest
      pure (answer :: answers, final)

theorem asI64_of_le {n : Nat} (fits : n ≤ i64Max) : asI64 n = n := by
  have small : n < 2 ^ 63 := by
    unfold i64Max at fits
    omega
  unfold asI64
  rw [BitVec.toInt_eq_toNat_of_lt (by rw [BitVec.toNat_ofNat]; omega), BitVec.toNat_ofNat,
    Nat.mod_eq_of_lt (by omega)]

theorem toNat_ofNat_of_le {n : Nat} (fits : n ≤ i64Max) : (BitVec.ofNat 64 n).toNat = n := by
  unfold i64Max at fits
  rw [BitVec.toNat_ofNat, Nat.mod_eq_of_lt (by omega)]

theorem max_toNat (n : Int) : (max n 0).toNat = n.toNat := by
  omega

theorem toInt_of_le {p : BitVec 64} (fits : p.toNat ≤ i64Max) : p.toInt = p.toNat := by
  unfold i64Max at fits
  exact BitVec.toInt_eq_toNat_of_lt (by omega)

theorem i64_add (overflowChecks : Bool) {base : Nat} {p : BitVec 64} (baseFits : base ≤ i64Max)
    (fits : (base + p.toInt).toNat ≤ i64Max) :
    i64 overflowChecks (asI64 base + p.toInt) = some (base + p.toInt) := by
  have least := BitVec.le_toInt p
  unfold i64Max at fits
  rw [asI64_of_le baseFits, i64, if_pos]
  omega

variable {handle : FileHandle}

theorem seek_spec (overflowChecks : Bool) {pos : SeekFrom} (fits : handle.file.Fits)
    (allowed : handle.file.target pos ≤ i64Max) :
    handle.seek overflowChecks pos =
      some (handle.file.target pos, { handle with cursor := handle.file.target pos }) := by
  obtain ⟨lengthFits, cursorFits⟩ := fits
  cases pos with
  | start p =>
      simp only [seek, map_some, ByteFile.target, toInt_of_le allowed]
      rw [max_eq_left (Int.natCast_nonneg _), Int.toNat_natCast]
  | current p =>
      have sum : i64 overflowChecks (asI64 handle.cursor + p.toInt) = some (handle.cursor + p.toInt) :=
        i64_add overflowChecks cursorFits allowed
      simp only [seek, sum, map_some, ByteFile.target, max_toNat]
      rfl
  | fromEnd p =>
      have sum : i64 overflowChecks (asI64 handle.data.length + p.toInt) =
          some (handle.data.length + p.toInt) := i64_add overflowChecks lengthFits allowed
      simp only [seek, sum, map_some, ByteFile.target, max_toNat]
      rfl

theorem read_spec {handle : FileHandle} (len : Nat) (regular : handle.isDir = false)
    (inside : handle.cursor ≤ handle.data.length) :
    handle.read len = some (handle.file.slice handle.cursor len,
      { handle with cursor := handle.cursor + (handle.file.slice handle.cursor len).length }) := by
  have short : (handle.data.drop handle.cursor).take (min (handle.data.length - handle.cursor) len) =
      (handle.data.drop handle.cursor).take len := by
    rw [← length_drop, ← take_take, take_take, Nat.min_comm, ← take_take, take_length]
  have length : ((handle.data.drop handle.cursor).take len).length =
      min (handle.data.length - handle.cursor) len := by
    rw [length_take, length_drop, Nat.min_comm]
  unfold read
  rw [if_neg (by simp [regular]), if_pos (by omega)]
  simp only [ByteFile.slice, file, length, short]

theorem read_eq_none_iff (handle : FileHandle) (len : Nat) :
    handle.read len = none ↔ handle.isDir = false ∧ handle.data.length < handle.cursor := by
  unfold read
  cases directory : handle.isDir with
  | true => simp
  | false =>
      rw [if_neg (by simp)]
      by_cases inside : handle.cursor ≤ handle.data.length
      · rw [if_pos (by omega)]
        simp only [reduceCtorEq, true_and, false_iff]
        omega
      · rw [if_neg (by omega)]
        simp only [true_and, true_iff]
        omega

theorem write_spec {buf : List (BitVec 8)} (regular : handle.isDir = false)
    (writable : handle.writable = true) (within : handle.cursor + buf.length ≤ i64Max) :
    handle.write buf = some (.ok buf.length, { handle with
      data := handle.file.overwritten buf
      cursor := handle.cursor + buf.length
      dirty := true }) := by
  have before : (handle.data ++ List.replicate (handle.cursor + buf.length - handle.data.length)
      0#8).take handle.cursor =
      handle.data.take handle.cursor ++
        List.replicate (handle.cursor - handle.data.length) 0#8 := by
    rw [take_append, take_replicate]
    congr 2
    omega
  have after : (handle.data ++ List.replicate (handle.cursor + buf.length - handle.data.length)
      0#8).drop (handle.cursor + buf.length) = handle.data.drop (handle.cursor + buf.length) := by
    rw [drop_append, drop_replicate, Nat.sub_self, replicate_zero, append_nil]
  unfold write
  rw [if_neg (by simp [regular, writable])]
  simp only [if_pos within, ByteFile.overwritten, file, before, after]

theorem mmapRead_spec (overflowChecks : Bool) (len : Nat) {offset : BitVec 64}
    (regular : handle.isDir = false) (fits : handle.file.Fits)
    (inside : offset.toNat ≤ handle.data.length) :
    handle.mmapRead overflowChecks len offset = some (handle.file.slice offset.toNat len,
      { handle with cursor := offset.toNat + (handle.file.slice offset.toNat len).length }) := by
  have reached : handle.file.target (.start offset) ≤ i64Max := inside.trans fits.1
  unfold mmapRead
  rw [seek_spec overflowChecks fits reached]
  exact @read_spec { handle with cursor := offset.toNat } len regular inside

theorem pread64_spec (overflowChecks : Bool) (count : Nat) {offset : BitVec 64}
    (regular : handle.isDir = false) (fits : handle.file.Fits)
    (inside : offset.toNat ≤ handle.data.length) :
    handle.pread64 overflowChecks count offset =
      some (handle.file.slice offset.toNat count, handle) := by
  have here : handle.file.target (.current 0#64) = handle.cursor := by
    simp [ByteFile.target, file]
  have saving : handle.seek overflowChecks (.current 0#64) = some (handle.cursor, handle) := by
    rw [seek_spec overflowChecks fits (by rw [here]; exact fits.2), here]
  have back : (BitVec.ofNat 64 handle.cursor).toNat = handle.cursor := toNat_ofNat_of_le fits.2
  have length : (handle.file.slice offset.toNat count).length ≤
      handle.data.length - offset.toNat := by
    simp only [ByteFile.slice, file, length_take, length_drop]
    omega
  have restoring : FileHandle.seek overflowChecks { handle with
      cursor := offset.toNat + (handle.file.slice offset.toNat count).length }
      (.start (BitVec.ofNat 64 handle.cursor)) = some (handle.cursor, handle) := by
    have bound : handle.data.length ≤ i64Max := fits.1
    have movedFits : offset.toNat + (handle.file.slice offset.toNat count).length ≤ i64Max := by
      omega
    have landing (moved : FileHandle) (movedFits : moved.file.Fits) :
        moved.seek overflowChecks (.start (BitVec.ofNat 64 handle.cursor)) =
          some (handle.cursor, { moved with cursor := handle.cursor }) := by
      have reached : moved.file.target (.start (BitVec.ofNat 64 handle.cursor)) = handle.cursor := by
        rw [ByteFile.target, back]
      rw [seek_spec overflowChecks movedFits (by rw [reached]; exact fits.2), reached]
    exact landing _ ⟨bound, movedFits⟩
  have start : handle.file.target (.start offset) = offset.toNat := by
    rw [ByteFile.target]
  have seeking : handle.seek overflowChecks (.start offset) =
      some (offset.toNat, { handle with cursor := offset.toNat }) := by
    rw [seek_spec overflowChecks fits (by rw [start]; exact inside.trans fits.1), start]
  have reading : FileHandle.read { handle with cursor := offset.toNat } count =
      some (handle.file.slice offset.toNat count, { handle with
        cursor := offset.toNat + (handle.file.slice offset.toNat count).length }) :=
    @read_spec { handle with cursor := offset.toNat } count regular inside
  unfold pread64
  rw [saving, bind_eq_bind, bind_some, seeking, bind_eq_bind,
    bind_some, reading, bind_some, restoring]
  rfl

theorem perform_spec (overflowChecks : Bool) {op : FileOp} (regular : handle.isDir = false)
    (fits : handle.file.Fits) (allowed : handle.file.Allows op) :
    ∃ after, handle.perform overflowChecks op = some ((handle.file.perform op).1, after) ∧
      after.file = (handle.file.perform op).2 ∧ after.isDir = false ∧ after.file.Fits := by
  obtain ⟨lengthFits, cursorFits⟩ := fits
  have shortSlice (at' len : Nat) (inside : at' ≤ handle.data.length) :
      at' + (handle.file.slice at' len).length ≤ i64Max := by
    have bound : handle.data.length ≤ i64Max := lengthFits
    simp only [ByteFile.slice, file, length_take, length_drop]
    omega
  cases op with
  | read len =>
      refine ⟨{ handle with
        cursor := handle.cursor + (handle.file.slice handle.cursor len).length }, ?_, rfl, regular,
        lengthFits, shortSlice _ len allowed⟩
      rw [perform, read_spec len regular allowed]
      rfl
  | write buf =>
      cases writable : handle.writable with
      | false =>
          have refused : handle.write buf = some (.error .isDir, handle) := by
            unfold write
            rw [if_pos (by simp [writable])]
          have unchanged : handle.file.perform (.write buf) = (.written (.error .isDir), handle.file) := by
            simp [ByteFile.perform, file, writable]
          rw [perform, refused, unchanged]
          exact ⟨handle, rfl, rfl, regular, lengthFits, cursorFits⟩
      | true =>
          have changed : handle.file.perform (.write buf) = (.written (.ok buf.length),
              { handle.file with
                contents := handle.file.overwritten buf
                cursor := handle.cursor + buf.length }) := by
            simp [ByteFile.perform, file, writable]
          rw [perform, write_spec regular writable allowed, changed]
          refine ⟨_, rfl, rfl, regular, ?_, allowed⟩
          have longest : (handle.file.overwritten buf).length ≤
              max handle.data.length (handle.cursor + buf.length) := by
            simp only [ByteFile.overwritten, file, length_append, length_take,
              length_replicate, length_drop]
            omega
          exact longest.trans (max_le lengthFits allowed)
  | seek pos =>
      refine ⟨{ handle with cursor := handle.file.target pos }, ?_, rfl, regular, lengthFits, allowed⟩
      rw [perform, seek_spec overflowChecks ⟨lengthFits, cursorFits⟩ allowed]
      rfl
  | pread64 count offset =>
      refine ⟨handle, ?_, rfl, regular, lengthFits, cursorFits⟩
      rw [perform, pread64_spec overflowChecks count regular ⟨lengthFits, cursorFits⟩ allowed]
      rfl
  | mmapRead len offset =>
      refine ⟨{ handle with
        cursor := offset.toNat + (handle.file.slice offset.toNat len).length }, ?_, rfl, regular,
        lengthFits, shortSlice _ len allowed⟩
      rw [perform, mmapRead_spec overflowChecks len regular ⟨lengthFits, cursorFits⟩ allowed]
      rfl

theorem performAll_spec (overflowChecks : Bool) {ops : List FileOp} (regular : handle.isDir = false)
    (fits : handle.file.Fits) (allowed : handle.file.AllowsAll ops) :
    ∃ after, handle.performAll overflowChecks ops = some ((handle.file.performAll ops).1, after) ∧
      after.file = (handle.file.performAll ops).2 := by
  induction ops generalizing handle with
  | nil => exact ⟨handle, rfl, rfl⟩
  | cons op rest ih =>
      obtain ⟨after, performed, sameFile, stillRegular, stillFits⟩ :=
        perform_spec overflowChecks regular fits allowed.1
      have later : after.file.AllowsAll rest := by
        rw [sameFile]
        exact allowed.2 _ rfl
      obtain ⟨final, performedRest, sameFinal⟩ := ih stillRegular stillFits later
      refine ⟨final, ?_, ?_⟩
      · rw [sameFile] at performedRest
        simp only [performAll, performed, performedRest, bind_eq_bind, bind_some]
        rfl
      · rw [sameFinal, sameFile]
        rfl

theorem initialData_length {vol : Fat32} {path : List Char} {flags : OpenFlags}
    {data : List (BitVec 8)} (found : initialData vol path flags = .ok data) :
    data.length < 2 ^ 32 := by
  unfold initialData at found
  split at found
  · rename_i bytes read
    cases found
    split
    · exact Nat.two_pow_pos 32
    · exact Fat32.readFile_length_lt read
  · split at found
    · cases found
      exact Nat.two_pow_pos 32
    · cases found

theorem opened_fits {vol : Fat32} {path : List Char} {flags : OpenFlags}
    (opened : openFile vol path flags = .ok handle) (regular : handle.isDir = false) :
    handle.file.Fits := by
  unfold openFile at opened
  split at opened
  · cases opened
  · cases opened
    cases regular
  · split at opened
    · cases opened
    · rename_i data found
      cases opened
      have short := initialData_length found
      have bound : data.length ≤ i64Max := by
        unfold i64Max
        omega
      refine ⟨bound, ?_⟩
      dsimp only [file]
      split
      · exact bound
      · exact Nat.zero_le _

def newFile : FileHandle where
  path := ['a']
  data := []
  cursor := 0
  dirty := false
  writable := true
  isDir := false

def readWriteCreate : OpenFlags where
  wronly := false
  rdwr := true
  creat := true
  trunc := false
  append := false

theorem newFile_opened : openFile Fat32.formatted ['a'] readWriteCreate = .ok newFile := by
  decide +kernel

end FileHandle
end MachaOS.Vfs
