/-
ELF64 executables (`src/elf.rs`): the header and program-header parser.

Addresses and sizes are the 64-bit values of the file, as naturals.  Every read
is bounds-checked against the file; a malformed field gives an error string.
-/

import Mathlib.Data.List.Basic
import MachaOS.Pmm

namespace MachaOS.Elf

abbrev Bytes : Type := List (BitVec 8)

def headerSize : Nat := 64
def programHeaderSize : Nat := 56
def elfClass64 : BitVec 8 := 2#8
def elfData2Lsb : BitVec 8 := 1#8
def etExec : Nat := 2
def etDyn : Nat := 3
def emX8664 : Nat := 0x3E
def ptLoad : Nat := 1
def ptInterp : Nat := 3
def pfX : Nat := 1
def pfW : Nat := 2

structure Segment where
  vaddr : Nat
  fileOffset : Nat
  filesz : Nat
  memsz : Nat
  writable : Bool
  executable : Bool
deriving DecidableEq

structure Program where
  entry : Nat
  segments : List Segment
  isPie : Bool
  phoff : Nat
  phentsize : Nat
  phnum : Nat
  interp : Option String
deriving DecidableEq

def slice (data : Bytes) (off len : Nat) : Option Bytes :=
  if off + len ≤ data.length then some ((data.drop off).take len) else none

/-- `from_le_bytes` -/
def fromLeBytes : Bytes → Nat
  | [] => 0
  | byte :: rest => byte.toNat + 256 * fromLeBytes rest

/-- `read_u16`, `read_u32` and `read_u64`, by the number of bytes. -/
def readLe (data : Bytes) (off len : Nat) : Except String Nat :=
  match slice data off len with
  | some bytes => .ok (fromLeBytes bytes)
  | none => .error "truncated ELF header"

def readU16 (data : Bytes) (off : Nat) : Except String Nat := readLe data off 2
def readU32 (data : Bytes) (off : Nat) : Except String Nat := readLe data off 4
def readU64 (data : Bytes) (off : Nat) : Except String Nat := readLe data off 8

def fromUtf8 (bytes : Bytes) : Option String :=
  String.fromUTF8? ⟨(bytes.map UInt8.ofBitVec).toArray⟩

def trimNul (text : String) : String :=
  String.ofList (text.toList.reverse.dropWhile (· == Char.ofNat 0)).reverse

/-- The path of a PT_INTERP header at `off`. -/
def parseInterp (data : Bytes) (off : Nat) : Except String String := do
  let offset ← readU64 data (off + 8)
  let filesz ← readU64 data (off + 32)
  if offset + filesz ≥ wordLimit then throw "interp range overflow"
  else
    match slice data offset filesz with
    | none => throw "interp data outside file"
    | some bytes =>
        match fromUtf8 bytes with
        | none => throw "invalid interp string"
        | some text => pure (trimNul text)

/-- A PT_LOAD header at `off`; `none` for a zero-length placeholder. -/
def parseLoad (data : Bytes) (off : Nat) : Except String (Option Segment) := do
  let flags ← readU32 data (off + 4)
  let offset ← readU64 data (off + 8)
  let vaddr ← readU64 data (off + 16)
  let filesz ← readU64 data (off + 32)
  let memsz ← readU64 data (off + 40)
  if memsz = 0 then pure none
  else if offset + filesz ≥ wordLimit then throw "segment file range overflow"
  else if offset + filesz > data.length then throw "segment data outside file"
  else if filesz > memsz then throw "segment filesz exceeds memsz"
  else
    pure (some
      { vaddr
        fileOffset := offset
        filesz
        memsz
        writable := flags / pfW % 2 = 1
        executable := flags / pfX % 2 = 1 })

/-- The loop over the program headers from index `index` on. -/
def parseHeaders (data : Bytes) (phoff phentsize : Nat) :
    Nat → Nat → List Segment → Option String → Except String (List Segment × Option String)
  | 0, _, segments, interp => .ok (segments, interp)
  | left + 1, index, segments, interp => do
      let off := phoff + index * phentsize
      let kind ← readU32 data off
      if kind = ptInterp then do
        let path ← parseInterp data off
        parseHeaders data phoff phentsize left (index + 1) segments (some path)
      else if kind ≠ ptLoad then
        parseHeaders data phoff phentsize left (index + 1) segments interp
      else do
        let seg ← parseLoad data off
        parseHeaders data phoff phentsize left (index + 1) (segments ++ seg.toList) interp

/-- `if !condition { return Err(message) }` -/
def require (condition : Prop) [Decidable condition] (message : String) : Except String Unit :=
  if condition then .ok () else .error message

def parse (data : Bytes) : Except String Program := do
  require (headerSize ≤ data.length) "truncated ELF header"
  require (data.take 4 = [0x7F#8, 0x45#8, 0x4C#8, 0x46#8]) "not an ELF file"
  require (data[4]? = some elfClass64) "not a 64-bit ELF"
  require (data[5]? = some elfData2Lsb) "not a little-endian ELF"
  let kind ← readU16 data 16
  require (kind = etExec ∨ kind = etDyn) "not an executable (ET_EXEC/ET_DYN)"
  let machine ← readU16 data 18
  require (machine = emX8664) "not an x86_64 ELF"
  let entry ← readU64 data 24
  let phoff ← readU64 data 32
  let phentsize ← readU16 data 54
  let phnum ← readU16 data 56
  require (phentsize = programHeaderSize) "unexpected program header size"
  require (phoff + phnum * phentsize < wordLimit) "program header table overflow"
  require (phoff + phnum * phentsize ≤ data.length) "program header table outside file"
  let (segments, interp) ← parseHeaders data phoff phentsize phnum 0 [] none
  require (segments ≠ []) "no loadable segments"
  pure { entry, segments, isPie := kind = etDyn, phoff, phentsize, phnum, interp }

theorem fromLeBytes_lt (bytes : Bytes) : fromLeBytes bytes < 256 ^ bytes.length := by
  induction bytes with
  | nil => decide
  | cons byte rest ih =>
      have small := byte.isLt
      simp only [fromLeBytes, List.length_cons, Nat.pow_succ]
      omega

theorem readLe_lt {data : Bytes} {off len value : Nat} (read : readLe data off len = .ok value) :
    value < 256 ^ len := by
  unfold readLe slice at read
  split at read
  · rename_i bytes found
    split at found
    · cases read
      cases found
      refine lt_of_lt_of_le (fromLeBytes_lt _) (Nat.pow_le_pow_right (by decide) ?_)
      simp
    · cases found
  · cases read

def Segment.Loadable (seg : Segment) : Prop :=
  0 < seg.memsz ∧ seg.filesz ≤ seg.memsz ∧ seg.vaddr < wordLimit ∧
    seg.memsz < wordLimit

theorem parseLoad_loadable {data : Bytes} {off : Nat} {seg : Segment}
    (parsed : parseLoad data off = .ok (some seg)) :
    seg.Loadable ∧ seg.fileOffset + seg.filesz ≤ data.length := by
  unfold parseLoad at parsed
  simp only [bind, Except.bind] at parsed
  split at parsed
  · cases parsed
  split at parsed
  · cases parsed
  split at parsed
  · cases parsed
  rename_i vaddr vaddrRead
  split at parsed
  · cases parsed
  split at parsed
  · cases parsed
  rename_i memsz memszRead
  have vaddrBound : vaddr < 256 ^ 8 := readLe_lt vaddrRead
  have memszBound : memsz < 256 ^ 8 := readLe_lt memszRead
  split at parsed
  · cases parsed
  split at parsed
  · cases parsed
  split at parsed
  · cases parsed
  split at parsed
  · cases parsed
  cases parsed
  unfold Segment.Loadable
  unfold wordLimit at *
  dsimp only
  omega

theorem parseHeaders_loadable {data : Bytes} {phoff phentsize left index : Nat}
    {segments final : List Segment} {interp finalInterp : Option String}
    (before : ∀ seg ∈ segments,
      seg.Loadable ∧ seg.fileOffset + seg.filesz ≤ data.length)
    (parsed : parseHeaders data phoff phentsize left index segments interp =
      .ok (final, finalInterp)) :
    ∀ seg ∈ final,
      seg.Loadable ∧ seg.fileOffset + seg.filesz ≤ data.length := by
  induction left generalizing index segments interp with
  | zero =>
      cases parsed
      exact before
  | succ left ih =>
      unfold parseHeaders at parsed
      simp only [bind, Except.bind] at parsed
      split at parsed
      · cases parsed
      split at parsed
      · split at parsed
        · cases parsed
        · exact ih before parsed
      · split at parsed
        · exact ih before parsed
        · split at parsed
          · cases parsed
          · rename_i found foundEq
            refine ih ?_ parsed
            intro seg mem
            rcases List.mem_append.mp mem with old | new
            · exact before seg old
            · rw [Option.mem_toList] at new
              subst new
              exact parseLoad_loadable foundEq

theorem except_bind_ok {α β : Type} {first : Except String α}
    {next : α → Except String β} {result : β} (run : first >>= next = .ok result) :
    ∃ value, first = .ok value ∧ next value = .ok result := by
  cases first with
  | error message => cases run
  | ok value => exact ⟨value, rfl, run⟩

theorem require_ok {condition : Prop} [Decidable condition] {message : String}
    {value : Unit} (passed : require condition message = .ok value) : condition := by
  unfold require at passed
  split at passed
  · assumption
  · cases passed

/-- What `parse` has read and checked of an accepted file. -/
theorem parse_ok {data : Bytes} {prog : Program} (parsed : parse data = .ok prog) :
    readU64 data 24 = .ok prog.entry ∧ readU64 data 32 = .ok prog.phoff ∧
      readU16 data 56 = .ok prog.phnum ∧ prog.phentsize = programHeaderSize ∧
      prog.phoff + prog.phnum * prog.phentsize ≤ data.length ∧
      parseHeaders data prog.phoff prog.phentsize prog.phnum 0 [] none =
        .ok (prog.segments, prog.interp) ∧
      prog.segments ≠ [] := by
  unfold parse at parsed
  obtain ⟨-, -, parsed⟩ := except_bind_ok parsed
  obtain ⟨-, -, parsed⟩ := except_bind_ok parsed
  obtain ⟨-, -, parsed⟩ := except_bind_ok parsed
  obtain ⟨-, -, parsed⟩ := except_bind_ok parsed
  obtain ⟨kind, -, parsed⟩ := except_bind_ok parsed
  obtain ⟨-, -, parsed⟩ := except_bind_ok parsed
  obtain ⟨machine, -, parsed⟩ := except_bind_ok parsed
  obtain ⟨-, -, parsed⟩ := except_bind_ok parsed
  obtain ⟨entry, entryRead, parsed⟩ := except_bind_ok parsed
  obtain ⟨phoff, phoffRead, parsed⟩ := except_bind_ok parsed
  obtain ⟨phentsize, -, parsed⟩ := except_bind_ok parsed
  obtain ⟨phnum, phnumRead, parsed⟩ := except_bind_ok parsed
  obtain ⟨_, size, parsed⟩ := except_bind_ok parsed
  obtain ⟨-, -, parsed⟩ := except_bind_ok parsed
  obtain ⟨_, table, parsed⟩ := except_bind_ok parsed
  obtain ⟨⟨segments, interp⟩, headers, parsed⟩ := except_bind_ok parsed
  obtain ⟨_, nonempty, parsed⟩ := except_bind_ok parsed
  cases parsed
  exact ⟨entryRead, phoffRead, phnumRead, require_ok size, require_ok table, headers,
    require_ok nonempty⟩

theorem parse_loadable {data : Bytes} {prog : Program} (parsed : parse data = .ok prog) :
    prog.segments ≠ [] ∧ ∀ seg ∈ prog.segments,
      seg.Loadable ∧ seg.fileOffset + seg.filesz ≤ data.length := by
  obtain ⟨-, -, -, -, -, headers, nonempty⟩ := parse_ok parsed
  exact ⟨nonempty, parseHeaders_loadable (by simp) headers⟩

end MachaOS.Elf
