/-
The ELF parser with the arithmetic of the machine: every sum and product panics when it leaves 64
bits, every index and slice when it leaves the file.

No file makes it panic, and what it returns is what the parser of `MachaOS.Elf` returns, whose
segments are the loadable entries of the program header table.
-/

import MachaOS.Elf
import MachaOS.Lib.Checked

namespace MachaOS.Elf

open Routine

def getRange (data : Bytes) (start stop : Nat) : Option Bytes :=
  if start ≤ stop ∧ stop ≤ data.length then some ((data.drop start).take (stop - start)) else none

/-- `read_u16`, `read_u32` and `read_u64`, which put the bytes read into a buffer of their size. -/
def readLeChecked (data : Bytes) (off len : Nat) : Routine String Nat := do
  let stop ← lift (Checked.add off len)
  let bytes ← orReturn
    (match getRange data off stop with
      | some bytes => .ok bytes
      | none => .error "truncated ELF header")
  lift (Checked.inside (bytes.length = len))
  pure (fromLeBytes bytes)

/-- A field of the program header at `off`. -/
def fieldChecked (data : Bytes) (off field len : Nat) : Routine String Nat := do
  let position ← lift (Checked.add off field)
  readLeChecked data position len

/-- `a.checked_add(b).ok_or(message)?` -/
def addOr (a b : Nat) (message : String) : Except String Nat :=
  if a + b < wordLimit then .ok (a + b) else .error message

/-- `a.checked_mul(b).ok_or(message)?` -/
def mulOr (a b : Nat) (message : String) : Except String Nat :=
  if a * b < wordLimit then .ok (a * b) else .error message

def parseInterpChecked (data : Bytes) (off : Nat) : Routine String String := do
  let offset ← fieldChecked data off 8 8
  let filesz ← fieldChecked data off 32 8
  let stop ← orReturn (addOr offset filesz "interp range overflow")
  orReturn
    (match getRange data offset stop with
      | none => .error "interp data outside file"
      | some bytes =>
          match fromUtf8 bytes with
          | none => .error "invalid interp string"
          | some text => .ok (trimNul text))

def parseLoadChecked (data : Bytes) (off : Nat) : Routine String (Option Segment) := do
  let flags ← fieldChecked data off 4 4
  let offset ← fieldChecked data off 8 8
  let vaddr ← fieldChecked data off 16 8
  let filesz ← fieldChecked data off 32 8
  let memsz ← fieldChecked data off 40 8
  if memsz = 0 then pure none
  else do
    let fileEnd ← orReturn (addOr offset filesz "segment file range overflow")
    orReturn (require (¬ fileEnd > data.length) "segment data outside file")
    orReturn (require (¬ filesz > memsz) "segment filesz exceeds memsz")
    pure (some
      { vaddr
        fileOffset := offset
        filesz
        memsz
        writable := flags / pfW % 2 = 1
        executable := flags / pfX % 2 = 1 })

def parseHeadersChecked (data : Bytes) (phoff phentsize : Nat) :
    Nat → Nat → List Segment → Option String → Routine String (List Segment × Option String)
  | 0, _, segments, interp => pure (segments, interp)
  | left + 1, index, segments, interp => do
      let skipped ← lift (Checked.mul index phentsize)
      let off ← lift (Checked.add phoff skipped)
      let kind ← readLeChecked data off 4
      if kind = ptInterp then do
        let path ← parseInterpChecked data off
        parseHeadersChecked data phoff phentsize left (index + 1) segments (some path)
      else if kind ≠ ptLoad then
        parseHeadersChecked data phoff phentsize left (index + 1) segments interp
      else do
        let seg ← parseLoadChecked data off
        parseHeadersChecked data phoff phentsize left (index + 1) (segments ++ seg.toList)
          interp

def parseChecked (data : Bytes) : Routine String Program := do
  orReturn (require (headerSize ≤ data.length) "truncated ELF header")
  let magic ← lift (Checked.range data 0 4)
  orReturn (require (magic = [0x7F#8, 0x45#8, 0x4C#8, 0x46#8]) "not an ELF file")
  let fileClass ← lift (Checked.index data 4)
  orReturn (require (fileClass = elfClass64) "not a 64-bit ELF")
  let byteOrder ← lift (Checked.index data 5)
  orReturn (require (byteOrder = elfData2Lsb) "not a little-endian ELF")
  let kind ← readLeChecked data 16 2
  orReturn (require (kind = etExec ∨ kind = etDyn) "not an executable (ET_EXEC/ET_DYN)")
  let machine ← readLeChecked data 18 2
  orReturn (require (machine = emX8664) "not an x86_64 ELF")
  let entry ← readLeChecked data 24 8
  let phoff ← readLeChecked data 32 8
  let phentsize ← readLeChecked data 54 2
  let phnum ← readLeChecked data 56 2
  orReturn (require (phentsize = programHeaderSize) "unexpected program header size")
  let size ← orReturn (mulOr phnum phentsize "overflow")
  let tableEnd ← orReturn (addOr phoff size "program header table overflow")
  orReturn (require (¬ tableEnd > data.length) "program header table outside file")
  let (segments, interp) ← parseHeadersChecked data phoff phentsize phnum 0 [] none
  orReturn (require (segments ≠ []) "no loadable segments")
  pure { entry, segments, isPie := kind = etDyn, phoff, phentsize, phnum, interp }

variable {data : Bytes} {off len field : Nat}

theorem getRange_eq_slice (data : Bytes) (off len : Nat) :
    getRange data off (off + len) = slice data off len := by
  unfold getRange slice
  rw [Nat.add_sub_cancel_left]
  by_cases inside : off + len ≤ data.length
  · rw [if_pos inside, if_pos ⟨by omega, inside⟩]
  · rw [if_neg inside, if_neg (by omega)]

theorem length_slice {bytes : Bytes} (found : slice data off len = some bytes) :
    bytes.length = len := by
  unfold slice at found
  split at found
  · cases found
    rw [List.length_take, List.length_drop]
    omega
  · cases found

theorem readLe_completes (fits : off + len < Checked.limit) :
    Completes (readLeChecked data off len) (readLe data off len) := by
  refine Completes.lift (Checked.add_ok fits) ?_
  rw [getRange_eq_slice]
  unfold readLe
  cases found : slice data off len with
  | none => rfl
  | some bytes => exact Completes.lift (Checked.inside_ok (length_slice found)) (completes_pure _)

theorem field_completes (fits : off + field + len < Checked.limit) :
    Completes (fieldChecked data off field len) (readLe data (off + field) len) :=
  Completes.lift (Checked.add_ok (by omega)) (readLe_completes fits)

theorem parseInterp_completes (fits : off + programHeaderSize < Checked.limit) :
    Completes (parseInterpChecked data off) (parseInterp data off) := by
  unfold programHeaderSize at fits
  refine Completes.bind (field_completes (by omega)) (fun offset _ => ?_)
  refine Completes.bind (field_completes (by omega)) (fun filesz _ => ?_)
  unfold addOr
  by_cases fine : offset + filesz < wordLimit
  · rw [if_pos fine, if_neg (by omega)]
    refine Completes.returned ?_
    rw [getRange_eq_slice]
    cases slice data offset filesz with
    | none => exact completes_orReturn _
    | some bytes =>
        cases fromUtf8 bytes with
        | none => exact completes_orReturn _
        | some text => exact completes_orReturn _
  · rw [if_neg fine, if_pos (by omega)]
    rfl

theorem parseLoad_completes (fits : off + programHeaderSize < Checked.limit) :
    Completes (parseLoadChecked data off) (parseLoad data off) := by
  unfold programHeaderSize at fits
  refine Completes.bind (field_completes (by omega)) (fun flags _ => ?_)
  refine Completes.bind (field_completes (by omega)) (fun offset _ => ?_)
  refine Completes.bind (field_completes (by omega)) (fun vaddr _ => ?_)
  refine Completes.bind (field_completes (by omega)) (fun filesz _ => ?_)
  refine Completes.bind (field_completes (by omega)) (fun memsz _ => ?_)
  by_cases placeholder : memsz = 0
  · rw [if_pos placeholder, if_pos placeholder]
    exact completes_pure none
  rw [if_neg placeholder, if_neg placeholder]
  unfold addOr
  by_cases fine : offset + filesz < wordLimit
  swap
  · rw [if_neg fine, if_pos (by omega)]
    rfl
  rw [if_pos fine, if_neg (by omega)]
  refine Completes.returned ?_
  unfold require
  by_cases outside : offset + filesz > data.length
  · rw [if_neg (not_not_intro outside), if_pos outside]
    exact completes_orReturn _
  rw [if_pos outside, if_neg outside]
  refine Completes.returned ?_
  by_cases excess : filesz > memsz
  · rw [if_neg (not_not_intro excess), if_pos excess]
    exact completes_orReturn _
  · rw [if_pos excess, if_neg excess]
    exact completes_pure _

theorem parseHeaders_completes {phoff phentsize left index : Nat} {segments : List Segment}
    {interp : Option String} (size : phentsize = programHeaderSize)
    (fits : phoff + (index + left) * phentsize < Checked.limit) :
    Completes (parseHeadersChecked data phoff phentsize left index segments interp)
      (parseHeaders data phoff phentsize left index segments interp) := by
  induction left generalizing index segments interp with
  | zero => exact completes_pure _
  | succ left ih =>
      have header : programHeaderSize = 56 := rfl
      rw [size, header] at fits
      have here : phoff + index * phentsize + programHeaderSize < Checked.limit := by
        rw [size, header]
        omega
      have later : phoff + (index + 1 + left) * phentsize < Checked.limit := by
        rw [size, header]
        omega
      have product : index * phentsize < Checked.limit := by omega
      refine Completes.lift (Checked.mul_ok product) ?_
      refine Completes.lift (Checked.add_ok (by omega)) ?_
      refine Completes.bind (readLe_completes (by omega)) (fun kind _ => ?_)
      by_cases isInterp : kind = ptInterp
      · rw [if_pos isInterp, if_pos isInterp]
        exact Completes.bind (parseInterp_completes here) (fun path _ => ih later)
      rw [if_neg isInterp, if_neg isInterp]
      by_cases other : kind ≠ ptLoad
      · rw [if_pos other, if_pos other]
        exact ih later
      rw [if_neg other, if_neg other]
      exact Completes.bind (parseLoad_completes here) (fun seg _ => ih later)

theorem completes_require {checked condition : Prop} [Decidable checked] [Decidable condition]
    (same : checked ↔ condition) (message : String) :
    Completes (orReturn (require checked message)) (require condition message) := by
  unfold require
  by_cases holds : condition
  · rw [if_pos holds, if_pos (same.mpr holds)]
    exact completes_orReturn _
  · rw [if_neg holds, if_neg (fun passed => holds (same.mp passed))]
    exact completes_orReturn _

theorem index_completes {α : Type} {i : Nat} {next : BitVec 8 → Routine String α}
    {result : Except String α} (inside : i < data.length)
    (after : ∀ byte, data[i]? = some byte → (next byte).Completes result) :
    (lift (Checked.index data i) >>= next).Completes result :=
  Completes.lift (Checked.index_ok (List.getElem?_eq_getElem inside))
    (after _ (List.getElem?_eq_getElem inside))

theorem parse_completes (data : Bytes) : Completes (parseChecked data) (parse data) := by
  unfold parseChecked parse
  have limit : Checked.limit = 18446744073709551616 := rfl
  have word : wordLimit = 18446744073709551616 := rfl
  have header : programHeaderSize = 56 := rfl
  refine Completes.bind (completes_orReturn _) (fun _ long => ?_)
  have whole : 64 ≤ data.length := require_ok long
  refine Completes.lift (Checked.range_ok ⟨by omega, by omega⟩) ?_
  refine Completes.bind (completes_orReturn _) (fun _ _ => ?_)
  refine index_completes (by omega) (fun fileClass found => ?_)
  refine Completes.bind (completes_require (by rw [found, Option.some_inj]) _) (fun _ _ => ?_)
  refine index_completes (by omega) (fun byteOrder found' => ?_)
  refine Completes.bind (completes_require (by rw [found', Option.some_inj]) _) (fun _ _ => ?_)
  refine Completes.bind (readLe_completes (by omega)) (fun kind _ => ?_)
  refine Completes.bind (completes_orReturn _) (fun _ _ => ?_)
  refine Completes.bind (readLe_completes (by omega)) (fun machine _ => ?_)
  refine Completes.bind (completes_orReturn _) (fun _ _ => ?_)
  refine Completes.bind (readLe_completes (by omega)) (fun entry _ => ?_)
  refine Completes.bind (readLe_completes (by omega)) (fun phoff _ => ?_)
  refine Completes.bind (readLe_completes (by omega)) (fun phentsize _ => ?_)
  refine Completes.bind (readLe_completes (by omega)) (fun phnum read => ?_)
  have few : phnum < 256 ^ 2 := readLe_lt read
  refine Completes.bind (completes_orReturn _) (fun _ sized => ?_)
  obtain rfl : phentsize = programHeaderSize := require_ok sized
  have product : phnum * programHeaderSize < wordLimit := by
    rw [header]
    omega
  unfold mulOr addOr
  rw [if_pos product]
  refine Completes.returned ?_
  by_cases fits : phoff + phnum * programHeaderSize < wordLimit
  swap
  · simp only [require, if_neg fits]
    rfl
  rw [if_pos fits]
  refine Completes.returned ?_
  have passed : require (phoff + phnum * programHeaderSize < wordLimit)
      "program header table overflow" = .ok () := if_pos fits
  rw [passed, Except.ok_bind]
  refine Completes.bind (completes_require not_lt _) (fun _ _ => ?_)
  refine Completes.bind (parseHeaders_completes rfl (by rw [Nat.zero_add]; omega))
    (fun parsed _ => ?_)
  exact Completes.bind (completes_orReturn _) (fun _ _ => completes_pure _)

def word (data : Bytes) (off len : Nat) : Nat :=
  fromLeBytes ((data.drop off).take len)

def loadEntry (data : Bytes) (off : Nat) : Option Segment :=
  if word data off 4 = ptLoad ∧ word data (off + 40) 8 ≠ 0 then
    some
      { vaddr := word data (off + 16) 8
        fileOffset := word data (off + 8) 8
        filesz := word data (off + 32) 8
        memsz := word data (off + 40) 8
        writable := word data (off + 4) 4 / pfW % 2 = 1
        executable := word data (off + 4) 4 / pfX % 2 = 1 }
  else none

def loadEntries (data : Bytes) (phoff phentsize first count : Nat) : List Segment :=
  (List.range' first count).filterMap (fun index => loadEntry data (phoff + index * phentsize))

structure WellFormed (data : Bytes) (prog : Program) : Prop where
  nonempty : prog.segments ≠ []
  sized : ∀ seg, seg ∈ prog.segments →
    0 < seg.memsz ∧ seg.filesz ≤ seg.memsz ∧
      seg.fileOffset + seg.filesz ≤ data.length
  header : prog.entry = word data 24 8 ∧ prog.phoff = word data 32 8 ∧
    prog.phentsize = programHeaderSize ∧ prog.phnum = word data 56 2
  table : prog.phoff + prog.phnum * prog.phentsize ≤ data.length
  listed : prog.segments =
    loadEntries data prog.phoff prog.phentsize 0 prog.phnum

theorem readLe_eq {value : Nat} (read : readLe data off len = .ok value) :
    value = word data off len := by
  unfold readLe slice at read
  split at read
  next bytes found =>
      split at found
      · cases read
        cases found
        rfl
      · cases found
  next => cases read

theorem parseLoad_eq {result : Option Segment} (kind : word data off 4 = ptLoad)
    (parsed : parseLoad data off = .ok result) : result = loadEntry data off := by
  unfold parseLoad at parsed
  obtain ⟨flags, flagsRead, parsed⟩ := except_bind_ok parsed
  obtain ⟨offset, offsetRead, parsed⟩ := except_bind_ok parsed
  obtain ⟨vaddr, vaddrRead, parsed⟩ := except_bind_ok parsed
  obtain ⟨filesz, fileszRead, parsed⟩ := except_bind_ok parsed
  obtain ⟨memsz, memszRead, parsed⟩ := except_bind_ok parsed
  have flagsWord := readLe_eq flagsRead
  have offsetWord := readLe_eq offsetRead
  have vaddrWord := readLe_eq vaddrRead
  have fileszWord := readLe_eq fileszRead
  have memszWord := readLe_eq memszRead
  subst flagsWord offsetWord vaddrWord fileszWord memszWord
  unfold loadEntry
  by_cases placeholder : word data (off + 40) 8 = 0
  · rw [if_pos placeholder] at parsed
    cases parsed
    rw [if_neg (fun both => both.2 placeholder)]
  rw [if_neg placeholder] at parsed
  rw [if_pos ⟨kind, placeholder⟩]
  split at parsed
  · cases parsed
  split at parsed
  · cases parsed
  split at parsed
  · cases parsed
  cases parsed
  rfl

theorem parseHeaders_listed {phoff phentsize left index : Nat} {segments final : List Segment}
    {interp finalInterp : Option String}
    (parsed : parseHeaders data phoff phentsize left index segments interp =
      .ok (final, finalInterp)) :
    final = segments ++ loadEntries data phoff phentsize index left := by
  induction left generalizing index segments interp with
  | zero =>
      cases parsed
      exact (List.append_nil _).symm
  | succ left ih =>
      unfold parseHeaders at parsed
      obtain ⟨kind, kindRead, parsed⟩ := except_bind_ok parsed
      have kindWord : kind = word data (phoff + index * phentsize) 4 := readLe_eq kindRead
      have front : loadEntries data phoff phentsize index (left + 1) =
          (loadEntry data (phoff + index * phentsize)).toList ++
            loadEntries data phoff phentsize (index + 1) left := by
        unfold loadEntries
        rw [List.range'_succ, List.filterMap_cons]
        cases loadEntry data (phoff + index * phentsize) <;> rfl
      have skipped : kind ≠ ptLoad →
          loadEntries data phoff phentsize index (left + 1) =
            loadEntries data phoff phentsize (index + 1) left := by
        intro other
        have missing : loadEntry data (phoff + index * phentsize) = none := by
          unfold loadEntry
          exact if_neg (fun both => other (kindWord.trans both.1))
        rw [front, missing]
        rfl
      by_cases isInterp : kind = ptInterp
      · rw [if_pos isInterp] at parsed
        obtain ⟨path, -, parsed⟩ := except_bind_ok parsed
        rw [ih parsed, skipped (by rw [isInterp]; decide)]
      rw [if_neg isInterp] at parsed
      by_cases other : kind ≠ ptLoad
      · rw [if_pos other] at parsed
        rw [ih parsed, skipped other]
      rw [if_neg other] at parsed
      obtain ⟨seg, segmentRead, parsed⟩ := except_bind_ok parsed
      have isLoad : word data (phoff + index * phentsize) 4 = ptLoad :=
        kindWord.symm.trans (not_not.mp other)
      rw [ih parsed, front, parseLoad_eq isLoad segmentRead, List.append_assoc]

theorem parse_wellFormed {data : Bytes} {prog : Program} (parsed : parse data = .ok prog) :
    WellFormed data prog := by
  obtain ⟨nonempty, loadable⟩ := parse_loadable parsed
  have sized : ∀ seg, seg ∈ prog.segments →
      0 < seg.memsz ∧ seg.filesz ≤ seg.memsz ∧
        seg.fileOffset + seg.filesz ≤ data.length := fun seg mem =>
    ⟨(loadable seg mem).1.1, (loadable seg mem).1.2.1, (loadable seg mem).2⟩
  obtain ⟨entryRead, phoffRead, phnumRead, size, table, headers, -⟩ := parse_ok parsed
  exact
    { nonempty, sized
      header := ⟨readLe_eq entryRead, readLe_eq phoffRead, size, readLe_eq phnumRead⟩
      table
      listed := parseHeaders_listed headers }

end MachaOS.Elf
