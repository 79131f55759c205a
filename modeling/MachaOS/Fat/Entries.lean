/-
Reading back the entries that are written for a name.

The long-name slots decode to the parts of the name, the last part first, and the short
slot to the entry.  Reading then finds the name as `storedName` gives it: other scripts as
question marks, and nothing from a character on that a long name cannot hold.
-/

import MachaOS.Fat.Records

namespace MachaOS.Fat

open List

def slotOf (bytes : List (BitVec 8)) : Slot :=
  fun i => bytes.getD i 0#8

def storedName (name : List Char) : List Char :=
  assembleLfn [lfnChars name]

def nameParts (name : List Char) : List (List (BitVec 16)) :=
  let chars := lfnChars name
  let count := (chars.length + 12) / 13
  (List.range count).map (fun i => lfnPart chars i (i + 1 = count))

/-- The name an entry gets after long-name parts that waited before it. -/
def readBack (name : List Char) (parts : List (List (BitVec 16))) : List Char :=
  assembleLfn (nameParts name ++ parts)

theorem le16_word (word : BitVec 16) :
    (word.extractLsb' 8 8 ++ word.extractLsb' 0 8 : BitVec 16) = word := by
  apply BitVec.eq_of_getLsbD_eq
  intro bit bound
  rw [BitVec.getLsbD_append, BitVec.getLsbD_extractLsb', BitVec.getLsbD_extractLsb']
  by_cases low : bit < 8
  · simp [low]
  · simp [low, show bit - 8 < 8 by omega, show 8 + (bit - 8) = bit by omega]

theorem le32_word (word : BitVec 32) :
    ((word.extractLsb' 24 8 ++ word.extractLsb' 16 8 : BitVec 16) ++
      (word.extractLsb' 8 8 ++ word.extractLsb' 0 8 : BitVec 16) : BitVec 32) = word := by
  apply BitVec.eq_of_getLsbD_eq
  intro bit bound
  simp only [BitVec.getLsbD_append, BitVec.getLsbD_extractLsb']
  by_cases first : bit < 8
  · simp [first, show bit < 16 by omega]
  · by_cases second : bit < 16
    · simp [first, second, show bit - 8 < 8 by omega, show 8 + (bit - 8) = bit by omega]
    · by_cases third : bit < 24
      · simp [second, show bit - 16 < 8 by omega, show 16 + (bit - 16) = bit by omega]
      · simp [second, show ¬ bit - 16 < 8 by omega, show bit - 16 - 8 < 8 by omega,
          show 24 + (bit - 16 - 8) = bit by omega]

theorem le32_read (word : BitVec 32) :
    (word.extractLsb' 24 8 ++ word.extractLsb' 16 8 ++ word.extractLsb' 8 8 ++
      word.extractLsb' 0 8 : BitVec 32) = word := by
  apply BitVec.eq_of_getLsbD_eq
  intro bit bound
  simp only [BitVec.getLsbD_append, BitVec.getLsbD_extractLsb']
  by_cases first : bit < 8
  · simp [first]
  · by_cases second : bit < 16
    · simp [first, show bit - 8 < 8 by omega, show 8 + (bit - 8) = bit by omega]
    · by_cases third : bit < 24
      · simp [first, show ¬ bit - 8 < 8 by omega, show bit - 8 - 8 < 8 by omega,
          show 16 + (bit - 8 - 8) = bit by omega]
      · simp [first, show ¬ bit - 8 < 8 by omega, show ¬ bit - 8 - 8 < 8 by omega,
          show bit - 8 - 8 - 8 < 8 by omega, show 24 + (bit - 8 - 8 - 8) = bit by omega]

theorem lfnPart_length (chars : List (BitVec 16)) (i : Nat) (isLast : Bool) :
    (lfnPart chars i isLast).length = 13 := by
  unfold lfnPart
  have used : ((chars.drop (i * 13)).take 13).length ≤ 13 := length_take_le _ _
  dsimp only
  split
  · rename_i room
    rw [length_append, length_replicate, length_append, length_singleton]
    omega
  · rw [length_append, length_replicate]
    omega

theorem seq_first {seq : BitVec 8} {isLast : Bool} (used : 1 ≤ seq.toNat ∧ seq.toNat < 32) :
    seq ||| (if isLast then 0x40#8 else 0#8) ≠ 0x00#8 ∧
      seq ||| (if isLast then 0x40#8 else 0#8) ≠ 0xE5#8 := by
  revert seq isLast
  decide +kernel

theorem lfnEntryBytes_length (seq : BitVec 8) {part : List (BitVec 16)} (isLast : Bool)
    (checksum : BitVec 8) (length : part.length = 13) :
    (lfnEntryBytes seq part isLast checksum).length = 32 := by
  match part, length with
  | [p0, p1, p2, p3, p4, p5, p6, p7, p8, p9, p10, p11, p12], _ => rfl

theorem slotPart_lfnEntryBytes {seq : BitVec 8} {part : List (BitVec 16)} {isLast : Bool}
    {checksum : BitVec 8} (length : part.length = 13) :
    slotPart (slotOf (lfnEntryBytes seq part isLast checksum)) = part := by
  match part, length with
  | [p0, p1, p2, p3, p4, p5, p6, p7, p8, p9, p10, p11, p12], _ =>
      show [p0.extractLsb' 8 8 ++ p0.extractLsb' 0 8, p1.extractLsb' 8 8 ++ p1.extractLsb' 0 8,
        p2.extractLsb' 8 8 ++ p2.extractLsb' 0 8, p3.extractLsb' 8 8 ++ p3.extractLsb' 0 8,
        p4.extractLsb' 8 8 ++ p4.extractLsb' 0 8, p5.extractLsb' 8 8 ++ p5.extractLsb' 0 8,
        p6.extractLsb' 8 8 ++ p6.extractLsb' 0 8, p7.extractLsb' 8 8 ++ p7.extractLsb' 0 8,
        p8.extractLsb' 8 8 ++ p8.extractLsb' 0 8, p9.extractLsb' 8 8 ++ p9.extractLsb' 0 8,
        p10.extractLsb' 8 8 ++ p10.extractLsb' 0 8, p11.extractLsb' 8 8 ++ p11.extractLsb' 0 8,
        p12.extractLsb' 8 8 ++ p12.extractLsb' 0 8] = _
      simp only [le16_word]

theorem recordOf_lfnEntryBytes {seq : BitVec 8} {part : List (BitVec 16)} {isLast : Bool}
    {checksum : BitVec 8} (length : part.length = 13) (used : 1 ≤ seq.toNat ∧ seq.toNat < 32) :
    recordOf (slotOf (lfnEntryBytes seq part isLast checksum)) = .part part := by
  obtain ⟨notEnd, notDeleted⟩ := @seq_first seq isLast used
  have kind : slotOf (lfnEntryBytes seq part isLast checksum) 0x0B = 0x0F#8 := by
    match part, length with
    | [p0, p1, p2, p3, p4, p5, p6, p7, p8, p9, p10, p11, p12], _ => rfl
  unfold recordOf
  rw [if_neg (show slotOf (lfnEntryBytes seq _ isLast checksum) 0 ≠ 0x00#8 from notEnd),
    if_neg (show slotOf (lfnEntryBytes seq _ isLast checksum) 0 ≠ 0xE5#8 from notDeleted),
    if_pos kind, slotPart_lfnEntryBytes length]

theorem sfnField_length (count : Nat) (text : List Char) : (sfnField count text).length = count := by
  have used : (((text.filter isSfnChar).take count).map asciiUpperByte).length ≤ count := by
    rw [length_map]
    exact length_take_le _ _
  unfold sfnField
  dsimp only
  rw [length_append, length_replicate]
  omega

theorem makeSfn_length (name : List Char) : (makeSfn name).length = 11 := by
  rw [makeSfn, length_append, sfnField_length, sfnField_length]

theorem isSfnChar_range {c : Char} (usable : isSfnChar c = true) :
    0x21 ≤ c.toNat ∧ c.toNat ≤ 0x7E := by
  have between {low high : Char} (within : (decide (low ≤ c) && decide (c ≤ high)) = true) :
      low.toNat ≤ c.toNat ∧ c.toNat ≤ high.toNat := by
    rw [Bool.and_eq_true, decide_eq_true_eq, decide_eq_true_eq] at within
    exact ⟨UInt32.le_iff_toNat_le.mp within.1, UInt32.le_iff_toNat_le.mp within.2⟩
  unfold isSfnChar at usable
  rw [Bool.or_eq_true, Bool.or_eq_true, Bool.or_eq_true, decide_eq_true_eq] at usable
  rcases usable with ((digit | upper) | lower) | other
  · have range := between digit
    exact ⟨le_trans (by decide) range.1, le_trans range.2 (by decide)⟩
  · have range := between upper
    exact ⟨le_trans (by decide) range.1, le_trans range.2 (by decide)⟩
  · have range := between lower
    exact ⟨le_trans (by decide) range.1, le_trans range.2 (by decide)⟩
  · have each : ['$', '%', '\'', '-', '_', '@', '~', '`', '!', '(', ')', '{', '}', '^', '#',
        '&'].all (fun d => decide (0x21 ≤ d.toNat) && decide (d.toNat ≤ 0x7E)) = true := by decide
    have range := all_eq_true.mp each c other
    rw [Bool.and_eq_true, decide_eq_true_eq, decide_eq_true_eq] at range
    exact range

theorem asciiUpperByte_used {c : Char} (usable : isSfnChar c = true) :
    asciiUpperByte c ≠ 0x00#8 ∧ asciiUpperByte c ≠ 0xE5#8 := by
  obtain ⟨lower, upper⟩ := isSfnChar_range usable
  have value : 1 ≤ (asciiUpperByte c).toNat ∧ (asciiUpperByte c).toNat ≤ 0x7E := by
    unfold asciiUpperByte
    rw [BitVec.toNat_ofNat]
    split
    · rename_i small
      have low : 'a'.toNat ≤ c.toNat := UInt32.le_iff_toNat_le.mp small.1
      have bound : 97 ≤ c.toNat := low
      omega
    · omega
  constructor
  · intro same
    rw [same] at value
    exact absurd value.1 (by decide)
  · intro same
    rw [same] at value
    exact absurd value.2 (by decide)

theorem makeSfn_first (name : List Char) :
    (makeSfn name).getD 0 0#8 ≠ 0x00#8 ∧ (makeSfn name).getD 0 0#8 ≠ 0xE5#8 := by
  unfold makeSfn sfnField
  dsimp only
  cases usable : ((splitLastDot name).1.filter isSfnChar).take 8 with
  | nil =>
      rw [show (([] : List Char).map asciiUpperByte ++ List.replicate
        (8 - (([] : List Char).map asciiUpperByte).length) 0x20#8) =
          0x20#8 :: List.replicate 7 0x20#8 from rfl, cons_append, getD_cons_zero]
      exact ⟨by decide, by decide⟩
  | cons c rest =>
      have mem : c ∈ ((splitLastDot name).1.filter isSfnChar).take 8 := by
        rw [usable]
        exact mem_cons_self
      exact asciiUpperByte_used (of_mem_filter (mem_of_mem_take mem))

def sfnRest (firstCluster size : Nat) (isDir : Bool) (now : DateTime) : List (BitVec 8) :=
  let date := le16 (fatDatetime now).1
  let time := le16 (fatDatetime now).2
  let cluster := le32 (BitVec.ofNat 32 firstCluster)
  [if isDir then 0x10#8 else 0x20#8] ++ [0#8, 0#8] ++ time ++ date ++ date ++
    cluster.drop 2 ++ time ++ date ++ cluster.take 2 ++ le32 (BitVec.ofNat 32 size)

theorem sfnEntry_eq (name : List Char) (firstCluster size : Nat) (isDir : Bool) (now : DateTime) :
    sfnEntry name firstCluster size isDir now =
      makeSfn name ++ sfnRest firstCluster size isDir now := by
  simp only [sfnEntry, sfnRest, append_assoc]

theorem recordOf_sfnEntry (name : List Char) {firstCluster size : Nat} (isDir : Bool)
    (now : DateTime) (clusterFits : firstCluster < 2 ^ 32) (sizeFits : size < 2 ^ 32) :
    recordOf (slotOf (sfnEntry name firstCluster size isDir now)) =
      .entry (sfnName (makeSfn name)) isDir size firstCluster := by
  have length := makeSfn_length name
  have rest (i : Nat) : slotOf (sfnEntry name firstCluster size isDir now) (11 + i) =
      (sfnRest firstCluster size isDir now).getD i 0#8 := by
    rw [slotOf, sfnEntry_eq, getD_eq_getElem?_getD, List.getElem?_append_right (by omega),
      ← getD_eq_getElem?_getD, length, Nat.add_sub_cancel_left]
  have start (i : Nat) (inside : i < 11) : slotOf (sfnEntry name firstCluster size isDir now) i =
      (makeSfn name).getD i 0#8 := by
    rw [slotOf, sfnEntry_eq, getD_eq_getElem?_getD, List.getElem?_append_left (by omega),
      ← getD_eq_getElem?_getD]
  have kind : slotOf (sfnEntry name firstCluster size isDir now) 0x0B =
      if isDir then 0x10#8 else 0x20#8 := rest 0
  have short : (List.range 11).map (slotOf (sfnEntry name firstCluster size isDir now)) =
      makeSfn name := by
    show (List.range 11).map (fun i => slotOf (sfnEntry name firstCluster size isDir now) i) = _
    rw [map_congr_left (fun i mem => start i (mem_range.mp mem))]
    refine ext_getElem (by simp [length]) (fun i inside inside' => ?_)
    rw [getElem_map, getElem_range, getD_eq_getElem?_getD,
      List.getElem?_eq_getElem inside', Option.getD_some]
  have sizeWord : (slotOf (sfnEntry name firstCluster size isDir now)).readU32 0x1C =
      BitVec.ofNat 32 size := by
    unfold ByteMemory.readU32
    rw [show 0x1C + 3 = 11 + 20 from rfl, show 0x1C + 2 = 11 + 19 from rfl,
      show 0x1C + 1 = 11 + 18 from rfl, show 0x1C = 11 + 17 from rfl, rest, rest, rest, rest]
    exact le32_read (BitVec.ofNat 32 size)
  have high : (slotOf (sfnEntry name firstCluster size isDir now)).readU16 0x14 =
      (BitVec.ofNat 32 firstCluster).extractLsb' 24 8 ++
        (BitVec.ofNat 32 firstCluster).extractLsb' 16 8 := by
    unfold ByteMemory.readU16
    rw [show 0x14 + 1 = 11 + 10 from rfl, show 0x14 = 11 + 9 from rfl, rest, rest]
    rfl
  have low : (slotOf (sfnEntry name firstCluster size isDir now)).readU16 0x1A =
      (BitVec.ofNat 32 firstCluster).extractLsb' 8 8 ++
        (BitVec.ofNat 32 firstCluster).extractLsb' 0 8 := by
    unfold ByteMemory.readU16
    rw [show 0x1A + 1 = 11 + 16 from rfl, show 0x1A = 11 + 15 from rfl, rest, rest]
    rfl
  obtain ⟨notEnd, notDeleted⟩ := makeSfn_first name
  rw [← start 0 (by decide)] at notEnd notDeleted
  unfold recordOf
  rw [if_neg notEnd, if_neg notDeleted, kind, short, sizeWord, high, low, le32_word,
    BitVec.toNat_ofNat, BitVec.toNat_ofNat, Nat.mod_eq_of_lt clusterFits, Nat.mod_eq_of_lt sizeFits]
  cases isDir <;> rfl

theorem lfnChars_length (name : List Char) : (lfnChars name).length = name.length := by
  simp [lfnChars]

theorem take_chunks {α : Type} (chars : List α) (count : Nat) :
    ((List.range count).map (fun i => (chars.drop (i * 13)).take 13)).flatten =
      chars.take (count * 13) := by
  induction count with
  | zero => simp
  | succ count ih =>
      rw [range_succ, map_append, flatten_append, ih, Nat.succ_mul, take_add]
      simp

theorem lfnPart_inner {chars : List (BitVec 16)} {i : Nat} (isLast : Bool)
    (full : (i + 1) * 13 ≤ chars.length) :
    lfnPart chars i isLast = (chars.drop (i * 13)).take 13 := by
  have used : ((chars.drop (i * 13)).take 13).length = 13 := by
    rw [length_take, length_drop]
    omega
  unfold lfnPart
  dsimp only
  rw [used, if_neg (by omega), used]
  simp

theorem lfnPart_last {chars : List (BitVec 16)} {i : Nat} (short : chars.length < (i + 1) * 13)
    (begun : i * 13 ≤ chars.length) :
    ∃ filler, lfnPart chars i true = chars.drop (i * 13) ++ 0x0000#16 :: filler := by
  have used : (chars.drop (i * 13)).take 13 = chars.drop (i * 13) :=
    take_of_length_le (by rw [length_drop]; omega)
  unfold lfnPart
  dsimp only
  rw [used, if_pos ⟨rfl, by rw [length_drop]; omega⟩]
  exact ⟨_, by rw [append_assoc]; rfl⟩

theorem nameParts_flatten (name : List Char) :
    (name.length % 13 = 0 → (nameParts name).flatten = lfnChars name) ∧
      (name.length % 13 ≠ 0 →
        ∃ filler, (nameParts name).flatten = lfnChars name ++ 0x0000#16 :: filler) := by
  have length := lfnChars_length name
  unfold nameParts
  dsimp only
  rw [length]
  constructor
  · intro full
    rw [show (name.length + 12) / 13 = name.length / 13 by omega]
    rw [map_congr_left (fun i mem => lfnPart_inner _ (by
      have bound := mem_range.mp mem
      omega)), take_chunks]
    exact take_of_length_le (by omega)
  · intro open'
    rw [show (name.length + 12) / 13 = name.length / 13 + 1 by omega, range_succ,
      map_append, flatten_append]
    rw [map_congr_left (fun i mem => lfnPart_inner _ (by
      have bound := mem_range.mp mem
      omega)), take_chunks]
    obtain ⟨filler, last⟩ := @lfnPart_last (lfnChars name) (name.length / 13) (by omega) (by omega)
    refine ⟨filler, ?_⟩
    rw [map_singleton, decide_eq_true rfl, last, flatten_singleton, ← append_assoc,
      take_append_drop]

theorem takeWhile_end {α : Type} (p : α → Bool) (front : List α) {item : α} (rest : List α)
    (ends : p item = false) : (front ++ item :: rest).takeWhile p = front.takeWhile p := by
  induction front with
  | nil => simp [ends]
  | cons first front ih =>
      rw [cons_append, takeWhile_cons, takeWhile_cons, ih]

theorem readBack_eq {name : List Char} {parts : List (List (BitVec 16))}
    (closed : name.length % 13 ≠ 0 ∨ parts = []) : readBack name parts = storedName name := by
  obtain ⟨full, open'⟩ := nameParts_flatten name
  unfold readBack storedName assembleLfn
  rw [flatten_append, flatten_singleton]
  by_cases exact' : name.length % 13 = 0
  · rw [full exact', closed.resolve_left (not_not_intro exact'), flatten_nil, append_nil]
  · obtain ⟨filler, terminated⟩ := open' exact'
    rw [terminated, append_assoc, cons_append, takeWhile_end _ _ _ (by decide)]

def IsAscii (c : Char) : Prop := 0 < c.toNat ∧ c.toNat < 0x80

theorem lfnChar_ascii {c : Char} (ascii : IsAscii c) :
    lfnChar (BitVec.ofNat 16 c.toNat) = c ∧ endsName (BitVec.ofNat 16 c.toNat) = false := by
  have small : c.toNat % 2 ^ 16 = c.toNat := Nat.mod_eq_of_lt (by have := ascii.2; omega)
  constructor
  · unfold lfnChar
    rw [BitVec.toNat_ofNat, small, if_pos ascii.2]
    exact Char.ofNat_toNat c
  · unfold endsName
    rw [Bool.or_eq_false_iff, decide_eq_false_iff_not, decide_eq_false_iff_not]
    have value : (BitVec.ofNat 16 c.toNat).toNat = c.toNat := by rw [BitVec.toNat_ofNat, small]
    constructor
    · intro same
      rw [same] at value
      have zero : (0x0000#16).toNat = 0 := rfl
      have lower := ascii.1
      omega
    · intro same
      rw [same] at value
      have filler : (0xFFFF#16).toNat = 65535 := rfl
      have upper := ascii.2
      omega

theorem assembleLfn_ascii {name : List Char} (ascii : ∀ c, c ∈ name → IsAscii c)
    (more : List (BitVec 16)) : assembleLfn [lfnChars name ++ more] = name ++ assembleLfn [more] := by
  unfold assembleLfn lfnChars
  rw [flatten_singleton, flatten_singleton]
  induction name with
  | nil => rfl
  | cons c rest ih =>
      obtain ⟨same, goes⟩ := lfnChar_ascii (ascii c mem_cons_self)
      rw [map_cons, cons_append, takeWhile_cons, goes]
      simp only [Bool.not_false, if_true, map_cons, same]
      rw [ih (fun other mem => ascii other (mem_cons_of_mem _ mem)), cons_append]

theorem storedName_ascii {name : List Char} (ascii : ∀ c, c ∈ name → IsAscii c) :
    storedName name = name := by
  have whole := assembleLfn_ascii ascii []
  rw [append_nil] at whole
  exact whole.trans (append_nil name)

/-- A name that fills its last part gets what the parts before it spell. -/
theorem readBack_ascii {name : List Char} (ascii : ∀ c, c ∈ name → IsAscii c)
    (parts : List (List (BitVec 16))) :
    readBack name parts = name ++ (if name.length % 13 = 0 then assembleLfn parts else []) := by
  split
  · rename_i full
    have more := assembleLfn_ascii ascii parts.flatten
    have same (all : List (List (BitVec 16))) : assembleLfn [all.flatten] = assembleLfn all := by
      rw [assembleLfn, flatten_singleton, assembleLfn]
    rw [same] at more
    rw [readBack, ← same, flatten_append, (nameParts_flatten name).1 full, more]
  · rename_i open'
    rw [readBack_eq (Or.inl open'), storedName_ascii ascii, append_nil]

def rowFrom (cluster : Nat) : Nat → List (List (BitVec 8)) → Row
  | _, [] => []
  | offset, bytes :: rest =>
      ((cluster, offset), recordOf (slotOf bytes)) :: rowFrom cluster (offset + 32) rest

theorem rowFrom_append (cluster offset : Nat) (early late : List (List (BitVec 8))) :
    rowFrom cluster offset (early ++ late) =
      rowFrom cluster offset early ++ rowFrom cluster (offset + 32 * early.length) late := by
  induction early generalizing offset with
  | nil => rfl
  | cons bytes rest ih =>
      rw [cons_append, rowFrom, ih, rowFrom, length_cons,
        show offset + 32 * (rest.length + 1) = offset + 32 + 32 * rest.length by omega]
      rfl

theorem rowFrom_parts {cluster offset : Nat} {entries : List (List (BitVec 8))}
    {units : List (List (BitVec 16))}
    (long : entries.map (fun bytes => recordOf (slotOf bytes)) = units.map Record.part)
    (parts : List (List (BitVec 16))) :
    Unlisted (rowFrom cluster offset entries) ∧
      pending (rowFrom cluster offset entries) parts = units.reverse ++ parts := by
  induction entries generalizing offset units parts with
  | nil =>
      obtain rfl : units = [] := by
        cases units with
        | nil => rfl
        | cons unit rest => cases long
      exact ⟨fun _ mem => (not_mem_nil mem).elim, rfl⟩
  | cons bytes rest ih =>
      cases units with
      | nil => cases long
      | cons unit units =>
          have first : recordOf (slotOf bytes) = .part unit := (List.cons.inj long).1
          have later := (List.cons.inj long).2
          obtain ⟨unlisted, waits⟩ := @ih (offset + 32) units later (unit :: parts)
          refine ⟨fun item mem => ?_, ?_⟩
          · rcases mem_cons.mp mem with rfl | after
            · exact Or.inr ⟨unit, first⟩
            · exact unlisted item after
          · rw [rowFrom, first, pending, waits, reverse_cons, append_assoc]
            rfl

theorem lfnEntries_records {name : List Char} (short : name.length ≤ maxName) :
    (lfnEntries name).map (fun bytes => recordOf (slotOf bytes)) =
      (nameParts name).reverse.map Record.part := by
  have length := lfnChars_length name
  have limit : maxName = 128 := rfl
  unfold lfnEntries nameParts
  dsimp only
  rw [map_map, ← map_reverse, map_map]
  refine map_congr_left (fun i mem => ?_)
  rw [mem_reverse, mem_range] at mem
  refine recordOf_lfnEntryBytes (lfnPart_length _ _ _) ?_
  rw [BitVec.toNat_ofNat]
  omega

theorem listed_dirEntryBytes {name : List Char} (short : name.length ≤ maxName)
    (some' : name ≠ []) {firstCluster size : Nat} (isDir : Bool) (now : DateTime)
    (clusterFits : firstCluster < 2 ^ 32) (sizeFits : size < 2 ^ 32) {early late : Row}
    (goes : ¬ Stops early) (cluster offset : Nat) (parts : List (List (BitVec 16))) :
    let entry : DirEntry :=
      { name := readBack name (pending early parts)
        isDir
        size
        firstCluster
        location := (cluster, offset + 32 * (lfnEntries name).length) }
    listed (early ++ rowFrom cluster offset (dirEntryBytes name firstCluster size isDir now) ++ late)
        parts =
      listed early parts ++ (if isListed entry.name then [entry] else []) ++ listed late [] := by
  obtain ⟨unlisted, waits⟩ := @rowFrom_parts cluster offset (lfnEntries name) _
    (lfnEntries_records short) (pending early parts)
  rw [reverse_reverse] at waits
  have nonempty : nameParts name ≠ [] := by
    have positive := length_pos_iff.mpr some'
    have length := lfnChars_length name
    intro none'
    have count := congrArg List.length none'
    simp only [nameParts, length_map, length_range, length_nil] at count
    omega
  have named : (nameParts name ++ pending early parts).isEmpty = false := by
    cases units : nameParts name with
    | nil => exact absurd units nonempty
    | cons unit rest => rfl
  rw [dirEntryBytes, rowFrom_append, rowFrom, rowFrom,
    recordOf_sfnEntry name isDir now clusterFits sizeFits, listed_written goes unlisted, waits]
  simp only [entryOf, named, Bool.false_eq_true, if_false, readBack]
  rfl

end MachaOS.Fat
