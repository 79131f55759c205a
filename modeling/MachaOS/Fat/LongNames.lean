/-
The entries of a name and the long-name format of FAT.

A name is stored in parts of 13 characters, the last part first.  Each slot says which
part it holds, and the first one that it is the last part; what the name leaves free of
that part is a terminator and filler.
-/

import MachaOS.Fat.Entries

namespace MachaOS.Fat

/-- The `k`th character of the `i`th part of a long name. -/
def formatUnit (chars : List (BitVec 16)) (i k : Nat) : BitVec 16 :=
  if 13 * i + k < chars.length then chars.getD (13 * i + k) 0#16
  else if 13 * i + k = chars.length then 0x0000#16
  else 0xFFFF#16

/-- A slot with the `i`th of `count` parts of a long name. -/
structure LongNameSlot (chars : List (BitVec 16)) (checksum : BitVec 8) (count i : Nat)
    (slot : Slot) : Prop where
  ordinal : slot 0x00 = BitVec.ofNat 8 (i + 1) ||| (if i + 1 = count then 0x40#8 else 0#8)
  longName : slot 0x0B = 0x0F#8
  kind : slot 0x0C = 0#8
  checksum : slot 0x0D = checksum
  cluster : slot 0x1A = 0#8 ∧ slot 0x1B = 0#8
  units : slotPart slot = (List.range 13).map (formatUnit chars i)

structure LongName (chars : List (BitVec 16)) (sfn : List (BitVec 8))
    (entries : List (List (BitVec 8))) : Prop where
  count : entries.length = (chars.length + 12) / 13
  ordinals : entries.length < 0x20
  sizes : ∀ bytes, bytes ∈ entries → bytes.length = 32
  slots : ∀ j (inside : j < entries.length),
    LongNameSlot chars (sfnChecksum sfn) entries.length (entries.length - 1 - j)
      (slotOf (entries.get ⟨j, inside⟩))

theorem getD_lfnPart (chars : List (BitVec 16)) {i k : Nat} (isLast : Bool) (inside : k < 13)
    (fits : 13 * (i + 1) ≤ chars.length ∨ isLast = true ∧ 13 * i < chars.length) :
    (lfnPart chars i isLast).getD k 0#16 = formatUnit chars i k := by
  have length : ((chars.drop (i * 13)).take 13).length = min 13 (chars.length - i * 13) := by
    rw [List.length_take, List.length_drop]
  have taken (k : Nat) (small : k < min 13 (chars.length - i * 13)) :
      ((chars.drop (i * 13)).take 13)[k]? = some (chars.getD (13 * i + k) 0#16) := by
    rw [List.getElem?_take, if_pos (by omega), List.getElem?_drop,
      show i * 13 + k = 13 * i + k by omega, List.getElem?_eq_getElem (by omega),
      List.getD_eq_getElem?_getD, List.getElem?_eq_getElem (by omega), Option.getD_some]
  unfold lfnPart formatUnit
  dsimp only
  by_cases within : 13 * i + k < chars.length
  · rw [if_pos within]
    have front : ((if isLast = true ∧ ((chars.drop (i * 13)).take 13).length < 13 then
        (chars.drop (i * 13)).take 13 ++ [0x0000#16] else (chars.drop (i * 13)).take 13))[k]? =
        some (chars.getD (13 * i + k) 0#16) := by
      split
      · rw [List.getElem?_append_left (by omega), taken k (by omega)]
      · rw [taken k (by omega)]
    rw [List.getD_eq_getElem?_getD, List.getElem?_append_left, front, Option.getD_some]
    exact (List.getElem?_eq_some_iff.mp front).1
  · have last : isLast = true := by
      rcases fits with whole | ⟨last, -⟩
      · omega
      · exact last
    have short : ((chars.drop (i * 13)).take 13).length < 13 := by omega
    rw [if_neg within, if_pos ⟨last, short⟩]
    by_cases here : 13 * i + k = chars.length
    · rw [if_pos here, List.getD_eq_getElem?_getD, List.getElem?_append_left
        (by rw [List.length_append, List.length_singleton]; omega),
        List.getElem?_append_right (by omega), show k - _ = 0 by omega]
      rfl
    · rw [if_neg here, List.getD_eq_getElem?_getD, List.getElem?_append_right
        (by rw [List.length_append, List.length_singleton]; omega), List.getElem?_replicate,
        if_pos (by rw [List.length_append, List.length_singleton]; omega), Option.getD_some]

theorem lfnPart_eq (chars : List (BitVec 16)) {i : Nat} (isLast : Bool)
    (fits : 13 * (i + 1) ≤ chars.length ∨ isLast = true ∧ 13 * i < chars.length) :
    lfnPart chars i isLast = (List.range 13).map (formatUnit chars i) := by
  refine List.ext_getElem (by simp [lfnPart_length]) (fun k inside inside' => ?_)
  have small : k < 13 := by rwa [lfnPart_length] at inside
  have unit := getD_lfnPart chars isLast small fits
  rw [List.getD_eq_getElem?_getD, List.getElem?_eq_getElem inside, Option.getD_some] at unit
  rw [unit, List.getElem_map, List.getElem_range]

theorem lfnEntryBytes_fields {seq : BitVec 8} {part : List (BitVec 16)} {isLast : Bool}
    {checksum : BitVec 8} (length : part.length = 13) :
    slotOf (lfnEntryBytes seq part isLast checksum) 0x00 =
        seq ||| (if isLast then 0x40#8 else 0#8) ∧
      slotOf (lfnEntryBytes seq part isLast checksum) 0x0B = 0x0F#8 ∧
      slotOf (lfnEntryBytes seq part isLast checksum) 0x0C = 0#8 ∧
      slotOf (lfnEntryBytes seq part isLast checksum) 0x0D = checksum ∧
      slotOf (lfnEntryBytes seq part isLast checksum) 0x1A = 0#8 ∧
      slotOf (lfnEntryBytes seq part isLast checksum) 0x1B = 0#8 := by
  match part, length with
  | [p0, p1, p2, p3, p4, p5, p6, p7, p8, p9, p10, p11, p12], _ =>
      exact ⟨rfl, rfl, rfl, rfl, rfl, rfl⟩

theorem lfnEntries_get (name : List Char) {j : Nat} (inside : j < (lfnEntries name).length) :
    (lfnEntries name).get ⟨j, inside⟩ =
      lfnEntryBytes (BitVec.ofNat 8 ((lfnEntries name).length - 1 - j + 1))
        (lfnPart (lfnChars name) ((lfnEntries name).length - 1 - j)
          ((lfnEntries name).length - 1 - j + 1 = (lfnEntries name).length))
        ((lfnEntries name).length - 1 - j + 1 = (lfnEntries name).length)
        (sfnChecksum (makeSfn name)) := by
  simp only [lfnEntries, List.get_eq_getElem, List.getElem_map, List.getElem_reverse,
    List.getElem_range, List.length_map, List.length_reverse, List.length_range]

theorem longName_lfnEntries {name : List Char} (short : name.length ≤ maxName) :
    LongName (lfnChars name) (makeSfn name) (lfnEntries name) := by
  have length := lfnChars_length name
  have limit : maxName = 128 := rfl
  have count : (lfnEntries name).length = ((lfnChars name).length + 12) / 13 := by
    simp [lfnEntries]
  constructor
  · exact count
  · omega
  · intro bytes mem
    obtain ⟨j, inside, rfl⟩ := List.getElem_of_mem mem
    have entry := lfnEntries_get name inside
    rw [List.get_eq_getElem] at entry
    rw [entry]
    exact lfnEntryBytes_length _ _ _ (lfnPart_length _ _ _)
  · intro j inside
    rw [lfnEntries_get name inside]
    obtain ⟨ordinal, longName, kind, checksum, cluster⟩ := @lfnEntryBytes_fields
      (BitVec.ofNat 8 ((lfnEntries name).length - 1 - j + 1)) _
      ((lfnEntries name).length - 1 - j + 1 = (lfnEntries name).length)
      (sfnChecksum (makeSfn name)) (lfnPart_length (lfnChars name)
        ((lfnEntries name).length - 1 - j)
        ((lfnEntries name).length - 1 - j + 1 = (lfnEntries name).length))
    constructor
    · rw [ordinal]
      simp only [decide_eq_true_eq]
    · exact longName
    · exact kind
    · exact checksum
    · exact cluster
    · rw [slotPart_lfnEntryBytes (lfnPart_length _ _ _)]
      apply lfnPart_eq
      rw [decide_eq_true_eq]
      omega

def placed (cluster : Nat) : Nat → List (List (BitVec 8)) → List ((Nat × Nat) × Slot)
  | _, [] => []
  | offset, bytes :: rest =>
      ((cluster, offset), slotOf bytes) :: placed cluster (offset + 32) rest

theorem rowFrom_eq (cluster offset : Nat) (entries : List (List (BitVec 8))) :
    (placed cluster offset entries).map (fun slot => (slot.1, recordOf slot.2)) =
      rowFrom cluster offset entries := by
  induction entries generalizing offset with
  | nil => rfl
  | cons bytes rest ih => rw [placed, List.map_cons, ih, rowFrom]

theorem rowFrom_dirEntryBytes (name : List Char) {firstCluster size : Nat} (isDir : Bool)
    (now : DateTime) (clusterFits : firstCluster < 2 ^ 32) (sizeFits : size < 2 ^ 32)
    (cluster offset : Nat) :
    rowFrom cluster offset (dirEntryBytes name firstCluster size isDir now) =
      rowFrom cluster offset (lfnEntries name) ++
        [((cluster, offset + 32 * (lfnEntries name).length),
          .entry (sfnName (makeSfn name)) isDir size firstCluster)] := by
  rw [dirEntryBytes, rowFrom_append, rowFrom, rowFrom,
    recordOf_sfnEntry name isDir now clusterFits sizeFits]

theorem length_le_utf8Len (name : List Char) : name.length ≤ utf8Len name := by
  unfold utf8Len
  induction name with
  | nil => exact Nat.le_refl 0
  | cons c rest ih =>
      have positive := Char.utf8Size_pos c
      rw [List.length_cons, List.map_cons, List.sum_cons]
      omega

theorem validateName_cases {name : List Char} (valid : validateName name = .ok ()) :
    name ≠ [] ∧ utf8Len name ≤ maxName ∧ name.head? ≠ some '.' ∧
      ∀ c, c ∈ name → isAsciiControl c = false ∧ c ≠ '/' := by
  unfold validateName at valid
  split at valid
  · cases valid
  · rename_i fine
    simp only [Bool.or_eq_true, decide_eq_true_eq, List.any_eq_true, not_or, not_exists,
      not_and, List.isEmpty_iff, Nat.not_lt, Bool.not_eq_true] at fine
    obtain ⟨⟨⟨some', short⟩, noDot⟩, characters⟩ := fine
    exact ⟨some', short, noDot, characters⟩

theorem isListed_of_valid {name : List Char} (valid : validateName name = .ok ()) (more : List Char) :
    isListed (name ++ more) = true := by
  obtain ⟨some', -, noDot, -⟩ := validateName_cases valid
  cases name with
  | nil => exact absurd rfl some'
  | cons first rest =>
      have letter : first ≠ '.' := fun same => noDot (congrArg some same)
      unfold isListed
      simp [letter]

theorem ascii_of_valid {name : List Char} (ascii : ∀ c, c ∈ name → c.toNat < 0x80)
    (valid : validateName name = .ok ()) : ∀ c, c ∈ name → IsAscii c := by
  intro c mem
  have control := ((validateName_cases valid).2.2.2 c mem).1
  simp only [isAsciiControl, Bool.or_eq_false_iff, decide_eq_false_iff_not, Nat.not_lt] at control
  exact ⟨by omega, ascii c mem⟩

end MachaOS.Fat
