/-
An address space as the four-level table describes it.

`Space` names the frames of the table, the USER bit of every upper entry and
the 4 KiB entries.  `Represents` says that memory holds exactly this table.
Every table in the system has the shape the boot code gives it: one PML4 entry,
four directories, and 2 MiB identity entries that are split on first use.  The
processor's walk of such a table is `Space.view`.
-/

import MachaOS.Machine

namespace MachaOS.Paging

open Function

variable {index : Nat}

theorem getLsbD_addrMask (bounded : index < 64) :
    addrMask.getLsbD index = decide (12 ≤ index ∧ index < 52) := by
  unfold addrMask
  interval_cases index <;> rfl

theorem getLsbD_presentMask (bounded : index < 64) :
    presentMask.getLsbD index = decide (index < 12 ∨ index = 63) := by
  unfold presentMask pageNx
  interval_cases index <;> rfl

variable {frame : Nat}

theorem getLsbD_ofNat_low (aligned : frame % 4096 = 0) (low : index < 12) :
    (BitVec.ofNat 64 frame).getLsbD index = false := by
  obtain ⟨page, rfl⟩ : ∃ page, frame = 2 ^ 12 * page :=
    ⟨frame / 4096, by omega⟩
  rw [BitVec.getLsbD_ofNat, Nat.testBit_two_pow_mul]
  have short : ¬ 12 ≤ index := by omega
  simp [short]

theorem getLsbD_ofNat_high (bounded : frame < 2 ^ 52) (high : 52 ≤ index) :
    (BitVec.ofNat 64 frame).getLsbD index = false := by
  have small : frame < 2 ^ index :=
    lt_of_lt_of_le bounded (Nat.pow_le_pow_right (by decide) high)
  rw [BitVec.getLsbD_ofNat, Nat.testBit_lt_two_pow small]
  simp

theorem tableBase_or {flags : BitVec 64} (aligned : frame % 4096 = 0) (bounded : frame < 2 ^ 52)
    (attributes : flags &&& addrMask = 0#64) :
    tableBase (BitVec.ofNat 64 frame ||| flags) = frame := by
  have kept : BitVec.ofNat 64 frame &&& addrMask = BitVec.ofNat 64 frame := by
    apply BitVec.eq_of_getLsbD_eq
    intro index inside
    rw [BitVec.getLsbD_and, getLsbD_addrMask inside]
    by_cases low : index < 12
    · rw [getLsbD_ofNat_low aligned low]
      simp
    · by_cases high : 52 ≤ index
      · rw [getLsbD_ofNat_high bounded high]
        simp
      · have middle : 12 ≤ index ∧ index < 52 := by omega
        simp [middle]
  have distribute : (BitVec.ofNat 64 frame ||| flags) &&& addrMask = BitVec.ofNat 64 frame := by
    have split : (BitVec.ofNat 64 frame ||| flags) &&& addrMask =
        (BitVec.ofNat 64 frame &&& addrMask) ||| (flags &&& addrMask) := by
      apply BitVec.eq_of_getLsbD_eq
      intro index _
      simp [Bool.and_or_distrib_right]
    rw [split, kept, attributes, BitVec.or_zero]
  unfold tableBase
  rw [distribute, BitVec.toNat_ofNat]
  exact Nat.mod_eq_of_lt (lt_trans bounded (by decide))

private theorem and_twoPow_eq_zero (entry : BitVec 64) (index : Nat) (inside : index < 64) :
    entry &&& BitVec.twoPow 64 index = 0#64 ↔ entry.getLsbD index = false := by
  have nonzero : BitVec.twoPow 64 index ≠ 0#64 := by
    intro zero
    have selected := congrArg (fun bits => bits.getLsbD index) zero
    simp [inside] at selected
  rw [BitVec.and_twoPow]
  cases entry.getLsbD index <;> simp [nonzero]

theorem and_pagePresent_eq_zero (entry : BitVec 64) :
    entry &&& pagePresent = 0#64 ↔ entry.getLsbD 0 = false :=
  and_twoPow_eq_zero entry 0 (by decide)

theorem and_pageUser_eq_zero (entry : BitVec 64) :
    entry &&& pageUser = 0#64 ↔ entry.getLsbD 2 = false :=
  and_twoPow_eq_zero entry 2 (by decide)

theorem and_psBit_eq_zero (entry : BitVec 64) :
    entry &&& psBit = 0#64 ↔ entry.getLsbD 7 = false :=
  and_twoPow_eq_zero entry 7 (by decide)

def upperEntry (frame : Nat) (user : Bool) : BitVec 64 :=
  BitVec.ofNat 64 frame ||| (if user then 7#64 else 3#64)

/-- The 2 MiB identity entry of the boot map for `block`. -/
def bigEntry (block : Nat) : BitVec 64 :=
  BitVec.ofNat 64 (block * 2 ^ 21) ||| 0x83#64

/-- The 4 KiB entry a split of the 2 MiB identity entry leaves for `page`. -/
def splitEntry (page : Nat) : BitVec 64 :=
  BitVec.ofNat 64 (page * 4096) ||| 3#64

theorem tableBase_upperEntry (user : Bool) (aligned : frame % 4096 = 0)
    (bounded : frame < identityMapEnd) : tableBase (upperEntry frame user) = frame := by
  refine tableBase_or aligned (lt_trans bounded (by decide)) ?_
  cases user <;> decide

private theorem getLsbD_upperEntry (user : Bool) (aligned : frame % 4096 = 0) (low : index < 12) :
    (upperEntry frame user).getLsbD index = (if user then 7#64 else 3#64).getLsbD index := by
  rw [upperEntry, BitVec.getLsbD_or, getLsbD_ofNat_low aligned low, Bool.false_or]

theorem upperEntry_bits (user : Bool) (aligned : frame % 4096 = 0) :
    (upperEntry frame user).getLsbD 0 = true ∧ (upperEntry frame user).getLsbD 1 = true ∧
      (upperEntry frame user).getLsbD 2 = user ∧ (upperEntry frame user).getLsbD 7 = false := by
  refine ⟨?_, ?_, ?_, ?_⟩ <;> rw [getLsbD_upperEntry user aligned (by decide)] <;>
    cases user <;> rfl

theorem getLsbD_upperEntry_nx (user : Bool) (bounded : frame < identityMapEnd) :
    (upperEntry frame user).getLsbD 63 = false := by
  rw [upperEntry, BitVec.getLsbD_or, getLsbD_ofNat_high (lt_trans bounded (by decide)) (by decide)]
  cases user <;> rfl

theorem upperEntry_or_user (frame : Nat) :
    upperEntry frame false ||| pageUser = upperEntry frame true := by
  have merged : (3#64 : BitVec 64) ||| pageUser = 7#64 := rfl
  simp only [upperEntry, if_true, Bool.false_eq_true, if_false]
  rw [BitVec.or_assoc, merged]

private theorem bigBase_aligned (block : Nat) : block * 2 ^ 21 % 4096 = 0 := by omega

theorem getLsbD_bigEntry {block : Nat} (low : index < 12) :
    (bigEntry block).getLsbD index = (0x83#64).getLsbD index := by
  rw [bigEntry, BitVec.getLsbD_or, getLsbD_ofNat_low (bigBase_aligned block) low, Bool.false_or]

theorem bigEntry_bits (block : Nat) :
    (bigEntry block).getLsbD 0 = true ∧ (bigEntry block).getLsbD 1 = true ∧
      (bigEntry block).getLsbD 2 = false ∧ (bigEntry block).getLsbD 7 = true := by
  refine ⟨?_, ?_, ?_, ?_⟩ <;> rw [getLsbD_bigEntry (by decide)] <;> rfl

theorem getLsbD_bigEntry_nx {block : Nat} (bounded : block < 2048) :
    (bigEntry block).getLsbD 63 = false := by
  rw [bigEntry, BitVec.getLsbD_or, getLsbD_ofNat_high (by omega) (by decide)]
  rfl

theorem tableBase_bigEntry {block : Nat} (bounded : block < 2048) :
    tableBase (bigEntry block) = block * 2 ^ 21 :=
  tableBase_or (bigBase_aligned block) (by omega) (by decide)

theorem tableBase_splitEntry {page : Nat} (bounded : page < 2 ^ 20) :
    tableBase (splitEntry page) = page * 4096 :=
  tableBase_or (by omega) (by omega) (by decide)

theorem getLsbD_splitEntry {page : Nat} (low : index < 12) :
    (splitEntry page).getLsbD index = (3#64).getLsbD index := by
  rw [splitEntry, BitVec.getLsbD_or, getLsbD_ofNat_low (by omega) low, Bool.false_or]

theorem getLsbD_splitEntry_nx {page : Nat} (bounded : page < 2 ^ 20) :
    (splitEntry page).getLsbD 63 = false := by
  rw [splitEntry, BitVec.getLsbD_or, getLsbD_ofNat_high (by omega) (by decide)]
  rfl

/-- The four-level table of one address space below 4 GiB. -/
structure Space where
  pml4 : Nat
  pdpt : Nat
  pd : Nat → Nat
  pt : Nat → Option Nat
  userTop : Bool
  userPdpt : Nat → Bool
  userPd : Nat → Bool
  leaf : Nat → BitVec 64

inductive Node where
  | pml4
  | pdpt
  | pd (gigabyte : Nat)
  | pt (block : Nat)
deriving DecidableEq

def leafOf (entry : BitVec 64) : Option Leaf :=
  if entry.getLsbD 0 = false then none
  else
    some
      { phys := tableBase entry
        writable := entry.getLsbD 1
        user := entry.getLsbD 2
        noExecute := entry.getLsbD 63 }

namespace Space

/-- The page is the kernel's own: identity-mapped, writable, closed to ring 3. -/
def kernelLeaf (page : Nat) : Leaf :=
  { phys := page * 4096, writable := true, user := false, noExecute := false }

def view (space : Space) (page : Nat) : Option Leaf :=
  match space.pt (page / 512) with
  | none => some (kernelLeaf page)
  | some _ => leafOf (space.leaf page)

def narrow (space : Space) (page : Nat) (leaf : Leaf) : Leaf :=
  { leaf with
    user := leaf.user && (space.userTop && (space.userPdpt (page / 2 ^ 18) &&
      space.userPd (page / 512))) }

def frameAt (space : Space) : Node → Option Nat
  | .pml4 => some space.pml4
  | .pdpt => some space.pdpt
  | .pd gigabyte => if gigabyte < 4 then some (space.pd gigabyte) else none
  | .pt block => if block < 2048 then space.pt block else none

/-- `frame` holds one of the tables of this address space. -/
def Owns (space : Space) (frame : Nat) : Prop :=
  ∃ node, space.frameAt node = some frame

/-- The entry that belongs at `index` of a table.  Nothing is mapped from 4 GiB on. -/
def entryAt (space : Space) : Node → Nat → BitVec 64
  | .pml4, index => if index = 0 then upperEntry space.pdpt space.userTop else 0#64
  | .pdpt, index =>
      if index < 4 then upperEntry (space.pd index) (space.userPdpt index) else 0#64
  | .pd gigabyte, index =>
      match space.pt (512 * gigabyte + index) with
      | some frame => upperEntry frame (space.userPd (512 * gigabyte + index))
      | none => bigEntry (512 * gigabyte + index)
  | .pt block, index => space.leaf (512 * block + index)

structure WellFormed (space : Space) : Prop where
  aligned : ∀ frame, space.Owns frame → frame % 4096 = 0
  bounded : ∀ frame, space.Owns frame → frame < identityMapEnd
  distinct : ∀ node other frame, space.frameAt node = some frame →
    space.frameAt other = some frame → node = other

def Opens (space : Space) (page : Nat) : Prop :=
  space.userTop = true ∧ space.userPdpt (page / 2 ^ 18) = true ∧ space.userPd (page / 512) = true

def UserUpward (space : Space) : Prop :=
  ∀ page, page < 2 ^ 20 → space.pt (page / 512) ≠ none →
    (space.leaf page).getLsbD 2 = true → space.Opens page

def Represents (space : Space) (mem : ByteMemory) : Prop :=
  ∀ node frame index, space.frameAt node = some frame → index < 512 →
    mem.readU64 (frame + 8 * index) = space.entryAt node index

variable {space : Space}

theorem owns_pml4 (space : Space) : space.Owns space.pml4 := ⟨.pml4, rfl⟩

theorem owns_pdpt (space : Space) : space.Owns space.pdpt := ⟨.pdpt, rfl⟩

theorem owns_pd {gigabyte : Nat} (inside : gigabyte < 4) : space.Owns (space.pd gigabyte) :=
  ⟨.pd gigabyte, by simp [frameAt, inside]⟩

theorem WellFormed.upper {gigabyte : Nat} (wellFormed : space.WellFormed) (inside : gigabyte < 4) :
    (space.pdpt % 4096 = 0 ∧ space.pdpt < identityMapEnd) ∧
      space.pd gigabyte % 4096 = 0 ∧ space.pd gigabyte < identityMapEnd :=
  ⟨⟨wellFormed.aligned _ (owns_pdpt space), wellFormed.bounded _ (owns_pdpt space)⟩,
    wellFormed.aligned _ (owns_pd inside), wellFormed.bounded _ (owns_pd inside)⟩

variable {frame block : Nat}

theorem owns_pt (inside : block < 2048) (split : space.pt block = some frame) : space.Owns frame :=
  ⟨.pt block, by simp [frameAt, inside, split]⟩

section Reads

variable {mem : ByteMemory} {virt : Nat}

theorem indices (inside : virt < identityMapEnd) :
    virt / 2 ^ 39 % 512 = 0 ∧ virt / 2 ^ 30 % 512 = virt / 2 ^ 30 ∧ virt / 2 ^ 30 < 4 ∧
      virt / 2 ^ 21 < 2048 := by
  have limit : virt < 4294967296 := inside
  omega

section

variable (represents : space.Represents mem) (inside : virt < identityMapEnd)
include represents inside

theorem Represents.pml4Entry :
    mem.readU64 (space.pml4 + 8 * (virt / 2 ^ 39 % 512)) =
      upperEntry space.pdpt space.userTop := by
  rw [(indices inside).1]
  exact represents .pml4 space.pml4 0 rfl (by decide)

theorem Represents.pdptEntry :
    mem.readU64 (space.pdpt + 8 * (virt / 2 ^ 30 % 512)) =
      upperEntry (space.pd (virt / 2 ^ 30)) (space.userPdpt (virt / 2 ^ 30)) := by
  obtain ⟨-, gigabyte, gigabyteInside, -⟩ := indices inside
  rw [gigabyte, represents .pdpt space.pdpt _ rfl (by omega)]
  simp only [entryAt, if_pos gigabyteInside]

theorem Represents.pdEntry :
    mem.readU64 (space.pd (virt / 2 ^ 30) + 8 * (virt / 2 ^ 21 % 512)) =
      match space.pt (virt / 2 ^ 21) with
      | some frame => upperEntry frame (space.userPd (virt / 2 ^ 21))
      | none => bigEntry (virt / 2 ^ 21) := by
  obtain ⟨-, -, gigabyteInside, -⟩ := indices inside
  have blockIndex : 512 * (virt / 2 ^ 30) + virt / 2 ^ 21 % 512 = virt / 2 ^ 21 := by omega
  rw [represents (.pd (virt / 2 ^ 30)) _ _ (by simp only [frameAt, if_pos gigabyteInside])
    (Nat.mod_lt _ (by decide))]
  simp only [entryAt, blockIndex]

theorem Represents.ptEntry {frame : Nat} (split : space.pt (virt / 2 ^ 21) = some frame) :
    mem.readU64 (frame + 8 * (virt / 2 ^ 12 % 512)) = space.leaf (virt / 4096) := by
  obtain ⟨-, -, -, blockInside⟩ := indices inside
  have pageIndex : 512 * (virt / 2 ^ 21) + virt / 2 ^ 12 % 512 = virt / 4096 := by omega
  rw [represents (.pt (virt / 2 ^ 21)) frame _
    (by simp only [frameAt, if_pos blockInside, split]) (Nat.mod_lt _ (by decide))]
  simp only [entryAt, pageIndex]

end

theorem walk_eq_narrowed (wellFormed : space.WellFormed) (represents : space.Represents mem)
    (inside : virt < identityMapEnd) :
    walk mem space.pml4 virt = (space.view (virt / 4096)).map (space.narrow (virt / 4096)) := by
  obtain ⟨-, -, gigabyteInside, blockInside⟩ := indices inside
  have pde := represents.pdEntry inside
  obtain ⟨⟨pdptAligned, pdptBounded⟩, pdAligned, pdBounded⟩ := wellFormed.upper gigabyteInside
  have blockOf : virt / 4096 / 512 = virt / 2 ^ 21 := by omega
  obtain ⟨top0, top1, top2, -⟩ := upperEntry_bits space.userTop pdptAligned
  obtain ⟨pdpt0, pdpt1, pdpt2, pdpt7⟩ :=
    upperEntry_bits (space.userPdpt (virt / 2 ^ 30)) pdAligned
  have topNx := getLsbD_upperEntry_nx space.userTop pdptBounded
  have pdptNx := getLsbD_upperEntry_nx (space.userPdpt (virt / 2 ^ 30)) pdBounded
  unfold walk view
  simp only [represents.pml4Entry inside, tableBase_upperEntry _ pdptAligned pdptBounded,
    represents.pdptEntry inside, tableBase_upperEntry _ pdAligned pdBounded, blockOf, top0, pdpt0,
    pdpt7, Bool.true_eq_false, Bool.false_eq_true, if_false]
  cases split : space.pt (virt / 2 ^ 21) with
  | none =>
      simp only [split] at pde
      have same : virt / 2 ^ 21 * 2 ^ 21 / 2 ^ 21 * 2 ^ 21 + virt % 2 ^ 21 / 4096 * 4096 =
          virt / 4096 * 4096 := by omega
      obtain ⟨big0, big1, big2, big7⟩ := bigEntry_bits (virt / 2 ^ 21)
      have bigNx := getLsbD_bigEntry_nx blockInside
      simp only [pde, tableBase_bigEntry blockInside, same, big0, big7, if_true,
        Bool.true_eq_false, if_false, combine, kernelLeaf, List.all_cons, List.all_nil,
        List.any_cons, List.any_nil, top1, top2, pdpt1, pdpt2, big1, big2, topNx, pdptNx, bigNx,
        Bool.and_false, Bool.and_true, Bool.or_false, Option.map_some, narrow, Bool.false_and]
  | some frame =>
      simp only [split] at pde
      have frameAligned := wellFormed.aligned _ (owns_pt blockInside split)
      have frameBounded := wellFormed.bounded _ (owns_pt blockInside split)
      obtain ⟨pd0, pd1, pd2, pd7⟩ :=
        upperEntry_bits (space.userPd (virt / 2 ^ 21)) frameAligned
      have pdNx := getLsbD_upperEntry_nx (space.userPd (virt / 2 ^ 21)) frameBounded
      have gigabyteOf : virt / 4096 / 2 ^ 18 = virt / 2 ^ 30 := by omega
      simp only [pde, tableBase_upperEntry _ frameAligned frameBounded,
        represents.ptEntry inside split, pd0, pd7,
        Bool.true_eq_false, Bool.false_eq_true, if_false, leafOf, combine, List.all_cons,
        List.all_nil, List.any_cons, List.any_nil, top1, top2, pdpt1, pdpt2, pd1, pd2, topNx,
        pdptNx, pdNx, Bool.and_true, Bool.true_and, Bool.or_false, Bool.false_or]
      have order : (space.userTop && (space.userPdpt (virt / 2 ^ 30) &&
          (space.userPd (virt / 2 ^ 21) && (space.leaf (virt / 4096)).getLsbD 2))) =
          ((space.leaf (virt / 4096)).getLsbD 2 && (space.userTop &&
            (space.userPdpt (virt / 4096 / 2 ^ 18) && space.userPd (virt / 4096 / 512)))) := by
        rw [gigabyteOf, blockOf]
        cases (space.leaf (virt / 4096)).getLsbD 2 <;>
          simp only [Bool.and_true, Bool.and_false, Bool.true_and, Bool.false_and]
      rw [order]
      split <;> rfl

end Reads

variable {mem : ByteMemory}

theorem walk_eq_view (wellFormed : space.WellFormed) (upward : space.UserUpward)
    (represents : space.Represents mem) {virt : Nat} (inside : virt < identityMapEnd) :
    walk mem space.pml4 virt = space.view (virt / 4096) := by
  have limit : virt < 4294967296 := inside
  rw [walk_eq_narrowed wellFormed represents inside]
  cases found : space.view (virt / 4096) with
  | none => rfl
  | some leaf =>
      have kept : leaf.user = true → space.Opens (virt / 4096) := by
        intro user
        cases split : space.pt (virt / 4096 / 512) with
        | none =>
            simp only [view, split, Option.some.injEq] at found
            rw [← found] at user
            cases user
        | some frame =>
            simp only [view, split, leafOf] at found
            split at found
            · cases found
            · rw [← Option.some.inj found] at user
              exact upward _ (by omega) (by simp [split]) user
      rw [Option.map_some, narrow]
      cases user : leaf.user with
      | false => rw [Bool.false_and, ← user]
      | true =>
          obtain ⟨top, pdpt, pd⟩ := kept user
          simp only [top, pdpt, pd, Bool.and_true]
          rw [← user]

theorem walk_phys (wellFormed : space.WellFormed) (represents : space.Represents mem) {virt : Nat}
    (inside : virt < identityMapEnd) :
    (walk mem space.pml4 virt).map Leaf.phys = (space.view (virt / 4096)).map Leaf.phys := by
  rw [walk_eq_narrowed wellFormed represents inside, Option.map_map]
  rfl

theorem walk_eq_none (wellFormed : space.WellFormed) (represents : space.Represents mem)
    {virt : Nat} (above : identityMapEnd ≤ virt) (canonical : virt < 2 ^ 48) :
    walk mem space.pml4 virt = none := by
  have limit : 4294967296 ≤ virt := above
  have pml4e : mem.readU64 (space.pml4 + 8 * (virt / 2 ^ 39 % 512)) =
      space.entryAt .pml4 (virt / 2 ^ 39 % 512) :=
    represents .pml4 space.pml4 _ rfl (Nat.mod_lt _ (by decide))
  unfold walk
  by_cases top : virt / 2 ^ 39 % 512 = 0
  · have pdptAligned := wellFormed.aligned _ (owns_pdpt space)
    have pdptBounded := wellFormed.bounded _ (owns_pdpt space)
    have outside : ¬ virt / 2 ^ 30 % 512 < 4 := by omega
    have pdpte : mem.readU64 (space.pdpt + 8 * (virt / 2 ^ 30 % 512)) = 0#64 := by
      rw [represents .pdpt space.pdpt _ rfl (Nat.mod_lt _ (by decide))]
      simp only [entryAt, if_neg outside]
    simp only [entryAt, top, if_true] at pml4e
    simp only [top, pml4e, tableBase_upperEntry _ pdptAligned pdptBounded, pdpte]
    simp
  · simp only [entryAt, if_neg top] at pml4e
    simp only [pml4e]
    simp

/-- Only frames in `written` may differ between the two memories. -/
def AgreeOutside (written : Nat → Prop) (mem mem' : ByteMemory) : Prop :=
  ∀ addr, ¬ written (addr / 4096 * 4096) → mem' addr = mem addr

theorem AgreeOutside.refl (written : Nat → Prop) (mem : ByteMemory) :
    AgreeOutside written mem mem :=
  fun _ _ => rfl

variable {written : Nat → Prop} {mem' : ByteMemory}

theorem AgreeOutside.trans {mem'' : ByteMemory} (first : AgreeOutside written mem mem')
    (second : AgreeOutside written mem' mem'') : AgreeOutside written mem mem'' :=
  fun addr outside => (second addr outside).trans (first addr outside)

theorem AgreeOutside.mono {larger : Nat → Prop} (agree : AgreeOutside written mem mem')
    (wider : ∀ frame, written frame → larger frame) : AgreeOutside larger mem mem' :=
  fun addr outside => agree addr (fun inside => outside (wider _ inside))

theorem AgreeOutside.readU64 {index : Nat} (agree : AgreeOutside written mem mem')
    (untouched : ¬ written frame) (aligned : frame % 4096 = 0) (inside : index < 512) :
    mem'.readU64 (frame + 8 * index) = mem.readU64 (frame + 8 * index) := by
  apply ByteMemory.readU64_congr
  intro addr lower upper
  have same : addr / 4096 * 4096 = frame := by omega
  exact agree addr (by rw [same]; exact untouched)

theorem agreeOutside_writeU64 (mem : ByteMemory) {index : Nat} (word : BitVec 64)
    (aligned : frame % 4096 = 0) (inside : index < 512) :
    AgreeOutside (fun other => other = frame) mem (mem.writeU64 (frame + 8 * index) word) := by
  intro addr outside
  have apart : ¬(frame + 8 * index ≤ addr ∧ addr < frame + 8 * index + 8) := by omega
  simp [ByteMemory.writeU64, apart]

theorem agreeOutside_writeByte (mem : ByteMemory) (addr : Nat) (byte : BitVec 8) :
    AgreeOutside (fun other => other = addr / 4096 * 4096) mem
      (mem.writeByte addr byte) := by
  intro other outside
  have different : other ≠ addr := fun same => outside (by rw [same])
  simp [ByteMemory.writeByte, different]

theorem Represents.congr (represents : space.Represents mem) (wellFormed : space.WellFormed)
    (agree : AgreeOutside written mem mem')
    (untouched : ∀ frame, space.Owns frame → ¬ written frame) : space.Represents mem' := by
  intro node frame index placed inside
  have owned : space.Owns frame := ⟨node, placed⟩
  rw [agree.readU64 (untouched frame owned) (wellFormed.aligned frame owned) inside]
  exact represents node frame index placed inside

variable {after : Space}

theorem Represents.store {node : Node} {index : Nat} {word : BitVec 64}
    (represents : space.Represents mem) (wellFormed : space.WellFormed)
    (placed : space.frameAt node = some frame) (indexBound : index < 512)
    (frames : ∀ other, after.frameAt other = space.frameAt other)
    (entries : ∀ other at', at' < 512 → after.entryAt other at' =
      if other = node ∧ at' = index then word else space.entryAt other at') :
    after.Represents (mem.writeU64 (frame + 8 * index) word) := by
  intro other base at' found inside
  rw [frames other] at found
  rw [entries other at' inside]
  have baseAligned := wellFormed.aligned base ⟨other, found⟩
  have frameAligned := wellFormed.aligned frame ⟨node, placed⟩
  by_cases same : other = node
  · subst same
    have sameFrame : base = frame := Option.some.inj (found.symm.trans placed)
    subst sameFrame
    by_cases sameIndex : at' = index
    · subst sameIndex
      simp
    · have different : ¬(other = other ∧ at' = index) := fun both => sameIndex both.2
      rw [if_neg different, ByteMemory.readU64_writeU64_of_apart _ _ _ _ (by omega)]
      exact represents other base at' found inside
  · have different : ¬(other = node ∧ at' = index) := fun both => same both.1
    have otherFrame : base ≠ frame := by
      intro equal
      subst equal
      exact same (wellFormed.distinct other node base found placed)
    rw [if_neg different, ByteMemory.readU64_writeU64_of_apart _ _ _ _ (by omega)]
    exact represents other base at' found inside

def promoteTop (space : Space) : Space :=
  { space with userTop := true }

def promotePdpt (space : Space) (gigabyte : Nat) : Space :=
  { space with userPdpt := Function.update space.userPdpt gigabyte true }

def promotePd (space : Space) (block : Nat) : Space :=
  { space with userPd := Function.update space.userPd block true }

def setLeaf (space : Space) (page : Nat) (entry : BitVec 64) : Space :=
  { space with leaf := Function.update space.leaf page entry }

/-- Replace the 2 MiB entry of `block` by a page table in `frame`. -/
def splitBlock (space : Space) (block frame : Nat) (user : Bool) : Space :=
  { space with
    pt := Function.update space.pt block (some frame)
    userPd := Function.update space.userPd block user
    leaf := fun page => if page / 512 = block then splitEntry page else space.leaf page }

theorem WellFormed.of_frames (wellFormed : space.WellFormed)
    (frames : ∀ node, after.frameAt node = space.frameAt node) : after.WellFormed := by
  have owned : ∀ frame, after.Owns frame → space.Owns frame := by
    rintro frame ⟨node, placed⟩
    exact ⟨node, (frames node) ▸ placed⟩
  refine ⟨fun frame owns => wellFormed.aligned frame (owned frame owns),
    fun frame owns => wellFormed.bounded frame (owned frame owns), ?_⟩
  intro node other frame placed found
  rw [frames] at placed found
  exact wellFormed.distinct node other frame placed found

theorem UserUpward.of_promotion (upward : space.UserUpward) (tables : after.pt = space.pt)
    (leaves : after.leaf = space.leaf) (opens : ∀ page, space.Opens page → after.Opens page) :
    after.UserUpward := by
  intro page inside split user
  rw [tables] at split
  rw [leaves] at user
  exact opens page (upward page inside split user)

variable {page : Nat}

theorem Opens.promoteTop (opens : space.Opens page) : space.promoteTop.Opens page :=
  ⟨rfl, opens.2.1, opens.2.2⟩

theorem Opens.promotePdpt (opens : space.Opens page) (gigabyte : Nat) :
    (space.promotePdpt gigabyte).Opens page := by
  refine ⟨opens.1, ?_, opens.2.2⟩
  show Function.update space.userPdpt gigabyte true (page / 2 ^ 18) = true
  rw [update_apply]
  split
  · rfl
  · exact opens.2.1

theorem Opens.promotePd (opens : space.Opens page) (block : Nat) :
    (space.promotePd block).Opens page := by
  refine ⟨opens.1, opens.2.1, ?_⟩
  show Function.update space.userPd block true (page / 512) = true
  rw [update_apply]
  split
  · rfl
  · exact opens.2.2

theorem UserUpward.setLeaf (upward : space.UserUpward) {entry : BitVec 64}
    (opens : entry.getLsbD 2 = true → space.Opens page) :
    (space.setLeaf page entry).UserUpward := by
  intro other inside split user
  by_cases same : other = page
  · subst same
    simp only [Space.setLeaf, update_self] at user
    exact opens user
  · simp only [Space.setLeaf, update_of_ne same] at user
    exact upward other inside split user

theorem frameAt_splitBlock (user : Bool) (inside : block < 2048) (node : Node) :
    (space.splitBlock block frame user).frameAt node =
      if node = .pt block then some frame else space.frameAt node := by
  cases node with
  | pml4 => rfl
  | pdpt => rfl
  | pd gigabyte => rfl
  | pt other =>
      by_cases same : other = block
      · simp [frameAt, splitBlock, same, inside]
      · simp [frameAt, splitBlock, same]

theorem owns_splitBlock {other : Nat} {user : Bool} (inside : block < 2048)
    (whole : space.pt block = none) :
    (space.splitBlock block frame user).Owns other ↔ space.Owns other ∨ other = frame := by
  constructor
  · rintro ⟨node, placed⟩
    rw [frameAt_splitBlock user inside] at placed
    by_cases same : node = .pt block
    · rw [if_pos same] at placed
      exact Or.inr (Option.some.inj placed).symm
    · rw [if_neg same] at placed
      exact Or.inl ⟨node, placed⟩
  · rintro (⟨node, placed⟩ | rfl)
    · refine ⟨node, ?_⟩
      rw [frameAt_splitBlock user inside, if_neg]
      · exact placed
      · rintro rfl
        simp [frameAt, whole] at placed
    · exact ⟨.pt block, by rw [frameAt_splitBlock user inside, if_pos rfl]⟩

theorem WellFormed.splitBlock (wellFormed : space.WellFormed) (user : Bool) (inside : block < 2048)
    (whole : space.pt block = none) (fresh : ¬ space.Owns frame) (aligned : frame % 4096 = 0)
    (bounded : frame < identityMapEnd) : (space.splitBlock block frame user).WellFormed := by
  refine ⟨?_, ?_, ?_⟩
  · intro other owned
    rcases (owns_splitBlock inside whole).mp owned with old | rfl
    · exact wellFormed.aligned other old
    · exact aligned
  · intro other owned
    rcases (owns_splitBlock inside whole).mp owned with old | rfl
    · exact wellFormed.bounded other old
    · exact bounded
  · intro node other at' placed found
    rw [frameAt_splitBlock user inside] at placed found
    by_cases first : node = .pt block <;> by_cases second : other = .pt block
    · rw [first, second]
    · rw [if_pos first] at placed
      rw [if_neg second, ← Option.some.inj placed] at found
      exact absurd ⟨other, found⟩ fresh
    · rw [if_neg first] at placed
      rw [if_pos second] at found
      rw [← Option.some.inj found] at placed
      exact absurd ⟨node, placed⟩ fresh
    · rw [if_neg first] at placed
      rw [if_neg second] at found
      exact wellFormed.distinct node other at' placed found

theorem UserUpward.splitBlock (upward : space.UserUpward) (block frame : Nat) (user : Bool) :
    (space.splitBlock block frame user).UserUpward := by
  intro page inside split userLeaf
  by_cases same : page / 512 = block
  · simp only [Space.splitBlock, same, if_true] at userLeaf
    rw [getLsbD_splitEntry (by decide)] at userLeaf
    cases userLeaf
  · simp only [Space.splitBlock, update_of_ne same] at split
    simp only [Space.splitBlock, same, if_false] at userLeaf
    obtain ⟨topUser, pdptUser, pdUser⟩ := upward page inside split userLeaf
    refine ⟨topUser, pdptUser, ?_⟩
    simp only [Space.splitBlock, update_of_ne same]
    exact pdUser

theorem leafOf_splitEntry (inside : page < 2 ^ 20) :
    leafOf (splitEntry page) = some (kernelLeaf page) := by
  have bit0 : (splitEntry page).getLsbD 0 = true := by
    rw [getLsbD_splitEntry (by decide)]
    rfl
  have bit1 : (splitEntry page).getLsbD 1 = true := by
    rw [getLsbD_splitEntry (by decide)]
    rfl
  have bit2 : (splitEntry page).getLsbD 2 = false := by
    rw [getLsbD_splitEntry (by decide)]
    rfl
  simp only [leafOf, kernelLeaf, bit0, bit1, bit2, tableBase_splitEntry inside,
    getLsbD_splitEntry_nx inside, Bool.true_eq_false, if_false]

theorem view_splitBlock {user : Bool} (whole : space.pt block = none) (inside : page < 2 ^ 20) :
    (space.splitBlock block frame user).view page = space.view page := by
  by_cases same : page / 512 = block
  · simp only [view, splitBlock, same, update_self, whole, if_true]
    exact leafOf_splitEntry inside
  · simp only [view, splitBlock, update_of_ne same, same, if_false]

theorem view_setLeaf {other : Nat} {entry : BitVec 64} :
    (space.setLeaf page entry).view other =
      if other = page ∧ space.pt (page / 512) ≠ none then leafOf entry else space.view other := by
  by_cases same : other = page
  · subst same
    cases split : space.pt (other / 512) with
    | none => simp [view, setLeaf, split]
    | some frame => simp [view, setLeaf, split]
  · simp [view, setLeaf, same]

end Space
end MachaOS.Paging
