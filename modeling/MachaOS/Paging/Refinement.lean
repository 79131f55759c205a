/-
The paging routines refine updates of the abstract address space.

`pt_entry_ptr_in` leaves every translation as it was and returns the place of
the 4 KiB entry; `map_range_in` and `unmap_range_in` then change the pages of
their range and no others.
-/

import MachaOS.Paging.Editing

namespace MachaOS.Paging

open Machine Fallible Space

private theorem bigEntry_base (block : Nat) :
    bigEntry block &&& ~~~0x1FFFFF#64 = BitVec.ofNat 64 (block * 2 ^ 21) := by
  have maskBits : ∀ index, index < 64 → (~~~0x1FFFFF#64).getLsbD index = decide (21 ≤ index) := by
    intro index inside
    interval_cases index <;> rfl
  have flagBits : ∀ index, index < 64 → 21 ≤ index → (0x83#64).getLsbD index = false := by
    intro index inside high
    interval_cases index <;> rfl
  apply BitVec.eq_of_getLsbD_eq
  intro index inside
  rw [BitVec.getLsbD_and, maskBits index inside, bigEntry, BitVec.getLsbD_or]
  by_cases high : 21 ≤ index
  · simp [high, flagBits index inside high]
  · have low : (BitVec.ofNat 64 (block * 2 ^ 21)).getLsbD index = false := by
      rw [BitVec.getLsbD_ofNat, Nat.mul_comm, Nat.testBit_two_pow_mul]
      simp [high]
    rw [low]
    simp [high]

variable {block : Nat}

private theorem bigEntry_flags (inside : block < 2048) :
    bigEntry block &&& presentMask &&& ~~~psBit = 3#64 := by
  have psBits : ∀ index, index < 64 → (~~~psBit).getLsbD index = decide (index ≠ 7) := by
    intro index bounded
    unfold psBit
    interval_cases index <;> rfl
  have lowBits : ∀ index, index < 12 →
      ((0x83#64).getLsbD index && decide (index ≠ 7)) = (3#64).getLsbD index := by
    intro index bounded
    interval_cases index <;> rfl
  have highBits : ∀ index, index < 64 → 12 ≤ index → (3#64).getLsbD index = false := by
    intro index bounded high
    interval_cases index <;> rfl
  apply BitVec.eq_of_getLsbD_eq
  intro index bounded
  rw [BitVec.getLsbD_and, BitVec.getLsbD_and, getLsbD_presentMask bounded, psBits index bounded]
  by_cases low : index < 12
  · rw [getLsbD_bigEntry low, ← lowBits index low]
    simp [low]
  · rw [highBits index bounded (by omega)]
    by_cases top : index = 63
    · subst top
      rw [getLsbD_bigEntry_nx inside]
      rfl
    · simp [low, top]

private theorem split_value (block index : Nat) :
    (BitVec.ofNat 64 (block * 2 ^ 21) + BitVec.ofNat 64 index * BitVec.ofNat 64 pageSize) |||
      3#64 = splitEntry (512 * block + index) := by
  have sum : (512 * block + index) * 4096 = block * 2 ^ 21 + index * pageSize := by
    unfold pageSize
    omega
  have product : BitVec.ofNat 64 (index * pageSize) =
      BitVec.ofNat 64 index * BitVec.ofNat 64 pageSize := BitVec.ofNat_mul ..
  rw [splitEntry, sum, BitVec.ofNat_add, product]

variable {reach : Nat → Prop} {machine : Machine} {space : Space} {frame : Nat}

theorem fillTable_spec (physBase pageFlags : BitVec 64) (editing : Editing reach space machine)
    (reached : reach frame) (fresh : ¬ space.Owns frame) {index left : Nat}
    (inside : index + left ≤ 512) :
    ∃ machine', fillTable frame physBase pageFlags index left machine = (.ok (), machine') ∧
      machine'.cr3 = machine.cr3 ∧ machine'.pmm = machine.pmm ∧
      Space.AgreeOutside (fun other => other = frame) machine.mem machine'.mem ∧
      Editing reach space machine' ∧
      (∀ at', at' < index →
        machine'.mem.readU64 (frame + 8 * at') = machine.mem.readU64 (frame + 8 * at')) ∧
      ∀ at', index ≤ at' → at' < index + left → machine'.mem.readU64 (frame + 8 * at') =
        ((physBase + BitVec.ofNat 64 at' * BitVec.ofNat 64 pageSize) ||| pageFlags) := by
  induction left generalizing index machine with
  | zero =>
      refine ⟨machine, rfl, rfl, rfl, Space.AgreeOutside.refl _ _, editing, fun _ _ => rfl, ?_⟩
      intro at' lower upper
      omega
  | succ left ih =>
      have aligned := editing.aligned frame reached
      have indexInside : index < 512 := by omega
      let word := (physBase + BitVec.ofNat 64 index * BitVec.ofNat 64 pageSize) ||| pageFlags
      have stored := editing.storeU64 word reached indexInside
      have agree := agreeOutside_writeU64 machine.mem word aligned indexInside
      have editing' : Editing reach space
          { machine with mem := machine.mem.writeU64 (frame + 8 * index) word } :=
        editing.agree_outside rfl rfl agree (by rintro _ rfl; exact reached)
          (by rintro _ rfl; exact fresh)
      obtain ⟨machine', ran, sameCr3, samePmm, rest, editing'', before, entries⟩ :=
        ih editing' (show index + 1 + left ≤ 512 by omega)
      refine ⟨machine', ?_, sameCr3, samePmm, agree.trans rest, editing'', ?_, ?_⟩
      · rw [fillTable, bind_of_ok stored]
        exact ran
      · intro at' lower
        rw [before at' (by omega)]
        exact ByteMemory.readU64_writeU64_of_apart _ _ _ _ (by omega)
      · intro at' lower upper
        by_cases here : at' = index
        · subst here
          rw [before at' (by omega)]
          exact ByteMemory.readU64_writeU64_self _ _ _
        · exact entries at' (by omega) (by omega)

/-! ### Opening the upper levels to ring 3 -/

theorem orU64_spec {index : Nat} (bits : BitVec 64) (editing : Editing reach space machine)
    (reached : reach frame) (inside : index < 512) :
    orU64 (frame + 8 * index) bits machine =
      (.ok (), { machine with
        mem := machine.mem.writeU64 (frame + 8 * index)
          (machine.mem.readU64 (frame + 8 * index) ||| bits) }) := by
  rw [orU64, bind_of_ok (editing.loadU64 reached inside)]
  exact editing.storeU64 _ reached inside

theorem and_pageUser_ne_zero (flags : BitVec 64) :
    flags &&& pageUser ≠ 0#64 ↔ flags.getLsbD 2 = true := by
  rw [Ne, and_pageUser_eq_zero]
  simp

theorem promoteUser_spec {after : Space} (node : Node) {index target : Nat} {user : Bool}
    (flags : BitVec 64) (editing : Editing reach space machine)
    (placed : space.frameAt node = some frame) (inside : index < 512)
    (current : space.entryAt node index = upperEntry target user)
    (targetAligned : target % 4096 = 0) (upward : space.UserUpward → after.UserUpward)
    (frames : ∀ other, after.frameAt other = space.frameAt other) (samePt : after.pt = space.pt)
    (entries : ∀ other at', at' < 512 → after.entryAt other at' =
      if other = node ∧ at' = index then upperEntry target true else space.entryAt other at')
    (views : ∀ page, after.view page = space.view page) (already : user = true → after = space) :
    ∃ machine', promoteUser (frame + 8 * index) (upperEntry target user) flags machine =
        (.ok (), machine') ∧
      Editing reach (if flags.getLsbD 2 then after else space) machine' ∧
      Extends space (if flags.getLsbD 2 then after else space) machine machine' [] ∧
      machine'.pmm = machine.pmm := by
  have reached : reach frame := editing.owned frame ⟨node, placed⟩
  obtain ⟨-, -, userBit, -⟩ := upperEntry_bits user targetAligned
  simp only [promoteUser, and_pageUser_ne_zero, and_pageUser_eq_zero, userBit]
  cases wanted : flags.getLsbD 2 with
  | false =>
      refine ⟨machine, ?_, editing, Extends.refl space machine, rfl⟩
      simp
  | true =>
      cases user with
      | true =>
          rw [already rfl]
          refine ⟨machine, ?_, ?_, ?_, rfl⟩
          · simp
          · simpa using editing
          · simpa using Extends.refl space machine
      | false =>
          have value : machine.mem.readU64 (frame + 8 * index) ||| pageUser =
              upperEntry target true := by
            rw [editing.represents node frame index placed inside, current, upperEntry_or_user]
          have ran := orU64_spec pageUser editing reached inside
          rw [value] at ran
          refine ⟨{ machine with
            mem := machine.mem.writeU64 (frame + 8 * index) (upperEntry target true) },
            by simpa using ran, ?_, ?_, rfl⟩
          · exact editing.store_entry placed inside frames entries
              (fun _ _ _ ⟨leaf, found, phys⟩ => ⟨leaf, (views _).trans found, phys⟩)
          · exact Extends.of_store (editing.aligned frame reached) placed inside samePt frames
              upward

section Promote

variable {reach : Nat → Prop} {space : Space} {machine : Machine}

theorem promoteTop_spec (flags : BitVec 64) (editing : Editing reach space machine) :
    ∃ machine', promoteUser (space.pml4 + 8 * 0) (upperEntry space.pdpt space.userTop) flags
        machine = (.ok (), machine') ∧
      Editing reach (if flags.getLsbD 2 then space.promoteTop else space) machine' ∧
      Extends space (if flags.getLsbD 2 then space.promoteTop else space) machine machine' [] ∧
      machine'.pmm = machine.pmm := by
  refine promoteUser_spec .pml4 flags editing rfl (by decide) rfl
    (editing.wellFormed.aligned _ (owns_pdpt space))
    (fun upward => upward.of_promotion rfl rfl (fun _ opens => opens.promoteTop)) (fun other => by cases other <;> rfl) rfl ?_ (fun _ => rfl) ?_
  · intro other at' covers
    cases other with
    | pml4 => by_cases same : at' = 0 <;> simp [Space.entryAt, Space.promoteTop, same]
    | pdpt => simp [Space.entryAt, Space.promoteTop]
    | pd other => simp [Space.entryAt, Space.promoteTop]
    | pt block => simp [Space.entryAt, Space.promoteTop]
  · intro already
    simp only [Space.promoteTop, ← already]

theorem promotePdpt_spec {gigabyte : Nat} (flags : BitVec 64)
    (editing : Editing reach space machine) (inside : gigabyte < 4) :
    ∃ machine', promoteUser (space.pdpt + 8 * gigabyte)
        (upperEntry (space.pd gigabyte) (space.userPdpt gigabyte)) flags machine =
        (.ok (), machine') ∧
      Editing reach (if flags.getLsbD 2 then space.promotePdpt gigabyte else space) machine' ∧
      Extends space (if flags.getLsbD 2 then space.promotePdpt gigabyte else space) machine
        machine' [] ∧
      machine'.pmm = machine.pmm := by
  refine promoteUser_spec .pdpt flags editing rfl (by omega)
    (by simp only [Space.entryAt, if_pos inside])
    (editing.wellFormed.aligned _ (owns_pd inside))
    (fun upward => upward.of_promotion rfl rfl (fun _ opens => opens.promotePdpt gigabyte))
    (fun other => by cases other <;> rfl) rfl ?_
    (fun _ => rfl) ?_
  · intro other at' covers
    cases other with
    | pdpt =>
        by_cases same : at' = gigabyte <;> simp [Space.entryAt, Space.promotePdpt, same, inside]
    | pml4 => simp [Space.entryAt, Space.promotePdpt]
    | pd other => simp [Space.entryAt, Space.promotePdpt]
    | pt block => simp [Space.entryAt, Space.promotePdpt]
  · intro already
    simp only [Space.promotePdpt]
    rw [Function.update_eq_self_iff.mpr already.symm]

theorem promotePd_spec {gigabyte index frame : Nat} (flags : BitVec 64)
    (editing : Editing reach space machine) (gigabyteInside : gigabyte < 4)
    (indexInside : index < 512) (split : space.pt (512 * gigabyte + index) = some frame) :
    ∃ machine', promoteUser (space.pd gigabyte + 8 * index)
        (upperEntry frame (space.userPd (512 * gigabyte + index))) flags machine =
        (.ok (), machine') ∧
      Editing reach (if flags.getLsbD 2 then space.promotePd (512 * gigabyte + index) else space)
        machine' ∧
      Extends space (if flags.getLsbD 2 then space.promotePd (512 * gigabyte + index) else space)
        machine machine' [] ∧
      machine'.pmm = machine.pmm := by
  refine promoteUser_spec (.pd gigabyte) flags editing
    (by simp only [Space.frameAt, if_pos gigabyteInside]) indexInside
    (by simp only [Space.entryAt, split])
    (editing.wellFormed.aligned _ (owns_pt (by omega) split))
    (fun upward => upward.of_promotion rfl rfl (fun _ opens => opens.promotePd _)) (fun other => by cases other <;> rfl) rfl ?_
    (fun _ => rfl) ?_
  · intro other at' covers
    cases other with
    | pd other =>
        have atInside : at' < 512 := covers
        by_cases same : 512 * other + at' = 512 * gigabyte + index
        · obtain ⟨rfl, rfl⟩ : other = gigabyte ∧ at' = index := by omega
          simp [Space.entryAt, Space.promotePd, split]
        · have different : ¬(Node.pd other = Node.pd gigabyte ∧ at' = index) := by
            rintro ⟨sameNode, rfl⟩
            exact same (by rw [Node.pd.inj sameNode])
          simp only [Space.entryAt, Space.promotePd, Function.update_of_ne same, if_neg different]
    | pml4 => simp [Space.entryAt, Space.promotePd]
    | pdpt => simp [Space.entryAt, Space.promotePd]
    | pt block => simp [Space.entryAt, Space.promotePd]
  · intro already
    simp only [Space.promotePd]
    rw [Function.update_eq_self_iff.mpr already.symm]

end Promote

theorem upperEntry_of_split (frame : Nat) (flags : BitVec 64) :
    BitVec.ofNat 64 frame ||| 3#64 ||| (flags &&& pageUser) =
      upperEntry frame (flags.getLsbD 2) := by
  have single : pageUser = BitVec.twoPow 64 2 := rfl
  rw [single, BitVec.and_twoPow, BitVec.or_assoc, upperEntry]
  cases flags.getLsbD 2 <;> rfl

theorem represents_splitBlock {mem : ByteMemory} (user : Bool) (wellFormed : space.WellFormed)
    (represents : space.Represents mem) (inside : block < 2048) (fresh : ¬ space.Owns frame)
    (aligned : frame % 4096 = 0)
    (filled : ∀ index, index < 512 →
      mem.readU64 (frame + 8 * index) = splitEntry (512 * block + index)) :
    (space.splitBlock block frame user).Represents
      (mem.writeU64 (space.pd (block / 512) + 8 * (block % 512)) (upperEntry frame user)) := by
  have directory : space.frameAt (.pd (block / 512)) = some (space.pd (block / 512)) := by
    have gigabyte : block / 512 < 4 := by omega
    simp only [Space.frameAt, if_pos gigabyte]
  have pdAligned := wellFormed.aligned _ ⟨_, directory⟩
  have recombine : 512 * (block / 512) + block % 512 = block := by omega
  intro node base index placed indexBound
  rw [frameAt_splitBlock user inside] at placed
  by_cases table : node = .pt block
  · subst table
    rw [if_pos rfl] at placed
    obtain rfl := Option.some.inj placed
    have apart : frame ≠ space.pd (block / 512) := by
      rintro rfl
      exact fresh ⟨_, directory⟩
    have same : (512 * block + index) / 512 = block := by omega
    rw [ByteMemory.readU64_writeU64_of_apart _ _ _ _ (by omega), filled index indexBound]
    simp only [Space.entryAt, Space.splitBlock, same, if_true]
  · rw [if_neg table] at placed
    have baseAligned := wellFormed.aligned base ⟨node, placed⟩
    by_cases written : node = .pd (block / 512) ∧ index = block % 512
    · obtain ⟨rfl, rfl⟩ := written
      obtain rfl := Option.some.inj (placed.symm.trans directory)
      rw [ByteMemory.readU64_writeU64_self]
      simp [Space.entryAt, Space.splitBlock, recombine]
    · have apart : space.pd (block / 512) + 8 * (block % 512) + 8 ≤ base + 8 * index ∨
          base + 8 * index + 8 ≤ space.pd (block / 512) + 8 * (block % 512) := by
        by_cases sameNode : node = .pd (block / 512)
        · subst sameNode
          obtain rfl := Option.some.inj (placed.symm.trans directory)
          have : index ≠ block % 512 := fun same => written ⟨rfl, same⟩
          omega
        · have : base ≠ space.pd (block / 512) := by
            rintro rfl
            exact sameNode (wellFormed.distinct _ _ _ placed directory)
          omega
      rw [ByteMemory.readU64_writeU64_of_apart _ _ _ _ apart,
        represents node base index placed indexBound]
      cases node with
      | pml4 => rfl
      | pdpt => rfl
      | pd gigabyte =>
          have other : 512 * gigabyte + index ≠ block := by
            intro same
            refine written ⟨?_, by omega⟩
            rw [show gigabyte = block / 512 by omega]
          simp only [Space.entryAt, Space.splitBlock, Function.update_of_ne other]
      | pt other =>
          have different : (512 * other + index) / 512 ≠ block := by
            intro same
            exact table (by rw [show other = block by omega])
          simp only [Space.entryAt, Space.splitBlock, if_neg different]

theorem split_spec (flags : BitVec 64) (editing : Editing reach space machine)
    (inside : block < 2048) (whole : space.pt block = none) (reached : reach frame)
    (fresh : ¬ space.Owns frame) (taken : ¬ machine.pmm.Free frame) :
    ∃ machine' machine'',
      fillTable frame (bigEntry block &&& ~~~0x1FFFFF#64)
        (bigEntry block &&& presentMask &&& ~~~psBit) 0 512 machine = (.ok (), machine') ∧
      storeU64 (space.pd (block / 512) + 8 * (block % 512))
        (BitVec.ofNat 64 frame ||| (bigEntry block &&& presentMask &&& ~~~psBit) |||
          (flags &&& pageUser)) machine' = (.ok (), machine'') ∧
      Editing reach (space.splitBlock block frame (flags.getLsbD 2)) machine'' ∧
      machine''.cr3 = machine.cr3 ∧ machine''.pmm = machine.pmm ∧
      Space.AgreeOutside (space.splitBlock block frame (flags.getLsbD 2)).Owns machine.mem
        machine''.mem := by
  have gigabyte : block / 512 < 4 := by omega
  have ownsPd : space.Owns (space.pd (block / 512)) := owns_pd gigabyte
  have aligned := editing.aligned frame reached
  obtain ⟨machine', ran, sameCr3, samePmm, agree, editing', -, entries⟩ :=
    fillTable_spec (bigEntry block &&& ~~~0x1FFFFF#64)
      (bigEntry block &&& presentMask &&& ~~~psBit) editing reached fresh
      (show 0 + 512 ≤ 512 by decide)
  have stored := editing'.storeU64
    (BitVec.ofNat 64 frame ||| (bigEntry block &&& presentMask &&& ~~~psBit) |||
      (flags &&& pageUser)) (editing'.owned _ ownsPd) (Nat.mod_lt block (by decide : 0 < 512))
  rw [bigEntry_flags inside] at ran stored entries
  rw [bigEntry_base] at ran entries
  rw [upperEntry_of_split] at stored
  have filled : ∀ index, index < 512 →
      machine'.mem.readU64 (frame + 8 * index) = splitEntry (512 * block + index) := by
    intro index bounded
    rw [entries index (by omega) (by omega), split_value]
  have owns : ∀ other, (space.splitBlock block frame (flags.getLsbD 2)).Owns other ↔
      space.Owns other ∨ other = frame :=
    fun other => owns_splitBlock inside whole
  have stepAgree := agreeOutside_writeU64 machine'.mem
    (upperEntry frame (flags.getLsbD 2)) (editing.aligned _ (editing.owned _ ownsPd))
    (Nat.mod_lt block (by decide : 0 < 512))
  rw [bigEntry_base, bigEntry_flags inside, upperEntry_of_split]
  refine ⟨machine', _, ran, stored, ?_, sameCr3, samePmm, ?_⟩
  · refine
      { wellFormed := editing.wellFormed.splitBlock _ inside whole fresh aligned
          (editing.bounded frame reached)
        represents := represents_splitBlock _ editing.wellFormed editing'.represents inside fresh
          aligned filled
        owned := ?_
        used := ?_
        aligned := editing.aligned
        bounded := editing.bounded
        active := ?_ }
    · intro other owned
      rcases (owns other).mp owned with old | rfl
      · exact editing.owned other old
      · exact reached
    · intro other owned
      rcases (owns other).mp owned with old | rfl
      · exact editing'.used other old
      · rw [samePmm]
        exact taken
    · refine editing'.active_of_agree rfl rfl (stepAgree.mono ?_) ?_
      · rintro other rfl
        exact editing.owned _ ownsPd
      · rintro - other otherReached ⟨leaf, found, phys⟩
        have bounded : other < 4294967296 := editing.bounded other otherReached
        exact ⟨leaf, (view_splitBlock whole (by omega)).trans found, phys⟩
  · refine (agree.mono ?_).trans (stepAgree.mono ?_)
    · rintro other rfl
      exact (owns other).mpr (Or.inr rfl)
    · rintro other rfl
      exact (owns _).mpr (Or.inl ownsPd)

/-! ### Finding the entry of a page -/

theorem tableEntry_spec (ptIdx : Nat) (flags : BitVec 64) (frames : Option (List Nat))
    (editing : Editing reach space machine) (inside : block < 2048)
    (supplied : space.pt block = none → Pmm.Supplies reach 1 machine.pmm) :
    ∃ result after machine' fresh,
      tableEntry (space.pd (block / 512) + 8 * (block % 512)) ptIdx flags frames machine =
        (.ok (result, frames.map (· ++ fresh)), machine') ∧
      Editing reach after machine' ∧ Extends space after machine machine' fresh ∧
      (∀ page, page < 2 ^ 20 → after.view page = space.view page) ∧
      machine'.pmm = (if space.pt block = none then machine.pmm.frameAlloc.2
        else machine.pmm) ∧
      after.userTop = space.userTop ∧ after.userPdpt = space.userPdpt ∧
      match result with
      | some entry => (∃ frame, after.pt block = some frame ∧ entry = frame + 8 * ptIdx) ∧
          (flags.getLsbD 2 = true → after.userPd block = true)
      | none => space.pt block = none ∧ machine.pmm.frameAlloc.1 = none := by
  have gigabyte : block / 512 < 4 := by omega
  have index : block % 512 < 512 := Nat.mod_lt _ (by decide)
  have recombine : 512 * (block / 512) + block % 512 = block := by omega
  have ownsPd : space.Owns (space.pd (block / 512)) := owns_pd gigabyte
  have keepFrames : frames.map (· ++ []) = frames := by
    cases frames <;> simp
  have loaded := editing.loadU64 (editing.owned _ ownsPd) index
  rw [editing.represents (.pd (block / 512)) _ _
    (by simp only [Space.frameAt, if_pos gigabyte]) index] at loaded
  simp only [Space.entryAt, recombine] at loaded
  unfold tableEntry
  cases split : space.pt block with
  | some frame =>
      simp only [split] at loaded
      have frameAligned := editing.wellFormed.aligned _ (owns_pt inside split)
      have frameBounded := editing.wellFormed.bounded _ (owns_pt inside split)
      obtain ⟨pd0, -, -, pd7⟩ := upperEntry_bits (space.userPd block) frameAligned
      have promoted := promotePd_spec flags editing gigabyte index
        (by rw [recombine]; exact split)
      rw [recombine] at promoted
      obtain ⟨machine', ran, editing', extends', pmm'⟩ := promoted
      refine ⟨some (frame + 8 * ptIdx), _, machine', [], ?_, editing', extends', ?_, ?_, ?_, ?_,
        ?_, ?_⟩
      · rw [bind_of_ok loaded]
        simp only [and_pagePresent_eq_zero, pd0, Bool.true_eq_false, if_false, ne_eq,
          and_psBit_eq_zero, pd7, not_true, keepFrames]
        rw [bind_of_ok loaded, bind_of_ok ran, tableBase_upperEntry _ frameAligned frameBounded]
        rfl
      · intro page _
        split <;> rfl
      · simp [pmm']
      · split <;> rfl
      · split <;> rfl
      · refine ⟨frame, ?_, rfl⟩
        split <;> exact split
      · intro wanted
        simp [wanted, Space.promotePd]
  | none =>
      simp only [split] at loaded
      obtain ⟨big0, -, -, big7⟩ := bigEntry_bits block
      have supply := supplied split
      cases given : machine.pmm.frameAlloc with
      | mk result pmm =>
          cases result with
          | none =>
              obtain ⟨rfl, -⟩ := Pmm.frameAlloc_none given
              refine ⟨none, space, machine, [], ?_, editing, Extends.refl space machine,
                fun _ _ => rfl, by simp, rfl, rfl, rfl, rfl⟩
              rw [bind_of_ok loaded]
              simp only [and_pagePresent_eq_zero, big0, Bool.true_eq_false, if_false, ne_eq,
                and_psBit_eq_zero, big7, not_false_iff, if_true, keepFrames]
              rw [bind_of_ok (show frameAlloc machine = (.ok none, machine) by
                simp [frameAlloc, given])]
              rfl
          | some frame =>
              have reached : reach frame := by
                simp only [Pmm.Supplies, given] at supply
                exact supply.1
              have wasFree := (Pmm.frameAlloc_some given).1
              have free := Pmm.free_frameAlloc given
              have fresh : ¬ space.Owns frame := fun owned => editing.used frame owned wasFree
              have editing₁ : Editing reach space { machine with pmm } :=
                editing.with_pmm (fun other still => ((free other).mp still).1)
              obtain ⟨machine', machine'', filled, stored, editing', sameCr3, samePmm, agree⟩ :=
                split_spec flags editing₁ inside split reached fresh
                  (fun still => ((free frame).mp still).2 rfl)
              refine ⟨some (frame + 8 * ptIdx), _, machine'', [frame], ?_, editing', ?_, ?_, ?_,
                rfl, rfl, ?_, ?_⟩
              · rw [bind_of_ok loaded]
                simp only [and_pagePresent_eq_zero, big0, Bool.true_eq_false, if_false, ne_eq,
                  and_psBit_eq_zero, big7, not_false_iff, if_true]
                rw [bind_of_ok (show frameAlloc machine =
                  (.ok (some frame), { machine with pmm }) by simp [frameAlloc, given])]
                simp only []
                rw [bind_of_ok filled, bind_of_ok stored]
                rfl
              · refine
                  { pml4 := rfl
                    owns := ?_
                    split := ?_
                    places := ?_
                    upward := fun upward => upward.splitBlock _ _ _
                    memory := agree
                    cr3 := sameCr3
                    limit := ?_
                    free := ?_
                    freshFree := ?_
                    nodup := List.nodup_singleton frame }
                · intro other
                  rw [owns_splitBlock inside split, List.mem_singleton]
                · intro other table present
                  have different : other ≠ block := by
                    rintro rfl
                    rw [split] at present
                    cases present
                  simp only [Space.splitBlock, Function.update_of_ne different, present]
                · intro node table placed
                  rw [frameAt_splitBlock _ inside, if_neg, placed]
                  rintro rfl
                  simp [Space.frameAt, inside, split] at placed
                · rw [samePmm]
                  exact (Pmm.frameAlloc_some given).2.1
                · intro other
                  rw [samePmm, List.mem_singleton]
                  exact free other
                · intro other member
                  rw [List.mem_singleton.mp member]
                  exact wasFree
              · intro page bounded
                exact view_splitBlock split bounded
              · simp [samePmm]
              · exact ⟨frame, by simp [Space.splitBlock], rfl⟩
              · intro wanted
                simp [Space.splitBlock, wanted]

/-- What `pt_entry_ptr_in` leaves behind when it returns the entry of `virt`: the page
has a table, and with a USER request the levels above it are open. -/
structure EntryReady (after : Space) (virt : Nat) (flags : BitVec 64) (entry : Nat) : Prop where
  table : ∃ frame, after.pt (virt / 2 ^ 21) = some frame ∧
    entry = frame + 8 * (virt / 2 ^ 12 % 512)
  upward : flags.getLsbD 2 = true → after.userTop = true ∧
    after.userPdpt (virt / 2 ^ 30) = true ∧ after.userPd (virt / 2 ^ 21) = true

variable {virt : Nat}

theorem ptEntryPtrIn_spec (flags : BitVec 64) (frames : Option (List Nat))
    (editing : Editing reach space machine) (inside : virt < identityMapEnd)
    (supplied : space.pt (virt / 2 ^ 21) = none → Pmm.Supplies reach 1 machine.pmm) :
    ∃ result after machine' fresh,
      ptEntryPtrIn space.pml4 virt flags frames machine =
        (.ok (result, frames.map (· ++ fresh)), machine') ∧
      Editing reach after machine' ∧ Extends space after machine machine' fresh ∧
      (∀ page, page < 2 ^ 20 → after.view page = space.view page) ∧
      machine'.pmm = (if space.pt (virt / 2 ^ 21) = none then machine.pmm.frameAlloc.2
        else machine.pmm) ∧
      match result with
      | some entry => EntryReady after virt flags entry
      | none => space.pt (virt / 2 ^ 21) = none ∧ machine.pmm.frameAlloc.1 = none := by
  have limit : virt < 4294967296 := inside
  have top : virt / 2 ^ 39 % 512 = 0 := by omega
  have gigabyte : virt / 2 ^ 30 % 512 = virt / 2 ^ 30 := by omega
  have gigabyteInside : virt / 2 ^ 30 < 4 := by omega
  have blockInside : virt / 2 ^ 21 < 2048 := by omega
  have gigabyteOf : virt / 2 ^ 21 / 512 = virt / 2 ^ 30 := by omega
  have pdptAligned := editing.wellFormed.aligned _ (owns_pdpt space)
  have pdptBounded := editing.wellFormed.bounded _ (owns_pdpt space)
  have pdAligned := editing.wellFormed.aligned _ (owns_pd gigabyteInside)
  have pdBounded := editing.wellFormed.bounded _ (owns_pd gigabyteInside)
  obtain ⟨top0, -, -, -⟩ := upperEntry_bits space.userTop pdptAligned
  obtain ⟨pdpt0, -, -, pdpt7⟩ := upperEntry_bits (space.userPdpt (virt / 2 ^ 30)) pdAligned
  have pml4Load := editing.loadU64 (editing.owned _ (owns_pml4 space))
    (show 0 < 512 by decide)
  rw [editing.represents .pml4 space.pml4 0 rfl (by decide)] at pml4Load
  simp only [Space.entryAt, if_true] at pml4Load
  obtain ⟨first, promotedTop, editing₁, extends₁, pmm₁⟩ := promoteTop_spec flags editing
  generalize named₁ : (if flags.getLsbD 2 then space.promoteTop else space) = space₁
    at editing₁ extends₁
  have upper₁ : space₁.pdpt = space.pdpt ∧ space₁.pd = space.pd ∧ space₁.pt = space.pt ∧
      space₁.userPdpt = space.userPdpt ∧ space₁.view = space.view ∧
      (flags.getLsbD 2 = true → space₁.userTop = true) := by
    cases wanted : flags.getLsbD 2 with
    | false =>
        rw [wanted] at named₁
        subst named₁
        exact ⟨rfl, rfl, rfl, rfl, rfl, by simp⟩
    | true =>
        rw [wanted] at named₁
        subst named₁
        exact ⟨rfl, rfl, rfl, rfl, rfl, fun _ => rfl⟩
  obtain ⟨pdpt₁, pd₁, pt₁, userPdpt₁, view₁, open₁⟩ := upper₁
  have pdptLoad := editing₁.loadU64 (editing₁.owned _ (owns_pdpt space₁))
    (show virt / 2 ^ 30 < 512 by omega)
  rw [editing₁.represents .pdpt space₁.pdpt _ rfl (by omega)] at pdptLoad
  simp only [Space.entryAt, if_pos gigabyteInside, pdpt₁, pd₁, userPdpt₁] at pdptLoad
  obtain ⟨second, promotedPdpt, editing₂, extends₂, pmm₂⟩ :=
    promotePdpt_spec flags editing₁ gigabyteInside
  rw [pdpt₁, pd₁, userPdpt₁] at promotedPdpt
  generalize named₂ : (if flags.getLsbD 2 then space₁.promotePdpt (virt / 2 ^ 30) else space₁) =
    space₂ at editing₂ extends₂
  have upper₂ : space₂.pd = space.pd ∧ space₂.pt = space.pt ∧ space₂.view = space.view ∧
      (flags.getLsbD 2 = true →
        space₂.userTop = true ∧ space₂.userPdpt (virt / 2 ^ 30) = true) := by
    cases wanted : flags.getLsbD 2 with
    | false =>
        rw [wanted] at named₂
        subst named₂
        exact ⟨pd₁, pt₁, view₁, by simp⟩
    | true =>
        rw [wanted] at named₂
        subst named₂
        exact ⟨pd₁, pt₁, view₁, fun _ => ⟨open₁ wanted, by simp [Space.promotePdpt]⟩⟩
  obtain ⟨pd₂, pt₂, view₂, open₂⟩ := upper₂
  have samePmm : second.pmm = machine.pmm := pmm₂.trans pmm₁
  obtain ⟨result, after, machine', fresh, ran, editing', extends', views, pmm', sameTop,
      samePdpt, outcome⟩ :=
    tableEntry_spec (virt / 2 ^ 12 % 512) flags frames editing₂ blockInside
      (by rw [pt₂, samePmm]; exact supplied)
  rw [gigabyteOf, pd₂] at ran
  rw [pt₂, samePmm] at pmm' outcome
  refine ⟨result, after, machine', fresh, ?_, editing', ?_, ?_, pmm', ?_⟩
  · unfold ptEntryPtrIn
    simp only [top, gigabyte]
    rw [bind_of_ok pml4Load]
    simp only [and_pagePresent_eq_zero, top0, Bool.true_eq_false, if_false]
    rw [bind_of_ok promotedTop, tableBase_upperEntry _ pdptAligned pdptBounded, bind_of_ok pdptLoad]
    simp only [pdpt0, ne_eq, and_psBit_eq_zero, pdpt7, Bool.true_eq_false, not_true, or_self,
      if_false]
    rw [bind_of_ok promotedPdpt, tableBase_upperEntry _ pdAligned pdBounded]
    exact ran
  · simpa using (extends₁.trans extends₂).trans extends'
  · intro page bounded
    rw [views page bounded, view₂]
  · cases result with
    | none => exact outcome
    | some entry =>
        refine ⟨outcome.1, ?_⟩
        intro wanted
        obtain ⟨openTop, openPdpt⟩ := open₂ wanted
        exact ⟨by rw [sameTop, openTop], by rw [samePdpt, openPdpt], outcome.2 wanted⟩

theorem ptEntryPtrIn_directory (flags : BitVec 64) (frames : Option (List Nat))
    (wellFormed : space.WellFormed) (represents : space.Represents machine.mem)
    (active : machine.cr3 = space.pml4) (topDirect : space.Direct space.pml4)
    (pdptDirect : space.Direct space.pdpt) (inside : virt < identityMapEnd)
    (closed : flags.getLsbD 2 = false) :
    ptEntryPtrIn space.pml4 virt flags frames machine =
      tableEntry (space.pd (virt / 2 ^ 30) + 8 * (virt / 2 ^ 21 % 512)) (virt / 2 ^ 12 % 512)
        flags frames machine := by
  have limit : virt < 4294967296 := inside
  have top : virt / 2 ^ 39 % 512 = 0 := by omega
  have gigabyte : virt / 2 ^ 30 % 512 = virt / 2 ^ 30 := by omega
  have gigabyteInside : virt / 2 ^ 30 < 4 := by omega
  have pml4Aligned := wellFormed.aligned _ (owns_pml4 space)
  have pml4Bounded := wellFormed.bounded _ (owns_pml4 space)
  obtain ⟨⟨pdptAligned, pdptBounded⟩, pdAligned, pdBounded⟩ := wellFormed.upper gigabyteInside
  obtain ⟨top0, -, -, -⟩ := upperEntry_bits space.userTop pdptAligned
  obtain ⟨pdpt0, -, -, pdpt7⟩ := upperEntry_bits (space.userPdpt (virt / 2 ^ 30)) pdAligned
  have fourGiB : identityMapEnd = 4294967296 := rfl
  have loads : ∀ {frame index : Nat}, space.Direct frame → frame % 4096 = 0 →
      frame < identityMapEnd → index < 512 → loadU64 (frame + 8 * index) machine =
        (.ok (machine.mem.readU64 (frame + 8 * index)), machine) := by
    intro frame index direct aligned bounded below
    obtain ⟨leaf, found, phys⟩ := direct
    rw [show frame / 4096 = (frame + 8 * index) / 4096 by omega] at found
    have resolved := resolve_of_view wellFormed represents active (by omega) found
    rw [phys, show frame + (frame + 8 * index) % 4096 = frame + 8 * index by omega] at resolved
    unfold loadU64
    rw [resolved]
  have pml4Load := @loads _ 0 topDirect pml4Aligned pml4Bounded (by decide)
  rw [represents .pml4 space.pml4 0 rfl (by decide)] at pml4Load
  simp only [Space.entryAt, if_true] at pml4Load
  have pdptLoad := @loads _ (virt / 2 ^ 30) pdptDirect pdptAligned pdptBounded (by omega)
  rw [represents .pdpt space.pdpt _ rfl (by omega)] at pdptLoad
  simp only [Space.entryAt, if_pos gigabyteInside] at pdptLoad
  have stays : ∀ addr entry, promoteUser addr entry flags machine = (.ok (), machine) := by
    intro addr entry
    unfold promoteUser
    rw [if_neg]
    · rfl
    · exact fun both => both.1 ((and_pageUser_eq_zero flags).mpr closed)
  unfold ptEntryPtrIn
  simp only [top, gigabyte]
  rw [bind_of_ok pml4Load]
  simp only [and_pagePresent_eq_zero, top0, Bool.true_eq_false, if_false]
  rw [bind_of_ok (stays _ _), tableBase_upperEntry _ pdptAligned pdptBounded, bind_of_ok pdptLoad]
  simp only [pdpt0, ne_eq, and_psBit_eq_zero, pdpt7, Bool.true_eq_false, not_true, or_self,
    if_false]
  rw [bind_of_ok (stays _ _), tableBase_upperEntry _ pdAligned pdBounded]

theorem setLeaf_spec {page : Nat} (entry : BitVec 64) (editing : Editing reach space machine)
    (inside : page < 2 ^ 20) (table : space.pt (page / 512) = some frame)
    (opens : entry.getLsbD 2 = true → space.Opens page)
    (direct : machine.cr3 = space.pml4 → reach (page * 4096) →
      ∃ leaf, leafOf entry = some leaf ∧ leaf.phys = page * 4096) :
    ∃ machine', storeU64 (frame + 8 * (page % 512)) entry machine = (.ok (), machine') ∧
      Editing reach (space.setLeaf page entry) machine' ∧
      Extends space (space.setLeaf page entry) machine machine' [] ∧
      machine'.pmm = machine.pmm := by
  have blockInside : page / 512 < 2048 := by omega
  have index : page % 512 < 512 := Nat.mod_lt _ (by decide)
  have recombine : 512 * (page / 512) + page % 512 = page := by omega
  have placed : space.frameAt (.pt (page / 512)) = some frame := by
    simp only [Space.frameAt, if_pos blockInside, table]
  have reached : reach frame := editing.owned frame ⟨_, placed⟩
  have frames : ∀ other, (space.setLeaf page entry).frameAt other = space.frameAt other := by
    intro other
    cases other <;> rfl
  refine ⟨{ machine with mem := machine.mem.writeU64 (frame + 8 * (page % 512)) entry },
    editing.storeU64 entry reached index, ?_, ?_, rfl⟩
  · refine editing.store_entry placed index frames ?_ ?_
    · intro other at' covers
      cases other with
      | pml4 => simp [Space.entryAt, Space.setLeaf]
      | pdpt => simp [Space.entryAt, Space.setLeaf]
      | pd gigabyte => simp [Space.entryAt, Space.setLeaf]
      | pt block =>
          have atInside : at' < 512 := covers
          by_cases same : 512 * block + at' = page
          · obtain ⟨rfl, rfl⟩ : block = page / 512 ∧ at' = page % 512 := by omega
            simp [Space.entryAt, Space.setLeaf, recombine]
          · have different : ¬(Node.pt block = Node.pt (page / 512) ∧ at' = page % 512) := by
              rintro ⟨sameNode, rfl⟩
              rw [Node.pt.inj sameNode] at same
              exact same recombine
            simp only [Space.entryAt, Space.setLeaf, Function.update_of_ne same, if_neg different]
    · rintro atCr3 other otherReached ⟨leaf, found, phys⟩
      have otherAligned := editing.aligned other otherReached
      by_cases same : other / 4096 = page
      · subst same
        rw [show other / 4096 * 4096 = other by omega] at direct
        obtain ⟨mapped, present, target⟩ := direct atCr3 otherReached
        refine ⟨mapped, ?_, target⟩
        rw [view_setLeaf, if_pos ⟨rfl, by simp [table]⟩]
        exact present
      · refine ⟨leaf, ?_, phys⟩
        rw [view_setLeaf, if_neg (fun both => same both.1)]
        exact found
  · exact Extends.of_store (editing.aligned frame reached) placed index rfl frames
      (fun upward => upward.setLeaf opens)

/-! ### Mapping a range -/

/-- The translation `map_range_in` installs. -/
def leafFor (flags : BitVec 64) (phys : Nat) : Leaf :=
  { phys
    writable := flags.getLsbD 1
    user := flags.getLsbD 2
    noExecute := flags.getLsbD 63 }

private theorem getLsbD_mapped {phys index : Nat} {flags : BitVec 64}
    (place : (index < 12 ∧ phys % 4096 = 0) ∨ (index = 63 ∧ phys < 2 ^ 52)) :
    (BitVec.ofNat 64 phys ||| (flags &&& presentMask) ||| pagePresent).getLsbD index =
      (flags.getLsbD index || decide (index = 0)) := by
  have clear : (BitVec.ofNat 64 phys).getLsbD index = false := by
    rcases place with ⟨low, aligned⟩ | ⟨rfl, bounded⟩
    · exact getLsbD_ofNat_low aligned low
    · exact getLsbD_ofNat_high bounded (by decide)
  have bounded : index < 64 := by omega
  have kept : (index < 12 ∨ index = 63) := by omega
  have present : pagePresent.getLsbD index = decide (index = 0) := by
    unfold pagePresent
    interval_cases index <;> rfl
  rw [BitVec.getLsbD_or, BitVec.getLsbD_or, BitVec.getLsbD_and, getLsbD_presentMask bounded,
    clear, present]
  simp [kept]

theorem leafOf_mapped {phys : Nat} (flags : BitVec 64) (aligned : phys % 4096 = 0)
    (bounded : phys < 2 ^ 52) :
    leafOf (BitVec.ofNat 64 phys ||| (flags &&& presentMask) ||| pagePresent) =
      some (leafFor flags phys) := by
  have attributes : ((flags &&& presentMask) ||| pagePresent) &&& addrMask = 0#64 := by
    apply BitVec.eq_of_getLsbD_eq
    intro index inside
    have present : pagePresent.getLsbD index = decide (index = 0) := by
      unfold pagePresent
      interval_cases index <;> rfl
    rw [BitVec.getLsbD_and, BitVec.getLsbD_or, BitVec.getLsbD_and,
      getLsbD_presentMask inside, getLsbD_addrMask inside, present]
    by_cases middle : 12 ≤ index ∧ index < 52
    · have notFlag : ¬(index < 12 ∨ index = 63) := by omega
      have notPresent : index ≠ 0 := by omega
      simp [notFlag, notPresent]
    · simp [middle]
  have base : tableBase (BitVec.ofNat 64 phys ||| (flags &&& presentMask) ||| pagePresent) =
      phys := by
    rw [BitVec.or_assoc]
    exact tableBase_or aligned bounded attributes
  simp only [leafOf, leafFor, base, getLsbD_mapped (Or.inl ⟨show 0 < 12 by decide, aligned⟩),
    getLsbD_mapped (Or.inl ⟨show 1 < 12 by decide, aligned⟩),
    getLsbD_mapped (Or.inl ⟨show 2 < 12 by decide, aligned⟩),
    getLsbD_mapped (Or.inr ⟨rfl, bounded⟩)]
  simp

/-- An upper bound on the page tables a range of pages still needs: one for every 2 MiB
block after the first, and one for the first if it is not split yet. -/
def tablesNeeded (space : Space) (page count : Nat) : Nat :=
  if count = 0 then 0
  else (page + count - 1) / 512 - page / 512 + (if space.pt (page / 512) = none then 1 else 0)

theorem tablesNeeded_step {space after : Space} {page count : Nat}
    (opened : after.pt (page / 512) ≠ none) :
    tablesNeeded after (page + 1) count + (if space.pt (page / 512) = none then 1 else 0) ≤
      tablesNeeded space page (count + 1) := by
  unfold tablesNeeded
  by_cases last : count = 0
  · subst last
    simp
  · rw [if_neg last, if_neg (Nat.succ_ne_zero count)]
    by_cases sameBlock : (page + 1) / 512 = page / 512
    · have ready : ¬ after.pt ((page + 1) / 512) = none := by
        rw [sameBlock]
        exact opened
      rw [if_neg ready]
      omega
    · have bound : (if after.pt ((page + 1) / 512) = none then 1 else 0) ≤ 1 := by
        split <;> omega
      omega

/-- The state of a mapping loop after `mapped` of its pages. -/
structure MappedPrefix (space after : Space) (page phys : Nat) (flags : BitVec 64)
    (mapped : Nat) : Prop where
  views : ∀ other, other < 2 ^ 20 → after.view other =
    if page ≤ other ∧ other < page + mapped then
      some (leafFor flags (phys + (other - page) * 4096))
    else space.view other
  tables : ∀ index, index < mapped → after.pt ((page + index) / 512) ≠ none

theorem mapPages_spec (page phys : Nat) {count : Nat} (flags : BitVec 64) (frames : List Nat)
    (editing : Editing reach space machine) (fits : page + count ≤ 2 ^ 20)
    (aligned : phys % 4096 = 0) (bounded : phys + count * 4096 ≤ 2 ^ 52)
    (direct : machine.cr3 = space.pml4 → ∀ index, index < count →
      reach ((page + index) * 4096) → phys + index * 4096 = (page + index) * 4096)
    (supplied : Pmm.Supplies reach (tablesNeeded space page count) machine.pmm) :
    ∃ done after machine' fresh mapped,
      mapPages space.pml4 flags count (page * 4096) phys frames machine =
        (.ok (done, frames ++ fresh), machine') ∧
      Editing reach after machine' ∧ Extends space after machine machine' fresh ∧
      mapped ≤ count ∧ MappedPrefix space after page phys flags mapped ∧
      (done = true → mapped = count) ∧
      (Pmm.Stocked (tablesNeeded space page count) machine.pmm → done = true) ∧
      ∃ taken, taken ≤ tablesNeeded space page count ∧ machine'.pmm = machine.pmm.allocs taken := by
  induction count generalizing space machine page phys frames with
  | zero =>
      refine ⟨true, space, machine, [], 0, by simp [mapPages], editing,
        Extends.refl space machine, le_refl 0, ⟨?_, ?_⟩, fun _ => rfl, fun _ => rfl, 0,
        Nat.zero_le _, rfl⟩
      · intro other _
        rw [if_neg (by omega)]
      · intro index never
        omega
  | succ count ih =>
      have pageInside : page < 2 ^ 20 := by omega
      have blockOf : page * 4096 / 2 ^ 21 = page / 512 := by omega
      have gigabyteOf : page * 4096 / 2 ^ 30 = page / 2 ^ 18 := by omega
      have indexOf : page * 4096 / 2 ^ 12 % 512 = page % 512 := by omega
      have virtInside : page * 4096 < identityMapEnd := by
        unfold identityMapEnd
        omega
      have needed : space.pt (page / 512) = none → 1 ≤ tablesNeeded space page (count + 1) := by
        intro whole
        simp [tablesNeeded, whole]
      obtain ⟨result, after, machine', fresh, found, editing', extends', views, pmm', outcome⟩ :=
        ptEntryPtrIn_spec (flags &&& presentMask) (some frames) editing virtInside
          (fun whole => supplied.of_le (needed (blockOf ▸ whole)))
      rw [blockOf] at pmm'
      rw [mapPages, bind_of_ok found]
      cases result with
      | none =>
          refine ⟨false, after, machine', fresh, 0, rfl, editing', extends', Nat.zero_le _,
            ⟨?_, ?_⟩, by simp, ?_, 1, needed (blockOf ▸ outcome.1), ?_⟩
          · intro other inside
            rw [if_neg (by omega), views other inside]
          · intro index never
            omega
          · intro stocked
            rw [blockOf] at outcome
            have one := stocked.of_le (needed outcome.1)
            unfold Pmm.Stocked at one
            split at one
            · rename_i frame pmm given
              rw [given] at outcome
              cases outcome.2
            · exact absurd one id
          · rw [pmm', if_pos (blockOf ▸ outcome.1)]
            rfl
      | some entry =>
          obtain ⟨⟨frame, table, rfl⟩, upward⟩ := outcome
          rw [blockOf] at table upward
          rw [gigabyteOf] at upward
          let word := BitVec.ofNat 64 phys ||| (flags &&& presentMask) ||| pagePresent
          have userBit : word.getLsbD 2 = flags.getLsbD 2 := by
            rw [getLsbD_mapped (Or.inl ⟨by decide, aligned⟩)]
            simp
          have maskedUser : (flags &&& presentMask).getLsbD 2 = flags.getLsbD 2 := by
            rw [BitVec.getLsbD_and, getLsbD_presentMask (by decide)]
            simp
          obtain ⟨machine'', stored, editing'', extends'', samePmm⟩ :=
            setLeaf_spec word editing' pageInside table
              (fun user => upward (by rw [maskedUser, ← userBit]; exact user))
              (fun atCr3 reached => by
                rw [extends'.cr3, extends'.pml4] at atCr3
                refine ⟨_, leafOf_mapped flags aligned (by omega), ?_⟩
                have target := direct atCr3 0 (by omega) (by simpa using reached)
                show phys = page * 4096
                omega)
          have opened : (after.setLeaf page word).pt (page / 512) ≠ none := by
            simp [Space.setLeaf, table]
          have budget : tablesNeeded (after.setLeaf page word) (page + 1) count +
              (if space.pt (page / 512) = none then 1 else 0) ≤
                tablesNeeded space page (count + 1) := tablesNeeded_step opened
          have supplied' : Pmm.Supplies reach
              (tablesNeeded (after.setLeaf page word) (page + 1) count) machine''.pmm := by
            rw [samePmm, pmm']
            split
            · rename_i whole
              rw [if_pos whole] at budget
              exact (supplied.of_le budget).next
            · rename_i split
              rw [if_neg split] at budget
              exact supplied.of_le budget
          obtain ⟨done, final, machine₃, later, mapped, ran, editing₃, extends₃, atMost, mapped₃,
              complete, progress, taken, few, drawn⟩ :=
            ih (page + 1) (phys + 4096) (frames ++ fresh) editing'' (by omega)
              (by omega) (by omega)
              (fun atCr3 index inside reached => by
                rw [extends''.cr3, extends'.cr3, extends''.pml4, extends'.pml4] at atCr3
                have here := direct atCr3 (index + 1) (by omega)
                rw [show page + (index + 1) = page + 1 + index by omega] at here
                have target := here reached
                omega)
              supplied'
          refine ⟨done, final, machine₃, fresh ++ later, mapped + 1, ?_, editing₃, ?_, by omega,
            ⟨?_, ?_⟩, ?_, ?_, taken + (if space.pt (page / 512) = none then 1 else 0), by omega, ?_⟩
          · have next : page * 4096 + pageSize = (page + 1) * 4096 := by
              unfold pageSize
              omega
            have samePml4 : (after.setLeaf page word).pml4 = space.pml4 := extends'.pml4
            simp only [indexOf, Option.map_some, Option.getD_some, next]
            rw [bind_of_ok stored, ← samePml4, ← List.append_assoc]
            exact ran
          · simpa using (extends'.trans extends'').trans extends₃
          · intro other inside
            rw [mapped₃.views other inside, view_setLeaf, table]
            by_cases here : other = page
            · subst here
              rw [if_neg (by omega), if_pos ⟨rfl, by simp⟩, if_pos (by omega)]
              simp only [Nat.sub_self, Nat.zero_mul, Nat.add_zero]
              exact leafOf_mapped flags aligned (by omega)
            · have elsewhere : ¬(other = page ∧ some frame ≠ none) := fun both => here both.1
              rw [if_neg elsewhere, views other inside]
              by_cases later : page + 1 ≤ other ∧ other < page + 1 + mapped
              · rw [if_pos later, if_pos (by omega),
                  show phys + 4096 + (other - (page + 1)) * 4096 =
                    phys + (other - page) * 4096 by omega]
              · rw [if_neg later, if_neg (by omega)]
          · intro index inside
            by_cases first : index = 0
            · subst first
              have kept := extends₃.split (page / 512) frame (by simp [Space.setLeaf, table])
              rw [Nat.add_zero, kept]
              simp
            · have := mapped₃.tables (index - 1) (by omega)
              rwa [show page + 1 + (index - 1) = page + index by omega] at this
          · intro finished
            rw [complete finished]
          · intro stocked
            apply progress
            rw [samePmm, pmm']
            split
            · rename_i whole
              rw [if_pos whole] at budget
              exact (stocked.of_le budget).next
            · rename_i split
              rw [if_neg split] at budget
              exact stocked.of_le budget
          · rw [drawn, samePmm, pmm']
            split <;> rfl

/-- The arguments `map_range_in` and `unmap_range_in` accept. -/
def ValidRange (virt len : Nat) : Prop :=
  virt % 4096 = 0 ∧ len % 4096 = 0 ∧ 0 < len ∧ virt + len ≤ identityMapEnd

variable {len : Nat}

theorem mapRangeIn_invalid {phys : Nat} (pml4 : Nat) (flags : BitVec 64) (frames : List Nat)
    (machine : Machine) (invalid : ¬ ValidRange virt len) :
    mapRangeIn pml4 virt phys len flags frames machine = (.ok (false, frames), machine) := by
  unfold mapRangeIn
  rw [if_pos]
  · rfl
  · unfold ValidRange at invalid
    unfold pageSize
    omega

theorem mapRangeIn_spec {phys : Nat} (flags : BitVec 64) (frames : List Nat)
    (editing : Editing reach space machine) (valid : ValidRange virt len)
    (aligned : phys % 4096 = 0) (bounded : phys + len ≤ 2 ^ 52)
    (direct : machine.cr3 = space.pml4 → ∀ frame, reach frame → virt ≤ frame →
      frame < virt + len → phys + (frame - virt) = frame)
    (supplied : Pmm.Supplies reach (tablesNeeded space (virt / 4096) (len / 4096)) machine.pmm) :
    ∃ done after machine' fresh mapped,
      mapRangeIn space.pml4 virt phys len flags frames machine =
        (.ok (done, frames ++ fresh), machine') ∧
      Editing reach after machine' ∧ Extends space after machine machine' fresh ∧
      mapped ≤ len / 4096 ∧ MappedPrefix space after (virt / 4096) phys flags mapped ∧
      (done = true → mapped = len / 4096) ∧
      (Pmm.Stocked (tablesNeeded space (virt / 4096) (len / 4096)) machine.pmm → done = true) ∧
      ∃ taken, taken ≤ tablesNeeded space (virt / 4096) (len / 4096) ∧
        machine'.pmm = machine.pmm.allocs taken := by
  obtain ⟨virtAligned, lenAligned, positive, inside⟩ := valid
  have limit : virt + len ≤ 4294967296 := inside
  have accepted : ¬(virt % pageSize ≠ 0 ∨ phys % pageSize ≠ 0 ∨ len % pageSize ≠ 0 ∨ len = 0 ∨
      virt + len > identityMapEnd) := by
    unfold pageSize
    omega
  have recombine : virt / 4096 * 4096 = virt := by omega
  unfold mapRangeIn
  rw [if_neg accepted]
  have spec := mapPages_spec (virt / 4096) phys flags frames editing
    (show virt / 4096 + len / 4096 ≤ 2 ^ 20 by omega) aligned (by omega)
    (fun atCr3 index below reached => by
      have target := direct atCr3 _ reached (by omega) (by omega)
      omega) supplied
  rw [recombine] at spec
  exact spec

/-! ### Clearing a range -/

theorem unmapPage_outcome {page : Nat} (editing : Editing reach space machine)
    (inside : page < 2 ^ 20)
    (supplied : space.pt (page / 512) = none → Pmm.Supplies reach 1 machine.pmm)
    (apart : machine.cr3 = space.pml4 → ¬ reach (page * 4096)) :
    ∃ after machine' fresh, unmapPage space.pml4 (page * 4096) machine = (.ok (), machine') ∧
      Editing reach after machine' ∧ Extends space after machine machine' fresh ∧
      machine'.pmm = (if space.pt (page / 512) = none then machine.pmm.frameAlloc.2
        else machine.pmm) ∧
      ((after.pt (page / 512) ≠ none ∧ ∀ other, other < 2 ^ 20 →
          after.view other = if other = page then none else space.view other) ∨
        (space.pt (page / 512) = none ∧ machine.pmm.frameAlloc.1 = none ∧
          ∀ other, other < 2 ^ 20 → after.view other = space.view other)) := by
  have blockOf : page * 4096 / 2 ^ 21 = page / 512 := by omega
  have indexOf : page * 4096 / 2 ^ 12 % 512 = page % 512 := by omega
  have virtInside : page * 4096 < identityMapEnd := by
    unfold identityMapEnd
    omega
  obtain ⟨result, opened, machine', fresh, found, editing', extends', views, pmm', outcome⟩ :=
    ptEntryPtrIn_spec 0#64 none editing virtInside (by rw [blockOf]; exact supplied)
  rw [blockOf] at pmm'
  cases result with
  | none =>
      rw [blockOf] at outcome
      refine ⟨opened, machine', fresh, ?_, editing', extends', pmm',
        Or.inr ⟨outcome.1, outcome.2, views⟩⟩
      rw [unmapPage, bind_of_ok found]
      rfl
  | some entry =>
      obtain ⟨⟨frame, split, rfl⟩, -⟩ := outcome
      rw [blockOf] at split
      obtain ⟨machine'', stored, editing'', extends'', samePmm⟩ :=
        setLeaf_spec 0#64 editing' inside split (by simp) (by
          rw [extends'.cr3, extends'.pml4]
          exact fun atCr3 reached => absurd reached (apart atCr3))
      refine ⟨opened.setLeaf page 0#64, machine'', fresh, ?_, editing'',
        by simpa using extends'.trans extends'', samePmm.trans pmm', Or.inl ⟨?_, ?_⟩⟩
      · rw [unmapPage, bind_of_ok found]
        simp only [indexOf]
        exact stored
      · simp [Space.setLeaf, split]
      · intro other bounded
        rw [view_setLeaf, split]
        by_cases same : other = page
        · subst same
          simp [leafOf]
        · simp only [same, false_and, if_false]
          exact views other bounded

/-- What a clearing loop leaves: pages outside the range as they were, pages inside it gone,
but for those of a 2 MiB entry that could not be split. -/
structure Clears (space after : Space) (page count : Nat) : Prop where
  outside : ∀ other, other < 2 ^ 20 → ¬(page ≤ other ∧ other < page + count) →
    after.view other = space.view other
  inside : ∀ other, page ≤ other → other < page + count → after.view other = none ∨
    space.pt (other / 512) = none ∧ after.view other = space.view other

theorem unmapPages_outcome (page : Nat) {count : Nat} (editing : Editing reach space machine)
    (fits : page + count ≤ 2 ^ 20)
    (supplied : (∃ index, index < count ∧ space.pt ((page + index) / 512) = none) →
      ∀ needed, Pmm.Supplies reach needed machine.pmm)
    (apart : machine.cr3 = space.pml4 → ∀ index, index < count → ¬ reach ((page + index) * 4096)) :
    ∃ after machine' fresh,
      unmapPages space.pml4 count (page * 4096) machine = (.ok (), machine') ∧
      Editing reach after machine' ∧ Extends space after machine machine' fresh ∧
      Clears space after page count ∧
      ((∀ index, index < count → space.pt ((page + index) / 512) ≠ none) →
        machine'.pmm = machine.pmm) := by
  induction count generalizing space machine page with
  | zero =>
      exact ⟨space, machine, [], rfl, editing, Extends.refl space machine,
        ⟨fun _ _ _ => rfl, fun other low high => by omega⟩, fun _ => rfl⟩
  | succ count ih =>
      obtain ⟨middle, machine', first, ran, editing', extends', pmm', outcome⟩ :=
        unmapPage_outcome editing (show page < 2 ^ 20 by omega)
          (fun whole => supplied ⟨0, by omega, whole⟩ 1) (fun atCr3 => apart atCr3 0 (by omega))
      have whole : ∀ block, middle.pt block = none → space.pt block = none := by
        intro block absent
        cases split : space.pt block with
        | none => rfl
        | some frame =>
            rw [extends'.split block frame split] at absent
            cases absent
      have supplied' : (∃ index, index < count ∧ middle.pt ((page + 1 + index) / 512) = none) →
          ∀ needed, Pmm.Supplies reach needed machine'.pmm := by
        rintro ⟨index, below, absent⟩ needed
        have early := supplied ⟨index + 1, by omega, by
          rw [show page + (index + 1) = page + 1 + index by omega]
          exact whole _ absent⟩
        rw [pmm']
        split
        · exact (early (needed + 1)).next
        · exact early needed
      obtain ⟨after, machine'', later, rest, editing'', extends'', clears, pmm''⟩ :=
        ih (page + 1) editing' (by omega) supplied'
          (fun atCr3 index inside => by
            rw [extends'.cr3, extends'.pml4] at atCr3
            have clear := apart atCr3 (index + 1) (by omega)
            rwa [show page + (index + 1) = page + 1 + index by omega] at clear)
      have views : ∀ other, other < 2 ^ 20 → other ≠ page →
          middle.view other = space.view other := by
        intro other below different
        rcases outcome with ⟨-, cleared⟩ | ⟨-, -, kept⟩
        · rw [cleared other below, if_neg different]
        · exact kept other below
      refine ⟨after, machine'', first ++ later, ?_, editing'', extends'.trans extends'', ⟨?_, ?_⟩,
        ?_⟩
      · have next : page * 4096 + pageSize = (page + 1) * 4096 := by
          unfold pageSize
          omega
        rw [unmapPages, bind_of_ok ran, next, ← extends'.pml4]
        exact rest
      · intro other below outside
        rw [clears.outside other below (by omega), views other below (by omega)]
      · intro other low high
        by_cases here : other = page
        · subst here
          rw [clears.outside other (by omega) (by omega)]
          rcases outcome with ⟨-, cleared⟩ | ⟨absent, -, kept⟩
          · exact Or.inl (by rw [cleared other (by omega), if_pos rfl])
          · exact Or.inr ⟨absent, kept other (by omega)⟩
        · rcases clears.inside other (by omega) (by omega) with gone | ⟨absent, kept⟩
          · exact Or.inl gone
          · exact Or.inr ⟨whole _ absent, by rw [kept, views other (by omega) here]⟩
      · intro tables
        have here : space.pt (page / 512) ≠ none := tables 0 (by omega)
        rw [if_neg here] at pmm'
        refine (pmm'' (fun index below => ?_)).trans pmm'
        intro absent
        refine tables (index + 1) (by omega) ?_
        rw [show page + (index + 1) = page + 1 + index by omega]
        exact whole _ absent

theorem unmapPages_spec (page : Nat) {count : Nat} (editing : Editing reach space machine)
    (fits : page + count ≤ 2 ^ 20)
    (tables : ∀ index, index < count → space.pt ((page + index) / 512) ≠ none)
    (apart : machine.cr3 = space.pml4 → ∀ index, index < count → ¬ reach ((page + index) * 4096)) :
    ∃ after machine', unmapPages space.pml4 count (page * 4096) machine = (.ok (), machine') ∧
      Editing reach after machine' ∧ Extends space after machine machine' [] ∧
      machine'.pmm = machine.pmm ∧
      ∀ other, other < 2 ^ 20 → after.view other =
        if page ≤ other ∧ other < page + count then none else space.view other := by
  obtain ⟨after, machine', fresh, ran, editing', extends', clears, pmm'⟩ :=
    unmapPages_outcome page editing fits
      (fun ⟨index, below, absent⟩ => absurd absent (tables index below)) apart
  have samePmm := pmm' tables
  have noFresh : fresh = [] := by
    -- The allocator is untouched, so nothing was taken from it.
    refine List.eq_nil_iff_forall_not_mem.mpr (fun taken member => ?_)
    have still : machine'.pmm.Free taken := by
      rw [samePmm]
      exact extends'.freshFree taken member
    exact ((extends'.free taken).mp still).2 member
  subst noFresh
  refine ⟨after, machine', ran, editing', extends', samePmm, ?_⟩
  intro other below
  by_cases within : page ≤ other ∧ other < page + count
  · rw [if_pos within]
    rcases clears.inside other within.1 within.2 with gone | ⟨absent, -⟩
    · exact gone
    · refine absurd absent ?_
      have table := tables (other - page) (by omega)
      rwa [show page + (other - page) = other by omega] at table
  · rw [if_neg within]
    exact clears.outside other below within

theorem unmapRangeIn_invalid (pml4 : Nat) (machine : Machine) (invalid : ¬ ValidRange virt len) :
    unmapRangeIn pml4 virt len machine = (.ok false, machine) := by
  unfold unmapRangeIn
  rw [if_pos]
  · rfl
  · unfold ValidRange at invalid
    unfold pageSize
    omega

theorem unmapRangeIn_valid (pml4 : Nat) {machine' : Machine} (valid : ValidRange virt len)
    (ran : unmapPages pml4 (len / 4096) (virt / 4096 * 4096) machine = (.ok (), machine')) :
    unmapRangeIn pml4 virt len machine = (.ok true, machine') := by
  obtain ⟨virtAligned, lenAligned, positive, inside⟩ := valid
  have accepted : ¬(virt % pageSize ≠ 0 ∨ len % pageSize ≠ 0 ∨ len = 0 ∨
      virt + len > identityMapEnd) := by
    unfold pageSize
    omega
  have size : len / pageSize = len / 4096 := rfl
  rw [show virt / 4096 * 4096 = virt by omega] at ran
  unfold unmapRangeIn
  rw [if_neg accepted, size, bind_of_ok ran]
  rfl

theorem unmapRangeIn_spec (editing : Editing reach space machine) (valid : ValidRange virt len)
    (tables : ∀ index, index < len / 4096 → space.pt ((virt / 4096 + index) / 512) ≠ none)
    (apart : machine.cr3 = space.pml4 →
      ∀ frame, reach frame → ¬(virt ≤ frame ∧ frame < virt + len)) :
    ∃ after machine', unmapRangeIn space.pml4 virt len machine = (.ok true, machine') ∧
      Editing reach after machine' ∧ Extends space after machine machine' [] ∧
      machine'.pmm = machine.pmm ∧
      ∀ other, other < 2 ^ 20 → after.view other =
        if virt / 4096 ≤ other ∧ other < virt / 4096 + len / 4096 then none
        else space.view other := by
  obtain ⟨virtAligned, lenAligned, positive, inside⟩ := id valid
  have limit : virt + len ≤ 4294967296 := inside
  obtain ⟨after, machine', ran, rest⟩ := unmapPages_spec (virt / 4096) editing
    (show virt / 4096 + len / 4096 ≤ 2 ^ 20 by omega) tables
    (fun atCr3 index below reached => apart atCr3 _ reached (by omega))
  exact ⟨after, machine', unmapRangeIn_valid _ valid ran, rest⟩

theorem unmapRangeIn_outcome (editing : Editing reach space machine) (valid : ValidRange virt len)
    (supplied : ∀ needed, Pmm.Supplies reach needed machine.pmm)
    (apart : machine.cr3 = space.pml4 →
      ∀ frame, reach frame → ¬(virt ≤ frame ∧ frame < virt + len)) :
    ∃ after machine' fresh, unmapRangeIn space.pml4 virt len machine = (.ok true, machine') ∧
      Editing reach after machine' ∧ Extends space after machine machine' fresh ∧
      Clears space after (virt / 4096) (len / 4096) := by
  obtain ⟨virtAligned, lenAligned, positive, inside⟩ := id valid
  have limit : virt + len ≤ 4294967296 := inside
  obtain ⟨after, machine', fresh, ran, editing', extends', clears, -⟩ :=
    unmapPages_outcome (virt / 4096) editing
      (show virt / 4096 + len / 4096 ≤ 2 ^ 20 by omega) (fun _ => supplied)
      (fun atCr3 index below reached => apart atCr3 _ reached (by omega))
  exact ⟨after, machine', fresh, unmapRangeIn_valid _ valid ran, editing', extends', clears⟩

/-! ### The kernel's own table -/

theorem editEntry_spec {page : Nat} (flags entry : BitVec 64)
    (editing : Editing reach space machine) (inside : page < 2 ^ 20)
    (supplied : Pmm.Supplies reach 1 machine.pmm)
    (opens : entry.getLsbD 2 = true → flags.getLsbD 2 = true)
    (direct : machine.cr3 = space.pml4 → reach (page * 4096) →
      ∃ leaf, leafOf entry = some leaf ∧ leaf.phys = page * 4096) :
    ∃ done after machine' fresh,
      (do
        match ← ptEntryPtrIn space.pml4 (page * 4096) flags none with
        | (none, _) => pure false
        | (some place, _) => do
            storeU64 place entry
            pure true : Kernel Bool) machine = (.ok done, machine') ∧
      Editing reach after machine' ∧ Extends space after machine machine' fresh ∧
      machine'.pmm = (if space.pt (page / 512) = none then machine.pmm.frameAlloc.2
        else machine.pmm) ∧
      (done = false → space.pt (page / 512) = none ∧ machine.pmm.frameAlloc.1 = none) ∧
      ∀ other, other < 2 ^ 20 → after.view other =
        if done = true ∧ other = page then leafOf entry else space.view other := by
  have blockOf : page * 4096 / 2 ^ 21 = page / 512 := by omega
  have gigabyteOf : page * 4096 / 2 ^ 30 = page / 2 ^ 18 := by omega
  have indexOf : page * 4096 / 2 ^ 12 % 512 = page % 512 := by omega
  have virtInside : page * 4096 < identityMapEnd := by
    unfold identityMapEnd
    omega
  obtain ⟨result, opened, machine', fresh, found, editing', extends', views, pmm', outcome⟩ :=
    ptEntryPtrIn_spec flags none editing virtInside (fun _ => supplied)
  rw [blockOf] at pmm'
  cases result with
  | none =>
      rw [blockOf] at outcome
      refine ⟨false, opened, machine', fresh, ?_, editing', extends', pmm', fun _ => outcome,
        fun other below => ?_⟩
      · rw [bind_of_ok found]
        rfl
      · rw [if_neg (fun both => Bool.false_ne_true both.1)]
        exact views other below
  | some place =>
      obtain ⟨⟨frame, split, rfl⟩, upward⟩ := outcome
      rw [blockOf] at split upward
      rw [gigabyteOf] at upward
      obtain ⟨machine'', stored, editing'', extends'', samePmm⟩ :=
        setLeaf_spec entry editing' inside split (fun user => upward (opens user)) (by
          rw [extends'.cr3, extends'.pml4]
          exact direct)
      refine ⟨true, opened.setLeaf page entry, machine'', fresh, ?_, editing'',
        by simpa using extends'.trans extends'', samePmm.trans pmm', by simp,
        fun other below => ?_⟩
      · rw [bind_of_ok found]
        simp only [indexOf]
        rw [bind_of_ok stored]
        rfl
      · rw [view_setLeaf, split]
        by_cases same : other = page
        · rw [if_pos ⟨same, by simp⟩, if_pos ⟨rfl, same⟩]
        · rw [if_neg (fun both => same both.1), if_neg (fun both => same both.2)]
          exact views other below

namespace KernelMap

variable {reach : Nat → Prop} {space : Space} {machine : Machine}

/-- The entry for `virt` leads to `found` if the edit was done, which a valid one is unless a
table is missing and no frame is left for it; no other page has changed. -/
structure Edited (space : Space) (machine : Machine) (virt : Nat) (found : Option Leaf)
    (valid : Prop) (done : Bool) (after : Space) (machine' : Machine) : Prop where
  views : ∀ page, page < 2 ^ 20 → after.view page =
    if done = true ∧ page = virt / 4096 then found else space.view page
  pmm : machine'.pmm = machine.pmm ∨ machine'.pmm = machine.pmm.frameAlloc.2
  refused : valid → done = false →
    space.pt (virt / 2 ^ 21) = none ∧ machine.pmm.frameAlloc.1 = none

theorem Edited.refl (space : Space) (machine : Machine) (virt : Nat) (found : Option Leaf)
    {valid : Prop} (invalid : ¬ valid) : Edited space machine virt found valid false space machine :=
  ⟨fun _ _ => (if_neg (fun both => Bool.false_ne_true both.1)).symm, Or.inl rfl,
    fun isValid => absurd isValid invalid⟩

theorem pmm_of_ite {condition : Prop} [Decidable condition] {pmm taken left : Pmm}
    (result : left = if condition then taken else pmm) : left = pmm ∨ left = taken := by
  rw [result]
  split
  · exact Or.inr rfl
  · exact Or.inl rfl

def Mappable (virt phys : Nat) : Prop :=
  virt < identityMapEnd ∧ phys < identityMapEnd ∧ virt % 4096 = 0 ∧ phys % 4096 = 0

theorem mapPage_spec {virt phys : Nat} (flags : BitVec 64) (editing : Editing reach space machine)
    (supplied : Pmm.Supplies reach 1 machine.pmm)
    (direct : machine.cr3 = space.pml4 → reach virt → phys = virt) :
    ∃ done after machine' fresh, mapPage space.pml4 virt phys flags machine = (.ok done, machine') ∧
      Editing reach after machine' ∧ Extends space after machine machine' fresh ∧
      Edited space machine virt (some (leafFor flags phys)) (Mappable virt phys) done after
        machine' := by
  unfold mapPage
  by_cases refused : virt ≥ identityMapEnd ∨ phys ≥ identityMapEnd ∨ virt % pageSize ≠ 0 ∨
      phys % pageSize ≠ 0
  · rw [if_pos refused]
    refine ⟨false, space, machine, [], rfl, editing, Extends.refl space machine,
      Edited.refl space machine virt _ ?_⟩
    rintro ⟨virtInside, physInside, virtAligned, physAligned⟩
    simp only [show pageSize = 4096 from rfl] at refused
    omega
  · rw [if_neg refused]
    simp only [show pageSize = 4096 from rfl, show identityMapEnd = 4294967296 from rfl]
      at refused
    have aligned : phys % 4096 = 0 := by omega
    have recombine : virt / 4096 * 4096 = virt := by omega
    have blockOf : virt / 4096 / 512 = virt / 2 ^ 21 := by omega
    obtain ⟨done, after, machine', fresh, spec⟩ := editEntry_spec (flags &&& presentMask)
      (BitVec.ofNat 64 phys ||| (flags &&& presentMask) ||| pagePresent) editing
      (show virt / 4096 < 2 ^ 20 by omega) supplied
      (by
        intro user
        rw [getLsbD_mapped (Or.inl ⟨by decide, aligned⟩)] at user
        rw [BitVec.getLsbD_and, getLsbD_presentMask (by decide)]
        simpa using user)
      (fun atCr3 reached => by
        rw [recombine] at reached
        refine ⟨_, leafOf_mapped flags aligned (by omega), ?_⟩
        show phys = virt / 4096 * 4096
        rw [recombine, direct atCr3 reached])
    obtain ⟨ran, editing', extends', pmm', failed, views⟩ := spec
    rw [recombine] at ran
    rw [leafOf_mapped flags aligned (by omega)] at views
    exact ⟨done, after, machine', fresh, ran, editing', extends', views,
      pmm_of_ite pmm', fun _ undone => by simpa only [blockOf] using failed undone⟩

theorem unmapPage_spec {virt : Nat} (editing : Editing reach space machine)
    (supplied : Pmm.Supplies reach 1 machine.pmm)
    (apart : machine.cr3 = space.pml4 → ¬ reach virt) :
    ∃ done after machine' fresh, unmapPage space.pml4 virt machine = (.ok done, machine') ∧
      Editing reach after machine' ∧ Extends space after machine machine' fresh ∧
      Edited space machine virt none (virt < identityMapEnd ∧ virt % 4096 = 0) done after
        machine' := by
  unfold unmapPage
  by_cases refused : virt ≥ identityMapEnd ∨ virt % pageSize ≠ 0
  · rw [if_pos refused]
    refine ⟨false, space, machine, [], rfl, editing, Extends.refl space machine,
      Edited.refl space machine virt _ ?_⟩
    rintro ⟨inside, aligned⟩
    simp only [show pageSize = 4096 from rfl] at refused
    omega
  · rw [if_neg refused]
    simp only [show pageSize = 4096 from rfl, show identityMapEnd = 4294967296 from rfl]
      at refused
    have recombine : virt / 4096 * 4096 = virt := by omega
    have blockOf : virt / 4096 / 512 = virt / 2 ^ 21 := by omega
    obtain ⟨done, after, machine', fresh, spec⟩ := editEntry_spec (pagePresent ||| pageWritable)
      0#64 editing
      (show virt / 4096 < 2 ^ 20 by omega) supplied (by simp)
      (fun atCr3 reached => by
        rw [recombine] at reached
        exact absurd reached (apart atCr3))
    obtain ⟨ran, editing', extends', pmm', failed, views⟩ := spec
    rw [recombine] at ran
    exact ⟨done, after, machine', fresh, ran, editing', extends', views,
      pmm_of_ite pmm', fun _ undone => by simpa only [blockOf] using failed undone⟩

end KernelMap

end MachaOS.Paging
