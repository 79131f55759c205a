/-
The entries a walk meets, level by level.

`walk` keeps the translation only.  `walkPath` also names the tables on the way
and the entries read there, from which the table frames of an address space, its
intermediate entries and the rights of a leaf entry alone can be read off.
-/

import MachaOS.Paging.Space

namespace MachaOS.Paging

open List

/-- The tables the walk of `virt` passes, each with the entry found there. -/
def walkPath (mem : ByteMemory) (pml4 virt : Nat) : List (Nat × BitVec 64) :=
  let pml4e := mem.readU64 (pml4 + 8 * (virt / 2 ^ 39 % 512))
  (pml4, pml4e) ::
    if pml4e.getLsbD 0 = false then []
    else
      let pdpte := mem.readU64 (tableBase pml4e + 8 * (virt / 2 ^ 30 % 512))
      (tableBase pml4e, pdpte) ::
        if pdpte.getLsbD 0 = false ∨ pdpte.getLsbD 7 = true then []
        else
          let pde := mem.readU64 (tableBase pdpte + 8 * (virt / 2 ^ 21 % 512))
          (tableBase pdpte, pde) ::
            if pde.getLsbD 0 = false ∨ pde.getLsbD 7 = true then []
            else
              [(tableBase pde, mem.readU64 (tableBase pde + 8 * (virt / 2 ^ 12 % 512)))]

/-- `frame` holds a table that walks below 4 GiB pass through. -/
def TableFrame (mem : ByteMemory) (pml4 frame : Nat) : Prop :=
  ∃ virt, virt < identityMapEnd ∧ ∃ entry, (frame, entry) ∈ walkPath mem pml4 virt

/-- Where `virt` leads, with the rights its last entry alone grants. -/
def walkLeaf (mem : ByteMemory) (pml4 virt : Nat) : Option Leaf :=
  (walk mem pml4 virt).bind (fun leaf =>
    (walkPath mem pml4 virt).getLast?.map (fun step => combine leaf.phys [step.2]))

namespace Space

variable {space : Space} {mem : ByteMemory} {virt : Nat}

theorem walkPath_eq (wellFormed : space.WellFormed) (represents : space.Represents mem)
    (inside : virt < identityMapEnd) :
    walkPath mem space.pml4 virt =
      (space.pml4, upperEntry space.pdpt space.userTop) ::
      (space.pdpt, upperEntry (space.pd (virt / 2 ^ 30)) (space.userPdpt (virt / 2 ^ 30))) ::
      match space.pt (virt / 2 ^ 21) with
      | none => [(space.pd (virt / 2 ^ 30), bigEntry (virt / 2 ^ 21))]
      | some frame =>
          [(space.pd (virt / 2 ^ 30), upperEntry frame (space.userPd (virt / 2 ^ 21))),
            (frame, space.leaf (virt / 4096))] := by
  obtain ⟨-, -, gigabyteInside, blockInside⟩ := indices inside
  have pde := represents.pdEntry inside
  obtain ⟨⟨pdptAligned, pdptBounded⟩, pdAligned, pdBounded⟩ := wellFormed.upper gigabyteInside
  obtain ⟨top0, -, -, -⟩ := upperEntry_bits space.userTop pdptAligned
  obtain ⟨pdpt0, -, -, pdpt7⟩ := upperEntry_bits (space.userPdpt (virt / 2 ^ 30)) pdAligned
  unfold walkPath
  simp only [represents.pml4Entry inside, tableBase_upperEntry _ pdptAligned pdptBounded,
    represents.pdptEntry inside, tableBase_upperEntry _ pdAligned pdBounded, top0, pdpt0, pdpt7,
    Bool.true_eq_false, Bool.false_eq_true, or_self, if_false]
  cases split : space.pt (virt / 2 ^ 21) with
  | none =>
      simp only [split] at pde
      obtain ⟨-, -, -, big7⟩ := bigEntry_bits (virt / 2 ^ 21)
      simp only [pde, big7, or_true, if_true]
  | some frame =>
      simp only [split] at pde
      have frameAligned := wellFormed.aligned _ (owns_pt blockInside split)
      have frameBounded := wellFormed.bounded _ (owns_pt blockInside split)
      obtain ⟨pd0, -, -, pd7⟩ := upperEntry_bits (space.userPd (virt / 2 ^ 21)) frameAligned
      simp only [pde, pd0, pd7, Bool.true_eq_false, Bool.false_eq_true, or_self, if_false,
        tableBase_upperEntry _ frameAligned frameBounded, represents.ptEntry inside split]

theorem tableFrame_iff (wellFormed : space.WellFormed) (represents : space.Represents mem)
    {frame : Nat} : TableFrame mem space.pml4 frame ↔ space.Owns frame := by
  constructor
  · rintro ⟨virt, inside, entry, member⟩
    have limit : virt < 4294967296 := inside
    rw [walkPath_eq wellFormed represents inside] at member
    cases split : space.pt (virt / 2 ^ 21) with
    | none =>
        simp only [split, mem_cons, Prod.mk.injEq, not_mem_nil, or_false] at member
        rcases member with ⟨rfl, -⟩ | ⟨rfl, -⟩ | ⟨rfl, -⟩
        · exact owns_pml4 space
        · exact owns_pdpt space
        · exact owns_pd (by omega)
    | some table =>
        simp only [split, mem_cons, Prod.mk.injEq, not_mem_nil, or_false] at member
        rcases member with ⟨rfl, -⟩ | ⟨rfl, -⟩ | ⟨rfl, -⟩ | ⟨rfl, -⟩
        · exact owns_pml4 space
        · exact owns_pdpt space
        · exact owns_pd (by omega)
        · exact owns_pt (by omega) split
  · rintro ⟨node, placed⟩
    have onPath : ∀ virt, virt < identityMapEnd →
        (∃ entry, (frame, entry) ∈ walkPath mem space.pml4 virt) →
        TableFrame mem space.pml4 frame := fun virt inside met => ⟨virt, inside, met⟩
    cases node with
    | pml4 =>
        obtain rfl := Option.some.inj placed
        refine onPath 0 (by decide) ⟨upperEntry space.pdpt space.userTop, ?_⟩
        rw [walkPath_eq wellFormed represents (by decide)]
        exact mem_cons_self
    | pdpt =>
        obtain rfl := Option.some.inj placed
        refine onPath 0 (by decide) ⟨upperEntry (space.pd 0) (space.userPdpt 0), ?_⟩
        rw [walkPath_eq wellFormed represents (by decide)]
        exact mem_cons_of_mem _ mem_cons_self
    | pd gigabyte =>
        simp only [frameAt] at placed
        split at placed
        · rename_i below
          obtain rfl := Option.some.inj placed
          have inside : gigabyte * 2 ^ 30 < identityMapEnd := by
            unfold identityMapEnd
            omega
          have here : gigabyte * 2 ^ 30 / 2 ^ 30 = gigabyte := by omega
          refine onPath (gigabyte * 2 ^ 30) inside ?_
          rw [walkPath_eq wellFormed represents inside, here]
          cases split : space.pt (gigabyte * 2 ^ 30 / 2 ^ 21) with
          | none => exact ⟨_, mem_cons_of_mem _ (mem_cons_of_mem _ mem_cons_self)⟩
          | some table =>
              exact ⟨_, mem_cons_of_mem _ (mem_cons_of_mem _ mem_cons_self)⟩
        · cases placed
    | pt block =>
        simp only [frameAt] at placed
        split at placed
        · rename_i below
          have inside : block * 2 ^ 21 < identityMapEnd := by
            unfold identityMapEnd
            omega
          have here : block * 2 ^ 21 / 2 ^ 21 = block := by omega
          refine onPath (block * 2 ^ 21) inside ⟨space.leaf (block * 2 ^ 21 / 4096), ?_⟩
          rw [walkPath_eq wellFormed represents inside, here, placed]
          simp
        · cases placed

theorem walkLeaf_eq (wellFormed : space.WellFormed) (represents : space.Represents mem)
    (inside : virt < identityMapEnd) :
    walkLeaf mem space.pml4 virt = space.view (virt / 4096) := by
  have limit : virt < 4294967296 := inside
  have blockOf : virt / 4096 / 512 = virt / 2 ^ 21 := by omega
  unfold walkLeaf
  rw [walk_eq_narrowed wellFormed represents inside, walkPath_eq wellFormed represents inside]
  unfold view
  rw [blockOf]
  cases split : space.pt (virt / 2 ^ 21) with
  | none =>
      obtain ⟨-, big1, big2, -⟩ := bigEntry_bits (virt / 2 ^ 21)
      have bigNx := getLsbD_bigEntry_nx (show virt / 2 ^ 21 < 2048 by omega)
      generalize bigEntry (virt / 2 ^ 21) = entry at *
      simp only [Option.map_some, Option.bind_some, narrow, kernelLeaf, combine, List.getLast?_cons,
        List.getLast?_nil, Option.getD_some, Option.getD_none, all_cons, all_nil,
        any_cons, any_nil, big1, big2, bigNx, Bool.and_true, Bool.or_false]
  | some frame =>
      simp only [leafOf]
      split <;> simp [narrow, combine]

theorem upper_nx (wellFormed : space.WellFormed) (represents : space.Represents mem)
    (inside : virt < identityMapEnd) {step : Nat × BitVec 64}
    (upper : step ∈ (walkPath mem space.pml4 virt).dropLast) : step.2.getLsbD 63 = false := by
  have limit : virt < 4294967296 := inside
  have pdptBounded := wellFormed.bounded _ (owns_pdpt space)
  have pdBounded := wellFormed.bounded _ (owns_pd (show virt / 2 ^ 30 < 4 by omega))
  rw [walkPath_eq wellFormed represents inside] at upper
  cases split : space.pt (virt / 2 ^ 21) with
  | none =>
      simp only [split, dropLast_cons_cons, dropLast_singleton, mem_cons,
        not_mem_nil, or_false] at upper
      rcases upper with rfl | rfl
      · exact getLsbD_upperEntry_nx _ pdptBounded
      · exact getLsbD_upperEntry_nx _ pdBounded
  | some frame =>
      have frameBounded := wellFormed.bounded _
        (owns_pt (show virt / 2 ^ 21 < 2048 by omega) split)
      simp only [split, dropLast_cons_cons, dropLast_singleton, mem_cons,
        not_mem_nil, or_false] at upper
      rcases upper with rfl | rfl | rfl
      · exact getLsbD_upperEntry_nx _ pdptBounded
      · exact getLsbD_upperEntry_nx _ pdBounded
      · exact getLsbD_upperEntry_nx _ frameBounded

end Space
end MachaOS.Paging
