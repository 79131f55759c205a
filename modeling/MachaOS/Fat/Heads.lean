/-
The first clusters of chains, and what a change elsewhere leaves of their chains.

A chain is kept by a change that touches neither its entries in the FAT nor its
sectors.  Taking clusters keeps every chain; freeing one, or writing into one, keeps all
the others.
-/

import MachaOS.Fat.Clusters

namespace MachaOS.Fat.Fat32

open Chains (IsChain Unreferenced)

variable {vol vol' vol'' : Fat32} {head other cluster s : Nat} {rest : List Nat}

def Head (vol : Fat32) (head : Nat) : Prop :=
  vol.cell head ≠ .free ∧ Unreferenced vol.cell head

def SameSectors (vol vol' : Fat32) (cluster : Nat) : Prop :=
  ∀ s, s < vol.sectorsPerCluster →
    ByteMemory.SameOn (vol.clusterSector cluster s) (vol'.clusterSector cluster s) 0 512

structure Kept (vol vol' : Fat32) (head : Nat) : Prop where
  shape : SameShape vol vol'
  unreferenced : Unreferenced vol'.cell head
  chain : ∀ rest, IsChain vol.cell (head :: rest) → IsChain vol'.cell (head :: rest)
  sectors : ∀ rest, IsChain vol.cell (head :: rest) →
    ∀ cluster, cluster ∈ head :: rest → SameSectors vol vol' cluster

theorem Head.chain (wellFormed : WellFormed vol) (isHead : Head vol head) :
    ∃ rest, IsChain vol.cell (head :: rest) :=
  wellFormed.table.ends head isHead.1

theorem Kept.refl (isHead : Head vol head) : Kept vol vol head :=
  ⟨SameShape.refl vol, isHead.2, fun _ chain => chain,
    fun _ _ _ _ s _ => ByteMemory.SameOn.refl (vol.clusterSector _ s) 0 512⟩

theorem Kept.trans (first : Kept vol vol' head) (second : Kept vol' vol'' head) :
    Kept vol vol'' head := by
  refine ⟨first.shape.trans second.shape, second.unreferenced,
    fun rest chain => second.chain rest (first.chain rest chain),
    fun rest chain cluster mem s inside => ?_⟩
  refine (first.sectors rest chain cluster mem s inside).trans ?_
  refine second.sectors rest (first.chain rest chain) cluster mem s ?_
  rw [first.shape.sectorsPerCluster]
  exact inside

theorem Kept.isHead (kept : Kept vol vol' head) (wellFormed : WellFormed vol)
    (isHead : Head vol head) : Head vol' head := by
  obtain ⟨rest, chain⟩ := isHead.chain wellFormed
  exact ⟨(kept.chain rest chain).taken List.mem_cons_self, kept.unreferenced⟩

theorem Head.disjoint (wellFormed : WellFormed vol) (isHead : Head vol head)
    (isOther : Head vol other) (different : other ≠ head)
    (chain : IsChain vol.cell (head :: rest)) {rest' : List Nat}
    (chain' : IsChain vol.cell (other :: rest')) :
    ∀ cluster, cluster ∈ other :: rest' → cluster ∉ head :: rest :=
  chain'.disjoint wellFormed.table chain isOther.2 isHead.2 different

theorem IsChain.inCluster (chain : IsChain vol.cell (head :: rest))
    (mem : cluster ∈ head :: rest) (inside : s < vol.sectorsPerCluster) :
    InCluster vol cluster s := by
  obtain ⟨least, below⟩ := inside_of_taken (chain.taken mem)
  exact ⟨least, below, inside⟩

theorem sameSectors_of_disk (shape : SameShape vol vol')
    (disk : vol'.device.disk = vol.device.disk) (cluster : Nat) :
    SameSectors vol vol' cluster := by
  intro s _ offset _ _
  show vol'.device.disk (512 * vol'.sectorNumber cluster s + offset) = _
  rw [disk, shape.sectorNumber]
  rfl

theorem kept_of_cells (shape : SameShape vol vol')
    (disk : vol'.device.disk = vol.device.disk)
    (unreferenced : Unreferenced vol'.cell head)
    (same : ∀ rest, IsChain vol.cell (head :: rest) → ∀ cluster, cluster ∈ head :: rest →
      vol'.cell cluster = vol.cell cluster) : Kept vol vol' head :=
  ⟨shape, unreferenced, fun rest chain => chain.congr (same rest chain),
    fun _ _ cluster _ => sameSectors_of_disk shape disk cluster⟩

theorem Kept.chained {clusters : List Nat} (chained : Chained vol vol' clusters)
    (shape : SameShape vol vol')
    (among : ∀ source target, source ∈ clusters → vol'.cell source = .link target →
      target ∈ clusters)
    (isHead : Head vol head) : Kept vol vol' head := by
  have disk : vol'.device.disk = vol.device.disk := by rw [chained.tableOnly]
  refine kept_of_cells shape disk ?_ ?_
  · intro source linked
    by_cases isNew : source ∈ clusters
    · exact isHead.1 (chained.free head (among source head isNew linked)).2.2
    · rw [cell_congr (chained.others source isNew)] at linked
      exact isHead.2 source linked
  · intro rest chain mem present
    exact cell_congr (chained.kept (Or.inr (chain.taken present)))

theorem cell_freed_of {clusters : List Nat} (freed : Freed vol vol' clusters)
    (mem : cluster ∈ clusters) : vol'.cell cluster = .free := by
  unfold cell
  rw [List.getD_eq_getElem?_getD, freed.freed cluster mem]
  split <;> rfl

theorem Kept.freed (wellFormed : WellFormed vol) (chain : IsChain vol.cell (head :: rest))
    (isHead : Head vol head) (freed : Freed vol vol' (head :: rest))
    (shape : SameShape vol vol') (isOther : Head vol other) (different : other ≠ head) :
    Kept vol vol' other := by
  have disk : vol'.device.disk = vol.device.disk := by rw [freed.tableOnly]
  refine kept_of_cells shape disk ?_ ?_
  · intro source linked
    by_cases gone : source ∈ head :: rest
    · rw [cell_freed_of freed gone] at linked
      cases linked
    · rw [cell_congr (freed.others source gone)] at linked
      exact isOther.2 source linked
  · intro rest' chain' mem present
    exact cell_congr (freed.others mem
      (isHead.disjoint wellFormed isOther different chain chain' mem present))

theorem Kept.extended (wellFormed : WellFormed vol) (chain : IsChain vol.cell (head :: rest))
    (isHead : Head vol head) (found : vol.firstFree = some cluster)
    (isOther : Head vol other) (different : other ≠ head) :
    Kept vol (vol.extended cluster ((head :: rest).getLast (List.cons_ne_nil _ _))) other := by
  obtain ⟨-, cells, -⟩ := wellFormed.extended chain found
  have free := wellFormed.free_of_firstFree found
  refine kept_of_cells ⟨rfl, ?_, ?_⟩ rfl ?_ ?_
  · exact List.length_set.trans List.length_set
  · exact List.length_set.trans List.length_set
  · intro source linked
    rw [cells] at linked
    by_cases tail : source = (head :: rest).getLast (List.cons_ne_nil _ _)
    · rw [tail, Function.update_self] at linked
      exact isOther.1 (by rw [← Cell.link.inj linked]; exact free)
    · rw [Function.update_of_ne tail] at linked
      by_cases isNew : source = cluster
      · rw [isNew, Function.update_self] at linked
        cases linked
      · rw [Function.update_of_ne isNew] at linked
        exact isOther.2 source linked
  · intro rest' chain' mem present
    have apart := isHead.disjoint wellFormed isOther different chain chain' mem present
    rw [cells, Function.update_of_ne (by rintro rfl; exact apart (List.getLast_mem _)),
      Function.update_of_ne (by rintro rfl; exact chain'.taken present free)]

structure Wrote (vol vol' : Fat32) (clusters : List Nat) : Prop where
  shape : SameShape vol vol'
  table : SameTable vol vol'
  others : ∀ cluster s, InCluster vol cluster s → cluster ∉ clusters →
    ByteMemory.SameOn (vol.clusterSector cluster s) (vol'.clusterSector cluster s) 0 512

variable {clusters clusters' : List Nat}

theorem Wrote.refl (vol : Fat32) (clusters : List Nat) : Wrote vol vol clusters :=
  ⟨SameShape.refl vol, ⟨rfl, rfl, rfl⟩,
    fun cluster s _ _ => ByteMemory.SameOn.refl (vol.clusterSector cluster s) 0 512⟩

theorem Wrote.trans (first : Wrote vol vol' clusters) (second : Wrote vol' vol'' clusters) :
    Wrote vol vol'' clusters := by
  refine ⟨first.shape.trans second.shape, SameTable.trans _ _ _ first.table second.table,
    fun cluster s at' apart => ?_⟩
  exact (first.others cluster s at' apart).trans
    (second.others cluster s (first.shape.inCluster.mpr at') apart)

theorem Wrote.mono (wrote : Wrote vol vol' clusters)
    (wider : ∀ cluster, cluster ∈ clusters → cluster ∈ clusters') : Wrote vol vol' clusters' :=
  ⟨wrote.shape, wrote.table, fun cluster s at' apart =>
    wrote.others cluster s at' (fun mem => apart (wider cluster mem))⟩

theorem wrote_withSector (at' : InCluster vol cluster s) (bytes : Sector) :
    Wrote vol (vol.withSector cluster s bytes) [cluster] := by
  refine ⟨sameShape_withSector bytes, ⟨rfl, rfl, rfl⟩, fun cluster' s' other apart => ?_⟩
  refine clusterSector_withSector_of_ne bytes (fun same => ?_)
  obtain ⟨rfl, -⟩ := sectorNumber_inj other at' same
  exact apart List.mem_cons_self

section

variable (wrote : Wrote vol vol' clusters)
include wrote

theorem Wrote.cells : vol'.cell = vol.cell := by
  funext cluster
  exact cell_congr (by rw [wrote.table.1])

theorem Wrote.wellFormed (wellFormed : WellFormed vol) : WellFormed vol' :=
  wellFormed.of_sameTable wrote.table

theorem Wrote.isHead (isHead : Head vol head) : Head vol' head := by
  unfold Head
  rw [wrote.cells]
  exact isHead

theorem Wrote.kept (isHead : Head vol head)
    (apart : ∀ rest, IsChain vol.cell (head :: rest) → ∀ cluster, cluster ∈ head :: rest →
      cluster ∉ clusters) :
    Kept vol vol' head := by
  refine ⟨wrote.shape, ?_, fun rest chain => ?_, fun rest chain cluster mem s inside => ?_⟩
  · rw [wrote.cells]
    exact isHead.2
  · rw [wrote.cells]
    exact chain
  · exact wrote.others cluster s (IsChain.inCluster chain mem inside) (apart rest chain cluster mem)

theorem Wrote.kept_other (wellFormed : WellFormed vol)
    (chain : IsChain vol.cell (head :: rest)) (isHead : Head vol head)
    (part : ∀ cluster, cluster ∈ clusters → cluster ∈ head :: rest) (isOther : Head vol other)
    (different : other ≠ head) : Kept vol vol' other :=
  wrote.kept isOther (fun _ chain' cluster mem inClusters =>
    isHead.disjoint wellFormed isOther different chain chain' cluster mem (part cluster inClusters))

end

end MachaOS.Fat.Fat32
