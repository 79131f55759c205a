/-
The cached FAT as a link table, and what allocating, linking and freeing clusters
do to it.
-/

import MachaOS.Fat.Walks
import MachaOS.Lib.Chains

namespace MachaOS.Fat

open List Function Fallible
open Chains (IsChain Unreferenced)

def cellOf (entry : BitVec 32) : Cell Nat :=
  if entry = 0#32 then .free else if entry = eofMark then .last else .link entry.toNat

@[simp] theorem cellOf_zero : cellOf 0#32 = .free := rfl

@[simp] theorem cellOf_eofMark : cellOf eofMark = .last := rfl

theorem cellOf_ofNat {cluster : Nat} (least : 2 ≤ cluster) (small : cluster < 0x0FFFFFFF) :
    cellOf (BitVec.ofNat 32 cluster) = .link cluster := by
  have value : (BitVec.ofNat 32 cluster).toNat = cluster := by
    rw [BitVec.toNat_ofNat]
    omega
  unfold cellOf
  rw [if_neg, if_neg, value]
  · intro same
    rw [same, show eofMark.toNat = 0x0FFFFFFF from rfl] at value
    omega
  · intro same
    rw [same, show (0#32).toNat = 0 from rfl] at value
    omega

namespace Fat32

variable {vol vol' : Fat32} {cluster next : Nat}

def cell (vol : Fat32) (cluster : Nat) : Cell Nat :=
  if 2 ≤ cluster then cellOf (vol.fat.getD cluster 0#32) else .free

/-- Every entry from index 2 on is free, the end mark or the number of another cluster that is
taken; no cluster is linked to twice, every chain ends, and the free clusters are counted. -/
structure WellFormed (vol : Fat32) : Prop where
  small : vol.fat.length ≤ 0x0FFFFFF7
  table : Chains.WellFormed vol.cell
  counted : vol.freeClusters = (vol.fat.drop 2).countP isFree

def TableOnly (vol vol' : Fat32) : Prop :=
  vol' = { vol with
    fat := vol'.fat
    fatDirty := vol'.fatDirty
    freeClusters := vol'.freeClusters }

theorem TableOnly.refl (vol : Fat32) : TableOnly vol vol := rfl

theorem TableOnly.trans {vol'' : Fat32} (first : TableOnly vol vol')
    (second : TableOnly vol' vol'') : TableOnly vol vol'' := by
  unfold TableOnly at first second ⊢
  rw [second, first]

theorem inside_of_taken (taken : vol.cell cluster ≠ .free) :
    2 ≤ cluster ∧ cluster < vol.fat.length := by
  unfold cell at taken
  split at taken
  · rename_i least
    refine ⟨least, ?_⟩
    by_contra outside
    rw [getD_eq_getElem?_getD, List.getElem?_eq_none (by omega)] at taken
    exact taken rfl
  · exact absurd rfl taken

theorem getD_of_cell_link (linked : vol.cell cluster = .link next) :
    (vol.fat.getD cluster 0#32).toNat = next := by
  unfold cell cellOf at linked
  split at linked
  · split at linked
    · cases linked
    · split at linked
      · cases linked
      · exact Cell.link.inj linked
  · cases linked

theorem getD_of_cell_last (ends : vol.cell cluster = .last) :
    vol.fat.getD cluster 0#32 = eofMark := by
  unfold cell cellOf at ends
  split at ends
  · split at ends
    · cases ends
    · split at ends
      · assumption
      · cases ends
  · cases ends

theorem getD_of_cell_free (least : 2 ≤ cluster) (free : vol.cell cluster = .free) :
    vol.fat.getD cluster 0#32 = 0#32 := by
  unfold cell cellOf at free
  rw [if_pos least] at free
  split at free
  · assumption
  · split at free
    · cases free
    · cases free

theorem masked_of_lt {entry : BitVec 32} (small : entry.toNat < 2 ^ 28) :
    (entry &&& clusterMask).toNat = entry.toNat := by
  rw [BitVec.toNat_and, show clusterMask.toNat = 2 ^ 28 - 1 from rfl,
    Nat.and_two_pow_sub_one_eq_mod, Nat.mod_eq_of_lt small]

theorem link_of_last (ends : vol.cell cluster = .last) :
    vol.nextCluster cluster = .ok eofMark.toNat := by
  have inside := (inside_of_taken (by rw [ends]; simp)).2
  rw [nextCluster_of_lt inside, link, getD_of_cell_last ends]
  rfl

theorem WellFormed.link_of_link (wellFormed : WellFormed vol)
    (linked : vol.cell cluster = .link next) :
    vol.nextCluster cluster = .ok next ∧ 2 ≤ next ∧ next < vol.fat.length := by
  have taken : vol.cell cluster ≠ .free := by
    rw [linked]
    simp
  have inside := (inside_of_taken taken).2
  have target := inside_of_taken (wellFormed.table.target cluster next linked)
  have entry := getD_of_cell_link linked
  refine ⟨?_, target⟩
  have small := wellFormed.small
  rw [nextCluster_of_lt inside, link, masked_of_lt (by omega), entry]

theorem isEof_of_lt (below : cluster < 0x0FFFFFFF) : isEof cluster = false := by
  unfold isEof
  rw [show eofMark.toNat = 0x0FFFFFFF from rfl, decide_eq_false_iff_not]
  omega

theorem WellFormed.not_eof (wellFormed : WellFormed vol) (inside : cluster < vol.fat.length) :
    isEof cluster = false := by
  have small := wellFormed.small
  exact isEof_of_lt (by omega)

theorem isEof_eofMark : isEof eofMark.toNat = true := rfl

theorem WellFormed.isFree_iff (wellFormed : WellFormed vol) (least : 2 ≤ cluster)
    (inside : cluster < vol.fat.length) :
    isFree (vol.fat.getD cluster 0#32) = true ↔ vol.cell cluster = .free := by
  have small := wellFormed.small
  cases state : vol.cell cluster with
  | free =>
      rw [getD_of_cell_free least state]
      simp [isFree]
  | last =>
      rw [getD_of_cell_last state]
      simp [isFree, eofMark, clusterMask]
  | link next =>
      have target := inside_of_taken (wellFormed.table.target cluster next state)
      have entry := getD_of_cell_link state
      have masked := @masked_of_lt (vol.fat.getD cluster 0#32) (by omega)
      refine iff_of_false (fun free => ?_) (by simp)
      rw [isFree, decide_eq_true_eq] at free
      rw [free] at masked
      have zero : (0#32).toNat = 0 := rfl
      omega

def withEntry (vol : Fat32) (cluster : Nat) (value : BitVec 32) : Fat32 :=
  { vol with
    fat := vol.fat.set cluster value
    fatDirty := vol.fatDirty.set (cluster / 128) true }

variable {value : BitVec 32}

theorem setCluster_of_lt (inside : cluster < vol.fat.length) :
    setCluster cluster value vol = (.ok (), vol.withEntry cluster value) :=
  if_pos inside

theorem setCluster_of_le (outside : vol.fat.length ≤ cluster) :
    setCluster cluster value vol = (.error .panic, vol) :=
  if_neg (Nat.not_lt.mpr outside)

theorem tableOnly_withEntry (vol : Fat32) (cluster : Nat) (value : BitVec 32) :
    TableOnly vol (vol.withEntry cluster value) := rfl

theorem withEntry_getElem? {other : Nat} (different : other ≠ cluster) :
    (vol.withEntry cluster value).fat[other]? = vol.fat[other]? :=
  List.getElem?_set_ne different.symm

theorem cell_congr (same : vol'.fat[cluster]? = vol.fat[cluster]?) :
    vol'.cell cluster = vol.cell cluster := by
  unfold cell
  rw [getD_eq_getElem?_getD, same, ← getD_eq_getElem?_getD]

theorem cell_withEntry (least : 2 ≤ cluster) (inside : cluster < vol.fat.length) :
    (vol.withEntry cluster value).cell = Function.update vol.cell cluster (cellOf value) := by
  funext other
  by_cases same : other = cluster
  · subst same
    rw [update_self, cell, if_pos least, getD_eq_getElem?_getD]
    simp only [withEntry]
    rw [List.getElem?_set_self inside]
    rfl
  · rw [update_of_ne same]
    exact cell_congr (withEntry_getElem? same)

theorem countFree_withEntry {value : BitVec 32} (least : 2 ≤ cluster)
    (inside : cluster < vol.fat.length) :
    ((vol.withEntry cluster value).fat.drop 2).countP isFree +
        (if isFree (vol.fat.getD cluster 0#32) then 1 else 0) =
      (vol.fat.drop 2).countP isFree + (if isFree value then 1 else 0) := by
  have place : cluster - 2 < (vol.fat.drop 2).length := by
    rw [length_drop]
    omega
  have entry : (vol.fat.drop 2)[cluster - 2] = vol.fat.getD cluster 0#32 := by
    rw [getD_eq_getElem?_getD, List.getElem?_eq_getElem inside, getElem_drop]
    simp only [Option.getD_some, show 2 + (cluster - 2) = cluster by omega]
  have counted : (if isFree (vol.fat.drop 2)[cluster - 2] then 1 else 0) ≤
      (vol.fat.drop 2).countP isFree := by
    split
    · rename_i free
      exact countP_pos_iff.mpr ⟨_, getElem_mem place, free⟩
    · exact Nat.zero_le _
  have moved : (vol.withEntry cluster value).fat.drop 2 = (vol.fat.drop 2).set (cluster - 2) value := by
    show (vol.fat.set cluster value).drop 2 = _
    rw [drop_set, if_neg (by omega)]
  rw [moved, countP_set place, ← entry]
  omega

/-! ### Allocating -/

theorem firstFree_eq_some (found : vol.firstFree = some cluster) :
    2 ≤ cluster ∧ cluster < vol.fat.length ∧ isFree (vol.fat.getD cluster 0#32) = true ∧
      ∀ other, 2 ≤ other → other < cluster → isFree (vol.fat.getD other 0#32) = false := by
  have entry {other : Nat} (inside : other < vol.fat.length) :
      vol.fat[other]?.any isFree = isFree (vol.fat.getD other 0#32) := by
    rw [getD_eq_getElem?_getD, List.getElem?_eq_getElem inside]
    rfl
  obtain ⟨free, early, late, split, notFree⟩ := List.find?_eq_some_iff_append.mp found
  have mem : cluster ∈ List.range' 2 (vol.fat.length - 2) := by
    rw [split]
    simp
  obtain ⟨least, bound⟩ := mem_range'_1.mp mem
  have inside : cluster < vol.fat.length := by omega
  rw [entry inside] at free
  refine ⟨least, inside, free, fun other otherLeast before => ?_⟩
  have otherMember : other ∈ List.range' 2 (vol.fat.length - 2) :=
    mem_range'_1.mpr ⟨otherLeast, by omega⟩
  have sorted : (List.range' 2 (vol.fat.length - 2)).Pairwise (· < ·) := pairwise_lt_range'
  rw [split] at otherMember sorted
  have isEarly : other ∈ early := by
    rcases mem_append.mp otherMember with isEarly | rest
    · exact isEarly
    · rcases mem_cons.mp rest with same | isLate
      · omega
      · have after := (pairwise_cons.mp (pairwise_append.mp sorted).2.1).1 other isLate
        omega
  have unfree := notFree other isEarly
  rw [entry (by omega)] at unfree
  simpa using unfree

theorem firstFree_eq_none (none' : vol.firstFree = none) (least : 2 ≤ cluster)
    (inside : cluster < vol.fat.length) : isFree (vol.fat.getD cluster 0#32) = false := by
  have unfree := List.find?_eq_none.mp none' cluster (mem_range'_1.mpr ⟨least, by omega⟩)
  rw [List.getElem?_eq_getElem inside] at unfree
  rw [getD_eq_getElem?_getD, List.getElem?_eq_getElem inside]
  simpa using unfree

def allocated (vol : Fat32) (cluster : Nat) : Fat32 :=
  { vol.withEntry cluster eofMark with freeClusters := vol.freeClusters - 1 }

theorem allocCluster_of_none (none' : vol.firstFree = none) :
    allocCluster vol = (.error (.error .outOfSpace), vol) := by
  simp only [allocCluster, bind_run, query_run, none', fail_run]

theorem allocCluster_of_some (found : vol.firstFree = some cluster)
    (small : vol.fat.length ≤ 2 ^ 32) :
    allocCluster vol = (.ok cluster, vol.allocated cluster) := by
  obtain ⟨-, inside, -, -⟩ := firstFree_eq_some found
  have exact : cluster % 2 ^ 32 = cluster := Nat.mod_eq_of_lt (by omega)
  simp only [allocCluster, bind_run, query_run, found, exact,
    setCluster_of_lt inside, modify_run, pure_run]
  rfl

theorem cell_allocated (least : 2 ≤ cluster) (inside : cluster < vol.fat.length) :
    (vol.allocated cluster).cell = Function.update vol.cell cluster .last :=
  cell_withEntry least inside

theorem WellFormed.free_of_firstFree (wellFormed : WellFormed vol)
    (found : vol.firstFree = some cluster) : vol.cell cluster = .free := by
  obtain ⟨least, inside, free, -⟩ := firstFree_eq_some found
  exact (wellFormed.isFree_iff least inside).mp free

theorem WellFormed.allocated (wellFormed : WellFormed vol)
    (found : vol.firstFree = some cluster) : WellFormed (vol.allocated cluster) := by
  obtain ⟨least, inside, free, -⟩ := firstFree_eq_some found
  refine ⟨?_, ?_, ?_⟩
  · show (vol.fat.set cluster eofMark).length ≤ _
    rw [length_set]
    exact wellFormed.small
  · rw [cell_allocated least inside]
    exact wellFormed.table.take (wellFormed.free_of_firstFree found)
  · have counted := @countFree_withEntry vol cluster eofMark least inside
    have before := wellFormed.counted
    rw [if_pos free, if_neg (by decide)] at counted
    show vol.freeClusters - 1 = ((vol.withEntry cluster eofMark).fat.drop 2).countP isFree
    omega

structure Chained (vol vol' : Fat32) (clusters : List Nat) : Prop where
  wellFormed : WellFormed vol'
  tableOnly : TableOnly vol vol'
  length : vol'.fat.length = vol.fat.length
  nodup : clusters.Nodup
  free : ∀ cluster, cluster ∈ clusters → 2 ≤ cluster ∧ cluster < vol.fat.length ∧
    vol.cell cluster = .free
  others : ∀ other, other ∉ clusters → vol'.fat[other]? = vol.fat[other]?

structure Allocated (vol vol' : Fat32) (clusters : List Nat) : Prop
    extends Chained vol vol' clusters where
  ends : ∀ cluster, cluster ∈ clusters → vol'.cell cluster = .last
  unreferenced : ∀ cluster, cluster ∈ clusters → Unreferenced vol'.cell cluster

theorem Allocated.nil (wellFormed : WellFormed vol) : Allocated vol vol [] :=
  { wellFormed
    tableOnly := TableOnly.refl vol
    length := rfl
    nodup := nodup_nil
    free := fun _ mem => by cases mem
    ends := fun _ mem => by cases mem
    unreferenced := fun _ mem => by cases mem
    others := fun _ _ => rfl }

theorem WellFormed.allocClusters (wellFormed : WellFormed vol) (needed : Nat) :
    Fallible.Yields (Fat32.allocClusters needed) vol
      (fun clusters after => Allocated vol after clusters ∧ clusters.length = needed)
      (fun stop after => stop = .error .outOfSpace ∧ ∃ clusters, Allocated vol after clusters) := by
  induction needed generalizing vol with
  | zero =>
      exact yields_of_ok rfl ⟨Allocated.nil wellFormed, rfl⟩
  | succ needed ih =>
      cases found : vol.firstFree with
      | none =>
          exact yields_of_error (bind_of_error (allocCluster_of_none found))
            ⟨rfl, [], Allocated.nil wellFormed⟩
      | some cluster =>
          obtain ⟨least, inside, -, -⟩ := firstFree_eq_some found
          have small := wellFormed.small
          have free := wellFormed.free_of_firstFree found
          have cells := @cell_allocated vol cluster least inside
          -- The later clusters join this one.
          have grown {clusters : List Nat} {after : Fat32}
              (later : Allocated (vol.allocated cluster) after clusters) :
              Allocated vol after (cluster :: clusters) := by
            have sameLength : (vol.allocated cluster).fat.length = vol.fat.length :=
              length_set
            have fresh : cluster ∉ clusters := by
              intro mem
              have never := (later.free cluster mem).2.2
              rw [cells, update_self] at never
              cases never
            have keptCluster : after.cell cluster = .last := by
              rw [cell_congr (later.others cluster fresh), cells, update_self]
            refine
              { wellFormed := later.wellFormed
                tableOnly := (show TableOnly vol (vol.allocated cluster) from rfl).trans
                  later.tableOnly
                length := later.length.trans sameLength
                nodup := nodup_cons.mpr ⟨fresh, later.nodup⟩
                others := fun other absent => ?others
                free := fun other mem => ?free
                ends := fun other mem => ?ends
                unreferenced := fun other mem => ?unreferenced }
            case others =>
              rw [mem_cons, not_or] at absent
              rw [later.others other absent.2]
              exact withEntry_getElem? absent.1
            case free =>
              rcases mem_cons.mp mem with rfl | rest
              · exact ⟨least, inside, free⟩
              · obtain ⟨otherLeast, otherInside, otherFree⟩ := later.free other rest
                rw [cells, update_of_ne (by rintro rfl; exact fresh rest)] at otherFree
                exact ⟨otherLeast, by rw [← sameLength]; exact otherInside, otherFree⟩
            case ends =>
              rcases mem_cons.mp mem with rfl | rest
              · exact keptCluster
              · exact later.ends other rest
            case unreferenced =>
              rcases mem_cons.mp mem with rfl | rest
              · intro source linked
                by_cases isNew : source ∈ clusters
                · rw [later.ends source isNew] at linked
                  cases linked
                · rw [cell_congr (later.others source isNew), cells] at linked
                  by_cases same : source = other
                  · rw [same, update_self] at linked
                    cases linked
                  · rw [update_of_ne same] at linked
                    exact Chains.unreferenced_of_free wellFormed.table free source linked
              · exact later.unreferenced other rest
          refine Fallible.Yields.after (allocCluster_of_some found (by omega)) ?_
          refine Fallible.Yields.bind_with (ih (wellFormed.allocated found)) ?_ ?_
          · rintro clusters after ⟨later, length⟩
            exact yields_of_ok rfl ⟨grown later, by rw [length_cons, length]⟩
          · rintro stop after ⟨rfl, clusters, later⟩
            exact ⟨rfl, _, grown later⟩

/-! ### Linking -/

theorem WellFormed.withEntry_of_taken (wellFormed : WellFormed vol)
    (taken : vol.cell cluster ≠ .free) (valueTaken : isFree value = false)
    (table : Chains.WellFormed (Function.update vol.cell cluster (cellOf value))) :
    WellFormed (vol.withEntry cluster value) := by
  obtain ⟨least, inside⟩ := inside_of_taken taken
  refine ⟨?_, ?_, ?_⟩
  · show (vol.fat.set cluster value).length ≤ _
    rw [length_set]
    exact wellFormed.small
  · rw [cell_withEntry least inside]
    exact table
  · have counted := @countFree_withEntry vol cluster value least inside
    have notFree : isFree (vol.fat.getD cluster 0#32) = false := by
      rw [← Bool.not_eq_true, wellFormed.isFree_iff least inside]
      exact taken
    rw [notFree, valueTaken] at counted
    show vol.freeClusters = ((vol.withEntry cluster value).fat.drop 2).countP isFree
    rw [wellFormed.counted]
    simpa using counted.symm

theorem isFree_ofNat (least : 2 ≤ cluster) (small : cluster < 2 ^ 28) :
    isFree (BitVec.ofNat 32 cluster) = false := by
  have value : (BitVec.ofNat 32 cluster).toNat = cluster := by
    rw [BitVec.toNat_ofNat]
    omega
  have masked := @masked_of_lt (BitVec.ofNat 32 cluster) (by omega)
  unfold isFree
  rw [decide_eq_false_iff_not]
  intro zero
  rw [zero, value, show (0#32).toNat = 0 from rfl] at masked
  omega

variable {rest : List Nat} {head : Nat}

theorem WellFormed.linked (wellFormed : WellFormed vol) (ends : vol.cell cluster = .last)
    (chain : IsChain vol.cell (head :: rest)) (unreferenced : Unreferenced vol.cell head)
    (fresh : cluster ∉ head :: rest) :
    WellFormed (vol.withEntry cluster (BitVec.ofNat 32 head)) ∧
      (vol.withEntry cluster (BitVec.ofNat 32 head)).cell =
        Function.update vol.cell cluster (.link head) := by
  have taken : vol.cell cluster ≠ .free := by
    rw [ends]
    simp
  have small := wellFormed.small
  obtain ⟨headLeast, headInside⟩ := inside_of_taken (chain.taken mem_cons_self)
  have entry := @cellOf_ofNat head headLeast (by omega)
  obtain ⟨least, inside⟩ := inside_of_taken taken
  refine ⟨wellFormed.withEntry_of_taken taken (isFree_ofNat headLeast (by omega)) ?_, ?_⟩
  · rw [entry]
    exact wellFormed.table.join ends chain unreferenced fresh
  · rw [cell_withEntry least inside, entry]

structure LinkedUp (vol vol' : Fat32) (clusters : List Nat) : Prop where
  wellFormed : WellFormed vol'
  tableOnly : TableOnly vol vol'
  length : vol'.fat.length = vol.fat.length
  others : ∀ other, other ∉ clusters → vol'.fat[other]? = vol.fat[other]?

theorem WellFormed.linkClusters (wellFormed : WellFormed vol) (nodup : (head :: rest).Nodup)
    (ends : ∀ cluster, cluster ∈ head :: rest → vol.cell cluster = .last)
    (unreferenced : ∀ cluster, cluster ∈ rest → Unreferenced vol.cell cluster) :
    ∃ after, Fat32.linkClusters (head :: rest) vol = (.ok (), after) ∧
      LinkedUp vol after (head :: rest) ∧ IsChain after.cell (head :: rest) := by
  induction rest generalizing vol head with
  | nil =>
      have endsHere := ends head mem_cons_self
      have taken : vol.cell head ≠ .free := by
        rw [endsHere]
        simp
      obtain ⟨least, inside⟩ := inside_of_taken taken
      have unchanged : Function.update vol.cell head (cellOf eofMark) = vol.cell := by
        rw [cellOf_eofMark, ← endsHere, update_eq_self]
      refine ⟨vol.withEntry head eofMark, setCluster_of_lt inside, ?_, ?_⟩
      · refine
          { wellFormed := wellFormed.withEntry_of_taken taken (by decide) ?_
            tableOnly := rfl
            length := length_set
            others := fun other absent => withEntry_getElem? (by simpa using absent) }
        rw [unchanged]
        exact wellFormed.table
      · show (vol.withEntry head eofMark).cell head = .last
        rw [cell_withEntry least inside, unchanged]
        exact endsHere
  | cons next rest ih =>
      have endsHere := ends head mem_cons_self
      have endsNext := ends next (mem_cons_of_mem _ mem_cons_self)
      obtain ⟨fresh, laterNodup⟩ := nodup_cons.mp nodup
      have apart : head ≠ next := by
        rintro rfl
        exact fresh mem_cons_self
      obtain ⟨linkedWell, cells⟩ := wellFormed.linked endsHere
        (show IsChain vol.cell [next] from endsNext) (unreferenced next mem_cons_self)
        (by simpa using apart)
      have taken : vol.cell head ≠ .free := by
        rw [endsHere]
        simp
      obtain ⟨least, inside⟩ := inside_of_taken taken
      obtain ⟨after, linked, result, chain⟩ := ih linkedWell laterNodup
        (by
          intro cluster mem
          rw [cells, update_of_ne (by rintro rfl; exact fresh mem)]
          exact ends cluster (mem_cons_of_mem _ mem))
        (by
          intro cluster mem source toCluster
          rw [cells] at toCluster
          by_cases same : source = head
          · rw [same, update_self] at toCluster
            cases toCluster
            exact (nodup_cons.mp laterNodup).1 mem
          · rw [update_of_ne same] at toCluster
            exact unreferenced cluster (mem_cons_of_mem _ mem) source toCluster)
      refine ⟨after, ?_, ?_, ?_⟩
      · show (setCluster head (BitVec.ofNat 32 next) >>= fun _ =>
          Fat32.linkClusters (next :: rest)) vol = _
        rw [bind_of_ok (setCluster_of_lt inside)]
        exact linked
      · refine
          { wellFormed := result.wellFormed
            tableOnly := (tableOnly_withEntry vol head _).trans result.tableOnly
            length := result.length.trans length_set
            others := fun other absent => ?_ }
        rw [mem_cons, not_or] at absent
        rw [result.others other absent.2, withEntry_getElem? absent.1]
      · refine ⟨?_, chain⟩
        rw [cell_congr (result.others head fresh), cells, update_self]

theorem WellFormed.allocateChain (wellFormed : WellFormed vol) (needed : Nat) :
    Fallible.Yields (Fat32.allocateChain needed) vol
      (fun clusters after => Chained vol after clusters ∧ clusters.length = needed ∧
        (0 < needed → IsChain after.cell clusters) ∧
        ∀ head rest, clusters = head :: rest → Unreferenced after.cell head)
      (fun stop after => stop = .error .outOfSpace ∧
        ∃ clusters, Allocated vol after clusters) := by
  refine Fallible.Yields.bind_with (wellFormed.allocClusters needed) ?_ ?_
  · rintro clusters middle ⟨taken, length⟩
    cases clusters with
    | nil =>
        refine yields_of_ok rfl ⟨taken.toChained, length, ?_, ?_⟩
        · intro some'
          rw [← length] at some'
          cases some'
        · intro head rest same
          cases same
    | cons head rest =>
        obtain ⟨after, linked, result, chain⟩ := taken.wellFormed.linkClusters taken.nodup taken.ends
          (fun cluster mem => taken.unreferenced cluster (mem_cons_of_mem _ mem))
        refine Fallible.Yields.after linked (yields_of_ok rfl ⟨?_, length, ?_, ?_⟩)
        · exact
            { wellFormed := result.wellFormed
              tableOnly := taken.tableOnly.trans result.tableOnly
              length := result.length.trans taken.length
              nodup := taken.nodup
              free := taken.free
              others := fun other absent =>
                (result.others other absent).trans (taken.others other absent) }
        · exact fun _ => chain
        · intro first others same source toFirst
          cases same
          by_cases inChain : source ∈ head :: rest
          · exact chain.head_not_mem (chain.link_mem_tail inChain toFirst)
          · rw [cell_congr (result.others source inChain)] at toFirst
            exact taken.unreferenced head mem_cons_self source toFirst
  · rintro stop middle ⟨rfl, clusters, taken⟩
    exact ⟨rfl, clusters, taken⟩

/-- The volume after one turn of the loop in `free_chain`. -/
def freed (vol : Fat32) (cluster : Nat) : Fat32 :=
  { vol.withEntry cluster 0#32 with freeClusters := vol.freeClusters + 1 }

theorem WellFormed.freeClusters_lt (wellFormed : WellFormed vol) :
    vol.freeClusters < 2 ^ 28 := by
  have counted := wellFormed.counted
  have small := wellFormed.small
  have bound := @countP_le_length _ isFree (vol.fat.drop 2)
  rw [length_drop] at bound
  omega

theorem WellFormed.freed (wellFormed : WellFormed vol) (taken : vol.cell cluster ≠ .free)
    (unreferenced : Unreferenced vol.cell cluster) :
    WellFormed (vol.freed cluster) ∧
      (vol.freed cluster).cell = Function.update vol.cell cluster .free := by
  obtain ⟨least, inside⟩ := inside_of_taken taken
  have cells : (vol.freed cluster).cell = Function.update vol.cell cluster .free :=
    cell_withEntry least inside
  refine ⟨⟨?_, ?_, ?_⟩, cells⟩
  · show (vol.fat.set cluster 0#32).length ≤ _
    rw [length_set]
    exact wellFormed.small
  · rw [cells]
    exact wellFormed.table.release unreferenced
  · have counted := @countFree_withEntry vol cluster 0#32 least inside
    have notFree : isFree (vol.fat.getD cluster 0#32) = false := by
      rw [← Bool.not_eq_true, wellFormed.isFree_iff least inside]
      exact taken
    rw [notFree, if_neg (by simp), if_pos (by decide)] at counted
    show vol.freeClusters + 1 = ((vol.withEntry cluster 0#32).fat.drop 2).countP isFree
    rw [wellFormed.counted]
    omega

theorem WellFormed.freeClustersFrom_step (wellFormed : WellFormed vol)
    (taken : vol.cell cluster ≠ .free) (found : vol.nextCluster cluster = .ok next)
    (left : Nat) :
    freeClustersFrom (left + 1) cluster vol = freeClustersFrom left next (vol.freed cluster) := by
  obtain ⟨least, inside⟩ := inside_of_taken taken
  have counted : countFreed (vol.withEntry cluster 0#32) = (.ok (), vol.freed cluster) := by
    have bound := wellFormed.freeClusters_lt
    unfold countFreed
    rw [u32_of_lt _ (by omega) (by
      show (vol.freeClusters : Int) + 1 < 2 ^ 32
      omega)]
    rfl
  rw [freeClustersFrom.eq_def]
  simp only [wellFormed.not_eof inside, Bool.false_eq_true, if_false, Nat.not_lt.mpr least]
  rw [bind_of_ok (show Fallible.query _ vol = (.ok next, vol) by
    rw [query_run, found])]
  rw [bind_of_ok (setCluster_of_lt inside), bind_of_ok counted]

theorem freeClustersFrom_eof (left : Nat) :
    freeClustersFrom left eofMark.toNat vol = (.ok (), vol) := by
  rw [freeClustersFrom.eq_def]
  simp only [isEof_eofMark]
  rfl

structure Freed (vol vol' : Fat32) (clusters : List Nat) : Prop where
  wellFormed : WellFormed vol'
  tableOnly : TableOnly vol vol'
  length : vol'.fat.length = vol.fat.length
  freed : ∀ cluster, cluster ∈ clusters → vol'.fat[cluster]? = some 0#32
  others : ∀ other, other ∉ clusters → vol'.fat[other]? = vol.fat[other]?

theorem freed_getElem? (inside : cluster < vol.fat.length) :
    (vol.freed cluster).fat[cluster]? = some 0#32 :=
  List.getElem?_set_self inside

theorem WellFormed.freeClustersFrom (wellFormed : WellFormed vol) {head : Nat} {rest : List Nat}
    (chain : IsChain vol.cell (head :: rest)) (unreferenced : Unreferenced vol.cell head)
    {left : Nat} (enough : (head :: rest).length ≤ left) :
    ∃ after, Fat32.freeClustersFrom left head vol = (.ok (), after) ∧
      Freed vol after (head :: rest) := by
  induction rest generalizing vol head left with
  | nil =>
      have taken : vol.cell head ≠ .free := chain.taken mem_cons_self
      obtain ⟨well, -⟩ := wellFormed.freed taken unreferenced
      obtain ⟨left, rfl⟩ := Nat.exists_eq_succ_of_ne_zero (Nat.ne_of_gt enough)
      refine ⟨vol.freed head, ?_, ?_⟩
      · exact (wellFormed.freeClustersFrom_step taken (link_of_last chain) left).trans
          (freeClustersFrom_eof left)
      · exact
          { wellFormed := well
            tableOnly := rfl
            length := length_set
            freed := fun cluster mem => by
              rw [mem_singleton.mp mem]
              exact freed_getElem? (inside_of_taken taken).2
            others := fun other absent => withEntry_getElem? (by simpa using absent) }
  | cons next rest ih =>
      have taken : vol.cell head ≠ .free := chain.taken mem_cons_self
      have fresh := chain.head_not_mem
      obtain ⟨well, cells⟩ := wellFormed.freed taken unreferenced
      obtain ⟨left, rfl⟩ := Nat.exists_eq_succ_of_ne_zero (Nat.ne_of_gt (Nat.lt_of_lt_of_le
        (Nat.succ_pos _) enough))
      have laterChain : IsChain (vol.freed head).cell (next :: rest) := by
        refine chain.2.congr (fun cluster mem => ?_)
        rw [cells, update_of_ne (by rintro rfl; exact fresh mem)]
      have laterUnreferenced : Unreferenced (vol.freed head).cell next := by
        rw [cells]
        exact wellFormed.table.unreferenced_next chain.1
      obtain ⟨after, freedRest, result⟩ := ih well laterChain laterUnreferenced
        (Nat.le_of_succ_le_succ enough)
      refine ⟨after, ?_, ?_⟩
      · exact (wellFormed.freeClustersFrom_step taken (wellFormed.link_of_link chain.1).1 left).trans
          freedRest
      · refine
          { wellFormed := result.wellFormed
            tableOnly := (show TableOnly vol (vol.freed head) from rfl).trans result.tableOnly
            length := result.length.trans length_set
            freed := fun cluster mem => ?freed
            others := fun other absent => ?others }
        case freed =>
          rcases mem_cons.mp mem with rfl | later
          · rw [result.others cluster fresh]
            exact freed_getElem? (inside_of_taken taken).2
          · exact result.freed cluster later
        case others =>
          rw [mem_cons, not_or] at absent
          rw [result.others other absent.2]
          exact withEntry_getElem? absent.1

/-- The table after `extend_dir` put a new cluster behind the last one. -/
def extended (vol : Fat32) (newCluster tail : Nat) : Fat32 :=
  (vol.allocated newCluster).withEntry tail (BitVec.ofNat 32 newCluster)

section

variable (wellFormed : WellFormed vol) (chain : IsChain vol.cell (head :: rest))
include wellFormed chain

theorem lastCluster_of_chain (left : Nat) :
    vol.lastCluster left head =
      if rest.length ≤ left then .ok ((head :: rest).getLast (cons_ne_nil _ _))
      else .error (.error .corrupt) := by
  induction rest generalizing head left with
  | nil =>
      rw [lastCluster.eq_def]
      dsimp only
      rw [link_of_last chain, Except.ok_bind, if_pos isEof_eofMark, length_nil,
        if_pos (Nat.zero_le _)]
      rfl
  | cons next rest ih =>
      obtain ⟨found, -, inside⟩ := wellFormed.link_of_link chain.1
      rw [lastCluster.eq_def]
      dsimp only
      rw [found, Except.ok_bind, if_neg (by rw [wellFormed.not_eof inside]; simp)]
      cases left with
      | zero =>
          rw [if_neg (by simp)]
          rfl
      | succ left =>
          dsimp only
          rw [ih chain.2 left, length_cons]
          simp only [Nat.add_le_add_iff_right, getLast_cons_cons]

theorem WellFormed.extended {newCluster : Nat} (found : vol.firstFree = some newCluster) :
    WellFormed (vol.extended newCluster ((head :: rest).getLast (cons_ne_nil _ _))) ∧
      (vol.extended newCluster ((head :: rest).getLast (cons_ne_nil _ _))).cell =
        Function.update (Function.update vol.cell newCluster .last)
          ((head :: rest).getLast (cons_ne_nil _ _)) (.link newCluster) ∧
      IsChain (vol.extended newCluster
        ((head :: rest).getLast (cons_ne_nil _ _))).cell (head :: rest ++ [newCluster]) := by
  obtain ⟨least, inside, -, -⟩ := firstFree_eq_some found
  have free := wellFormed.free_of_firstFree found
  have cells := @cell_allocated vol newCluster least inside
  have well := wellFormed.allocated found
  have fresh : newCluster ∉ head :: rest := fun mem => chain.taken mem free
  have chainAfter : IsChain (vol.allocated newCluster).cell (head :: rest) := by
    refine chain.congr (fun cluster mem => ?_)
    rw [cells, update_of_ne (by rintro rfl; exact fresh mem)]
  have newChain : IsChain (vol.allocated newCluster).cell [newCluster] := by
    show (vol.allocated newCluster).cell newCluster = .last
    rw [cells, update_self]
  have newUnreferenced : Unreferenced (vol.allocated newCluster).cell newCluster := by
    intro source linked
    rw [cells] at linked
    by_cases same : source = newCluster
    · rw [same, update_self] at linked
      cases linked
    · rw [update_of_ne same] at linked
      exact Chains.unreferenced_of_free wellFormed.table free source linked
  have split := dropLast_append_getLast (cons_ne_nil head rest)
  generalize tailEq : (head :: rest).getLast (cons_ne_nil _ _) = tail at split ⊢
  have tailMember : tail ∈ head :: rest := by
    rw [← tailEq]
    exact getLast_mem _
  have ends : (vol.allocated newCluster).cell tail = .last := by
    rw [← split] at chainAfter
    exact chainAfter.suffix
  have apart : tail ∉ [newCluster] := by
    rw [mem_singleton]
    rintro rfl
    exact fresh tailMember
  obtain ⟨linkedWell, linkedCells⟩ := well.linked ends newChain newUnreferenced apart
  refine ⟨linkedWell, ?_, ?_⟩
  · show ((vol.allocated newCluster).withEntry tail _).cell = _
    rw [linkedCells, cells]
  · show IsChain ((vol.allocated newCluster).withEntry tail _).cell _
    rw [linkedCells, ← split, append_assoc]
    rw [← split] at chainAfter
    exact chainAfter.join newChain apart

theorem WellFormed.extendDir_run :
    Fat32.extendDir head vol =
      match vol.firstFree with
      | none => (.error (.error .outOfSpace), vol)
      | some newCluster =>
          if rest.length ≤ chainGuard then
            (zeroSectors newCluster vol.sectorsPerCluster 0 >>= fun _ => pure newCluster)
              (vol.extended newCluster ((head :: rest).getLast (cons_ne_nil _ _)))
          else (.error (.error .corrupt), vol.allocated newCluster) := by
  cases found : vol.firstFree with
  | none => exact bind_of_error (allocCluster_of_none found)
  | some newCluster =>
      have small := wellFormed.small
      obtain ⟨least, inside, -, -⟩ := firstFree_eq_some found
      have free := wellFormed.free_of_firstFree found
      have cells := @cell_allocated vol newCluster least inside
      have fresh : newCluster ∉ head :: rest := fun mem => chain.taken mem free
      have chainAfter : IsChain (vol.allocated newCluster).cell (head :: rest) := by
        refine chain.congr (fun cluster mem => ?_)
        rw [cells, update_of_ne (by rintro rfl; exact fresh mem)]
      have walked := lastCluster_of_chain (wellFormed.allocated found) chainAfter chainGuard
      unfold Fat32.extendDir
      rw [bind_of_ok (allocCluster_of_some found (by omega))]
      dsimp only
      by_cases short : rest.length ≤ chainGuard
      · rw [if_pos short] at walked ⊢
        have tailInside : (head :: rest).getLast (cons_ne_nil _ _) <
            (vol.allocated newCluster).fat.length :=
          (inside_of_taken (chainAfter.taken (getLast_mem (cons_ne_nil _ _)))).2
        rw [bind_of_ok (show Fallible.query _ (vol.allocated newCluster) =
            (.ok _, vol.allocated newCluster) by rw [query_run, walked]),
          bind_of_ok (setCluster_of_lt tailInside)]
        rfl
      · rw [if_neg short] at walked ⊢
        rw [bind_of_error (show Fallible.query _ (vol.allocated newCluster) =
            (.error _, vol.allocated newCluster) by rw [query_run, walked])]

end

def SameTable (vol vol' : Fat32) : Prop :=
  vol'.fat = vol.fat ∧ vol'.fatDirty = vol.fatDirty ∧
    vol'.freeClusters = vol.freeClusters

theorem SameTable.trans (first second third : Fat32) (before : SameTable first second)
    (after : SameTable second third) : SameTable first third :=
  ⟨after.1.trans before.1, after.2.1.trans before.2.1, after.2.2.trans before.2.2⟩

theorem WellFormed.of_sameTable (wellFormed : WellFormed vol)
    (same : SameTable vol vol') : WellFormed vol' := by
  have cells : vol'.cell = vol.cell := by
    funext cluster
    exact cell_congr (by rw [same.1])
  refine ⟨?_, ?_, ?_⟩
  · rw [same.1]
    exact wellFormed.small
  · rw [cells]
    exact wellFormed.table
  · rw [same.1, same.2.2]
    exact wellFormed.counted

theorem writeClusterSector_sameTable (cluster s : Nat) (sector : Sector) :
    Fallible.Preserves SameTable (writeClusterSector cluster s sector) := by
  refine preserves_bind SameTable.trans (fun vol => ⟨rfl, rfl, rfl⟩) (fun start vol => ?_)
  exact ⟨rfl, rfl, rfl⟩

theorem zeroSectors_sameTable (cluster left s : Nat) :
    Fallible.Preserves SameTable (zeroSectors cluster left s) := by
  induction left generalizing s with
  | zero => exact preserves_pure (fun _ => ⟨rfl, rfl, rfl⟩) _
  | succ left ih =>
      exact preserves_bind SameTable.trans (writeClusterSector_sameTable cluster s _)
        (fun _ => ih (s + 1))

theorem Chained.kept {clusters : List Nat} (chained : Chained vol vol' clusters) {other : Nat}
    (busy : other < 2 ∨ vol.cell other ≠ .free) : vol'.fat[other]? = vol.fat[other]? := by
  refine chained.others other (fun mem => ?_)
  obtain ⟨least, -, free⟩ := chained.free other mem
  rcases busy with low | taken
  · omega
  · exact taken free

theorem allocated_kept {newCluster other : Nat} (wellFormed : WellFormed vol)
    (found : vol.firstFree = some newCluster) (busy : other < 2 ∨ vol.cell other ≠ .free) :
    (vol.allocated newCluster).fat[other]? = vol.fat[other]? := by
  refine withEntry_getElem? ?_
  rintro rfl
  rcases busy with low | taken
  · have least := (firstFree_eq_some found).1
    omega
  · exact taken (wellFormed.free_of_firstFree found)

theorem WellFormed.extendDir (wellFormed : WellFormed vol)
    (chain : IsChain vol.cell (head :: rest)) :
    WellFormed (Fat32.extendDir head vol).2 ∧
      ∀ other, (other < 2 ∨ vol.cell other ≠ .free) →
        other ≠ (head :: rest).getLast (cons_ne_nil _ _) →
        (Fat32.extendDir head vol).2.fat[other]? = vol.fat[other]? := by
  rw [wellFormed.extendDir_run chain]
  cases found : vol.firstFree with
  | none => exact ⟨wellFormed, fun _ _ _ => rfl⟩
  | some newCluster =>
      dsimp only
      split
      · obtain ⟨well, -, -⟩ := wellFormed.extended chain found
        have zeroed := preserves_bind SameTable.trans
          (zeroSectors_sameTable newCluster vol.sectorsPerCluster 0)
          (fun _ => preserves_pure (fun _ => ⟨rfl, rfl, rfl⟩) newCluster)
          (vol.extended newCluster ((head :: rest).getLast (cons_ne_nil _ _)))
        refine ⟨well.of_sameTable zeroed, fun other busy notTail => ?_⟩
        rw [zeroed.1]
        exact (withEntry_getElem? notTail).trans (allocated_kept wellFormed found busy)
      · exact ⟨wellFormed.allocated found, fun other busy _ => allocated_kept wellFormed found busy⟩

/-- Allocating and linking, extending a directory and freeing a chain keep the table well
formed, however they end, and touch no other entries than those of their own clusters. -/
theorem table_stays_well_formed (wellFormed : WellFormed vol) :
    (∀ needed, WellFormed (allocateChain needed vol).2 ∧
      ∀ other, (other < 2 ∨ vol.cell other ≠ .free) →
        (allocateChain needed vol).2.fat[other]? = vol.fat[other]?) ∧
    (∀ head rest, IsChain vol.cell (head :: rest) → WellFormed (Fat32.extendDir head vol).2 ∧
        ∀ other, (other < 2 ∨ vol.cell other ≠ .free) →
          other ≠ (head :: rest).getLast (List.cons_ne_nil _ _) →
          (Fat32.extendDir head vol).2.fat[other]? = vol.fat[other]?) ∧
    (∀ head rest, IsChain vol.cell (head :: rest) → Unreferenced vol.cell head →
      (head :: rest).length ≤ chainGuard →
      (freeChain head vol).1 = .ok () ∧ WellFormed (freeChain head vol).2 ∧
        (∀ cluster, cluster ∈ head :: rest → (freeChain head vol).2.fat[cluster]? = some 0#32) ∧
        ∀ other, other ∉ head :: rest →
          (freeChain head vol).2.fat[other]? = vol.fat[other]?) := by
  refine ⟨fun needed => ?_, fun head rest chain => wellFormed.extendDir chain,
    fun head rest chain unreferenced short => ?_⟩
  · have allocates := wellFormed.allocateChain needed
    cases outcome : allocateChain needed vol with
    | mk result after =>
        cases result with
        | ok clusters =>
            obtain ⟨chained, -⟩ := allocates.of_ok outcome
            exact ⟨chained.wellFormed, fun other busy => chained.kept busy⟩
        | error stop =>
            obtain ⟨-, clusters, taken⟩ := allocates.of_error outcome
            exact ⟨taken.wellFormed, fun other busy => taken.toChained.kept busy⟩
  · obtain ⟨after, freed, result⟩ := @WellFormed.freeClustersFrom _ wellFormed _ _ chain unreferenced
      (chainGuard + 1) (by omega)
    have frees : freeChain head vol = (.ok (), after) := freed
    rw [frees]
    exact ⟨rfl, result.wellFormed, result.freed, result.others⟩

theorem cell_beyond {front : List (BitVec 32)} {count cluster : Nat}
    (entries : vol.fat = front ++ List.replicate count 0#32) (beyond : front.length ≤ cluster) :
    vol.cell cluster = .free := by
  have zero : vol.fat.getD cluster 0#32 = 0#32 := by
    rw [entries, getD_eq_getElem?_getD, List.getElem?_append_right beyond, List.getElem?_replicate]
    split <;> rfl
  rw [cell, zero, cellOf_zero]
  split <;> rfl

theorem formatted_cell (cluster : Nat) :
    formatted.cell cluster = if cluster = 2 then .last else .free := by
  by_cases root : cluster = 2
  · subst root
    rfl
  · rw [if_neg root]
    by_cases small : cluster < 3
    · exact if_neg (by omega)
    · exact cell_beyond rfl (Nat.le_of_not_lt small)

theorem formatted_wellFormed : WellFormed formatted :=
  ⟨by decide +kernel, Chains.wellFormed_of_ascending (fun _ beyond => cell_beyond rfl beyond)
    (by decide +kernel) (by decide +kernel), by decide +kernel⟩

theorem installed_wellFormed (entries : List (List (BitVec 8))) (content : List (BitVec 8)) :
    WellFormed (installed entries content) := by
  have same : (installed entries content).cell = (installed [] []).cell := rfl
  refine ⟨show (installed [] []).fat.length ≤ _ by decide +kernel, ?_,
    show (installed [] []).freeClusters = ((installed [] []).fat.drop 2).countP isFree by
      decide +kernel⟩
  rw [same]
  exact Chains.wellFormed_of_ascending (fun _ beyond => cell_beyond rfl beyond) (by decide +kernel)
    (by decide +kernel)

theorem table_stays_well_formed_formatted :
    WellFormed formatted ∧ IsChain formatted.cell [2] ∧
      WellFormed (allocateChain 3 formatted).2 ∧ WellFormed (Fat32.extendDir 2 formatted).2 := by
  have chain : IsChain formatted.cell [2] := by
    show formatted.cell 2 = .last
    rw [formatted_cell, if_pos rfl]
  obtain ⟨allocates, extends', -⟩ := table_stays_well_formed formatted_wellFormed
  exact ⟨formatted_wellFormed, chain, (allocates 3).1, (extends' 2 [] chain).1⟩

end Fat32
end MachaOS.Fat
