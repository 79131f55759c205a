/-
The contents of a chain of clusters.

Reading a file takes its bytes from the sectors of its chain; storing a content fills a
new chain so that reading gives the content back.
-/

import MachaOS.Fat.EndMarks
import MachaOS.Fat.Heads
import MachaOS.Fat.Operations

namespace MachaOS.Fat

open Chains (IsChain Unreferenced)
open Fallible (Keeps)

namespace Fat32

theorem bytesOf_take (sector : Sector) {count : Nat} (inside : count ≤ 512) :
    (bytesOf sector 512).take count = bytesOf sector count := by
  show ((List.range 512).map (fun i => sector i)).take count =
    (List.range count).map (fun i => sector i)
  rw [← List.map_take, List.take_range, Nat.min_eq_left inside]

theorem bytesOf_congr {sector sector' : Sector} (same : ByteMemory.SameOn sector sector' 0 512) :
    bytesOf sector' 512 = bytesOf sector 512 := by
  refine List.map_congr_left (fun offset mem => same offset (Nat.zero_le _) ?_)
  have inside := List.mem_range.mp mem
  omega

theorem bytesOf_sectorOf {bytes : List (BitVec 8)} (fits : bytes.length ≤ 512) :
    (bytesOf (sectorOf bytes) 512).take bytes.length = bytes := by
  rw [bytesOf_take _ fits]
  show (List.range bytes.length).map (fun i => bytes.getD i 0#8) = bytes
  refine List.ext_getElem (by simp) (fun i inside inside' => ?_)
  rw [List.getElem_map, List.getElem_range, List.getD_eq_getElem?_getD,
    List.getElem?_eq_getElem inside', Option.getD_some]

variable {vol vol' : Fat32} {head cluster s : Nat} {rest clusters : List Nat}

def sectorBytes (vol : Fat32) (cluster s count : Nat) : List (BitVec 8) :=
  (List.range' s count).flatMap (fun s => bytesOf (vol.clusterSector cluster s) 512)

def contentsOf (vol : Fat32) (clusters : List Nat) : List (BitVec 8) :=
  clusters.flatMap (fun cluster => vol.sectorBytes cluster 0 vol.sectorsPerCluster)

theorem sectorBytes_succ (cluster s count : Nat) :
    vol.sectorBytes cluster s (count + 1) =
      bytesOf (vol.clusterSector cluster s) 512 ++ vol.sectorBytes cluster (s + 1) count := by
  rw [sectorBytes, List.range'_succ, List.flatMap_cons, sectorBytes]

theorem sectorBytes_length (cluster s count : Nat) :
    (vol.sectorBytes cluster s count).length = 512 * count := by
  induction count generalizing s with
  | zero => rfl
  | succ count ih =>
      rw [sectorBytes_succ, List.length_append, bytesOf_length, ih]
      omega

theorem contentsOf_cons : vol.contentsOf (cluster :: rest) =
    vol.sectorBytes cluster 0 vol.sectorsPerCluster ++ vol.contentsOf rest := by
  rw [contentsOf, List.flatMap_cons, contentsOf]

theorem contentsOf_length (clusters : List Nat) :
    (vol.contentsOf clusters).length = 512 * vol.sectorsPerCluster * clusters.length := by
  induction clusters with
  | nil => rfl
  | cons cluster rest ih =>
      rw [contentsOf_cons, List.length_append, sectorBytes_length, ih, List.length_cons, Nat.mul_succ]
      omega

theorem sectorBytes_congr {count : Nat} (same : ∀ s', s ≤ s' → s' < s + count →
      ByteMemory.SameOn (vol.clusterSector cluster s') (vol'.clusterSector cluster s') 0 512) :
    vol'.sectorBytes cluster s count = vol.sectorBytes cluster s count := by
  refine List.flatMap_congr (fun s' mem => bytesOf_congr ?_)
  obtain ⟨lower, upper⟩ := List.mem_range'_1.mp mem
  exact same s' lower upper

theorem takeSectors_eq (geometry : Geometry vol) (least : 2 ≤ cluster)
    (inside : cluster < vol.fat.length) {left : Nat}
    (within : s + left ≤ vol.sectorsPerCluster) (remaining : Nat) :
    vol.takeSectors cluster left s remaining =
      .ok ((vol.sectorBytes cluster s left).take remaining) := by
  induction left generalizing s remaining with
  | zero =>
      rw [takeSectors, sectorBytes, List.range'_zero, List.flatMap_nil, List.take_nil]
  | succ left ih =>
      rw [takeSectors, geometry.readClusterSector ⟨least, inside, by omega⟩, Except.ok_bind,
        sectorBytes_succ, List.take_append, bytesOf_length]
      split
      · rename_i last
        rw [bytesOf_take _ last, Nat.sub_eq_zero_of_le last, List.take_zero, List.append_nil]
        rfl
      · rename_i more
        have whole : (bytesOf (vol.clusterSector cluster s) 512).take remaining =
            bytesOf (vol.clusterSector cluster s) 512 :=
          List.take_of_length_le (by rw [bytesOf_length]; omega)
        rw [ih (by omega), whole]
        rfl

theorem takeOver_eq (geometry : Geometry vol)
    (inFat : ∀ cluster, cluster ∈ clusters → 2 ≤ cluster ∧ cluster < vol.fat.length)
    (remaining : Nat) :
    vol.takeOver clusters remaining =
      if remaining ≤ (vol.contentsOf clusters).length
      then .ok ((vol.contentsOf clusters).take remaining) else .error (.error .corrupt) := by
  induction clusters generalizing remaining with
  | nil =>
      rw [takeOver]
      by_cases none : remaining = 0
      · rw [if_pos none, if_pos (by rw [none]; exact Nat.zero_le _), none]
        rfl
      · rw [if_neg none, if_neg (by simp [contentsOf, none])]
        rfl
  | cons cluster rest ih =>
      obtain ⟨least, inside⟩ := inFat cluster List.mem_cons_self
      rw [takeOver]
      by_cases none : remaining = 0
      · rw [if_pos none, if_pos (by rw [none]; exact Nat.zero_le _), none, List.take_zero]
      · have length := @sectorBytes_length vol cluster 0 vol.sectorsPerCluster
        rw [if_neg none, takeSectors_eq geometry least inside (by omega), Except.ok_bind,
          ih (fun other mem => inFat other (List.mem_cons_of_mem _ mem)), contentsOf_cons,
          List.length_append, List.length_take, List.take_append]
        by_cases here : remaining ≤ (vol.sectorBytes cluster 0 vol.sectorsPerCluster).length
        · rw [Nat.min_eq_left here, Nat.sub_self, if_pos (Nat.zero_le _), if_pos (by omega),
            Nat.sub_eq_zero_of_le here, List.take_zero]
          rfl
        · rw [Nat.min_eq_right (by omega)]
          by_cases enough : remaining - (vol.sectorBytes cluster 0 vol.sectorsPerCluster).length ≤
              (vol.contentsOf rest).length
          · rw [if_pos enough, if_pos (by omega)]
            rfl
          · rw [if_neg enough, if_neg (by omega)]
            rfl

theorem WellFormed.marked (wellFormed : WellFormed vol)
    (chain : IsChain vol.cell (head :: rest)) :
    IsChain (vol.marked eofMark.toNat) (head :: rest) := by
  induction rest generalizing head with
  | nil =>
      have inside := inside_of_taken (chain.taken List.mem_cons_self)
      have found := link_of_last chain
      rw [nextCluster_of_lt inside.2] at found
      show vol.marked eofMark.toNat head = .last
      unfold Fat32.marked
      rw [if_pos inside, Except.ok.inj found, if_pos rfl]
  | cons next rest ih =>
      have inside := inside_of_taken (chain.taken List.mem_cons_self)
      obtain ⟨found, -, nextInside⟩ := wellFormed.link_of_link chain.1
      have small := wellFormed.small
      have mark : eofMark.toNat = 0x0FFFFFFF := rfl
      rw [nextCluster_of_lt inside.2] at found
      refine ⟨?_, ih chain.2⟩
      unfold Fat32.marked
      rw [if_pos inside, Except.ok.inj found, if_neg (by omega)]

theorem readFileData_of_chain (geometry : Geometry vol) (wellFormed : WellFormed vol)
    (chain : IsChain vol.cell (head :: rest)) (short : rest.length ≤ chainGuard) {size : Nat}
    (holds : size ≤ (vol.contentsOf (head :: rest)).length) :
    vol.readFileData head size = .ok ((vol.contentsOf (head :: rest)).take size) := by
  unfold readFileData
  rw [takeClusters_of_chain wellFormed.small (wellFormed.marked chain) (Nat.succ_le_succ short),
    takeOver_eq geometry (fun cluster mem => inside_of_taken (chain.taken mem)), if_pos holds]

theorem takeClusters_congr (geometry : Geometry vol) (wellFormed : WellFormed vol)
    (geometry' : Geometry vol') (wellFormed' : WellFormed vol')
    (width : vol'.sectorsPerCluster = vol.sectorsPerCluster)
    (chain : IsChain vol.cell (head :: rest)) (chain' : IsChain vol'.cell (head :: rest))
    (same : ∀ cluster, cluster ∈ head :: rest → SameSectors vol vol' cluster)
    (left remaining : Nat) :
    vol'.takeClusters left head remaining = vol.takeClusters left head remaining := by
  induction left generalizing head rest remaining with
  | zero => rw [takeClusters.eq_def, takeClusters.eq_def vol]
  | succ left ih =>
      obtain ⟨least, inside⟩ := inside_of_taken (chain.taken List.mem_cons_self)
      obtain ⟨-, inside'⟩ := inside_of_taken (chain'.taken List.mem_cons_self)
      have bytes : vol'.sectorBytes head 0 vol.sectorsPerCluster =
          vol.sectorBytes head 0 vol.sectorsPerCluster :=
        sectorBytes_congr (fun s' _ upper => same head List.mem_cons_self s' (by omega))
      rw [takeClusters.eq_def, takeClusters.eq_def vol]
      dsimp only
      rw [takeSectors_eq geometry least inside (by omega), width,
        takeSectors_eq geometry' least inside' (by omega), bytes]
      cases rest with
      | nil =>
          rw [link_of_last chain, link_of_last chain']
          simp only [Except.ok_bind]
          by_cases done : remaining - ((vol.sectorBytes head 0 vol.sectorsPerCluster).take
              remaining).length = 0
          · rw [done, takeClusters.eq_def, takeClusters.eq_def vol]
            rfl
          · have more : remaining - ((vol.sectorBytes head 0 vol.sectorsPerCluster).take
                remaining).length > 0 ∧ isEof eofMark.toNat = true :=
              ⟨Nat.pos_of_ne_zero done, isEof_eofMark⟩
            simp only [if_pos more]
      | cons next rest =>
          rw [(wellFormed.link_of_link chain.1).1, (wellFormed'.link_of_link chain'.1).1]
          simp only [Except.ok_bind]
          rw [ih chain.2 chain'.2 (fun cluster mem => same cluster (List.mem_cons_of_mem _ mem))]

theorem Kept.readFileData (kept : Kept vol vol' head) (geometry : Geometry vol)
    (wellFormed : WellFormed vol) (wellFormed' : WellFormed vol') (isHead : Head vol head)
    (size : Nat) : vol'.readFileData head size = vol.readFileData head size := by
  obtain ⟨rest, chain⟩ := isHead.chain wellFormed
  exact takeClusters_congr geometry wellFormed (geometry.of_sameShape kept.shape) wellFormed'
    kept.shape.sectorsPerCluster chain (kept.chain rest chain) (kept.sectors rest chain) _ size

theorem writeSectors_run (geometry : Geometry vol) (least : 2 ≤ cluster)
    (inside : cluster < vol.fat.length) {left : Nat}
    (within : s + left ≤ vol.sectorsPerCluster) (content : List (BitVec 8)) :
    ∃ after, writeSectors cluster left s content vol = (.ok (content.drop (512 * left)), after) ∧
      Wrote vol after [cluster] ∧
      (∀ s', s' < s → ByteMemory.SameOn (vol.clusterSector cluster s')
        (after.clusterSector cluster s') 0 512) ∧
      (after.sectorBytes cluster s left).take content.length = content.take (512 * left) := by
  induction left generalizing vol s content with
  | zero =>
      refine ⟨vol, rfl, Wrote.refl vol _, fun s' _ => ByteMemory.SameOn.refl _ 0 512, ?_⟩
      rw [sectorBytes, List.range'_zero, List.flatMap_nil, List.take_nil, Nat.mul_zero,
        List.take_zero]
  | succ left ih =>
      have at' : InCluster vol cluster s := ⟨least, inside, by omega⟩
      have wrote := wrote_withSector at' (sectorOf (content.take 512))
      have written : bytesOf ((vol.withSector cluster s (sectorOf (content.take 512))).clusterSector
          cluster s) 512 = bytesOf (sectorOf (content.take 512)) 512 :=
        bytesOf_congr (clusterSector_withSector_self _)
      have below (s' : Nat) (before : s' < s) : ByteMemory.SameOn (vol.clusterSector cluster s')
          ((vol.withSector cluster s (sectorOf (content.take 512))).clusterSector cluster s') 0 512 := by
        refine clusterSector_withSector_of_ne _ (fun same => ?_)
        have equal := (sectorNumber_inj ⟨least, inside, by omega⟩ at' same).2
        omega
      have filled := @bytesOf_sectorOf (content.take 512) (List.length_take_le _ _)
      rw [writeSectors, Fallible.bind_of_ok (geometry.writeClusterSector at' _)]
      by_cases last : content.length ≤ 512
      · have done : (content.drop 512).isEmpty = true := by
          rw [List.isEmpty_iff, List.drop_eq_nil_iff]
          exact last
        have all : content.take 512 = content := List.take_of_length_le last
        have nothing : content.drop (512 * (left + 1)) = [] := List.drop_eq_nil_of_le (by omega)
        have whole : content.take (512 * (left + 1)) = content := List.take_of_length_le (by omega)
        rw [if_pos done, nothing, whole]
        refine ⟨_, rfl, wrote, below, ?_⟩
        rw [sectorBytes_succ, List.take_append_of_le_length (by rw [bytesOf_length]; exact last),
          written]
        rwa [all] at filled ⊢
      · have more : (content.drop 512).isEmpty = false := by
          rw [← Bool.not_eq_true, List.isEmpty_iff, List.drop_eq_nil_iff]
          exact last
        rw [more, if_neg (by simp)]
        obtain ⟨after, ran, later, kept, bytes⟩ := @ih _ (s + 1)
          (geometry.of_sameShape wrote.shape) inside
          (show s + 1 + left ≤ vol.sectorsPerCluster by omega) (content.drop 512)
        refine ⟨after, ?_, wrote.trans later,
          fun s' before => (below s' before).trans (kept s' (by omega)), ?_⟩
        · rw [ran, List.drop_drop, Nat.mul_succ, Nat.add_comm]
        · have first : bytesOf (after.clusterSector cluster s) 512 = content.take 512 := by
            have full : (bytesOf (sectorOf (content.take 512)) 512).take 512 =
                bytesOf (sectorOf (content.take 512)) 512 :=
              List.take_of_length_le (by rw [bytesOf_length])
            rw [List.length_take, Nat.min_eq_left (by omega), full] at filled
            rw [bytesOf_congr (kept s (Nat.lt_succ_self s)), written, filled]
          rw [List.length_drop] at bytes
          rw [sectorBytes_succ, List.take_append, bytesOf_length, bytes, first, List.take_take,
            Nat.min_eq_right (by omega), Nat.mul_succ, Nat.add_comm (512 * left), List.take_add]

theorem writeClusters_run (geometry : Geometry vol) (nodup : clusters.Nodup)
    (inFat : ∀ cluster, cluster ∈ clusters → 2 ≤ cluster ∧ cluster < vol.fat.length)
    (content : List (BitVec 8)) :
    ∃ after, writeClusters clusters content vol = (.ok (), after) ∧
      Wrote vol after clusters ∧
      (after.contentsOf clusters).take content.length =
        content.take (512 * vol.sectorsPerCluster * clusters.length) := by
  induction clusters generalizing vol content with
  | nil => exact ⟨vol, rfl, Wrote.refl vol _, by simp [contentsOf]⟩
  | cons cluster rest ih =>
      obtain ⟨least, inside⟩ := inFat cluster List.mem_cons_self
      rw [List.nodup_cons] at nodup
      obtain ⟨middle, ran, wrote, -, bytes⟩ := writeSectors_run geometry least inside
        (show 0 + vol.sectorsPerCluster ≤ vol.sectorsPerCluster by omega) content
      have wroteAll : Wrote vol middle (cluster :: rest) :=
        wrote.mono (fun other mem => by
          rw [List.mem_singleton.mp mem]
          exact List.mem_cons_self)
      have width := wrote.shape.sectorsPerCluster
      rw [writeClusters, Fallible.bind_of_ok (Fallible.get_run vol), Fallible.bind_of_ok ran]
      by_cases last : content.length ≤ 512 * vol.sectorsPerCluster
      · have done : (content.drop (512 * vol.sectorsPerCluster)).isEmpty = true := by
          rw [List.isEmpty_iff, List.drop_eq_nil_iff]
          exact last
        rw [if_pos done]
        refine ⟨middle, rfl, wroteAll, ?_⟩
        rw [contentsOf_cons, List.take_append_of_le_length (by rw [sectorBytes_length, width]; exact last),
          width, bytes, List.take_of_length_le last, List.take_of_length_le]
        rw [List.length_cons, Nat.mul_succ]
        omega
      · have more : (content.drop (512 * vol.sectorsPerCluster)).isEmpty = false := by
          rw [← Bool.not_eq_true, List.isEmpty_iff, List.drop_eq_nil_iff]
          exact last
        rw [more, if_neg (by simp)]
        obtain ⟨after, ranRest, wroteRest, bytesRest⟩ := ih (geometry.of_sameShape wrote.shape) nodup.2
          (fun other mem => by
            rw [wrote.shape.entries]
            exact inFat other (List.mem_cons_of_mem _ mem))
          (content.drop (512 * vol.sectorsPerCluster))
        have widthAfter := wroteRest.shape.sectorsPerCluster
        refine ⟨after, ranRest, wroteAll.trans (wroteRest.mono (fun other mem =>
          List.mem_cons_of_mem _ mem)), ?_⟩
        have first : after.sectorBytes cluster 0 vol.sectorsPerCluster =
            content.take (512 * vol.sectorsPerCluster) := by
          rw [sectorBytes_congr (fun s' _ upper => wroteRest.others cluster s'
            (wrote.shape.inCluster.mpr ⟨least, inside, by omega⟩) nodup.1), ← bytes]
          exact (List.take_of_length_le (by rw [sectorBytes_length]; omega)).symm
        rw [List.length_drop, width] at bytesRest
        rw [contentsOf_cons, widthAfter, width, first, List.take_append, List.length_take,
          Nat.min_eq_left (by omega), bytesRest, List.take_take, Nat.min_eq_right (by omega),
          List.length_cons, Nat.mul_succ, Nat.add_comm (512 * vol.sectorsPerCluster * rest.length),
          List.take_add]

theorem le_clustersFor (some' : 0 < vol.sectorsPerCluster) (size : Nat) :
    size ≤ 512 * vol.sectorsPerCluster * vol.clustersFor size := by
  have positive : 0 < vol.clusterBytes := Nat.mul_pos some' (by decide)
  have bytes : vol.clusterBytes = 512 * vol.sectorsPerCluster := Nat.mul_comm _ _
  have division := Nat.div_add_mod (size + vol.clusterBytes - 1) vol.clusterBytes
  have remainder := Nat.mod_lt (size + vol.clusterBytes - 1) positive
  rw [← bytes, clustersFor]
  omega

theorem clustersFor_eq_zero (some' : 0 < vol.sectorsPerCluster) {size : Nat} :
    vol.clustersFor size = 0 ↔ size = 0 := by
  constructor
  · intro none
    have enough := le_clustersFor some' size
    rwa [none, Nat.mul_zero, Nat.le_zero] at enough
  · rintro rfl
    have positive : 0 < vol.clusterBytes := Nat.mul_pos some' (by decide)
    exact Nat.div_eq_of_lt (by omega)

def Stores (vol : Fat32) (first : Nat) (content : List (BitVec 8)) : Prop :=
  (first = 0 ∧ content = []) ∨
    ∃ rest, IsChain vol.cell (first :: rest) ∧
      (first :: rest).length = vol.clustersFor content.length ∧
      (vol.contentsOf (first :: rest)).take content.length = content

theorem Stores.read {first : Nat} {content : List (BitVec 8)} (stores : Stores vol first content)
    (geometry : Geometry vol) (wellFormed : WellFormed vol)
    (fits : vol.clustersFor content.length ≤ chainGuard + 1) :
    vol.readFileData first content.length = .ok content := by
  rcases stores with ⟨rfl, rfl⟩ | ⟨rest, chain, count, bytes⟩
  · rfl
  · rw [readFileData_of_chain geometry wellFormed chain
      (by rw [List.length_cons] at count; omega), bytes]
    rw [contentsOf_length, count]
    exact le_clustersFor geometry.sectorsPerCluster _

structure KeepsAll (vol vol' : Fat32) : Prop where
  shape : SameShape vol vol'
  wellFormed : WellFormed vol'
  kept : ∀ head, Head vol head → Kept vol vol' head

theorem KeepsAll.refl (wellFormed : WellFormed vol) : KeepsAll vol vol :=
  ⟨SameShape.refl vol, wellFormed, fun _ isHead => Kept.refl isHead⟩

theorem allocateChain_shape {start : Fat32} (needed : Nat) :
    Keeps (SameShape start) (allocateChain needed) :=
  Fallible.keeps_bind (keeps_allocClusters call_shape _)
    (fun _ => Fallible.keeps_bind (keeps_linkClusters call_shape _) (fun _ => Fallible.keeps_pure _))

theorem storeContent_yields (geometry : Geometry vol) (wellFormed : WellFormed vol)
    (content : List (BitVec 8)) :
    Fallible.Yields (storeContent content) vol
      (fun first after => KeepsAll vol after ∧ Stores after first content ∧
        (first ≠ 0 → Head after first ∧ vol.cell first = .free))
      (fun stop after => stop = .error .outOfSpace ∧ KeepsAll vol after) := by
  unfold storeContent
  refine Fallible.Yields.after (Fallible.get_run vol) ?_
  dsimp only
  by_cases empty : content = []
  · have none : vol.clustersFor content.length = 0 :=
      (clustersFor_eq_zero geometry.sectorsPerCluster).mpr (by rw [empty]; rfl)
    rw [if_pos none]
    exact Fallible.yields_of_ok rfl
      ⟨KeepsAll.refl wellFormed, Or.inl ⟨rfl, empty⟩, fun some' => absurd rfl some'⟩
  · have positive : 0 < vol.clustersFor content.length :=
      Nat.pos_of_ne_zero (fun none => empty (List.length_eq_zero_iff.mp
        ((clustersFor_eq_zero geometry.sectorsPerCluster).mp none)))
    rw [if_neg (Nat.ne_of_gt positive)]
    have allocates := wellFormed.allocateChain (vol.clustersFor content.length)
    have shapes := @allocateChain_shape vol (vol.clustersFor content.length) vol
      (SameShape.refl vol)
    rcases outcome : allocateChain (vol.clustersFor content.length) vol with
      ⟨stop | clusters, middle⟩
    · obtain ⟨rfl, taken, allocated⟩ := allocates.of_error outcome
      rw [outcome] at shapes
      refine Fallible.yields_of_error (Fallible.bind_of_error outcome) ⟨rfl, shapes,
        allocated.wellFormed, fun head isHead => ?_⟩
      refine Kept.chained allocated.toChained shapes (fun source target isNew linked => ?_) isHead
      rw [allocated.ends source isNew] at linked
      cases linked
    · obtain ⟨chained, count, isChain, unreferenced⟩ := allocates.of_ok outcome
      rw [outcome] at shapes
      have chain := isChain positive
      cases clusters with
      | nil =>
          rw [List.length_nil] at count
          omega
      | cons first rest =>
          have among : ∀ source target, source ∈ first :: rest → middle.cell source = .link target →
              target ∈ first :: rest := fun source target mem linked =>
            List.mem_of_mem_tail (chain.link_mem_tail mem linked)
          have keeps : KeepsAll vol middle := ⟨shapes, chained.wellFormed,
            fun head isHead => Kept.chained chained shapes among isHead⟩
          have isHead : Head middle first :=
            ⟨chain.taken List.mem_cons_self, unreferenced first rest rfl⟩
          obtain ⟨after, ran, wrote, bytes⟩ := writeClusters_run (geometry.of_sameShape shapes)
            chained.nodup (fun cluster mem => inside_of_taken (chain.taken mem)) content
          have free := (chained.free first List.mem_cons_self).2.2
          have keepsWritten : KeepsAll vol after := by
            refine ⟨shapes.trans wrote.shape, wrote.wellFormed chained.wellFormed,
              fun head isOld => ?_⟩
            have kept := keeps.kept head isOld
            refine kept.trans (wrote.kept_other chained.wellFormed chain isHead
              (fun _ mem => mem) (kept.isHead wellFormed isOld) ?_)
            rintro rfl
            exact isOld.1 free
          have width : after.sectorsPerCluster = vol.sectorsPerCluster :=
            keepsWritten.shape.sectorsPerCluster
          have stores : Stores after first content := by
            refine Or.inr ⟨rest, ?_, ?_, ?_⟩
            · rw [wrote.cells]
              exact chain
            · rw [count, clustersFor, clustersFor, clusterBytes, clusterBytes, width]
            · rw [bytes, count, shapes.sectorsPerCluster]
              exact List.take_of_length_le (le_clustersFor geometry.sectorsPerCluster _)
          exact Fallible.Yields.after outcome (Fallible.Yields.after ran
            (Fallible.yields_of_ok rfl ⟨keepsWritten, stores, fun _ => ⟨wrote.isHead isHead, free⟩⟩))

end Fat32
end MachaOS.Fat
