/-
The walks along a chain of clusters, on any volume whatever.

Each walk is described by the clusters it comes to: whether their sector numbers
can be computed, whether it goes past them, and whether it then finds their link in
the FAT.  A walk panics exactly where one of these fails.
-/

import MachaOS.Fat.Operations
import MachaOS.Lib.Results

namespace MachaOS.Fat

open Except

theorem u32_of_lt (overflowChecks : Bool) {exact : Int} (lower : 0 ≤ exact)
    (upper : exact < 2 ^ 32) : u32 overflowChecks exact = .ok exact.toNat := by
  rw [u32, if_pos ⟨lower, by omega⟩]

theorem u32_wraps (exact : Int) : ∃ value, u32 false exact = .ok value := by
  unfold u32
  split
  · exact ⟨_, rfl⟩
  · exact ⟨_, rfl⟩

theorem u32_eq_panic_iff {overflowChecks : Bool} {exact : Int} :
    u32 overflowChecks exact = .error .panic ↔
      overflowChecks = true ∧ ¬(0 ≤ exact ∧ exact < 2 ^ 32) := by
  unfold u32
  by_cases fits : 0 ≤ exact ∧ exact < 2 ^ 32
  · rw [if_pos ⟨fits.1, by omega⟩]
    exact iff_of_false (fun same => by cases same) (fun stopped => stopped.2 fits)
  · rw [if_neg (by omega)]
    cases overflowChecks with
    | false => exact iff_of_false (fun same => by cases same) (fun stopped => by cases stopped.1)
    | true => exact iff_of_true rfl ⟨rfl, fits⟩

theorem u32_exact {exact : Int} {value : Nat} (computed : u32 true exact = .ok value) :
    (value : Int) = exact := by
  unfold u32 at computed
  split at computed
  · rename_i fits
    rw [← Except.ok.inj computed]
    exact Int.toNat_of_nonneg fits.1
  · cases computed

theorem u32_error {overflowChecks : Bool} {exact : Int} {stop : Stop}
    (stopped : u32 overflowChecks exact = .error stop) : stop = .panic := by
  unfold u32 at stopped
  split at stopped
  · cases stopped
  · split at stopped
    · cases stopped
      rfl
    · cases stopped

theorem io_ne_panic {α : Type} (result : Except String α) : io result ≠ .error .panic := by
  cases result <;> simp [io]

theorem io_eq_ok {α : Type} {result : Except String α} {value : α}
    (done : io result = .ok value) : result = .ok value := by
  cases result with
  | error message => cases done
  | ok found =>
      cases done
      rfl

namespace Fat32

variable {vol : Fat32}

/-- The sector numbers of the cluster are `u32`s, unless nothing checks that. -/
def Addressable (vol : Fat32) (cluster : Nat) : Prop :=
  vol.overflowChecks = true →
    2 ≤ cluster ∧ vol.firstDataSector + (cluster - 2) * vol.sectorsPerCluster < 2 ^ 32

/-- The entry of the FAT, as `next_cluster` reads it. -/
def link (vol : Fat32) (cluster : Nat) : Nat :=
  (vol.fat.getD cluster 0#32 &&& clusterMask).toNat

theorem nextCluster_of_lt {cluster : Nat} (inside : cluster < vol.fat.length) :
    vol.nextCluster cluster = .ok (vol.link cluster) := by
  unfold nextCluster link
  rw [List.getD_eq_getElem?_getD, List.getElem?_eq_getElem inside]
  rfl

theorem nextCluster_of_le {cluster : Nat} (outside : vol.fat.length ≤ cluster) :
    vol.nextCluster cluster = .error .panic := by
  unfold nextCluster
  rw [List.getElem?_eq_none outside]

theorem clusterToSector_of_le (some' : 0 < vol.sectorsPerCluster) {cluster : Nat}
    (least : 2 ≤ cluster)
    (fits : vol.firstDataSector + (cluster - 2) * vol.sectorsPerCluster < 2 ^ 32) :
    vol.clusterToSector cluster =
      .ok (vol.firstDataSector + (cluster - 2) * vol.sectorsPerCluster) := by
  have small : cluster - 2 ≤ (cluster - 2) * vol.sectorsPerCluster :=
    Nat.le_mul_of_pos_right _ some'
  have index : u32 vol.overflowChecks ((cluster : Int) - 2) = .ok (cluster - 2) := by
    rw [u32_of_lt _ (by omega) (by omega)]
    exact congrArg Except.ok (by omega)
  have offset : u32 vol.overflowChecks
      (((cluster - 2 : Nat) : Int) * (vol.sectorsPerCluster : Int)) =
      .ok ((cluster - 2) * vol.sectorsPerCluster) := by
    rw [← Int.natCast_mul, u32_of_lt _ (Int.natCast_nonneg _) (by omega), Int.toNat_natCast]
  unfold clusterToSector
  rw [index, ok_bind, offset, ok_bind, ← Int.natCast_add,
    u32_of_lt _ (Int.natCast_nonneg _) (by omega), Int.toNat_natCast]

theorem clusterToSector_eq_panic_iff (some' : 0 < vol.sectorsPerCluster) {cluster : Nat} :
    vol.clusterToSector cluster = .error .panic ↔ ¬ vol.Addressable cluster := by
  cases checks : vol.overflowChecks with
  | false =>
      have computed : ∃ sector, vol.clusterToSector cluster = .ok sector := by
        unfold clusterToSector
        rw [checks]
        obtain ⟨index, indexed⟩ := u32_wraps ((cluster : Int) - 2)
        obtain ⟨offset, multiplied⟩ := u32_wraps ((index : Int) * vol.sectorsPerCluster)
        rw [indexed, ok_bind, multiplied, ok_bind]
        exact u32_wraps _
      obtain ⟨sector, computed⟩ := computed
      simp [computed, Addressable, checks]
  | true =>
      by_cases fits : 2 ≤ cluster ∧
          vol.firstDataSector + (cluster - 2) * vol.sectorsPerCluster < 2 ^ 32
      · rw [clusterToSector_of_le some' fits.1 fits.2]
        exact iff_of_false (fun same => by cases same) (fun unfit => unfit (fun _ => fits))
      · refine iff_of_true ?_ (fun addressable => fits (addressable checks))
        unfold clusterToSector
        rw [checks]
        by_cases least : 0 ≤ (cluster : Int) - 2 ∧ (cluster : Int) - 2 < 2 ^ 32
        · rw [u32_of_lt _ least.1 least.2, ok_bind]
          have product : ((((cluster : Int) - 2).toNat : Int)) * (vol.sectorsPerCluster : Int) =
              ((cluster - 2) * vol.sectorsPerCluster : Nat) := by
            rw [Int.natCast_mul]
            congr 1
            omega
          rw [product]
          by_cases small : (cluster - 2) * vol.sectorsPerCluster < 2 ^ 32
          · rw [u32_of_lt _ (Int.natCast_nonneg _) (by omega), ok_bind]
            refine u32_eq_panic_iff.mpr ⟨rfl, ?_⟩
            omega
          · rw [u32_eq_panic_iff.mpr ⟨rfl, by omega⟩]
            rfl
        · rw [u32_eq_panic_iff.mpr ⟨rfl, least⟩]
          rfl

theorem clusterToSector_error {cluster : Nat} {stop : Stop}
    (stopped : vol.clusterToSector cluster = .error stop) : stop = .panic := by
  unfold clusterToSector at stopped
  rcases bind_eq_error.mp stopped with early | ⟨index, -, later⟩
  · exact u32_error early
  · rcases bind_eq_error.mp later with early | ⟨offset, -, last⟩
    · exact u32_error early
    · exact u32_error last

theorem readClusterSector_eq_panic_iff (some' : 0 < vol.sectorsPerCluster) {cluster s : Nat} :
    vol.readClusterSector cluster s = .error .panic ↔ ¬ vol.Addressable cluster := by
  rw [← clusterToSector_eq_panic_iff some']
  unfold readClusterSector
  cases located : vol.clusterToSector cluster with
  | error stop =>
      rw [clusterToSector_error located]
      exact iff_of_true rfl rfl
  | ok start =>
      rw [ok_bind]
      exact iff_of_false (io_ne_panic _) (fun same => by cases same)

theorem addressable_of_read (some' : 0 < vol.sectorsPerCluster) {cluster s : Nat}
    {sector : Sector} (read : vol.readClusterSector cluster s = .ok sector) :
    vol.Addressable cluster := by
  by_contra unfit
  rw [(readClusterSector_eq_panic_iff some').mpr unfit] at read
  cases read

def PassesThrough (vol : Fat32) (cluster : Nat) : Prop :=
  ∀ s, s < vol.sectorsPerCluster → ∃ sector,
    vol.readClusterSector cluster s = .ok sector ∧ ∀ i, i < 16 → sector (32 * i) ≠ 0x00#8

/-- From `cluster` on, with `left` turns of the guard: the clusters the walk comes to can
be addressed, and those it goes past have a link in the FAT. -/
def DirSoundFrom (vol : Fat32) : Nat → Nat → Prop
  | left, cluster =>
      vol.Addressable cluster ∧ (vol.PassesThrough cluster → cluster < vol.fat.length ∧
          match left with
          | 0 => True
          | left + 1 => isEof (vol.link cluster) = true ∨ vol.link cluster < 2 ∨
              DirSoundFrom vol left (vol.link cluster))

def DirSound (vol : Fat32) (cluster : Nat) : Prop :=
  vol.DirSoundFrom chainGuard cluster

theorem readSlots_going_iff {slots : List ((Nat × Nat) × Slot)} {scan : Scan} :
    (∃ after, readSlots slots scan = .going after) ↔ ∀ entry ∈ slots, entry.2 0 ≠ 0x00#8 := by
  induction slots generalizing scan with
  | nil => simp [readSlots]
  | cons entry rest ih =>
      obtain ⟨place, slot⟩ := entry
      rw [List.forall_mem_cons, readSlots]
      by_cases ended : slot 0 = 0x00#8
      · have stops : readSlot slot place scan = none := if_pos ended
        rw [stops]
        simp [ended]
      · have moves : ∃ next, readSlot slot place scan = some next := by
          unfold readSlot
          rw [if_neg ended]
          split
          · exact ⟨_, rfl⟩
          · split
            · exact ⟨_, rfl⟩
            · exact ⟨_, rfl⟩
        obtain ⟨next, moves⟩ := moves
        rw [moves]
        simp only [ih, ended, ne_eq, not_false_eq_true, true_and]

theorem slots_unmarked_iff {cluster s : Nat} {sector : Sector} :
    (∀ entry ∈ slotsOf cluster s sector, entry.2 0 ≠ 0x00#8) ↔
      ∀ i, i < 16 → sector (32 * i) ≠ 0x00#8 := by
  simp [slotsOf, slotAt]

theorem readSectors_cases (some' : 0 < vol.sectorsPerCluster) {cluster : Nat}
    (addressable : vol.Addressable cluster) (left s : Nat) (scan : Scan) :
    vol.readSectors cluster left s scan ≠ .error .panic ∧
      ((∃ after, vol.readSectors cluster left s scan = .ok (.going after)) ↔
        ∀ k, k < left → ∃ sector, vol.readClusterSector cluster (s + k) = .ok sector ∧
          ∀ i, i < 16 → sector (32 * i) ≠ 0x00#8) := by
  induction left generalizing s scan with
  | zero => simp [readSectors]
  | succ left ih =>
      rw [readSectors]
      have head : (∀ k, k < left + 1 → ∃ sector,
          vol.readClusterSector cluster (s + k) = .ok sector ∧
            ∀ i, i < 16 → sector (32 * i) ≠ 0x00#8) ↔
          (∃ sector, vol.readClusterSector cluster s = .ok sector ∧
            ∀ i, i < 16 → sector (32 * i) ≠ 0x00#8) ∧
          ∀ k, k < left → ∃ sector, vol.readClusterSector cluster (s + 1 + k) = .ok sector ∧
            ∀ i, i < 16 → sector (32 * i) ≠ 0x00#8 := by
        constructor
        · intro each
          refine ⟨each 0 (by omega), fun k inside => ?_⟩
          have later := each (k + 1) (by omega)
          rw [show s + (k + 1) = s + 1 + k by omega] at later
          exact later
        · rintro ⟨first, rest⟩ k inside
          cases k with
          | zero => exact first
          | succ k =>
              rw [show s + (k + 1) = s + 1 + k by omega]
              exact rest k (by omega)
      rw [head]
      cases read : vol.readClusterSector cluster s with
      | error stop =>
          have notPanic : stop ≠ .panic := by
            rintro rfl
            exact (readClusterSector_eq_panic_iff some').mp read addressable
          simp [notPanic]
      | ok sector =>
          rw [ok_bind]
          cases slots : readSlots (slotsOf cluster s sector) scan with
          | ended out =>
              have marked : ¬ ∀ i, i < 16 → sector (32 * i) ≠ 0x00#8 := by
                rw [← slots_unmarked_iff, ← @readSlots_going_iff _ scan, slots]
                simp
              refine ⟨by simp [pure, Except.pure], iff_of_false ?_ ?_⟩
              · simp [pure, Except.pure]
              · rintro ⟨⟨same, read', unmarked⟩, -⟩
                cases read'
                exact marked unmarked
          | going next =>
              have unmarked : ∀ i, i < 16 → sector (32 * i) ≠ 0x00#8 := by
                rw [← slots_unmarked_iff, ← @readSlots_going_iff _ scan, slots]
                simp
              obtain ⟨quiet, goes⟩ := ih (s + 1) next
              refine ⟨quiet, goes.trans ⟨fun rest => ⟨⟨sector, rfl, unmarked⟩, rest⟩, fun both => both.2⟩⟩

theorem readCluster_eq_panic_iff (some' : 0 < vol.sectorsPerCluster) {cluster : Nat}
    {scan : Scan} :
    vol.readSectors cluster vol.sectorsPerCluster 0 scan = .error .panic ↔
      ¬ vol.Addressable cluster := by
  by_cases addressable : vol.Addressable cluster
  · exact iff_of_false (readSectors_cases some' addressable _ _ _).1 (fun unfit => unfit addressable)
  · refine iff_of_true ?_ addressable
    obtain ⟨rest, count⟩ := Nat.exists_eq_succ_of_ne_zero (Nat.ne_of_gt some')
    rw [count, readSectors, (readClusterSector_eq_panic_iff some').mpr addressable]
    rfl

theorem readCluster_going_iff (some' : 0 < vol.sectorsPerCluster) {cluster : Nat}
    {scan : Scan} :
    (∃ after, vol.readSectors cluster vol.sectorsPerCluster 0 scan = .ok (.going after)) ↔
      vol.PassesThrough cluster := by
  by_cases addressable : vol.Addressable cluster
  · rw [(readSectors_cases some' addressable _ _ _).2]
    simp only [Nat.zero_add]
    exact Iff.rfl
  · rw [readCluster_eq_panic_iff some' |>.mpr addressable]
    refine iff_of_false (fun ⟨_, same⟩ => by cases same) (fun passes => ?_)
    obtain ⟨sector, read, -⟩ := passes 0 some'
    exact addressable (addressable_of_read some' read)

theorem readClusters_eq_panic_iff (some' : 0 < vol.sectorsPerCluster) {left cluster : Nat}
    {scan : Scan} :
    vol.readClusters left cluster scan = .error .panic ↔ ¬ vol.DirSoundFrom left cluster := by
  induction left using Nat.strongRecOn generalizing cluster scan with
  | ind left ih =>
    rw [readClusters.eq_def, DirSoundFrom.eq_def]
    dsimp only
    have reads := @readCluster_eq_panic_iff vol some' cluster scan
    have goes := @readCluster_going_iff vol some' cluster scan
    cases outcome : vol.readSectors cluster vol.sectorsPerCluster 0 scan with
    | error stop =>
        rw [outcome] at reads goes
        have stays : ¬ vol.PassesThrough cluster := by
          rw [← goes]
          simp
        rw [Except.error.injEq] at reads
        rw [error_bind, Except.error.injEq, reads]
        simp [stays]
    | ok reading =>
        rw [outcome] at reads goes
        have addressable : vol.Addressable cluster := by
          by_contra unfit
          cases reads.mpr unfit
        rw [ok_bind]
        cases reading with
        | ended out =>
            have stays : ¬ vol.PassesThrough cluster := by
              rw [← goes]
              simp
            simp [stays, addressable, pure, Except.pure]
        | going after =>
            have passes : vol.PassesThrough cluster := goes.mp ⟨after, rfl⟩
            simp only [addressable, passes, true_and, forall_const]
            by_cases inside : cluster < vol.fat.length
            · simp only [nextCluster_of_lt inside, ok_bind, inside, true_and]
              by_cases ends : isEof (vol.link cluster) = true
              · cases left <;> simp [ends, pure, Except.pure]
              · by_cases low : vol.link cluster < 2
                · cases left <;> simp [ends, low, throw, throwThe, MonadExceptOf.throw]
                · cases left with
                  | zero => simp [ends, low, throw, throwThe, MonadExceptOf.throw]
                  | succ left =>
                      simp only [ends, low, Bool.false_eq_true, if_false, false_or]
                      exact ih left (Nat.lt_succ_self left)
            · rw [nextCluster_of_le (by omega)]
              simp [inside]

theorem readDir_eq_panic_iff (some' : 0 < vol.sectorsPerCluster) {cluster : Nat} :
    vol.readDir cluster = .error .panic ↔ ¬ vol.DirSound cluster :=
  readClusters_eq_panic_iff some'

/-- The sectors of the cluster that `remaining` bytes need can be read. -/
def Supplies (vol : Fat32) (cluster remaining : Nat) : Prop :=
  ∀ s, s < vol.sectorsPerCluster → 512 * s < remaining →
    ∃ sector, vol.readClusterSector cluster s = .ok sector

/-- From `cluster` on, `left` clusters at most and `remaining` bytes to go. -/
def FileSoundFrom (vol : Fat32) : Nat → Nat → Nat → Prop
  | left, cluster, remaining =>
      remaining = 0 ∨ cluster < 2 ∨
        match left with
        | 0 => True
        | left + 1 =>
            vol.Addressable cluster ∧ (vol.Supplies cluster remaining →
              cluster < vol.fat.length ∧ (isEof (vol.link cluster) = true ∨
                FileSoundFrom vol left (vol.link cluster) (remaining - vol.clusterBytes)))

def FileSound (vol : Fat32) (firstCluster size : Nat) : Prop :=
  vol.FileSoundFrom (chainGuard + 1) firstCluster size

@[simp] theorem bytesOf_length (sector : Sector) (count : Nat) :
    (bytesOf sector count).length = count :=
  (List.length_map _).trans List.length_range

theorem takeSectors_length {cluster left s remaining : Nat} {part : List (BitVec 8)}
    (taken : vol.takeSectors cluster left s remaining = .ok part) :
    part.length = min remaining (512 * left) := by
  induction left generalizing s remaining part with
  | zero =>
      cases taken
      simp
  | succ left ih =>
      rw [takeSectors] at taken
      obtain ⟨sector, -, taken⟩ := bind_eq_ok.mp taken
      split at taken
      · cases taken
        rw [bytesOf_length]
        omega
      · obtain ⟨rest, takenRest, same⟩ := bind_eq_ok.mp taken
        have restLength := ih takenRest
        rw [← Except.ok.inj same, List.length_append, bytesOf_length]
        omega

theorem takeSectors_cases (some' : 0 < vol.sectorsPerCluster) {cluster : Nat}
    (addressable : vol.Addressable cluster) {left s remaining : Nat} (more : 0 < remaining) :
    vol.takeSectors cluster left s remaining ≠ .error .panic ∧
      ((∃ part, vol.takeSectors cluster left s remaining = .ok part) ↔
        ∀ k, k < left → 512 * k < remaining →
          ∃ sector, vol.readClusterSector cluster (s + k) = .ok sector) := by
  induction left generalizing s remaining with
  | zero => simp [takeSectors]
  | succ left ih =>
      have head : (∀ k, k < left + 1 → 512 * k < remaining →
            ∃ sector, vol.readClusterSector cluster (s + k) = .ok sector) ↔
          (∃ sector, vol.readClusterSector cluster s = .ok sector) ∧
          ∀ k, k < left → 512 * k < remaining - 512 →
            ∃ sector, vol.readClusterSector cluster (s + 1 + k) = .ok sector := by
        constructor
        · intro each
          refine ⟨each 0 (by omega) (by omega), fun k inside needed => ?_⟩
          have later := each (k + 1) (by omega) (by omega)
          rw [show s + (k + 1) = s + 1 + k by omega] at later
          exact later
        · rintro ⟨first, rest⟩ k inside needed
          cases k with
          | zero => exact first
          | succ k =>
              rw [show s + (k + 1) = s + 1 + k by omega]
              exact rest k (by omega) (by omega)
      rw [head, takeSectors]
      cases read : vol.readClusterSector cluster s with
      | error stop =>
          have notPanic : stop ≠ .panic := by
            rintro rfl
            exact (readClusterSector_eq_panic_iff some').mp read addressable
          simp [notPanic]
      | ok sector =>
          rw [ok_bind]
          by_cases last : remaining ≤ 512
          · rw [if_pos last]
            refine ⟨by simp [pure, Except.pure], iff_of_true ⟨_, rfl⟩ ⟨⟨_, rfl⟩, ?_⟩⟩
            intro k _ needed
            omega
          · rw [if_neg last]
            obtain ⟨quiet, supplied⟩ := @ih (s + 1) (remaining - 512) (by omega)
            rw [← supplied]
            cases rest : vol.takeSectors cluster left (s + 1) (remaining - 512) with
            | error stop =>
                rw [rest] at quiet
                refine ⟨fun same => quiet (by simpa using same), ?_⟩
                simp
            | ok bytes => simp [pure, Except.pure]

theorem takeCluster_eq_panic_iff (some' : 0 < vol.sectorsPerCluster) {cluster remaining : Nat}
    (more : 0 < remaining) :
    vol.takeSectors cluster vol.sectorsPerCluster 0 remaining = .error .panic ↔
      ¬ vol.Addressable cluster := by
  by_cases addressable : vol.Addressable cluster
  · exact iff_of_false (takeSectors_cases some' addressable more).1 (fun unfit => unfit addressable)
  · refine iff_of_true ?_ addressable
    obtain ⟨rest, count⟩ := Nat.exists_eq_succ_of_ne_zero (Nat.ne_of_gt some')
    rw [count, takeSectors, (readClusterSector_eq_panic_iff some').mpr addressable]
    rfl

theorem takeCluster_ok_iff (some' : 0 < vol.sectorsPerCluster) {cluster remaining : Nat}
    (more : 0 < remaining) :
    (∃ part, vol.takeSectors cluster vol.sectorsPerCluster 0 remaining = .ok part) ↔
      vol.Supplies cluster remaining := by
  by_cases addressable : vol.Addressable cluster
  · rw [(takeSectors_cases some' addressable more).2]
    simp only [Nat.zero_add]
    exact Iff.rfl
  · rw [(takeCluster_eq_panic_iff some' more).mpr addressable]
    refine iff_of_false (fun ⟨_, same⟩ => by cases same) (fun supplies => ?_)
    obtain ⟨sector, read⟩ := supplies 0 some' more
    exact addressable (addressable_of_read some' read)

theorem takeClusters_length {left cluster remaining : Nat} {data : List (BitVec 8)}
    (taken : vol.takeClusters left cluster remaining = .ok data) : data.length = remaining := by
  induction left using Nat.strongRecOn generalizing cluster remaining data with
  | ind left ih =>
    rw [takeClusters.eq_def] at taken
    dsimp only at taken
    split at taken
    case isTrue none =>
      cases taken
      rw [none, List.length_nil]
    case isFalse more =>
      split at taken
      · cases taken
      · cases left with
        | zero => cases taken
        | succ left =>
            obtain ⟨part, takenPart, taken⟩ := bind_eq_ok.mp taken
            obtain ⟨next, -, taken⟩ := bind_eq_ok.mp taken
            have partLength := takeSectors_length takenPart
            split at taken
            · cases taken
            · obtain ⟨rest, takenRest, same⟩ := bind_eq_ok.mp taken
              cases same
              have restLength := ih left (Nat.lt_succ_self left) takenRest
              rw [List.length_append]
              omega

theorem readFileData_length {firstCluster size : Nat} {data : List (BitVec 8)}
    (read : vol.readFileData firstCluster size = .ok data) : data.length = size :=
  takeClusters_length read

theorem takeClusters_eq_panic_iff (some' : 0 < vol.sectorsPerCluster)
    {left cluster remaining : Nat} :
    vol.takeClusters left cluster remaining = .error .panic ↔
      ¬ vol.FileSoundFrom left cluster remaining := by
  induction left using Nat.strongRecOn generalizing cluster remaining with
  | ind left ih =>
    rw [takeClusters.eq_def, FileSoundFrom.eq_def]
    dsimp only
    by_cases none : remaining = 0
    · simp [none, pure, Except.pure]
    · by_cases low : cluster < 2
      · simp [none, low, throw, throwThe, MonadExceptOf.throw]
      · cases left with
        | zero => simp [none, low, throw, throwThe, MonadExceptOf.throw]
        | succ left =>
            have panics := @takeCluster_eq_panic_iff vol some' cluster remaining (by omega)
            have supplies := @takeCluster_ok_iff vol some' cluster remaining (by omega)
            simp only [none, low, if_false, false_or]
            cases taken : vol.takeSectors cluster vol.sectorsPerCluster 0 remaining with
            | error stop =>
                rw [taken] at panics supplies
                rw [Except.error.injEq] at panics
                have lacks : ¬ vol.Supplies cluster remaining := by
                  rw [← supplies]
                  simp
                rw [error_bind, Except.error.injEq, panics]
                simp [lacks]
            | ok part =>
                rw [taken] at panics supplies
                have addressable : vol.Addressable cluster := by
                  by_contra unfit
                  cases panics.mpr unfit
                have supplied : vol.Supplies cluster remaining := supplies.mp ⟨part, rfl⟩
                have rest : remaining - part.length = remaining - vol.clusterBytes := by
                  rw [takeSectors_length taken, clusterBytes]
                  omega
                simp only [ok_bind, addressable, supplied, true_and, forall_const, rest]
                by_cases inside : cluster < vol.fat.length
                · simp only [nextCluster_of_lt inside, ok_bind, inside, true_and]
                  have later := @ih left (Nat.lt_succ_self left) (vol.link cluster)
                    (remaining - vol.clusterBytes)
                  by_cases ends : isEof (vol.link cluster) = true
                  · by_cases more : 0 < remaining - vol.clusterBytes
                    · simp [ends, more, throw, throwThe, MonadExceptOf.throw]
                    · have done : remaining - vol.clusterBytes = 0 := by omega
                      have finished : vol.takeClusters left (vol.link cluster) 0 = .ok [] := by
                        rw [takeClusters.eq_def]
                        rfl
                      simp [ends, done, finished, pure, Except.pure]
                  · simp only [ends, Bool.false_eq_true, and_false, if_false, false_or]
                    rw [bind_eq_error, later]
                    simp [pure, Except.pure]
                · rw [nextCluster_of_le (by omega)]
                  simp [inside]

theorem readFileData_eq_panic_iff (some' : 0 < vol.sectorsPerCluster)
    {firstCluster size : Nat} :
    vol.readFileData firstCluster size = .error .panic ↔
      ¬ vol.FileSound firstCluster size :=
  takeClusters_eq_panic_iff some'

def listedSo : Reading → List DirEntry
  | .ended out => out
  | .going scan => scan.out

theorem readSlots_forall {P : DirEntry → Prop}
    (made : ∀ slot place parts, P (slotEntry slot place parts))
    {slots : List ((Nat × Nat) × Slot)} {scan : Scan} (holds : ∀ entry ∈ scan.out, P entry) :
    ∀ entry ∈ listedSo (readSlots slots scan), P entry := by
  induction slots generalizing scan with
  | nil => exact holds
  | cons head rest ih =>
      obtain ⟨place, slot⟩ := head
      rw [readSlots]
      cases turn : readSlot slot place scan with
      | none => exact holds
      | some next =>
          refine ih ?_
          unfold readSlot at turn
          split at turn
          · cases turn
          · split at turn
            · cases turn
              exact holds
            · split at turn
              · cases turn
                exact holds
              · cases turn
                intro entry mem
                dsimp only at mem
                split at mem
                · rcases List.mem_append.mp mem with earlier | new
                  · exact holds entry earlier
                  · rw [List.mem_singleton.mp new]
                    exact made _ _ _
                · exact holds entry mem

theorem readSectors_forall {P : DirEntry → Prop}
    (made : ∀ slot place parts, P (slotEntry slot place parts)) {cluster left s : Nat}
    {scan : Scan} (holds : ∀ entry ∈ scan.out, P entry) {reading : Reading}
    (read : vol.readSectors cluster left s scan = .ok reading) :
    ∀ entry ∈ listedSo reading, P entry := by
  induction left generalizing s scan with
  | zero =>
      cases read
      exact holds
  | succ left ih =>
      rw [readSectors] at read
      obtain ⟨sector, -, read⟩ := bind_eq_ok.mp read
      have kept := @readSlots_forall P made (slotsOf cluster s sector) scan holds
      cases slots : readSlots (slotsOf cluster s sector) scan with
      | ended out =>
          rw [slots] at read kept
          cases read
          exact kept
      | going next =>
          rw [slots] at read kept
          exact ih kept read

theorem readDir_forall {P : DirEntry → Prop}
    (made : ∀ slot place parts, P (slotEntry slot place parts)) {cluster : Nat}
    {entries : List DirEntry} (read : vol.readDir cluster = .ok entries) :
    ∀ entry ∈ entries, P entry := by
  have clusters (left current : Nat) (scan : Scan) (holds : ∀ entry ∈ scan.out, P entry)
      (read : vol.readClusters left current scan = .ok entries) : ∀ entry ∈ entries, P entry := by
    induction left using Nat.strongRecOn generalizing current scan with
    | ind left ih =>
      rw [readClusters.eq_def] at read
      dsimp only at read
      obtain ⟨reading, readHere, read⟩ := bind_eq_ok.mp read
      have kept := readSectors_forall made holds readHere
      cases reading with
      | ended out =>
          cases read
          exact kept
      | going after =>
          obtain ⟨next, -, read⟩ := bind_eq_ok.mp read
          split at read
          · cases read
            exact kept
          · split at read
            · cases read
            · cases left with
              | zero => cases read
              | succ left => exact ih left (Nat.lt_succ_self left) _ _ kept read
  exact clusters _ _ _ (fun _ mem => by cases mem) read

theorem size_lt_of_listed {cluster : Nat} {entries : List DirEntry}
    (read : vol.readDir cluster = .ok entries) {entry : DirEntry} (mem : entry ∈ entries) :
    entry.size < 2 ^ 32 :=
  @readDir_forall _ (fun entry => entry.size < 2 ^ 32) (fun _ _ _ => BitVec.isLt _) _ _ read entry mem

theorem readFile_length_lt {path : List Char} {data : List (BitVec 8)}
    (read : vol.readFile path = .ok data) : data.length < 2 ^ 32 := by
  obtain ⟨⟨parent, name⟩, -, read⟩ := bind_eq_ok.mp read
  obtain ⟨entries, listed, read⟩ := bind_eq_ok.mp read
  split at read
  · cases read
  · rename_i entry found
    rw [readFileData_length read]
    exact size_lt_of_listed listed (List.mem_of_find?_eq_some found)

end Fat32
end MachaOS.Fat
