/-
Chains that end in any of the standard end-of-chain marks, and the five walks of
the driver along them.

What a walk should do with a chain is written down over the list of its clusters,
without the FAT.  The driver does it for chains that end in the one mark it knows
and fit its guard, and for no others.
-/

import MachaOS.Fat.Table

namespace MachaOS.Fat.Fat32

open List Fallible
open Chains (IsChain)

variable {vol : Fat32} {mark : Nat}

/-- The FAT as a link table in which `mark` ends a chain. -/
def marked (vol : Fat32) (mark cluster : Nat) : Cell Nat :=
  if 2 ≤ cluster ∧ cluster < vol.fat.length then
    if vol.link cluster = mark then .last else .link (vol.link cluster)
  else .free

def listOver (vol : Fat32) : List Nat → Scan → Except Stop (List DirEntry)
  | [], scan => .ok scan.out
  | cluster :: rest, scan => do
      match ← vol.readSectors cluster vol.sectorsPerCluster 0 scan with
      | .ended out => pure out
      | .going scan => listOver vol rest scan

def takeOver (vol : Fat32) : List Nat → Nat → Except Stop (List (BitVec 8))
  | [], remaining => if remaining = 0 then .ok [] else throw (.error .corrupt)
  | cluster :: rest, remaining =>
      if remaining = 0 then .ok []
      else do
        let part ← vol.takeSectors cluster vol.sectorsPerCluster 0 remaining
        let more ← takeOver vol rest (remaining - part.length)
        pure (part ++ more)

def runOver (vol : Fat32) (slots : Nat) : List Nat → Except Stop (Option (Nat × Nat))
  | [] => .ok none
  | cluster :: rest => do
      match ← vol.runInCluster cluster slots vol.sectorsPerCluster 0 with
      | some offset => pure (some (cluster, offset))
      | none => runOver vol slots rest

def freeOver : List Nat → Volume Unit
  | [] => pure ()
  | cluster :: rest => do
      setCluster cluster 0#32
      countFreed
      freeOver rest

def extendOver (clusters : List Nat) : Volume Nat := do
  let newCluster ← allocCluster
  setCluster (clusters.getLastD 0) (BitVec.ofNat 32 newCluster)
  let vol ← Fallible.get
  zeroSectors newCluster vol.sectorsPerCluster 0
  pure newCluster

structure VisitsExactly (vol : Fat32) (head : Nat) (rest : List Nat) : Prop where
  readDir : vol.readDir head = vol.listOver (head :: rest) { lfnParts := [], out := [] }
  readFileData : ∀ size, vol.readFileData head size = vol.takeOver (head :: rest) size
  findFreeRun : ∀ slots, vol.findFreeRun head slots = vol.runOver slots (head :: rest)
  freeChain : Fat32.freeChain head vol = freeOver (head :: rest) vol
  extendDir : Fat32.extendDir head vol = extendOver (head :: rest) vol

variable {cluster : Nat}

theorem marked_inside (taken : vol.marked mark cluster ≠ .free) :
    2 ≤ cluster ∧ cluster < vol.fat.length := by
  unfold marked at taken
  split at taken
  · assumption
  · exact absurd rfl taken

theorem marked_last (ends : vol.marked mark cluster = .last) :
    vol.nextCluster cluster = .ok mark := by
  have taken : vol.marked mark cluster ≠ .free := by
    rw [ends]
    simp
  have inside := marked_inside taken
  unfold marked at ends
  rw [if_pos inside] at ends
  split at ends
  · rename_i here
    rw [nextCluster_of_lt inside.2, here]
  · cases ends

theorem marked_link {next : Nat} (linked : vol.marked mark cluster = .link next) :
    vol.nextCluster cluster = .ok next ∧ next ≠ mark := by
  have taken : vol.marked mark cluster ≠ .free := by
    rw [linked]
    simp
  have inside := marked_inside taken
  unfold marked at linked
  rw [if_pos inside] at linked
  split at linked
  · cases linked
  · rename_i different
    obtain rfl := Cell.link.inj linked
    exact ⟨nextCluster_of_lt inside.2, different⟩

variable {rest : List Nat} {head : Nat}

theorem next_of_chain (small : vol.fat.length ≤ 0x0FFFFFF7) {next : Nat}
    (chain : IsChain (vol.marked mark) (head :: next :: rest)) :
    vol.nextCluster head = .ok next ∧ isEof next = false ∧ 2 ≤ next := by
  obtain ⟨least, inside⟩ := marked_inside (chain.2.taken mem_cons_self)
  exact ⟨(marked_link chain.1).1, isEof_of_lt (by omega), least⟩

section EofMark

variable (small : vol.fat.length ≤ 0x0FFFFFF7)
include small

variable {rest : List Nat} {head left : Nat}

section

variable (chain : IsChain (vol.marked eofMark.toNat) (head :: rest))
include chain

theorem readClusters_of_chain {scan : Scan} (enough : rest.length ≤ left) :
    vol.readClusters left head scan = vol.listOver (head :: rest) scan := by
  induction rest generalizing head left scan with
  | nil =>
      rw [readClusters.eq_def, listOver]
      dsimp only
      congr 1
      funext reading
      cases reading with
      | ended out => rfl
      | going after =>
          dsimp only
          rw [marked_last chain, Except.ok_bind, if_pos isEof_eofMark]
          rfl
  | cons next rest ih =>
      obtain ⟨found, more, least⟩ := next_of_chain small chain
      obtain ⟨left, rfl⟩ := Nat.exists_eq_succ_of_ne_zero (Nat.ne_of_gt (Nat.lt_of_lt_of_le
        (Nat.succ_pos _) enough))
      rw [readClusters.eq_def, listOver]
      dsimp only
      congr 1
      funext reading
      cases reading with
      | ended out => rfl
      | going after =>
          dsimp only
          rw [found, Except.ok_bind, if_neg (by rw [more]; simp), if_neg (by omega)]
          exact ih chain.2 (Nat.le_of_succ_le_succ enough)

theorem takeClusters_of_chain {remaining : Nat} (enough : (head :: rest).length ≤ left) :
    vol.takeClusters left head remaining = vol.takeOver (head :: rest) remaining := by
  induction rest generalizing head left remaining with
  | nil =>
      obtain ⟨left, rfl⟩ := Nat.exists_eq_succ_of_ne_zero (Nat.ne_of_gt enough)
      obtain ⟨least, -⟩ := marked_inside (chain.taken mem_cons_self)
      rw [takeClusters.eq_def, takeOver]
      dsimp only
      by_cases none : remaining = 0
      · rw [if_pos none, if_pos none]
        rfl
      · rw [if_neg none, if_neg none, if_neg (by omega)]
        congr 1
        funext part
        rw [marked_last chain, Except.ok_bind, takeOver]
        by_cases done : remaining - part.length = 0
        · rw [if_neg (by omega), if_pos done, done, takeClusters.eq_def]
          rfl
        · rw [if_pos ⟨by omega, isEof_eofMark⟩, if_neg done]
          rfl
  | cons next rest ih =>
      obtain ⟨found, more, -⟩ := next_of_chain small chain
      obtain ⟨least, -⟩ := marked_inside (chain.taken mem_cons_self)
      obtain ⟨left, rfl⟩ := Nat.exists_eq_succ_of_ne_zero (Nat.ne_of_gt (Nat.lt_of_lt_of_le
        (Nat.succ_pos _) enough))
      rw [takeClusters.eq_def, takeOver]
      dsimp only
      by_cases none : remaining = 0
      · rw [if_pos none, if_pos none]
        rfl
      · rw [if_neg none, if_neg none, if_neg (by omega)]
        congr 1
        funext part
        rw [found, Except.ok_bind, if_neg (by rw [more]; simp),
          ih chain.2 (Nat.le_of_succ_le_succ enough)]

theorem freeRunFrom_of_chain {slots : Nat} (enough : rest.length ≤ left) :
    vol.freeRunFrom slots left head = vol.runOver slots (head :: rest) := by
  induction rest generalizing head left with
  | nil =>
      rw [freeRunFrom.eq_def, runOver]
      dsimp only
      congr 1
      funext found
      cases found with
      | some offset => rfl
      | none =>
          dsimp only
          rw [marked_last chain, Except.ok_bind, if_pos isEof_eofMark]
          rfl
  | cons next rest ih =>
      obtain ⟨found, more, -⟩ := next_of_chain small chain
      obtain ⟨left, rfl⟩ := Nat.exists_eq_succ_of_ne_zero (Nat.ne_of_gt (Nat.lt_of_lt_of_le
        (Nat.succ_pos _) enough))
      rw [freeRunFrom.eq_def, runOver]
      dsimp only
      congr 1
      funext place
      cases place with
      | some offset => rfl
      | none =>
          dsimp only
          rw [found, Except.ok_bind, if_neg (by rw [more]; simp)]
          exact ih chain.2 (Nat.le_of_succ_le_succ enough)

theorem lastCluster_of_marked (enough : rest.length ≤ left) :
    vol.lastCluster left head = .ok ((head :: rest).getLastD 0) := by
  induction rest generalizing head left with
  | nil =>
      rw [lastCluster.eq_def]
      dsimp only
      rw [marked_last chain, Except.ok_bind, if_pos isEof_eofMark]
      rfl
  | cons next rest ih =>
      obtain ⟨found, more, -⟩ := next_of_chain small chain
      obtain ⟨left, rfl⟩ := Nat.exists_eq_succ_of_ne_zero (Nat.ne_of_gt (Nat.lt_of_lt_of_le
        (Nat.succ_pos _) enough))
      rw [lastCluster.eq_def]
      dsimp only
      rw [found, Except.ok_bind, if_neg (by rw [more]; simp)]
      exact ih chain.2 (Nat.le_of_succ_le_succ enough)

end

end EofMark

theorem marked_congr {vol' : Fat32} (length : vol'.fat.length = vol.fat.length)
    (same : vol'.fat[cluster]? = vol.fat[cluster]?) :
    vol'.marked mark cluster = vol.marked mark cluster := by
  unfold marked link
  rw [length, getD_eq_getElem?_getD, same, ← getD_eq_getElem?_getD]

theorem chain_of_freed (fresh : cluster ∉ head :: rest)
    (chain : IsChain (vol.marked mark) (head :: rest)) :
    IsChain ((vol.freed cluster).marked mark) (head :: rest) := by
  refine chain.congr (fun other mem => marked_congr length_set (withEntry_getElem? ?_))
  rintro rfl
  exact fresh mem

theorem countFreed_of_lt (count : vol.freeClusters + 1 < 2 ^ 32) :
    countFreed (vol.withEntry cluster 0#32) = (.ok (), vol.freed cluster) := by
  unfold countFreed
  rw [u32_of_lt _ (by omega) (by
    show (vol.freeClusters : Int) + 1 < 2 ^ 32
    omega)]
  rfl

def freedAll (vol : Fat32) (clusters : List Nat) : Fat32 :=
  clusters.foldl freed vol

theorem freeOver_run {clusters : List Nat}
    (inside : ∀ cluster, cluster ∈ clusters → cluster < vol.fat.length)
    (count : vol.freeClusters + clusters.length < 2 ^ 32) :
    freeOver clusters vol = (.ok (), vol.freedAll clusters) := by
  induction clusters generalizing vol with
  | nil => rfl
  | cons cluster rest ih =>
      rw [length_cons] at count
      rw [freeOver, bind_of_ok (setCluster_of_lt (inside cluster mem_cons_self)),
        bind_of_ok (countFreed_of_lt (by omega))]
      have sameLength : (vol.freed cluster).fat.length = vol.fat.length := length_set
      refine ih (fun other mem => ?_) ?_
      · rw [sameLength]
        exact inside other (mem_cons_of_mem _ mem)
      · show vol.freeClusters + 1 + rest.length < 2 ^ 32
        omega

theorem freeClustersFrom_of_chain (small : vol.fat.length ≤ 0x0FFFFFF7) {next : Nat}
    (chain : IsChain (vol.marked mark) (head :: rest))
    (found : vol.nextCluster head = .ok next) (count : vol.freeClusters + 1 < 2 ^ 32)
    (left : Nat) :
    freeClustersFrom (left + 1) head vol = freeClustersFrom left next (vol.freed head) := by
  obtain ⟨least, inside⟩ := marked_inside (chain.taken mem_cons_self)
  have more : isEof head = false := isEof_of_lt (by omega)
  rw [freeClustersFrom.eq_def]
  simp only [more, Bool.false_eq_true, if_false, Nat.not_lt.mpr least]
  rw [bind_of_ok (show Fallible.query _ vol = (.ok next, vol) by
    rw [query_run, found]), bind_of_ok (setCluster_of_lt inside),
    bind_of_ok (countFreed_of_lt count)]

theorem freeClustersFrom_mark (small : vol.fat.length ≤ 0x0FFFFFF7) (left : Nat)
    (standard : 0x0FFFFFF8 ≤ mark) (other : mark < 0x0FFFFFFF) :
    (freeClustersFrom left mark vol).1 ≠ .ok () := by
  rw [freeClustersFrom.eq_def]
  simp only [isEof_of_lt other, Bool.false_eq_true, if_false, show ¬ mark < 2 by omega]
  cases left with
  | zero =>
      intro same
      cases same
  | succ left =>
      dsimp only
      rw [bind_of_error (show Fallible.query _ vol = (.error .panic, vol) by
        rw [query_run, nextCluster_of_le (by omega)])]
      intro same
      cases same

theorem freeClustersFrom_zero (more : head < 0x0FFFFFFF) :
    (freeClustersFrom 0 head vol).1 ≠ .ok () := by
  rw [freeClustersFrom.eq_def]
  simp only [isEof_of_lt more, Bool.false_eq_true, if_false]
  split
  · intro same
    cases same
  · intro same
    cases same

theorem freeClustersFrom_ok_iff (small : vol.fat.length ≤ 0x0FFFFFF7)
    (standard : 0x0FFFFFF8 ≤ mark ∧ mark ≤ 0x0FFFFFFF) {head : Nat} {rest : List Nat} {left : Nat}
    (chain : IsChain (vol.marked mark) (head :: rest))
    (count : vol.freeClusters + (head :: rest).length < 2 ^ 32) :
    ((freeClustersFrom left head vol).1 = .ok () ↔
      mark = eofMark.toNat ∧ (head :: rest).length ≤ left) ∧
    (mark = eofMark.toNat → (head :: rest).length ≤ left →
      freeClustersFrom left head vol = (.ok (), vol.freedAll (head :: rest))) := by
  have eof : eofMark.toNat = 0x0FFFFFFF := rfl
  induction rest generalizing vol head left with
  | nil =>
      obtain ⟨-, inside⟩ := marked_inside (chain.taken mem_cons_self)
      cases left with
      | zero =>
          exact ⟨iff_of_false (freeClustersFrom_zero (by omega)) (fun both => by simp at both),
            fun _ short => by simp at short⟩
      | succ left =>
          rw [freeClustersFrom_of_chain small chain (marked_last chain) (by simpa using count)]
          by_cases known : mark = eofMark.toNat
          · rw [known, freeClustersFrom_eof]
            exact ⟨iff_of_true rfl ⟨rfl, by simp⟩, fun _ _ => rfl⟩
          · have shorter : (vol.freed head).fat.length ≤ 0x0FFFFFF7 := by
              rw [show (vol.freed head).fat.length = vol.fat.length from length_set]
              exact small
            exact ⟨iff_of_false (freeClustersFrom_mark shorter left standard.1 (by omega))
              (fun both => known both.1), fun same => absurd same known⟩
  | cons next rest ih =>
      obtain ⟨-, inside⟩ := marked_inside (chain.taken mem_cons_self)
      cases left with
      | zero =>
          exact ⟨iff_of_false (freeClustersFrom_zero (by omega)) (fun both => by simp at both),
            fun _ short => by simp at short⟩
      | succ left =>
          have more : vol.freeClusters + ((next :: rest).length + 1) < 2 ^ 32 := count
          have shorter : (vol.freed head).fat.length ≤ 0x0FFFFFF7 := by
            rw [show (vol.freed head).fat.length = vol.fat.length from length_set]
            exact small
          have laterCount : (vol.freed head).freeClusters + (next :: rest).length < 2 ^ 32 := by
            show vol.freeClusters + 1 + (next :: rest).length < 2 ^ 32
            omega
          rw [freeClustersFrom_of_chain small chain (next_of_chain small chain).1 (by omega)]
          obtain ⟨returns, frees⟩ := @ih (vol.freed head) shorter next left
            (chain_of_freed chain.head_not_mem chain.2) laterCount
          rw [length_cons, Nat.add_le_add_iff_right]
          exact ⟨returns, frees⟩

theorem chain_of_allocated {newCluster : Nat}
    (chain : IsChain (vol.marked eofMark.toNat) (head :: rest))
    (found : vol.firstFree = some newCluster) :
    IsChain ((vol.allocated newCluster).marked eofMark.toNat) (head :: rest) ∧
      newCluster ∉ head :: rest := by
  obtain ⟨least, inside, free, -⟩ := firstFree_eq_some found
  have unlinked : vol.marked eofMark.toNat newCluster = .link 0 := by
    have zero : vol.link newCluster = 0 := by
      rw [isFree, decide_eq_true_eq] at free
      rw [link, free]
      rfl
    unfold marked
    rw [if_pos ⟨least, inside⟩, zero, if_neg (by decide)]
  have fresh : newCluster ∉ head :: rest := by
    intro mem
    have target := chain.link_mem mem unlinked
    have low := (marked_inside (chain.taken target)).1
    omega
  refine ⟨chain.congr (fun other mem => marked_congr length_set (withEntry_getElem? ?_)), fresh⟩
  rintro rfl
  exact fresh mem

theorem extendDir_of_chain (small : vol.fat.length ≤ 0x0FFFFFF7)
    (chain : IsChain (vol.marked eofMark.toNat) (head :: rest))
    (enough : rest.length ≤ chainGuard) :
    Fat32.extendDir head vol = extendOver (head :: rest) vol := by
  unfold Fat32.extendDir extendOver
  cases found : vol.firstFree with
  | none =>
      rw [bind_of_error (allocCluster_of_none found),
        bind_of_error (allocCluster_of_none found)]
  | some newCluster =>
      have allocates := allocCluster_of_some found (by omega)
      have shorter : (vol.allocated newCluster).fat.length ≤ 0x0FFFFFF7 := by
        rw [show (vol.allocated newCluster).fat.length = vol.fat.length from length_set]
        exact small
      have walked := lastCluster_of_marked shorter (chain_of_allocated chain found).1 enough
      rw [bind_of_ok allocates, bind_of_ok allocates]
      rw [bind_of_ok (show Fallible.query _ (vol.allocated newCluster) =
        (.ok ((head :: rest).getLastD 0), vol.allocated newCluster) by
          rw [query_run, walked])]

/-- On a FAT32 volume the driver follows a chain to its end, and no further, exactly when the
chain ends in `0x0FFFFFFF` and is no longer than the guard allows. -/
theorem visits_exactly_iff (small : vol.fat.length ≤ 0x0FFFFFF7)
    (count : vol.freeClusters ≤ vol.fat.length)
    (standard : 0x0FFFFFF8 ≤ mark ∧ mark ≤ 0x0FFFFFFF) {head : Nat} {rest : List Nat}
    (chain : IsChain (vol.marked mark) (head :: rest)) :
    VisitsExactly vol head rest ↔
      mark = 0x0FFFFFFF ∧ (head :: rest).length ≤ chainGuard + 1 := by
  have eof : eofMark.toNat = 0x0FFFFFFF := rfl
  have inside : ∀ cluster, cluster ∈ head :: rest → cluster < vol.fat.length :=
    fun cluster mem => (marked_inside (chain.taken mem)).2
  have bounded : (head :: rest).length ≤ vol.fat.length := by
    have within : (head :: rest) ⊆ List.range vol.fat.length := fun cluster mem =>
      List.mem_range.mpr (inside cluster mem)
    have shorter := (chain.nodup.subperm within).length_le
    rwa [List.length_range] at shorter
  have fits : vol.freeClusters + (head :: rest).length < 2 ^ 32 := by omega
  obtain ⟨returns, frees⟩ := @freeClustersFrom_ok_iff _ _ small standard head rest (chainGuard + 1)
    chain fits
  constructor
  · intro visits
    have freed := visits.freeChain
    rw [freeOver_run inside fits] at freed
    exact returns.mp (congrArg Prod.fst freed)
  · rintro ⟨known, enough⟩
    have known' : mark = eofMark.toNat := known
    have shorter : rest.length ≤ chainGuard := Nat.le_of_succ_le_succ enough
    have freed := frees known' enough
    subst known'
    exact
      { readDir := readClusters_of_chain small chain shorter
        readFileData := fun _ => takeClusters_of_chain small chain enough
        findFreeRun := fun _ => freeRunFrom_of_chain small chain shorter
        freeChain := freed.trans (freeOver_run inside fits).symm
        extendDir := extendDir_of_chain small chain shorter }

theorem visits_exactly_iff_installed :
    IsChain ((installed [] []).marked 0x0FFFFFFF) [3, 4] ∧ VisitsExactly (installed [] []) 3 [4] := by
  have chain : IsChain ((installed [] []).marked 0x0FFFFFFF) [3, 4] :=
    ⟨by decide +kernel, show (installed [] []).marked 0x0FFFFFFF 4 = .last by decide +kernel⟩
  have length : (installed [] []).fat.length = 128 := by decide +kernel
  have count : (installed [] []).freeClusters = 122 := rfl
  refine ⟨chain, (visits_exactly_iff ?_ ?_ ⟨by decide, le_refl _⟩ chain).mpr ⟨rfl, by decide⟩⟩
  · omega
  · omega

/-- A file in the clusters 5 and 6 as `mkfs.fat` and its tools would leave it: the chain ends in
another of the standard marks. -/
def otherMark : Fat32 :=
  { ((installed (dirEntryBytes ['a'] 5 600 false (quietHardware.rtc 0)) []).withEntry 5 6#32).withEntry
      6 0x0FFFFFF8#32 with freeClusters := 121 }

theorem other_mark_indexes_fat :
    IsChain (otherMark.marked 0x0FFFFFF8) [5, 6] ∧
      (remove "/system/a".toList otherMark).1 = .error .panic ∧ ¬ VisitsExactly otherMark 5 [6] := by
  have chain : IsChain (otherMark.marked 0x0FFFFFF8) [5, 6] :=
    ⟨by decide +kernel, show otherMark.marked 0x0FFFFFF8 6 = .last by decide +kernel⟩
  have stops : (freeChain 5 otherMark).1 = .error .panic := by decide +kernel
  have freed : (freeOver [5, 6] otherMark).1 = .ok () := by decide +kernel
  refine ⟨chain, by decide +kernel, ?_⟩
  intro visits
  rw [visits.freeChain, freed] at stops
  cases stops

end MachaOS.Fat.Fat32
