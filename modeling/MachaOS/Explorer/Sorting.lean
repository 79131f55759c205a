/-
The order of the explorer's list.

`sort_entries` is an insertion sort, read from the back: the entries are put one after the other in
front of those that go before them.  Folders come first, both parts follow the key, and entries that
compare equal stay in the order they came in.
-/

import Mathlib.Data.List.Sort
import MachaOS.Explorer.Entries

namespace MachaOS

namespace Explorer

open List
open Desktop (Text)

section Bubble

variable {less : DirEntry → DirEntry → Bool}

def Stays (less : DirEntry → DirEntry → Bool) (entry ahead : DirEntry) : Prop :=
  less entry ahead = false

instance (less : DirEntry → DirEntry → Bool) : DecidableRel (Stays less) :=
  fun entry ahead => inferInstanceAs (Decidable (less entry ahead = false))

theorem bubble_reverse (entry : DirEntry) (before behind : List DirEntry) :
    bubble less before.length (before.reverse ++ entry :: behind) =
      (before.orderedInsert (Stays less) entry).reverse ++ behind := by
  induction before generalizing behind with
  | nil => rfl
  | cons ahead rest ih =>
      have ahead' : ((ahead :: rest).reverse ++ entry :: behind)[rest.length]? = some ahead := by
        rw [reverse_cons, append_assoc, List.getElem?_append_right (by simp)]
        simp
      have entry' : ((ahead :: rest).reverse ++ entry :: behind)[rest.length + 1]? = some entry := by
        rw [List.getElem?_append_right (by simp)]
        simp
      have swapped : (((ahead :: rest).reverse ++ entry :: behind).set rest.length entry).set
          (rest.length + 1) ahead = rest.reverse ++ entry :: ahead :: behind := by
        rw [reverse_cons, append_assoc, set_append_right _ _ (by simp),
          set_append_right _ _ (by simp)]
        simp
      rw [length_cons, bubble, ahead', entry', orderedInsert_cons]
      dsimp only
      rw [swapped]
      by_cases goes : less entry ahead = true
      · have moves : ¬ Stays less entry ahead := by
          rw [Stays, goes]
          exact Bool.true_eq_false_eq_False
        rw [if_pos goes, if_neg moves, ih, reverse_cons, append_assoc]
        rfl
      · have stays : Stays less entry ahead := Bool.eq_false_of_not_eq_true goes
        rw [if_neg goes, if_pos stays]
        simp only [reverse_cons, append_assoc, cons_append, nil_append]

theorem foldl_bubble (sorted rest : List DirEntry) :
    (List.range' sorted.length rest.length).foldl (fun list i => bubble less i list)
        ((sorted.insertionSort (Stays less)).reverse ++ rest) =
      ((rest.reverse ++ sorted).insertionSort (Stays less)).reverse := by
  induction rest generalizing sorted with
  | nil => simp
  | cons entry rest ih =>
      have next := ih (entry :: sorted)
      have moved := @bubble_reverse less entry (sorted.insertionSort (Stays less)) rest
      rw [length_insertionSort] at moved
      rw [length_cons, List.range'_succ, foldl_cons, moved, reverse_cons, append_assoc]
      exact next

end Bubble

variable {lowercase : Text → Text} {key : SortKey} {asc : Bool}

theorem sortEntries_eq (entries : List DirEntry) :
    sortEntries lowercase key asc entries =
      (entries.reverse.insertionSort (Stays (entryLess lowercase key asc))).reverse := by
  cases entries with
  | nil => rfl
  | cons entry rest =>
      rw [reverse_cons]
      exact foldl_bubble [entry] rest

def keyOrder (lowercase : Text → Text) (key : SortKey) (a b : DirEntry) : Ordering :=
  match key with
  | .name => compareText (lowercase a.name) (lowercase b.name)
  | .size => compare a.size b.size
  | .type => compareText (fileType a.name) (fileType b.name)

instance (lowercase : Text → Text) (key : SortKey) : Std.TransCmp (keyOrder lowercase key) := by
  cases key with
  | name =>
      exact inferInstanceAs
        (Std.TransCmp (compareOn (fun entry : DirEntry => (lowercase entry.name).map Char.toNat)))
  | size => exact inferInstanceAs (Std.TransCmp (compareOn (fun entry : DirEntry => entry.size)))
  | type =>
      exact inferInstanceAs
        (Std.TransCmp (compareOn (fun entry : DirEntry => (fileType entry.name).map Char.toNat)))

def directed (lowercase : Text → Text) (key : SortKey) (asc : Bool) (a b : DirEntry) : Ordering :=
  if asc then keyOrder lowercase key a b else keyOrder lowercase key b a

instance (lowercase : Text → Text) (key : SortKey) (asc : Bool) :
    Std.TransCmp (directed lowercase key asc) := by
  cases asc with
  | true => exact inferInstanceAs (Std.TransCmp (keyOrder lowercase key))
  | false => exact inferInstanceAs (Std.TransCmp (fun a b => keyOrder lowercase key b a))

def entryOrder (lowercase : Text → Text) (key : SortKey) (asc : Bool) : DirEntry → DirEntry → Ordering :=
  compareLex (compareOn (fun entry => !entry.isDir)) (directed lowercase key asc)

instance (lowercase : Text → Text) (key : SortKey) (asc : Bool) :
    Std.TransCmp (entryOrder lowercase key asc) :=
  inferInstanceAs (Std.TransCmp (compareLex _ _))

theorem entryLess_eq (a b : DirEntry) :
    entryLess lowercase key asc a b =
      if a.isDir ≠ b.isDir then a.isDir
      else if asc then keyOrder lowercase key a b == .lt else keyOrder lowercase key a b == .gt := rfl

theorem entryLess_iff {a b : DirEntry} :
    entryLess lowercase key asc a b = true ↔ entryOrder lowercase key asc a b = .lt := by
  have flipped : keyOrder lowercase key b a = .lt ↔ keyOrder lowercase key a b = .gt :=
    Std.OrientedCmp.gt_iff_lt.symm
  have order : entryOrder lowercase key asc a b =
      (compare (!a.isDir) (!b.isDir)).then (directed lowercase key asc a b) := rfl
  rw [entryLess_eq, order]
  cases a.isDir <;> cases b.isDir <;> cases asc <;> simp [directed, flipped, compare]

theorem stays_iff {a b : DirEntry} :
    Stays (entryLess lowercase key asc) a b ↔ (entryOrder lowercase key asc b a).isLE := by
  have swapped : entryOrder lowercase key asc a b = (entryOrder lowercase key asc b a).swap :=
    Std.OrientedCmp.eq_swap
  rw [Stays, ← Bool.not_eq_true, entryLess_iff, swapped]
  cases entryOrder lowercase key asc b a <;> decide

instance : Std.Total (Stays (entryLess lowercase key asc)) where
  total a b := by
    rw [stays_iff, stays_iff, @Std.OrientedCmp.eq_swap _ (entryOrder lowercase key asc) _ b a]
    cases entryOrder lowercase key asc a b <;> decide

instance : IsTrans DirEntry (Stays (entryLess lowercase key asc)) where
  trans a b c first second := by
    rw [stays_iff] at *
    exact Std.TransCmp.isLE_trans second first

def InOrder (lowercase : Text → Text) (key : SortKey) (asc : Bool) (a b : DirEntry) : Prop :=
  (b.isDir = true → a.isDir = true) ∧
    (a.isDir = b.isDir → keyOrder lowercase key a b ≠ if asc then .gt else .lt)

def Equal (lowercase : Text → Text) (key : SortKey) (a b : DirEntry) : Bool :=
  a.isDir == b.isDir && keyOrder lowercase key a b == .eq

theorem inOrder_of_stays {a b : DirEntry} (stays : Stays (entryLess lowercase key asc) b a) :
    InOrder lowercase key asc a b := by
  have swapped : keyOrder lowercase key b a = (keyOrder lowercase key a b).swap :=
    Std.OrientedCmp.eq_swap
  rw [Stays, entryLess_eq, swapped] at stays
  constructor
  · intro folder
    by_contra file
    rw [if_pos (by rw [folder]; exact fun same => file same.symm), folder] at stays
    cases stays
  · intro same
    rw [if_neg (fun different => different same.symm)] at stays
    cases asc <;> cases order : keyOrder lowercase key a b <;> simp_all

theorem stays_of_equal {entry a b : DirEntry} (first : Equal lowercase key entry a = true)
    (second : Equal lowercase key entry b = true) : Stays (entryLess lowercase key asc) a b := by
  simp only [Equal, Bool.and_eq_true, beq_iff_eq] at first second
  have same : keyOrder lowercase key a b = .eq :=
    Std.TransCmp.eq_trans (Std.OrientedCmp.eq_symm first.2) second.2
  rw [Stays, entryLess_eq, if_neg (by rw [← first.1, ← second.1]; simp), same]
  cases asc <;> rfl

/-- For every list of entries, key and direction, and whatever the case mapping is, the sorted list is
the given one in another order: folders before files, both by the key, and entries that compare equal
as they stood before. -/
theorem sortEntries_stable (lowercase : Text → Text) (key : SortKey) (asc : Bool)
    (entries : List DirEntry) :
    (sortEntries lowercase key asc entries).Perm entries ∧
      (sortEntries lowercase key asc entries).Pairwise (InOrder lowercase key asc) ∧
      ∀ entry, (sortEntries lowercase key asc entries).filter (Equal lowercase key entry) =
        entries.filter (Equal lowercase key entry) := by
  have same : (sortEntries lowercase key asc entries).Perm entries := by
    rw [sortEntries_eq]
    exact (List.reverse_perm _).trans ((List.perm_insertionSort _ _).trans (List.reverse_perm _))
  refine ⟨same, ?_, fun entry => ?_⟩
  · rw [sortEntries_eq, List.pairwise_reverse]
    exact (List.pairwise_insertionSort _ _).imp inOrder_of_stays
  · -- the equal entries may stand as they are, so sorting keeps them as a sublist
    have standing : (entries.filter (Equal lowercase key entry)).reverse.Pairwise
        (Stays (entryLess lowercase key asc)) := by
      refine List.pairwise_of_forall_mem_list (fun a first b second => ?_)
      rw [List.mem_reverse, List.mem_filter] at first second
      exact stays_of_equal first.2 second.2
    have kept := List.sublist_insertionSort standing
      (List.filter_sublist (l := entries)).reverse
    rw [← List.reverse_reverse (List.insertionSort _ _), ← sortEntries_eq] at kept
    have listed := (List.reverse_sublist.mp kept).filter (Equal lowercase key entry)
    rw [List.filter_filter] at listed
    simp only [Bool.and_self] at listed
    exact (listed.eq_of_length (same.filter _).length_eq.symm).symm

end Explorer

end MachaOS
