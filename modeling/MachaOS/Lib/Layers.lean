/-
Layers of things shown on top of one another: a list from the bottom to the top, one of them in
focus, where a thing is brought to the top or takes the place of one that is no longer used.
-/

import Mathlib.Data.List.Basic
import Mathlib.Data.List.Infix
import Mathlib.Data.List.Nodup
import Mathlib.Data.List.Perm.Basic

namespace MachaOS

namespace Layers

open List Option

variable {α : Type} {items : List α} {shown free : α → Bool}

def toTop (items : List α) (i : Nat) : List α := items.eraseIdx i ++ items[i]?.toList

theorem toTop_of_lt {i : Nat} {x : α} (found : items[i]? = some x) :
    toTop items i = items.eraseIdx i ++ [x] := by
  rw [toTop, found, toList_some]

theorem toTop_of_none {i : Nat} (missing : items[i]? = none) : toTop items i = items := by
  rw [toTop, missing, toList_none, append_nil,
    eraseIdx_of_length_le (List.getElem?_eq_none_iff.mp missing)]

theorem toTop_perm (items : List α) (i : Nat) : (toTop items i).Perm items := by
  cases found : items[i]? with
  | none => rw [toTop_of_none found]
  | some x =>
      obtain ⟨inside, rfl⟩ := List.getElem?_eq_some_iff.mp found
      rw [toTop_of_lt found]
      exact (perm_append_singleton _ _).trans (getElem_cons_eraseIdx_perm inside)

theorem mem_toTop {i : Nat} {x : α} : x ∈ toTop items i ↔ x ∈ items := (toTop_perm items i).mem_iff

@[simp] theorem length_toTop (i : Nat) : (toTop items i).length = items.length :=
  (toTop_perm items i).length_eq

theorem getElem?_toTop_top {i : Nat} {x : α} (found : items[i]? = some x) :
    (toTop items i)[items.length - 1]? = some x := by
  obtain ⟨inside, -⟩ := List.getElem?_eq_some_iff.mp found
  rw [toTop_of_lt found, ← length_eraseIdx_of_lt inside, List.getElem?_concat_length]

theorem getElem?_toTop_above {i j : Nat} (above : i ≤ j) (inside : j + 1 < items.length) :
    (toTop items i)[j]? = items[j + 1]? := by
  have found : items[i]? = some items[i] := List.getElem?_eq_getElem (by omega)
  have room : j < (items.eraseIdx i).length := by
    rw [length_eraseIdx_of_lt (by omega)]
    omega
  rw [toTop_of_lt found, List.getElem?_append_left room, List.getElem?_eraseIdx_of_ge above]

theorem toTop_top {front : List α} {x : α} : toTop (front ++ [x]) front.length = front ++ [x] := by
  rw [toTop_of_lt List.getElem?_concat_length, eraseIdx_append_of_length_le (Nat.le_refl _),
    Nat.sub_self]
  simp

theorem modify_top (front : List α) (x : α) (f : α → α) :
    (front ++ [x]).modify front.length f = front ++ [f x] := by
  induction front with
  | nil => rfl
  | cons first rest ih => exact congrArg (List.cons first) ih

/-- A new item in the place of the first that is free, or else on top, with its position. -/
def place (free : α → Bool) (items : List α) (new : α) : List α × Nat :=
  match items.findIdx? free with
  | some slot => (items.set slot new, slot)
  | none => (items ++ [new], items.length)

theorem getElem?_place (new : α) :
    (place free items new).1[(place free items new).2]? = some new := by
  unfold place
  cases slot : items.findIdx? free with
  | none => exact List.getElem?_concat_length
  | some i =>
      have inside : i < items.length := (List.findIdx?_eq_some_iff_getElem.mp slot).1
      simp only
      rw [List.getElem?_set_self inside]

theorem mem_place {new x : α} (mem : x ∈ (place free items new).1) : x = new ∨ x ∈ items := by
  unfold place at mem
  split at mem
  · exact (mem_or_eq_of_mem_set mem).symm
  · rcases mem_append.mp mem with old | last
    · exact Or.inr old
    · exact Or.inl (mem_singleton.mp last)

theorem place_full {new : α} (full : ∀ x ∈ items, free x = false) :
    place free items new = (items ++ [new], items.length) := by
  have none : items.findIdx? free = none := List.findIdx?_eq_none_iff.mpr full
  rw [place, none]

theorem place_free {new : α} (some : ∃ x ∈ items, free x = true) :
    ∃ slot old, items[slot]? = .some old ∧ free old = true ∧
      place free items new = (items.set slot new, slot) := by
  cases found : items.findIdx? free with
  | none =>
      obtain ⟨x, mem, isFree⟩ := some
      rw [List.findIdx?_eq_none_iff.mp found x mem] at isFree
      cases isFree
  | some slot =>
      obtain ⟨inside, isFree, _⟩ := List.findIdx?_eq_some_iff_getElem.mp found
      refine ⟨slot, items[slot], List.getElem?_eq_getElem inside, isFree, ?_⟩
      rw [place, found]

theorem place_onTop {new : α} (taken : ∀ x ∈ items.dropLast, free x = false) :
    ∃ front, place free items new = (front ++ [new], front.length) ∧
      (items = front ∨ ∃ old, free old = true ∧ items = front ++ [old]) := by
  rcases eq_nil_or_concat' items with rfl | ⟨front, last, rfl⟩
  · exact ⟨[], rfl, Or.inl rfl⟩
  rw [dropLast_concat] at taken
  cases lastFree : free last with
  | false =>
      refine ⟨front ++ [last], place_full ?_, Or.inl rfl⟩
      intro x mem
      rcases mem_append.mp mem with earlier | top
      · exact taken x earlier
      · rw [mem_singleton.mp top]
        exact lastFree
  | true =>
      obtain ⟨slot, old, found, isFree, placed⟩ := @place_free _ (front ++ [last]) free new
        ⟨last, mem_append_right front (mem_singleton_self last), lastFree⟩
      have top : slot = front.length := by
        obtain ⟨inside, -⟩ := List.getElem?_eq_some_iff.mp found
        rw [length_append, length_singleton] at inside
        by_contra other
        have below : slot < front.length := by omega
        rw [List.getElem?_append_left below] at found
        rw [taken old (mem_of_getElem? found)] at isFree
        cases isFree
      refine ⟨front, ?_, Or.inr ⟨last, lastFree, rfl⟩⟩
      rw [placed, top, set_append_right _ _ (Nat.le_refl _), Nat.sub_self, set_cons_zero]

theorem place_below {new : α} (hole : ∃ x ∈ items.dropLast, free x = true) :
    (place free items new).2 + 1 < (place free items new).1.length := by
  obtain ⟨x, mem, isFree⟩ := hole
  obtain ⟨j, inside, rfl⟩ := getElem_of_mem mem
  rw [getElem_dropLast] at isFree
  rw [length_dropLast] at inside
  unfold place
  cases slot : items.findIdx? free with
  | none =>
      rw [List.findIdx?_eq_none_iff.mp slot _ (getElem_mem _)] at isFree
      cases isFree
  | some i =>
      obtain ⟨bound, -, before⟩ := List.findIdx?_eq_some_iff_getElem.mp slot
      have notAfter : ¬ j < i := fun earlier => before j earlier isFree
      change i + 1 < (items.set i new).length
      rw [length_set]
      omega

def bring (free : α → Bool) (items : List α) (new : α) : List α :=
  toTop (place free items new).1 (place free items new).2

theorem bring_full {new : α} (full : ∀ x ∈ items, free x = false) :
    bring free items new = items ++ [new] := by
  rw [bring, place_full full]
  exact toTop_top

theorem bring_concat (new : α) :
    ∃ rest, rest.Sublist items ∧ bring free items new = rest ++ [new] := by
  unfold bring place
  cases slot : items.findIdx? free with
  | none =>
      refine ⟨items, List.Sublist.refl items, ?_⟩
      simp only
      exact toTop_top
  | some i =>
      have inside : i < items.length := (List.findIdx?_eq_some_iff_getElem.mp slot).1
      refine ⟨items.eraseIdx i, eraseIdx_sublist items i, ?_⟩
      simp only
      rw [toTop_of_lt (List.getElem?_set_self inside), eraseIdx_set_eq]

theorem mem_bring {new x : α} (mem : x ∈ bring free items new) : x = new ∨ x ∈ items :=
  mem_place (mem_toTop.mp mem)

theorem getElem?_bring_free {new : α} {j : Nat} (some : ∃ x ∈ items, free x = true)
    (taken : ∀ (i : Nat) (x : α), j ≤ i → items[i]? = .some x → free x = false)
    (inside : j < items.length) :
    (bring free items new)[j]? = .some new ∨
      (j + 1 < items.length ∧ (bring free items new)[j]? = items[j + 1]?) := by
  obtain ⟨slot, old, found, isFree, placed⟩ := @place_free _ _ _ new some
  have below : slot < j := by
    by_contra above
    rw [taken slot old (by omega) found] at isFree
    cases isFree
  have there : (items.set slot new)[slot]? = .some new := List.getElem?_set_self (by omega)
  rw [bring, placed]
  simp only
  by_cases top : j + 1 < items.length
  · refine Or.inr ⟨top, ?_⟩
    rw [getElem?_toTop_above (by omega) (by rw [length_set]; exact top),
      List.getElem?_set_ne (by omega)]
  · have last : j = (items.set slot new).length - 1 := by
      rw [length_set]
      omega
    refine Or.inl ?_
    rw [last]
    exact getElem?_toTop_top there

theorem nodup_bring {β : Type} {key : α → β} {new : α} (distinct : (items.map key).Nodup)
    (fresh : key new ∉ items.map key) : ((bring free items new).map key).Nodup := by
  rw [bring, ((toTop_perm _ _).map key).nodup_iff]
  unfold place
  split
  · rename_i slot _
    simp only
    rw [map_set]
    exact distinct.set fresh
  · simp only
    rw [map_append, nodup_append]
    refine ⟨distinct, nodup_singleton _, ?_⟩
    rintro a old b last rfl
    rw [map_singleton, mem_singleton] at last
    subst last
    exact fresh old

section Maps

variable {β : Type} (f : α → β)

theorem map_toTop (items : List α) (i : Nat) : (toTop items i).map f = toTop (items.map f) i := by
  rw [toTop, toTop, map_append, eraseIdx_map, List.getElem?_map]
  cases items[i]? <;> rfl

theorem map_place {free' : β → Bool} (agree : ∀ x, free' (f x) = free x) (items : List α) (new : α) :
    place free' (items.map f) (f new) =
      ((place free items new).1.map f, (place free items new).2) := by
  have same : (items.map f).findIdx? free' = items.findIdx? free := by
    rw [List.findIdx?_map]
    congr 1
    funext x
    exact agree x
  unfold place
  rw [same]
  cases items.findIdx? free with
  | none => simp only [map_append, map_singleton, length_map]
  | some slot => simp only [map_set]

theorem map_bring {free' : β → Bool} (agree : ∀ x, free' (f x) = free x) (items : List α) (new : α) :
    (bring free items new).map f = bring free' (items.map f) (f new) := by
  rw [bring, bring, map_place f agree, map_toTop]

end Maps

/-- As long as anything is shown, what is in focus is shown; otherwise the focus is at the bottom. -/
structure Focused (shown : α → Bool) (items : List α) (focus : Nat) : Prop where
  onShown : (∃ x ∈ items, shown x = true) → ∃ x, items[focus]? = some x ∧ shown x = true
  atBottom : (∀ x ∈ items, shown x = false) → focus = 0

theorem focused_nil : Focused shown [] 0 where
  onShown := by
    rintro ⟨x, mem, _⟩
    cases mem
  atBottom := fun _ => rfl

theorem focused_of_shown {focus : Nat} {x : α} (found : items[focus]? = some x)
    (isShown : shown x = true) : Focused shown items focus where
  onShown := fun _ => ⟨x, found, isShown⟩
  atBottom := by
    intro none
    rw [none x (mem_of_getElem? found)] at isShown
    cases isShown

theorem focused_congr {changed : List α} {focus : Nat}
    (same : ∀ i : Nat, changed[i]?.map shown = items[i]?.map shown)
    (kept : Focused shown items focus) : Focused shown changed focus := by
  have back : ∀ (i : Nat) (x : α), items[i]? = some x → ∃ y, changed[i]? = some y ∧ shown y = shown x := by
    intro i x found
    have equal := same i
    rw [found, map_some] at equal
    exact map_eq_some_iff.mp equal
  have forth : ∀ (i : Nat) (y : α), changed[i]? = some y → ∃ x, items[i]? = some x ∧ shown x = shown y := by
    intro i y found
    have equal := (same i).symm
    rw [found, map_some] at equal
    exact map_eq_some_iff.mp equal
  constructor
  · rintro ⟨y, mem, isShown⟩
    obtain ⟨i, found⟩ := mem_iff_getElem?.mp mem
    obtain ⟨x, old, equal⟩ := forth i y found
    obtain ⟨z, inFocus, shows⟩ :=
      kept.onShown ⟨x, mem_of_getElem? old, equal.trans isShown⟩
    obtain ⟨w, now, agrees⟩ := back focus z inFocus
    exact ⟨w, now, agrees.trans shows⟩
  · intro none
    apply kept.atBottom
    intro x mem
    obtain ⟨i, found⟩ := mem_iff_getElem?.mp mem
    obtain ⟨y, now, equal⟩ := back i x found
    rw [← equal]
    exact none y (mem_of_getElem? now)

def lastShown (shown : α → Bool) (items : List α) : Nat :=
  ((items.zipIdx.reverse.find? (fun entry => shown entry.1)).map Prod.snd).getD 0

theorem lastShown_shown (some : ∃ x ∈ items, shown x = true) :
    ∃ x, items[lastShown shown items]? = .some x ∧ shown x = true := by
  cases found : items.zipIdx.reverse.find? (fun entry => shown entry.1) with
  | none =>
      obtain ⟨x, mem, isShown⟩ := some
      obtain ⟨i, inside, rfl⟩ := getElem_of_mem mem
      have paired : (items[i], i) ∈ items.zipIdx.reverse := by
        rw [mem_reverse, mem_zipIdx_iff_getElem?]
        exact List.getElem?_eq_getElem inside
      exact absurd isShown (List.find?_eq_none.mp found _ paired)
  | some entry =>
      have mem := mem_of_find?_eq_some found
      rw [mem_reverse, mem_zipIdx_iff_getElem?] at mem
      refine ⟨entry.1, ?_, @List.find?_some _ (fun entry : α × Nat => shown entry.1) _ _ found⟩
      rw [lastShown, found, map_some, getD_some]
      exact mem

theorem lastShown_none (none : ∀ x ∈ items, shown x = false) : lastShown shown items = 0 := by
  cases found : items.zipIdx.reverse.find? (fun entry => shown entry.1) with
  | none => rw [lastShown, found, map_none, getD_none]
  | some entry =>
      have mem := mem_of_find?_eq_some found
      rw [mem_reverse, mem_zipIdx_iff_getElem?] at mem
      have isShown := @List.find?_some _ (fun entry : α × Nat => shown entry.1) _ _ found
      rw [none entry.1 (mem_of_getElem? mem)] at isShown
      cases isShown

def refocus (shown : α → Bool) (items : List α) (focus hidden : Nat) : Nat :=
  if focus = hidden then lastShown shown items else focus

theorem focused_hide {focus i : Nat} {x : α} {f : α → α} (found : items[i]? = some x)
    (isShown : shown x = true) (kept : Focused shown items focus) :
    Focused shown (items.modify i f) (refocus shown (items.modify i f) focus i) := by
  by_cases same : focus = i
  · rw [refocus, if_pos same]
    exact ⟨lastShown_shown, lastShown_none⟩
  · obtain ⟨y, inFocus, shows⟩ := kept.onShown ⟨x, mem_of_getElem? found, isShown⟩
    have now : (items.modify i f)[focus]? = some y := by
      rw [List.getElem?_modify_ne f items (fun equal => same equal.symm), inFocus]
    rw [refocus, if_neg same]
    constructor
    · exact fun _ => ⟨y, now, shows⟩
    · intro none
      rw [none y (mem_of_getElem? now)] at shows
      cases shows

end Layers

end MachaOS
