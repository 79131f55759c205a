/-
Where the list of the explorer is drawn, and which entry a point of it hits.

Drawing goes over the rows and columns that fit as a whole; hit testing divides.  Beyond the last
whole row and column the division goes on.
-/

import MachaOS.Explorer.FileExplorer
import MachaOS.Notepad.Editor

namespace MachaOS

namespace Explorer

open Option
open Notepad (Rect)

namespace FileExplorer

def detailsRow (r : Nat) : Rect :=
  { x := sidebarW, y := listY + headerH + r * rowH, w := listW, h := rowH }

def gridTile (r c : Nat) : Rect :=
  { x := sidebarW + c * gridTileW, y := listY + r * gridTileH, w := gridTileW, h := gridTileH }

/-- The entries that `render_details` draws, each with its row; it stops at the first that is
missing. -/
def renderDetails (app : FileExplorer) : List (Nat × Rect) :=
  ((List.range detailsVisibleRows).takeWhile (fun r =>
    app.entries[r + app.scroll]?.isSome)).map (fun r =>
      (r + app.scroll, detailsRow r))

/-- The entries that `render_grid` draws, each with its tile. -/
def renderGrid (app : FileExplorer) : List (Nat × Rect) :=
  (((List.range gridVisibleRows).flatMap (fun r =>
    (List.range gridCols).map (fun c => (r, c)))).takeWhile (fun (r, c) =>
      app.entries[app.scroll + r * gridCols + c]?.isSome)).map (fun (r, c) =>
        (app.scroll + r * gridCols + c, gridTile r c))

def renderList (app : FileExplorer) : List (Nat × Rect) :=
  match app.view with
  | .details => app.renderDetails
  | .grid => app.renderGrid

def Draws (app : FileExplorer) (item : Nat) (x y : Int) : Prop :=
  ∃ cell, (item, cell) ∈ app.renderList ∧ cell.Contains x y

def ClickSelects (glyphW : Nat) (app : FileExplorer) (item : Nat) (x y : Int) : Prop :=
  app.clickCommand glyphW x y = .selectItem item ∧ item < app.entries.length

def wholeRows : View → Nat
  | .details => detailsVisibleRows
  | .grid => gridVisibleRows

def wholeCols : View → Nat
  | .details => 1
  | .grid => gridCols

def cellAt (view : View) (x y : Int) : Option (Nat × Nat) :=
  if x < sidebarW ∨ (sidebarW + listW : Nat) ≤ x then none
  else
    match view with
    | .details =>
        if y < (listY + headerH : Nat) then none else some ((y.toNat - listY - headerH) / rowH, 0)
    | .grid =>
        if y < listY then none
        else some ((y.toNat - listY) / gridTileH, (x.toNat - sidebarW) / gridTileW)

def itemIn (app : FileExplorer) (r c : Nat) : Nat :=
  app.scroll + r * wholeCols app.view + c

variable {app : FileExplorer} {x y : Int} {item : Nat}

theorem itemAt_eq (app : FileExplorer) (x y : Int) :
    app.itemAt x y =
      ((cellAt app.view x y).map (fun cell => app.itemIn cell.1 cell.2)).filter
        (fun item => item < app.entries.length) := by
  unfold itemAt cellAt itemIn
  by_cases beside : x < sidebarW ∨ (sidebarW + listW : Nat) ≤ x
  · have outside : x < sidebarW ∨ (sidebarW + listW : Nat) ≤ x ∨ y < listY := by omega
    rw [if_pos outside, if_pos beside]
    rfl
  · rw [if_neg beside]
    by_cases above : y < listY
    · have outside : x < sidebarW ∨ (sidebarW + listW : Nat) ≤ x ∨ y < listY :=
        Or.inr (Or.inr above)
      rw [if_pos outside]
      cases app.view with
      | details =>
          have header : y < (listY + headerH : Nat) := by omega
          simp only
          rw [if_pos header]
          rfl
      | grid =>
          simp only
          rw [if_pos above]
          rfl
    · rw [if_neg (by omega)]
      cases app.view with
      | details =>
          simp only
          split
          · rfl
          · rw [map_some, wholeCols, Nat.mul_one, Nat.add_zero]
      | grid =>
          simp only
          rw [if_neg above]
          rfl

theorem itemAt_eq_some :
    app.itemAt x y = some item ↔
      ∃ r c, cellAt app.view x y = some (r, c) ∧ item = app.itemIn r c ∧
        item < app.entries.length := by
  rw [itemAt_eq]
  cases cellAt app.view x y with
  | none => simp
  | some cell =>
      rw [map_some, filter_eq_some_iff, some_inj, decide_eq_true_eq]
      constructor
      · rintro ⟨same, inside⟩
        exact ⟨cell.1, cell.2, rfl, same.symm, inside⟩
      · rintro ⟨r, c, same, place, inside⟩
        cases same
        exact ⟨place.symm, inside⟩

theorem bars_select_nothing (glyphW : Nat) (x y : Nat) :
    app.clickBreadcrumb glyphW x ≠ .selectItem item ∧
      app.clickToolbar x ≠ .selectItem item ∧ app.clickSidebar y ≠ .selectItem item := by
  refine ⟨?_, ?_, ?_⟩
  · unfold clickBreadcrumb
    split <;> exact Command.noConfusion
  · unfold clickToolbar
    split <;> exact Command.noConfusion
  · unfold clickSidebar
    split <;> exact Command.noConfusion

theorem clickDetails_selects {x y : Nat} :
    app.clickDetails x y = .selectItem item ↔
      listY + headerH ≤ y ∧ (y - listY - headerH) / rowH + app.scroll = item := by
  unfold clickDetails
  by_cases header : y < listY + headerH
  · rw [if_pos header]
    constructor
    · intro never
      simp only at never
      split at never
      · cases never
      · split at never
        · cases never
        · split at never <;> cases never
    · intro below
      omega
  · rw [if_neg header, Command.selectItem.injEq]
    constructor
    · intro same
      exact ⟨by omega, same⟩
    · intro below
      exact below.2

theorem clickSelects_iff (glyphW : Nat) :
    app.ClickSelects glyphW item x y ↔
      y < (height - statusH : Nat) ∧ app.itemAt x y = some item := by
  have left : sidebarW = 128 := rfl
  have across : listW = 562 := rfl
  have top : listY = 50 := rfl
  have bar : pathH = 24 := rfl
  have bottom : height - statusH = 424 := rfl
  obtain ⟨crumb, toolbar, sidebar⟩ := @bars_select_nothing app item glyphW x.toNat y.toNat
  have outside : ∀ command, command ≠ Command.selectItem item →
      x < sidebarW ∨ (sidebarW + listW : Nat) ≤ x ∨ y < listY ∨ (height - statusH : Nat) ≤ y →
      ((command = .selectItem item ∧ item < app.entries.length) ↔
        y < (height - statusH : Nat) ∧ app.itemAt x y = some item) := by
    intro command other away
    constructor
    · intro selected
      exact absurd selected.1 other
    · rintro ⟨above, hit⟩
      have none : app.itemAt x y = none := by
        unfold itemAt
        rw [if_pos (by omega)]
      rw [none] at hit
      cases hit
  unfold ClickSelects clickCommand
  by_cases negative : x < 0 ∨ y < 0
  · rw [if_pos negative]
    exact outside _ Command.noConfusion (by omega)
  rw [if_neg negative]
  simp only
  by_cases inPath : y.toNat < pathH
  · rw [if_pos inPath]
    exact outside _ crumb (by omega)
  rw [if_neg inPath]
  by_cases inToolbar : y.toNat < listY
  · rw [if_pos inToolbar]
    exact outside _ toolbar (by omega)
  rw [if_neg inToolbar]
  by_cases inStatus : height - statusH ≤ y.toNat
  · rw [if_pos inStatus]
    exact outside _ Command.noConfusion (by omega)
  rw [if_neg inStatus]
  by_cases inSidebar : x.toNat < sidebarW
  · rw [if_pos inSidebar]
    exact outside _ sidebar (by omega)
  rw [if_neg inSidebar]
  by_cases inScrollbar : sidebarW + listW ≤ x.toNat
  · rw [if_pos inScrollbar]
    exact outside _ Command.noConfusion (by omega)
  rw [if_neg inScrollbar]
  have above : y < (height - statusH : Nat) := by omega
  have beside : ¬ (x < sidebarW ∨ (sidebarW + listW : Nat) ≤ x) := by omega
  rw [itemAt_eq]
  unfold itemIn cellAt
  rw [if_neg beside]
  cases app.view with
  | details =>
      simp only
      rw [clickDetails_selects]
      by_cases header : y < (listY + headerH : Nat)
      · rw [if_pos header]
        simp only [map_none, filter_none, reduceCtorEq, and_false, iff_false]
        omega
      · rw [if_neg header, map_some, filter_eq_some_iff, some_inj, wholeCols,
          decide_eq_true_eq]
        omega
  | grid =>
      simp only
      rw [if_neg (by omega), clickGrid, Command.selectItem.injEq, map_some,
        filter_eq_some_iff, some_inj, wholeCols, decide_eq_true_eq]
      constructor
      · rintro ⟨same, inside⟩
        exact ⟨above, same, inside⟩
      · rintro ⟨-, same, inside⟩
        exact ⟨same, inside⟩

theorem mem_takeWhile_of_pairwise {T : Type} {p : T → Bool} {list : List T}
    (down : list.Pairwise (fun early late => p late = true → p early = true)) {value : T} :
    value ∈ list.takeWhile p ↔ value ∈ list ∧ p value = true := by
  induction list with
  | nil => simp
  | cons first rest ih =>
      obtain ⟨ahead, others⟩ := List.pairwise_cons.mp down
      by_cases holds : p first = true
      · rw [List.takeWhile_cons_of_pos holds, List.mem_cons, List.mem_cons, ih others]
        constructor
        · rintro (rfl | ⟨mem, later⟩)
          · exact ⟨Or.inl rfl, holds⟩
          · exact ⟨Or.inr mem, later⟩
        · rintro ⟨rfl | mem, later⟩
          · exact Or.inl rfl
          · exact Or.inr ⟨mem, later⟩
      · rw [List.takeWhile_cons_of_neg holds]
        constructor
        · intro never
          cases never
        · rintro ⟨mem, later⟩
          rcases List.mem_cons.mp mem with rfl | inRest
          · exact absurd later holds
          · exact absurd (ahead value inRest later) holds

theorem detailsRow_contains {r : Nat} :
    (detailsRow r).Contains x y ↔ cellAt .details x y = some (r, 0) := by
  have left : sidebarW = 128 := rfl
  have across : listW = 562 := rfl
  have top : listY + headerH = 74 := rfl
  have tall : rowH = 18 := rfl
  unfold Rect.Contains detailsRow cellAt
  simp only [Nat.sub_sub, left, across, top, tall]
  by_cases beside : x < (128 : Nat) ∨ (128 + 562 : Nat) ≤ x
  · rw [if_pos beside]
    constructor
    · intro inside
      omega
    · intro never
      cases never
  · rw [if_neg beside]
    by_cases above : y < (74 : Nat)
    · rw [if_pos above]
      constructor
      · intro inside
        omega
      · intro never
        cases never
    · rw [if_neg above, some_inj, Prod.mk_inj]
      omega

theorem gridTile_contains {r c : Nat} (inside : c < gridCols) :
    (gridTile r c).Contains x y ↔ cellAt .grid x y = some (r, c) := by
  have left : sidebarW = 128 := rfl
  have across : listW = 562 := rfl
  have top : listY = 50 := rfl
  have wide : gridTileW = 88 := rfl
  have tall : gridTileH = 54 := rfl
  have cols : gridCols = 6 := rfl
  unfold Rect.Contains gridTile cellAt
  simp only [left, across, top, wide, tall]
  by_cases beside : x < (128 : Nat) ∨ (128 + 562 : Nat) ≤ x
  · rw [if_pos beside]
    constructor
    · intro within
      omega
    · intro never
      cases never
  · rw [if_neg beside]
    by_cases above : y < (50 : Nat)
    · rw [if_pos above]
      constructor
      · intro within
        omega
      · intro never
        cases never
    · rw [if_neg above, some_inj, Prod.mk_inj]
      omega

theorem isSome_iff (i : Nat) :
    app.entries[i]?.isSome = true ↔ i < app.entries.length := by
  simp

theorem mem_renderDetails {cell : Rect} :
    (item, cell) ∈ app.renderDetails ↔
      ∃ r, r < detailsVisibleRows ∧ item = r + app.scroll ∧ cell = detailsRow r ∧
        item < app.entries.length := by
  have rising : (List.range detailsVisibleRows).Pairwise (fun early late =>
      app.entries[late + app.scroll]?.isSome = true →
        app.entries[early + app.scroll]?.isSome = true) := by
    refine List.pairwise_lt_range.imp ?_
    intro early late before present
    rw [isSome_iff] at present ⊢
    omega
  unfold renderDetails
  rw [List.mem_map]
  constructor
  · rintro ⟨r, mem, same⟩
    obtain ⟨inRows, present⟩ := (mem_takeWhile_of_pairwise rising).mp mem
    rw [isSome_iff] at present
    cases same
    exact ⟨r, List.mem_range.mp inRows, rfl, rfl, present⟩
  · rintro ⟨r, inRows, rfl, rfl, present⟩
    refine ⟨r, (mem_takeWhile_of_pairwise rising).mpr ⟨List.mem_range.mpr inRows, ?_⟩, rfl⟩
    rw [isSome_iff]
    exact present

theorem tiles_rising :
    ((List.range gridVisibleRows).flatMap (fun r =>
      (List.range gridCols).map (fun c => (r, c)))).Pairwise (fun early late =>
        early.1 * gridCols + early.2 ≤ late.1 * gridCols + late.2) := by
  decide

theorem mem_tiles {r c : Nat} :
    (r, c) ∈ (List.range gridVisibleRows).flatMap (fun r =>
      (List.range gridCols).map (fun c => (r, c))) ↔ r < gridVisibleRows ∧ c < gridCols := by
  simp [List.mem_flatMap, List.mem_map, List.mem_range]

theorem mem_renderGrid {cell : Rect} :
    (item, cell) ∈ app.renderGrid ↔
      ∃ r c, r < gridVisibleRows ∧ c < gridCols ∧ item = app.scroll + r * gridCols + c ∧
        cell = gridTile r c ∧ item < app.entries.length := by
  have rising := tiles_rising.imp (S := fun early late =>
      app.entries[app.scroll + late.1 * gridCols + late.2]?.isSome = true →
        app.entries[app.scroll + early.1 * gridCols + early.2]?.isSome = true) (by
    intro early late before present
    rw [isSome_iff] at present ⊢
    omega)
  unfold renderGrid
  rw [List.mem_map]
  constructor
  · rintro ⟨⟨r, c⟩, mem, same⟩
    obtain ⟨inTiles, present⟩ := (mem_takeWhile_of_pairwise rising).mp mem
    rw [isSome_iff] at present
    obtain ⟨inRows, inCols⟩ := mem_tiles.mp inTiles
    cases same
    exact ⟨r, c, inRows, inCols, rfl, rfl, present⟩
  · rintro ⟨r, c, inRows, inCols, rfl, rfl, present⟩
    refine ⟨(r, c), (mem_takeWhile_of_pairwise rising).mpr ⟨mem_tiles.mpr ⟨inRows, inCols⟩, ?_⟩,
      rfl⟩
    rw [isSome_iff]
    exact present

theorem draws_iff :
    app.Draws item x y ↔
      ∃ r c, cellAt app.view x y = some (r, c) ∧
        (r < wholeRows app.view ∧ c < wholeCols app.view) ∧
          item = app.itemIn r c ∧ item < app.entries.length := by
  unfold Draws renderList itemIn
  cases app.view with
  | details =>
      constructor
      · rintro ⟨cell, drawn, contains⟩
        obtain ⟨r, inRows, place, rfl, present⟩ := mem_renderDetails.mp drawn
        refine ⟨r, 0, detailsRow_contains.mp contains, ⟨inRows, Nat.one_pos⟩, ?_, present⟩
        rw [place, wholeCols]
        omega
      · rintro ⟨r, c, found, ⟨inRows, inCols⟩, place, present⟩
        have first : c = 0 := Nat.lt_one_iff.mp inCols
        subst first
        refine ⟨detailsRow r, mem_renderDetails.mpr ⟨r, inRows, ?_, rfl, present⟩,
          detailsRow_contains.mpr found⟩
        rw [place, wholeCols]
        omega
  | grid =>
      constructor
      · rintro ⟨cell, drawn, contains⟩
        obtain ⟨r, c, inRows, inCols, place, rfl, present⟩ := mem_renderGrid.mp drawn
        exact ⟨r, c, (gridTile_contains inCols).mp contains, ⟨inRows, inCols⟩, place, present⟩
      · rintro ⟨r, c, found, ⟨inRows, inCols⟩, place, present⟩
        exact ⟨gridTile r c, mem_renderGrid.mpr ⟨r, c, inRows, inCols, place, rfl, present⟩,
          (gridTile_contains inCols).mpr found⟩

/-- Nothing is left to be hit beyond what is drawn at the point: it is in no cell of the table, or in
a whole row and column, or the list ends before that cell. -/
def NothingBeyond (app : FileExplorer) (x y : Int) : Prop :=
  ∀ r c, cellAt app.view x y = some (r, c) →
    (r < wholeRows app.view ∧ c < wholeCols app.view) ∨
      app.entries.length ≤ app.itemIn r c

theorem itemAt_agrees_iff :
    (∀ item, app.itemAt x y = some item ↔ app.Draws item x y) ↔
      app.NothingBeyond x y := by
  constructor
  · intro agrees r c found
    by_cases present : app.itemIn r c < app.entries.length
    · have drawn := (agrees _).mp (itemAt_eq_some.mpr ⟨r, c, found, rfl, present⟩)
      obtain ⟨r', c', same, whole, -, -⟩ := draws_iff.mp drawn
      rw [found] at same
      cases same
      exact Or.inl whole
    · exact Or.inr (Nat.le_of_not_lt present)
  · intro nothing item
    rw [itemAt_eq_some, draws_iff]
    constructor
    · rintro ⟨r, c, found, place, present⟩
      refine ⟨r, c, found, ?_, place, present⟩
      rcases nothing r c found with whole | ended
      · exact whole
      · omega
    · rintro ⟨r, c, found, -, place, present⟩
      exact ⟨r, c, found, place, present⟩

theorem draws_above_status (drawn : app.Draws item x y) : y < (height - statusH : Nat) := by
  have rows : detailsVisibleRows = 19 := rfl
  have gridRows : gridVisibleRows = 6 := rfl
  have top : listY = 50 := rfl
  have header : headerH = 24 := rfl
  have tall : rowH = 18 := rfl
  have tileTall : gridTileH = 54 := rfl
  have bottom : height - statusH = 424 := rfl
  obtain ⟨cell, mem, contains⟩ := drawn
  have below : y < (cell.y + cell.h : Nat) := contains.2.2.2
  unfold renderList at mem
  cases view : app.view with
  | details =>
      rw [view] at mem
      obtain ⟨r, inRows, -, rfl, -⟩ := mem_renderDetails.mp mem
      simp only [detailsRow, tall] at below
      omega
  | grid =>
      rw [view] at mem
      obtain ⟨r, c, inRows, -, -, rfl, -⟩ := mem_renderGrid.mp mem
      simp only [gridTile, tileTall] at below
      omega

/-- Hit testing finds what is drawn at a point exactly if nothing is left to be hit beyond it; a click
also does so on the status bar, where it selects nothing. -/
theorem hits_drawn_iff (app : FileExplorer) (glyphW : Nat) (x y : Int) :
    ((∀ item, app.itemAt x y = some item ↔ app.Draws item x y) ↔
        app.NothingBeyond x y) ∧
      ((∀ item, app.ClickSelects glyphW item x y ↔ app.Draws item x y) ↔
        (y < (height - statusH : Nat) → app.NothingBeyond x y)) := by
  refine ⟨itemAt_agrees_iff, ?_⟩
  by_cases above : y < (height - statusH : Nat)
  · have hits : ∀ item, app.ClickSelects glyphW item x y ↔ app.itemAt x y = some item := by
      intro item
      rw [clickSelects_iff]
      exact and_iff_right above
    simp only [hits]
    rw [itemAt_agrees_iff]
    exact ⟨fun nothing _ => nothing, fun nothing => nothing above⟩
  · refine ⟨fun _ inside => absurd inside above, fun _ item => ?_⟩
    rw [clickSelects_iff]
    constructor
    · intro selected
      exact absurd selected.1 above
    · intro drawn
      exact absurd (draws_above_status drawn) above

/-- Seven icons, six in a row: a click right of the first row selects the one that is drawn in the
second. -/
theorem strip_selects_next_row :
    ¬ ∀ (app : FileExplorer) (x y : Int) (item : Nat),
      (app.itemAt x y = some item ↔ app.Draws item x y) ∧
        (app.ClickSelects 8 item x y ↔ app.Draws item x y) := by
  intro claim
  let app : FileExplorer :=
    { path := ['/'], entries := (List.range 7).map (fun i => ⟨decimal i, false, 0⟩)
      selection := 0, scroll := 0, view := .grid, sort := .name, sortAsc := true
      lastClickItem := 0, lastClickTicks := 0, lastClickWasDouble := false
      pendingDelete := none, rename := none, status := [], sidebar := [] }
  obtain ⟨cell, drawn, contains⟩ := (claim app 660 60 6).1.mp (by decide)
  have tile : cell = gridTile 1 0 := by
    have only : ∀ other ∈ app.renderList, other.1 = 6 → other.2 = gridTile 1 0 := by decide
    exact only (6, cell) drawn rfl
  subst tile
  exact absurd contains (by decide)

end FileExplorer

end Explorer

end MachaOS
