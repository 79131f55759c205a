/-
Where a click on the Settings window agrees with the drawing: outside the margins of the navigation
items and the places in which swatches and toggles are drawn or hit.
-/

import MachaOS.Desktop.Controls

namespace MachaOS

namespace Desktop

open Notepad (Rect)

namespace SettingsApp

variable {control : Control} {x y : Int}

variable {app : SettingsApp} {display : Display}

theorem page_right {page : Page} (covers : Covers (pageAreas display page) control x y) :
    sidebarW.toNat ≤ x := by
  have wide : sidebarW.toNat = 140 := rfl
  cases page with
  | about =>
      obtain ⟨rect, never, -⟩ := covers
      cases never
  | system =>
      simp only [pageAreas, renderSystem] at covers
      rw [covers_append, covers_optionRows, covers_optionRows] at covers
      rcases covers with ⟨i, value, -, -, inside⟩ | ⟨i, value, -, -, inside⟩
      all_goals
        have left := inside.1
        unfold optionRect at left
        simp only at left
        omega
  | personalization =>
      simp only [pageAreas, personalizationAreas] at covers
      rw [covers_append, covers_pair, @covers_zipIdx control _ _ Text accentColors .accent
        (fun i => shifted (swatchRect (sectionTop display) i))] at covers
      rcases covers with ⟨i, value, -, -, inside⟩ | ⟨-, inside⟩ | ⟨-, inside⟩
      all_goals
        have left := inside.1
        unfold shifted at left
        simp only at left
        omega

theorem nav_found {v : UInt32} {page : Page} {i : Nat} :
    pages.zipIdx.find? (fun entry => navHit v entry.2) = some (page, i) ↔
      pages[i]? = some page ∧ navHit v i = true := by
  have three : pages.length = 3 := rfl
  apply find_zipIdx
  intro i j inside inside' hit hit'
  have first := (navHit_iff (by omega)).mp hit
  have second := (navHit_iff (by omega)).mp hit'
  omega

theorem activated_iff {x y : Int32} :
    app.activated display x y = some control ↔
      Covers (app.hitAreas display) control x.toInt y.toInt := by
  have wide : sidebarW.toNat = 140 := rfl
  have three : pages.length = 3 := rfl
  unfold activated hitAreas
  by_cases outside : x < 0 ∨ y < 0
  · rw [if_pos outside]
    constructor
    · intro never
      cases never
    · rintro ⟨rect, -, inside⟩
      have left := inside.1
      have top := inside.2.2.1
      rw [Int32.lt_iff_toInt_lt, Int32.lt_iff_toInt_lt, Int32.toInt_zero] at outside
      omega
  rw [if_neg outside, covers_append, @covers_zipIdx control _ _ Page pages .page navArea]
  have across := point_toNat (fun negative => outside (Or.inl negative))
  have down := point_toNat (fun negative => outside (Or.inr negative))
  by_cases beside : x.toUInt32 < sidebarW
  · have left := UInt32.lt_iff_toNat_lt.mp beside
    have noPage : ¬ Covers (pageAreas display app.page) control x.toInt y.toInt := by
      intro covers
      have right := page_right covers
      omega
    rw [if_pos beside, or_iff_left noPage, ← across, ← down]
    constructor
    · intro hit
      obtain ⟨⟨page, i⟩, found, rfl⟩ := Option.map_eq_some_iff.mp hit
      obtain ⟨present, isHit⟩ := nav_found.mp found
      have inside := (List.getElem?_eq_some_iff.mp present).1
      exact ⟨i, page, present, rfl, (navArea_iff (by omega)).mpr ⟨beside, isHit⟩⟩
    · rintro ⟨i, page, present, rfl, inside⟩
      have few := (List.getElem?_eq_some_iff.mp present).1
      rw [nav_found.mpr ⟨present, ((navArea_iff (by omega)).mp inside).2⟩]
      rfl
  · have noNav : ¬ ∃ i page, pages[i]? = some page ∧ control = .page page ∧
        (navArea i).Contains x.toInt y.toInt := by
      rintro ⟨i, page, present, -, inside⟩
      have few := (List.getElem?_eq_some_iff.mp present).1
      rw [← across, ← down] at inside
      exact beside ((navArea_iff (by omega)).mp inside).1
    have least : sidebarW ≤ x.toUInt32 := UInt32.not_lt.mp beside
    have right := UInt32.le_iff_toNat_le.mp least
    have place : x.toInt = (((x.toUInt32 - sidebarW).toNat + 140 : Nat) : Int) := by
      rw [UInt32.toNat_sub_of_le _ _ least, ← across]
      omega
    rw [if_neg beside, or_iff_right noNav, place, ← down]
    cases app.page with
    | system => exact systemControl_iff
    | personalization => exact personalizationControl_iff
    | about =>
        constructor
        · intro never
          cases never
        · rintro ⟨rect, never, -⟩
          cases never

/-- Nothing is drawn at the point that a click there misses, and nothing is hit that is drawn
elsewhere: it is not in the margins of a navigation item, which are hit but not drawn, and on the
Personalization page neither where a swatch or toggle is drawn nor as far to the right of it as the
sidebar is wide, where it is hit. -/
structure Clear (app : SettingsApp) (display : Display) (x y : Int) : Prop where
  margins : ∀ i, i < pages.length → (navArea i).Contains x y → (navRect i).Contains x y
  swatches : app.page = .personalization → ∀ i, i < accentColors.length →
    ¬ (swatchRect (sectionTop display) i).Contains x y ∧
      ¬ (shifted (swatchRect (sectionTop display) i)).Contains x y
  toggles : app.page = .personalization → ∀ row ∈ [wallpaperRow display, tasksRow display],
    ¬ (toggleRect (row + 2)).Contains x y ∧ ¬ (shifted (toggleRect (row + 2))).Contains x y

theorem pages_inj {i j : Nat} {page : Page} (first : pages[i]? = some page)
    (second : pages[j]? = some page) : i = j :=
  (List.getElem?_inj (List.getElem?_eq_some_iff.mp first).1 (by decide)).mp
    (first.trans second.symm)

theorem accents_inj {i j : Nat} {name : Text} (first : accentColors[i]? = some name)
    (second : accentColors[j]? = some name) : i = j :=
  (List.getElem?_inj (List.getElem?_eq_some_iff.mp first).1 (by decide)).mp
    (first.trans second.symm)

theorem covers_renderControls :
    Covers (app.renderControls display) control x y ↔
      (∃ i page, pages[i]? = some page ∧ control = .page page ∧ (navRect i).Contains x y) ∨
        Covers (renderPage display app.page) control x y := by
  unfold renderControls renderSidebar
  rw [covers_append, @covers_zipIdx control _ _ Page pages .page navRect]

theorem covers_hitAreas :
    Covers (app.hitAreas display) control x y ↔
      (∃ i page, pages[i]? = some page ∧ control = .page page ∧ (navArea i).Contains x y) ∨
        Covers (pageAreas display app.page) control x y := by
  unfold hitAreas
  rw [covers_append, @covers_zipIdx control _ _ Page pages .page navArea]

theorem covers_renderPersonalization :
    Covers (renderPersonalization display) control x y ↔
      (∃ i name, accentColors[i]? = some name ∧ control = .accent name ∧
        (swatchRect (sectionTop display) i).Contains x y) ∨
      (control = .wallpaper ∧ (toggleRect (wallpaperRow display + 2)).Contains x y) ∨
        (control = .bgTasks ∧ (toggleRect (tasksRow display + 2)).Contains x y) := by
  unfold renderPersonalization
  rw [covers_append, covers_pair, @covers_zipIdx control _ _ Text accentColors .accent
    (fun i => swatchRect (sectionTop display) i)]

theorem covers_personalizationAreas :
    Covers (personalizationAreas display) control x y ↔
      (∃ i name, accentColors[i]? = some name ∧ control = .accent name ∧
        (shifted (swatchRect (sectionTop display) i)).Contains x y) ∨
      (control = .wallpaper ∧ (shifted (toggleRect (wallpaperRow display + 2))).Contains x y) ∨
        (control = .bgTasks ∧ (shifted (toggleRect (tasksRow display + 2))).Contains x y) := by
  unfold personalizationAreas
  rw [covers_append, covers_pair, @covers_zipIdx control _ _ Text accentColors .accent
    (fun i => shifted (swatchRect (sectionTop display) i))]

theorem navRect_area {i : Nat} (inside : (navRect i).Contains x y) : (navArea i).Contains x y := by
  have wide : sidebarW.toNat = 140 := rfl
  unfold Rect.Contains navRect at inside
  unfold Rect.Contains navArea
  simp only [wide] at inside ⊢
  omega

theorem Clear.agrees (clear : app.Clear display x y) (control : Control) :
    Covers (app.hitAreas display) control x y ↔ Covers (app.renderControls display) control x y := by
  have nav : (∃ i page, pages[i]? = some page ∧ control = .page page ∧ (navArea i).Contains x y) ↔
      ∃ i page, pages[i]? = some page ∧ control = .page page ∧ (navRect i).Contains x y := by
    constructor
    · rintro ⟨i, page, present, same, inside⟩
      exact ⟨i, page, present, same,
        clear.margins i (List.getElem?_eq_some_iff.mp present).1 inside⟩
    · rintro ⟨i, page, present, same, inside⟩
      exact ⟨i, page, present, same, navRect_area inside⟩
  rw [covers_hitAreas, covers_renderControls, nav]
  cases page : app.page with
  | system | about => exact Iff.rfl
  | personalization =>
      simp only [pageAreas, renderPage]
      have swatches := clear.swatches page
      have wallpaper := clear.toggles page _ List.mem_cons_self
      have tasks := clear.toggles page _ (List.mem_cons_of_mem _ List.mem_cons_self)
      have noHit : ¬ Covers (personalizationAreas display) control x y := by
        rw [covers_personalizationAreas]
        rintro (⟨i, name, present, -, inside⟩ | ⟨-, inside⟩ | ⟨-, inside⟩)
        · exact (swatches i (List.getElem?_eq_some_iff.mp present).1).2 inside
        · exact wallpaper.2 inside
        · exact tasks.2 inside
      have noDrawn : ¬ Covers (renderPersonalization display) control x y := by
        rw [covers_renderPersonalization]
        rintro (⟨i, name, present, -, inside⟩ | ⟨-, inside⟩ | ⟨-, inside⟩)
        · exact (swatches i (List.getElem?_eq_some_iff.mp present).1).1 inside
        · exact wallpaper.1 inside
        · exact tasks.1 inside
      rw [or_iff_left noHit, or_iff_left noDrawn]

theorem shifted_apart {rect : Rect} (narrow : rect.w ≤ sidebarW.toNat) (drawn : rect.Contains x y) :
    ¬ (shifted rect).Contains x y := by
  intro hit
  have right := drawn.2.1
  have left := hit.1
  unfold shifted at left
  simp only at left
  omega

theorem neither_of_agrees {drawn hit : Prop} (agrees : hit ↔ drawn) (apart : drawn → ¬ hit) :
    ¬ drawn ∧ ¬ hit :=
  ⟨fun inside => apart inside (agrees.mpr inside),
    fun inside => apart (agrees.mp inside) inside⟩

theorem accent_place {i : Nat} {name : Text} (present : accentColors[i]? = some name)
    (place : Nat → Rect) {first second : Prop} :
    ((∃ j other, accentColors[j]? = some other ∧ Control.accent name = .accent other ∧
          (place j).Contains x y) ∨
        (Control.accent name = .wallpaper ∧ first) ∨ (Control.accent name = .bgTasks ∧ second)) ↔
      (place i).Contains x y := by
  constructor
  · rintro (⟨j, other, present', same, inside⟩ | ⟨never, -⟩ | ⟨never, -⟩)
    · cases same
      rw [accents_inj present present']
      exact inside
    · cases never
    · cases never
  · intro inside
    exact Or.inl ⟨i, name, present, rfl, inside⟩

theorem personalization_agrees (page : app.page = .personalization)
    (agrees : ∀ control,
      Covers (app.hitAreas display) control x y ↔ Covers (app.renderControls display) control x y)
    (other : ∀ page, control ≠ .page page) :
    Covers (personalizationAreas display) control x y ↔
      Covers (renderPersonalization display) control x y := by
  have whole := agrees control
  have noNav : ∀ place : Nat → Rect, ¬ ∃ i page, pages[i]? = some page ∧ control = .page page ∧
      (place i).Contains x y := by
    rintro place ⟨i, page, -, same, -⟩
    exact other page same
  rw [covers_hitAreas, covers_renderControls, page, or_iff_right (noNav navArea),
    or_iff_right (noNav navRect)] at whole
  exact whole

theorem clear_of_agrees (agrees : ∀ control,
    Covers (app.hitAreas display) control x y ↔ Covers (app.renderControls display) control x y) :
    app.Clear display x y := by
  have wide : sidebarW.toNat = 140 := rfl
  have size : swatch.toNat = 28 := rfl
  constructor
  · intro i few inside
    have present := List.getElem?_eq_getElem few
    have drawn := (agrees (.page pages[i])).mp
      (covers_hitAreas.mpr (Or.inl ⟨i, _, present, rfl, inside⟩))
    rcases covers_renderControls.mp drawn with ⟨j, page, present', same, inside'⟩ | inPage
    · cases same
      rw [pages_inj present present']
      exact inside'
    · exfalso
      cases page : app.page with
      | about =>
          rw [page] at inPage
          obtain ⟨rect, never, -⟩ := inPage
          cases never
      | system =>
          rw [page] at inPage
          simp only [renderPage, renderSystem] at inPage
          rw [covers_append, covers_optionRows, covers_optionRows] at inPage
          rcases inPage with ⟨j, size, -, never, -⟩ | ⟨j, percent, -, never, -⟩
          · cases never
          · cases never
      | personalization =>
          rw [page] at inPage
          rcases covers_renderPersonalization.mp inPage with
            ⟨j, name, -, never, -⟩ | ⟨never, -⟩ | ⟨never, -⟩
          · cases never
          · cases never
          · cases never
  · intro page i few
    have present := List.getElem?_eq_getElem few
    have control := @personalization_agrees (.accent accentColors[i]) x y app display page agrees
      (fun _ => Control.noConfusion)
    rw [covers_personalizationAreas, covers_renderPersonalization,
      accent_place present (fun i => shifted (swatchRect (sectionTop display) i)),
      accent_place present (fun i => swatchRect (sectionTop display) i)] at control
    exact neither_of_agrees control (shifted_apart (by change swatch.toNat ≤ _; omega))
  · intro page row mem
    have wallpaper := @personalization_agrees .wallpaper x y app display page agrees
      (fun _ => Control.noConfusion)
    have tasks := @personalization_agrees .bgTasks x y app display page agrees
      (fun _ => Control.noConfusion)
    rw [covers_personalizationAreas, covers_renderPersonalization] at wallpaper tasks
    simp only [reduceCtorEq, and_false, false_and, exists_false, false_or, or_false, true_and]
      at wallpaper tasks
    have narrow : ∀ y, (toggleRect y).w ≤ sidebarW.toNat := by
      intro y
      change 44 ≤ sidebarW.toNat
      omega
    rcases List.mem_cons.mp mem with rfl | last
    · exact neither_of_agrees wallpaper (shifted_apart (narrow _))
    · obtain rfl := List.mem_singleton.mp last
      exact neither_of_agrees tasks (shifted_apart (narrow _))

theorem windowHeight_toNat (display : Display) :
    display.windowHeight.toNat = 200 + 180 * display.fontScale.toNat := by
  have small := display.fontScale.toNat_lt
  have base : (380 : UInt32).toNat = 380 := rfl
  have more : (180 : UInt32).toNat = 180 := rfl
  have one : (1 : UInt32).toNat = 1 := rfl
  unfold Display.windowHeight
  rw [UInt32.toNat_add, UInt32.toNat_mul, UInt32.toNat_sub, UInt8.toNat_toUInt32, base, more, one]
  omega

theorem hit_beside {rect : Rect} (drawn : (control, rect) ∈ app.renderControls display) :
    0 < rect.h ∧ ∃ left : Nat, left < settingsWidth.toNat ∧
      Covers (app.hitAreas display) control left rect.y := by
  have wide : sidebarW.toNat = 140 := rfl
  have whole : settingsWidth.toNat = 480 := rfl
  have size : swatch.toNat = 28 := rfl
  have five : accentColors.length = 5 := rfl
  have tall := rowHeight_toNat display
  unfold renderControls renderSidebar at drawn
  rcases List.mem_append.mp drawn with inNav | inPage
  · obtain ⟨i, page, present, rfl, rfl⟩ := (@mem_places control Page pages .page navRect rect).mp inNav
    refine ⟨?_, 0, by omega, covers_hitAreas.mpr (Or.inl ⟨i, page, present, rfl, ?_⟩)⟩
    · change 0 < 36
      omega
    unfold Rect.Contains navArea navRect
    simp only [wide]
    omega
  · cases page : app.page with
    | about =>
        rw [page] at inPage
        cases inPage
    | system =>
        rw [page] at inPage
        have row : ∃ y, rect = optionRect display y := by
          rcases List.mem_append.mp inPage with inSizes | inFonts
          · obtain ⟨i, value, -, -, same⟩ := (@mem_places control _ _ .resolution
              (fun i => optionRect display (sectionTop display + i * display.rowHeight.toNat))
              rect).mp inSizes
            exact ⟨_, same⟩
          · obtain ⟨i, value, -, -, same⟩ := (@mem_places control _ _ .fontSize
              (fun i => optionRect display (fontTop display + i * display.rowHeight.toNat))
              rect).mp inFonts
            exact ⟨_, same⟩
        obtain ⟨y, rfl⟩ := row
        refine ⟨?_, 156, by omega, covers_hitAreas.mpr (Or.inr ?_)⟩
        · change 0 < display.rowHeight.toNat
          omega
        rw [page]
        refine ⟨_, inPage, ?_⟩
        unfold Rect.Contains optionRect
        simp only [wide, whole]
        omega
    | personalization =>
        rw [page] at inPage
        rcases List.mem_append.mp inPage with inSwatches | inToggles
        · obtain ⟨i, name, present, rfl, rfl⟩ := (@mem_places control Text accentColors .accent
            (fun i => swatchRect (sectionTop display) i) rect).mp inSwatches
          have few := (List.getElem?_eq_some_iff.mp present).1
          refine ⟨?_, 296 + i * 40, by omega, covers_hitAreas.mpr (Or.inr ?_)⟩
          · change 0 < swatch.toNat
            omega
          rw [page]
          refine covers_personalizationAreas.mpr (Or.inl ⟨i, name, present, rfl, ?_⟩)
          unfold Rect.Contains shifted swatchRect
          simp only [wide, size]
          omega
        · have short : ∀ y, 0 < (toggleRect y).h := fun y => Nat.zero_lt_succ _
          have inside : ∀ y, (shifted (toggleRect y)).Contains (420 : Nat) y := by
            intro y
            unfold Rect.Contains shifted toggleRect
            simp only [wide, whole]
            omega
          rcases List.mem_cons.mp inToggles with same | last
          · cases same
            refine ⟨short _, 420, by omega, covers_hitAreas.mpr (Or.inr ?_)⟩
            rw [page]
            exact covers_personalizationAreas.mpr (Or.inr (Or.inl ⟨rfl, inside _⟩))
          · cases List.mem_singleton.mp last
            refine ⟨short _, 420, by omega, covers_hitAreas.mpr (Or.inr ?_)⟩
            rw [page]
            exact covers_personalizationAreas.mpr (Or.inr (Or.inr ⟨rfl, inside _⟩))

/-- A click activates exactly the control drawn at the point where the point is clear; every control
drawn inside the window can be activated in it; and `handle_click` does what the activated control
asks, or nothing. -/
theorem clicks_hit_drawn_iff (app : SettingsApp) (display : Display) :
    (∀ x y : Int32,
      (∀ control, app.activated display x y = some control ↔ app.Draws display control x y) ↔
        app.Clear display x.toInt y.toInt) ∧
    (∀ control rect, (control, rect) ∈ app.renderControls display →
      rect.x + rect.w ≤ settingsWidth.toNat → rect.y + rect.h ≤ display.windowHeight.toNat →
      ∃ x y : Int32, (0 ≤ x.toInt ∧ x.toInt < settingsWidth.toNat) ∧
        (0 ≤ y.toInt ∧ y.toInt < display.windowHeight.toNat) ∧
          app.activated display x y = some control) ∧
    ∀ {δ : Type} (save : Settings → δ → δ) (x y : Int32) (disk : δ),
      app.handleClick save display x y disk =
        (app.activated display x y).elim (.none, app, disk) (app.activate save display disk) := by
  refine ⟨?_, ?_, fun save x y disk => app.handleClick_eq save display x y disk⟩
  · intro x y
    constructor
    · intro agrees
      apply clear_of_agrees
      intro control
      rw [← activated_iff]
      exact agrees control
    · intro clear control
      rw [activated_iff]
      exact clear.agrees control
  · intro control rect drawn across down
    obtain ⟨positive, left, narrow, hit⟩ := hit_beside drawn
    have whole : settingsWidth.toNat = 480 := rfl
    have tall := windowHeight_toNat display
    have scale := display.fontScale.toNat_lt
    have column : (Int32.ofNat left).toInt = left := Int32.toInt_ofNat_of_lt (by omega)
    have height : (Int32.ofNat rect.y).toInt = rect.y := Int32.toInt_ofNat_of_lt (by omega)
    refine ⟨Int32.ofNat left, Int32.ofNat rect.y, by omega, by omega, ?_⟩
    rw [activated_iff, column, height]
    exact hit

/-- The first swatch is drawn at (160, 50) and hit 140 pixels to the right; what is hit at (300, 50) is
drawn as the fourth one. -/
theorem swatch_misplaced :
    ¬ ∀ (app : SettingsApp) (display : Display) (x y : Int32) (control : Control),
      app.activated display x y = some control ↔ app.Draws display control x y := by
  intro claim
  let settings : Settings :=
    { accentColor := "green".toList, wallpaper := true, showBgTasks := true, resolution := none
      fontScalePercent := 100 }
  have hit := (claim { settings, page := .personalization }
    { fontScale := 1, physical := (1920, 1080) } 160 50 (.accent "blue".toList)).mpr
    ⟨swatchRect 42 0, by decide, by decide⟩
  exact absurd hit (by decide)

end SettingsApp

end Desktop

end MachaOS
