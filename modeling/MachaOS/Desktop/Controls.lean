/-
The controls of the Settings window: where rendering draws each one, and which one a click activates.

A click is tested against areas relative to the page, what is drawn has window coordinates.  For the
navigation items, the swatches and the toggles the two do not say the same.
-/

import MachaOS.Desktop.Settings
import MachaOS.Notepad.Editor

namespace MachaOS

namespace Desktop

open List
open Notepad (Rect)

inductive Control where
  | page (page : Page)
  | resolution (size : UInt32 × UInt32)
  | fontSize (percent : UInt16)
  | accent (name : Text)
  | wallpaper
  | bgTasks
deriving DecidableEq, Repr

def pages : List Page := [.system, .personalization, .about]

namespace SettingsApp

variable {δ : Type}

def systemControl (display : Display) (x y : UInt32) : Option Control :=
  let top := display.contentTop + display.labelHeight
  let resolutions := display.supportedResolutions
  match resolutions.zipIdx.find? (fun option => optionHit display top x y option.2) with
  | some (size, _) => some (.resolution size)
  | none =>
      let below := top + UInt32.ofNat resolutions.length * display.rowHeight + 10
      (fontOptions.zipIdx.find? (fun option =>
        optionHit display (below + display.labelHeight) x y option.2)).map (fun option =>
          .fontSize option.1)

def personalizationControl (display : Display) (x y : UInt32) : Option Control :=
  let top := display.contentTop + display.labelHeight
  match accentColors.zipIdx.find? (fun color => swatchHit x y top color.2) with
  | some (name, _) => some (.accent name)
  | none =>
      let wallpaperRow := top + swatch + 18
      if toggleHit x y wallpaperRow then some .wallpaper
      else if toggleHit x y (wallpaperRow + 24 + 14) then some .bgTasks
      else none

def activated (app : SettingsApp) (display : Display) (x y : Int32) : Option Control :=
  if x < 0 ∨ y < 0 then none
  else if x.toUInt32 < sidebarW then
    (pages.zipIdx.find? (fun entry => navHit y.toUInt32 entry.2)).map (fun entry => .page entry.1)
  else
    let cx := x.toUInt32 - sidebarW
    match app.page with
    | .system => systemControl display cx y.toUInt32
    | .personalization => personalizationControl display cx y.toUInt32
    | .about => none

def activate (app : SettingsApp) (save : Settings → δ → δ) (display : Display) (disk : δ) :
    Control → SettingsChange × SettingsApp × δ
  | .page page => (.none, { app with page }, { app with page }.render save disk)
  | .resolution size =>
      let next := chosenResolution display size
      if app.settings.resolution ≠ next then
        (.resolution size.1 size.2,
          app.choose save { app.settings with resolution := next } disk)
      else (.none, app, disk)
  | .fontSize percent =>
      if app.settings.fontScalePercent ≠ percent then
        (.fontScale (percent / 100).toUInt8,
          app.choose save { app.settings with fontScalePercent := percent } disk)
      else (.none, app, disk)
  | .accent name =>
      if app.settings.accentColor ≠ name then
        (.reload, app.choose save { app.settings with accentColor := name } disk)
      else (.none, app, disk)
  | .wallpaper =>
      (.reload, app.choose save { app.settings with wallpaper := !app.settings.wallpaper } disk)
  | .bgTasks =>
      (.reload, app.choose save { app.settings with showBgTasks := !app.settings.showBgTasks } disk)

section

variable (app : SettingsApp) (save : Settings → δ → δ) (display : Display)
include app save display

theorem handleSystemClick_eq (x y : UInt32) (disk : δ) :
    app.handleSystemClick save display x y disk =
      (systemControl display x y).elim (.none, app, disk) (app.activate save display disk) := by
  unfold handleSystemClick systemControl
  simp only
  generalize display.supportedResolutions.zipIdx.find? _ = row
  cases row with
  | some option => rfl
  | none =>
      simp only
      unfold handleFontClick
      generalize fontOptions.zipIdx.find? _ = font
      cases font with
      | some option => rfl
      | none => rfl

theorem handlePersonalizationClick_eq (x y : UInt32) (disk : δ) :
    app.handlePersonalizationClick save display x y disk =
      (personalizationControl display x y).elim (.none, app, disk) (app.activate save display disk) := by
  unfold handlePersonalizationClick personalizationControl
  simp only
  generalize accentColors.zipIdx.find? _ = color
  cases color with
  | some color => rfl
  | none =>
      simp only
      split
      · rfl
      · split <;> rfl

theorem handleClick_eq (x y : Int32) (disk : δ) :
    app.handleClick save display x y disk =
      (app.activated display x y).elim (.none, app, disk) (app.activate save display disk) := by
  unfold handleClick activated
  by_cases outside : x < 0 ∨ y < 0
  · rw [if_pos outside, if_pos outside]
    rfl
  rw [if_neg outside, if_neg outside]
  by_cases beside : x.toUInt32 < sidebarW
  · rw [if_pos beside, if_pos beside]
    unfold pages
    generalize List.find? (fun entry : Page × Nat => navHit y.toUInt32 entry.2) _ = found
    cases found with
    | none => rfl
    | some entry => rfl
  rw [if_neg beside, if_neg beside]
  cases app.page with
  | about => rfl
  | system => exact app.handleSystemClick_eq save display _ _ disk
  | personalization => exact app.handlePersonalizationClick_eq save display _ _ disk

end

def navRect (i : Nat) : Rect :=
  { x := 8, y := 12 + i * (36 + 8), w := sidebarW.toNat - 16, h := 36 }

/-- A row of `render_option_row_text`. -/
def optionRect (display : Display) (y : Nat) : Rect :=
  { x := sidebarW.toNat + 16, y, w := settingsWidth.toNat - sidebarW.toNat - 32
    h := display.rowHeight.toNat }

def swatchRect (y i : Nat) : Rect :=
  { x := sidebarW.toNat + 16 + i * (swatch.toNat + 12), y, w := swatch.toNat, h := swatch.toNat }

/-- The track of `draw_toggle`. -/
def toggleRect (y : Nat) : Rect :=
  { x := settingsWidth.toNat - sidebarW.toNat - 16 - 44, y, w := 44, h := 22 }

def renderSidebar : List (Control × Rect) :=
  pages.zipIdx.map (fun entry => (.page entry.1, navRect entry.2))

def sectionTop (display : Display) : Nat := display.contentTop.toNat + display.labelHeight.toNat

def optionRows {T : Type} (display : Display) (top : Nat) (kind : T → Control)
    (options : List T) : List (Control × Rect) :=
  options.zipIdx.map (fun option =>
    (kind option.1, optionRect display (top + option.2 * display.rowHeight.toNat)))

def fontTop (display : Display) : Nat :=
  sectionTop display + display.supportedResolutions.length * display.rowHeight.toNat + 10 +
    display.labelHeight.toNat

def renderSystem (display : Display) : List (Control × Rect) :=
  optionRows display (sectionTop display) .resolution display.supportedResolutions ++
    optionRows display (fontTop display) .fontSize fontOptions

def wallpaperRow (display : Display) : Nat := sectionTop display + swatch.toNat + 18

def tasksRow (display : Display) : Nat := wallpaperRow display + 24 + 14

def renderPersonalization (display : Display) : List (Control × Rect) :=
  accentColors.zipIdx.map (fun color =>
      (.accent color.1, swatchRect (sectionTop display) color.2)) ++
    [(.wallpaper, toggleRect (wallpaperRow display + 2)),
      (.bgTasks, toggleRect (tasksRow display + 2))]

def renderPage (display : Display) : Page → List (Control × Rect)
  | .system => renderSystem display
  | .personalization => renderPersonalization display
  | .about => []

def renderControls (app : SettingsApp) (display : Display) : List (Control × Rect) :=
  renderSidebar ++ renderPage display app.page

def Draws (app : SettingsApp) (display : Display) (control : Control) (x y : Int32) : Prop :=
  ∃ rect, (control, rect) ∈ app.renderControls display ∧ rect.Contains x.toInt y.toInt

def shifted (rect : Rect) : Rect := { rect with x := rect.x + sidebarW.toNat }

def navArea (i : Nat) : Rect := { x := 0, y := 12 + i * (36 + 8), w := sidebarW.toNat, h := 36 }

def personalizationAreas (display : Display) : List (Control × Rect) :=
  accentColors.zipIdx.map (fun color =>
      (.accent color.1, shifted (swatchRect (sectionTop display) color.2))) ++
    [(.wallpaper, shifted (toggleRect (wallpaperRow display + 2))),
      (.bgTasks, shifted (toggleRect (tasksRow display + 2)))]

def pageAreas (display : Display) : Page → List (Control × Rect)
  | .system => renderSystem display
  | .personalization => personalizationAreas display
  | .about => []

def hitAreas (app : SettingsApp) (display : Display) : List (Control × Rect) :=
  pages.zipIdx.map (fun entry => (.page entry.1, navArea entry.2)) ++ pageAreas display app.page

def Covers (list : List (Control × Rect)) (control : Control) (x y : Int) : Prop :=
  ∃ rect, (control, rect) ∈ list ∧ rect.Contains x y

variable {control : Control} {x y : Int}

theorem covers_append {first second : List (Control × Rect)} :
    Covers (first ++ second) control x y ↔ Covers first control x y ∨ Covers second control x y := by
  unfold Covers
  constructor
  · rintro ⟨rect, mem, inside⟩
    rcases mem_append.mp mem with inFirst | inSecond
    · exact Or.inl ⟨rect, inFirst, inside⟩
    · exact Or.inr ⟨rect, inSecond, inside⟩
  · rintro (⟨rect, mem, inside⟩ | ⟨rect, mem, inside⟩)
    · exact ⟨rect, mem_append_left _ mem, inside⟩
    · exact ⟨rect, mem_append_right _ mem, inside⟩

theorem mem_places {T : Type} {list : List T} {kind : T → Control} {place : Nat → Rect}
    {rect : Rect} :
    (control, rect) ∈ list.zipIdx.map (fun entry => (kind entry.1, place entry.2)) ↔
      ∃ i value, list[i]? = some value ∧ control = kind value ∧ rect = place i := by
  constructor
  · intro mem
    obtain ⟨⟨value, i⟩, entry, same⟩ := mem_map.mp mem
    cases same
    exact ⟨i, value, mk_mem_zipIdx_iff_getElem?.mp entry, rfl, rfl⟩
  · rintro ⟨i, value, found, rfl, rfl⟩
    exact mem_map.mpr ⟨(value, i), mk_mem_zipIdx_iff_getElem?.mpr found, rfl⟩

theorem covers_zipIdx {T : Type} {list : List T} {kind : T → Control} {place : Nat → Rect} :
    Covers (list.zipIdx.map (fun entry => (kind entry.1, place entry.2))) control x y ↔
      ∃ i value, list[i]? = some value ∧ control = kind value ∧ (place i).Contains x y := by
  unfold Covers
  constructor
  · rintro ⟨rect, mem, inside⟩
    obtain ⟨i, value, found, same, rfl⟩ := mem_places.mp mem
    exact ⟨i, value, found, same, inside⟩
  · rintro ⟨i, value, found, same, inside⟩
    exact ⟨place i, mem_places.mpr ⟨i, value, found, same, rfl⟩, inside⟩

theorem find_zipIdx {T : Type} {list : List T} {hit : Nat → Bool}
    (apart : ∀ i j, i < list.length → j < list.length → hit i = true → hit j = true → i = j)
    {value : T} {i : Nat} :
    list.zipIdx.find? (fun entry => hit entry.2) = some (value, i) ↔
      list[i]? = some value ∧ hit i = true := by
  constructor
  · intro found
    have isHit := List.find?_some found
    exact ⟨mk_mem_zipIdx_iff_getElem?.mp (mem_of_find?_eq_some found), isHit⟩
  · rintro ⟨present, isHit⟩
    have mem : (value, i) ∈ list.zipIdx := mk_mem_zipIdx_iff_getElem?.mpr present
    cases found : list.zipIdx.find? (fun entry => hit entry.2) with
    | none =>
        have missed := List.find?_eq_none.mp found (value, i) mem
        exact absurd isHit missed
    | some other =>
        obtain ⟨value', j⟩ := other
        have present' := mk_mem_zipIdx_iff_getElem?.mp (mem_of_find?_eq_some found)
        have inside := (List.getElem?_eq_some_iff.mp present).1
        have inside' := (List.getElem?_eq_some_iff.mp present').1
        have isHit' := List.find?_some found
        obtain rfl := apart i j inside inside' isHit isHit'
        rw [present] at present'
        cases present'
        rfl

section Tests

variable (display : Display)

theorem glyph_toNat : display.glyphH.toUInt32.toNat = 8 * display.fontScale.toNat := by
  have small := display.fontScale.toNat_lt
  unfold Display.glyphH
  rw [UInt64.toNat_toUInt32, UInt64.toNat_mul, UInt8.toNat_toUInt64,
    show (8 : UInt64).toNat = 8 from rfl]
  omega

theorem contentTop_toNat : display.contentTop.toNat = 20 + 8 * display.fontScale.toNat := by
  have small := display.fontScale.toNat_lt
  unfold Display.contentTop
  rw [UInt32.toNat_add, UInt32.toNat_add, glyph_toNat]
  have twelve : (12 : UInt32).toNat = 12 := rfl
  have eight : (8 : UInt32).toNat = 8 := rfl
  omega

theorem labelHeight_toNat : display.labelHeight.toNat = 8 * display.fontScale.toNat + 6 := by
  have small := display.fontScale.toNat_lt
  unfold Display.labelHeight
  rw [UInt32.toNat_add, glyph_toNat]
  have six : (6 : UInt32).toNat = 6 := rfl
  omega

theorem rowHeight_toNat : display.rowHeight.toNat = 8 * display.fontScale.toNat + 12 := by
  have small := display.fontScale.toNat_lt
  unfold Display.rowHeight
  rw [UInt32.toNat_add, glyph_toNat]
  have twelve : (12 : UInt32).toNat = 12 := rfl
  omega

theorem toNat_row {top step : UInt32} {i : Nat} (fits : top.toNat + i * step.toNat < 2 ^ 32)
    (few : i < 2 ^ 32) : (top + UInt32.ofNat i * step).toNat = top.toNat + i * step.toNat := by
  rw [UInt32.toNat_add, UInt32.toNat_mul, UInt32.toNat_ofNat_of_lt' few,
    Nat.mod_eq_of_lt (by omega : i * step.toNat < 2 ^ 32), Nat.mod_eq_of_lt fits]

theorem toNat_add_small {value step : UInt32} (fits : value.toNat + step.toNat < 2 ^ 32) :
    (value + step).toNat = value.toNat + step.toNat := by
  rw [UInt32.toNat_add, Nat.mod_eq_of_lt fits]

variable {display} {u v top : UInt32} {i : Nat}

theorem navHit_iff (few : i < 3) :
    navHit v i = true ↔ 12 + i * 44 ≤ v.toNat ∧ v.toNat < 12 + i * 44 + 36 := by
  have start : (12 + UInt32.ofNat i * (36 + 8) : UInt32).toNat = 12 + i * 44 := by
    have step : (36 + 8 : UInt32).toNat = 44 := rfl
    have first : (12 : UInt32).toNat = 12 := rfl
    rw [toNat_row (by rw [first, step]; omega) (by omega), step, first]
  have finish : (12 + UInt32.ofNat i * (36 + 8) + 36 : UInt32).toNat = 12 + i * 44 + 36 := by
    have tall : (36 : UInt32).toNat = 36 := rfl
    rw [toNat_add_small (by omega), start, tall]
  unfold navHit
  rw [decide_eq_true_eq, UInt32.le_iff_toNat_le, UInt32.lt_iff_toNat_lt, start, finish]

theorem optionHit_iff (few : i < 2 ^ 32)
    (fits : top.toNat + i * display.rowHeight.toNat + display.rowHeight.toNat < 2 ^ 32) :
    optionHit display top u v i = true ↔
      top.toNat + i * display.rowHeight.toNat ≤ v.toNat ∧
        v.toNat < top.toNat + i * display.rowHeight.toNat + display.rowHeight.toNat ∧
          16 ≤ u.toNat ∧ u.toNat < 324 := by
  have start := toNat_row (show top.toNat + i * display.rowHeight.toNat < 2 ^ 32 by omega) few
  have finish : (top + UInt32.ofNat i * display.rowHeight + display.rowHeight).toNat =
      top.toNat + i * display.rowHeight.toNat + display.rowHeight.toNat := by
    rw [toNat_add_small (by omega), start]
  have right : (settingsWidth - sidebarW - 16 : UInt32).toNat = 324 := rfl
  have left : (16 : UInt32).toNat = 16 := rfl
  unfold optionHit
  simp only
  rw [decide_eq_true_eq, UInt32.le_iff_toNat_le, UInt32.lt_iff_toNat_lt, UInt32.le_iff_toNat_le,
    UInt32.lt_iff_toNat_lt, start, finish, right, left]

theorem swatchHit_iff (few : i < 5) (fits : top.toNat + 28 < 2 ^ 32) :
    swatchHit u v top i = true ↔
      156 + i * 40 ≤ u.toNat ∧ u.toNat < 156 + i * 40 + 28 ∧ top.toNat ≤ v.toNat ∧
        v.toNat < top.toNat + 28 := by
  have size : swatch.toNat = 28 := rfl
  have start : (sidebarW + 16 + UInt32.ofNat i * (swatch + 12) : UInt32).toNat = 156 + i * 40 := by
    have step : (swatch + 12 : UInt32).toNat = 40 := rfl
    have first : (sidebarW + 16 : UInt32).toNat = 156 := rfl
    rw [toNat_row (by rw [first, step]; omega) (by omega), step, first]
  have finish : (sidebarW + 16 + UInt32.ofNat i * (swatch + 12) + swatch : UInt32).toNat =
      156 + i * 40 + 28 := by
    rw [toNat_add_small (by omega), start, size]
  have below : (top + swatch).toNat = top.toNat + 28 := by
    rw [toNat_add_small (by omega), size]
  unfold swatchHit
  simp only
  rw [decide_eq_true_eq, UInt32.le_iff_toNat_le, UInt32.lt_iff_toNat_lt, UInt32.le_iff_toNat_le,
    UInt32.lt_iff_toNat_lt, start, finish, below]

theorem toggleHit_iff (fits : top.toNat + 24 < 2 ^ 32) :
    toggleHit u v top = true ↔
      top.toNat + 2 ≤ v.toNat ∧ v.toNat < top.toNat + 2 + 22 ∧ 280 ≤ u.toNat ∧ u.toNat < 324 := by
  have two : (2 : UInt32).toNat = 2 := rfl
  have tall : (22 : UInt32).toNat = 22 := rfl
  have start : (top + 2).toNat = top.toNat + 2 := by
    rw [toNat_add_small (by omega), two]
  have finish : (top + 2 + 22).toNat = top.toNat + 2 + 22 := by
    rw [toNat_add_small (by omega), start, tall]
  have left : (settingsWidth - sidebarW - 16 - 44 : UInt32).toNat = 280 := rfl
  have right : (settingsWidth - sidebarW - 16 - 44 + 44 : UInt32).toNat = 324 := rfl
  unfold toggleHit
  simp only
  rw [decide_eq_true_eq, UInt32.le_iff_toNat_le, UInt32.lt_iff_toNat_lt, UInt32.le_iff_toNat_le,
    UInt32.lt_iff_toNat_lt, start, finish, left, right]

end Tests

theorem point_toNat {x : Int32} (positive : ¬ x < 0) : (x.toUInt32.toNat : Int) = x.toInt := by
  have least : 0 ≤ x := Int32.not_lt.mp positive
  have bound := Int32.le_iff_toInt_le.mp least
  rw [Int32.toNat_toUInt32_of_le least]
  exact Int.toNat_of_nonneg bound

section Areas

variable {display : Display} {u v : UInt32}

theorem navArea_iff {i : Nat} (few : i < 3) :
    (navArea i).Contains u.toNat v.toNat ↔ u < sidebarW ∧ navHit v i = true := by
  have wide : sidebarW.toNat = 140 := rfl
  unfold Rect.Contains navArea
  rw [navHit_iff few, UInt32.lt_iff_toNat_lt, wide]
  simp only
  omega

variable {top : UInt32}

theorem optionRect_iff {y i : Nat} (place : y = top.toNat + i * display.rowHeight.toNat)
    (few : i < 2 ^ 32) (fits : y + display.rowHeight.toNat < 2 ^ 32) :
    (optionRect display y).Contains ((u.toNat + 140 : Nat) : Int) v.toNat ↔
      optionHit display top u v i = true := by
  have wide : sidebarW.toNat = 140 := rfl
  have whole : settingsWidth.toNat = 480 := rfl
  subst place
  unfold Rect.Contains optionRect
  rw [optionHit_iff few fits, wide, whole]
  simp only
  omega

theorem swatchArea_iff {y i : Nat} (place : y = top.toNat) (few : i < 5) (fits : y + 28 < 2 ^ 32) :
    (shifted (swatchRect y i)).Contains ((u.toNat + 140 : Nat) : Int) v.toNat ↔
      swatchHit u v top i = true := by
  have wide : sidebarW.toNat = 140 := rfl
  have size : swatch.toNat = 28 := rfl
  subst place
  unfold Rect.Contains shifted swatchRect
  rw [swatchHit_iff few fits, wide, size]
  simp only
  omega

theorem toggleArea_iff {row : UInt32} {y : Nat} (place : y = row.toNat + 2)
    (fits : y + 22 < 2 ^ 32) :
    (shifted (toggleRect y)).Contains ((u.toNat + 140 : Nat) : Int) v.toNat ↔
      toggleHit u v row = true := by
  have wide : sidebarW.toNat = 140 := rfl
  have whole : settingsWidth.toNat = 480 := rfl
  subst place
  unfold Rect.Contains shifted toggleRect
  rw [toggleHit_iff (by omega), wide, whole]
  simp only
  omega

theorem same_row {h w i j : Nat} (low : i * h ≤ w) (high : w < i * h + h) (low' : j * h ≤ w)
    (high' : w < j * h + h) : i = j := by
  rcases Nat.lt_trichotomy i j with less | same | more
  · have next := Nat.mul_le_mul_right h (Nat.succ_le_of_lt less)
    rw [Nat.succ_mul] at next
    omega
  · exact same
  · have next := Nat.mul_le_mul_right h (Nat.succ_le_of_lt more)
    rw [Nat.succ_mul] at next
    omega

theorem options_apart {count : Nat} (fits : top.toNat + count * display.rowHeight.toNat < 2 ^ 32)
    (few : count ≤ 2 ^ 32) (i j : Nat) (inside : i < count) (inside' : j < count)
    (hit : optionHit display top u v i = true) (hit' : optionHit display top u v j = true) :
    i = j := by
  have bound : ∀ k, k < count →
      k * display.rowHeight.toNat + display.rowHeight.toNat ≤ count * display.rowHeight.toNat := by
    intro k less
    have next := Nat.mul_le_mul_right display.rowHeight.toNat (Nat.succ_le_of_lt less)
    rwa [Nat.succ_mul] at next
  have first := bound i inside
  have second := bound j inside'
  obtain ⟨low, high, -⟩ := (optionHit_iff (by omega) (by omega)).mp hit
  obtain ⟨low', high', -⟩ := (optionHit_iff (by omega) (by omega)).mp hit'
  exact same_row (h := display.rowHeight.toNat) (w := v.toNat - top.toNat) (by omega) (by omega) (by omega) (by omega)

theorem option_found {T : Type} {options : List T} {top : UInt32}
    (fits : top.toNat + options.length * display.rowHeight.toNat < 2 ^ 32)
    (few : options.length ≤ 2 ^ 32) {value : T} {i : Nat} :
    options.zipIdx.find? (fun option => optionHit display top u v option.2) = some (value, i) ↔
      options[i]? = some value ∧
        (optionRect display (top.toNat + i * display.rowHeight.toNat)).Contains
          ((u.toNat + 140 : Nat) : Int) v.toNat := by
  rw [@find_zipIdx T options (optionHit display top u v) (options_apart fits few)]
  apply and_congr_right
  intro present
  have inside := (List.getElem?_eq_some_iff.mp present).1
  have next := Nat.mul_le_mul_right display.rowHeight.toNat (Nat.succ_le_of_lt inside)
  rw [Nat.succ_mul] at next
  exact (optionRect_iff rfl (by omega) (by omega)).symm

theorem covers_optionRows {T : Type} {options : List T} {kind : T → Control} {top : Nat} {x y : Int} :
    Covers (optionRows display top kind options) control x y ↔
      ∃ i value, options[i]? = some value ∧ control = kind value ∧
        (optionRect display (top + i * display.rowHeight.toNat)).Contains x y :=
  @covers_zipIdx control x y T options kind
    (fun i => optionRect display (top + i * display.rowHeight.toNat))

theorem system_tops (display : Display) :
    (display.contentTop + display.labelHeight).toNat = sectionTop display ∧
      (display.contentTop + display.labelHeight +
        UInt32.ofNat display.supportedResolutions.length * display.rowHeight + 10 +
          display.labelHeight).toNat = fontTop display ∧
      fontTop display + 2 * display.rowHeight.toNat < 2 ^ 20 ∧
      display.supportedResolutions.length ≤ 6 := by
  have scale := display.fontScale.toNat_lt
  have tall := rowHeight_toNat display
  have label := labelHeight_toNat display
  have content := contentTop_toNat display
  have ten : (10 : UInt32).toNat = 10 := rfl
  have many : display.supportedResolutions.length ≤ 6 :=
    (length_filter_le _ _).trans (by decide)
  have block : display.supportedResolutions.length * display.rowHeight.toNat ≤
      6 * display.rowHeight.toNat := Nat.mul_le_mul_right _ many
  have top : (display.contentTop + display.labelHeight).toNat = sectionTop display :=
    toNat_add_small (by omega)
  have bound : sectionTop display ≤ 5000 := by
    unfold sectionTop
    omega
  have rows := @toNat_row (display.contentTop + display.labelHeight) display.rowHeight
    display.supportedResolutions.length (by omega) (by omega)
  have gap := @toNat_add_small (display.contentTop + display.labelHeight +
    UInt32.ofNat display.supportedResolutions.length * display.rowHeight) 10 (by omega)
  unfold fontTop
  refine ⟨top, ?_, by omega, many⟩
  rw [toNat_add_small (by omega)]
  omega

theorem systemControl_iff : systemControl display u v = some control ↔
      Covers (renderSystem display) control ((u.toNat + 140 : Nat) : Int) v.toNat := by
  obtain ⟨top, below, bound, many⟩ := system_tops display
  have length : fontOptions.length = 2 := rfl
  have gap : sectionTop display +
      display.supportedResolutions.length * display.rowHeight.toNat < fontTop display := by
    unfold fontTop
    omega
  have fonts : fontOptions.length * display.rowHeight.toNat = 2 * display.rowHeight.toNat := rfl
  have sizeFound := @option_found display u v _ display.supportedResolutions
    (display.contentTop + display.labelHeight) (by omega) (by omega)
  have fontFound := @option_found display u v _ fontOptions
    (display.contentTop + display.labelHeight +
      UInt32.ofNat display.supportedResolutions.length * display.rowHeight + 10 +
        display.labelHeight) (by omega) (by omega)
  rw [top] at sizeFound
  rw [below] at fontFound
  have separate : ∀ {i j : Nat} {size : UInt32 × UInt32},
      display.supportedResolutions[i]? = some size →
      (optionRect display (sectionTop display + i * display.rowHeight.toNat)).Contains
        ((u.toNat + 140 : Nat) : Int) v.toNat →
      (optionRect display (fontTop display + j * display.rowHeight.toNat)).Contains
        ((u.toNat + 140 : Nat) : Int) v.toNat → False := by
    intro i j size present inSizes inFonts
    have inside := (List.getElem?_eq_some_iff.mp present).1
    have next := Nat.mul_le_mul_right display.rowHeight.toNat (Nat.succ_le_of_lt inside)
    rw [Nat.succ_mul] at next
    have above := inSizes.2.2.2
    have under := inFonts.2.2.1
    unfold optionRect at above under
    simp only at above under
    omega
  unfold systemControl renderSystem
  rw [covers_append, covers_optionRows, covers_optionRows]
  simp only
  cases found : display.supportedResolutions.zipIdx.find? (fun option =>
      optionHit display (display.contentTop + display.labelHeight) u v option.2) with
  | some option =>
      obtain ⟨size, i⟩ := option
      obtain ⟨present, inside⟩ := sizeFound.mp found
      simp only
      constructor
      · intro same
        cases same
        exact Or.inl ⟨i, size, present, rfl, inside⟩
      · rintro (⟨j, other, present', rfl, inside'⟩ | ⟨j, percent, present', rfl, inside'⟩)
        · have again := sizeFound.mpr ⟨present', inside'⟩
          rw [found] at again
          cases again
          rfl
        · exact (separate present inside inside').elim
  | none =>
      simp only
      constructor
      · intro hit
        obtain ⟨⟨percent, j⟩, hitFont, rfl⟩ := Option.map_eq_some_iff.mp hit
        obtain ⟨present, inside⟩ := fontFound.mp hitFont
        exact Or.inr ⟨j, percent, present, rfl, inside⟩
      · rintro (⟨j, size, present, rfl, inside⟩ | ⟨j, percent, present, rfl, inside⟩)
        · have missed := sizeFound.mpr ⟨present, inside⟩
          rw [found] at missed
          cases missed
        · rw [fontFound.mpr ⟨present, inside⟩]
          rfl

theorem covers_pair {first second : Control} {rect rect' : Rect} {x y : Int} :
    Covers [(first, rect), (second, rect')] control x y ↔
      (control = first ∧ rect.Contains x y) ∨ (control = second ∧ rect'.Contains x y) := by
  unfold Covers
  constructor
  · rintro ⟨place, mem, inside⟩
    rcases mem_cons.mp mem with same | later
    · cases same
      exact Or.inl ⟨rfl, inside⟩
    · cases mem_singleton.mp later
      exact Or.inr ⟨rfl, inside⟩
  · rintro (⟨rfl, inside⟩ | ⟨rfl, inside⟩)
    · exact ⟨rect, mem_cons_self, inside⟩
    · exact ⟨rect', mem_cons_of_mem _ mem_cons_self, inside⟩

theorem swatch_found {top : UInt32} (fits : top.toNat + 28 < 2 ^ 32) {name : Text} {i : Nat} :
    accentColors.zipIdx.find? (fun color => swatchHit u v top color.2) = some (name, i) ↔
      accentColors[i]? = some name ∧
        (shifted (swatchRect top.toNat i)).Contains ((u.toNat + 140 : Nat) : Int) v.toNat := by
  have five : accentColors.length = 5 := rfl
  have apart : ∀ i j, i < accentColors.length → j < accentColors.length →
      swatchHit u v top i = true → swatchHit u v top j = true → i = j := by
    intro i j inside inside' hit hit'
    obtain ⟨low, high, -⟩ := (swatchHit_iff (by omega) fits).mp hit
    obtain ⟨low', high', -⟩ := (swatchHit_iff (by omega) fits).mp hit'
    omega
  rw [@find_zipIdx Text accentColors (swatchHit u v top) apart]
  apply and_congr_right
  intro present
  have inside := (List.getElem?_eq_some_iff.mp present).1
  exact (swatchArea_iff rfl (by omega) fits).symm

theorem personalization_tops (display : Display) :
    (display.contentTop + display.labelHeight).toNat = sectionTop display ∧
      (display.contentTop + display.labelHeight + swatch + 18).toNat = wallpaperRow display ∧
      (display.contentTop + display.labelHeight + swatch + 18 + 24 + 14).toNat =
        tasksRow display ∧ sectionTop display < 2 ^ 20 := by
  have scale := display.fontScale.toNat_lt
  have label := labelHeight_toNat display
  have content := contentTop_toNat display
  have size : swatch.toNat = 28 := rfl
  have gap : (18 : UInt32).toNat = 18 := rfl
  have row : (24 : UInt32).toNat = 24 := rfl
  have space : (14 : UInt32).toNat = 14 := rfl
  have top : (display.contentTop + display.labelHeight).toNat = sectionTop display :=
    toNat_add_small (by omega)
  have bound : sectionTop display < 2 ^ 20 := by
    unfold sectionTop
    omega
  have swatches := @toNat_add_small (display.contentTop + display.labelHeight) swatch (by omega)
  have wallpaper := @toNat_add_small (display.contentTop + display.labelHeight + swatch) 18
    (by omega)
  have under := @toNat_add_small (display.contentTop + display.labelHeight + swatch + 18) 24
    (by omega)
  have tasks := @toNat_add_small (display.contentTop + display.labelHeight + swatch + 18 + 24) 14
    (by omega)
  unfold tasksRow wallpaperRow
  exact ⟨top, by omega, by omega, bound⟩

theorem personalizationControl_iff : personalizationControl display u v = some control ↔
      Covers (personalizationAreas display) control ((u.toNat + 140 : Nat) : Int) v.toNat := by
  obtain ⟨top, wallpaper, tasks, bound⟩ := personalization_tops display
  have size : swatch.toNat = 28 := rfl
  have first : wallpaperRow display = sectionTop display + swatch.toNat + 18 := rfl
  have second : tasksRow display = wallpaperRow display + 24 + 14 := rfl
  have found := @swatch_found u v (display.contentTop + display.labelHeight) (by omega)
  rw [top] at found
  have firstToggle := @toggleArea_iff u v (display.contentTop + display.labelHeight + swatch + 18)
    (wallpaperRow display + 2) (by omega) (by omega)
  have secondToggle := @toggleArea_iff u v
    (display.contentTop + display.labelHeight + swatch + 18 + 24 + 14)
    (tasksRow display + 2) (by omega) (by omega)
  have above : ∀ {i y : Nat},
      (shifted (swatchRect (sectionTop display) i)).Contains ((u.toNat + 140 : Nat) : Int) v.toNat →
      (shifted (toggleRect y)).Contains ((u.toNat + 140 : Nat) : Int) v.toNat →
      y < sectionTop display + 28 := by
    intro i y inSwatch inToggle
    have ends := inSwatch.2.2.2
    have begins := inToggle.2.2.1
    unfold shifted swatchRect at ends
    unfold shifted toggleRect at begins
    simp only at ends begins
    omega
  have apart : ∀ {y y' : Nat}, y + 22 ≤ y' →
      (shifted (toggleRect y)).Contains ((u.toNat + 140 : Nat) : Int) v.toNat →
      ¬ (shifted (toggleRect y')).Contains ((u.toNat + 140 : Nat) : Int) v.toNat := by
    intro y y' far inFirst inSecond
    have ends := inFirst.2.2.2
    have begins := inSecond.2.2.1
    unfold shifted toggleRect at ends begins
    simp only at ends begins
    omega
  unfold personalizationControl personalizationAreas
  rw [covers_append, covers_pair, @covers_zipIdx control _ _ Text accentColors .accent
    (fun i => shifted (swatchRect (sectionTop display) i))]
  simp only
  cases searched : accentColors.zipIdx.find? (fun color =>
      swatchHit u v (display.contentTop + display.labelHeight) color.2) with
  | some color =>
      obtain ⟨name, i⟩ := color
      obtain ⟨present, inside⟩ := found.mp searched
      simp only
      constructor
      · intro same
        cases same
        exact Or.inl ⟨i, name, present, rfl, inside⟩
      · rintro (⟨j, other, present', rfl, inside'⟩ | ⟨rfl, inside'⟩ | ⟨rfl, inside'⟩)
        · have again := found.mpr ⟨present', inside'⟩
          rw [searched] at again
          cases again
          rfl
        · have never := above inside inside'
          omega
        · have never := above inside inside'
          omega
  | none =>
      have noSwatch : ¬ ∃ i name, accentColors[i]? = some name ∧ control = .accent name ∧
          (shifted (swatchRect (sectionTop display) i)).Contains ((u.toNat + 140 : Nat) : Int)
            v.toNat := by
        rintro ⟨j, other, present, -, inside⟩
        have missed := found.mpr ⟨present, inside⟩
        rw [searched] at missed
        cases missed
      rw [or_iff_right noSwatch, firstToggle, secondToggle]
      simp only
      by_cases hit : toggleHit u v (display.contentTop + display.labelHeight + swatch + 18) = true
      · have missed : ¬ toggleHit u v
            (display.contentTop + display.labelHeight + swatch + 18 + 24 + 14) = true := by
          intro again
          exact apart (by omega) (firstToggle.mpr hit) (secondToggle.mpr again)
        rw [if_pos hit, Option.some_inj]
        constructor
        · intro same
          exact Or.inl ⟨same.symm, hit⟩
        · rintro (⟨same, -⟩ | ⟨-, again⟩)
          · exact same.symm
          · exact absurd again missed
      · rw [if_neg hit]
        by_cases hit' : toggleHit u v
            (display.contentTop + display.labelHeight + swatch + 18 + 24 + 14) = true
        · rw [if_pos hit', Option.some_inj]
          constructor
          · intro same
            exact Or.inr ⟨same.symm, hit'⟩
          · rintro (⟨-, again⟩ | ⟨same, -⟩)
            · exact absurd again hit
            · exact same.symm
        · rw [if_neg hit']
          constructor
          · intro never
            cases never
          · rintro (⟨-, again⟩ | ⟨-, again⟩)
            · exact absurd again hit
            · exact absurd again hit'

end Areas

end SettingsApp

end Desktop

end MachaOS
