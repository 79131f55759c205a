/-
The system settings and the Settings app: which change of the desktop a click in it asks for.

What the pages paint is left out, and so is the text of the settings file: `save` stands for writing
it.  A click that changes a setting saves twice, once by itself and once while rendering.
-/

import Mathlib.Data.BitVec

namespace MachaOS

namespace Desktop

abbrev Text := List Char

def settingsWidth : UInt32 := 480
def sidebarW : UInt32 := 140

def accentColors : List Text :=
  ["blue", "purple", "green", "orange", "red"].map String.toList

def supportedSizes : List (UInt32 × UInt32) :=
  [(1920, 1080), (1600, 900), (1366, 768), (1280, 720), (1024, 576), (800, 600)]

inductive Page where
  | system
  | personalization
  | about
deriving DecidableEq, Repr

structure Settings where
  accentColor : Text
  wallpaper : Bool
  showBgTasks : Bool
  /-- `none` is the resolution of the physical framebuffer. -/
  resolution : Option (UInt32 × UInt32)
  fontScalePercent : UInt16
deriving DecidableEq, Repr

inductive SettingsChange where
  | none
  | reload
  | resolution (w h : UInt32)
  | fontScale (scale : UInt8)
deriving DecidableEq, Repr

structure Display where
  fontScale : UInt8
  physical : UInt32 × UInt32
deriving DecidableEq, Repr

namespace Display

def glyphW (display : Display) : UInt64 := 8 * display.fontScale.toUInt64
def glyphH (display : Display) : UInt64 := 8 * display.fontScale.toUInt64

def windowHeight (display : Display) : UInt32 :=
  380 + (display.fontScale.toUInt32 - 1) * 180

def rowHeight (display : Display) : UInt32 := display.glyphH.toUInt32 + 12

def labelHeight (display : Display) : UInt32 := display.glyphH.toUInt32 + 6

def contentTop (display : Display) : UInt32 := 12 + display.glyphH.toUInt32 + 8

def supportedResolutions (display : Display) : List (UInt32 × UInt32) :=
  supportedSizes.filter (fun size => size.1 ≤ display.physical.1 ∧ size.2 ≤ display.physical.2)

end Display

structure SettingsApp where
  settings : Settings
  page : Page
deriving DecidableEq, Repr

namespace SettingsApp

variable {δ : Type}

def render (app : SettingsApp) (save : Settings → δ → δ) (disk : δ) : δ := save app.settings disk

def choose (app : SettingsApp) (save : Settings → δ → δ) (settings : Settings) (disk : δ) :
    SettingsApp × δ :=
  let chosen := { app with settings }
  (chosen, chosen.render save (save settings disk))

def optionHit (display : Display) (top : UInt32) (x y : UInt32) (i : Nat) : Bool :=
  let ry := top + UInt32.ofNat i * display.rowHeight
  decide (ry ≤ y ∧ y < ry + display.rowHeight ∧ 16 ≤ x ∧ x < settingsWidth - sidebarW - 16)

def fontOptions : List UInt16 := [100, 200]

def handleFontClick (app : SettingsApp) (save : Settings → δ → δ) (display : Display)
    (top x y : UInt32) (disk : δ) : SettingsChange × SettingsApp × δ :=
  match fontOptions.zipIdx.find? (fun option => optionHit display top x y option.2) with
  | some (percent, _) =>
      if app.settings.fontScalePercent ≠ percent then
        (.fontScale (percent / 100).toUInt8,
          app.choose save { app.settings with fontScalePercent := percent } disk)
      else (.none, app, disk)
  | none => (.none, app, disk)

def chosenResolution (display : Display) (size : UInt32 × UInt32) : Option (UInt32 × UInt32) :=
  if size = display.physical then none else some size

def handleSystemClick (app : SettingsApp) (save : Settings → δ → δ) (display : Display)
    (x y : UInt32) (disk : δ) : SettingsChange × SettingsApp × δ :=
  let top := display.contentTop + display.labelHeight
  let resolutions := display.supportedResolutions
  match resolutions.zipIdx.find? (fun option => optionHit display top x y option.2) with
  | some ((w, h), _) =>
      let next := chosenResolution display (w, h)
      if app.settings.resolution ≠ next then
        (.resolution w h, app.choose save { app.settings with resolution := next } disk)
      else (.none, app, disk)
  | none =>
      let below := top + UInt32.ofNat resolutions.length * display.rowHeight + 10
      app.handleFontClick save display (below + display.labelHeight) x y disk

def swatch : UInt32 := 28

def swatchHit (x y top : UInt32) (i : Nat) : Bool :=
  let sx := sidebarW + 16 + UInt32.ofNat i * (swatch + 12)
  decide (sx ≤ x ∧ x < sx + swatch ∧ top ≤ y ∧ y < top + swatch)

def toggleHit (x y rowY : UInt32) : Bool :=
  let toggleX := settingsWidth - sidebarW - 16 - 44
  let toggleY := rowY + 2
  decide (toggleY ≤ y ∧ y < toggleY + 22 ∧ toggleX ≤ x ∧ x < toggleX + 44)

def handlePersonalizationClick (app : SettingsApp) (save : Settings → δ → δ) (display : Display)
    (x y : UInt32) (disk : δ) : SettingsChange × SettingsApp × δ :=
  let top := display.contentTop + display.labelHeight
  match accentColors.zipIdx.find? (fun color => swatchHit x y top color.2) with
  | some (name, _) =>
      if app.settings.accentColor ≠ name then
        (.reload, app.choose save { app.settings with accentColor := name } disk)
      else (.none, app, disk)
  | none =>
      let wallpaperRow := top + swatch + 18
      if toggleHit x y wallpaperRow then
        (.reload, app.choose save { app.settings with wallpaper := !app.settings.wallpaper } disk)
      else if toggleHit x y (wallpaperRow + 24 + 14) then
        (.reload, app.choose save { app.settings with showBgTasks := !app.settings.showBgTasks } disk)
      else (.none, app, disk)

def navHit (y : UInt32) (i : Nat) : Bool :=
  let ny := 12 + UInt32.ofNat i * (36 + 8)
  decide (ny ≤ y ∧ y < ny + 36)

def handleClick (app : SettingsApp) (save : Settings → δ → δ) (display : Display) (x y : Int32)
    (disk : δ) : SettingsChange × SettingsApp × δ :=
  if x < 0 ∨ y < 0 then (.none, app, disk)
  else if x.toUInt32 < sidebarW then
    match [Page.system, .personalization, .about].zipIdx.find?
        (fun entry => navHit y.toUInt32 entry.2) with
    | some (page, _) => (.none, { app with page }, { app with page }.render save disk)
    | none => (.none, app, disk)
  else
    let cx := x.toUInt32 - sidebarW
    match app.page with
    | .system => app.handleSystemClick save display cx y.toUInt32 disk
    | .personalization => app.handlePersonalizationClick save display cx y.toUInt32 disk
    | .about => (.none, app, disk)

variable {app : SettingsApp} {save : Settings → δ → δ} {display : Display} {disk : δ}

theorem handleFontClick_noResolution {top x y w h : UInt32} :
    (app.handleFontClick save display top x y disk).1 ≠ .resolution w h := by
  unfold handleFontClick
  split
  · split <;> exact SettingsChange.noConfusion
  · exact SettingsChange.noConfusion

theorem handlePersonalizationClick_noResolution {x y w h : UInt32} :
    (app.handlePersonalizationClick save display x y disk).1 ≠ .resolution w h := by
  unfold handlePersonalizationClick
  simp only
  split
  · split <;> exact SettingsChange.noConfusion
  · repeat (first | split | exact SettingsChange.noConfusion)

theorem handleSystemClick_resolution {x y w h : UInt32}
    (asked : (app.handleSystemClick save display x y disk).1 = .resolution w h) :
    (w, h) ∈ display.supportedResolutions := by
  unfold handleSystemClick at asked
  simp only at asked
  split at asked
  · rename_i found
    split at asked
    · have offered := List.fst_mem_of_mem_zipIdx (List.mem_of_find?_eq_some found)
      obtain ⟨rfl, rfl⟩ := SettingsChange.resolution.inj asked
      exact offered
    · exact SettingsChange.noConfusion asked
  · exact absurd asked handleFontClick_noResolution

theorem handleClick_resolution {x y : Int32} {w h : UInt32}
    (asked : (app.handleClick save display x y disk).1 = .resolution w h) :
    (w, h) ∈ display.supportedResolutions := by
  unfold handleClick at asked
  split at asked
  · exact SettingsChange.noConfusion asked
  · split at asked
    · split at asked <;> exact SettingsChange.noConfusion asked
    · simp only at asked
      split at asked
      · exact handleSystemClick_resolution asked
      · exact absurd asked handlePersonalizationClick_noResolution
      · exact SettingsChange.noConfusion asked

end SettingsApp

end Desktop

end MachaOS
