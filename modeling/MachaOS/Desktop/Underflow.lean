/-
The arithmetic of the layout in the states of a run: it goes wrong on screens smaller than the bars or
the dragging of a window needs, when a wallpaper is scaled to one column, and where drawing does.
-/

import MachaOS.Desktop.Edges

namespace MachaOS

namespace Desktop

open Arithmetic (Moment)
open Operation

namespace Arithmetic

theorem one_le_toNat {n : UInt32} (nonzero : n ≠ 0) : 1 ≤ n.toNat := by
  have zero : (0 : UInt32).toNat = 0 := rfl
  rw [ne_eq, ← UInt32.toNat_inj] at nonzero
  omega

theorem lerp_defined : AllDefined lerp := by decide

variable {srcW srcH dstW dstH : UInt32}

theorem mapped_defined {src dst : UInt32} (source : src ≠ 0) (target : dst ≠ 0) :
    AllDefined (mapped src dst) ↔ dst ≠ 1 := by
  have zero : (0 : UInt32).toNat = 0 := rfl
  have one : (1 : UInt32).toNat = 1 := rfl
  unfold mapped
  rw [ne_eq, ← UInt32.toNat_inj] at source target ⊢
  simp only [allDefined_cons, allDefined_nil, and_true, defined_sub,
    defined_div]
  omega

theorem scaleRow_defined (sourceW : srcW ≠ 0) (sourceH : srcH ≠ 0) (targetW : dstW ≠ 0)
    (targetH : dstH ≠ 0) {dy : Nat} :
    AllDefined (scaleRow srcW srcH dstW dstH dy) ↔
      dstH ≠ 1 ∧ (dy = 0 ∨ sourceRows srcH dstH dy ≠ sourceRows srcH dstH (dy - 1) → dstW ≠ 1) := by
  have first : 0 ∈ List.range dstW.toNat := List.mem_range.mpr (one_le_toNat targetW)
  unfold scaleRow
  simp only [allDefined_append, allDefined_cons, allDefined_nil, and_true,
    allDefined_ite, allDefined_flatMap, defined_sub, lerp_defined,
    mapped_defined sourceW targetW, mapped_defined sourceH targetH, one_le_toNat sourceW,
    one_le_toNat sourceH,
    implies_true]
  constructor
  · rintro ⟨rows, columns⟩
    exact ⟨rows, fun changed => columns changed 0 first⟩
  · rintro ⟨rows, columns⟩
    exact ⟨rows, fun changed _ _ => columns changed⟩

theorem scalePixels_defined (sourceW : srcW ≠ 0) (sourceH : srcH ≠ 0) (targetW : dstW ≠ 0)
    (targetH : dstH ≠ 0) :
    AllDefined (scalePixels srcW srcH dstW dstH) ↔ dstW ≠ 1 ∧ dstH ≠ 1 := by
  have first : 0 ∈ List.range dstH.toNat := List.mem_range.mpr (one_le_toNat targetH)
  unfold scalePixels
  rw [if_neg (by simp only [sourceW, sourceH, targetW, targetH, or_self, not_false_eq_true]),
    allDefined_flatMap]
  constructor
  · intro all
    obtain ⟨rows, columns⟩ :=
      (scaleRow_defined sourceW sourceH targetW targetH).mp (all 0 first)
    exact ⟨columns (Or.inl rfl), rows⟩
  · rintro ⟨columns, rows⟩ dy _
    exact (scaleRow_defined sourceW sourceH targetW targetH).mpr ⟨rows, fun _ => columns⟩

variable {Contents Disk : Type} {apps : Apps Contents Disk}

def ScalesWallpaper (apps : Apps Contents Disk) (physical : UInt32 × UInt32) (disk : Disk)
    (w h : UInt32) : Prop :=
  ∃ bytes, apps.readFile wallpaperPath disk = some bytes ∧ bytes.length ≠ pictureLength w h ∧
    bytes.length = pictureLength physical.1 physical.2

theorem loadWallpaper_defined {physical : UInt32 × UInt32} {disk : Disk} {w h : UInt32}
    (framebuffer : physical.1 ≠ 0 ∧ physical.2 ≠ 0) (screen : w ≠ 0 ∧ h ≠ 0) :
    AllDefined (loadWallpaper apps physical disk w h) ↔
      (ScalesWallpaper apps physical disk w h → w ≠ 1 ∧ h ≠ 1) := by
  unfold loadWallpaper
  cases read : apps.readFile wallpaperPath disk with
  | none =>
      refine ⟨fun _ scales => ?_, fun _ => allDefined_nil⟩
      obtain ⟨bytes, found, -⟩ := scales
      rw [read] at found
      cases found
  | some bytes =>
      simp only
      rw [allDefined_ite, allDefined_ite,
        scalePixels_defined framebuffer.1 framebuffer.2 screen.1 screen.2]
      constructor
      · rintro ⟨-, scaled⟩ ⟨found, same, other, whole⟩
        rw [read] at same
        cases same
        exact (scaled other).1 whole
      · intro scaled
        exact ⟨fun _ => allDefined_nil,
          fun other => ⟨fun whole => scaled ⟨bytes, read, other, whole⟩,
            fun _ => allDefined_nil⟩⟩

end Arithmetic

namespace WindowManager

variable {Contents Disk : Type} {apps : Apps Contents Disk} {wm next : WindowManager Contents Disk}

theorem glyph_pos {display : Display} (scaled : display.fontScale ≠ 0) :
    display.glyphW.toUInt32.toNat ≠ 0 ∧ display.glyphH.toUInt32.toNat ≠ 0 := by
  have top := display.fontScale.toNat_lt
  have zero : (0 : UInt8).toNat = 0 := rfl
  have eight : (8 : UInt64).toNat = 8 := rfl
  have nonzero : display.fontScale.toNat ≠ 0 := fun same => scaled (UInt8.toNat_inj.mp same)
  unfold Display.glyphW Display.glyphH
  rw [UInt64.toNat_toUInt32, UInt64.toNat_mul, UInt8.toNat_toUInt64, eight]
  omega

theorem maxContentCells_defined (scaled : wm.display.fontScale ≠ 0) :
    AllDefined (Arithmetic.maxContentCells wm) ↔ 80 ≤ wm.screenH.toNat := by
  obtain ⟨w, h⟩ := glyph_pos scaled
  have below := wm.screenH.toNat_lt
  have taskbar : taskbarHeight.toNat = 48 := rfl
  have title : titleBarHeight.toNat = 32 := rfl
  unfold Arithmetic.maxContentCells
  simp only [allDefined_cons, allDefined_nil, and_true, minus_defined,
    quotient_defined, UInt32.toNat_sub, taskbar, title, ne_eq, w, h, not_false_eq_true]
  omega

theorem maxContentCells_unmoved (same : Unmoved wm next) :
    Arithmetic.maxContentCells next = Arithmetic.maxContentCells wm := by
  unfold Arithmetic.maxContentCells
  rw [same.screenH, same.display]

theorem avoidOverlap_defined (rounds : Nat) (position : Int32 × Int32) :
    AllDefined (Arithmetic.avoidOverlap wm rounds position) := by
  induction rounds generalizing position with
  | zero => exact allDefined_nil
  | succ rounds ih =>
      unfold Arithmetic.avoidOverlap
      split
      · exact allDefined_cons.mpr
          ⟨between_max _, allDefined_cons.mpr ⟨between_max _, ih _⟩⟩
      · exact allDefined_nil

section Opening

variable (cells : AllDefined (Arithmetic.maxContentCells wm))

include cells

theorem fitConsoleCells_defined {maxCols maxRows : UInt64} (wide : minCols.toNat ≤ maxCols.toNat)
    (tall : minRows.toNat ≤ maxRows.toNat) :
    AllDefined (Arithmetic.fitConsoleCells wm maxCols maxRows) := by
  obtain ⟨-, -, w, h, -⟩ : _ ∧ _ ∧ _ ∧ _ ∧ True := by
    simpa only [Arithmetic.maxContentCells, allDefined_cons, allDefined_nil]
      using cells
  unfold Arithmetic.fitConsoleCells
  simp only [allDefined_cons, allDefined_nil, and_true, defined_clamp]
  exact ⟨w, h, by omega, by omega⟩

theorem maximizeWindow_defined (index : Nat) : AllDefined (Arithmetic.maximizeWindow wm index) := by
  unfold Arithmetic.maximizeWindow
  split
  · exact allDefined_nil
  · split
    · exact allDefined_nil
    · exact cells

theorem restoreSize_defined (index : Nat) (remembered : RememberedWindow) :
    AllDefined (Arithmetic.restoreSize apps wm index remembered) := by
  unfold Arithmetic.restoreSize
  split
  · apply maximizeWindow_defined
    exact cells
  · exact allDefined_nil

theorem spawnWindow_defined (title : Text) (resizable : Bool) (appId : Option AppId)
    (kind : AppKind Contents) :
    AllDefined (Arithmetic.spawnWindow apps wm title resizable appId kind) := by
  unfold Arithmetic.spawnWindow
  rw [allDefined_append]
  refine ⟨avoidOverlap_defined _ _, ?_⟩
  split
  · exact allDefined_nil
  · simp only
    apply restoreSize_defined
    rw [maxContentCells_unmoved (unmoved_placeWindow _ _)]
    exact cells

theorem launchElfInTerminal_defined (path : Text) :
    AllDefined (Arithmetic.launchElfInTerminal apps wm path) :=
  allDefined_append.mpr
    ⟨fitConsoleCells_defined cells (by decide) (by decide), spawnWindow_defined cells _ _ _ _⟩

theorem dispatchAction_defined (action : FsAction) :
    AllDefined (Arithmetic.dispatchAction apps wm action) := by
  cases action with
  | runTerminal path => exact launchElfInTerminal_defined cells path
  | openText path content =>
      change AllDefined (Arithmetic.openNotepadWith apps wm path content)
      unfold Arithmetic.openNotepadWith
      simp only
      rw [allDefined_append]
      exact ⟨fitConsoleCells_defined cells (by decide) (by decide), spawnWindow_defined cells _ _ _ _⟩
  | openImage path content =>
      change AllDefined (Arithmetic.openImageViewerWith apps wm path content)
      unfold Arithmetic.openImageViewerWith
      exact spawnWindow_defined cells _ _ _ _

theorem spawnBuiltin_defined (id : AppId) : AllDefined (Arithmetic.spawnBuiltin apps wm id) := by
  refine allDefined_append.mpr ⟨?_, spawnWindow_defined cells _ _ _ _⟩
  cases id with
  | terminal | notepad => exact fitConsoleCells_defined cells (by decide) (by decide)
  | _ => exact allDefined_nil

theorem runLauncherAction_defined (action : LauncherAction) :
    AllDefined (Arithmetic.runLauncherAction apps wm action) := by
  cases action with
  | runElf path => exact launchElfInTerminal_defined cells path
  | settings =>
      apply @spawnBuiltin_defined _ _ _ { wm with disk := apps.saveSettings wm.settings wm.disk }
      exact cells
  | _ => exact spawnBuiltin_defined cells _

end Opening

theorem applyResolution_defined (scaled : wm.display.fontScale ≠ 0)
    (framebuffer : wm.display.physical.1 ≠ 0 ∧ wm.display.physical.2 ≠ 0) {w h : UInt32}
    (roomy : Roomy w h) : AllDefined (Arithmetic.applyResolution apps wm w h) := by
  have wide := roomy.wide
  have tall := roomy.tall
  have smallW := roomy.smallW
  have smallH := roomy.smallH
  have one : (1 : UInt32).toNat = 1 := rfl
  have edgeW : (w.toInt32 - 1).toUInt32 = w - 1 := rfl
  have edgeH : (h.toInt32 - 1).toUInt32 = h - 1 := rfl
  have sized : AllDefined (Arithmetic.maxContentCells { wm with screenW := w, screenH := h }) := by
    refine (maxContentCells_defined ?_).mpr ?_
    · exact scaled
    · change 80 ≤ h.toNat
      omega
  have wallpaper : AllDefined
      (Arithmetic.loadWallpaper apps wm.display.physical wm.disk w h) := by
    have nonzero : w ≠ 0 ∧ h ≠ 0 := by
      constructor
      · rintro rfl
        exact absurd wide (by decide)
      · rintro rfl
        exact absurd tall (by decide)
    refine (Arithmetic.loadWallpaper_defined framebuffer nonzero).mpr fun _ => ?_
    constructor
    · rintro rfl
      exact absurd wide (by decide)
    · rintro rfl
      exact absurd tall (by decide)
  unfold Arithmetic.applyResolution
  split
  · exact allDefined_nil
  · simp only [allDefined_append, allDefined_cons, allDefined_nil,
      and_true, allDefined_flatMap, allDefined_ite, between_zero, edgeW, edgeH]
    refine ⟨⟨⟨wallpaper, ?_, ?_⟩, sized⟩, ?_⟩
    · rw [below_edge (by omega)]
      omega
    · rw [below_edge (by omega)]
      omega
    · intro win _
      exact ⟨fun _ => ⟨between_zero.mp (between_max _), between_zero.mp (between_max _)⟩,
        fun _ => trivial⟩

theorem applyFontScale_defined (tall : 80 ≤ wm.screenH.toNat) (scale : UInt8) :
    AllDefined (Arithmetic.applyFontScale wm scale) := by
  have scaled : max scale 1 ≠ 0 := by
    change (if scale ≤ 1 then 1 else scale) ≠ 0
    split
    · decide
    · rename_i larger
      rintro rfl
      exact larger (by decide)
  have cells : AllDefined (Arithmetic.maxContentCells
      { wm with display := { wm.display with fontScale := max scale 1 } }) :=
    (maxContentCells_defined scaled).mpr tall
  unfold Arithmetic.applyFontScale
  simp only
  rw [allDefined_append, allDefined_flatMap]
  refine ⟨cells, fun win _ => ?_⟩
  have atLeast : ∀ count : UInt64, (1 : Int) ≤ (max count 1).toNat := by
    intro count
    have one : (1 : UInt64).toNat = 1 := rfl
    change (1 : Int) ≤ (if count ≤ 1 then 1 else count).toNat
    split
    · omega
    · rename_i larger
      rw [UInt64.le_iff_toNat_le] at larger
      omega
  split
  · exact allDefined_nil
  · rw [allDefined_append, allDefined_ite]
    refine ⟨?_, fun _ => allDefined_nil, fun _ => ?_⟩
    · exact allDefined_cons.mpr
        ⟨between_max _, allDefined_cons.mpr ⟨between_max _, allDefined_nil⟩⟩
    · exact allDefined_cons.mpr
        ⟨atLeast _, allDefined_cons.mpr ⟨atLeast _, allDefined_nil⟩⟩

structure Ample (wm : WindowManager Contents Disk) : Prop where
  tall : 80 ≤ wm.screenH.toNat
  scale : wm.display.fontScale = 1 ∨ wm.display.fontScale = 2
  framebuffer : wm.display.physical.1 ≠ 0 ∧ wm.display.physical.2 ≠ 0

theorem Ample.kept (ample : Ample wm) (same : Unmoved wm next) : Ample next := by
  refine ⟨?_, ?_, ?_⟩
  · rw [same.screenH]
    exact ample.tall
  · rw [same.display]
    exact ample.scale
  · rw [same.display]
    exact ample.framebuffer

theorem Ample.scaled (ample : Ample wm) : wm.display.fontScale ≠ 0 := by
  intro zero
  have scale := ample.scale
  rw [zero] at scale
  exact absurd scale (by decide)

theorem Ample.cells (ample : Ample wm) : AllDefined (Arithmetic.maxContentCells wm) :=
  (maxContentCells_defined ample.scaled).mpr ample.tall

theorem applyChange_defined (ample : Ample wm) {change : SettingsChange}
    (offered : ∀ w h, change = .resolution w h → Roomy w h) :
    AllDefined (Arithmetic.applyChange apps wm change) := by
  cases change with
  | none | reload => exact allDefined_nil
  | resolution w h => exact applyResolution_defined ample.scaled ample.framebuffer (offered w h rfl)
  | fontScale scale => exact applyFontScale_defined ample.tall scale

theorem clickContent_defined (ample : Ample wm) (win : Window Contents) :
    AllDefined (Arithmetic.clickContent apps wm win) := by
  unfold Arithmetic.clickContent
  simp only
  rw [allDefined_append]
  constructor
  · split
    · apply dispatchAction_defined
      exact ample.cells
    · exact allDefined_nil
  · apply applyChange_defined
    · apply Ample.kept _ (unmoved_answerClick _ _ _)
      exact ample.kept ⟨⟨rfl, rfl, rfl⟩, rfl, rfl⟩
    · exact fun w h asked => handleClick_offered win.kind asked

theorem applyPart_defined (ample : Ample wm) (i : Nat) (win : Window Contents)
    (part : Window.Part) : AllDefined (Arithmetic.applyPart apps wm i win part) := by
  have raised : Ample (wm.raise i) := ample.kept ⟨⟨rfl, rfl, rfl⟩, rfl, rfl⟩
  cases part with
  | grip =>
      have size := scale_toNat ample.scale
      have eight : (8 : UInt64).toNat = 8 := rfl
      unfold Arithmetic.applyPart Display.glyphW Display.glyphH
      simp only [allDefined_cons, allDefined_nil, and_true,
        defined_div, UInt64.toNat_mul, UInt8.toNat_toUInt64, eight]
      omega
  | maximize =>
      change AllDefined (if win.maximized then [] else _)
      split
      · exact allDefined_nil
      · exact maximizeWindow_defined raised.cells _
  | content => exact clickContent_defined raised win
  | close | minimize | title => exact allDefined_nil

theorem launcherPopupRect_defined : AllDefined (Arithmetic.launcherPopupRect wm) := by
  unfold Arithmetic.launcherPopupRect
  rw [allDefined_cons, defined_sub]
  exact ⟨by omega, allDefined_nil⟩

theorem handleClick_defined (ample : Ample wm) : AllDefined (Arithmetic.handleClick apps wm) := by
  have layout := taskbarLayout_defined ample.scale
  unfold Arithmetic.handleClick
  rw [allDefined_append]
  constructor
  · split
    · exact launcherPopupRect_defined
    · split
      · rw [allDefined_append, allDefined_ite]
        exact ⟨layout, fun _ => allDefined_nil, fun _ => layout⟩
      · exact allDefined_nil
  · split
    · apply runLauncherAction_defined
      exact ample.cells
    · exact applyPart_defined ample _ _ _
    all_goals exact allDefined_nil

theorem cursorOverHoverableAt_defined (ample : Ample wm) (cy : Int32) :
    AllDefined (Arithmetic.cursorOverHoverableAt wm cy) := by
  have tall := ample.tall
  have bar : taskbarHeight.toNat = 48 := rfl
  unfold Arithmetic.cursorOverHoverableAt
  rw [allDefined_cons, minus_defined]
  refine ⟨by omega, ?_⟩
  split
  · exact allDefined_nil
  · split
    · exact launcherPopupRect_defined
    · exact allDefined_nil

theorem hovering_defined (ample : Ample wm) (fromY : Int32) :
    AllDefined (Arithmetic.hovering wm fromY) := by
  unfold Arithmetic.hovering
  rw [allDefined_append, allDefined_ite]
  exact ⟨cursorOverHoverableAt_defined ample _, fun _ => allDefined_nil,
    fun _ => cursorOverHoverableAt_defined ample _⟩

structure MouseFits (apps : Apps Contents Disk) (wm : WindowManager Contents Disk)
    (event : MouseEvent) : Prop where
  across : 1 ≤ wm.screenW.toNat ∧ wm.screenW.toNat ≤ 2 ^ 31
  down : wm.screenH.toNat ≤ 2 ^ 31
  drag : Arithmetic.drags apps (wm.moveCursor event) event.left = true → 40 ≤ wm.screenW.toNat

section

variable (ample : Ample wm) (across : wm.screenW.toNat ≤ 2 ^ 31) (down : wm.screenH.toNat ≤ 2 ^ 31)
include ample across down

theorem dragMotion_defined : AllDefined (Arithmetic.dragMotion wm) ↔ 40 ≤ wm.screenW.toNat := by
  have tall := ample.tall
  have edgeW : (wm.screenW.toInt32 - 40).toUInt32 = wm.screenW - 40 := rfl
  have edgeH : (wm.screenH.toInt32 - taskbarHeight.toInt32 - titleBarHeight.toInt32).toUInt32 =
      wm.screenH - 48 - 32 := rfl
  have n32 : (32 : UInt32).toNat = 32 := rfl
  have n40 : (40 : UInt32).toNat = 40 := rfl
  have n48 : (48 : UInt32).toNat = 48 := rfl
  unfold Arithmetic.dragMotion
  simp only [allDefined_cons, allDefined_nil, and_true, between_zero, edgeW,
    edgeH, UInt32.toNat_sub, n32, n40, n48]
  omega

theorem plainEvent_defined (fromX fromY : Int32) (left justPressed justReleased : Bool) :
    AllDefined (Arithmetic.plainEvent apps wm fromX fromY left justPressed justReleased) ↔
      (wm.dragging.isSome = true → left = true → 40 ≤ wm.screenW.toNat) := by
  have released := ample.kept (@unmoved_released _ _ apps wm left justReleased)
  have afterwards : ∀ moved : Bool, AllDefined
      (if justPressed = true then
        Arithmetic.handleClick apps
          (if justReleased = true then (wm.dragEvent left).releaseEvent apps else wm.dragEvent left)
      else if moved = true then
        Arithmetic.hovering
          (if justReleased = true then (wm.dragEvent left).releaseEvent apps else wm.dragEvent left)
          fromY
      else []) := by
    intro moved
    split
    · exact handleClick_defined released
    · split
      · exact hovering_defined released fromY
      · exact allDefined_nil
  unfold Arithmetic.plainEvent
  simp only
  rw [allDefined_append, and_iff_left (afterwards _), allDefined_ite,
    and_iff_left (fun _ => allDefined_nil), dragMotion_defined ample across down,
    Bool.and_eq_true, and_imp]

theorem gesture_defined (fromX fromY : Int32) (left justPressed justReleased : Bool) :
    AllDefined (Arithmetic.gesture apps wm fromX fromY left justPressed justReleased) ↔
      (Arithmetic.drags apps wm left = true → 40 ≤ wm.screenW.toNat) := by
  have same := @unmoved_pressEvent _ _ apps wm left
  have width := same.screenW
  have height := same.screenH
  unfold Arithmetic.gesture Arithmetic.drags
  cases wm.resizing with
  | some held =>
      obtain ⟨w, h⟩ := glyph_pos ample.scaled
      simp only [allDefined_ite, allDefined_cons, allDefined_nil,
        quotient_defined, ne_eq, w, h, not_false_eq_true, and_self, implies_true, Option.isNone_some,
        Bool.false_and, Bool.false_eq_true, false_implies]
  | none =>
      cases wm.fileDrag with
      | some held =>
          simp only [allDefined_nil, Option.isNone_none, Option.isNone_some, Bool.and_false,
            Bool.false_and, Bool.false_eq_true, false_implies]
      | none =>
          cases (wm.pressEvent apps left).fileDrag with
          | some held =>
              simp only [Option.isSome_some, if_true, allDefined_nil, Option.isNone_none,
                Option.isNone_some, Bool.and_false, Bool.false_and, Bool.false_eq_true,
                false_implies]
          | none =>
              simp only [Option.isSome_none, Bool.false_eq_true, if_false, Option.isNone_none,
                Bool.true_and, Bool.and_eq_true, and_imp]
              have across' : (wm.pressEvent apps left).screenW.toNat ≤ 2 ^ 31 := by
                rw [width]
                exact across
              have down' : (wm.pressEvent apps left).screenH.toNat ≤ 2 ^ 31 := by
                rw [height]
                exact down
              rw [plainEvent_defined (ample.kept same) across' down', width]

end

theorem handleMouse_defined (ample : Ample wm) (event : MouseEvent) :
    AllDefined (Arithmetic.handleMouse apps wm event) ↔ MouseFits apps wm event := by
  have tall := ample.tall
  have below := wm.screenH.toNat_lt
  have one : (1 : UInt32).toNat = 1 := rfl
  have edgeW : (wm.screenW.toInt32 - 1).toUInt32 = wm.screenW - 1 := rfl
  have edgeH : (wm.screenH.toInt32 - 1).toUInt32 = wm.screenH - 1 := rfl
  have moved : Ample (wm.moveCursor event) := ample.kept ⟨⟨rfl, rfl, rfl⟩, rfl, rfl⟩
  have cursor : AllDefined [Arithmetic.between 0 (wm.screenW.toInt32 - 1),
      Arithmetic.between 0 (wm.screenH.toInt32 - 1)] ↔
        (1 ≤ wm.screenW.toNat ∧ wm.screenW.toNat ≤ 2 ^ 31) ∧ wm.screenH.toNat ≤ 2 ^ 31 := by
    simp only [allDefined_cons, allDefined_nil, and_true, between_zero, edgeW,
      edgeH, below_edge (show (1 : UInt32).toNat ≤ 2 ^ 31 by decide), one]
    omega
  unfold Arithmetic.handleMouse
  rw [allDefined_append, cursor]
  constructor
  · rintro ⟨⟨across, down⟩, all⟩
    exact ⟨across, down, (gesture_defined moved across.2 down _ _ _ _ _).mp all⟩
  · rintro ⟨across, down, drag⟩
    exact ⟨⟨across, down⟩, (gesture_defined moved across.2 down _ _ _ _ _).mpr drag⟩

/-- In this state nothing that the functions of the layout compute underflows, is divided by zero or
clamped between bounds the wrong way round, whatever size is chosen in the Settings window. -/
structure LayoutDefined (apps : Apps Contents Disk) (wm : WindowManager Contents Disk)
    (moment : Moment) (event : MouseEvent) : Prop where
  cells : AllDefined (Arithmetic.maxContentCells wm)
  resolution : ∀ w h, (w, h) ∈ wm.display.supportedResolutions →
    AllDefined (Arithmetic.applyResolution apps wm w h)
  mouse : AllDefined (Arithmetic.handleMouse apps wm event)
  windows : ∀ win ∈ wm.windows, win.visible = true →
    AllDefined (Arithmetic.drawWindow wm win)
  taskbar : AllDefined (Arithmetic.drawTaskbar wm moment)
  launcher : wm.launcherOpen = true → AllDefined (Arithmetic.drawLauncher wm)
  wallpaper : AllDefined
    (Arithmetic.loadWallpaper apps wm.display.physical wm.disk wm.screenW wm.screenH)

structure LayoutFits (apps : Apps Contents Disk) (wm : WindowManager Contents Disk) (moment : Moment)
    (event : MouseEvent) : Prop extends MouseFits apps wm event where
  tall : 80 ≤ wm.screenH.toNat
  windows : ∀ win ∈ wm.windows, win.visible = true → win.Drawable wm.display
  clock : 8 * wm.display.fontScale.toNat * Shell.byteLength moment.clock + 12 ≤ wm.screenW.toNat
  tasks : wm.settings.showBgTasks = true →
    8 * wm.display.fontScale.toNat * (Shell.byteLength moment.clock + 6 +
      digits moment.counters.1 + digits moment.counters.2.1 + digits moment.counters.2.2) + 37 ≤
        wm.screenW.toNat
  menu : wm.launcherOpen = true →
    wm.display.fontScale = 1 ∧ wm.screenH ≠ menuScreen wm.launcherItems.length ∧
      ∀ item ∈ wm.launcherItems, Shell.byteLength (Arithmetic.truncateLabel item.1 10) ≤ 11
  wallpaper : Arithmetic.ScalesWallpaper apps wm.display.physical wm.disk wm.screenW wm.screenH →
    wm.screenW ≠ 1

theorem drawTaskbar_defined (ample : Ample wm) (moment : Moment) :
    AllDefined (Arithmetic.drawTaskbar wm moment) ↔
      8 * wm.display.fontScale.toNat * Shell.byteLength moment.clock + 12 ≤ wm.screenW.toNat ∧
        (wm.settings.showBgTasks = true →
          8 * wm.display.fontScale.toNat * (Shell.byteLength moment.clock + 6 +
            digits moment.counters.1 + digits moment.counters.2.1 + digits moment.counters.2.2) + 37 ≤
              wm.screenW.toNat) := by
  have tall := ample.tall
  have bar : taskbarHeight.toNat = 48 := rfl
  have layout := taskbarLayout_defined ample.scale
  have top : AllDefined [Arithmetic.minus wm.screenH taskbarHeight] :=
    allDefined_cons.mpr ⟨minus_defined.mpr (by omega), allDefined_nil⟩
  have buttons : AllDefined (wm.taskbarLayout.flatMap (fun _ => Arithmetic.taskbarButton wm)) :=
    allDefined_flatMap.mpr fun _ _ => taskbarButton_defined ample.scale
  unfold Arithmetic.drawTaskbar
  rw [allDefined_append, allDefined_append, allDefined_append,
    allDefined_append, allDefined_append, tray_defined ample.scale moment]
  exact and_iff_right ⟨⟨⟨⟨top, layout⟩, layout⟩, startButton_defined ample.scale⟩, buttons⟩

theorem layoutDefined_iff {physical : UInt32 × UInt32} (furnished : Furnished physical wm)
    (framebuffer : physical.1 ≠ 0 ∧ physical.2 ≠ 0) (moment : Moment) (event : MouseEvent) :
    LayoutDefined apps wm moment event ↔ LayoutFits apps wm moment event := by
  have one : (1 : UInt32).toNat = 1 := rfl
  have scaled : wm.display.fontScale ≠ 0 := by
    intro zero
    have scale := furnished.scale
    rw [zero] at scale
    exact absurd scale (by decide)
  have frame : wm.display.physical.1 ≠ 0 ∧ wm.display.physical.2 ≠ 0 := by
    rw [furnished.framebuffer]
    exact framebuffer
  have screen : 1 ≤ wm.screenW.toNat → 80 ≤ wm.screenH.toNat → wm.screenW ≠ 0 ∧ wm.screenH ≠ 0 := by
    intro wide tall
    rw [ne_eq, ne_eq, ← UInt32.toNat_inj, ← UInt32.toNat_inj, UInt32.toNat_zero]
    omega
  constructor
  · rintro ⟨cells, -, mouse, windows, taskbar, launcher, wallpaper⟩
    have tall := (maxContentCells_defined scaled).mp cells
    have ample : Ample wm := ⟨tall, furnished.scale, frame⟩
    have fits := (handleMouse_defined ample event).mp mouse
    obtain ⟨clock, tasks⟩ := (drawTaskbar_defined ample moment).mp taskbar
    refine ⟨fits, tall, ?_, clock, tasks, ?_, ?_⟩
    · intro win mem visible
      exact (drawWindow_defined furnished.scale).mp (windows win mem visible)
    · intro shown
      exact (drawLauncher_defined furnished.scale (furnished.menu shown)).mp (launcher shown)
    · intro scales
      have nonzero := screen fits.across.1 tall
      exact ((Arithmetic.loadWallpaper_defined frame nonzero).mp wallpaper scales).1
  · intro fits
    have ample : Ample wm := ⟨fits.tall, furnished.scale, frame⟩
    refine ⟨ample.cells, ?_, ?_, ?_, ?_, ?_, ?_⟩
    · intro w h offered
      exact applyResolution_defined scaled frame (roomy_supported offered)
    · exact (handleMouse_defined ample event).mpr fits.toMouseFits
    · intro win mem visible
      exact (drawWindow_defined furnished.scale).mpr (fits.windows win mem visible)
    · exact (drawTaskbar_defined ample moment).mpr ⟨fits.clock, fits.tasks⟩
    · intro shown
      exact (drawLauncher_defined furnished.scale (furnished.menu shown)).mpr (fits.menu shown)
    · refine (Arithmetic.loadWallpaper_defined frame (screen fits.across.1 fits.tall)).mpr ?_
      intro scales
      refine ⟨fits.wallpaper scales, ?_⟩
      have tall := fits.tall
      rw [ne_eq, ← UInt32.toNat_inj, one]
      omega

/-- In every state of every run from any settings and any session, the arithmetic of the layout is
defined exactly if the screen, the windows and the texts fit. -/
theorem layout_defined_iff_fits (apps : Apps Contents Disk) (physical : UInt32 × UInt32) (disk : Disk)
    (wide : 800 ≤ physical.1.toNat) (tall : 600 ≤ physical.2.toNat) (inputs : List Input)
    (moment : Moment) (event : MouseEvent) :
    LayoutDefined apps ((boot apps physical disk).run apps inputs) moment event ↔
      LayoutFits apps ((boot apps physical disk).run apps inputs) moment event := by
  have framebuffer : physical.1 ≠ 0 ∧ physical.2 ≠ 0 := by
    rw [ne_eq, ne_eq, ← UInt32.toNat_inj, ← UInt32.toNat_inj, UInt32.toNat_zero]
    omega
  exact layoutDefined_iff (furnished_run (furnished_boot physical disk) inputs) framebuffer moment event

end WindowManager

namespace Sample

open WindowManager

def cornerSession : Text := "window calculator 0 0 0 0 0 0\n".toList

def noon : Moment := { hour := 12, minute := 0, secs := 3600, counters := (5, 6, 7) }

/-- The border of a window at the left edge would begin at minus one. -/
theorem corner_window_underflows :
    ¬ ∀ (physical : UInt32 × UInt32) (disk : Disk) (inputs : List Input) (moment : Moment)
        (event : MouseEvent), 800 ≤ physical.1.toNat → 600 ≤ physical.2.toNat →
      LayoutDefined apps ((WindowManager.boot apps physical disk).run apps inputs) moment event := by
  intro claim
  have defined := claim (800, 600) (disk (some cornerSession)) [] noon ⟨0, 0, false⟩ (by decide)
    (by decide)
  have places : ((WindowManager.boot apps (800, 600) (disk (some cornerSession))).run apps
      []).windows.map (fun win => (win.x, win.visible, win.maximized)) =
        [(0, true, false)] := by
    decide
  have present : (0, true, false) ∈ ((WindowManager.boot apps (800, 600)
      (disk (some cornerSession))).run apps []).windows.map
        (fun win => (win.x, win.visible, win.maximized)) := by
    rw [places]
    exact List.mem_cons_self
  obtain ⟨win, mem, shape⟩ := List.mem_map.mp present
  obtain ⟨x, shown, sized⟩ : win.x = 0 ∧ win.visible = true ∧ win.maximized = false := by
    simpa only [Prod.mk.injEq] using shape
  have drawn := defined.windows win mem shown
  unfold Arithmetic.drawWindow at drawn
  simp only at drawn
  rw [Operation.allDefined_append, Operation.allDefined_append, Operation.allDefined_append,
    border_defined] at drawn
  have left := (drawn.1.1.1 sized).1
  rw [x] at left
  exact left (by decide)

theorem mixed_desktop_defined :
    ((boot (some mixedSession)).run apps closeLast).windows.map
      (fun win => (win.isOpen, win.minimized, win.maximized)) =
        [(true, false, true), (true, true, false), (false, false, false)] ∧
    LayoutDefined apps ((WindowManager.boot apps (800, 600) (disk (some mixedSession))).run apps
      closeLast) noon ⟨5, 5, false⟩ := by
  refine ⟨by decide +kernel, (layout_defined_iff_fits apps (800, 600) (disk (some mixedSession))
    (by decide) (by decide) closeLast noon ⟨5, 5, false⟩).mpr ?_⟩
  have display : ((WindowManager.boot apps (800, 600) (disk (some mixedSession))).run apps
      closeLast).display = { fontScale := 1, physical := (800, 600) } := by decide +kernel
  refine ⟨⟨by decide +kernel, by decide +kernel, fun _ => by decide +kernel⟩, by decide +kernel, ?_,
    by decide +kernel, fun _ => by decide +kernel, fun shown => ?_, fun _ => by decide +kernel⟩
  · intro win mem visible
    have shapes : ∀ win ∈ ((WindowManager.boot apps (800, 600) (disk (some mixedSession))).run apps
        closeLast).windows, win.visible = true → win.maximized = true ∧ win.y = 0 ∧
          win.right { fontScale := 1, physical := (800, 600) } = 800 := by decide +kernel
    obtain ⟨maximized, top, right⟩ := shapes win mem visible
    rw [display]
    constructor
    · intro no
      cases no.symm.trans maximized
    · rw [top]
      decide
    · rw [top]
      decide
    · rw [top, right]
      decide
    · rw [maximized]
      intro _ no
      cases no
    · rw [top, right]
      exact fun _ _ => by decide
    · rw [maximized]
      intro _ no
      cases no
  · revert shown
    decide +kernel

end Sample

end Desktop

end MachaOS
