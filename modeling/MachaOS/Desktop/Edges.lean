/-
When the arithmetic of drawing is defined: windows at the left or the top edge of the screen, glyphs of
windows that stick out beyond it, labels of the start menu that are wider than a tile, a start menu as
high as the screen and counters wider than the taskbar make it underflow, and nothing else does.
-/

import MachaOS.Desktop.Drawing
import MachaOS.Desktop.Frames

namespace MachaOS

namespace Desktop

open List
open Arithmetic (Moment)
open Operation (AllDefined)

theorem toInt_toUInt32 (value : Int32) :
    (value.toInt = value.toUInt32.toNat ∧ value.toUInt32.toNat < 2 ^ 31) ∨
      (value.toInt = value.toUInt32.toNat - 2 ^ 32 ∧ 2 ^ 31 ≤ value.toUInt32.toNat) := by
  have bits : value.toInt = value.toBitVec.toInt := rfl
  have word : value.toUInt32.toNat = value.toBitVec.toNat := rfl
  rw [bits, word, BitVec.toInt_eq_toNat_cond]
  split
  · exact Or.inl ⟨rfl, by omega⟩
  · exact Or.inr ⟨rfl, by omega⟩

theorem between_zero {high : Int32} :
    (Arithmetic.between 0 high).Defined ↔ high.toUInt32.toNat < 2 ^ 31 := by
  have zero : (0 : Int32).toInt = 0 := by decide
  unfold Arithmetic.between
  rw [Operation.defined_clamp, zero]
  have top := high.toUInt32.toNat_lt
  rcases toInt_toUInt32 high with ⟨same, small⟩ | ⟨same, large⟩
  · omega
  · omega

theorem minus_defined {a b : UInt32} : (Arithmetic.minus a b).Defined ↔ b.toNat ≤ a.toNat := Iff.rfl

theorem quotient_defined {divisor : UInt32} : (Arithmetic.quotient divisor).Defined ↔ divisor.toNat ≠ 0 :=
  Iff.rfl

theorem between_max (bound : Int32) : (Arithmetic.between 0 (max bound 0)).Defined := by
  have zero : (0 : Int32).toInt = 0 := by decide
  change (0 : Int32).toInt ≤ (max bound 0).toInt
  rw [toInt_max, zero]
  exact le_max_right _ _

theorem below_edge {n cut : UInt32} (small : cut.toNat ≤ 2 ^ 31) :
    (n - cut).toNat < 2 ^ 31 ↔ cut.toNat ≤ n.toNat ∧ n.toNat < 2 ^ 31 + cut.toNat := by
  have top := n.toNat_lt
  rw [UInt32.toNat_sub]
  omega

namespace Window

variable {Contents : Type} (display : Display) (win : Window Contents)

def right : UInt32 := win.x.toUInt32 + (win.kind.contentSize display).1

def bottom : UInt32 := win.y.toUInt32 + titleBarHeight + (win.kind.contentSize display).2

/-- A window is not at the edge of the screen if it has a border; and where it sticks out, none of its
glyphs begins within its own thickness of the edge, and the grip lies inside. -/
structure Drawable : Prop where
  border : win.maximized = false → win.x.toInt ≠ 0 ∧ win.y.toInt ≠ 0
  title : win.y.toInt ≠ -32
  minimize : win.y.toInt ≠ -26
  close : win.y.toInt ≠ -23 ∧ (win.right display).toNat ≠ 20
  maximize : win.resizable = true → win.maximized = false →
    ¬ (-22 ≤ win.y.toInt ∧ win.y.toInt ≤ -21) ∧
      ¬ (62 ≤ (win.right display).toNat ∧ (win.right display).toNat ≤ 63)
  restore : win.resizable = true → win.maximized = true →
    ¬ (-25 ≤ win.y.toInt ∧ win.y.toInt ≤ -21) ∧
      ¬ (62 ≤ (win.right display).toNat ∧ (win.right display).toNat ≤ 66)
  grip : win.resizable = true → win.maximized = false →
    12 ≤ (win.right display).toNat ∧ 12 ≤ (win.bottom display).toNat

end Window

namespace WindowManager

variable {Contents Disk : Type} {apps : Apps Contents Disk} {wm : WindowManager Contents Disk}
variable {win : Window Contents}

theorem border_defined : AllDefined (Arithmetic.border win) ↔
    (win.maximized = false → win.x.toInt ≠ 0 ∧ win.y.toInt ≠ 0) := by
  have one : (1 : UInt32).toNat = 1 := rfl
  have x := toInt_toUInt32 win.x
  have y := toInt_toUInt32 win.y
  have xTop := win.x.toUInt32.toNat_lt
  have yTop := win.y.toUInt32.toNat_lt
  unfold Arithmetic.border
  cases win.maximized with
  | true => simp
  | false =>
      simp only [Bool.false_eq_true, if_false, Operation.allDefined_cons, Operation.allDefined_nil,
        and_true, minus_defined, one, forall_const]
      omega

variable (scale : wm.display.fontScale = 1 ∨ wm.display.fontScale = 2)

include scale

theorem glyph_toNat : wm.display.glyphW.toUInt32.toNat = 8 * wm.display.fontScale.toNat ∧
    wm.display.glyphH.toUInt32.toNat = 8 * wm.display.fontScale.toNat := by
  unfold Display.glyphW Display.glyphH
  rcases scale with same | same
  · rw [same]
    exact ⟨rfl, rfl⟩
  · rw [same]
    exact ⟨rfl, rfl⟩

theorem iconSize_toNat : (wm.iconSize 16).toNat = 8 + 8 * wm.display.fontScale.toNat := by
  unfold iconSize
  rcases scale with same | same
  · rw [same]
    rfl
  · rw [same]
    rfl

theorem scale_toNat : wm.display.fontScale.toNat = 1 ∨ wm.display.fontScale.toNat = 2 := by
  rcases scale with same | same
  · exact Or.inl (congrArg UInt8.toNat same)
  · exact Or.inr (congrArg UInt8.toNat same)

theorem appIcon_defined : AllDefined (Arithmetic.drawAppIcon wm (wm.iconSize 16)) := by
  have icon := iconSize_toNat scale
  obtain ⟨w, h⟩ := glyph_toNat scale
  unfold Arithmetic.drawAppIcon
  simp only [Operation.allDefined_cons, Operation.allDefined_nil, and_true, minus_defined]
  omega

theorem iconSize_defined : AllDefined (Arithmetic.iconSize wm) := by
  have size := scale_toNat scale
  have one : (1 : UInt32).toNat = 1 := rfl
  unfold Arithmetic.iconSize
  simp only [Operation.allDefined_cons, Operation.allDefined_nil, and_true, minus_defined, one,
    UInt8.toNat_toUInt32]
  omega

theorem titleBar_defined :
    AllDefined (Arithmetic.titleBar wm win.y.toUInt32) ↔ win.y.toInt ≠ -32 := by
  have size := scale_toNat scale
  have icon := iconSize_toNat scale
  obtain ⟨w, h⟩ := glyph_toNat scale
  have one : (1 : UInt32).toNat = 1 := rfl
  have title : titleBarHeight.toNat = 32 := rfl
  have y := toInt_toUInt32 win.y
  have top := win.y.toUInt32.toNat_lt
  unfold Arithmetic.titleBar
  simp only [Operation.allDefined_append, Operation.allDefined_cons, Operation.allDefined_nil, and_true,
    minus_defined, one, title, UInt32.toNat_add, iconSize_defined scale, appIcon_defined scale]
  omega

omit scale

theorem minimizeIcon_defined {y : UInt32} :
    AllDefined (Arithmetic.drawMinimizeIcon y 16) ↔ y.toNat ≠ 2 ^ 32 - 16 := by
  have size : (16 : UInt32).toNat = 16 := rfl
  have one : (1 : UInt32).toNat = 1 := rfl
  have top := y.toNat_lt
  unfold Arithmetic.drawMinimizeIcon
  simp only [Operation.allDefined_cons, Operation.allDefined_nil, and_true, minus_defined,
    UInt32.toNat_add, size, one]
  omega

theorem closeIcon_defined {x y : UInt32} :
    AllDefined (Arithmetic.drawCloseIcon x y 12) ↔
      x.toNat ≠ 2 ^ 32 - 12 ∧ y.toNat ≠ 2 ^ 32 - 12 := by
  have size : (12 : UInt32).toNat = 12 := rfl
  have one : (1 : UInt32).toNat = 1 := rfl
  have xTop := x.toNat_lt
  have yTop := y.toNat_lt
  unfold Arithmetic.drawCloseIcon
  simp only [Operation.allDefined_cons, Operation.allDefined_nil, and_true, minus_defined,
    UInt32.toNat_add, size, one]
  omega

theorem maximizeIcon_defined {x y : UInt32} :
    AllDefined (Arithmetic.drawMaximizeIcon x y 12) ↔
      (x.toNat + 12) % 2 ^ 32 ≥ 2 ∧ (y.toNat + 12) % 2 ^ 32 ≥ 2 := by
  have size : (12 : UInt32).toNat = 12 := rfl
  have two : (2 : UInt32).toNat = 2 := rfl
  unfold Arithmetic.drawMaximizeIcon
  simp only [Operation.allDefined_cons, Operation.allDefined_nil, and_true, minus_defined,
    UInt32.toNat_add, size, two, ge_iff_le]

theorem restoreIcon_defined {x y : UInt32} :
    AllDefined (Arithmetic.drawRestoreIcon x y 12) ↔
      (x.toNat + 12) % 2 ^ 32 ≥ 5 ∧ (y.toNat + 12) % 2 ^ 32 ≥ 2 ∧ (y.toNat + 15) % 2 ^ 32 ≥ 5 := by
  have size : (12 : UInt32).toNat = 12 := rfl
  have two : (2 : UInt32).toNat = 2 := rfl
  have three : (3 : UInt32).toNat = 3 := rfl
  have xTop := x.toNat_lt
  have yTop := y.toNat_lt
  unfold Arithmetic.drawRestoreIcon
  simp only [Operation.allDefined_cons, Operation.allDefined_nil, and_true, minus_defined,
    UInt32.toNat_add, UInt32.toNat_sub, size, two, three]
  omega

theorem maximizeX_toUInt32 {maxX : Int32}
    (present : (Window.titleButtonPositions win.x (win.kind.contentSize wm.display).1
      win.resizable).2.1 = some maxX) :
    win.resizable = true ∧ maxX.toUInt32 = win.right wm.display - 40 - 6 - 40 - 2 := by
  unfold Window.titleButtonPositions at present
  simp only at present
  split at present
  · rename_i resizable
    cases present
    exact ⟨resizable, rfl⟩
  · cases present

theorem maximizeX_none
    (absent : (Window.titleButtonPositions win.x (win.kind.contentSize wm.display).1
      win.resizable).2.1 = none) : win.resizable = false := by
  unfold Window.titleButtonPositions at absent
  simp only at absent
  split at absent
  · cases absent
  · rename_i fixed
    exact eq_false_of_ne_true fixed

theorem titleButtons_defined :
    AllDefined (Arithmetic.titleButtons win (win.kind.contentSize wm.display).1) ↔
      win.y.toInt ≠ -26 ∧
      (win.y.toInt ≠ -23 ∧ (win.right wm.display).toNat ≠ 20) ∧
      (win.resizable = true → win.maximized = false →
        ¬ (-22 ≤ win.y.toInt ∧ win.y.toInt ≤ -21) ∧
          ¬ (62 ≤ (win.right wm.display).toNat ∧ (win.right wm.display).toNat ≤ 63)) ∧
      (win.resizable = true → win.maximized = true →
        ¬ (-25 ≤ win.y.toInt ∧ win.y.toInt ≤ -21) ∧
          ¬ (62 ≤ (win.right wm.display).toNat ∧ (win.right wm.display).toNat ≤ 66)) := by
  have y := toInt_toUInt32 win.y
  have yTop := win.y.toUInt32.toNat_lt
  have edge := (win.right wm.display).toNat_lt
  have closeX : (Window.titleButtonPositions win.x (win.kind.contentSize wm.display).1
      win.resizable).2.2.toUInt32 = win.right wm.display - 40 - 6 := rfl
  have two : (2 : UInt32).toNat = 2 := rfl
  have six : (6 : UInt32).toNat = 6 := rfl
  have eight : (8 : UInt32).toNat = 8 := rfl
  have nine : (9 : UInt32).toNat = 9 := rfl
  have fourteen : (14 : UInt32).toNat = 14 := rfl
  have forty : (40 : UInt32).toNat = 40 := rfl
  unfold Arithmetic.titleButtons
  simp only [Operation.allDefined_append, minimizeIcon_defined, closeIcon_defined, closeX,
    UInt32.toNat_add, UInt32.toNat_sub, two, six, eight, nine, fourteen, forty]
  cases placed : (Window.titleButtonPositions win.x (win.kind.contentSize wm.display).1
      win.resizable).2.1 with
  | none =>
      have fixed := maximizeX_none placed
      simp only [Operation.allDefined_nil, fixed, Bool.false_eq_true, false_implies, and_true]
      omega
  | some maxX =>
      obtain ⟨resizable, place⟩ := maximizeX_toUInt32 placed
      cases maximized : win.maximized with
      | true =>
          simp only [if_true, restoreIcon_defined, place, UInt32.toNat_add, UInt32.toNat_sub, two, six,
            eight, fourteen, forty, resizable, Bool.true_eq_false, forall_const, false_implies, true_and]
          omega
      | false =>
          simp only [Bool.false_eq_true, if_false, maximizeIcon_defined, place, UInt32.toNat_add,
            UInt32.toNat_sub, two, six, eight, fourteen, forty, resizable, forall_const,
            false_implies, and_true]
          omega

theorem grip_defined :
    AllDefined (Arithmetic.grip win (win.kind.contentSize wm.display).1
        (win.kind.contentSize wm.display).2) ↔
      (win.resizable = true → win.maximized = false →
        12 ≤ (win.right wm.display).toNat ∧ 12 ≤ (win.bottom wm.display).toNat) := by
  unfold Arithmetic.grip
  cases win.resizable <;> cases win.maximized
  · simp
  · simp
  · exact ⟨fun all _ _ => ⟨all _ mem_cons_self, all _ (mem_cons_of_mem _ mem_cons_self)⟩,
      fun inside => by
        obtain ⟨across, down⟩ := inside rfl rfl
        exact Operation.allDefined_cons.mpr
          ⟨across, Operation.allDefined_cons.mpr ⟨down, Operation.allDefined_nil⟩⟩⟩
  · simp

theorem drawWindow_defined (scale : wm.display.fontScale = 1 ∨ wm.display.fontScale = 2) :
    AllDefined (Arithmetic.drawWindow wm win) ↔ win.Drawable wm.display := by
  unfold Arithmetic.drawWindow
  simp only
  rw [Operation.allDefined_append, Operation.allDefined_append, Operation.allDefined_append,
    border_defined, titleBar_defined scale, titleButtons_defined, grip_defined]
  constructor
  · rintro ⟨⟨⟨border, title⟩, minimize, close, maximize, restore⟩, grip⟩
    exact ⟨border, title, minimize, close, maximize, restore, grip⟩
  · rintro ⟨border, title, minimize, close, maximize, restore, grip⟩
    exact ⟨⟨⟨border, title⟩, minimize, close, maximize, restore⟩, grip⟩

def digits (n : UInt64) : Nat := (Nat.toDigits 10 n.toNat).length

theorem digits_le (n : UInt64) : digits n ≤ 20 := by
  have small := n.toNat_lt
  exact (Nat.length_toDigits_le_iff (by decide) (by decide)).mpr (by omega)

theorem byteLength_append (first second : Text) :
    Shell.byteLength (first ++ second) = Shell.byteLength first + Shell.byteLength second := by
  unfold Shell.byteLength
  rw [map_append, sum_append]

theorem byteLength_digits {text : Text} (ascii : ∀ c ∈ text, c.isDigit = true) :
    Shell.byteLength text = text.length := by
  induction text with
  | nil => rfl
  | cons c rest ih =>
      have digit := ascii c mem_cons_self
      have one : c.utf8Size = 1 := by
        unfold Char.isDigit at digit
        rw [Bool.and_eq_true, decide_eq_true_eq, decide_eq_true_eq] at digit
        unfold Char.utf8Size
        rw [if_pos (UInt32.le_trans digit.2 (by decide))]
      have behind := ih (fun d mem => ascii d (mem_cons_of_mem c mem))
      unfold Shell.byteLength at behind ⊢
      rw [map_cons, sum_cons, behind, one, length_cons]
      omega

theorem digits_ascii (n : Nat) : ∀ c ∈ Nat.toDigits 10 n, c.isDigit = true :=
  fun _ mem => Nat.isDigit_of_mem_toDigits (by decide) (Nat.le_refl 10) mem

theorem byteLength_twoDigits {n : Nat} (small : n < 2 ^ 64) :
    Shell.byteLength (Arithmetic.twoDigits n) ≤ 20 := by
  have few : (Nat.toDigits 10 n).length ≤ 20 :=
    (Nat.length_toDigits_le_iff (by decide) (by decide)).mpr (by omega)
  have ascii : ∀ c ∈ Arithmetic.twoDigits n, c.isDigit = true := by
    intro c mem
    rcases mem_append.mp mem with zero | digit
    · rw [eq_of_mem_replicate zero]
      rfl
    · exact digits_ascii n c digit
  rw [byteLength_digits ascii, Arithmetic.twoDigits, length_append, length_replicate]
  omega

theorem byteLength_cons (c : Char) (text : Text) :
    Shell.byteLength (c :: text) = c.utf8Size + Shell.byteLength text := by
  unfold Shell.byteLength
  rw [map_cons, sum_cons]

theorem byteLength_clock (moment : Moment) : Shell.byteLength moment.clock ≤ 100 := by
  have colon : (':').utf8Size = 1 := rfl
  have up : Shell.byteLength "  up ".toList = 5 := rfl
  have hour := moment.hour.toNat_lt
  have minute := moment.minute.toNat_lt
  have secs := moment.secs.toNat_lt
  have first := @byteLength_twoDigits moment.hour.toNat (by omega)
  have second := @byteLength_twoDigits moment.minute.toNat (by omega)
  have third := @byteLength_twoDigits (moment.secs.toNat / 60) (by omega)
  have fourth := @byteLength_twoDigits (moment.secs.toNat % 60) (by omega)
  unfold Moment.clock
  simp only [append_assoc, cons_append, byteLength_append, byteLength_cons, colon, up]
  omega

theorem byteLength_tasks (moment : Moment) : Shell.byteLength moment.tasks =
    6 + digits moment.counters.1 + digits moment.counters.2.1 + digits moment.counters.2.2 := by
  have blank : (' ').utf8Size = 1 := rfl
  have label : Shell.byteLength "bg: ".toList = 4 := rfl
  unfold Moment.tasks digits
  simp only [append_assoc, cons_append, byteLength_append, byteLength_cons, blank, label,
    byteLength_digits (digits_ascii _)]
  omega

variable (scale : wm.display.fontScale = 1 ∨ wm.display.fontScale = 2)

include scale

theorem textWidth_toNat {text : Text} (short : Shell.byteLength text ≤ 100) :
    (Arithmetic.textWidth wm text).toNat =
      8 * wm.display.fontScale.toNat * Shell.byteLength text := by
  have size := scale_toNat scale
  have eight : (8 : UInt64).toNat = 8 := rfl
  unfold Arithmetic.textWidth Display.glyphW
  rw [UInt64.toNat_toUInt32, UInt64.toNat_mul, UInt64.toNat_mul, UInt64.toNat_ofNat', eight,
    UInt8.toNat_toUInt64]
  rcases size with one | two
  · rw [one]
    omega
  · rw [two]
    omega

theorem startButton_defined : AllDefined (Arithmetic.startButton wm) := by
  unfold Arithmetic.startButton
  rcases scale with same | same
  · rw [same]
    decide
  · rw [same]
    decide

theorem taskbarButton_defined : AllDefined (Arithmetic.taskbarButton wm) := by
  have size := scale_toNat scale
  have icon := iconSize_toNat scale
  obtain ⟨-, h⟩ := glyph_toNat scale
  have tall : startBtnH.toNat = 36 := rfl
  unfold Arithmetic.taskbarButton
  simp only [Operation.allDefined_append, Operation.allDefined_cons, Operation.allDefined_nil, and_true,
    minus_defined, tall, iconSize_defined scale, appIcon_defined scale, true_and]
  omega

theorem taskbarLayout_defined : AllDefined (Arithmetic.taskbarLayout wm) := by
  unfold Arithmetic.taskbarLayout
  rw [Operation.allDefined_flatMap]
  intro win _
  split
  · exact iconSize_defined scale
  · exact Operation.allDefined_nil

theorem tray_defined (moment : Moment) : AllDefined (Arithmetic.tray wm moment) ↔
    8 * wm.display.fontScale.toNat * Shell.byteLength moment.clock + 12 ≤ wm.screenW.toNat ∧
      (wm.settings.showBgTasks = true →
        8 * wm.display.fontScale.toNat * (Shell.byteLength moment.clock + 6 +
          digits moment.counters.1 + digits moment.counters.2.1 + digits moment.counters.2.2) + 37 ≤
            wm.screenW.toNat) := by
  have size := scale_toNat scale
  obtain ⟨-, h⟩ := glyph_toNat scale
  have first := digits_le moment.counters.1
  have second := digits_le moment.counters.2.1
  have third := digits_le moment.counters.2.2
  have tasks := byteLength_tasks moment
  have clockW := textWidth_toNat scale (byteLength_clock moment)
  have tasksW := @textWidth_toNat _ _ _ scale moment.tasks (by omega)
  rw [tasks] at tasksW
  have top := wm.screenW.toNat_lt
  have bar : taskbarHeight.toNat = 48 := rfl
  have nine : (9 : UInt32).toNat = 9 := rfl
  have twelve : (12 : UInt32).toNat = 12 := rfl
  have sixteen : (16 : UInt32).toNat = 16 := rfl
  unfold Arithmetic.tray
  simp only [Operation.allDefined_append, Operation.allDefined_cons, Operation.allDefined_nil, and_true,
    Operation.allDefined_ite, minus_defined, UInt32.toNat_sub, bar, nine, twelve, sixteen, h, clockW,
    tasksW, implies_true]
  cases wm.settings.showBgTasks with
  | false =>
      simp only [Bool.false_eq_true, false_implies, and_true]
      rcases size with one | two
      · rw [one]
        omega
      · rw [two]
        omega
  | true =>
      simp only [forall_const]
      rcases size with one | two
      · rw [one]
        omega
      · rw [two]
        omega

omit scale

theorem byteLength_le (text : Text) : Shell.byteLength text ≤ 4 * text.length := by
  induction text with
  | nil => exact Nat.le_refl 0
  | cons c rest ih =>
      have few := Char.utf8Size_le_four c
      rw [byteLength_cons, length_cons]
      omega

theorem length_truncateLabel (label : Text) : (Arithmetic.truncateLabel label 10).length ≤ 11 := by
  have dots : "..".toList.length = 2 := rfl
  unfold Arithmetic.truncateLabel
  split
  · rw [length_append, length_take, dots]
    omega
  · omega

def menuScreen (items : Nat) : UInt32 := 132 + UInt32.ofNat ((max items 1 + 3) / 4) * 84

include scale

theorem tile_defined (label : Text) : AllDefined (Arithmetic.tile wm label) ↔
    8 * wm.display.fontScale.toNat * Shell.byteLength (Arithmetic.truncateLabel label 10) ≤ 92 := by
  have size := scale_toNat scale
  obtain ⟨w, h⟩ := glyph_toNat scale
  have few := byteLength_le (Arithmetic.truncateLabel label 10)
  have short := length_truncateLabel label
  have icon : Arithmetic.launcherIcon.toNat = 56 := rfl
  have wide : launcherTileW.toNat = 92 := rfl
  unfold Arithmetic.tile
  simp only [Operation.allDefined_append, Operation.allDefined_cons, Operation.allDefined_nil, and_true,
    Operation.allDefined_ite, Operation.defined_sub, minus_defined, UInt32.toNat_mul,
    UInt32.toNat_ofNat', icon, wide, w, h, implies_true]
  rcases size with one | two
  · rw [one]
    omega
  · rw [two]
    omega

theorem popup_defined : AllDefined (Arithmetic.launcherPopupRect wm ++
    [Arithmetic.minus wm.launcherPopupRect.1.toUInt32 1,
      Arithmetic.minus wm.launcherPopupRect.2.1.toUInt32 1,
      Arithmetic.minus wm.launcherPopupRect.2.2.1 32,
      Arithmetic.minus 28 wm.display.glyphH.toUInt32]) ↔
      wm.screenH ≠ menuScreen wm.launcherItems.length := by
  have size := scale_toNat scale
  obtain ⟨-, h⟩ := glyph_toNat scale
  have one : (1 : UInt32).toNat = 1 := rfl
  have tall : (28 : UInt32).toNat = 28 := rfl
  have left : wm.launcherPopupRect.1.toUInt32.toNat = 12 := rfl
  have wide : wm.launcherPopupRect.2.2.1.toNat = 408 := rfl
  have margin : (32 : UInt32).toNat = 32 := rfl
  have top : wm.launcherPopupRect.2.1.toUInt32 =
      wm.screenH - 48 - (64 + UInt32.ofNat ((max wm.launcherItems.length 1 + 3) / 4) * 84 + 10) - 10 := rfl
  unfold Arithmetic.launcherPopupRect menuScreen
  simp only [Operation.allDefined_append, Operation.allDefined_cons, Operation.allDefined_nil, and_true,
    Operation.defined_sub, minus_defined, one, tall, left, wide, margin, h, top]
  generalize UInt32.ofNat ((max wm.launcherItems.length 1 + 3) / 4) * 84 = rows
  have below := wm.screenH.toNat_lt
  have small := rows.toNat_lt
  have n10 : (10 : UInt32).toNat = 10 := rfl
  have n48 : (48 : UInt32).toNat = 48 := rfl
  have n64 : (64 : UInt32).toNat = 64 := rfl
  have n132 : (132 : UInt32).toNat = 132 := rfl
  rw [ne_eq, ← UInt32.toNat_inj]
  simp only [UInt32.toNat_sub, UInt32.toNat_add, n10, n48, n64, n132]
  omega

theorem drawLauncher_defined (terminal : ∃ item ∈ wm.launcherItems, item.1 = "Terminal".toList) :
    AllDefined (Arithmetic.drawLauncher wm) ↔
      wm.display.fontScale = 1 ∧ wm.screenH ≠ menuScreen wm.launcherItems.length ∧
        ∀ item ∈ wm.launcherItems,
          Shell.byteLength (Arithmetic.truncateLabel item.1 10) ≤ 11 := by
  have parts : AllDefined (Arithmetic.drawLauncher wm) ↔
      wm.screenH ≠ menuScreen wm.launcherItems.length ∧
        ∀ item ∈ wm.launcherItems, 8 * wm.display.fontScale.toNat *
          Shell.byteLength (Arithmetic.truncateLabel item.1 10) ≤ 92 := by
    unfold Arithmetic.drawLauncher
    simp only
    rw [Operation.allDefined_append, popup_defined scale, Operation.allDefined_flatMap]
    simp only [tile_defined scale]
  rw [parts]
  rcases scale with small | large
  · have one : wm.display.fontScale.toNat = 1 := congrArg UInt8.toNat small
    rw [one]
    constructor
    · rintro ⟨off, fits⟩
      refine ⟨small, off, fun item mem => ?_⟩
      have fit := fits item mem
      omega
    · rintro ⟨-, off, fits⟩
      refine ⟨off, fun item mem => ?_⟩
      have fit := fits item mem
      omega
  · constructor
    · rintro ⟨-, fits⟩
      obtain ⟨item, mem, label⟩ := terminal
      have wide := fits item mem
      rw [large, label] at wide
      exact absurd wide (by decide)
    · rintro ⟨small, -, -⟩
      rw [large] at small
      exact absurd small (by decide)

omit scale

end WindowManager

end Desktop



end MachaOS
