/-
Bilinear scaling with two cached rows.

`bilinear` is the pixel of the scaled image, computed directly from its four neighbours.  The loop of
`scale_pixels` keeps two rows, interpolated across, and computes them anew only when the rows of the
source change; `Cached` ties what they hold to the rows they stand for, whatever they held before.
-/

import MachaOS.Graphics.Surfaces

namespace MachaOS

namespace Graphics

open Checked Spans Except
open Desktop (Pixel)

/-- `lerp`: the difference of the channels is shifted as a signed number. -/
def lerp (a b : Pixel) (f : Nat) : Pixel :=
  fromChannels fun shift =>
    let av : Int := channel a shift
    let bv : Int := channel b shift
    let v := av + (bv - av) * f / 2 ^ 16
    (max 0 (min v 255)).toNat

/-- `xmap` and `ymap`: a coordinate of the target on the source, with 16 fractional bits. -/
def mapped (d src dst : Nat) : Checked Nat := do
  let last ← sub src 1
  let scaled ← mul (d * 2 ^ 16) last
  let span ← sub dst 1
  div scaled span

structure Place where
  low : Nat
  high : Nat
  fraction : Nat
deriving DecidableEq

def locate (d src dst : Nat) : Checked Place := do
  let s ← mapped d src dst
  let last ← sub src 1
  .ok { low := s / 2 ^ 16, high := min (s / 2 ^ 16 + 1) last, fraction := s % 2 ^ 16 }

structure Cache where
  prev : Option (Nat × Nat)
  top : List Pixel
  bot : List Pixel

section Loops

variable (get : Nat → Nat → Checked Pixel)

def cacheColumn (srcW dstW y0 y1 : Nat) (rows : List Pixel × List Pixel) (dx : Nat) :
    Checked (List Pixel × List Pixel) := do
  let x ← locate dx srcW dstW
  let p00 ← get x.low y0
  let p10 ← get x.high y0
  let p01 ← get x.low y1
  let p11 ← get x.high y1
  inside (dx < rows.1.length)
  inside (dx < rows.2.length)
  .ok (rows.1.set dx (lerp p00 p10 x.fraction), rows.2.set dx (lerp p01 p11 x.fraction))

def refresh (srcW dstW y0 y1 : Nat) (cache : Cache) : Checked Cache :=
  if cache.prev ≠ some (y0, y1) then do
    let rows ← (List.range dstW).foldlM (cacheColumn get srcW dstW y0 y1) (cache.top, cache.bot)
    .ok { prev := some (y0, y1), top := rows.1, bot := rows.2 }
  else .ok cache

def scaleRow (srcW srcH dstW dstH : Nat) (state : Cache × List Pixel) (dy : Nat) :
    Checked (Cache × List Pixel) := do
  let y ← locate dy srcH dstH
  let cache ← refresh get srcW dstW y.low y.high state.1
  inside ((dy + 1) * dstW ≤ state.2.length)
  let row ← (List.range dstW).mapM fun dx => do
    let t ← index cache.top dx
    let b ← index cache.bot dx
    .ok (lerp t b y.fraction)
  .ok (cache, splice state.2 (dy * dstW) row)

def scalePixels (srcW srcH : Nat) (dst : List Pixel) (dstW dstH : Nat)
    (scratch : Option (List Pixel × List Pixel)) : Checked (List Pixel) :=
  if srcW = 0 ∨ srcH = 0 ∨ dstW = 0 ∨ dstH = 0 then .ok dst
  else do
    let rows := scratch.getD (List.replicate dstW 0, List.replicate dstW 0)
    let top ← range rows.1 0 dstW
    let bot ← range rows.2 0 dstW
    let state ← (List.range dstH).foldlM (scaleRow get srcW srcH dstW dstH)
      ({ prev := none, top, bot }, dst)
    .ok state.2

end Loops

/-- `src[(y * src_w + x) as usize]` -/
def getWord (src : List Pixel) (srcW x y : Nat) : Checked Pixel := do
  let idx ← indexU32 srcW x y
  index src idx

def getBytes (bytes : List UInt8) (srcW x y : Nat) : Checked Pixel := do
  let idx ← indexU32 srcW x y
  pixelAt bytes idx

def scaleInto (src : List Pixel) (srcW srcH : Nat) (dst : List Pixel) (dstW dstH : Nat) :
    Checked (List Pixel) :=
  scalePixels (getWord src srcW) srcW srcH dst dstW dstH none

def scaleImage (src : List Pixel) (srcW srcH dstW dstH : Nat) : Checked (List Pixel) := do
  let area ← mulU32 dstW dstH
  scaleInto src srcW srcH (List.replicate area 0) dstW dstH

def scaleIntoScratch (src : List Pixel) (srcW srcH : Nat) (dst : List Pixel) (dstW dstH : Nat)
    (scratch : List Pixel) : Checked (List Pixel) := do
  inside (dstW ≤ scratch.length)
  scalePixels (getWord src srcW) srcW srcH dst dstW dstH
    (some (scratch.take dstW, scratch.drop dstW))

def scaleBytes (bytes : List UInt8) (srcW srcH dstW dstH : Nat) : Checked (List Pixel) := do
  let area ← mulU32 dstW dstH
  scalePixels (getBytes bytes srcW) srcW srcH (List.replicate area 0) dstW dstH none

def placeOf (d src dst : Nat) : Place :=
  let s := d * 2 ^ 16 * (src - 1) / (dst - 1)
  { low := s / 2 ^ 16, high := min (s / 2 ^ 16 + 1) (src - 1), fraction := s % 2 ^ 16 }

def across (pixel : Nat → Nat → Pixel) (x : Place) (y : Nat) : Pixel :=
  lerp (pixel x.low y) (pixel x.high y) x.fraction

def interpolate (pixel : Nat → Nat → Pixel) (x y : Place) : Pixel :=
  lerp (across pixel x y.low) (across pixel x y.high) y.fraction

section Places

variable {d src dst : Nat}

theorem mapped_ok (some : 0 < src) (small : src < 2 ^ 16) (wide : 1 < dst) (small' : dst < 2 ^ 16)
    (inside : d < dst) : mapped d src dst = .ok (d * 2 ^ 16 * (src - 1) / (dst - 1)) := by
  have product : d * 2 ^ 16 * (src - 1) ≤ 2 ^ 32 * 2 ^ 16 := Nat.mul_le_mul (by omega) (by omega)
  have fits : d * 2 ^ 16 * (src - 1) < limit := Nat.lt_of_le_of_lt product (by decide)
  rw [mapped, sub_ok some, ok_bind, mul_ok fits, ok_bind, sub_ok (by omega),
    ok_bind, div_ok (by omega)]

theorem locate_ok (some : 0 < src) (small : src < 2 ^ 16) (wide : 1 < dst) (small' : dst < 2 ^ 16)
    (inside : d < dst) : locate d src dst = .ok (placeOf d src dst) := by
  rw [locate, mapped_ok some small wide small' inside, ok_bind, sub_ok some]
  rfl

theorem placeOf_low_lt (some : 0 < src) (wide : 1 < dst) (inside : d < dst) :
    (placeOf d src dst).low < src := by
  have share : d * 2 ^ 16 * (src - 1) ≤ (dst - 1) * ((src - 1) * 2 ^ 16) := by
    rw [Nat.mul_right_comm, Nat.mul_assoc]
    exact Nat.mul_le_mul_right _ (by omega)
  have least := Nat.div_le_of_le_mul share
  dsimp only [placeOf]
  omega

theorem placeOf_high_lt (some : 0 < src) : (placeOf d src dst).high < src := by
  dsimp only [placeOf]
  omega

theorem placeOf_exact {x : Nat} (exact' : d * 2 ^ 16 * (src - 1) / (dst - 1) = x * 2 ^ 16) :
    (placeOf d src dst).low = x ∧ (placeOf d src dst).fraction = 0 := by
  rw [placeOf, exact']
  exact ⟨Nat.mul_div_cancel _ (by decide), Nat.mul_mod_left _ _⟩

theorem placeOf_first : (placeOf 0 src dst).low = 0 ∧ (placeOf 0 src dst).fraction = 0 :=
  placeOf_exact (by simp)

theorem placeOf_last (wide : 1 < dst) :
    (placeOf (dst - 1) src dst).low = src - 1 ∧ (placeOf (dst - 1) src dst).fraction = 0 := by
  refine placeOf_exact ?_
  rw [Nat.mul_assoc, Nat.mul_comm (2 ^ 16), Nat.mul_div_cancel_left _ (by omega)]

theorem placeOf_same (wide : 1 < dst) :
    (placeOf d dst dst).low = d ∧ (placeOf d dst dst).fraction = 0 :=
  placeOf_exact (Nat.mul_div_cancel _ (by omega))

end Places

section Lerp

variable {a b : Pixel} {f shift : Nat}

theorem lerp_zero (a b : Pixel) : lerp a b 0 = a &&& 0xFFFFFF := by
  rw [← fromChannels_channel, lerp]
  congr 1
  funext shift
  have small := channel_lt a shift
  simp only [Nat.cast_zero, Int.mul_zero, Int.zero_ediv, Int.add_zero]
  omega

theorem channel_lerp (small : f < 2 ^ 16) (channels : shift ∈ [16, 8, 0]) :
    min (channel a shift) (channel b shift) ≤ channel (lerp a b f) shift ∧
      channel (lerp a b f) shift ≤ max (channel a shift) (channel b shift) := by
  have low := channel_lt a shift
  have high := channel_lt b shift
  rw [lerp, channel_fromChannels _ channels]
  dsimp only
  generalize channel a shift = av at low ⊢
  generalize channel b shift = bv at high ⊢
  rcases Nat.le_total av bv with up | down
  · obtain ⟨d, rfl⟩ := Nat.exists_eq_add_of_le up
    have product : d * f ≤ d * 2 ^ 16 := Nat.mul_le_mul_left d (Nat.le_of_lt small)
    have step : ((av + d : Nat) : Int) - av = d := by omega
    rw [step, ← Int.natCast_mul]
    omega
  · obtain ⟨d, rfl⟩ := Nat.exists_eq_add_of_le down
    have product : d * f ≤ d * 2 ^ 16 := Nat.mul_le_mul_left d (Nat.le_of_lt small)
    have step : ((bv : Int) - (bv + d : Nat)) * f = -((d * f : Nat) : Int) := by
      rw [show (bv : Int) - (bv + d : Nat) = -(d : Int) by omega, Int.neg_mul, Int.natCast_mul]
    rw [step]
    omega

end Lerp

section Rows

variable {get : Nat → Nat → Checked Pixel} {pixel : Nat → Nat → Pixel}
  {srcW srcH dstW dstH : Nat}

structure Sizes (srcW srcH dstW dstH : Nat) : Prop where
  someW : 0 < srcW
  someH : 0 < srcH
  smallW : srcW < 2 ^ 16
  smallH : srcH < 2 ^ 16
  wide : 1 < dstW
  high : 1 < dstH
  smallW' : dstW < 2 ^ 16
  smallH' : dstH < 2 ^ 16

def Reads (get : Nat → Nat → Checked Pixel) (srcW srcH : Nat) (pixel : Nat → Nat → Pixel) : Prop :=
  ∀ x y, x < srcW → y < srcH → get x y = .ok (pixel x y)

structure Cached (pixel : Nat → Nat → Pixel) (srcW dstW : Nat) (cache : Cache) : Prop where
  top : cache.top.length = dstW
  bot : cache.bot.length = dstW
  rows : ∀ y0 y1, cache.prev = some (y0, y1) → ∀ dx, dx < dstW →
    cache.top[dx]? = some (across pixel (placeOf dx srcW dstW) y0) ∧
      cache.bot[dx]? = some (across pixel (placeOf dx srcW dstW) y1)

theorem cacheColumn_ok (sizes : Sizes srcW srcH dstW dstH) (reads : Reads get srcW srcH pixel)
    {y0 y1 dx : Nat} (inside0 : y0 < srcH) (inside1 : y1 < srcH) (inside : dx < dstW)
    {top bot : List Pixel} (long : top.length = dstW) (long' : bot.length = dstW) :
    cacheColumn get srcW dstW y0 y1 (top, bot) dx =
      .ok (top.set dx (across pixel (placeOf dx srcW dstW) y0),
        bot.set dx (across pixel (placeOf dx srcW dstW) y1)) := by
  have low := placeOf_low_lt sizes.someW sizes.wide inside
  have high := @placeOf_high_lt dx srcW dstW sizes.someW
  rw [cacheColumn, locate_ok sizes.someW sizes.smallW sizes.wide sizes.smallW' inside, ok_bind,
    reads _ _ low inside0, ok_bind, reads _ _ high inside0, ok_bind,
    reads _ _ low inside1, ok_bind, reads _ _ high inside1, ok_bind,
    inside_ok (by rw [long]; exact inside), ok_bind, inside_ok (by rw [long']; exact inside),
    ok_bind]
  rfl

theorem columns_ok (sizes : Sizes srcW srcH dstW dstH) (reads : Reads get srcW srcH pixel)
    {y0 y1 : Nat} (inside0 : y0 < srcH) (inside1 : y1 < srcH) {top bot : List Pixel}
    (long : top.length = dstW) (long' : bot.length = dstW) (count : Nat) (within : count ≤ dstW) :
    ∃ top' bot', (List.range count).foldlM (cacheColumn get srcW dstW y0 y1) (top, bot) =
        .ok (top', bot') ∧
      Painted 0 count (fun dx _ => across pixel (placeOf dx srcW dstW) y0) top top' ∧
      Painted 0 count (fun dx _ => across pixel (placeOf dx srcW dstW) y1) bot bot' := by
  induction count with
  | zero => exact ⟨top, bot, rfl, painted_none _ _ _, painted_none _ _ _⟩
  | succ count ih =>
      obtain ⟨top', bot', done, painted, painted'⟩ := ih (by omega)
      have inside : count < dstW := within
      have here : top[0 + count]? = some top[0 + count] := List.getElem?_eq_getElem (by omega)
      have here' : bot[0 + count]? = some bot[0 + count] := List.getElem?_eq_getElem (by omega)
      have next := painted.set here
      have next' := painted'.set here'
      rw [Nat.zero_add] at next next'
      rw [List.range_succ, List.foldlM_append, done, ok_bind, List.foldlM_cons,
        cacheColumn_ok sizes reads inside0 inside1 inside (painted.length.trans long)
          (painted'.length.trans long')]
      exact ⟨_, _, rfl, next, next'⟩

theorem painted_row {top top' : List Pixel} {value : Nat → Pixel} (long : top.length = dstW)
    (painted : Painted 0 dstW (fun dx _ => value dx) top top') {dx : Nat} (inside : dx < dstW) :
    top'[dx]? = some (value dx) := by
  have old : top[dx]? = some top[dx] := List.getElem?_eq_getElem (by omega)
  rw [painted.entries, if_pos (by omega), old]
  rfl

section

variable (sizes : Sizes srcW srcH dstW dstH) (reads : Reads get srcW srcH pixel)
include sizes reads

theorem refresh_ok {y0 y1 : Nat} (inside0 : y0 < srcH) (inside1 : y1 < srcH) {cache : Cache}
    (cached : Cached pixel srcW dstW cache) :
    ∃ cache', refresh get srcW dstW y0 y1 cache = .ok cache' ∧ Cached pixel srcW dstW cache' ∧
      cache'.prev = some (y0, y1) := by
  by_cases stale : cache.prev ≠ some (y0, y1)
  · obtain ⟨top, bot, done, painted, painted'⟩ :=
      columns_ok sizes reads inside0 inside1 cached.top cached.bot dstW (Nat.le_refl dstW)
    refine ⟨{ prev := some (y0, y1), top, bot }, ?_, ?_, rfl⟩
    · rw [refresh, if_pos stale, done]
      rfl
    · refine ⟨painted.length.trans cached.top, painted'.length.trans cached.bot, ?_⟩
      intro y0' y1' same dx inside
      obtain ⟨rfl, rfl⟩ := Prod.mk.inj (Option.some.inj same)
      exact ⟨painted_row cached.top painted inside, painted_row cached.bot painted' inside⟩
  · exact ⟨cache, if_neg stale, cached, not_not.mp stale⟩

theorem scaleRow_ok {cache : Cache} (cached : Cached pixel srcW dstW cache) {dst : List Pixel}
    {dy : Nat} (inside : dy < dstH) (long : dst.length = dstW * dstH) :
    ∃ cache', scaleRow get srcW srcH dstW dstH (cache, dst) dy = .ok (cache', splice dst (dy * dstW)
        ((List.range dstW).map fun dx =>
          interpolate pixel (placeOf dx srcW dstW) (placeOf dy srcH dstH))) ∧
      Cached pixel srcW dstW cache' := by
  have low := placeOf_low_lt sizes.someH sizes.high inside
  have high := @placeOf_high_lt dy srcH dstH sizes.someH
  obtain ⟨cache', refreshed, cached', prev⟩ := refresh_ok sizes reads low high cached
  have room : (dy + 1) * dstW ≤ dst.length := by
    rw [long, Nat.mul_comm dstW]
    exact Nat.mul_le_mul_right dstW inside
  refine ⟨cache', ?_, cached'⟩
  rw [scaleRow, locate_ok sizes.someH sizes.smallH sizes.high sizes.smallH' inside, ok_bind,
    refreshed, ok_bind, inside_ok room, ok_bind, mapM_ok (fun dx mem => ?_),
    ok_bind]
  obtain ⟨atTop, atBot⟩ := cached'.rows _ _ prev dx (List.mem_range.mp mem)
  rw [index_ok atTop, ok_bind, index_ok atBot, ok_bind]
  rfl

theorem rows_ok {cache : Cache} (cached : Cached pixel srcW dstW cache) {dst : List Pixel}
    (long : dst.length = dstW * dstH) (count : Nat) (within : count ≤ dstH) :
    ∃ cache' dst', (List.range count).foldlM (scaleRow get srcW srcH dstW dstH) (cache, dst) =
        .ok (cache', dst') ∧ Cached pixel srcW dstW cache' ∧ dst'.length = dstW * dstH ∧
      ∀ i, i < count * dstW → dst'[i]? =
        some (interpolate pixel (placeOf (i % dstW) srcW dstW) (placeOf (i / dstW) srcH dstH)) := by
  induction count with
  | zero => exact ⟨cache, dst, rfl, cached, long, fun i inside => absurd inside (by omega)⟩
  | succ count ih =>
      obtain ⟨middle, dst', done, cached', long', entries⟩ := ih (by omega)
      obtain ⟨cache', next, cached''⟩ := scaleRow_ok sizes reads cached' within long'
      have next' : (count + 1) * dstW = count * dstW + dstW := Nat.succ_mul count dstW
      have room : (count + 1) * dstW ≤ dstH * dstW := Nat.mul_le_mul_right dstW within
      rw [Nat.mul_comm dstH, ← long'] at room
      have inside' : count * dstW + ((List.range dstW).map fun dx =>
          interpolate pixel (placeOf dx srcW dstW) (placeOf count srcH dstH)).length ≤
            dst'.length := by
        rw [List.length_map, List.length_range]
        omega
      refine ⟨cache', _, ?_, cached'', (length_splice inside').trans long', ?_⟩
      · rw [List.range_succ, List.foldlM_append, done, ok_bind, List.foldlM_cons, next]
        rfl
      · intro i inside
        rw [getElem?_splice inside', List.length_map, List.length_range]
        by_cases last : count * dstW ≤ i ∧ i < count * dstW + dstW
        · obtain ⟨dx, rfl⟩ := Nat.exists_eq_add_of_le last.1
          have column : dx < dstW := by omega
          rw [if_pos last, Nat.add_sub_cancel_left, List.getElem?_map,
            List.getElem?_range column, Option.map_some, Nat.mul_comm count, Nat.mul_add_mod,
            Nat.mod_eq_of_lt column, Nat.mul_add_div (by omega), Nat.div_eq_of_lt column,
            Nat.add_zero]
        · rw [if_neg last]
          exact entries i (by omega)

theorem scalePixels_ok {dst : List Pixel} (long : dst.length = dstW * dstH)
    {scratch : Option (List Pixel × List Pixel)}
    (rows : ∀ pair, scratch = some pair → dstW ≤ pair.1.length ∧ dstW ≤ pair.2.length) :
    scalePixels get srcW srcH dst dstW dstH scratch = .ok (Desktop.Surface.picture dstW dstH fun x y =>
      interpolate pixel (placeOf x srcW dstW) (placeOf y srcH dstH)).pixels := by
  have someW := sizes.someW
  have someH := sizes.someH
  have wide := sizes.wide
  have high := sizes.high
  have both : dstW ≤ (scratch.getD (List.replicate dstW 0, List.replicate dstW 0)).1.length ∧
      dstW ≤ (scratch.getD (List.replicate dstW 0, List.replicate dstW 0)).2.length := by
    cases scratch with
    | none => simp
    | some pair => exact rows pair rfl
  rw [scalePixels, if_neg (by omega)]
  generalize scratch.getD _ = pair at both ⊢
  have stale : Cached pixel srcW dstW
      { prev := none, top := slice pair.1 0 dstW, bot := slice pair.2 0 dstW } :=
    ⟨length_slice both.1, length_slice both.2, fun _ _ never => nomatch never⟩
  obtain ⟨cache, dst', done, -, long', entries⟩ :=
    rows_ok sizes reads stale long dstH (Nat.le_refl dstH)
  dsimp only
  rw [range_ok ⟨Nat.zero_le _, both.1⟩, ok_bind, range_ok ⟨Nat.zero_le _, both.2⟩,
    ok_bind, ← slice, ← slice, done, ok_bind]
  refine congrArg Except.ok (List.ext_getElem? fun i => ?_)
  dsimp only [Desktop.Surface.picture]
  by_cases inside : i < dstW * dstH
  · rw [entries i (by rwa [Nat.mul_comm]), List.getElem?_map, List.getElem?_range inside]
    rfl
  · rw [List.getElem?_eq_none (by omega), List.getElem?_eq_none (by simpa using inside)]

end

end Rows

def shown (image : Desktop.Surface) (x y : Nat) : Pixel := (image.getPixel x y).getD 0

def bilinear : Desktop.Framebuffer.Scaling := fun image w h x y =>
  interpolate (shown image) (placeOf x image.width w) (placeOf y image.height h)

def neighbours (image : Desktop.Surface) (w h x y : Nat) : List Pixel :=
  let px := placeOf x image.width w
  let py := placeOf y image.height h
  [shown image px.low py.low, shown image px.high py.low, shown image px.low py.high,
    shown image px.high py.high]

def Encodes (bytes : List UInt8) (image : Desktop.Surface) : Prop :=
  ∀ i pixel, image.pixels[i]? = some pixel → pixelAt bytes i = .ok pixel

structure Scales (image : Desktop.Surface) (w h : Nat) : Prop where
  fresh : scaleImage image.pixels image.width image.height w h =
    .ok (Desktop.Surface.picture w h (bilinear image w h)).pixels
  into : ∀ dst, dst.length = w * h → scaleInto image.pixels image.width image.height dst w h =
    .ok (Desktop.Surface.picture w h (bilinear image w h)).pixels
  intoScratch : ∀ dst scratch, dst.length = w * h → 2 * w ≤ scratch.length →
    scaleIntoScratch image.pixels image.width image.height dst w h scratch =
      .ok (Desktop.Surface.picture w h (bilinear image w h)).pixels
  bytes : ∀ bytes, Encodes bytes image → scaleBytes bytes image.width image.height w h =
    .ok (Desktop.Surface.picture w h (bilinear image w h)).pixels
  between : ∀ x y shift, x < w → y < h → shift ∈ [16, 8, 0] →
    (∃ pixel ∈ neighbours image w h x y,
      channel pixel shift ≤ channel (bilinear image w h x y) shift) ∧
    ∃ pixel ∈ neighbours image w h x y,
      channel (bilinear image w h x y) shift ≤ channel pixel shift
  corners : ∀ right bottom : Bool,
    bilinear image w h (if right then w - 1 else 0) (if bottom then h - 1 else 0) =
      shown image (if right then image.width - 1 else 0) (if bottom then image.height - 1 else 0) &&&
        0xFFFFFF
  native : w = image.width → h = image.height → ∀ x y, x < w → y < h →
    bilinear image w h x y = shown image x y &&& 0xFFFFFF

section Images

variable {image : Desktop.Surface} {w h : Nat}

theorem interpolate_exact (pixel : Nat → Nat → Pixel) {x y : Place} (across' : x.fraction = 0)
    (down : y.fraction = 0) : interpolate pixel x y = pixel x.low y.low &&& 0xFFFFFF := by
  rw [interpolate, down, lerp_zero, across, across', lerp_zero, BitVec.and_assoc, BitVec.and_self]

theorem shown_eq {x y : Nat} (across' : x < image.width) (down : y < image.height) :
    image.pixels[y * image.width + x]? = some (shown image x y) := by
  have inside : y * image.width + x < image.pixels.length := by
    rw [image.full]
    exact index_lt across' down
  rw [shown, Desktop.Surface.getPixel_inside across' down, entry, List.getElem?_eq_getElem inside]
  rfl

theorem getWord_reads (area : image.width * image.height < 2 ^ 31) :
    Reads (getWord image.pixels image.width) image.width image.height (shown image) := by
  intro x y across' down
  have below := index_lt across' down
  rw [getWord, indexU32_exact _ _ _ (by omega), ok_bind]
  exact index_ok (shown_eq across' down)

theorem getBytes_reads (area : image.width * image.height < 2 ^ 31) {bytes : List UInt8}
    (encodes : Encodes bytes image) :
    Reads (getBytes bytes image.width) image.width image.height (shown image) := by
  intro x y across' down
  have below := index_lt across' down
  rw [getBytes, indexU32_exact _ _ _ (by omega), ok_bind]
  exact encodes _ _ (shown_eq across' down)

theorem bilinear_between (x y : Nat) {shift : Nat} (channels : shift ∈ [16, 8, 0]) :
    (∃ pixel ∈ neighbours image w h x y,
      channel pixel shift ≤ channel (bilinear image w h x y) shift) ∧
    ∃ pixel ∈ neighbours image w h x y,
      channel (bilinear image w h x y) shift ≤ channel pixel shift := by
  have fraction : ∀ d src dst, (placeOf d src dst).fraction < 2 ^ 16 :=
    fun d src dst => Nat.mod_lt _ (by decide)
  obtain ⟨topLow, topHigh⟩ := @channel_lerp
    (shown image (placeOf x image.width w).low (placeOf y image.height h).low)
    (shown image (placeOf x image.width w).high (placeOf y image.height h).low) _ shift
    (fraction x image.width w) channels
  obtain ⟨botLow, botHigh⟩ := @channel_lerp
    (shown image (placeOf x image.width w).low (placeOf y image.height h).high)
    (shown image (placeOf x image.width w).high (placeOf y image.height h).high) _ shift
    (fraction x image.width w) channels
  obtain ⟨low, high⟩ := @channel_lerp
    (across (shown image) (placeOf x image.width w) (placeOf y image.height h).low)
    (across (shown image) (placeOf x image.width w) (placeOf y image.height h).high) _ shift
    (fraction y image.height h) channels
  simp only [neighbours, List.mem_cons, List.not_mem_nil, or_false, exists_eq_or_imp,
    exists_eq_left]
  rw [bilinear, interpolate]
  unfold across at *
  omega

end Images

end Graphics

end MachaOS
