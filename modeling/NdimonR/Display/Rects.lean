import NdimonR.Display.YuvToXrgb
import NdimonR.Library.Rounding

/-! Which part of a frame is shown and where on the display, for each scale mode. Sizes are 32-bit
unsigned numbers, and the ratios of two of them doubles. -/

namespace NdimonR.Display

open Rounding

inductive ScaleMode where
  | stretch
  | letterbox
  | crop
  deriving DecidableEq

structure Rect where
  x : ℕ
  y : ℕ
  w : ℕ
  h : ℕ
  deriving DecidableEq

def Rect.Has (r : Rect) (x y : ℕ) : Prop := (r.x ≤ x ∧ x < r.x + r.w) ∧ r.y ≤ y ∧ y < r.y + r.h

instance (r : Rect) (x y : ℕ) : Decidable (r.Has x y) :=
  inferInstanceAs (Decidable ((r.x ≤ x ∧ x < r.x + r.w) ∧ r.y ≤ y ∧ y < r.y + r.h))

def Rect.Within (r : Rect) (width height : ℕ) : Prop := r.x + r.w ≤ width ∧ r.y + r.h ≤ height

def sub32 (a b : ℕ) : ℕ := u32 (a + 4294967296 - b)

/-- The double nearest to a number. -/
def double (q : ℚ) : ℚ := toDigits 53 q

/-- `(uint32_t)` of a double that is not negative. -/
def toU32 (q : ℚ) : ℕ := ⌊q⌋.toNat

def computeDstRect (scaleMode : ScaleMode) (width height srcW srcH : ℕ) : Rect :=
  if scaleMode = .stretch ∨ srcW = 0 ∨ srcH = 0 then ⟨0, 0, width, height⟩
  else
    let srcAr := double (srcW / srcH)
    let dstAr := double (width / height)
    if scaleMode = .letterbox then
      if srcAr > dstAr then
        let h := toU32 (double (width / srcAr))
        ⟨0, sub32 height h / 2, width, h⟩
      else
        let w := toU32 (double (height * srcAr))
        ⟨sub32 width w / 2, 0, w, height⟩
    else ⟨0, 0, width, height⟩

/-- The part of the frame that has the shape of the display, on even positions. -/
def cropped (srcW srcH : ℕ) (srcAr dstAr : ℚ) : Rect :=
  if srcAr > dstAr then
    let h := pair srcH
    let w := pair (toU32 (double (h * dstAr)))
    ⟨pair (sub32 srcW w / 2), 0, w, h⟩
  else
    let w := pair srcW
    let h := pair (toU32 (double (w / dstAr)))
    ⟨0, pair (sub32 srcH h / 2), w, h⟩

/-- Only a crop takes less than the whole frame. -/
def computeSrcRect (scaleMode : ScaleMode) (width height srcW srcH : ℕ) : Rect :=
  let full : Rect := ⟨0, 0, srcW, srcH⟩
  if scaleMode ≠ .crop ∨ srcW < 2 ∨ srcH < 2 ∨ width < 2 ∨ height < 2 then full
  else
    let r := cropped srcW srcH (double (srcW / srcH)) (double (width / height))
    if r.w < 2 ∨ r.h < 2 ∨ u32 (r.x + r.w) > srcW ∨ u32 (r.y + r.h) > srcH then full else r

/-! ### Inside the display and inside the frame -/

theorem pair_le (n : ℕ) : pair n ≤ n := Nat.sub_le n _

theorem pair_even (n : ℕ) : pair n % 2 = 0 := by
  unfold pair
  omega

theorem sub32_eq {a b : ℕ} (hle : b ≤ a) (ha : a < 4294967296) : sub32 a b = a - b := by
  unfold sub32 u32
  omega

/-- A double that was made from a few roundings of a size does not pass the size. -/
theorem toU32_double_le {n : ℕ} {q : ℚ} (hn : n < 4294967296) (hq : 0 < q)
    (hle : q ≤ n * (1 + 2 * (1 / 2 ^ 53))) : toU32 (double q) ≤ n := by
  have hfew : 5 * (n : ℚ) < 2 ^ 53 := by
    have hcast : (n : ℚ) < 4294967296 := by exact_mod_cast hn
    linarith
  have hfloor := floor_toDigits_le hfew (by omega) hq hle
  unfold toU32 double
  omega

section
variable {scaleMode : ScaleMode} {width height srcW srcH : ℕ}

theorem ratio_pos {a b : ℕ} (ha : 0 < a) (hb : 0 < b) : (0 : ℚ) < double (a / b) :=
  toDigits_pos (by omega) (div_pos (Nat.cast_pos.mpr ha) (Nat.cast_pos.mpr hb))

/-- A width over a ratio that is larger than the one of the display. -/
theorem over_ratio_le {a b : ℕ} {q : ℚ} (ha : 0 < a) (hb : 0 < b) (hbound : b < 4294967296)
    (hq : double (a / b) ≤ q) : toU32 (double (a / q)) ≤ b := by
  have hpos := ratio_pos ha hb
  have ha' : (0 : ℚ) < a := Nat.cast_pos.mpr ha
  apply toU32_double_le hbound (div_pos ha' (lt_of_lt_of_le hpos hq))
  calc
    (a : ℚ) / q ≤ a / double (a / b) := div_le_div_of_nonneg_left ha'.le hpos hq
    _ ≤ b * (1 + 2 * (1 / 2 ^ 53)) := div_ratio_le (by omega) ha' (Nat.cast_pos.mpr hb)

/-- A height times a ratio that is smaller than the one of the display. -/
theorem times_ratio_le {a b : ℕ} {q : ℚ} (ha : 0 < a) (hb : 0 < b) (hbound : a < 4294967296)
    (hpos : 0 < q) (hq : q ≤ double (a / b)) : toU32 (double (b * q)) ≤ a := by
  have hb' : (0 : ℚ) < b := Nat.cast_pos.mpr hb
  apply toU32_double_le hbound (mul_pos hb' hpos)
  calc
    (b : ℚ) * q ≤ b * double (a / b) := mul_le_mul_of_nonneg_left hq hb'.le
    _ ≤ a * (1 + 2 * (1 / 2 ^ 53)) := mul_ratio_le (Nat.cast_pos.mpr ha) hb'

/-- The rectangle that is painted lies inside the display. -/
theorem dst_inside (hwidth : 0 < width) (hheight : 0 < height) (hwidth' : width < 4294967296)
    (hheight' : height < 4294967296) :
    (computeDstRect scaleMode width height srcW srcH).Within width height := by
  have hall : Rect.Within ⟨0, 0, width, height⟩ width height := ⟨by simp, by simp⟩
  unfold computeDstRect
  by_cases hfull : scaleMode = .stretch ∨ srcW = 0 ∨ srcH = 0
  · rwa [if_pos hfull]
  · rw [if_neg hfull]
    obtain ⟨-, hsrcW, hsrcH⟩ : scaleMode ≠ .stretch ∧ srcW ≠ 0 ∧ srcH ≠ 0 := by tauto
    dsimp only
    split_ifs with hletter hwide
    · -- bars above and below
      have hh := over_ratio_le hwidth hheight hheight' hwide.le
      rw [sub32_eq hh hheight']
      exact ⟨by simp, by dsimp only; omega⟩
    · -- bars on both sides
      have hpos := ratio_pos (Nat.pos_of_ne_zero hsrcW) (Nat.pos_of_ne_zero hsrcH)
      have hw := times_ratio_le hwidth hheight hwidth' hpos (not_lt.mp hwide)
      rw [sub32_eq hw hwidth']
      exact ⟨by dsimp only; omega, by simp⟩
    · exact hall

/-- A rectangle on even positions. -/
structure Rect.Even (r : Rect) : Prop where
  x : r.x % 2 = 0
  y : r.y % 2 = 0
  w : r.w % 2 = 0
  h : r.h % 2 = 0

theorem cropped_inside {srcAr dstAr : ℚ} (hsrcW : 2 ≤ srcW) (hsrcH : 2 ≤ srcH)
    (hsrcW' : srcW < 4294967296) (hsrcH' : srcH < 4294967296) (hsrc : srcAr = double (srcW / srcH))
    (hdst : 0 < dstAr) :
    (cropped srcW srcH srcAr dstAr).Within srcW srcH ∧ (cropped srcW srcH srcAr dstAr).Even := by
  unfold cropped
  dsimp only
  split_ifs with hwide
  · have hh : 0 < pair srcH := by
      unfold pair
      omega
    have hless : toU32 (double (pair srcH * dstAr)) ≤ srcW := by
      have hpos : (0 : ℚ) < srcH := Nat.cast_pos.mpr (by omega)
      have hpair : (0 : ℚ) < pair srcH := Nat.cast_pos.mpr hh
      have hle : (pair srcH : ℚ) ≤ srcH := Nat.cast_le.mpr (pair_le srcH)
      apply toU32_double_le hsrcW' (mul_pos hpair hdst)
      calc
        (pair srcH : ℚ) * dstAr ≤ srcH * double (srcW / srcH) :=
          mul_le_mul hle (hsrc ▸ le_of_lt hwide) hdst.le hpos.le
        _ ≤ srcW * (1 + 2 * (1 / 2 ^ 53)) := mul_ratio_le (Nat.cast_pos.mpr (by omega)) hpos
    have hw := (pair_le _).trans hless
    have hx := pair_le ((srcW - pair (toU32 (double (pair srcH * dstAr)))) / 2)
    have hdown := pair_le srcH
    rw [sub32_eq hw hsrcW']
    exact ⟨⟨by dsimp only; omega, by dsimp only; omega⟩, pair_even _, rfl, pair_even _, pair_even _⟩
  · have hw : 0 < pair srcW := by
      unfold pair
      omega
    have hless : toU32 (double (pair srcW / dstAr)) ≤ srcH := by
      have hpos : (0 : ℚ) < srcW := Nat.cast_pos.mpr (by omega)
      have hpair : (0 : ℚ) < pair srcW := Nat.cast_pos.mpr hw
      have hle : (pair srcW : ℚ) ≤ srcW := Nat.cast_le.mpr (pair_le srcW)
      have hratio : (0 : ℚ) < double (srcW / srcH) := ratio_pos (by omega) (by omega)
      apply toU32_double_le hsrcH' (div_pos hpair hdst)
      calc
        (pair srcW : ℚ) / dstAr ≤ srcW / double (srcW / srcH) :=
          div_le_div₀ hpos.le hle hratio (hsrc ▸ not_lt.mp hwide)
        _ ≤ srcH * (1 + 2 * (1 / 2 ^ 53)) :=
          div_ratio_le (by omega) hpos (Nat.cast_pos.mpr (by omega))
    have hh := (pair_le _).trans hless
    have hy := pair_le ((srcH - pair (toU32 (double (pair srcW / dstAr)))) / 2)
    have hacross := pair_le srcW
    rw [sub32_eq hh hsrcH']
    exact ⟨⟨by dsimp only; omega, by dsimp only; omega⟩, rfl, pair_even _, pair_even _, pair_even _⟩

/-- The window lies inside the frame, and is the whole of it or on even positions. -/
theorem src_inside (hsrcW : srcW < 4294967296) (hsrcH : srcH < 4294967296) :
    (computeSrcRect scaleMode width height srcW srcH).Within srcW srcH ∧
      (computeSrcRect scaleMode width height srcW srcH = ⟨0, 0, srcW, srcH⟩ ∨
        (computeSrcRect scaleMode width height srcW srcH).Even) := by
  have hall : Rect.Within ⟨0, 0, srcW, srcH⟩ srcW srcH := ⟨by simp, by simp⟩
  unfold computeSrcRect
  dsimp only
  split_ifs with hfull hbad
  · exact ⟨hall, .inl rfl⟩
  · exact ⟨hall, .inl rfl⟩
  · simp only [not_or, not_lt] at hfull
    obtain ⟨-, hsrcW₂, hsrcH₂, hwidth, hheight⟩ := hfull
    have hratio : (0 : ℚ) < double (width / height) := ratio_pos (by omega) (by omega)
    obtain ⟨hinside, heven⟩ := cropped_inside hsrcW₂ hsrcH₂ hsrcW hsrcH rfl hratio
    exact ⟨hinside, .inr heven⟩

theorem src_nonempty (hsrcW : 0 < srcW) (hsrcH : 0 < srcH) :
    0 < (computeSrcRect scaleMode width height srcW srcH).w ∧
      0 < (computeSrcRect scaleMode width height srcW srcH).h := by
  unfold computeSrcRect
  dsimp only
  split_ifs with hfull hbad
  · exact ⟨hsrcW, hsrcH⟩
  · exact ⟨hsrcW, hsrcH⟩
  · omega

end

end NdimonR.Display
