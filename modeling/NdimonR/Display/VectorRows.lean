import NdimonR.Display.YuvToXrgb

/-! The vector rows write the pixels of the scalar rows. -/

namespace NdimonR.Display

open Neon

/-! ### Eight pixels -/

def IsByte (n : ℤ) : Prop := 0 ≤ n ∧ n ≤ 255

theorem shift_eight (n : ℤ) : n >>> (8 : ℕ) = n / 256 := by
  rw [Int.shiftRight_eq_div_pow]
  rfl

/-- One lane of the full range: no step wraps. -/
theorem full_lane {y u v : ℤ} (hy : IsByte y) (hu : IsByte u) (hv : IsByte v) :
    (s16 (s16 y + s16 (s32 (s16 (s16 v - 128) * s16 yuvLegacy.rv) >>> (8 : ℕ))),
      s16 (s16 y - s16 (s32 (s32 (s16 (s16 u - 128) * s16 yuvLegacy.gu) +
        s32 (s16 (s16 v - 128) * s16 yuvLegacy.gv)) >>> (8 : ℕ))),
      s16 (s16 y + s16 (s32 (s16 (s16 u - 128) * s16 yuvLegacy.bu) >>> (8 : ℕ)))) =
      channels y u v yuvLegacy := by
  obtain ⟨hy, hy'⟩ := hy
  obtain ⟨hu, hu'⟩ := hu
  obtain ⟨hv, hv'⟩ := hv
  simp only [channels, yuvLegacy, shift_eight]
  simp (disch := omega) only [s16_eq, s32_eq]
  simp only [Bool.false_eq_true, if_false, mul_comm]

/-- One lane of a limited range. -/
theorem limited_lane {y u v : ℤ} {c : YuvCoefficients} (hc : c ∈ [yuv601, yuv709, yuv2020])
    (hy : IsByte y) (hu : IsByte u) (hv : IsByte v) :
    (s16 (s32 (s32 (s32 (s16 (s16 y - 16) * s16 c.y) + s32 (s16 (s16 v - 128) * s16 c.rv)) +
        128) >>> (8 : ℕ)),
      s16 (s32 (s32 (s32 (s32 (s16 (s16 y - 16) * s16 c.y) - s32 (s16 (s16 u - 128) * s16 c.gu)) -
        s32 (s16 (s16 v - 128) * s16 c.gv)) + 128) >>> (8 : ℕ)),
      s16 (s32 (s32 (s32 (s16 (s16 y - 16) * s16 c.y) + s32 (s16 (s16 u - 128) * s16 c.bu)) +
        128) >>> (8 : ℕ))) =
      channels y u v c := by
  obtain ⟨hy, hy'⟩ := hy
  obtain ⟨hu, hu'⟩ := hu
  obtain ⟨hv, hv'⟩ := hv
  simp only [List.mem_cons, List.not_mem_nil, or_false] at hc
  rcases hc with rfl | rfl | rfl <;>
  · simp only [channels, yuv601, yuv709, yuv2020, shift_eight]
    simp (disch := omega) only [s16_eq, s32_eq]
    simp only [if_true, mul_comm]

section
variable {y u v : Reg 8} {c : YuvCoefficients}

/-- What is done with either half is done with each lane. -/
theorem neonChannels_eq (hc : c ∈ coefficientSets) (hy : ∀ i, IsByte (y i))
    (hu : ∀ i, IsByte (u i)) (hv : ∀ i, IsByte (v i)) (i : Fin 8) :
    ((neonChannels y u v c).1 i, (neonChannels y u v c).2.1 i, (neonChannels y u v c).2.2 i) =
      channels (y i) (u i) (v i) c := by
  rcases List.mem_cons.mp hc with rfl | hc
  · rw [← full_lane (hy i) (hu i) (hv i)]
    have hfull : yuvLegacy.limited = false := rfl
    induction i using Fin.addCases (m := 4) (n := 4) with
    | left i =>
      simp only [neonChannels, hfull, Bool.false_eq_true, if_false, vaddS16, vsubS16, vcombine_low]
      rfl
    | right i =>
      simp only [neonChannels, hfull, Bool.false_eq_true, if_false, vaddS16, vsubS16, vcombine_high]
      rfl
  · rw [← limited_lane hc (hy i) (hu i) (hv i)]
    have hlimited : c.limited = true := by
      simp only [List.mem_cons, List.not_mem_nil, or_false] at hc
      rcases hc with rfl | rfl | rfl <;> rfl
    induction i using Fin.addCases (m := 4) (n := 4) with
    | left i =>
      simp only [neonChannels, hlimited, if_true, vcombine_low]
      rfl
    | right i =>
      simp only [neonChannels, hlimited, if_true, vcombine_high]
      rfl

end

theorem clamp_eq (n : ℤ) : max 0 (min 255 n) = clamp n := by
  unfold clamp
  split_ifs <;> omega

theorem clamp_byte (n : ℤ) : IsByte (clamp n) := by
  unfold clamp IsByte
  split_ifs <;> omega

theorem or_of_lt {a b n : ℕ} (h : b < 2 ^ n) : a * 2 ^ n ||| b = a * 2 ^ n + b := by
  rw [← Nat.shiftLeft_eq]
  exact (Nat.shiftLeft_add_eq_or_of_lt h a).symm

/-- Four bytes side by side. -/
theorem word_or {r g b : ℤ} (hr : IsByte r) (hg : IsByte g) (hb : IsByte b) :
    word b g r 255 = 0xff000000 ||| r.toNat <<< 16 ||| g.toNat <<< 8 ||| b.toNat := by
  obtain ⟨hr, hr'⟩ := hr
  obtain ⟨hg, hg'⟩ := hg
  obtain ⟨hb, hb'⟩ := hb
  simp only [Nat.shiftLeft_eq]
  have hred := @or_of_lt 255 (r.toNat * 2 ^ 16) 24 (by omega)
  have hgreen := @or_of_lt (255 * 2 ^ 8 + r.toNat) (g.toNat * 2 ^ 8) 16 (by omega)
  have hblue := @or_of_lt ((255 * 2 ^ 8 + r.toNat) * 2 ^ 8 + g.toNat) b.toNat 8 (by omega)
  have hredWord : 255 * 2 ^ 24 + r.toNat * 2 ^ 16 = (255 * 2 ^ 8 + r.toNat) * 2 ^ 16 := by omega
  have hgreenWord : (255 * 2 ^ 8 + r.toNat) * 2 ^ 16 + g.toNat * 2 ^ 8 =
      ((255 * 2 ^ 8 + r.toNat) * 2 ^ 8 + g.toNat) * 2 ^ 8 := by ring
  change _ = 255 * 2 ^ 24 ||| r.toNat * 2 ^ 16 ||| g.toNat * 2 ^ 8 ||| b.toNat
  rw [hred, hredWord, hgreen, hgreenWord, hblue, word]
  omega

/-- The vector code writes the pixels of its lanes. -/
theorem paints_8px {y u v : Reg 8} {c : YuvCoefficients} (hc : c ∈ coefficientSets)
    (hy : ∀ i, IsByte (y i)) (hu : ∀ i, IsByte (u i)) (hv : ∀ i, IsByte (v i)) {pixel : ℕ → ℕ}
    {x : ℕ} (dst : ℕ → ℕ) (h : ∀ i : Fin 8, yuvToXrgb (y i) (u i) (v i) c = pixel (x + i)) :
    Paints pixel x (x + 8) dst (neonYuvToXrgb8px y u v dst x c) := by
  refine paints_vst4 dst fun i => ?_
  have hchannels := neonChannels_eq hc hy hu hv i
  rw [← h i, yuvToXrgb, ← hchannels]
  simp only [vqmovunS16, clamp_eq]
  exact word_or (clamp_byte _) (clamp_byte _) (clamp_byte _)

/-! ### Loops -/

section
variable {pixel : ℕ → ℕ} {width : ℕ}

/-- A loop over whole blocks paints them and stops less than a block before the end. -/
theorem blocks_paint {k : ℕ} (hk : 0 < k) (hwidth : width + k < 4294967296)
    {body : ℕ → (ℕ → ℕ) → ℕ → ℕ}
    (hbody : ∀ x dst, k ∣ x → x + k ≤ width → Paints pixel x (x + k) dst (body x dst)) {x : ℕ}
    (hx : x ≤ width) (hdvd : k ∣ x) {fuel : ℕ} (hfuel : width < x + fuel) (dst : ℕ → ℕ) :
    ∃ x' dst', blocks k width body fuel x dst = some (x', dst') ∧ x ≤ x' ∧ x' ≤ width ∧
      width < x' + k ∧ k ∣ x' ∧ Paints pixel x x' dst dst' := by
  induction fuel generalizing x dst with
  | zero => omega
  | succ fuel ih =>
    have hu32 : u32 (x + k) = x + k := Nat.mod_eq_of_lt (by omega)
    rw [blocks, hu32]
    split_ifs with hnext
    · obtain ⟨x', dst', hrun, hle, hend, hnear, hdvd', hpaint⟩ :=
        ih hnext (Nat.dvd_add hdvd dvd_rfl) (by omega) (body x dst)
      exact ⟨x', dst', hrun, by omega, hend, hnear, hdvd',
        (hbody x dst hdvd hnext).trans hpaint (by omega) hle⟩
    · exact ⟨x, dst, rfl, le_rfl, hx, by omega, hdvd, Paints.refl pixel x dst⟩

theorem paints_update (pixel : ℕ → ℕ) (x : ℕ) (dst : ℕ → ℕ) :
    Paints pixel x (x + 1) dst (Function.update dst x (pixel x)) := by
  intro j
  rw [Function.update_apply]
  by_cases hj : j = x
  · rw [if_pos hj, if_pos (by omega), hj]
  · rw [if_neg hj, if_neg (by omega)]

/-- The last pixels, one by one. -/
theorem tail_paint (hwidth : width < 4294967296) {x : ℕ} (hx : x ≤ width) {fuel : ℕ}
    (hfuel : width < x + fuel) (dst : ℕ → ℕ) :
    ∃ dst', tail width pixel fuel x dst = some dst' ∧ Paints pixel x width dst dst' := by
  induction fuel generalizing x dst with
  | zero => omega
  | succ fuel ih =>
    rw [tail]
    split_ifs with hnext
    · have hu32 : u32 (x + 1) = x + 1 := Nat.mod_eq_of_lt (by omega)
      obtain ⟨dst', hrun, hpaint⟩ := ih (x := x + 1) (by omega) (by omega)
        (Function.update dst x (pixel x))
      rw [hu32]
      exact ⟨dst', hrun, (paints_update pixel x dst).trans hpaint (by omega) (by omega)⟩
    · obtain rfl : x = width := by omega
      exact ⟨dst, rfl, Paints.refl pixel x dst⟩

end

/-! ### Rows -/

theorem isByte_byte (p : Bytes) (i : ℕ) : IsByte (byte p i) := byte_bounds p i

section
variable {src : Bytes} {c : YuvCoefficients}

/-- A pixel of an aligned block, by its place in it. -/
theorem uyvyPixel_block {x i : ℕ} (hx : 2 ∣ x) (hfit : u32 (x * 2) + (i / 2 * 4 + 4) ≤ 4294967296) :
    uyvyPixel src c (x + i) = yuvToXrgb (byte src (u32 (x * 2) + (i / 2 * 4 + 1 + i % 2 * 2)))
      (byte src (u32 (x * 2) + i / 2 * 4)) (byte src (u32 (x * 2) + (i / 2 * 4 + 2))) c := by
  have hwrap : ∀ k, k < i / 2 * 4 + 4 → u32 (x * 2 + k) = u32 (x * 2) + k := by
    unfold u32 at hfit ⊢
    omega
  have hluma : pair (x + i) * 2 + 1 + (x + i) % 2 * 2 = x * 2 + (i / 2 * 4 + 1 + i % 2 * 2) := by
    unfold pair
    omega
  have hchroma : pair (x + i) * 2 = x * 2 + i / 2 * 4 := by
    unfold pair
    omega
  rw [uyvyPixel, hluma, hchroma, Nat.add_assoc (x * 2) (i / 2 * 4) 2,
    hwrap (i / 2 * 4 + 1 + i % 2 * 2) (by omega), hwrap (i / 2 * 4) (by omega),
    hwrap (i / 2 * 4 + 2) (by omega)]

/-- Eight pixels whose lanes are bytes of memory. -/
theorem paints_bytes (hc : c ∈ coefficientSets) {p q : Bytes} {f g h : ℕ → ℕ} {pixel : ℕ → ℕ}
    {x : ℕ} (dst : ℕ → ℕ) (hpixel : ∀ i, i < 8 →
      yuvToXrgb (byte p (f i)) (byte q (g i)) (byte q (h i)) c = pixel (x + i)) :
    Paints pixel x (x + 8) dst (neonYuvToXrgb8px (lanes p f) (lanes q g) (lanes q h) dst x c) :=
  paints_8px hc (fun _ => isByte_byte _ _) (fun _ => isByte_byte _ _) (fun _ => isByte_byte _ _) dst
    fun i => hpixel i i.isLt

theorem uyvyBlock8_paint (hc : c ∈ coefficientSets) {x : ℕ} (hx : 8 ∣ x) (dst : ℕ → ℕ) :
    Paints (uyvyPixel src c) x (x + 8) dst (uyvyBlock8 src c x dst) := by
  refine paints_bytes hc dst fun i hi => ?_
  have hfit : u32 (x * 2) + (i / 2 * 4 + 4) ≤ 4294967296 := by
    unfold u32
    omega
  rw [uyvyPixel_block (by omega) hfit]
  rfl

theorem uyvyBlock16_paint (hc : c ∈ coefficientSets) {x : ℕ} (hx : 16 ∣ x) (dst : ℕ → ℕ) :
    Paints (uyvyPixel src c) x (x + 16) dst (uyvyBlock16 src c x dst) := by
  have hfit : ∀ i, i < 16 → u32 (x * 2) + (i / 2 * 4 + 4) ≤ 4294967296 := by
    unfold u32
    omega
  simp only [uyvyBlock16, vld4U8, vzipU8_lanes, ite_self]
  refine Paints.trans (paints_bytes hc dst fun i hi => ?_) (paints_bytes hc _ fun i hi => ?_)
    (by omega) (by omega)
  · have hluma : (if i % 2 = 0 then 4 * (i / 2) + 1 else 4 * (i / 2) + 3) =
        i / 2 * 4 + 1 + i % 2 * 2 := by
      split_ifs <;> omega
    rw [uyvyPixel_block (by omega) (hfit i (by omega)), hluma, Nat.mul_comm 4 (i / 2)]
    rfl
  · have hluma : (if i % 2 = 0 then 4 * (4 + i / 2) + 1 else 4 * (4 + i / 2) + 3) =
        (8 + i) / 2 * 4 + 1 + (8 + i) % 2 * 2 := by
      split_ifs <;> omega
    have hchroma : 4 * (4 + i / 2) = (8 + i) / 2 * 4 := by omega
    rw [Nat.add_assoc, uyvyPixel_block (by omega) (hfit (8 + i) (by omega)), hluma, hchroma]
    rfl

/-- The whole row, where no position wraps. -/
theorem neonUyvyRow_paints (hc : c ∈ coefficientSets) {width : ℕ}
    (hwidth : width + 16 < 4294967296) (dst : ℕ → ℕ) :
    ∃ dst', neonUyvyRowToXrgb src dst width c = some dst' ∧
      Paints (uyvyPixel src c) 0 width dst dst' := by
  have hbody : ∀ x dst, 16 ∣ x → x + 16 ≤ width →
      Paints (uyvyPixel src c) x (x + 16) dst (uyvyBlock16 src c x dst) :=
    fun x dst hx _ => uyvyBlock16_paint hc hx dst
  have hfuel : width < 0 + (width + 1) := by omega
  obtain ⟨x, dst₁, hrun, -, hx, hnear, hdvd, hpaint⟩ :=
    blocks_paint (by omega) hwidth hbody (Nat.zero_le width) (Nat.dvd_zero 16) hfuel dst
  have hu32 : u32 (x + 8) = x + 8 := Nat.mod_eq_of_lt (by omega)
  -- one block of eight, where there are eight pixels left
  obtain ⟨x', dst₂, height, hx', hle, hpaint'⟩ : ∃ x' dst₂,
      (if x + 8 ≤ width then (x + 8, uyvyBlock8 src c x dst₁) else (x, dst₁)) = (x', dst₂) ∧
      x' ≤ width ∧ x ≤ x' ∧ Paints (uyvyPixel src c) x x' dst₁ dst₂ := by
    split_ifs with hnext
    · exact ⟨x + 8, _, rfl, hnext, by omega, uyvyBlock8_paint hc (by omega) dst₁⟩
    · exact ⟨x, dst₁, rfl, hx, le_rfl, Paints.refl _ x dst₁⟩
  obtain ⟨dst', htail, hrest⟩ := @tail_paint (uyvyPixel src c) width (by omega) x' hx' (width + 1)
    (by omega) dst₂
  refine ⟨dst', ?_, (hpaint.trans hpaint' (by omega) hle).trans hrest (by omega) hx'⟩
  rw [neonUyvyRowToXrgb, hrun]
  simp only [Option.bind_eq_bind, Option.bind_some, hu32, height]
  exact htail

end

section
variable {yRow uvRow : Bytes}

theorem nv12Block16_paint {x : ℕ} (hx : 16 ∣ x) (hfit : x + 16 < 4294967296) (dst : ℕ → ℕ) :
    Paints (nv12Pixel yRow uvRow) x (x + 16) dst (nv12Block16 yRow uvRow x dst) := by
  have hc : yuvLegacy ∈ coefficientSets := List.mem_cons_self
  have hpixel : ∀ i, i < 16 → nv12Pixel yRow uvRow (x + i) =
      yuvToXrgb (byte yRow (x + i)) (byte uvRow (pair x + 2 * (i / 2)))
        (byte uvRow (pair x + (2 * (i / 2) + 1))) yuvLegacy := by
    intro i hi
    have hpair : pair (x + i) = pair x + 2 * (i / 2) := by
      unfold pair
      omega
    have hu32 : u32 (pair x + 2 * (i / 2) + 1) = pair x + 2 * (i / 2) + 1 := by
      refine Nat.mod_eq_of_lt ?_
      unfold pair
      omega
    rw [nv12Pixel, hpair, hu32, Nat.add_assoc (pair x)]
  simp only [nv12Block16, vld2U8, vld1U8, vzipU8_lanes, ite_self]
  refine Paints.trans (paints_bytes hc dst fun i hi => ?_) (paints_bytes hc _ fun i hi => ?_)
    (by omega) (by omega)
  · rw [hpixel i (by omega)]
    rfl
  · have hchroma : 2 * (4 + i / 2) = 2 * ((8 + i) / 2) := by omega
    rw [Nat.add_assoc, hpixel (8 + i) (by omega), hchroma, ← Nat.add_assoc x]
    rfl

theorem nv12Block8_paint {x : ℕ} (hfit : x + 8 < 4294967296) (dst : ℕ → ℕ) :
    Paints (nv12Pixel yRow uvRow) x (x + 8) dst (nv12Block8 yRow uvRow x dst) := by
  have hc : yuvLegacy ∈ coefficientSets := List.mem_cons_self
  refine paints_bytes hc dst fun i hi => ?_
  have hu32 : u32 (x + i) = x + i := Nat.mod_eq_of_lt (by omega)
  rw [hu32]
  rfl

theorem neonNv12Row_paints {width : ℕ} (hwidth : width + 16 < 4294967296) (dst : ℕ → ℕ) :
    ∃ dst', neonNv12RowToXrgb yRow uvRow dst width = some dst' ∧
      Paints (nv12Pixel yRow uvRow) 0 width dst dst' := by
  have hbody16 : ∀ x dst, 16 ∣ x → x + 16 ≤ width →
      Paints (nv12Pixel yRow uvRow) x (x + 16) dst (nv12Block16 yRow uvRow x dst) :=
    fun x dst hx hle => nv12Block16_paint hx (by omega) dst
  have hbody8 : ∀ x dst, 8 ∣ x → x + 8 ≤ width →
      Paints (nv12Pixel yRow uvRow) x (x + 8) dst (nv12Block8 yRow uvRow x dst) :=
    fun x dst hx hle => nv12Block8_paint (by omega) dst
  have hfuel : width < 0 + (width + 1) := by omega
  obtain ⟨x, dst₁, hrun, -, hx, -, hdvd, hpaint⟩ :=
    blocks_paint (by omega) hwidth hbody16 (Nat.zero_le width) (Nat.dvd_zero 16) hfuel dst
  have hfuel' : width < x + (width + 1) := by omega
  obtain ⟨x', dst₂, hrun', hle, hx', -, -, hpaint'⟩ :=
    blocks_paint (by omega) (by omega) hbody8 hx (by omega) hfuel' dst₁
  obtain ⟨dst', htail, hrest⟩ := @tail_paint (nv12Pixel yRow uvRow) width (by omega) x' hx'
    (width + 1) (by omega) dst₂
  refine ⟨dst', ?_, (hpaint.trans hpaint' (by omega) hle).trans hrest (by omega) hx'⟩
  rw [neonNv12RowToXrgb, hrun]
  simp only [Option.bind_eq_bind, Option.bind_some, hrun']
  exact htail

end

/-! ### Scaled rows -/

/-- Only source positions inside the row are looked at, so what stands behind it does not show. -/
theorem resample_congr {pixel pixel' : ℕ → ℕ} {srcW dstW xStep : ℕ} (hsrc : 0 < srcW)
    (hbound : srcW < 65536) (hstep : dstW * xStep ≤ srcW * 65536)
    (hpixel : ∀ x, x < srcW → pixel x = pixel' x) {left sxFp : ℕ} (hleft : left ≤ dstW)
    (hsx : sxFp = (dstW - left) * xStep) (dst : ℕ → ℕ) :
    resample pixel dstW xStep left sxFp dst = resample pixel' dstW xStep left sxFp dst := by
  induction left generalizing sxFp dst with
  | zero => rfl
  | succ left ih =>
    have hnext : sxFp + xStep = (dstW - left) * xStep := by
      have hone : dstW - left = dstW - (left + 1) + 1 := by omega
      rw [hone, Nat.add_mul, Nat.one_mul, hsx]
    have hle : (dstW - left) * xStep ≤ dstW * xStep := Nat.mul_le_mul_right _ (by omega)
    have hu32 : u32 (sxFp + xStep) = sxFp + xStep := Nat.mod_eq_of_lt (by omega)
    have hinside : sxFp >>> 16 < srcW := by
      rw [Nat.shiftRight_eq_div_pow, Nat.div_lt_iff_lt_mul (by decide)]
      rcases Nat.eq_zero_or_pos xStep with hzero | hpos
      · rw [hsx, hzero]
        omega
      · omega
    rw [resample, resample, hu32, hpixel _ hinside, ih (by omega) hnext]

theorem step16_le {srcW dstW : ℕ} (hbound : srcW < 65536) :
    dstW * step16 srcW dstW ≤ srcW * 65536 := by
  have hu32 : u32 (srcW <<< 16) = srcW * 65536 := by
    rw [Nat.shiftLeft_eq]
    exact Nat.mod_eq_of_lt (by omega)
  rw [step16, hu32]
  exact Nat.mul_div_le _ _

/-- Converting the whole row first gives the pixels that are converted where they are needed. -/
theorem resample_paints {pixel line line' : ℕ → ℕ} {srcW dstW : ℕ} (hsrc : 0 < srcW)
    (hbound : srcW < 65536) (h : Paints pixel 0 srcW line line') (dst : ℕ → ℕ) :
    resample line' dstW (step16 srcW dstW) dstW 0 dst =
      resample pixel dstW (step16 srcW dstW) dstW 0 dst := by
  refine resample_congr hsrc hbound (step16_le hbound) (fun x hx => ?_) le_rfl (by simp) dst
  rw [h x, if_pos ⟨Nat.zero_le x, hx⟩]

/-! ### The vector path -/

/-- The pixel of its luma and the chroma of its pair. -/
def uyvyRowPixel (src : Bytes) (c : YuvCoefficients) (x : ℕ) : ℕ :=
  yuvToXrgb (byte src (2 * x + 1)) (byte src (2 * pair x)) (byte src (2 * pair x + 2)) c

def nv12RowPixel (yRow uvRow : Bytes) (x : ℕ) : ℕ :=
  yuvToXrgb (byte yRow x) (byte uvRow (pair x)) (byte uvRow (pair x + 1)) yuvLegacy

theorem uyvyPixel_exact (src : Bytes) (c : YuvCoefficients) {x : ℕ} (hx : x < 2147483648) :
    uyvyPixel src c x = uyvyRowPixel src c x := by
  have hpair : pair x ≤ x ∧ pair x % 2 = 0 := by
    unfold pair
    omega
  have hluma : u32 (pair x * 2 + 1 + x % 2 * 2) = 2 * x + 1 := by
    unfold u32 pair
    omega
  have hu : u32 (pair x * 2) = 2 * pair x := by
    unfold u32
    omega
  have hv : u32 (pair x * 2 + 2) = 2 * pair x + 2 := by
    unfold u32
    omega
  rw [uyvyPixel, hluma, hu, hv, uyvyRowPixel]

theorem nv12Pixel_exact (yRow uvRow : Bytes) {x : ℕ} (hx : x < 4294967296) :
    nv12Pixel yRow uvRow x = nv12RowPixel yRow uvRow x := by
  have hv : u32 (pair x + 1) = pair x + 1 := by
    unfold u32 pair
    omega
  rw [nv12Pixel, hv, nv12RowPixel]

/-- The lanes hold the exact channels, a row of vectors writes the pixels of the row and nothing
else, and a scaled row is the one of the scalar loop. -/
theorem vector_rows :
    (∀ c ∈ coefficientSets, ∀ y u v : Reg 8, (∀ i, IsByte (y i) ∧ IsByte (u i) ∧ IsByte (v i)) →
      ∀ i, ((neonChannels y u v c).1 i, (neonChannels y u v c).2.1 i,
        (neonChannels y u v c).2.2 i) = channels (y i) (u i) (v i) c) ∧
    (∀ c ∈ coefficientSets, ∀ (src : Bytes) (width : ℕ) (dst : ℕ → ℕ), width ≤ 2147483648 →
      ∃ dst', neonUyvyRowToXrgb src dst width c = some dst' ∧
        (∀ x, x < width → dst' x = uyvyRowPixel src c x) ∧ ∀ x, width ≤ x → dst' x = dst x) ∧
    (∀ (yRow uvRow : Bytes) (width : ℕ) (dst : ℕ → ℕ), width + 16 < 4294967296 →
      ∃ dst', neonNv12RowToXrgb yRow uvRow dst width = some dst' ∧
        (∀ x, x < width → dst' x = nv12RowPixel yRow uvRow x) ∧ ∀ x, width ≤ x → dst' x = dst x) ∧
    ∀ (line dst : ℕ → ℕ) (srcW dstW : ℕ), 0 < srcW → srcW < 65536 → dstW < 65536 →
      (∀ c ∈ coefficientSets, ∀ src : Bytes,
        neonUyvyScaleRowToXrgb line src srcW dst dstW (step16 srcW dstW) c =
          some (uyvyScaleRow src dst dstW (step16 srcW dstW) c)) ∧
      ∀ yRow uvRow : Bytes,
        neonNv12ScaleRowToXrgb line yRow uvRow srcW dst dstW (step16 srcW dstW) =
          some (nv12ScaleRow yRow uvRow dst dstW (step16 srcW dstW)) := by
  refine ⟨?lanes, ?uyvy, ?nv12, ?scaled⟩
  case lanes =>
    intro c hc y u v h i
    exact neonChannels_eq hc (fun i => (h i).1) (fun i => (h i).2.1) (fun i => (h i).2.2) i
  case uyvy =>
    intro c hc src width dst hwidth
    obtain ⟨dst', hrun, hpaint⟩ := @neonUyvyRow_paints src c hc width (by omega) dst
    refine ⟨dst', hrun, fun x hx => ?_, fun x hx => ?_⟩
    · rw [hpaint x, if_pos ⟨Nat.zero_le x, hx⟩, uyvyPixel_exact src c (by omega)]
    · rw [hpaint x, if_neg (by omega)]
  case nv12 =>
    intro yRow uvRow width dst hwidth
    obtain ⟨dst', hrun, hpaint⟩ := @neonNv12Row_paints yRow uvRow width hwidth dst
    refine ⟨dst', hrun, fun x hx => ?_, fun x hx => ?_⟩
    · rw [hpaint x, if_pos ⟨Nat.zero_le x, hx⟩, nv12Pixel_exact yRow uvRow (by omega)]
    · rw [hpaint x, if_neg (by omega)]
  case scaled =>
    intro line dst srcW dstW hsrc hbound _
    refine ⟨fun c hc src => ?_, fun yRow uvRow => ?_⟩
    · obtain ⟨line', hrun, hpaint⟩ := @neonUyvyRow_paints src c hc srcW (by omega) line
      rw [neonUyvyScaleRowToXrgb, hrun, uyvyScaleRow, ← resample_paints hsrc hbound hpaint dst]
      rfl
    · obtain ⟨line', hrun, hpaint⟩ := @neonNv12Row_paints yRow uvRow srcW (by omega) line
      rw [neonNv12ScaleRowToXrgb, hrun, nv12ScaleRow, ← resample_paints hsrc hbound hpaint dst]
      rfl

theorem vector_rows_sample : ∃ dst', neonUyvyRowToXrgb (fun i => i.toUInt8) (fun _ => 0) 29 yuv709 =
    some dst' ∧ (∀ x, x < 29 → dst' x = uyvyRowPixel (fun i => i.toUInt8) yuv709 x) ∧
      ∀ x, 29 ≤ x → dst' x = 0 :=
  vector_rows.2.1 yuv709 (by simp [coefficientSets]) _ 29 _ (by omega)

/-- Black at every position of 32 bits, white beyond. -/
def farRow : Bytes := fun i => if i < 4294967296 then 0 else 255

theorem byte_farRow_near (i : ℕ) : byte farRow (u32 i) = 0 := by
  have hi : u32 i < 4294967296 := Nat.mod_lt i (by omega)
  rw [byte, farRow, if_pos hi]
  rfl

theorem byte_farRow_far {i : ℕ} (hi : 4294967296 ≤ i) : byte farRow i = 255 := by
  rw [byte, farRow, if_neg (by omega)]
  rfl

/-- In a row of more than two to the power of 31 pixels the position of the last one wraps, and from
a source row without pixels one that is left from an earlier row is taken. -/
theorem every_width_false :
    (¬ ∀ c ∈ coefficientSets, ∀ (src : Bytes) (width : ℕ) (dst : ℕ → ℕ), width < 4294967296 →
      ∃ dst', neonUyvyRowToXrgb src dst width c = some dst' ∧
        ∀ x, x < width → dst' x = uyvyRowPixel src c x) ∧
    ¬ ∀ c ∈ coefficientSets, ∀ (line dst : ℕ → ℕ) (src : Bytes) (srcW dstW : ℕ), srcW < 65536 →
      dstW < 65536 → neonUyvyScaleRowToXrgb line src srcW dst dstW (step16 srcW dstW) c =
        some (uyvyScaleRow src dst dstW (step16 srcW dstW) c) := by
  have hc : yuvLegacy ∈ coefficientSets := List.mem_cons_self
  constructor
  · intro h
    obtain ⟨dst', hrun, hexact⟩ := h yuvLegacy hc farRow 2147483649 (fun _ => 0) (by omega)
    obtain ⟨dst₂, hrun', hpaint⟩ :=
      @neonUyvyRow_paints farRow yuvLegacy hc 2147483649 (by omega) fun _ => 0
    obtain rfl : dst' = dst₂ := Option.some.inj (hrun.symm.trans hrun')
    have hpair : pair 2147483648 = 2147483648 := rfl
    have hwritten := hpaint 2147483648
    rw [if_pos (by omega), hexact _ (by omega), uyvyRowPixel, uyvyPixel, byte_farRow_near,
      byte_farRow_near, byte_farRow_near, hpair, byte_farRow_far (by omega),
      byte_farRow_far (by omega), byte_farRow_far (by omega)] at hwritten
    exact absurd hwritten (by decide)
  · intro h
    have hsame := h yuvLegacy hc (fun _ => 0) (fun _ => 0) (fun _ => 0) 0 1 (by omega) (by omega)
    have hrun : neonUyvyScaleRowToXrgb (fun _ => 0) (fun _ => 0) 0 (fun _ => 0) 1 (step16 0 1)
        yuvLegacy = some (resample (fun _ => 0) 1 (step16 0 1) 1 0 fun _ => 0) := rfl
    rw [hrun] at hsame
    exact absurd (congrFun (Option.some.inj hsame) 0) (by decide)

end NdimonR.Display
