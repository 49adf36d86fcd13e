import NdimonR.Library.Neon

/-! Rows of video to pixels: pixel by pixel, and with vectors. Widths and row positions are 32-bit
unsigned numbers, which wrap. -/

namespace NdimonR.Display

open Neon

structure YuvCoefficients where
  y : ℤ
  rv : ℤ
  gu : ℤ
  gv : ℤ
  bu : ℤ
  limited : Bool
  name : String

def yuvLegacy : YuvCoefficients := ⟨256, 359, 88, 183, 453, false, "legacy BT.601 full"⟩
def yuv601 : YuvCoefficients := ⟨298, 409, 100, 208, 516, true, "BT.601"⟩
def yuv709 : YuvCoefficients := ⟨298, 459, 55, 136, 541, true, "BT.709"⟩
def yuv2020 : YuvCoefficients := ⟨298, 430, 48, 167, 548, true, "BT.2020"⟩

def coefficientSets : List YuvCoefficients := [yuvLegacy, yuv601, yuv709, yuv2020]

/-- By the size of the source, before crop, rotation and scaling. -/
def ndiYuvCoefficients (width height : ℕ) : YuvCoefficients :=
  if width > 1920 ∨ height > 1080 then yuv2020
  else if width > 720 ∨ height > 576 then yuv709
  else yuv601

def clamp (n : ℤ) : ℤ := if n < 0 then 0 else if n > 255 then 255 else n

/-- The channels of a pixel before they are clamped. -/
def channels (y u v : ℤ) (c : YuvCoefficients) : ℤ × ℤ × ℤ :=
  let u := u - 128
  let v := v - 128
  if c.limited then
    let l := c.y * (y - 16)
    ((l + c.rv * v + 128) >>> (8 : ℕ), (l - c.gu * u - c.gv * v + 128) >>> (8 : ℕ),
      (l + c.bu * u + 128) >>> (8 : ℕ))
  else
    (y + (c.rv * v) >>> (8 : ℕ), y - (c.gu * u + c.gv * v) >>> (8 : ℕ), y + (c.bu * u) >>> (8 : ℕ))

def yuvToXrgb (y u v : ℤ) (c : YuvCoefficients) : ℕ :=
  let (r, g, b) := channels y u v c
  0xff000000 ||| (clamp r).toNat <<< 16 ||| (clamp g).toNat <<< 8 ||| (clamp b).toNat

/-! ### Vectors -/

/-- The lanes of red, green and blue of eight pixels. -/
def neonChannels (y u v : Reg 8) (c : YuvCoefficients) : Reg 8 × Reg 8 × Reg 8 :=
  let y := vmovlU8 y
  let u := vsubS16 (vmovlU8 u) (vdup 128)
  let v := vsubS16 (vmovlU8 v) (vdup 128)
  let ulo := vgetLow u
  let uhi := vgetHigh u
  let vlo := vgetLow v
  let vhi := vgetHigh v
  if c.limited then
    let yl := vmullNS16 (vsubS16 (vgetLow y) (vdup 16)) c.y
    let yh := vmullNS16 (vsubS16 (vgetHigh y) (vdup 16)) c.y
    (vcombine (vmovnS32 (vshrNS32 (vaddS32 (vmlalNS16 yl vlo c.rv) (vdup 128)) 8))
        (vmovnS32 (vshrNS32 (vaddS32 (vmlalNS16 yh vhi c.rv) (vdup 128)) 8)),
      vcombine
        (vmovnS32 (vshrNS32 (vaddS32 (vmlslNS16 (vmlslNS16 yl ulo c.gu) vlo c.gv) (vdup 128)) 8))
        (vmovnS32 (vshrNS32 (vaddS32 (vmlslNS16 (vmlslNS16 yh uhi c.gu) vhi c.gv) (vdup 128)) 8)),
      vcombine (vmovnS32 (vshrNS32 (vaddS32 (vmlalNS16 yl ulo c.bu) (vdup 128)) 8))
        (vmovnS32 (vshrNS32 (vaddS32 (vmlalNS16 yh uhi c.bu) (vdup 128)) 8)))
  else
    (vaddS16 y (vcombine (vmovnS32 (vshrNS32 (vmullNS16 vlo c.rv) 8))
        (vmovnS32 (vshrNS32 (vmullNS16 vhi c.rv) 8))),
      vsubS16 y (vcombine (vmovnS32 (vshrNS32 (vmlalNS16 (vmullNS16 ulo c.gu) vlo c.gv) 8))
        (vmovnS32 (vshrNS32 (vmlalNS16 (vmullNS16 uhi c.gu) vhi c.gv) 8))),
      vaddS16 y (vcombine (vmovnS32 (vshrNS32 (vmullNS16 ulo c.bu) 8))
        (vmovnS32 (vshrNS32 (vmullNS16 uhi c.bu) 8))))

/-- Eight pixels from `x` on. -/
def neonYuvToXrgb8px (y u v : Reg 8) (dst : ℕ → ℕ) (x : ℕ) (c : YuvCoefficients) : ℕ → ℕ :=
  let (r, g, b) := neonChannels y u v c
  vst4U8 dst x (vqmovunS16 b) (vqmovunS16 g) (vqmovunS16 r) (vdup 255)

/-! ### Rows -/

def u32 (n : ℕ) : ℕ := n % 4294967296

def pair (x : ℕ) : ℕ := x - x % 2

/-- `for (; x + k <= width; x += k)`, as far as the fuel goes. -/
def blocks (k width : ℕ) (body : ℕ → (ℕ → ℕ) → ℕ → ℕ) : ℕ → ℕ → (ℕ → ℕ) → Option (ℕ × (ℕ → ℕ))
  | 0, _, _ => none
  | fuel + 1, x, dst =>
    if u32 (x + k) ≤ width then blocks k width body fuel (u32 (x + k)) (body x dst)
    else some (x, dst)

/-- `for (; x < width; x++)`, where a pixel is written. -/
def tail (width : ℕ) (pixel : ℕ → ℕ) : ℕ → ℕ → (ℕ → ℕ) → Option (ℕ → ℕ)
  | 0, _, _ => none
  | fuel + 1, x, dst =>
    if x < width then tail width pixel fuel (u32 (x + 1)) (Function.update dst x (pixel x))
    else some dst

def uyvyPixel (src : Bytes) (c : YuvCoefficients) (x : ℕ) : ℕ :=
  let p := pair x
  yuvToXrgb (byte src (u32 (p * 2 + 1 + (x % 2) * 2))) (byte src (u32 (p * 2)))
    (byte src (u32 (p * 2 + 2))) c

def uyvyBlock16 (src : Bytes) (c : YuvCoefficients) (x : ℕ) (dst : ℕ → ℕ) : ℕ → ℕ :=
  let (u, even, v, odd) := vld4U8 fun i => src (u32 (x * 2) + i)
  let y := vzipU8 even odd
  let u := vzipU8 u u
  let v := vzipU8 v v
  neonYuvToXrgb8px y.2 u.2 v.2 (neonYuvToXrgb8px y.1 u.1 v.1 dst x c) (x + 8) c

/-- Four pairs, each chroma for both pixels of its pair. -/
def uyvyBlock8 (src : Bytes) (c : YuvCoefficients) (x : ℕ) (dst : ℕ → ℕ) : ℕ → ℕ :=
  let p := fun i => src (u32 (x * 2) + i)
  neonYuvToXrgb8px (lanes p fun i => i / 2 * 4 + 1 + i % 2 * 2) (lanes p fun i => i / 2 * 4)
    (lanes p fun i => i / 2 * 4 + 2) dst x c

/-- There is one fuel for each position and one for the end. -/
def neonUyvyRowToXrgb (src : Bytes) (dst : ℕ → ℕ) (width : ℕ) (colour : YuvCoefficients) :
    Option (ℕ → ℕ) := do
  let (x, dst) ← blocks 16 width (uyvyBlock16 src colour) (width + 1) 0 dst
  let (x, dst) :=
    if u32 (x + 8) ≤ width then (u32 (x + 8), uyvyBlock8 src colour x dst) else (x, dst)
  tail width (uyvyPixel src colour) (width + 1) x dst

def nv12Pixel (yRow uvRow : Bytes) (x : ℕ) : ℕ :=
  yuvToXrgb (byte yRow x) (byte uvRow (pair x)) (byte uvRow (u32 (pair x + 1))) yuvLegacy

def nv12Block16 (yRow uvRow : Bytes) (x : ℕ) (dst : ℕ → ℕ) : ℕ → ℕ :=
  let uv := vld2U8 fun i => uvRow (pair x + i)
  let u := vzipU8 uv.1 uv.1
  let v := vzipU8 uv.2 uv.2
  let dst := neonYuvToXrgb8px (vld1U8 fun i => yRow (x + i)) u.1 v.1 dst x yuvLegacy
  neonYuvToXrgb8px (vld1U8 fun i => yRow (x + 8 + i)) u.2 v.2 dst (x + 8) yuvLegacy

def nv12Block8 (yRow uvRow : Bytes) (x : ℕ) (dst : ℕ → ℕ) : ℕ → ℕ :=
  neonYuvToXrgb8px (vld1U8 fun i => yRow (x + i)) (lanes uvRow fun i => pair (u32 (x + i)))
    (lanes uvRow fun i => u32 (pair (u32 (x + i)) + 1)) dst x yuvLegacy

def neonNv12RowToXrgb (yRow uvRow : Bytes) (dst : ℕ → ℕ) (width : ℕ) : Option (ℕ → ℕ) := do
  let (x, dst) ← blocks 16 width (nv12Block16 yRow uvRow) (width + 1) 0 dst
  let (x, dst) ← blocks 8 width (nv12Block8 yRow uvRow) (width + 1) x dst
  tail width (nv12Pixel yRow uvRow) (width + 1) x dst

/-! ### Scaled rows -/

/-- One source position for each destination pixel, in steps of 16.16 fixed point. -/
def resample (pixel : ℕ → ℕ) (dstW xStep : ℕ) : ℕ → ℕ → (ℕ → ℕ) → ℕ → ℕ
  | 0, _, dst => dst
  | left + 1, sxFp, dst =>
    resample pixel dstW xStep left (u32 (sxFp + xStep))
      (Function.update dst (dstW - (left + 1)) (pixel (sxFp >>> 16)))

/-- The whole source row is converted into `line` first, which keeps what it had beyond. -/
def neonUyvyScaleRowToXrgb (line : ℕ → ℕ) (srcRow : Bytes) (srcW : ℕ) (dstRow : ℕ → ℕ)
    (dstW xStep : ℕ) (colour : YuvCoefficients) : Option (ℕ → ℕ) := do
  let line ← neonUyvyRowToXrgb srcRow line srcW colour
  some (resample line dstW xStep dstW 0 dstRow)

def neonNv12ScaleRowToXrgb (line : ℕ → ℕ) (yRow uvRow : Bytes) (srcW : ℕ) (dstRow : ℕ → ℕ)
    (dstW xStep : ℕ) : Option (ℕ → ℕ) := do
  let line ← neonNv12RowToXrgb yRow uvRow line srcW
  some (resample line dstW xStep dstW 0 dstRow)

/-- `(src_w << 16) / dst_w` -/
def step16 (srcW dstW : ℕ) : ℕ := u32 (srcW <<< 16) / dstW

/-- The loop over one row without vectors. -/
def uyvyScaleRow (srcRow : Bytes) (dstRow : ℕ → ℕ) (dstW xStep : ℕ) (colour : YuvCoefficients) :
    ℕ → ℕ :=
  resample (uyvyPixel srcRow colour) dstW xStep dstW 0 dstRow

def nv12ScaleRow (yRow uvRow : Bytes) (dstRow : ℕ → ℕ) (dstW xStep : ℕ) : ℕ → ℕ :=
  resample (nv12Pixel yRow uvRow) dstW xStep dstW 0 dstRow

end NdimonR.Display
