import Mathlib.Data.Fin.Tuple.Basic
import Mathlib.Tactic.Ring

/-! NEON registers and the operations on them, as their specification has them. A lane is an integer
in the range of its type; what does not fit wraps. -/

namespace NdimonR.Neon

abbrev Reg (n : ℕ) := Fin n → ℤ

/-- The low 16 bits, signed. -/
def s16 (n : ℤ) : ℤ := (n + 32768) % 65536 - 32768

/-- The low 32 bits, signed. -/
def s32 (n : ℤ) : ℤ := (n + 2147483648) % 4294967296 - 2147483648

variable {n : ℕ}

def vdup (k : ℤ) : Reg n := fun _ => k

/-! ### Loads and stores -/

abbrev Bytes := ℕ → UInt8

def byte (p : Bytes) (i : ℕ) : ℤ := (p i).toNat

/-- The bytes at these places. -/
def lanes (p : Bytes) (f : ℕ → ℕ) : Reg 8 := fun i => byte p (f i)

def vld1U8 (p : Bytes) : Reg 8 := lanes p fun i => i

/-- Two interleaved registers. -/
def vld2U8 (p : Bytes) : Reg 8 × Reg 8 := (lanes p fun i => 2 * i, lanes p fun i => 2 * i + 1)

/-- Four interleaved registers. -/
def vld4U8 (p : Bytes) : Reg 8 × Reg 8 × Reg 8 × Reg 8 :=
  (lanes p fun i => 4 * i, lanes p fun i => 4 * i + 1, lanes p fun i => 4 * i + 2,
    lanes p fun i => 4 * i + 3)

/-- A word of four bytes, the lowest first. -/
def word (b0 b1 b2 b3 : ℤ) : ℕ := (b0 + 256 * b1 + 65536 * b2 + 16777216 * b3).toNat

/-- Four registers interleaved into eight words from `x` on. -/
def vst4U8 (dst : ℕ → ℕ) (x : ℕ) (v0 v1 v2 v3 : Reg 8) : ℕ → ℕ := fun j =>
  if h : x ≤ j ∧ j < x + 8 then
    let i : Fin 8 := ⟨j - x, by omega⟩
    word (v0 i) (v1 i) (v2 i) (v3 i)
  else dst j

/-- The lanes of two registers in turn: the first eight and the last eight. -/
def vzipU8 (a b : Reg 8) : Reg 8 × Reg 8 :=
  (fun i => if i.val % 2 = 0 then a ⟨i / 2, by omega⟩ else b ⟨i / 2, by omega⟩,
    fun i => if i.val % 2 = 0 then a ⟨4 + i / 2, by omega⟩ else b ⟨4 + i / 2, by omega⟩)

/-! ### Lanes -/

/-- Zero-extended bytes taken as signed lanes. -/
def vmovlU8 (a : Reg n) : Reg n := fun i => s16 (a i)

def vaddS16 (a b : Reg n) : Reg n := fun i => s16 (a i + b i)

def vsubS16 (a b : Reg n) : Reg n := fun i => s16 (a i - b i)

def vmullNS16 (a : Reg n) (k : ℤ) : Reg n := fun i => s32 (a i * s16 k)

def vmlalNS16 (acc a : Reg n) (k : ℤ) : Reg n := fun i => s32 (acc i + s32 (a i * s16 k))

def vmlslNS16 (acc a : Reg n) (k : ℤ) : Reg n := fun i => s32 (acc i - s32 (a i * s16 k))

def vaddS32 (a b : Reg n) : Reg n := fun i => s32 (a i + b i)

/-- An arithmetic shift. -/
def vshrNS32 (a : Reg n) (k : ℕ) : Reg n := fun i => a i >>> k

/-- The low half of each lane. -/
def vmovnS32 (a : Reg n) : Reg n := fun i => s16 (a i)

/-- The nearest byte. -/
def vqmovunS16 (a : Reg n) : Reg n := fun i => max 0 (min 255 (a i))

def vgetLow (a : Reg 8) : Reg 4 := fun i => a (i.castAdd 4)

def vgetHigh (a : Reg 8) : Reg 4 := fun i => a (i.natAdd 4)

def vcombine (low high : Reg 4) : Reg 8 := Fin.append low high

/-! ### Exact lanes -/

theorem s16_eq {k : ℤ} (hlow : -32768 ≤ k) (hhigh : k < 32768) : s16 k = k := by
  unfold s16
  omega

theorem s32_eq {k : ℤ} (hlow : -2147483648 ≤ k) (hhigh : k < 2147483648) : s32 k = k := by
  unfold s32
  omega

/-- What has 24 bits has 16 after the shift. -/
theorem s16_shift {k : ℤ} (hlow : -8388608 ≤ k) (hhigh : k < 8388608) :
    s16 (k >>> (8 : ℕ)) = k >>> (8 : ℕ) := by
  rw [Int.shiftRight_eq_div_pow]
  apply s16_eq <;> omega

theorem vcombine_low (low high : Reg 4) (i : Fin 4) : vcombine low high (i.castAdd 4) = low i :=
  Fin.append_left low high i

theorem vcombine_high (low high : Reg 4) (i : Fin 4) : vcombine low high (i.natAdd 4) = high i :=
  Fin.append_right low high i

/-- Two registers in turn. -/
theorem vzipU8_lanes (p : Bytes) (f g : ℕ → ℕ) :
    vzipU8 (lanes p f) (lanes p g) =
      (lanes p fun i => if i % 2 = 0 then f (i / 2) else g (i / 2),
        lanes p fun i => if i % 2 = 0 then f (4 + i / 2) else g (4 + i / 2)) := by
  unfold vzipU8 lanes
  congr 1
  · funext i
    simp only
    split_ifs <;> rfl
  · funext i
    simp only
    split_ifs <;> rfl

theorem byte_bounds (p : Bytes) (i : ℕ) : 0 ≤ byte p i ∧ byte p i ≤ 255 := by
  have h := (p i).toNat_lt
  unfold byte
  omega

/-! ### Words written

A run of words, each the pixel of its place. -/

/-- From `a` up to `b` every word is its pixel and every other word is left alone. -/
def Paints (pixel : ℕ → ℕ) (a b : ℕ) (dst dst' : ℕ → ℕ) : Prop :=
  ∀ j, dst' j = if a ≤ j ∧ j < b then pixel j else dst j

theorem Paints.refl (pixel : ℕ → ℕ) (a : ℕ) (dst : ℕ → ℕ) : Paints pixel a a dst dst := by
  intro j
  rw [if_neg (by omega)]

theorem Paints.trans {pixel dst dst' dst'' : ℕ → ℕ} {a b c : ℕ} (h : Paints pixel a b dst dst')
    (h' : Paints pixel b c dst' dst'') (hab : a ≤ b) (hbc : b ≤ c) :
    Paints pixel a c dst dst'' := by
  intro j
  rw [h' j, h j]
  split_ifs <;> first | rfl | omega

/-- Eight words stored. -/
theorem paints_vst4 {pixel : ℕ → ℕ} {x : ℕ} {v0 v1 v2 v3 : Reg 8} (dst : ℕ → ℕ)
    (h : ∀ i : Fin 8, word (v0 i) (v1 i) (v2 i) (v3 i) = pixel (x + i)) :
    Paints pixel x (x + 8) dst (vst4U8 dst x v0 v1 v2 v3) := by
  intro j
  unfold vst4U8
  split_ifs with hj
  · have hi := h ⟨j - x, by omega⟩
    rw [hi]
    congr 1
    simp only
    omega
  · rfl

end NdimonR.Neon
