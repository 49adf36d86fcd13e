import Mathlib.Data.String.Basic
import Mathlib.Data.List.Lex

/-! Decimal numbers of a fixed width, and the order of texts that are made of such fields. -/

namespace NdimonR

/-- The last `width` decimal digits. -/
def digits : (width n : Nat) → List Char
  | 0, _ => []
  | width + 1, n => digits width (n / 10) ++ [Nat.digitChar (n % 10)]

/-- A number filled up with zeros after its sign. -/
def zeroPadded (width : Nat) : Int → String
  | .ofNat n => String.ofList
      (List.replicate (width - (Nat.toDigits 10 n).length) '0' ++ Nat.toDigits 10 n)
  | .negSucc n => String.ofList ('-' :: (List.replicate
      (width - 1 - (Nat.toDigits 10 (n + 1)).length) '0' ++ Nat.toDigits 10 (n + 1)))

namespace ZeroPadded

@[simp] theorem length_digits (width n : Nat) : (digits width n).length = width := by
  induction width generalizing n with
  | zero => rfl
  | succ width ih => rw [digits, List.length_append, ih, List.length_singleton]

theorem digits_zero (width : Nat) : digits width 0 = List.replicate width '0' := by
  induction width with
  | zero => rfl
  | succ width ih =>
    rw [digits, Nat.zero_div, ih, List.replicate_succ']
    rfl

/-- A number that fits is written with its width. -/
theorem zeroPadded_toList {width n : Nat} (hwidth : 0 < width) (hn : n < 10 ^ width) :
    (zeroPadded width n).toList = digits width n := by
  change (String.ofList _).toList = _
  rw [String.toList_ofList]
  induction width generalizing n with
  | zero => omega
  | succ width ih =>
    by_cases hsmall : n < 10
    · rw [Nat.toDigits_of_lt_base hsmall, digits, Nat.div_eq_of_lt hsmall, digits_zero,
        Nat.mod_eq_of_lt hsmall]
      rfl
    · have hpow : n < 10 ^ width * 10 := hn
      have hpos : 0 < width := by
        rcases Nat.eq_zero_or_pos width with rfl | hpos
        · omega
        · exact hpos
      have hdiv := ih hpos (Nat.div_lt_of_lt_mul (by omega : n < 10 * 10 ^ width))
      rw [Nat.toDigits_of_base_le (by decide) (by omega), digits, ← hdiv, List.length_append,
        List.length_singleton, Nat.add_sub_add_right, List.append_assoc]

theorem isDigit_of_mem {width n : Nat} {c : Char} (h : c ∈ digits width n) : c.isDigit = true := by
  induction width generalizing n with
  | zero => cases h
  | succ width ih =>
    rcases List.mem_append.mp h with hinit | hlast
    · exact ih hinit
    · have hall : ∀ d < 10, (Nat.digitChar d).isDigit = true := by decide
      rw [List.mem_singleton.mp hlast]
      exact hall _ (Nat.mod_lt _ (by decide))

/-! ### Their order -/

section
variable {α : Type*} [LinearOrder α]

/-- Texts are ordered by their first fields, and by what follows where these are the same. -/
theorem append_lt_append {a b : List α} (h : a.length = b.length) (x y : List α) :
    a ++ x < b ++ y ↔ a < b ∨ a = b ∧ x < y := by
  induction a generalizing b with
  | nil =>
    obtain rfl : b = [] := List.length_eq_zero_iff.mp h.symm
    simp
  | cons c a ih =>
    obtain ⟨d, b, rfl⟩ := List.exists_cons_of_length_eq_add_one h.symm
    have hlength : a.length = b.length := by simpa using h
    simp only [List.cons_append, List.cons_lt_cons_iff, ih hlength, List.cons.injEq]
    tauto

end

theorem digitChar_lt : ∀ m < 10, ∀ n < 10, (Nat.digitChar m < Nat.digitChar n ↔ m < n) := by
  decide

theorem digitChar_inj : ∀ m < 10, ∀ n < 10, (Nat.digitChar m = Nat.digitChar n ↔ m = n) := by
  decide

theorem div_lt_pow {width n : Nat} (h : n < 10 ^ (width + 1)) : n / 10 < 10 ^ width :=
  Nat.div_lt_of_lt_mul (by rw [Nat.pow_succ] at h; omega)

theorem digits_inj {width m n : Nat} (hm : m < 10 ^ width) (hn : n < 10 ^ width) :
    digits width m = digits width n ↔ m = n := by
  induction width generalizing m n with
  | zero =>
    simp only [Nat.pow_zero, Nat.lt_one_iff] at hm hn
    simp [hm, hn]
  | succ width ih =>
    have hlast := digitChar_inj (m % 10) (Nat.mod_lt _ (by decide)) (n % 10)
      (Nat.mod_lt _ (by decide))
    rw [digits, digits, List.append_eq_append_iff_of_size_eq_left (by simp),
      ih (div_lt_pow hm) (div_lt_pow hn), List.singleton_inj, hlast]
    omega

/-- Fields of one width are ordered as their numbers. -/
theorem digits_lt {width m n : Nat} (hm : m < 10 ^ width) (hn : n < 10 ^ width) :
    digits width m < digits width n ↔ m < n := by
  induction width generalizing m n with
  | zero =>
    simp only [Nat.pow_zero, Nat.lt_one_iff] at hm hn
    simp [hm, hn]
  | succ width ih =>
    have hlast := digitChar_lt (m % 10) (Nat.mod_lt _ (by decide)) (n % 10)
      (Nat.mod_lt _ (by decide))
    rw [digits, digits, append_lt_append (by simp), ih (div_lt_pow hm) (div_lt_pow hn),
      digits_inj (div_lt_pow hm) (div_lt_pow hn), List.cons_lt_cons_iff, hlast]
    simp only [lt_self_iff_false, and_false, or_false]
    omega

end ZeroPadded

end NdimonR
