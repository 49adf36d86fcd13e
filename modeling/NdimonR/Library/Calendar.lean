import Mathlib.Data.Nat.Basic
import Mathlib.Data.Prod.Lex
import Mathlib.Tactic.IntervalCases

/-! The Gregorian calendar, counted from the first of January of the year 0. -/

namespace NdimonR.Calendar

def isLeap (year : Nat) : Bool := year % 4 = 0 && (year % 100 ≠ 0 || year % 400 = 0)

def yearLength (year : Nat) : Nat := if isLeap year then 366 else 365

def monthLength (year month : Nat) : Nat :=
  if month = 2 then if isLeap year then 29 else 28
  else if month = 4 ∨ month = 6 ∨ month = 9 ∨ month = 11 then 30
  else 31

/-- The days before the first of January. -/
def yearStart : Nat → Nat
  | 0 => 0
  | year + 1 => yearStart year + yearLength year

/-- The days of a year before the month after `months`. -/
def monthStart (year : Nat) : (months : Nat) → Nat
  | 0 => 0
  | months + 1 => monthStart year months + monthLength year (months + 1)

@[ext] structure Date where
  year : Nat
  month : Nat
  day : Nat
  deriving DecidableEq

structure Date.Valid (date : Date) : Prop where
  month : 1 ≤ date.month ∧ date.month ≤ 12
  day : 1 ≤ date.day ∧ date.day ≤ monthLength date.year date.month

/-- The days before a date. -/
def Date.number (date : Date) : Nat :=
  yearStart date.year + monthStart date.year (date.month - 1) + (date.day - 1)

/-- Which of two dates the calendar has first. -/
def Date.Before (a b : Date) : Prop :=
  a.year < b.year ∨ a.year = b.year ∧ (a.month < b.month ∨ a.month = b.month ∧ a.day < b.day)

/-! ### Years and months -/

theorem isLeap_iff {year : Nat} :
    isLeap year = true ↔ year % 4 = 0 ∧ (year % 100 ≠ 0 ∨ year % 400 = 0) := by
  simp [isLeap]

theorem monthStart_twelve (year : Nat) : monthStart year 12 = yearLength year := by
  unfold yearLength
  cases hleap : isLeap year <;> simp [monthStart, monthLength, hleap]

theorem yearStart_mono {a b : Nat} (h : a ≤ b) : yearStart a ≤ yearStart b := by
  induction b with
  | zero => rw [Nat.le_zero.mp h]
  | succ b ih =>
    rcases Nat.le_or_eq_of_le_succ h with hle | rfl
    · exact (ih hle).trans (Nat.le_add_right _ _)
    · exact le_rfl

theorem monthStart_mono (year : Nat) {a b : Nat} (h : a ≤ b) :
    monthStart year a ≤ monthStart year b := by
  induction b with
  | zero => rw [Nat.le_zero.mp h]
  | succ b ih =>
    rcases Nat.le_or_eq_of_le_succ h with hle | rfl
    · exact (ih hle).trans (Nat.le_add_right _ _)
    · exact le_rfl

theorem monthStart_succ {year month : Nat} (h : 1 ≤ month) :
    monthStart year month = monthStart year (month - 1) + monthLength year month := by
  obtain ⟨k, rfl⟩ : ∃ k, month = k + 1 := ⟨month - 1, by omega⟩
  rfl

namespace Date

variable {a b : Date}

/-- A date lies in its month. -/
theorem Valid.number_lt (h : a.Valid) :
    a.number < yearStart a.year + monthStart a.year a.month := by
  have hmonth := @monthStart_succ a.year a.month h.month.1
  have hday := h.day
  unfold number
  omega

theorem Valid.number_lt_year (h : a.Valid) : a.number < yearStart (a.year + 1) := by
  have hlt := h.number_lt
  have hmono := monthStart_mono a.year h.month.2
  rw [monthStart_twelve] at hmono
  change _ < yearStart a.year + yearLength a.year
  omega

/-- Earlier dates have smaller numbers. -/
theorem Before.number_lt (h : a.Before b) (ha : a.Valid) : a.number < b.number := by
  rcases h with hyear | ⟨hyear, hmonth | ⟨hmonth, hday⟩⟩
  · have hlt := ha.number_lt_year
    have hmono := yearStart_mono (show a.year + 1 ≤ b.year from hyear)
    unfold number at hlt ⊢
    omega
  · have hlt := ha.number_lt
    have hmono := monthStart_mono a.year (show a.month ≤ b.month - 1 by omega)
    rw [number, number, ← hyear] at *
    omega
  · have hpos := ha.day.1
    rw [number, number, hyear, hmonth]
    omega

theorem before_or_eq (a b : Date) : a.Before b ∨ a = b ∨ b.Before a := by
  unfold Before
  by_cases heq : a = b
  · exact .inr (.inl heq)
  · have hne : ¬ (a.year = b.year ∧ a.month = b.month ∧ a.day = b.day) := by
      rintro ⟨hy, hm, hd⟩
      exact heq (Date.ext hy hm hd)
    omega

/-- The numbers order dates as the calendar does. -/
theorem before_iff (ha : a.Valid) (hb : b.Valid) : a.Before b ↔ a.number < b.number := by
  refine ⟨fun h => h.number_lt ha, fun h => ?_⟩
  rcases before_or_eq a b with hlt | rfl | hgt
  · exact hlt
  · exact absurd h (lt_irrefl _)
  · exact absurd (hgt.number_lt hb) (not_lt.mpr h.le)

/-- No other date has the number of a date. -/
theorem eq_of_number (ha : a.Valid) (hb : b.Valid) (h : a.number = b.number) : a = b := by
  rcases before_or_eq a b with hlt | rfl | hgt
  · exact absurd (hlt.number_lt ha) (by omega)
  · rfl
  · exact absurd (hgt.number_lt hb) (by omega)

end Date

/-! ### Years that begin in March -/

/-- The days before the first of March, in closed form. -/
theorem marchStart (year : Nat) : yearStart year + monthStart year 2 + year / 100 =
    60 + 365 * year + year / 4 + year / 400 := by
  induction year with
  | zero => rfl
  | succ year ih =>
    have hnext : yearStart (year + 1) = yearStart year + yearLength year := rfl
    have hmonths : ∀ y, monthStart y 2 = if isLeap y then 60 else 59 := by
      intro y
      cases hleap : isLeap y <;> simp [monthStart, monthLength, hleap]
    rw [hmonths] at ih
    rw [hnext, hmonths, Nat.succ_div, Nat.succ_div, Nat.succ_div]
    unfold yearLength
    clear hnext hmonths
    by_cases h : isLeap year = true
    · have hyear := isLeap_iff.mp h
      have hnot : ¬ isLeap (year + 1) = true := by
        rw [isLeap_iff]
        omega
      rw [if_pos h] at ih ⊢
      rw [if_neg hnot]
      split_ifs <;> omega
    · rw [if_neg h] at ih ⊢
      by_cases hsucc : isLeap (year + 1) = true
      · have hyear := isLeap_iff.mp hsucc
        rw [if_pos hsucc]
        split_ifs <;> omega
      · have hyear := mt isLeap_iff.mpr hsucc
        rw [if_neg hsucc]
        split_ifs <;> omega

end NdimonR.Calendar
