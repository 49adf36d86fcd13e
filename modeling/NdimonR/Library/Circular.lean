import Mathlib.Data.Nat.Basic

/-! A circular buffer read at a distance behind its write position. -/

namespace NdimonR.Circular

variable {α : Type}

/-- The cell written `back` places before `pos`; none where the subtraction would go below zero. -/
def slot (size pos back : ℕ) : Option ℕ :=
  if back ≤ pos + size then some ((pos + size - back) % size) else none

/-- What is heard with the newest first, after one more. -/
def newest (x : α) (past : ℕ → α) : ℕ → α
  | 0 => x
  | k + 1 => past k

/-- The cells hold the last `size` values, the next of them to go in at `pos`. -/
def Holds (cell : ℕ → Option α) (size pos : ℕ) (past : ℕ → α) : Prop :=
  pos < size ∧ ∀ k, k < size → cell ((pos + size - 1 - k) % size) = some (past k)

theorem holds_start {cell : ℕ → Option α} {size : ℕ} {x : α} (positive : 0 < size)
    (filled : ∀ i, i < size → cell i = some x) : Holds cell size 0 fun _ => x :=
  ⟨positive, fun _ _ => filled _ (Nat.mod_lt _ positive)⟩

theorem slot_lt {size pos back i : ℕ} (positive : 0 < size) (h : slot size pos back = some i) :
    i < size := by
  simp only [slot] at h
  split at h
  · cases h
    exact Nat.mod_lt _ positive
  · cases h

/-- A place below twice the size, wrapped once. -/
theorem wrap_once {size i : ℕ} (h : i < 2 * size) :
    i % size = if i < size then i else i - size := by
  split
  · exact Nat.mod_eq_of_lt ‹_›
  · rw [Nat.mod_eq_sub_mod (by omega), Nat.mod_eq_of_lt (by omega)]

theorem slot_zero {size pos : ℕ} (h : pos < size) : slot size pos 0 = some pos := by
  rw [slot, if_pos (Nat.zero_le _), Nat.sub_zero, Nat.add_mod_right, Nat.mod_eq_of_lt h]

/-- Rings laid one after another do not share a cell. -/
theorem row_inj {size c d i j : ℕ} (hi : i < size) (hj : j < size) :
    c * size + i = d * size + j ↔ c = d ∧ i = j := by
  constructor
  · intro h
    have hc : (c * size + i) / size = c := by
      rw [Nat.mul_comm, Nat.mul_add_div (by omega), Nat.div_eq_of_lt hi, Nat.add_zero]
    have hd : (d * size + j) / size = d := by
      rw [Nat.mul_comm, Nat.mul_add_div (by omega), Nat.div_eq_of_lt hj, Nat.add_zero]
    have hrow : c = d := by rw [← hc, h, hd]
    subst hrow
    exact ⟨rfl, by omega⟩
  · rintro ⟨rfl, rfl⟩
    rfl

theorem row_lt {size c count i : ℕ} (hi : i < size) (hc : c < count) :
    c * size + i < count * size := by
  have hrows := Nat.mul_le_mul_right size hc
  rw [Nat.succ_mul] at hrows
  omega

/-- Writing at the position and reading `back` behind it gives the value of `back` ago. -/
theorem Holds.read {cell written : ℕ → Option α} {size pos back : ℕ} {past : ℕ → α} {x : α}
    (holds : Holds cell size pos past) (here : written pos = some x)
    (others : ∀ i, i < size → i ≠ pos → written i = cell i) (within : back < size) :
    ∃ i, slot size pos back = some i ∧ i < size ∧ written i = some (newest x past back) := by
  obtain ⟨hpos, hcells⟩ := holds
  cases back with
  | zero => exact ⟨pos, slot_zero hpos, hpos, here⟩
  | succ k =>
    have hslot : slot size pos (k + 1) = some ((pos + size - 1 - k) % size) := by
      rw [slot, if_pos (by omega)]
      congr 2
      omega
    refine ⟨_, hslot, Nat.mod_lt _ (by omega), ?_⟩
    rw [others _ (Nat.mod_lt _ (by omega)) ?_, hcells k (by omega)]
    · rfl
    · rw [wrap_once (by omega)]
      split <;> omega

/-- Writing at the position and moving on keeps the last `size` values. -/
theorem Holds.write {cell written : ℕ → Option α} {size pos : ℕ} {past : ℕ → α} {x : α}
    (holds : Holds cell size pos past) (here : written pos = some x)
    (others : ∀ i, i < size → i ≠ pos → written i = cell i) :
    Holds written size ((pos + 1) % size) (newest x past) := by
  have hpos := holds.1
  refine ⟨Nat.mod_lt _ (by omega), ?_⟩
  intro k hk
  obtain ⟨i, hslot, -, hread⟩ := holds.read here others hk
  have hplace : ((pos + 1) % size + size - 1 - k) % size = i := by
    rw [slot, if_pos (by omega), Option.some.injEq] at hslot
    rw [← hslot, wrap_once (i := pos + 1) (by omega), wrap_once (i := pos + size - k) (by omega)]
    split
    · rw [wrap_once (by omega)]
      split <;> split <;> omega
    · rw [wrap_once (by omega)]
      split <;> split <;> omega
  rw [hplace]
  exact hread

end NdimonR.Circular
