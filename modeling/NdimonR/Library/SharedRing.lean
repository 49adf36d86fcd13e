import Mathlib.Data.List.GetD
import NdimonR.Library.Circular

/-! A ring of several rows that one side writes and another reads.

Entries are counted without end; what is between the two counts, never more than the rows are long,
lies in cells of its own. -/

namespace NdimonR.SharedRing

open Circular

variable {α : Type}

/-- The cell of row `c` for the entry counted `k`. -/
def cell (size c k : ℕ) : ℕ := c * size + k % size

theorem cell_lt {size rows c k : ℕ} (hsize : 0 < size) (hc : c < rows) :
    cell size c k < rows * size := row_lt (Nat.mod_lt _ hsize) hc

theorem eq_of_mod {size j k : ℕ} (hle : j ≤ k) (hnear : k < j + size) (h : j % size = k % size) :
    j = k := by
  have hzero := Nat.sub_mod_eq_zero_of_mod_eq h.symm
  rw [Nat.mod_eq_of_lt (by omega)] at hzero
  omega

/-- Entries less than a round apart do not share a cell. -/
theorem cell_inj {size c d j k lo : ℕ} (hj : lo ≤ j) (hj' : j < lo + size) (hk : lo ≤ k)
    (hk' : k < lo + size) : cell size c j = cell size d k ↔ c = d ∧ j = k := by
  have hsize : 0 < size := by omega
  rw [cell, cell, row_inj (Nat.mod_lt _ hsize) (Nat.mod_lt _ hsize)]
  refine and_congr_right fun _ => ⟨fun h => ?_, fun h => by rw [h]⟩
  rcases Nat.le_total j k with hle | hle
  · exact eq_of_mod hle (by omega) h
  · exact (eq_of_mod hle (by omega) h.symm).symm

/-- The cells of the entries from `lo` up to `hi` hold them. -/
def Holds (ring : List α) (size rows lo hi : ℕ) (entry : ℕ → ℕ → Option α) : Prop :=
  ∀ k, lo ≤ k → k < hi → ∀ c, c < rows → ring[cell size c k]? = entry k c

theorem Holds.nil {ring : List α} {size rows lo : ℕ} {entry : ℕ → ℕ → Option α} :
    Holds ring size rows lo lo entry := by
  intro k hlo hhi
  omega

theorem Holds.drop {ring : List α} {size rows lo lo' hi : ℕ} {entry : ℕ → ℕ → Option α}
    (h : Holds ring size rows lo hi entry) (hlo : lo ≤ lo') : Holds ring size rows lo' hi entry :=
  fun k hk hk' c hc => h k (Nat.le_trans hlo hk) hk' c hc

/-- Writing an entry that is not among them leaves them. -/
theorem Holds.set {ring : List α} {size rows lo hi k d : ℕ} {entry : ℕ → ℕ → Option α} {x : α}
    (h : Holds ring size rows lo hi entry) (hhi : hi ≤ k) (hk : k < lo + size) :
    Holds (ring.set (cell size d k) x) size rows lo hi entry := by
  intro j hj hj' c hc
  have hne : cell size d k ≠ cell size c j := by
    intro heq
    have hsame := (cell_inj (by omega : lo ≤ k) hk hj (by omega)).mp heq
    omega
  rw [List.getElem?_set_ne hne]
  exact h j hj hj' c hc

/-! ### Copying row by row -/

/-- The places a loop over rows of `n` has done, standing at `i` of row `c`. -/
def Done (c i : ℕ) (d j : ℕ) : Prop := d < c ∨ d = c ∧ j < i

theorem done_next_row {n c i : ℕ} (hi : ¬ i < n) {d j : ℕ} (hj : j < n)
    (h : Done (c + 1) 0 d j) : Done c i d j := by
  unfold Done at *
  omega

theorem done_succ {c i d j : ℕ} (h : Done c (i + 1) d j) : Done c i d j ∨ d = c ∧ j = i := by
  unfold Done at *
  omega

theorem not_done_start {d j : ℕ} : ¬ Done 0 0 d j := by
  unfold Done
  omega

theorem done_all {rows c d j : ℕ} {i : ℕ} (hc : ¬ c < rows) (hd : d < rows) : Done c i d j := by
  unfold Done
  omega

end NdimonR.SharedRing
