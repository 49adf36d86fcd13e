import Mathlib.Data.List.Sort
import Mathlib.Data.List.Nodup

/-! Sorting by a key, where equal keys keep their order. -/

namespace NdimonR

variable {α β κ : Type*} [LinearOrder κ]

def sortBy (key : α → κ) (l : List α) : List α := l.mergeSort fun a b => decide (key a ≤ key b)

namespace SortBy

variable {key : α → κ} {l l' : List α}

theorem perm (key : α → κ) (l : List α) : (sortBy key l).Perm l := List.mergeSort_perm l _

theorem mem_iff {a : α} : a ∈ sortBy key l ↔ a ∈ l := (perm key l).mem_iff

theorem sorted (key : α → κ) (l : List α) :
    (sortBy key l).Pairwise fun a b => key a ≤ key b := by
  have h := @List.pairwise_mergeSort α (fun a b => decide (key a ≤ key b))
    (fun a b c hab hbc => by
      simp only [decide_eq_true_eq] at hab hbc ⊢
      exact hab.trans hbc)
    (fun a b => by
      simp only [Bool.or_eq_true, decide_eq_true_eq]
      exact le_total (key a) (key b)) l
  exact h.imp fun hab => of_decide_eq_true hab

theorem of_sorted (h : l.Pairwise fun a b => key a ≤ key b) : sortBy key l = l :=
  List.mergeSort_of_pairwise (by simpa using h)

/-- What is sorted stays as it is. -/
theorem sortBy_sortBy (key : α → κ) (l : List α) : sortBy key (sortBy key l) = sortBy key l :=
  of_sorted (sorted key l)

/-- Without equal keys the order before does not matter. -/
theorem eq_of_perm (h : l.Perm l') (hkey : ∀ a ∈ l, ∀ b ∈ l, key a = key b → a = b) :
    sortBy key l = sortBy key l' := by
  refine List.Perm.eq_of_pairwise (fun a b ha hb hab hba => ?_) (sorted key l) (sorted key l')
    ((perm key l).trans (h.trans (perm key l').symm))
  exact hkey a (mem_iff.mp ha) b (h.mem_iff.mpr (mem_iff.mp hb)) (le_antisymm hab hba)

theorem map_sortBy {key' : β → κ} {f : α → β} (h : ∀ a, key' (f a) = key a) :
    (sortBy key l).map f = sortBy key' (l.map f) :=
  List.map_mergeSort fun a _ b _ => by rw [h, h]

end SortBy

end NdimonR
