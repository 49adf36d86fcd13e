import Mathlib.Order.Compare

/-! Lists compared position by position, where a list that has ended goes on with a default. -/

namespace NdimonR

variable {α : Type} {cmp : α → α → Ordering} {d : α}

def padded (cmp : α → α → Ordering) (d : α) : List α → List α → Ordering
  | [], bs => bs.foldr (fun b rest => (cmp d b).then rest) .eq
  | a :: as, bs => (cmp a (bs.headD d)).then (padded cmp d as bs.tail)

/-- Every position is compared alike, beyond the ends too. -/
theorem padded_step (hd : cmp d d = .eq) (as bs : List α) :
    padded cmp d as bs =
      (cmp (as.headD d) (bs.headD d)).then (padded cmp d as.tail bs.tail) := by
  cases as with
  | cons a as => rfl
  | nil =>
    cases bs with
    | nil => simp [padded, hd]
    | cons b bs => rfl

/-- A fact about the padded order, from one position to the whole. -/
theorem padded_induction {motive : List α → List α → Prop} (hnil : motive [] [])
    (hstep : ∀ as bs, motive as.tail bs.tail → motive as bs) (as bs : List α) : motive as bs := by
  induction as generalizing bs with
  | nil =>
    induction bs with
    | nil => exact hnil
    | cons b bs ih => exact hstep [] (b :: bs) ih
  | cons a as ih => exact hstep (a :: as) bs (ih bs.tail)

instance [Std.OrientedCmp cmp] : Std.OrientedCmp (padded cmp d) where
  eq_swap {as bs} := by
    have hd : cmp d d = .eq := Std.ReflCmp.compare_self
    induction as, bs using padded_induction with
    | hnil => rfl
    | hstep as bs ih =>
      rw [padded_step hd as bs, padded_step hd bs as, ih, Ordering.swap_then,
        @Std.OrientedCmp.eq_swap α cmp _ (as.headD d)]

instance [Std.TransCmp cmp] : Std.TransCmp (padded cmp d) where
  isLE_trans {as bs cs} hab hbc := by
    have hd : cmp d d = .eq := Std.ReflCmp.compare_self
    induction as, bs using padded_induction generalizing cs with
    | hnil => exact hbc
    | hstep as bs ih =>
      rw [padded_step hd, Ordering.isLE_then_iff_and] at hab hbc ⊢
      obtain ⟨hhead, hrest⟩ := hab
      obtain ⟨hhead', hrest'⟩ := hbc
      refine ⟨Std.TransCmp.isLE_trans hhead hhead', ?_⟩
      rcases hrest with hlt | hle
      · exact .inl (Std.TransCmp.lt_of_lt_of_isLE hlt hhead')
      · rcases hrest' with hlt' | hle'
        · exact .inl (Std.TransCmp.lt_of_isLE_of_lt hhead hlt')
        · exact .inr (ih hle hle')

theorem oriented_along {β : Type} (cmp : α → α → Ordering) (f : β → α) [Std.OrientedCmp cmp] :
    Std.OrientedCmp fun x y => cmp (f x) (f y) where
  eq_swap {x y} := @Std.OrientedCmp.eq_swap α cmp _ (f x) (f y)

/-- An order of what a function gives. -/
theorem trans_along {β : Type} (cmp : α → α → Ordering) (f : β → α) [Std.TransCmp cmp] :
    Std.TransCmp fun x y => cmp (f x) (f y) where
  toOrientedCmp := oriented_along cmp f
  isLE_trans {x y z} := @Std.TransCmp.isLE_trans α cmp _ (f x) (f y) (f z)

end NdimonR
