import NdimonR.Display.Rects

/-! The mode that a source's size and frame rate select, and the mode that the display then sets. -/

namespace NdimonR.Display

structure DRMMode where
  width : ℕ
  height : ℕ
  /-- To a hundredth of a hertz. -/
  refreshHz : ℚ
  deriving DecidableEq

/-- A source's size, as an `int` that is not negative, and its frame rate. -/
structure SourceMode where
  width : ℕ
  height : ℕ
  rateN : ℤ
  rateD : ℤ

/-- Zero where the source has no frame rate. -/
def SourceMode.hz (src : SourceMode) : ℚ :=
  if src.rateN > 0 ∧ src.rateD > 0 then double (src.rateN / src.rateD) else 0

def score (src : SourceMode) (m : DRMMode) : ℚ :=
  let dw : ℤ := m.width - src.width
  let dh : ℤ := m.height - src.height
  let score : ℚ :=
    if dw = 0 ∧ dh = 0 then 0
    else if 0 ≤ dw ∧ 0 ≤ dh then 1000 + dw + dh
    else 2000 + |dw| + |dh|
  if src.hz > 0 then double (score + double (double |m.refreshHz - src.hz| * 10)) else score

/-- One turn of the loop over the modes. -/
def better (src : SourceMode) (best : Option DRMMode × ℚ) (m : DRMMode) : Option DRMMode × ℚ :=
  if score src m < best.2 then (some m, score src m) else best

def bestMode (modes : List DRMMode) (src : SourceMode) : Option DRMMode :=
  (modes.foldl (better src) (none, 1000000000)).1

/-- Whether two refresh rates are one within 0.02 Hz. -/
def SameRate (a b : ℚ) : Prop := double |a - b| < double (1 / 50)

instance (a b : ℚ) : Decidable (SameRate a b) :=
  inferInstanceAs (Decidable (double |a - b| < double (1 / 50)))

/-- The mode of the list that `set_mode` takes. -/
def modeToSet (modes : List DRMMode) (w h : ℕ) (refreshHz : ℚ) : Option DRMMode :=
  modes.find? fun m =>
    m.width = w ∧ m.height = h ∧ (refreshHz = 0 ∨ SameRate m.refreshHz refreshHz)

/-! ### The documented order -/

/-- Exactly the source's resolution, at least as large in both directions, or any other. -/
def sizeClass (src : SourceMode) (m : DRMMode) : ℕ :=
  if m.width = src.width ∧ m.height = src.height then 0
  else if src.width ≤ m.width ∧ src.height ≤ m.height then 1
  else 2

def distance (src : SourceMode) (m : DRMMode) : ℕ :=
  ((m.width : ℤ) - src.width).natAbs + ((m.height : ℤ) - src.height).natAbs

/-- How far the refresh rate is from the frame rate, if there is one. -/
def rateGap (src : SourceMode) (m : DRMMode) : ℚ :=
  if src.rateN > 0 ∧ src.rateD > 0 then |m.refreshHz - src.rateN / src.rateD| else 0

/-- The class decides, then the distance, and then the refresh rate. -/
def AtLeastAsGood (src : SourceMode) (a b : DRMMode) : Prop :=
  sizeClass src a < sizeClass src b ∨ sizeClass src a = sizeClass src b ∧
    (distance src a < distance src b ∨ distance src a = distance src b ∧
      rateGap src a ≤ rateGap src b)

structure KeepsOrder (modes : List DRMMode) (src : SourceMode) (m : DRMMode) : Prop where
  selected : bestMode modes src = some m
  best : ∀ m' ∈ modes, AtLeastAsGood src m m'
  found : ∃ m', modeToSet modes m.width m.height m.refreshHz = some m' ∧
    (m'.width = m.width ∧ m'.height = m.height) ∧ SameRate m'.refreshHz m.refreshHz

/-- A thousand for the class, one for each pixel and ten for each hertz, in doubles. -/
def weight (src : SourceMode) (m : DRMMode) : ℚ :=
  let size : ℚ := 1000 * sizeClass src m + distance src m
  if src.rateN > 0 ∧ src.rateD > 0 then
    double (size + double (double |m.refreshHz - double (src.rateN / src.rateD)| * 10))
  else size

/-- A best mode, where no other weighs less, none before it as little, and all less than a billion.
One whose refresh rate is not known is the first of its size. -/
structure Prevails (modes : List DRMMode) (src : SourceMode) (m : DRMMode) : Prop where
  best : ∀ m' ∈ modes, AtLeastAsGood src m m'
  lightest : ∃ before after, modes = before ++ m :: after ∧
    (∀ m' ∈ before, weight src m < weight src m') ∧ ∀ m' ∈ after, weight src m ≤ weight src m'
  light : weight src m < 1000000000
  known : m.refreshHz = 0 → ∀ m' before after, modes = before ++ m' :: after →
    (m'.width = m.width ∧ m'.height = m.height) →
      (∀ m'' ∈ before, ¬ (m''.width = m.width ∧ m''.height = m.height)) →
      SameRate m'.refreshHz 0

/-! ### The score -/

theorem distance_exact {src : SourceMode} {m : DRMMode} (hw : m.width = src.width)
    (hh : m.height = src.height) : distance src m = 0 := by
  rw [distance, hw, hh]
  omega

theorem hz_pos_iff {src : SourceMode} : src.hz > 0 ↔ src.rateN > 0 ∧ src.rateD > 0 := by
  unfold SourceMode.hz
  split_ifs with hrate
  · have hn : (0 : ℚ) < src.rateN := Int.cast_pos.mpr hrate.1
    have hd : (0 : ℚ) < src.rateD := Int.cast_pos.mpr hrate.2
    exact iff_of_true (Rounding.toDigits_pos (by omega) (div_pos hn hd)) hrate
  · exact iff_of_false (lt_irrefl 0) hrate

theorem score_size (src : SourceMode) (m : DRMMode) :
    (if (m.width : ℤ) - src.width = 0 ∧ (m.height : ℤ) - src.height = 0 then (0 : ℚ)
      else if 0 ≤ (m.width : ℤ) - src.width ∧ 0 ≤ (m.height : ℤ) - src.height then
        1000 + (((m.width : ℤ) - src.width : ℤ) : ℚ) + (((m.height : ℤ) - src.height : ℤ) : ℚ)
      else 2000 + ((|(m.width : ℤ) - src.width| : ℤ) : ℚ) +
        ((|(m.height : ℤ) - src.height| : ℤ) : ℚ)) =
      1000 * (sizeClass src m : ℚ) + (distance src m : ℚ) := by
  by_cases hexact : m.width = src.width ∧ m.height = src.height
  · obtain ⟨hw, hh⟩ := hexact
    rw [if_pos (by omega), sizeClass, if_pos ⟨hw, hh⟩, distance_exact hw hh]
    norm_num
  · rw [if_neg (by omega), sizeClass, if_neg hexact, distance, Nat.cast_add, Nat.cast_natAbs,
      Nat.cast_natAbs]
    by_cases hlarge : src.width ≤ m.width ∧ src.height ≤ m.height
    · rw [if_pos (by omega), if_pos hlarge, abs_of_nonneg (by omega), abs_of_nonneg (by omega)]
      push_cast
      ring
    · rw [if_neg (by omega), if_neg hlarge]
      push_cast
      ring

theorem score_eq_weight (src : SourceMode) (m : DRMMode) : score src m = weight src m := by
  have hsize := score_size src m
  unfold score weight
  dsimp only
  rw [hsize]
  by_cases hrate : src.rateN > 0 ∧ src.rateD > 0
  · rw [if_pos (hz_pos_iff.mpr hrate), if_pos hrate, SourceMode.hz, if_pos hrate]
  · rw [if_neg (fun hpos => hrate (hz_pos_iff.mp hpos)), if_neg hrate]

/-! ### The first mode of the least score -/

section
variable {src : SourceMode} {modes : List DRMMode}

/-- Nothing below what was found. -/
theorem better_keeps {best : Option DRMMode × ℚ} (h : ∀ m ∈ modes, best.2 ≤ score src m) :
    modes.foldl (better src) best = best := by
  induction modes with
  | nil => rfl
  | cons m modes ih =>
    have hkeep : better src best m = best := if_neg (not_lt.mpr (h m List.mem_cons_self))
    rw [List.foldl_cons, hkeep]
    exact ih fun m' hm' => h m' (List.mem_cons_of_mem m hm')

theorem better_above {best : Option DRMMode × ℚ} {c : ℚ} (hbest : c < best.2)
    (h : ∀ m ∈ modes, c < score src m) : c < (modes.foldl (better src) best).2 := by
  induction modes generalizing best with
  | nil => exact hbest
  | cons m modes ih =>
    rw [List.foldl_cons]
    refine ih ?_ fun m' hm' => h m' (List.mem_cons_of_mem m hm')
    unfold better
    split_ifs
    · exact h m List.mem_cons_self
    · exact hbest

/-- What is found is the first of the least score, below what there was before. -/
theorem better_found (best : Option DRMMode × ℚ) :
    (modes.foldl (better src) best = best ∧ ∀ m ∈ modes, best.2 ≤ score src m) ∨
      ∃ before m after, modes = before ++ m :: after ∧
        modes.foldl (better src) best = (some m, score src m) ∧ score src m < best.2 ∧
        (∀ m' ∈ before, score src m < score src m') ∧ ∀ m' ∈ after, score src m ≤ score src m' := by
  induction modes using List.reverseRecOn with
  | nil => exact .inl ⟨rfl, by simp⟩
  | append_singleton modes last ih =>
    rw [List.foldl_append, List.foldl_cons, List.foldl_nil]
    by_cases hlast : score src last < (modes.foldl (better src) best).2
    · -- the last mode is below all before it
      right
      have hall : score src last < best.2 ∧ ∀ m' ∈ modes, score src last < score src m' := by
        rcases ih with ⟨hsame, hnone⟩ | ⟨before, m, after, rfl, hfold, hless, hbefore, hafter⟩
        · rw [hsame] at hlast
          exact ⟨hlast, fun m' hm' => lt_of_lt_of_le hlast (hnone m' hm')⟩
        · rw [hfold] at hlast
          refine ⟨hlast.trans hless, fun m' hm' => ?_⟩
          rcases List.mem_append.mp hm' with hm' | hm'
          · exact hlast.trans (hbefore m' hm')
          · rcases List.mem_cons.mp hm' with rfl | hm'
            · exact hlast
            · exact lt_of_lt_of_le hlast (hafter m' hm')
      refine ⟨modes, last, [], rfl, ?_, hall.1, hall.2, by simp⟩
      rw [better, if_pos hlast]
    · have hkeep : better src (modes.foldl (better src) best) last =
          modes.foldl (better src) best := if_neg hlast
      rw [hkeep]
      rcases ih with ⟨hsame, hnone⟩ | ⟨before, m, after, rfl, hfold, hless, hbefore, hafter⟩
      · refine .inl ⟨hsame, fun m' hm' => ?_⟩
        rcases List.mem_append.mp hm' with hm' | hm'
        · exact hnone m' hm'
        · rw [List.mem_singleton.mp hm']
          rw [hsame] at hlast
          exact not_lt.mp hlast
      · refine .inr ⟨before, m, after ++ [last], by simp, hfold, hless, hbefore, fun m' hm' => ?_⟩
        rcases List.mem_append.mp hm' with hm' | hm'
        · exact hafter m' hm'
        · rw [List.mem_singleton.mp hm']
          rw [hfold] at hlast
          exact not_lt.mp hlast

/-- The mode that is selected is the first of the least weight, if that is below a billion. -/
theorem bestMode_eq_some_iff {m : DRMMode} : bestMode modes src = some m ↔
    weight src m < 1000000000 ∧ ∃ before after, modes = before ++ m :: after ∧
      (∀ m' ∈ before, weight src m < weight src m') ∧
        ∀ m' ∈ after, weight src m ≤ weight src m' := by
  simp only [← score_eq_weight]
  unfold bestMode
  constructor
  · intro h
    rcases @better_found src modes (none, 1000000000) with
      ⟨hsame, -⟩ | ⟨before, m', after, hmodes, hfold, hless, hbefore, hafter⟩
    · rw [hsame] at h
      cases h
    · rw [hfold] at h
      cases h
      exact ⟨hless, before, after, hmodes, hbefore, hafter⟩
  · rintro ⟨hlight, before, after, rfl, hbefore, hafter⟩
    rw [List.foldl_append, List.foldl_cons]
    have habove : score src m < (before.foldl (better src) (none, 1000000000)).2 :=
      better_above hlight hbefore
    have htaken : better src (before.foldl (better src) (none, 1000000000)) m =
        (some m, score src m) := if_pos habove
    rw [htaken, better_keeps hafter]

/-! ### The mode that is set -/

theorem sameRate_self (a : ℚ) : SameRate a a := by
  have hzero : double |a - a| = 0 := by
    rw [sub_self, abs_zero, double, Rounding.toDigits, zero_div]
    norm_num [Rounding.nearestEven]
  rw [SameRate, hzero]
  exact Rounding.toDigits_pos (by omega) (by norm_num)

/-- `set_mode` finds a mode again by its refresh rate, or the first of its size where that is
zero. -/
theorem modeToSet_found {m : DRMMode} (hm : m ∈ modes) :
    (∃ m', modeToSet modes m.width m.height m.refreshHz = some m' ∧
      (m'.width = m.width ∧ m'.height = m.height) ∧ SameRate m'.refreshHz m.refreshHz) ↔
    (m.refreshHz = 0 → ∀ m' before after, modes = before ++ m' :: after →
      (m'.width = m.width ∧ m'.height = m.height) →
        (∀ m'' ∈ before, ¬ (m''.width = m.width ∧ m''.height = m.height)) →
        SameRate m'.refreshHz 0) := by
  constructor
  · rintro ⟨found, hfound, -, hrate⟩ hzero m' before after rfl hsize hbefore
    have hfirst : modeToSet (before ++ m' :: after) m.width m.height m.refreshHz = some m' := by
      rw [modeToSet, List.find?_append, List.find?_cons_of_pos (by simp [hsize, hzero])]
      have hnone : (before.find? fun m'' => m''.width = m.width ∧ m''.height = m.height ∧
          (m.refreshHz = 0 ∨ SameRate m''.refreshHz m.refreshHz)) = none := by
        rw [List.find?_eq_none]
        intro m'' hm''
        have := hbefore m'' hm''
        simp only [decide_eq_true_eq]
        tauto
      rw [hnone]
      rfl
    rw [hfirst] at hfound
    cases hfound
    rwa [hzero] at hrate
  · intro hknown
    cases hfind : modeToSet modes m.width m.height m.refreshHz with
    | none =>
      have := List.find?_eq_none.mp hfind m hm
      simp [sameRate_self] at this
    | some m' =>
      obtain ⟨hprop, before, after, hmodes, hbefore⟩ := List.find?_eq_some_iff_append.mp hfind
      simp only [decide_eq_true_eq] at hprop
      obtain ⟨hw, hh, hrate⟩ := hprop
      refine ⟨m', rfl, ⟨hw, hh⟩, ?_⟩
      rcases hrate with hzero | hrate
      · rw [hzero]
        refine hknown hzero m' before after hmodes ⟨hw, hh⟩ fun m'' hm'' hsize => ?_
        have := hbefore m'' hm''
        simp [hsize, hzero] at this
      · exact hrate

end

end NdimonR.Display
