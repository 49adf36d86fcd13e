import Mathlib.Data.List.Basic

/-! Runs of a system that takes one step after another, and what each step has to meet for an
invariant to hold all along. -/

namespace NdimonR.Steps

variable {S A : Type} (step : S → A → Option S)

/-- The state after some acts, where each of them can take place. -/
def after (s : S) (acts : List A) : Option S := acts.foldlM step s

/-- Every step of the run is taken with leave. -/
def Meets (leave : S → A → Prop) : S → List A → Prop
  | _, [] => True
  | s, a :: acts =>
    leave s a ∧ match step s a with
      | none => True
      | some s' => Meets leave s' acts

instance Meets.decide (leave : S → A → Prop) [∀ s a, Decidable (leave s a)] (s : S) :
    (acts : List A) → Decidable (Meets step leave s acts)
  | [] => isTrue trivial
  | a :: acts =>
    haveI : Decidable (match step s a with
        | none => True
        | some s' => Meets step leave s' acts) :=
      match step s a with
      | none => isTrue trivial
      | some s' => Meets.decide leave s' acts
    inferInstanceAs (Decidable (_ ∧ _))

variable {step}

theorem after_cons {s s' : S} {a : A} {acts : List A} : after step s (a :: acts) = some s' ↔
    ∃ between, step s a = some between ∧ after step between acts = some s' :=
  Option.bind_eq_some_iff

theorem after_append {s between s' : S} {acts more : List A} (h : after step s acts = some between)
    (hmore : after step between more = some s') : after step s (acts ++ more) = some s' := by
  rw [after, List.foldlM_append]
  exact Option.bind_eq_some_iff.mpr ⟨between, h, hmore⟩

/-- An invariant that every step with leave keeps holds after a run of such steps. -/
theorem Meets.inv {leave : S → A → Prop} {I : S → Prop} {s s' : S} {acts : List A}
    (hkeeps : ∀ t a t', I t → leave t a → step t a = some t' → I t')
    (hmeets : Meets step leave s acts) (hs : I s) (h : after step s acts = some s') : I s' := by
  induction acts generalizing s with
  | nil =>
    cases h
    exact hs
  | cons a acts ih =>
    obtain ⟨between, hstep, hrest⟩ := after_cons.mp h
    obtain ⟨hleave, hmore⟩ := hmeets
    rw [hstep] at hmore
    exact ih hmore (hkeeps s a between hs hleave hstep) hrest

theorem Meets.of_always {leave : S → A → Prop} {acts : List A} (h : ∀ a ∈ acts, ∀ t, leave t a)
    (s : S) : Meets step leave s acts := by
  induction acts generalizing s with
  | nil => trivial
  | cons a acts ih =>
    refine ⟨h a (.head _) s, ?_⟩
    cases step s a with
    | none => trivial
    | some between => exact ih (fun b hb => h b (.tail _ hb)) between

theorem Meets.of_forall {leave : A → Prop} {acts : List A} (h : ∀ a ∈ acts, leave a) (s : S) :
    Meets step (fun _ => leave) s acts := of_always (fun a ha _ => h a ha) s

theorem Meets.append {leave : S → A → Prop} {s between : S} {acts more : List A}
    (h : Meets step leave s acts) (hrun : after step s acts = some between)
    (hmore : Meets step leave between more) : Meets step leave s (acts ++ more) := by
  induction acts generalizing s with
  | nil =>
    cases hrun
    exact hmore
  | cons a acts ih =>
    obtain ⟨t, hstep, hrest⟩ := after_cons.mp hrun
    obtain ⟨hleave, hacts⟩ := h
    refine ⟨hleave, ?_⟩
    rw [hstep] at hacts ⊢
    exact ih hacts hrest

/-- An invariant that every step keeps holds after any run. -/
theorem after_inv {I : S → Prop} {s s' : S} {acts : List A}
    (hkeeps : ∀ t a t', I t → step t a = some t' → I t') (hs : I s)
    (h : after step s acts = some s') : I s' := by
  induction acts generalizing s with
  | nil =>
    cases h
    exact hs
  | cons a acts ih =>
    obtain ⟨between, hstep, hrest⟩ := after_cons.mp h
    exact ih (hkeeps s a between hs hstep) hrest

end NdimonR.Steps
