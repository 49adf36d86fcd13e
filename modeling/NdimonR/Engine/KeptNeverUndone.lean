import NdimonR.Engine.Ledger

/-! A kept change stays: once the engine has loaded the decision of a job, it never works on the
network for that job again. -/

namespace NdimonR.Engine

open NdimonR.Types

/-- The event puts back something from before the job. -/
def Event.restores (j : Journal) : Event → Bool
  | .wrote job path image =>
    job == j.jobId && j.plan.files.any fun c => c.path == path && c.before == image
  | .table job rules => job == j.jobId && rules == j.plan.oldTable
  | .activated job p => job == j.jobId && p == j.plan.previous
  | _ => false

/-- The trace holds, newest first, a load of this journal's decision. -/
structure LoadedKept (trace later earlier : List Event) (c : Commit) (j : Journal) : Prop where
  split : trace = later ++ .loaded c :: earlier
  staged : .staged j ∈ trace
  decides : c.decides j = true

/-- After the load nothing is done for the job but the removal of its banner: no table is loaded,
nothing is activated and no other file is written, whatever failed, crashed or rebooted. -/
theorem kept_never_undone {config : EngineConfig} {allowed : Step → Prop} {w : World}
    {later earlier : List Event} {c : Commit} {j : Journal} (h : Reachable config allowed w)
    (hl : LoadedKept w.trace later earlier c j) : ∀ e ∈ later, ¬ e.undoes j.jobId := by
  have huntouched : Untouched j w.trace := h.ledger.untouched j hl.staged
  rw [hl.split] at huntouched
  exact huntouched.later hl.decides

/-- A confirm whose commit succeeded but was reported as failed, so that it reads the decision
back. -/
def studioKept : List Step :=
  studioApplied ++
    [.call (.confirm studioId none) [{}, {}, {}, {}, { fault := .failAfter .expired }]]

/-- In this run the decision is loaded, and then the banner is removed. -/
def removesAfterLoad : List Event → Bool
  | _ :: e :: .loaded c :: earlier =>
    earlier.any fun
      | .staged j => c.decides j && e.restores j
      | _ => false
  | _ => false

theorem studio_kept : ∃ later earlier c j,
    LoadedKept (studio.run studioConfig studioKept).trace later earlier c j ∧
      ∃ e ∈ later, e.restores j = true := by
  have hcheck : removesAfterLoad (studio.run studioConfig studioKept).trace = true := by
    decide +kernel
  generalize (studio.run studioConfig studioKept).trace = trace at hcheck ⊢
  unfold removesAfterLoad at hcheck
  split at hcheck
  · rename_i f e c earlier
    obtain ⟨s, hs, hj⟩ := List.any_eq_true.mp hcheck
    cases s with
    | staged j =>
      obtain ⟨hdecides, hrestores⟩ := Bool.and_eq_true_iff.mp hj
      refine ⟨[f, e], earlier, c, j, ⟨rfl, ?_, hdecides⟩, e, by simp, hrestores⟩
      simp [hs]
    | loaded | wrote | table | activated | decided | finished | addresses | kept | released =>
      cases hj
  · cases hcheck

theorem studio_reachable (steps : List Step) :
    Reachable studioConfig (fun _ => True) (studio.run studioConfig steps) :=
  (Reachable.init studio_initial).run steps fun _ _ => trivial

/-- After a loaded decision, the banner's before-image is written. -/
theorem kept_restores_nothing_false : ¬ ∀ (w : World) (later earlier : List Event) (c : Commit)
    (j : Journal), Reachable studioConfig (fun _ => True) w →
      LoadedKept w.trace later earlier c j → ∀ e ∈ later, e.restores j = false := by
  intro hclaim
  obtain ⟨later, earlier, c, j, hl, e, he, hr⟩ := studio_kept
  have hfalse := hclaim _ later earlier c j (studio_reachable studioKept) hl e he
  rw [hr] at hfalse
  cases hfalse

theorem kept_never_undone_studio : ∃ later earlier c j,
    LoadedKept (studio.run studioConfig studioKept).trace later earlier c j ∧
      ∀ e ∈ later, ¬ e.undoes j.jobId := by
  obtain ⟨later, earlier, c, j, hl, _⟩ := studio_kept
  exact ⟨later, earlier, c, j, hl, kept_never_undone (studio_reachable studioKept) hl⟩

end NdimonR.Engine
