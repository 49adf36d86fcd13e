import NdimonR.Engine.Recovery

/-! The whole recovery: from the journal that says it has begun to the journal that is gone, or
that says why it stays. -/

namespace NdimonR.Engine

open NdimonR.Types

variable {A : Journal → World → Prop} {G : Prop} {K P : Frame → Prop}

/-- Between the first durable word of a recovery and its end. The journal may already be removed
by an attempt that then reported an error; its files are restored then. -/
structure Recovering (f : Frame) : Prop where
  wf : f.world.Wf
  ok : JournalOk f.job
  undecided : f.world.authority.decides f.job = false
  rank : f.job.phase.rank = 3
  recovery : f.job.recoveryPending = true
  released : f.job.handoffRestored = true → Restored f.world.files f.job
  durable : ∃ d, Advance d f.job ∧ ((f.world.pending = some d ∧ d.phase ≠ .staged) ∨
    (f.world.pending = none ∧ f.world.quiesced = false ∧
      (∃ files, .finished d false files ∈ f.world.trace) ∧ Restored f.world.files f.job ∧
        ∀ t, f.job.handoff = some t → f.job.handoffRestored = true ∧ Freed t f.world))

theorem Recovering.moved {f : Frame} {w : World} (h : Recovering f) (hw : w.Wf)
    (hp : w.pending = f.world.pending) (hq : w.quiesced = f.world.quiesced)
    (hd : ∀ j, w.authority.decides j = f.world.authority.decides j) (hf : w.files = f.world.files)
    (ht : ∀ e ∈ f.world.trace, e ∈ w.trace)
    (hx : w.pending = none → w.peerExternal = f.world.peerExternal) :
    Recovering { f with world := w } := by
  obtain ⟨d, ha, hdur⟩ := h.durable
  refine ⟨hw, h.ok, (hd _).trans h.undecided, h.rank, h.recovery, ?_, d, ha, ?_⟩
  · intro hr
    change Restored w.files f.job
    rw [hf]
    exact h.released hr
  · rcases hdur with ⟨hsome, hs⟩ | ⟨hnone, hquiet, ⟨files, he⟩, hrest, hfree⟩
    · exact .inl ⟨hp.trans hsome, hs⟩
    · refine .inr ⟨hp.trans hnone, hq.trans hquiet, ⟨files, ht _ he⟩, ?_, fun t hh => ?_⟩
      · change Restored w.files f.job
        rw [hf]
        exact hrest
      · obtain ⟨hheld, hfreed⟩ := hfree t hh
        refine ⟨hheld, fun o ho => ?_⟩
        change w.peerExternal = some o at ho
        rw [hx (hp.trans hnone)] at ho
        exact hfreed o ho

theorem recovering_stable : Stable Recovering := by
  intro f f' ⟨hj, hq⟩ h
  have hmoved := h.moved (hq.wf h.wf) hq.pending hq.quiesced hq.decides hq.files
    (fun _ he => hq.trace he) fun _ => hq.external
  obtain ⟨w', script, job⟩ := f'
  subst hj
  exact ⟨hmoved.wf, hmoved.ok, hmoved.undecided, hmoved.rank, hmoved.recovery, hmoved.released,
    hmoved.durable⟩

theorem Mutating.recovering {j : Journal} {f : Frame} (h : Mutating (· = j) f)
    (hr : j.phase.rank = 3) (hp : j.recoveryPending = true) : Recovering f := by
  obtain ⟨d, hpd, ha, hs⟩ := h.durable
  refine ⟨h.wf, h.ok, h.undecided, by rw [h.mine]; exact hr, by rw [h.mine]; exact hp, ?_,
    d, ha, .inl ⟨hpd, hs⟩⟩
  intro hreleased
  rw [h.held] at hreleased
  cases hreleased

/-- Writing the journal in hand over the durable one, or back after it was removed. -/
theorem Recovering.write {f : Frame} (h : Recovering f)
    (hs : f.job.phase = .failed ∨ ∃ d, f.world.pending = some d) :
    Change A G f.world (f.world.putPending f.job) ∧
      Recovering { f with world := f.world.putPending f.job } := by
  have hkeep : Change A G f.world (f.world.putPending f.job) →
      Recovering { f with world := f.world.putPending f.job } := by
    intro hc
    refine ⟨hc.wf h.wf, h.ok, ?_, h.rank, h.recovery, ?_, f.job, .refl _, .inl ⟨?_, ?_⟩⟩
    · simpa using h.undecided
    · simpa using h.released
    · simp
    · intro hstaged
      have hrank := h.rank
      rw [hstaged] at hrank
      cases hrank
  obtain ⟨d, ha, ⟨hp, hmodified⟩ | ⟨hp, hq, ⟨files, he⟩, hrest, hfree⟩⟩ := h.durable
  · have hchange : Change A G f.world (f.world.putPending f.job) := by
      refine .journal hp ha h.ok (fun hr => .inr ⟨?_, ?_, h.rank⟩) ?_
      · exact (h.released hr).congr ha.same.symm
      · rw [decides_congr ha.same]
        exact h.undecided
      · intro hstaged
        exact absurd hstaged hmodified
    exact ⟨hchange, hkeep hchange⟩
  · have hfailed : f.job.phase = .failed := by
      rcases hs with hs | ⟨d', hd'⟩
      · exact hs
      · rw [hp] at hd'
        cases hd'
    have hchange : Change A G f.world (f.world.putPending f.job) :=
      .revive hp hq he ha h.ok hfailed h.recovery hrest
        (by rw [decides_congr ha.same]; exact h.undecided) hfree
    exact ⟨hchange, hkeep hchange⟩

theorem recoverFailed_sound {e : ApiError} {Q : Unit → Frame → Prop} :
    Sound A G Recovering (fun _ => True) (recoverFailed e) Q := by
  have hset : ∀ (f : Frame) (j' : Journal), Recovering f → j'.identity = f.job.identity →
      j'.phase.rank = 3 → j'.recoveryPending = true →
      j'.handoffRestored = f.job.handoffRestored → Recovering { f with job := j' } := by
    intro f j' h hs hr hp hh
    obtain ⟨d, ha, hdur⟩ := h.durable
    have hnot : j'.phase ≠ .applied := by
      intro he
      rw [he] at hr
      cases hr
    refine ⟨h.wf, h.ok.advance hs.symm ?_, ?_, hr, hp, ?_, d, ?_, ?_⟩
    · intro hreleased
      rw [handoff_congr hs]
      exact ⟨(h.ok.handoff (hh.symm.trans hreleased)).1, hr⟩
    · exact (decides_congr hs _).trans h.undecided
    · intro hreleased
      exact (h.released (hh.symm.trans hreleased)).congr hs.symm
    · exact ⟨ha.same.trans hs.symm, by rw [hr]; exact Phase.rank_le_three _, fun _ => hp,
        fun hd => hh.trans (ha.released hd), fun _ hn => absurd hn hnot⟩
    · rcases hdur with hsome | ⟨hnone, hq, hev, hrest, hfree⟩
      · exact .inl hsome
      · refine .inr ⟨hnone, hq, hev, hrest.congr hs.symm, fun t ht => ?_⟩
        obtain ⟨hheld, hfreed⟩ := hfree t ((handoff_congr hs).symm.trans ht)
        exact ⟨hh.trans hheld, hfreed⟩
  refine Proc.Spec.bind (Q := fun _ _ => True)
    (Proc.Spec.weaken job_sound (fun _ _ h => h) fun _ _ _ _ => trivial) fun j => ?_
  refine Proc.Spec.bind (Q := fun _ _ => True) ?_ fun _ => ?_
  · refine Proc.Spec.when (fun _ => ?_) fun _ _ _ h => h
    refine Proc.Spec.bind (resumeConsumers_calm.ignore.keeps recovering_stable .const) fun _ => ?_
    exact setJob_sound fun f hk _ => ⟨hset f _ hk rfl hk.rank hk.recovery rfl, trivial⟩
  refine Proc.Spec.bind (Q := fun _ f => f.job.phase = .failed)
    (setJob_sound fun f hk _ => ⟨hset f _ hk rfl rfl rfl rfl, rfl⟩) fun _ => ?_
  have hphase : Stable fun f : Frame => f.job.phase = .failed :=
    fun _ _ hc h => (congrArg Journal.phase hc.1).trans h
  refine Proc.Spec.bind (Q := fun _ _ => True) ?_ fun _ => ?_
  · refine act_sound recovering_stable hphase fun _ f hk hp => ?_
    obtain ⟨hchange, hkeep⟩ := hk.write (.inl hp)
    exact ⟨hchange, hkeep, trivial⟩
  refine Proc.Spec.bind (Q := fun _ _ => True)
    (Proc.Spec.weaken job_sound (fun _ _ h => h) fun _ _ _ _ => trivial) fun j => ?_
  exact Proc.Spec.fail fun _ _ _ => trivial

/-- The network is restored and the outcome recorded; the journal is still there. -/
structure Undone (j : Journal) (outcome : Phase) (f : Frame) : Prop where
  durable : ∃ d, f.world.pending = some d ∧ Advance d f.job ∧ d.phase ≠ .staged
  same : f.job.identity = j.identity
  restored : Restored f.world.files j
  last : f.world.last = some ⟨j.token, outcome, j.applyError⟩

theorem undone_stable {j : Journal} {outcome : Phase} : Stable (Undone j outcome) := by
  intro f f' hc ⟨⟨d, hp, ha, hm⟩, hs, hr, hl⟩
  refine ⟨⟨d, hc.2.pending.trans hp, by rw [hc.1]; exact ha, hm⟩, by rw [hc.1]; exact hs, ?_,
    hc.2.last.trans hl⟩
  rw [hc.2.files]
  exact hr

theorem releaseSource_sound {j : Journal} {outcome : Phase} :
    Sound A G Recovering (fun f => Undone j outcome f ∧ f.job = j)
      (releaseSource j.handoff) fun _ f => Undone j outcome f ∧
        ∀ t, j.handoff = some t → f.job.handoffRestored = true ∧ Freed t f.world := by
  unfold releaseSource
  cases ht : j.handoff with
  | none => exact Proc.Spec.pure fun _ _ h => ⟨h.1, fun t ht => nomatch ht⟩
  | some t =>
    refine Proc.Spec.bind
      (Q := fun _ f => Undone j outcome f ∧ f.job.handoffRestored = true) ?_ fun _ => ?_
    · refine setJob_sound fun f hk ⟨⟨⟨d, hp, ha, hm⟩, hs, hr, hl⟩, hj⟩ => ?_
      have hadv : Advance d { f.job with handoffRestored := true } :=
        ⟨ha.same, ha.rank, ha.recovery, fun _ => rfl, ha.window⟩
      refine ⟨⟨hk.wf, ?_, hk.undecided, hk.rank, hk.recovery, ?_, d, hadv, .inl ⟨hp, hm⟩⟩,
        ⟨⟨d, hp, hadv, hm⟩, hs, hr, hl⟩, rfl⟩
      · exact hk.ok.advance rfl fun _ => ⟨by rw [hj, ht]; rfl, hk.rank⟩
      · intro _
        exact hr.congr hs.symm
    have hP : Stable fun f : Frame => Undone j outcome f ∧ f.job.handoffRestored = true :=
      undone_stable.and fun _ _ hc h => (congrArg Journal.handoffRestored hc.1).trans h
    refine Proc.Spec.bind (Q := fun _ f => Undone j outcome f ∧
        f.world.pending = some f.job ∧ f.job.handoffRestored = true ∧
        f.world.authority.decides f.job = false) ?_ fun _ => ?_
    · refine act_sound recovering_stable hP fun _ f hk ⟨⟨⟨d, hp, ha, _⟩, hs, hr, hl⟩, hh⟩ => ?_
      obtain ⟨hchange, hkeep⟩ := hk.write (A := A) (G := G) (.inr ⟨d, hp⟩)
      have hmodified : f.job.phase ≠ .staged := by
        intro hstaged
        have hrank := hk.rank
        rw [hstaged] at hrank
        cases hrank
      refine ⟨hchange, hkeep, ⟨⟨f.job, by simp, .refl _, hmodified⟩, hs, by simpa using hr, ?_⟩,
        by simp, hh, by simpa using hk.undecided⟩
      change (f.world.putPending f.job).last = _
      unfold World.putPending
      split <;> exact hl
    refine Proc.Spec.weaken (B := fun f => Undone j outcome f ∧
        f.world.pending = some f.job ∧ f.job.handoffRestored = true ∧
        f.world.authority.decides f.job = false)
      (restored_sound ?_ ?_ ?_ recovering_stable ?_) (fun _ _ h => h) ?_
    · refine undone_stable.and fun f f' hc ⟨h₁, h₂, h₃⟩ => ?_
      rw [hc.1]
      exact ⟨hc.2.pending.trans h₁, h₂, (hc.2.decides _).trans h₃⟩
    · intro f e q ⟨⟨hd, hs, hr, hl⟩, h⟩
      exact ⟨⟨hd, hs, hr, hl⟩, h⟩
    · intro f ⟨⟨_, hs, _, _⟩, hp, hh, hu⟩
      exact ⟨f.job, hp, (handoff_congr hs).trans ht, rfl, hu, .inr hh⟩
    · intro f e q hk ⟨_, hp, _, _⟩
      refine hk.moved (Wf.releasing (f := f) hk.wf e q) rfl rfl (fun _ => rfl) rfl
        (fun _ he => List.mem_cons_of_mem _ he) fun hnone => ?_
      change f.world.pending = none at hnone
      rw [hp] at hnone
      cases hnone
    · rintro _ f _ ⟨⟨hundone, _, hh, _⟩, hf⟩
      refine ⟨hundone, ?_⟩
      rintro _ ⟨⟩
      exact ⟨hh, hf⟩

theorem recoverBody_sound {j : Journal} {outcome : Phase} (hj : JournalOk j)
    (hrank : j.phase.rank = 3) (hpend : j.recoveryPending = true) :
    Sound A G Recovering (Mutating (· = j)) (recoverBody outcome)
      fun _ => Finished True false j outcome := by
  refine Proc.Spec.bind (armRetry_calm.keeps recovering_stable mutating_stable) fun _ => ?_
  refine Proc.Spec.bind (ask_calm.keeps recovering_stable mutating_stable) fun _ => ?_
  refine Proc.Spec.bind job_sound fun j' => ?_
  refine Proc.Spec.assume (φ := j' = j) (fun f _ h => h.2.symm.trans h.1.mine) ?_
  rintro rfl
  rw [if_neg hj.operation]
  refine Proc.Spec.bind (Q := fun _ f => Mutating (· = j') f ∧ Restored f.world.files j') ?_
    fun _ => ?_
  · refine Proc.Spec.within (restoreNetwork_sound (J := (· = j')) hj fun _ h => by rw [h])
      (fun _ _ h => ⟨h.1, trivial⟩) (fun _ _ h => h) (fun _ h => h.recovering hrank hpend)
      (fun _ _ hk h => ⟨hk, h⟩) fun _ _ _ _ => trivial
  refine Proc.Spec.bind (Q := fun _ f => Undone j' outcome f ∧ f.job = j') ?_ fun _ => ?_
  · refine writeLast_sound recovering_stable (mutating_stable.and restored_stable) ?_ ?_
    · intro f l hk _
      exact hk.moved (Change.wf (A := A) (G := G) (.last l) hk.wf) rfl rfl
        (fun _ => rfl) rfl (fun _ he => he) fun _ => rfl
    · rintro f _ ⟨hm, hr⟩
      refine ⟨⟨hm.durable, by rw [hm.mine], hr, ?_⟩, hm.mine⟩
      simp only [World.putLast, hm.mine]
  refine Proc.Spec.bind releaseSource_sound fun _ => ?_
  refine Proc.Spec.bind (Q := fun _ => Finished True false j' outcome) ?_ fun _ =>
    stopTimers_calm.keeps recovering_stable finished_stable
  have hF : Stable fun f : Frame => ∀ t, j'.handoff = some t →
      f.job.handoffRestored = true ∧ Freed t f.world := by
    intro f f' hc h t ht
    obtain ⟨hheld, hfreed⟩ := h t ht
    exact ⟨(congrArg Journal.handoffRestored hc.1).trans hheld, hc.2.freed hfreed⟩
  refine act_sound recovering_stable (undone_stable.and hF) fun _ f hk h => ?_
  obtain ⟨⟨⟨d, hp, ha, _⟩, hs, hr, hl⟩, hfree⟩ := h
  have hu : f.world.authority.decides d = false := by
    rw [decides_congr ha.same]
    exact hk.undecided
  have hrd : Restored f.world.files d := hr.congr (hs.symm.trans ha.same.symm)
  have htold : Told d f.world := by
    refine ⟨fun hd => ?_, fun _ t ht => ?_⟩
    · rw [hu] at hd
      cases hd
    · rw [handoff_congr (ha.same.trans hs)] at ht
      exact (hfree t ht).2
  have hchange : Change A G f.world f.world.removePending :=
    .finish hp (.inr ⟨hu, .inr (.inr (.inl hrd))⟩) htold
  have hq : f.world.quiesced = false := by
    cases h : f.world.quiesced with
    | false => rfl
    | true =>
      have hnone := hk.wf.release h
      rw [hp] at hnone
      cases hnone
  refine ⟨hchange, ?_, ?_⟩
  · refine ⟨hchange.wf hk.wf, hk.ok, ?_, hk.rank, hk.recovery, ?_, d, ha, .inr ?_⟩
    · rw [removePending_eq hp]
      exact hk.undecided
    · rw [removePending_eq hp]
      exact hk.released
    · rw [removePending_eq hp]
      refine ⟨rfl, hq, ⟨f.world.files, ?_⟩, hr.congr hs.symm, fun t ht => ?_⟩
      · rw [hu]
        exact List.mem_cons_self
      · exact hfree t ((handoff_congr hs).symm.trans ht)
  · rw [removePending_eq hp]
    refine ⟨rfl, hl, ?_, fun _ => hr⟩
    rw [← decides_congr hs]
    exact hk.undecided

/-- An undecided journal in hand that is exactly the durable one. -/
def Undecided (j : Journal) (f : Frame) : Prop :=
  f.world.pending = some f.job ∧ f.job = j ∧ f.world.authority.decides j = false

theorem recoverModified_sound {j : Journal} {outcome : Phase} (hj : JournalOk j)
    (hm : j.phase ≠ .staged) (hh : j.handoffRestored = false) :
    Sound A G Wf (Undecided j) (recoverModified outcome)
      fun _ => Finished True false j outcome := by
  let j₁ : Journal := { j with phase := .reverting, recoveryPending := true, outcome }
  have hadv : Advance j j₁ :=
    ⟨rfl, Phase.rank_le_three _, fun _ => rfl, id, fun _ h => nomatch h⟩
  have hok : JournalOk j₁ := hj.advance rfl fun h => ⟨(hj.handoff h).1, rfl⟩
  refine Proc.Spec.bind (Q := fun _ f => f.world.pending = some j ∧ f.job = j₁ ∧
      f.world.authority.decides j₁ = false) ?_ fun _ => ?_
  · refine setJob_sound fun f hw ⟨hp, hjob, hu⟩ => ⟨hw, ?_, ?_, hu⟩
    · rw [← hjob]
      exact hp
    · rw [hjob]
  refine Proc.Spec.bind (Q := fun _ => Mutating (· = j₁)) ?_ fun _ => ?_
  · refine act_sound wf_stable (pending_stable.and (job_stable.and decides_stable))
      fun _ f hw ⟨hp, hjob, hu⟩ => ?_
    rw [hjob]
    have hchange : Change A G f.world (f.world.putPending j₁) :=
      .journal hp hadv hok (fun h => .inl h) fun hs => absurd hs hm
    exact ⟨hchange, hchange.wf hw, hchange.wf hw, hok, by simpa using hu, nofun, hh,
      ⟨j₁, by simp, .refl _, nofun⟩, rfl⟩
  refine Proc.Spec.within (L := Recovering) (B := Mutating (· = j₁)) (S := Moves A G)
    (T := fun _ => Finished True false j outcome) (F := fun _ _ => True) ?_
    (fun _ _ h => ⟨h.recovering rfl rfl, h⟩) (fun _ _ h => h) (fun _ h => h.wf)
    (fun _ _ _ h => h) fun _ _ _ _ => trivial
  refine Proc.Spec.bind (Proc.Spec.attempt (recoverBody_sound hok rfl rfl)) fun r => ?_
  cases r with
  | ok a =>
    refine Proc.Spec.pure fun f _ h => ?_
    exact h.1 a rfl
  | error e =>
    exact Proc.Spec.weaken recoverFailed_sound (fun _ _ _ => trivial) fun _ _ _ h => h

/-- What a recovery that reports success has done: it finishes a kept journal, and undoes any
other. -/
theorem recoverLocked_sound {X : Prop} {b : Bool} {j : Journal} {outcome : Phase} :
    Sound A G Wf
      (fun f => (f.world.pending = some f.job ∧ f.job = j ∧
        (X → j.phase = .staged ∨ j.handoffRestored = true → Restored f.world.files j)) ∧
          f.world.authority.decides j = b)
      (recoverLocked outcome) fun _ f => b = true ∨ Finished X false j outcome f := by
  refine Proc.Spec.assume (φ := JournalOk j)
    (fun f hw ⟨⟨hp, hjob, _⟩, _⟩ => by rw [← hjob]; exact hw.journal _ hp) fun hj => ?_
  have hheld : Stable fun f : Frame => f.world.pending = some f.job ∧ f.job = j ∧
      (X → j.phase = .staged ∨ j.handoffRestored = true → Restored f.world.files j) := by
    intro f f' hc ⟨hp, hjob, hr⟩
    refine ⟨?_, hc.1.trans hjob, ?_⟩
    · rw [hc.1]
      exact hc.2.pending.trans hp
    · rw [hc.2.files]
      exact hr
  have hP := hheld.and (decides_stable (j := j) (b := b))
  refine Proc.Spec.bind (Q := fun j' f => ((f.world.pending = some f.job ∧ f.job = j ∧
      (X → j.phase = .staged ∨ j.handoffRestored = true → Restored f.world.files j)) ∧
        f.world.authority.decides j = b) ∧ j' = j)
    (Proc.Spec.weaken job_sound (fun _ _ h => h)
      fun _ _ _ h => ⟨h.1, h.2.symm.trans h.1.1.2.1⟩) fun j' => ?_
  refine Proc.Spec.assume (fun _ _ h => h.2) ?_
  rintro rfl
  refine Proc.Spec.bind (committed_sound hj.operation wf_stable (hP.and .const) fun _ h => h)
    fun b' => ?_
  refine Proc.Spec.assume (φ := b = b') (fun _ _ h => h.1.1.2.symm.trans h.2) ?_
  rintro rfl
  refine Proc.Spec.ite (fun hb => ?_) fun hb => Proc.Spec.ite (fun hs => ?_) fun hs => ?_
  · refine Proc.Spec.weaken (finishCommitted_sound (j := j')) ?_ fun _ _ _ _ => .inl hb
    rintro f _ ⟨⟨⟨⟨hp, hjob, _⟩, _⟩, _⟩, hd⟩
    refine ⟨⟨?_, ?_, j', ?_, ?_⟩, hjob⟩
    · rw [hjob]
      exact hd.trans hb
    · rw [hjob]
      exact hj
    · rw [← hjob]
      exact hp
    · rw [hjob]
      exact .refl _
  · refine Proc.Spec.weaken (finishUnmodified_sound (X := X) (j := j')) ?_ fun _ _ _ h => .inr h
    rintro f _ ⟨⟨⟨⟨hp, hjob, hr⟩, _⟩, _⟩, hd⟩
    have hfalse : f.world.authority.decides j' = false := by
      rw [hd]
      exact Bool.eq_false_iff.mpr hb
    refine ⟨⟨by rw [hjob]; exact hfalse, j', by rw [← hjob]; exact hp,
      by rw [hjob]; exact .refl _, hs⟩, hjob, fun hx => hr hx hs⟩
  · rw [not_or] at hs
    refine Proc.Spec.weaken
      (recoverModified_sound hj hs.1 (Bool.eq_false_iff.mpr hs.2)) ?_ ?_
    · rintro f _ ⟨⟨⟨⟨hp, hjob, _⟩, _⟩, _⟩, hd⟩
      exact ⟨hp, hjob, hd.trans (Bool.eq_false_iff.mpr hb)⟩
    · rintro _ f _ ⟨hp, hl, hd, hr⟩
      exact .inr ⟨hp, hl, hd, fun _ => hr trivial⟩

end NdimonR.Engine
