import NdimonR.Engine.RecoverLocked

/-! The apply job: it writes under a durable journal that says so, and its failure path recovers
the same journal. -/

namespace NdimonR.Engine

open NdimonR.Types

variable {A : Journal → World → Prop} {G : Prop} {K P : Frame → Prop}
  {J : Journal → Prop}

/-- The journal in hand is the durable one. -/
def Held (j : Journal) (f : Frame) : Prop := f.world.pending = some f.job ∧ f.job = j

theorem held_stable {j : Journal} : Stable (Held j) := by
  intro f f' hc ⟨hp, hj⟩
  refine ⟨?_, hc.1.trans hj⟩
  rw [hc.1]
  exact hc.2.pending.trans hp

/-! ## What the journal in hand may become -/

/-- An edit of the journal in hand that an apply may make. -/
structure Edit (f : Frame) (j : Journal) : Prop where
  same : j.identity = f.job.identity
  rank : f.job.phase.rank ≤ j.phase.rank
  recovery : j.recoveryPending = f.job.recoveryPending
  held : j.handoffRestored = f.job.handoffRestored
  window : ∀ d, f.world.pending = some d → d.phase = .applied → j.phase = .applied →
    j.deadlineMs = d.deadlineMs ∧ j.managementAddress = d.managementAddress

theorem Edit.advance {f : Frame} {d j : Journal} (he : Edit f j) (hp : f.world.pending = some d)
    (ha : Advance d f.job) : Advance d j where
  same := ha.same.trans he.same.symm
  rank := Nat.le_trans ha.rank he.rank
  recovery := fun h => he.recovery.trans (ha.recovery h)
  released := fun h => he.held.trans (ha.released h)
  window := he.window d hp

theorem Mutating.edit {f : Frame} {j : Journal} (h : Mutating J f) (he : Edit f j) (hj : J j) :
    Mutating J { f with job := j } := by
  obtain ⟨d, hp, ha, hs⟩ := h.durable
  have hheld : j.handoffRestored = false := he.held.trans h.held
  have hmodified : j.phase ≠ .staged := by
    intro hstaged
    have hrank := he.rank
    rw [hstaged] at hrank
    exact h.modified (Phase.rank_eq_zero.mp (Nat.le_zero.mp hrank))
  refine ⟨h.wf, h.ok.advance he.same.symm ?_, ?_, hmodified, hheld, ⟨d, hp, he.advance hp ha, hs⟩,
    hj⟩
  · intro hreleased
    rw [hheld] at hreleased
    cases hreleased
  · exact (decides_congr he.same _).trans h.undecided

theorem Mutating.write {f : Frame} (h : Mutating J f) :
    Change A G f.world (f.world.putPending f.job) ∧
      Mutating J { f with world := f.world.putPending f.job } := by
  obtain ⟨d, hp, ha, hs⟩ := h.durable
  have hchange : Change A G f.world (f.world.putPending f.job) := by
    refine .journal hp ha h.ok (fun hreleased => ?_) fun hstaged => absurd hstaged hs
    rw [h.held] at hreleased
    cases hreleased
  refine ⟨hchange, hchange.wf h.wf, h.ok, ?_, h.modified, h.held, ?_, h.mine⟩
  · simpa using h.undecided
  · exact ⟨f.job, by simp, .refl _, h.modified⟩

/-- The phase the durable journal and the one in hand are in. -/
def InPhase (durable inHand : Phase) (f : Frame) : Prop :=
  f.job.phase = inHand ∧ ∀ d, f.world.pending = some d → d.phase = durable

theorem inPhase_stable {p q : Phase} : Stable (InPhase p q) := by
  intro f f' hc ⟨hj, hd⟩
  refine ⟨(congrArg Journal.phase hc.1).trans hj, ?_⟩
  intro d hp
  exact hd d (hc.2.pending.symm.trans hp)

theorem setJob_mutating {change : Journal → Journal} {Q : Frame → Prop}
    (h : ∀ f, Mutating J f → P f → Edit f (change f.job) ∧ J (change f.job) ∧
      Q { f with job := change f.job }) :
    Sound A G (Mutating J) P (setJob change) fun _ => Q := by
  refine setJob_sound fun f hk hp => ?_
  obtain ⟨he, hj, hq⟩ := h f hk hp
  exact ⟨hk.edit he hj, hq⟩

theorem writePending_mutating {p q : Phase} :
    Sound A G (Mutating J) (InPhase p q) writePending
      fun _ f => InPhase q q f ∧ f.world.pending = some f.job := by
  refine act_sound mutating_stable inPhase_stable fun _ f hk hp => ?_
  obtain ⟨hchange, hkeep⟩ := hk.write (A := A) (G := G)
  refine ⟨hchange, hkeep, ⟨hp.1, ?_⟩, by simp⟩
  intro d hd
  rw [putPending_pending] at hd
  cases hd
  exact hp.1

/-! ## The window -/

/-- The confirmation window is armed with a journal that differs in its generation only. -/
theorem armWindow_sound (hK : Stable K) (hwf : ∀ f, K f → f.world.Wf)
    (hset : ∀ f, K f → f.world.pending = some f.job →
      K { f with job := { f.job with timerGeneration := f.job.timerGeneration + 1 } })
    (hwrite : ∀ f, K f → Change A G f.world (f.world.putPending f.job) →
      K { f with world := f.world.putPending f.job }) :
    Sound A G K (fun f => f.world.pending = some f.job) armWindow fun _ _ => True := by
  have hP : Stable fun f : Frame => f.world.pending = some f.job := by
    intro f f' hc h
    rw [hc.1]
    exact hc.2.pending.trans h
  let Next : Frame → Prop := fun f => ∃ d, f.world.pending = some d ∧
    { d with timerGeneration := d.timerGeneration + 1 } = f.job
  have hNext : Stable Next := by
    intro f f' hc ⟨d, hp, hj⟩
    exact ⟨d, hc.2.pending.trans hp, hj.trans hc.1.symm⟩
  refine Proc.Spec.bind (job_calm.keeps hK hP) fun j => ?_
  refine Proc.Spec.bind (IsCalm.require.keeps hK hP) fun _ => ?_
  refine Proc.Spec.bind (Q := fun _ => Next)
    (setJob_sound fun f hk hp => ⟨hset f hk hp, f.job, hp, rfl⟩) fun _ => ?_
  refine Proc.Spec.bind (Q := fun _ _ => True) ?_ fun _ => ?_
  · refine act_sound hK hNext fun _ f hk ⟨d, hp, hj⟩ => ?_
    have hd : JournalOk d := (hwf f hk).journal d hp
    have hadv : Advance d f.job := by
      rw [← hj]
      exact ⟨rfl, Nat.le_refl _, id, id, fun _ _ => ⟨rfl, rfl⟩⟩
    have hok : JournalOk f.job := by
      refine hd.advance hadv.same ?_
      rw [← hj]
      exact hd.handoff
    have hchange : Change A G f.world (f.world.putPending f.job) := by
      refine .journal hp hadv hok (fun hr => .inl ?_) fun hs hm => absurd ?_ hm
      · rw [← hj] at hr
        exact hr
      · rw [← hj]
        exact hs
    exact ⟨hchange, hwrite f hk hchange, trivial⟩
  refine Proc.Spec.bind (ask_calm.keeps hK .const) fun _ => ?_
  exact schedule_calm.keeps hK .const

theorem armWindow_mutating {id : String} :
    Sound A G (Mutating fun i => i.jobId = id) (fun f => f.world.pending = some f.job)
      armWindow fun _ _ => True := by
  refine armWindow_sound mutating_stable (fun _ h => h.wf) ?_ ?_
  · intro f hk hp
    refine hk.edit ⟨rfl, Nat.le_refl _, rfl, rfl, ?_⟩ hk.mine
    intro d hd _ _
    rw [hp] at hd
    cases hd
    exact ⟨rfl, rfl⟩
  · intro f hk _
    exact (hk.write (A := A) (G := G)).2

/-! ## The apply itself -/

theorem settleNmFiles_sound {nm : List NmChange} (hP : Stable P)
    (hkeep : ∀ f saved, Mutating J f → P f →
      P { f with world := f.world.saveKeyfiles saved }) :
    Sound A G (Mutating J) P (settleNmFiles nm) fun _ => P := by
  refine Proc.Spec.ite (fun _ => ?_) fun _ => Proc.Spec.pure fun _ _ h => h
  refine Proc.Spec.bind (nmReload_sound hP hkeep) fun _ => ?_
  exact (ask_calm.bind fun _ => IsCalm.pure).keeps mutating_stable hP

variable {id : String}

/-- The journal of a running apply, under its identity. -/
abbrev Applying (id : String) : Frame → Prop := Mutating fun i => i.jobId = id

theorem settle_sound :
    Sound A G (Applying id) (InPhase .applying .applying) settle
      fun _ => InPhase .applying .applying := by
  refine Proc.Spec.bind (job_calm.keeps mutating_stable inPhase_stable) fun j => ?_
  refine Proc.Spec.ite (fun _ => ?_) fun _ => Proc.Spec.pure fun _ _ h => h
  refine Proc.Spec.bind (settleNmFiles_sound inPhase_stable fun _ _ _ h => h) fun nm => ?_
  refine Proc.Spec.ite (fun _ => ?_) fun _ => Proc.Spec.pure fun _ _ h => h
  refine Proc.Spec.bind (Q := fun _ => InPhase .applying .applying) ?_ fun _ => ?_
  · refine setJob_mutating fun f hk hp => ⟨⟨rfl, Nat.le_refl _, rfl, rfl, ?_⟩, hk.mine, hp⟩
    intro d hd ha _
    rw [hp.2 d hd] at ha
    cases ha
  · exact Proc.Spec.weaken writePending_mutating (fun _ _ h => h) fun _ _ _ h => h.1

/-- Installing files, in whichever order. -/
theorem installs_sound (hP : Stable P)
    (hkeep : ∀ f path image, P f →
      P { f with world := (f.world.writeFile path image).note (.wrote f.job.jobId path image) })
    {α : Type} {g : α → Action Unit} (path : α → String) (image : α → Option Image)
    (hg : ∀ a, g a = replace (path a) (image a)) (xs : List α) :
    Sound A G (Mutating J) P (Proc.each g xs) fun _ => P := by
  refine Proc.Spec.each_keeps xs fun a _ => ?_
  rw [hg]
  exact replace_sound hP fun f _ hp => hkeep f _ _ hp

theorem applyNetwork_sound {j : Journal} (hP : Stable P) (ht : Traceless P)
    (hwrite : ∀ f path image, P f →
      P { f with world := (f.world.writeFile path image).note (.wrote f.job.jobId path image) })
    (hsave : ∀ f saved, P f → P { f with world := f.world.saveKeyfiles saved }) :
    Sound A G (Applying j.jobId) P (applyNetwork j) fun _ => P := by
  have hcalm : ∀ {α : Type} {p : Action α}, IsCalm p →
      Sound A G (Applying j.jobId) P p fun _ => P :=
    fun h => h.keeps mutating_stable hP
  have hinstall : ∀ cs : List FileChange,
      Sound A G (Applying j.jobId) P (Proc.each install cs) fun _ => P :=
    fun cs => installs_sound hP hwrite FileChange.path FileChange.after (fun _ => rfl) cs
  have hguards : ∀ rules, Sound A G (Applying j.jobId) P (installGuards j rules)
      fun _ => P := by
    intro rules
    unfold installGuards
    cases j.handoff with
    | none => exact setTable_sound (fun _ h => h) hP ht
    | some t => exact replaceTables_sound (fun _ h => h) hP ht
  have hartifacts : Sound A G (Applying j.jobId) P (removeArtifacts j) fun _ => P := by
    unfold removeArtifacts
    cases j.handoff with
    | none => exact Proc.Spec.pure fun _ _ h => h
    | some t =>
      exact installs_sound hP hwrite Artifact.path (fun _ => none) (fun _ => rfl) _
  have hreload : Sound A G (Applying j.jobId) P nmReload fun _ => P :=
    nmReload_sound hP fun f saved _ hp => hsave f saved hp
  have hactivate : Sound A G (Applying j.jobId) P (activate j.plan.candidate)
      fun _ => P :=
    Proc.Spec.bind (bringUp_sound hP ht) fun _ =>
      Proc.Spec.when (fun _ => hreload) fun _ _ _ h => h
  refine Proc.Spec.bind (hcalm stopConsumers_calm) fun _ => ?_
  refine Proc.Spec.bind (hcalm command_calm.when) fun _ => ?_
  refine Proc.Spec.bind (hinstall _) fun _ => ?_
  refine Proc.Spec.bind (hcalm slices_calm) fun _ => ?_
  refine Proc.Spec.bind (hcalm IsCalm.ofExcept) fun rules => ?_
  refine Proc.Spec.bind (hcalm command_calm.attempt) fun usable => ?_
  refine Proc.Spec.bind (hcalm IsCalm.require) fun _ => ?_
  refine Proc.Spec.bind (hguards rules) fun _ => ?_
  refine Proc.Spec.bind (hcalm deconfigure_calm.when) fun _ => ?_
  refine Proc.Spec.bind (hinstall _) fun _ => ?_
  refine Proc.Spec.bind (Proc.Spec.when (fun _ => hreload) fun _ _ _ h => h) fun _ => ?_
  refine Proc.Spec.bind hactivate fun _ => ?_
  refine Proc.Spec.bind hartifacts fun _ => ?_
  refine Proc.Spec.bind (hcalm readiness_calm) fun address => ?_
  refine Proc.Spec.bind (hcalm ask_calm) fun _ => ?_
  refine Proc.Spec.bind (hinstall _) fun _ => ?_
  exact Proc.Spec.pure fun _ _ h => h

theorem setBanner_files (image : Image) (cs : List FileChange) :
    (setBanner image cs).map (fun c => (c.path, c.before)) =
      cs.map fun c => (c.path, c.before) := by
  induction cs with
  | nil => rfl
  | cons c rest ih =>
    unfold setBanner
    split
    · rfl
    · rw [List.map_cons, ih, List.map_cons]

theorem setBanner_identity (image : Image) (j : Journal) :
    Journal.identity
        { j with plan := { j.plan with files := setBanner image j.plan.files } } =
      j.identity := by
  unfold Journal.identity
  rw [setBanner_files]

theorem publish_sound {address : Ipv4Addr} :
    Sound A G (Applying id) (InPhase .applying .applying) (publish address)
      fun _ _ => True := by
  have hP := inPhase_stable (p := .applying) (q := .applying)
  have hvacuous : ∀ (p : Phase) (f : Frame) (j' d : Journal), InPhase .applying p f →
      f.world.pending = some d → d.phase = .applied → j'.deadlineMs = d.deadlineMs ∧
        j'.managementAddress = d.managementAddress := by
    intro p f j' d h hd ha
    rw [h.2 d hd] at ha
    cases ha
  refine Proc.Spec.bind (job_calm.keeps mutating_stable hP) fun j => ?_
  refine Proc.Spec.bind (IsCalm.require.keeps mutating_stable hP) fun _ => ?_
  refine Proc.Spec.bind (Q := fun _ => InPhase .applying .applying) ?_ fun _ => ?_
  · refine setJob_mutating fun f hk hp => ⟨⟨setBanner_identity _ _, Nat.le_refl _, rfl, rfl, ?_⟩,
      hk.mine, hp⟩
    exact fun d hd ha _ => hvacuous _ f _ d hp hd ha
  refine Proc.Spec.bind (Proc.Spec.weaken writePending_mutating (fun _ _ h => h)
    fun _ _ _ h => h.1) fun _ => ?_
  refine Proc.Spec.bind (Q := fun _ => InPhase .applying .applying)
    (replace_sound hP fun _ _ h => h) fun _ => ?_
  refine Proc.Spec.bind (job_calm.keeps mutating_stable hP) fun j => ?_
  refine Proc.Spec.bind (restoreConsumers_calm.keeps mutating_stable hP) fun _ => ?_
  refine Proc.Spec.bind (Q := fun _ => InPhase .applying .applied) ?_ fun _ => ?_
  · refine setJob_mutating fun f hk hp => ⟨⟨rfl, ?_, rfl, rfl, ?_⟩, hk.mine, rfl, hp.2⟩
    · rw [hp.1]
      exact Nat.le_succ 1
    · exact fun d hd ha _ => hvacuous _ f _ d hp hd ha
  refine Proc.Spec.bind (ask_calm.keeps mutating_stable inPhase_stable) fun now => ?_
  refine Proc.Spec.bind (Q := fun _ => InPhase .applying .applied) ?_ fun _ => ?_
  · refine setJob_mutating fun f hk hp => ?_
    refine ⟨⟨by simp only [Journal.identity], Nat.le_refl _, rfl, rfl, ?_⟩, hk.mine, hp.1, hp.2⟩
    exact fun d hd ha _ => hvacuous _ f _ d hp hd ha
  refine Proc.Spec.bind (Proc.Spec.weaken writePending_mutating (fun _ _ h => h)
    fun _ _ _ h => h.2) fun _ => ?_
  exact armWindow_mutating

/-! ## The job, with its failure path -/

/-- An undecided journal in hand, from the checks before an apply to its failure. It leaves
`staged` only after the reservation was seen. -/
structure Working (f : Frame) : Prop where
  wf : f.world.Wf
  ok : JournalOk f.job
  undecided : f.world.authority.decides f.job = false
  held : f.job.handoffRestored = false
  durable : ∃ d, f.world.pending = some d ∧ Advance d f.job ∧
    (f.job.phase = .staged → d.phase = .staged) ∧
      (d.phase = .staged → f.job.phase ≠ .staged → Reserved d f.world)

theorem working_stable : Stable Working := by
  rintro ⟨w, script, j⟩ ⟨w', script', j'⟩ ⟨hj, hq⟩ ⟨hw, hok, hu, hh, d, hp, ha, hs, hx⟩
  cases hj
  exact ⟨hq.wf hw, hok, (hq.decides _).trans hu, hh, d, hq.pending.trans hp, ha, hs,
    fun h₁ h₂ => hq.reserved (hx h₁ h₂)⟩

theorem Mutating.working {f : Frame} (h : Mutating J f) : Working f := by
  obtain ⟨d, hp, ha, hm⟩ := h.durable
  exact ⟨h.wf, h.ok, h.undecided, h.held, d, hp, ha, fun hs => absurd hs h.modified,
    fun hs => absurd hs hm⟩

theorem reserved_stable {j : Journal} : Stable fun f => Reserved j f.world :=
  fun _ _ hc h => hc.2.reserved h

/-- What the checks establish of a transfer: the releasing engine is reserved for this job. -/
theorem preflight_sound {config : EngineConfig} {j : Journal} (hK : Stable K) (hP : Stable P) :
    Sound A G K P (preflight config j) fun _ f => P f ∧ Reserved j f.world := by
  have hcheck : Sound A G K P (checkHandoff j) fun _ f => P f ∧ Reserved j f.world := by
    unfold checkHandoff
    cases ht : j.handoff with
    | none =>
      refine Proc.Spec.pure fun f _ h => ⟨h, fun t hj => ?_⟩
      rw [ht] at hj
      cases hj
    | some t =>
      have hseen : ∀ external, Stable fun f : Frame => P f ∧ f.world.peerExternal = external :=
        fun external => hP.and fun _ _ hc h => hc.2.external.trans h
      refine Proc.Spec.bind (command_calm.keeps hK hP) fun _ => ?_
      refine Proc.Spec.bind (ask_calm.keeps hK hP) fun quiesce => ?_
      refine Proc.Spec.bind (IsCalm.require.keeps hK hP) fun _ => ?_
      refine Proc.Spec.bind (Q := fun external f => P f ∧ f.world.peerExternal = external)
        (Proc.Spec.weaken (ask_sound hK hP) (fun _ _ h => h)
          fun _ _ _ ⟨h, _, hx⟩ => ⟨h, hx.symm⟩) fun external => ?_
      refine Proc.Spec.weaken require_sound (fun _ _ h => h) ?_
      rintro _ f _ ⟨⟨h, hx⟩, howner⟩
      refine ⟨h, fun t' hj => ?_⟩
      rw [ht] at hj
      cases hj
      exact hx.trans howner
  refine Proc.Spec.bind (ask_calm.when.keeps hK hP) fun _ => ?_
  refine Proc.Spec.bind (load_calm.keeps hK hP) fun actual => ?_
  refine Proc.Spec.ite (fun _ => ?_) fun _ => ?_
  · exact Proc.Spec.bind (load_calm.keeps hK hP) fun _ => Proc.Spec.fail fun _ _ _ => trivial
  refine Proc.Spec.bind (IsCalm.require.keeps hK hP) fun _ => ?_
  exact Proc.Spec.bind hcheck fun _ => checkPlan_calm.keeps hK (hP.and reserved_stable)

theorem applyBody_sound {config : EngineConfig} {j : Journal} (hs : j.phase = .staged) :
    Sound A G Working (Held j) (applyBody config) fun _ _ => True := by
  refine Proc.Spec.bind job_sound fun j' => ?_
  refine Proc.Spec.assume (φ := j' = j) (fun _ _ h => h.2.symm.trans h.1.2) ?_
  rintro rfl
  refine Proc.Spec.bind (preflight_sound working_stable (held_stable.and job_stable))
    fun _ => ?_
  refine Proc.Spec.bind (Q := fun _ f => f.job.phase = .applying ∧ f.job.jobId = j'.jobId) ?_
    fun _ => ?_
  · refine setJob_sound fun f hk ⟨⟨⟨hp, hj⟩, _⟩, hx⟩ => ⟨?_, rfl, by rw [← hj]⟩
    have hrank : f.job.phase.rank ≤ Phase.rank .applying := by
      rw [hj, hs]
      exact Nat.zero_le 1
    have hheld : ∀ {φ : Prop}, f.job.handoffRestored = true → φ := by
      intro φ h
      rw [hk.held] at h
      cases h
    exact ⟨hk.wf, hk.ok.advance rfl hheld, hk.undecided, hk.held, f.job, hp,
      ⟨rfl, hrank, id, id, fun _ h => nomatch h⟩, (fun h => nomatch h),
      fun _ _ => by rw [hj]; exact hx⟩
  refine Proc.Spec.bind
    (Q := fun _ f => Applying j'.jobId f ∧ InPhase .applying .applying f) ?_ fun _ => ?_
  · have hP : Stable fun f : Frame => f.job.phase = .applying ∧ f.job.jobId = j'.jobId :=
      fun _ _ hc h => ⟨(congrArg Journal.phase hc.1).trans h.1,
        (congrArg Journal.jobId hc.1).trans h.2⟩
    refine act_sound working_stable hP fun _ f hk ⟨hphase, hid⟩ => ?_
    obtain ⟨d, hp, ha, _, hx⟩ := hk.durable
    have hchange : Change A G f.world (f.world.putPending f.job) := by
      refine .journal hp ha hk.ok (fun h => ?_) hx
      rw [hk.held] at h
      cases h
    have hmodified : f.job.phase ≠ .staged := by
      rw [hphase]
      exact nofun
    have hmutating : Applying j'.jobId { f with world := f.world.putPending f.job } :=
      ⟨hchange.wf hk.wf, hk.ok, by simpa using hk.undecided, hmodified, hk.held,
        ⟨f.job, by simp, .refl _, hmodified⟩, hid⟩
    refine ⟨hchange, hmutating.working, hmutating, hphase, ?_⟩
    intro e he
    rw [putPending_pending] at he
    cases he
    exact hphase
  refine Proc.Spec.within (L := Applying j'.jobId) (B := InPhase .applying .applying)
    (S := Moves A G) (T := fun _ _ => True) (F := fun _ _ => True) ?_
    (fun _ _ h => h) (fun _ _ h => h) (fun _ h => h.working) (fun _ _ _ _ => trivial)
    fun _ _ _ _ => trivial
  refine Proc.Spec.bind (ask_calm.keeps mutating_stable inPhase_stable) fun _ => ?_
  refine Proc.Spec.bind settle_sound fun _ => ?_
  refine Proc.Spec.bind job_sound fun i => ?_
  refine Proc.Spec.assume (φ := i.jobId = j'.jobId)
    (fun f hk h => (congrArg Journal.jobId h.2).symm.trans hk.mine) fun hi => ?_
  rw [← hi]
  refine Proc.Spec.bind (Q := fun _ => InPhase .applying .applying)
    (Proc.Spec.weaken (applyNetwork_sound inPhase_stable ?_ ?_ ?_) (fun _ _ h => h.1)
      fun _ _ _ h => h) fun address => ?_
  · exact fun _ _ h => h
  · exact fun _ _ _ h => h
  · exact fun _ _ h => h
  · exact publish_sound

/-- A recovery of the journal that is in hand and durable. -/
theorem recoverLocked_changes {outcome : Phase} :
    Sound A G Wf (fun f => f.world.pending = some f.job) (recoverLocked outcome)
      fun _ _ => True := by
  have hall : ∀ start : Journal × Bool, Sound A G Wf
      (fun f => (f.world.pending = some f.job ∧ f.job = start.1) ∧
        f.world.authority.decides start.1 = start.2)
      (recoverLocked outcome) fun _ _ => True := by
    intro start
    refine Proc.Spec.weaken (recoverLocked_sound (X := False) (b := start.2) (j := start.1)) ?_
      fun _ _ _ _ => trivial
    exact fun f _ h => ⟨⟨h.1.1, h.1.2, fun hx => hx.elim⟩, h.2⟩
  refine Proc.Spec.weaken (Proc.Spec.exists hall) (fun f _ h => ?_) fun _ _ _ h => h
  exact ⟨(f.job, f.world.authority.decides f.job), ⟨h, rfl⟩, rfl⟩

theorem finishUnmodified_changes {outcome : Phase} :
    Sound A G Wf Unmodified (finishUnmodified outcome) fun _ _ => True := by
  have hall : ∀ j, Sound A G Wf (fun f => Unmodified f ∧ f.job = j) (finishUnmodified outcome)
      fun _ _ => True := by
    intro j
    refine Proc.Spec.weaken (finishUnmodified_sound (X := False) (j := j)) ?_
      fun _ _ _ _ => trivial
    exact fun f _ h => ⟨h.1, h.2, fun hx => hx.elim⟩
  exact Proc.Spec.weaken (Proc.Spec.exists hall) (fun f _ h => ⟨f.job, h, rfl⟩) fun _ _ _ h => h

theorem finishCommitted_changes :
    Sound A G Wf Keeping finishCommitted fun _ _ => True := by
  have hall : ∀ j, Sound A G Wf (fun f => Keeping f ∧ f.job = j) finishCommitted
      fun _ _ => True :=
    fun j => Proc.Spec.weaken finishCommitted_sound (fun _ _ h => h) fun _ _ _ _ => trivial
  exact Proc.Spec.weaken (Proc.Spec.exists hall) (fun f _ h => ⟨f.job, h, rfl⟩) fun _ _ _ h => h

theorem applyFailed_sound {e : ApiError} :
    Sound A G Wf Working (applyFailed e) fun _ _ => True := by
  refine Proc.Spec.bind job_sound fun j => ?_
  refine Proc.Spec.ite (fun _ => Proc.Spec.fail fun _ _ _ => trivial) fun _ => ?_
  refine Proc.Spec.bind (Q := fun _ f => Working f ∧ f.job.phase = j.phase) ?_ fun _ => ?_
  · refine setJob_sound fun f hk ⟨h, hj⟩ => ⟨hk, ?_, by rw [← hj]⟩
    obtain ⟨d, hp, ha, hs, hx⟩ := h.durable
    exact ⟨h.wf, h.ok.advance rfl h.ok.handoff, h.undecided, h.held, d, hp,
      ⟨ha.same, ha.rank, ha.recovery, ha.released, ha.window⟩, hs, hx⟩
  refine Proc.Spec.ite (fun hstaged => ?_) fun hmodified => ?_
  · refine Proc.Spec.bind (Proc.Spec.weaken finishUnmodified_changes ?_ fun _ _ _ h => h)
      fun _ => Proc.Spec.fail fun _ _ _ => trivial
    rintro f _ ⟨h, hphase⟩
    obtain ⟨d, hp, ha, hs, _⟩ := h.durable
    exact ⟨h.undecided, d, hp, ha, .inl (hs (hphase.trans hstaged))⟩
  · refine Proc.Spec.bind (Q := fun _ f => f.world.pending = some f.job) ?_ fun _ =>
      Proc.Spec.bind recoverLocked_changes fun _ => Proc.Spec.fail fun _ _ _ => trivial
    refine act_sound wf_stable (working_stable.and ?_) fun _ f hk ⟨h, _⟩ => ?_
    · exact fun _ _ hc hj => (congrArg Journal.phase hc.1).trans hj
    obtain ⟨d, hp, ha, _, hx⟩ := h.durable
    have hchange : Change A G f.world (f.world.putPending f.job) := by
      refine .journal hp ha h.ok (fun hr => ?_) hx
      rw [h.held] at hr
      cases hr
    exact ⟨hchange, hchange.wf hk, by simp⟩

theorem applyStaged_sound {config : EngineConfig} {j : Journal} (hs : j.phase = .staged) :
    Sound A G Wf (fun f => Held j f ∧ f.world.authority.decides j = false)
      (applyStaged config) fun _ _ => True := by
  refine Proc.Spec.bind (Q := fun _ => Working) ?_ fun r => ?_
  · refine Proc.Spec.within (Proc.Spec.attempt (F := fun _ _ => True) (applyBody_sound hs)) ?_
      (fun _ _ h => h) (fun _ h => h.wf) (fun _ _ h _ => h) fun _ _ _ _ => trivial
    intro f hw ⟨⟨hp, hj⟩, hu⟩
    refine ⟨⟨hw, hw.journal _ hp, by rw [hj]; exact hu, ?_, f.job, hp, .refl _, id,
      fun hs hm => absurd hs hm⟩, hp, hj⟩
    cases hr : f.job.handoffRestored with
    | false => rfl
    | true =>
      have hrank := ((hw.journal _ hp).handoff hr).2
      rw [hj, hs] at hrank
      cases hrank
  · cases r with
    | ok a => exact Proc.Spec.pure fun _ _ _ => trivial
    | error e => exact applyFailed_sound

theorem committed_held {j : Journal} :
    Sound A G Wf (Held j) (committed j)
      fun b f => Held j f ∧ f.world.authority.decides j = b := by
  refine Proc.Spec.assume (φ := JournalOk j) (fun f hw h => ?_) fun hj =>
    committed_sound hj.operation wf_stable held_stable fun _ h => h
  rw [← h.2]
  exact hw.journal _ h.1

theorem Held.keeping {j : Journal} {f : Frame} (hw : f.world.Wf) (h : Held j f)
    (hd : f.world.authority.decides j = true) : Keeping f :=
  ⟨by rw [h.2]; exact hd, hw.journal _ h.1, f.job, h.1, .refl _⟩

theorem applyMatched_sound {config : EngineConfig} {j : Journal} :
    Sound A G Wf (Held j) (applyMatched config) fun _ _ => True := by
  refine Proc.Spec.bind job_sound fun j' => ?_
  refine Proc.Spec.assume (φ := j' = j) (fun _ _ h => h.2.symm.trans h.1.2) ?_
  rintro rfl
  refine Proc.Spec.bind (Proc.Spec.weaken (lockSource_calm.keeps wf_stable held_stable)
    (fun _ _ h => h.1) fun _ _ _ h => h) fun _ => ?_
  refine Proc.Spec.bind committed_held fun b => ?_
  refine Proc.Spec.ite (fun hb => ?_) fun hb => ?_
  · exact Proc.Spec.weaken finishCommitted_changes
      (fun f hw h => h.1.keeping hw (h.2.trans hb)) fun _ _ _ h => h
  refine Proc.Spec.bind (deadlinePassed_calm.keeps wf_stable (held_stable.and decides_stable))
    fun late => ?_
  refine Proc.Spec.ite (fun _ => ?_) fun _ => ?_
  · exact Proc.Spec.weaken recoverLocked_changes (fun _ _ h => h.1.1) fun _ _ _ h => h
  refine Proc.Spec.ite (fun _ => Proc.Spec.pure fun _ _ _ => trivial) fun hs => ?_
  refine Proc.Spec.weaken (applyStaged_sound (not_not.mp hs)) ?_ fun _ _ _ h => h
  exact fun f _ h => ⟨h.1, h.2.trans (Bool.eq_false_iff.mpr hb)⟩

theorem forJob_sound {id : String} {p : Action Unit}
    (hp : ∀ j, Sound A G Wf (Held j) p fun _ _ => True) :
    Sound A G Wf (fun _ => True) (forJob id p) fun _ _ => True := by
  refine Proc.Spec.bind (IsCalm.require.keeps wf_stable .const) fun _ => ?_
  refine Proc.Spec.bind (readPending_sound wf_stable .const) fun pending => ?_
  cases pending with
  | none => exact Proc.Spec.pure fun _ _ _ => trivial
  | some j =>
    refine Proc.Spec.ite (fun _ => Proc.Spec.pure fun _ _ _ => trivial) fun _ => ?_
    exact Proc.Spec.bind (Q := fun _ => Held j)
      (setJob_sound fun f hk h => ⟨hk, h.2, rfl⟩) fun _ => hp j

theorem runApplyJob_sound {config : EngineConfig} {id : String} :
    Sound A G Wf (fun _ => True) (runApplyJob config id) fun _ _ => True :=
  forJob_sound fun _ => applyMatched_sound

end NdimonR.Engine
