import NdimonR.Engine.Confirm
import NdimonR.Engine.Staging

/-! Every call of the engine, however it ends, is a chain of changes. -/

namespace NdimonR.Engine

open NdimonR.Types

variable {A : Journal → World → Prop} {G : Prop} {P : Frame → Prop}

/-! ## Revert and the timers -/

theorem armWindow_wf :
    Sound A G Wf (fun f => f.world.pending = some f.job) armWindow fun _ _ => True :=
  armWindow_sound wf_stable (fun _ h => h) (fun _ h _ => h) fun _ h hc => hc.wf h

theorem held_job {j : Journal} :
    Sound A G Wf (Held j) job fun j' f => Held j f ∧ j' = j :=
  Proc.Spec.weaken job_sound (fun _ _ h => h) fun _ _ _ h => ⟨h.1, h.2.symm.trans h.1.2⟩

theorem lockSource_held {j : Journal} {t : Option Transfer} :
    Sound A G Wf (Held j) (lockSource t) fun _ => Held j :=
  lockSource_calm.keeps wf_stable held_stable

theorem recoverLocked_held {j : Journal} {outcome : Phase} :
    Sound A G Wf (Held j) (recoverLocked outcome) fun _ _ => True :=
  Proc.Spec.weaken recoverLocked_changes (fun _ _ h => h.1) fun _ _ _ h => h

theorem finishCommitted_held {j : Journal} {b : Bool} (hb : b = true) :
    Sound A G Wf (fun f => Held j f ∧ f.world.authority.decides j = b) finishCommitted
      fun _ _ => True :=
  Proc.Spec.weaken finishCommitted_changes (fun _ hw h => h.1.keeping hw (h.2.trans hb))
    fun _ _ _ h => h

theorem recoverMatched_sound {j : Journal} :
    Sound A G Wf (Held j) recoverMatched fun _ _ => True := by
  refine Proc.Spec.bind held_job fun j' => ?_
  refine Proc.Spec.assume (fun _ _ h => h.2) ?_
  rintro rfl
  refine Proc.Spec.bind (Proc.Spec.weaken lockSource_held (fun _ _ h => h.1) fun _ _ _ h => h)
    fun _ => ?_
  refine Proc.Spec.bind committed_held fun b => ?_
  refine Proc.Spec.ite finishCommitted_held fun _ => ?_
  refine Proc.Spec.bind (Q := fun _ => Held j')
    (Proc.Spec.weaken (deadlinePassed_calm.keeps wf_stable held_stable) (fun _ _ h => h.1)
      fun _ _ _ h => h) fun late => ?_
  refine Proc.Spec.ite (fun _ => ?_) fun _ => recoverLocked_held
  exact Proc.Spec.weaken armWindow_wf (fun _ _ h => h.1) fun _ _ _ h => h

theorem runRecovery_sound {id : String} :
    Sound A G Wf (fun _ => True) (runRecovery id) fun _ _ => True :=
  forJob_sound fun _ => recoverMatched_sound

/-- Takes the pending journal in hand. -/
theorem takeJournal_sound {j : Journal} :
    Sound A G Wf (fun f => P f ∧ f.world.pending = some j) (setJob fun _ => j)
      fun _ => Held j :=
  setJob_sound fun _ hw h => ⟨hw, h.2, rfl⟩

theorem rollback_sound :
    Sound A G Wf (fun _ => True) rollback fun _ _ => True := by
  refine Proc.Spec.bind (readPending_sound wf_stable .const) fun pending => ?_
  cases pending with
  | none => exact Proc.Spec.pure fun _ _ _ => trivial
  | some j =>
    refine Proc.Spec.bind takeJournal_sound fun _ => ?_
    exact Proc.Spec.bind lockSource_held fun _ => recoverLocked_held

theorem revert_sound {token : String} {w₀ : World} :
    Sound A G Wf (Since w₀) (revert token) fun _ _ => True := by
  refine Proc.Spec.bind matching_sound fun _ => ?_
  refine Proc.Spec.bind (Q := fun j => Held j)
    (Proc.Spec.weaken job_sound (fun _ _ h => h) ?_) fun j => ?_
  · rintro j f _ ⟨⟨i, ⟨_, hp, hi⟩, _⟩, hj⟩
    exact ⟨hp, hj⟩
  refine Proc.Spec.bind lockSource_held fun _ => ?_
  refine Proc.Spec.bind committed_held fun b => ?_
  refine Proc.Spec.ite (fun hb => ?_) fun _ => ?_
  · exact Proc.Spec.bind (finishCommitted_held hb) fun _ => Proc.Spec.fail fun _ _ _ => trivial
  · exact Proc.Spec.weaken recoverLocked_held (fun _ _ h => h.1) fun _ _ _ h => h

/-! ## Boot -/

theorem bootGuards_calm {c : Commit} : IsCalm (bootGuards c) :=
  slices_calm.bind fun _ => IsCalm.ofExcept.bind fun _ => setTable_none_calm

theorem guardsIgnored_calm {c : Commit} : IsCalm (guardsIgnored c) := by
  refine IsCalm.when (slices_calm.ignore.bind fun _ => ?_)
  cases firewall c.profiles 80 with
  | ok rules => exact setTable_none_calm.ignore
  | error e => exact IsCalm.pure

theorem bootQuiesced_calm : IsCalm bootQuiesced :=
  ask_calm.bind fun _ => IsCalm.when (load_calm.bind fun _ => bootGuards_calm.when)

theorem bootCommitted_calm : IsCalm bootCommitted :=
  load_calm.bind fun _ =>
    (IsCalm.when (ask_calm.bind fun _ => bootGuards_calm)).bind fun _ => IsCalm.pure

theorem calm_sound {α : Type} {p : Action α} (h : IsCalm p) :
    Sound A G Wf P p fun _ _ => True :=
  Proc.Spec.weaken (h.keeps wf_stable .const) (fun _ _ _ => trivial) fun _ _ _ h => h

/-- A release that is prepared has no journal to archive. -/
theorem completeRelease_sound :
    Sound A G Wf (fun _ => True) completeRelease fun _ _ => True := by
  refine Proc.Spec.bind (releaseStatus_sound .const) fun status => ?_
  refine Proc.Spec.ite (fun hs => ?_) fun _ => Proc.Spec.pure fun _ _ _ => trivial
  have hquiesced : status.quiesced = true := (Bool.and_eq_true_iff.mp hs).2
  let Quiesced : Frame → Prop := fun f => f.world.quiesced = true
  have hQ : Stable Quiesced := fun _ _ hc h => hc.2.quiesced.trans h
  have harchive : Sound A G Wf Quiesced archivePending fun _ => Quiesced := by
    refine effect_sound wf_stable hQ fun _ f hw hq => ?_
    have hnone : f.world.pending = none := hw.release hq
    have hsame : { f.world with pending := none } = f.world := by rw [← hnone]
    rw [hsame]
    exact ⟨.inl rfl, hw, hq⟩
  have hlast : Sound A G Wf Quiesced archiveLast fun _ => Quiesced := by
    refine act_sound wf_stable hQ fun _ f hw hq => ?_
    have hchange : Change A G f.world { f.world with last := none } := .archive
    exact ⟨hchange, hchange.wf hw, hq⟩
  have hrelease : Sound A G Wf Quiesced removeQuiesce fun _ _ => True := by
    refine act_sound wf_stable hQ fun _ f hw _ => ?_
    have hchange : Change A G f.world { f.world with quiesced := false } := .released
    exact ⟨hchange, hchange.wf hw, trivial⟩
  refine Proc.Spec.bind (Q := fun _ => Quiesced)
    (Proc.Spec.weaken (load_calm.keeps wf_stable hQ) ?_ fun _ _ _ h => h) fun _ => ?_
  · exact fun f _ h => h.2.symm.trans hquiesced
  refine Proc.Spec.bind (command_calm.keeps wf_stable hQ) fun _ => ?_
  refine Proc.Spec.bind harchive fun _ => ?_
  refine Proc.Spec.bind hlast fun _ => ?_
  refine Proc.Spec.bind hrelease fun _ => ?_
  exact Proc.Spec.pure fun _ _ _ => trivial

theorem bootPending_sound {j : Journal} :
    Sound A G Wf (Held j) bootPending fun _ _ => True := by
  refine Proc.Spec.bind held_job fun j' => ?_
  refine Proc.Spec.bind (Proc.Spec.weaken lockSource_held (fun _ _ h => h.1) fun _ _ _ h => h)
    fun _ => ?_
  refine Proc.Spec.bind (Q := fun _ _ => True)
    (Proc.Spec.weaken (Proc.Spec.attempt recoverLocked_held) (fun _ _ h => h)
      fun _ _ _ _ => trivial) fun r => ?_
  cases r with
  | ok u => exact calm_sound bootCommitted_calm
  | error e =>
    exact calm_sound <| job_calm.bind fun _ => IsCalm.require.bind fun _ =>
      load_calm.bind fun _ => guardsIgnored_calm.bind fun _ => IsCalm.pure

theorem boot_sound : Sound A G Wf (fun _ => True) boot fun _ _ => True := by
  refine Proc.Spec.bind completeRelease_sound fun release => ?_
  refine Proc.Spec.ite (fun _ => Proc.Spec.pure fun _ _ _ => trivial) fun _ => ?_
  refine Proc.Spec.ite (fun _ => calm_sound (bootQuiesced_calm.bind fun _ => IsCalm.pure))
    fun _ => ?_
  refine Proc.Spec.bind (readPending_sound wf_stable .const) fun pending => ?_
  cases pending with
  | none => exact calm_sound bootCommitted_calm
  | some j => exact Proc.Spec.bind takeJournal_sound fun _ => bootPending_sound

/-! ## The operator's way out -/

section accept

variable {J : Journal → Prop}

/-- A part of the way out that runs over a journal it may still write for. -/
theorem inMutating {α : Type} {p : Action α} {Q : α → Frame → Prop}
    (h : Sound A G (Mutating J) (fun _ => True) p Q) :
    Sound A G Wf (Mutating J) p fun _ => Mutating J :=
  Proc.Spec.within h (fun _ _ h => ⟨h, trivial⟩) (fun _ _ h => h) (fun _ h => h.wf)
    (fun _ _ h _ => h) fun _ _ _ _ => trivial

theorem noted_sound {path : String} {p : Action Unit}
    (h : Sound A G (Mutating J) (fun _ => True) p fun _ _ => True) :
    Sound A G (Mutating J) (fun _ => True) (noted path p) fun _ _ => True := by
  refine Proc.Spec.bind (Q := fun _ _ => True)
    (Proc.Spec.weaken (Proc.Spec.attempt h) (fun _ _ h => h) fun _ _ _ _ => trivial) fun r => ?_
  cases r with
  | ok u => exact Proc.Spec.pure fun _ _ _ => trivial
  | error e => exact Proc.Spec.pure fun _ _ _ => trivial

theorem restoreNoted_sound (cs : List FileChange) :
    Sound A G (Mutating J) (fun _ => True) (restoreNoted cs) fun _ _ => True := by
  induction cs with
  | nil => exact Proc.Spec.pure fun _ _ _ => trivial
  | cons c rest ih =>
    have hone : Sound A G (Mutating J) (fun _ => True) (noted c.path (restore c))
        fun _ _ => True :=
      noted_sound (replace_sound .const fun _ _ _ => trivial)
    exact Proc.Spec.bind hone fun _ => Proc.Spec.bind ih fun _ =>
      Proc.Spec.pure fun _ _ _ => trivial

theorem discardCreated_sound {p : Plan} :
    Sound A G (Mutating J) (fun _ => True) (discardCreated p) fun _ _ => True := by
  have hreload : Sound A G (Mutating J) (fun _ => True) (Proc.ignore nmReload)
      fun _ _ => True :=
    Proc.Spec.weaken (Proc.Spec.ignore (nmReload_sound (Q := fun _ => True) .const fun _ _ _ _ => trivial))
      (fun _ _ h => h) fun _ _ _ _ => trivial
  refine Proc.Spec.bind (Proc.Spec.when (fun _ => hreload) fun _ _ _ h => h) fun _ => ?_
  exact command_calm.ignore.keeps mutating_stable .const

theorem acceptFailed_sound {j : Journal} (hh : j.handoff = none) :
    Sound A True Wf (Mutating (· = j)) (acceptFailed j) fun _ _ => True := by
  have hcalm : ∀ {α : Type} {p : Action α}, IsCalm p →
      Sound A True Wf (Mutating (· = j)) p fun _ => Mutating (· = j) :=
    fun h => h.keeps wf_stable mutating_stable
  have hguards : Sound A True (Mutating (· = j)) (fun _ => True)
      (noted "nftables table ndimon_management" (setTable (some j.jobId) j.plan.oldTable))
        fun _ _ => True :=
    noted_sound (setTable_sound (fun _ h => congrArg Journal.jobId h) .const fun _ _ _ => trivial)
  refine Proc.Spec.bind (hcalm ask_calm) fun _ => ?_
  refine Proc.Spec.bind (hcalm stopConsumers_calm.ignore) fun _ => ?_
  refine Proc.Spec.bind (hcalm slices_calm.ignore.when) fun _ => ?_
  refine Proc.Spec.bind (inMutating (restoreNoted_sound _)) fun first => ?_
  refine Proc.Spec.bind (inMutating hguards) fun guards => ?_
  refine Proc.Spec.bind (inMutating (restoreNoted_sound _)) fun second => ?_
  refine Proc.Spec.bind (inMutating discardCreated_sound) fun _ => ?_
  refine Proc.Spec.bind (hcalm resumeConsumers_calm.ignore) fun _ => ?_
  refine Proc.Spec.bind (Q := fun _ => Mutating (· = j)) ?_ fun _ => ?_
  · refine writeLast_sound wf_stable mutating_stable ?_ ?_
    · exact fun f l hw _ => Change.wf (A := A) (G := True) (.last l) hw
    · intro f hw h
      exact h.moved (Change.wf (A := A) (G := True) (.last _) hw) rfl fun _ => rfl
  refine Proc.Spec.bind (Q := fun _ _ => True) ?_ fun _ => ?_
  · refine act_sound wf_stable mutating_stable fun _ f hw h => ?_
    obtain ⟨d, hp, ha, _⟩ := h.durable
    have hu : f.world.authority.decides d = false := by
      rw [decides_congr ha.same]
      exact h.undecided
    have hnot : ∀ {φ : Prop} t, d.handoff = some t → φ := by
      intro φ t ht
      rw [handoff_congr ha.same, h.mine, hh] at ht
      cases ht
    have hchange : Change A True f.world f.world.removePending :=
      .finish hp (.inr ⟨hu, .inr (.inr (.inr trivial))⟩) ⟨fun _ t ht => hnot t ht,
        fun _ t ht => hnot t ht⟩
    exact ⟨hchange, hchange.wf hw, trivial⟩
  refine Proc.Spec.bind (calm_sound stopTimers_calm) fun _ => ?_
  exact Proc.Spec.pure fun _ _ _ => trivial

theorem acceptCurrent_sound :
    Sound A True Wf (fun _ => True) acceptCurrent fun _ _ => True := by
  refine Proc.Spec.bind (readPending_sound wf_stable .const) fun pending => ?_
  cases pending with
  | none => exact Proc.Spec.fail fun _ _ _ => trivial
  | some j =>
    refine Proc.Spec.bind takeJournal_sound fun _ => ?_
    refine Proc.Spec.bind require_sound fun _ => ?_
    refine Proc.Spec.assume (fun _ _ h => h.2) fun hhandoff => ?_
    refine Proc.Spec.bind (Proc.Spec.weaken committed_held (fun _ _ h => h.1) fun _ _ _ h => h)
      fun b => ?_
    refine Proc.Spec.ite (fun hb => ?_) fun hb => ?_
    · exact Proc.Spec.bind (finishCommitted_held hb) fun _ => Proc.Spec.fail fun _ _ _ => trivial
    refine Proc.Spec.bind require_sound fun _ => ?_
    refine Proc.Spec.weaken (acceptFailed_sound hhandoff) ?_ fun _ _ _ h => h
    rintro f hw ⟨⟨⟨hp, hj⟩, hu⟩, _, hphase⟩
    have hok : JournalOk f.job := hw.journal _ hp
    have hmodified : f.job.phase ≠ .staged := by
      rw [hj, hphase]
      exact nofun
    have hheld : f.job.handoffRestored = false := by
      cases hr : f.job.handoffRestored with
      | false => rfl
      | true =>
        have hsome := (hok.handoff hr).1
        rw [hj, hhandoff] at hsome
        cases hsome
    refine ⟨hw, hok, ?_, hmodified, hheld, ⟨f.job, hp, .refl _, hmodified⟩, hj⟩
    rw [hj]
    exact hu.trans (Bool.eq_false_iff.mpr hb)

end accept

/-! ## All calls -/

/-- What a call that began in `w₀` knows of a journal it commits: only a confirm commits. -/
def Call.admits (w₀ : World) : Call → Journal → World → Prop
  | .confirm token localAddress => Admits token localAddress w₀
  | _ => fun _ _ => False

/-- Whether a call may end a journal whatever the files hold. -/
def Call.givesUp : Call → Prop
  | .acceptCurrent => True
  | _ => False

theorem value_dropped {α : Type} {p : Action α}
    (h : Sound A G Wf P p fun _ _ => True) :
    Sound A G Wf P (do let _ ← p; pure ()) fun _ _ => True :=
  Proc.Spec.bind h fun _ => Proc.Spec.pure fun _ _ _ => trivial

theorem call_sound (config : EngineConfig) (w₀ : World) (c : Call) :
    Sound (c.admits w₀) c.givesUp Wf (Since w₀) (c.run config) fun _ _ => True := by
  have hany : ∀ {p : Action Unit},
      Sound (c.admits w₀) c.givesUp Wf (fun _ => True) p (fun _ _ => True) →
        Sound (c.admits w₀) c.givesUp Wf (Since w₀) p fun _ _ => True :=
    fun h => Proc.Spec.weaken h (fun _ _ _ => trivial) fun _ _ _ h => h
  cases c with
  | stage candidate revision session => exact hany (value_dropped stage_sound)
  | commitHandoff source token session => exact hany (value_dropped commitHandoff_sound)
  | runApplyJob id => exact hany runApplyJob_sound
  | confirm token address => exact value_dropped confirm_sound
  | revert token => exact revert_sound
  | rollback => exact hany rollback_sound
  | runRecovery id => exact hany runRecovery_sound
  | boot => exact hany (value_dropped boot_sound)
  | acceptCurrent => exact hany (value_dropped acceptCurrent_sound)

/-- Whatever the outside does in a call, and however the call ends, it changes the device one
`Change` at a time. -/
theorem call_changes {config : EngineConfig} {w : World} (hw : w.Wf) (c : Call)
    (script : List Answer) :
    Changes (c.admits w) c.givesUp w (w.step config (.call c script)) :=
  Moves.changes
    (call_sound config w c (.start w script) hw ⟨rfl, Nat.le_refl _, [], rfl⟩).1

theorem World.Wf.step {config : EngineConfig} {w : World} (hw : w.Wf) (s : Step) :
    (w.step config s).Wf := by
  cases s with
  | call c script => exact (call_changes hw c script).wf hw
  | pass elapsed writes =>
    exact Change.wf (A := fun _ _ => False) (G := False) (.pass elapsed writes) hw
  | reboot | peer => exact ⟨hw.version, hw.decision, hw.release, hw.journal⟩
  | release quiesced externallyManaged =>
    change (w.setRelease quiesced externallyManaged).Wf
    unfold World.setRelease
    split
    · exact hw
    · rename_i hrelease
      refine ⟨hw.version, hw.decision, ?_, hw.journal⟩
      intro hq
      change quiesced = true at hq
      rw [hq, Bool.true_and] at hrelease
      simpa using hrelease

theorem World.Initial.wf {w : World} (h : w.Initial) : w.Wf := by
  refine ⟨h.version, h.decision, fun _ => h.pending, ?_⟩
  intro d hd
  rw [h.pending] at hd
  cases hd

theorem Reachable.wf {config : EngineConfig} {allowed : Step → Prop} {w : World}
    (h : Reachable config allowed w) : w.Wf := by
  induction h with
  | init h => exact h.wf
  | step _ _ ih => exact ih.step _

/-- An invariant of every run: each change of an allowed call keeps it, and so does what happens
between two calls. -/
theorem Reachable.invariant {config : EngineConfig} {allowed : Step → Prop} {I : World → Prop}
    (hinit : ∀ w, w.Initial → I w)
    (hcall : ∀ c script w₀ w w', allowed (.call c script) → w.Wf → I w →
      Change (c.admits w₀) c.givesUp w w' → I w')
    (hpass : ∀ w elapsed writes, w.Wf → I w → I (w.pass elapsed writes))
    (hreboot : ∀ w uptime, w.Wf → I w → I (w.reboot uptime))
    (hrelease : ∀ w quiesced externallyManaged, I w → I (w.setRelease quiesced externallyManaged))
    (hpeer : ∀ w quiesce, I w → I { w with peerQuiesce := quiesce })
    {w : World} (h : Reachable config allowed w) : I w := by
  induction h with
  | init h => exact hinit _ h
  | @step w s hreach hallowed ih =>
    have hw : w.Wf := hreach.wf
    cases s with
    | call c script =>
      have hchain : Changes (c.admits w) c.givesUp w (w.step config (.call c script)) :=
        call_changes hw c script
      have hboth : (w.step config (.call c script)).Wf ∧ I (w.step config (.call c script)) := by
        refine chain_invariant (I := fun w => w.Wf ∧ I w) ?_ hchain ⟨hw, ih⟩
        intro a b hchange ⟨ha, hi⟩
        exact ⟨hchange.wf ha, hcall c script w a b hallowed ha hi hchange⟩
      exact hboth.2
    | pass elapsed writes => exact hpass w elapsed writes hw ih
    | reboot uptime => exact hreboot w uptime hw ih
    | release quiesced externallyManaged => exact hrelease w quiesced externallyManaged ih
    | peer quiesce => exact hpeer w quiesce ih

end NdimonR.Engine
