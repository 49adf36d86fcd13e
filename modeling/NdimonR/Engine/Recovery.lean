import NdimonR.Engine.Regions

/-! Recovery and the two ways a journal ends, as chains of changes. -/

namespace NdimonR.Engine

open NdimonR.Types

variable {α : Type} {A : Journal → World → Prop} {G : Prop} {K P : Frame → Prop}

def Wf (f : Frame) : Prop := f.world.Wf

theorem wf_stable : Stable Wf := fun _ _ hc h => hc.2.wf h

/-- The journal in hand continues the durable one. -/
def Owned (f : Frame) : Prop :=
  JournalOk f.job ∧ ∃ d, f.world.pending = some d ∧ Advance d f.job ∧
    (f.job.handoffRestored = true → d.handoffRestored = true) ∧ d.phase ≠ .staged

/-- A durable journal nothing has been done for, or whose undoing is complete. -/
def Unmodified (f : Frame) : Prop :=
  f.world.authority.decides f.job = false ∧
    ∃ d, f.world.pending = some d ∧ Advance d f.job ∧
      (d.phase = .staged ∨ d.handoffRestored = true)

/-- A durable journal whose decision the authority holds. -/
def Keeping (f : Frame) : Prop :=
  f.world.authority.decides f.job = true ∧ JournalOk f.job ∧
    ∃ d, f.world.pending = some d ∧ Advance d f.job

/-- The journal may be removed. -/
def Endable (G : Prop) (f : Frame) : Prop :=
  ∃ d, f.world.pending = some d ∧
    ((f.world.authority.decides d = true ∧ f.world.files banner = none) ∨
      (f.world.authority.decides d = false ∧
        (d.phase = .staged ∨ d.handoffRestored = true ∨ Restored f.world.files d ∨ G))) ∧
    Told d f.world

section stable

variable {j : Journal}

theorem pending_stable {d : Option Journal} : Stable fun f => f.world.pending = d :=
  Stable.ofWorld fun _ _ _ hq h => hq.pending.trans h

theorem job_stable : Stable fun f => f.job = j := fun _ _ hc h => hc.1.trans h

theorem restored_stable : Stable fun f => Restored f.world.files j := by
  intro f f' hc h
  rw [hc.2.files]
  exact h

theorem decides_stable {b : Bool} : Stable fun f => f.world.authority.decides j = b :=
  fun _ _ hc h => (hc.2.decides j).trans h

theorem owned_stable : Stable Owned := by
  intro f f' hc ⟨hok, d, hp, ha⟩
  refine ⟨by rw [hc.1]; exact hok, d, hc.2.pending.trans hp, ?_⟩
  rw [hc.1]
  exact ha

theorem unmodified_stable : Stable Unmodified := by
  intro f f' hc ⟨hu, d, hp, ha, hs⟩
  refine ⟨?_, d, hc.2.pending.trans hp, by rw [hc.1]; exact ha, hs⟩
  rw [hc.1, hc.2.decides]
  exact hu

theorem keeping_stable : Stable Keeping := by
  intro f f' hc ⟨hd, hok, d, hp, ha⟩
  refine ⟨?_, by rw [hc.1]; exact hok, d, hc.2.pending.trans hp, by rw [hc.1]; exact ha⟩
  rw [hc.1, hc.2.decides]
  exact hd

theorem endable_stable : Stable (Endable G) := by
  intro f f' hc ⟨d, hp, h, ht⟩
  refine ⟨d, hc.2.pending.trans hp, ?_, hc.2.told ht⟩
  rw [hc.2.decides, hc.2.files]
  exact h

end stable

/-! ## Reads -/

theorem readPending_sound (hK : Stable K) (hP : Stable P) :
    Sound A G K P readPending fun x f => P f ∧ f.world.pending = x :=
  Proc.Spec.weaken (ask_sound hK hP) (fun _ _ h => h) fun _ _ _ ⟨hp, _, hx⟩ => ⟨hp, hx.symm⟩

theorem load_sound (hK : Stable K) (hP : Stable P) :
    Sound A G K P load fun c f => P f ∧ c = f.world.authority :=
  effect_sound hK hP fun _ f hk hp =>
    ⟨.inr .load, hK f _ ⟨rfl, .load⟩ hk, hP f _ ⟨rfl, .load⟩ hp, rfl⟩

/-- What `committed` computes is that the authority holds the decision. -/
theorem committed_eq {w : World} {j : Journal} {next : Commit} (hw : w.Wf)
    (hn : nextCommit j = .ok next) :
    (Decidable.decide (next.revision ≤ w.authority.revision) &&
      w.authority == { next with revision := w.authority.revision }) = w.authority.decides j := by
  have hnext := nextCommit_ok hn
  subst hnext
  rw [Bool.eq_iff_iff]
  simp only [Bool.and_eq_true, decide_eq_true_eq, beq_iff_eq, Commit.decides]
  constructor
  · rintro ⟨_, he⟩
    rw [he]
    simp
  · rintro ⟨⟨⟨⟨hv, hp⟩, hm⟩, ht⟩, hr⟩
    refine ⟨hw.decision _ hr, ?_⟩
    cases hc : w.authority with
    | mk version revision profiles metadata transaction decision =>
      rw [hc] at hv hp hm ht hr
      simp_all

theorem committed_sound {j : Journal} (hj : j.operation ≠ .syncTessera) (hK : Stable K)
    (hP : Stable P) (hwf : ∀ f, K f → f.world.Wf) :
    Sound A G K P (committed j) fun b f =>
      P f ∧ f.world.authority.decides j = b := by
  unfold committed
  rw [if_neg hj]
  refine Proc.Spec.bind (load_sound hK hP) fun actual => ?_
  refine Proc.Spec.bind
    (Q := fun next f => (P f ∧ actual = f.world.authority) ∧ nextCommit j = .ok next)
    (Proc.Spec.ofExcept (fun _ _ hok _ hp => ⟨hp, hok⟩) fun _ _ _ _ _ => trivial) fun next => ?_
  refine Proc.Spec.pure fun f hk ⟨⟨hp, ha⟩, hn⟩ => ⟨hp, ?_⟩
  rw [ha]
  exact (committed_eq (hwf f hk) hn).symm

/-! ## Endings -/

theorem writeLast_sound {phase : Phase} {e : Option ApiError} {Q : Frame → Prop} (hK : Stable K)
    (hP : Stable P) (h : ∀ f l, K f → P f → K { f with world := f.world.putLast l })
    (hq : ∀ f, K f → P f →
      Q { f with world := f.world.putLast ⟨f.job.token, phase, e⟩ }) :
    Sound A G K P (writeLast phase e) fun _ => Q :=
  act_sound hK hP fun _ f hk hp => ⟨.last _, h f _ hk hp, hq f hk hp⟩

/-- What a finished journal leaves: no journal, the outcome, whether the authority holds its
decision, and (under `X`) the files as they were. -/
def Finished (X : Prop) (kept : Bool) (j : Journal) (phase : Phase) (f : Frame) : Prop :=
  f.world.pending = none ∧ f.world.last = some ⟨j.token, phase, j.applyError⟩ ∧
    f.world.authority.decides j = kept ∧ (X → Restored f.world.files j)

theorem finished_stable {X : Prop} {kept : Bool} {j : Journal} {phase : Phase} :
    Stable (Finished X kept j phase) := by
  intro f f' hc ⟨hp, hl, hd, hr⟩
  refine ⟨hc.2.pending.trans hp, hc.2.last.trans hl, (hc.2.decides j).trans hd, ?_⟩
  rw [hc.2.files]
  exact hr

/-- What a journal that is about to be removed is known to be. -/
def Ending (G X : Prop) (kept : Bool) (j : Journal) (f : Frame) : Prop :=
  Endable G f ∧ f.job = j ∧ f.world.authority.decides j = kept ∧
    (X → Restored f.world.files j)

theorem ending_stable {X : Prop} {kept : Bool} {j : Journal} :
    Stable (Ending G X kept j) :=
  endable_stable.and (job_stable.and (decides_stable.and restored_stable.imp))

theorem endJournal_sound {X : Prop} {kept : Bool} {j : Journal} {phase : Phase} :
    Sound A G Wf (Ending G X kept j) (endJournal phase)
      fun _ => Finished X kept j phase := by
  refine Proc.Spec.bind job_sound fun j' => ?_
  refine Proc.Spec.bind
    (Q := fun _ f => Ending G X kept j f ∧
      f.world.last = some ⟨j.token, phase, j.applyError⟩) ?_ fun _ => ?_
  · refine writeLast_sound wf_stable (ending_stable.and job_stable) ?_ ?_
    · intro f l hw _
      exact Change.wf (A := A) (G := G) (.last l) hw
    · intro f _ ⟨⟨⟨d, hp, hf, ht⟩, hj, hd, hr⟩, hj'⟩
      refine ⟨⟨⟨d, hp, hf, ⟨ht.kept, ht.freed⟩⟩, hj, hd, hr⟩, ?_⟩
      rw [hj] at hj'
      subst hj'
      simp only [World.putLast, hj]
  refine Proc.Spec.bind (Q := fun _ => Finished X kept j phase) ?_ fun _ =>
    stopTimers_calm.keeps wf_stable finished_stable
  refine act_sound wf_stable (ending_stable.and ?_) ?_
  · intro f f' hc h
    exact hc.2.last.trans h
  · intro _ f hw ⟨⟨⟨d, hp, hf, ht⟩, hj, hd, hr⟩, hl⟩
    have hchange : Change A G f.world f.world.removePending := .finish hp hf ht
    refine ⟨hchange, hchange.wf hw, ?_⟩
    rw [removePending_eq hp]
    exact ⟨rfl, hl, hd, hr⟩

/-- The frame after a marker of the releasing engine has been removed. -/
def Frame.releasing (f : Frame) (e : Option Ownership) (q : Option String) : Frame :=
  { f with
    world := { f.world with peerExternal := e, peerQuiesce := q }.note
      (.released f.job f.world.files) }

theorem freed_stable {t : Transfer} : Stable fun f => Freed t f.world :=
  fun _ _ hc h => hc.2.freed h

theorem restored_sound {t : Transfer} {P : Frame → Prop} (hP : Stable P)
    (hkeep : ∀ f e q, P f → P (f.releasing e q))
    (hstart : ∀ f, P f → ∃ d, f.world.pending = some d ∧ d.handoff = some t ∧
      d.identity = f.job.identity ∧ f.world.authority.decides d = false ∧
        (d.phase = .staged ∨ d.handoffRestored = true))
    (hK : Stable K) (hkeepK : ∀ f e q, K f → P f → K (f.releasing e q)) :
    Sound A G K P (restored t) fun _ f => P f ∧ Freed t f.world := by
  have hseen : ∀ external, Stable fun f : Frame => P f ∧ f.world.peerExternal = external :=
    fun external => hP.and fun _ _ hc h => hc.2.external.trans h
  refine Proc.Spec.bind (Q := fun external f => P f ∧ f.world.peerExternal = external)
    (Proc.Spec.weaken (ask_sound hK hP) (fun _ _ h => h)
      fun _ _ _ ⟨h, _, hx⟩ => ⟨h, hx.symm⟩) fun external => ?_
  refine Proc.Spec.bind (Q := fun _ f => P f ∧ Freed t f.world) ?_ fun _ => ?_
  · refine Proc.Spec.when (fun hany => ?_) ?_
    · cases external with
      | none => cases hany
      | some o =>
        have hid : o.id = t.source.id := by simpa using hany
        refine act_sound hK (hseen (some o)) fun _ f hk ⟨hp, hx⟩ => ?_
        obtain ⟨d, hd, ht, hi, hu, hs⟩ := hstart f hp
        refine ⟨.releaseExternal hd ht hi hu hs hx hid, hkeepK f none f.world.peerQuiesce hk hp,
          hkeep f none f.world.peerQuiesce hp, ?_⟩
        exact fun _ h => nomatch h
    · rintro f hnot _ ⟨h, hx⟩
      refine ⟨h, ?_⟩
      intro o ho he
      rw [hx] at ho
      rw [ho] at hnot
      simp [he] at hnot
  have hfree : Stable fun f : Frame => P f ∧ Freed t f.world := hP.and freed_stable
  refine Proc.Spec.bind (Q := fun _ f => P f ∧ Freed t f.world)
    (Proc.Spec.weaken (ask_sound hK hfree) (fun _ _ h => h) fun _ _ _ h => h.1) fun _ => ?_
  refine Proc.Spec.when (fun _ => ?_) fun _ _ _ h => h
  refine act_sound hK hfree fun _ f hk ⟨hp, hf⟩ => ?_
  obtain ⟨d, hd, ht, hi, hu, hs⟩ := hstart f hp
  exact ⟨.releaseQuiesce hd ht hi hu hs hf, hkeepK f f.world.peerExternal none hk hp,
    hkeep f f.world.peerExternal none hp, hf⟩

theorem Wf.releasing {f : Frame} (h : Wf f) (e : Option Ownership) (q : Option String) :
    Wf (f.releasing e q) :=
  ⟨h.version, h.decision, h.release, h.journal⟩

theorem finishUnmodified_sound {X : Prop} {j : Journal} {outcome : Phase} :
    Sound A G Wf
      (fun f => Unmodified f ∧ f.job = j ∧ (X → Restored f.world.files j))
      (finishUnmodified outcome) fun _ => Finished X false j outcome := by
  have hP : Stable fun f : Frame =>
      Unmodified f ∧ f.job = j ∧ (X → Restored f.world.files j) :=
    unmodified_stable.and (job_stable.and restored_stable.imp)
  refine Proc.Spec.bind job_sound fun j' => ?_
  refine Proc.Spec.assume (φ := j' = j) (fun f _ ⟨⟨_, hj, _⟩, hj'⟩ => hj'.symm.trans hj) ?_
  rintro rfl
  refine Proc.Spec.bind
    (Q := fun _ f => (Unmodified f ∧ f.job = j' ∧ (X → Restored f.world.files j')) ∧
      ∀ t, j'.handoff = some t → Freed t f.world) ?_ fun _ => ?_
  · refine Proc.Spec.weaken (B := fun f =>
        Unmodified f ∧ f.job = j' ∧ (X → Restored f.world.files j')) ?_
      (fun _ _ h => h.1) fun _ _ _ h => h
    cases ht : j'.handoff with
    | none => exact Proc.Spec.pure fun _ _ h => ⟨h, fun t ht => nomatch ht⟩
    | some t =>
      refine Proc.Spec.weaken (restored_sound hP (fun f e q h => h) ?_ wf_stable
        fun f e q hw _ => Wf.releasing hw e q) (fun _ _ h => h) ?_
      · intro f ⟨⟨hu, d, hd, ha, hs⟩, hj, _⟩
        refine ⟨d, hd, ?_, ha.same, ?_, hs⟩
        · rw [handoff_congr ha.same, hj]
          exact ht
        · rw [decides_congr ha.same]
          exact hu
      · rintro _ f _ ⟨h, hf⟩
        refine ⟨h, ?_⟩
        rintro _ ⟨⟩
        exact hf
  · refine Proc.Spec.weaken endJournal_sound ?_ fun _ _ _ h => h
    intro f _ ⟨⟨⟨hu, d, hd, ha, hs⟩, hj, hr⟩, hf⟩
    have hud : f.world.authority.decides d = false := by
      rw [decides_congr ha.same]
      exact hu
    refine ⟨⟨d, hd, .inr ⟨hud, hs.imp_right .inl⟩, ⟨?_, ?_⟩⟩, hj, by rw [← hj]; exact hu, hr⟩
    · intro hdecides
      rw [hud] at hdecides
      cases hdecides
    · intro _ t ht
      rw [handoff_congr ha.same, hj] at ht
      exact hf t ht

theorem finishCommitted_sound {j : Journal} :
    Sound A G Wf (fun f => Keeping f ∧ f.job = j) finishCommitted
      fun _ => Finished False true j .confirmed := by
  have hP : Stable fun f : Frame => Keeping f ∧ f.job = j := keeping_stable.and job_stable
  refine Proc.Spec.bind job_sound fun j' => ?_
  refine Proc.Spec.assume (φ := j' = j) (fun f _ h => h.2.symm.trans h.1.2) ?_
  rintro rfl
  have hT : Stable fun f : Frame => (Keeping f ∧ f.job = j') ∧
      ∀ t, j'.handoff = some t → .kept (ownership t j'.jobId) ∈ f.world.trace :=
    hP.and fun _ _ hc h t ht => hc.2.trace (h t ht)
  refine Proc.Spec.bind (Q := fun _ f => (Keeping f ∧ f.job = j') ∧
      ∀ t, j'.handoff = some t → .kept (ownership t j'.jobId) ∈ f.world.trace) ?_ fun _ => ?_
  · refine Proc.Spec.weaken (B := fun f => Keeping f ∧ f.job = j') ?_ (fun _ _ h => h.1)
      fun _ _ _ h => h
    cases ht : j'.handoff with
    | none => exact Proc.Spec.pure fun _ _ h => ⟨h, fun t ht => nomatch ht⟩
    | some t =>
      refine Proc.Spec.bind (Q := fun _ f => Keeping f ∧ f.job = j')
        (Proc.Spec.weaken (ask_sound wf_stable hP) (fun _ _ h => h) fun _ _ _ h => h.1) fun _ => ?_
      refine Proc.Spec.bind (Q := fun _ f => Keeping f ∧ f.job = j')
        (Proc.Spec.weaken (Proc.Spec.require fun _ _ _ _ => trivial) (fun _ _ h => h)
          fun _ _ _ h => h.1) fun _ => ?_
      refine act_sound wf_stable hP fun _ f hw h => ?_
      obtain ⟨⟨hd, hok, d, hp, ha⟩, hj⟩ := h
      have hjob : j'.jobId = d.jobId := by rw [← hj]; exact (jobId_congr ha.same).symm
      have hchange : Change A G f.world
          ({ f.world with peerDone := ownership t j'.jobId :: f.world.peerDone }.note
            (.kept (ownership t j'.jobId))) := by
        rw [hjob]
        refine .kept hp ?_ ?_
        · rw [handoff_congr ha.same, hj]
          exact ht
        · rw [decides_congr ha.same]
          exact hd
      refine ⟨hchange, hchange.wf hw, ⟨⟨hd, hok, d, hp, ha⟩, hj⟩, ?_⟩
      rintro _ ⟨⟩
      exact List.mem_cons_self
  refine Proc.Spec.bind (pruneNm_calm.keeps wf_stable hT) fun _ => ?_
  refine Proc.Spec.bind
    (Q := fun _ f => ((Keeping f ∧ f.job = j') ∧
      ∀ t, j'.handoff = some t → .kept (ownership t j'.jobId) ∈ f.world.trace) ∧
        f.world.files banner = none) ?_ fun _ => ?_
  · refine Proc.Spec.when (fun _ => ?_) ?_
    · refine act_sound wf_stable hT fun _ f hw h => ?_
      obtain ⟨⟨⟨hd, hok, d, hp, ha⟩, hj⟩, ht⟩ := h
      have hchange : Change A G f.world
          ((f.world.writeFile banner none).note (.wrote f.job.jobId banner none)) := by
        rw [← jobId_congr ha.same]
        exact .unbanner hp (by rw [decides_congr ha.same]; exact hd)
      refine ⟨hchange, hchange.wf hw, ⟨⟨⟨hd, hok, d, hp, ha⟩, hj⟩, ?_⟩, ?_⟩
      · exact fun t h => List.mem_cons_of_mem _ (ht t h)
      · simp [World.writeFile, World.note]
    · rintro f hop _ ⟨⟨⟨_, hok, _⟩, hj⟩, _⟩
      refine absurd ?_ hop
      have hne := hok.operation
      rw [hj] at hne
      cases h : j'.operation with
      | network => exact .inl rfl
      | handoff => exact .inr rfl
      | syncTessera => exact absurd h hne
  · refine Proc.Spec.weaken endJournal_sound ?_ fun _ _ _ h => h
    rintro f _ ⟨⟨⟨⟨hd, _, d, hp, ha⟩, hj⟩, ht⟩, hb⟩
    have hdd : f.world.authority.decides d = true := by
      rw [decides_congr ha.same]
      exact hd
    refine ⟨⟨d, hp, .inl ⟨hdd, hb⟩, ⟨?_, ?_⟩⟩, hj, by rw [← hj]; exact hd, fun h => h.elim⟩
    · intro _ t hh
      rw [handoff_congr ha.same, hj] at hh
      rw [jobId_congr ha.same, hj]
      exact ht t hh
    · intro hu
      rw [hdd] at hu
      cases hu

/-! ## While the device is being changed -/

/-- A durable journal past `staged`, undecided: the engine may write the files of its plan. `J` is
what else the running call knows of the journal in hand. -/
structure Mutating (J : Journal → Prop) (f : Frame) : Prop where
  wf : f.world.Wf
  ok : JournalOk f.job
  undecided : f.world.authority.decides f.job = false
  modified : f.job.phase ≠ .staged
  held : f.job.handoffRestored = false
  durable : ∃ d, f.world.pending = some d ∧ Advance d f.job ∧ d.phase ≠ .staged
  mine : J f.job

variable {J : Journal → Prop}

theorem Mutating.moved {f : Frame} {w : World} (h : Mutating J f) (hw : w.Wf)
    (hp : w.pending = f.world.pending)
    (hd : ∀ j, w.authority.decides j = f.world.authority.decides j) :
    Mutating J { f with world := w } := by
  obtain ⟨d, hpd, ha, hs⟩ := h.durable
  exact ⟨hw, h.ok, (hd _).trans h.undecided, h.modified, h.held, ⟨d, hp.trans hpd, ha, hs⟩, h.mine⟩

theorem Mutating.undoing {f : Frame} (h : Mutating J f) :
    ∃ d, Undoing f.world d ∧ d.jobId = f.job.jobId := by
  obtain ⟨d, hp, ha, hs⟩ := h.durable
  refine ⟨d, ⟨hp, (decides_congr ha.same _).trans h.undecided, hs, ?_⟩, jobId_congr ha.same⟩
  cases hr : d.handoffRestored with
  | false => rfl
  | true =>
    have hreleased := ha.released hr
    rw [h.held] at hreleased
    cases hreleased

theorem mutating_stable : Stable (Mutating J) := by
  intro f f' ⟨hj, hq⟩ h
  have hmoved := h.moved (hq.wf h.wf) hq.pending hq.decides
  obtain ⟨w', script, job⟩ := f'
  subst hj
  exact ⟨hmoved.wf, hmoved.ok, hmoved.undecided, hmoved.modified, hmoved.held, hmoved.durable,
    hmoved.mine⟩

theorem replace_sound {path : String} {image : Option Image} {Q : Frame → Prop} (hP : Stable P)
    (hq : ∀ f, Mutating J f → P f →
      Q { f with world := (f.world.writeFile path image).note (.wrote f.job.jobId path image) }) :
    Sound A G (Mutating J) P (replace path image) fun _ => Q := by
  refine act_sound mutating_stable hP fun _ f hk hp => ?_
  obtain ⟨d, hu, hid⟩ := hk.undoing
  have hchange : Change A G f.world
      ((f.world.writeFile path image).note (.wrote f.job.jobId path image)) := by
    rw [← hid]
    exact .write path image hu
  exact ⟨hchange, hk.moved (hchange.wf hk.wf) rfl fun _ => rfl, hq f hk hp⟩

theorem nmReload_sound {Q : Frame → Prop} (hP : Stable P)
    (hq : ∀ f saved, Mutating J f → P f → Q { f with world := f.world.saveKeyfiles saved }) :
    Sound A G (Mutating J) P nmReload fun _ => Q := by
  refine act_sound mutating_stable hP fun a f hk hp => ?_
  obtain ⟨d, hu, _⟩ := hk.undoing
  have hchange : Change A G f.world (f.world.saveKeyfiles a.rendered) :=
    .keyfiles a.rendered hu
  exact ⟨hchange, hk.moved (hchange.wf hk.wf) rfl fun _ => rfl, hq f a.rendered hk hp⟩

/-- The facts `P` keeps when only the trace grows. -/
def Traceless (P : Frame → Prop) : Prop :=
  ∀ f e, P f → P { f with world := f.world.note e }

theorem bringUp_sound {p : NetworkProfiles} (hP : Stable P) (ht : Traceless P) :
    Sound A G (Mutating J) P (bringUp p) fun _ => P := by
  refine act_sound mutating_stable hP fun _ f hk hp => ?_
  obtain ⟨d, hu, hid⟩ := hk.undoing
  have hchange : Change A G f.world (f.world.note (.activated f.job.jobId p)) := by
    rw [← hid]
    exact .activate p hu
  exact ⟨hchange, hk.moved (hchange.wf hk.wf) rfl fun _ => rfl, ht f _ hp⟩

/-- Loading rules for the journal in hand. -/
theorem nft_sound {j : Journal} {rules : Option String} (hJ : ∀ i, J i → i.jobId = j.jobId)
    (hP : Stable P) (ht : Traceless P) :
    Sound A G (Mutating J) P (nft (some j.jobId) rules) fun _ => P := by
  refine act_sound mutating_stable hP fun _ f hk hp => ?_
  obtain ⟨d, hu, hid⟩ := hk.undoing
  have hchange : Change A G f.world (f.world.note (.table j.jobId rules)) := by
    rw [← hJ _ hk.mine, ← hid]
    exact .table rules hu
  exact ⟨hchange, hk.moved (hchange.wf hk.wf) rfl fun _ => rfl, ht f _ hp⟩

theorem setTable_sound {j : Journal} {rules : Option String} (hJ : ∀ i, J i → i.jobId = j.jobId)
    (hP : Stable P) (ht : Traceless P) :
    Sound A G (Mutating J) P (setTable (some j.jobId) rules) fun _ => P :=
  Proc.Spec.bind (table_calm.keeps mutating_stable hP) fun _ =>
    Proc.Spec.when (fun _ => nft_sound hJ hP ht) fun _ _ _ h => h

theorem replaceTables_sound {j : Journal} {source : String} {target previous : Option String}
    (hJ : ∀ i, J i → i.jobId = j.jobId) (hP : Stable P) (ht : Traceless P) :
    Sound A G (Mutating J) P (replaceTables j.jobId source target previous) fun _ => P :=
  Proc.Spec.bind (table_calm.keeps mutating_stable hP) fun _ =>
    Proc.Spec.bind (table_calm.keeps mutating_stable hP) fun _ =>
      Proc.Spec.when (fun _ => nft_sound hJ hP ht) fun _ _ _ h => h

/-! ## Restoring the files -/

/-- These planned files hold their before-images. -/
def RestoredOn (cs : List FileChange) (f : Frame) : Prop :=
  ∀ c ∈ cs, f.world.files c.path = c.before

theorem restoredOn_stable {cs : List FileChange} : Stable (RestoredOn cs) := by
  intro f f' hc h c hm
  rw [hc.2.files]
  exact h c hm

theorem restoredOn_traceless {cs : List FileChange} : Traceless (RestoredOn cs) :=
  fun _ _ h => h

theorem restoreAll_sound {j : Journal} (hj : JournalOk j) {ys : List FileChange}
    (hys : ∀ c ∈ ys, c ∈ j.plan.files) (xs : List FileChange)
    (hxs : ∀ c ∈ xs, c ∈ j.plan.files) :
    Sound A G (Mutating J) (RestoredOn ys) (Proc.each restore xs)
      fun _ => RestoredOn (ys ++ xs) := by
  refine Proc.Spec.weaken
    (Proc.Spec.each (I := fun past => RestoredOn (ys ++ past)) xs ?_) (fun f _ h => ?_)
    fun _ _ _ h => h
  · intro past c rest he
    have hc : c ∈ j.plan.files := hxs c (by rw [he]; simp)
    refine replace_sound restoredOn_stable fun f _ hpast d hd => ?_
    have hd' : d ∈ j.plan.files ∧ (d = c ∨ f.world.files d.path = d.before) := by
      rw [← List.append_assoc] at hd
      rcases List.mem_append.mp hd with hold | hnew
      · refine ⟨?_, .inr (hpast d hold)⟩
        rcases List.mem_append.mp hold with hy | hx
        · exact hys d hy
        · exact hxs d (by rw [he]; simp [hx])
      · rw [List.mem_singleton.mp hnew]
        exact ⟨hc, .inl rfl⟩
    change (if d.path = c.path then c.before else f.world.files d.path) = d.before
    by_cases hp : d.path = c.path
    · rw [if_pos hp]
      exact hj.consistent c hc d hd'.1 hp.symm
    · rw [if_neg hp]
      rcases hd'.2 with heq | hold
      · exact absurd (by rw [heq]) hp
      · exact hold
  · rw [List.append_nil]
    exact h

/-- The restored files NetworkManager leaves alone. -/
def Journal.settled (j : Journal) (cs : List FileChange) : List FileChange :=
  cs.filter fun c =>
    !(isKeyfile c.path && Decidable.decide (j.plan.previous.backend = some .networkmanager))

theorem settled_saved {j : Journal} {cs : List FileChange} {f : Frame}
    (hb : j.plan.previous.backend = some .networkmanager) (h : RestoredOn (j.settled cs) f)
    (saved : List (String × Option Image)) :
    RestoredOn (j.settled cs) { f with world := f.world.saveKeyfiles saved } := by
  intro c hc
  have hk : isKeyfile c.path = false := by
    have hm := (List.mem_filter.mp hc).2
    simpa [hb] using hm
  change (if isKeyfile c.path then _ else f.world.files c.path) = c.before
  rw [hk]
  exact h c hc

theorem activate_sound {j : Journal} {p : NetworkProfiles} {cs : List FileChange}
    (hp : p.backend = j.plan.previous.backend) :
    Sound A G (Mutating J) (RestoredOn (j.settled cs)) (activate p)
      fun _ => RestoredOn (j.settled cs) := by
  refine Proc.Spec.bind (bringUp_sound restoredOn_stable restoredOn_traceless) fun _ => ?_
  refine Proc.Spec.when (fun hb => ?_) fun _ _ _ h => h
  refine nmReload_sound restoredOn_stable fun f saved _ h => ?_
  exact settled_saved (hp.symm.trans hb) h saved

/-- No planned file falls between the passes. -/
theorem passes_cover {j : Journal} (hj : JournalOk j) {f : Frame}
    (h : RestoredOn (j.settled j.firstPass ++ j.secondPass) f)
    (hk : j.plan.previous.backend = some .networkmanager → j.handoff.isSome = true →
      RestoredOn j.keyfiles f) : Restored f.world.files j := by
  intro c hc
  have hrev : c ∈ j.plan.files.reverse := List.mem_reverse.mpr hc
  by_cases hsecond : (runtime c.path || isSlice c.path) = true
  · exact h c (List.mem_append_right _ (List.mem_filter.mpr ⟨hrev, hsecond⟩))
  have hfirst : c ∈ j.firstPass := by
    refine List.mem_filter.mpr ⟨hrev, ?_⟩
    rw [Bool.or_eq_true, not_or] at hsecond
    simp [hsecond.1, hsecond.2]
  by_cases hsettled :
      (isKeyfile c.path && Decidable.decide (j.plan.previous.backend = some .networkmanager)) = true
  · rw [Bool.and_eq_true, decide_eq_true_eq] at hsettled
    obtain ⟨hkey, hb⟩ := hsettled
    cases hh : j.handoff with
    | none =>
      rw [hj.keyfiles hb hh c hc] at hkey
      cases hkey
    | some t =>
      exact hk hb (by rw [hh]; rfl) c (List.mem_filter.mpr ⟨hrev, hkey⟩)
  · refine h c (List.mem_append_left _ (List.mem_filter.mpr ⟨hfirst, ?_⟩))
    rw [Bool.eq_false_iff.mpr hsettled]
    rfl

theorem restoreTables_sound {j : Journal} (hJ : ∀ i, J i → i.jobId = j.jobId) (hP : Stable P)
    (ht : Traceless P) :
    Sound A G (Mutating J) P (restoreTables j) fun _ => P := by
  unfold restoreTables
  cases j.handoff with
  | none =>
    exact Proc.Spec.bind (readiness_calm.keeps mutating_stable hP) fun _ =>
      setTable_sound hJ hP ht
  | some t =>
    exact Proc.Spec.bind (sourceReadiness_calm.keeps mutating_stable hP) fun _ =>
      Proc.Spec.bind (command_calm.keeps mutating_stable hP) fun _ =>
        Proc.Spec.bind (command_calm.keeps mutating_stable hP) fun _ =>
          replaceTables_sound hJ hP ht

theorem mem_plan_of_filter {j : Journal} {p : FileChange → Bool} {c : FileChange}
    (h : c ∈ j.plan.files.reverse.filter p) : c ∈ j.plan.files :=
  List.mem_reverse.mp (List.mem_of_mem_filter h)

theorem restoreNetwork_sound {j : Journal} (hj : JournalOk j) (hJ : ∀ i, J i → i.jobId = j.jobId) :
    Sound A G (Mutating J) (fun _ => True) (restoreNetwork j)
      fun _ f => Restored f.world.files j := by
  have hcalm : ∀ {p : Action Unit} {cs : List FileChange}, IsCalm p →
      Sound A G (Mutating J) (RestoredOn cs) p fun _ => RestoredOn cs :=
    fun hp => hp.keeps mutating_stable restoredOn_stable
  have hsettled : ∀ c ∈ j.settled j.firstPass, c ∈ j.plan.files :=
    fun c hc => mem_plan_of_filter (List.mem_of_mem_filter hc)
  have hboth : ∀ c ∈ j.settled j.firstPass ++ j.secondPass, c ∈ j.plan.files := by
    intro c hc
    rcases List.mem_append.mp hc with h | h
    · exact hsettled c h
    · exact mem_plan_of_filter h
  refine Proc.Spec.weaken (B := RestoredOn []) ?_ (fun _ _ _ c hc => absurd hc List.not_mem_nil) fun _ _ _ h => h
  refine Proc.Spec.bind (hcalm stopConsumers_calm.when) fun _ => ?_
  refine Proc.Spec.bind (hcalm deconfigure_calm.when) fun _ => ?_
  refine Proc.Spec.bind (hcalm slices_calm.when) fun _ => ?_
  refine Proc.Spec.bind (Q := fun _ => RestoredOn (j.settled j.firstPass))
    (Proc.Spec.weaken (restoreAll_sound hj (fun _ h => absurd h List.not_mem_nil) j.firstPass
      fun _ hc => mem_plan_of_filter hc) (fun _ _ h => h)
      fun _ _ _ h c hc => h c (List.mem_of_mem_filter hc)) fun _ => ?_
  refine Proc.Spec.bind (Q := fun _ => RestoredOn (j.settled j.firstPass)) ?_ fun _ => ?_
  · refine Proc.Spec.when (fun hb => ?_) fun _ _ _ h => h
    exact nmReload_sound restoredOn_stable fun f saved _ h => settled_saved hb.2 h saved
  refine Proc.Spec.bind (activate_sound rfl) fun _ => ?_
  refine Proc.Spec.bind (restoreTables_sound hJ restoredOn_stable restoredOn_traceless) fun _ => ?_
  refine Proc.Spec.bind
    (restoreAll_sound hj hsettled j.secondPass fun _ hc => mem_plan_of_filter hc) fun _ => ?_
  refine Proc.Spec.bind (Q := fun _ f => RestoredOn (j.settled j.firstPass ++ j.secondPass) f ∧
      (j.plan.previous.backend = some .networkmanager → j.handoff.isSome = true →
        RestoredOn j.keyfiles f)) ?_ fun _ => ?_
  · refine Proc.Spec.when (fun hb => ?_) fun _ hb _ h => ⟨h, fun h₁ h₂ => absurd ⟨h₁, h₂⟩ hb⟩
    refine Proc.Spec.weaken (restoreAll_sound hj hboth j.keyfiles
      fun _ hc => mem_plan_of_filter hc) (fun _ _ h => h) ?_
    intro _ f _ h
    exact ⟨fun c hc => h c (List.mem_append_left _ hc),
      fun _ _ c hc => h c (List.mem_append_right _ hc)⟩
  refine Proc.Spec.weaken (B := fun f => Restored f.world.files j) ?_
    (fun f _ h => passes_cover hj h.1 h.2) fun _ _ _ h => h
  refine Proc.Spec.bind (stopConsumers_calm.when.keeps mutating_stable restored_stable) fun _ => ?_
  exact restoreConsumers_calm.keeps mutating_stable restored_stable

end NdimonR.Engine
