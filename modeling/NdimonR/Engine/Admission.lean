import NdimonR.Engine.Ledger

/-! Commit admission: the authority takes the decision of a job only from a confirm that had every
right to it, and never from a job whose chance has passed. -/

namespace NdimonR.Engine

open NdimonR.Types

variable {A : Journal → World → Prop} {G : Prop} {w w' : World}

/-- The one change that moves the decision: the authority's network is another job's before and
this job's after. -/
theorem Change.decides_gained {j : Journal} (hc : Change A G w w')
    (hb : w.authority.decides j = false) (ha : w'.authority.decides j = true) :
    ∃ d c, w' = w.decide c ∧ w.pending = some d ∧ A d w ∧ d.phase = .applied ∧
      d.recoveryPending = false ∧ w.authority = d.base ∧ nextCommit d = .ok c ∧
        c.decides j = true := by
  cases hc with
  | @decide d c hp hA hs hr hbase hn => exact ⟨d, c, rfl, hp, hA, hs, hr, hbase, hn, ha⟩
  | stage | journal | revive =>
    rw [putPending_authority, hb] at ha
    cases ha
  | finish hp hf =>
    rw [removePending_eq hp, hb] at ha
    cases ha
  | pass elapsed writes =>
    rw [decides_pass, hb] at ha
    cases ha
  | load | observe | last | reserve | kept | releaseExternal | releaseQuiesce | write | unbanner
  | keyfiles | table | activate | archive | released =>
    change w.authority.decides j = true at ha
    rw [hb] at ha
    cases ha

/-- The journal whose next decision decides a known job is that job's. -/
theorem Ledger.committed_same {c : Commit} {d j : Journal} (h : Ledger w)
    (hp : w.pending = some d) (hj : .staged j ∈ w.trace) (hn : nextCommit d = .ok c)
    (hc : c.decides j = true) : d.identity = j.identity := by
  have hd := c.decides_transaction (nextCommit_decides hn)
  have hid := c.decides_transaction hc
  rw [hd] at hid
  exact h.same d j (.inl hp) (.inr (.inl hj)) (Option.some.inj hid)

/-! ## What a chain of changes leaves alone -/

theorem Change.trace_grows (hc : Change A G w w') {e : Event} (he : e ∈ w.trace) :
    e ∈ w'.trace := by
  cases hc with
  | stage hp hq hj hs =>
    rw [putPending_trace_staged _ w hp hs]
    exact List.mem_cons_of_mem _ he
  | journal hp =>
    rw [putPending_trace_some _ w hp]
    exact he
  | revive hp hq hd ha hj hs =>
    rw [putPending_trace_later _ w (by rw [hs]; exact nofun)]
    exact he
  | finish hp =>
    rw [removePending_eq hp]
    exact List.mem_cons_of_mem _ he
  | load | observe | write | unbanner | table | activate | decide | kept | releaseExternal
  | releaseQuiesce => exact List.mem_cons_of_mem _ he
  | pass | last | reserve | keyfiles | archive | released => exact he

theorem Change.clock (hc : Change A G w w') : w.now ≤ w'.now := by
  cases hc with
  | pass elapsed writes => exact Nat.le_add_right _ _
  | stage | journal | revive => rw [putPending_now]
  | finish hp => rw [removePending_eq hp]
  | load | observe | last | reserve | kept | releaseExternal | releaseQuiesce | write | unbanner
  | keyfiles | table | activate | decide | archive | released => exact Nat.le_refl _

theorem Change.boot (hc : Change A G w w') : w'.bootId = w.bootId := by
  cases hc with
  | stage | journal | revive => exact putPending_bootId _ _
  | finish hp => rw [removePending_eq hp]
  | pass | load | observe | last | reserve | kept | releaseExternal | releaseQuiesce | write
  | unbanner | keyfiles | table | activate | decide | archive | released => rfl

/-- The global revision never goes back. -/
theorem Change.revision (hc : Change A G w w') : w.authority.revision ≤ w'.authority.revision := by
  cases hc with
  | pass elapsed writes => exact Nat.le_add_right _ _
  | stage | journal | revive => rw [putPending_authority]
  | finish hp => rw [removePending_eq hp]
  | decide hp hA hs hr hb hn =>
    rw [hb, nextCommit_ok hn]
    exact Nat.le_succ _
  | load | observe | last | reserve | kept | releaseExternal | releaseQuiesce | write | unbanner
  | keyfiles | table | activate | archive | released => exact Nat.le_refl _

/-! ## Admission -/

/-- The call that committed `j`, and the device `u` when it did. -/
structure CommittedBy (config : EngineConfig) (w : World) (token : String)
    (localAddress : Option IpAddr) (script : List Answer) (j d : Journal) (u : World) : Prop where
  before : Changes (Admits token localAddress w) False w u
  after : ∃ c, nextCommit d = .ok c ∧
    Changes (Admits token localAddress w) False (u.decide c)
      (w.step config (.call (.confirm token localAddress) script))
  pending : u.pending = some d
  same : d.identity = j.identity
  admits : Admits token localAddress w d u
  phase : d.phase = .applied
  recovery : d.recoveryPending = false
  base : u.authority = j.base

/-- A clock that stood still since the call began read the time of the commit. -/
theorem Admits.inTime_still {token : String} {localAddress : Option IpAddr} {d : Journal}
    {w₀ u : World} (h : Admits token localAddress w₀ d u) (hstill : u.now = w₀.now) :
    u.now < d.deadlineMs := by
  obtain ⟨now, hfrom, hto, hbefore⟩ := h.inTime
  omega

theorem Ledger.changes (h : Ledger w) (hc : Changes A G w w') : Ledger w' :=
  chain_invariant (fun _ _ hchange hl => hl.change hchange) hc h

/-- The authority's decision becomes that of a staged job only in a confirm: it presented the
job's token in the boot the job was staged in and before the deadline, the journal was applied
with no recovery pending, the authority still held the base, and under `requireManagementAddress`
the request came over the recorded address, the only one the interface carried. -/
theorem commit_admitted {config : EngineConfig} {allowed : Step → Prop} {s : Step} {j : Journal}
    (h : Reachable config allowed w) (hj : .staged j ∈ w.trace)
    (hb : w.authority.decides j = false) (ha : (w.step config s).authority.decides j = true) :
    ∃ token localAddress script d u, s = .call (.confirm token localAddress) script ∧
      CommittedBy config w token localAddress script j d u := by
  have hnone : ∀ w' : World, w'.authority.decides j = w.authority.decides j →
      ¬ w'.authority.decides j = true := by
    intro w' hsame hgained
    rw [hsame, hb] at hgained
    cases hgained
  cases s with
  | pass | reboot | peer => exact absurd ha (hnone _ rfl)
  | release quiesced externallyManaged =>
    refine absurd ha (hnone _ ?_)
    change (w.setRelease quiesced externallyManaged).authority.decides j = _
    unfold World.setRelease
    split <;> rfl
  | call c script =>
    have hchain : Changes (c.admits w) c.givesUp w (w.step config (.call c script)) :=
      call_changes h.wf c script
    have hnot : ¬ w.authority.decides j = true := by
      rw [hb]
      exact Bool.false_ne_true
    obtain ⟨u, v, hbefore, hchange, hafter, hu, hv⟩ :=
      chain_gains (p := fun w => w.authority.decides j = true) hchain hnot ha
    obtain ⟨d, next, rfl, hp, hadmits, hs, hr, hbase, hn, hdecides⟩ :=
      hchange.decides_gained (Bool.eq_false_iff.mpr hu) hv
    have hledger : Ledger u := h.ledger.changes hbefore
    have hstaged : .staged j ∈ u.trace :=
      chain_invariant (I := fun w => .staged j ∈ w.trace) (fun _ _ hc he => hc.trace_grows he)
        hbefore hj
    have hsame : d.identity = j.identity := hledger.committed_same hp hstaged hn hdecides
    cases c with
    | confirm token localAddress =>
      refine ⟨token, localAddress, script, d, u, rfl, ?_⟩
      exact ⟨hbefore, ⟨next, hn, hafter⟩, hp, hsame, hadmits, hs, hr,
        hbase.trans (base_congr hsame)⟩
    | stage | commitHandoff | runApplyJob | revert | rollback | runRecovery | boot
    | acceptCurrent => exact hadmits.elim

/-! ## Jobs that can no longer be committed -/

/-- The job's chance has passed: its journal was removed, is being undone or failed, its window
closed by `now`, it belongs to an earlier boot, or the authority has moved on from its base. -/
def BarredAt (now : Nat) (w : World) (j : Journal) : Prop :=
  Ended w.trace j.jobId ∨
    (∃ d, w.pending = some d ∧ d.jobId = j.jobId ∧
      (d.phase.rank = 3 ∨ d.recoveryPending = true ∨
        (d.phase = .applied ∧ d.deadlineMs ≤ now))) ∨
    j.bootId < w.bootId ∨ j.base.revision < w.authority.revision

def Barred (w : World) (j : Journal) : Prop := BarredAt w.now w j

theorem BarredAt.mono {n m : Nat} {j : Journal} (h : BarredAt n w j) (hn : n ≤ m) :
    BarredAt m w j := by
  rcases h with he | ⟨d, hp, hid, hr | hr | ⟨hs, hd⟩⟩ | hrest
  · exact .inl he
  · exact .inr (.inl ⟨d, hp, hid, .inl hr⟩)
  · exact .inr (.inl ⟨d, hp, hid, .inr (.inl hr)⟩)
  · exact .inr (.inl ⟨d, hp, hid, .inr (.inr ⟨hs, Nat.le_trans hd hn⟩)⟩)
  · exact .inr (.inr hrest)

/-- A pending journal goes on, or its end is in the trace. -/
theorem Change.pending_goes_on {d : Journal} (hc : Change A G w w') (hp : w.pending = some d) :
    (∃ d', w'.pending = some d' ∧ Advance d d') ∨
      ∃ kept files, .finished d kept files ∈ w'.trace := by
  have hsame : ∀ e, w.pending = some e → e = d := by
    intro e he
    rw [hp] at he
    exact (Option.some.inj he).symm
  cases hc with
  | stage hn | revive hn =>
    rw [hp] at hn
    cases hn
  | @journal e j he ha =>
    rw [hsame e he] at ha
    exact .inl ⟨j, putPending_pending j w, ha⟩
  | @finish e he =>
    rw [removePending_eq he, hsame e he]
    exact .inr ⟨_, _, List.mem_cons_self⟩
  | pass | load | observe | last | reserve | kept | releaseExternal | releaseQuiesce | write
  | unbanner | keyfiles | table | activate | decide | archive | released =>
    exact .inl ⟨d, hp, .refl d⟩

theorem Advance.barred {d d' : Journal} {n : Nat} (ha : Advance d d')
    (h : d.phase.rank = 3 ∨ d.recoveryPending = true ∨ (d.phase = .applied ∧ d.deadlineMs ≤ n)) :
    d'.phase.rank = 3 ∨ d'.recoveryPending = true ∨
      (d'.phase = .applied ∧ d'.deadlineMs ≤ n) := by
  have hle := ha.rank
  have hmax := d'.phase.rank_le_three
  rcases h with hr | hr | ⟨hs, hd⟩
  · exact .inl (by omega)
  · exact .inr (.inl (ha.recovery hr))
  · by_cases hs' : d'.phase = .applied
    · refine .inr (.inr ⟨hs', ?_⟩)
      rw [(ha.window hs hs').1]
      exact hd
    · left
      have hnot : d'.phase.rank ≠ 2 := fun hr => hs' (Phase.rank_eq_two.mp hr)
      have htwo : d.phase.rank = 2 := Phase.rank_eq_two.mpr hs
      omega

/-- One change keeps a barred job barred, and does not commit it. -/
theorem BarredAt.change {n : Nat} {j : Journal} (h : BarredAt n w j) (hl : Ledger w)
    (hj : .staged j ∈ w.trace) (hu : w.authority.decides j = false)
    (hA : ∀ d, A d w → d.bootId = w.bootId ∧ n < d.deadlineMs) (hc : Change A G w w') :
    BarredAt n w' j ∧ w'.authority.decides j = false := by
  constructor
  · rcases h with ⟨e, kept, files, he, hid⟩ | ⟨d, hp, hid, hd⟩ | hb | hr
    · exact .inl ⟨e, kept, files, hc.trace_grows he, hid⟩
    · rcases hc.pending_goes_on hp with ⟨d', hp', ha⟩ | ⟨kept, files, he⟩
      · exact .inr (.inl ⟨d', hp', (jobId_congr ha.same).symm.trans hid, ha.barred hd⟩)
      · exact .inl ⟨d, kept, files, he, hid⟩
    · refine .inr (.inr (.inl ?_))
      rw [hc.boot]
      exact hb
    · exact .inr (.inr (.inr (Nat.lt_of_lt_of_le hr hc.revision)))
  · cases hdecides : w'.authority.decides j with
    | false => rfl
    | true =>
      obtain ⟨d, c, _, hp, hadmits, hs, hrecovery, hbase, hn, hcj⟩ := hc.decides_gained hu hdecides
      have hsame : d.identity = j.identity := hl.committed_same hp hj hn hcj
      obtain ⟨hboot, hintime⟩ := hA d hadmits
      rcases h with ⟨e, kept, files, he, hid⟩ | ⟨d', hp', _, hd⟩ | hb | hr
      · have hrank := hl.late e d kept files hp he (hid.trans (jobId_congr hsame).symm)
        rw [hs] at hrank
        cases hrank
      · rw [hp] at hp'
        cases hp'
        rcases hd with hrank | hpending | ⟨_, hclosed⟩
        · rw [hs] at hrank
          cases hrank
        · rw [hrecovery] at hpending
          cases hpending
        · omega
      · rw [← bootId_congr hsame, hboot] at hb
        omega
      · rw [← base_congr hsame, hbase] at hr
        omega

theorem Call.admits_window {w₀ : World} {c : Call} {d : Journal} (h : c.admits w₀ d w) :
    d.bootId = w.bootId ∧ w₀.now < d.deadlineMs := by
  cases c with
  | confirm token localAddress =>
    have hadmits : Admits token localAddress w₀ d w := h
    obtain ⟨now, hfrom, _, hbefore⟩ := hadmits.inTime
    exact ⟨hadmits.boot, Nat.lt_of_le_of_lt hfrom hbefore⟩
  | stage | commitHandoff | runApplyJob | revert | rollback | runRecovery | boot
  | acceptCurrent => exact h.elim

/-- A job is staged in a boot that has been reached. -/
theorem Reachable.staged_boot {config : EngineConfig} {allowed : Step → Prop}
    (h : Reachable config allowed w) : ∀ j, .staged j ∈ w.trace → j.bootId ≤ w.bootId := by
  have hnoted : ∀ {w w' : World} {e : Event}, (∀ j, e ≠ .staged j) → w'.trace = e :: w.trace →
      w'.bootId = w.bootId → (∀ j, .staged j ∈ w.trace → j.bootId ≤ w.bootId) →
        ∀ j, .staged j ∈ w'.trace → j.bootId ≤ w'.bootId := by
    intro w w' e he ht hb hw j hj
    rw [ht] at hj
    rw [hb]
    exact hw j ((List.mem_cons.mp hj).resolve_left (he j).symm)
  refine h.invariant (I := fun w => ∀ j, .staged j ∈ w.trace → j.bootId ≤ w.bootId) ?_ ?_ ?_ ?_ ?_ ?_
  · intro w hi j hj
    rw [hi.trace] at hj
    exact absurd hj List.not_mem_nil
  · intro c script w₀ w w' _ _ hw hc
    cases hc with
    | @stage i hp hq hok hs hb =>
      intro j hj
      rw [putPending_trace_staged i w hp hs] at hj
      rw [putPending_bootId]
      rcases List.mem_cons.mp hj with he | hj
      · cases he
        exact Nat.le_of_eq hb
      · exact hw j hj
    | journal hp =>
      intro j hj
      rw [putPending_trace_some _ w hp] at hj
      rw [putPending_bootId]
      exact hw j hj
    | revive hp hq hd ha hok hs =>
      intro j hj
      rw [putPending_trace_later _ w (by rw [hs]; exact nofun)] at hj
      rw [putPending_bootId]
      exact hw j hj
    | @finish d hp =>
      refine hnoted (e := .finished d (w.authority.decides d) w.files) (by simp) ?_ ?_ hw
      · rw [removePending_eq hp]
      · rw [removePending_eq hp]
    | load => exact hnoted (e := .loaded w.authority) (by simp) rfl rfl hw
    | observe i l => exact hnoted (e := .addresses i l) (by simp) rfl rfl hw
    | @write d path image => exact hnoted (e := .wrote d.jobId path image) (by simp) rfl rfl hw
    | @unbanner d => exact hnoted (e := .wrote d.jobId banner none) (by simp) rfl rfl hw
    | @table d rules => exact hnoted (e := .table d.jobId rules) (by simp) rfl rfl hw
    | @activate d p => exact hnoted (e := .activated d.jobId p) (by simp) rfl rfl hw
    | @decide d next => exact hnoted (e := .decided next) (by simp) rfl rfl hw
    | @kept d t => exact hnoted (e := .kept (ownership t d.jobId)) (by simp) rfl rfl hw
    | @releaseExternal d j | @releaseQuiesce d j =>
      exact hnoted (e := .released j w.files) (by simp) rfl rfl hw
    | pass | last | reserve | keyfiles | archive | released => exact hw
  · exact fun _ _ _ _ hw => hw
  · exact fun w uptime _ hw j hj => Nat.le_succ_of_le (hw j hj)
  · intro w quiesced externallyManaged hw
    unfold World.setRelease
    split
    · exact hw
    · exact hw
  · exact fun _ _ hw => hw

/-- One step of a run keeps a barred job barred, and does not commit it. -/
theorem Barred.step {config : EngineConfig} {allowed : Step → Prop} {j : Journal}
    (h : Reachable config allowed w) (hj : .staged j ∈ w.trace)
    (hu : w.authority.decides j = false) (hb : Barred w j) (s : Step) :
    .staged j ∈ (w.step config s).trace ∧ (w.step config s).authority.decides j = false ∧
      Barred (w.step config s) j := by
  cases s with
  | call c script =>
    have hchain : Changes (c.admits w) c.givesUp w (w.step config (.call c script)) :=
      call_changes h.wf c script
    have hall := chain_invariant (I := fun u => Ledger u ∧ .staged j ∈ u.trace ∧
        (BarredAt w.now u j ∧ u.authority.decides j = false) ∧ w.now ≤ u.now) ?_ hchain
      ⟨h.ledger, hj, ⟨hb, hu⟩, Nat.le_refl _⟩
    · obtain ⟨_, hstaged, ⟨hbarred, hundecided⟩, hclock⟩ := hall
      exact ⟨hstaged, hundecided, hbarred.mono hclock⟩
    · intro a b hc ⟨hl, hs, ⟨hbarred, hundecided⟩, hclock⟩
      exact ⟨hl.change hc, hc.trace_grows hs,
        hbarred.change hl hs hundecided (fun d hd => Call.admits_window hd) hc,
        Nat.le_trans hclock hc.clock⟩
  | pass elapsed writes =>
    have hall := hb.change (A := fun _ _ => False) (G := False) h.ledger hj hu
      (fun _ hd => hd.elim) (.pass elapsed writes)
    exact ⟨hj, hall.2, hall.1.mono (Nat.le_add_right _ _)⟩
  | reboot uptime =>
    refine ⟨hj, hu, .inr (.inr (.inl ?_))⟩
    exact Nat.lt_succ_of_le (h.staged_boot j hj)
  | peer quiesce => exact ⟨hj, hu, hb⟩
  | release quiesced externallyManaged =>
    change .staged j ∈ (w.setRelease quiesced externallyManaged).trace ∧
      (w.setRelease quiesced externallyManaged).authority.decides j = false ∧
        Barred (w.setRelease quiesced externallyManaged) j
    unfold World.setRelease
    split
    · exact ⟨hj, hu, hb⟩
    · exact ⟨hj, hu, hb⟩

/-- A job that was reverted, expired, failed or superseded is never committed afterwards. -/
theorem barred_never_committed {config : EngineConfig} {j : Journal} (steps : List Step)
    (h : Reachable config (fun _ => True) w) (hj : .staged j ∈ w.trace)
    (hu : w.authority.decides j = false) (hb : Barred w j) :
    (w.run config steps).authority.decides j = false := by
  induction steps generalizing w with
  | nil => exact hu
  | cons s rest ih =>
    obtain ⟨hj', hu', hb'⟩ := Barred.step h hj hu hb s
    exact ih (h.step trivial) hj' hu' hb'

/-- The door of the authority: only an admitted confirm opens it, and behind a barred job it stays
shut in every continuation of the run. -/
theorem commit_admission {config : EngineConfig} {j : Journal}
    (h : Reachable config (fun _ => True) w) (hj : .staged j ∈ w.trace)
    (hu : w.authority.decides j = false) :
    (∀ s, (w.step config s).authority.decides j = true →
      ∃ token localAddress script d u, s = .call (.confirm token localAddress) script ∧
        CommittedBy config w token localAddress script j d u) ∧
    (Barred w j → ∀ steps, (w.run config steps).authority.decides j = false) :=
  ⟨fun _ ha => commit_admitted h hj hu ha, fun hb steps => barred_never_committed steps h hj hu hb⟩

theorem commit_admission_studio : ∃ j d u,
    .staged j ∈ (studio.run studioConfig studioApplied).trace ∧
      CommittedBy studioConfig (studio.run studioConfig studioApplied) studioId none [] j d u := by
  have hcheck : ((studio.run studioConfig studioApplied).trace.any fun
      | .staged j => !(studio.run studioConfig studioApplied).authority.decides j &&
          ((studio.run studioConfig studioApplied).step studioConfig
            (.call (.confirm studioId none) [])).authority.decides j
      | _ => false) = true := by
    decide +kernel
  obtain ⟨e, he, hdecides⟩ := List.any_eq_true.mp hcheck
  have hreach : Reachable studioConfig (fun _ => True) (studio.run studioConfig studioApplied) :=
    (Reachable.init studio_initial).run studioApplied fun _ _ => trivial
  cases e with
  | staged j =>
    simp only [Bool.and_eq_true, Bool.not_eq_true'] at hdecides
    obtain ⟨hbefore, hafter⟩ := hdecides
    obtain ⟨token, localAddress, script, d, u, hs, hcommitted⟩ :=
      (commit_admission hreach he hbefore).1 _ hafter
    cases hs
    exact ⟨j, d, u, he, hcommitted⟩
  | loaded | wrote | table | activated | decided | finished | addresses | kept | released =>
    cases hdecides

end NdimonR.Engine
