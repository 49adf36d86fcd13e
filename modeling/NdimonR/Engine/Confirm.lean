import NdimonR.Engine.ApplyJob

/-! Keep: the one call that commits, and what it knows when it does. -/

namespace NdimonR.Engine

open NdimonR.Types

variable {A : Journal → World → Prop} {G : Prop} {K P : Frame → Prop}

/-- The request came over the recorded address, and the management interface was seen, since `w₀`,
to carry that address alone. -/
def OverAddress (localAddress : Option IpAddr) (w₀ : World) (d : Journal) (w : World) : Prop :=
  ∃ a n live since, requestAddress localAddress = some a ∧ d.managementAddress = some a ∧
    assigned d.plan.candidate d.plan.candidate.roles.management = .ok n ∧
    w.trace = since ++ w₀.trace ∧ .addresses (ifname d.plan.candidate n) live ∈ since ∧
    soleAddress live = some a

/-- What a confirm that began in `w₀` knows of the journal it commits. -/
structure Admits (token : String) (localAddress : Option IpAddr) (w₀ : World) (d : Journal)
    (w : World) : Prop where
  pending : w₀.pending = some d
  presented : matchesSecret d.token token = true
  boot : d.bootId = w.bootId
  inTime : ∃ now, w₀.now ≤ now ∧ now ≤ w.now ∧ now < d.deadlineMs
  address : d.plan.candidate.confirmPolicy = .requireManagementAddress →
    OverAddress localAddress w₀ d w

/-- Nothing but quiet steps since `w₀`. -/
structure Since (w₀ : World) (f : Frame) : Prop where
  pending : f.world.pending = w₀.pending
  clock : w₀.now ≤ f.world.now
  trace : ∃ since, f.world.trace = since ++ w₀.trace

theorem Quiet.trace_append {w w' : World} (h : Quiet w w') :
    ∃ since, w'.trace = since ++ w.trace := by
  cases h with
  | pass => exact ⟨[], rfl⟩
  | load => exact ⟨[_], rfl⟩
  | observe => exact ⟨[_], rfl⟩

theorem Quiet.clock {w w' : World} (h : Quiet w w') : w.now ≤ w'.now := by
  cases h with
  | pass => exact Nat.le_add_right _ _
  | load => exact Nat.le_refl _
  | observe => exact Nat.le_refl _

theorem since_stable {w₀ : World} : Stable (Since w₀) := by
  intro f f' hc h
  obtain ⟨since, hs⟩ := h.trace
  obtain ⟨more, hm⟩ := hc.2.trace_append
  exact ⟨hc.2.pending.trans h.pending, Nat.le_trans h.clock hc.2.clock, more ++ since,
    by rw [hm, hs, List.append_assoc]⟩

/-- The journal in hand is the one that was pending at `w₀`. -/
def Presented (w₀ : World) (token : String) (j : Journal) (f : Frame) : Prop :=
  (Since w₀ f ∧ Held j f) ∧ matchesSecret j.token token = true

theorem presented_stable {w₀ : World} {token : String} {j : Journal} :
    Stable (Presented w₀ token j) :=
  (since_stable.and held_stable).and .const

theorem matching_sound {w₀ : World} {token : String} :
    Sound A G Wf (Since w₀) (matching token)
      fun _ f => ∃ j, Presented w₀ token j f := by
  refine Proc.Spec.bind (IsCalm.require.keeps wf_stable since_stable) fun _ => ?_
  refine Proc.Spec.bind (readPending_sound wf_stable since_stable) fun pending => ?_
  have hP : Stable fun f => Since w₀ f ∧ f.world.pending = pending :=
    since_stable.and pending_stable
  cases pending with
  | none =>
    refine Proc.Spec.bind (ask_calm.keeps wf_stable hP) fun last => ?_
    refine Proc.Spec.bind (IsCalm.require.keeps wf_stable hP) fun _ => ?_
    exact Proc.Spec.fail fun _ _ _ => trivial
  | some j =>
    refine Proc.Spec.bind require_sound fun _ => ?_
    refine setJob_sound fun f hk ⟨⟨hs, hp⟩, ht⟩ => ⟨hk, j, ⟨?_, hp, rfl⟩, ht⟩
    exact ⟨hs.pending, hs.clock, hs.trace⟩

/-! ## What a confirm checks -/

theorem deadlinePassed_sound {w₀ : World} {j : Journal} (hP : Stable P)
    (hs : ∀ f, P f → w₀.now ≤ f.world.now) :
    Sound A G Wf P (deadlinePassed j) fun late f => P f ∧ (late = false →
      j.bootId = f.world.bootId ∧
        ∃ now, w₀.now ≤ now ∧ now ≤ f.world.now ∧ now < j.deadlineMs) := by
  refine Proc.Spec.bind (Q := fun boot f => P f ∧ boot = f.world.bootId)
    (Proc.Spec.weaken (ask_sound wf_stable hP) (fun _ _ h => h)
      fun _ _ _ ⟨hp, _, hb⟩ => ⟨hp, hb⟩) fun boot => ?_
  refine Proc.Spec.ite (fun _ => Proc.Spec.pure fun _ _ h => ⟨h.1, fun hn => nomatch hn⟩)
    fun hboot => ?_
  have hP' : Stable fun f => P f ∧ boot = f.world.bootId :=
    hP.and fun _ _ hc h => h.trans hc.2.bootId.symm
  refine Proc.Spec.bind (Proc.Spec.weaken (ask_sound wf_stable hP') (fun _ _ h => h)
    fun _ _ _ h => h) fun now => ?_
  refine Proc.Spec.pure fun f _ ⟨⟨hp, hb⟩, _, hnow⟩ => ⟨hp, fun hlate => ?_⟩
  have hafter : now < j.deadlineMs := by simpa using hlate
  refine ⟨(not_not.mp hboot).trans hb, now, ?_, ?_, hafter⟩
  · rw [hnow]
    exact hs f hp
  · rw [hnow]

theorem checkAddress_sound {w₀ : World} {d : Journal} {localAddress : Option IpAddr}
    (hP : Stable P) (hs : ∀ f, P f → ∃ since, f.world.trace = since ++ w₀.trace) :
    Sound A G Wf P (checkAddress d localAddress)
      fun _ f => P f ∧ OverAddress localAddress w₀ d f.world := by
  refine Proc.Spec.bind require_sound fun _ => ?_
  let asked : Prop := (requestAddress localAddress).isSome ∧
    requestAddress localAddress = d.managementAddress
  let seen : NetworkProfile → Option Ipv4Addr → Frame → Prop := fun n current f =>
    ∃ live since, f.world.trace = since ++ w₀.trace ∧
      .addresses (ifname d.plan.candidate n) live ∈ since ∧ soleAddress live = current
  refine Proc.Spec.bind (Q := fun current f => (P f ∧ asked) ∧
      ∃ n, assigned d.plan.candidate d.plan.candidate.roles.management = .ok n ∧
        seen n current f) ?_ fun current => ?_
  · refine Proc.Spec.bind (Q := fun n f => (P f ∧ asked) ∧
      assigned d.plan.candidate d.plan.candidate.roles.management = .ok n)
      (Proc.Spec.ofExcept (fun _ _ hok _ hp => ⟨hp, hok⟩) fun _ _ _ _ _ => trivial) fun n => ?_
    refine Proc.Spec.bind (Q := fun live f => ((P f ∧ asked) ∧
      assigned d.plan.candidate d.plan.candidate.roles.management = .ok n) ∧
        seen n (soleAddress live) f) ?_ fun live => ?_
    · refine effect_sound wf_stable ((hP.and .const).and .const) fun a f hw hp => ?_
      have hquiet : Quiet f.world
          (f.world.note (.addresses (ifname d.plan.candidate n) a.texts)) := .observe _ _
      obtain ⟨since, ht⟩ := hs f hp.1.1
      refine ⟨.inr hquiet.change, hquiet.wf hw, ⟨⟨hP f _ ⟨rfl, hquiet⟩ hp.1.1, hp.1.2⟩, hp.2⟩,
        a.texts, _ :: since, ?_, List.mem_cons_self, rfl⟩
      rw [World.note, ht]
      rfl
    · refine Proc.Spec.pure fun _ _ h => ?_
      obtain ⟨⟨hp, hn⟩, hseen⟩ := h
      exact ⟨hp, n, hn, hseen⟩
  refine Proc.Spec.weaken require_sound (fun _ _ h => h) ?_
  rintro _ f _ ⟨⟨⟨hp, hsome, hrecorded⟩, n, hn, live, since, ht, hm, hl⟩, hcurrent⟩
  obtain ⟨a, ha⟩ := Option.isSome_iff_exists.mp hsome
  exact ⟨hp, a, n, live, since, ha, hrecorded.symm.trans ha, hn, ht, hm,
    hl.trans (hcurrent.symm.trans ha)⟩

/-! ## The commit -/

/-- A journal that may be committed now. -/
def Ready (A : Journal → World → Prop) (j : Journal) (f : Frame) : Prop :=
  j.phase = .applied ∧ j.recoveryPending = false ∧ A j f.world

theorem compareAndCommit_sound {j : Journal} {next : Commit}
    (hknow : Stable fun f => A j f.world) (hn : nextCommit j = .ok next) :
    Sound A G (fun f => Wf f ∧ Held j f) (Ready A j) (compareAndCommit j.base next)
      fun _ f => f.world.authority.decides j = true := by
  have hK : Stable fun f => Wf f ∧ Held j f := wf_stable.and held_stable
  intro f hk ⟨hs, hr, ha⟩
  have hk₁ := hK.next hk
  have ha₁ := hknow.next ha
  have hmoves := f.next_moves (A := A) (G := G)
  unfold compareAndCommit
  rcases hnext : f.next with ⟨answer, f₁⟩
  rw [hnext] at hk₁ ha₁ hmoves
  have hdone : f₁.world.authority = j.base →
      Relation.ReflTransGen (Moves A G) f { f₁ with world := f₁.world.decide next } ∧
        (Wf { f₁ with world := f₁.world.decide next } ∧
          Held j { f₁ with world := f₁.world.decide next }) := by
    intro hb
    have hp : f₁.world.pending = some j := hk₁.2.1.trans (congrArg some hk₁.2.2)
    have hchange : Change A G f₁.world (f₁.world.decide next) :=
      .decide hp ha₁ hs hr hb hn
    exact ⟨hmoves.tail (.inr hchange), hchange.wf hk₁.1, hk₁.2⟩
  have hstay : ∀ (o : Outcome ApiError Unit), (∀ u, o ≠ .ok u) →
      Relation.ReflTransGen (Moves A G) f f₁ ∧ (Wf f₁ ∧ Held j f₁) ∧
        (∀ u, o = .ok u → f₁.world.authority.decides j = true) ∧ ∀ e, o = .err e → True :=
    fun o ho => ⟨hmoves, hk₁, fun u hu => absurd hu (ho u), fun _ _ => trivial⟩
  have hdecides : (f₁.world.decide next).authority.decides j = true := nextCommit_decides hn
  simp only
  cases answer.fault with
  | fail e => exact hstay _ fun _ h => nomatch h
  | crash => exact hstay _ fun _ h => nomatch h
  | none | failAfter | crashAfter =>
    simp only
    split
    · exact hstay _ fun _ h => nomatch h
    · rename_i hbase
      split
      · exact hstay _ fun _ h => nomatch h
      · obtain ⟨hm, hk₂⟩ := hdone (not_not.mp hbase)
        exact ⟨hm, hk₂, fun _ _ => hdecides, fun _ _ => trivial⟩

theorem decide_sound {j : Journal} (hknow : Stable fun f => A j f.world) :
    Sound A G Wf (fun f => Held j f ∧ Ready A j f) (decide j)
      fun _ f => Held j f ∧ f.world.authority.decides j = true := by
  refine Proc.Spec.bind
    (Q := fun next f => (Held j f ∧ Ready A j f) ∧ nextCommit j = .ok next)
    (Proc.Spec.ofExcept (fun _ _ hok _ hp => ⟨hp, hok⟩) fun _ _ _ _ _ => trivial) fun next => ?_
  refine Proc.Spec.assume (fun _ _ h => h.2) fun hn => ?_
  refine Proc.Spec.bind (Q := fun r f => Held j f ∧
      ∀ u, r = .ok u → f.world.authority.decides j = true) ?_ fun r => ?_
  · exact Proc.Spec.within
      (Proc.Spec.attempt (F := fun _ _ => True) (compareAndCommit_sound hknow hn))
      (fun _ hw h => ⟨⟨hw, h.1.1⟩, h.1.2⟩) (fun _ _ h => h) (fun _ h => h.1)
      (fun _ _ hk h => ⟨hk.2, h.1⟩) fun _ _ _ _ => trivial
  · cases r with
    | ok u => exact Proc.Spec.pure fun _ _ h => ⟨h.1, h.2 u rfl⟩
    | error e =>
      refine Proc.Spec.bind (Proc.Spec.weaken committed_held (fun _ _ h => h.1)
        fun _ _ _ h => h) fun done => ?_
      refine Proc.Spec.bind require_sound fun _ => ?_
      refine Proc.Spec.pure fun _ _ h => ?_
      obtain ⟨⟨hh, hd⟩, hdone⟩ := h
      exact ⟨hh, hd.trans hdone⟩

/-- After the decision nothing may fail any more: the rest is best effort. -/
theorem keepDecided_sound {j : Journal} {next : Commit} (hs : j.phase = .applied) :
    Sound A G Wf (fun f => Held j f ∧ f.world.authority.decides j = true)
      (do
        setJob fun j => { j with phase := .confirmed }
        Proc.ignore writePending
        Proc.ignore finishCommitted
        pure next) fun _ _ => True := by
  have hP : Stable fun f => Keeping f ∧ Owned f := keeping_stable.and owned_stable
  refine Proc.Spec.bind (Q := fun _ f => Keeping f ∧ Owned f) ?_ fun _ => ?_
  · refine setJob_sound fun f hw ⟨⟨hp, hj⟩, hd⟩ => ⟨hw, ?_⟩
    have hadv : Advance f.job { f.job with phase := .confirmed } :=
      ⟨rfl, Phase.rank_le_three _, id, id, fun _ h => nomatch h⟩
    have hok : JournalOk { f.job with phase := .confirmed } :=
      (hw.journal _ hp).advance rfl fun h => ⟨((hw.journal _ hp).handoff h).1, rfl⟩
    have hmodified : f.job.phase ≠ .staged := by
      rw [hj, hs]
      exact nofun
    exact ⟨⟨by rw [← hj] at hd; exact hd, hok, f.job, hp, hadv⟩, hok, f.job, hp, hadv, id,
      hmodified⟩
  refine Proc.Spec.bind (Sound.ignore (Q := fun _ _ => True) ?_) fun _ => ?_
  · refine act_sound (wf_stable.and hP) .const
      fun _ f ⟨hw, ⟨hd, hok, _⟩, _, d, hp, ha, hr, hm⟩ _ => ?_
    have hchange : Change A G f.world (f.world.putPending f.job) :=
      .journal hp ha hok (fun h => .inl (hr h)) fun hs => absurd hs hm
    have hmodified : f.job.phase ≠ .staged := by
      intro hstaged
      have hrank := ha.rank
      rw [hstaged] at hrank
      exact hm (Phase.rank_eq_zero.mp (Nat.le_zero.mp hrank))
    refine ⟨hchange, ⟨hchange.wf hw, ⟨by simpa using hd, hok, f.job, by simp, .refl _⟩, hok, f.job,
      by simp, .refl _, id, hmodified⟩, trivial⟩
  refine Proc.Spec.bind (Q := fun _ _ => True) ?_ fun _ => Proc.Spec.pure fun _ _ _ => trivial
  exact Proc.Spec.weaken (Proc.Spec.ignore finishCommitted_changes) (fun _ _ h => h.1)
    fun _ _ _ _ => trivial

theorem admits_stable {token : String} {localAddress : Option IpAddr} {w₀ : World} {d : Journal} :
    Stable fun f => Admits token localAddress w₀ d f.world := by
  intro f f' hc h
  obtain ⟨now, h₀, h₁, h₂⟩ := h.inTime
  refine ⟨h.pending, h.presented, h.boot.trans hc.2.bootId.symm,
    ⟨now, h₀, Nat.le_trans h₁ hc.2.clock, h₂⟩, ?_⟩
  intro hpolicy
  obtain ⟨a, n, live, since, ha, hm, hn, ht, he, hl⟩ := h.address hpolicy
  obtain ⟨more, hmore⟩ := hc.2.trace_append
  exact ⟨a, n, live, more ++ since, ha, hm, hn, by rw [hmore, ht, List.append_assoc],
    List.mem_append_right _ he, hl⟩

theorem confirmMatched_sound {token : String} {localAddress : Option IpAddr} {w₀ : World} :
    Sound (Admits token localAddress w₀) G Wf (fun f => ∃ j, Presented w₀ token j f)
      (confirmMatched localAddress) fun _ _ => True := by
  refine Proc.Spec.bind (Q := fun j => Presented w₀ token j)
    (Proc.Spec.weaken job_sound (fun _ _ h => h) ?_) fun j => ?_
  · rintro j f _ ⟨⟨i, ⟨hs, hp, hi⟩, ht⟩, hj⟩
    exact ⟨⟨hs, hp, hj⟩, by rw [← hj, hi]; exact ht⟩
  refine Proc.Spec.bind (lockSource_calm.keeps wf_stable presented_stable) fun _ => ?_
  refine Proc.Spec.assume (φ := JournalOk j)
    (fun f hw h => by rw [← h.1.2.2]; exact hw.journal _ h.1.2.1) fun hj => ?_
  refine Proc.Spec.bind
    (committed_sound hj.operation wf_stable presented_stable fun _ h => h) fun b => ?_
  refine Proc.Spec.ite (fun hb => ?_) fun _ => ?_
  · refine Proc.Spec.bind (Proc.Spec.weaken finishCommitted_changes
      (fun f hw h => h.1.1.2.keeping hw (h.2.trans hb)) fun _ _ _ h => h) fun _ => ?_
    exact Proc.Spec.fail fun _ _ _ => trivial
  refine Proc.Spec.bind (Proc.Spec.weaken require_sound (fun _ _ h => h.1) fun _ _ _ h => h)
    fun _ => ?_
  have hP : Stable fun f => Presented w₀ token j f ∧ (!j.recoveryPending) = true :=
    presented_stable.and .const
  refine Proc.Spec.bind (deadlinePassed_sound hP fun f h => h.1.1.1.clock) fun late => ?_
  refine Proc.Spec.ite (fun _ => ?_) fun hlate => ?_
  · refine Proc.Spec.bind (Proc.Spec.weaken recoverLocked_changes (fun _ _ h => h.1.1.1.2.1)
      fun _ _ _ h => h) fun _ => ?_
    exact Proc.Spec.fail fun _ _ _ => trivial
  have hready : ∀ f, (Presented w₀ token j f ∧ (!j.recoveryPending) = true) ∧ (late = false →
        j.bootId = f.world.bootId ∧
          ∃ now, w₀.now ≤ now ∧ now ≤ f.world.now ∧ now < j.deadlineMs) →
      j.bootId = f.world.bootId ∧
        ∃ now, w₀.now ≤ now ∧ now ≤ f.world.now ∧ now < j.deadlineMs :=
    fun f h => h.2 (Bool.eq_false_iff.mpr hlate)
  let Q₀ : Frame → Prop := fun f => (Presented w₀ token j f ∧ (!j.recoveryPending) = true) ∧
    (j.bootId = f.world.bootId ∧
      ∃ now, w₀.now ≤ now ∧ now ≤ f.world.now ∧ now < j.deadlineMs)
  have hQ₀ : Stable Q₀ := by
    refine hP.and fun f f' hc ⟨hb, now, h₀, h₁, h₂⟩ => ?_
    exact ⟨hb.trans hc.2.bootId.symm, now, h₀, Nat.le_trans h₁ hc.2.clock, h₂⟩
  refine Proc.Spec.bind (Q := fun _ f => Q₀ f ∧ j.phase = .applied)
    (Proc.Spec.weaken require_sound (fun _ _ h => ⟨h.1, hready _ h⟩) fun _ _ _ h => h) fun _ => ?_
  refine Proc.Spec.assume (fun _ _ h => h.2) fun happlied => ?_
  refine Proc.Spec.bind (Q := fun _ f => (Q₀ f ∧ j.phase = .applied) ∧
      (j.plan.candidate.confirmPolicy = .requireManagementAddress →
        OverAddress localAddress w₀ j f.world)) ?_ fun _ => ?_
  · refine Proc.Spec.when (fun hpolicy => ?_) fun _ hpolicy _ h => ⟨h, fun hn => absurd hn hpolicy⟩
    refine Proc.Spec.weaken (checkAddress_sound (hQ₀.and .const) fun f h => h.1.1.1.1.1.trace)
      (fun _ _ h => h) fun _ _ _ h => ⟨h.1, fun _ => h.2⟩
  refine Proc.Spec.bind (Proc.Spec.weaken (decide_sound admits_stable) ?_ fun _ _ _ h => h)
    fun next => keepDecided_sound happlied
  rintro f _ ⟨⟨⟨⟨⟨⟨hs, hh⟩, ht⟩, hr⟩, hb, hnow⟩, hphase⟩, haddress⟩
  have hpending : w₀.pending = some j := by
    rw [← hs.pending, hh.1, hh.2]
  exact ⟨hh, hphase, by simpa using hr, hpending, ht, hb, hnow, haddress⟩

theorem confirm_sound {token : String} {localAddress : Option IpAddr} {w₀ : World} :
    Sound (Admits token localAddress w₀) G Wf (Since w₀) (confirm token localAddress)
      fun _ _ => True :=
  Proc.Spec.bind matching_sound fun _ => confirmMatched_sound

end NdimonR.Engine
