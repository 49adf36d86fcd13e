import NdimonR.Engine.RecoverLocked
import NdimonR.Engine.ValidatorsAgree

/-! Staging: the plan of a change describes the files as they are, and the journal of the plan is
durable before anything else happens. -/

namespace NdimonR.Engine

open NdimonR.Types

variable {α : Type} {A : Journal → World → Prop} {G : Prop} {P : Frame → Prop}

/-- Nothing is pending, and the network is not being released. -/
def Idle (f : Frame) : Prop := f.world.pending = none ∧ f.world.quiesced = false

theorem idle_stable : Stable Idle :=
  fun _ _ hc h => ⟨hc.2.pending.trans h.1, hc.2.quiesced.trans h.2⟩

/-- These changes were planned over the files as they are; under `nm` none of them is a file that
NetworkManager saves by itself. -/
def Planned (nm : Prop) (cs : List FileChange) (f : Frame) : Prop :=
  ∀ c ∈ cs, f.world.files c.path = c.before ∧ (nm → isKeyfile c.path = false)

theorem planned_stable {nm : Prop} {cs : List FileChange} : Stable (Planned nm cs) := by
  intro f f' hc h c hm
  rw [hc.2.files]
  exact h c hm

theorem planned_nil {nm : Prop} {f : Frame} : Planned nm [] f :=
  fun _ h => absurd h List.not_mem_nil

theorem Planned.append {nm : Prop} {cs ds : List FileChange} {f : Frame} (hc : Planned nm cs f)
    (hd : Planned nm ds f) : Planned nm (cs ++ ds) f := by
  intro c hm
  rcases List.mem_append.mp hm with h | h
  · exact hc c h
  · exact hd c h

theorem Planned.add {nm : Prop} {cs : List FileChange} {f : Frame} {c : FileChange}
    (hc : Planned nm cs f) (hb : f.world.files c.path = c.before)
    (hk : nm → isKeyfile c.path = false) : Planned nm (cs ++ [c]) f := by
  refine hc.append fun d hd => ?_
  rw [List.mem_singleton.mp hd]
  exact ⟨hb, hk⟩

/-- The revision a change was planned at has been reached. -/
theorem revision_stable {n : Nat} : Stable fun f => n ≤ f.world.authority.revision := by
  refine Stable.ofWorld (P := fun w _ => n ≤ w.authority.revision) fun w w' _ hq h => ?_
  cases hq with
  | pass elapsed writes => exact Nat.le_trans h (Nat.le_add_right _ _)
  | load => exact h
  | observe => exact h

/-! ## What staging checks first -/

theorem releaseStatus_sound (hP : Stable P) :
    Sound A G Wf P releaseStatus fun s f => P f ∧ s.quiesced = f.world.quiesced :=
  Proc.Spec.weaken (ask_sound wf_stable hP) (fun _ _ h => h) fun s f _ ⟨hp, _, hs⟩ => by
    subst hs
    exact ⟨hp, rfl⟩

theorem not_quiesced_stable : Stable fun f : Frame => f.world.quiesced = false :=
  fun _ _ hc h => hc.2.quiesced.trans h

theorem idle_sound : Sound A G Wf (fun _ => True) idle fun _ => Idle := by
  have hwritable : Sound A G Wf (fun _ => True) writable
      fun _ f => f.world.quiesced = false := by
    refine Proc.Spec.bind (releaseStatus_sound .const) fun s => ?_
    refine Proc.Spec.bind require_sound fun _ => ?_
    refine Proc.Spec.weaken require_sound (fun _ _ h => h) ?_
    intro _ f _ ⟨⟨⟨_, hs⟩, hq⟩, _⟩
    rw [← hs]
    simpa using hq
  refine Proc.Spec.bind hwritable fun _ => ?_
  refine Proc.Spec.bind (readPending_sound wf_stable not_quiesced_stable) fun pending => ?_
  refine Proc.Spec.weaken require_sound (fun _ _ h => h) ?_
  intro _ f _ ⟨⟨hq, hp⟩, hn⟩
  exact ⟨hp.trans hn, hq⟩

theorem current_calm : IsCalm current := by
  refine load_calm.bind fun c => IsCalm.require.bind fun _ => IsCalm.ite ?_ ?_
  · refine ask_calm.bind fun pending => ?_
    cases pending with
    | none => exact ask_calm.bind fun ⟨_, _⟩ => IsCalm.pure
    | some j => exact IsCalm.pure
  · exact IsCalm.ofExcept.bind fun _ => IsCalm.pure

/-! ## The files of a plan -/

theorem snapshot_sound {path : String} (hP : Stable P) :
    Sound A G Wf P (snapshot path) fun x f => P f ∧ f.world.files path = x :=
  Proc.Spec.weaken (ask_sound wf_stable hP) (fun _ _ h => h) fun _ _ _ ⟨hp, _, hx⟩ =>
    ⟨hp, hx.symm⟩

variable {nm : Prop}

theorem addFile_sound {files : List FileChange} {path : String} {after : Option Image}
    (hP : Stable P) (hk : nm → isKeyfile path = false) :
    Sound A G Wf (fun f => P f ∧ Planned nm files f) (addFile files path after)
      fun files' f => P f ∧ Planned nm files' f := by
  refine Proc.Spec.bind (snapshot_sound (hP.and planned_stable)) fun before => ?_
  refine Proc.Spec.ite (fun _ => Proc.Spec.pure fun _ _ h => h.1) fun _ => ?_
  refine Proc.Spec.ite (fun _ => Proc.Spec.fail fun _ _ _ => trivial) fun _ => ?_
  exact Proc.Spec.pure fun f _ ⟨⟨hp, hpl⟩, hb⟩ => ⟨hp, hpl.add hb hk⟩

theorem addFiles_sound {rendered : List (String × Option Image)} (hP : Stable P)
    (hk : ∀ r ∈ rendered, nm → isKeyfile r.1 = false) (files : List FileChange) :
    Sound A G Wf (fun f => P f ∧ Planned nm files f) (addFiles files rendered)
      fun files' f => P f ∧ Planned nm files' f := by
  induction rendered generalizing files with
  | nil => exact Proc.Spec.pure fun _ _ h => h
  | cons r rest ih =>
    obtain ⟨path, after⟩ := r
    refine Proc.Spec.bind (addFile_sound hP (hk (path, after) (by simp))) fun files' => ?_
    exact ih (fun r hr => hk r (List.mem_cons_of_mem _ hr)) files'

theorem addRendered_sound {files : List FileChange} {path : String} (hP : Stable P)
    (hk : isKeyfile path = false) :
    Sound A G Wf (fun f => P f ∧ Planned nm files f) (addRendered files path)
      fun files' f => P f ∧ Planned nm files' f :=
  Proc.Spec.bind (ask_calm.keeps wf_stable (hP.and planned_stable)) fun _ =>
    addFile_sound hP fun _ => hk

theorem addCommon_sound {files : List FileChange} {candidate : NetworkProfiles} {tessera : Bool}
    (hP : Stable P) :
    Sound A G Wf (fun f => P f ∧ Planned nm files f) (addCommon files candidate tessera)
      fun files' f => (P f ∧ Planned nm files' f) ∧ ∃ c ∈ files', c.path = banner := by
  refine Proc.Spec.bind (Q := fun files' f => P f ∧ Planned nm files' f) ?_ fun files₁ => ?_
  · exact Proc.Spec.ite (fun _ => addFile_sound hP fun _ => by decide +kernel)
      fun _ => Proc.Spec.pure fun _ _ h => h
  refine Proc.Spec.bind (addFile_sound hP fun _ => by decide +kernel) fun files₂ => ?_
  refine Proc.Spec.bind (addFile_sound hP fun _ => by decide +kernel) fun files₃ => ?_
  refine Proc.Spec.bind (addRendered_sound hP (by decide +kernel)) fun files₄ => ?_
  refine Proc.Spec.bind (addRendered_sound hP (by decide +kernel)) fun files₅ => ?_
  refine Proc.Spec.bind (addRendered_sound hP (by decide +kernel)) fun files₆ => ?_
  refine Proc.Spec.bind (Q := fun files' f => P f ∧ Planned nm files' f) ?_ fun files₇ => ?_
  · refine Proc.Spec.ite (fun _ => ?_) fun _ => Proc.Spec.pure fun _ _ h => h
    exact Proc.Spec.bind (addRendered_sound hP (by decide +kernel)) fun _ =>
      addRendered_sound hP (by decide +kernel)
  refine Proc.Spec.bind (snapshot_sound (hP.and planned_stable)) fun before => ?_
  have hbanner : isKeyfile banner = false := by decide +kernel
  refine Proc.Spec.pure fun f _ ⟨⟨hp, hpl⟩, hb⟩ => ⟨⟨hp, hpl.add hb fun _ => hbanner⟩, ?_⟩
  exact ⟨_, List.mem_append_right _ (List.mem_singleton_self _), rfl⟩

theorem activeMedia_calm (units : List String) : IsCalm (activeMedia units) := by
  induction units with
  | nil => exact IsCalm.pure
  | cons unit rest ih => exact active_calm.bind fun _ => ih.bind fun _ => IsCalm.pure

/-- The backend's own files are planned too, except those NetworkManager keeps by itself. -/
theorem renderBackend_sound {candidate : NetworkProfiles} (hP : Stable P) :
    Sound A G Wf P (renderBackend candidate)
      fun r f => P f ∧ (candidate.backend = some .networkmanager → r.1 = []) := by
  unfold renderBackend
  cases hb : candidate.backend with
  | none => exact Proc.Spec.fail fun _ _ _ => trivial
  | some b =>
    cases b with
    | networkmanager =>
      refine Proc.Spec.weaken (ask_sound wf_stable hP) (fun _ _ h => h) ?_
      rintro _ f _ ⟨hp, a, rfl⟩
      exact ⟨hp, fun _ => rfl⟩
    | ifupdown | netplan | networkd =>
      refine Proc.Spec.weaken (ask_sound wf_stable hP) (fun _ _ h => h) ?_
      rintro _ f _ ⟨hp, a, rfl⟩
      exact ⟨hp, fun h => nomatch h⟩

/-- What a plan promises of the state it was made in. -/
structure Plan.Made (p : Plan) (nm : Prop) (f : Frame) : Prop where
  backend : p.candidate.backend = p.previous.backend
  planned : Planned nm p.files f
  banner : ∃ c ∈ p.files, c.path = banner

theorem made_stable {p : Plan} : Stable (p.Made nm) :=
  fun f f' hc h => ⟨h.backend, planned_stable f f' hc h.planned, h.banner⟩

theorem plan_sound {handoff : Bool} {previous candidate : NetworkProfiles} {metadata : Metadata}
    {port : Nat} (hP : Stable P) (hb : candidate.backend = previous.backend) :
    Sound A G Wf P (plan handoff previous candidate metadata port)
      fun p f => (P f ∧ p.Made (candidate.backend = some .networkmanager) f) ∧
        p.previous = previous ∧ p.candidate = candidate := by
  let nm : Prop := candidate.backend = some .networkmanager
  refine Proc.Spec.bind ((IsCalm.when ask_calm).keeps wf_stable hP) fun _ => ?_
  refine Proc.Spec.bind (command_calm.keeps wf_stable hP) fun _ => ?_
  refine Proc.Spec.bind (table_calm.keeps wf_stable hP) fun oldTable => ?_
  refine Proc.Spec.bind (renderBackend_sound hP) fun ⟨rendered, changes, drift⟩ => ?_
  refine Proc.Spec.assume (φ := nm → rendered = []) (fun _ _ h => h.2) fun hrendered => ?_
  refine Proc.Spec.bind (Q := fun files f => P f ∧ Planned nm files f) ?_ fun files => ?_
  · refine Proc.Spec.weaken (B := fun f => P f ∧ Planned nm [] f) (addFiles_sound hP ?_ [])
      (fun _ _ h => ⟨h.1, planned_nil⟩) fun _ _ _ h => h
    intro r hr hnm
    rw [hrendered hnm] at hr
    exact absurd hr List.not_mem_nil
  refine Proc.Spec.bind (IsCalm.require.keeps wf_stable (hP.and planned_stable)) fun _ => ?_
  refine Proc.Spec.bind ((ask_calm.bind fun _ => IsCalm.pure).keeps wf_stable
    (hP.and planned_stable)) fun tessera => ?_
  refine Proc.Spec.bind (addCommon_sound hP) fun files' => ?_
  refine Proc.Spec.bind ((activeMedia_calm media).keeps wf_stable
    ((hP.and planned_stable).and .const)) fun services => ?_
  exact Proc.Spec.pure fun f _ ⟨⟨hp, hpl⟩, hban⟩ => ⟨⟨hp, hb, hpl, hban⟩, rfl, rfl⟩

theorem normalize_backend (p : NetworkProfiles) : (normalize p).backend = p.backend := rfl

theorem prepare_sound {config : EngineConfig} {candidate : NetworkProfiles} {revision : Nat} :
    Sound A G Wf (fun _ => True) (prepare config candidate revision)
      fun r f => Idle f ∧ ∀ p, r.2 = some p →
        p.Made (p.candidate.backend = some .networkmanager) f := by
  refine Proc.Spec.bind idle_sound fun _ => ?_
  refine Proc.Spec.bind (current_calm.keeps wf_stable idle_stable) fun old => ?_
  refine Proc.Spec.bind (IsCalm.require.keeps wf_stable idle_stable) fun _ => ?_
  refine Proc.Spec.bind (Q := fun p f => Idle f ∧ validate candidate old.profiles = .ok p)
    (Proc.Spec.ofExcept (fun _ _ hok _ hp => ⟨hp, hok⟩) fun _ _ _ _ _ => trivial) fun p => ?_
  refine Proc.Spec.assume (fun _ _ h => h.2) fun hv => ?_
  have hb : p.backend = old.profiles.backend := by
    obtain ⟨hok, rfl⟩ := validate_ok hv
    exact (normalize_backend candidate).trans hok.backend
  refine Proc.Spec.ite (fun _ => Proc.Spec.pure fun _ _ h => ⟨h.1, fun _ hn => nomatch hn⟩) fun _ => ?_
  refine Proc.Spec.bind (IsCalm.require.keeps wf_stable (idle_stable.and .const)) fun _ => ?_
  refine Proc.Spec.bind (plan_sound (idle_stable.and .const) hb) fun made => ?_
  refine Proc.Spec.pure fun f _ ⟨⟨⟨hi, _⟩, hm⟩, _, hc⟩ => ⟨hi, fun q hq => ?_⟩
  cases hq
  rw [← hc] at hm
  exact ⟨hm.backend, hm.planned, hm.banner⟩

/-! ## The journal -/

theorem knows_stable {id : String} : Stable fun f => f.world.knows id = false := by
  refine Stable.ofWorld (P := fun w _ => w.knows id = false) fun w w' _ hq h => ?_
  have hsplit : ∀ w : World, w.knows id = false ↔
      (w.authority.transaction == some id) = false ∧ w.trace.any (Event.names id) = false :=
    fun w => Bool.or_eq_false_iff
  rw [hsplit] at h ⊢
  cases hq with
  | pass elapsed writes => exact h
  | load =>
    refine ⟨h.1, ?_⟩
    rw [World.note, List.any_cons, h.2, Bool.or_false]
    exact h.1
  | observe interface live =>
    refine ⟨h.1, ?_⟩
    rw [World.note, List.any_cons, h.2, Bool.or_false]
    rfl

theorem randomId_sound (hP : Stable P) :
    Sound A G Wf P randomId fun id f => P f ∧ f.world.knows id = false := by
  refine Proc.Spec.bind (ask_sound wf_stable hP) fun ⟨id, known⟩ => ?_
  refine Proc.Spec.bind require_sound fun _ => ?_
  refine Proc.Spec.pure fun f _ ⟨⟨hp, a, ha⟩, hc⟩ => ⟨hp, ?_⟩
  cases ha
  simpa using (Bool.and_eq_true_iff.mp hc).2

/-- What is staged, and when. -/
structure Stageable (base : Commit) (p : Plan) (handoff : Option Transfer) (f : Frame) :
    Prop where
  idle : Idle f
  made : p.Made (handoff = none ∧ p.candidate.backend = some .networkmanager) f
  reached : base.revision ≤ f.world.authority.revision
  free : handoff.isSome = true → f.world.peerExternal = none

theorem stageable_stable {base : Commit} {p : Plan} {handoff : Option Transfer} :
    Stable (Stageable base p handoff) :=
  fun f f' hc h => ⟨idle_stable f f' hc h.idle, made_stable f f' hc h.made,
    revision_stable f f' hc h.reached, fun hs => hc.2.external.trans (h.free hs)⟩

theorem Plan.Made.journalOk {p : Plan} {j : Journal} {f : Frame}
    (h : p.Made (j.handoff = none ∧ p.candidate.backend = some .networkmanager) f)
    (hp : j.plan = p) (hop : j.operation ≠ .syncTessera) (hr : j.handoffRestored = false) :
    JournalOk j := by
  subst hp
  refine ⟨hop, ?_, h.backend, ?_, h.banner, ?_⟩
  · intro ht
    rw [hr] at ht
    cases ht
  · intro c hc d hd he
    rw [← (h.planned c hc).1, ← (h.planned d hd).1, he]
  · intro hb hh c hc
    exact (h.planned c hc).2 ⟨hh, h.backend.trans hb⟩

/-- A durable journal nothing has been done for yet. -/
def Staged (j : Journal) (f : Frame) : Prop :=
  f.world.pending = some j ∧ f.job = j ∧ f.world.authority.decides j = false

theorem staged_stable {j : Journal} : Stable (Staged j) :=
  pending_stable.and (job_stable.and decides_stable)

theorem external_stable {e : Option Ownership} : Stable fun f => f.world.peerExternal = e :=
  fun _ _ hc h => hc.2.external.trans h

theorem knows_decides {w : World} {j : Journal} (h : w.knows j.jobId = false) :
    w.authority.decides j = false := by
  have ht := (Bool.or_eq_false_iff.mp h).1
  unfold Commit.decides
  rw [ht, Bool.and_false, Bool.false_and]

/-- The releasing engine has not been reserved, and no marker was removed for the job. -/
def Unreserved (j : Journal) (f : Frame) : Prop :=
  (j.handoff.isSome = true → f.world.peerExternal = none) ∧
    ∀ i files, .released i files ∈ f.world.trace → i.jobId ≠ j.jobId

theorem unreserved_stable {j : Journal} : Stable (Unreserved j) := by
  refine external_stable.imp.and fun f f' hc h i files he => ?_
  exact h i files (hc.2.released he)

theorem armTransaction_sound {j : Journal} (hs : j.phase = .staged) :
    Sound A G (fun f => Wf f ∧ Staged j f) (Unreserved j) (armTransaction j.handoff)
      fun _ _ => True := by
  have hK : Stable fun f => Wf f ∧ Staged j f := wf_stable.and staged_stable
  refine Proc.Spec.bind (Q := fun _ _ => True) ?_ fun _ => ?_
  · unfold reserveSource
    cases ht : j.handoff with
    | none => exact Proc.Spec.pure fun _ _ _ => trivial
    | some t =>
      refine act_sound hK unreserved_stable fun _ f ⟨hw, hp, hj, hd⟩ ⟨hx, hr⟩ => ?_
      rw [hj]
      have hchange : Change A G f.world
          { f.world with peerExternal := some (ownership t j.jobId) } :=
        .reserve hp ht hs (hx (by rw [ht]; rfl)) hr
      exact ⟨hchange, ⟨hchange.wf hw, hp, rfl, hd⟩, trivial⟩
  refine Proc.Spec.bind (schedule_calm.keeps hK .const) fun _ => ?_
  exact schedule_calm.keeps hK .const

theorem stageTransaction_sound {base : Commit} {p : Plan} {session : Option NetworkSessionPath}
    {handoff : Option Transfer} :
    Sound A G Wf (Stageable base p handoff) (stageTransaction base p session handoff)
      fun _ _ => True := by
  refine Proc.Spec.bind ((Proc.Spec.weaken (randomId_sound stageable_stable) (fun _ _ h => h)
    fun _ _ _ h => h.1)) fun token => ?_
  refine Proc.Spec.bind (randomId_sound stageable_stable) fun jobId => ?_
  have hP : Stable fun f => Stageable base p handoff f ∧ f.world.knows jobId = false :=
    stageable_stable.and knows_stable
  refine Proc.Spec.bind (Q := fun boot f =>
      (Stageable base p handoff f ∧ f.world.knows jobId = false) ∧ boot = f.world.bootId)
    (Proc.Spec.weaken (ask_sound wf_stable hP) (fun _ _ h => h)
      fun _ _ _ ⟨h, _, hb⟩ => ⟨h, hb⟩) fun boot => ?_
  have hboot : Stable fun f : Frame => boot = f.world.bootId :=
    fun _ _ hc h => h.trans hc.2.bootId.symm
  refine Proc.Spec.bind (ask_calm.keeps wf_stable (hP.and hboot)) fun now => ?_
  let j : Journal :=
    { operation := if handoff.isSome then .handoff else .network
      jobId, token, base, plan := p
      phase := .staged
      bootId := boot
      deadlineMs := saturatingAdd now guardMs
      session, handoff }
  refine Proc.Spec.bind (Q := fun _ f =>
      ((Stageable base p handoff f ∧ f.world.knows jobId = false) ∧ boot = f.world.bootId) ∧
        f.job = j) (setJob_sound fun f hk ⟨⟨hst, hn⟩, hb⟩ => ?_) fun _ => ?_
  · have hmade := hst.made
    exact ⟨hk, ⟨⟨⟨hst.idle, ⟨hmade.backend, hmade.planned, hmade.banner⟩, hst.reached, hst.free⟩,
      hn⟩, hb⟩, rfl⟩
  refine Proc.Spec.bind (Q := fun _ f => Staged j f ∧ Unreserved j f) ?_ fun _ => ?_
  · refine act_sound wf_stable ((hP.and hboot).and job_stable)
      fun _ f hw ⟨⟨⟨hst, hn⟩, hb⟩, hj⟩ => ?_
    have hop : j.operation ≠ .syncTessera := by
      change (if handoff.isSome then Operation.handoff else .network) ≠ .syncTessera
      split <;> exact nofun
    have hok : JournalOk j := hst.made.journalOk rfl hop rfl
    rw [hj]
    have hchange : Change A G f.world (f.world.putPending j) :=
      .stage hst.idle.1 hst.idle.2 hok rfl hb rfl (fun c hc => (hst.made.planned c hc).1) hn
        hst.reached hst.free
    refine ⟨hchange, hchange.wf hw, ⟨by simp, rfl, ?_⟩, by simpa using hst.free, ?_⟩
    · simpa using knows_decides (j := j) hn
    · intro i files he
      change .released i files ∈ (f.world.putPending j).trace at he
      rw [putPending_trace_staged j f.world hst.idle.1 rfl] at he
      have hold : .released i files ∈ f.world.trace := by simpa using he
      intro hid
      have hname := (Bool.or_eq_false_iff.mp hn).2
      rw [List.any_eq_false] at hname
      exact hname _ hold (by simpa [Event.names] using hid)
  refine Proc.Spec.bind (Q := fun _ => Staged j)
    (Proc.Spec.within (Proc.Spec.attempt (F := fun _ _ => True) (armTransaction_sound (j := j) rfl))
      (fun _ hw h => ⟨⟨hw, h.1⟩, h.2⟩) (fun _ _ h => h) (fun _ h => h.1)
      (fun _ _ hk _ => hk.2) fun _ _ _ _ => trivial) fun r => ?_
  cases r with
  | ok a =>
    refine Proc.Spec.bind (pendingView_calm.keeps wf_stable (P := fun _ => True) .const |>.weaken
      (fun _ _ _ => trivial) fun _ _ _ h => h) fun _ => ?_
    exact Proc.Spec.pure fun _ _ _ => trivial
  | error e =>
    refine Proc.Spec.bind (Q := fun _ _ => True) ?_ fun _ => Proc.Spec.fail fun _ _ _ => trivial
    refine Proc.Spec.weaken (finishUnmodified_sound (X := False) (j := j)) ?_
      fun _ _ _ _ => trivial
    rintro f _ ⟨hp, hj, hd⟩
    exact ⟨⟨by rw [hj]; exact hd, j, hp, by rw [hj]; exact .refl _, .inl rfl⟩, hj,
      fun h => h.elim⟩

theorem stageLocked_sound {config : EngineConfig} {candidate : NetworkProfiles} {revision : Nat}
    {session : Option NetworkSessionPath} :
    Sound A G Wf (fun _ => True) (stageLocked config candidate revision session)
      fun _ _ => True := by
  refine Proc.Spec.bind prepare_sound fun ⟨preview, made⟩ => ?_
  refine Proc.Spec.ite (fun _ => Proc.Spec.pure fun _ _ _ => trivial) fun _ => ?_
  cases made with
  | none => exact Proc.Spec.fail fun _ _ _ => trivial
  | some p =>
    have hP : Stable fun f => Idle f ∧ p.Made (p.candidate.backend = some .networkmanager) f :=
      idle_stable.and made_stable
    refine Proc.Spec.bind (Q := fun base f =>
        (Idle f ∧ p.Made (p.candidate.backend = some .networkmanager) f) ∧
          base = f.world.authority)
      (Proc.Spec.weaken (load_sound wf_stable hP) (fun _ _ h => ⟨h.1, h.2 p rfl⟩)
        fun _ _ _ h => h) fun base => ?_
    refine Proc.Spec.bind require_sound fun _ => ?_
    refine Proc.Spec.weaken stageTransaction_sound ?_ fun _ _ _ h => h
    rintro f _ ⟨⟨⟨hi, hm⟩, hb⟩, _⟩
    refine ⟨hi, ⟨hm.backend, ?_, hm.banner⟩, by rw [hb], fun h => nomatch h⟩
    exact fun c hc => ⟨(hm.planned c hc).1, fun h => (hm.planned c hc).2 h.2⟩

theorem stage_sound {config : EngineConfig} {candidate : NetworkProfiles} {revision : Nat}
    {session : Option NetworkSessionPath} :
    Sound A G Wf (fun _ => True) (stage config candidate revision session)
      fun _ _ => True := by
  refine Proc.Spec.bind (Proc.Spec.weaken prepare_sound (fun _ _ h => h) fun _ _ _ _ => trivial)
    fun ⟨preview, _⟩ => ?_
  refine Proc.Spec.ite (fun _ => Proc.Spec.pure fun _ _ _ => trivial) fun _ => ?_
  refine Proc.Spec.bind (IsCalm.require.keeps wf_stable .const) fun _ => ?_
  refine Proc.Spec.bind (active_calm.keeps wf_stable .const) fun _ => ?_
  refine Proc.Spec.bind (command_calm.when.keeps wf_stable .const) fun _ => ?_
  exact stageLocked_sound

/-! ## Receiving a network -/

theorem sourceLock_calm {source : NetworkHandoff} : IsCalm (sourceLock source) :=
  IsCalm.require.bind fun _ => IsCalm.require.bind fun _ => command_calm

theorem snapshots_sound {P : Frame → Prop} (hP : Stable P) (artifacts : List Artifact) :
    Sound A G Wf P (snapshots artifacts) fun cs f => P f ∧ Planned False cs f := by
  induction artifacts generalizing P with
  | nil => exact Proc.Spec.pure fun _ _ hp => ⟨hp, planned_nil⟩
  | cons a rest ih =>
    refine Proc.Spec.bind (Q := fun c f => P f ∧ Planned False [c] f) ?_ fun c => ?_
    · refine Proc.Spec.bind (snapshot_sound hP) fun before => ?_
      refine Proc.Spec.bind require_sound fun _ => ?_
      refine Proc.Spec.pure fun f _ ⟨⟨hp, hb⟩, _⟩ => ⟨hp, ?_⟩
      have hone : Planned False ([] ++ [⟨a.path, before, none⟩]) f :=
        planned_nil.add hb fun h => h.elim
      exact hone
    · refine Proc.Spec.bind (ih (hP.and planned_stable)) fun cs => ?_
      exact Proc.Spec.pure fun f _ ⟨⟨hp, hc⟩, hcs⟩ => ⟨hp, hc.append hcs⟩

theorem addKeyfile_sound {P : Frame → Prop} {sourceFiles : List FileChange} {metadata : Metadata}
    {files : List FileChange} {name : String} (hP : Stable P) :
    Sound A G Wf (fun f => P f ∧ Planned False files f)
      (addKeyfile sourceFiles metadata files name)
      fun files' f => (P f ∧ Planned False files' f) ∧ files ⊆ files' := by
  have hPl : Stable fun f => P f ∧ Planned False files f := hP.and planned_stable
  refine Proc.Spec.bind (IsCalm.require.keeps wf_stable hPl) fun _ => ?_
  refine Proc.Spec.bind (snapshot_sound hPl) fun before => ?_
  refine Proc.Spec.bind require_sound fun _ => ?_
  have hbefore : Stable fun f : Frame => f.world.files (keyfile "ndimon" name) = before := by
    intro f f' hc h
    rw [hc.2.files]
    exact h
  have hP' := (hPl.and hbefore).and (Stable.const (φ := before = none))
  refine Proc.Spec.bind (IsCalm.require.keeps wf_stable hP') fun _ => ?_
  refine Proc.Spec.bind (ask_calm.keeps wf_stable hP') fun text => ?_
  refine Proc.Spec.pure fun f _ ⟨⟨⟨hp, hpl⟩, hb⟩, hn⟩ => ?_
  exact ⟨⟨hp, hpl.add (hb.trans hn) fun h => h.elim⟩, List.subset_append_left _ _⟩

theorem addKeyfiles_sound {P : Frame → Prop} {sourceFiles : List FileChange} {metadata : Metadata}
    (hP : Stable P) (names : List String) (files : List FileChange) :
    Sound A G Wf (fun f => P f ∧ Planned False files f)
      (addKeyfiles sourceFiles metadata files names)
      fun files' f => (P f ∧ Planned False files' f) ∧ files ⊆ files' := by
  induction names generalizing files with
  | nil => exact Proc.Spec.pure fun _ _ h => ⟨h, List.Subset.refl _⟩
  | cons name rest ih =>
    refine Proc.Spec.bind (addKeyfile_sound hP) fun files₁ => ?_
    refine Proc.Spec.assume (fun _ _ h => h.2) fun hsub => ?_
    refine Proc.Spec.weaken (ih files₁) (fun _ _ h => h.1) ?_
    exact fun _ _ _ h => ⟨h.1, List.Subset.trans hsub h.2⟩

theorem handoffPlan_sound {config : EngineConfig} {source : NetworkHandoff} :
    Sound A G Wf (fun _ => True) (handoffPlan config source)
      fun made f => Stageable made.base made.plan (some made.transfer) f := by
  refine Proc.Spec.bind (IsCalm.require.keeps wf_stable .const) fun _ => ?_
  refine Proc.Spec.bind (readPending_sound wf_stable .const) fun pending => ?_
  refine Proc.Spec.bind require_sound fun _ => ?_
  have hpending : Stable fun f : Frame => (True ∧ f.world.pending = pending) ∧ pending = none :=
    (Stable.const.and pending_stable).and .const
  refine Proc.Spec.bind (releaseStatus_sound hpending) fun release => ?_
  refine Proc.Spec.bind (Q := fun _ => Idle)
    (Proc.Spec.weaken require_sound (fun _ _ h => h) ?_) fun _ => ?_
  · intro _ f _ ⟨⟨⟨⟨_, hp⟩, hn⟩, hs⟩, hq⟩
    refine ⟨hp.trans hn, ?_⟩
    rw [← hs]
    simp at hq
    exact hq.1
  let Free : Frame → Prop := fun f => Idle f ∧ f.world.peerExternal = none
  have hFree : Stable Free := idle_stable.and external_stable
  refine Proc.Spec.bind (Q := fun external f => Idle f ∧ f.world.peerExternal = external)
    (Proc.Spec.weaken (ask_sound wf_stable idle_stable) (fun _ _ h => h)
      fun _ _ _ ⟨h, _, hx⟩ => ⟨h, hx.symm⟩) fun external => ?_
  refine Proc.Spec.bind (Q := fun _ => Free) (Proc.Spec.weaken require_sound (fun _ _ h => h) ?_)
    fun _ => ?_
  · rintro _ f _ ⟨⟨hi, hx⟩, hnone⟩
    exact ⟨hi, hx.trans hnone⟩
  refine Proc.Spec.bind (ask_calm.keeps wf_stable hFree) fun document => ?_
  refine Proc.Spec.bind (IsCalm.require.keeps wf_stable hFree) fun _ => ?_
  refine Proc.Spec.bind (Q := fun base f => Free f ∧ base.revision ≤ f.world.authority.revision)
    (Proc.Spec.weaken (load_sound wf_stable hFree) (fun _ _ h => h) ?_) fun base => ?_
  · rintro base f _ ⟨hi, rfl⟩
    exact ⟨hi, Nat.le_refl _⟩
  have hP : Stable fun f => Free f ∧ base.revision ≤ f.world.authority.revision :=
    hFree.and revision_stable
  refine Proc.Spec.bind (table_calm.keeps wf_stable hP) fun present => ?_
  refine Proc.Spec.bind (IsCalm.require.keeps wf_stable hP) fun _ => ?_
  refine Proc.Spec.bind (snapshots_sound hP document.artifacts) fun sourceFiles => ?_
  have hS : Stable fun f => (Free f ∧ base.revision ≤ f.world.authority.revision) ∧
    Planned False sourceFiles f := hP.and planned_stable
  refine Proc.Spec.bind (ask_calm.keeps wf_stable hS) fun metadata => ?_
  refine Proc.Spec.bind (plan_sound hS rfl) fun p => ?_
  refine Proc.Spec.assume (φ := p.candidate.backend = p.previous.backend ∧
    ∃ c ∈ p.files, c.path = banner) (fun _ _ h => ⟨h.1.2.backend, h.1.2.banner⟩) fun hmade => ?_
  refine Proc.Spec.bind (Proc.Spec.weaken (addKeyfiles_sound hS _ p.files)
    (fun _ _ h => ⟨h.1.1, fun c hc => ⟨(h.1.2.planned c hc).1, fun hf => hf.elim⟩⟩)
    fun _ _ _ h => h) fun files => ?_
  have hF : Stable fun f => (((Free f ∧ base.revision ≤ f.world.authority.revision) ∧
      Planned False sourceFiles f) ∧ Planned False files f) ∧ p.files ⊆ files :=
    (hS.and planned_stable).and .const
  refine Proc.Spec.bind (IsCalm.require.keeps wf_stable hF) fun _ => ?_
  refine Proc.Spec.bind (ask_calm.keeps wf_stable hF) fun sha256 => ?_
  refine Proc.Spec.bind (table_calm.keeps wf_stable hF) fun sourceTable => ?_
  refine Proc.Spec.bind (ask_calm.keeps wf_stable hF) fun quiesce => ?_
  refine Proc.Spec.bind (IsCalm.require.keeps wf_stable hF) fun _ => ?_
  refine Proc.Spec.bind (IsCalm.require.keeps wf_stable hF) fun _ => ?_
  refine Proc.Spec.bind (ask_calm.keeps wf_stable hF) fun token => ?_
  refine Proc.Spec.pure fun f _ ⟨⟨⟨⟨⟨hi, hx⟩, hr⟩, hs⟩, hfiles⟩, hsub⟩ =>
    ⟨hi, ⟨hmade.1, ?_, ?_⟩, hr, fun _ => hx⟩
  · intro c hc
    refine ⟨((hfiles.append hs) c hc).1, fun h => ?_⟩
    exact absurd h.1 (Option.some_ne_none _)
  · obtain ⟨c, hc, hp⟩ := hmade.2
    exact ⟨c, List.mem_append_left _ (hsub hc), hp⟩

theorem commitHandoff_sound {config : EngineConfig} {source : NetworkHandoff} {token : String}
    {session : Option NetworkSessionPath} :
    Sound A G Wf (fun _ => True) (commitHandoff config source token session)
      fun _ _ => True := by
  refine Proc.Spec.bind (sourceLock_calm.keeps wf_stable .const) fun _ => ?_
  refine Proc.Spec.bind handoffPlan_sound fun made => ?_
  refine Proc.Spec.bind (IsCalm.require.keeps wf_stable stageable_stable) fun _ => ?_
  exact stageTransaction_sound

end NdimonR.Engine
