import NdimonR.Engine.Runs

/-! Everything a call can do to the device, one durable change at a time. The invariants of the
engine are proved of these changes; that every call is made of them is proved once. -/

namespace NdimonR.Engine

open Types

/-- What a journal keeps from stage to end. -/
structure Identity where
  jobId : String
  token : String
  base : Commit
  bootId : Nat
  operation : Operation
  handoff : Option Transfer
  previous : NetworkProfiles
  candidate : NetworkProfiles
  previousMetadata : Metadata
  metadata : Metadata
  oldTable : Option String
  files : List (String × Option Image)

def Journal.identity (j : Journal) : Identity :=
  { jobId := j.jobId, token := j.token, base := j.base, bootId := j.bootId
    operation := j.operation, handoff := j.handoff
    previous := j.plan.previous, candidate := j.plan.candidate
    previousMetadata := j.plan.previousMetadata, metadata := j.plan.metadata
    oldTable := j.plan.oldTable
    files := j.plan.files.map fun c => (c.path, c.before) }

/-- How far a transaction has gone; from `reverting` on it never goes back. -/
def Phase.rank : Phase → Nat
  | .staged => 0
  | .applying => 1
  | .applied => 2
  | _ => 3

/-- The journal `b` continues `a`. -/
structure Advance (a b : Journal) : Prop where
  same : a.identity = b.identity
  rank : a.phase.rank ≤ b.phase.rank
  recovery : a.recoveryPending = true → b.recoveryPending = true
  released : a.handoffRestored = true → b.handoffRestored = true
  window : a.phase = .applied → b.phase = .applied →
    b.deadlineMs = a.deadlineMs ∧ b.managementAddress = a.managementAddress

theorem Phase.rank_eq_two {p : Phase} : p.rank = 2 ↔ p = .applied := by
  cases p <;> simp [Phase.rank]

theorem Phase.rank_eq_zero {p : Phase} : p.rank = 0 ↔ p = .staged := by
  cases p <;> simp [Phase.rank]

theorem Phase.rank_le_three (p : Phase) : p.rank ≤ 3 := by
  cases p <;> simp [Phase.rank]

theorem Advance.refl (j : Journal) : Advance j j :=
  ⟨rfl, Nat.le_refl _, id, id, fun _ _ => ⟨rfl, rfl⟩⟩

theorem Advance.trans {a b c : Journal} (hab : Advance a b) (hbc : Advance b c) : Advance a c := by
  refine ⟨hab.same.trans hbc.same, Nat.le_trans hab.rank hbc.rank,
    fun h => hbc.recovery (hab.recovery h), fun h => hbc.released (hab.released h), ?_⟩
  intro ha hc
  have hb : b.phase = .applied := by
    have h₁ := hab.rank
    have h₂ := hbc.rank
    rw [ha] at h₁
    rw [hc] at h₂
    exact Phase.rank_eq_two.mp (Nat.le_antisymm h₂ h₁)
  obtain ⟨hd₁, hm₁⟩ := hab.window ha hb
  obtain ⟨hd₂, hm₂⟩ := hbc.window hb hc
  exact ⟨hd₂.trans hd₁, hm₂.trans hm₁⟩

/-- No reservation of the releasing engine names the transfer. -/
def Freed (t : Transfer) (w : World) : Prop := ∀ o, w.peerExternal = some o → o.id ≠ t.source.id

/-- The reservation of the releasing engine names the job. -/
def Reserved (d : Journal) (w : World) : Prop :=
  ∀ t, d.handoff = some t → w.peerExternal = some (ownership t d.jobId)

/-- The releasing engine has been told how the transfer ends. -/
structure Told (d : Journal) (w : World) : Prop where
  kept : w.authority.decides d = true → ∀ t, d.handoff = some t →
    .kept (ownership t d.jobId) ∈ w.trace
  freed : w.authority.decides d = false → ∀ t, d.handoff = some t → Freed t w

section identity

variable {a b : Journal} (h : a.identity = b.identity)
include h

theorem jobId_congr : a.jobId = b.jobId := congrArg Identity.jobId h

theorem token_congr : a.token = b.token := congrArg Identity.token h

theorem base_congr : a.base = b.base := congrArg Identity.base h

theorem bootId_congr : a.bootId = b.bootId := congrArg Identity.bootId h

theorem handoff_congr : a.handoff = b.handoff := congrArg Identity.handoff h

theorem operation_congr : a.operation = b.operation := congrArg Identity.operation h

theorem candidate_congr : a.plan.candidate = b.plan.candidate := congrArg Identity.candidate h

theorem previous_congr : a.plan.previous = b.plan.previous := congrArg Identity.previous h

theorem metadata_congr : a.plan.metadata = b.plan.metadata := congrArg Identity.metadata h

theorem nextCommit_congr : nextCommit a = nextCommit b := by
  unfold nextCommit
  rw [base_congr h, candidate_congr h, metadata_congr h, jobId_congr h]

theorem decides_congr (c : Commit) : c.decides a = c.decides b := by
  unfold Commit.decides
  rw [base_congr h, candidate_congr h, metadata_congr h, jobId_congr h]

theorem Reserved.congr {w : World} (hr : Reserved a w) : Reserved b w := by
  intro t ht
  rw [hr t ((handoff_congr h).trans ht), jobId_congr h]

theorem Told.congr {w : World} (ht : Told a w) : Told b w where
  kept := by
    intro hd t hb
    rw [← jobId_congr h]
    exact ht.kept ((decides_congr h _).trans hd) t ((handoff_congr h).trans hb)
  freed := fun hu t hb => ht.freed ((decides_congr h _).trans hu) t ((handoff_congr h).trans hb)

theorem files_congr :
    a.plan.files.map (fun c => (c.path, c.before)) =
      b.plan.files.map fun c => (c.path, c.before) :=
  congrArg Identity.files h

/-- Every planned path has the same before-image under both. -/
theorem before_congr {c : FileChange} (hc : c ∈ a.plan.files) :
    ∃ d ∈ b.plan.files, d.path = c.path ∧ d.before = c.before := by
  have hm : (c.path, c.before) ∈ b.plan.files.map fun c => (c.path, c.before) := by
    rw [← files_congr h]
    exact List.mem_map_of_mem hc
  obtain ⟨d, hd, he⟩ := List.mem_map.mp hm
  exact ⟨d, hd, congrArg Prod.fst he, congrArg Prod.snd he⟩

end identity

/-- The files hold what they held before the change was planned. -/
def Restored (files : Files) (j : Journal) : Prop :=
  ∀ c ∈ j.plan.files, files c.path = c.before

theorem Restored.congr {files : Files} {a b : Journal} (hr : Restored files a)
    (h : a.identity = b.identity) : Restored files b := by
  intro c hc
  obtain ⟨d, hd, hp, hb⟩ := before_congr h.symm hc
  rw [← hp, hr d hd, hb]

/-- What holds of every journal the engine stages and keeps. -/
structure JournalOk (j : Journal) : Prop where
  operation : j.operation ≠ .syncTessera
  handoff : j.handoffRestored = true → j.handoff.isSome = true ∧ j.phase.rank = 3
  backend : j.plan.candidate.backend = j.plan.previous.backend
  consistent : ∀ c ∈ j.plan.files, ∀ d ∈ j.plan.files, c.path = d.path → c.before = d.before
  banner : ∃ c ∈ j.plan.files, c.path = banner
  keyfiles : j.plan.previous.backend = some .networkmanager → j.handoff = none →
    ∀ c ∈ j.plan.files, isKeyfile c.path = false

theorem JournalOk.advance {a b : Journal} (h : JournalOk a) (hs : a.identity = b.identity)
    (hr : b.handoffRestored = true → b.handoff.isSome = true ∧ b.phase.rank = 3) :
    JournalOk b where
  operation := by rw [← operation_congr hs]; exact h.operation
  handoff := hr
  backend := by rw [← candidate_congr hs, ← previous_congr hs]; exact h.backend
  consistent := by
    intro c hc d hd hp
    obtain ⟨c', hc', hcp, hcb⟩ := before_congr hs.symm hc
    obtain ⟨d', hd', hdp, hdb⟩ := before_congr hs.symm hd
    rw [← hcb, ← hdb]
    exact h.consistent c' hc' d' hd' (by rw [hcp, hdp, hp])
  banner := by
    obtain ⟨c, hc, hp⟩ := h.banner
    obtain ⟨d, hd, hdp, _⟩ := before_congr hs hc
    exact ⟨d, hd, hdp.trans hp⟩
  keyfiles := by
    intro hb hh c hc
    obtain ⟨d, hd, hdp, _⟩ := before_congr hs.symm hc
    rw [← hdp]
    exact h.keyfiles (by rw [previous_congr hs]; exact hb) (by rw [handoff_congr hs]; exact hh) d hd

/-- The state of a transaction whose effects may still be undone. -/
structure Undoing (w : World) (d : Journal) : Prop where
  pending : w.pending = some d
  undecided : w.authority.decides d = false
  modified : d.phase ≠ .staged
  held : d.handoffRestored = false

/-- One change, with what the engine knows when it makes it. `A` is what the running call knows
when it commits a journal; `G` says that it may end a journal whatever the files hold. -/
inductive Change (A : Journal → World → Prop) (G : Prop) (w : World) : World → Prop where
  | pass (elapsed writes : Nat) : Change A G w (w.pass elapsed writes)
  | load : Change A G w (w.note (.loaded w.authority))
  | observe (interface : String) (live : List String) :
      Change A G w (w.note (.addresses interface live))
  | last (l : Last) : Change A G w (w.putLast l)
  | reserve {d : Journal} {t : Transfer} (hp : w.pending = some d) (ht : d.handoff = some t)
      (hs : d.phase = .staged) (hx : w.peerExternal = none)
      (hr : ∀ i files, .released i files ∈ w.trace → i.jobId ≠ d.jobId) :
      Change A G w { w with peerExternal := some (ownership t d.jobId) }
  | kept {d : Journal} {t : Transfer} (hp : w.pending = some d) (ht : d.handoff = some t)
      (hd : w.authority.decides d = true) :
      Change A G w ({ w with peerDone := ownership t d.jobId :: w.peerDone }.note
        (.kept (ownership t d.jobId)))
  | releaseExternal {d j : Journal} {t : Transfer} {o : Ownership} (hp : w.pending = some d)
      (ht : d.handoff = some t) (hi : d.identity = j.identity) (hu : w.authority.decides d = false)
      (hs : d.phase = .staged ∨ d.handoffRestored = true) (hx : w.peerExternal = some o)
      (ho : o.id = t.source.id) :
      Change A G w ({ w with peerExternal := none }.note (.released j w.files))
  | releaseQuiesce {d j : Journal} {t : Transfer} (hp : w.pending = some d)
      (ht : d.handoff = some t) (hi : d.identity = j.identity) (hu : w.authority.decides d = false)
      (hs : d.phase = .staged ∨ d.handoffRestored = true) (hx : Freed t w) :
      Change A G w ({ w with peerQuiesce := none }.note (.released j w.files))
  | stage {j : Journal} (hp : w.pending = none) (hq : w.quiesced = false) (hj : JournalOk j)
      (hs : j.phase = .staged) (hb : j.bootId = w.bootId) (hr : j.recoveryPending = false)
      (hf : Restored w.files j) (hn : w.knows j.jobId = false)
      (hrev : j.base.revision ≤ w.authority.revision)
      (hx : j.handoff.isSome = true → w.peerExternal = none) :
      Change A G w (w.putPending j)
  | journal {d j : Journal} (hp : w.pending = some d) (ha : Advance d j) (hj : JournalOk j)
      (hr : j.handoffRestored = true → d.handoffRestored = true ∨
        (Restored w.files d ∧ w.authority.decides d = false ∧ j.phase.rank = 3))
      (hx : d.phase = .staged → j.phase ≠ .staged → Reserved d w) :
      Change A G w (w.putPending j)
  | revive {d j : Journal} {files : Files} (hp : w.pending = none) (hq : w.quiesced = false)
      (hd : .finished d false files ∈ w.trace) (ha : Advance d j) (hj : JournalOk j)
      (hs : j.phase = .failed) (hr : j.recoveryPending = true) (hf : Restored w.files j)
      (hu : w.authority.decides d = false)
      (hx : ∀ t, j.handoff = some t → j.handoffRestored = true ∧ Freed t w) :
      Change A G w (w.putPending j)
  | write {d : Journal} (path : String) (image : Option Image) (hu : Undoing w d) :
      Change A G w ((w.writeFile path image).note (.wrote d.jobId path image))
  | unbanner {d : Journal} (hp : w.pending = some d) (hd : w.authority.decides d = true) :
      Change A G w ((w.writeFile banner none).note (.wrote d.jobId banner none))
  | keyfiles {d : Journal} (saved : List (String × Option Image)) (hu : Undoing w d) :
      Change A G w (w.saveKeyfiles saved)
  | table {d : Journal} (rules : Option String) (hu : Undoing w d) :
      Change A G w (w.note (.table d.jobId rules))
  | activate {d : Journal} (p : NetworkProfiles) (hu : Undoing w d) :
      Change A G w (w.note (.activated d.jobId p))
  | decide {d : Journal} {c : Commit} (hp : w.pending = some d) (ha : A d w)
      (hs : d.phase = .applied) (hr : d.recoveryPending = false) (hb : w.authority = d.base)
      (hc : nextCommit d = .ok c) :
      Change A G w (w.decide c)
  | finish {d : Journal} (hp : w.pending = some d)
      (hf : (w.authority.decides d = true ∧ w.files banner = none) ∨
        (w.authority.decides d = false ∧
          (d.phase = .staged ∨ d.handoffRestored = true ∨ Restored w.files d ∨ G)))
      (hx : Told d w) :
      Change A G w w.removePending
  | archive : Change A G w { w with last := none }
  | released : Change A G w { w with quiesced := false }

/-- The changes of a call, in order. -/
abbrev Changes (A : Journal → World → Prop) (G : Prop) : World → World → Prop :=
  Relation.ReflTransGen (Change A G)

/-- What the engine relies on whenever a call starts. -/
structure World.Wf (w : World) : Prop where
  version : w.authority.version = 1
  decision : ∀ r, w.authority.networkCommitRevision = some r → r ≤ w.authority.revision
  release : w.quiesced = true → w.pending = none
  journal : ∀ d, w.pending = some d → JournalOk d

section putPending

variable (j : Journal) (w : World)

@[simp] theorem putPending_pending : (w.putPending j).pending = some j := by
  unfold World.putPending
  split <;> rfl

@[simp] theorem putPending_files : (w.putPending j).files = w.files := by
  unfold World.putPending
  split <;> rfl

@[simp] theorem putPending_authority : (w.putPending j).authority = w.authority := by
  unfold World.putPending
  split <;> rfl

@[simp] theorem putPending_quiesced : (w.putPending j).quiesced = w.quiesced := by
  unfold World.putPending
  split <;> rfl

@[simp] theorem putPending_bootId : (w.putPending j).bootId = w.bootId := by
  unfold World.putPending
  split <;> rfl

@[simp] theorem putPending_external : (w.putPending j).peerExternal = w.peerExternal := by
  unfold World.putPending
  split <;> rfl

@[simp] theorem putPending_now : (w.putPending j).now = w.now := by
  unfold World.putPending
  split <;> rfl

theorem putPending_trace_staged (hp : w.pending = none) (hs : j.phase = .staged) :
    (w.putPending j).trace = .staged j :: w.trace := by
  simp [World.putPending, hp, hs]

theorem putPending_trace_some {d : Journal} (hp : w.pending = some d) :
    (w.putPending j).trace = w.trace := by
  simp [World.putPending, hp]

theorem putPending_trace_later (hs : j.phase ≠ .staged) :
    (w.putPending j).trace = w.trace := by
  simp [World.putPending, hs]

end putPending

theorem removePending_eq {w : World} {d : Journal} (hp : w.pending = some d) :
    w.removePending =
      { w with
        pending := none
        trace := .finished d (w.authority.decides d) w.files :: w.trace } := by
  unfold World.removePending
  rw [hp]

theorem decides_pass (w : World) (elapsed writes : Nat) (j : Journal) :
    (w.pass elapsed writes).authority.decides j = w.authority.decides j := rfl

theorem nextCommit_ok {j : Journal} {c : Commit} (h : nextCommit j = .ok c) :
    c = { revision := j.base.revision + 1
          profiles := j.plan.candidate
          metadata := j.plan.metadata
          transaction := some j.jobId
          networkCommitRevision := some (j.base.revision + 1) } := by
  unfold nextCommit at h
  split at h
  · cases h
    rfl
  · cases h

theorem nextCommit_decides {j : Journal} {c : Commit} (h : nextCommit j = .ok c) :
    c.decides j = true := by
  rw [nextCommit_ok h]
  simp [Commit.decides]

/-- Every change keeps what the engine relies on. -/
theorem Change.wf {A : Journal → World → Prop} {G : Prop} {w w' : World}
    (h : Change A G w w') (hw : w.Wf) : w'.Wf := by
  have hput : ∀ j, JournalOk j → w.quiesced = false → (w.putPending j).Wf := by
    intro j hj hq
    refine ⟨by simpa using hw.version, by simpa using hw.decision, ?_, ?_⟩
    · intro hq'
      rw [putPending_quiesced, hq] at hq'
      cases hq'
    · intro d hd
      rw [putPending_pending] at hd
      cases hd
      exact hj
  cases h with
  | pass elapsed writes =>
    refine ⟨hw.version, ?_, hw.release, hw.journal⟩
    intro r hr
    exact Nat.le_trans (hw.decision r hr) (Nat.le_add_right _ _)
  | stage hp hq hj => exact hput _ hj hq
  | @journal d j hp ha hj hr =>
    refine hput _ hj ?_
    cases hq : w.quiesced with
    | false => rfl
    | true =>
      have hnone := hw.release hq
      rw [hp] at hnone
      cases hnone
  | revive hp hq hd ha hj => exact hput _ hj hq
  | @decide d c hp ha hs hr hb hc =>
    have hc' := nextCommit_ok hc
    refine ⟨?_, ?_, hw.release, hw.journal⟩
    · rw [World.decide, hc']
    · intro r hr
      rw [World.decide, hc'] at hr ⊢
      simp only [Option.some.injEq] at hr
      simp only
      omega
  | finish hp hf =>
    rw [removePending_eq hp]
    exact ⟨hw.version, hw.decision, fun _ => rfl, fun d hd => nomatch hd⟩
  | released => exact ⟨hw.version, hw.decision, fun h => (nomatch h), hw.journal⟩
  | load | observe | last | reserve | kept | releaseExternal | releaseQuiesce | write | unbanner
  | keyfiles | table | activate | archive =>
    exact ⟨hw.version, hw.decision, hw.release, hw.journal⟩

theorem Changes.wf {A : Journal → World → Prop} {G : Prop} {w w' : World}
    (h : Changes A G w w') (hw : w.Wf) : w'.Wf :=
  chain_invariant (fun _ _ hc hi => hc.wf hi) h hw

/-- What a call knows more, it may still do. -/
theorem Change.mono {A A' : Journal → World → Prop} {G G' : Prop} {w w' : World}
    (ha : ∀ d w, A d w → A' d w) (hg : G → G')
    (h : Change A G w w') : Change A' G' w w' := by
  cases h with
  | pass elapsed writes => exact .pass elapsed writes
  | load => exact .load
  | observe interface live => exact .observe interface live
  | last l => exact .last l
  | reserve hp ht hs hx hr => exact .reserve hp ht hs hx hr
  | kept hp ht hd => exact .kept hp ht hd
  | releaseExternal hp ht hi hu hs hx ho => exact .releaseExternal hp ht hi hu hs hx ho
  | releaseQuiesce hp ht hi hu hs hx => exact .releaseQuiesce hp ht hi hu hs hx
  | stage hp hq hj hs hb hr hf hn hrev hx => exact .stage hp hq hj hs hb hr hf hn hrev hx
  | journal hp ha' hj hr hx => exact .journal hp ha' hj hr hx
  | revive hp hq hd ha' hj hs hr hf hu hx => exact .revive hp hq hd ha' hj hs hr hf hu hx
  | write path image hu => exact .write path image hu
  | unbanner hp hd => exact .unbanner hp hd
  | keyfiles saved hu => exact .keyfiles saved hu
  | table rules hu => exact .table rules hu
  | activate p hu => exact .activate p hu
  | decide hp hknow hs hr hb hc => exact .decide hp (ha _ _ hknow) hs hr hb hc
  | finish hp hf hx =>
    refine .finish hp (hf.imp_right fun ⟨hu, hs⟩ => ⟨hu, ?_⟩) hx
    exact hs.imp_right fun h => h.imp_right fun h => h.imp_right hg
  | archive => exact .archive
  | released => exact .released

end NdimonR.Engine
