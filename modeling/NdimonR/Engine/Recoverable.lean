import NdimonR.Engine.Ledger

/-! An uncommitted change stays recoverable: while its files differ from what they were, its
journal is there and says so, and a recovery that succeeds has put them all back. -/

namespace NdimonR.Engine

open NdimonR.Types

/-- Neither removed, nor removed and written back. -/
def Unfinished (w : World) (j : Journal) : Prop :=
  (∃ d, w.pending = some d ∧ d.jobId = j.jobId) ∨ ¬ Ended w.trace j.jobId

/-- The banner is not there before a transaction. -/
def BannerAbsent (j : Journal) : Prop := ∀ c ∈ j.plan.files, c.path = banner → c.before = none

structure Recoverable (w : World) : Prop where
  staged : ∀ d, w.pending = some d → d.phase = .staged → Restored w.files d
  released : ∀ d, w.pending = some d → d.handoffRestored = true → Restored w.files d
  absent : ∀ d, w.pending = some d → BannerAbsent d
  clean : w.pending = none → w.files banner = none
  durable : ∀ j, .staged j ∈ w.trace →
    (∃ d, w.pending = some d ∧ d.jobId = j.jobId) ∨ Ended w.trace j.jobId
  ended : ∀ d files, .finished d false files ∈ w.trace → Restored files d

theorem BannerAbsent.congr {a b : Journal} (h : BannerAbsent a) (hs : a.identity = b.identity) :
    BannerAbsent b := by
  intro c hc hp
  obtain ⟨d, hd, hdp, hdb⟩ := before_congr hs.symm hc
  rw [← hdb]
  exact h d hd (hdp.trans hp)

theorem Restored.absent {w : World} {j : Journal} (h : Restored w.files j)
    (hc : w.files banner = none) : BannerAbsent j := by
  intro c hm hp
  rw [← h c hm, hp]
  exact hc

theorem Restored.unbanner {w : World} {j : Journal} (h : Restored w.files j)
    (ha : BannerAbsent j) : Restored (w.writeFile banner none).files j := by
  intro c hc
  change (if c.path = banner then none else w.files c.path) = c.before
  by_cases hp : c.path = banner
  · rw [if_pos hp, ha c hc hp]
  · rw [if_neg hp]
    exact h c hc

namespace Recoverable

variable {w w' : World}

theorem initial (h : w.Initial) : Recoverable w := by
  have hnone : ∀ {φ : Prop} d, w.pending = some d → φ := by
    intro φ d hd
    rw [h.pending] at hd
    cases hd
  have hempty : ∀ {φ : Prop} e, e ∈ w.trace → φ := by
    intro φ e he
    rw [h.trace] at he
    exact absurd he List.not_mem_nil
  exact ⟨fun d hd => hnone d hd, fun d hd => hnone d hd, fun d hd => hnone d hd,
    fun _ => h.banner, fun _ hj => hempty _ hj, fun _ _ hd => hempty _ hd⟩

/-- The trace has grown by events that begin and end no journal. -/
structure Grown (w w' : World) : Prop where
  staged : ∀ j, .staged j ∈ w'.trace → .staged j ∈ w.trace
  finished : ∀ d kept files, .finished d kept files ∈ w'.trace → .finished d kept files ∈ w.trace
  kept : ∀ e ∈ w.trace, e ∈ w'.trace

theorem Grown.refl (h : w'.trace = w.trace) : Grown w w' := by
  refine ⟨?_, ?_, ?_⟩ <;> rw [h] <;> simp

theorem Grown.noted {e : Event} (h : w'.trace = e :: w.trace) (hs : ∀ j, e ≠ .staged j)
    (hf : ∀ d kept files, e ≠ .finished d kept files) : Grown w w' := by
  have hold : ∀ x, x ≠ e → x ∈ w'.trace → x ∈ w.trace := by
    intro x hx hm
    rw [h] at hm
    exact (List.mem_cons.mp hm).resolve_left hx
  refine ⟨fun j => hold _ (hs j).symm, fun d kept files => hold _ (hf d kept files).symm, ?_⟩
  intro x hx
  rw [h]
  exact List.mem_cons_of_mem _ hx

theorem Grown.open (hg : Grown w w') (h : Recoverable w)
    (hp : ∀ d, w.pending = some d → ∃ d', w'.pending = some d' ∧ d'.jobId = d.jobId) :
    ∀ j, .staged j ∈ w'.trace →
      (∃ d, w'.pending = some d ∧ d.jobId = j.jobId) ∨ Ended w'.trace j.jobId := by
  intro j hj
  rcases h.durable j (hg.staged j hj) with ⟨d, hd, hid⟩ | ⟨d, kept, files, hd, hid⟩
  · obtain ⟨d', hd', hid'⟩ := hp d hd
    exact .inl ⟨d', hd', hid'.trans hid⟩
  · exact .inr ⟨d, kept, files, hg.kept _ hd, hid⟩

/-- A step over the same journal and the same files. -/
theorem moved (h : Recoverable w) (hp : w'.pending = w.pending) (hf : w'.files = w.files)
    (hg : Grown w w') : Recoverable w' := by
  refine ⟨?_, ?_, ?_, ?_, ?_, ?_⟩
  · intro d hd
    rw [hf]
    exact h.staged d (hp.symm.trans hd)
  · intro d hd
    rw [hf]
    exact h.released d (hp.symm.trans hd)
  · intro d hd
    exact h.absent d (hp.symm.trans hd)
  · intro hn
    rw [hf]
    exact h.clean (hp.symm.trans hn)
  · apply hg.open h
    intro d hd
    exact ⟨d, hp.trans hd, rfl⟩
  · intro d files hd
    exact h.ended d files (hg.finished d false files hd)

/-- A step that may change any file, for a journal that says so. -/
theorem modified {d : Journal} (h : Recoverable w) (hu : Undoing w d)
    (hp : w'.pending = w.pending) (hg : Grown w w') : Recoverable w' := by
  have hmine : ∀ e, w'.pending = some e → e = d := by
    intro e he
    rw [hp, hu.pending] at he
    exact (Option.some.inj he).symm
  refine ⟨?_, ?_, ?_, ?_, ?_, ?_⟩
  · intro e he hs
    rw [hmine e he] at hs
    exact absurd hs hu.modified
  · intro e he hr
    rw [hmine e he, hu.held] at hr
    cases hr
  · intro e he
    rw [hmine e he]
    exact h.absent d hu.pending
  · intro hn
    rw [hp, hu.pending] at hn
    cases hn
  · apply hg.open h
    intro e he
    exact ⟨e, hp.trans he, rfl⟩
  · intro e files he
    exact h.ended e files (hg.finished e false files he)

/-- The banner goes: at a reboot, and when a change is kept. -/
theorem unbanner (h : Recoverable w) (hp : w'.pending = w.pending)
    (hf : w'.files = (w.writeFile banner none).files) (hg : Grown w w') : Recoverable w' := by
  have hrestored : ∀ d, w.pending = some d → Restored w.files d → Restored w'.files d := by
    intro d hd hr
    rw [hf]
    exact hr.unbanner (h.absent d hd)
  refine ⟨?_, ?_, ?_, ?_, ?_, ?_⟩
  · intro d hd hs
    rw [hp] at hd
    exact hrestored d hd (h.staged d hd hs)
  · intro d hd hr
    rw [hp] at hd
    exact hrestored d hd (h.released d hd hr)
  · intro d hd
    exact h.absent d (hp.symm.trans hd)
  · intro _
    rw [hf]
    simp [World.writeFile]
  · apply hg.open h
    intro d hd
    exact ⟨d, hp.trans hd, rfl⟩
  · intro d files hd
    exact h.ended d files (hg.finished d false files hd)

theorem stage {j : Journal} (h : Recoverable w) (hp : w.pending = none) (hs : j.phase = .staged)
    (hf : Restored w.files j) : Recoverable (w.putPending j) := by
  have ht : (w.putPending j).trace = .staged j :: w.trace := putPending_trace_staged j w hp hs
  have hmine : ∀ d, (w.putPending j).pending = some d → d = j := by
    intro d hd
    rw [putPending_pending] at hd
    exact (Option.some.inj hd).symm
  refine ⟨?_, ?_, ?_, ?_, ?_, ?_⟩
  · intro d hd _
    rw [hmine d hd, putPending_files]
    exact hf
  · intro d hd _
    rw [hmine d hd, putPending_files]
    exact hf
  · intro d hd
    rw [hmine d hd]
    exact hf.absent (h.clean hp)
  · intro hn
    rw [putPending_pending] at hn
    cases hn
  · intro i hi
    rw [ht] at hi
    rcases List.mem_cons.mp hi with he | hi
    · cases he
      exact .inl ⟨j, by simp, rfl⟩
    · rcases h.durable i hi with ⟨d, hd, _⟩ | ⟨d, kept, files, hd, hid⟩
      · rw [hp] at hd
        cases hd
      · refine .inr ⟨d, kept, files, ?_, hid⟩
        rw [ht]
        exact List.mem_cons_of_mem _ hd
  · intro d files hd
    rw [ht] at hd
    exact h.ended d files (by simpa using hd)

theorem journal {d j : Journal} (h : Recoverable w) (hp : w.pending = some d) (ha : Advance d j)
    (hr : j.handoffRestored = true → d.handoffRestored = true ∨ Restored w.files d) :
    Recoverable (w.putPending j) := by
  have ht : (w.putPending j).trace = w.trace := putPending_trace_some j w hp
  have hmine : ∀ e, (w.putPending j).pending = some e → e = j := by
    intro e he
    rw [putPending_pending] at he
    exact (Option.some.inj he).symm
  refine ⟨?_, ?_, ?_, ?_, ?_, ?_⟩
  · intro e he hs
    rw [hmine e he] at hs ⊢
    have hrank := ha.rank
    rw [hs] at hrank
    have hstaged : d.phase = .staged := Phase.rank_eq_zero.mp (Nat.le_zero.mp hrank)
    rw [putPending_files]
    exact (h.staged d hp hstaged).congr ha.same
  · intro e he hreleased
    rw [hmine e he] at hreleased ⊢
    rw [putPending_files]
    rcases hr hreleased with hd | hd
    · exact (h.released d hp hd).congr ha.same
    · exact hd.congr ha.same
  · intro e he
    rw [hmine e he]
    exact (h.absent d hp).congr ha.same
  · intro hn
    rw [putPending_pending] at hn
    cases hn
  · apply (Grown.refl ht).open h
    intro e he
    rw [hp] at he
    cases he
    exact ⟨j, by simp, (jobId_congr ha.same).symm⟩
  · intro e files he
    rw [ht] at he
    exact h.ended e files he

theorem revive {j : Journal} (h : Recoverable w) (hp : w.pending = none) (hs : j.phase = .failed)
    (hf : Restored w.files j) : Recoverable (w.putPending j) := by
  have hnot : j.phase ≠ .staged := by
    rw [hs]
    exact nofun
  have ht : (w.putPending j).trace = w.trace := putPending_trace_later j w hnot
  have hmine : ∀ d, (w.putPending j).pending = some d → d = j := by
    intro d hd
    rw [putPending_pending] at hd
    exact (Option.some.inj hd).symm
  refine ⟨?_, ?_, ?_, ?_, ?_, ?_⟩
  · intro d hd hstaged
    rw [hmine d hd] at hstaged
    exact absurd hstaged hnot
  · intro d hd _
    rw [hmine d hd, putPending_files]
    exact hf
  · intro d hd
    rw [hmine d hd]
    exact hf.absent (h.clean hp)
  · intro hn
    rw [putPending_pending] at hn
    cases hn
  · apply (Grown.refl ht).open h
    intro d hd
    rw [hp] at hd
    cases hd
  · intro d files hd
    rw [ht] at hd
    exact h.ended d files hd

theorem finish {d : Journal} (h : Recoverable w) (hw : w.Wf) (hp : w.pending = some d)
    (hf : (w.authority.decides d = true ∧ w.files banner = none) ∨
      (w.authority.decides d = false ∧
        (d.phase = .staged ∨ d.handoffRestored = true ∨ Restored w.files d))) :
    Recoverable w.removePending := by
  have hrestored : w.authority.decides d = false → Restored w.files d := by
    intro hu
    rcases hf with ⟨hd, _⟩ | ⟨_, hs | hr | hr⟩
    · rw [hu] at hd
      cases hd
    · exact h.staged d hp hs
    · exact h.released d hp hr
    · exact hr
  have hclean : w.files banner = none := by
    rcases hf with ⟨_, hb⟩ | ⟨hu, _⟩
    · exact hb
    · obtain ⟨c, hc, hpath⟩ := (hw.journal d hp).banner
      rw [← hpath, hrestored hu c hc]
      exact h.absent d hp c hc hpath
  rw [removePending_eq hp]
  refine ⟨by simp, by simp, by simp, fun _ => hclean, ?_, ?_⟩
  · intro j hj
    have hold : .staged j ∈ w.trace := by simpa using hj
    right
    rcases h.durable j hold with ⟨e, he, hid⟩ | ⟨e, kept, files, he, hid⟩
    · rw [hp] at he
      cases he
      exact ⟨d, _, _, List.mem_cons_self, hid⟩
    · exact ⟨e, kept, files, List.mem_cons_of_mem _ he, hid⟩
  · intro e files he
    rcases List.mem_cons.mp he with heq | hold
    · injection heq with hd hkept hfiles
      rw [hd, hfiles]
      exact hrestored hkept.symm
    · exact h.ended e files hold

theorem change {A : Journal → World → Prop} (h : Recoverable w) (hw : w.Wf)
    (hc : Change A False w w') : Recoverable w' := by
  cases hc with
  | stage hp hq hj hs hb hr hf => exact h.stage hp hs hf
  | journal hp ha hj hr =>
    apply h.journal hp ha
    intro hreleased
    exact (hr hreleased).imp_right fun hd => hd.1
  | revive hp hq hd ha hj hs hr hf => exact h.revive hp hs hf
  | finish hp hf =>
    apply h.finish hw hp
    refine hf.imp_right fun ⟨hu, hd⟩ => ⟨hu, ?_⟩
    exact hd.imp_right fun hd => hd.imp_right fun hd => hd.resolve_right id
  | @write d path image hu =>
    have hg : Grown w ((w.writeFile path image).note (.wrote d.jobId path image)) :=
      .noted rfl (by simp) (by simp)
    exact h.modified hu rfl hg
  | @keyfiles d saved hu => exact h.modified hu rfl (.refl rfl)
  | @unbanner d hp hd =>
    have hg : Grown w ((w.writeFile banner none).note (.wrote d.jobId banner none)) :=
      .noted rfl (by simp) (by simp)
    exact h.unbanner rfl rfl hg
  | load =>
    have hg : Grown w (w.note (.loaded w.authority)) := .noted rfl (by simp) (by simp)
    exact h.moved rfl rfl hg
  | observe interface live =>
    have hg : Grown w (w.note (.addresses interface live)) := .noted rfl (by simp) (by simp)
    exact h.moved rfl rfl hg
  | @table d rules hu =>
    have hg : Grown w (w.note (.table d.jobId rules)) := .noted rfl (by simp) (by simp)
    exact h.moved rfl rfl hg
  | @activate d p hu =>
    have hg : Grown w (w.note (.activated d.jobId p)) := .noted rfl (by simp) (by simp)
    exact h.moved rfl rfl hg
  | @decide d c hp =>
    have hg : Grown w (w.decide c) := .noted rfl (by simp) (by simp)
    exact h.moved rfl rfl hg
  | @kept d t =>
    have hg : Grown w ({ w with peerDone := ownership t d.jobId :: w.peerDone }.note
        (.kept (ownership t d.jobId))) := .noted rfl (by simp) (by simp)
    exact h.moved rfl rfl hg
  | @releaseExternal d j =>
    have hg : Grown w ({ w with peerExternal := none }.note (.released j w.files)) :=
      .noted rfl (by simp) (by simp)
    exact h.moved rfl rfl hg
  | @releaseQuiesce d j =>
    have hg : Grown w ({ w with peerQuiesce := none }.note (.released j w.files)) :=
      .noted rfl (by simp) (by simp)
    exact h.moved rfl rfl hg
  | pass | last | reserve | archive | released => exact h.moved rfl rfl (.refl rfl)

end Recoverable

/-- A run in which no operator gives a failed recovery up. -/
def NoGiveUp : Step → Prop
  | .call .acceptCurrent _ => False
  | _ => True

theorem NoGiveUp.call {c : Call} {script : List Answer} (h : NoGiveUp (.call c script)) :
    c.givesUp = False := by
  cases c with
  | acceptCurrent => exact h.elim
  | stage | commitHandoff | runApplyJob | confirm | revert | rollback | runRecovery | boot => rfl

theorem Reachable.recoverable {config : EngineConfig} {w : World}
    (h : Reachable config NoGiveUp w) : Recoverable w := by
  refine h.invariant (fun _ hi => Recoverable.initial hi) ?_
    (fun _ _ _ _ hr => hr.moved rfl rfl (.refl rfl))
    (fun _ _ _ hr => hr.unbanner rfl rfl (.refl rfl)) ?_
    fun _ _ hr => hr.moved rfl rfl (.refl rfl)
  · intro c script w₀ w w' hallowed hw hr hc
    rw [hallowed.call] at hc
    exact hr.change hw hc
  · intro w quiesced externallyManaged hr
    unfold World.setRelease
    split
    · exact hr
    · exact hr.moved rfl rfl (.refl rfl)

/-! ## A recovery that reports success -/

/-- What is left of a journal whose recovery reported success. -/
structure Undoes (d : Journal) (outcome : Phase) (w : World) : Prop where
  gone : w.pending = none
  last : w.last = some ⟨d.token, outcome, d.applyError⟩
  restored : Restored w.files d

theorem recoverLocked_undoes {w : World} {d : Journal} {outcome : Phase} {script : List Answer}
    {f : Frame} (hw : w.Wf) (hr : Recoverable w) (hp : w.pending = some d)
    (hu : w.authority.decides d = false)
    (hrun : recoverLocked outcome ⟨w, script, d⟩ = (.ok (), f)) : Undoes d outcome f.world := by
  have hsound : Sound (fun _ _ => False) False Wf
      (fun f => (f.world.pending = some f.job ∧ f.job = d ∧
        (True → d.phase = .staged ∨ d.handoffRestored = true → Restored f.world.files d)) ∧
          f.world.authority.decides d = false)
      (recoverLocked outcome) fun _ f => false = true ∨ Finished True false d outcome f :=
    recoverLocked_sound
  have hstart : True → d.phase = .staged ∨ d.handoffRestored = true → Restored w.files d := by
    rintro _ (hs | hh)
    · exact hr.staged d hp hs
    · exact hr.released d hp hh
  obtain ⟨_, _, hok, _⟩ := hsound ⟨w, script, d⟩ hw ⟨⟨hp, rfl, hstart⟩, hu⟩
  have hresult := hok ()
  rw [hrun] at hresult
  rcases hresult rfl with hb | ⟨hgone, hlast, _, hrestored⟩
  · cases hb
  · exact ⟨hgone, hlast, hrestored trivial⟩

/-- The two passes of a recovery reach every planned file; those of a network change reach each
exactly once. -/
theorem passes_reach (j : Journal) : (∀ c ∈ j.plan.files, c ∈ j.firstPass ++ j.secondPass) ∧
    (j.handoff = none → (j.firstPass ++ j.secondPass).Perm j.plan.files) := by
  constructor
  · intro c hc
    have hrev : c ∈ j.plan.files.reverse := List.mem_reverse.mpr hc
    by_cases hs : (runtime c.path || isSlice c.path) = true
    · exact List.mem_append_right _ (List.mem_filter.mpr ⟨hrev, hs⟩)
    · apply List.mem_append_left
      refine List.mem_filter.mpr ⟨hrev, ?_⟩
      rw [Bool.or_eq_true, not_or] at hs
      simp [hs.1, hs.2]
  · intro hh
    have hfirst : j.firstPass = j.plan.files.reverse.filter
        fun c => !(runtime c.path || isSlice c.path) := by
      unfold Journal.firstPass
      rw [hh]
      apply List.filter_congr
      intro c _
      simp
    have hperm := List.filter_append_perm (fun c : FileChange => runtime c.path || isSlice c.path)
      j.plan.files.reverse
    rw [hfirst]
    exact (List.perm_append_comm.trans hperm).trans (List.reverse_perm _)

/-- An uncommitted change stays recoverable, whatever fails, crashes or reboots: while one of its
files differs, its own journal is durable and past `staged`; a journal that ended uncommitted had
all its files restored; and a recovery that reports success has restored them all. -/
theorem uncommitted_recoverable {config : EngineConfig} {w : World}
    (h : Reachable config NoGiveUp w) :
    (∀ j, .staged j ∈ w.trace → Unfinished w j → ¬ Restored w.files j →
      ∃ d, w.pending = some d ∧ d.identity = j.identity ∧ d.phase ≠ .staged) ∧
    (∀ d files, .finished d false files ∈ w.trace → Restored files d) ∧
    ∀ d, w.pending = some d →
      ((∀ c ∈ d.plan.files, c ∈ d.firstPass ++ d.secondPass) ∧
        (d.handoff = none → (d.firstPass ++ d.secondPass).Perm d.plan.files)) ∧
      (w.authority.decides d = false → ∀ outcome script f,
        recoverLocked outcome ⟨w, script, d⟩ = (.ok (), f) → Undoes d outcome f.world) := by
  have hr := h.recoverable
  refine ⟨?_, hr.ended, fun d hp => ⟨passes_reach d, fun hu outcome script f hrun => ?_⟩⟩
  · intro j hj hopen hdiffers
    have hpending : ∃ d, w.pending = some d ∧ d.jobId = j.jobId := by
      rcases hopen with hp | hended
      · exact hp
      · exact (hr.durable j hj).resolve_right hended
    obtain ⟨d, hp, hid⟩ := hpending
    have hsame : d.identity = j.identity :=
      h.ledger.same d j (.inl hp) (.inr (.inl hj)) hid
    refine ⟨d, hp, hsame, ?_⟩
    intro hs
    exact hdiffers ((hr.staged d hp hs).congr hsame)
  · exact recoverLocked_undoes h.wf hr hp hu hrun

theorem studio_applied : Reachable studioConfig NoGiveUp (studio.run studioConfig studioApplied) :=
  (Reachable.init studio_initial).run studioApplied (by simp [studioApplied, NoGiveUp])

/-- Whether the pending change is uncommitted and reverts with success. -/
def reverts (w : World) : Bool :=
  match w.pending with
  | none => false
  | some d => !w.authority.decides d && (recoverLocked .reverted ⟨w, [], d⟩).1 == .ok ()

theorem reverts_spec {w : World} (h : reverts w = true) : ∃ d f, w.pending = some d ∧
    w.authority.decides d = false ∧ recoverLocked .reverted ⟨w, [], d⟩ = (.ok (), f) := by
  unfold reverts at h
  split at h
  · cases h
  · rename_i d hp
    simp only [Bool.and_eq_true, Bool.not_eq_true', beq_iff_eq] at h
    exact ⟨d, (recoverLocked .reverted ⟨w, [], d⟩).2, hp, h.1, Prod.ext h.2 rfl⟩

theorem uncommitted_recoverable_studio : ∃ d f,
    (studio.run studioConfig studioApplied).pending = some d ∧
      recoverLocked .reverted ⟨studio.run studioConfig studioApplied, [], d⟩ = (.ok (), f) ∧
        Undoes d .reverted f.world := by
  obtain ⟨d, f, hp, hu, hrun⟩ := reverts_spec (w := studio.run studioConfig studioApplied)
    (by decide +kernel)
  obtain ⟨_, _, hrecover⟩ := uncommitted_recoverable studio_applied
  exact ⟨d, f, hp, hrun, (hrecover d hp).2 hu .reverted [] f hrun⟩

/-- A device without a network, offered one by a releasing engine. -/
def receiver : World :=
  { studio with authority := {}, peerQuiesce := some "0123456789abcdef0123456789abcdef" }

/-- Stages and applies the transfer; the releasing engine's table is the one answer that differs. -/
def receiverApplied : List Step :=
  let answer : Answer := { text := studioId, document := ⟨studioNetwork "LAN", [], "tessera"⟩ }
  [.call (.commitHandoff ⟨.tessera, "0123456789abcdef0123456789abcdef"⟩ studioId none)
    (List.replicate 25 answer ++ { answer with table := some "old" } :: List.replicate 20 answer),
   .call (.runApplyJob studioId) []]

theorem receiver_applied :
    Reachable studioConfig NoGiveUp (receiver.run studioConfig receiverApplied) :=
  (Reachable.init ⟨rfl, rfl, rfl, rfl, by simp [receiver]⟩).run receiverApplied
    (by simp [receiverApplied, NoGiveUp])

/-- In a transfer the slices are in both passes. -/
theorem passes_once_false : ¬ ∀ (w : World) (d : Journal) (outcome : Phase) (script : List Answer)
    (f : Frame), Reachable studioConfig NoGiveUp w → w.pending = some d →
      w.authority.decides d = false → recoverLocked outcome ⟨w, script, d⟩ = (.ok (), f) →
        (d.firstPass ++ d.secondPass).Perm d.plan.files := by
  intro hclaim
  obtain ⟨d, f, hp, hu, hrun⟩ := reverts_spec (w := receiver.run studioConfig receiverApplied)
    (by decide +kernel)
  have hlength := (hclaim _ d .reverted [] f receiver_applied hp hu hrun).length_eq
  have htwice : ((receiver.run studioConfig receiverApplied).pending.any fun d =>
      (d.firstPass ++ d.secondPass).length != d.plan.files.length) = true := by
    decide +kernel
  rw [hp] at htwice
  simp only [Option.any_some, bne_iff_ne, ne_eq] at htwice
  exact htwice hlength

end NdimonR.Engine
