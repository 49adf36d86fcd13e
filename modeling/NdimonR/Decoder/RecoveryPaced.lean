import NdimonR.Decoder.EndpointsIsolated

/-! Endpoints are opened again two seconds apart, however the calls and failures fall. -/

namespace NdimonR.Decoder.AudioEngine

open Json Graph

variable {power : ℚ → ℚ}

namespace Control

variable {s s' : Control} {c : Call}

/-- The call opens an endpoint again, and not because its display appears. -/
def retries (c : Call) (s : Control) : Bool :=
  decide (1 ≤ c.output ∧ c.output ≤ 8) && s.engine.graph.any fun g =>
    s.sourceTargets c g ≠ [] || g.sinks.any fun k =>
      (s.targets c g).contains k.settings.id && !(s.appears c && s.hdmi k = c.output)

/-- A master that is opened again on time, or because its display is back. -/
theorem master_cases (h : s.Known) {g : Graph} (hg : s.engine.graph = some g) {k : Graph.Sink}
    (hmaster : g.master = some k) (hreopens : s.masterReopens c = true) :
    (s.reopenRequested = true ∧ s.retryDue c = true) ∨
      (s.appears c = true ∧ s.hdmi k = c.output) := by
  simp only [masterReopens, Bool.and_eq_true, Bool.or_eq_true, decide_eq_true_eq,
    Bool.not_eq_true'] at hreopens
  obtain ⟨hpresent, hrequested | ⟨hdisplay, hgone⟩⟩ := hreopens
  · exact .inl hrequested
  · right
    rw [h.present, Bool.or_eq_false_iff] at hgone
    simp only [masterPresent, hdisplay, decide_false, Bool.false_or, displays] at hpresent
    have hclock := h.output
    rw [hg, Option.bind_some, hmaster, Option.map_some, Option.getD_some] at hclock
    -- Only the call can have brought the display.
    by_cases hout : s.masterOutput = c.output
    · rw [hout, Function.update_self] at hpresent
      rw [hout] at hgone
      exact ⟨by simp [appears, hpresent, hgone.2], hclock.symm.trans hout⟩
    · rw [Function.update_of_ne hout, hgone.2] at hpresent
      cases hpresent

/-- A call retries on time, and only where the engine is on or its master has missed a period. -/
theorem retries_due (hpower : ∀ db, 0 ≤ power db) (h : Inv power s)
    (hretries : s.retries c = true) : 1 ≤ c.output ∧ c.output ≤ 8 ∧ s.retryDue c = true ∧
      ∃ g, s.engine.graph = some g ∧
        (g.settings.engine.enabled = true ∨ s.reopenRequested = true) := by
  simp only [retries, Bool.and_eq_true, decide_eq_true_eq] at hretries
  obtain ⟨⟨hlow, hhigh⟩, hsome⟩ := hretries
  obtain ⟨g, hg, hwhy⟩ := (Option.any_eq_true _ _).mp hsome
  suffices hdue : s.retryDue c = true ∧
      (g.settings.engine.enabled = true ∨ s.reopenRequested = true) from
    ⟨hlow, hhigh, hdue.1, g, hg, hdue.2⟩
  rcases Bool.or_eq_true_iff.mp hwhy with hsources | hsinks
  · have hsources : s.sourceTargets c g ≠ [] := of_decide_eq_true hsources
    unfold sourceTargets at hsources
    split_ifs at hsources with hdue
    · simp only [Bool.and_eq_true] at hdue
      exact ⟨hdue.1, .inl hdue.2⟩
    · exact absurd rfl hsources
  · obtain ⟨k, hk, hwhy⟩ := List.any_eq_true.mp hsinks
    simp only [Bool.and_eq_true, List.contains_iff_mem, Bool.not_eq_true', Bool.and_eq_false_imp,
      decide_eq_false_iff_not] at hwhy
    obtain ⟨hmem, hnot⟩ := hwhy
    have hplaced := (Engine.reachable_sound hpower h.engine).placed g hg
    rcases target_cases hplaced hk hmem with ⟨hreopens, hmaster⟩ | ⟨happears, hout, _⟩ |
      ⟨hdue, henabled, _⟩
    · rcases master_cases h.known hg hmaster hreopens with hrequested | ⟨happears, hout⟩
      · exact ⟨hrequested.2, .inr hrequested.1⟩
      · exact absurd hout (hnot happears)
    · exact absurd hout (hnot happears)
    · exact ⟨hdue, .inl henabled⟩

/-! ### Until the next retry -/

/-- Nothing is retried before this time. -/
def Quiet (time : ℤ) (s : Control) : Prop :=
  time ≤ s.nextRecovery ∨ (s.reopenRequested = false ∧
    ∀ g, s.engine.graph = some g → g.settings.engine.enabled = false)

theorem recover_clock (f : Factories) (sources sinks : List String) (g : Graph) (s : Control) :
    (s.recover power f sources sinks g).nextRecovery = s.nextRecovery ∧
      (s.recover power f sources sinks g).reopenRequested = s.reopenRequested := by
  unfold recover
  dsimp only
  cases ((s.released power sources sinks g).recoveryPlan sources sinks g).build power
      ((s.released power sources sinks g).surroundings f) <;> exact ⟨rfl, rfl⟩

/-- Whatever the factories do, a recovery publishes the settings that played. -/
theorem recover_settings {g : Graph} (hg : s.engine.graph = some g) (f : Factories)
    (sources sinks : List String) :
    (s.recover power f sources sinks g).engine.graph.map Graph.settings = some g.settings := by
  rcases @recover_cases power f sources sinks g s with ⟨next, hnext, hengine, _⟩ |
    ⟨e, _, hengine, _⟩
  · obtain ⟨built, hbuilds, rfl⟩ := Plan.build_ok hnext
    rw [hengine, Engine.publish, Option.map_some, (places_adopt _ _).settings,
      (places_inputs built).settings, hbuilds.settings]
    rfl
  · rw [hengine, released, Engine.publish, hg, Option.map_some,
      ((Engine.places_transition g sources sinks).trans (places_adopt _ _)).settings]

theorem call_settings (s : Control) (c : Call) :
    (s.setMasterFallback power c).engine.graph.map Graph.settings =
      s.engine.graph.map Graph.settings := by
  cases hg : s.engine.graph with
  | none =>
    unfold setMasterFallback
    rw [hg]
    dsimp only
    split_ifs
    · rw [hg]
    · rw [noted_engine, hg]
  | some g =>
    by_cases hreopens : s.reopens c = true
    · rw [call_reopens hg hreopens, recover_settings (by rw [noted_engine, hg]), Option.map_some]
    · rw [call_engine hg, if_neg hreopens, hg]

theorem noted_clock {g : Graph} (hg : s.engine.graph = some g) (c : Call) :
    (s.noted c).reopenRequested = false ∧ (s.noted c).nextRecovery =
      if s.retryDue c && g.settings.engine.enabled then c.now + 2000000000 else s.nextRecovery := by
  unfold noted
  rw [hg]
  exact ⟨rfl, rfl⟩

/-- What a call leaves of an engine that plays. -/
theorem call_clock {g : Graph} (hg : s.engine.graph = some g) (hlow : 1 ≤ c.output)
    (hhigh : c.output ≤ 8) : (s.setMasterFallback power c).reopenRequested = false ∧
      (s.setMasterFallback power c).nextRecovery =
        if s.retryDue c && g.settings.engine.enabled then c.now + 2000000000
        else s.nextRecovery := by
  obtain ⟨hrequested, hnext⟩ := noted_clock hg c
  unfold setMasterFallback
  rw [if_neg (by omega), hg]
  dsimp only
  by_cases hnone : s.targets c g = [] ∧ s.sourceTargets c g = []
  · rw [if_pos hnone]
    exact ⟨hrequested, hnext⟩
  · rw [if_neg hnone]
    obtain ⟨hclock, hflag⟩ := @recover_clock power c.factories (s.sourceTargets c g)
      (s.targets c g) g (s.noted c)
    exact ⟨hflag.trans hrequested, hclock.trans hnext⟩

/-- An engine that is off is off after a call. -/
theorem call_off {g : Graph} (hg : s.engine.graph = some g)
    (hoff : g.settings.engine.enabled = false) :
    ∀ g', (s.setMasterFallback power c).engine.graph = some g' →
      g'.settings.engine.enabled = false := by
  intro g' hg'
  have hsettings := @call_settings power s c
  rw [hg, hg', Option.map_some, Option.map_some] at hsettings
  rw [Option.some.inj hsettings, hoff]

theorem Quiet.call {time : ℤ} (h : Quiet time s) (c : Call) :
    Quiet time (s.setMasterFallback power c) := by
  by_cases hrange : c.output < 1 ∨ 8 < c.output
  · unfold setMasterFallback
    rw [if_pos hrange]
    exact h
  cases hg : s.engine.graph with
  | none =>
    unfold setMasterFallback noted
    rw [if_neg hrange, hg]
    exact h
  | some g =>
    obtain ⟨hrequested, hnext⟩ := @call_clock power s c g hg (by omega) (by omega)
    rcases h with hlater | ⟨_, hoff⟩
    · left
      rw [hnext]
      split_ifs with hdue
      · simp only [retryDue, Bool.and_eq_true, decide_eq_true_eq] at hdue
        omega
      · exact hlater
    · exact .inr ⟨hrequested, call_off hg (hoff g hg)⟩

theorem Quiet.event {time : ℤ} (h : Quiet time s) (hstep : Event power s s') : Quiet time s' := by
  cases hstep with
  | call c => exact h.call c
  | devices ready => exact h
  | @period g hg lines _ _ missed =>
    refine h.imp id fun ⟨hrequested, hoff⟩ => ⟨?_, fun g' hg' => ?_⟩
    · simp only [hrequested, hoff g hg, Bool.and_false, Bool.false_and, Bool.or_self]
    · cases hg'
      rw [(places_period g).settings]
      exact hoff g hg

theorem Quiet.run {time : ℤ} (h : Quiet time s) (hrun : Relation.ReflTransGen (Event power) s s') :
    Quiet time s' := by
  induction hrun with
  | refl => exact h
  | tail _ hstep ih => exact ih.event hstep

/-- A call that retries is followed by quiet. -/
theorem quiet_after (hpower : ∀ db, 0 ≤ power db) (h : Inv power s)
    (hretries : s.retries c = true) :
    Quiet (c.now + 2000000000) (s.setMasterFallback power c) := by
  obtain ⟨hlow, hhigh, hdue, g, hg, _⟩ := retries_due hpower h hretries
  obtain ⟨hrequested, hnext⟩ := @call_clock power s c g hg hlow hhigh
  rw [hdue, Bool.true_and] at hnext
  cases henabled : g.settings.engine.enabled with
  | true =>
    left
    rw [hnext, if_pos henabled]
  | false => exact .inr ⟨hrequested, call_off hg henabled⟩

theorem Quiet.retries {time : ℤ} (hpower : ∀ db, 0 ≤ power db) (hinv : Inv power s)
    (h : Quiet time s) (hretries : s.retries c = true) : time ≤ c.now := by
  obtain ⟨_, _, hdue, g, hg, hwhy⟩ := retries_due hpower hinv hretries
  rcases h with hlater | ⟨hrequested, hoff⟩
  · simp only [retryDue, decide_eq_true_eq] at hdue
    exact hlater.trans hdue
  · rw [hoff g hg, hrequested] at hwhy
    simp at hwhy

theorem Inv.run (h : Inv power s) (hrun : Relation.ReflTransGen (Event power) s s') :
    Inv power s' := by
  induction hrun with
  | refl => exact h
  | tail _ hstep ih => exact ih.event hstep

/-! ### Every run -/

theorem event_settings (hstep : Event power s s') :
    s'.engine.graph.map Graph.settings = s.engine.graph.map Graph.settings := by
  cases hstep with
  | call c => exact call_settings s c
  | devices ready => rfl
  | @period g hg lines _ _ missed =>
    rw [hg]
    exact congrArg some (places_period g).settings

theorem run_settings (hrun : Relation.ReflTransGen (Event power) s s') :
    s'.engine.graph.map Graph.settings = s.engine.graph.map Graph.settings := by
  induction hrun with
  | refl => rfl
  | tail _ hstep ih => exact (event_settings hstep).trans ih

/-- However calls, failures and periods follow each other, the settings stay, what is retried waits
for two seconds, and a call leaves every endpoint what it should exactly where its factories grant
it. -/
theorem recovery_isolated (hpower : ∀ db, 0 ≤ power db) (hs : Reachable power s)
    (hrun : Relation.ReflTransGen (Event power) s s') :
    s'.engine.graph.map Graph.settings = s.engine.graph.map Graph.settings ∧
      (∀ c g, s'.engine.graph = some g → ∃ g',
        (s'.setMasterFallback power c).engine.graph = some g' ∧
          (Isolated power c s' g g' ↔ Granted c s' g)) ∧
      ∀ c, s'.retries c = true → ∀ u,
        Relation.ReflTransGen (Event power) (s'.setMasterFallback power c) u →
        ∀ d, u.retries d = true → c.now + 2000000000 ≤ d.now := by
  have hinv := hs.inv.run hrun
  refine ⟨run_settings hrun, fun c g hg => call_isolated hpower hinv hg c,
    fun c hretries u hu d hagain => ?_⟩
  exact ((quiet_after hpower hinv hretries).run hu).retries hpower ((hinv.call c).run hu) hagain

/-! ### Two sinks that fail at once -/

/-- HDMI and a USB device. -/
def paired : AudioSettings :=
  { sinks := [{ id := "hdmi", type := "alsa", alsaPcm := "auto" },
      { id := "usb", type := "alsa", alsaPcm := "hw:1" }] }

def failing : Control :=
  { ({} : Control).apply level allOpen paired with ready := fun a => a.kind = .source }

def failingGraph : Graph := failing.engine.graph.get (by decide)

theorem failing_reachable : Reachable level failing :=
  .tail (.single (.apply {} allOpen paired)) (.event (.devices _ _))

/-- HDMI can be opened again, the USB device as its factory says. -/
def poll (usb : Made) : Call where
  output := 1
  present := true
  now := 0
  factories :=
    { source := fun _ => .ready
      sink := fun x => if x.id = "usb" then usb else .ready }

theorem level_nonneg (db : ℚ) : 0 ≤ level db := by
  unfold level
  decide

/-- Both are live once both can be opened, and neither is opened again for two seconds. -/
theorem failing_recovers : (∃ g',
      (failing.setMasterFallback level (poll .ready)).engine.graph = some g' ∧
        Isolated level (poll .ready) failing failingGraph g') ∧
    ∀ u, Relation.ReflTransGen (Event level) (failing.setMasterFallback level (poll .ready)) u →
      ∀ d, u.retries d = true → 2000000000 ≤ d.now := by
  obtain ⟨_, hcalls, hpaced⟩ := recovery_isolated level_nonneg failing_reachable .refl
  obtain ⟨g', hg', hiff⟩ := hcalls (poll .ready) failingGraph (Option.some_get _).symm
  refine ⟨⟨g', hg', hiff.mpr (by decide)⟩, fun u hu d hagain => ?_⟩
  have hlater := hpaced (poll .ready) (by decide) u hu d hagain
  simpa [poll] using hlater

/-- HDMI could be opened, but the USB device is busy. -/
theorem busy_spreads : ∃ s : Control, Reachable level s ∧ ∃ c g g', s.engine.graph = some g ∧
    (s.setMasterFallback level c).engine.graph = some g' ∧ ¬Isolated level c s g g' := by
  have hg : failing.engine.graph = some failingGraph := (Option.some_get _).symm
  obtain ⟨g', hg', hiff⟩ :=
    call_isolated level_nonneg failing_reachable.inv hg (poll .busy)
  exact ⟨failing, failing_reachable, poll .busy, failingGraph, g', hg, hg',
    fun isolated => absurd (hiff.mp isolated) (by decide)⟩

end Control

end NdimonR.Decoder.AudioEngine
