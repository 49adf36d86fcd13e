import NdimonR.Decoder.RecoveryGains

/-! What holds of every engine that is reached, and the graph that plays while a recovery waits for
its devices. -/

namespace NdimonR.Decoder.AudioEngine

open Json Graph

variable {power : ℚ → ℚ}

namespace Control

variable {s : Control} {c : Call}

/-! ### What a call asks for -/

/-- The call opens endpoints again. -/
def reopens (c : Call) (s : Control) : Bool :=
  decide (1 ≤ c.output ∧ c.output ≤ 8) && s.engine.graph.any fun g =>
    s.targets c g ≠ [] || s.sourceTargets c g ≠ []

/-- The factory of a source is asked: it is opened again, or has no device. -/
def asksSource (c : Call) (g : Graph) (s : Control) (x : SourceSettings) : Bool :=
  s.reopens c && !Plan.revoked (s.surroundings c.factories) x &&
    g.sources.all fun o => o.settings.id ≠ x.id || o.placeholder ||
      (s.sourceTargets c g).contains x.id

def asksSink (c : Call) (g : Graph) (s : Control) (x : SinkSettings) : Bool :=
  s.reopens c && g.sinks.all fun k => k.settings.id ≠ x.id || k.placeholder ||
    (s.targets c g).contains x.id

/-- The failed devices are closed, and the others play on. -/
def waiting (power : ℚ → ℚ) (c : Call) (g : Graph) (s : Control) : Control :=
  (s.noted c).released power (s.sourceTargets c g) (s.targets c g) g

def waitingPlan (power : ℚ → ℚ) (c : Call) (g : Graph) (s : Control) : Plan :=
  (s.waiting power c g).recoveryPlan (s.sourceTargets c g) (s.targets c g) g

/-- While the factory of an endpoint is asked, no graph has a device for it. -/
structure ClosedFirst (p : Plan) (env : Surroundings) (t : Graph) : Prop where
  sources : ∀ x ∈ p.settings.sources, p.asksSource env x = true →
    ∀ o ∈ t.sources, o.settings.id = x.id → o.placeholder = true
  sinks : ∀ x ∈ p.settings.sinks, p.asksSink x = true →
    ∀ k ∈ t.sinks, k.settings.id = x.id → k.placeholder = true

/-! ### The invariant -/

end Control

/-- The graph an engine plays could be built once more, and its buffers are from before. -/
structure Engine.Fit (primary : ℕ) (e : Engine) : Prop where
  coherent : ∀ g, e.graph = some g → g.Coherent primary
  buffers : ∀ g, e.graph = some g → ∀ k ∈ g.sinks, k.buffer.address.built < e.built

namespace Engine

variable {e : Engine} {primary : ℕ}

theorem built_buffers {p : Plan} {env : Surroundings} {g : Graph}
    (hbase : ∀ base, p.base = some base → ∀ k ∈ base.sinks, k.buffer.address.built < p.built)
    (hg : p.build power env = .ok g) : ∀ k ∈ g.sinks, k.buffer.address.built < p.built + 1 := by
  intro k hk
  obtain ⟨_, _, sources, sinks, routes, _, hsinks, _, rfl⟩ := Plan.build_eq_ok.mp hg
  obtain ⟨made, hmade, hplace⟩ := (places_inputs _).sink_mem hk
  simp only [Sink.place, Prod.mk.injEq] at hplace
  rw [← hplace.2.1]
  obtain ⟨x, _, hx⟩ := Outcome.mem_of_forall₂ (Outcome.mapM_eq_ok.mp hsinks).flip hmade
  have hx : p.makeSink env x = .ok made := hx
  rw [Plan.makeSink_eq] at hx
  cases hprior : p.priorSink x with
  | some prior =>
    rw [hprior] at hx
    cases hx
    unfold Plan.priorSink at hprior
    split_ifs at hprior
    obtain ⟨base, hb, hfound⟩ := Option.bind_eq_some_iff.mp hprior
    obtain ⟨o, ho, rfl⟩ := Option.map_eq_some_iff.mp hfound
    exact Nat.lt_succ_of_lt (hbase base hb o (List.mem_of_find?_eq_some ho))
  | none =>
    rw [hprior] at hx
    dsimp only at hx
    split at hx
    · cases hx
      exact Nat.lt_succ_self _
    · cases hx
    · cases hx

theorem Fit.publish (h : e.Fit primary) {p : Plan} (hbuilt : p.built = e.built)
    (hbase : ∀ base, p.base = some base → e.graph = some base) {env : Surroundings}
    (hprimary : env.primary = primary) {g : Graph} (hg : p.build power env = .ok g) :
    (e.publish g).Fit primary where
  coherent g' hg' := by
    cases hg'
    exact (hprimary ▸ Plan.build_coherent hg).same (places_adopt _ _)
  buffers g' hg' k hk := by
    cases hg'
    obtain ⟨k₀, hk₀, hplace⟩ := (places_adopt e.graph g).sink_mem hk
    simp only [Sink.place, Prod.mk.injEq] at hplace
    rw [← hplace.2.1]
    have hlt := built_buffers (fun base hb k hk => by
      rw [hbuilt]
      exact h.buffers base (hbase base hb) k hk) hg k₀ hk₀
    rwa [hbuilt] at hlt

theorem Fit.apply (h : e.Fit primary) {env : Surroundings} (hprimary : env.primary = primary)
    (s : AudioSettings) : (e.apply power env s).Fit primary := by
  rcases @apply_cases power e env s with heq | ⟨s', g, hg, heq⟩
  · rw [heq]
    exact h
  · rw [heq]
    exact h.publish rfl (fun base hb => (plan_base hb).1) hprimary hg

/-- The places of the graph that waits for its devices are those of the graph before. -/
theorem places_transition (g : Graph) (sources sinks : List String) :
    SamePlaces g (transition power g sources sinks) := by
  have same : SamePlaces g { g with
      sources := g.sources.map fun s =>
        { s with placeholder := s.placeholder || sources.contains s.settings.id }
      sinks := g.sinks.map fun s =>
        { s with placeholder := s.placeholder || sinks.contains s.settings.id } } :=
    ⟨rfl, by simp [Function.comp_def, Source.place], by simp [Function.comp_def, Sink.place], rfl⟩
  exact same.trans (places_inputs _)

theorem Fit.transition (h : e.Fit primary) {g : Graph} (hg : e.graph = some g)
    (sources sinks : List String) :
    (e.publish (transition power g sources sinks)).Fit primary where
  coherent t ht := by
    cases ht
    exact (h.coherent g hg).same ((places_transition g sources sinks).trans (places_adopt _ _))
  buffers t ht k hk := by
    cases ht
    obtain ⟨k₀, hk₀, hplace⟩ :=
      ((places_transition g sources sinks).trans (places_adopt e.graph _)).sink_mem hk
    simp only [Sink.place, Prod.mk.injEq] at hplace
    rw [← hplace.2.1]
    exact Nat.lt_succ_of_lt (h.buffers g hg k₀ hk₀)

theorem Fit.recover (h : e.Fit primary) {env : Surroundings} (hprimary : env.primary = primary)
    (sources sinks : List String) : (e.recover power env sources sinks).Fit primary := by
  unfold Engine.recover
  split
  · exact h
  · rename_i g hg
    have hbetween := @Fit.transition power e primary h g hg sources sinks
    dsimp only
    split
    · rename_i next hnext
      refine hbetween.publish ?_ (fun base hb => ?_) hprimary hnext
      · rfl
      · exact (plan_base hb).1
    · exact hbetween

theorem Fit.period (h : e.Fit primary) {g : Graph} (hg : e.graph = some g) (lines : Graph.Lines) :
    ({ e with
      graph := some g.period
      lines := lines } : Engine).Fit primary where
  coherent g' hg' := by
    cases hg'
    exact (h.coherent g hg).same (places_period g)
  buffers g' hg' k hk := by
    cases hg'
    obtain ⟨k₀, hk₀, hplace⟩ := (places_period g).sink_mem hk
    simp only [Sink.place, Prod.mk.injEq] at hplace
    rw [← hplace.2.1]
    exact h.buffers g hg k₀ hk₀

end Engine

namespace Control

variable {s : Control} {c : Call}

/-- What is said of the master's display is so. -/
structure Known (s : Control) : Prop where
  output : s.masterOutput = ((s.engine.graph.bind Graph.master).map s.hdmi).getD 0
  present : s.hdmiPresent = (decide (s.masterOutput = 0) || s.displayPresent s.masterOutput)

/-- Two graphs with the same places have the master at the same display. -/
theorem clock_same {g g' : Graph} (same : SamePlaces g g') (s : Control) :
    (g.master.map s.hdmi).getD 0 = (g'.master.map s.hdmi).getD 0 := by
  have hmap : ∀ g : Graph, g.master.map s.hdmi =
      ((g.sinks.map Sink.settings).find? fun x => x.id = g.settings.engine.master && x.enabled).map
        fun x => hdmiOutput x s.primaryOutput := by
    intro g
    rw [List.find?_map, Option.map_map]
    rfl
  rw [hmap, hmap, sinks_settings_eq, sinks_settings_eq, same.sinks, same.settings]

structure Inv (power : ℚ → ℚ) (s : Control) : Prop where
  engine : s.engine.Reachable power
  fit : s.engine.Fit s.primaryOutput
  known : s.Known

theorem follow_engine (s : Control) : s.follow.engine = s.engine := rfl

theorem noted_engine (c : Call) (s : Control) : (s.noted c).engine = s.engine := by
  unfold noted
  dsimp only
  split <;> rfl

theorem noted_ready (c : Call) (s : Control) : (s.noted c).ready = s.ready := by
  unfold noted
  dsimp only
  split <;> rfl

theorem noted_surroundings (c : Call) (s : Control) (f : Factories) :
    (s.noted c).surroundings f = s.surroundings f := by
  unfold noted
  dsimp only
  split <;> rfl

theorem recover_cases (f : Factories) (sources sinks : List String) (g : Graph) (s : Control) :
    (∃ next, ((s.released power sources sinks g).recoveryPlan sources sinks g).build power
        (s.surroundings f) = .ok next ∧
      (s.recover power f sources sinks g).engine =
        (s.released power sources sinks g).engine.publish next ∧
      (s.recover power f sources sinks g).ready =
        fun a => if a.built = (s.released power sources sinks g).engine.built then
          freshReady f next a else s.ready a) ∨
    ∃ refusal, ((s.released power sources sinks g).recoveryPlan sources sinks g).build power
        (s.surroundings f) = .error refusal ∧
      (s.recover power f sources sinks g).engine = (s.released power sources sinks g).engine ∧
      (s.recover power f sources sinks g).ready = s.ready := by
  unfold recover
  dsimp only
  cases hbuild : ((s.released power sources sinks g).recoveryPlan sources sinks g).build power
      ((s.released power sources sinks g).surroundings f) with
  | ok next => exact .inl ⟨next, hbuild, rfl, rfl⟩
  | error refusal => exact .inr ⟨refusal, hbuild, rfl, rfl⟩

theorem recover_engine {g : Graph} (hg : s.engine.graph = some g) (f : Factories)
    (sources sinks : List String) : (s.recover power f sources sinks g).engine =
      s.engine.recover power (s.surroundings f) sources sinks := by
  unfold Engine.recover
  rw [hg]
  dsimp only
  rcases recover_cases f sources sinks g s with ⟨next, hnext, hengine, _⟩ | ⟨e, he, hengine, _⟩
  · rw [hengine]
    split
    · rename_i next' hnext'
      rw [Except.ok.inj (hnext.symm.trans hnext')]
      rfl
    · rename_i e he
      exact absurd (hnext.symm.trans he) (by simp)
  · rw [hengine]
    split
    · rename_i next hnext
      exact absurd (he.symm.trans hnext) (by simp)
    · rfl

/-- The engine after a call. -/
theorem call_engine {g : Graph} (hg : s.engine.graph = some g) :
    (s.setMasterFallback power c).engine =
      if s.reopens c = true then
        s.engine.recover power (s.surroundings c.factories) (s.sourceTargets c g) (s.targets c g)
      else s.engine := by
  unfold setMasterFallback reopens
  by_cases hrange : c.output < 1 ∨ 8 < c.output
  · rw [if_pos hrange, if_neg]
    simp only [Bool.and_eq_true, decide_eq_true_eq]
    omega
  · rw [if_neg hrange, hg]
    have hin : decide (1 ≤ c.output ∧ c.output ≤ 8) = true := by
      rw [decide_eq_true_eq]
      omega
    dsimp only
    rw [hin, Bool.true_and, Option.any_some]
    by_cases hnone : s.targets c g = [] ∧ s.sourceTargets c g = []
    · rw [if_pos hnone, if_neg (by simp [hnone]), noted_engine]
    · rw [if_neg hnone, if_pos]
      · rw [recover_engine (by rw [noted_engine, hg]), noted_engine, noted_surroundings]
      · simp only [Bool.or_eq_true, decide_eq_true_eq]
        exact not_and_or.mp hnone

theorem Inv.new : Inv power {} where
  engine := .refl
  fit := ⟨fun _ h => (by cases h), fun _ h => (by cases h)⟩
  known := ⟨rfl, rfl⟩

theorem noted_primary (c : Call) (s : Control) : (s.noted c).primaryOutput = s.primaryOutput := by
  unfold noted
  dsimp only
  split <;> rfl

theorem noted_known (h : s.Known) (c : Call) : (s.noted c).Known where
  output := by
    have hhdmi : (s.noted c).hdmi = s.hdmi := by
      unfold Control.hdmi
      rw [noted_primary]
    rw [noted_engine, hhdmi, ← h.output]
    unfold noted
    dsimp only
    split <;> rfl
  present := by
    unfold noted
    dsimp only
    split <;> rfl

theorem recover_primary (f : Factories) (sources sinks : List String) (g : Graph) (s : Control) :
    (s.recover power f sources sinks g).primaryOutput = s.primaryOutput := by
  unfold recover
  dsimp only
  cases ((s.released power sources sinks g).recoveryPlan sources sinks g).build power
      ((s.released power sources sinks g).surroundings f) <;> rfl

theorem follow_known (s : Control) : s.follow.Known := ⟨rfl, rfl⟩

/-- The master plays to the same display while the graph waits for its devices. -/
theorem released_known (h : s.Known) {g : Graph} (hg : s.engine.graph = some g)
    (sources sinks : List String) : (s.released power sources sinks g).Known where
  output := by
    refine h.output.trans ?_
    rw [hg]
    exact clock_same ((Engine.places_transition g sources sinks).trans (places_adopt _ _)) s
  present := h.present

theorem recover_known (h : s.Known) {g : Graph} (hg : s.engine.graph = some g) (f : Factories)
    (sources sinks : List String) : (s.recover power f sources sinks g).Known := by
  have hreleased := @released_known power s h g hg sources sinks
  unfold recover
  dsimp only
  cases ((s.released power sources sinks g).recoveryPlan sources sinks g).build power
      ((s.released power sources sinks g).surroundings f) with
  | ok next => exact follow_known _
  | error refusal => exact ⟨hreleased.output, hreleased.present⟩

theorem Inv.recover (h : Inv power s) {g : Graph} (hg : s.engine.graph = some g) (f : Factories)
    (sources sinks : List String) : Inv power (s.recover power f sources sinks g) where
  engine := by
    rw [recover_engine hg]
    exact h.engine.tail (.recover _ _ _ _)
  fit := by
    rw [recover_engine hg, recover_primary]
    exact h.fit.recover rfl sources sinks
  known := recover_known h.known hg f sources sinks

theorem Inv.noted (h : Inv power s) (c : Call) : Inv power (s.noted c) where
  engine := by
    rw [noted_engine]
    exact h.engine
  fit := by
    rw [noted_engine, noted_primary]
    exact h.fit
  known := noted_known h.known c

theorem Inv.call (h : Inv power s) (c : Call) : Inv power (s.setMasterFallback power c) := by
  unfold setMasterFallback
  split_ifs
  · exact h
  · split
    · exact h.noted c
    · rename_i g hg
      dsimp only
      split_ifs
      · exact h.noted c
      · exact (h.noted c).recover (by rw [noted_engine, hg]) c.factories _ _

theorem Inv.apply (h : Inv power s) (env : Surroundings) (settings : AudioSettings) :
    Inv power (s.apply power env settings) := by
  unfold Control.apply
  dsimp only
  split_ifs
  · exact h
  · exact ⟨h.engine.tail (.apply _ _ _), h.fit.apply rfl settings, follow_known _⟩

theorem Inv.event (h : Inv power s) {s' : Control} (hstep : Event power s s') : Inv power s' := by
  cases hstep with
  | call c => exact h.call c
  | devices ready => exact ⟨h.engine, h.fit, ⟨h.known.output, h.known.present⟩⟩
  | period hg lines processed others missed =>
    refine ⟨h.engine.tail (.period hg lines processed others), h.fit.period hg lines, ?_,
      h.known.present⟩
    refine h.known.output.trans ?_
    rw [hg]
    exact clock_same (places_period _) s

theorem Inv.step (h : Inv power s) {s' : Control} (hstep : Step power s s') : Inv power s' := by
  cases hstep with
  | event hevent => exact h.event hevent
  | apply env settings => exact h.apply env settings
  | setPrimaryOutput output =>
    unfold Control.setPrimaryOutput
    split_ifs with hrefused
    · exact h
    · have hnone : s.engine.graph = none := by
        simp only [not_or, Option.isSome_iff_ne_none, not_not] at hrefused
        exact hrefused.2.2
      refine ⟨h.engine, ⟨fun g hg => ?_, fun g hg => ?_⟩, ?_, h.known.present⟩
      · exact absurd (hnone.symm.trans hg) (by simp)
      · exact absurd (hnone.symm.trans hg) (by simp)
      · refine h.known.output.trans ?_
        rw [hnone]
        rfl
  | unregisterNdi env output =>
    unfold Control.unregisterNdi
    split_ifs
    · exact h
    · have hrevoked : Inv power { s with
          registered := Function.update s.registered output false } :=
        ⟨h.engine, h.fit, ⟨h.known.output, h.known.present⟩⟩
      dsimp only
      split
      · exact hrevoked
      · exact hrevoked.apply env _

theorem Reachable.inv (h : Reachable power s) : Inv power s := by
  induction h with
  | refl => exact Inv.new
  | tail _ hstep ih => exact ih.step hstep

/-! ### While the devices are opened -/

/-- The graph that waits for its devices: the one before, without those that are opened again. -/
structure Waits (power : ℚ → ℚ) (c : Call) (s : Control) (g t : Graph) : Prop where
  graph : (s.waiting power c g).engine.graph = some t
  sound : (s.waiting power c g).engine.Sound power
  recovers : (s.waitingPlan power c g).Recovers s.primaryOutput t
  same : SamePlaces g t
  sources : t.sources.map Source.device = g.sources.map fun o => (o.settings,
    o.placeholder || (s.sourceTargets c g).contains o.settings.id, o.buffer, o.delay)
  sinks : t.sinks.map Sink.device = g.sinks.map fun k => (k.settings,
    k.placeholder || (s.targets c g).contains k.settings.id, k.buffer, k.delay)
  goesOn : ∀ block, GoesOn g t block

theorem transition_devices (g : Graph) (sources sinks : List String) (old : Option Graph) :
    (((Engine.transition power g sources sinks).adopt old).sources.map Source.device =
      g.sources.map fun o => (o.settings, o.placeholder || sources.contains o.settings.id,
        o.buffer, o.delay)) ∧
    ((Engine.transition power g sources sinks).adopt old).sinks.map Sink.device =
      g.sinks.map fun k => (k.settings, k.placeholder || sinks.contains k.settings.id,
        k.buffer, k.delay) := by
  have hdevices := (@devices_inputs power { g with
    sources := g.sources.map fun s =>
      { s with placeholder := s.placeholder || sources.contains s.settings.id }
    sinks := g.sinks.map fun s =>
      { s with placeholder := s.placeholder || sinks.contains s.settings.id } }).trans
    (devices_adopt old _)
  refine ⟨hdevices.sources.trans ?_, hdevices.sinks.trans ?_⟩
  · simp [Function.comp_def, Source.device]
  · simp [Function.comp_def, Sink.device]

theorem needsRestart_self (s : AudioSettings) : needsRestart s s = false := by simp [needsRestart]

theorem Inv.waits (hpower : ∀ db, 0 ≤ power db) (h : Inv power s) {g : Graph}
    (hg : s.engine.graph = some g) (c : Call) : ∃ t, Waits power c s g t := by
  have hengine : (s.waiting power c g).engine = s.engine.publish
      (Engine.transition power g (s.sourceTargets c g) (s.targets c g)) := by
    rw [waiting, released, noted_engine]
  have hbefore := Engine.reachable_sound hpower h.engine
  have hsound := Engine.transition_sound hpower hbefore hg (s.sourceTargets c g) (s.targets c g)
  have hfit := @Engine.Fit.transition power _ _ h.fit g hg (s.sourceTargets c g) (s.targets c g)
  rw [← hengine] at hsound hfit
  have hgraph : (s.waiting power c g).engine.graph = some ((Engine.transition power g
      (s.sourceTargets c g) (s.targets c g)).adopt (some g)) := by
    rw [hengine, Engine.publish, hg]
  have hsame : SamePlaces g ((Engine.transition power g (s.sourceTargets c g)
      (s.targets c g)).adopt (some g)) :=
    (Engine.places_transition g _ _).trans (places_adopt _ _)
  obtain ⟨hsources, hsinks⟩ := @transition_devices power g (s.sourceTargets c g)
    (s.targets c g) (some g)
  refine ⟨_, hgraph, hsound, ⟨?_, hsame.settings.symm, ?_, hfit.coherent _ hgraph, ?_, ?_⟩, hsame,
    hsources, hsinks, fun block => ?_⟩
  · change Option.filter (fun t => !needsRestart t.settings g.settings)
      (s.waiting power c g).engine.graph = _
    refine Option.filter_eq_some_iff.mpr ⟨hgraph, ?_⟩
    rw [hsame.settings, needsRestart_self]
    rfl
  · exact hsound.placed _ hgraph
  · intro o ho hmem
    have hmem : o.settings.id ∈ s.sourceTargets c g := hmem
    have hdevice := List.mem_map_of_mem (f := Source.device) ho
    rw [hsources] at hdevice
    obtain ⟨o', _, heq⟩ := List.mem_map.mp hdevice
    simp only [Source.device, Prod.mk.injEq] at heq
    rw [← heq.2.1, heq.1, List.contains_iff_mem.mpr hmem, Bool.or_true]
  · intro k hk hmem
    have hmem : k.settings.id ∈ s.targets c g := hmem
    have hdevice := List.mem_map_of_mem (f := Sink.device) hk
    rw [hsinks] at hdevice
    obtain ⟨k', _, heq⟩ := List.mem_map.mp hdevice
    simp only [Sink.device, Prod.mk.injEq] at heq
    rw [← heq.2.1, heq.1, List.contains_iff_mem.mpr hmem, Bool.or_true]
  · exact goesOn_places (hbefore.placed g hg) (hbefore.mixes g hg) (hsound.mixes _ hgraph) hsame block

namespace Waits

variable {g t : Graph}

theorem source_mem (h : Waits power c s g t) {o : Graph.Source} (ho : o ∈ g.sources) :
    ∃ o' ∈ t.sources, o'.device = (o.settings,
      o.placeholder || (s.sourceTargets c g).contains o.settings.id, o.buffer, o.delay) := by
  have hmem := List.mem_map_of_mem (f := fun o : Graph.Source => (o.settings,
    o.placeholder || (s.sourceTargets c g).contains o.settings.id, o.buffer, o.delay)) ho
  rw [← h.sources] at hmem
  exact List.mem_map.mp hmem

theorem sink_mem (h : Waits power c s g t) {k : Graph.Sink} (hk : k ∈ g.sinks) :
    ∃ k' ∈ t.sinks, k'.device = (k.settings,
      k.placeholder || (s.targets c g).contains k.settings.id, k.buffer, k.delay) := by
  have hmem := List.mem_map_of_mem (f := fun k : Graph.Sink => (k.settings,
    k.placeholder || (s.targets c g).contains k.settings.id, k.buffer, k.delay)) hk
  rw [← h.sinks] at hmem
  exact List.mem_map.mp hmem

/-- The plan asks for what the call says. -/
theorem asksSource_iff (h : Waits power c s g t) (hreopens : s.reopens c = true)
    {x : SourceSettings} (hx : x ∈ g.settings.sources) :
    (s.waitingPlan power c g).asksSource (s.surroundings c.factories) x = true ↔
      s.asksSource c g x = true := by
  have hx : x ∈ (s.waitingPlan power c g).settings.sources := hx
  rw [h.recovers.asksSource_iff hx]
  simp only [asksSource, hreopens, Bool.true_and, Bool.and_eq_true, Bool.not_eq_true',
    List.all_eq_true, Bool.or_eq_true, decide_eq_true_eq]
  refine and_congr_right fun _ => ⟨fun hall o ho => ?_, fun hall o' ho' hid => ?_⟩
  · by_cases hid : o.settings.id = x.id
    · obtain ⟨o', ho', hdevice⟩ := h.source_mem ho
      simp only [Source.device, Prod.mk.injEq] at hdevice
      have hplaceholder := hall o' ho' (by rw [hdevice.1, hid])
      rw [hdevice.2.1, hid, Bool.or_eq_true] at hplaceholder
      exact hplaceholder.elim (fun h => .inl (.inr h)) .inr
    · exact .inl (.inl hid)
  · have hmem := List.mem_map_of_mem (f := Source.device) ho'
    rw [h.sources] at hmem
    obtain ⟨o, ho, hdevice⟩ := List.mem_map.mp hmem
    simp only [Source.device, Prod.mk.injEq] at hdevice
    rw [← hdevice.1] at hid
    rw [← hdevice.2.1, hid, Bool.or_eq_true]
    exact (hall o ho).elim (fun h => .inl (h.resolve_left (fun hne => hne hid))) .inr

theorem asksSink_iff (h : Waits power c s g t) (hreopens : s.reopens c = true)
    {x : SinkSettings} (hx : x ∈ g.settings.sinks) :
    (s.waitingPlan power c g).asksSink x = true ↔ s.asksSink c g x = true := by
  have hx : x ∈ (s.waitingPlan power c g).settings.sinks := hx
  rw [h.recovers.asksSink_iff hx]
  simp only [asksSink, hreopens, Bool.true_and, List.all_eq_true, Bool.or_eq_true,
    decide_eq_true_eq]
  refine ⟨fun hall k hk => ?_, fun hall k' hk' hid => ?_⟩
  · by_cases hid : k.settings.id = x.id
    · obtain ⟨k', hk', hdevice⟩ := h.sink_mem hk
      simp only [Sink.device, Prod.mk.injEq] at hdevice
      have hplaceholder := hall k' hk' (by rw [hdevice.1, hid])
      rw [hdevice.2.1, hid, Bool.or_eq_true] at hplaceholder
      exact hplaceholder.elim (fun h => .inl (.inr h)) .inr
    · exact .inl (.inl hid)
  · have hmem := List.mem_map_of_mem (f := Sink.device) hk'
    rw [h.sinks] at hmem
    obtain ⟨k, hk, hdevice⟩ := List.mem_map.mp hmem
    simp only [Sink.device, Prod.mk.injEq] at hdevice
    rw [← hdevice.1] at hid
    rw [← hdevice.2.1, hid, Bool.or_eq_true]
    exact (hall k hk).elim (fun h => .inl (h.resolve_left (fun hne => hne hid))) .inr

theorem closedFirst (h : Waits power c s g t) :
    ClosedFirst (s.waitingPlan power c g) (s.surroundings c.factories) t where
  sources _ hx asks := ((h.recovers.asksSource_iff hx).mp asks).2
  sinks _ hx asks := (h.recovers.asksSink_iff hx).mp asks

end Waits

end Control

end NdimonR.Decoder.AudioEngine
