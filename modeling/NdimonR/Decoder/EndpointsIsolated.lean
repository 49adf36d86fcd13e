import NdimonR.Decoder.RecoveryWaits

/-! Recovering an endpoint leaves the others alone, as long as the factories that are asked all give
a device: one that refuses leaves every endpoint of the call without its own. -/

namespace NdimonR.Decoder.AudioEngine

open Json Graph

variable {power : ℚ → ℚ}

namespace Control

variable {s : Control} {c : Call}

/-! ### What should hold of a call -/

/-- What the call of a playing engine should do: its settings stay, endpoints that are ready keep
their devices, endpoints whose factory gives a ready device are live, and devices are closed before
others are opened in their place. -/
structure Isolated (power : ℚ → ℚ) (c : Call) (s : Control) (g g' : Graph) : Prop where
  settings : g'.settings = g.settings
  sources : ∀ o ∈ g.sources, o.settings.enabled = true → s.sourceReady o = true →
    (∃ o' ∈ g'.sources, o'.device = o.device ∧
      (s.setMasterFallback power c).sourceReady o' = true) ∧
    ∀ block ∈ g.blocksOf o, GoesOn g g' block
  sinks : ∀ k ∈ g.sinks, k.settings.enabled = true → s.sinkReady k = true →
    (s.masterReopens c && g.master = some k) = false →
    ∃ k' ∈ g'.sinks, k'.device = k.device ∧ (s.setMasterFallback power c).sinkReady k' = true
  liveSources : ∀ x ∈ g.settings.sources, s.asksSource c g x = true →
    c.factories.source x = .ready →
    ∃ o' ∈ g'.sources, o'.settings = x ∧ (s.setMasterFallback power c).sourceReady o' = true
  liveSinks : ∀ x ∈ g.settings.sinks, s.asksSink c g x = true → c.factories.sink x = .ready →
    ∃ k' ∈ g'.sinks, k'.settings = x ∧ (s.setMasterFallback power c).sinkReady k' = true
  closed : ∀ t, (s.waiting power c g).engine.graph = some t →
    ClosedFirst (s.waitingPlan power c g) (s.surroundings c.factories) t

/-- A factory that the call asks gives no device. -/
def Refused (c : Call) (g : Graph) (s : Control) : Prop :=
  (∃ x ∈ g.settings.sources, s.asksSource c g x = true ∧ (c.factories.source x).refuses = true) ∨
    ∃ x ∈ g.settings.sinks, s.asksSink c g x = true ∧ (c.factories.sink x).refuses = true

/-- A factory that the call asks gives a device that is ready. -/
def Gained (c : Call) (g : Graph) (s : Control) : Prop :=
  (∃ x ∈ g.settings.sources, s.asksSource c g x = true ∧ c.factories.source x = .ready) ∨
    ∃ x ∈ g.settings.sinks, s.asksSink c g x = true ∧ c.factories.sink x = .ready

/-- A factory refuses only where none gives a ready device, and the graph is built without an
endpoint that is ready only where its receiver is there. -/
structure Granted (c : Call) (s : Control) (g : Graph) : Prop where
  refused : s.Refused c g → ¬s.Gained c g
  registered : s.reopens c = true → ¬s.Refused c g → ∀ o ∈ g.sources,
    o.settings.enabled = true → s.sourceReady o = true →
    Plan.revoked (s.surroundings c.factories) o.settings = false

instance (c : Call) (g : Graph) (s : Control) : Decidable (s.Refused c g) :=
  inferInstanceAs (Decidable (_ ∨ _))

instance (c : Call) (g : Graph) (s : Control) : Decidable (s.Gained c g) :=
  inferInstanceAs (Decidable (_ ∨ _))

instance (c : Call) (s : Control) (g : Graph) : Decidable (Granted c s g) :=
  decidable_of_iff ((s.Refused c g → ¬s.Gained c g) ∧ (s.reopens c = true → ¬s.Refused c g →
      ∀ o ∈ g.sources, o.settings.enabled = true → s.sourceReady o = true →
        Plan.revoked (s.surroundings c.factories) o.settings = false))
    ⟨fun h => ⟨h.1, h.2⟩, fun h => ⟨h.refused, h.registered⟩⟩

/-! ### Whom a call opens again -/

theorem ready_not_target {g : Graph} {built : ℕ} (placed : g.Placed built) {o : Graph.Source}
    (ho : o ∈ g.sources) (ready : s.sourceReady o = true) :
    o.settings.id ∉ s.sourceTargets c g := by
  unfold sourceTargets
  split_ifs
  · intro hmem
    obtain ⟨o', ho', hid⟩ := List.mem_map.mp hmem
    obtain ⟨ho', hfailed⟩ := List.mem_filter.mp ho'
    rw [source_unique placed ho' ho hid, ready] at hfailed
    simp at hfailed
  · exact List.not_mem_nil

/-- A sink is opened again as the master, as one whose display appears, or as one that failed. -/
theorem target_cases {g : Graph} {built : ℕ} (placed : g.Placed built) {k : Graph.Sink}
    (hk : k ∈ g.sinks) (hmem : k.settings.id ∈ s.targets c g) :
    (s.masterReopens c = true ∧ g.master = some k) ∨
      (s.appears c = true ∧ s.hdmi k = c.output ∧ s.sinkReady k = false) ∨
      (s.retryDue c = true ∧ g.settings.engine.enabled = true ∧ s.sinkReady k = false) := by
  obtain ⟨k', hk', hid⟩ := List.mem_map.mp hmem
  have hunique : k' ∈ g.sinks → k' = k := fun hin => sink_unique placed hin hk hid
  rcases List.mem_append.mp hk' with hk' | hfailed
  · rcases List.mem_append.mp hk' with hfound | happeared
    · left
      split_ifs at hfound with hreopens
      · rw [Option.mem_toList] at hfound
        have hin : k' ∈ g.sinks := List.mem_of_find?_eq_some hfound
        exact ⟨hreopens, hunique hin ▸ hfound⟩
      · cases hfound
    · right
      left
      split_ifs at happeared with happears
      · obtain ⟨hin, hwhy⟩ := List.mem_filter.mp happeared
        rw [hunique hin] at hwhy
        simp only [Bool.and_eq_true, decide_eq_true_eq, Bool.not_eq_true'] at hwhy
        exact ⟨happears, hwhy.1.2, hwhy.2⟩
      · cases happeared
  · right
    right
    split_ifs at hfailed with hdue
    · obtain ⟨hin, hwhy⟩ := List.mem_filter.mp hfailed
      rw [hunique hin] at hwhy
      simp only [Bool.and_eq_true, Bool.not_eq_true'] at hdue hwhy
      exact ⟨hdue.1, hdue.2, hwhy.2⟩
    · cases hfailed

theorem ready_not_sink_target {g : Graph} {built : ℕ} (placed : g.Placed built) {k : Graph.Sink}
    (hk : k ∈ g.sinks) (ready : s.sinkReady k = true)
    (hmaster : (s.masterReopens c && g.master = some k) = false) :
    k.settings.id ∉ s.targets c g := by
  intro hmem
  rcases target_cases placed hk hmem with ⟨hreopens, hfound⟩ | ⟨_, _, hnot⟩ | ⟨_, _, hnot⟩
  · simp [hreopens, hfound] at hmaster
  · simp [ready] at hnot
  · simp [ready] at hnot

/-! ### A call that opens nothing -/

theorem goesOn_refl (g : Graph) (block : Address) : GoesOn g g block :=
  fun k hk p hp hblock => ⟨k, hk, rfl, p, hp, hblock, rfl, rfl⟩

theorem isolated_idle (hpower : ∀ db, 0 ≤ power db) (h : Inv power s) {g : Graph}
    (hg : s.engine.graph = some g) (hidle : s.reopens c = false) :
    (s.setMasterFallback power c).engine.graph = some g ∧ Isolated power c s g g := by
  have hready : (s.setMasterFallback power c).ready = s.ready := by
    unfold setMasterFallback
    split_ifs with hrange
    · rfl
    · rw [hg]
      dsimp only
      split_ifs with hnone
      · exact noted_ready c s
      · refine absurd hidle ?_
        simp only [not_or, not_lt] at hrange
        simp only [reopens, hrange, and_self, decide_true, Bool.true_and, hg, Option.any_some]
        simpa using fun h h' => hnone ⟨h, h'⟩
  have hengine : (s.setMasterFallback power c).engine = s.engine := by
    rw [call_engine hg, if_neg (by simp [hidle])]
  obtain ⟨t, hwaits⟩ := h.waits hpower hg c
  refine ⟨by rw [hengine, hg], rfl, fun o ho _ ready => ⟨⟨o, ho, rfl, ?_⟩, ?_⟩,
    fun k hk _ ready _ => ⟨k, hk, rfl, ?_⟩, fun x _ asks => ?_, fun x _ asks => ?_, fun t' ht' => ?_⟩
  · rw [sourceReady, hready]
    exact ready
  · exact fun block _ => goesOn_refl g block
  · rw [sinkReady, hready]
    exact ready
  · simp [asksSource, hidle] at asks
  · simp [asksSink, hidle] at asks
  · obtain rfl := Option.some.inj (hwaits.graph.symm.trans ht')
    exact hwaits.closedFirst

/-! ### A call that opens endpoints again -/

theorem call_reopens {g : Graph} (hg : s.engine.graph = some g) (hreopens : s.reopens c = true) :
    s.setMasterFallback power c =
      (s.noted c).recover power c.factories (s.sourceTargets c g) (s.targets c g) g := by
  simp only [reopens, hg, Option.any_some, Bool.and_eq_true, decide_eq_true_eq, Bool.or_eq_true]
    at hreopens
  unfold setMasterFallback
  rw [if_neg (by omega), hg]
  dsimp only
  rw [if_neg fun hnone => hreopens.2.elim (fun h => h hnone.1) fun h => h hnone.2]

theorem opened_device {m : Made} {null : String} :
    (∃ placeholder, m.opened null = .device placeholder) ↔ m.refuses = false := by
  cases m <;> simp [Made.opened, Made.refuses]

/-- The graph is built where no factory refuses. -/
theorem Waits.build_iff {g t : Graph} (h : Waits power c s g t) (hreopens : s.reopens c = true) :
    (∃ next, (s.waitingPlan power c g).build power (s.surroundings c.factories) = .ok next) ↔
      ¬s.Refused c g := by
  rw [@Plan.Recovers.build_iff power _ (s.surroundings c.factories) _ _ h.recovers rfl]
  have hsource (x) : (s.surroundings c.factories).openSource x =
    (c.factories.source x).opened ("source factory returned null: " ++ x.id) := rfl
  have hsink (x) : (s.surroundings c.factories).openSink x =
    (c.factories.sink x).opened ("sink factory returned null: " ++ x.id) := rfl
  simp only [hsource, hsink, opened_device, Refused, not_or, not_exists, not_and,
    Bool.not_eq_true]
  refine and_congr (forall₂_congr fun x hx => ?_) (forall₂_congr fun x hx => ?_)
  · rw [h.asksSource_iff hreopens hx]
  · rw [h.asksSink_iff hreopens hx]

/-- The state after a call, whose factories have refused or not. -/
theorem Waits.call_cases {g t : Graph} (h : Waits power c s g t) (hg : s.engine.graph = some g)
    (hreopens : s.reopens c = true) :
    (s.Refused c g ∧ (s.setMasterFallback power c).engine.graph = some t ∧
      (s.setMasterFallback power c).ready = s.ready) ∨
    ¬s.Refused c g ∧ ∃ next,
      (s.waitingPlan power c g).build power (s.surroundings c.factories) = .ok next ∧
      (s.setMasterFallback power c).engine = (s.waiting power c g).engine.publish next ∧
      (s.setMasterFallback power c).ready =
        fun a => if a.built = (s.waiting power c g).engine.built then
          freshReady c.factories next a else s.ready a := by
  have hcases := @recover_cases power c.factories (s.sourceTargets c g) (s.targets c g) g
    (s.noted c)
  rw [noted_surroundings, noted_ready, ← call_reopens hg hreopens] at hcases
  rcases hcases with ⟨next, hnext, hengine, hready⟩ | ⟨refusal, hrefusal, hengine, hready⟩
  · exact .inr ⟨(h.build_iff hreopens).mp ⟨next, hnext⟩, next, hnext, hengine, hready⟩
  · refine .inl ⟨?_, ?_, hready⟩
    · by_contra hnot
      obtain ⟨next, hnext⟩ := (h.build_iff hreopens).mpr hnot
      exact absurd (hnext.symm.trans hrefusal) (by simp)
    · rw [hengine]
      exact h.graph

/-! ### A factory has refused -/

namespace Waits

variable {g t : Graph}

/-- An endpoint that is ready waits with its device. -/
theorem source_ready (h : Waits power c s g t) {built : ℕ} (placed : g.Placed built)
    {o : Graph.Source} (ho : o ∈ g.sources) (ready : s.sourceReady o = true) :
    ∃ o' ∈ t.sources, o'.device = o.device := by
  obtain ⟨o', ho', hdevice⟩ := h.source_mem ho
  have hcontains : (s.sourceTargets c g).contains o.settings.id = false := by
    simpa using ready_not_target placed ho ready
  rw [hcontains, Bool.or_false] at hdevice
  exact ⟨o', ho', hdevice⟩

theorem sink_ready (h : Waits power c s g t) {built : ℕ} (placed : g.Placed built)
    {k : Graph.Sink} (hk : k ∈ g.sinks) (ready : s.sinkReady k = true)
    (hmaster : (s.masterReopens c && g.master = some k) = false) :
    ∃ k' ∈ t.sinks, k'.device = k.device := by
  obtain ⟨k', hk', hdevice⟩ := h.sink_mem hk
  have hcontains : (s.targets c g).contains k.settings.id = false := by
    simpa using ready_not_sink_target placed hk ready hmaster
  rw [hcontains, Bool.or_false] at hdevice
  exact ⟨k', hk', hdevice⟩

theorem isolated_refused (h : Waits power c s g t) {built : ℕ} (placed : g.Placed built)
    (hready : (s.setMasterFallback power c).ready = s.ready) (hnone : ¬s.Gained c g) :
    Isolated power c s g t where
  settings := h.same.settings
  sources o ho _ ready := by
    refine ⟨?_, fun block _ => h.goesOn block⟩
    obtain ⟨o', ho', hdevice⟩ := h.source_ready placed ho ready
    refine ⟨o', ho', hdevice, ?_⟩
    simp only [Source.device, Prod.mk.injEq] at hdevice
    rw [sourceReady, hready, hdevice.2.1, hdevice.2.2.1]
    exact ready
  sinks k hk _ ready hmaster := by
    obtain ⟨k', hk', hdevice⟩ := h.sink_ready placed hk ready hmaster
    refine ⟨k', hk', hdevice, ?_⟩
    simp only [Sink.device, Prod.mk.injEq] at hdevice
    rw [sinkReady, hready, hdevice.2.1, hdevice.2.2.1]
    exact ready
  liveSources x hx asks made := absurd (.inl ⟨x, hx, asks, made⟩) hnone
  liveSinks x hx asks made := absurd (.inr ⟨x, hx, asks, made⟩) hnone
  closed t' ht' := by
    obtain rfl := Option.some.inj (h.graph.symm.trans ht')
    exact h.closedFirst

/-- None of the endpoints that the call asks for has a device while the graph waits. -/
theorem not_gained (h : Waits power c s g t) (hreopens : s.reopens c = true)
    (isolated : Isolated power c s g t) : ¬s.Gained c g := by
  rintro (⟨x, hx, asks, made⟩ | ⟨x, hx, asks, made⟩)
  · obtain ⟨o, ho, hsettings, ready⟩ := isolated.liveSources x hx asks made
    have hplaceholder := h.closedFirst.sources x hx ((h.asksSource_iff hreopens hx).mpr asks) o ho
      (congrArg SourceSettings.id hsettings)
    simp [sourceReady, hplaceholder] at ready
  · obtain ⟨k, hk, hsettings, ready⟩ := isolated.liveSinks x hx asks made
    have hplaceholder := h.closedFirst.sinks x hx ((h.asksSink_iff hreopens hx).mpr asks) k hk
      (congrArg SinkSettings.id hsettings)
    simp [sinkReady, hplaceholder] at ready

end Waits

/-! ### Every factory has given a device -/

/-- Endpoints are found by their ids. -/
theorem find_source {g : Graph} {built : ℕ} (placed : g.Placed built) {o : Graph.Source}
    (ho : o ∈ g.sources) {id : String} (hid : o.settings.id = id) :
    (g.sources.find? fun o => o.settings.id = id) = some o := by
  cases hfind : g.sources.find? fun o => o.settings.id = id with
  | none =>
    rw [List.find?_eq_none] at hfind
    exact absurd (decide_eq_true hid) (hfind o ho)
  | some o' =>
    have hid' := List.find?_some hfind
    simp only [decide_eq_true_eq] at hid'
    rw [source_unique placed (List.mem_of_find?_eq_some hfind) ho (hid'.trans hid.symm)]

theorem find_sink {g : Graph} {built : ℕ} (placed : g.Placed built) {k : Graph.Sink}
    (hk : k ∈ g.sinks) {id : String} (hid : k.settings.id = id) :
    (g.sinks.find? fun k => k.settings.id = id) = some k := by
  cases hfind : g.sinks.find? fun k => k.settings.id = id with
  | none =>
    rw [List.find?_eq_none] at hfind
    exact absurd (decide_eq_true hid) (hfind k hk)
  | some k' =>
    have hid' := List.find?_some hfind
    simp only [decide_eq_true_eq] at hid'
    rw [sink_unique placed (List.mem_of_find?_eq_some hfind) hk (hid'.trans hid.symm)]

/-- The call has published a graph with every endpoint. -/
structure Recovered (power : ℚ → ℚ) (c : Call) (s : Control) (g t next : Graph) : Prop where
  waits : Waits power c s g t
  reopens : s.reopens c = true
  built : (s.waitingPlan power c g).build power (s.surroundings c.factories) = .ok next
  ready : (s.setMasterFallback power c).ready =
    fun a => if a.built = s.engine.built + 1 then freshReady c.factories next a else s.ready a
  before : g.Placed s.engine.built
  buffers : ∀ k ∈ g.sinks, k.buffer.address.built < s.engine.built
  placed : (next.adopt (some t)).Placed ((s.waitingPlan power c g).built + 1)
  mixes : (next.adopt (some t)).Mixes power

theorem waiting_built (c : Call) (g : Graph) (s : Control) :
    (s.waiting power c g).engine.built = s.engine.built + 1 := by
  rw [waiting, released, noted_engine]
  rfl

namespace Recovered

variable {g t next : Graph}

theorem ready_old (h : Recovered power c s g t next) {a : Address}
    (hold : a.built < s.engine.built) : (s.setMasterFallback power c).ready a = s.ready a := by
  rw [h.ready]
  exact if_neg (by omega)

theorem ready_new (h : Recovered power c s g t next) (kind : Kind) (id : String) :
    (s.setMasterFallback power c).ready ⟨(s.waitingPlan power c g).built, kind, id⟩ =
      freshReady c.factories next ⟨(s.waitingPlan power c g).built, kind, id⟩ := by
  rw [h.ready]
  exact if_pos (@waiting_built power c g s)

theorem source_kept (h : Recovered power c s g t next) {o : Graph.Source} (ho : o ∈ g.sources)
    (ready : s.sourceReady o = true)
    (registered : Plan.revoked (s.surroundings c.factories) o.settings = false) :
    (∃ o' ∈ (next.adopt (some t)).sources, o'.device = o.device ∧
      (s.setMasterFallback power c).sourceReady o' = true) ∧
    ∀ block ∈ g.blocksOf o, GoesOn g (next.adopt (some t)) block := by
  -- The source waits with its device, which the plan keeps.
  obtain ⟨o₁, ho₁, hdevice⟩ := h.waits.source_ready h.before ho ready
  have hsame := hdevice
  simp only [Source.device, Prod.mk.injEq] at hsame
  rw [← hsame.1] at registered
  simp only [sourceReady, Bool.and_eq_true, Bool.not_eq_true'] at ready
  have hreal : o₁.placeholder = false := hsame.2.1.trans ready.1
  have hmixes := h.waits.sound.mixes t h.waits.graph
  constructor
  · obtain ⟨o₂, ho₂, heq⟩ := h.waits.recovers.source_kept h.built ho₁ hreal registered
    obtain ⟨o₃, ho₃, heq'⟩ := (devices_adopt (some t) next).source_mem ho₂
    have hfinal : o₃.device = o.device := heq'.trans (heq.trans hdevice)
    refine ⟨o₃, ho₃, hfinal, ?_⟩
    simp only [Source.device, Prod.mk.injEq] at hfinal
    rw [sourceReady, hfinal.2.1, hfinal.2.2.1, h.ready_old (h.before.sourceBuffer o ho).built]
    simp [ready]
  · intro block hblock
    refine (h.waits.goesOn block).trans ?_
    rcases List.mem_cons.mp hblock with rfl | hblock
    · rw [← hsame.2.2.1]
      exact h.waits.recovers.goesOn_source hmixes h.built h.placed h.mixes ho₁ hreal registered
    · obtain ⟨r, hr, rfl⟩ := List.mem_map.mp hblock
      obtain ⟨hr, hplace⟩ := List.mem_filter.mp hr
      simp only [decide_eq_true_eq] at hplace
      have hr' : r ∈ t.routes := h.waits.same.routes ▸ hr
      obtain ⟨o₂, ho₂, hplace₂⟩ := h.waits.same.source_at hplace
      simp only [Source.place, Prod.mk.injEq] at hplace₂
      have hid : o₂.settings.id = o₁.settings.id := by rw [← hplace₂.1, hsame.1]
      rw [source_unique h.waits.recovers.placed (List.mem_of_getElem? ho₂) ho₁ hid] at ho₂
      exact h.waits.recovers.goesOn_route hmixes h.built h.placed h.mixes ho₁ hreal registered
        hr' ho₂

theorem sink_kept (h : Recovered power c s g t next) {k : Graph.Sink} (hk : k ∈ g.sinks)
    (ready : s.sinkReady k = true) (hmaster : (s.masterReopens c && g.master = some k) = false) :
    ∃ k' ∈ (next.adopt (some t)).sinks, k'.device = k.device ∧
      (s.setMasterFallback power c).sinkReady k' = true := by
  obtain ⟨k₁, hk₁, hdevice⟩ := h.waits.sink_ready h.before hk ready hmaster
  have hsame := hdevice
  simp only [Sink.device, Prod.mk.injEq] at hsame
  simp only [sinkReady, Bool.and_eq_true, Bool.not_eq_true'] at ready
  obtain ⟨k₂, hk₂, heq⟩ := h.waits.recovers.sink_kept h.built hk₁ (hsame.2.1.trans ready.1)
  obtain ⟨k₃, hk₃, heq'⟩ := (devices_adopt (some t) next).sink_mem hk₂
  have hfinal : k₃.device = k.device := heq'.trans (heq.trans hdevice)
  refine ⟨k₃, hk₃, hfinal, ?_⟩
  simp only [Sink.device, Prod.mk.injEq] at hfinal
  rw [sinkReady, hfinal.2.1, hfinal.2.2.1, h.ready_old (h.buffers k hk)]
  simp [ready]

theorem source_live (h : Recovered power c s g t next) {x : SourceSettings}
    (hx : x ∈ g.settings.sources) (asks : s.asksSource c g x = true)
    (made : c.factories.source x = .ready) : ∃ o' ∈ (next.adopt (some t)).sources,
      o'.settings = x ∧ (s.setMasterFallback power c).sourceReady o' = true := by
  have hopened : (s.surroundings c.factories).openSource x = .device false := by
    simp only [surroundings, made]
    rfl
  obtain ⟨o, ho, hsettings, hdevice, haddress⟩ := Plan.Recovers.source_fresh h.built hx
    ((h.waits.asksSource_iff h.reopens hx).mpr asks) hopened
  obtain ⟨o', ho', heq⟩ := (devices_adopt (some t) next).source_mem ho
  simp only [Source.device, Prod.mk.injEq] at heq
  refine ⟨o', ho', heq.1.trans hsettings, ?_⟩
  have hplaced := h.placed.same (places_adopt (some t) next).symm
  have hfind := find_source hplaced ho (congrArg SourceSettings.id hsettings)
  rw [sourceReady, heq.2.1, heq.2.2.1, hdevice, haddress, h.ready_new]
  simp [freshReady, hfind, hsettings, made]

theorem sink_live (h : Recovered power c s g t next) {x : SinkSettings}
    (hx : x ∈ g.settings.sinks) (asks : s.asksSink c g x = true)
    (made : c.factories.sink x = .ready) : ∃ k' ∈ (next.adopt (some t)).sinks,
      k'.settings = x ∧ (s.setMasterFallback power c).sinkReady k' = true := by
  have hopened : (s.surroundings c.factories).openSink x = .device false := by
    simp only [surroundings, made]
    rfl
  obtain ⟨k, hk, hsettings, hdevice, haddress⟩ := Plan.Recovers.sink_fresh h.built hx
    ((h.waits.asksSink_iff h.reopens hx).mpr asks) hopened
  obtain ⟨k', hk', heq⟩ := (devices_adopt (some t) next).sink_mem hk
  simp only [Sink.device, Prod.mk.injEq] at heq
  refine ⟨k', hk', heq.1.trans hsettings, ?_⟩
  have hplaced := h.placed.same (places_adopt (some t) next).symm
  have hfind := find_sink hplaced hk (congrArg SinkSettings.id hsettings)
  rw [sinkReady, heq.2.1, heq.2.2.1, hdevice, haddress, h.ready_new]
  simp [freshReady, hfind, hsettings, made]

/-- No source of the graph has lost its receiver. -/
theorem source_registered (h : Recovered power c s g t next) {o : Graph.Source}
    (ho : o ∈ (next.adopt (some t)).sources) :
    Plan.revoked (s.surroundings c.factories) o.settings = false := by
  obtain ⟨_, _, sources, sinks, routes, hsources, _, _, hnext⟩ := Plan.build_eq_ok.mp h.built
  rw [hnext] at ho
  obtain ⟨o₁, ho₁, hplace⟩ := ((places_inputs _).trans (places_adopt (some t) _)).source_mem ho
  simp only [Source.place, Prod.mk.injEq] at hplace
  obtain ⟨x, _, hmade⟩ := Outcome.mem_of_forall₂ (Outcome.mapM_eq_ok.mp hsources).flip
    (List.reduceOption_mem_iff.mp ho₁)
  have hmade : (s.waitingPlan power c g).makeSource (s.surroundings c.factories) x =
    .ok (some o₁) := hmade
  rw [← hplace.1, (Plan.makeSource_ok hmade).1]
  rw [Plan.makeSource_eq] at hmade
  split_ifs at hmade with hrevoked
  · cases hmade
  · exact eq_false_of_ne_true hrevoked

theorem isolated_iff (h : Recovered power c s g t next) :
    Isolated power c s g (next.adopt (some t)) ↔ ∀ o ∈ g.sources, o.settings.enabled = true →
      s.sourceReady o = true → Plan.revoked (s.surroundings c.factories) o.settings = false := by
  refine ⟨fun isolated o ho enabled ready => ?_, fun hregistered => ?_⟩
  · obtain ⟨⟨o', ho', hdevice, _⟩, _⟩ := isolated.sources o ho enabled ready
    simp only [Source.device, Prod.mk.injEq] at hdevice
    rw [← hdevice.1]
    exact h.source_registered ho'
  · refine ⟨?_, fun o ho enabled ready => h.source_kept ho ready (hregistered o ho enabled ready),
      fun k hk _ ready hmaster => h.sink_kept hk ready hmaster, fun x => h.source_live,
      fun x => h.sink_live, fun t' ht' => ?_⟩
    · obtain ⟨g', hbuilds, rfl⟩ := Plan.build_ok h.built
      rw [(places_adopt _ _).settings, (places_inputs g').settings, hbuilds.settings]
      rfl
    · obtain rfl := Option.some.inj (h.waits.graph.symm.trans ht')
      exact h.waits.closedFirst

end Recovered

/-! ### Every call -/

theorem Waits.recovered (hpower : ∀ db, 0 ≤ power db) {g t next : Graph}
    (h : Waits power c s g t) (hinv : Inv power s) (hg : s.engine.graph = some g)
    (hreopens : s.reopens c = true)
    (hnext : (s.waitingPlan power c g).build power (s.surroundings c.factories) = .ok next)
    (hready : (s.setMasterFallback power c).ready =
      fun a => if a.built = (s.waiting power c g).engine.built then
        freshReady c.factories next a else s.ready a) : Recovered power c s g t next := by
  have hsound := Engine.build_sound hpower h.sound (p := s.waitingPlan power c g) rfl
    (fun base hb => h.graph.trans (h.recovers.base.symm.trans hb)) hnext
  have hpublished : ((s.waiting power c g).engine.publish next).graph =
      some (next.adopt (some t)) := by rw [Engine.publish, h.graph]
  rw [waiting_built] at hready
  exact
    { waits := h
      reopens := hreopens
      built := hnext
      ready := hready
      before := (Engine.reachable_sound hpower hinv.engine).placed g hg
      buffers := hinv.fit.buffers g hg
      placed := hsound.placed _ hpublished
      mixes := hsound.mixes _ hpublished }

/-- What a call leaves is what it should exactly where its factories grant it. -/
theorem call_isolated (hpower : ∀ db, 0 ≤ power db) (h : Inv power s) {g : Graph}
    (hg : s.engine.graph = some g) (c : Call) : ∃ g',
      (s.setMasterFallback power c).engine.graph = some g' ∧
        (Isolated power c s g g' ↔ Granted c s g) := by
  by_cases hreopens : s.reopens c = true
  · obtain ⟨t, hwaits⟩ := h.waits hpower hg c
    rcases hwaits.call_cases hg hreopens with ⟨hrefused, hgraph, hready⟩ |
      ⟨hnot, next, hnext, hengine, hready⟩
    · have hplaced := (Engine.reachable_sound hpower h.engine).placed g hg
      refine ⟨t, hgraph, fun isolated => ⟨fun _ => hwaits.not_gained hreopens isolated,
        fun _ hnot => absurd hrefused hnot⟩, fun granted => ?_⟩
      exact hwaits.isolated_refused hplaced hready (granted.refused hrefused)
    · have hrecovered := hwaits.recovered hpower h hg hreopens hnext hready
      refine ⟨next.adopt (some t), by rw [hengine, Engine.publish, hwaits.graph], ?_⟩
      rw [hrecovered.isolated_iff]
      exact ⟨fun hregistered => ⟨fun hrefused => absurd hrefused hnot, fun _ _ => hregistered⟩,
        fun granted => granted.registered hreopens hnot⟩
  · have hidle := eq_false_of_ne_true hreopens
    obtain ⟨hgraph, isolated⟩ := isolated_idle hpower h hg hidle
    refine ⟨g, hgraph, fun _ => ⟨?_, fun h => absurd h hreopens⟩, fun _ => isolated⟩
    rintro (⟨x, _, asks, _⟩ | ⟨x, _, asks, _⟩)
    · simp [asksSource, hidle] at asks
    · simp [asksSink, hidle] at asks

end Control

end NdimonR.Decoder.AudioEngine
