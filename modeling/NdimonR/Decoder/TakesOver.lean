import NdimonR.Decoder.Domains
import NdimonR.Decoder.LiveGraph
import Mathlib.Data.List.ReduceOption
import Mathlib.Tactic.Positivity

/-! What every graph the audio engine plays keeps to: whose buffers its inputs read, and which of
them a graph has from the one before. -/

namespace NdimonR.Decoder.AudioEngine

open Json

variable {power : ℚ → ℚ}

/-! ### Checked settings -/

structure Checked (s : AudioSettings) : Prop where
  sources : (s.sources.map SourceSettings.id).Nodup
  sinks : (s.sinks.map SinkSettings.id).Nodup
  routes : (s.routes.map RouteSettings.id).Nodup

theorem checkSource_seen {version : ℕ} {seen seen' : SourcesSeen} {x : SourceSettings}
    (h : checkSource version seen x = .ok seen') :
    x.id ∉ seen.ids ∧ seen'.ids = x.id :: seen.ids := by
  obtain ⟨_, hfirst, h⟩ := Outcome.bind_eq_ok.mp h
  obtain ⟨_, _, h⟩ := Outcome.bind_eq_ok.mp h
  obtain ⟨_, _, h⟩ := Outcome.bind_eq_ok.mp h
  obtain ⟨_, _, h⟩ := Outcome.bind_eq_ok.mp h
  cases h
  have hfirst := Config.require_eq_ok.mp hfirst
  simp only [Bool.and_eq_true, Bool.not_eq_true', List.contains_eq_mem, decide_eq_false_iff_not]
    at hfirst
  exact ⟨hfirst.2, rfl⟩

theorem checkSink_seen {version primary : ℕ} {seen seen' : List SinkSettings} {x : SinkSettings}
    (h : checkSink version primary seen x = .ok seen') :
    x.id ∉ seen.map SinkSettings.id ∧ seen' = seen ++ [x] := by
  obtain ⟨_, hfirst, h⟩ := Outcome.bind_eq_ok.mp h
  obtain ⟨_, _, h⟩ := Outcome.bind_eq_ok.mp h
  split at h
  · cases h
  · cases h
    have hfirst := Config.require_eq_ok.mp hfirst
    simp only [Bool.and_eq_true, Bool.not_eq_true', List.any_eq_false, beq_iff_eq] at hfirst
    refine ⟨fun hin => ?_, rfl⟩
    obtain ⟨y, hy, hsame⟩ := List.mem_map.mp hin
    exact hfirst.2 y hy hsame

theorem checkRoute_seen {s : AudioSettings} {seen seen' : RoutesSeen} {r : RouteSettings}
    (h : checkRoute s seen r = .ok seen') : r.id ∉ seen.ids ∧ seen'.ids = r.id :: seen.ids := by
  unfold checkRoute at h
  split at h
  · obtain ⟨_, hfirst, h⟩ := Outcome.bind_eq_ok.mp h
    obtain ⟨_, _, h⟩ := Outcome.bind_eq_ok.mp h
    obtain ⟨_, _, h⟩ := Outcome.bind_eq_ok.mp h
    cases h
    have hfirst := Config.require_eq_ok.mp hfirst
    simp only [Bool.and_eq_true, Bool.not_eq_true', List.contains_eq_mem, decide_eq_false_iff_not]
      at hfirst
    exact ⟨hfirst.1, rfl⟩
  · cases h

theorem checked_of_staticChecks {primary : ℕ} {s : AudioSettings} {u : Unit}
    (h : staticChecks primary s = .ok u) : Checked s := by
  obtain ⟨_, _, h⟩ := Outcome.bind_eq_ok.mp h
  obtain ⟨sources, hsources, h⟩ := Outcome.bind_eq_ok.mp h
  obtain ⟨sinks, hsinks, h⟩ := Outcome.bind_eq_ok.mp h
  obtain ⟨_, _, h⟩ := Outcome.bind_eq_ok.mp h
  obtain ⟨routes, hroutes, _⟩ := Outcome.bind_eq_ok.mp h
  constructor
  · refine Outcome.nodup_of_foldlM SourcesSeen.ids (fun seen x seen' hx => ?_) hsources
    obtain ⟨hnew, hids⟩ := checkSource_seen hx
    rw [hids]
    exact ⟨hnew, List.subset_cons_self _ _, List.mem_cons_self⟩
  · refine Outcome.nodup_of_foldlM (List.map SinkSettings.id) (fun seen x seen' hx => ?_) hsinks
    obtain ⟨hnew, rfl⟩ := checkSink_seen hx
    rw [List.map_append]
    exact ⟨hnew, List.subset_append_left _ _, by simp⟩
  · refine Outcome.nodup_of_foldlM RoutesSeen.ids (fun seen x seen' hx => ?_) hroutes
    obtain ⟨hnew, hids⟩ := checkRoute_seen hx
    rw [hids]
    exact ⟨hnew, List.subset_cons_self _ _, List.mem_cons_self⟩

/-! ### The places of a graph -/

/-- An address of an endpoint or a route, allocated before the graph in turn. -/
structure Address.Of (built : ℕ) (kind : Kind) (id : String) (a : Address) : Prop where
  built : a.built < built
  kind : a.kind = kind
  id : a.id = id

theorem Address.Of.later {built built' : ℕ} {kind : Kind} {id : String} {a : Address}
    (h : a.Of built kind id) (hlater : built ≤ built') : a.Of built' kind id :=
  ⟨lt_of_lt_of_le h.built hlater, h.kind, h.id⟩

theorem Address.of_own (built : ℕ) (kind : Kind) (id : String) :
    Address.Of (built + 1) kind id ⟨built, kind, id⟩ := ⟨Nat.lt_succ_self built, rfl, rfl⟩

namespace Graph

/-- Whose buffers and delay lines a graph has. -/
structure Placed (built : ℕ) (g : Graph) : Prop where
  sourceIds : (g.sources.map fun s => s.settings.id).Nodup
  sinkIds : (g.sinks.map fun s => s.settings.id).Nodup
  routeIds : (g.routes.map fun r => r.settings.id).Nodup
  sourceBuffer : ∀ s ∈ g.sources, s.buffer.address.Of built .source s.settings.id
  routeBuffer : ∀ r ∈ g.routes, r.buffer.address.Of built .route r.settings.id
  sourceDelay : ∀ s ∈ g.sources, s.delay.Of built .source s.settings.id
  sinkDelay : ∀ s ∈ g.sinks, s.delay.Of built .sink s.settings.id
  routeDelay : ∀ r ∈ g.routes, r.delay.Of built .route r.settings.id
  source : ∀ r ∈ g.routes, ∃ s, g.sources[r.source]? = some s ∧ s.settings.id = r.settings.source
  sink : ∀ r ∈ g.routes, ∃ s, g.sinks[r.sink]? = some s ∧ s.settings.id = r.settings.sink

/-- What a sink at a place mixes, from the settings. -/
def mixed (power : ℚ → ℚ) (g : Graph) (k : ℕ) (sink : Sink) : List MixInput :=
  if g.settings.version = 1 then g.mixInputs power sink else g.routeInputs power k

/-- The inputs are those of the settings; their fades are anywhere. -/
structure Mixes (power : ℚ → ℚ) (g : Graph) : Prop where
  inputs : ∀ k sink, g.sinks[k]? = some sink →
    sink.inputs.map (fun i => (i.block, i.gain)) =
      (g.mixed power k sink).map fun i => (i.block, i.gain)
  started : ∀ sink ∈ g.sinks, ∀ i ∈ sink.inputs, 0 ≤ i.startGain

/-! ### Graphs with the same places -/

def Source.place (s : Source) : SourceSettings × Buffer × Address := (s.settings, s.buffer, s.delay)

def Sink.place (s : Sink) : SinkSettings × Buffer × Address := (s.settings, s.buffer, s.delay)

structure SamePlaces (g g' : Graph) : Prop where
  settings : g'.settings = g.settings
  sources : g'.sources.map Source.place = g.sources.map Source.place
  sinks : g'.sinks.map Sink.place = g.sinks.map Sink.place
  routes : g'.routes = g.routes

variable {g g' : Graph} {built : ℕ}

theorem SamePlaces.source_mem (h : SamePlaces g g') {s' : Source} (hs : s' ∈ g'.sources) :
    ∃ s ∈ g.sources, s.place = s'.place := by
  have hmem := List.mem_map_of_mem (f := Source.place) hs
  rw [h.sources] at hmem
  exact List.mem_map.mp hmem

theorem SamePlaces.sink_mem (h : SamePlaces g g') {s' : Sink} (hs : s' ∈ g'.sinks) :
    ∃ s ∈ g.sinks, s.place = s'.place := by
  have hmem := List.mem_map_of_mem (f := Sink.place) hs
  rw [h.sinks] at hmem
  exact List.mem_map.mp hmem

theorem SamePlaces.source_at (h : SamePlaces g g') {k : ℕ} {s : Source}
    (hs : g.sources[k]? = some s) : ∃ s', g'.sources[k]? = some s' ∧ s.place = s'.place := by
  have hplace := congrArg (fun l : List _ => l[k]?) h.sources
  simp only [List.getElem?_map, hs, Option.map_some] at hplace
  obtain ⟨s', hs', hsame⟩ := Option.map_eq_some_iff.mp hplace
  exact ⟨s', hs', hsame.symm⟩

theorem SamePlaces.sink_at (h : SamePlaces g g') {k : ℕ} {s : Sink}
    (hs : g.sinks[k]? = some s) : ∃ s', g'.sinks[k]? = some s' ∧ s.place = s'.place := by
  have hplace := congrArg (fun l : List _ => l[k]?) h.sinks
  simp only [List.getElem?_map, hs, Option.map_some] at hplace
  obtain ⟨s', hs', hsame⟩ := Option.map_eq_some_iff.mp hplace
  exact ⟨s', hs', hsame.symm⟩

theorem SamePlaces.symm (h : SamePlaces g g') : SamePlaces g' g :=
  ⟨h.settings.symm, h.sources.symm, h.sinks.symm, h.routes.symm⟩

theorem SamePlaces.trans {g'' : Graph} (h : SamePlaces g g') (h' : SamePlaces g' g'') :
    SamePlaces g g'' :=
  ⟨h'.settings.trans h.settings, h'.sources.trans h.sources, h'.sinks.trans h.sinks,
    h'.routes.trans h.routes⟩

theorem sourceIds_eq (g : Graph) : (g.sources.map fun s => s.settings.id) =
    (g.sources.map Source.place).map fun p => p.1.id := by
  simp [Source.place]

theorem sinkIds_eq (g : Graph) : (g.sinks.map fun s => s.settings.id) =
    (g.sinks.map Sink.place).map fun p => p.1.id := by
  simp [Sink.place]

theorem Placed.same (h : g.Placed built) (same : SamePlaces g g') : g'.Placed built where
  sourceIds := by
    rw [sourceIds_eq, same.sources, ← sourceIds_eq]
    exact h.sourceIds
  sinkIds := by
    rw [sinkIds_eq, same.sinks, ← sinkIds_eq]
    exact h.sinkIds
  routeIds := by
    rw [same.routes]
    exact h.routeIds
  sourceBuffer s' hs' := by
    obtain ⟨s, hs, hplace⟩ := same.source_mem hs'
    simp only [Source.place, Prod.mk.injEq] at hplace
    rw [← hplace.1, ← hplace.2.1]
    exact h.sourceBuffer s hs
  routeBuffer r hr := h.routeBuffer r (same.routes ▸ hr)
  sourceDelay s' hs' := by
    obtain ⟨s, hs, hplace⟩ := same.source_mem hs'
    simp only [Source.place, Prod.mk.injEq] at hplace
    rw [← hplace.1, ← hplace.2.2]
    exact h.sourceDelay s hs
  sinkDelay s' hs' := by
    obtain ⟨s, hs, hplace⟩ := same.sink_mem hs'
    simp only [Sink.place, Prod.mk.injEq] at hplace
    rw [← hplace.1, ← hplace.2.2]
    exact h.sinkDelay s hs
  routeDelay r hr := h.routeDelay r (same.routes ▸ hr)
  source r hr := by
    obtain ⟨s, hs, hid⟩ := h.source r (same.routes ▸ hr)
    obtain ⟨s', hs', hplace⟩ := same.source_at hs
    simp only [Source.place, Prod.mk.injEq] at hplace
    exact ⟨s', hs', by rw [← hplace.1, hid]⟩
  sink r hr := by
    obtain ⟨s, hs, hid⟩ := h.sink r (same.routes ▸ hr)
    obtain ⟨s', hs', hplace⟩ := same.sink_at hs
    simp only [Sink.place, Prod.mk.injEq] at hplace
    exact ⟨s', hs', by rw [← hplace.1, hid]⟩

theorem mixInputs_same (same : SamePlaces g g') {s s' : Sink} (hsink : s'.settings = s.settings) :
    g'.mixInputs power s' = g.mixInputs power s := by
  have hplaces : ∀ (g : Graph) (s : Sink), g.mixInputs power s =
      (g.sources.map Source.place).filterMap fun p => (s.settings.mix.get? p.1.id).map fun gain =>
        { block := p.2.1.address
          gain := if p.1.enabled then dbToGain power gain * dbToGain power p.1.gainDb else 0 } := by
    intro g s
    rw [List.filterMap_map]
    rfl
  rw [hplaces, hplaces, same.sources, hsink]

theorem routeOn_same (same : SamePlaces g g') (r : Route) : g'.routeOn r = g.routeOn r := by
  have hplaces : ∀ g : Graph, (g.sources[r.source]?.any fun s => s.settings.enabled) =
      ((g.sources.map Source.place)[r.source]?.any fun p => p.1.enabled) := by
    intro g
    rw [List.getElem?_map]
    cases g.sources[r.source]? <;> rfl
  rw [routeOn, routeOn, hplaces, hplaces, same.sources, same.settings]

theorem mixed_same (same : SamePlaces g g') (k : ℕ) {s s' : Sink}
    (hsink : s'.settings = s.settings) : g'.mixed power k s' = g.mixed power k s := by
  rw [mixed, mixed, same.settings, mixInputs_same same hsink, routeInputs, routeInputs, same.routes]
  simp only [routeOn_same same]

/-! ### Operations that keep the places -/

theorem places_inputs (g : Graph) : SamePlaces g (g.inputs power) := by
  unfold inputs
  split_ifs with hversion
  · exact ⟨rfl, rfl, by simp [Function.comp_def, Sink.place], rfl⟩
  · refine ⟨rfl, ?_, ?_, rfl⟩
    · apply List.ext_getElem?
      intro k
      simp only [List.getElem?_map, List.getElem?_mapIdx, Option.map_map]
      rfl
    · apply List.ext_getElem?
      intro k
      simp only [List.getElem?_map, List.getElem?_mapIdx, Option.map_map]
      rfl

theorem places_adopt (old : Option Graph) (g : Graph) : SamePlaces g (g.adopt old) :=
  ⟨rfl, rfl, by simp [adopt, Function.comp_def, Sink.place], rfl⟩

theorem places_period (g : Graph) : SamePlaces g g.period := by
  refine ⟨rfl, rfl, ?_, rfl⟩
  rw [period, List.map_map]
  refine List.map_congr_left fun s hs => ?_
  simp only [Function.comp_apply]
  split_ifs
  · rfl
  · rfl

/-- The inputs a graph is built with. -/
theorem inputs_at {k : ℕ} {sink : Sink} (hk : (g.inputs power).sinks[k]? = some sink) :
    sink.inputs = (g.inputs power).mixed power k sink := by
  rw [mixed_same (places_inputs g) k rfl]
  unfold inputs at hk
  split_ifs at hk with hversion
  · simp only [List.getElem?_map] at hk
    obtain ⟨s, hs, rfl⟩ := Option.map_eq_some_iff.mp hk
    rw [mixed, if_pos hversion]
    rfl
  · simp only [List.getElem?_mapIdx] at hk
    obtain ⟨s, hs, rfl⟩ := Option.map_eq_some_iff.mp hk
    rw [mixed, if_neg hversion]

theorem gain_nonneg (hpower : ∀ db, 0 ≤ power db) (db : ℚ) : 0 ≤ dbToGain power db := by
  unfold dbToGain
  split_ifs
  · exact le_refl 0
  · exact hpower db

theorem mixed_gain (hpower : ∀ db, 0 ≤ power db) (g : Graph) (k : ℕ) (sink : Sink) {i : MixInput}
    (hi : i ∈ g.mixed power k sink) : 0 ≤ i.gain := by
  unfold mixed at hi
  split_ifs at hi
  · obtain ⟨source, _, hsome⟩ := List.mem_filterMap.mp hi
    obtain ⟨gain, _, rfl⟩ := Option.map_eq_some_iff.mp hsome
    simp only
    split_ifs
    · exact mul_nonneg (gain_nonneg hpower _) (gain_nonneg hpower _)
    · exact le_refl 0
  · obtain ⟨route, _, rfl⟩ := List.mem_map.mp hi
    simp only
    split_ifs
    · exact gain_nonneg hpower _
    · exact le_refl 0

/-- Gains of reachable graphs: nothing is negative. -/
theorem Mixes.gain (hpower : ∀ db, 0 ≤ power db) (h : g.Mixes power) {sink : Sink}
    (hsink : sink ∈ g.sinks) {i : MixInput} (hi : i ∈ sink.inputs) : 0 ≤ i.gain := by
  obtain ⟨k, hk⟩ := List.getElem?_of_mem hsink
  have hmem := List.mem_map_of_mem (f := fun i : MixInput => (i.block, i.gain)) hi
  rw [h.inputs k sink hk] at hmem
  obtain ⟨j, hj, hsame⟩ := List.mem_map.mp hmem
  simp only [Prod.mk.injEq] at hsame
  rw [← hsame.2]
  exact mixed_gain hpower g k sink hj

theorem MixInput.gainAt_nonneg {i : MixInput} (hstart : 0 ≤ i.startGain) (hgain : 0 ≤ i.gain)
    (n : ℕ) : 0 ≤ i.gainAt n := by
  have hweight : 0 ≤ min 1 (((i.fadeOffset + n : ℕ) : ℚ) / 480) :=
    le_min zero_le_one (by positivity)
  have hone : min 1 (((i.fadeOffset + n : ℕ) : ℚ) / 480) ≤ 1 := min_le_left _ _
  unfold MixInput.gainAt
  rw [if_neg (not_lt.mpr hstart)]
  nlinarith

theorem startOf_nonneg (hpower : ∀ db, 0 ≤ power db) {old : Graph} (h : old.Mixes power)
    (id : String) (block : Address) : 0 ≤ old.startOf id block := by
  have hall : ∀ p ∈ (old.sinks.filter fun prior => prior.settings.id = id).flatMap Sink.inputs,
      0 ≤ p.gainAt 0 := by
    intro p hp
    obtain ⟨sink, hsink, hp⟩ := List.mem_flatMap.mp hp
    have hsink := List.mem_of_mem_filter hsink
    exact MixInput.gainAt_nonneg (h.started sink hsink p hp) (h.gain hpower hsink hp) 0
  unfold startOf
  generalize (old.sinks.filter fun prior => prior.settings.id = id).flatMap Sink.inputs = l at hall
  have general : ∀ start : ℚ, 0 ≤ start →
      0 ≤ l.foldl (fun start p => if p.block = block then p.gainAt 0 else start) start := by
    induction l with
    | nil => exact fun start hstart => hstart
    | cons p l ih =>
      intro start hstart
      rw [List.foldl_cons]
      apply ih (fun q hq => hall q (List.mem_cons_of_mem p hq))
      split_ifs
      · exact hall p List.mem_cons_self
      · exact hstart
  exact general 0 (le_refl 0)

theorem mixes_adopt (hpower : ∀ db, 0 ≤ power db) {old : Option Graph}
    (hold : ∀ o ∈ old, o.Mixes power) (g : Graph) : ((g.inputs power).adopt old).Mixes power where
  inputs k sink hk := by
    simp only [adopt, List.getElem?_map] at hk
    obtain ⟨s, hs, rfl⟩ := Option.map_eq_some_iff.mp hk
    have hmixed : ∀ s' : Sink, s'.settings = s.settings →
        ((g.inputs power).adopt old).mixed power k s' = (g.inputs power).mixed power k s :=
      fun s' hs' => mixed_same (places_adopt old (g.inputs power)) k hs'
    rw [hmixed, ← inputs_at hs, List.map_map]
    · rfl
    · rfl
  started sink hsink i hi := by
    obtain ⟨s, hs, rfl⟩ := List.mem_map.mp hsink
    obtain ⟨j, hj, rfl⟩ := List.mem_map.mp hi
    cases old with
    | none => exact le_refl 0
    | some o => exact startOf_nonneg hpower (hold o rfl) _ _

theorem mixes_period (h : g.Mixes power) : g.period.Mixes power where
  inputs k sink hk := by
    simp only [period, List.getElem?_map] at hk
    obtain ⟨s, hs, rfl⟩ := Option.map_eq_some_iff.mp hk
    have hsettings : (if s.settings.enabled = true then { s with
        inputs := s.inputs.map (MixInput.advance s.buffer.frames) } else s).settings =
        s.settings := by
      split_ifs <;> rfl
    rw [mixed_same (places_period g) k hsettings, ← h.inputs k s hs]
    split_ifs
    · rw [List.map_map]
      rfl
    · rfl
  started sink hsink i hi := by
    obtain ⟨s, hs, rfl⟩ := List.mem_map.mp hsink
    split_ifs at hi
    · obtain ⟨j, hj, rfl⟩ := List.mem_map.mp hi
      exact h.started s hs j hj
    · exact h.started s hs i hi

end Graph

/-! ### What a plan builds -/

namespace Plan

variable {p : Plan} {env : Surroundings}

/-- A source has the buffer of the same endpoint before, where that has a device, or its own. -/
inductive MadeSource (p : Plan) (s : Graph.Source) : Prop
  | kept (base : Graph) (hbase : p.base = some base) (o : Graph.Source) (ho : o ∈ base.sources)
      (device : o.placeholder = false) (same : sameSource o.settings s.settings = true)
      (buffer : s.buffer = o.buffer)
      (delay : s.delay = p.lineOf base o.delay .source s.settings.id)
  | fresh (buffer : s.buffer = p.allocated .source s.settings.id s.settings.channels)
      (delay : s.delay = ⟨p.built, .source, s.settings.id⟩)
      (none : s.settings.id ∈ p.reopenSources ∨ ∀ base, p.base = some base →
        ∀ o ∈ base.sources, o.placeholder = false → sameSource o.settings s.settings = false)

/-- The delay line of a sink is that of the same endpoint before or its own. -/
inductive MadeSink (p : Plan) (s : Graph.Sink) : Prop
  | kept (base : Graph) (hbase : p.base = some base) (o : Graph.Sink) (ho : o ∈ base.sinks)
      (same : sameSink o.settings s.settings = true)
      (delay : s.delay = p.lineOf base o.delay .sink s.settings.id)
  | fresh (delay : s.delay = ⟨p.built, .sink, s.settings.id⟩)

/-- A route has the buffer and the delay line of the same route before, where that is as long and
as wide as it needs, or its own. -/
inductive MadeRoute (p : Plan) (channels : ℕ) (r : Graph.Route) : Prop
  | kept (base : Graph) (hbase : p.base = some base) (o : Graph.Route) (ho : o ∈ base.routes)
      (same : sameRoute o.settings r.settings = true) (capacity : o.capacity = r.capacity)
      (wide : o.buffer.channels = channels) (buffer : r.buffer = o.buffer)
      (delay : r.delay = o.delay) (history : r.historyReset = false)
  | fresh (buffer : r.buffer = p.allocated .route r.settings.id channels)
      (delay : r.delay = ⟨p.built, .route, r.settings.id⟩) (history : r.historyReset = true)
      (none : ∀ base, p.base = some base → ∀ o ∈ base.routes,
        sameRoute o.settings r.settings = true → o.capacity = r.capacity →
          o.buffer.channels ≠ channels)

theorem makeSource_ok {x : SourceSettings} {s : Graph.Source}
    (h : p.makeSource env x = .ok (some s)) : s.settings = x ∧ p.MadeSource s := by
  unfold makeSource at h
  by_cases hskip : x.type = "ndi" ∧
      env.registered (if x.output = 0 then env.primary else x.output) = false
  · rw [if_pos hskip] at h
    cases h
  rw [if_neg hskip] at h
  simp only at h
  split at h
  · rename_i g o hprior
    cases h
    split_ifs at hprior with hreopen
    obtain ⟨g', hbase, hfound⟩ := Option.bind_eq_some_iff.mp hprior
    obtain ⟨o', hfind, heq⟩ := Option.map_eq_some_iff.mp hfound
    cases heq
    have hsame := List.find?_some hfind
    simp only [Bool.and_eq_true, Bool.not_eq_true'] at hsame
    exact ⟨rfl, .kept g hbase o (List.mem_of_find?_eq_some hfind) hsame.1 hsame.2 rfl rfl⟩
  · rename_i hprior
    split at h
    · cases h
      refine ⟨rfl, .fresh rfl rfl ?_⟩
      split_ifs at hprior with hreopen
      · exact .inl hreopen
      · refine .inr fun base hbase o ho hdevice => ?_
        rw [hbase, Option.bind_some, Option.map_eq_none_iff, List.find?_eq_none] at hprior
        simpa [hdevice] using hprior o ho
    · cases h
    · cases h

theorem makeSink_ok {x : SinkSettings} {s : Graph.Sink} (h : p.makeSink env x = .ok s) :
    s.settings = x ∧ p.MadeSink s := by
  unfold makeSink at h
  simp only at h
  split at h
  · rename_i g o hprior
    cases h
    split_ifs at hprior with hreopen
    obtain ⟨g', hbase, hfound⟩ := Option.bind_eq_some_iff.mp hprior
    obtain ⟨o', hfind, heq⟩ := Option.map_eq_some_iff.mp hfound
    cases heq
    have hsame := List.find?_some hfind
    simp only [Bool.and_eq_true, Bool.not_eq_true'] at hsame
    exact ⟨rfl, .kept g hbase o (List.mem_of_find?_eq_some hfind) hsame.2 rfl⟩
  · split at h
    · cases h
      exact ⟨rfl, .fresh rfl⟩
    · cases h
    · cases h

theorem place_of_find {α : Type} {l : List α} {q : α → Bool} {e : α × ℕ}
    (h : l.zipIdx.find? (fun e => q e.1) = some e) : l[e.2]? = some e.1 ∧ q e.1 = true := by
  have hq := List.find?_some h
  have hmem := List.mem_of_find?_eq_some h
  exact ⟨by simpa using List.mem_zipIdx_iff_getElem?.mp hmem, hq⟩

theorem makeRoute_ok {sources : List Graph.Source} {sinks : List Graph.Sink} {x : RouteSettings}
    {r : Graph.Route} (h : p.makeRoute sources sinks x = .ok (some r)) :
    r.settings = x ∧
      (∃ s, sinks[r.sink]? = some s ∧ s.settings.id = x.sink) ∧
      r.capacity = routeCapacity p.base (routeChannels p.settings x) x ∧
      ∃ s, sources[r.source]? = some s ∧ s.settings.id = x.source ∧
        p.MadeRoute s.settings.channels r := by
  unfold makeRoute at h
  split at h
  · cases h
  · cases h
  · rename_i source i sink k hsource hsink
    obtain ⟨hs, hsid⟩ := @place_of_find Graph.Source sources
      (fun s => decide (s.settings.id = x.source)) _ hsource
    obtain ⟨hk, hkid⟩ := @place_of_find Graph.Sink sinks
      (fun s => decide (s.settings.id = x.sink)) _ hsink
    simp only [decide_eq_true_eq] at hsid hkid
    simp only at h
    split at h
    · rename_i o hprior
      cases h
      obtain ⟨base, hbase, hfind⟩ := Option.bind_eq_some_iff.mp hprior
      have hsame := List.find?_some hfind
      simp only [Bool.and_eq_true, beq_iff_eq] at hsame
      exact ⟨rfl, ⟨sink, hk, hkid⟩, rfl, source, hs, hsid,
        .kept base hbase o (List.mem_of_find?_eq_some hfind) hsame.1.1 hsame.1.2 hsame.2 rfl rfl
          rfl⟩
    · rename_i hprior
      cases h
      refine ⟨rfl, ⟨sink, hk, hkid⟩, rfl, source, hs, hsid, .fresh rfl rfl rfl ?_⟩
      intro base hbase o ho hsame hcapacity hwide
      rw [hbase, Option.bind_some, List.find?_eq_none] at hprior
      have hno := hprior o ho
      rw [← hbase] at hno
      simp [hsame, hcapacity, hwide] at hno

/-- What stays of a list of which some items are skipped. -/
theorem skipped_sublist {α β γ : Type} {f : α → Except Refusal (Option β)} (key : β → γ)
    (key' : α → γ) (hf : ∀ x y, f x = .ok (some y) → key y = key' x) {l : List α}
    {r : List (Option β)} (h : l.mapM f = .ok r) :
    (r.reduceOption.map key).Sublist (l.map key') := by
  have hread := Outcome.mapM_eq_ok.mp h
  clear h
  induction hread with
  | nil => exact .slnil
  | @cons x y l r hx _ ih =>
    cases y with
    | none =>
      rw [List.reduceOption_cons_of_none, List.map_cons]
      exact ih.cons _
    | some y =>
      rw [List.reduceOption_cons_of_some, List.map_cons, List.map_cons, hf x y hx]
      exact ih.cons_cons _

theorem sinks_made {l : List SinkSettings} {r : List Graph.Sink}
    (h : l.mapM (p.makeSink env) = .ok r) :
    (r.map fun s => s.settings.id) = l.map SinkSettings.id := by
  have hread := Outcome.mapM_eq_ok.mp h
  clear h
  induction hread with
  | nil => rfl
  | cons hx _ ih => rw [List.map_cons, List.map_cons, ih, (makeSink_ok hx).1]

theorem mem_skipped {α β : Type} {f : α → Except Refusal (Option β)} {l : List α}
    {r : List (Option β)} (h : l.mapM f = .ok r) {y : β} (hy : y ∈ r.reduceOption) :
    ∃ x ∈ l, f x = .ok (some y) := by
  have hmem := List.reduceOption_mem_iff.mp hy
  exact Outcome.mem_of_forall₂ (Outcome.mapM_eq_ok.mp h).flip hmem

/-- What a plan builds, before its inputs are made. -/
structure Builds (p : Plan) (g : Graph) : Prop where
  checked : Checked p.settings
  settings : g.settings = p.settings
  sourceIds : (g.sources.map fun s => s.settings.id).Nodup
  sinkIds : (g.sinks.map fun s => s.settings.id).Nodup
  routeIds : (g.routes.map fun r => r.settings.id).Nodup
  sources : ∀ s ∈ g.sources, s.settings ∈ p.settings.sources ∧ p.MadeSource s
  sinks : ∀ s ∈ g.sinks, s.settings ∈ p.settings.sinks ∧ p.MadeSink s
  routes : ∀ r ∈ g.routes, r.settings ∈ p.settings.routes ∧
    (∃ s, g.sinks[r.sink]? = some s ∧ s.settings.id = r.settings.sink) ∧
    r.capacity = routeCapacity p.base (routeChannels p.settings r.settings) r.settings ∧
    ∃ s, g.sources[r.source]? = some s ∧ s.settings.id = r.settings.source ∧
      p.MadeRoute s.settings.channels r

theorem build_ok {g : Graph} (h : p.build power env = .ok g) :
    ∃ g', p.Builds g' ∧ g = g'.inputs power := by
  obtain ⟨_, hchecks, h⟩ := Outcome.bind_eq_ok.mp h
  have hchecked : Checked p.settings := by
    cases hresult : staticChecks env.primary p.settings with
    | error e =>
      rw [hresult] at hchecks
      cases hchecks
    | ok u => exact checked_of_staticChecks hresult
  simp only at h
  split_ifs at h
  obtain ⟨sources, hsources, h⟩ := Outcome.bind_eq_ok.mp h
  obtain ⟨sinks, hsinks, h⟩ := Outcome.bind_eq_ok.mp h
  obtain ⟨routes, hroutes, h⟩ := Outcome.bind_eq_ok.mp h
  cases h
  refine ⟨_, ⟨hchecked, rfl, ?_, ?_, ?_, ?_, ?_, ?_⟩, rfl⟩
  · have hsub := skipped_sublist (fun s : Graph.Source => s.settings.id) SourceSettings.id
      (fun x s hs => by rw [(makeSource_ok hs).1]) hsources
    exact hchecked.sources.sublist hsub
  · rw [sinks_made hsinks]
    exact hchecked.sinks
  · have hsub := skipped_sublist (fun r : Graph.Route => r.settings.id) RouteSettings.id
      (fun x r hr => by rw [(makeRoute_ok hr).1]) hroutes
    exact hchecked.routes.sublist hsub
  · intro s hs
    obtain ⟨x, hx, hmade⟩ := mem_skipped hsources hs
    obtain ⟨rfl, hfrom⟩ := makeSource_ok hmade
    exact ⟨hx, hfrom⟩
  · intro s hs
    obtain ⟨x, hx, hmade⟩ := Outcome.mem_of_forall₂ (Outcome.mapM_eq_ok.mp hsinks).flip hs
    obtain ⟨rfl, hfrom⟩ := makeSink_ok hmade
    exact ⟨hx, hfrom⟩
  · intro r hr
    obtain ⟨x, hx, hmade⟩ := mem_skipped hroutes hr
    obtain ⟨rfl, hfrom⟩ := makeRoute_ok hmade
    exact ⟨hx, hfrom⟩

/-! ### Placed as before -/

theorem sameSource_id {a b : SourceSettings} (h : sameSource a b = true) : a.id = b.id := by
  simp only [sameSource, Bool.and_eq_true, beq_iff_eq] at h
  exact h.1.1.1.1.1.1.1

theorem sameSink_id {a b : SinkSettings} (h : sameSink a b = true) : a.id = b.id := by
  simp only [sameSink, Bool.and_eq_true, beq_iff_eq] at h
  exact h.1.1.1.1.1.1

theorem sameRoute_iff {a b : RouteSettings} :
    sameRoute a b = true ↔ a.id = b.id ∧ a.source = b.source ∧ a.sink = b.sink := by
  simp only [sameRoute, Bool.and_eq_true, beq_iff_eq, and_assoc]

theorem lineOf_of {base : Graph} {a : Address} {kind : Kind} {id : String}
    (h : a.Of p.built kind id) : (p.lineOf base a kind id).Of (p.built + 1) kind id := by
  unfold lineOf
  split_ifs
  · exact Address.Of.later h (Nat.le_succ _)
  · exact Address.of_own _ _ _

theorem Builds.placed {g : Graph} (h : p.Builds g)
    (hbase : ∀ base, p.base = some base → base.Placed p.built) : g.Placed (p.built + 1) where
  sourceIds := h.sourceIds
  sinkIds := h.sinkIds
  routeIds := h.routeIds
  sourceBuffer s hs := by
    cases (h.sources s hs).2 with
    | kept base hb o ho device same buffer delay =>
      rw [buffer, ← sameSource_id same]
      exact Address.Of.later ((hbase base hb).sourceBuffer o ho) (Nat.le_succ _)
    | fresh buffer delay none =>
      rw [buffer]
      exact Address.of_own _ _ _
  routeBuffer r hr := by
    obtain ⟨-, -, -, s, -, -, hfrom⟩ := h.routes r hr
    cases hfrom with
    | kept base hb o ho same capacity wide buffer delay history =>
      rw [buffer, ← (sameRoute_iff.mp same).1]
      exact Address.Of.later ((hbase base hb).routeBuffer o ho) (Nat.le_succ _)
    | fresh buffer delay history none =>
      rw [buffer]
      exact Address.of_own _ _ _
  sourceDelay s hs := by
    cases (h.sources s hs).2 with
    | kept base hb o ho device same buffer delay =>
      have hold := (hbase base hb).sourceDelay o ho
      rw [sameSource_id same] at hold
      rw [delay]
      exact lineOf_of hold
    | fresh buffer delay none =>
      rw [delay]
      exact Address.of_own _ _ _
  sinkDelay s hs := by
    cases (h.sinks s hs).2 with
    | kept base hb o ho same delay =>
      have hold := (hbase base hb).sinkDelay o ho
      rw [sameSink_id same] at hold
      rw [delay]
      exact lineOf_of hold
    | fresh delay =>
      rw [delay]
      exact Address.of_own _ _ _
  routeDelay r hr := by
    obtain ⟨-, -, -, s, -, -, hfrom⟩ := h.routes r hr
    cases hfrom with
    | kept base hb o ho same capacity wide buffer delay history =>
      rw [delay, ← (sameRoute_iff.mp same).1]
      exact Address.Of.later ((hbase base hb).routeDelay o ho) (Nat.le_succ _)
    | fresh buffer delay history none =>
      rw [delay]
      exact Address.of_own _ _ _
  source r hr := by
    obtain ⟨-, -, -, s, hs, hid, -⟩ := h.routes r hr
    exact ⟨s, hs, hid⟩
  sink r hr := (h.routes r hr).2.1

end Plan

/-! ### Delay lines -/

theorem foldl_update {α β γ : Type} [DecidableEq α] (f : γ → β → γ) {l : List (α × β)}
    (nodup : (l.map Prod.fst).Nodup) (m : α → γ) :
    (∀ e ∈ l, l.foldl (fun m e => Function.update m e.1 (f (m e.1) e.2)) m e.1 = f (m e.1) e.2) ∧
    ∀ a ∉ l.map Prod.fst, l.foldl (fun m e => Function.update m e.1 (f (m e.1) e.2)) m a = m a := by
  induction l generalizing m with
  | nil => exact ⟨nofun, fun _ _ => rfl⟩
  | cons d l ih =>
    obtain ⟨hd, hl⟩ := List.nodup_cons.mp nodup
    obtain ⟨hin, hout⟩ := ih hl (Function.update m d.1 (f (m d.1) d.2))
    refine ⟨?_, ?_⟩
    · intro e he
      rw [List.foldl_cons]
      rcases List.mem_cons.mp he with rfl | he
      · rw [hout _ hd, Function.update_self]
      · have hne : e.1 ≠ d.1 := by
          intro hsame
          rw [← hsame] at hd
          exact hd (List.mem_map_of_mem he)
        rw [hin e he, Function.update_of_ne hne]
    · intro a ha
      obtain ⟨hne, ha⟩ := not_or.mp (List.mem_cons.not.mp ha)
      rw [List.foldl_cons, hout a ha, Function.update_of_ne hne]

namespace Graph

theorem nodup_of_ids {α : Type} {l : List α} {id : α → String} {delay : α → Address}
    (nodup : (l.map id).Nodup) (h : ∀ x ∈ l, (delay x).id = id x) : (l.map delay).Nodup := by
  have hids : (l.map delay).map Address.id = l.map id := by
    rw [List.map_map]
    exact List.map_congr_left h
  refine List.Nodup.of_map Address.id ?_
  rw [hids]
  exact nodup

variable {g : Graph} {built : ℕ}

theorem delays_nodup (h : g.Placed built) : (g.delays.map Prod.fst).Nodup := by
  have hsources := nodup_of_ids h.sourceIds fun s hs => (h.sourceDelay s hs).id
  have hsinks := nodup_of_ids h.sinkIds fun s hs => (h.sinkDelay s hs).id
  have hroutes := nodup_of_ids h.routeIds fun r hr => (h.routeDelay r hr).id
  have hkinds : ∀ (kind : Kind) (l : List Address), (∀ a ∈ l, a.kind = kind) → ∀ (other : Kind)
      (m : List Address), (∀ a ∈ m, a.kind = other) → kind ≠ other → l.Disjoint m := by
    intro kind l hl other m hm hne a ha ha'
    exact hne ((hl a ha).symm.trans (hm a ha'))
  have hsourceKind : ∀ a ∈ g.sources.map Source.delay, a.kind = .source := by
    intro a ha
    obtain ⟨s, hs, rfl⟩ := List.mem_map.mp ha
    exact (h.sourceDelay s hs).kind
  have hsinkKind : ∀ a ∈ g.sinks.map Sink.delay, a.kind = .sink := by
    intro a ha
    obtain ⟨s, hs, rfl⟩ := List.mem_map.mp ha
    exact (h.sinkDelay s hs).kind
  have hrouteKind : ∀ a ∈ g.routes.map Route.delay, a.kind = .route := by
    intro a ha
    obtain ⟨r, hr, rfl⟩ := List.mem_map.mp ha
    exact (h.routeDelay r hr).kind
  have hkeys : g.delays.map Prod.fst =
      g.sources.map Source.delay ++ g.sinks.map Sink.delay ++ g.routes.map Route.delay := by
    simp [delays, Function.comp_def]
  rw [hkeys]
  refine List.Nodup.append (List.Nodup.append hsources hsinks ?_) hroutes ?_
  · exact hkinds _ _ hsourceKind _ _ hsinkKind (by decide)
  · refine List.disjoint_append_left.mpr ⟨?_, ?_⟩
    · exact hkinds _ _ hsourceKind _ _ hrouteKind (by decide)
    · exact hkinds _ _ hsinkKind _ _ hrouteKind (by decide)

/-- The delay of a route once the graph is taken over. -/
theorem setDelays_route (h : g.Placed built) (lines : Lines) {r : Route} (hr : r ∈ g.routes) :
    g.setDelays lines r.delay =
      (lines r.delay).setDelayFrames (r.settings.delayMs * rate / 1000 : ℕ) := by
  have hmem : (r.delay, r.settings.delayMs * rate / 1000) ∈ g.delays :=
    List.mem_append_right _ (List.mem_map_of_mem hr)
  exact (foldl_update (fun (s : DelayLine) (d : ℕ) => s.setDelayFrames d) (delays_nodup h)
    lines).1 _ hmem

end Graph

/-! ### Runs of the engine -/

namespace Graph

theorem Placed.later {g : Graph} {built built' : ℕ} (h : g.Placed built) (hlater : built ≤ built') :
    g.Placed built' :=
  { h with
    sourceBuffer := fun s hs => (h.sourceBuffer s hs).later hlater
    routeBuffer := fun r hr => (h.routeBuffer r hr).later hlater
    sourceDelay := fun s hs => (h.sourceDelay s hs).later hlater
    sinkDelay := fun s hs => (h.sinkDelay s hs).later hlater
    routeDelay := fun r hr => (h.routeDelay r hr).later hlater }

/-- No two routes have one id. -/
theorem route_unique {g : Graph} (nodup : (g.routes.map fun r => r.settings.id).Nodup) {r o : Route}
    (hr : r ∈ g.routes) (ho : o ∈ g.routes) (hid : r.settings.id = o.settings.id) : r = o :=
  List.inj_on_of_nodup_map nodup hr ho hid

/-- The delay lines of the routes are as long as the routes say. -/
def Sized (g : Graph) (lines : Lines) : Prop :=
  ∀ r ∈ g.routes, (lines r.delay).size = r.capacity + 1

end Graph

namespace Engine

open Graph

structure Sound (power : ℚ → ℚ) (e : Engine) : Prop where
  placed : ∀ g, e.graph = some g → g.Placed e.built
  mixes : ∀ g, e.graph = some g → g.Mixes power
  sized : ∀ g, e.graph = some g → g.Sized e.lines

variable {e : Engine}

theorem allocate_old {g : Graph} {built : ℕ} {lines : Lines} {kind : Kind} {id : String}
    {a : Address} (h : a.Of built kind id) : allocate g built lines a = lines a :=
  if_neg (Nat.ne_of_lt h.built)

theorem publish_sound (hpower : ∀ db, 0 ≤ power db) (h : e.Sound power) {g : Graph}
    (placed : g.Placed (e.built + 1))
    (sized : (g.inputs power).Sized (allocate (g.inputs power) e.built e.lines)) :
    (e.publish (g.inputs power)).Sound power where
  placed g' hg' := by
    cases hg'
    exact (placed.same (places_inputs g)).same (places_adopt _ _)
  mixes g' hg' := by
    cases hg'
    exact mixes_adopt hpower (fun o ho => h.mixes o ho) g
  sized g' hg' := by
    cases hg'
    intro r hr
    have hdelays := setDelays_route (placed.same (places_inputs g))
      (allocate (g.inputs power) e.built e.lines) hr
    refine (congrArg DelayLine.size hdelays).trans ?_
    rw [DelayLine.setDelayFrames_size]
    exact sized r hr

/-- What a plan takes over from. -/
theorem plan_base {s : AudioSettings} {base : Graph} (h : (e.plan s).base = some base) :
    e.graph = some base ∧ needsRestart base.settings s = false := by
  obtain ⟨hgraph, hrestart⟩ := Option.filter_eq_some_iff.mp h
  exact ⟨hgraph, by simpa using hrestart⟩

/-- The delay line a route comes with. -/
theorem allocate_new {p : Plan} {g : Graph} (hg : p.Builds g)
    (placed : g.Placed (p.built + 1)) (lines : Lines) {r : Route} (hr : r ∈ g.routes)
    (hdelay : r.delay = ⟨p.built, .route, r.settings.id⟩) :
    allocate (g.inputs power) p.built lines r.delay = .new r.buffer.channels r.capacity := by
  rw [hdelay, allocate, if_pos rfl, lineFor]
  simp only
  rw [(places_inputs g).routes]
  cases hfind : g.routes.find? fun o => o.delay = ⟨p.built, .route, r.settings.id⟩ with
  | none =>
    rw [List.find?_eq_none] at hfind
    exact absurd (decide_eq_true hdelay) (hfind r hr)
  | some o =>
    have ho := List.mem_of_find?_eq_some hfind
    have hsame : o.delay = ⟨p.built, .route, r.settings.id⟩ := by
      simpa using List.find?_some hfind
    have hid := (placed.routeDelay o ho).id
    rw [hsame] at hid
    rw [route_unique hg.routeIds hr ho hid]
    rfl

theorem sized_built (h : e.Sound power) {p : Plan} (hbuilt : p.built = e.built)
    (hbase : ∀ base, p.base = some base → e.graph = some base) {g : Graph} (hg : p.Builds g)
    (placed : g.Placed (p.built + 1)) :
    (g.inputs power).Sized (allocate (g.inputs power) e.built e.lines) := by
  intro r hr
  rw [(places_inputs g).routes] at hr
  obtain ⟨-, -, -, s, -, -, hfrom⟩ := hg.routes r hr
  cases hfrom with
  | kept base hb o ho same capacity wide buffer delay history =>
    have hold := hbase base hb
    rw [delay, allocate_old ((h.placed base hold).routeDelay o ho), h.sized base hold o ho,
      capacity]
  | fresh buffer delay history none =>
    rw [← hbuilt, allocate_new hg placed _ hr delay]
    rfl

theorem build_sound (hpower : ∀ db, 0 ≤ power db) (h : e.Sound power) {p : Plan}
    (hbuilt : p.built = e.built) (hbase : ∀ base, p.base = some base → e.graph = some base)
    {env : Surroundings} {g : Graph} (hg : p.build power env = .ok g) :
    (e.publish g).Sound power := by
  obtain ⟨g', hbuilds, rfl⟩ := Plan.build_ok hg
  have hplaced := hbuilds.placed fun base hb => hbuilt ▸ h.placed base (hbase base hb)
  have hsized := @sized_built power e h p hbuilt hbase g' hbuilds hplaced
  rw [hbuilt] at hplaced
  exact publish_sound hpower h hplaced hsized

/-- A request leaves the engine as it is or publishes what a plan of it builds. -/
theorem apply_cases (e : Engine) (env : Surroundings) (s : AudioSettings) :
    e.apply power env s = e ∨ ∃ s' g, (e.plan s').build power env = .ok g ∧
      e.apply power env s = e.publish g := by
  unfold apply
  split
  · rename_i g hg
    exact .inr ⟨s, g, hg, rfl⟩
  · split
    · split
      · split
        · rename_i old _ _ g hg
          exact .inr ⟨_, g, hg, rfl⟩
        · exact .inl rfl
      · exact .inl rfl
    · exact .inl rfl
  · exact .inl rfl

theorem apply_sound (hpower : ∀ db, 0 ≤ power db) (h : e.Sound power) (env : Surroundings)
    (s : AudioSettings) : (e.apply power env s).Sound power := by
  rcases @apply_cases power e env s with heq | ⟨s', g, hg, heq⟩
  · rw [heq]
    exact h
  · rw [heq]
    exact build_sound hpower h rfl (fun base hb => (plan_base hb).1) hg

theorem transition_sound (hpower : ∀ db, 0 ≤ power db) (h : e.Sound power) {g : Graph}
    (hg : e.graph = some g) (sources sinks : List String) :
    (e.publish (transition power g sources sinks)).Sound power := by
  unfold transition
  have same : SamePlaces g { g with
      sources := g.sources.map fun s =>
        { s with placeholder := s.placeholder || sources.contains s.settings.id }
      sinks := g.sinks.map fun s =>
        { s with placeholder := s.placeholder || sinks.contains s.settings.id } } :=
    ⟨rfl, by simp [Function.comp_def, Source.place], by simp [Function.comp_def, Sink.place], rfl⟩
  refine publish_sound hpower h (((h.placed g hg).same same).later (Nat.le_succ _)) ?_
  intro r hr
  have hr : r ∈ g.routes := by
    rw [← same.routes, ← (@places_inputs power _).routes]
    exact hr
  rw [allocate_old ((h.placed g hg).routeDelay r hr)]
  exact h.sized g hg r hr

theorem recover_sound (hpower : ∀ db, 0 ≤ power db) (h : e.Sound power) (env : Surroundings)
    (sources sinks : List String) : (e.recover power env sources sinks).Sound power := by
  unfold recover
  split
  · exact h
  · rename_i g hg
    have hbetween := transition_sound hpower h hg sources sinks
    simp only
    split
    · rename_i g' hg'
      refine build_sound hpower hbetween ?_ (fun base hb => ?_) hg'
      · rfl
      · exact (plan_base hb).1
    · exact hbetween

theorem step_sound (hpower : ∀ db, 0 ≤ power db) {e' : Engine} (h : e.Sound power)
    (hstep : Step power e e') : e'.Sound power := by
  cases hstep with
  | apply env s => exact apply_sound hpower h env s
  | recover env sources sinks => exact recover_sound hpower h env sources sinks
  | @period g hg lines processed others =>
    refine ⟨?_, ?_, ?_⟩
    · intro g' hg'
      cases hg'
      exact (h.placed g hg).same (places_period g)
    · intro g' hg'
      cases hg'
      exact mixes_period (h.mixes g hg)
    · intro g' hg'
      cases hg'
      intro r hr
      have hprocessed : r.delay ∈ g.processed :=
        List.mem_append_left _ (List.mem_append_right _ (List.mem_map_of_mem hr))
      obtain ⟨_, _, _, _, _, hline⟩ := processed _ hprocessed
      exact (DelayLine.process_size hline).trans (h.sized g hg r hr)

/-- Every graph an engine plays is placed and mixed as its settings say. -/
theorem reachable_sound (hpower : ∀ db, 0 ≤ power db) (h : Reachable power e) :
    e.Sound power := by
  induction h with
  | refl => exact ⟨nofun, nofun, nofun⟩
  | tail _ hstep ih => exact step_sound hpower ih hstep

end Engine

end NdimonR.Decoder.AudioEngine
