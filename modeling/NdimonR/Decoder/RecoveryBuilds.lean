import NdimonR.Decoder.EndpointRecovery

/-! The graph a recovery builds: the endpoints with a device are kept, the others asked for, and
nothing but a factory that refuses keeps it from being built. -/

namespace NdimonR.Decoder.AudioEngine

open Json Graph

variable {power : ℚ → ℚ}

/-! ### What a build needs -/

namespace Plan

variable {p : Plan} {env : Surroundings}

theorem build_eq_ok {g : Graph} : p.build power env = .ok g ↔
    staticChecks env.primary p.settings = .ok () ∧
      (p.settings.version = 2 →
        requiredBytes p.base p.settings ≤ p.settings.engine.memoryBudgetMib * 1024 * 1024) ∧
      ∃ sources sinks routes, p.settings.sources.mapM (p.makeSource env) = .ok sources ∧
        p.settings.sinks.mapM (p.makeSink env) = .ok sinks ∧
        p.settings.routes.mapM (p.makeRoute sources.reduceOption sinks) = .ok routes ∧
        g = Graph.inputs power
          { settings := p.settings
            sources := sources.reduceOption
            sinks
            routes := routes.reduceOption } := by
  have hchecks : (staticChecks env.primary p.settings).mapError Refusal.failed = .ok () ↔
      staticChecks env.primary p.settings = .ok () := by
    cases staticChecks env.primary p.settings with
    | error e => simp [Except.mapError]
    | ok u => simp [Except.mapError]
  rw [← hchecks]
  unfold build
  constructor
  · intro h
    obtain ⟨_, hstatic, h⟩ := Outcome.bind_eq_ok.mp h
    simp only at h
    split_ifs at h with hbudget
    obtain ⟨sources, hsources, h⟩ := Outcome.bind_eq_ok.mp h
    obtain ⟨sinks, hsinks, h⟩ := Outcome.bind_eq_ok.mp h
    obtain ⟨routes, hroutes, h⟩ := Outcome.bind_eq_ok.mp h
    refine ⟨hstatic, fun hversion => ?_, sources, sinks, routes, hsources, hsinks, hroutes, ?_⟩
    · exact not_lt.mp fun hlt => hbudget ⟨hversion, hlt⟩
    · exact (Except.ok.inj h).symm
  · rintro ⟨hstatic, hbudget, sources, sinks, routes, hsources, hsinks, hroutes, rfl⟩
    refine Outcome.bind_eq_ok.mpr ⟨(), hstatic, ?_⟩
    simp only
    rw [if_neg fun h => absurd (hbudget h.1) (not_le.mpr h.2)]
    refine Outcome.bind_eq_ok.mpr ⟨sources, hsources, ?_⟩
    refine Outcome.bind_eq_ok.mpr ⟨sinks, hsinks, ?_⟩
    exact Outcome.bind_eq_ok.mpr ⟨routes, hroutes, rfl⟩

theorem sinks_settings {l : List SinkSettings} {r : List Graph.Sink}
    (h : l.mapM (p.makeSink env) = .ok r) : r.map Graph.Sink.settings = l := by
  have hread := Outcome.mapM_eq_ok.mp h
  clear h
  induction hread with
  | nil => rfl
  | cons hx _ ih => rw [List.map_cons, ih, (makeSink_ok hx).1]

end Plan

/-! ### Coherent graphs -/

namespace Graph

/-- The settings of a graph pass the checks once more, with the memory that the graph has. -/
structure Coherent (primary : ℕ) (g : Graph) : Prop where
  checks : staticChecks primary g.settings = .ok ()
  fits : g.settings.version = 2 →
    requiredBytes (some g) g.settings ≤ g.settings.engine.memoryBudgetMib * 1024 * 1024
  sources : ∀ o ∈ g.sources, o.settings ∈ g.settings.sources
  sinks : g.sinks.map Sink.settings = g.settings.sinks
  routes : ∀ r ∈ g.routes, r.settings ∈ g.settings.routes ∧
    r.settings.delayMs * rate / 1000 ≤ r.capacity ∧
    ∃ o, g.sources[r.source]? = some o ∧ r.buffer.channels = o.settings.channels

theorem routeCapacity_same {g g' : Graph} (h : g'.routes = g.routes) (channels : ℕ)
    (r : RouteSettings) : routeCapacity (some g') channels r = routeCapacity (some g) channels r := by
  simp only [routeCapacity, Option.bind_some, h]

theorem sinks_settings_eq (g : Graph) :
    g.sinks.map Sink.settings = (g.sinks.map Sink.place).map Prod.fst := by simp [Sink.place]

theorem Coherent.same {primary : ℕ} {g g' : Graph} (h : g.Coherent primary)
    (same : SamePlaces g g') : g'.Coherent primary where
  checks := by
    rw [same.settings]
    exact h.checks
  fits hversion := by
    rw [same.settings] at hversion ⊢
    refine le_of_eq_of_le ?_ (h.fits hversion)
    simp only [requiredBytes, routeCapacity_same same.routes]
  sources o' ho' := by
    obtain ⟨o, ho, hplace⟩ := same.source_mem ho'
    simp only [Source.place, Prod.mk.injEq] at hplace
    rw [same.settings, ← hplace.1]
    exact h.sources o ho
  sinks := by
    rw [same.settings, sinks_settings_eq, same.sinks, ← sinks_settings_eq]
    exact h.sinks
  routes r hr := by
    rw [same.routes] at hr
    obtain ⟨hmem, hfits, o, ho, hchannels⟩ := h.routes r hr
    obtain ⟨o', ho', hplace⟩ := same.source_at ho
    simp only [Source.place, Prod.mk.injEq] at hplace
    rw [same.settings]
    exact ⟨hmem, hfits, o', ho', hchannels.trans (congrArg SourceSettings.channels hplace.1)⟩

/-- An endpoint with its device. -/
def Source.device (o : Source) : SourceSettings × Bool × Buffer × Address :=
  (o.settings, o.placeholder, o.buffer, o.delay)

def Sink.device (k : Sink) : SinkSettings × Bool × Buffer × Address :=
  (k.settings, k.placeholder, k.buffer, k.delay)

/-- Neither the inputs nor the fades of a graph are about its devices. -/
structure SameDevices (g g' : Graph) : Prop where
  sources : g'.sources.map Source.device = g.sources.map Source.device
  sinks : g'.sinks.map Sink.device = g.sinks.map Sink.device

theorem devices_inputs (g : Graph) : SameDevices g (g.inputs power) := by
  unfold inputs
  split_ifs with hversion
  · exact ⟨rfl, by simp [Function.comp_def, Sink.device]⟩
  · refine ⟨?_, ?_⟩
    · apply List.ext_getElem?
      intro k
      simp only [List.getElem?_map, List.getElem?_mapIdx]
      cases g.sources[k]? <;> rfl
    · apply List.ext_getElem?
      intro k
      simp only [List.getElem?_map, List.getElem?_mapIdx]
      cases g.sinks[k]? <;> rfl

theorem devices_adopt (old : Option Graph) (g : Graph) : SameDevices g (g.adopt old) :=
  ⟨rfl, by simp [adopt, Function.comp_def, Sink.device]⟩

theorem SameDevices.trans {g g' g'' : Graph} (h : SameDevices g g') (h' : SameDevices g' g'') :
    SameDevices g g'' := ⟨h'.sources.trans h.sources, h'.sinks.trans h.sinks⟩

theorem SameDevices.source_mem {g g' : Graph} (h : SameDevices g g') {o : Source}
    (ho : o ∈ g.sources) : ∃ o' ∈ g'.sources, o'.device = o.device := by
  have hmem := List.mem_map_of_mem (f := Source.device) ho
  rw [← h.sources] at hmem
  exact List.mem_map.mp hmem

theorem SameDevices.sink_mem {g g' : Graph} (h : SameDevices g g') {k : Sink}
    (hk : k ∈ g.sinks) : ∃ k' ∈ g'.sinks, k'.device = k.device := by
  have hmem := List.mem_map_of_mem (f := Sink.device) hk
  rw [← h.sinks] at hmem
  exact List.mem_map.mp hmem

end Graph

namespace Plan

variable {p : Plan} {env : Surroundings}

/-- A route that was built asks for no more than it did when it was. -/
theorem routeCapacity_built {g : Graph} (h : p.Builds g) {r : RouteSettings}
    (hr : r ∈ p.settings.routes) : routeCapacity (some g) (routeChannels p.settings r) r ≤
      routeCapacity p.base (routeChannels p.settings r) r := by
  have hfound : routeCapacity (some g) (routeChannels p.settings r) r =
      ((g.routes.find? fun o => sameRoute o.settings r &&
        o.buffer.channels == routeChannels p.settings r &&
          decide (r.delayMs * rate / 1000 ≤ o.capacity)).map Graph.Route.capacity).getD
        (r.delayMs * rate / 1000) := rfl
  rw [hfound]
  cases hfind : g.routes.find? fun o => sameRoute o.settings r &&
      o.buffer.channels == routeChannels p.settings r &&
        decide (r.delayMs * rate / 1000 ≤ o.capacity) with
  | none => exact routeCapacity_le _ _ _
  | some o =>
    have hsame := List.find?_some hfind
    simp only [Bool.and_eq_true] at hsame
    obtain ⟨ho, _, hcapacity, _⟩ := h.routes o (List.mem_of_find?_eq_some hfind)
    have hid := (sameRoute_iff.mp hsame.1.1).1
    rw [List.inj_on_of_nodup_map h.checked.routes ho hr hid] at hcapacity
    exact le_of_eq hcapacity

theorem requiredBytes_built {g : Graph} (h : p.Builds g) :
    requiredBytes (some g) p.settings ≤ requiredBytes p.base p.settings := by
  unfold requiredBytes
  refine Nat.add_le_add_left (List.sum_le_sum fun r hr => ?_) _
  have hcapacity := routeCapacity_built h hr
  simp only [bufferBytes]
  exact Nat.mul_le_mul_right 4 (Nat.mul_le_mul_left _ (by omega))

theorem build_coherent {g : Graph} (h : p.build power env = .ok g) :
    g.Coherent env.primary := by
  obtain ⟨hchecks, hfits, sources, sinks, routes, hsources, hsinks, hroutes, hg⟩ := build_eq_ok.mp h
  obtain ⟨g', hbuilds, hg'⟩ := build_ok h
  have hsame : SamePlaces g' g := hg' ▸ places_inputs g'
  refine Coherent.same ⟨?_, ?_, ?_, ?_, fun r hr => ?_⟩ hsame
  · rw [hbuilds.settings]
    exact hchecks
  · rw [hbuilds.settings]
    exact fun hversion => (requiredBytes_built hbuilds).trans (hfits hversion)
  · rw [hbuilds.settings]
    exact fun o ho => (hbuilds.sources o ho).1
  · rw [sinks_settings_eq, ← hsame.sinks, ← sinks_settings_eq, hg, sinks_settings_eq,
      (places_inputs _).sinks, ← sinks_settings_eq, hbuilds.settings]
    exact sinks_settings hsinks
  · obtain ⟨hmem, _, hcapacity, o, ho, _, hmade⟩ := hbuilds.routes r hr
    rw [hbuilds.settings]
    refine ⟨hmem, ?_, o, ho, made_channels hmade⟩
    rw [hcapacity]
    exact routeCapacity_le _ _ _

/-! ### What is asked for -/

/-- The receiver of a source is not there. -/
def revoked (env : Surroundings) (x : SourceSettings) : Bool :=
  x.type = "ndi" && !env.registered (if x.output = 0 then env.primary else x.output)

/-- The endpoint of the graph before whose device is kept. -/
def priorSource (p : Plan) (x : SourceSettings) : Option (Graph × Graph.Source) :=
  if x.id ∈ p.reopenSources then none else p.base.bind fun g =>
    (g.sources.find? fun o => !o.placeholder && sameSource o.settings x).map fun o => (g, o)

def priorSink (p : Plan) (x : SinkSettings) : Option (Graph × Graph.Sink) :=
  if x.id ∈ p.reopenSinks then none else p.base.bind fun g =>
    (g.sinks.find? fun o => !o.placeholder && sameSink o.settings x).map fun o => (g, o)

/-- The factory of the endpoint is asked for a device. -/
def asksSource (p : Plan) (env : Surroundings) (x : SourceSettings) : Bool :=
  !revoked env x && (p.priorSource x).isNone

def asksSink (p : Plan) (x : SinkSettings) : Bool := (p.priorSink x).isNone

theorem makeSource_eq (p : Plan) (env : Surroundings) (x : SourceSettings) : p.makeSource env x =
    if revoked env x = true then .ok none
    else
      match p.priorSource x with
      | some (g, o) => .ok (some
          { settings := x
            placeholder := o.placeholder
            buffer := o.buffer
            delay := p.lineOf g o.delay .source x.id })
      | none =>
        match env.openSource x with
        | .device placeholder => .ok (some
            { settings := x
              placeholder
              buffer := p.allocated .source x.id x.channels
              delay := ⟨p.built, .source, x.id⟩ })
        | .busy => .error (.busy x.id)
        | .failed error => .error (.failed error) := by
  unfold makeSource
  refine if_congr ?_ rfl rfl
  simp [revoked]

theorem makeSink_eq (p : Plan) (env : Surroundings) (x : SinkSettings) : p.makeSink env x =
    match p.priorSink x with
    | some (g, o) => .ok
        { settings := x
          placeholder := o.placeholder
          buffer := o.buffer
          delay := p.lineOf g o.delay .sink x.id }
    | none =>
      match env.openSink x with
      | .device placeholder => .ok
          { settings := x
            placeholder
            buffer := p.allocated .sink x.id x.channels
            delay := ⟨p.built, .sink, x.id⟩ }
      | .busy => .error (.busy x.id)
      | .failed error => .error (.failed error) := rfl

theorem sink_of_route {primary : ℕ} {s : AudioSettings} (h : staticChecks primary s = .ok ())
    {r : RouteSettings} (hr : r ∈ s.routes) : ∃ k ∈ s.sinks, k.id = r.sink := by
  obtain ⟨_, _, h⟩ := Outcome.bind_eq_ok.mp h
  obtain ⟨_, _, h⟩ := Outcome.bind_eq_ok.mp h
  obtain ⟨_, _, h⟩ := Outcome.bind_eq_ok.mp h
  obtain ⟨_, _, h⟩ := Outcome.bind_eq_ok.mp h
  obtain ⟨seen, hroutes, _⟩ := Outcome.bind_eq_ok.mp h
  have hall := Outcome.foldlM_ensures
    (P := fun done (_ : RoutesSeen) => ∀ r ∈ done, ∃ k ∈ s.sinks, k.id = r.sink)
    (fun done seen r seen' hdone hstep => ?_) (fun r hr => absurd hr List.not_mem_nil) hroutes
  · exact hall r hr
  · intro r' hr'
    rcases List.mem_append.mp hr' with hr' | hr'
    · exact hdone r' hr'
    · rw [List.mem_singleton.mp hr']
      unfold checkRoute at hstep
      split at hstep
      · rename_i source sink output hsource hsink houtput
        exact ⟨sink, List.mem_of_find?_eq_some hsink, by simpa using List.find?_some hsink⟩
      · cases hstep

/-- A plan that builds the graph once more, without the devices that are opened again. -/
structure Recovers (p : Plan) (primary : ℕ) (t : Graph) : Prop where
  base : p.base = some t
  settings : p.settings = t.settings
  placed : t.Placed p.built
  coherent : t.Coherent primary
  sources : ∀ o ∈ t.sources, o.settings.id ∈ p.reopenSources → o.placeholder = true
  sinks : ∀ k ∈ t.sinks, k.settings.id ∈ p.reopenSinks → k.placeholder = true

namespace Recovers

variable {primary : ℕ} {t : Graph}

theorem priorSource_eq (h : p.Recovers primary t) {o : Graph.Source} (ho : o ∈ t.sources)
    (device : o.placeholder = false) : p.priorSource o.settings = some (t, o) := by
  have hnew : o.settings.id ∉ p.reopenSources := by
    intro hmem
    rw [h.sources o ho hmem] at device
    cases device
  rw [priorSource, if_neg hnew, h.base, Option.bind_some]
  have hfit : (!o.placeholder && sameSource o.settings o.settings) = true := by
    simp [device, sameSource]
  cases hfind : t.sources.find? fun o' => !o'.placeholder && sameSource o'.settings o.settings with
  | none =>
    rw [List.find?_eq_none] at hfind
    exact absurd hfit (hfind o ho)
  | some o' =>
    have hsame := List.find?_some hfind
    simp only [Bool.and_eq_true] at hsame
    have hid := sameSource_id hsame.2
    rw [source_unique h.placed (List.mem_of_find?_eq_some hfind) ho hid]
    rfl

theorem priorSink_eq (h : p.Recovers primary t) {k : Graph.Sink} (hk : k ∈ t.sinks)
    (device : k.placeholder = false) : p.priorSink k.settings = some (t, k) := by
  have hnew : k.settings.id ∉ p.reopenSinks := by
    intro hmem
    rw [h.sinks k hk hmem] at device
    cases device
  rw [priorSink, if_neg hnew, h.base, Option.bind_some]
  have hfit : (!k.placeholder && sameSink k.settings k.settings) = true := by
    simp [device, sameSink]
  cases hfind : t.sinks.find? fun k' => !k'.placeholder && sameSink k'.settings k.settings with
  | none =>
    rw [List.find?_eq_none] at hfind
    exact absurd hfit (hfind k hk)
  | some k' =>
    have hsame := List.find?_some hfind
    simp only [Bool.and_eq_true] at hsame
    have hid := sameSink_id hsame.2
    rw [sink_unique h.placed (List.mem_of_find?_eq_some hfind) hk hid]
    rfl

/-- An endpoint is asked for exactly where the graph has no device for it. -/
theorem asksSource_iff (h : p.Recovers primary t) {x : SourceSettings} (hx : x ∈ p.settings.sources) :
    p.asksSource env x = true ↔ revoked env x = false ∧
      ∀ o ∈ t.sources, o.settings.id = x.id → o.placeholder = true := by
  have hchecked := checked_of_staticChecks h.coherent.checks
  rw [asksSource, Bool.and_eq_true, Bool.not_eq_true']
  refine and_congr_right fun _ => ⟨fun hnone o ho hid => ?_, fun hall => ?_⟩
  · by_contra hdevice
    rw [h.settings] at hx
    have hsame := List.inj_on_of_nodup_map hchecked.sources (h.coherent.sources o ho) hx hid
    rw [← hsame, h.priorSource_eq ho (eq_false_of_ne_true hdevice)] at hnone
    cases hnone
  · unfold priorSource
    split_ifs
    · rfl
    · rw [h.base, Option.bind_some, Option.isNone_map, Option.isNone_iff_eq_none,
        List.find?_eq_none]
      intro o ho hfit
      simp only [Bool.and_eq_true, Bool.not_eq_true'] at hfit
      rw [hall o ho (sameSource_id hfit.2)] at hfit
      cases hfit.1

theorem asksSink_iff (h : p.Recovers primary t) {x : SinkSettings} (hx : x ∈ p.settings.sinks) :
    p.asksSink x = true ↔ ∀ k ∈ t.sinks, k.settings.id = x.id → k.placeholder = true := by
  have hchecked := checked_of_staticChecks h.coherent.checks
  rw [asksSink]
  refine ⟨fun hnone k hk hid => ?_, fun hall => ?_⟩
  · by_contra hdevice
    rw [h.settings] at hx
    have hmem : k.settings ∈ t.settings.sinks := h.coherent.sinks ▸ List.mem_map_of_mem hk
    have hsame := List.inj_on_of_nodup_map hchecked.sinks hmem hx hid
    rw [← hsame, h.priorSink_eq hk (eq_false_of_ne_true hdevice)] at hnone
    cases hnone
  · unfold priorSink
    split_ifs
    · rfl
    · rw [h.base, Option.bind_some, Option.isNone_map, Option.isNone_iff_eq_none,
        List.find?_eq_none]
      intro k hk hfit
      simp only [Bool.and_eq_true, Bool.not_eq_true'] at hfit
      rw [hall k hk (sameSink_id hfit.2)] at hfit
      cases hfit.1

theorem makeRoute_ok {sources : List Graph.Source} {sinks : List Graph.Sink} {r : RouteSettings}
    (hsink : ∃ k ∈ sinks, k.settings.id = r.sink) : (p.makeRoute sources sinks r).isOk = true := by
  unfold makeRoute
  split
  · rfl
  · rename_i hnone
    obtain ⟨k, hk, hid⟩ := hsink
    rw [List.find?_eq_none] at hnone
    obtain ⟨i, hi⟩ := List.getElem?_of_mem hk
    refine absurd ?_ (hnone (k, i) (List.mem_zipIdx_iff_getElem?.mpr hi))
    simpa using hid
  · dsimp only
    split <;> rfl

/-- A recovery is built exactly where every factory it asks gives a device. -/
theorem build_iff (h : p.Recovers primary t) (hprimary : env.primary = primary) :
    (∃ g, p.build power env = .ok g) ↔
      (∀ x ∈ p.settings.sources, p.asksSource env x = true →
        ∃ placeholder, env.openSource x = .device placeholder) ∧
      ∀ x ∈ p.settings.sinks, p.asksSink x = true →
        ∃ placeholder, env.openSink x = .device placeholder := by
  have hsource : ∀ x, (p.makeSource env x).isOk = true ↔ (p.asksSource env x = true →
      ∃ placeholder, env.openSource x = .device placeholder) := by
    intro x
    rw [makeSource_eq, asksSource]
    by_cases hrevoked : revoked env x = true
    · simp [hrevoked]
    · rw [if_neg hrevoked]
      cases hprior : p.priorSource x with
      | some prior => simp
      | none => cases env.openSource x <;> simp [hrevoked]
  have hsink : ∀ x, (p.makeSink env x).isOk = true ↔ (p.asksSink x = true →
      ∃ placeholder, env.openSink x = .device placeholder) := by
    intro x
    rw [makeSink_eq, asksSink]
    cases hprior : p.priorSink x with
    | some prior => simp
    | none => cases env.openSink x <;> simp
  constructor
  · rintro ⟨g, hg⟩
    obtain ⟨_, _, sources, sinks, _, hsources, hsinks, _⟩ := build_eq_ok.mp hg
    refine ⟨fun x hx => (hsource x).mp ?_, fun x hx => (hsink x).mp ?_⟩
    · exact Outcome.isOk_mapM.mp (Outcome.isOk_iff.mpr ⟨_, hsources⟩) x hx
    · exact Outcome.isOk_mapM.mp (Outcome.isOk_iff.mpr ⟨_, hsinks⟩) x hx
  · rintro ⟨hsources, hsinks⟩
    obtain ⟨sources, hsources⟩ := Outcome.isOk_iff.mp
      (Outcome.isOk_mapM.mpr fun x hx => (hsource x).mpr (hsources x hx))
    obtain ⟨sinks, hsinks⟩ := Outcome.isOk_iff.mp
      (Outcome.isOk_mapM.mpr fun x hx => (hsink x).mpr (hsinks x hx))
    have hchecks : staticChecks env.primary p.settings = .ok () := by
      rw [hprimary, h.settings]
      exact h.coherent.checks
    have hroute : ∀ r ∈ p.settings.routes,
        (p.makeRoute sources.reduceOption sinks r).isOk = true := by
      intro r hr
      obtain ⟨k, hk, hid⟩ := sink_of_route hchecks hr
      rw [← sinks_settings hsinks] at hk
      obtain ⟨made, hmade, rfl⟩ := List.mem_map.mp hk
      exact makeRoute_ok ⟨made, hmade, hid⟩
    obtain ⟨routes, hroutes⟩ := Outcome.isOk_iff.mp (Outcome.isOk_mapM.mpr hroute)
    refine ⟨_, build_eq_ok.mpr ⟨hchecks, ?_, sources, sinks, routes, hsources, hsinks, hroutes, rfl⟩⟩
    rw [h.base, h.settings]
    exact h.coherent.fits

/-! ### What is built -/

theorem lineOf_same (h : p.Recovers primary t) (a : Address) (kind : Kind) (id : String) :
    p.lineOf t a kind id = a := by rw [lineOf, if_pos (congrArg AudioSettings.version h.settings)]

theorem source_built {g : Graph} (hg : p.build power env = .ok g) {x : SourceSettings}
    (hx : x ∈ p.settings.sources) {o : Graph.Source} (ho : p.makeSource env x = .ok (some o)) :
    ∃ o' ∈ g.sources, o'.device = o.device := by
  obtain ⟨_, _, sources, sinks, routes, hsources, _, _, rfl⟩ := build_eq_ok.mp hg
  obtain ⟨made, hmade, heq⟩ := Outcome.mem_of_forall₂ (Outcome.mapM_eq_ok.mp hsources) hx
  obtain rfl : some o = made := Except.ok.inj (ho.symm.trans heq)
  exact (devices_inputs _).source_mem (List.reduceOption_mem_iff.mpr hmade)

theorem sink_built {g : Graph} (hg : p.build power env = .ok g) {x : SinkSettings}
    (hx : x ∈ p.settings.sinks) {k : Graph.Sink} (hk : p.makeSink env x = .ok k) :
    ∃ k' ∈ g.sinks, k'.device = k.device := by
  obtain ⟨_, _, sources, sinks, routes, _, hsinks, _, rfl⟩ := build_eq_ok.mp hg
  obtain ⟨made, hmade, heq⟩ := Outcome.mem_of_forall₂ (Outcome.mapM_eq_ok.mp hsinks) hx
  obtain rfl : k = made := Except.ok.inj (hk.symm.trans heq)
  exact (devices_inputs _).sink_mem hmade

theorem source_kept (h : p.Recovers primary t) {g : Graph} (hg : p.build power env = .ok g)
    {o : Graph.Source} (ho : o ∈ t.sources) (device : o.placeholder = false)
    (registered : revoked env o.settings = false) : ∃ o' ∈ g.sources, o'.device = o.device := by
  have hx : o.settings ∈ p.settings.sources := h.settings ▸ h.coherent.sources o ho
  refine source_built (o := { o with selected := true }) hg hx ?_
  rw [makeSource_eq, if_neg (ne_true_of_eq_false registered), h.priorSource_eq ho device]
  dsimp only
  rw [h.lineOf_same]

theorem sink_kept (h : p.Recovers primary t) {g : Graph} (hg : p.build power env = .ok g)
    {k : Graph.Sink} (hk : k ∈ t.sinks) (device : k.placeholder = false) :
    ∃ k' ∈ g.sinks, k'.device = k.device := by
  have hx : k.settings ∈ p.settings.sinks := by
    rw [h.settings, ← h.coherent.sinks]
    exact List.mem_map_of_mem hk
  refine sink_built (k := { k with inputs := [] }) hg hx ?_
  rw [makeSink_eq, h.priorSink_eq hk device]
  dsimp only
  rw [h.lineOf_same]

theorem source_fresh {g : Graph} (hg : p.build power env = .ok g) {x : SourceSettings}
    (hx : x ∈ p.settings.sources) (asks : p.asksSource env x = true) {placeholder : Bool}
    (opened : env.openSource x = .device placeholder) : ∃ o ∈ g.sources, o.settings = x ∧
      o.placeholder = placeholder ∧ o.buffer.address = ⟨p.built, .source, x.id⟩ := by
  simp only [asksSource, Bool.and_eq_true, Bool.not_eq_true', Option.isNone_iff_eq_none] at asks
  obtain ⟨o, ho, hdevice⟩ := source_built hg hx (o :=
    { settings := x
      placeholder
      buffer := p.allocated .source x.id x.channels
      delay := ⟨p.built, .source, x.id⟩ }) (by
        rw [makeSource_eq, if_neg (ne_true_of_eq_false asks.1), asks.2]
        dsimp only
        rw [opened])
  simp only [Graph.Source.device, Prod.mk.injEq] at hdevice
  exact ⟨o, ho, hdevice.1, hdevice.2.1, by rw [hdevice.2.2.1, allocated]⟩

theorem sink_fresh {g : Graph} (hg : p.build power env = .ok g) {x : SinkSettings}
    (hx : x ∈ p.settings.sinks) (asks : p.asksSink x = true) {placeholder : Bool}
    (opened : env.openSink x = .device placeholder) : ∃ k ∈ g.sinks, k.settings = x ∧
      k.placeholder = placeholder ∧ k.buffer.address = ⟨p.built, .sink, x.id⟩ := by
  simp only [asksSink, Option.isNone_iff_eq_none] at asks
  obtain ⟨k, hk, hdevice⟩ := sink_built hg hx (k :=
    { settings := x
      placeholder
      buffer := p.allocated .sink x.id x.channels
      delay := ⟨p.built, .sink, x.id⟩ }) (by
        rw [makeSink_eq, asks]
        dsimp only
        rw [opened])
  simp only [Graph.Sink.device, Prod.mk.injEq] at hdevice
  exact ⟨k, hk, hdevice.1, hdevice.2.1, by rw [hdevice.2.2.1, allocated]⟩

end Recovers

end Plan

end NdimonR.Decoder.AudioEngine
