import NdimonR.Decoder.RecoveryBuilds

/-! The gains of what has a device go on from where they were while a recovery is under way. -/

namespace NdimonR.Decoder.AudioEngine

open Json Graph

variable {power : ℚ → ℚ}

/-- Whatever a sink mixes of a block is mixed with the same gain, from where it was. -/
def GoesOn (B A : Graph) (block : Address) : Prop :=
  ∀ k ∈ B.sinks, ∀ p ∈ k.inputs, p.block = block → ∃ k' ∈ A.sinks, k'.settings = k.settings ∧
    ∃ q ∈ k'.inputs, q.block = block ∧ q.gain = p.gain ∧ q.gainAt 0 = p.gainAt 0

theorem GoesOn.trans {B T A : Graph} {block : Address} (h : GoesOn B T block)
    (h' : GoesOn T A block) : GoesOn B A block := by
  intro k hk p hp hblock
  obtain ⟨k₁, hk₁, hsettings, q, hq, hq', hgain, hstart⟩ := h k hk p hp hblock
  obtain ⟨k₂, hk₂, hsettings', q', hq₂, hblock', hgain', hstart'⟩ := h' k₁ hk₁ q hq hq'
  exact ⟨k₂, hk₂, hsettings'.trans hsettings, q', hq₂, hblock', hgain'.trans hgain,
    hstart'.trans hstart⟩

/-- The buffers that carry what a source plays. -/
def Graph.blocksOf (g : Graph) (o : Source) : List Address :=
  o.buffer.address :: (g.routes.filter fun r => g.sources[r.source]? = some o).map
    fun r => r.buffer.address

variable {B : Graph} {built : ℕ}

/-- An input that takes over goes on from the gain of its block at the same sink. -/
theorem adopted_gain {G : Graph} (placed : B.Placed built) (mixes : B.Mixes power)
    (mixes' : (G.adopt (some B)).Mixes power) {k k' : Sink} (hk : k ∈ B.sinks)
    (hk' : k' ∈ (G.adopt (some B)).sinks) (hid : k'.settings.id = k.settings.id) {p q : MixInput}
    (hp : p ∈ k.inputs) (hq : q ∈ k'.inputs) (hblock : q.block = p.block) :
    q.gainAt 0 = p.gainAt 0 := by
  obtain ⟨hstart, hoffset⟩ := adopt_started hk' hq
  rw [gainAt_start (mixes'.started k' hk' q hq) hoffset, hstart, hblock, hid]
  exact startOf_found placed mixes hk hp

/-- A graph with the same places takes every input over. -/
theorem goesOn_places {G : Graph} (placed : B.Placed built) (mixes : B.Mixes power)
    (mixes' : (G.adopt (some B)).Mixes power) (same : SamePlaces B (G.adopt (some B)))
    (block : Address) : GoesOn B (G.adopt (some B)) block := by
  intro k hk p hp hblock
  obtain ⟨i, hi⟩ := List.getElem?_of_mem hk
  obtain ⟨k', hi', hplace⟩ := same.sink_at hi
  simp only [Sink.place, Prod.mk.injEq] at hplace
  have hk' := List.mem_of_getElem? hi'
  have hinputs : k'.inputs.map (fun i => (i.block, i.gain)) =
      k.inputs.map fun i => (i.block, i.gain) := by
    rw [mixes'.inputs i k' hi', mixed_same same i hplace.1.symm, ← mixes.inputs i k hi]
  have hmem := List.mem_map_of_mem (f := fun i : MixInput => (i.block, i.gain)) hp
  rw [← hinputs] at hmem
  obtain ⟨q, hq, hcore⟩ := List.mem_map.mp hmem
  simp only [Prod.mk.injEq] at hcore
  refine ⟨k', hk', hplace.1.symm, q, hq, hcore.1.trans hblock, hcore.2, ?_⟩
  exact adopted_gain placed mixes mixes' hk hk' (by rw [hplace.1]) hp hq hcore.1

section
variable {A : Graph} {built' : ℕ}

/-- An input of a source or a route reads its buffer. -/
theorem block_of_source (placed : A.Placed built') (mixes : A.Mixes power) {k : Sink}
    (hk : k ∈ A.sinks) {q : MixInput} (hq : q ∈ k.inputs) {o : Graph.Source} (ho : o ∈ A.sources)
    (hkind : q.block.kind = .source) (hid : q.block.id = o.settings.id) :
    q.block = o.buffer.address := by
  rcases owner mixes hk hq with ⟨s, hs, hblock⟩ | ⟨r, hr, hblock⟩
  · rw [hblock, (placed.sourceBuffer s hs).id] at hid
    rw [hblock, source_unique placed hs ho hid]
  · rw [hblock, (placed.routeBuffer r hr).kind] at hkind
    cases hkind

theorem block_of_route (placed : A.Placed built') (mixes : A.Mixes power) {k : Sink}
    (hk : k ∈ A.sinks) {q : MixInput} (hq : q ∈ k.inputs) {r : Graph.Route} (hr : r ∈ A.routes)
    (hkind : q.block.kind = .route) (hid : q.block.id = r.settings.id) :
    q.block = r.buffer.address := by
  rcases owner mixes hk hq with ⟨s, hs, hblock⟩ | ⟨r', hr', hblock⟩
  · rw [hblock, (placed.sourceBuffer s hs).kind] at hkind
    cases hkind
  · rw [hblock, (placed.routeBuffer r' hr').id] at hid
    rw [hblock, route_unique placed.routeIds hr' hr hid]

end

namespace Plan.Recovers

variable {p : Plan} {env : Surroundings} {primary : ℕ} {t g : Graph}

/-- The sinks of a recovered graph are those of the settings, once more. -/
theorem sink_again (h : p.Recovers primary t) (hg : p.build power env = .ok g) {k : Graph.Sink}
    (hk : k ∈ t.sinks) : ∃ k' ∈ g.sinks, k'.settings = k.settings := by
  have hcoherent := build_coherent hg
  obtain ⟨g', hbuilds, rfl⟩ := build_ok hg
  have hmem : k.settings ∈ t.settings.sinks := h.coherent.sinks ▸ List.mem_map_of_mem hk
  have hsettings : (g'.inputs power).settings = t.settings := by
    rw [(places_inputs g').settings, hbuilds.settings, h.settings]
  rw [← hsettings, ← hcoherent.sinks] at hmem
  exact List.mem_map.mp hmem

/-- A kept source goes on in version 1. -/
theorem goesOn_source (h : p.Recovers primary t) (mixes : t.Mixes power)
    (hg : p.build power env = .ok g) (placed' : (g.adopt (some t)).Placed (p.built + 1))
    (mixes' : (g.adopt (some t)).Mixes power) {o : Graph.Source} (ho : o ∈ t.sources)
    (device : o.placeholder = false) (registered : revoked env o.settings = false) :
    GoesOn t (g.adopt (some t)) o.buffer.address := by
  intro k hk q hq hblock
  obtain ⟨o₁, ho₁, hdevice⟩ := h.source_kept hg ho device registered
  obtain ⟨o', ho', hdevice'⟩ := (devices_adopt (some t) g).source_mem ho₁
  rw [hdevice] at hdevice'
  simp only [Graph.Source.device, Prod.mk.injEq] at hdevice'
  obtain ⟨k₁, hk₁, hsettings₁⟩ := h.sink_again hg hk
  obtain ⟨k', hk', hsink⟩ := (places_adopt (some t) g).sink_at
    (List.getElem?_of_mem hk₁).choose_spec
  simp only [Sink.place, Prod.mk.injEq] at hsink
  have hsettings : k'.settings = k.settings := hsink.1.symm.trans hsettings₁
  have hk' := List.mem_of_getElem? hk'
  have hbuffer := h.placed.sourceBuffer o ho
  have hcontributes := (contributes_iff h.placed mixes hk .source o.settings.id q.gain).mp
    ⟨q, hq, hblock ▸ hbuffer.kind, hblock ▸ hbuffer.id, rfl⟩
  obtain ⟨hversion, s, hs, hid, db, hdb, hgain⟩ := hcontributes
  obtain rfl := source_unique h.placed hs ho hid
  obtain ⟨g', hbuilds, rfl⟩ := build_ok hg
  have hversion' : ((g'.inputs power).adopt (some t)).settings.version = 1 := by
    rw [(places_adopt _ _).settings, (places_inputs g').settings, hbuilds.settings, h.settings]
    exact hversion
  obtain ⟨i, hi, hikind, hiid, higain⟩ :=
    (contributes_iff placed' mixes' hk' .source s.settings.id q.gain).mpr
      ⟨hversion', o', ho', congrArg SourceSettings.id hdevice'.1, db, by rw [hsettings, hdb],
        by rw [hdevice'.1, hgain]⟩
  have hiblock : i.block = s.buffer.address := by
    rw [block_of_source placed' mixes' hk' hi ho' hikind (by rw [hiid, hdevice'.1]), hdevice'.2.2.1]
  refine ⟨k', hk', hsettings, i, hi, hiblock, higain, ?_⟩
  exact adopted_gain h.placed mixes mixes' hk hk' (by rw [hsettings]) hq hi
    (hiblock.trans hblock.symm)

/-- A route whose source is in the built graph is built. -/
theorem route_again (h : p.Recovers primary t) (hg : p.build power env = .ok g) {r : Graph.Route}
    (hr : r ∈ t.routes) {o' : Graph.Source} (ho' : o' ∈ g.sources)
    (hid : o'.settings.id = r.settings.source) :
    ∃ r' ∈ g.routes, r'.settings = r.settings := by
  obtain ⟨_, _, sources, sinks, routes, hsources, hsinks, hroutes, rfl⟩ := build_eq_ok.mp hg
  rw [(places_inputs _).routes]
  have hx : r.settings ∈ p.settings.routes := h.settings ▸ (h.coherent.routes r hr).1
  obtain ⟨made, hmade, heq⟩ := Outcome.mem_of_forall₂ (Outcome.mapM_eq_ok.mp hroutes) hx
  obtain ⟨s, hs, hplace⟩ := (places_inputs _).source_mem ho'
  simp only [Graph.Source.place, Prod.mk.injEq] at hplace
  have hfound : ∃ e, sources.reduceOption.zipIdx.find?
      (fun e => e.1.settings.id = r.settings.source) = some e := by
    rw [← Option.isSome_iff_exists, List.find?_isSome]
    obtain ⟨i, hi⟩ := List.getElem?_of_mem hs
    refine ⟨(s, i), List.mem_zipIdx_iff_getElem?.mpr hi, ?_⟩
    rw [← hplace.1] at hid
    simpa using hid
  obtain ⟨e, he⟩ := hfound
  unfold makeRoute at heq
  rw [he] at heq
  split at heq
  · rename_i hnone
    cases hnone
  · cases heq
  · dsimp only at heq
    split at heq
    all_goals
      cases heq
      exact ⟨_, List.reduceOption_mem_iff.mpr hmade, rfl⟩

/-- A route of a kept source goes on in version 2. -/
theorem goesOn_route (h : p.Recovers primary t) (mixes : t.Mixes power)
    (hg : p.build power env = .ok g) (placed' : (g.adopt (some t)).Placed (p.built + 1))
    (mixes' : (g.adopt (some t)).Mixes power) {o : Graph.Source} (ho : o ∈ t.sources)
    (device : o.placeholder = false) (registered : revoked env o.settings = false)
    {r : Graph.Route} (hr : r ∈ t.routes) (hplace : t.sources[r.source]? = some o) :
    GoesOn t (g.adopt (some t)) r.buffer.address := by
  intro k hk q hq hblock
  obtain ⟨o₁, ho₁, hdevice⟩ := h.source_kept hg ho device registered
  have hsource : o.settings.id = r.settings.source := by
    obtain ⟨s, hs, hid⟩ := h.placed.source r hr
    rw [hplace] at hs
    cases hs
    exact hid
  simp only [Graph.Source.device, Prod.mk.injEq] at hdevice
  obtain ⟨r₁, hr₁, hroute⟩ := h.route_again hg hr ho₁ (by rw [hdevice.1, hsource])
  obtain ⟨k₁, hk₁, hsettings₁⟩ := h.sink_again hg hk
  obtain ⟨k', hk', hsink⟩ := (places_adopt (some t) g).sink_at
    (List.getElem?_of_mem hk₁).choose_spec
  simp only [Sink.place, Prod.mk.injEq] at hsink
  have hsettings : k'.settings = k.settings := hsink.1.symm.trans hsettings₁
  have hk' := List.mem_of_getElem? hk'
  have hbuffer := h.placed.routeBuffer r hr
  have hcontributes := (contributes_iff h.placed mixes hk .route r.settings.id q.gain).mp
    ⟨q, hq, hblock ▸ hbuffer.kind, hblock ▸ hbuffer.id, rfl⟩
  obtain ⟨hversion, r₀, hr₀, hid, hto, hgain⟩ := hcontributes
  obtain rfl := route_unique h.placed.routeIds hr₀ hr hid
  have hbuilt := build_ok hg
  obtain ⟨g', hbuilds, rfl⟩ := hbuilt
  have hsettings' : ((g'.inputs power).adopt (some t)).settings = t.settings := by
    rw [(places_adopt _ _).settings, (places_inputs g').settings, hbuilds.settings, h.settings]
  have hr' : r₁ ∈ ((g'.inputs power).adopt (some t)).routes := hr₁
  -- The route as it was built has the buffer it had.
  have hr₂ : r₁ ∈ g'.routes := by
    rw [(places_inputs g').routes] at hr₁
    exact hr₁
  have hkept : r₁.buffer = r₀.buffer := by
    obtain ⟨_, hfits, o₂, ho₂, hwide⟩ := h.coherent.routes r₀ hr
    rw [hplace] at ho₂
    cases ho₂
    obtain ⟨_, _, _, s, hs, hsid, hmade⟩ := hbuilds.routes r₁ hr₂
    have hs₁ : s.settings = o.settings := by
      have hmem := h.settings ▸ h.coherent.sources o ho
      refine List.inj_on_of_nodup_map hbuilds.checked.sources
        (hbuilds.sources s (List.mem_of_getElem? hs)).1 hmem ?_
      rw [hsid, hroute, hsource]
    refine (route_retained h.placed h.base hbuilds hr hr₂ (by rw [hroute])
      ⟨r₀, hr, r₁, hr₂, rfl, ?_, ?_, ?_⟩).1
    · rw [hroute]
      simp [sameRoute]
    · rw [made_channels hmade, hs₁, hwide]
    · rw [hroute]
      exact hfits
  have hon : ((g'.inputs power).adopt (some t)).routeOn r₁ = t.routeOn r₀ := by
    obtain ⟨s', hs', hsid⟩ := placed'.source r₁ hr'
    obtain ⟨o', ho', hdevice'⟩ := (devices_adopt (some t) (g'.inputs power)).source_mem ho₁
    simp only [Graph.Source.device, Prod.mk.injEq] at hdevice'
    have hsame : s'.settings = o.settings := by
      rw [source_unique placed' (List.mem_of_getElem? hs') ho'
        (by rw [hsid, hroute, hdevice'.1, hdevice.1, hsource]), hdevice'.1, hdevice.1]
    rw [routeOn, routeOn, hs', hplace, hroute, hsettings', Option.any_some, Option.any_some, hsame]
  obtain ⟨i, hi, hikind, hiid, higain⟩ :=
    (contributes_iff placed' mixes' hk' .route r₀.settings.id q.gain).mpr
      ⟨by rw [hsettings']; exact hversion, r₁, hr', by rw [hroute], by rw [hroute, hto, hsettings],
        by rw [hon, hroute, hgain]⟩
  have hiblock : i.block = r₀.buffer.address := by
    rw [block_of_route placed' mixes' hk' hi hr' hikind (by rw [hiid, hroute]), hkept]
  refine ⟨k', hk', hsettings, i, hi, hiblock, higain, ?_⟩
  exact adopted_gain h.placed mixes mixes' hk hk' (by rw [hsettings]) hq hi
    (hiblock.trans hblock.symm)

end Plan.Recovers

end NdimonR.Decoder.AudioEngine
