import NdimonR.Decoder.DelaysExactly
import NdimonR.Decoder.TakesOver

/-! What is heard when a request changes the graph that plays: which gains go on from where they
were, which start from nothing, and what is cut. -/

namespace NdimonR.Decoder.AudioEngine

open Json Graph

variable {power : ℚ → ℚ}

/-! ### What a sink mixes -/

/-- A sink mixes this of a source (version 1) or of a route (version 2), with this gain. -/
def Contributes (power : ℚ → ℚ) (g : Graph) (sink : Sink) (kind : Kind) (id : String) (gain : ℚ) :
    Prop :=
  match kind with
  | .source => g.settings.version = 1 ∧ ∃ s ∈ g.sources, s.settings.id = id ∧
      ∃ db, sink.settings.mix.get? id = some db ∧
        gain =
          if s.settings.enabled then dbToGain power db * dbToGain power s.settings.gainDb else 0
  | .route => g.settings.version ≠ 1 ∧ ∃ r ∈ g.routes, r.settings.id = id ∧
      r.settings.sink = sink.settings.id ∧
        gain = if g.routeOn r then dbToGain power r.settings.gainDb else 0
  | .sink => False

variable {g : Graph} {built : ℕ}

theorem sink_unique (placed : g.Placed built) {k o : Sink} (hk : k ∈ g.sinks) (ho : o ∈ g.sinks)
    (hid : k.settings.id = o.settings.id) : k = o :=
  List.inj_on_of_nodup_map placed.sinkIds hk ho hid

theorem source_unique (placed : g.Placed built) {s o : Source} (hs : s ∈ g.sources)
    (ho : o ∈ g.sources) (hid : s.settings.id = o.settings.id) : s = o :=
  List.inj_on_of_nodup_map placed.sourceIds hs ho hid

theorem mem_mixed_iff (placed : g.Placed built) {k : ℕ} {sink : Sink}
    (hk : g.sinks[k]? = some sink) (kind : Kind) (id : String) (gain : ℚ) :
    (∃ i ∈ g.mixed power k sink, i.block.kind = kind ∧ i.block.id = id ∧ i.gain = gain) ↔
      Contributes power g sink kind id gain := by
  by_cases hversion : g.settings.version = 1
  · rw [mixed, if_pos hversion]
    constructor
    · rintro ⟨i, hi, rfl, rfl, rfl⟩
      obtain ⟨s, hs, hsome⟩ := List.mem_filterMap.mp hi
      obtain ⟨db, hdb, rfl⟩ := Option.map_eq_some_iff.mp hsome
      have hbuffer := placed.sourceBuffer s hs
      simp only [hbuffer.kind, hbuffer.id]
      exact ⟨hversion, s, hs, rfl, db, hdb, rfl⟩
    · intro h
      cases kind with
      | source =>
        obtain ⟨_, s, hs, rfl, db, hdb, rfl⟩ := h
        have hbuffer := placed.sourceBuffer s hs
        exact ⟨_, List.mem_filterMap.mpr ⟨s, hs, congrArg (Option.map _) hdb⟩, hbuffer.kind,
          hbuffer.id, rfl⟩
      | route => exact absurd hversion h.1
      | sink => exact h.elim
  · rw [mixed, if_neg hversion]
    constructor
    · rintro ⟨i, hi, rfl, rfl, rfl⟩
      obtain ⟨r, hr, rfl⟩ := List.mem_map.mp hi
      obtain ⟨hr, hplace⟩ := List.mem_filter.mp hr
      simp only [decide_eq_true_eq] at hplace
      obtain ⟨s, hs, hid⟩ := placed.sink r hr
      rw [hplace, hk] at hs
      cases hs
      have hbuffer := placed.routeBuffer r hr
      simp only [hbuffer.kind, hbuffer.id]
      exact ⟨hversion, r, hr, rfl, hid.symm, rfl⟩
    · intro h
      cases kind with
      | source => exact absurd h.1 hversion
      | route =>
        obtain ⟨_, r, hr, rfl, hid, rfl⟩ := h
        have hbuffer := placed.routeBuffer r hr
        refine ⟨_, List.mem_map.mpr ⟨r, List.mem_filter.mpr ⟨hr, ?_⟩, rfl⟩, hbuffer.kind,
          hbuffer.id, rfl⟩
        obtain ⟨s, hs, hsid⟩ := placed.sink r hr
        have hsame := sink_unique placed (List.mem_of_getElem? hs) (List.mem_of_getElem? hk)
          (hsid.trans hid)
        have hnodup : g.sinks.Nodup := List.Nodup.of_map _ placed.sinkIds
        rw [hsame, ← hk] at hs
        have hlt : r.sink < g.sinks.length := by
          rw [hk] at hs
          exact (List.getElem?_eq_some_iff.mp hs).1
        exact decide_eq_true ((List.getElem?_inj hlt hnodup).mp hs)
      | sink => exact h.elim

theorem contributes_iff (placed : g.Placed built) (mixes : g.Mixes power) {sink : Sink}
    (hsink : sink ∈ g.sinks) (kind : Kind) (id : String) (gain : ℚ) :
    (∃ i ∈ sink.inputs, i.block.kind = kind ∧ i.block.id = id ∧ i.gain = gain) ↔
      Contributes power g sink kind id gain := by
  obtain ⟨k, hk⟩ := List.getElem?_of_mem hsink
  rw [← mem_mixed_iff placed hk]
  have hsame := mixes.inputs k sink hk
  have hmem : ∀ l l' : List MixInput,
      (l.map fun i => (i.block, i.gain)) = (l'.map fun i => (i.block, i.gain)) →
      (∃ i ∈ l, i.block.kind = kind ∧ i.block.id = id ∧ i.gain = gain) →
      ∃ i ∈ l', i.block.kind = kind ∧ i.block.id = id ∧ i.gain = gain := by
    rintro l l' heq ⟨i, hi, hkind, hid, hgain⟩
    have hin := List.mem_map_of_mem (f := fun i : MixInput => (i.block, i.gain)) hi
    rw [heq] at hin
    obtain ⟨j, hj, hcore⟩ := List.mem_map.mp hin
    simp only [Prod.mk.injEq] at hcore
    exact ⟨j, hj, by rw [hcore.1, hkind], by rw [hcore.1, hid], by rw [hcore.2, hgain]⟩
  exact ⟨hmem _ _ hsame, hmem _ _ hsame.symm⟩

/-- Each input of a sink has a block of its own. -/
theorem blocks_nodup (placed : g.Placed built) (mixes : g.Mixes power) {sink : Sink}
    (hsink : sink ∈ g.sinks) : (sink.inputs.map MixInput.block).Nodup := by
  obtain ⟨k, hk⟩ := List.getElem?_of_mem hsink
  have hsame : sink.inputs.map MixInput.block = (g.mixed power k sink).map MixInput.block := by
    have hblocks := congrArg (List.map Prod.fst) (mixes.inputs k sink hk)
    simpa [Function.comp_def] using hblocks
  rw [hsame]
  have hsources := nodup_of_ids placed.sourceIds fun s hs => (placed.sourceBuffer s hs).id
  have hroutes := nodup_of_ids placed.routeIds fun r hr => (placed.routeBuffer r hr).id
  unfold mixed
  split_ifs
  · refine hsources.sublist ?_
    rw [mixInputs]
    generalize g.sources = l
    induction l with
    | nil => exact .slnil
    | cons s l ih =>
      rw [List.filterMap_cons, List.map_cons]
      split
      · exact ih.cons _
      · rename_i i hi
        obtain ⟨db, _, rfl⟩ := Option.map_eq_some_iff.mp hi
        exact ih.cons_cons _
  · refine hroutes.sublist ?_
    rw [routeInputs, List.map_map]
    exact List.filter_sublist.map _

/-! ### What a sink goes on from -/

theorem foldl_none {α : Type} (found : α → Prop) [DecidablePred found] (value : α → ℚ) {l : List α}
    (none : ∀ y ∈ l, ¬found y) (start : ℚ) :
    l.foldl (fun start y => if found y then value y else start) start = start := by
  induction l with
  | nil => rfl
  | cons y l ih =>
    rw [List.foldl_cons, if_neg (none y List.mem_cons_self)]
    exact ih fun z hz => none z (List.mem_cons_of_mem y hz)

theorem foldl_only {α : Type} (found : α → Prop) [DecidablePred found] (value : α → ℚ) {l : List α}
    {x : α} (hx : x ∈ l) (hfound : found x) (only : ∀ y ∈ l, found y → y = x) (start : ℚ) :
    l.foldl (fun start y => if found y then value y else start) start = value x := by
  induction l generalizing start with
  | nil => cases hx
  | cons y l ih =>
    have hrest : ∀ z ∈ l, found z → z = x := fun z hz => only z (List.mem_cons_of_mem y hz)
    rw [List.foldl_cons]
    by_cases hin : x ∈ l
    · exact ih hin hrest _
    · obtain rfl : x = y := (List.mem_cons.mp hx).resolve_right hin
      rw [if_pos hfound]
      refine foldl_none found value (fun z hz hz' => ?_) _
      rw [← hrest z hz hz'] at hin
      exact hin hz

theorem mem_prior {old : Graph} {id : String} {p : MixInput} :
    p ∈ (old.sinks.filter fun prior => prior.settings.id = id).flatMap Sink.inputs ↔
      ∃ o ∈ old.sinks, o.settings.id = id ∧ p ∈ o.inputs := by
  simp only [List.mem_flatMap, List.mem_filter, decide_eq_true_eq, and_assoc]

theorem startOf_found {old : Graph} (placed : old.Placed built) (mixes : old.Mixes power) {o : Sink}
    (ho : o ∈ old.sinks) {p : MixInput} (hp : p ∈ o.inputs) :
    old.startOf o.settings.id p.block = p.gainAt 0 := by
  refine foldl_only (fun q : MixInput => q.block = p.block) (fun q => q.gainAt 0)
    (mem_prior.mpr ⟨o, ho, rfl, hp⟩) rfl (fun q hq hsame => ?_) 0
  obtain ⟨o', ho', hid, hq⟩ := mem_prior.mp hq
  rw [sink_unique placed ho' ho hid] at hq
  exact List.inj_on_of_nodup_map (blocks_nodup placed mixes ho) hq hp hsame

theorem startOf_none {old : Graph} {id : String} {block : Address}
    (none : ∀ o ∈ old.sinks, o.settings.id = id → ∀ p ∈ o.inputs, p.block ≠ block) :
    old.startOf id block = 0 := by
  refine foldl_none (fun q : MixInput => q.block = block) (fun q => q.gainAt 0)
    (fun q hq => ?_) 0
  obtain ⟨o, ho, hid, hq⟩ := mem_prior.mp hq
  exact none o ho hid q hq

/-! ### What is taken over -/

/-- The buffer of a source or a route goes on in the next graph: the same endpoint, with a device;
the same route, as wide, with a delay that fits. -/
def Retained (B A : Graph) (kind : Kind) (id : String) : Prop :=
  match kind with
  | .source => ∃ o ∈ B.sources, ∃ s ∈ A.sources, s.settings.id = id ∧ o.placeholder = false ∧
      sameSource o.settings s.settings = true
  | .route => ∃ o ∈ B.routes, ∃ r ∈ A.routes, r.settings.id = id ∧
      sameRoute o.settings r.settings = true ∧ o.buffer.channels = r.buffer.channels ∧
        r.settings.delayMs * rate / 1000 ≤ o.capacity
  | .sink => False

section
variable {p : Plan} {B A : Graph}

theorem source_retained_iff (placed : B.Placed p.built) (hbase : p.base = some B)
    (hopen : p.reopenSources = []) (h : p.Builds A) {o s : Graph.Source} (ho : o ∈ B.sources)
    (hs : s ∈ A.sources) : o.buffer.address = s.buffer.address ↔
      o.settings.id = s.settings.id ∧ Retained B A .source s.settings.id := by
  constructor
  · intro hsame
    cases (h.sources s hs).2 with
    | kept base hb o' ho' device same buffer delay =>
      rw [hbase] at hb
      cases hb
      refine ⟨?_, o', ho', s, hs, rfl, device, same⟩
      rw [← (placed.sourceBuffer o ho).id, hsame, buffer, (placed.sourceBuffer o' ho').id]
      exact Plan.sameSource_id same
    | fresh buffer delay none =>
      have hold := (placed.sourceBuffer o ho).built
      rw [hsame, buffer] at hold
      exact absurd hold (lt_irrefl _)
  · rintro ⟨hid, o', ho', s', hs', hid', device, same⟩
    obtain rfl : s' = s := List.inj_on_of_nodup_map h.sourceIds hs' hs hid'
    obtain rfl : o' = o :=
      source_unique placed ho' ho ((Plan.sameSource_id same).trans hid.symm)
    cases (h.sources s' hs).2 with
    | kept base hb o' ho' device same buffer delay =>
      rw [hbase] at hb
      cases hb
      rw [buffer, source_unique placed ho' ho ((Plan.sameSource_id same).trans hid.symm)]
    | fresh buffer delay none =>
      rw [hopen] at none
      rcases none with hin | hno
      · cases hin
      · rw [hno B hbase o' ho device] at same
        cases same

theorem routeChannels_eq {s : AudioSettings} (checked : Checked s) {x : SourceSettings}
    (hx : x ∈ s.sources) {r : RouteSettings} (hid : x.id = r.source) :
    routeChannels s r = x.channels := by
  unfold routeChannels
  cases hfind : s.sources.find? fun x => x.id = r.source with
  | none =>
    rw [List.find?_eq_none] at hfind
    exact absurd (decide_eq_true hid) (hfind x hx)
  | some y =>
    have hy : y.id = r.source := by simpa using List.find?_some hfind
    rw [List.inj_on_of_nodup_map checked.sources (List.mem_of_find?_eq_some hfind) hx
      (hy.trans hid.symm)]
    rfl

theorem routeCapacity_le (base : Option Graph) (channels : ℕ) (r : RouteSettings) :
    r.delayMs * rate / 1000 ≤ routeCapacity base channels r := by
  unfold routeCapacity
  simp only
  cases hold : base.bind fun g => g.routes.find? fun o => sameRoute o.settings r &&
      o.buffer.channels == channels && decide (r.delayMs * rate / 1000 ≤ o.capacity) with
  | none => exact le_refl _
  | some o =>
    obtain ⟨g, _, hfind⟩ := Option.bind_eq_some_iff.mp hold
    have hfits := List.find?_some hfind
    simp only [Bool.and_eq_true, decide_eq_true_eq] at hfits
    exact hfits.2

/-- A delay that fits keeps what was allocated. -/
theorem routeCapacity_kept (placed : B.Placed built) {o : Graph.Route} (ho : o ∈ B.routes)
    {r : RouteSettings} (same : sameRoute o.settings r = true) {channels : ℕ}
    (wide : o.buffer.channels = channels) (fits : r.delayMs * rate / 1000 ≤ o.capacity) :
    routeCapacity (some B) channels r = o.capacity := by
  unfold routeCapacity
  simp only [Option.bind_some]
  cases hfind : B.routes.find? fun o => sameRoute o.settings r &&
      o.buffer.channels == channels && decide (r.delayMs * rate / 1000 ≤ o.capacity) with
  | none =>
    rw [List.find?_eq_none] at hfind
    have hno := hfind o ho
    simp [same, wide, fits] at hno
  | some o' =>
    have hfound := List.find?_some hfind
    simp only [Bool.and_eq_true] at hfound
    have hid := (Plan.sameRoute_iff.mp hfound.1.1).1.trans (Plan.sameRoute_iff.mp same).1.symm
    rw [route_unique placed.routeIds (List.mem_of_find?_eq_some hfind) ho hid]
    rfl

theorem made_channels {channels : ℕ} {r : Graph.Route} (h : p.MadeRoute channels r) :
    r.buffer.channels = channels := by
  cases h with
  | kept base hb o ho same capacity wide buffer delay history => rw [buffer, wide]
  | fresh buffer delay history none =>
    rw [buffer]
    rfl

/-- A route as long and as wide as the one before has its buffer and its delay line, and no other
has. -/
theorem route_retained (placed : B.Placed p.built) (hbase : p.base = some B) (h : p.Builds A)
    {o r : Graph.Route} (ho : o ∈ B.routes) (hr : r ∈ A.routes)
    (hid : o.settings.id = r.settings.id) (hretained : Retained B A .route r.settings.id) :
    r.buffer = o.buffer ∧ r.delay = o.delay ∧ r.capacity = o.capacity ∧
      r.historyReset = false := by
  obtain ⟨o', ho', r', hr', hid', same, wide, fits⟩ := hretained
  obtain rfl : r' = r := route_unique h.routeIds hr' hr hid'
  obtain rfl : o' = o := route_unique placed.routeIds ho' ho
    ((Plan.sameRoute_iff.mp same).1.trans hid.symm)
  obtain ⟨-, -, hcapacity, s, hs, hsid, hmade⟩ := h.routes r' hr
  have hsource := (h.sources s (List.mem_of_getElem? hs)).1
  rw [made_channels hmade] at wide
  have hchannels := routeChannels_eq h.checked hsource hsid
  rw [hbase, hchannels, routeCapacity_kept placed ho same wide fits] at hcapacity
  cases hmade with
  | kept base hb o ho'' same' capacity wide' buffer delay history =>
    rw [hbase] at hb
    cases hb
    have hsame := route_unique placed.routeIds ho'' ho
      ((Plan.sameRoute_iff.mp same').1.trans hid.symm)
    rw [hsame] at buffer delay
    exact ⟨buffer, delay, hcapacity, history⟩
  | fresh buffer delay history none =>
    exact absurd wide (none B hbase o' ho same hcapacity.symm)

theorem route_reset (hbase : p.base = some B) (h : p.Builds A)
    {r : Graph.Route} (hr : r ∈ A.routes) (hno : ¬Retained B A .route r.settings.id) :
    r.buffer.address = ⟨p.built, .route, r.settings.id⟩ ∧
      r.delay = ⟨p.built, .route, r.settings.id⟩ ∧ r.historyReset = true := by
  obtain ⟨-, -, hcapacity, s, hs, hsid, hmade⟩ := h.routes r hr
  have hchannels := made_channels hmade
  cases hmade with
  | kept base hb o ho same capacity wide buffer delay history =>
    rw [hbase] at hb
    cases hb
    refine absurd ⟨o, ho, r, hr, rfl, same, wide.trans hchannels.symm, ?_⟩ hno
    rw [capacity, hcapacity]
    exact routeCapacity_le _ _ _
  | fresh buffer delay history none =>
    rw [buffer, delay]
    exact ⟨rfl, rfl, history⟩

theorem route_retained_iff (placed : B.Placed p.built) (hbase : p.base = some B) (h : p.Builds A)
    {o r : Graph.Route} (ho : o ∈ B.routes) (hr : r ∈ A.routes) :
    o.buffer.address = r.buffer.address ↔
      o.settings.id = r.settings.id ∧ Retained B A .route r.settings.id := by
  constructor
  · intro hsame
    have hold := placed.routeBuffer o ho
    by_cases hretained : Retained B A .route r.settings.id
    · obtain ⟨o', ho', r', hr', hid', same, -⟩ := id hretained
      obtain rfl : r' = r := route_unique h.routeIds hr' hr hid'
      have hid := (Plan.sameRoute_iff.mp same).1
      have hkept := route_retained placed hbase h ho' hr hid hretained
      refine ⟨?_, hretained⟩
      rw [← hid, ← hold.id, ← (placed.routeBuffer o' ho').id, hsame, hkept.1]
    · have hfresh := (route_reset hbase h hr hretained).1
      have hbuilt := hold.built
      rw [hsame, hfresh] at hbuilt
      exact absurd hbuilt (lt_irrefl _)
  · rintro ⟨hid, hretained⟩
    rw [(route_retained placed hbase h ho hr hid hretained).1]

theorem retained_same {A' : Graph} (same : SamePlaces A A') (kind : Kind) (id : String) :
    Retained B A' kind id ↔ Retained B A kind id := by
  have hsources : ∀ {g g' : Graph}, SamePlaces g g' →
      Retained B g' .source id → Retained B g .source id := by
    rintro g g' same ⟨o, ho, s', hs', hid, device, hsame⟩
    obtain ⟨s, hs, hplace⟩ := same.source_mem hs'
    simp only [Source.place, Prod.mk.injEq] at hplace
    rw [← hplace.1] at hid hsame
    exact ⟨o, ho, s, hs, hid, device, hsame⟩
  cases kind with
  | source => exact ⟨hsources same, hsources same.symm⟩
  | route => rw [Retained, Retained, same.routes]
  | sink => exact Iff.rfl

/-- Every input reads the buffer of a source or of a route. -/
theorem owner (mixes : g.Mixes power) {sink : Sink} (hsink : sink ∈ g.sinks) {i : MixInput}
    (hi : i ∈ sink.inputs) : (∃ s ∈ g.sources, i.block = s.buffer.address) ∨
      ∃ r ∈ g.routes, i.block = r.buffer.address := by
  obtain ⟨k, hk⟩ := List.getElem?_of_mem hsink
  have hmem := List.mem_map_of_mem (f := fun i : MixInput => (i.block, i.gain)) hi
  rw [mixes.inputs k sink hk] at hmem
  obtain ⟨j, hj, hsame⟩ := List.mem_map.mp hmem
  simp only [Prod.mk.injEq] at hsame
  rw [← hsame.1]
  unfold mixed at hj
  split_ifs at hj
  · obtain ⟨s, hs, hsome⟩ := List.mem_filterMap.mp hj
    obtain ⟨db, _, rfl⟩ := Option.map_eq_some_iff.mp hsome
    exact .inl ⟨s, hs, rfl⟩
  · obtain ⟨r, hr, rfl⟩ := List.mem_map.mp hj
    exact .inr ⟨r, List.mem_of_mem_filter hr, rfl⟩

/-- A block goes on exactly where it is of the same contribution and retained. -/
theorem block_eq_iff (placed : B.Placed p.built) (mixes : B.Mixes power) (hbase : p.base = some B)
    (hopen : p.reopenSources = []) (h : p.Builds A) {A' : Graph} (same : SamePlaces A A')
    (placed' : A'.Placed (p.built + 1)) (mixes' : A'.Mixes power) {o k : Sink} (ho : o ∈ B.sinks)
    (hk : k ∈ A'.sinks) {i j : MixInput} (hi : i ∈ o.inputs) (hj : j ∈ k.inputs) :
    i.block = j.block ↔ i.block.kind = j.block.kind ∧ i.block.id = j.block.id ∧
      Retained B A' j.block.kind j.block.id := by
  rcases owner mixes ho hi with ⟨s, hs, hblock⟩ | ⟨r, hr, hblock⟩
  · have hold := placed.sourceBuffer s hs
    rcases owner mixes' hk hj with ⟨s', hs', hblock'⟩ | ⟨r', hr', hblock'⟩
    · have hnew := placed'.sourceBuffer s' hs'
      obtain ⟨a, ha, hplace⟩ := same.source_mem hs'
      simp only [Source.place, Prod.mk.injEq] at hplace
      have hiff := source_retained_iff placed hbase hopen h hs ha
      rw [hplace.1, hplace.2.1] at hiff
      rw [hblock, hblock', hold.kind, hold.id, hnew.kind, hnew.id, retained_same same]
      rw [hiff]
      exact ⟨fun hx => ⟨rfl, hx⟩, fun hx => hx.2⟩
    · have hnew := placed'.routeBuffer r' hr'
      rw [hblock, hblock', hold.kind, hnew.kind]
      refine ⟨fun heq => ?_, fun heq => ?_⟩
      · have hkind := congrArg Address.kind heq
        rw [hold.kind, hnew.kind] at hkind
        cases hkind
      · cases heq.1
  · have hold := placed.routeBuffer r hr
    rcases owner mixes' hk hj with ⟨s', hs', hblock'⟩ | ⟨r', hr', hblock'⟩
    · have hnew := placed'.sourceBuffer s' hs'
      rw [hblock, hblock', hold.kind, hnew.kind]
      refine ⟨fun heq => ?_, fun heq => ?_⟩
      · have hkind := congrArg Address.kind heq
        rw [hold.kind, hnew.kind] at hkind
        cases hkind
      · cases heq.1
    · have hnew := placed'.routeBuffer r' hr'
      have hiff := route_retained_iff placed hbase h hr (same.routes ▸ hr')
      rw [hblock, hblock', hold.kind, hold.id, hnew.kind, hnew.id, retained_same same]
      rw [hiff]
      exact ⟨fun hx => ⟨rfl, hx⟩, fun hx => hx.2⟩

end

/-! ### A fade -/

theorem gainAt_start {i : MixInput} (hstart : 0 ≤ i.startGain) (hoffset : i.fadeOffset = 0) :
    i.gainAt 0 = i.startGain := by
  unfold MixInput.gainAt
  rw [if_neg (not_lt.mpr hstart), hoffset]
  simp

theorem advance_iterate (frames m : ℕ) (i : MixInput) (hoffset : i.fadeOffset = 0) :
    (MixInput.advance frames)^[m] i = { i with fadeOffset := min 480 (m * frames) } := by
  induction m with
  | zero =>
    rw [Function.iterate_zero, id, Nat.zero_mul, Nat.min_zero, ← hoffset]
  | succ m ih =>
    rw [Function.iterate_succ_apply', ih, MixInput.advance, Nat.succ_mul]
    simp only
    congr 1
    omega

/-- Over the periods of a sink, the gain goes to its end in 480 frames. -/
theorem gainAt_moves {i : MixInput} (hstart : 0 ≤ i.startGain) (hoffset : i.fadeOffset = 0)
    (frames m n : ℕ) : ((MixInput.advance frames)^[m] i).gainAt n =
      i.startGain + (i.gain - i.startGain) * min 1 (((m * frames + n : ℕ) : ℚ) / 480) := by
  have hweight : min 1 (((min 480 (m * frames) + n : ℕ) : ℚ) / 480) =
      min 1 (((m * frames + n : ℕ) : ℚ) / 480) := by
    rcases Nat.le_total (m * frames) 480 with hle | hle
    · rw [Nat.min_eq_right hle]
    · have hfull : (480 : ℚ) ≤ ((m * frames + n : ℕ) : ℚ) := by
        exact_mod_cast (by omega : 480 ≤ m * frames + n)
      have hfull' : (480 : ℚ) ≤ ((480 + n : ℕ) : ℚ) := by
        exact_mod_cast (by omega : 480 ≤ 480 + n)
      rw [Nat.min_eq_left hle, min_eq_left ((one_le_div (by norm_num)).mpr hfull),
        min_eq_left ((one_le_div (by norm_num)).mpr hfull')]
  rw [advance_iterate frames m i hoffset, MixInput.gainAt]
  simp only
  rw [if_neg (not_lt.mpr hstart), hweight]

/-- Periods only move the fades of enabled sinks. -/
theorem mem_periods {A : Graph} {m : ℕ} {k : Sink} (hk : k ∈ (period^[m] A).sinks)
    (enabled : k.settings.enabled = true) : ∃ k' ∈ A.sinks, k'.settings = k.settings ∧
      k'.buffer = k.buffer ∧
      k.inputs = k'.inputs.map (MixInput.advance k.buffer.frames)^[m] := by
  induction m generalizing k with
  | zero => exact ⟨k, hk, rfl, rfl, by simp⟩
  | succ m ih =>
    rw [Function.iterate_succ_apply'] at hk
    obtain ⟨k₁, hk₁, heq⟩ := List.mem_map.mp hk
    by_cases henabled : k₁.settings.enabled = true
    · rw [if_pos henabled] at heq
      subst heq
      obtain ⟨k', hk', hsettings, hbuffer, hinputs⟩ := ih hk₁ henabled
      refine ⟨k', hk', hsettings, hbuffer, ?_⟩
      rw [Function.iterate_succ', ← List.map_map, ← hinputs]
    · rw [if_neg henabled] at heq
      subst heq
      exact absurd enabled henabled

/-! ### Taking over -/

/-- A delay line that is set to another delay: what was heard before fades into it. -/
structure Fades (before : DelayLine) (frames : ℕ) (after : DelayLine) : Prop where
  set : after = before.setDelayFrames frames
  delay : after.delay = frames
  fade : before.delay ≠ frames → before.processed = true →
    after.oldDelay = before.delay ∧ after.weight = 0

/-- What graph `A` takes over from graph `B`. -/
structure TakesOver (power : ℚ → ℚ) (B A : Graph) (before after : Lines) : Prop where
  mixed : ∀ k ∈ A.sinks, ∀ kind id gain,
    (∃ q ∈ k.inputs, q.block.kind = kind ∧ q.block.id = id ∧ q.gain = gain) ↔
      Contributes power A k kind id gain
  kept : ∀ o ∈ B.sinks, ∀ k ∈ A.sinks, o.settings.id = k.settings.id →
    ∀ p ∈ o.inputs, ∀ q ∈ k.inputs, p.block.kind = q.block.kind → p.block.id = q.block.id →
      Retained B A q.block.kind q.block.id → q.gainAt 0 = p.gainAt 0
  fresh : ∀ k ∈ A.sinks, ∀ q ∈ k.inputs,
    (∀ o ∈ B.sinks, o.settings.id = k.settings.id → ∀ p ∈ o.inputs,
      p.block.kind = q.block.kind → p.block.id = q.block.id →
        ¬Retained B A q.block.kind q.block.id) → q.gainAt 0 = 0
  moves : ∀ m, ∀ k ∈ (period^[m] A).sinks, k.settings.enabled = true → ∀ q ∈ k.inputs,
    ∃ k' ∈ A.sinks, k'.settings = k.settings ∧ ∃ q' ∈ k'.inputs, q'.block = q.block ∧
      q'.gain = q.gain ∧ ∀ n, q.gainAt n = q'.gainAt 0 +
        (q.gain - q'.gainAt 0) * min 1 (((m * k.buffer.frames + n : ℕ) : ℚ) / 480)
  delayed : ∀ o ∈ B.routes, ∀ r ∈ A.routes, o.settings.id = r.settings.id →
    Retained B A .route r.settings.id → r.historyReset = false ∧ r.delay = o.delay ∧
      Fades (before o.delay) (r.settings.delayMs * rate / 1000) (after r.delay)
  reset : ∀ r ∈ A.routes, ¬Retained B A .route r.settings.id → r.historyReset = true ∧
    after r.delay = (DelayLine.new r.buffer.channels r.capacity).setDelayFrames
      (r.settings.delayMs * rate / 1000 : ℕ)

theorem fades_set {line : DelayLine} {frames capacity : ℕ} (hsize : line.size = capacity + 1)
    (fits : frames ≤ capacity) : Fades line frames (line.setDelayFrames frames) := by
  have hclamp : DelayLine.clamp frames (line.size - 1) = frames := by
    simp only [DelayLine.clamp, hsize, Int.toNat_natCast]
    omega
  refine ⟨rfl, ?_, fun hne hheard => ?_⟩
  · simp only [DelayLine.setDelayFrames, hclamp]
    split_ifs with hsame
    · exact hsame.symm
    · rfl
    · rfl
  · simp only [DelayLine.setDelayFrames, hclamp, if_neg (Ne.symm hne), hheard, if_true]
    exact ⟨trivial, by simp [DelayLine.weight]⟩

theorem adopt_started {B g : Graph} {k : Sink} (hk : k ∈ (g.adopt (some B)).sinks) {q : MixInput}
    (hq : q ∈ k.inputs) :
    q.startGain = B.startOf k.settings.id q.block ∧ q.fadeOffset = 0 := by
  obtain ⟨k', _, rfl⟩ := List.mem_map.mp hk
  obtain ⟨q', _, rfl⟩ := List.mem_map.mp hq
  exact ⟨rfl, rfl⟩

theorem built_takes_over {e : Engine} (h : e.Sound power)
    {B g : Graph} (hB : e.graph = some B) {p : Plan} (hbuilt : p.built = e.built)
    (hbase : p.base = some B) (hopen : p.reopenSources = []) (hg : p.Builds g)
    (after : (e.publish (g.inputs power)).Sound power) :
    TakesOver power B ((g.inputs power).adopt (some B)) e.lines
      (e.publish (g.inputs power)).lines := by
  have hA : (e.publish (g.inputs power)).graph = some ((g.inputs power).adopt (some B)) := by
    rw [Engine.publish, hB]
  have same : SamePlaces g ((g.inputs power).adopt (some B)) :=
    (places_inputs g).trans (places_adopt _ _)
  have placedB : B.Placed p.built := hbuilt ▸ h.placed B hB
  have placedA : ((g.inputs power).adopt (some B)).Placed (p.built + 1) := by
    rw [hbuilt]
    exact after.placed _ hA
  have mixesB := h.mixes B hB
  have mixesA := after.mixes _ hA
  have hlines : ∀ r ∈ g.routes, (e.publish (g.inputs power)).lines r.delay =
      (Engine.allocate (g.inputs power) e.built e.lines r.delay).setDelayFrames
        (r.settings.delayMs * rate / 1000 : ℕ) := by
    intro r hr
    refine setDelays_route (placedA.same (places_adopt _ _).symm) _ ?_
    rw [(places_inputs g).routes]
    exact hr
  have hblock := fun {o k : Sink} (ho : o ∈ B.sinks)
      (hk : k ∈ ((g.inputs power).adopt (some B)).sinks) {i j : MixInput} =>
    @block_eq_iff power p B g placedB mixesB hbase hopen hg _ same placedA mixesA o k ho hk i j
  constructor
  · exact fun k hk => contributes_iff placedA mixesA hk
  · intro o ho k hk hid i hi q hq hkind hid' hretained
    obtain ⟨hstart, hoffset⟩ := adopt_started hk hq
    have hsame := (hblock ho hk hi hq).mpr ⟨hkind, hid', hretained⟩
    rw [gainAt_start (mixesA.started k hk q hq) hoffset, hstart, ← hsame, ← hid]
    exact startOf_found placedB mixesB ho hi
  · intro k hk q hq hno
    obtain ⟨hstart, hoffset⟩ := adopt_started hk hq
    rw [gainAt_start (mixesA.started k hk q hq) hoffset, hstart]
    refine startOf_none fun o ho hid i hi hsame => ?_
    obtain ⟨hkind, hid', hretained⟩ := (hblock ho hk hi hq).mp hsame
    exact hno o ho hid i hi hkind hid' hretained
  · intro m k hk henabled q hq
    obtain ⟨k', hk', hsettings, hbuffer, hinputs⟩ := mem_periods hk henabled
    rw [hinputs] at hq
    obtain ⟨q', hq', rfl⟩ := List.mem_map.mp hq
    have hoffset := (adopt_started hk' hq').2
    have hstart := mixesA.started k' hk' q' hq'
    have hcore : ((MixInput.advance k.buffer.frames)^[m] q').block = q'.block ∧
        ((MixInput.advance k.buffer.frames)^[m] q').gain = q'.gain := by
      rw [advance_iterate _ _ _ hoffset]
      exact ⟨rfl, rfl⟩
    refine ⟨k', hk', hsettings, q', hq', hcore.1.symm, hcore.2.symm, fun n => ?_⟩
    rw [gainAt_moves hstart hoffset, gainAt_start hstart hoffset, hcore.2]
  · intro o ho r hr hid hretained
    rw [same.routes] at hr
    rw [retained_same same] at hretained
    obtain ⟨-, hdelay, hcapacity, hhistory⟩ := route_retained placedB hbase hg ho hr hid hretained
    have hold := hbuilt ▸ placedB.routeDelay o ho
    refine ⟨hhistory, hdelay, ?_⟩
    rw [hlines r hr, hdelay, Engine.allocate_old hold]
    refine fades_set (h.sized B hB o ho) ?_
    rw [← hcapacity, (hg.routes r hr).2.2.1]
    exact routeCapacity_le _ _ _
  · intro r hr hno
    rw [same.routes] at hr
    rw [retained_same same] at hno
    obtain ⟨-, hdelay, hhistory⟩ := route_reset hbase hg hr hno
    refine ⟨hhistory, ?_⟩
    have hnew := @Engine.allocate_new power p g hg (placedA.same same.symm) e.lines r hr hdelay
    rw [hlines r hr, ← hbuilt, hnew]

/-- A request that changes the graph that plays, without a restart. -/
structure LiveChange (power : ℚ → ℚ) (e : Engine) (env : Surroundings) (s : AudioSettings)
    (B A : Graph) : Prop where
  reachable : e.Reachable power
  playing : e.graph = some B
  published : (e.apply power env s).graph = some A
  changed : (e.apply power env s).built ≠ e.built
  live : needsRestart B.settings A.settings = false

/-- In every run, the graph a request publishes without a restart takes over from the one that
plays. -/
theorem live_change_takes_over (hpower : ∀ db, 0 ≤ power db) {e : Engine} {env : Surroundings}
    {s : AudioSettings} {B A : Graph} (change : LiveChange power e env s B A) :
    TakesOver power B A e.lines (e.apply power env s).lines := by
  obtain ⟨reachable, playing, published, changed, live⟩ := change
  have h := Engine.reachable_sound hpower reachable
  have hafter := Engine.apply_sound hpower h env s
  rcases @Engine.apply_cases power e env s with heq | ⟨s', g, hbuild, heq⟩
  · exact absurd (congrArg Engine.built heq) changed
  · obtain ⟨g', hbuilds, rfl⟩ := Plan.build_ok hbuild
    rw [heq] at published hafter ⊢
    have hA : A = (g'.inputs power).adopt (some B) := by
      rw [Engine.publish, playing] at published
      exact (Option.some.inj published).symm
    have hsettings : A.settings = s' := by
      rw [hA, (places_adopt _ _).settings, (places_inputs g').settings]
      exact hbuilds.settings
    rw [hsettings] at live
    have hbase : (e.plan s').base = some B := by
      rw [Engine.plan, playing]
      simp [Option.filter, live]
    rw [hA]
    exact built_takes_over h playing rfl hbase rfl hbuilds hafter

/-! ### What clicks -/

/-- A contribution of the graph before that the settings no longer have fades from where it was. -/
def GoneFades (power : ℚ → ℚ) (B A : Graph) : Prop :=
  ∀ o ∈ B.sinks, ∀ k ∈ A.sinks, o.settings.id = k.settings.id → ∀ p ∈ o.inputs,
    (∀ gain, ¬Contributes power A k p.block.kind p.block.id gain) →
      ∃ q ∈ k.inputs, q.block = p.block ∧ q.gainAt 0 = p.gainAt 0

/-- The delay of a route whose source and sink stay fades. -/
def DelaysFade (B A : Graph) (before after : Lines) : Prop :=
  ∀ o ∈ B.routes, ∀ r ∈ A.routes, sameRoute o.settings r.settings = true →
    Fades (before o.delay) (r.settings.delayMs * rate / 1000) (after r.delay)

/-- Whatever is mixed of the same endpoints goes on from where it was. -/
def EndpointsGoOn (B A : Graph) : Prop :=
  ∀ o ∈ B.sinks, ∀ k ∈ A.sinks, o.settings.id = k.settings.id → ∀ p ∈ o.inputs, ∀ q ∈ k.inputs,
    p.block.kind = q.block.kind → p.block.id = q.block.id →
    ((∃ s ∈ B.sources, ∃ t ∈ A.sources, s.buffer.address = p.block ∧ t.buffer.address = q.block ∧
        sameSource s.settings t.settings = true) ∨
      ∃ s ∈ B.routes, ∃ t ∈ A.routes, s.buffer.address = p.block ∧ t.buffer.address = q.block ∧
        sameRoute s.settings t.settings = true) →
    q.gainAt 0 = p.gainAt 0

structure Clickless (power : ℚ → ℚ) (B A : Graph) (before after : Lines) : Prop where
  kept : EndpointsGoOn B A
  gone : GoneFades power B A
  delayed : DelaysFade B A before after

/-- Every endpoint opens. -/
def allOpen : Surroundings where
  primary := 1
  registered := fun _ => true
  openSource := fun _ => .device false
  openSink := fun _ => .device false

/-- Every gain above the lowest is one. -/
def level (_ : ℚ) : ℚ := 1

/-- The settings without a file, with what HDMI mixes of NDI. -/
def mixing (mix : SortedMap String ℚ) : AudioSettings :=
  { sinks := [{ id := "hdmi", type := "alsa", alsaPcm := "auto", mix }] }

/-- NDI routed to HDMI, so far behind. -/
def routed (delayMs : ℕ) : AudioSettings :=
  { version := 2
    sources := [{ id := "ndi", type := "ndi", alsaPcm := "", output := 1 }]
    sinks := [{ id := "hdmi", type := "alsa", alsaPcm := "auto" }]
    outputs := .singleton 1 (.obj [("enabled", .bool true)])
    routes := [{ id := "route", source := "ndi", sink := "hdmi", delayMs }] }

theorem process_new {channels maximum : ℕ} {mem : DelayLine.Memory} {input out : DelayLine.Block}
    (fits : DelayLine.Fits channels mem input out) :
    ∃ s mem', (DelayLine.new channels maximum).process mem input out = some (s, mem') := by
  have hfits : ∀ call ∈ [DelayLine.Call.process mem input out], call.Fits channels := by
    intro call hcall
    rw [List.mem_singleton.mp hcall]
    exact fits
  obtain ⟨last, hrun⟩ := @DelayLine.run_new channels maximum _ hfits
  obtain ⟨⟨s, mem'⟩, hprocess, _⟩ := Option.bind_eq_some_iff.mp hrun
  exact ⟨s, mem', hprocess⟩

/-- A period of silence on two channels. -/
def silence : DelayLine.Memory := List.replicate 2 (List.replicate 512 0)

def stereo : DelayLine.Block := ⟨512, [0, 1]⟩

theorem silence_fits : DelayLine.Fits 2 silence stereo stereo := by
  have hload : ∀ c, c < 2 → ∀ n, n < 512 → (DelayLine.load silence stereo c n).isSome := by
    intro c hc n hn
    have hcell : DelayLine.cellAt silence c n = some 0 := by
      rw [DelayLine.cellAt, silence, List.getElem?_replicate, if_pos hc]
      exact List.getElem?_replicate.trans (if_pos hn)
    have hplane : stereo.plane[c]? = some c := by
      rcases (by omega : c = 0 ∨ c = 1) with rfl | rfl
      · rfl
      · rfl
    rw [DelayLine.load_eq_some.mpr ⟨c, hplane, hcell⟩]
    rfl
  refine ⟨hload, hload, fun c d hc hd hsame => ?_, .inl rfl⟩
  rcases (by omega : c = 0 ∨ c = 1) with rfl | rfl <;>
    rcases (by omega : d = 0 ∨ d = 1) with rfl | rfl <;> first | rfl | cases hsame

/-- A first period, of silence. -/
def played (e : Engine) (g : Graph) : Engine :=
  { e with
    graph := some g.period
    lines := fun a => if a ∈ g.processed then
      ((e.lines a).process silence stereo stereo).elim (e.lines a) Prod.fst
    else e.lines a }

theorem played_reachable {e : Engine} {g : Graph} (reachable : e.Reachable power)
    (playing : e.graph = some g) (hframes : g.settings.engine.periodFrames = 512)
    (hnew : ∀ a ∈ g.processed, ∃ maximum, e.lines a = DelayLine.new 2 maximum) :
    (played e g).Reachable power := by
  refine .tail reachable (.period playing (played e g).lines (fun a ha => ?_)
    fun a ha => if_neg ha)
  obtain ⟨maximum, hline⟩ := hnew a ha
  obtain ⟨s, mem', hprocess⟩ := @process_new 2 maximum _ _ _ silence_fits
  refine ⟨silence, stereo, stereo, mem', hframes.symm, ?_⟩
  have hplayed : (played e g).lines a = s := by
    refine (if_pos ha).trans ?_
    rw [hline, hprocess]
    rfl
  rw [hplayed, hline, hprocess]

/-- The engine once these settings have played for a period. -/
def mixed : Engine := ({} : Engine).apply level allOpen (mixing (.singleton "ndi" 0))

def mixedGraph : Graph := mixed.graph.get (by decide)

theorem mixed_reachable : (played mixed mixedGraph).Reachable level := by
  refine played_reachable (.single (.apply {} allOpen _)) (Option.some_get _).symm rfl
    fun a ha => ?_
  have hlines : mixedGraph.processed = [⟨0, .source, "ndi"⟩, ⟨0, .sink, "hdmi"⟩] := by decide
  rw [hlines] at ha
  simp only [List.mem_cons, List.not_mem_nil, or_false] at ha
  rcases ha with rfl | rfl
  · exact ⟨240000, rfl⟩
  · exact ⟨240000, rfl⟩

def behind : Engine := ({} : Engine).apply level allOpen (routed 0)

def behindGraph : Graph := behind.graph.get (by decide)

theorem behind_lines : behindGraph.processed =
    [⟨0, .source, "ndi"⟩, ⟨0, .route, "route"⟩, ⟨0, .sink, "hdmi"⟩] := by decide

theorem behind_reachable : (played behind behindGraph).Reachable level := by
  refine played_reachable (.single (.apply {} allOpen _)) (Option.some_get _).symm rfl
    fun a ha => ?_
  rw [behind_lines] at ha
  simp only [List.mem_cons, List.not_mem_nil, or_false] at ha
  rcases ha with rfl | rfl | rfl
  · exact ⟨0, rfl⟩
  · exact ⟨0, rfl⟩
  · exact ⟨0, rfl⟩

/-- HDMI no longer mixes NDI. -/
def silenced : Engine := (played mixed mixedGraph).apply level allOpen (mixing .empty)

def silencedGraph : Graph := silenced.graph.get (by decide)

/-- The route plays a tenth of a second behind. -/
def delayed : Engine := (played behind behindGraph).apply level allOpen (routed 100)

def delayedGraph : Graph := delayed.graph.get (by decide)

theorem silenced_live : LiveChange level (played mixed mixedGraph) allOpen (mixing .empty)
    mixedGraph.period silencedGraph where
  reachable := mixed_reachable
  playing := rfl
  published := (Option.some_get _).symm
  changed := by decide
  live := by decide

theorem delayed_live : LiveChange level (played behind behindGraph) allOpen (routed 100)
    behindGraph.period delayedGraph where
  reachable := behind_reachable
  playing := rfl
  published := (Option.some_get _).symm
  changed := by decide
  live := by decide

theorem silenced_cut : ¬GoneFades level mixedGraph.period silencedGraph := by
  intro h
  have hheard : ∃ o ∈ mixedGraph.period.sinks, ∃ p ∈ o.inputs,
      p.block.kind = .source ∧ p.block.id = "ndi" := by decide
  have hstays : ∀ o ∈ mixedGraph.period.sinks, ∃ k ∈ silencedGraph.sinks,
      o.settings.id = k.settings.id ∧ k.settings.mix = .empty ∧ k.inputs = [] := by decide
  obtain ⟨o, ho, p, hp, hkind, hid⟩ := hheard
  obtain ⟨k, hk, hsame, hmix, hinputs⟩ := hstays o ho
  have hgone : ∀ gain, ¬Contributes level silencedGraph k p.block.kind p.block.id gain := by
    intro gain hcontributes
    rw [hkind, hid] at hcontributes
    obtain ⟨_, s, _, _, db, hdb, _⟩ := hcontributes
    rw [hmix] at hdb
    cases hdb
  obtain ⟨q, hq, _⟩ := h o ho k hk hsame p hp hgone
  rw [hinputs] at hq
  cases hq

/-- A line of one frame is never behind. -/
theorem delay_short {line : DelayLine} (hsize : line.size = 1) (frames : ℤ) :
    (line.setDelayFrames frames).delay = 0 := by
  have hclamp : DelayLine.clamp frames (line.size - 1) = 0 := by
    rw [hsize, DelayLine.clamp, Nat.sub_self, Nat.min_zero]
  simp only [DelayLine.setDelayFrames, hclamp]
  split_ifs with hsame
  · exact hsame.symm
  · rfl
  · rfl

theorem delayed_cut : ¬DelaysFade behindGraph.period delayedGraph (played behind behindGraph).lines
    delayed.lines := by
  intro h
  have hroutes : ∃ o ∈ behindGraph.period.routes, ∃ r ∈ delayedGraph.routes,
      sameRoute o.settings r.settings = true ∧ o.capacity = 0 ∧
        r.settings.delayMs * rate / 1000 = 4800 := by decide
  obtain ⟨o, ho, r, hr, hsame, hcapacity, hdelay⟩ := hroutes
  have hfades := h o ho r hr hsame
  have hsize : ((played behind behindGraph).lines o.delay).size = 1 := by
    have hsound := Engine.reachable_sound (fun _ => zero_le_one) behind_reachable
    rw [hsound.sized _ rfl o ho, hcapacity]
  have hlate := hfades.delay
  rw [hfades.set, delay_short hsize, hdelay] at hlate
  omega

/-- What is no longer mixed is cut, and so is a route that is to be further behind than its delay
line is long. -/
theorem changes_click :
    (¬∀ e env s B A, LiveChange level e env s B A →
      Clickless level B A e.lines (e.apply level env s).lines) ∧
    (∃ e env s B A, LiveChange level e env s B A ∧ ¬GoneFades level B A) ∧
    ∃ e env s B A, LiveChange level e env s B A ∧
      ¬DelaysFade B A e.lines (e.apply level env s).lines := by
  refine ⟨fun h => ?_, ⟨_, _, _, _, _, silenced_live, silenced_cut⟩,
    ⟨_, _, _, _, _, delayed_live, delayed_cut⟩⟩
  exact silenced_cut (h _ _ _ _ _ silenced_live).gone

/-- A tenth of a second more starts from nothing, in a delay line of its own. -/
theorem delayed_takes_over : TakesOver level behindGraph.period delayedGraph
    (played behind behindGraph).lines delayed.lines :=
  live_change_takes_over (fun _ => zero_le_one) delayed_live

end NdimonR.Decoder.AudioEngine
