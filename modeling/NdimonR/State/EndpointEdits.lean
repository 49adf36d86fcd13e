import NdimonR.State.FactoredBus

/-! Edits of single audio endpoints: what they change, what they keep, and when the graph that they
leave passes validation. -/

namespace NdimonR.State.Audio

open NdimonR.Types Text Render.Audio

/-! ### The edits -/

section
variable (audio : Types.Audio) (id : String)

/-- A retained definition stands for the edited endpoint under its id, or for the node it had. -/
def redefineSource (source : AudioSource) (out : OutputAudio) : OutputAudio :=
  { out with definitions := { out.definitions with
    sources := out.definitions.sources.mapValues fun «alias» definition =>
      if «alias» = id ∨ (audio.sources.get? id).any (·.endpoint == definition.endpoint) then source
      else definition } }

def redefineSink (sink : AudioSink) (out : OutputAudio) : OutputAudio :=
  { out with definitions := { out.definitions with
    sinks := out.definitions.sinks.mapValues fun «alias» definition =>
      if «alias» = id ∨ (audio.sinks.get? id).any (·.endpoint == definition.endpoint) then sink
      else definition } }

def withSource (source : AudioSource) : Types.Audio :=
  { audio with
    sources := audio.sources.insert id source
    outputs := audio.outputs.mapValues fun _ => redefineSource audio id source }

def withSink (sink : AudioSink) : Types.Audio :=
  { audio with
    sinks := audio.sinks.insert id sink
    outputs := audio.outputs.mapValues fun _ => redefineSink audio id sink }

end

/-- A source that a removal takes: named, or the input of the network. -/
def removesSource (ids : List String) (id : String) (node : AudioSource) : Bool :=
  ids.contains id || (ids.contains "net-in" && node.resource == "tessera:main:rx")

def removesSink (ids : List String) (id : String) (node : AudioSink) : Bool :=
  ids.contains id || (ids.contains "net-out" && node.resource == "tessera:main:tx")

/-- A sink without the factors of what is removed. -/
def unmix (ids : List String) (sink : AudioSink) : AudioSink :=
  { sink with mix := sink.mix.filter fun id _ => !ids.contains id }

def withoutEndpoints (audio : Types.Audio) (ids : List String) : Types.Audio :=
  let sources := audio.sources.filter fun id node => !removesSource ids id node
  let sinks := (audio.sinks.filter fun id node => !removesSink ids id node).mapValues
    fun _ => unmix ids
  { audio with
    sources
    sinks
    routes := audio.routes.filter fun _ r => sources.contains r.source && sinks.contains r.sink
    settings := { audio.settings with
      master := if sinks.contains audio.settings.master then audio.settings.master
        else sinks.keys.head?.getD "" } }

section
variable {env : Projections} {audio : Types.Audio}

theorem putSource_eq (id : String) (source : AudioSource) :
    putSource env audio id source = syncV1 env (withSource audio id source) := rfl

theorem putSink_eq (id : String) (sink : AudioSink) :
    putSink env audio id sink = syncV1 env (withSink audio id sink) := rfl

theorem removeEndpoints_eq {ids : List String} (h : ∀ id ∈ ids, id ≠ "ndi" ∧ id ≠ "hdmi") :
    removeEndpoints env audio ids = syncV1 env (withoutEndpoints audio ids) := by
  have hfree : (ids.any fun id => id == "ndi" || id == "hdmi") = false := by
    rw [List.any_eq_false]
    intro id hid
    simpa using h id hid
  unfold removeEndpoints
  rw [hfree]
  simp only [withoutEndpoints, removesSource, removesSink, Bool.not_or, ensure]
  rfl

end

/-! ### The parts of an edited graph -/

section
variable {a : Types.Audio} {id : String}

theorem nodes_put_source {sources : SortedMap String AudioSource}
    {sinks : SortedMap String AudioSink} (h : NodesAccepted sources sinks) {s : AudioSource}
    (hid : identifier id = true) (hs : Validator.source s "" = []) :
    NodesAccepted (sources.insert id s) sinks := by
  refine ⟨fun k x hx => ?_, h.sinks⟩
  rw [SortedMap.get?_insert] at hx
  split at hx
  · rename_i hk
    subst hk
    cases hx
    exact ⟨hid, hs⟩
  · exact h.sources k x hx

theorem nodes_put_sink {sources : SortedMap String AudioSource}
    {sinks : SortedMap String AudioSink} (h : NodesAccepted sources sinks) {t : AudioSink}
    (hid : identifier id = true) (ht : Validator.sink t "" = []) :
    NodesAccepted sources (sinks.insert id t) := by
  refine ⟨h.sources, fun k x hx => ?_⟩
  rw [SortedMap.get?_insert] at hx
  split at hx
  · rename_i hk
    subst hk
    cases hx
    exact ⟨hid, ht⟩
  · exact h.sinks k x hx

/-- Changed definitions leave the choices of an output as they are. -/
theorem choices_redefined {engine : AudioEngine} {out : OutputAudio}
    (h : ChoicesAccepted engine out) (definitions : AudioDefinitions) :
    ChoicesAccepted engine { out with definitions } :=
  ⟨h.inputCount, h.destinationCount, h.inputs, h.destinations⟩

theorem contains_mapValues {α β : Type} [LinearOrder α] {m : SortedMap α β} {f : α → β → β}
    {k : α} : (m.mapValues f).contains k = m.contains k := by
  rw [SortedMap.contains, SortedMap.get?_mapValues, Option.isSome_map]
  rfl

theorem withSource_local (h : Local a) (hid : identifier id = true) {s : AudioSource}
    (hs : Validator.source s "" = []) : Local (withSource a id s) := by
  have houtputs : ∀ o out, (withSource a id s).outputs.get? o = some out → (1 ≤ o ∧ o ≤ 8) ∧
      ChoicesAccepted a.engine out ∧
        NodesAccepted out.definitions.sources out.definitions.sinks := by
    intro o out ho
    obtain ⟨old, hold, rfl⟩ := Option.map_eq_some_iff.mp
      ((SortedMap.get?_mapValues _ _ _).symm.trans ho)
    obtain ⟨hbounds, hchoices, hnodes⟩ := h.outputs o old hold
    refine ⟨hbounds, choices_redefined hchoices _, fun k x hx => ?_, hnodes.sinks⟩
    obtain ⟨d, hd, rfl⟩ := Option.map_eq_some_iff.mp
      ((SortedMap.get?_mapValues _ _ _).symm.trans hx)
    split
    · exact ⟨(hnodes.sources k d hd).1, hs⟩
    · exact hnodes.sources k d hd
  refine ⟨h.rate, h.period, h.budget, h.videoDelay,
    size_outputs fun o out ho => (houtputs o out ho).1, nodes_put_source h.nodes hid hs, ?_, houtputs⟩
  intro k r hr
  have herrors := h.routes k r hr
  have hvalid := routeErrors_valid herrors
  exact routeErrors_congr herrors rfl (contains_mapValues.trans hvalid.outputs)
    ((SortedMap.contains_insert _ _ _ _).mpr (.inr hvalid.source)) hvalid.sink

theorem withSink_local (h : Local a) (hid : identifier id = true) {t : AudioSink}
    (ht : Validator.sink t "" = []) : Local (withSink a id t) := by
  have houtputs : ∀ o out, (withSink a id t).outputs.get? o = some out → (1 ≤ o ∧ o ≤ 8) ∧
      ChoicesAccepted a.engine out ∧
        NodesAccepted out.definitions.sources out.definitions.sinks := by
    intro o out ho
    obtain ⟨old, hold, rfl⟩ := Option.map_eq_some_iff.mp
      ((SortedMap.get?_mapValues _ _ _).symm.trans ho)
    obtain ⟨hbounds, hchoices, hnodes⟩ := h.outputs o old hold
    refine ⟨hbounds, choices_redefined hchoices _, hnodes.sources, fun k x hx => ?_⟩
    obtain ⟨d, hd, rfl⟩ := Option.map_eq_some_iff.mp
      ((SortedMap.get?_mapValues _ _ _).symm.trans hx)
    split
    · exact ⟨(hnodes.sinks k d hd).1, ht⟩
    · exact hnodes.sinks k d hd
  refine ⟨h.rate, h.period, h.budget, h.videoDelay,
    size_outputs fun o out ho => (houtputs o out ho).1, nodes_put_sink h.nodes hid ht, ?_, houtputs⟩
  intro k r hr
  have herrors := h.routes k r hr
  have hvalid := routeErrors_valid herrors
  exact routeErrors_congr herrors rfl (contains_mapValues.trans hvalid.outputs) hvalid.source
    ((SortedMap.contains_insert _ _ _ _).mpr (.inr hvalid.sink))

/-! ### Removal -/

variable {ids : List String}

theorem get?_remaining_source {k : String} {s : AudioSource} :
    (withoutEndpoints a ids).sources.get? k = some s ↔
      a.sources.get? k = some s ∧ removesSource ids k s = false := by
  change (a.sources.filter _).get? k = some s ↔ _
  rw [SortedMap.get?_filter, Option.filter_eq_some_iff, Bool.not_eq_true']

theorem get?_remaining_sink {k : String} {t : AudioSink} :
    (withoutEndpoints a ids).sinks.get? k = some t ↔
      ∃ old, a.sinks.get? k = some old ∧ removesSink ids k old = false ∧ t = unmix ids old := by
  change ((a.sinks.filter _).mapValues _).get? k = some t ↔ _
  rw [SortedMap.get?_mapValues, SortedMap.get?_filter, Option.map_eq_some_iff]
  simp only [Option.filter_eq_some_iff, Bool.not_eq_true', and_assoc, @eq_comm _ t]

theorem get?_remaining_route {k : String} {r : AudioRoute} :
    (withoutEndpoints a ids).routes.get? k = some r ↔ a.routes.get? k = some r ∧
      (withoutEndpoints a ids).sources.contains r.source = true ∧
      (withoutEndpoints a ids).sinks.contains r.sink = true := by
  change (a.routes.filter _).get? k = some r ↔ _
  rw [SortedMap.get?_filter, Option.filter_eq_some_iff, Bool.and_eq_true]
  rfl

theorem unmix_accepted {t : AudioSink} (h : Validator.sink t "" = []) :
    Validator.sink (unmix ids t) "" = [] := by
  unfold Validator.sink at h ⊢
  rw [List.append_eq_nil_iff, List.flatMap_eq_nil_iff] at h ⊢
  exact ⟨h.1, fun e he => h.2 e (SortedMap.mem_filter he)⟩

theorem withoutEndpoints_local (h : Local a) : Local (withoutEndpoints a ids) := by
  refine ⟨h.rate, h.period, h.budget, h.videoDelay, h.outputCount, ⟨?_, ?_⟩, ?_, h.outputs⟩
  · intro k s hs
    exact h.nodes.sources k s (get?_remaining_source.mp hs).1
  · intro k t ht
    obtain ⟨old, hold, -, rfl⟩ := get?_remaining_sink.mp ht
    obtain ⟨hid, haccepted⟩ := h.nodes.sinks k old hold
    exact ⟨hid, unmix_accepted haccepted⟩
  · intro k r hr
    obtain ⟨hold, hsource, hsink⟩ := get?_remaining_route.mp hr
    have herrors := h.routes k r hold
    exact routeErrors_congr herrors rfl (routeErrors_valid herrors).outputs hsource hsink

/-- A route that stays plays as it did: its nodes are the same up to their factors. -/
theorem remaining_ends {k : String} {r : AudioRoute}
    (hr : (withoutEndpoints a ids).routes.get? k = some r) :
    activeEnds (withoutEndpoints a ids) r = activeEnds a r := by
  obtain ⟨-, hsource, hsink⟩ := get?_remaining_route.mp hr
  obtain ⟨s, hs⟩ := Option.isSome_iff_exists.mp hsource
  obtain ⟨t, ht⟩ := Option.isSome_iff_exists.mp hsink
  obtain ⟨old, hold, -, rfl⟩ := get?_remaining_sink.mp ht
  have houtputs : (withoutEndpoints a ids).outputs = a.outputs := rfl
  unfold activeEnds
  rw [hs, ht, (get?_remaining_source.mp hs).1, hold, houtputs]
  cases a.outputs.get? r.output <;> rfl

theorem remaining_selects {o : OutputId} {i : String}
    (h : Selects (withoutEndpoints a ids) o i) : Selects a o i := by
  obtain ⟨k, r, hr, ho, hi, hplays⟩ := h
  exact ⟨k, r, (get?_remaining_route.mp hr).1, ho, hi, (remaining_ends hr) ▸ hplays⟩

theorem removed_contributions
    (h : (a.routes.entries.filterMap fun e => activeEnds a e.2).Nodup) :
    ((withoutEndpoints a ids).routes.entries.filterMap fun e =>
      activeEnds (withoutEndpoints a ids) e.2).Nodup := by
  have hends : ((withoutEndpoints a ids).routes.entries.filterMap fun e =>
      activeEnds (withoutEndpoints a ids) e.2) =
      (withoutEndpoints a ids).routes.entries.filterMap fun e => activeEnds a e.2 := by
    refine List.filterMap_congr fun e he => ?_
    exact remaining_ends (SortedMap.mem_entries_iff.mp he)
  have hsub : (withoutEndpoints a ids).routes.entries.Sublist a.routes.entries :=
    List.filter_sublist
  rw [hends]
  exact h.sublist (hsub.filterMap _)

/-- Of what joins the parts, a removal can break only the rule about the master. -/
theorem removed_joint_iff (h : Joint a) :
    Joint (withoutEndpoints a ids) ↔ MasterSet (withoutEndpoints a ids) := by
  refine ⟨Joint.master, fun hmaster => ⟨?_, ?_, hmaster, ?_, removed_contributions h.contributions,
    ?_, h.distinct⟩⟩
  · exact (List.length_filter_le _ _).trans h.sourceCount
  · change (List.map _ (List.filter _ _)).length ≤ 32
    rw [List.length_map]
    exact (List.length_filter_le _ _).trans h.sinkCount
  · intro he
    change (List.map _ (List.filter _ _)).Pairwise _
    rw [List.pairwise_map]
    exact (h.writers he).filter _
  · intro o i j s t hne hi hj hs ht
    exact h.apart o i j s t hne (remaining_selects hi) (remaining_selects hj)
      (get?_remaining_source.mp hs).1 (get?_remaining_source.mp ht).1

end

/-! ### The completed edit -/

/-- The edit as the reducer leaves it. -/
def completed (digest : String → String) (mid : Types.Audio) : Types.Audio :=
  if Factored mid then rebuilt digest mid else mid

section
variable {digest : String → String} {mid : Types.Audio}

theorem syncV1_completed {compileOutput} (h : Local mid) :
    syncV1 (projections digest compileOutput) mid = .ok (completed digest mid) := by
  unfold completed
  by_cases hf : Factored mid
  · have hp := primary_valid fun o out ho => (h.outputs o out ho).1
    rw [if_pos hf]
    exact syncV1_factored hf h.nodes hp.2
  · rw [if_neg hf]
    exact syncV1_plain hf

theorem completed_nodes : (completed digest mid).sources = mid.sources ∧
    (completed digest mid).sinks = mid.sinks ∧ (completed digest mid).settings = mid.settings ∧
    (completed digest mid).engine = mid.engine ∧
    (completed digest mid).videoDelayMs = mid.videoDelayMs := by
  unfold completed
  split <;> exact ⟨rfl, rfl, rfl, rfl, rfl⟩

/-- With its parts in order, an edit passes validation exactly when it keeps what joins them. -/
theorem completed_valid_iff (hdigest : Hexadecimal digest) (h : Local mid) :
    Validator.audio (completed digest mid) = [] ↔ Joint (completed digest mid) := by
  rw [audio_eq_nil]
  refine and_iff_right_of_imp fun hjoint => ?_
  obtain ⟨hsources, hsinks, -⟩ := @completed_nodes digest mid
  have hfew : mid.sources.size ≤ 32 := hsources ▸ hjoint.sourceCount
  have hfewer : mid.sinks.size ≤ 32 := hsinks ▸ hjoint.sinkCount
  unfold completed
  split
  · rename_i hf
    exact rebuilt_local hdigest h hf hfew hfewer
  · exact h

end

/-- What an edit keeps besides nodes. The outputs are as `redefine` leaves them and the routes are
those that `Stays`; of a factored graph, the primary output and its routes are rebuilt instead. -/
structure Kept (digest : String → String) (a next : Types.Audio)
    (redefine : OutputAudio → OutputAudio) (Stays : AudioRoute → Prop) : Prop where
  engine : next.engine = a.engine
  videoDelay : next.videoDelayMs = a.videoDelayMs
  outputs : ∀ o, (Factored next → o ≠ primary a) →
    next.outputs.get? o = (a.outputs.get? o).map redefine
  routes : ∀ k r, (Factored next → r.output ≠ primary a) →
    (next.routes.get? k = some r → a.routes.get? k = some r ∧ Stays r) ∧
      (a.routes.get? k = some r → Stays r → next.routes.get? k = some r ∨
        (Factored next ∧ ∃ factor, FactorRoute digest next (primary a) k factor))
  bus : Factored next → ∃ out, next.outputs.get? (primary a) = some out ∧ out.primary = true ∧
    out.inputs = inputs (next.sources.rekey (fun id _ => id) (viewedSource (primary a))) ∧
    out.destinations = destinations (next.sinks.rekey (fun id _ => id) (viewedSink (primary a)))
  factors : Factored next → ∀ k r, r.output = primary a → next.routes.get? k = some r →
    FactorRoute digest next (primary a) k r

section
variable {digest : String → String} {a mid : Types.Audio}

theorem factored_completed : Factored (completed digest mid) ↔ Factored mid := by
  obtain ⟨hsources, -, -, hengine, -⟩ := @completed_nodes digest mid
  rw [Factored, Factored, hsources, hengine]

theorem factorRoute_completed {p : OutputId} {k : String} {r : AudioRoute} :
    FactorRoute digest (completed digest mid) p k r ↔ FactorRoute digest mid p k r := by
  obtain ⟨hsources, hsinks, -⟩ := @completed_nodes digest mid
  rw [FactorRoute, FactorRoute, hsources, hsinks]

theorem FactorRoute.output {g : Types.Audio} {p : OutputId} {k : String} {r : AudioRoute}
    (h : FactorRoute digest g p k r) : r.output = p := by
  obtain ⟨id, s, sid, t, mix, -, -, -, -, rfl⟩ := h
  rfl

/-- An edit that keeps outputs and routes keeps them when it is completed. -/
theorem completed_kept {redefine : OutputAudio → OutputAudio} {Stays : AudioRoute → Prop}
    (hengine : mid.engine = a.engine) (hdelay : mid.videoDelayMs = a.videoDelayMs)
    (hprimary : primary mid = primary a)
    (houtputs : ∀ o, mid.outputs.get? o = (a.outputs.get? o).map redefine)
    (hroutes : ∀ k r, mid.routes.get? k = some r ↔ a.routes.get? k = some r ∧ Stays r) :
    Kept digest a (completed digest mid) redefine Stays := by
  obtain ⟨hsources, hsinks, -, hkept, hlate⟩ := @completed_nodes digest mid
  by_cases hf : Factored mid
  · have hrebuilt : completed digest mid = rebuilt digest mid := if_pos hf
    constructor
    · exact hkept.trans hengine
    · exact hlate.trans hdelay
    · intro o ho
      have hne := ho (factored_completed.mpr hf)
      rw [hrebuilt]
      change (mid.outputs.insert _ _).get? o = _
      rw [SortedMap.get?_insert, hprimary, if_neg hne, houtputs]
    · intro k r hr
      have hne := hr (factored_completed.mpr hf)
      rw [hrebuilt, get?_rebuilt_routes, hprimary]
      constructor
      · intro h
        rcases Option.or_eq_some_iff.mp h with hnew | ⟨-, hold⟩
        · have hmade := (factoredBus_route hnew).output
          exact absurd (hmade.trans hprimary) hne
        · exact (hroutes k r).mp (Option.filter_eq_some_iff.mp hold).1
      · intro hold hstays
        cases hnew : (factoredBus digest mid).2.get? k with
        | some factor =>
          refine .inr ⟨hrebuilt ▸ factored_completed.mpr hf, factor, ?_⟩
          rw [← hrebuilt, factorRoute_completed, ← hprimary]
          exact factoredBus_route hnew
        | none =>
          refine .inl ?_
          rw [Option.none_or, (hroutes k r).mpr ⟨hold, hstays⟩]
          exact Option.filter_some_pos (by simpa using hne)
    · intro _
      rw [hsources, hsinks, hrebuilt]
      refine ⟨(factoredBus digest mid).1, ?_, rfl, ?_, ?_⟩
      · change (mid.outputs.insert _ _).get? _ = _
        rw [SortedMap.get?_insert, hprimary, if_pos rfl]
      · rw [← hprimary]
        rfl
      · rw [← hprimary]
        rfl
    · intro _ k r hr h
      rw [factorRoute_completed, ← hprimary]
      rw [hrebuilt, get?_rebuilt_routes] at h
      rcases Option.or_eq_some_iff.mp h with hnew | ⟨-, hold⟩
      · exact factoredBus_route hnew
      · have hother := (Option.filter_eq_some_iff.mp hold).2
        rw [hprimary, hr] at hother
        simp at hother
  · have hplain : completed digest mid = mid := if_neg hf
    rw [hplain]
    refine ⟨hengine, hdelay, fun o _ => houtputs o, fun k r _ => ⟨(hroutes k r).mp, ?_⟩,
      fun h => absurd h hf, fun h => absurd h hf⟩
    intro hold hstays
    exact .inl ((hroutes k r).mpr ⟨hold, hstays⟩)

theorem primary_mapValues {f : OutputAudio → OutputAudio}
    (hf : ∀ out, (f out).primary = out.primary) :
    ((a.outputs.mapValues fun _ => f).entries.find? fun e => e.2.primary).map (·.1) =
      (a.outputs.entries.find? fun e => e.2.primary).map (·.1) := by
  change (List.find? _ (List.map _ _)).map _ = _
  rw [List.find?_map, Option.map_map]
  have hsame : ((fun e : OutputId × OutputAudio => e.2.primary) ∘
      fun e : OutputId × OutputAudio => (e.1, f e.2)) = fun e => e.2.primary := by
    funext e
    exact hf e.2
  rw [hsame]
  rfl

end

/-! ### Locality -/

/-- What a removal leaves: the other nodes, without the factors of what is gone, a master among
them, and nothing that joins or mixes a node that is not there. -/
structure Removed (a next : Types.Audio) (ids : List String) : Prop where
  sources : ∀ k s, next.sources.get? k = some s ↔
    a.sources.get? k = some s ∧ removesSource ids k s = false
  sinks : ∀ k t, next.sinks.get? k = some t ↔
    ∃ old, a.sinks.get? k = some old ∧ removesSink ids k old = false ∧ t = unmix ids old
  settings : next.settings = { a.settings with
    master := if next.sinks.contains a.settings.master then a.settings.master
      else next.sinks.keys.head?.getD "" }
  joined : ∀ k r, next.routes.get? k = some r →
    next.sources.contains r.source = true ∧ next.sinks.contains r.sink = true
  mastered : next.sinks.contains next.settings.master = true ∨
    (next.sinks.isEmpty = true ∧ next.settings.master = "")
  unmixed : ∀ k t, next.sinks.get? k = some t → ∀ id ∈ ids, t.mix.get? id = none

section
variable {digest : String → String} {a : Types.Audio}

theorem withSource_kept (id : String) (s : AudioSource) :
    Kept digest a (completed digest (withSource a id s)) (redefineSource a id s) fun _ => True := by
  refine completed_kept rfl rfl ?_ (fun o => SortedMap.get?_mapValues _ _ _)
    fun k r => (and_iff_left trivial).symm
  exact congrArg (Option.getD · 1) (primary_mapValues fun _ => rfl)

theorem withSink_kept (id : String) (t : AudioSink) :
    Kept digest a (completed digest (withSink a id t)) (redefineSink a id t) fun _ => True := by
  refine completed_kept rfl rfl ?_ (fun o => SortedMap.get?_mapValues _ _ _)
    fun k r => (and_iff_left trivial).symm
  exact congrArg (Option.getD · 1) (primary_mapValues fun _ => rfl)

theorem withoutEndpoints_kept (ids : List String) :
    Kept digest a (completed digest (withoutEndpoints a ids)) id fun r =>
      (completed digest (withoutEndpoints a ids)).sources.contains r.source = true ∧
        (completed digest (withoutEndpoints a ids)).sinks.contains r.sink = true := by
  obtain ⟨hsources, hsinks, -⟩ := @completed_nodes digest (withoutEndpoints a ids)
  rw [hsources, hsinks]
  refine completed_kept rfl rfl rfl ?_ fun k r => get?_remaining_route
  intro o
  rw [Option.map_id]
  rfl

/-- Rebuilt or not, a route joins nodes of the graph when those that stay do. -/
theorem completed_joined {mid : Types.Audio}
    (h : ∀ k r, mid.routes.get? k = some r →
      mid.sources.contains r.source = true ∧ mid.sinks.contains r.sink = true) :
    ∀ k r, (completed digest mid).routes.get? k = some r →
      mid.sources.contains r.source = true ∧ mid.sinks.contains r.sink = true := by
  intro k r hr
  unfold completed at hr
  split at hr
  · rw [get?_rebuilt_routes] at hr
    rcases Option.or_eq_some_iff.mp hr with hnew | ⟨-, hold⟩
    · obtain ⟨id, s, sid, t, mix, hs, ht, -, -, rfl⟩ := factoredBus_route hnew
      exact ⟨Option.isSome_iff_exists.mpr ⟨s, hs⟩, Option.isSome_iff_exists.mpr ⟨t, ht⟩⟩
    · exact h k r (Option.filter_eq_some_iff.mp hold).1
  · exact h k r hr

/-- The master that is picked is there, unless nothing is. -/
theorem next_master (sinks : SortedMap String AudioSink) (master : String) :
    sinks.contains (if sinks.contains master then master else sinks.keys.head?.getD "") = true ∨
      (sinks.isEmpty = true ∧
        (if sinks.contains master then master else sinks.keys.head?.getD "") = "") := by
  by_cases hthere : sinks.contains master = true
  · rw [if_pos hthere]
    exact .inl hthere
  · rw [if_neg hthere]
    cases hkeys : sinks.keys with
    | nil =>
      have hnil : sinks.entries = [] := List.map_eq_nil_iff.mp hkeys
      exact .inr ⟨List.isEmpty_iff.mpr hnil, rfl⟩
    | cons k rest =>
      refine .inl (SortedMap.mem_keys_iff.mp ?_)
      rw [hkeys]
      exact List.mem_cons_self

theorem withoutEndpoints_removed (ids : List String) :
    Removed a (completed digest (withoutEndpoints a ids)) ids := by
  obtain ⟨hsources, hsinks, hsettings, -⟩ := @completed_nodes digest (withoutEndpoints a ids)
  have hjoined := @completed_joined digest (withoutEndpoints a ids)
    fun k r hr => (get?_remaining_route.mp hr).2
  constructor
  · rw [hsources]
    exact fun k s => get?_remaining_source
  · rw [hsinks]
    exact fun k t => get?_remaining_sink
  · rw [hsettings, hsinks]
    rfl
  · rw [hsources, hsinks]
    exact hjoined
  · rw [hsinks, hsettings]
    exact next_master _ a.settings.master
  · rw [hsinks]
    intro k t ht id hid
    obtain ⟨old, -, -, rfl⟩ := get?_remaining_sink.mp ht
    change (old.mix.filter _).get? id = none
    rw [SortedMap.get?_filter, Option.filter_eq_none_iff]
    intro q _
    simpa using hid

end

/-! ### Beyond the edited endpoints -/

/-- The digest of the two nodes that the graphs below join. -/
def sampleDigest (_ : String) : String :=
  "1c0c11a892668fb19c23ca6042c8600aa1a78afa1a189bf2904161991fd62d16"

def sampleProjections : Projections :=
  projections sampleDigest fun s _ _ _ => .ok s.audio

def plug : AudioSink := { AudioSink.new "plughw:Plug,0" 2 with endpoint := "plug" }

/-- An NDI source plays on a plugin's sink; another sink is switched off. -/
def spareSink : Types.Audio where
  engine := .v2
  settings := { master := "plug" }
  sinks := .ofList [("plug", plug), ("aux",
    { AudioSink.new "plughw:Aux,0" 2 with
      endpoint := "aux"
      enabled := false })]
  outputs := .singleton 1
    { enabled := true
      primary := true
      inputs := [⟨"ndi-1", 0, 0⟩]
      destinations := [⟨"plug", 0⟩]
      definitions := { sinks := .singleton "plug" plug } }
  routes := .singleton "primary" (AudioRoute.new 1 "ndi" "plug")

/-- The default graph of the first engine, with its output muted. -/
def mutedBus : Types.Audio where
  outputs := .singleton 1
    { primary := true
      inputs := [⟨"ndi-1", 0, 0⟩]
      destinations := [⟨"hdmi-1", 0⟩] }

def microphone : AudioSource := { AudioSource.alsa "plughw:Mic,0" 1 with endpoint := "mic" }

theorem sampleDigest_hexadecimal : Hexadecimal sampleDigest := by
  intro t c hc
  have hdigits : (sampleDigest "").toList.all fun c => isAsciiDigit c || ('a' ≤ c && c ≤ 'f') := by
    rfl
  simpa using List.all_eq_true.mp hdigits c hc

theorem spareSink_valid : Validator.audio spareSink = [] := by decide +kernel

end NdimonR.State.Audio
