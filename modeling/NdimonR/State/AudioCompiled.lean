import NdimonR.State.AudioCompile
import NdimonR.State.AudioLossless

/-! What a compiled graph is made of. -/

namespace NdimonR.State.Audio

open NdimonR.Types Text Json

/-! ### Refreshing -/

section
variable {a : Types.Audio}

theorem refresh_routes (a : Types.Audio) :
    (refresh a).routes = a.routes.filter fun _ r => routed a r := by
  unfold refresh
  simp only
  split <;> rfl

theorem refresh_outputs (a : Types.Audio) : (refresh a).outputs = a.outputs := by
  unfold refresh
  simp only
  split <;> rfl

theorem mem_refresh_routes {k : String} {r : AudioRoute} :
    (refresh a).routes.get? k = some r ↔ a.routes.get? k = some r ∧ routed a r = true := by
  rw [refresh_routes, SortedMap.get?_filter, Option.filter_eq_some_iff]

theorem isEmpty_of_get? {α : Type} {m : SortedMap String α} {k : String} {x : α}
    (h : m.get? k = some x) : m.isEmpty = false := by
  rw [SortedMap.isEmpty, List.isEmpty_eq_false_iff]
  intro hnil
  have hmem := SortedMap.mem_entries_iff.mpr h
  rw [hnil] at hmem
  cases hmem

/-- The nodes of the routes that stay are kept and switched on. -/
theorem refresh_source {k : String} {r : AudioRoute} {s : AudioSource}
    (hr : (refresh a).routes.get? k = some r) (hs : a.sources.get? r.source = some s) :
    (refresh a).sources.get? r.source = some (enableSource s) := by
  rw [refresh_routes] at hr
  have hused : ((a.routes.filter fun _ r => routed a r).values.any
      fun r' => r'.source = r.source) = true :=
    List.any_eq_true.mpr ⟨r, SortedMap.mem_values.mpr ⟨k, hr⟩, by simp⟩
  unfold refresh
  simp only [isEmpty_of_get? hr, Bool.false_eq_true, if_false, SortedMap.get?_mapValues,
    SortedMap.get?_filter, hs, Option.filter_some, hused, if_true, Option.map_some]

theorem refresh_sink {k : String} {r : AudioRoute} {s : AudioSink}
    (hr : (refresh a).routes.get? k = some r) (hs : a.sinks.get? r.sink = some s) :
    (refresh a).sinks.get? r.sink = some (enableSink s) := by
  rw [refresh_routes] at hr
  have hused : ((a.routes.filter fun _ r => routed a r).values.any
      fun r' => r'.sink = r.sink) = true :=
    List.any_eq_true.mpr ⟨r, SortedMap.mem_values.mpr ⟨k, hr⟩, by simp⟩
  unfold refresh
  simp only [isEmpty_of_get? hr, Bool.false_eq_true, if_false, SortedMap.get?_mapValues,
    SortedMap.get?_filter, hs, Option.filter_some, hused, Bool.true_or, if_true, Option.map_some]

/-- The master is a sink that is used. -/
theorem refreshMaster_used (h : a.routes.isEmpty = false) :
    ∃ k r, a.routes.get? k = some r ∧ r.sink = refreshMaster a := by
  have hsome : ∀ r ∈ a.routes.values, ∃ k, a.routes.get? k = some r := fun r hr => SortedMap.mem_values.mp hr
  unfold refreshMaster
  simp only
  split
  · rename_i hused
    obtain ⟨r, hr, hsink⟩ := List.any_eq_true.mp hused
    obtain ⟨k, hk⟩ := hsome r hr
    exact ⟨k, r, hk, by simpa using hsink⟩
  · cases hfind : a.routes.values.find? fun r => (a.sinks.get? r.sink).any fun s =>
        startsWithText "hdmi:" s.resource with
    | some r =>
      obtain ⟨k, hk⟩ := hsome r (List.mem_of_find?_eq_some hfind)
      exact ⟨k, r, hk, rfl⟩
    | none =>
      have hne : a.routes.entries ≠ [] := List.isEmpty_eq_false_iff.mp h
      obtain ⟨e, rest, he⟩ := List.exists_cons_of_ne_nil hne
      refine ⟨e.1, e.2, SortedMap.mem_entries_iff.mp (he ▸ List.mem_cons_self), ?_⟩
      simp [SortedMap.values, he]

/-- The graph is empty, or the master is a sink of it that is switched on. -/
def Mastered (a : Types.Audio) : Prop :=
  (a.routes.isEmpty = true ∧ a.sources.isEmpty = true ∧ a.sinks.isEmpty = true ∧
    a.settings.master = "") ∨
  ∃ s, a.sinks.get? a.settings.master = some s ∧ s.enabled = true

theorem refresh_mastered
    (h : ∀ k r, (refresh a).routes.get? k = some r → (a.sinks.get? r.sink).isSome = true) :
    Mastered (refresh a) := by
  cases hempty : (a.routes.filter fun _ r => routed a r).isEmpty with
  | true =>
    refine .inl ⟨by rw [refresh_routes]; exact hempty, ?_⟩
    unfold refresh
    simp only [hempty, if_true]
    exact ⟨rfl, rfl, trivial⟩
  | false =>
    obtain ⟨k, r, hk, hsink⟩ := refreshMaster_used
      (a := { a with routes := a.routes.filter fun _ r => routed a r }) hempty
    have hr : (refresh a).routes.get? k = some r := by
      rw [refresh_routes]
      exact hk
    obtain ⟨s, hs⟩ := Option.isSome_iff_exists.mp (h k r hr)
    have hmaster : (refresh a).settings.master = r.sink := by
      rw [hsink]
      unfold refresh
      simp only [hempty, Bool.false_eq_true, if_false]
    exact .inr ⟨enableSink s, by rw [hmaster]; exact refresh_sink hr hs, rfl⟩

end

/-! ### Placing nodes -/

/-- A map has the nodes of another, up to their switch. -/
def Extends {Node : Type} (enable : Node → Node) (before after : SortedMap String Node) : Prop :=
  ∀ id s, before.get? id = some s → ∃ s', after.get? id = some s' ∧ enable s' = enable s

/-- After the entries were handled: no node was lost, and each that plays has one. -/
structure Placed {Node : Type} (enable : Node → Node) (before after : SortedMap String Node)
    (on : Bool) (done : List Json) : Prop where
  keeps : Extends enable before after
  ids : ∀ e ∈ done, ∃ id, nodeId e = some id ∧
    (on = true → known e = true → after.contains id = true)

section
variable {Node : Type} {channels : Node → Nat} {enable : Node → Node}
  {fresh : String → Except String Node} {before nodes : SortedMap String Node} {entry : Json}
  {id : String} {node : Node}

theorem pickNode_ok (h : pickNode channels enable fresh nodes entry = .ok (id, node)) :
    nodeId entry = some id ∧
      ∀ existing, nodes.get? id = some existing → node = enable existing := by
  obtain ⟨i, hi, h⟩ := Outcome.bind_eq_ok.mp h
  obtain ⟨n, -, h⟩ := Outcome.bind_eq_ok.mp h
  have hid : nodeId entry = some i := by
    unfold entryId at hi
    cases hn : nodeId entry with
    | none => simp [hn] at hi
    | some j => simpa [hn] using hi
  cases hex : nodes.get? i with
  | none =>
    simp only [hex, Except.ok.injEq, Prod.mk.injEq] at h
    obtain ⟨rfl, rfl⟩ := h
    exact ⟨hid, fun existing he => by simp [hex] at he⟩
  | some existing =>
    simp only [hex] at h
    split at h
    · cases h
    · simp only [Except.ok.injEq, Prod.mk.injEq] at h
      obtain ⟨rfl, rfl⟩ := h
      refine ⟨hid, fun existing' he => ?_⟩
      rw [hex] at he
      cases he
      rfl

theorem Extends.refl (enable : Node → Node) (m : SortedMap String Node) : Extends enable m m :=
  fun _ s hs => ⟨s, hs, rfl⟩

theorem Placed.step {on : Bool} {done : List Json} (henable : ∀ s, enable (enable s) = enable s)
    (h : Placed enable before nodes on done)
    (hpick : pickNode channels enable fresh nodes entry = .ok (id, node)) :
    Placed enable before (if on && known entry then nodes.insert id node else nodes) on
      (done ++ [entry]) := by
  obtain ⟨hid, hnode⟩ := pickNode_ok hpick
  cases hon : on && known entry with
  | false =>
    rw [if_neg (by simp)]
    refine ⟨h.keeps, fun e he => ?_⟩
    rcases List.mem_append.mp he with he | he
    · exact h.ids e he
    · rw [List.mem_singleton.mp he]
      refine ⟨id, hid, fun ho hk => ?_⟩
      simp [ho, hk] at hon
  | true =>
    rw [if_pos rfl]
    constructor
    · intro j s hs
      obtain ⟨s', hs', he⟩ := h.keeps j s hs
      rw [SortedMap.get?_insert]
      split
      · rename_i hj
        subst hj
        exact ⟨node, rfl, by rw [hnode s' hs', henable, he]⟩
      · exact ⟨s', hs', he⟩
    · intro e he
      rcases List.mem_append.mp he with he | he
      · obtain ⟨j, hj, hin⟩ := h.ids e he
        exact ⟨j, hj, fun ho hk => (SortedMap.contains_insert ..).mpr (.inr (hin ho hk))⟩
      · rw [List.mem_singleton.mp he]
        exact ⟨id, hid, fun _ _ => (SortedMap.contains_insert ..).mpr (.inl rfl)⟩

end

theorem addSources_ok {output : OutputId} {start d : Draft} {entries : List Json}
    (h : entries.foldlM (addSource output) start = .ok d) :
    ∃ sources definitions, d = ⟨{ start.audio with sources }, { start.choice with definitions }⟩ ∧
      Placed enableSource start.audio.sources sources start.choice.enabled entries := by
  refine Outcome.foldlM_ensures (P := fun done d => ∃ sources definitions,
    d = ⟨{ start.audio with sources }, { start.choice with definitions }⟩ ∧
      Placed enableSource start.audio.sources sources start.choice.enabled done) ?_ ?_ h
  · rintro done d entry d' ⟨sources, definitions, rfl, hplaced⟩ hstep
    obtain ⟨⟨id, node⟩, hpick, hd⟩ := Outcome.bind_eq_ok.mp hstep
    cases hd
    refine ⟨if start.choice.enabled && known entry then sources.insert id node else sources,
      { definitions with sources := definitions.sources.insert id node }, ?_,
      hplaced.step (fun _ => rfl) hpick⟩
    cases start.choice.enabled && known entry <;> simp
  · exact ⟨start.audio.sources, start.choice.definitions, rfl, Extends.refl _ _, by simp⟩

theorem addSinks_ok {output : OutputId} {start d : Draft} {entries : List Json}
    (h : entries.foldlM (addSink output) start = .ok d) :
    ∃ sinks definitions, d = ⟨{ start.audio with sinks }, { start.choice with definitions }⟩ ∧
      Placed enableSink start.audio.sinks sinks start.choice.enabled entries := by
  refine Outcome.foldlM_ensures (P := fun done d => ∃ sinks definitions,
    d = ⟨{ start.audio with sinks }, { start.choice with definitions }⟩ ∧
      Placed enableSink start.audio.sinks sinks start.choice.enabled done) ?_ ?_ h
  · rintro done d entry d' ⟨sinks, definitions, rfl, hplaced⟩ hstep
    obtain ⟨⟨id, node⟩, hpick, hd⟩ := Outcome.bind_eq_ok.mp hstep
    cases hd
    refine ⟨if start.choice.enabled && known entry then sinks.insert id node else sinks,
      { definitions with sinks := definitions.sinks.insert id node }, ?_,
      hplaced.step (fun _ => rfl) hpick⟩
    cases start.choice.enabled && known entry <;> simp
  · exact ⟨start.audio.sinks, start.choice.definitions, rfl, Extends.refl _ _, by simp⟩

/-! ### Placing routes -/

abbrev Pair := (AudioInput × Json) × (AudioDestination × Json)

/-- The nodes a pair joins, when both its providers are known. -/
def Pair.nodes (pair : Pair) : Option (String × String) :=
  if known pair.1.2 && known pair.2.2 then
    some ((nodeId pair.1.2).getD "", (nodeId pair.2.2).getD "")
  else none

def Pair.route (ctx : RouteContext) (pair : Pair) : Option (String × AudioRoute) :=
  pair.nodes.map fun nodes =>
    (routeId ctx.digest ctx.output nodes.1 nodes.2,
      { AudioRoute.new ctx.output nodes.1 nodes.2 with
        delayMs := pair.1.1.delayMs + pair.2.1.delayMs
        gainDb := routeGain ctx pair.1.1 pair.2.1 nodes.1 nodes.2 })

theorem addRoute_ok {ctx : RouteContext} {routes routes' : SortedMap String AudioRoute}
    {pair : Pair} (h : addRoute ctx routes pair = .ok routes') :
    routes' = (pair.route ctx).toList.foldl (fun m e => m.insert e.1 e.2) routes := by
  obtain ⟨⟨i, input⟩, ⟨d, dest⟩⟩ := pair
  unfold addRoute at h
  simp only at h
  split at h
  · cases h
  · split at h
    · rename_i hunknown
      cases h
      have hnone : (known input && known dest) = false := by
        cases hi : known input <;> simp_all
      simp [Pair.route, Pair.nodes, hnone]
    · rename_i hknown
      have hboth : (known input && known dest) = true := by
        cases hi : known input <;> cases hd : known dest <;> simp_all
      cases hs : nodeId input with
      | none => simp [hs, bind, Except.bind] at h
      | some sid =>
        cases ht : nodeId dest with
        | none => simp [hs, ht, bind, Except.bind] at h
        | some tid =>
          simp only [hs, ht, bind, Except.bind, Except.ok.injEq] at h
          subst h
          simp [Pair.route, Pair.nodes, hboth, hs, ht]

theorem foldlM_addRoute_ok {ctx : RouteContext} {start routes : SortedMap String AudioRoute}
    {pairs : List Pair} (h : pairs.foldlM (addRoute ctx) start = .ok routes) :
    routes = (pairs.filterMap (Pair.route ctx)).foldl (fun m e => m.insert e.1 e.2) start := by
  refine Outcome.foldlM_ensures (P := fun done routes => routes =
    (done.filterMap (Pair.route ctx)).foldl (fun m e => m.insert e.1 e.2) start) ?_ rfl h
  intro done routes pair routes' hdone hstep
  rw [addRoute_ok hstep, hdone, List.filterMap_append, List.foldl_append]
  cases hp : Pair.route ctx pair <;> simp [hp]

/-! ### What a compilation builds -/

/-- The selected pairs of an output that plays. -/
def selectedPairs (choice : OutputAudio) (inputs destinations : List Json) : List Pair :=
  if choice.enabled then (choice.inputs.zip inputs) ×ˢ (choice.destinations.zip destinations)
  else []

theorem addRoutes_ok {ctx : RouteContext} {choice : OutputAudio} {inputs destinations : List Json}
    {start routes : SortedMap String AudioRoute}
    (h : addRoutes ctx choice inputs destinations start = .ok routes) :
    routes = ((selectedPairs choice inputs destinations).filterMap (Pair.route ctx)).foldl
      (fun m e => m.insert e.1 e.2) start := by
  unfold addRoutes at h
  unfold selectedPairs
  cases hon : choice.enabled with
  | true =>
    rw [hon, if_pos rfl] at h
    exact foldlM_addRoute_ok h
  | false =>
    rw [hon, if_neg (by simp)] at h
    cases h
    rfl

/-- The graph before the last refresh. -/
structure Compiled (ctx : RouteContext) (original : Types.Audio) (choice : OutputAudio)
    (catalog : Json) (inputs destinations : List Json) (mid : Types.Audio) : Prop where
  before : ctx.before = canonicalize ctx.digest original
  previous : ctx.previous = original.outputs.get? ctx.output
  resolvedInputs : List.Forall₂ (fun i v => resolve catalog "inputs" i.endpoint = .ok v)
    choice.inputs inputs
  resolvedDestinations : List.Forall₂ (fun d v => resolve catalog "destinations" d.endpoint = .ok v)
    choice.destinations destinations
  same : sameSelection catalog ctx.previous (settle ctx.before ctx.output choice) = .ok ctx.same
  outputs : ∃ saved, mid.outputs = original.outputs.insert ctx.output saved ∧
    saved.enabled = (settle ctx.before ctx.output choice).enabled
  sources : Placed enableSource ctx.before.sources mid.sources
    (settle ctx.before ctx.output choice).enabled inputs
  sinks : Placed enableSink ctx.before.sinks mid.sinks
    (settle ctx.before ctx.output choice).enabled destinations
  routes : mid.routes =
    ((selectedPairs (settle ctx.before ctx.output choice) inputs destinations).filterMap
      (Pair.route ctx)).foldl (fun m e => m.insert e.1 e.2)
      (ctx.before.routes.filter fun _ r => r.output ≠ ctx.output)

theorem retained_enabled (previous : Option OutputAudio) (choice : OutputAudio) :
    (retained previous choice).enabled = choice.enabled := by
  unfold retained
  cases previous with
  | none => rfl
  | some previous =>
    simp only
    split <;> rfl

theorem compileOutput_ok {digest : String → String} {floatText : ℚ → String}
    {original result : Types.Audio} {output : OutputId} {choice : OutputAudio} {normalize : Bool}
    {catalog : Json}
    (h : compileOutput digest floatText original output choice normalize catalog = .ok result) :
    ∃ same inputs destinations mid, result = refresh mid ∧
      Compiled ⟨digest, canonicalize digest original, original.outputs.get? output, output, same⟩
        original choice catalog inputs destinations mid := by
  unfold compileOutput at h
  split at h
  · cases h
  · obtain ⟨inputs, hinputs, h⟩ := Outcome.bind_eq_ok.mp h
    obtain ⟨destinations, hdestinations, h⟩ := Outcome.bind_eq_ok.mp h
    obtain ⟨_, -, h⟩ := Outcome.bind_eq_ok.mp h
    obtain ⟨_, -, h⟩ := Outcome.bind_eq_ok.mp h
    obtain ⟨same, hsame, h⟩ := Outcome.bind_eq_ok.mp h
    split at h
    · cases h
    · obtain ⟨d, hd, h⟩ := Outcome.bind_eq_ok.mp h
      obtain ⟨d', hd', h⟩ := Outcome.bind_eq_ok.mp h
      obtain ⟨routes, hroutes, h⟩ := Outcome.bind_eq_ok.mp h
      obtain ⟨sources, defs, rfl, hsources⟩ := addSources_ok hd
      obtain ⟨sinks, defs', rfl, hsinks⟩ := addSinks_ok hd'
      refine ⟨same, inputs, destinations, _, (Except.ok.inj h).symm, rfl, rfl,
        Outcome.mapM_eq_ok.mp hinputs, Outcome.mapM_eq_ok.mp hdestinations, hsame,
        ⟨_, rfl, ?_⟩, hsources, hsinks, ?_⟩
      · split
        · rw [retained_enabled]
        · rfl
      · exact addRoutes_ok hroutes

/-! ### The routes of each output -/

theorem Pair.route_eq {ctx : RouteContext} {pair : Pair} {e : String × AudioRoute}
    (h : pair.route ctx = some e) : e.2.output = ctx.output ∧ e.2.enabled = true ∧
      e.1 = routeId ctx.digest ctx.output e.2.source e.2.sink ∧
      pair.nodes = some (e.2.source, e.2.sink) := by
  obtain ⟨nodes, hnodes, rfl⟩ := Option.map_eq_some_iff.mp h
  exact ⟨rfl, rfl, rfl, hnodes⟩

section
variable {ctx : RouteContext} {original mid : Types.Audio} {choice : OutputAudio}
  {catalog : Json} {inputs destinations : List Json}

theorem filter_congr {α : Type} {o : Option α} {p q : α → Bool}
    (h : ∀ x, o = some x → p x = q x) : o.filter p = o.filter q := by
  cases o with
  | none => rfl
  | some x => rw [Option.filter_some, Option.filter_some, h x rfl]

/-- The routes a compilation makes, each under its id. -/
def madeRoutes (ctx : RouteContext) (choice : OutputAudio) (inputs destinations : List Json) :
    List (String × AudioRoute) :=
  (selectedPairs (settle ctx.before ctx.output choice) inputs destinations).filterMap
    (Pair.route ctx)

theorem mem_madeRoutes {e : String × AudioRoute}
    (h : e ∈ madeRoutes ctx choice inputs destinations) :
    (settle ctx.before ctx.output choice).enabled = true ∧ e.2.output = ctx.output ∧
      e.2.enabled = true ∧ e.1 = routeId ctx.digest ctx.output e.2.source e.2.sink := by
  obtain ⟨pair, hpair, he⟩ := List.mem_filterMap.mp h
  obtain ⟨ho, hon, hkey, -⟩ := Pair.route_eq he
  refine ⟨?_, ho, hon, hkey⟩
  by_contra hoff
  simp [selectedPairs, hoff] at hpair

theorem Compiled.get?_routes (h : Compiled ctx original choice catalog inputs destinations mid)
    (k : String) : mid.routes.get? k =
      ((SortedMap.ofList (madeRoutes ctx choice inputs destinations)).get? k).or
        ((ctx.before.routes.get? k).filter fun r => r.output ≠ ctx.output) := by
  rw [h.routes, SortedMap.get?_foldl, SortedMap.get?_filter]
  rfl

theorem Compiled.routed_other (h : Compiled ctx original choice catalog inputs destinations mid)
    {r : AudioRoute} (hr : r.output ≠ ctx.output) : routed mid r = routed original r := by
  obtain ⟨saved, houtputs, -⟩ := h.outputs
  rw [routed, houtputs, SortedMap.get?_insert, if_neg hr]
  rfl

/-- The routes of another output are the canonical ones that play. -/
theorem Compiled.routes_other (h : Compiled ctx original choice catalog inputs destinations mid)
    {test : AudioRoute → Bool} (htest : ∀ r, test r = true → r.output ≠ ctx.output) :
    ((refresh mid).routes.filter fun _ r => test r) =
      (ctx.before.routes.filter fun _ r => routed original r && test r) := by
  refine SortedMap.ext fun k => ?_
  rw [refresh_routes, SortedMap.get?_filter, SortedMap.get?_filter, SortedMap.get?_filter,
    h.get?_routes k, Option.filter_filter]
  cases hmade : (SortedMap.ofList (madeRoutes ctx choice inputs destinations)).get? k with
  | none =>
    rw [Option.none_or, Option.filter_filter]
    refine filter_congr fun r _ => ?_
    cases ht : test r with
    | false => simp
    | true =>
      have hne := htest r ht
      simp [hne, h.routed_other hne]
  | some r' =>
    obtain ⟨-, ho, -, hkey⟩ :=
      mem_madeRoutes (SortedMap.mem_ofList (SortedMap.mem_entries_iff.mpr hmade))
    have hmine : test r' = false := by
      by_contra ht
      exact htest r' (by simpa using ht) ho
    rw [Option.some_or, Option.filter_some_neg (by simp [hmine])]
    -- A canonical route under the same id belongs to the same output.
    refine (Option.filter_eq_none_iff.mpr fun r hr => ?_).symm
    rw [h.before] at hr
    have hid := (canonical_route hr).trans hkey
    have htheirs : test r = false := by
      by_contra ht
      exact htest r (by simpa using ht) (routeId_inj.mp hid).1
    simp [htheirs]

/-- The routes of the output itself are the ones made. -/
theorem Compiled.routes_own (h : Compiled ctx original choice catalog inputs destinations mid) :
    ((refresh mid).routes.filter fun _ r => r.output = ctx.output) =
      SortedMap.ofList (madeRoutes ctx choice inputs destinations) := by
  refine SortedMap.ext fun k => ?_
  rw [refresh_routes, SortedMap.get?_filter, SortedMap.get?_filter, h.get?_routes k,
    Option.filter_filter]
  cases hmade : (SortedMap.ofList (madeRoutes ctx choice inputs destinations)).get? k with
  | none =>
    rw [Option.none_or, Option.filter_filter]
    exact Option.filter_eq_none_iff.mpr fun r _ => by simp; tauto
  | some r' =>
    obtain ⟨hon, ho, hr, -⟩ :=
      mem_madeRoutes (SortedMap.mem_ofList (SortedMap.mem_entries_iff.mpr hmade))
    obtain ⟨saved, houtputs, hsaved⟩ := h.outputs
    simp only at ho hr
    have hrouted : routed mid r' = true := by
      simp [routed, hr, houtputs, ho, hsaved, hon]
    rw [Option.some_or, Option.filter_some_pos (by simpa [hrouted] using ho)]

end

end NdimonR.State.Audio
