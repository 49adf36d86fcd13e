import Mathlib.Data.List.ProdSigma
import NdimonR.State.AudioCompiled

/-! What saving the audio of one output does to the graph of the others. -/

namespace NdimonR.State.Audio

open NdimonR.Types Text Json

/-! ### The pairs chosen -/

/-- The nodes of the chosen endpoints whose providers are known. -/
def chosenNodes (catalog : Json) (direction : String) (endpoints : List String) : List String :=
  endpoints.filterMap fun id =>
    match resolve catalog direction id with
    | .ok v => if known v then nodeId v else none
    | .error _ => none

def chosenPairs (catalog : Json) (choice : OutputAudio) : List (String × String) :=
  if choice.enabled then
    chosenNodes catalog "inputs" (choice.inputs.map (·.endpoint)) ×ˢ
      chosenNodes catalog "destinations" (choice.destinations.map (·.endpoint))
  else []

theorem filterMap_product {α β γ δ : Type} (f : α → Option γ) (g : β → Option δ) (l : List α)
    (m : List β) : (l ×ˢ m).filterMap (fun p => (f p.1).bind fun x => (g p.2).map (Prod.mk x)) =
      l.filterMap f ×ˢ m.filterMap g := by
  induction l with
  | nil => rfl
  | cons a l ih =>
    rw [List.product_cons, List.filterMap_append, ih, List.filterMap_map]
    cases ha : f a with
    | none => simp [ha]
    | some x =>
      simp only [Function.comp_def, ha, Option.bind_some, List.filterMap_cons_some ha,
        List.product_cons, List.append_cancel_right_eq]
      rw [← List.map_filterMap]

/-- A node of an entry whose provider is known. -/
def knownNode (entry : Json) : Option String := if known entry then nodeId entry else none

theorem Pair.nodes_eq {pair : Pair} (hi : (nodeId pair.1.2).isSome = true)
    (hd : (nodeId pair.2.2).isSome = true) :
    pair.nodes = (knownNode pair.1.2).bind fun s => (knownNode pair.2.2).map (Prod.mk s) := by
  obtain ⟨s, hs⟩ := Option.isSome_iff_exists.mp hi
  obtain ⟨t, ht⟩ := Option.isSome_iff_exists.mp hd
  unfold Pair.nodes knownNode
  rw [hs, ht]
  cases hki : known pair.1.2 <;> cases hkd : known pair.2.2 <;> simp

theorem filterMap_zip {α : Type} {key : α → String} {catalog : Json} {direction : String}
    {l : List α} {entries : List Json}
    (h : List.Forall₂ (fun x v => resolve catalog direction (key x) = .ok v) l entries) :
    (l.zip entries).filterMap (fun p => knownNode p.2) =
      chosenNodes catalog direction (l.map key) := by
  induction h with
  | nil => rfl
  | cons hx _ ih =>
    rw [chosenNodes] at ih ⊢
    rw [List.zip_cons_cons, List.filterMap_cons, List.map_cons, List.filterMap_cons, ih, hx]
    rfl

theorem settle_pairs (before : Types.Audio) (output : OutputId) (choice : OutputAudio)
    (catalog : Json) : chosenPairs catalog (settle before output choice) =
      chosenPairs catalog choice := by
  unfold chosenPairs settle
  cases hi : choice.inputs with
  | nil => cases choice.enabled <;> simp [chosenNodes]
  | cons i inputs =>
    cases hd : choice.destinations with
    | nil => cases choice.enabled <;> simp [chosenNodes]
    | cons d destinations => cases choice.enabled <;> simp

section
variable {ctx : RouteContext} {original mid : Types.Audio} {choice : OutputAudio}
  {catalog : Json} {inputs destinations : List Json}

theorem Compiled.nodes (h : Compiled ctx original choice catalog inputs destinations mid) :
    (selectedPairs (settle ctx.before ctx.output choice) inputs destinations).filterMap Pair.nodes =
      chosenPairs catalog choice := by
  rw [← settle_pairs ctx.before ctx.output choice catalog]
  unfold selectedPairs chosenPairs
  split
  · have hnodes : ∀ p ∈ ((settle ctx.before ctx.output choice).inputs.zip inputs) ×ˢ
        ((settle ctx.before ctx.output choice).destinations.zip destinations),
        Pair.nodes p = (knownNode p.1.2).bind fun s => (knownNode p.2.2).map (Prod.mk s) := by
      intro p hp
      obtain ⟨hi, hd⟩ := List.mem_product.mp hp
      obtain ⟨s, hs, -⟩ := h.sources.ids p.1.2 (List.of_mem_zip hi).2
      obtain ⟨t, ht, -⟩ := h.sinks.ids p.2.2 (List.of_mem_zip hd).2
      exact Pair.nodes_eq (Option.isSome_of_eq_some hs) (Option.isSome_of_eq_some ht)
    rw [List.filterMap_congr hnodes,
      filterMap_product (fun p : AudioInput × Json => knownNode p.2)
        (fun p : AudioDestination × Json => knownNode p.2),
      filterMap_zip (l := (settle ctx.before ctx.output choice).inputs) h.resolvedInputs,
      filterMap_zip (l := (settle ctx.before ctx.output choice).destinations)
        h.resolvedDestinations]
  · rfl

theorem Compiled.made_nodes (h : Compiled ctx original choice catalog inputs destinations mid) :
    ((madeRoutes ctx choice inputs destinations).map fun e => (e.2.source, e.2.sink)) =
      chosenPairs catalog choice := by
  rw [← h.nodes, madeRoutes, List.map_filterMap]
  refine List.filterMap_congr fun pair _ => ?_
  unfold Pair.route
  cases pair.nodes <;> rfl

theorem Compiled.made_keys (h : Compiled ctx original choice catalog inputs destinations mid) :
    (madeRoutes ctx choice inputs destinations).map Prod.fst =
      (chosenPairs catalog choice).map fun p => routeId ctx.digest ctx.output p.1 p.2 := by
  rw [← h.made_nodes, List.map_map]
  exact List.map_congr_left fun e he => (mem_madeRoutes he).2.2.2

end

/-! ### What stays as it was -/

/-- The route's nodes are those it had. -/
structure NodesKept (original result : Types.Audio) (r : AudioRoute) : Prop where
  source : result.sources.get? (sourceName original r.source) =
    (original.sources.get? r.source).map fun s => enableSource (canonicalSource s)
  sink : result.sinks.get? (sinkName original r.sink) =
    (original.sinks.get? r.sink).map fun s => enableSink (canonicalSink s)

/-- An output has its selection, and its playing routes are the canonical ones it had. -/
structure OutputKept (original result : Types.Audio) (p : OutputId) (out : OutputAudio) : Prop where
  output : result.outputs.get? p = some out
  routes : (result.routes.values.filter fun r => r.output = p && r.enabled).Perm
    ((original.routes.values.filter fun r => r.output = p && r.enabled).map
      (canonicalRoute original))
  nodes : ∀ r ∈ original.routes.values, r.output = p → r.enabled = true →
    NodesKept original result r

/-- The other outputs play as before, the output itself plays the chosen pairs, and every route
joins nodes that are there and on. -/
structure Undisturbed (original result : Types.Audio) (output : OutputId)
    (pairs : List (String × String)) : Prop where
  others : ∀ p out, p ≠ output → original.outputs.get? p = some out → out.enabled = true →
    OutputKept original result p out
  own : ((result.routes.values.filter fun r => r.output = output).map
    fun r => (r.source, r.sink)).Perm pairs
  played : ∀ r ∈ result.routes.values,
    (∃ s, result.sources.get? r.source = some s ∧ s.enabled = true) ∧
      ∃ s, result.sinks.get? r.sink = some s ∧ s.enabled = true
  master : Mastered result

/-! ### When the others survive -/

/-- A route of another output that plays. -/
def PlaysElsewhere (audio : Types.Audio) (output : OutputId) (r : AudioRoute) : Prop :=
  routed audio r = true ∧ r.output ≠ output

/-- No later route takes the id of one that plays elsewhere, and what takes the id of a node of it
plays the same. -/
structure OthersSurvive (digest : String → String) (audio : Types.Audio) (output : OutputId) :
    Prop where
  routes : ∀ e ∈ audio.routes.entries, PlaysElsewhere audio output e.2 →
    audio.routes.LastUnder (fun _ => routeKey digest audio) (routeKey digest audio e.2) e
  sources : ∀ e ∈ audio.routes.entries, PlaysElsewhere audio output e.2 →
    ∀ s, audio.sources.get? e.2.source = some s →
      ∀ d, audio.sources.LastUnder sourceId (sourceId e.2.source s) d →
        enableSource (canonicalSource d.2) = enableSource (canonicalSource s)
  sinks : ∀ e ∈ audio.routes.entries, PlaysElsewhere audio output e.2 →
    ∀ s, audio.sinks.get? e.2.sink = some s →
      ∀ d, audio.sinks.LastUnder sinkId (sinkId e.2.sink s) d →
        enableSink (canonicalSink d.2) = enableSink (canonicalSink s)

section
variable {ctx : RouteContext} {original mid : Types.Audio} {choice : OutputAudio}
  {catalog : Json} {inputs destinations : List Json}

theorem Compiled.output_kept (h : Compiled ctx original choice catalog inputs destinations mid)
    {p : OutputId} (hp : p ≠ ctx.output) : (refresh mid).outputs.get? p = original.outputs.get? p := by
  obtain ⟨saved, houtputs, -⟩ := h.outputs
  rw [refresh_outputs, houtputs, SortedMap.get?_insert, if_neg hp]

/-- The playing routes of another output all stay exactly when none is hidden. -/
theorem Compiled.routes_kept (h : Compiled ctx original choice catalog inputs destinations mid)
    {p : OutputId} {out : OutputAudio} (hp : p ≠ ctx.output)
    (hout : original.outputs.get? p = some out) (hon : out.enabled = true) :
    ((refresh mid).routes.values.filter fun r => r.output = p && r.enabled).Perm
        ((original.routes.values.filter fun r => r.output = p && r.enabled).map
          (canonicalRoute original)) ↔
      ∀ e ∈ original.routes.entries, e.2.output = p → e.2.enabled = true →
        original.routes.LastUnder (fun _ => routeKey ctx.digest original)
          (routeKey ctx.digest original e.2) e := by
  have hleft : ((refresh mid).routes.values.filter fun r => r.output = p && r.enabled) =
      ctx.before.routes.values.filter fun r => r.output = p && r.enabled := by
    rw [← SortedMap.values_filter, h.routes_other fun r hr => ?_, SortedMap.values_filter]
    · refine List.filter_congr fun r _ => ?_
      by_cases ho : r.output = p
      · simp [ho, routed, hout, hon]
      · simp [ho]
    · intro ho
      have hmine : r.output = p := by simpa using (Bool.and_eq_true_iff.mp hr).1
      exact hp (hmine.symm.trans ho)
  have hright : ((original.routes.values.filter fun r => r.output = p && r.enabled).map
      (canonicalRoute original)) =
      (original.routes.entries.map fun e => canonicalRoute original e.2).filter
        fun r => r.output = p && r.enabled := by
    rw [List.filter_map, SortedMap.values, List.filter_map, List.map_map]
    rfl
  rw [hleft, hright, h.before]
  let key : String → AudioRoute → String := fun _ => routeKey ctx.digest original
  let value : String → AudioRoute → AudioRoute := fun _ => canonicalRoute original
  let test : AudioRoute → Bool := fun r => r.output = p && r.enabled
  have hstays : ((original.routes.rekey key value).values.filter test).Perm
        ((original.routes.entries.map fun e => value e.1 e.2).filter test) ↔
      ∀ e ∈ original.routes.entries, test (value e.1 e.2) = true →
        original.routes.LastUnder key (key e.1 e.2) e :=
    SortedMap.perm_values_rekey_iff
  refine hstays.trans ?_
  refine forall₂_congr fun e _ => ?_
  constructor
  · intro hall ho hr
    exact hall (Bool.and_eq_true_iff.mpr ⟨decide_eq_true ho, hr⟩)
  · intro hall htest
    obtain ⟨ho, hr⟩ := Bool.and_eq_true_iff.mp htest
    exact hall (of_decide_eq_true ho) hr

/-- The routes of the output are one for each pair exactly when no two pairs share an id. -/
theorem Compiled.own_routes (h : Compiled ctx original choice catalog inputs destinations mid) :
    (((refresh mid).routes.values.filter fun r => r.output = ctx.output).map
        fun r => (r.source, r.sink)).Perm (chosenPairs catalog choice) ↔
      (chosenPairs catalog choice).Nodup ∧
        ∀ p ∈ chosenPairs catalog choice, ∀ q ∈ chosenPairs catalog choice, p ≠ q →
          fingerprint ctx.digest p.1 p.2 ≠ fingerprint ctx.digest q.1 q.2 := by
  rw [← SortedMap.values_filter, h.routes_own, ← h.made_nodes]
  refine SortedMap.perm_values_ofList_iff.trans ?_
  rw [h.made_keys, h.made_nodes]
  constructor
  · intro hnodup
    refine ⟨List.Nodup.of_map _ hnodup, fun p hp q hq hne heq => hne ?_⟩
    exact List.inj_on_of_nodup_map hnodup hp hq (routeId_inj.mpr ⟨rfl, heq⟩)
  · rintro ⟨hnodup, hapart⟩
    refine List.Nodup.map_on (fun p hp q hq heq => ?_) hnodup
    by_contra hne
    exact hapart p hp q hq hne (routeId_inj.mp heq).2

/-! ### Nodes of playing routes -/

theorem Compiled.kept_route (h : Compiled ctx original choice catalog inputs destinations mid)
    {e : String × AudioRoute} (hplays : PlaysElsewhere original ctx.output e.2)
    (hlast : original.routes.LastUnder (fun _ => routeKey ctx.digest original)
      (routeKey ctx.digest original e.2) e) :
    (refresh mid).routes.get? (routeKey ctx.digest original e.2) =
      some (canonicalRoute original e.2) := by
  have hroutes := congrArg (fun m => m.get? (routeKey ctx.digest original e.2))
    (h.routes_other (fun (r : AudioRoute) (hr : decide (r.output ≠ ctx.output) = true) =>
      of_decide_eq_true hr))
  have hbefore : ctx.before.routes.get? (routeKey ctx.digest original e.2) =
      some (canonicalRoute original e.2) := by
    rw [h.before]
    exact hlast.get?_rekey
  have htest : (routed original (canonicalRoute original e.2) &&
      decide ((canonicalRoute original e.2).output ≠ ctx.output)) = true :=
    Bool.and_eq_true_iff.mpr ⟨hplays.1, decide_eq_true hplays.2⟩
  simp only [SortedMap.get?_filter, hbefore] at hroutes
  exact Option.eq_some_of_filter_eq_some (hroutes.trans (Option.filter_some_pos htest))

theorem Compiled.source_kept (h : Compiled ctx original choice catalog inputs destinations mid)
    {r : AudioRoute} {k : String} {s : AudioSource} {d : String × AudioSource}
    (hr : (refresh mid).routes.get? k = some (canonicalRoute original r))
    (hs : original.sources.get? r.source = some s)
    (hd : original.sources.LastUnder sourceId (sourceId r.source s) d) :
    (refresh mid).sources.get? (sourceName original r.source) =
      some (enableSource (canonicalSource d.2)) := by
  have hname : sourceName original r.source = sourceId r.source s := by simp [sourceName, hs]
  have hbefore : ctx.before.sources.get? (sourceName original r.source) =
      some (canonicalSource d.2) := by
    rw [h.before, hname]
    exact hd.get?_rekey
  obtain ⟨s', hs', heq⟩ := h.sources.keeps _ _ hbefore
  rw [← heq]
  exact refresh_source hr hs'

theorem Compiled.sink_kept (h : Compiled ctx original choice catalog inputs destinations mid)
    {r : AudioRoute} {k : String} {s : AudioSink} {d : String × AudioSink}
    (hr : (refresh mid).routes.get? k = some (canonicalRoute original r))
    (hs : original.sinks.get? r.sink = some s)
    (hd : original.sinks.LastUnder sinkId (sinkId r.sink s) d) :
    (refresh mid).sinks.get? (sinkName original r.sink) =
      some (enableSink (canonicalSink d.2)) := by
  have hname : sinkName original r.sink = sinkId r.sink s := by simp [sinkName, hs]
  have hbefore : ctx.before.sinks.get? (sinkName original r.sink) =
      some (canonicalSink d.2) := by
    rw [h.before, hname]
    exact hd.get?_rekey
  obtain ⟨s', hs', heq⟩ := h.sinks.keeps _ _ hbefore
  rw [← heq]
  exact refresh_sink hr hs'

/-- The nodes of a route that stays are kept exactly when what has taken their ids plays the
same. -/
theorem Compiled.nodes_kept (h : Compiled ctx original choice catalog inputs destinations mid)
    {r : AudioRoute} {k : String} {s : AudioSource} {t : AudioSink}
    (hr : (refresh mid).routes.get? k = some (canonicalRoute original r))
    (hs : original.sources.get? r.source = some s) (ht : original.sinks.get? r.sink = some t) :
    NodesKept original (refresh mid) r ↔
      (∀ d, original.sources.LastUnder sourceId (sourceId r.source s) d →
        enableSource (canonicalSource d.2) = enableSource (canonicalSource s)) ∧
      ∀ d, original.sinks.LastUnder sinkId (sinkId r.sink t) d →
        enableSink (canonicalSink d.2) = enableSink (canonicalSink t) := by
  constructor
  · intro hkept
    constructor
    · intro d hd
      have hsource := hkept.source
      rw [h.source_kept hr hs hd, hs] at hsource
      exact Option.some.inj hsource
    · intro d hd
      have hsink := hkept.sink
      rw [h.sink_kept hr ht hd, ht] at hsink
      exact Option.some.inj hsink
  · intro hlast
    obtain ⟨d, hd⟩ : ∃ d, original.sources.LastUnder sourceId _ d :=
      SortedMap.exists_lastUnder (SortedMap.mem_entries_iff.mpr hs)
    obtain ⟨d', hd'⟩ : ∃ d', original.sinks.LastUnder sinkId _ d' :=
      SortedMap.exists_lastUnder (SortedMap.mem_entries_iff.mpr ht)
    constructor
    · rw [h.source_kept hr hs hd, hs, hlast.1 d hd]
      rfl
    · rw [h.sink_kept hr ht hd', ht, hlast.2 d' hd']
      rfl

/-! ### Every route joins nodes that are on -/

theorem Compiled.routes_join (h : Compiled ctx original choice catalog inputs destinations mid)
    (hvalid : AudioValid original) {k : String} {r : AudioRoute}
    (hr : mid.routes.get? k = some r) :
    (mid.sources.get? r.source).isSome = true ∧ (mid.sinks.get? r.sink).isSome = true := by
  rw [h.get?_routes k] at hr
  rcases Option.or_eq_some_iff.mp hr with hmade | ⟨-, hold⟩
  · have hmem := SortedMap.mem_ofList (SortedMap.mem_entries_iff.mpr hmade)
    obtain ⟨hon, -⟩ := mem_madeRoutes hmem
    obtain ⟨pair, hpair, he⟩ := List.mem_filterMap.mp hmem
    obtain ⟨-, -, -, hnodes⟩ := Pair.route_eq he
    rw [selectedPairs, if_pos hon] at hpair
    obtain ⟨hi, hd⟩ := List.mem_product.mp hpair
    obtain ⟨s, hs, hsource⟩ := h.sources.ids pair.1.2 (List.of_mem_zip hi).2
    obtain ⟨t, ht, hsink⟩ := h.sinks.ids pair.2.2 (List.of_mem_zip hd).2
    unfold Pair.nodes at hnodes
    split at hnodes
    · rename_i hknown
      obtain ⟨hki, hkd⟩ := Bool.and_eq_true_iff.mp hknown
      rw [hs, ht] at hnodes
      obtain ⟨rfl, rfl⟩ := Prod.mk.inj (Option.some.inj hnodes)
      exact ⟨hsource hon hki, hsink hon hkd⟩
    · cases hnodes
  · have hbefore := Option.eq_some_of_filter_eq_some hold
    rw [h.before] at hbefore
    obtain ⟨e, he, -, rfl⟩ := SortedMap.mem_rekey hbefore
    have hroute := hvalid.routes e he
    obtain ⟨s, hs⟩ := Option.isSome_iff_exists.mp hroute.source
    obtain ⟨t, ht⟩ := Option.isSome_iff_exists.mp hroute.sink
    obtain ⟨d, hd⟩ : ∃ d, original.sources.LastUnder sourceId _ d :=
      SortedMap.exists_lastUnder (SortedMap.mem_entries_iff.mpr hs)
    obtain ⟨d', hd'⟩ : ∃ d', original.sinks.LastUnder sinkId _ d' :=
      SortedMap.exists_lastUnder (SortedMap.mem_entries_iff.mpr ht)
    have hsource : ctx.before.sources.get? (sourceName original e.2.source) =
        some (canonicalSource d.2) := by
      rw [h.before, sourceName, hs]
      exact hd.get?_rekey
    have hsink : ctx.before.sinks.get? (sinkName original e.2.sink) = some (canonicalSink d'.2) := by
      rw [h.before, sinkName, ht]
      exact hd'.get?_rekey
    obtain ⟨s', hs', -⟩ := h.sources.keeps _ _ hsource
    obtain ⟨t', ht', -⟩ := h.sinks.keeps _ _ hsink
    exact ⟨Option.isSome_of_eq_some hs', Option.isSome_of_eq_some ht'⟩

theorem Compiled.played (h : Compiled ctx original choice catalog inputs destinations mid)
    (hvalid : AudioValid original) : ∀ r ∈ (refresh mid).routes.values,
      (∃ s, (refresh mid).sources.get? r.source = some s ∧ s.enabled = true) ∧
        ∃ s, (refresh mid).sinks.get? r.sink = some s ∧ s.enabled = true := by
  intro r hr
  obtain ⟨k, hk⟩ := SortedMap.mem_values.mp hr
  obtain ⟨hsource, hsink⟩ := h.routes_join hvalid (mem_refresh_routes.mp hk).1
  obtain ⟨s, hs⟩ := Option.isSome_iff_exists.mp hsource
  obtain ⟨t, ht⟩ := Option.isSome_iff_exists.mp hsink
  exact ⟨⟨enableSource s, refresh_source hk hs, rfl⟩, enableSink t, refresh_sink hk ht, rfl⟩

theorem Compiled.mastered (h : Compiled ctx original choice catalog inputs destinations mid)
    (hvalid : AudioValid original) : Mastered (refresh mid) :=
  refresh_mastered fun _ _ hk => (h.routes_join hvalid (mem_refresh_routes.mp hk).1).2

theorem Compiled.others_kept (h : Compiled ctx original choice catalog inputs destinations mid)
    (hvalid : AudioValid original) :
    (∀ p out, p ≠ ctx.output → original.outputs.get? p = some out → out.enabled = true →
      OutputKept original (refresh mid) p out) ↔ OthersSurvive ctx.digest original ctx.output := by
  constructor
  · intro hkept
    -- A route that plays elsewhere belongs to an output whose routes are kept.
    have hroute : ∀ e ∈ original.routes.entries, PlaysElsewhere original ctx.output e.2 →
        original.routes.LastUnder (fun _ => routeKey ctx.digest original)
          (routeKey ctx.digest original e.2) e ∧ NodesKept original (refresh mid) e.2 := by
      intro e he hplays
      obtain ⟨hr, hout⟩ := Bool.and_eq_true_iff.mp hplays.1
      obtain ⟨out, hget, hon⟩ := (Option.any_eq_true _ _).mp hout
      have hp := hkept e.2.output out hplays.2 hget hon
      exact ⟨(h.routes_kept hplays.2 hget hon).mp hp.routes e he rfl hr,
        hp.nodes e.2 (List.mem_map_of_mem he) rfl hr⟩
    constructor
    · intro e he hplays
      exact (hroute e he hplays).1
    · intro e he hplays s hs
      obtain ⟨hlast, hnodes⟩ := hroute e he hplays
      obtain ⟨t, ht⟩ := Option.isSome_iff_exists.mp (hvalid.routes e he).sink
      exact ((h.nodes_kept (h.kept_route hplays hlast) hs ht).mp hnodes).1
    · intro e he hplays t ht
      obtain ⟨hlast, hnodes⟩ := hroute e he hplays
      obtain ⟨s, hs⟩ := Option.isSome_iff_exists.mp (hvalid.routes e he).source
      exact ((h.nodes_kept (h.kept_route hplays hlast) hs ht).mp hnodes).2
  · intro hsurvive p out hp hout hon
    have hplays : ∀ r : AudioRoute, r.output = p → r.enabled = true →
        PlaysElsewhere original ctx.output r := by
      intro r ho hr
      refine ⟨by simp [routed, ho, hr, hout, hon], fun heq => hp (ho.symm.trans heq)⟩
    constructor
    · rw [h.output_kept hp]
      exact hout
    · exact (h.routes_kept hp hout hon).mpr fun e he ho hr =>
        hsurvive.routes e he (hplays e.2 ho hr)
    · intro r hr ho hron
      obtain ⟨k, hk⟩ := SortedMap.mem_values.mp hr
      have he := SortedMap.mem_entries_iff.mpr hk
      obtain ⟨s, hs⟩ := Option.isSome_iff_exists.mp (hvalid.routes _ he).source
      obtain ⟨t, ht⟩ := Option.isSome_iff_exists.mp (hvalid.routes _ he).sink
      have hp' := hplays r ho hron
      exact (h.nodes_kept (h.kept_route hp' (hsurvive.routes _ he hp')) hs ht).mpr
        ⟨hsurvive.sources _ he hp' s hs, hsurvive.sinks _ he hp' t ht⟩

end

theorem compileOutput_undisturbed_iff {digest : String → String} {floatText : ℚ → String}
    {original result : Types.Audio} {output : OutputId} {choice : OutputAudio} {normalize : Bool}
    {catalog : Json} (hvalid : Validator.audio original = [])
    (h : compileOutput digest floatText original output choice normalize catalog = .ok result) :
    Undisturbed original result output (chosenPairs catalog choice) ↔
      OthersSurvive digest original output ∧ (chosenPairs catalog choice).Nodup ∧
        ∀ p ∈ chosenPairs catalog choice, ∀ q ∈ chosenPairs catalog choice, p ≠ q →
          fingerprint digest p.1 p.2 ≠ fingerprint digest q.1 q.2 := by
  obtain ⟨same, inputs, destinations, mid, rfl, hmid⟩ := compileOutput_ok h
  constructor
  · intro hu
    exact ⟨(hmid.others_kept (audio_valid hvalid)).mp hu.others, hmid.own_routes.mp hu.own⟩
  · rintro ⟨hothers, hown⟩
    exact ⟨(hmid.others_kept (audio_valid hvalid)).mpr hothers, hmid.own_routes.mpr hown,
      hmid.played (audio_valid hvalid), hmid.mastered (audio_valid hvalid)⟩

/-- Saving a silent second output leaves the fresh document's first one alone. -/
theorem fresh_undisturbed : ∃ result,
    compileOutput id (fun _ => "") {} 2 {} false (.obj []) = .ok result ∧
      Undisturbed {} result 2 [] := by
  have hsaved : ∃ result,
      compileOutput id (fun _ => "") {} 2 {} false (.obj []) = .ok result := ⟨_, rfl⟩
  obtain ⟨result, h⟩ := hsaved
  have hnone : chosenPairs (.obj []) {} = [] := rfl
  refine ⟨result, h, hnone ▸ (compileOutput_undisturbed_iff (by decide) h).mpr
    ⟨⟨?_, ?_, ?_⟩, by simp [hnone], by simp [hnone]⟩⟩
  · intro e he _
    refine ⟨he, rfl, fun e' he' _ => ?_⟩
    rw [List.mem_singleton.mp he, List.mem_singleton.mp he']
  · intro e he _ s hs d hd
    rw [List.mem_singleton.mp he] at hs
    rw [List.mem_singleton.mp hd.1]
    cases hs
    rfl
  · intro e he _ s hs d hd
    rw [List.mem_singleton.mp he] at hs
    rw [List.mem_singleton.mp hd.1]
    cases hs
    rfl

/-- Saving the second output silences the first when a muted route hides its playing one. -/
theorem other_output_silenced : Validator.audio doubled = [] ∧ ∀ digest floatText, ∃ result,
    compileOutput digest floatText doubled 2 {} false (.obj []) = .ok result ∧
      ¬Undisturbed doubled result 2 (chosenPairs (.obj []) {}) := by
  refine ⟨by decide, fun digest floatText => ⟨_, rfl, fun hu => ?_⟩⟩
  obtain ⟨same, inputs, destinations, mid, heq, hmid⟩ := compileOutput_ok
    (show compileOutput digest floatText doubled 2 {} false (.obj []) = .ok _ from rfl)
  rw [heq] at hu
  have hothers := (hmid.others_kept (audio_valid (by decide))).mp hu.others
  have hlast := (hothers.routes ("primary", AudioRoute.new 1 "ndi" "hdmi") (by decide)
    ⟨by decide, nofun⟩).2.2 ("spare", { AudioRoute.new 1 "ndi" "hdmi" with enabled := false })
    (by decide) rfl
  exact absurd hlast (by decide)

end NdimonR.State.Audio
