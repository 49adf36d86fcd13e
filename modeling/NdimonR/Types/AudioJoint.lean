import NdimonR.Types.Valid
import Mathlib.Data.List.Nodup
import Mathlib.Data.List.Pairwise

/-! The checks of an audio graph, exactly: those of one node, route or output, and those that
join them. -/

namespace NdimonR.Types

open Text

/-! ### Nodes -/

theorem geometry_path {channels start count : Nat} {endpoint resource : String} (p q : String) :
    Validator.nodeGeometry channels start count endpoint resource p = [] ↔
      Validator.nodeGeometry channels start count endpoint resource q = [] := by
  simp only [Validator.nodeGeometry, List.append_eq_nil_iff, check_eq_nil, range_eq_nil]

/-- Where a node stands decides what its errors say, not whether there are any. -/
theorem source_path {s : AudioSource} (p q : String) :
    Validator.source s p = [] ↔ Validator.source s q = [] := by
  unfold Validator.source
  rw [List.append_eq_nil_iff, List.append_eq_nil_iff, List.append_eq_nil_iff,
    List.append_eq_nil_iff, List.append_eq_nil_iff, List.append_eq_nil_iff, geometry_path p q]
  simp only [gain_eq_nil, range_eq_nil]
  cases s.kind with
  | ndi => cases s.output <;> simp [Validator.outputId]
  | alsa => simp

theorem sink_path {s : AudioSink} (p q : String) :
    Validator.sink s p = [] ↔ Validator.sink s q = [] := by
  simp only [Validator.sink, List.append_eq_nil_iff, check_eq_nil, range_eq_nil, gain_eq_nil,
    List.flatMap_eq_nil_iff, geometry_path p q]

/-- Nodes that their own checks accept, under ids that may name them. -/
structure NodesAccepted (sources : SortedMap String AudioSource)
    (sinks : SortedMap String AudioSink) : Prop where
  sources : ∀ k s, sources.get? k = some s → identifier k = true ∧ Validator.source s "" = []
  sinks : ∀ k s, sinks.get? k = some s → identifier k = true ∧ Validator.sink s "" = []

theorem forall_entries_iff {α β : Type*} [LinearOrder α] {m : SortedMap α β} {P : α → β → Prop} :
    (∀ e ∈ m.entries, P e.1 e.2) ↔ ∀ k x, m.get? k = some x → P k x := by
  constructor
  · intro h k x hx
    exact h (k, x) (SortedMap.mem_entries_iff.mpr hx)
  · intro h e he
    exact h e.1 e.2 (SortedMap.mem_entries_iff.mp he)

theorem nodes_eq_nil {sources : SortedMap String AudioSource} {sinks : SortedMap String AudioSink}
    {path path' : String → String} {reason reason' : String} :
    ((sources.entries.flatMap fun (id, s) =>
        Validator.check (identifier id) (path id) reason ++ Validator.source s (path id)) = [] ∧
      (sinks.entries.flatMap fun (id, s) =>
        Validator.check (identifier id) (path' id) reason' ++ Validator.sink s (path' id)) = []) ↔
    NodesAccepted sources sinks := by
  simp only [List.flatMap_eq_nil_iff, List.append_eq_nil_iff, check_eq_nil]
  constructor
  · rintro ⟨hsources, hsinks⟩
    constructor
    · refine forall_entries_iff.mp fun e he => ?_
      exact ⟨(hsources e he).1, (source_path _ _).mp (hsources e he).2⟩
    · refine forall_entries_iff.mp fun e he => ?_
      exact ⟨(hsinks e he).1, (sink_path _ _).mp (hsinks e he).2⟩
  · rintro ⟨hsources, hsinks⟩
    constructor
    · intro e he
      have hnode := forall_entries_iff.mpr hsources e he
      exact ⟨hnode.1, (source_path _ _).mp hnode.2⟩
    · intro e he
      have hnode := forall_entries_iff.mpr hsinks e he
      exact ⟨hnode.1, (sink_path _ _).mp hnode.2⟩

/-! ### Outputs -/

/-- What the choices of an output are checked for, one by one. -/
structure ChoicesAccepted (engine : AudioEngine) (o : OutputAudio) : Prop where
  inputCount : o.inputs.length ≤ 32
  destinationCount : o.destinations.length ≤ 32
  inputs : ∀ i ∈ o.inputs, (i.endpoint ≠ "" ∧ chars i.endpoint ≤ 160) ∧
    (-60 ≤ i.gainDb ∧ i.gainDb ≤ 12) ∧ i.delayMs ≤ 5000
  destinations : ∀ d ∈ o.destinations, (d.endpoint ≠ "" ∧ chars d.endpoint ≤ 160) ∧
    d.delayMs ≤ 5000 ∧
    (engine = .v2 → o.enabled = true → ∀ i ∈ o.inputs, i.delayMs + d.delayMs ≤ 5000)

/-- An output that plays chooses no endpoint twice. -/
def Distinct (o : OutputAudio) : Prop :=
  o.enabled = true →
    (o.inputs.map (·.endpoint)).Nodup ∧ (o.destinations.map (·.endpoint)).Nodup

theorem inputs_eq_nil (path : Nat → String) (inputs : List AudioInput) :
    (inputs.zipIdx.flatMap fun (input, i) =>
      Validator.check (input.endpoint ≠ "" && chars input.endpoint ≤ 160) s!"{path i}.endpoint"
        "endpoint must be 1..=160 characters" ++
      Validator.gain input.gainDb s!"{path i}.gain_db" ++
      Validator.range input.delayMs 0 5000 s!"{path i}.delay_ms") = [] ↔
    ∀ i ∈ inputs, (i.endpoint ≠ "" ∧ chars i.endpoint ≤ 160) ∧
      (-60 ≤ i.gainDb ∧ i.gainDb ≤ 12) ∧ i.delayMs ≤ 5000 := by
  apply indexed_eq_nil
  intro input i
  simp [and_assoc]

theorem destinations_eq_nil (path : Nat → String) (engine : AudioEngine) (o : OutputAudio) :
    (o.destinations.zipIdx.flatMap fun (dest, i) =>
      Validator.check (dest.endpoint ≠ "" && chars dest.endpoint ≤ 160) s!"{path i}.endpoint"
        "endpoint must be 1..=160 characters" ++
      Validator.range dest.delayMs 0 5000 s!"{path i}.delay_ms" ++
      if engine = .v2 ∧ o.enabled then
        o.inputs.flatMap fun input =>
          Validator.check (input.delayMs + dest.delayMs ≤ 5000) s!"{path i}.delay_ms"
            "combined input/destination delay exceeds 5000 ms"
      else []) = [] ↔
    ∀ d ∈ o.destinations, (d.endpoint ≠ "" ∧ chars d.endpoint ≤ 160) ∧ d.delayMs ≤ 5000 ∧
      (engine = .v2 → o.enabled = true → ∀ i ∈ o.inputs, i.delayMs + d.delayMs ≤ 5000) := by
  apply indexed_eq_nil
  intro dest i
  dsimp only
  by_cases hon : engine = .v2 ∧ o.enabled = true
  · simp [hon, and_assoc]
  · have hsilent : engine = .v2 → o.enabled = true → ∀ i ∈ o.inputs,
        i.delayMs + dest.delayMs ≤ 5000 := fun he ho => absurd ⟨he, ho⟩ hon
    rw [if_neg hon]
    simp only [List.append_eq_nil_iff, check_eq_nil, range_eq_nil, Bool.and_eq_true,
      decide_eq_true_eq, and_true, iff_true_intro hsilent, Nat.zero_le, true_and]

theorem distinct_eq_nil (path : String → String) (o : OutputAudio) :
    ([("inputs", o.inputs.map (·.endpoint)),
        ("destinations", o.destinations.map (·.endpoint))].flatMap fun (kind, ids) =>
      if o.enabled then
        Validator.check (decide ids.Nodup) s!"{path kind}" "duplicate endpoint choice"
      else []) = [] ↔ Distinct o := by
  unfold Distinct
  cases o.enabled <;> simp

theorem outputAudio_eq_nil {engine : AudioEngine} {id : OutputId} {o : OutputAudio} :
    Validator.outputAudio engine id o = [] ↔
      (1 ≤ id ∧ id ≤ 8) ∧ ChoicesAccepted engine o ∧ Distinct o ∧
        NodesAccepted o.definitions.sources o.definitions.sinks := by
  have hinputs := inputs_eq_nil (fun i => s!"audio.outputs.{id}.inputs[{i}]") o.inputs
  have hdests := destinations_eq_nil (fun i => s!"audio.outputs.{id}.destinations[{i}]") engine o
  have hdistinct := distinct_eq_nil (fun kind => s!"audio.outputs.{id}.{kind}") o
  have hnodes := @nodes_eq_nil o.definitions.sources o.definitions.sinks
    (fun node => s!"audio.outputs.{id}.definitions.sources.{node}")
    (fun node => s!"audio.outputs.{id}.definitions.sinks.{node}")
    "invalid source ID" "invalid sink ID"
  unfold Validator.outputAudio
  rw [List.append_eq_nil_iff, List.append_eq_nil_iff, List.append_eq_nil_iff,
    List.append_eq_nil_iff, List.append_eq_nil_iff, List.append_eq_nil_iff,
    List.append_eq_nil_iff, Validator.outputId, range_eq_nil, check_eq_nil, check_eq_nil,
    decide_eq_true_eq, decide_eq_true_eq]
  constructor
  · rintro ⟨⟨⟨⟨⟨⟨⟨hid, hins⟩, houts⟩, hin⟩, hout⟩, hd⟩, hsources⟩, hsinks⟩
    exact ⟨hid, ⟨hins, houts, hinputs.mp hin, hdests.mp hout⟩, hdistinct.mp hd,
      hnodes.mp ⟨hsources, hsinks⟩⟩
  · rintro ⟨hid, ⟨hins, houts, hin, hout⟩, hd, hdefinitions⟩
    obtain ⟨hsources, hsinks⟩ := hnodes.mpr hdefinitions
    exact ⟨⟨⟨⟨⟨⟨⟨hid, hins⟩, houts⟩, hinputs.mpr hin⟩, hdests.mpr hout⟩, hdistinct.mpr hd⟩,
      hsources⟩, hsinks⟩

/-! ### Sinks -/

theorem sinkPairs_eq_nil {l : List (String × AudioSink)} :
    Validator.sinkPairs l = [] ↔ l.Pairwise fun a b => Writers a.2 b.2 := by
  induction l with
  | nil => exact iff_of_true rfl .nil
  | cons e rest ih =>
    obtain ⟨id, a⟩ := e
    simp only [Validator.sinkPairs, List.append_eq_nil_iff, List.flatMap_eq_nil_iff,
      check_eq_nil, ih, List.pairwise_cons]
    refine and_congr_left fun _ => forall₂_congr fun b _ => ?_
    simp only [Writers, Bool.and_eq_true, Bool.not_eq_eq_eq_not, Bool.not_true,
      Bool.and_eq_false_iff, beq_eq_false_iff_ne, Bool.or_eq_false_iff, decide_eq_false_iff_not,
      not_not]
    refine and_congr_left fun _ => ?_
    tauto

/-! ### Routes -/

section
variable {audio : Audio} {st : Validator.RouteState}

theorem routes_cons (id : String) (r : AudioRoute) (rest : List (String × AudioRoute)) :
    Validator.routes audio st ((id, r) :: rest) =
      ((Validator.route audio st id r).1 ++
          (Validator.routes audio (Validator.route audio st id r).2 rest).1,
        (Validator.routes audio (Validator.route audio st id r).2 rest).2) := rfl

theorem routes_eq_nil {l : List (String × AudioRoute)} :
    (Validator.routes audio st l).1 = [] ↔
      (∀ e ∈ l, routeErrors audio e.1 e.2 = []) ∧
        (l.filterMap fun e => activeEnds audio e.2).Nodup ∧
        ∀ key ∈ l.filterMap fun e => activeEnds audio e.2, key ∉ st.contributions := by
  induction l generalizing st with
  | nil => simp [Validator.routes]
  | cons e rest ih =>
    obtain ⟨id, r⟩ := e
    obtain ⟨herrors, hseen⟩ := route_eq audio st id r
    rw [routes_cons, List.append_eq_nil_iff, ih, herrors, hseen, List.append_eq_nil_iff,
      List.forall_mem_cons]
    cases hends : activeEnds audio r with
    | none =>
      simp only [List.filterMap_cons, hends, Option.elim_none, Option.toList_none,
        List.nil_append]
      tauto
    | some key =>
      simp only [List.filterMap_cons, hends, List.nodup_cons, forall_eq_or_imp,
        Option.elim_some, check_eq_nil, Bool.not_eq_eq_eq_not, Bool.not_true,
        List.contains_eq_mem, decide_eq_false_iff_not, Option.toList_some, List.cons_append,
        List.nil_append, List.mem_cons, not_or]
      constructor
      · rintro ⟨⟨hroute, hnew⟩, hrest, hnodup, hfresh⟩
        exact ⟨⟨hroute, hrest⟩, ⟨fun hm => (hfresh key hm).1 rfl, hnodup⟩, hnew,
          fun k hk => (hfresh k hk).2⟩
      · rintro ⟨⟨hroute, hrest⟩, ⟨hapart, hnodup⟩, hnew, hfresh⟩
        exact ⟨⟨hroute, hnew⟩, hrest, hnodup, fun k hk =>
          ⟨fun he => hapart (he ▸ hk), hfresh k hk⟩⟩

/-- The loop has recorded the source for the output. -/
def Recorded (st : Validator.RouteState) (o : OutputId) (i : String) : Prop :=
  ((st.inputs.get? o).getD .empty).contains i = true

theorem route_recorded (id : String) (r : AudioRoute) (o : OutputId) (i : String) :
    Recorded (Validator.route audio st id r).2 o i ↔
      Recorded st o i ∨ (r.output = o ∧ r.source = i ∧ (activeEnds audio r).isSome = true) := by
  unfold Validator.route activeEnds
  cases audio.sources.get? r.source with
  | none => simp
  | some source =>
    cases audio.sinks.get? r.sink with
    | none => simp
    | some sink =>
      cases audio.outputs.get? r.output with
      | none => simp
      | some output =>
        by_cases hactive : r.enabled && output.enabled && source.enabled && sink.enabled
        · simp only [hactive, if_true, Option.isSome_some, and_true]
          unfold Recorded
          simp only [SortedMap.get?_insert]
          by_cases ho : o = r.output
          · subst ho
            rw [if_pos rfl, Option.getD_some, SortedMap.contains_insert, or_comm,
              @eq_comm _ i]
            simp only [true_and]
          · simp [ho, Ne.symm ho]
        · simp [hactive]

theorem routes_recorded (l : List (String × AudioRoute)) (o : OutputId) (i : String) :
    Recorded (Validator.routes audio st l).2 o i ↔
      Recorded st o i ∨
        ∃ e ∈ l, e.2.output = o ∧ e.2.source = i ∧ (activeEnds audio e.2).isSome = true := by
  induction l generalizing st with
  | nil => simp [Validator.routes]
  | cons e rest ih =>
    obtain ⟨id, r⟩ := e
    rw [routes_cons, ih, route_recorded]
    simp only [List.exists_mem_cons_iff, or_assoc]

end

/-- A playing route of the output uses the source. -/
def Selects (a : Audio) (o : OutputId) (i : String) : Prop :=
  ∃ k r, a.routes.get? k = some r ∧ r.output = o ∧ r.source = i ∧
    (activeEnds a r).isSome = true

/-- Two sources that one output may use together. -/
def SourcesApart (s t : AudioSource) : Prop :=
  sourceIdentity s ≠ sourceIdentity t ∧
    overlap s.resource s.channelStart s.channelCount t.resource t.channelStart t.channelCount =
      false

theorem overlap_comm (a b : String) (i m j n : Nat) :
    overlap a i m b j n = overlap b j n a i m := by
  unfold overlap
  by_cases h : a = b
  · subst h
    rw [Bool.and_assoc, Bool.and_comm (decide (i < j + n)), ← Bool.and_assoc]
  · have hne : (a == b) = false := beq_eq_false_iff_ne.mpr h
    have hen : (b == a) = false := beq_eq_false_iff_ne.mpr (Ne.symm h)
    rw [hne, hen]
    simp only [Bool.and_false, Bool.false_and]

theorem SourcesApart.symm {s t : AudioSource} (h : SourcesApart s t) : SourcesApart t s :=
  ⟨h.1.symm, (overlap_comm _ _ _ _ _ _).trans h.2⟩

theorem selectedPairs_eq_nil {path : String} {l : List AudioSource} :
    Validator.selectedPairs path l = [] ↔ l.Pairwise SourcesApart := by
  induction l with
  | nil => exact iff_of_true rfl .nil
  | cons a rest ih =>
    simp only [Validator.selectedPairs, List.append_eq_nil_iff, List.flatMap_eq_nil_iff,
      check_eq_nil, ih, List.pairwise_cons, SourcesApart, Bool.and_eq_true, decide_eq_true_eq,
      Bool.not_eq_eq_eq_not, Bool.not_true]

/-- Pairwise over distinct keys is about any two of them. -/
theorem pairwise_nodes {sources : SortedMap String AudioSource} {l : List String}
    (hnodup : l.Nodup) :
    (l.filterMap sources.get?).Pairwise SourcesApart ↔
      ∀ i ∈ l, ∀ j ∈ l, i ≠ j → ∀ s t, sources.get? i = some s → sources.get? j = some t →
        SourcesApart s t := by
  rw [List.pairwise_filterMap]
  constructor
  · intro h i hi j hj hne s t hs ht
    have : Std.Symm fun i j => ∀ s, sources.get? i = some s → ∀ t,
        sources.get? j = some t → SourcesApart s t :=
      ⟨fun i j hij s hs t ht => (hij t ht s hs).symm⟩
    exact h.forall hi hj hne s hs t ht
  · intro h
    exact hnodup.pairwise_of_forall_ne fun i hi j hj hne s hs t ht => h i hi j hj hne s t hs ht

/-! ### The whole graph -/

/-- What each part of a graph is checked for by itself. -/
structure Local (a : Audio) : Prop where
  rate : a.settings.rate = 48000
  period : [128, 256, 512, 1024, 2048].contains a.settings.periodFrames = true
  budget : 1 ≤ a.settings.memoryBudgetMib ∧ a.settings.memoryBudgetMib ≤ 512
  videoDelay : a.videoDelayMs ≤ 5000
  outputCount : a.outputs.size ≤ 8
  nodes : NodesAccepted a.sources a.sinks
  routes : ∀ k r, a.routes.get? k = some r → routeErrors a k r = []
  outputs : ∀ o out, a.outputs.get? o = some out → (1 ≤ o ∧ o ≤ 8) ∧
    ChoicesAccepted a.engine out ∧ NodesAccepted out.definitions.sources out.definitions.sinks

/-- Nothing is left of the graph. -/
def Bare (a : Audio) : Prop :=
  a.sources.isEmpty = true ∧ a.sinks.isEmpty = true ∧ a.routes.isEmpty = true

/-- The master is an enabled sink; an empty graph names none. -/
def MasterSet (a : Audio) : Prop :=
  (Bare a → a.settings.master = "") ∧
    (¬ Bare a → ∃ s, a.sinks.get? a.settings.master = some s ∧ s.enabled = true)

/-- What the parts of a graph are checked for together. -/
structure Joint (a : Audio) : Prop where
  sourceCount : a.sources.size ≤ 32
  sinkCount : a.sinks.size ≤ 32
  master : MasterSet a
  writers : a.engine = .v2 → a.sinks.entries.Pairwise fun x y => Writers x.2 y.2
  contributions : (a.routes.entries.filterMap fun e => activeEnds a e.2).Nodup
  apart : ∀ o i j s t, i ≠ j → Selects a o i → Selects a o j → a.sources.get? i = some s →
    a.sources.get? j = some t → SourcesApart s t
  distinct : ∀ o out, a.outputs.get? o = some out → Distinct out

theorem master_eq_nil {a : Audio} {f r : String} :
    Validator.check (if a.sources.isEmpty && a.sinks.isEmpty && a.routes.isEmpty then
        a.settings.master == "" else (a.sinks.get? a.settings.master).any (·.enabled)) f r = [] ↔
      MasterSet a := by
  rw [check_eq_nil]
  unfold MasterSet Bare
  by_cases hbare : a.sources.isEmpty = true ∧ a.sinks.isEmpty = true ∧ a.routes.isEmpty = true
  · simp [hbare]
  · have hcond : (a.sources.isEmpty && a.sinks.isEmpty && a.routes.isEmpty) = false := by
      rw [Bool.eq_false_iff]
      intro h
      simp only [Bool.and_eq_true] at h
      exact hbare ⟨h.1.1, h.1.2, h.2⟩
    rw [hcond, if_neg Bool.false_ne_true, Option.any_eq_true]
    exact ⟨fun h => ⟨fun hb => absurd hb hbare, fun _ => h⟩, fun h => h.2 hbare⟩

theorem selected_eq_nil {a : Audio} {path : OutputId → String} :
    ((Validator.routes a {} a.routes.entries).2.inputs.entries.flatMap fun (output, selected) =>
        Validator.selectedPairs (path output) (selected.keys.filterMap a.sources.get?)) = [] ↔
      ∀ o i j s t, i ≠ j → Selects a o i → Selects a o j → a.sources.get? i = some s →
        a.sources.get? j = some t → SourcesApart s t := by
  have hselects : ∀ o i, Recorded (Validator.routes a {} a.routes.entries).2 o i ↔
      Selects a o i := by
    intro o i
    rw [routes_recorded]
    have hstart : ¬ Recorded {} o i := by simp [Recorded, SortedMap.contains]
    constructor
    · rintro (h | ⟨e, he, h⟩)
      · exact absurd h hstart
      · exact ⟨e.1, e.2, SortedMap.mem_entries_iff.mp he, h⟩
    · rintro ⟨k, r, hr, h⟩
      exact .inr ⟨(k, r), SortedMap.mem_entries_iff.mpr hr, h⟩
  rw [List.flatMap_eq_nil_iff]
  simp only [selectedPairs_eq_nil]
  refine (forall_entries_iff (P := fun _ (selected : SortedMap String Unit) =>
    (selected.keys.filterMap a.sources.get?).Pairwise SourcesApart)).trans ?_
  constructor
  · intro h o i j s t hne hi hj hs ht
    obtain hi := (hselects o i).mpr hi
    obtain hj := (hselects o j).mpr hj
    unfold Recorded at hi hj
    cases hsel : (Validator.routes a {} a.routes.entries).2.inputs.get? o with
    | none =>
      rw [hsel] at hi
      cases hi
    | some selected =>
      rw [hsel] at hi hj
      exact (pairwise_nodes selected.keys_nodup).mp (h o selected hsel) i
        (SortedMap.mem_keys_iff.mpr hi) j (SortedMap.mem_keys_iff.mpr hj) hne s t hs ht
  · intro h o selected hsel
    rw [pairwise_nodes selected.keys_nodup]
    have hused : ∀ i ∈ selected.keys, Selects a o i := by
      intro i hi
      rw [← hselects, Recorded, hsel]
      exact SortedMap.mem_keys_iff.mp hi
    intro i hi j hj hne s t hs ht
    exact h o i j s t hne (hused i hi) (hused j hj) hs ht

theorem outputs_eq_nil {a : Audio} :
    (a.outputs.entries.flatMap fun (id, output) => Validator.outputAudio a.engine id output) = [] ↔
      ∀ o out, a.outputs.get? o = some out → (1 ≤ o ∧ o ≤ 8) ∧ ChoicesAccepted a.engine out ∧
        Distinct out ∧ NodesAccepted out.definitions.sources out.definitions.sinks := by
  rw [List.flatMap_eq_nil_iff]
  simp only [outputAudio_eq_nil]
  exact forall_entries_iff (P := fun o out => (1 ≤ o ∧ o ≤ 8) ∧ ChoicesAccepted a.engine out ∧
    Distinct out ∧ NodesAccepted out.definitions.sources out.definitions.sinks)

/-- A graph has no errors when its parts have none, by themselves and together. -/
theorem audio_eq_nil {a : Audio} : Validator.audio a = [] ↔ Local a ∧ Joint a := by
  have hnodes := @nodes_eq_nil a.sources a.sinks (fun id => s!"audio.sources.{id}")
    (fun id => s!"audio.sinks.{id}") "invalid source ID" "invalid sink ID"
  have hselected := @selected_eq_nil a (fun output => s!"audio.outputs.{output}.inputs")
  have hpairs : (if a.engine = .v2 then Validator.sinkPairs a.sinks.entries else []) = [] ↔
      (a.engine = .v2 → a.sinks.entries.Pairwise fun x y => Writers x.2 y.2) := by
    rw [← sinkPairs_eq_nil]
    by_cases he : a.engine = .v2
    · rw [if_pos he]
      exact ⟨fun h _ => h, fun h => h he⟩
    · rw [if_neg he]
      exact iff_of_true rfl fun h => absurd h he
  have hroutes : (Validator.routes a {} a.routes.entries).1 = [] ↔
      (∀ k r, a.routes.get? k = some r → routeErrors a k r = []) ∧
        (a.routes.entries.filterMap fun e => activeEnds a e.2).Nodup := by
    rw [routes_eq_nil]
    refine and_congr (forall_entries_iff (P := fun k r => routeErrors a k r = [])) ?_
    exact and_iff_left fun key _ => List.not_mem_nil
  unfold Validator.audio
  rw [List.append_eq_nil_iff, List.append_eq_nil_iff, List.append_eq_nil_iff,
    List.append_eq_nil_iff, List.append_eq_nil_iff, List.append_eq_nil_iff,
    List.append_eq_nil_iff, List.append_eq_nil_iff, List.append_eq_nil_iff,
    List.append_eq_nil_iff, List.append_eq_nil_iff, List.append_eq_nil_iff,
    List.append_eq_nil_iff, master_eq_nil, hroutes, outputs_eq_nil, hpairs]
  simp only [range_eq_nil, check_eq_nil, decide_eq_true_eq]
  constructor
  · rintro ⟨⟨⟨⟨⟨⟨⟨⟨⟨⟨⟨⟨⟨hrate, hperiod⟩, hbudget⟩, hdelay⟩, hsources⟩, hsinks⟩, houts⟩, hmaster⟩,
      hsource⟩, hsink⟩, hwriters⟩, hroute, hnodup⟩, happart⟩, houtputs⟩
    constructor
    · exact ⟨by omega, hperiod, hbudget, hdelay.2, houts, hnodes.mp ⟨hsource, hsink⟩, hroute,
        fun o out ho => ⟨(houtputs o out ho).1, (houtputs o out ho).2.1, (houtputs o out ho).2.2.2⟩⟩
    · exact ⟨hsources, hsinks, hmaster, hwriters, hnodup, hselected.mp happart,
        fun o out ho => (houtputs o out ho).2.2.1⟩
  · rintro ⟨hlocal, hjoint⟩
    obtain ⟨hsource, hsink⟩ := hnodes.mpr hlocal.nodes
    have hrate := hlocal.rate
    refine ⟨⟨⟨⟨⟨⟨⟨⟨⟨⟨⟨⟨⟨by omega, hlocal.period⟩, hlocal.budget⟩, ⟨Nat.zero_le _, hlocal.videoDelay⟩⟩,
      hjoint.sourceCount⟩, hjoint.sinkCount⟩, hlocal.outputCount⟩, hjoint.master⟩,
      hsource⟩, hsink⟩, hjoint.writers⟩, hlocal.routes, hjoint.contributions⟩,
      hselected.mpr hjoint.apart⟩, ?_⟩
    intro o out ho
    obtain ⟨hid, hchoices, hdefinitions⟩ := hlocal.outputs o out ho
    exact ⟨hid, hchoices, hjoint.distinct o out ho, hdefinitions⟩

end NdimonR.Types
