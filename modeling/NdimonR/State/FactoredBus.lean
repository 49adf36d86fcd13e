import NdimonR.Library.JsonSize
import NdimonR.Render.AudioImport
import NdimonR.State.AudioLossless
import NdimonR.State.CrossDomain

/-! The primary output and its routes as the first engine rebuilds them from its factors. -/

namespace NdimonR.State.Audio

open NdimonR.Types Text Render.Audio

/-- A digest is written in lower-case hexadecimal digits. -/
def Hexadecimal (digest : String → String) : Prop :=
  ∀ t, ∀ c ∈ (digest t).toList, isAsciiDigit c = true ∨ ('a' ≤ c ∧ c ≤ 'f')

/-- The first engine plays the graph through the matrix of its legacy source. -/
def Factored (audio : Types.Audio) : Prop :=
  audio.engine = .v1 ∧ audio.sources.contains "ndi" = true

instance (audio : Types.Audio) : Decidable (Factored audio) :=
  inferInstanceAs (Decidable (_ ∧ _))

section
variable (digest : String → String) (mid : Types.Audio)

def viewedSources : SortedMap String AudioSource :=
  mid.sources.rekey (fun id _ => id) (viewedSource (primary mid))

def viewedSinks : SortedMap String AudioSink :=
  mid.sinks.rekey (fun id _ => id) (viewedSink (primary mid))

/-- The primary output and its routes as the factors have them. -/
def factoredBus : OutputAudio × SortedMap String AudioRoute :=
  importOutput digest (primary mid) mid.settings.enabled (viewedSources mid) (viewedSinks mid)

def rebuilt : Types.Audio :=
  { mid with
    outputs := mid.outputs.insert (primary mid) (factoredBus digest mid).1
    routes := (factoredBus digest mid).2.entries.foldl (fun m e => m.insert e.1 e.2)
      (mid.routes.filter fun _ r => r.output != primary mid) }

end

/-- The projections as the code has them, but for the compiler of outputs. -/
def projections (digest : String → String)
    (compileOutput : DesiredState → OutputId → OutputAudio → Bool → Except ApiError Types.Audio) :
    Projections where
  primary := primary
  derive := derive digest
  compileOutput := compileOutput

/-! ### Viewed nodes -/

theorem identifier_chars {id : String} (h : identifier id = true) : id ≠ "" ∧ chars id ≤ 160 := by
  simp only [identifier, Bool.and_eq_true, decide_eq_true_eq] at h
  obtain ⟨⟨⟨hone, hlen⟩, -⟩, -⟩ := h
  constructor
  · rintro rfl
    exact absurd hone (by decide)
  · have hchars := chars_le_len id
    omega

/-- The names of Tessera ranges and of the ports of outputs are short. -/
theorem short_names : ∀ n ≤ 16, ∀ pre ∈ ["tessera-rx-1-", "tessera-tx-1-", "ndi-", "hdmi-", "hdmi:"],
    (pre ++ toString n ≠ "" ∧ chars (pre ++ toString n) ≤ 160) := by
  decide +kernel

section
variable {p : OutputId} {id : String}

/-- A node moved to the start of another resource, under a name of its own. -/
theorem moved_geometry {channels start count : Nat} {endpoint endpoint' resource resource' : String}
    (h : Validator.nodeGeometry channels start count endpoint resource "" = [])
    (he : chars endpoint' ≤ 160) (hr : chars resource' ≤ 160) :
    Validator.nodeGeometry channels 1 channels endpoint' resource' "" = [] := by
  simp only [Validator.nodeGeometry, List.append_eq_nil_iff, check_eq_nil, range_eq_nil,
    beq_iff_eq, decide_eq_true_eq] at h ⊢
  obtain ⟨⟨⟨⟨⟨hchannels, -⟩, -⟩, -⟩, -⟩, -⟩ := h
  exact ⟨⟨⟨⟨⟨hchannels, by omega⟩, trivial⟩, by omega⟩, he⟩, hr⟩

theorem viewedSource_accepted {s : AudioSource} (h : Validator.source s "" = [])
    (hid : identifier id = true) (hp : 1 ≤ p ∧ p ≤ 8) :
    ((viewedSource p id s).endpoint ≠ "" ∧ chars (viewedSource p id s).endpoint ≤ 160) ∧
      Validator.source (viewedSource p id s) "" = [] := by
  have hchannels : s.channels ≤ 16 := (source_valid h).geometry.bounded.2
  have hplace : (viewedSource p id s).endpoint ≠ "" ∧
      chars (viewedSource p id s).endpoint ≤ 160 := by
    dsimp only [viewedSource]
    split
    · exact short_names s.channels hchannels "tessera-rx-1-" (by simp)
    · split
      · exact short_names p (hp.2.trans (by decide)) "ndi-" (by simp)
      · exact identifier_chars hid
  have hresource : chars (viewedSource p id s).resource ≤ 160 := by
    dsimp only [viewedSource]
    split <;> decide
  refine ⟨hplace, ?_⟩
  unfold Validator.source at h ⊢
  rw [List.append_eq_nil_iff, List.append_eq_nil_iff, List.append_eq_nil_iff] at h ⊢
  obtain ⟨⟨⟨hgeometry, hkind⟩, hgain⟩, hdelay⟩ := h
  refine ⟨⟨⟨moved_geometry hgeometry hplace.2 hresource, ?_⟩, hgain⟩, hdelay⟩
  cases hk : s.kind with
  | ndi =>
    rw [hk] at hkind
    obtain ⟨hnone, -⟩ := List.append_eq_nil_iff.mp hkind
    simp only [viewedSource, hk, if_true, List.append_eq_nil_iff]
    exact ⟨hnone, range_eq_nil.mpr hp⟩
  | alsa =>
    rw [hk] at hkind
    obtain ⟨-, hsome⟩ := List.append_eq_nil_iff.mp hkind
    simp only [viewedSource, hk, reduceCtorEq, if_false, List.append_eq_nil_iff]
    exact ⟨rfl, hsome⟩

theorem viewedSink_accepted {s : AudioSink} (h : Validator.sink s "" = [])
    (hid : identifier id = true) (hp : 1 ≤ p ∧ p ≤ 8) :
    ((viewedSink p id s).endpoint ≠ "" ∧ chars (viewedSink p id s).endpoint ≤ 160) ∧
      Validator.sink (viewedSink p id s) "" = [] := by
  have hchannels : s.channels ≤ 16 := (sink_valid h).geometry.bounded.2
  have hplace : (viewedSink p id s).endpoint ≠ "" ∧ chars (viewedSink p id s).endpoint ≤ 160 := by
    dsimp only [viewedSink]
    split
    · exact short_names p (hp.2.trans (by decide)) "hdmi-" (by simp)
    · split
      · exact short_names s.channels hchannels "tessera-tx-1-" (by simp)
      · exact identifier_chars hid
  have hresource : chars (viewedSink p id s).resource ≤ 160 := by
    dsimp only [viewedSink]
    split
    · exact (short_names p (hp.2.trans (by decide)) "hdmi:" (by simp)).2
    · split <;> decide
  refine ⟨hplace, ?_⟩
  unfold Validator.sink at h ⊢
  rw [List.append_eq_nil_iff, List.append_eq_nil_iff, List.append_eq_nil_iff] at h ⊢
  obtain ⟨⟨⟨hgeometry, hpcm⟩, hdelay⟩, hmix⟩ := h
  exact ⟨⟨⟨moved_geometry hgeometry hplace.2 hresource, hpcm⟩, hdelay⟩, hmix⟩

end

theorem char_le_iff (a b : Char) : a ≤ b ↔ a.toNat ≤ b.toNat := Iff.rfl

theorem identifier_routeId {digest : String → String} (h : Hexadecimal digest) {p : OutputId}
    (hp : p ≤ 8) (source sink : String) : identifier (routeId digest p source sink) = true := by
  have hone : ∀ p ≤ 8, (toString p).toList.length = 1 := by decide +kernel
  have hletters : ∀ c ∈ (routeId digest p source sink).toList,
      (isAsciiLowercase c || isAsciiDigit c || c == '-') = true := by
    intro c hc
    rw [toList_routeId] at hc
    rcases List.mem_cons.mp hc with rfl | hc
    · decide
    · rcases List.mem_append.mp hc with hc | hc
      · simp [List.all_eq_true.mp (digits_toString p) c hc]
      · rcases List.mem_cons.mp hc with rfl | hc
        · decide
        · rcases h _ c (List.mem_of_mem_take hc) with hd | ⟨ha, hf⟩
          · simp [hd]
          · have hlow : isAsciiLowercase c = true := by
              simp only [isAsciiLowercase, Bool.and_eq_true, decide_eq_true_eq]
              exact ⟨ha, le_trans hf (by decide)⟩
            simp [hlow]
  have hascii : ∀ c ∈ (routeId digest p source sink).toList, c.toNat < 128 := by
    intro c hc
    have hletter := hletters c hc
    simp only [isAsciiLowercase, isAsciiDigit, Bool.or_eq_true, Bool.and_eq_true,
      decide_eq_true_eq, beq_iff_eq, char_le_iff] at hletter
    rcases hletter with (⟨-, hz⟩ | ⟨-, hn⟩) | rfl
    · exact Nat.lt_of_le_of_lt hz (by decide)
    · exact Nat.lt_of_le_of_lt hn (by decide)
    · decide
  have hlength : 1 ≤ chars (routeId digest p source sink) ∧
      chars (routeId digest p source sink) ≤ 27 := by
    have htake : (fingerprint digest source sink).length ≤ 24 := List.length_take_le _ _
    rw [chars, toList_routeId]
    simp only [List.length_cons, List.length_append, hone p hp]
    omega
  have hstart : startsWith isAsciiLowercase (routeId digest p source sink) = true := by
    rw [startsWith, toList_routeId]
    rfl
  unfold identifier
  rw [len_ascii hascii, hstart]
  simp only [Bool.and_eq_true, decide_eq_true_eq]
  exact ⟨⟨⟨hlength.1, by omega⟩, trivial⟩, List.all_eq_true.mpr hletters⟩

/-! ### The rebuilt graph -/

section
variable {digest : String → String} {mid : Types.Audio}

theorem get?_viewed {Node : Type} (nodes : SortedMap String Node) (f : String → Node → Node)
    (k : String) : (nodes.rekey (fun id _ => id) f).get? k = (nodes.get? k).map (f k) := by
  have hmap : nodes.rekey (fun id _ => id) f = nodes.mapValues f :=
    SortedMap.eq_of_entries (entries_rekey nodes f)
  rw [hmap, SortedMap.get?_mapValues]

theorem primary_valid (h : ∀ o out, mid.outputs.get? o = some out → 1 ≤ o ∧ o ≤ 8) :
    1 ≤ primary mid ∧ primary mid ≤ 8 := by
  unfold primary
  cases hfind : mid.outputs.entries.find? fun e => e.2.primary with
  | none => exact ⟨le_rfl, by decide⟩
  | some e =>
    have hmem := SortedMap.mem_entries_iff.mp (List.mem_of_find?_eq_some hfind)
    exact h e.1 e.2 hmem

/-- The route that the factor of a source and a sink amounts to. -/
def FactorRoute (digest : String → String) (g : Types.Audio) (p : OutputId) (k : String)
    (r : AudioRoute) : Prop :=
  ∃ id s sid t mix, g.sources.get? id = some s ∧ g.sinks.get? sid = some t ∧
    t.mix.get? id = some mix ∧ k = routeId digest p id sid ∧
    r = { AudioRoute.new p id sid with
      enabled := s.enabled && t.enabled
      gainDb := factoredGain s.gainDb mix
      delayMs := s.delayMs + t.delayMs }

/-- Every rebuilt route is the factor of a source and a sink of the graph. -/
theorem factoredBus_route {k : String} {r : AudioRoute}
    (h : (factoredBus digest mid).2.get? k = some r) :
    FactorRoute digest mid (primary mid) k r := by
  have hmem := SortedMap.mem_ofList (SortedMap.mem_entries_iff.mpr h)
  obtain ⟨routes, hroutes, hmem⟩ := List.mem_flatten.mp hmem
  obtain ⟨⟨id, s'⟩, hs, rfl⟩ := List.mem_map.mp hroutes
  obtain ⟨⟨sid, t'⟩, ht, hfactor⟩ := List.mem_filterMap.mp hmem
  have hs := SortedMap.mem_entries_iff.mp hs
  have ht := SortedMap.mem_entries_iff.mp ht
  rw [viewedSources, get?_viewed] at hs
  rw [viewedSinks, get?_viewed] at ht
  obtain ⟨s, hsource, rfl⟩ := Option.map_eq_some_iff.mp hs
  obtain ⟨t, hsink, rfl⟩ := Option.map_eq_some_iff.mp ht
  obtain ⟨mix, hmix, he⟩ := Option.map_eq_some_iff.mp hfactor
  obtain ⟨rfl, rfl⟩ := Prod.mk.inj he
  exact ⟨id, s, sid, t, mix, hsource, hsink, hmix, rfl, rfl⟩

/-- The edit of a factored graph is completed by the rebuilt bus. -/
theorem syncV1_factored {compileOutput} (hf : Factored mid)
    (hnodes : NodesAccepted mid.sources mid.sinks) (hp : primary mid ≤ 8) :
    syncV1 (projections digest compileOutput) mid = .ok (rebuilt digest mid) := by
  obtain ⟨hengine, hndi⟩ := hf
  have hderive : derive digest mid = .ok (factoredBus digest mid) :=
    derive_eq hnodes (Nat.lt_of_le_of_lt hp (by decide))
  unfold syncV1
  rw [if_neg (by simp [hengine, hndi])]
  change derive digest mid >>= _ = _
  rw [hderive]
  rfl

theorem syncV1_plain {env : Projections} (hf : ¬ Factored mid) : syncV1 env mid = .ok mid := by
  unfold syncV1
  rw [if_pos]
  by_cases hengine : mid.engine = .v1
  · refine .inr ?_
    rw [← Bool.not_eq_true]
    exact fun hndi => hf ⟨hengine, hndi⟩
  · exact .inl hengine

theorem get?_rebuilt_routes (k : String) : (rebuilt digest mid).routes.get? k =
    ((factoredBus digest mid).2.get? k).or
      ((mid.routes.get? k).filter fun r => r.output != primary mid) := by
  change (List.foldl _ _ _ : SortedMap String AudioRoute).get? k = _
  rw [SortedMap.get?_foldl, SortedMap.ofList_entries, SortedMap.get?_filter]

theorem viewed_nodes (hnodes : NodesAccepted mid.sources mid.sinks)
    (hp : 1 ≤ primary mid ∧ primary mid ≤ 8) :
    NodesAccepted (viewedSources mid) (viewedSinks mid) := by
  constructor
  · intro k s hs
    rw [viewedSources, get?_viewed] at hs
    obtain ⟨s, hsource, rfl⟩ := Option.map_eq_some_iff.mp hs
    obtain ⟨hid, haccepted⟩ := hnodes.sources k s hsource
    exact ⟨hid, (viewedSource_accepted haccepted hid hp).2⟩
  · intro k t ht
    rw [viewedSinks, get?_viewed] at ht
    obtain ⟨t, hsink, rfl⟩ := Option.map_eq_some_iff.mp ht
    obtain ⟨hid, haccepted⟩ := hnodes.sinks k t hsink
    exact ⟨hid, (viewedSink_accepted haccepted hid hp).2⟩

theorem size_viewed {Node : Type} (nodes : SortedMap String Node) (f : String → Node → Node) :
    (nodes.rekey (fun id _ => id) f).values.length = nodes.size := by
  rw [SortedMap.values, entries_rekey, List.length_map, List.length_map]
  rfl

theorem factoredBus_choices (hnodes : NodesAccepted mid.sources mid.sinks)
    (hp : 1 ≤ primary mid ∧ primary mid ≤ 8) (hengine : mid.engine = .v1)
    (hsources : mid.sources.size ≤ 32) (hsinks : mid.sinks.size ≤ 32) :
    ChoicesAccepted mid.engine (factoredBus digest mid).1 := by
  constructor
  · change ((List.filter _ _).map _).length ≤ 32
    rw [List.length_map]
    exact (List.length_filter_le _ _).trans ((size_viewed _ _).trans_le hsources)
  · change ((List.filter _ _).map _).length ≤ 32
    rw [List.length_map]
    exact (List.length_filter_le _ _).trans ((size_viewed _ _).trans_le hsinks)
  · intro i hi
    obtain ⟨s', hs', rfl⟩ := List.mem_map.mp hi
    obtain ⟨k, hk⟩ := SortedMap.mem_values.mp (List.mem_of_mem_filter hs')
    rw [viewedSources, get?_viewed] at hk
    obtain ⟨s, hsource, rfl⟩ := Option.map_eq_some_iff.mp hk
    obtain ⟨hid, haccepted⟩ := hnodes.sources k s hsource
    obtain ⟨hplace, hvalid⟩ := viewedSource_accepted haccepted hid hp
    exact ⟨hplace, (source_valid hvalid).gain, (source_valid hvalid).delay⟩
  · intro d hd
    obtain ⟨t', ht', rfl⟩ := List.mem_map.mp hd
    obtain ⟨k, hk⟩ := SortedMap.mem_values.mp (List.mem_of_mem_filter ht')
    rw [viewedSinks, get?_viewed] at hk
    obtain ⟨t, hsink, rfl⟩ := Option.map_eq_some_iff.mp hk
    obtain ⟨hid, haccepted⟩ := hnodes.sinks k t hsink
    obtain ⟨hplace, hvalid⟩ := viewedSink_accepted haccepted hid hp
    refine ⟨hplace, (sink_valid hvalid).delay, ?_⟩
    rw [hengine]
    nofun

theorem factoredGain_bounds {gain mix : ℚ} (hgain : -60 ≤ gain ∧ gain ≤ 12)
    (hmix : -60 ≤ mix ∧ mix ≤ 12) :
    -120 ≤ factoredGain gain mix ∧ factoredGain gain mix ≤ 24 := by
  unfold factoredGain
  split
  · norm_num
  · constructor <;> linarith

/-- A route is checked for the nodes it joins being there, not for what they are. -/
theorem routeErrors_congr {a b : Types.Audio} {k : String} {r : AudioRoute}
    (h : routeErrors a k r = []) (hengine : b.engine = a.engine)
    (houtput : b.outputs.contains r.output = true) (hsource : b.sources.contains r.source = true)
    (hsink : b.sinks.contains r.sink = true) : routeErrors b k r = [] := by
  simp only [routeErrors, List.append_eq_nil_iff, check_eq_nil] at h ⊢
  rw [hengine]
  obtain ⟨⟨⟨⟨⟨⟨hid, hbounds⟩, -⟩, -⟩, -⟩, hgain⟩, hdelay⟩ := h
  exact ⟨⟨⟨⟨⟨⟨hid, hbounds⟩, houtput⟩, hsource⟩, hsink⟩, hgain⟩, hdelay⟩

theorem size_outputs {outputs : SortedMap OutputId OutputAudio}
    (h : ∀ o out, outputs.get? o = some out → 1 ≤ o ∧ o ≤ 8) : outputs.size ≤ 8 := by
  have hsub : outputs.keys ⊆ [1, 2, 3, 4, 5, 6, 7, 8] := by
    intro o ho
    obtain ⟨out, hout⟩ := Option.isSome_iff_exists.mp (SortedMap.mem_keys_iff.mp ho)
    obtain ⟨hlow, hhigh⟩ := h o out hout
    interval_cases o <;> simp
  have hlength := (List.subperm_of_subset outputs.keys_nodup hsub).length_le
  rw [SortedMap.keys, List.length_map] at hlength
  exact hlength

/-- Parts that pass their own checks still do once the bus is rebuilt. -/
theorem rebuilt_local (hdigest : Hexadecimal digest) (h : Local mid) (hf : Factored mid)
    (hsources : mid.sources.size ≤ 32) (hsinks : mid.sinks.size ≤ 32) :
    Local (rebuilt digest mid) := by
  have hp := primary_valid fun o out ho => (h.outputs o out ho).1
  have houtputs : ∀ o out, (rebuilt digest mid).outputs.get? o = some out → (1 ≤ o ∧ o ≤ 8) ∧
      ChoicesAccepted mid.engine out ∧
        NodesAccepted out.definitions.sources out.definitions.sinks := by
    intro o out ho
    change (mid.outputs.insert _ _).get? o = some out at ho
    rw [SortedMap.get?_insert] at ho
    split at ho
    · rename_i he
      subst he
      cases ho
      exact ⟨hp, factoredBus_choices h.nodes hp hf.1 hsources hsinks, viewed_nodes h.nodes hp⟩
    · exact h.outputs o out ho
  refine ⟨h.rate, h.period, h.budget, h.videoDelay,
    size_outputs fun o out ho => (houtputs o out ho).1, h.nodes, ?_, houtputs⟩
  intro k r hr
  rw [get?_rebuilt_routes] at hr
  rcases Option.or_eq_some_iff.mp hr with hnew | ⟨-, hold⟩
  · obtain ⟨id, s, sid, t, mix, hs, ht, hmix, rfl, rfl⟩ := factoredBus_route hnew
    have hsource := source_valid (h.nodes.sources id s hs).2
    have hsink := sink_valid (h.nodes.sinks sid t ht).2
    have hgain := factoredGain_bounds hsource.gain
      (hsink.mix (id, mix) (SortedMap.mem_entries_iff.mpr hmix)).2
    have hdelay : s.delayMs + t.delayMs ≤ 10000 := by
      have hs := hsource.delay
      have ht := hsink.delay
      omega
    have hthere : (rebuilt digest mid).outputs.contains (primary mid) = true :=
      (SortedMap.contains_insert _ _ _ _).mpr (.inl rfl)
    have hid : mid.sources.contains id = true := Option.isSome_iff_exists.mpr ⟨s, hs⟩
    have hsid : mid.sinks.contains sid = true := Option.isSome_iff_exists.mpr ⟨t, ht⟩
    have hengine : (rebuilt digest mid).engine = .v1 := hf.1
    simp only [routeErrors, List.append_eq_nil_iff, check_eq_nil, Validator.outputId,
      range_eq_nil, hengine, reduceCtorEq, if_false, if_true, Bool.and_eq_true, decide_eq_true_eq]
    exact ⟨⟨⟨⟨⟨⟨identifier_routeId hdigest hp.2 id sid, hp⟩, hthere⟩, hid⟩, hsid⟩, hgain⟩,
      Nat.zero_le _, hdelay⟩
  · obtain ⟨hold, -⟩ := Option.filter_eq_some_iff.mp hold
    have herrors := h.routes k r hold
    have hvalid := routeErrors_valid herrors
    exact routeErrors_congr herrors rfl
      ((SortedMap.contains_insert _ _ _ _).mpr (.inr hvalid.outputs)) hvalid.source hvalid.sink

end

end NdimonR.State.Audio
