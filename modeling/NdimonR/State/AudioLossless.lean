import NdimonR.State.AudioGraph
import NdimonR.Types.Valid

/-! When the canonical graph has every node and route of the original. -/

namespace NdimonR.State.Audio

open NdimonR.Types Text

/-! ### Endpoints -/

/-- What a node plays. A node of no known endpoint goes by its own id. -/
inductive Place where
  | ndi (output : OutputId)
  | hdmi (port : String)
  | tessera (direction : String) (start count : Nat)
  | own (id : String)
  deriving DecidableEq

def Place.name : Place → String
  | .ndi output => "ndi-" ++ toString output
  | .hdmi port => "hdmi-" ++ port
  | .tessera direction start count =>
    "tessera-" ++ direction ++ "-" ++ toString start ++ "-" ++ toString count
  | .own id => id

def Place.known : Place → Bool
  | .own _ => false
  | _ => true

def resourcePlace (id resource : String) (start count : Nat) : Place :=
  match stripPrefix "hdmi:" resource with
  | some port => .hdmi port
  | none =>
    match stripPrefix "tessera:main:" resource with
    | some direction => .tessera direction start count
    | none => .own id

def sourcePlace (id : String) (s : AudioSource) : Place :=
  if s.kind = .ndi then .ndi (s.output.getD 1)
  else resourcePlace id s.resource s.channelStart s.channels

def sinkPlace (id : String) (s : AudioSink) : Place :=
  resourcePlace id s.resource s.channelStart s.channels

theorem resourceId_eq (id resource : String) (start count : Nat) :
    resourceId id resource start count = (resourcePlace id resource start count).name := by
  unfold resourceId resourcePlace
  cases hhdmi : stripPrefix "hdmi:" resource with
  | some port => rfl
  | none =>
    cases htessera : stripPrefix "tessera:main:" resource with
    | none => rfl
    | some direction =>
      simp only
      split
      · rename_i hrx
        cases hrx
        rfl
      · rename_i htx
        cases htx
        rfl
      · rename_i hother
        cases hother
        rfl
      · rename_i hnone
        cases hnone

theorem sourceId_eq (id : String) (s : AudioSource) : sourceId id s = (sourcePlace id s).name := by
  unfold sourceId sourcePlace
  split
  · rfl
  · exact resourceId_eq ..

theorem sinkId_eq (id : String) (s : AudioSink) : sinkId id s = (sinkPlace id s).name :=
  resourceId_eq ..

theorem own_resourcePlace {id resource id' : String} {start count : Nat}
    (h : resourcePlace id resource start count = .own id') : id' = id := by
  unfold resourcePlace at h
  split at h
  · cases h
  · split at h
    · cases h
    · cases h
      rfl

theorem own_sourcePlace {id id' : String} {s : AudioSource} (h : sourcePlace id s = .own id') :
    id' = id := by
  unfold sourcePlace at h
  split at h
  · cases h
  · exact own_resourcePlace h

/-! ### Names of endpoints -/

theorem dash_not_mem (n : Nat) : '-' ∉ (toString n).toList := by
  intro h
  have hdigit := List.all_eq_true.mp (digits_toString n) _ h
  exact absurd hdigit (by decide)

/-- A text is cut at its first dash in one way. -/
theorem dash_inj {x y t u : List Char} (hx : '-' ∉ x) (hy : '-' ∉ y)
    (h : x ++ '-' :: t = y ++ '-' :: u) : x = y ∧ t = u := by
  induction x generalizing y with
  | nil =>
    cases y with
    | nil => simpa using h
    | cons d y =>
      have hd : '-' = d := (List.cons.inj h).1
      exact absurd (hd ▸ List.mem_cons_self) hy
  | cons c x ih =>
    cases y with
    | nil =>
      have hc : c = '-' := (List.cons.inj h).1
      exact absurd (hc ▸ List.mem_cons_self) hx
    | cons d y =>
      obtain ⟨rfl, hrest⟩ := List.cons.inj h
      obtain ⟨rfl, rfl⟩ := ih (fun hm => hx (List.mem_cons_of_mem _ hm))
        (fun hm => hy (List.mem_cons_of_mem _ hm)) hrest
      exact ⟨rfl, rfl⟩

/-- So is it at its last one. -/
theorem last_dash_inj {x y t u : List Char} (ht : '-' ∉ t) (hu : '-' ∉ u)
    (h : x ++ '-' :: t = y ++ '-' :: u) : x = y ∧ t = u := by
  have hrev := congrArg List.reverse h
  simp only [List.reverse_append, List.reverse_cons, List.append_assoc, List.singleton_append]
    at hrev
  obtain ⟨htu, hxy⟩ := dash_inj (by simpa using ht) (by simpa using hu) hrev
  exact ⟨List.reverse_injective hxy, List.reverse_injective htu⟩

theorem toString_inj {m n : Nat} (h : (toString m).toList = (toString n).toList) : m = n := by
  have hm := parseUnsigned_toString (le_max_left m n)
  rw [String.toList_inj.mp h, parseUnsigned_toString (le_max_right m n)] at hm
  exact (Option.some.inj hm).symm

/-- The names of known endpoints tell them apart. -/
theorem name_inj {p q : Place} (hp : p.known = true) (hq : q.known = true)
    (h : p.name = q.name) : p = q := by
  have hl := congrArg String.toList h
  cases p with
  | own id => cases hp
  | ndi o =>
    cases q with
    | own id => cases hq
    | ndi o' =>
      simp only [Place.name, String.toList_append, List.append_cancel_left_eq] at hl
      rw [toString_inj hl]
    | hdmi port => simp [Place.name] at hl
    | tessera d s c => simp [Place.name] at hl
  | hdmi port =>
    cases q with
    | own id => cases hq
    | ndi o => simp [Place.name] at hl
    | hdmi port' =>
      simp only [Place.name, String.toList_append, List.append_cancel_left_eq] at hl
      rw [String.toList_inj.mp hl]
    | tessera d s c => simp [Place.name] at hl
  | tessera d s c =>
    cases q with
    | own id => cases hq
    | ndi o => simp [Place.name] at hl
    | hdmi port => simp [Place.name] at hl
    | tessera d' s' c' =>
      have hl : (d.toList ++ '-' :: (toString s).toList) ++ '-' :: (toString c).toList =
          (d'.toList ++ '-' :: (toString s').toList) ++ '-' :: (toString c').toList := by
        simpa [Place.name] using hl
      obtain ⟨hfront, hcount⟩ := last_dash_inj (dash_not_mem c) (dash_not_mem c') hl
      obtain ⟨hdirection, hstart⟩ := last_dash_inj (dash_not_mem s) (dash_not_mem s') hfront
      rw [String.toList_inj.mp hdirection, toString_inj hstart, toString_inj hcount]

/-! ### Nodes and routes that stay apart -/

/-- No two nodes play one endpoint, and none goes by the name of the endpoint of another. -/
structure Apart (nodes : List (String × Place)) : Prop where
  places : (nodes.map Prod.snd).Nodup
  names : ∀ e ∈ nodes, ∀ e' ∈ nodes, e.2.known = false → e'.2.known = true → e'.2.name ≠ e.1

theorem apart_iff {nodes : List (String × Place)} (hkeys : (nodes.map Prod.fst).Nodup)
    (hown : ∀ e ∈ nodes, ∀ id, e.2 = .own id → id = e.1) :
    (nodes.map fun e => e.2.name).Nodup ↔ Apart nodes := by
  have hname : ∀ e ∈ nodes, e.2.known = false → e.2.name = e.1 := by
    intro e he hk
    cases hp : e.2 with
    | own id => exact hown e he id hp
    | ndi | hdmi | tessera => simp [hp, Place.known] at hk
  have hnodes : nodes.Nodup := List.Nodup.of_map _ hkeys
  constructor
  · intro hnodup
    constructor
    · refine List.Nodup.map_on (fun e he e' he' hplace => ?_) hnodes
      exact List.inj_on_of_nodup_map hnodup he he' (by rw [hplace])
    · intro e he e' he' hk hk' heq
      have hsame := List.inj_on_of_nodup_map hnodup he' he (heq.trans (hname e he hk).symm)
      rw [hsame, hk] at hk'
      cases hk'
  · intro h
    refine List.Nodup.map_on (fun e he e' he' heq => ?_) hnodes
    cases hk : e.2.known with
    | false =>
      cases hk' : e'.2.known with
      | false =>
        rw [hname e he hk, hname e' he' hk'] at heq
        exact List.inj_on_of_nodup_map hkeys he he' heq
      | true => exact absurd (heq.symm.trans (hname e he hk)) (h.names e he e' he' hk hk')
    | true =>
      cases hk' : e'.2.known with
      | false => exact absurd (heq.trans (hname e' he' hk')) (h.names e' he' e he hk' hk)
      | true => exact List.inj_on_of_nodup_map h.places he he' (name_inj hk hk' heq)

def sourcePlaces (audio : Types.Audio) : List (String × Place) :=
  audio.sources.entries.map fun e => (e.1, sourcePlace e.1 e.2)

def sinkPlaces (audio : Types.Audio) : List (String × Place) :=
  audio.sinks.entries.map fun e => (e.1, sinkPlace e.1 e.2)

theorem sources_apart (audio : Types.Audio) :
    (audio.sources.entries.map fun e => sourceId e.1 e.2).Nodup ↔ Apart (sourcePlaces audio) := by
  have hnames : (audio.sources.entries.map fun e => sourceId e.1 e.2) =
      (sourcePlaces audio).map fun e => e.2.name := by
    simp [sourcePlaces, sourceId_eq]
  rw [hnames, apart_iff]
  · simpa [sourcePlaces, Function.comp_def, SortedMap.keys] using audio.sources.keys_nodup
  · intro e he id hid
    obtain ⟨d, -, rfl⟩ := List.mem_map.mp he
    exact own_sourcePlace hid

theorem sinks_apart (audio : Types.Audio) :
    (audio.sinks.entries.map fun e => sinkId e.1 e.2).Nodup ↔ Apart (sinkPlaces audio) := by
  have hnames : (audio.sinks.entries.map fun e => sinkId e.1 e.2) =
      (sinkPlaces audio).map fun e => e.2.name := by
    simp [sinkPlaces, sinkId_eq]
  rw [hnames, apart_iff]
  · simpa [sinkPlaces, Function.comp_def, SortedMap.keys] using audio.sinks.keys_nodup
  · intro e he id hid
    obtain ⟨d, -, rfl⟩ := List.mem_map.mp he
    exact own_resourcePlace hid

/-- What is kept of the digest of two ids. -/
def fingerprint (digest : String → String) (source sink : String) : List Char :=
  (digest (source ++ "\x00" ++ sink)).toList.take 24

theorem toList_routeId (digest : String → String) (o : OutputId) (source sink : String) :
    (routeId digest o source sink).toList =
      'o' :: ((toString o).toList ++ '-' :: fingerprint digest source sink) := by
  change ("o" ++ toString o ++ "-" ++ String.ofList _).toList = _
  simp [fingerprint]

theorem routeId_inj {digest : String → String} {o o' : OutputId} {source source' sink sink' : String} :
    routeId digest o source sink = routeId digest o' source' sink' ↔
      o = o' ∧ fingerprint digest source sink = fingerprint digest source' sink' := by
  constructor
  · intro h
    have hl := congrArg String.toList h
    rw [toList_routeId, toList_routeId, List.cons_inj_right] at hl
    obtain ⟨ho, hf⟩ := dash_inj (dash_not_mem o) (dash_not_mem o') hl
    exact ⟨toString_inj ho, hf⟩
  · rintro ⟨rfl, hf⟩
    apply String.toList_inj.mp
    rw [toList_routeId, toList_routeId, hf]

/-- Two routes of an output never join the same two nodes, nor nodes whose ids have one
fingerprint. -/
structure RoutesApart (digest : String → String) (audio : Types.Audio) : Prop where
  pairs : ∀ e ∈ audio.routes.entries, ∀ e' ∈ audio.routes.entries, e.1 ≠ e'.1 →
    e.2.output = e'.2.output → ¬(e.2.source = e'.2.source ∧ e.2.sink = e'.2.sink)
  fingerprints : ∀ e ∈ audio.routes.entries, ∀ e' ∈ audio.routes.entries,
    e.2.output = e'.2.output → ¬(e.2.source = e'.2.source ∧ e.2.sink = e'.2.sink) →
    fingerprint digest (sourceName audio e.2.source) (sinkName audio e.2.sink) ≠
      fingerprint digest (sourceName audio e'.2.source) (sinkName audio e'.2.sink)

theorem routes_apart (digest : String → String) (audio : Types.Audio) :
    (audio.routes.entries.map fun e => routeKey digest audio e.2).Nodup ↔
      RoutesApart digest audio := by
  have hentries : audio.routes.entries.Nodup := List.Nodup.of_map _ audio.routes.keys_nodup
  constructor
  · intro hnodup
    constructor
    · intro e he e' he' hne ho ⟨hsource, hsink⟩
      have hsame := List.inj_on_of_nodup_map hnodup he he'
        (by simp only [routeKey, ho, hsource, hsink])
      exact hne (congrArg Prod.fst hsame)
    · intro e he e' he' ho hpair hf
      have hsame := List.inj_on_of_nodup_map hnodup he he' (routeId_inj.mpr ⟨ho, hf⟩)
      exact hpair (by simp [hsame])
  · intro h
    refine List.Nodup.map_on (fun e he e' he' hkey => ?_) hentries
    obtain ⟨ho, hf⟩ := routeId_inj.mp hkey
    have hpair : e.2.source = e'.2.source ∧ e.2.sink = e'.2.sink := by
      by_contra hne
      exact h.fingerprints e he e' he' ho hne hf
    have hid : e.1 = e'.1 := by
      by_contra hne
      exact h.pairs e he e' he' hne ho hpair
    exact List.inj_on_of_nodup_map audio.routes.keys_nodup he he' hid

/-! ### Nothing is lost -/

/-- A route of the result is a route of the original, between the same nodes. -/
structure Carries (audio next : Types.Audio) (r r' : AudioRoute) : Prop where
  output : r'.output = r.output
  enabled : r'.enabled = r.enabled
  gain : r'.gainDb = r.gainDb
  delay : r'.delayMs = r.delayMs
  mapping : r'.mapping = r.mapping
  source : next.sources.get? r'.source = (audio.sources.get? r.source).map canonicalSource
  sink : next.sinks.get? r'.sink = (audio.sinks.get? r.sink).map canonicalSink

/-- Distinct nodes have distinct ids, every route of the original is exactly one of the result,
the master is the same sink, and a second pass changes nothing. -/
structure Lossless (digest : String → String) (audio : Types.Audio) : Prop where
  sources : (audio.sources.entries.map fun e => sourceId e.1 e.2).Nodup
  sinks : (audio.sinks.entries.map fun e => sinkId e.1 e.2).Nodup
  routes : ∃ f : String → String,
    (∀ j ∈ audio.routes.keys, ∀ k ∈ audio.routes.keys, f j = f k → j = k) ∧
    (∀ id r, audio.routes.get? id = some r →
      ∃ r', (canonicalize digest audio).routes.get? (f id) = some r' ∧
        Carries audio (canonicalize digest audio) r r') ∧
    ∀ k ∈ (canonicalize digest audio).routes.keys, ∃ id ∈ audio.routes.keys, f id = k
  master : (canonicalize digest audio).sinks.get? (canonicalize digest audio).settings.master =
    (audio.sinks.get? audio.settings.master).map canonicalSink
  again : canonicalize digest (canonicalize digest audio) = canonicalize digest audio

section
variable {digest : String → String} {audio : Types.Audio}

theorem get?_canonical_source (h : Apart (sourcePlaces audio)) {id : String} {s : AudioSource}
    (hs : audio.sources.get? id = some s) :
    (canonicalize digest audio).sources.get? (sourceName audio id) = some (canonicalSource s) := by
  have hname : sourceName audio id = sourceId id s := by simp [sourceName, hs]
  rw [hname]
  exact SortedMap.get?_rekey ((sources_apart audio).mpr h) hs

theorem get?_canonical_sink (h : Apart (sinkPlaces audio)) {id : String} {s : AudioSink}
    (hs : audio.sinks.get? id = some s) :
    (canonicalize digest audio).sinks.get? (sinkName audio id) = some (canonicalSink s) := by
  have hname : sinkName audio id = sinkId id s := by simp [sinkName, hs]
  rw [hname]
  exact SortedMap.get?_rekey ((sinks_apart audio).mpr h) hs

theorem get?_canonical_route (h : RoutesApart digest audio) {id : String} {r : AudioRoute}
    (hr : audio.routes.get? id = some r) :
    (canonicalize digest audio).routes.get? (routeKey digest audio r) =
      some (canonicalRoute audio r) := by
  let key : String → AudioRoute → String := fun _ => routeKey digest audio
  have hnodup : (audio.routes.entries.map fun e => key e.1 e.2).Nodup :=
    (routes_apart digest audio).mpr h
  exact SortedMap.get?_rekey hnodup hr

theorem carries_canonicalRoute (hvalid : AudioValid audio) (hsources : Apart (sourcePlaces audio))
    (hsinks : Apart (sinkPlaces audio)) {id : String} {r : AudioRoute}
    (hr : audio.routes.get? id = some r) :
    Carries audio (canonicalize digest audio) r (canonicalRoute audio r) := by
  have hroute := hvalid.routes (id, r) (SortedMap.mem_entries_iff.mpr hr)
  obtain ⟨s, hs⟩ := Option.isSome_iff_exists.mp hroute.source
  obtain ⟨t, ht⟩ := Option.isSome_iff_exists.mp hroute.sink
  refine ⟨rfl, rfl, rfl, rfl, rfl, ?_, ?_⟩
  · rw [hs]
    exact get?_canonical_source hsources hs
  · rw [ht]
    exact get?_canonical_sink hsinks ht

theorem master_kept (hvalid : AudioValid audio) (hsinks : Apart (sinkPlaces audio)) :
    (canonicalize digest audio).sinks.get? (canonicalize digest audio).settings.master =
      (audio.sinks.get? audio.settings.master).map canonicalSink := by
  rcases hvalid.master with ⟨-, hempty, -, -⟩ | ⟨s, hs, -⟩
  · have hnone : audio.sinks.entries = [] := List.isEmpty_iff.mp hempty
    simp [canonicalize, SortedMap.rekey, SortedMap.get?, hnone, SortedMap.ofList,
      SortedMap.empty, SortedMap.lookup]
  · have hkept : (canonicalize digest audio).sinks.get? _ = _ := get?_canonical_sink hsinks hs
    rw [hs]
    simpa [canonicalize, canonicalMaster, sinkName, hs] using hkept

/-- As many routes as before need as many keys. -/
theorem apart_of_routes (h : ∃ f : String → String,
    (∀ j ∈ audio.routes.keys, ∀ k ∈ audio.routes.keys, f j = f k → j = k) ∧
    ∀ id ∈ audio.routes.keys, f id ∈ (canonicalize digest audio).routes.keys) :
    RoutesApart digest audio := by
  obtain ⟨f, hinj, hmem⟩ := h
  have himage : (audio.routes.keys.map f).Nodup :=
    List.Nodup.map_on hinj audio.routes.keys_nodup
  have hsub : audio.routes.keys.map f ⊆ (canonicalize digest audio).routes.keys := by
    intro k hk
    obtain ⟨id, hid, rfl⟩ := List.mem_map.mp hk
    exact hmem id hid
  have hlength : (audio.routes.entries.map fun e => routeKey digest audio e.2).length ≤
      (canonicalize digest audio).routes.keys.length := by
    have hle := (List.subperm_of_subset himage hsub).length_le
    simpa [SortedMap.keys] using hle
  have hkeys : (canonicalize digest audio).routes.keys ⊆
      audio.routes.entries.map fun e => routeKey digest audio e.2 := by
    intro k hk
    obtain ⟨e, he, rfl⟩ := SortedMap.contains_rekey.mp (SortedMap.mem_keys_iff.mp hk)
    exact List.mem_map.mpr ⟨e, he, rfl⟩
  have hperm := (List.subperm_of_subset (SortedMap.keys_nodup _) hkeys).perm_of_length_le hlength
  exact (routes_apart digest audio).mp (hperm.nodup_iff.mp (SortedMap.keys_nodup _))

theorem routes_kept (hvalid : AudioValid audio) (hsources : Apart (sourcePlaces audio))
    (hsinks : Apart (sinkPlaces audio)) (hroutes : RoutesApart digest audio) :
    ∃ f : String → String,
      (∀ j ∈ audio.routes.keys, ∀ k ∈ audio.routes.keys, f j = f k → j = k) ∧
      (∀ id r, audio.routes.get? id = some r →
        ∃ r', (canonicalize digest audio).routes.get? (f id) = some r' ∧
          Carries audio (canonicalize digest audio) r r') ∧
      ∀ k ∈ (canonicalize digest audio).routes.keys, ∃ id ∈ audio.routes.keys, f id = k := by
  refine ⟨fun id => ((audio.routes.get? id).map (routeKey digest audio)).getD id, ?_, ?_, ?_⟩
  · intro j hj k hk heq
    obtain ⟨r, hr⟩ := Option.isSome_iff_exists.mp (SortedMap.mem_keys_iff.mp hj)
    obtain ⟨r', hr'⟩ := Option.isSome_iff_exists.mp (SortedMap.mem_keys_iff.mp hk)
    simp only [hr, hr', Option.map_some, Option.getD_some] at heq
    have hsame := List.inj_on_of_nodup_map ((routes_apart digest audio).mpr hroutes)
      (SortedMap.mem_entries_iff.mpr hr) (SortedMap.mem_entries_iff.mpr hr') heq
    exact congrArg Prod.fst hsame
  · intro id r hr
    refine ⟨canonicalRoute audio r, ?_, carries_canonicalRoute hvalid hsources hsinks hr⟩
    simpa [hr] using get?_canonical_route hroutes hr
  · intro k hk
    obtain ⟨e, he, rfl⟩ := SortedMap.contains_rekey.mp (SortedMap.mem_keys_iff.mp hk)
    refine ⟨e.1, List.mem_map_of_mem he, ?_⟩
    have hr : audio.routes.get? e.1 = some e.2 := SortedMap.mem_entries_iff.mp he
    simp [hr]

end

theorem Lossless.routes_apart {digest : String → String} {audio : Types.Audio}
    (h : Lossless digest audio) : RoutesApart digest audio := by
  obtain ⟨f, hinj, hkept, -⟩ := h.routes
  refine apart_of_routes ⟨f, hinj, fun id hid => ?_⟩
  obtain ⟨r, hr⟩ := Option.isSome_iff_exists.mp (SortedMap.mem_keys_iff.mp hid)
  obtain ⟨r', hr', -⟩ := hkept id r hr
  exact SortedMap.mem_keys_iff.mpr (Option.isSome_iff_exists.mpr ⟨r', hr'⟩)

theorem canonicalize_lossless_iff (digest : String → String) (audio : Types.Audio)
    (h : Validator.audio audio = []) :
    Lossless digest audio ↔
      Apart (sourcePlaces audio) ∧ Apart (sinkPlaces audio) ∧ RoutesApart digest audio := by
  have hvalid := audio_valid h
  constructor
  · intro hl
    exact ⟨(sources_apart audio).mp hl.sources, (sinks_apart audio).mp hl.sinks, hl.routes_apart⟩
  · rintro ⟨hsources, hsinks, hroutes⟩
    exact ⟨(sources_apart audio).mpr hsources, (sinks_apart audio).mpr hsinks,
      routes_kept hvalid hsources hsinks hroutes, master_kept hvalid hsinks,
      canonicalize_canonicalize digest audio⟩

/-- One playing route has nothing to collide with. -/
theorem fresh_lossless : Lossless id {} := by
  refine (canonicalize_lossless_iff id {} (by decide)).mpr ⟨?_, ?_, ?_⟩
  · exact ⟨by decide, by decide⟩
  · exact ⟨by decide, by decide⟩
  · exact ⟨by decide, by decide⟩

/-- A playing route and a muted one between the same nodes. -/
def doubled : Types.Audio where
  routes := SortedMap.ofList [("primary", AudioRoute.new 1 "ndi" "hdmi"),
    ("spare", { AudioRoute.new 1 "ndi" "hdmi" with enabled := false })]

theorem playing_route_is_lost : Validator.audio doubled = [] ∧
    ∀ digest, ¬Lossless digest doubled ∧
      (canonicalize digest doubled).routes.values.map (·.enabled) = [false] := by
  refine ⟨by decide, fun digest => ⟨fun h => ?_, ?_⟩⟩
  · exact absurd ⟨rfl, rfl⟩ (h.routes_apart.pairs ("primary", AudioRoute.new 1 "ndi" "hdmi")
      (by decide) ("spare", { AudioRoute.new 1 "ndi" "hdmi" with enabled := false })
      (by decide) (by decide) rfl)
  · have hentries : doubled.routes.entries = [("primary", AudioRoute.new 1 "ndi" "hdmi"),
        ("spare", { AudioRoute.new 1 "ndi" "hdmi" with enabled := false })] := by decide
    simp [canonicalize, SortedMap.rekey, hentries, SortedMap.values, SortedMap.ofList,
      SortedMap.insert, SortedMap.insertEntry, SortedMap.empty, routeKey, canonicalRoute,
      AudioRoute.new]

end NdimonR.State.Audio
