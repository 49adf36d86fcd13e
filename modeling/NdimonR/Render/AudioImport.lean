import NdimonR.State.AudioCompile
import NdimonR.Types.AudioJoint

/-! The first engine's view of the audio graph: nodes without their places, and the primary output
and the routes that its factors amount to when it is imported. -/

namespace NdimonR.Render.Audio

open NdimonR.Types Json State.Audio

/-! ### The view -/

def primary (audio : Types.Audio) : OutputId :=
  ((audio.outputs.entries.find? fun e => e.2.primary).map (·.1)).getD 1

def kindName : EndpointType → String
  | .ndi => "ndi"
  | .alsa => "alsa"

def metadata (endpoint resource : String) (start count : Nat) : List (String × Json) :=
  (if endpoint = "" then [] else [("endpoint", .str endpoint)]) ++
  if resource = "" then []
  else [("resource", .str resource), ("channel_start", .int start), ("channel_count", .int count)]

def sourceJson (s : AudioSource) (v1 : Bool) : Json :=
  ofMembers ([("type", .str (kindName s.kind)), ("enabled", .bool s.enabled),
      ("channels", .int s.channels)] ++
    (if v1 then [("delay_ms", .int s.delayMs), ("gain_db", .float s.gainDb)] else []) ++
    (s.alsaPcm.elim [] fun pcm => [("alsa_pcm", .str pcm)]) ++
    if v1 then []
    else (s.output.elim [] fun output => [("output", .int output)]) ++
      metadata s.endpoint s.resource s.channelStart s.channelCount)

def mixJson (mix : SortedMap String ℚ) : Json :=
  ofMembers (mix.entries.map fun e => (e.1, .float e.2))

def sinkJson (s : AudioSink) (v1 : Bool) : Json :=
  ofMembers ([("type", .str "alsa"), ("enabled", .bool s.enabled), ("channels", .int s.channels),
      ("alsa_pcm", .str s.alsaPcm)] ++
    if v1 then [("delay_ms", .int s.delayMs), ("mix", mixJson s.mix)]
    else metadata s.endpoint s.resource s.channelStart s.channelCount)

/-! ### The import -/

section
variable (digest : String → String) (p : OutputId)

def importNodes {Node : Type} (read : Json → String → OutputId → Except String Node)
    (docs : SortedMap String Json) : Except String (SortedMap String Node) := do
  let nodes ← docs.entries.mapM fun e => (read e.2 e.1 p).map fun node => (e.1, node)
  .ok (.ofList nodes)

/-- The route of a factor. -/
def factor (id : String) (s : AudioSource) (sid : String) (t : AudioSink) :
    Option (String × AudioRoute) :=
  (t.mix.get? id).map fun mix =>
    (routeId digest p id sid,
      { AudioRoute.new p id sid with
        enabled := s.enabled && t.enabled
        gainDb := factoredGain s.gainDb mix
        delayMs := s.delayMs + t.delayMs })

def factors (sinks : SortedMap String AudioSink) (id : String) (s : AudioSource) :
    List (String × AudioRoute) :=
  sinks.entries.filterMap fun e => factor digest p id s e.1 e.2

/-- The gains of one source differ. -/
def uneven (routes : List (String × AudioRoute)) : Bool :=
  let gains := (routes.filter (·.2.enabled)).map (·.2.gainDb)
  gains.head?.any fun first => gains.any fun g => g ≠ first

def inputs (sources : SortedMap String AudioSource) : List AudioInput :=
  (sources.values.filter (·.enabled)).map fun s => ⟨s.endpoint, s.gainDb, s.delayMs⟩

def destinations (sinks : SortedMap String AudioSink) : List AudioDestination :=
  (sinks.values.filter (·.enabled)).map fun s => ⟨s.endpoint, s.delayMs⟩

/-- What the nodes of a version 1 document make of its output. -/
def importOutput (enabled : Bool) (sources : SortedMap String AudioSource)
    (sinks : SortedMap String AudioSink) : OutputAudio × SortedMap String AudioRoute :=
  let routes := sources.entries.map fun e => factors digest p sinks e.1 e.2
  ({ enabled := enabled && !(inputs sources).isEmpty && !(destinations sinks).isEmpty
     primary := true
     inputs := inputs sources
     destinations := destinations sinks
     legacyMatrix := routes.any uneven
     definitions := ⟨sources, sinks⟩ },
    .ofList routes.flatten)

end

/-- The import of the view that the first engine has of the graph. -/
def derive (digest : String → String) (audio : Types.Audio) :
    Except ApiError (OutputAudio × SortedMap String AudioRoute) :=
  let p := primary audio
  asInvalid do
    let sources ← importNodes p source
      (audio.sources.rekey (fun id _ => id) fun _ s => sourceJson s true)
    let sinks ← importNodes p sink (audio.sinks.rekey (fun id _ => id) fun _ s => sinkJson s true)
    .ok (importOutput digest p audio.settings.enabled sources sinks)

/-! ### Nodes there and back -/

/-- A source as the view reads back: its place is the one its id and its PCM imply. -/
def viewedSource (p : OutputId) (id : String) (s : AudioSource) : AudioSource :=
  let net := s.kind = .alsa ∧ s.alsaPcm = some "ndimon_net_in"
  { s with
    output := if s.kind = .ndi then some p else none
    channelStart := 1
    channelCount := s.channels
    resource := if net then "tessera:main:rx" else ""
    endpoint := if net then s!"tessera-rx-1-{s.channels}"
      else if s.kind = .ndi then s!"ndi-{p}" else id }

def viewedSink (p : OutputId) (id : String) (s : AudioSink) : AudioSink :=
  let hdmi := id = "hdmi" ∧ s.alsaPcm = "auto"
  let net := s.alsaPcm = "ndimon_net_out"
  { s with
    channelStart := 1
    channelCount := s.channels
    resource := if hdmi then s!"hdmi:{p}" else if net then "tessera:main:tx" else ""
    endpoint := if hdmi then s!"hdmi-{p}"
      else if net then s!"tessera-tx-1-{s.channels}" else id }

theorem get_sourceJson (s : AudioSource) (k : String) :
    get k (sourceJson s true) = SortedMap.lookup k
      ([("type", .str (kindName s.kind)), ("enabled", .bool s.enabled),
        ("channels", .int s.channels), ("delay_ms", .int s.delayMs), ("gain_db", .float s.gainDb)] ++
        s.alsaPcm.elim [] fun pcm => [("alsa_pcm", Json.str pcm)]) := by
  unfold sourceJson
  rw [get_ofMembers]
  · cases s.alsaPcm <;> rfl
  · cases s.alsaPcm with
    | none =>
      change ["type", "enabled", "channels", "delay_ms", "gain_db"].Nodup
      decide
    | some pcm =>
      change ["type", "enabled", "channels", "delay_ms", "gain_db", "alsa_pcm"].Nodup
      decide

theorem get_sinkJson (s : AudioSink) (k : String) :
    get k (sinkJson s true) = SortedMap.lookup k
      [("type", .str "alsa"), ("enabled", .bool s.enabled), ("channels", .int s.channels),
        ("alsa_pcm", .str s.alsaPcm), ("delay_ms", .int s.delayMs), ("mix", mixJson s.mix)] := by
  unfold sinkJson
  rw [get_ofMembers]
  · rfl
  · change ["type", "enabled", "channels", "alsa_pcm", "delay_ms", "mix"].Nodup
    decide

theorem natBelow_int {bound n : Nat} (h : n < bound) : natBelow bound (.int n) = some n :=
  natBelow_nat h

theorem num_of_some {j v : Json} {k : String} {n default : Nat} (h : get k j = some v)
    (hv : natBelow (2 ^ 32) v = some n) : num j k default = .ok n := by
  unfold num
  rw [h]
  simp only [hv]

theorem num_of_get {j : Json} {k : String} {n default : Nat} (h : get k j = some (.int n))
    (hn : n < 65536) : num j k default = .ok n :=
  num_of_some h (natBelow_int (by omega))

theorem num_of_none {j : Json} {k : String} {default : Nat} (h : get k j = none) :
    num j k default = .ok default := by
  unfold num
  rw [h]

theorem text_of_get {j : Json} {k s fallback : String} (h : get k j = some (.str s)) :
    text j k fallback = s := by
  unfold text
  rw [h]
  rfl

theorem text_of_none {j : Json} {k fallback : String} (h : get k j = none) :
    text j k fallback = fallback := by
  unfold text
  rw [h]
  rfl

theorem narrow_of_lt {bound n : Nat} (h : n < bound) : narrow bound n = .ok n := if_pos h

theorem source_sourceJson {s : AudioSource} {p : OutputId} {id : String}
    (h : Validator.source s "" = []) (hp : p < 256) :
    source (sourceJson s true) id p = .ok (viewedSource p id s) := by
  obtain ⟨⟨hchannels, -, -, -⟩, hndi, halsa, -, hdelay⟩ := source_valid h
  have hget := get_sourceJson s
  have hwide : s.channels < 65536 := by omega
  have hcount : num (sourceJson s true) "channels" 2 = .ok s.channels :=
    num_of_get (hget "channels") (by omega)
  have hlate : num (sourceJson s true) "delay_ms" 0 = .ok s.delayMs :=
    num_of_get (hget "delay_ms") (by omega)
  have htype : text (sourceJson s true) "type" "alsa" = kindName s.kind := text_of_get (hget "type")
  have habsent : ∀ k ∈ ["output", "channel_count", "channel_start", "endpoint", "resource"],
      get k (sourceJson s true) = none := by
    intro k hk
    rw [hget k]
    simp only [List.mem_cons, List.not_mem_nil, or_false] at hk
    obtain rfl | rfl | rfl | rfl | rfl := hk <;> cases s.alsaPcm <;> rfl
  have hplace : ∀ fallback, text (sourceJson s true) "endpoint" fallback = fallback :=
    fun _ => text_of_none (habsent "endpoint" (by simp))
  have hgain : get "gain_db" (sourceJson s true) = some (.float s.gainDb) := hget "gain_db"
  have hon : enabled (sourceJson s true) = s.enabled := by
    unfold enabled
    rw [hget "enabled"]
    rfl
  unfold source
  rw [hcount, Outcome.bind_ok, narrow_of_lt hwide, Outcome.bind_ok, htype, hlate, hon, hgain,
    num_of_none (habsent "channel_count" (by simp)), num_of_none (habsent "channel_start" (by simp)),
    num_of_none (habsent "output" (by simp)), text_of_none (habsent "resource" (by simp)),
    habsent "resource" (by simp), habsent "endpoint" (by simp)]
  simp only [Outcome.bind_ok]
  cases hkind : s.kind with
  | ndi =>
    obtain ⟨hpcm, o, ho, -⟩ := hndi hkind
    have htext : kindName EndpointType.ndi = "ndi" := rfl
    rw [htext, if_pos rfl, narrow_of_lt hp]
    simp only [Outcome.bind_ok, narrow_of_lt hwide, hplace]
    simp [viewedSource, AudioSource.ndi, hkind, hpcm, asF64]
  | alsa =>
    obtain ⟨hout, pcm, hpcm, -⟩ := halsa hkind
    have htext : kindName EndpointType.alsa = "alsa" := rfl
    have hname : text (sourceJson s true) "alsa_pcm" "auto" = pcm := by
      refine text_of_get ?_
      rw [hget, hpcm]
      rfl
    rw [htext, if_neg (by decide), if_pos rfl, hname, narrow_of_lt hwide]
    by_cases hnet : pcm = "ndimon_net_in"
    · simp [viewedSource, AudioSource.alsa, AudioSource.ndi, hkind, hpcm, asF64, Outcome.bind_ok,
        hnet]
    · simp [viewedSource, AudioSource.alsa, AudioSource.ndi, hkind, hpcm, asF64, Outcome.bind_ok,
        hnet, hplace]

theorem entries_rekey {α β γ : Type} [LinearOrder α] (m : SortedMap α β) (f : α → β → γ) :
    (m.rekey (fun k _ => k) f).entries = m.entries.map fun e => (e.1, f e.1 e.2) := by
  have hsorted : (m.entries.map fun e => (e.1, f e.1 e.2)).Pairwise fun a b => a.1 < b.1 :=
    List.pairwise_map.mpr m.sorted
  exact congrArg SortedMap.entries (SortedMap.ofList_entries ⟨_, hsorted⟩)

theorem mix_mixJson (gains : SortedMap String ℚ) : mix (mixJson gains) = .ok gains := by
  have hread : ∀ l : List (String × ℚ), (l.map fun e => (e.1, Json.float e.2)).mapM
      (fun e => (asF64 e.2).map fun gain => (e.1, gain)) = some l := by
    intro l
    induction l with
    | nil => rfl
    | cons e rest ih =>
      rw [List.map_cons, List.mapM_cons, ih]
      rfl
  have hmembers : asObject (mixJson gains) =
      some (gains.entries.map fun e => (e.1, Json.float e.2)) :=
    congrArg some (entries_rekey gains fun _ q => Json.float q)
  unfold mix
  rw [hmembers]
  dsimp only
  rw [hread]
  exact congrArg Except.ok (SortedMap.ofList_entries gains)

theorem sink_sinkJson {s : AudioSink} {p : OutputId} {id : String}
    (h : Validator.sink s "" = []) :
    sink (sinkJson s true) id p = .ok (viewedSink p id s) := by
  obtain ⟨⟨hchannels, -, -, -⟩, -, hdelay, -⟩ := sink_valid h
  have hget := get_sinkJson s
  have hwide : s.channels < 65536 := by omega
  have hcount : num (sinkJson s true) "channels" 2 = .ok s.channels :=
    num_of_get (hget "channels") (by omega)
  have hlate : num (sinkJson s true) "delay_ms" 0 = .ok s.delayMs :=
    num_of_get (hget "delay_ms") (by omega)
  have hname : text (sinkJson s true) "alsa_pcm" "auto" = s.alsaPcm := text_of_get (hget "alsa_pcm")
  have hon : enabled (sinkJson s true) = s.enabled := by
    unfold enabled
    rw [hget "enabled"]
    rfl
  unfold sink
  rw [hcount, Outcome.bind_ok, narrow_of_lt hwide, Outcome.bind_ok, hname, hlate, hon,
    num_of_none (hget "channel_count"), num_of_none (hget "channel_start"), hget "resource",
    hget "endpoint", text_of_none (hget "endpoint"), text_of_none (hget "resource"), hget "mix"]
  simp only [Outcome.bind_ok, narrow_of_lt hwide]
  change (mix (mixJson s.mix) >>= _) = _
  rw [mix_mixJson, Outcome.bind_ok]
  rfl

/-- Nodes that read back one by one read back as a whole. -/
theorem importNodes_eq {Node : Type} {read : Json → String → OutputId → Except String Node}
    {write : Node → Json} {viewed : String → Node → Node} {p : OutputId}
    {nodes : SortedMap String Node}
    (h : ∀ k s, nodes.get? k = some s → read (write s) k p = .ok (viewed k s)) :
    importNodes p read (nodes.rekey (fun id _ => id) fun _ s => write s) =
      .ok (nodes.rekey (fun id _ => id) viewed) := by
  unfold importNodes
  rw [entries_rekey]
  have hread : (nodes.entries.map fun e => (e.1, write e.2)).mapM
      (fun e => (read e.2 e.1 p).map fun node => (e.1, node)) =
      .ok (nodes.entries.map fun e => (e.1, viewed e.1 e.2)) := by
    rw [Outcome.mapM_eq_ok_iff_map, List.map_map, List.map_map]
    refine List.map_congr_left fun e he => ?_
    have hone := h e.1 e.2 (SortedMap.mem_entries_iff.mp he)
    simp only [Function.comp_apply, hone, Outcome.map_ok]
  rw [hread]
  rfl

/-- A view of accepted nodes is imported, as what its factors amount to. -/
theorem derive_eq {digest : String → String} {audio : Types.Audio}
    (h : NodesAccepted audio.sources audio.sinks) (hp : primary audio < 256) :
    derive digest audio = .ok (importOutput digest (primary audio) audio.settings.enabled
      (audio.sources.rekey (fun id _ => id) (viewedSource (primary audio)))
      (audio.sinks.rekey (fun id _ => id) (viewedSink (primary audio)))) := by
  unfold derive
  dsimp only
  rw [importNodes_eq fun k s hs => source_sourceJson (h.sources k s hs).2 hp,
    importNodes_eq fun k s hs => sink_sinkJson (h.sinks k s hs).2]
  rfl

end NdimonR.Render.Audio
