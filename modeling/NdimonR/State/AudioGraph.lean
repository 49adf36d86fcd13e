import NdimonR.Library.Lines
import NdimonR.Types.Validation

/-! The canonical form of the audio graph: nodes under the ids of the endpoints they play, routes
under the ids of what they join. -/

namespace NdimonR.State.Audio

open NdimonR.Types Text

/-! ### Tessera endpoints -/

structure TesseraEndpoint where
  direction : Direction
  start : Nat
  channels : Nat

def TesseraEndpoint.directionName (e : TesseraEndpoint) : String :=
  match e.direction with
  | .rx => "rx"
  | .tx => "tx"

def TesseraEndpoint.id (e : TesseraEndpoint) : String :=
  s!"tessera-{e.directionName}-{e.start}-{e.channels}"

def TesseraEndpoint.pcm (e : TesseraEndpoint) : String :=
  s!"ndimon_tessera_{e.directionName}_{e.start}_{e.channels}"

/-! ### Ids -/

def resourceId (id resource : String) (start count : Nat) : String :=
  match stripPrefix "hdmi:" resource with
  | some p => s!"hdmi-{p}"
  | none =>
    match stripPrefix "tessera:main:" resource with
    | some "rx" => TesseraEndpoint.id ⟨.rx, start, count⟩
    | some "tx" => TesseraEndpoint.id ⟨.tx, start, count⟩
    | some d => s!"tessera-{d}-{start}-{count}"
    | none => id

def sourceId (id : String) (s : AudioSource) : String :=
  if s.kind = .ndi then s!"ndi-{s.output.getD 1}"
  else resourceId id s.resource s.channelStart s.channels

def sinkId (id : String) (s : AudioSink) : String :=
  resourceId id s.resource s.channelStart s.channels

/-- `digest` is the hexadecimal SHA-256 of a text. -/
def routeId (digest : String → String) (output : OutputId) (source sink : String) : String :=
  let nodes := String.ofList ((digest (source ++ "\x00" ++ sink)).toList.take 24)
  s!"o{output}-{nodes}"

/-! ### The canonical graph -/

def canonicalSource (s : AudioSource) : AudioSource :=
  if s.alsaPcm = some "ndimon_net_in" then
    { s with alsaPcm := some (TesseraEndpoint.pcm ⟨.rx, s.channelStart, s.channels⟩) }
  else s

def canonicalSink (s : AudioSink) : AudioSink :=
  if s.alsaPcm = "ndimon_net_out" then
    { s with alsaPcm := TesseraEndpoint.pcm ⟨.tx, s.channelStart, s.channels⟩ }
  else s

/-- The new id of a source; a reference to nothing stays. -/
def sourceName (audio : Types.Audio) (id : String) : String :=
  ((audio.sources.get? id).map (sourceId id)).getD id

def sinkName (audio : Types.Audio) (id : String) : String :=
  ((audio.sinks.get? id).map (sinkId id)).getD id

def canonicalRoute (audio : Types.Audio) (r : AudioRoute) : AudioRoute :=
  { r with source := sourceName audio r.source, sink := sinkName audio r.sink }

def routeKey (digest : String → String) (audio : Types.Audio) (r : AudioRoute) : String :=
  routeId digest r.output (sourceName audio r.source) (sinkName audio r.sink)

def canonicalMaster (audio : Types.Audio) : String :=
  ((audio.sinks.get? audio.settings.master).map (sinkId audio.settings.master)).getD ""

def canonicalize (digest : String → String) (original : Types.Audio) : Types.Audio :=
  { original with
    sources := original.sources.rekey sourceId fun _ => canonicalSource
    sinks := original.sinks.rekey sinkId fun _ => canonicalSink
    routes := original.routes.rekey (fun _ => routeKey digest original)
      fun _ => canonicalRoute original
    settings := { original.settings with master := canonicalMaster original } }

/-! ### Twice is once -/

theorem pcm_ne (e : TesseraEndpoint) : e.pcm ≠ "ndimon_net_in" ∧ e.pcm ≠ "ndimon_net_out" := by
  obtain ⟨t, ht⟩ : ∃ t, e.pcm.toList = "ndimon_tessera_".toList ++ t := by
    change ∃ t, ("ndimon_tessera_" ++ e.directionName ++ "_" ++ toString e.start ++ "_" ++
      toString e.channels).toList = _
    simp only [String.toList_append, List.append_assoc]
    exact ⟨_, rfl⟩
  constructor
  · intro h
    rw [h] at ht
    cases ht
  · intro h
    rw [h] at ht
    cases ht

@[simp] theorem canonicalSource_canonicalSource (s : AudioSource) :
    canonicalSource (canonicalSource s) = canonicalSource s := by
  unfold canonicalSource
  split
  · simp [(pcm_ne _).1]
  · rfl

@[simp] theorem canonicalSink_canonicalSink (s : AudioSink) :
    canonicalSink (canonicalSink s) = canonicalSink s := by
  unfold canonicalSink
  split
  · simp [(pcm_ne _).2]
  · rfl

@[simp] theorem sourceId_canonicalSource (id : String) (s : AudioSource) :
    sourceId id (canonicalSource s) = sourceId id s := by
  unfold canonicalSource
  split <;> rfl

@[simp] theorem sinkId_canonicalSink (id : String) (s : AudioSink) :
    sinkId id (canonicalSink s) = sinkId id s := by
  unfold canonicalSink
  split <;> rfl

@[simp] theorem resourceId_resourceId (id resource : String) (start count : Nat) :
    resourceId (resourceId id resource start count) resource start count =
      resourceId id resource start count := by
  unfold resourceId
  split
  · rfl
  · split <;> rfl

@[simp] theorem sourceId_sourceId (id : String) (s : AudioSource) :
    sourceId (sourceId id s) s = sourceId id s := by
  unfold sourceId
  split
  · rfl
  · simp

@[simp] theorem sinkId_sinkId (id : String) (s : AudioSink) :
    sinkId (sinkId id s) s = sinkId id s := by
  simp [sinkId]

section
variable {digest : String → String} {audio : Types.Audio}

/-- A canonical source is under its own id, and needs no rewriting. -/
theorem canonical_source {k : String} {s : AudioSource}
    (h : (canonicalize digest audio).sources.get? k = some s) :
    sourceId k s = k ∧ canonicalSource s = s := by
  obtain ⟨e, -, rfl, rfl⟩ := SortedMap.mem_rekey h
  simp

theorem canonical_sink {k : String} {s : AudioSink}
    (h : (canonicalize digest audio).sinks.get? k = some s) :
    sinkId k s = k ∧ canonicalSink s = s := by
  obtain ⟨e, -, rfl, rfl⟩ := SortedMap.mem_rekey h
  simp

theorem sourceName_canonicalize (k : String) : sourceName (canonicalize digest audio) k = k := by
  unfold sourceName
  cases h : (canonicalize digest audio).sources.get? k with
  | none => rfl
  | some s => simp [(canonical_source h).1]

theorem sinkName_canonicalize (k : String) : sinkName (canonicalize digest audio) k = k := by
  unfold sinkName
  cases h : (canonicalize digest audio).sinks.get? k with
  | none => rfl
  | some s => simp [(canonical_sink h).1]

theorem canonicalRoute_canonicalize (r : AudioRoute) :
    canonicalRoute (canonicalize digest audio) r = r := by
  simp [canonicalRoute, sourceName_canonicalize, sinkName_canonicalize]

theorem routeKey_canonicalize (r : AudioRoute) :
    routeKey digest (canonicalize digest audio) r = routeId digest r.output r.source r.sink := by
  simp [routeKey, sourceName_canonicalize, sinkName_canonicalize]

/-- A canonical route is under the id of what it joins. -/
theorem canonical_route {k : String} {r : AudioRoute}
    (h : (canonicalize digest audio).routes.get? k = some r) :
    routeId digest r.output r.source r.sink = k := by
  obtain ⟨e, -, rfl, rfl⟩ := SortedMap.mem_rekey h
  rfl

end

theorem canonicalize_eq_self {digest : String → String} {a : Types.Audio}
    (hsources : ∀ e ∈ a.sources.entries, sourceId e.1 e.2 = e.1 ∧ canonicalSource e.2 = e.2)
    (hsinks : ∀ e ∈ a.sinks.entries, sinkId e.1 e.2 = e.1 ∧ canonicalSink e.2 = e.2)
    (hroutes : ∀ e ∈ a.routes.entries, routeKey digest a e.2 = e.1 ∧ canonicalRoute a e.2 = e.2)
    (hmaster : canonicalMaster a = a.settings.master) : canonicalize digest a = a := by
  unfold canonicalize
  rw [SortedMap.rekey_eq_self hsources, SortedMap.rekey_eq_self hsinks,
    SortedMap.rekey_eq_self hroutes, hmaster]

theorem canonicalMaster_canonicalize (digest : String → String) (audio : Types.Audio) :
    canonicalMaster (canonicalize digest audio) = canonicalMaster audio := by
  change (((canonicalize digest audio).sinks.get? (canonicalMaster audio)).map
    (sinkId (canonicalMaster audio))).getD "" = canonicalMaster audio
  cases h : (canonicalize digest audio).sinks.get? (canonicalMaster audio) with
  | some s => simp [(canonical_sink h).1]
  | none =>
    -- Nothing is under the master's name only when the first pass found none.
    cases hold : audio.sinks.get? audio.settings.master with
    | none => simp [canonicalMaster, hold]
    | some s =>
      have hkey : (canonicalize digest audio).sinks.contains (canonicalMaster audio) = true :=
        SortedMap.contains_rekey.mpr ⟨(audio.settings.master, s),
          SortedMap.mem_entries_iff.mpr hold, by simp [canonicalMaster, hold]⟩
      simp [SortedMap.contains, h] at hkey

theorem canonicalize_canonicalize (digest : String → String) (audio : Types.Audio) :
    canonicalize digest (canonicalize digest audio) = canonicalize digest audio := by
  refine canonicalize_eq_self (fun e he => canonical_source (SortedMap.mem_entries_iff.mp he))
    (fun e he => canonical_sink (SortedMap.mem_entries_iff.mp he)) (fun e he => ?_)
    (canonicalMaster_canonicalize digest audio)
  refine ⟨?_, canonicalRoute_canonicalize e.2⟩
  rw [routeKey_canonicalize]
  exact canonical_route (SortedMap.mem_entries_iff.mp he)

end NdimonR.State.Audio
