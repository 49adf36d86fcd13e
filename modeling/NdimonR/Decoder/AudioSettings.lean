import NdimonR.Decoder.Reading

/-! The settings of the audio engine, in the two versions of their file. -/

namespace NdimonR.Decoder

open Json Text

-- `narrow` is the conversion of a double to single precision.
variable (narrow : ℚ → ℚ)

structure SourceSettings where
  id : String
  type : String
  alsaPcm : String
  enabled : Bool := true
  channels : Nat := 2
  delayMs : Nat := 0
  gainDb : ℚ := 0
  output : Nat := 0
  endpoint : String := ""
  resource : String := ""
  channelStart : Nat := 1
  channelCount : Nat := 0
  deriving DecidableEq

structure SinkSettings where
  id : String
  type : String
  alsaPcm : String
  enabled : Bool := true
  channels : Nat := 2
  delayMs : Nat := 0
  mix : SortedMap String ℚ := .empty
  endpoint : String := ""
  resource : String := ""
  channelStart : Nat := 1
  channelCount : Nat := 0
  deriving DecidableEq

structure EngineSettings where
  enabled : Bool := true
  rate : Nat := 48000
  periodFrames : Nat := 512
  master : String := "hdmi"
  memoryBudgetMib : Nat := 64
  deriving DecidableEq

structure RouteSettings where
  id : String
  source : String
  sink : String
  output : Nat := 1
  enabled : Bool := true
  gainDb : ℚ := 0
  delayMs : Nat := 0
  deriving DecidableEq

structure AudioSettings where
  version : Nat := 1
  revision : Nat := 0
  engine : EngineSettings := {}
  sources : List SourceSettings := [{ id := "ndi", type := "ndi", alsaPcm := "" }]
  sinks : List SinkSettings :=
    [{ id := "hdmi", type := "alsa", alsaPcm := "auto", mix := .singleton "ndi" 0 }]
  videoDelayMs : Nat := 0
  warnings : List String := []
  outputs : SortedMap Nat Json := .empty
  routes : List RouteSettings := []
  deriving DecidableEq

def range (j : Json) (k : String) (lo hi : Nat) : Result Nat := do
  match ← atKey j k with
  | .int n =>
    if Privd.isInteger (.int n) then
      if (lo : Int) ≤ n ∧ n ≤ hi then .ok n.toNat else .error "integer out of range"
    else .error "integer required"
  | _ => .error "integer required"

def gain (j : Json) : Result ℚ :=
  match Privd.asF64 j with
  | none => .error "gain must be numeric"
  | some v => if -60 ≤ v ∧ v ≤ 12 then .ok (narrow v) else .error "gain out of range"

def pcmName (s : String) : Bool :=
  decide (1 ≤ len s ∧ len s ≤ 512) &&
    all (fun c => isAsciiAlphanumeric c || ":_=,.+-".toList.contains c) s

def endpointId (s : String) : Bool :=
  startsWith isAsciiLowercase s && decide (len s ≤ 32) &&
    all (fun c => isAsciiLowercase c || isAsciiDigit c || c == '-') s

namespace AudioSettings

def periods : List Nat := [128, 256, 512, 1024, 2048]

def parseRevision (j : Json) : Result Nat :=
  match get "revision" j with
  | none => .ok 0
  | some r => do
    require (Privd.isInteger r) "invalid revision"
    match r with
    | .int n => if 0 ≤ n ∧ n ≤ 9007199254740991 then .ok n.toNat else .error "invalid revision"
    | _ => .error "invalid revision"

/-- An optional bounded member of an endpoint. -/
def rangeOr (v : Json) (k : String) (lo hi default : Nat) : Result Nat :=
  if contains k v then range v k lo hi else .ok default

def parseSource (version : Nat) (entry : String × Json) : Result SourceSettings := do
  let (id, v) := entry
  require (endpointId id) "invalid source id"
  let type ← getString (← atKey v "type")
  let alsaPcm ← valueOr getString v "alsa_pcm" ""
  let enabled ← getBool (← atKey v "enabled")
  let channels ← range v "channels" 1 16
  let delayMs ← if version = 1 then range v "delay_ms" 0 5000 else .ok 0
  let gainDb ← if version = 1 then do gain narrow (← atKey v "gain_db") else .ok 0
  require (if version = 1 then type == (if id = "ndi" then "ndi" else "alsa")
    else type == "ndi" || type == "alsa") "invalid source type"
  let output ← if version = 2 ∧ type = "ndi" then range v "output" 1 8 else .ok 0
  let endpoint ← valueOr getString v "endpoint" ""
  let resource ← valueOr getString v "resource" ""
  let channelStart ← rangeOr v "channel_start" 1 65535 1
  let channelCount ← rangeOr v "channel_count" 1 16 channels
  require (channelCount == channels) "source channel_count must equal channels"
  require (if type = "ndi" then !contains "alsa_pcm" v else pcmName alsaPcm) "missing ALSA PCM"
  .ok { id, type, alsaPcm, enabled, channels, delayMs, gainDb, output, endpoint, resource,
        channelStart, channelCount }

/-- The gains of a mix, in key order. -/
def parseMix (entry : String × Json) : Result (String × ℚ) := do
  require (endpointId entry.1) "invalid mix id"
  let g ← gain narrow entry.2
  .ok (entry.1, g)

/-- A sink, and the warnings its mix gives. -/
def parseSink (version : Nat) (names : List String) (entry : String × Json) :
    Result (SinkSettings × List String) := do
  let (id, v) := entry
  require (endpointId id) "invalid sink id"
  let type ← getString (← atKey v "type")
  let alsaPcm ← getString (← atKey v "alsa_pcm")
  let enabled ← getBool (← atKey v "enabled")
  let channels ← range v "channels" 1 16
  let delayMs ← if version = 1 then range v "delay_ms" 0 5000 else .ok 0
  require (type == "alsa" && pcmName alsaPcm) "invalid sink"
  let endpoint ← valueOr getString v "endpoint" ""
  let resource ← valueOr getString v "resource" ""
  let channelStart ← rangeOr v "channel_start" 1 65535 1
  let channelCount ← rangeOr v "channel_count" 1 16 channels
  require (channelCount == channels) "sink channel_count must equal channels"
  let gains ← if version = 1 then do
      let mix ← atKey v "mix"
      require (isObject mix) "mix must be object"
      (members mix).mapM (parseMix narrow)
    else .ok []
  let known := gains.filter fun g => names.contains g.1
  let unknown := gains.filter fun g => !names.contains g.1
  .ok ({ id, type, alsaPcm, enabled, channels, delayMs, endpoint, resource, channelStart,
         channelCount, mix := .ofList known },
    unknown.map fun g => "unknown mix source: " ++ g.1)

def parseOutput (entry : String × Json) : Result (Nat × Json) := do
  match entry.1.toList with
  | [c] =>
    require (decide ('1' ≤ c ∧ c ≤ '8')) "invalid output number"
    let enabled ← atKey entry.2 "enabled"
    require (isBoolean enabled) "output enabled must be boolean"
    .ok (c.toNat - 48, entry.2)
  | _ => .error "invalid output number"

def parseRoute (outputs : List Nat) (names sinks : List String) (entry : String × Json) :
    Result RouteSettings := do
  let (id, v) := entry
  require (endpointId id) "invalid route id"
  let source ← getString (← atKey v "source")
  let sink ← getString (← atKey v "sink")
  let output ← range v "output" 1 8
  let enabled ← getBool (← atKey v "enabled")
  let gainDb ← gain narrow (← atKey v "gain_db")
  let delayMs ← range v "delay_ms" 0 5000
  let mapping ← valueOr getString v "mapping" "default"
  require (mapping == "default") "unsupported channel mapping"
  require (outputs.contains output && names.contains source && sinks.contains sink)
    "route references missing output or endpoint"
  .ok { id, source, sink, output, enabled, gainDb, delayMs }

def parseEngine (e : Json) : Result EngineSettings := do
  let enabled ← getBool (← atKey e "enabled")
  let rate ← range e "rate" 48000 48000
  let periodFrames ← range e "period_frames" 128 2048
  let master ← getString (← atKey e "master")
  let memoryBudgetMib ← rangeOr e "memory_budget_mib" 1 512 64
  require (periods.contains periodFrames) "invalid period_frames"
  .ok { enabled, rate, periodFrames, master, memoryBudgetMib }

/-- The version may be written as a floating-point number. -/
def parseVersion (j : Json) : Result Nat := do
  let v ← atKey j "version"
  if Privd.asF64 v = some 1 then .ok 1
  else if Privd.asF64 v = some 2 then .ok 2
  else .error "unsupported audio settings version"

/-- The outputs and routes of version 2. -/
def parseRoutes (j : Json) (names sinks : List String) :
    Result (SortedMap Nat Json × List RouteSettings) := do
  let outputs ← atKey j "outputs"
  require (isObject outputs) "outputs and routes must be objects"
  let routes ← atKey j "routes"
  require (isObject routes) "outputs and routes must be objects"
  let outputs ← (members outputs).mapM parseOutput
  let routes ← (members routes).mapM (parseRoute narrow (outputs.map Prod.fst) names sinks)
  .ok (.ofList outputs, routes)

/-- Version 2 may have no master if it has no endpoints and no routes. -/
def checkMaster (j : Json) (version : Nat) (engine : EngineSettings)
    (sources : List SourceSettings) (sinks : List SinkSettings) : Result Unit := do
  let master := sinks.any fun x => x.id == engine.master && x.enabled
  let hdmi := sinks.any (·.id == "hdmi")
  if master && (version == 2 || hdmi) then .ok ()
  else if version = 2 ∧ engine.master = "" ∧ sources = [] ∧ sinks = [] then do
    let routes ← atKey j "routes"
    require (isEmpty routes) "master must name enabled sink; hdmi required"
  else .error "master must name enabled sink; hdmi required"

def parse (j : Json) : Result AudioSettings := do
  let version ← parseVersion j
  let revision ← parseRevision j
  let engine ← parseEngine (← atKey j "engine")
  let videoDelayMs ← range j "video_delay_ms" 0 5000
  let sources ← atKey j "sources"
  require (isObject sources) "sources and sinks must be objects"
  let sinks ← atKey j "sinks"
  require (isObject sinks) "sources and sinks must be objects"
  require (decide (size sources ≤ 32 ∧ size sinks ≤ 32)) "too many audio endpoints"
  let sources ← (members sources).mapM (parseSource narrow version)
  let names := sources.map (·.id)
  require (version == 2 || names.contains "ndi") "missing ndi source"
  let parsed ← (members sinks).mapM (parseSink narrow version names)
  let sinks := parsed.map Prod.fst
  checkMaster j version engine sources sinks
  let (outputs, routes) ←
    if version = 2 then parseRoutes narrow j names (sinks.map (·.id)) else .ok (.empty, [])
  .ok { version, revision, engine, sources, sinks, videoDelayMs,
        warnings := parsed.flatMap Prod.snd, outputs, routes }

end AudioSettings

end NdimonR.Decoder
