import NdimonR.Decoder.AudioSettings
import NdimonR.Library.Outcome

/-! What the audio engine refuses in a request before it looks at memory or opens a device. -/

namespace NdimonR.Decoder

open Json Text

namespace AudioEngine

def maxChannels : Nat := 16

def rate : Nat := 48000

/-- The HDMI output a sink plays on; 0 for none. -/
def hdmiOutput (sink : SinkSettings) (primary : Nat) : Nat :=
  let named := if sink.id = "hdmi" ∧ sink.alsaPcm = "auto" then primary else 0
  match sink.resource.toList with
  | ['h', 'd', 'm', 'i', ':', c] => if '1' ≤ c ∧ c ≤ '8' then c.toNat - 48 else named
  | _ => named

def geometry (s : AudioSettings) : Bool :=
  (s.version == 1 || s.version == 2) && s.engine.rate == rate &&
    AudioSettings.periods.contains s.engine.periodFrames &&
    decide (1 ≤ s.engine.memoryBudgetMib ∧ s.engine.memoryBudgetMib ≤ 512)

def channelRange (start channels count : Nat) : Bool :=
  decide (1 ≤ start ∧ start + channels - 1 ≤ 65535) && (count == 0 || count == channels)

/-- A capture that two sources would both open. -/
def captureIdentity (x : SourceSettings) : String :=
  if x.resource = "" then "pcm:" ++ x.alsaPcm
  else x.resource ++ ":" ++ toString x.channelStart ++ ":" ++ toString x.channels

structure SourcesSeen where
  ids : List String := []
  ndiBindings : List Nat := []
  captureBindings : List String := []

def ndiBinding (version : Nat) (bindings : List Nat) (x : SourceSettings) : Result (List Nat) :=
  if version = 2 ∧ x.type = "ndi" then
    if 1 ≤ x.output ∧ x.output ≤ 8 ∧ x.output ∉ bindings then .ok (x.output :: bindings)
    else .error "duplicate or invalid NDI output binding"
  else .ok bindings

def captureBinding (version : Nat) (bindings : List String) (x : SourceSettings) :
    Result (List String) :=
  if version = 2 ∧ x.type = "alsa" then
    if captureIdentity x ∈ bindings then .error ("duplicate canonical capture source: " ++ x.id)
    else .ok (captureIdentity x :: bindings)
  else .ok bindings

def checkSource (version : Nat) (seen : SourcesSeen) (x : SourceSettings) : Result SourcesSeen := do
  require (decide (1 ≤ x.channels ∧ x.channels ≤ maxChannels) &&
      (x.type == "ndi" || x.type == "alsa") && decide (x.output ≤ 8) && !seen.ids.contains x.id)
    "invalid or duplicate source"
  require (channelRange x.channelStart x.channels x.channelCount)
    ("invalid source channel range: " ++ x.id)
  let ndiBindings ← ndiBinding version seen.ndiBindings x
  let captureBindings ← captureBinding version seen.captureBindings x
  .ok ⟨x.id :: seen.ids, ndiBindings, captureBindings⟩

/-- Two sinks of one PCM, or of overlapping channels of one resource. Two displays may both be
`auto`. -/
def sinkConflict (primary : Nat) (x prior : SinkSettings) : Bool :=
  let samePcm := x.alsaPcm == prior.alsaPcm &&
    !(x.alsaPcm == "auto" && hdmiOutput x primary ≠ 0 && hdmiOutput prior primary ≠ 0 &&
      x.resource ≠ prior.resource)
  let overlap := x.resource ≠ "" && x.resource == prior.resource &&
    decide (x.channelStart < prior.channelStart + prior.channels ∧
      prior.channelStart < x.channelStart + x.channels)
  samePcm || overlap

/-- The first sink already accepted that this one overlaps. -/
def firstConflict (version primary : Nat) (prior : List SinkSettings) (x : SinkSettings) :
    Option SinkSettings :=
  if version = 2 then prior.find? (sinkConflict primary x) else none

def checkSink (version primary : Nat) (prior : List SinkSettings) (x : SinkSettings) :
    Result (List SinkSettings) := do
  require (decide (1 ≤ x.channels ∧ x.channels ≤ maxChannels) && x.type == "alsa" &&
      x.alsaPcm ≠ "" && !(prior.any (·.id == x.id)))
    "invalid or duplicate sink"
  require (channelRange x.channelStart x.channels x.channelCount)
    ("invalid sink channel range: " ++ x.id)
  match firstConflict version primary prior x with
  | some p => .error ("sink " ++ x.id ++ " overlaps canonical sink " ++ p.id ++
      "; share that sink ID instead")
  | none => .ok (prior ++ [x])

/-- Version 1 needs the master to exist, version 2 to be enabled; an empty version 2 graph has
none. -/
def checkMaster (s : AudioSettings) : Result Unit :=
  require ((s.version == 2 && s.engine.master == "" && s.sources.isEmpty && s.sinks.isEmpty &&
      s.routes.isEmpty) ||
    (s.sinks.find? (·.id == s.engine.master)).any fun x => s.version ≠ 2 || x.enabled)
    "master must name enabled sink"

structure RoutesSeen where
  ids : List String := []
  contributions : List ((String × String) × Nat) := []

/-- One enabled route for each source and sink, whatever its output. -/
def contribution (seen : List ((String × String) × Nat)) (r : RouteSettings) (active : Bool) :
    Result (List ((String × String) × Nat)) :=
  if active then
    match seen.find? (·.1 == (r.source, r.sink)) with
    | some used => .error ("duplicate source/sink contribution on output " ++ toString r.output ++
        "; already used by output " ++ toString used.2)
    | none => .ok (((r.source, r.sink), r.output) :: seen)
  else .ok seen

/-- Whether a route's output is on; not asked for a route that is off. -/
def routeOutput (r : RouteSettings) (output : Json) : Result Bool :=
  if r.enabled then valueOr getBool output "enabled" false else .ok false

def checkRoute (s : AudioSettings) (seen : RoutesSeen) (r : RouteSettings) : Result RoutesSeen :=
  match s.sources.find? (·.id == r.source), s.sinks.find? (·.id == r.sink),
      s.outputs.get? r.output with
  | some source, some sink, some output => do
    require (!seen.ids.contains r.id && decide (r.delayMs ≤ 5000 ∧ -60 ≤ r.gainDb ∧ r.gainDb ≤ 12))
      ("invalid route: " ++ r.id)
    let enabled ← routeOutput r output
    let contributions ← contribution seen.contributions r
      (enabled && source.enabled && sink.enabled)
    .ok ⟨r.id :: seen.ids, contributions⟩
  | _, _, _ => .error ("invalid route: " ++ r.id)

/-- The checks of a request in their order, up to the memory budget. -/
def staticChecks (primary : Nat) (s : AudioSettings) : Result Unit := do
  require (geometry s) "invalid audio engine geometry or memory budget"
  let _ ← s.sources.foldlM (checkSource s.version) {}
  let _ ← s.sinks.foldlM (checkSink s.version primary) []
  checkMaster s
  let _ ← s.routes.foldlM (checkRoute s) {}
  .ok ()

end AudioEngine

end NdimonR.Decoder
