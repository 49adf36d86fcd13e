import NdimonR.Library.Toml
import NdimonR.Types.Encode
import Mathlib.Data.Prod.Lex

/-! Tessera projection: the files of its daemon and the ALSA devices on top of it. -/

namespace NdimonR.Render.Tessera

open Types Text Json Toml

/-- Labels by channel, as one inline table. -/
def labels (labels : SortedMap Nat String) : String :=
  "\x7b " ++ ", ".intercalate
    (labels.entries.map fun e => "\"" ++ toString e.1 ++ "\" = " ++ quote e.2) ++ " \x7d"

def deviceLines (t : Types.Tessera) : List String :=
  ["[[device]]",
    "id = \"main\"",
    assign "name" (quote t.device.name),
    assign "sample_rate" (toString t.device.sampleRate),
    assign "encoding" (toString t.device.encoding),
    assign "latency_us" (toString t.device.latencyUs),
    assign "rx_channels" (toString t.device.rxChannels),
    assign "tx_channels" (toString t.device.txChannels),
    "locked = [\"name\", \"sample_rate\", \"encoding\", \"latency\", \"rx_channels\", " ++
      "\"tx_channels\", \"rx_channel_labels\", \"tx_channel_labels\"]",
    assign "rx_channel_labels" (labels t.device.rxLabels),
    assign "tx_channel_labels" (labels t.device.txLabels),
    "",
    "[clock]",
    assign "role" (quote t.clock.role.text),
    assign "priority" (toString t.clock.priority),
    "locked = [\"role\", \"priority\"]"] ++
  (if t.protocolFlowLock then ["", "[control]", "locked = [\"flows\"]"] else []) ++
  ["",
    "[discovery]",
    assign "advertise_devices" (toString t.device.advertiseDevices)]

/-- Where a flow's packets come from. -/
def sourceLine (f : TesseraFlow) : Except String String :=
  if f.anySource then .ok (assign "any_source" "true")
  else match f.peer with
    | some peer => .ok (assign "peer" (quote peer))
    | none => .error "flow peer missing"

def flowLines (f : TesseraFlow) : Except String (List String) := do
  let source ← sourceLine f
  .ok (["[[flow]]",
    assign "id" (quote f.id),
    assign "direction" (quote f.direction.text),
    "device = \"main\"",
    "channels = []",
    source,
    assign "port" (toString f.port)] ++
    (f.framesPerPacket.map fun n => assign "frames_per_packet" (toString n)).toList)

/-- A blank line between two flows, and after the comment where there is none. -/
def flowsLines (flows : List TesseraFlow) : Except String (List String) := do
  let blocks ← flows.mapM flowLines
  .ok ("# NDIMon-R Tessera plugin; static flows, all device channels" ::
    if flows.isEmpty then [""] else [""].intercalate blocks)

def networkLines (state : DesiredState) : Except String (List String) :=
  match state.network.networks.find? (·.id == state.network.roles.audio) with
  | none => .error "audio network role is not adopted"
  | some row =>
    let interface := match row.vlanId with
      | some tag => s!"{state.network.interface}.{tag}"
      | none => state.network.interface
    .ok ["[network]", "interfaces = [" ++ quote interface ++ "]", "locked = true"]

def pcmLine (name : String) (first channels : Nat) : String :=
  s!"pcm.{name} \x7b type tessera device \"main\" first_channel {first} channels {channels} " ++
    "client \"ndimon-r\" \x7d"

/-- Each range in use once, in order. -/
def ranges (used : List (Nat × Nat)) : List (Nat × Nat) :=
  (SortedMap.ofList (used.map fun e => (toLex e, ()))).keys.map ofLex

def rangeLines (direction : Direction) (used : List (Nat × Nat)) : List String :=
  (ranges used).map fun e =>
    pcmLine s!"ndimon_tessera_{direction.text}_{e.1}_{e.2}" e.1 e.2

def alsaRanges (audio : Audio) : List String :=
  let sources := audio.sources.values.filter fun s => s.enabled && s.resource == "tessera:main:rx"
  let sinks := audio.sinks.values.filter fun s => s.enabled && s.resource == "tessera:main:tx"
  "# NDIMon-R Tessera endpoint ranges; generated from the audio graph" ::
    rangeLines .rx (sources.map fun s => (s.channelStart, s.channels)) ++
    rangeLines .tx (sinks.map fun s => (s.channelStart, s.channels))

def artifact (id : String) (state : DesiredState) (t : Types.Tessera) : Except String (List String) :=
  if id = "tessera-device" then .ok (deviceLines t)
  else if id = "tessera-flows" then flowsLines t.flows
  else if id = "tessera-probe-flows" then .ok []
  else if id = "tessera-network" then networkLines state
  else if id = "alsa" then
    .ok ["# NDIMon-R Tessera plugin", pcmLine "ndimon_net_in" 1 t.device.rxChannels,
      pcmLine "ndimon_net_out" 1 t.device.txChannels]
  else if id = "alsa-ranges" then .ok (alsaRanges state.audio)
  else .error "unknown Tessera artifact"

def renderArtifact (id : String) (state : DesiredState) : Except String String :=
  match state.tessera with
  | none => .error "Tessera is not configured"
  | some t => (artifact id state t).map unlines

end NdimonR.Render.Tessera
