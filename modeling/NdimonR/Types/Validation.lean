import NdimonR.Types.Wire
import Mathlib.Data.List.Dedup

/-! Validation of the whole portable document. Every check contributes its own error; the
document is valid when no check does. -/

namespace NdimonR.Types

open Text

def maxDnsSearch : Nat := 6

def identifier (value : String) : Bool :=
  1 ≤ len value && len value ≤ 32 && startsWith isAsciiLowercase value &&
    all (fun c => isAsciiLowercase c || isAsciiDigit c || c == '-') value

def validVersion (value : String) : Bool :=
  startsWith isAsciiDigit value &&
    all (fun c => isAsciiAlphanumeric c || ".+:~-".toList.contains c) value

def validPcm (value : String) : Bool :=
  1 ≤ len value && len value ≤ 512 &&
    all (fun c => isAsciiAlphanumeric c || ":_=,.+-".toList.contains c) value

def controls (value : String) : Bool := any (fun c => c.toNat < 32 || c.toNat == 0x7f) value

def validDeviceLabel (value : String) : Bool :=
  1 ≤ len value && len value ≤ 63 && startsWith isAsciiAlphanumeric value &&
    endsWith isAsciiAlphanumeric value && all (fun c => isAsciiAlphanumeric c || c == '-') value

def validHost (value : String) : Bool :=
  if len value = 0 ∨ len value > 253 then false
  else if all (fun c => isAsciiDigit c || c == '.') value then (Ipv4Addr.parse value).isSome
  else (split '.' value).all validDeviceLabel

def validDeviceNtp (value : String) : Bool :=
  if (split '.' value).length = 4 ∧ all (fun c => isAsciiDigit c || c == '.') value then
    (Ipv4Addr.parse value).isSome
  else len value ≤ 253 && (split '.' value).all validDeviceLabel

def validDnsSearchDomain (value : String) : Bool :=
  1 ≤ len value && len value ≤ 253 && (split '.' value).all validDeviceLabel

/-- A strict host name. Its labels hold no colon, so the only address form left to refuse is
IPv4; browsers also read an all-numeric or hexadecimal last label as an address. -/
def validWebHostname (value : String) : Bool :=
  validDnsSearchDomain value && (Ipv4Addr.parse value).isNone &&
    (split '.' value).getLast?.any fun label =>
      any isAsciiAlphabetic label &&
        !(stripPrefix "0x" (toAsciiLowercase label)).any fun hex =>
          1 ≤ len hex && all isAsciiHexdigit hex

def ndiEndpoint (value : String) : Bool :=
  match split ':' value with
  | [ip] => (Ipv4Addr.parse ip).isSome
  | [ip, port] =>
    (Ipv4Addr.parse ip).isSome && !startsWith (· == '0') port &&
      (parseUnsigned 65535 port).any (0 < ·)
  | _ => false

def overlap (ar : String) (a ac : Nat) (br : String) (b bc : Nat) : Bool :=
  ar ≠ "" && ar == br && a < b + bc && b < a + ac

def sourceIdentity (source : AudioSource) : String :=
  if source.kind = .ndi then
    match source.output with
    | some output => s!"ndi:Some({output})"
    | none => "ndi:None"
  else if source.resource = "" then "alsa:" ++ source.alsaPcm.getD ""
  else s!"{source.resource}:{source.channelStart}:{source.channelCount}"

def sinkIdentity (sink : AudioSink) : String :=
  if sink.resource = "" then s!"alsa:{sink.alsaPcm}"
  else s!"{sink.resource}:{sink.channelStart}:{sink.channelCount}"

/-- Compact text of one flow, unset options omitted. -/
def flowSize (flow : TesseraFlow) : Nat :=
  let direction := match flow.direction with
    | .rx => "rx"
    | .tx => "tx"
  2 + len "\"id\":" + Json.stringSize flow.id + len ",\"direction\":" +
    Json.stringSize direction + len ",\"port\":" + len (toString flow.port) +
    (flow.peer.elim 0 fun peer => len ",\"peer\":" + Json.stringSize peer) +
    (if flow.anySource then len ",\"any_source\":true" else 0) +
    (flow.framesPerPacket.elim 0 fun frames =>
      len ",\"frames_per_packet\":" + len (toString frames))

def flowWriteSize (flows : List TesseraFlow) : Nat :=
  flows.foldl (fun n flow => n + flowSize flow) 2 + (flows.length - 1)

namespace Validator

def check (condition : Bool) (path reason : String) : List FieldError :=
  if condition then [] else [⟨path, reason⟩]

def range (value min max : Nat) (path : String) : List FieldError :=
  check (min ≤ value && value ≤ max) path s!"must be {min}..={max}"

def gain (value : ℚ) (path : String) : List FieldError :=
  check (decide (-60 ≤ value) && decide (value ≤ 12)) path "must be finite and -60..=12 dB"

def outputId (id : OutputId) (path : String) : List FieldError := range id 1 8 path

def sourceRef (source : NdiSourceRef) (path : String) : List FieldError :=
  check (source.name ≠ "" && source.name ≠ "None") s!"{path}.name"
    "must name a source (use null to forget)" ++
  check (source.endpoint == "" || ndiEndpoint source.endpoint) s!"{path}.endpoint"
    "must be IPv4 with optional port 1..=65535"

def scheduleTime (time : String) : Bool :=
  match time.toList with
  | [a, b, ':', c, d] =>
    [a, b, c, d].all isAsciiDigit && decimal [a, b] < 24 && decimal [c, d] < 60
  | _ => false

def feedUrl (allowInsecure : Bool) (url : String) : Bool :=
  let body := (stripPrefix "https://" url).or
    (if allowInsecure then stripPrefix "http://" url else none)
  body.any fun s =>
    s ≠ "" && !startsWith (· == '/') s && !((split '/' s).head?.any (any (· == '@'))) &&
      !any (fun c => isWhitespace c || isControl c) s

def device (device : Device) : List FieldError :=
  check (device.webAllowedHosts.length ≤ 16) "device.web_allowed_hosts"
    "at most 16 additional host names" ++
  (device.webAllowedHosts.zipIdx.flatMap fun (host, i) =>
    check (validWebHostname host && host == toAsciiLowercase host)
      s!"device.web_allowed_hosts[{i}]"
      "must be a lower-case DNS hostname without wildcards, ports or IP literals") ++
  check (trim device.ndiAlias == device.ndiAlias) "device.ndi_alias" "must be trimmed" ++
  check (device.hostname == "" || (len device.hostname ≤ 63 && validDeviceLabel device.hostname))
    "device.hostname" "must be a hostname label of at most 63 bytes" ++
  check (device.ntpServer == "" || validDeviceNtp device.ntpServer) "device.ntp_server"
    "invalid NTP host" ++
  check (scheduleTime device.rebootSchedule.time) "device.reboot_schedule.time"
    "must be HH:MM (24 hour)" ++
  check (!device.rebootSchedule.enabled || !device.rebootSchedule.days.isEmpty)
    "device.reboot_schedule.days" "enabled schedule requires a weekday" ++
  check (decide device.rebootSchedule.days.Nodup) "device.reboot_schedule.days"
    "weekdays must be distinct" ++
  range device.analogAudioInGain 0 100 "device.analog_audio_in_gain" ++
  range device.analogAudioOutGain 0 100 "device.analog_audio_out_gain" ++
  (device.pluginFeeds.zipIdx.flatMap fun (url, i) =>
    check (feedUrl device.allowInsecureFeeds url) s!"device.plugin_feeds[{i}]"
      "feed URL requires HTTPS without credentials (HTTP needs explicit opt-in)")

def output (id : OutputId) (output : Output) : List FieldError :=
  let path := s!"outputs.{id}"
  outputId id path ++
  check (trim output.alias == output.alias) s!"{path}.alias" "must be trimmed" ++
  check (output.sourceSelection == "NDI") s!"{path}.source_selection" "only NDI is supported" ++
  (output.source.elim [] fun source => sourceRef source s!"{path}.source") ++
  check (output.video.rotation == 0 || output.video.rotation == 180) s!"{path}.video.rotation"
    "must be 0 or 180; planner must also check plane support" ++
  match output.video.resolution with
  | .auto => []
  | .mode width height refreshHz =>
    check (0 < width) s!"{path}.video.resolution.mode.width" "must be positive" ++
    check (0 < height) s!"{path}.video.resolution.mode.height" "must be positive" ++
    check (decide (0 ≤ refreshHz)) s!"{path}.video.resolution.mode.refresh_hz"
      "must be finite and nonnegative"

def ndi (ndi : Ndi) : List FieldError :=
  check (!ndi.groups.isEmpty) "ndi.groups" "at least one group" ++
  (ndi.groups.zipIdx.flatMap fun (group, i) =>
    check (trim group ≠ "" && !any (· == ',') group) s!"ndi.groups[{i}]"
      "must be a nonempty individual group") ++
  (ndi.offSubnetSources.zipIdx.flatMap fun (ip, i) =>
    check (Ipv4Addr.parse ip).isSome s!"ndi.off_subnet_sources[{i}]" "must be IPv4") ++
  (ndi.discoveryServers.zipIdx.flatMap fun (host, i) =>
    check (validHost host) s!"ndi.discovery_servers[{i}]" "must be an IP address or hostname")

def nodeGeometry (channels start count : Nat) (endpoint resource path : String) :
    List FieldError :=
  range channels 1 16 s!"{path}.channels" ++
  range start 1 65535 s!"{path}.channel_start" ++
  check (count == channels) s!"{path}.channel_count" "must equal channels" ++
  check (start + channels ≤ 65536) s!"{path}.channel_start" "channel range overflows" ++
  check (chars endpoint ≤ 160) s!"{path}.endpoint" "at most 160 characters" ++
  check (chars resource ≤ 160) s!"{path}.resource" "at most 160 characters"

def source (source : AudioSource) (path : String) : List FieldError :=
  nodeGeometry source.channels source.channelStart source.channelCount source.endpoint
    source.resource path ++
  (match source.kind with
  | .ndi =>
    check source.alsaPcm.isNone s!"{path}.alsa_pcm" "NDI has no ALSA PCM" ++
    match source.output with
    | some output => outputId output s!"{path}.output"
    | none => check false s!"{path}.output" "NDI requires an output"
  | .alsa =>
    check source.output.isNone s!"{path}.output" "ALSA has no NDI output" ++
    check (source.alsaPcm.any validPcm) s!"{path}.alsa_pcm" "invalid ALSA PCM") ++
  gain source.gainDb s!"{path}.gain_db" ++
  range source.delayMs 0 5000 s!"{path}.delay_ms"

def sink (sink : AudioSink) (path : String) : List FieldError :=
  nodeGeometry sink.channels sink.channelStart sink.channelCount sink.endpoint sink.resource
    path ++
  check (validPcm sink.alsaPcm) s!"{path}.alsa_pcm" "invalid ALSA PCM" ++
  range sink.delayMs 0 5000 s!"{path}.delay_ms" ++
  (sink.mix.entries.flatMap fun (id, value) =>
    check (identifier id) s!"{path}.mix.{id}" "invalid source ID" ++
    gain value s!"{path}.mix.{id}")

/-- Version 2 allows one physical writer per PCM and resource. -/
def sinkPairs : List (String × AudioSink) → List FieldError
  | [] => []
  | (id, a) :: rest =>
    (rest.flatMap fun (other, b) =>
      let same := a.alsaPcm == b.alsaPcm && (a.alsaPcm ≠ "auto" || a.resource == b.resource)
      check (!same && !overlap a.resource a.channelStart a.channelCount b.resource b.channelStart
        b.channelCount) s!"audio.sinks.{id}" s!"overlapping physical writer with {other}") ++
    sinkPairs rest

/-- What the route loop carries: contributions seen and the sources each output selects. -/
structure RouteState where
  contributions : List (String × String) := []
  inputs : SortedMap OutputId (SortedMap String Unit) := .empty

def route (audio : Audio) (st : RouteState) (id : String) (route : AudioRoute) :
    List FieldError × RouteState :=
  let path := s!"audio.routes.{id}"
  let errors :=
    check (identifier id) path "invalid route ID" ++
    outputId route.output s!"{path}.output" ++
    check (audio.outputs.contains route.output) s!"{path}.output" "missing output" ++
    check (audio.sources.contains route.source) s!"{path}.source" "missing source" ++
    check (audio.sinks.contains route.sink) s!"{path}.sink" "missing sink" ++
    (if audio.engine = .v2 then gain route.gainDb s!"{path}.gain_db"
    else check (decide (-120 ≤ route.gainDb) && decide (route.gainDb ≤ 24)) s!"{path}.gain_db"
      "v1 effective gain must be -120..=24") ++
    range route.delayMs 0 (if audio.engine = .v1 then 10000 else 5000) s!"{path}.delay_ms"
  match audio.sources.get? route.source, audio.sinks.get? route.sink,
      audio.outputs.get? route.output with
  | some source, some sink, some output =>
    if route.enabled && output.enabled && source.enabled && sink.enabled then
      let key := (sourceIdentity source, sinkIdentity sink)
      let selected := (st.inputs.get? route.output).getD .empty
      (errors ++ check (!st.contributions.contains key) path
          "duplicate canonical source/sink contribution",
        { contributions := key :: st.contributions
          inputs := st.inputs.insert route.output (selected.insert route.source ()) })
    else (errors, st)
  | _, _, _ => (errors, st)

def routes (audio : Audio) : RouteState → List (String × AudioRoute) → List FieldError × RouteState
  | st, [] => ([], st)
  | st, (id, r) :: rest =>
    let (errors, st) := route audio st id r
    let (more, st) := routes audio st rest
    (errors ++ more, st)

def selectedPairs (path : String) : List AudioSource → List FieldError
  | [] => []
  | a :: rest =>
    (rest.flatMap fun b =>
      check (sourceIdentity a ≠ sourceIdentity b && !overlap a.resource a.channelStart
        a.channelCount b.resource b.channelStart b.channelCount) path
        "overlapping source selections") ++
    selectedPairs path rest

def outputAudio (engine : AudioEngine) (id : OutputId) (output : OutputAudio) :
    List FieldError :=
  let path := s!"audio.outputs.{id}"
  outputId id path ++
  check (output.inputs.length ≤ 32) s!"{path}.inputs" "at most 32 inputs" ++
  check (output.destinations.length ≤ 32) s!"{path}.destinations" "at most 32 destinations" ++
  (output.inputs.zipIdx.flatMap fun (input, i) =>
    let p := s!"{path}.inputs[{i}]"
    check (input.endpoint ≠ "" && chars input.endpoint ≤ 160) s!"{p}.endpoint"
      "endpoint must be 1..=160 characters" ++
    gain input.gainDb s!"{p}.gain_db" ++
    range input.delayMs 0 5000 s!"{p}.delay_ms") ++
  (output.destinations.zipIdx.flatMap fun (dest, i) =>
    let p := s!"{path}.destinations[{i}]"
    check (dest.endpoint ≠ "" && chars dest.endpoint ≤ 160) s!"{p}.endpoint"
      "endpoint must be 1..=160 characters" ++
    range dest.delayMs 0 5000 s!"{p}.delay_ms" ++
    if engine = .v2 ∧ output.enabled then
      output.inputs.flatMap fun input =>
        check (input.delayMs + dest.delayMs ≤ 5000) s!"{p}.delay_ms"
          "combined input/destination delay exceeds 5000 ms"
    else []) ++
  ([("inputs", output.inputs.map (·.endpoint)),
      ("destinations", output.destinations.map (·.endpoint))].flatMap fun (kind, ids) =>
    if output.enabled then
      check (decide ids.Nodup) s!"{path}.{kind}" "duplicate endpoint choice"
    else []) ++
  (output.definitions.sources.entries.flatMap fun (node, s) =>
    check (identifier node) s!"{path}.definitions.sources.{node}" "invalid source ID" ++
    source s s!"{path}.definitions.sources.{node}") ++
  (output.definitions.sinks.entries.flatMap fun (node, s) =>
    check (identifier node) s!"{path}.definitions.sinks.{node}" "invalid sink ID" ++
    sink s s!"{path}.definitions.sinks.{node}")

def audio (audio : Audio) : List FieldError :=
  let empty := audio.sources.isEmpty && audio.sinks.isEmpty && audio.routes.isEmpty
  let (routeErrors, st) := routes audio {} audio.routes.entries
  range audio.settings.rate 48000 48000 "audio.settings.rate" ++
  check ([128, 256, 512, 1024, 2048].contains audio.settings.periodFrames)
    "audio.settings.period_frames" "must be 128, 256, 512, 1024 or 2048" ++
  range audio.settings.memoryBudgetMib 1 512 "audio.settings.memory_budget_mib" ++
  range audio.videoDelayMs 0 5000 "audio.video_delay_ms" ++
  check (audio.sources.size ≤ 32) "audio.sources" "at most 32 sources" ++
  check (audio.sinks.size ≤ 32) "audio.sinks" "at most 32 sinks" ++
  check (audio.outputs.size ≤ 8) "audio.outputs" "at most 8 outputs" ++
  check (if empty then audio.settings.master == ""
      else (audio.sinks.get? audio.settings.master).any (·.enabled))
    "audio.settings.master" "must name an enabled sink, or be empty for an empty graph" ++
  (audio.sources.entries.flatMap fun (id, s) =>
    check (identifier id) s!"audio.sources.{id}" "invalid source ID" ++
    source s s!"audio.sources.{id}") ++
  (audio.sinks.entries.flatMap fun (id, s) =>
    check (identifier id) s!"audio.sinks.{id}" "invalid sink ID" ++
    sink s s!"audio.sinks.{id}") ++
  (if audio.engine = .v2 then sinkPairs audio.sinks.entries else []) ++
  routeErrors ++
  (st.inputs.entries.flatMap fun (output, selected) =>
    selectedPairs s!"audio.outputs.{output}.inputs" (selected.keys.filterMap audio.sources.get?)) ++
  (audio.outputs.entries.flatMap fun (id, output) => outputAudio audio.engine id output)

/-- What the row loop carries: ids, VLAN tags and static subnets seen so far. -/
structure NetworkSeen where
  ids : List String := []
  tags : List (Option Nat) := []
  subnets : List (BitVec 32 × BitVec 32) := []

def dhcpNormalized (row : NetworkProfile) : Bool :=
  row.address == "" && row.prefixLen == 0 && row.gateway == "" && row.dns.isEmpty

/-- The static part of one row, once its address has been read. -/
def networkAddress (subnets : List (BitVec 32 × BitVec 32)) (path : String) (row : NetworkProfile)
    (ip : Ipv4Addr) : List FieldError × List (BitVec 32 × BitVec 32) :=
  let usable :=
    check (!ip.isLoopback && !ip.isLinkLocal && !ip.isMulticast && !ip.isUnspecified)
      s!"{path}.address" "must be usable unicast IPv4"
  if 8 ≤ row.prefixLen ∧ row.prefixLen ≤ 30 then
    let mask := prefixMask row.prefixLen
    let first := ip.toU32 &&& mask
    let last := first ||| ~~~ mask
    (usable ++
      check (ip.toU32 ≠ first && ip.toU32 ≠ last) s!"{path}.address"
        "network/broadcast addresses are not usable" ++
      ((Ipv4Addr.parse row.gateway).elim [] fun gw =>
        check (gw.toU32 &&& mask == first) s!"{path}.gateway"
          "gateway must be in the same subnet") ++
      check (!subnets.any fun (a, b) => first ≤ b && a ≤ last) s!"{path}.address"
        "static subnets overlap",
      subnets ++ [(first, last)])
  else (usable, subnets)

def dnsSearchErrors (path : String) (domains : List String) : List FieldError :=
  domains.zipIdx.flatMap fun (domain, j) =>
    check (validDnsSearchDomain domain) s!"{path}.dns_search[{j}]" "must be a host name"

def dnsErrors (path : String) (dns : List String) : List FieldError :=
  dns.zipIdx.flatMap fun (ip, j) =>
    check (Ipv4Addr.parse ip).isSome s!"{path}.dns[{j}]" "must be IPv4"

/-- Checks every row gets, whatever its mode. -/
def networkRowCommon (network : NetworkProfiles) (seen : NetworkSeen) (path : String)
    (row : NetworkProfile) : List FieldError :=
  check (identifier row.id && !seen.ids.contains row.id) s!"{path}.id"
    "must be a unique identifier" ++
  check (trim row.name ≠ "" && chars row.name ≤ 64 && !any (fun c => c.toNat < 32) row.name)
    s!"{path}.name" "nonempty name of at most 64 characters without controls" ++
  check (!seen.tags.contains row.vlanId) s!"{path}.vlan_id" "duplicate VLAN/untagged network" ++
  (row.vlanId.elim [] fun tag =>
    range tag 1 4094 s!"{path}.vlan_id" ++
    check (len s!"{network.interface}.{tag}" ≤ 15) s!"{path}.vlan_id"
      "derived interface exceeds 15 bytes") ++
  check (row.id == network.roles.management ||
      (row.gateway == "" && row.dns.isEmpty && row.dnsSearch.isEmpty)) path
    "gateway, DNS and search domains belong only to management" ++
  check (row.dnsSearch.length ≤ maxDnsSearch) s!"{path}.dns_search"
    "at most 6 DNS search domains" ++
  dnsSearchErrors path row.dnsSearch ++
  check (row.dns.length ≤ 3) s!"{path}.dns" "at most 3 DNS servers" ++
  dnsErrors path row.dns

def networkRow (network : NetworkProfiles) (seen : NetworkSeen) (i : Nat) (row : NetworkProfile) :
    List FieldError × NetworkSeen :=
  let path := s!"network.networks[{i}]"
  let errors := networkRowCommon network seen path row
  let ids := if identifier row.id then row.id :: seen.ids else seen.ids
  let tags := row.vlanId :: seen.tags
  match row.mode with
  | .dhcp =>
    (errors ++ check (dhcpNormalized row) path
        "DHCP settings must be normalized (empty static fields)",
      ⟨ids, tags, seen.subnets⟩)
  | .static =>
    let fields :=
      range row.prefixLen 8 30 s!"{path}.prefix" ++
      check (Ipv4Addr.parse row.address).isSome s!"{path}.address" "must be IPv4" ++
      check (row.gateway == "" || (Ipv4Addr.parse row.gateway).isSome) s!"{path}.gateway"
        "must be IPv4"
    match Ipv4Addr.parse row.address with
    | none => (errors ++ fields, ⟨ids, tags, seen.subnets⟩)
    | some ip =>
      let (more, subnets) := networkAddress seen.subnets path row ip
      (errors ++ fields ++ more, ⟨ids, tags, subnets⟩)

def networkRows (network : NetworkProfiles) : NetworkSeen → Nat → List NetworkProfile →
    List FieldError × NetworkSeen
  | seen, _, [] => ([], seen)
  | seen, i, row :: rest =>
    let (errors, seen) := networkRow network seen i row
    let (more, seen) := networkRows network seen (i + 1) rest
    (errors ++ more, seen)

def network (network : NetworkProfiles) : List FieldError :=
  if network.backend.isNone then
    check (network.interface == "" && network.networks.isEmpty && network.roles == {}) "network"
      "unadopted network must have empty interface, networks and roles"
  else
    let (rows, seen) := networkRows network {} 0 network.networks
    check (1 ≤ len network.interface && len network.interface ≤ 15 &&
        all (fun c => isAsciiAlphanumeric c || c == '_' || c == '-') network.interface)
      "network.interface" "invalid physical interface" ++
    check (1 ≤ network.networks.length && network.networks.length ≤ 9) "network.networks"
      "configure 1..=9 networks" ++
    rows ++
    check ((seen.tags.dedup.filter Option.isSome).length ≤ 8) "network.networks"
      "at most 8 tagged VLANs" ++
    ([("management", network.roles.management), ("ndi", network.roles.ndi),
        ("audio", network.roles.audio)].flatMap fun (role, id) =>
      check (seen.ids.contains id) s!"network.roles.{role}" "role must name an existing network")

structure FlowState where
  ids : List String := []
  targets : List (Direction × Option String × Nat × Bool) := []
  rx : Nat := 0

def flow (st : FlowState) (i : Nat) (flow : TesseraFlow) : List FieldError × FlowState :=
  let path := s!"tessera.flows[{i}]"
  let shape := 1 ≤ len flow.id && len flow.id ≤ 32 &&
    all (fun c => isAsciiAlphanumeric c || c == '_' || c == '-') flow.id
  let target := (flow.direction, flow.peer, flow.port, flow.anySource)
  let errors :=
    check (shape && !st.ids.contains flow.id) s!"{path}.id"
      "unique ID of 1..=32 ASCII letters/digits/_/- required" ++
    range flow.port 1024 65535 s!"{path}.port" ++
    check (!st.targets.contains target) path "duplicate peer/port/direction flow" ++
    check (!flow.anySource || (flow.direction == .rx && flow.peer.getD "" == ""))
      s!"{path}.any_source" "RX only and excludes peer" ++
    (if flow.anySource then []
    else check ((flow.peer.bind Ipv4Addr.parse).any fun ip =>
        ip.o0 ≠ 0 && ip.o0 ≠ 127 && ip.o0 < 224) s!"{path}.peer"
      "must be canonical unicast IPv4") ++
    (flow.framesPerPacket.elim [] fun frames =>
      check (flow.direction == .tx) s!"{path}.frames_per_packet" "TX only" ++
      range frames 1 1024 s!"{path}.frames_per_packet")
  (errors,
    { ids := if shape then flow.id :: st.ids else st.ids
      targets := target :: st.targets
      rx := if flow.direction = .rx then st.rx + 1 else st.rx })

def flows : FlowState → Nat → List TesseraFlow → List FieldError × FlowState
  | st, _, [] => ([], st)
  | st, i, f :: rest =>
    let (errors, st) := flow st i f
    let (more, st) := flows st (i + 1) rest
    (errors ++ more, st)

def tessera (tessera : Tessera) (audio : Audio) : List FieldError :=
  let device := tessera.device
  let active :=
    (audio.sources.values.any fun s => s.enabled && (stripPrefix "tessera:" s.resource).isSome) ||
    (audio.sinks.values.any fun s => s.enabled && (stripPrefix "tessera:" s.resource).isSome)
  let (flowErrors, st) := flows {} 0 tessera.flows
  check (device.name ≠ "" && len device.name ≤ 31 && !controls device.name) "tessera.device.name"
    "must be 1..=31 UTF-8 bytes without controls" ++
  range device.sampleRate 8000 384000 "tessera.device.sample_rate" ++
  check ([16, 24, 32].contains device.encoding) "tessera.device.encoding"
    "must be 16, 24 or 32" ++
  range device.latencyUs 1 1000000 "tessera.device.latency_us" ++
  range device.rxChannels 1 16 "tessera.device.rx_channels" ++
  range device.txChannels 1 16 "tessera.device.tx_channels" ++
  ([("rx", device.rxChannels, device.rxLabels), ("tx", device.txChannels, device.txLabels)].flatMap
    fun (direction, count, labels) =>
      labels.entries.flatMap fun (channel, label) =>
        let path := s!"tessera.device.{direction}_labels.{channel}"
        range channel 1 count path ++
        check (len label ≤ 31 && !controls label) path
          "label must be at most 31 UTF-8 bytes without controls") ++
  check (!active || device.sampleRate == 48000) "tessera.device.sample_rate"
    "active NDIMon audio endpoints require 48000 Hz" ++
  flowErrors ++
  check (st.rx ≤ 1) "tessera.flows" "only one RX flow; it carries all channels" ++
  check (flowWriteSize tessera.flows ≤ 60000) "tessera.flows" "flow set exceeds 60 KB"

def display (display : Display) : List FieldError :=
  let splash := display.splash
  ([("logo_x_pct", splash.logoXPct), ("logo_y_pct", splash.logoYPct),
      ("logo_w_pct", splash.logoWPct), ("text_height_pct", splash.textHeightPct)].flatMap
    fun (name, value) =>
      check (decide (0 ≤ value) && decide (value ≤ 100)) s!"display.splash.{name}"
        "must be finite and 0..=100") ++
  (splash.logo.elim [] fun logo =>
    check (len logo.sha256 == 64 && all (fun c => isAsciiDigit c || ('a' ≤ c && c ≤ 'f'))
      logo.sha256) "display.splash.logo.sha256" "must be lowercase SHA-256" ++
    check (logo.mediaType == "image/png" || logo.mediaType == "image/jpeg")
      "display.splash.logo.media_type" "logo must be PNG or JPEG (Splash.js)") ++
  check (utf16 display.osd.text ≤ 128) "display.osd.text" "at most 128 UTF-16 units"

def preset (name : String) (preset : Preset) : List FieldError :=
  let path := s!"presets.{name}"
  check (name ≠ "" && trim name == name && utf16 name ≤ 64) path
    "name must be trimmed, nonempty and at most 64 UTF-16 units" ++
  sourceRef preset.source s!"{path}.source"

/-- Bytes of a plugin subtree as written; an absent one is written as null. -/
def pluginStateSize (floatLen : ℚ → Nat) (state : Option (SortedMap String Json.Value)) : Nat :=
  match state with
  | none => Json.size floatLen .null
  | some m => Json.size floatLen (.obj (m.entries.map fun (k, v) => (k, v.val)))

def plugin (floatLen : ℚ → Nat) (name : String) (plugin : PluginState) : List FieldError :=
  let path := s!"plugins.{name}"
  check (identifier name && 2 ≤ len name) path "invalid plugin name" ++
  check (!plugin.enabled || plugin.installed) s!"{path}.enabled"
    "enabled plugin must be installed" ++
  check (pluginStateSize floatLen plugin.state ≤ 1024 * 1024) s!"{path}.state"
    "plugin data exceeds 1 MiB" ++
  check (plugin.version == "" || validVersion plugin.version) s!"{path}.version"
    "invalid plugin version"

end Validator

/-- All errors of a document, in the order the checks run; `floatLen` measures the text of a
float inside plugin data. -/
def validationErrors (floatLen : ℚ → Nat) (state : DesiredState) : List FieldError :=
  Validator.check (state.schemaVersion == schemaVersion) "schema_version"
    "unsupported schema version" ++
  Validator.device state.device ++
  Validator.check (state.outputs.size ≤ 8) "outputs" "at most 8 outputs" ++
  (state.outputs.entries.flatMap fun (id, output) => Validator.output id output) ++
  Validator.ndi state.ndi ++
  Validator.audio state.audio ++
  (state.audio.outputs.keys.flatMap fun id =>
    Validator.check (state.outputs.contains id) s!"audio.outputs.{id}"
      "output is not configured") ++
  Validator.network state.network ++
  (state.tessera.elim [] fun tessera => Validator.tessera tessera state.audio) ++
  Validator.display state.display ++
  Validator.check (state.presets.size ≤ 32) "presets" "at most 32 presets" ++
  (state.presets.entries.flatMap fun (name, preset) => Validator.preset name preset) ++
  (state.plugins.entries.flatMap fun (name, plugin) => Validator.plugin floatLen name plugin)

def validate (floatLen : ℚ → Nat) (state : DesiredState) : Except (List FieldError) Unit :=
  match validationErrors floatLen state with
  | [] => .ok ()
  | errors => .error errors

end NdimonR.Types
