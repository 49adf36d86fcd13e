import NdimonR.Decoder.AudioSettings

/-! The domains the decoder follows. Each is a complete snapshot in the form of the desired state. -/

namespace NdimonR.Decoder

open Json Text

variable (narrow : ℚ → ℚ)

structure TransportConfig where
  rxpm : String := "RUDP"
  deriving DecidableEq

structure FinderConfig where
  discoveryServerMode : String := "NDIDisServDis"
  discoveryServerIp : String := ""
  receiverAdvertising : Bool := true
  remoteControl : Bool := true
  deriving DecidableEq

structure DeviceConfig where
  mode : String := "decode"
  videoOutput : String := "hdmi"
  deviceName : String := "NDI Decoder"
  hostName : String := ""
  deviceIp : String := ""
  ndiRecvName : String := ""
  audioEngine : String := "v1"
  decodeMode : String := "auto"
  deriving DecidableEq

structure NDIGroupConfig where
  groups : String := "public"
  deriving DecidableEq

structure OutputConfig where
  preferredMode : String := ""
  scaleMode : String := ""
  sourceName : String := ""
  sourceIp : String := ""
  outputAlias : String := ""
  rotation : Nat := 0
  refreshHz : ℚ := 0
  screensaverMode : String := "BlackSS"
  sourceSelection : String := "NDI"
  deriving DecidableEq

structure SplashConfig where
  bgIdle : String := "#0D1B2A"
  bgLive : String := "#0D2B1A"
  accentIdle : String := "#4488CC"
  accentLive : String := "#22FF88"
  logoPath : String := ""
  logoXPct : ℚ := 50
  logoYPct : ℚ := 50
  logoWPct : ℚ := 50
  textIdle : String := "No Signal"
  textLive : String := "Signal Available"
  textHeightPct : ℚ := 4
  backdrop : String := "gradient"
  showSignalText : Bool := true
  showDeviceName : Bool := true
  showDeviceUrl : Bool := true
  showSourcesAvailable : Bool := true
  deriving DecidableEq

structure OsdConfig where
  enabled : Bool := false
  text : String := ""
  deriving DecidableEq

structure NdiConfig where
  transport : TransportConfig := {}
  finder : FinderConfig := {}
  group : NDIGroupConfig := {}
  offSubnetIps : String := ""
  tallyMode : String := ""
  colorSpace : String := ""
  deriving DecidableEq

structure DisplayConfig where
  splash : SplashConfig := {}
  osd : OsdConfig := {}
  deriving DecidableEq

structure AudioConfig where
  engine : String
  settings : AudioSettings
  primaryEnabled : Bool := true
  deriving DecidableEq

structure NetworkBinding where
  managed : Bool := false
  ndi : String := ""
  management : String := ""
  deriving DecidableEq

def parseDevice (j : Json) : Result DeviceConfig := do
  let mode ← choice j "mode" ["decode", "encode"]
  let decodeMode ← choice j "decode_mode" ["auto", "hardware", "software"]
  let ndiRecvName ← text j "ndi_alias"
  let hostName ← text j "hostname"
  let deviceName ← text (← atKey j "about") "device_name"
  .ok { mode, decodeMode, ndiRecvName, hostName, deviceName }

/-- The port of an endpoint: one to five digits, 1 to 65535. -/
def endpointPort (port : String) : Bool :=
  decide (1 ≤ len port ∧ len port ≤ 5) && all isAsciiDigit port &&
    decide (1 ≤ decimal port.toList ∧ decimal port.toList ≤ 65535)

def checkEndpoint (endpoint : String) : Result Unit :=
  if endpoint = "" then .ok ()
  else
    match splitOnce ":" endpoint with
    | none => require (ipv4 endpoint) "invalid source IPv4 endpoint"
    | some (address, port) => do
      require (ipv4 address) "invalid source IPv4 endpoint"
      require (endpointPort port) "invalid source port"

/-- The preferred mode and its refresh rate. -/
def parseResolution (resolution : Json) : Result (String × ℚ) :=
  if resolution = .str "auto" then .ok ("", 0)
  else do
    require (isObject resolution && size resolution == 1) "invalid resolution"
    let mode ← atKey resolution "mode"
    let width ← integer (← atKey mode "width") 1 16384
    let height ← integer (← atKey mode "height") 1 16384
    let refreshHz ← getDouble (← atKey mode "refresh_hz")
    require (decide (0 ≤ refreshHz)) "invalid refresh_hz"
    .ok (toString width ++ "x" ++ toString height, refreshHz)

def parseOutputSource (source : Json) : Result (String × String) :=
  if source = .null then .ok ("", "")
  else do
    let name ← text source "name"
    let endpoint ← text source "endpoint"
    require (name ≠ "" && name ≠ "None") "invalid source name"
    checkEndpoint endpoint
    .ok (name, endpoint)

def parseOutput (entry : String × Json) : Result (Nat × OutputConfig) := do
  let (key, v) := entry
  match key.toList with
  | [c] =>
    require (decide ('1' ≤ c ∧ c ≤ '8')) "invalid output number"
    let outputAlias ← text v "alias"
    let sourceSelection ← text v "source_selection"
    require (sourceSelection == "NDI") "only NDI source selection is supported"
    let saver ← choice v "screensaver" ["splash", "black", "capture"]
    let video ← atKey v "video"
    let scaleMode ← choice video "scale_mode" ["letterbox", "stretch", "crop"]
    let rotation ← integer (← atKey video "rotation") 0 270
    require (rotation == 0 || rotation == 180) "rotation must be 0 or 180"
    let (preferredMode, refreshHz) ← parseResolution (← atKey video "resolution")
    let (sourceName, sourceIp) ← parseOutputSource (← atKey v "source")
    .ok (c.toNat - 48,
      { preferredMode, scaleMode, sourceName, sourceIp, outputAlias, rotation := rotation.toNat,
        refreshHz, sourceSelection,
        screensaverMode := if saver = "splash" then "SplashSS" else if saver = "capture" then
          "CaptureSS" else "BlackSS" })
  | _ => .error "invalid output number"

def parseOutputs (j : Json) : Result (SortedMap Nat OutputConfig) := do
  require (isObject j && decide (size j ≤ 8)) "expected at most eight outputs"
  let outputs ← (members j).mapM parseOutput
  .ok (.ofList outputs)

def checkServer (server : Json) : Result Unit := do
  require (host (← getString server)) "invalid discovery server IP or hostname"

def parseNdi (j : Json) : Result NdiConfig := do
  let receive ← choice j "receive" ["rudp", "multicast", "multi_tcp", "udp", "tcp"]
  let servers ← atKey j "discovery_servers"
  let discoveryServerIp ← list servers false
  ((asArray servers).getD []).forM checkServer
  let receiverAdvertising ← valueOr getBool j "receiver_advertising" true
  let remoteControl ← valueOr getBool j "remote_control" true
  let groups ← list (← atKey j "groups") false
  require (groups ≠ "") "at least one NDI group is required"
  let offSubnetIps ← list (← atKey j "off_subnet_sources") true
  let tally ← choice j "tally" ["on", "off", "video"]
  let color ← choice j "color_space" ["yuv", "rgb"]
  .ok {
    transport.rxpm := if receive = "rudp" then "RUDP" else if receive = "multicast" then
      "Multicast" else if receive = "multi_tcp" then "M-TCP" else if receive = "udp" then "UDP"
      else "TCP"
    finder := {
      discoveryServerMode := if discoveryServerIp = "" then "NDIDisServDis" else "NDIDisServEn"
      discoveryServerIp, receiverAdvertising, remoteControl }
    group.groups := groups
    offSubnetIps
    tallyMode := if tally = "on" then "TallyOn" else if tally = "video" then "VideoMode" else
      "TallyOff"
    colorSpace := if color = "yuv" then "YUV" else "RGB" }

def erase (k : String) (j : Json) : Json :=
  match j with
  | .obj entries => .obj (entries.filter (·.1 ≠ k))
  | j => j

def insert (k : String) (x j : Json) : Json :=
  match j with
  | .obj entries => .obj (SortedMap.insertEntry k x entries)
  | j => j

/-- A source as the file has it: `type` for `kind`, and no PCM where it is null. -/
def legacySource (entry : String × Json) : Result (String × Json) := do
  let (id, source) := entry
  let kind ← atKey source "kind"
  let source := erase "kind" (insert "type" kind source)
  let pcm ← atKey source "alsa_pcm"
  .ok (id, if pcm = .null then erase "alsa_pcm" source else source)

/-- Writing a member turns null into an object. -/
def legacySink (entry : String × Json) : Result (String × Json) :=
  match entry.2 with
  | .null => .ok (entry.1, .obj [("type", .str "alsa")])
  | .obj _ => .ok (entry.1, insert "type" (.str "alsa") entry.2)
  | _ => .error ("[json.exception.type_error.305] cannot use operator[] with a string argument with "
      ++ typeName entry.2)

/-- Whether output 1 carries audio. -/
def parsePrimary (outputs : Json) : Result Bool :=
  match get "1" outputs with
  | none => .ok true
  | some primary => do getBool (← atKey primary "enabled")

/-- The desired graph, with kinds and nullable PCMs, becomes the file's. -/
def parseAudio (j : Json) (revision : Nat) : Result AudioConfig := do
  let engine ← choice j "engine" ["v1", "v2"]
  let settings ← atKey j "settings"
  let sources ← atKey j "sources"
  let sinks ← atKey j "sinks"
  let outputs ← atKey j "outputs"
  let routes ← atKey j "routes"
  let videoDelay ← atKey j "video_delay_ms"
  require (isObject sources && isObject sinks && isObject outputs) "invalid audio graph"
  let sources ← (members sources).mapM legacySource
  let sinks ← (members sinks).mapM legacySink
  let parsed ← AudioSettings.parse narrow (.obj
    [("engine", settings), ("outputs", outputs), ("routes", routes), ("sinks", .obj sinks),
      ("sources", .obj sources), ("version", .int (if engine = "v2" then 2 else 1)),
      ("video_delay_ms", videoDelay)])
  let primaryEnabled ← parsePrimary outputs
  .ok { engine, settings := { parsed with revision }, primaryEnabled }

def percent (j : Json) (k : String) : Result ℚ := do
  let n ← getDouble (← atKey j k)
  require (decide (0 ≤ n ∧ n ≤ 100)) "splash percentage out of range"
  .ok (narrow n)

def logoPath (logo : Json) : Result String :=
  if logo = .null then .ok ""
  else do
    let hash ← text logo "sha256"
    let media ← choice logo "media_type" ["image/png", "image/jpeg"]
    require (decide (len hash = 64) &&
      all (fun c => isAsciiDigit c || decide ('a' ≤ c ∧ c ≤ 'f')) hash) "invalid logo hash"
    .ok ("/var/lib/ndimon/assets/" ++ hash ++ (if media = "image/png" then ".png" else ".jpg"))

def parseDisplay (j : Json) : Result DisplayConfig := do
  let s ← atKey j "splash"
  let bgIdle ← text s "bg_idle"
  let bgLive ← text s "bg_live"
  let accentIdle ← text s "accent_idle"
  let accentLive ← text s "accent_live"
  let logoXPct ← percent narrow s "logo_x_pct"
  let logoYPct ← percent narrow s "logo_y_pct"
  let logoWPct ← percent narrow s "logo_w_pct"
  let textHeightPct ← percent narrow s "text_height_pct"
  let textIdle ← text s "text_idle"
  let textLive ← text s "text_live"
  let backdrop ← choice s "backdrop" ["gradient", "flat"]
  let showSignalText ← getBool (← atKey s "show_signal_text")
  let showDeviceName ← getBool (← atKey s "show_device_name")
  let showDeviceUrl ← getBool (← atKey s "show_device_url")
  let showSourcesAvailable ← getBool (← atKey s "show_sources_available")
  let logoPath ← logoPath (← atKey s "logo")
  let osd ← atKey j "osd"
  let enabled ← getBool (← atKey osd "enabled")
  let osdText ← text osd "text"
  require (decide (utf16 osdText ≤ 128)) "OSD text exceeds 128 UTF-16 units"
  .ok {
    splash := { bgIdle, bgLive, accentIdle, accentLive, logoPath, logoXPct, logoYPct, logoWPct,
                textIdle, textLive, textHeightPct, backdrop, showSignalText, showDeviceName,
                showDeviceUrl, showSourcesAvailable }
    osd := { enabled, text := osdText } }

def interfaceName (s : String) : Bool :=
  decide (1 ≤ len s ∧ len s ≤ 15) &&
    all (fun c => isAsciiAlphanumeric c || c == '_' || c == '.' || c == '-') s

/-- The interface of the first network of the role's id. -/
def resolveRole (base role : String) : List Json → Result String
  | [] => .error "role references missing network"
  | n :: networks => do
    let id ← text n "id"
    if id ≠ role then resolveRole base role networks
    else do
      let vlan ← atKey n "vlan_id"
      let name ← if vlan = .null then .ok base else do
        let id ← integer vlan 1 4094
        .ok (base ++ "." ++ toString id)
      require (name ≠ "" && decide (len name ≤ 15)) "invalid selected interface"
      .ok name

def resolve (base role : String) (networks : List Json) : Result String :=
  if role = "" then .ok "" else resolveRole base role networks

/-- Nothing is bound where no interface, no backend, no network and no role is configured. -/
def unconfigured (j roles : Json) (base ndi management : String) (networks : List Json) :
    Result Bool := do
  if base ≠ "" then .ok false
  else do
    let backend ← atKey j "backend"
    if backend ≠ .null ∨ networks ≠ [] ∨ ndi ≠ "" ∨ management ≠ "" then .ok false
    else do
      let audio ← text roles "audio"
      .ok (audio == "")

def parseNetwork (j : Json) : Result NetworkBinding := do
  let base ← text j "interface"
  require (base == "" || interfaceName base) "invalid interface"
  match ← atKey j "networks" with
  | .arr networks =>
    let roles ← atKey j "roles"
    let ndi ← text roles "ndi"
    let management ← text roles "management"
    if ← unconfigured j roles base ndi management networks then .ok {}
    else do
      let ndi ← resolve base ndi networks
      let management ← resolve base management networks
      .ok { managed := true, ndi, management }
  | _ => .error "networks must be an array"

end NdimonR.Decoder
