import NdimonR.Types.Wire
import NdimonR.Library.Encoding

/-! The JSON value of a document, member for member. -/

namespace NdimonR.Types

open Json

def OperationMode.text : OperationMode → String
  | .decode => "decode"
  | .encode => "encode"

def DecodeMode.text : DecodeMode → String
  | .auto => "auto"
  | .hardware => "hardware"
  | .software => "software"

def WatchdogMode.text : WatchdogMode → String
  | .disabled => "disabled"
  | .passive => "passive"
  | .active => "active"

def Weekday.text : Weekday → String
  | .sun => "sun"
  | .mon => "mon"
  | .tue => "tue"
  | .wed => "wed"
  | .thu => "thu"
  | .fri => "fri"
  | .sat => "sat"

def ScaleMode.text : ScaleMode → String
  | .letterbox => "letterbox"
  | .stretch => "stretch"
  | .crop => "crop"

def ScreenSaver.text : ScreenSaver → String
  | .splash => "splash"
  | .black => "black"
  | .capture => "capture"

def TallyMode.text : TallyMode → String
  | .on => "on"
  | .off => "off"
  | .video => "video"

def ColorSpace.text : ColorSpace → String
  | .yuv => "yuv"
  | .rgb => "rgb"

def Transport.text : Transport → String
  | .rudp => "rudp"
  | .multicast => "multicast"
  | .multiTcp => "multi_tcp"
  | .udp => "udp"
  | .tcp => "tcp"

def AudioEngine.text : AudioEngine → String
  | .v1 => "v1"
  | .v2 => "v2"

def EndpointType.text : EndpointType → String
  | .ndi => "ndi"
  | .alsa => "alsa"

def Mapping.text : Mapping → String
  | .default => "default"

def NetworkBackend.text : NetworkBackend → String
  | .networkmanager => "networkmanager"
  | .networkd => "networkd"
  | .netplan => "netplan"
  | .ifupdown => "ifupdown"

def AddressMode.text : AddressMode → String
  | .dhcp => "dhcp"
  | .static => "static"

def ConfirmPolicy.text : ConfirmPolicy → String
  | .requireManagementAddress => "require_management_address"
  | .tokenOnly => "token_only"

def Direction.text : Direction → String
  | .rx => "rx"
  | .tx => "tx"

def ClockRole.text : ClockRole → String
  | .auto => "auto"
  | .follower => "follower"
  | .leader => "leader"

def Backdrop.text : Backdrop → String
  | .gradient => "gradient"
  | .flat => "flat"

/-- An enumeration is written as its name. -/
def named {α : Type} (text : α → String) (a : α) : Value := .str (text a)

theorem named_faithful {α : Type} {text : α → String} (h : Function.Injective text) :
    Faithful (named text) := ⟨fun _ _ he => h (Value.prune_str.mp he)⟩

/-- Numeric map keys are written in decimal. -/
def natKey (n : Nat) : String := toString n

def rebootScheduleJson : RebootSchedule → Value := record
  [("enabled", present .bool (·.enabled)),
    ("time", present .str (·.time)),
    ("days", present (ofItems (named Weekday.text)) (·.days))]

def aboutJson : About → Value := record
  [("group_name", present .str (·.groupName)),
    ("mac_address", present .str (·.macAddress)),
    ("device_name", present .str (·.deviceName)),
    ("host_name", present .str (·.hostName))]

def deviceJson : Device → Value := record
  [("hostname", present .str (·.hostname)),
    ("ndi_alias", present .str (·.ndiAlias)),
    ("mode", present (named OperationMode.text) (·.mode)),
    ("decode_mode", present (named DecodeMode.text) (·.decodeMode)),
    ("watchdog_mode", present (named WatchdogMode.text) (·.watchdogMode)),
    ("ntp_server", present .str (·.ntpServer)),
    ("reboot_schedule", present rebootScheduleJson (·.rebootSchedule)),
    ("about", present aboutJson (·.about)),
    ("analog_audio_in_gain", present .nat (·.analogAudioInGain)),
    ("analog_audio_out_gain", present .nat (·.analogAudioOutGain)),
    ("plugin_feeds", present (ofItems .str) (·.pluginFeeds)),
    ("allow_insecure_feeds", present .bool (·.allowInsecureFeeds)),
    ("web_allowed_hosts", present (ofItems .str) (·.webAllowedHosts))]

def ndiSourceRefJson : NdiSourceRef → Value := record
  [("name", present .str (·.name)),
    ("endpoint", present .str (·.endpoint))]

def modeJson : Nat × Nat × ℚ → Value := record
  [("width", present .nat (·.1)),
    ("height", present .nat (·.2.1)),
    ("refresh_hz", present .float (·.2.2))]

/-- A mode is tagged from outside. -/
def resolutionJson : Resolution → Value
  | .auto => .str "auto"
  | .mode width height refreshHz => tagged "mode" modeJson (width, height, refreshHz)

def outputVideoJson : OutputVideo → Value := record
  [("resolution", present resolutionJson (·.resolution)),
    ("scale_mode", present (named ScaleMode.text) (·.scaleMode)),
    ("rotation", present .nat (·.rotation))]

def outputJson : Output → Value := record
  [("alias", present .str (·.«alias»)),
    ("source", present (ofOption ndiSourceRefJson) (·.source)),
    ("video", present outputVideoJson (·.video)),
    ("screensaver", present (named ScreenSaver.text) (·.screensaver)),
    ("source_selection", present .str (·.sourceSelection))]

def ndiJson : Ndi → Value := record
  [("receive", present (named Transport.text) (·.receive)),
    ("discovery_servers", present (ofItems .str) (·.discoveryServers)),
    ("groups", present (ofItems .str) (·.groups)),
    ("off_subnet_sources", present (ofItems .str) (·.offSubnetSources)),
    ("tally", present (named TallyMode.text) (·.tally)),
    ("color_space", present (named ColorSpace.text) (·.colorSpace)),
    ("receiver_advertising", present .bool (·.receiverAdvertising)),
    ("remote_control", present .bool (·.remoteControl))]

def audioEngineSettingsJson : AudioEngineSettings → Value := record
  [("enabled", present .bool (·.enabled)),
    ("rate", present .nat (·.rate)),
    ("period_frames", present .nat (·.periodFrames)),
    ("master", present .str (·.master)),
    ("memory_budget_mib", present .nat (·.memoryBudgetMib))]

def audioSourceJson : AudioSource → Value := record
  [("kind", present (named EndpointType.text) (·.kind)),
    ("enabled", present .bool (·.enabled)),
    ("channels", present .nat (·.channels)),
    ("output", present (ofOption .nat) (·.output)),
    ("alsa_pcm", present (ofOption .str) (·.alsaPcm)),
    ("endpoint", present .str (·.endpoint)),
    ("resource", present .str (·.resource)),
    ("channel_start", present .nat (·.channelStart)),
    ("channel_count", present .nat (·.channelCount)),
    ("gain_db", present .float (·.gainDb)),
    ("delay_ms", present .nat (·.delayMs))]

def audioSinkJson : AudioSink → Value := record
  [("enabled", present .bool (·.enabled)),
    ("channels", present .nat (·.channels)),
    ("alsa_pcm", present .str (·.alsaPcm)),
    ("endpoint", present .str (·.endpoint)),
    ("resource", present .str (·.resource)),
    ("channel_start", present .nat (·.channelStart)),
    ("channel_count", present .nat (·.channelCount)),
    ("delay_ms", present .nat (·.delayMs)),
    ("mix", present (ofMap id .float) (·.mix))]

def audioRouteJson : AudioRoute → Value := record
  [("output", present .nat (·.output)),
    ("source", present .str (·.source)),
    ("sink", present .str (·.sink)),
    ("enabled", present .bool (·.enabled)),
    ("gain_db", present .float (·.gainDb)),
    ("delay_ms", present .nat (·.delayMs)),
    ("mapping", present (named Mapping.text) (·.mapping))]

def audioInputJson : AudioInput → Value := record
  [("endpoint", present .str (·.endpoint)),
    ("gain_db", present .float (·.gainDb)),
    ("delay_ms", present .nat (·.delayMs))]

def audioDestinationJson : AudioDestination → Value := record
  [("endpoint", present .str (·.endpoint)),
    ("delay_ms", present .nat (·.delayMs))]

def audioDefinitionsJson : AudioDefinitions → Value := record
  [("sources", present (ofMap id audioSourceJson) (·.sources)),
    ("sinks", present (ofMap id audioSinkJson) (·.sinks))]

def outputAudioJson : OutputAudio → Value := record
  [("enabled", present .bool (·.enabled)),
    ("primary", present .bool (·.primary)),
    ("inputs", present (ofItems audioInputJson) (·.inputs)),
    ("destinations", present (ofItems audioDestinationJson) (·.destinations)),
    ("legacy_matrix", present .bool (·.legacyMatrix)),
    ("definitions", present audioDefinitionsJson (·.definitions))]

def audioJson : Audio → Value := record
  [("engine", present (named AudioEngine.text) (·.engine)),
    ("settings", present audioEngineSettingsJson (·.settings)),
    ("sources", present (ofMap id audioSourceJson) (·.sources)),
    ("sinks", present (ofMap id audioSinkJson) (·.sinks)),
    ("outputs", present (ofMap natKey outputAudioJson) (·.outputs)),
    ("routes", present (ofMap id audioRouteJson) (·.routes)),
    ("video_delay_ms", present .nat (·.videoDelayMs))]

def networkRolesJson : NetworkRoles → Value := record
  [("management", present .str (·.management)),
    ("ndi", present .str (·.ndi)),
    ("audio", present .str (·.audio))]

/-- An empty search list is left out. -/
def networkProfileJson : NetworkProfile → Value := record
  [("id", present .str (·.id)),
    ("name", present .str (·.name)),
    ("vlan_id", present (ofOption .nat) (·.vlanId)),
    ("mode", present (named AddressMode.text) (·.mode)),
    ("address", present .str (·.address)),
    ("prefix", present .nat (·.prefixLen)),
    ("gateway", present .str (·.gateway)),
    ("dns", present (ofItems .str) (·.dns)),
    ("dns_search", nonempty .str (·.dnsSearch))]

def networkProfilesJson : NetworkProfiles → Value := record
  [("interface", present .str (·.interface)),
    ("backend", present (ofOption (named NetworkBackend.text)) (·.backend)),
    ("networks", present (ofItems networkProfileJson) (·.networks)),
    ("roles", present networkRolesJson (·.roles)),
    ("confirm_policy", present (named ConfirmPolicy.text) (·.confirmPolicy))]

def tesseraDeviceJson : TesseraDevice → Value := record
  [("name", present .str (·.name)),
    ("sample_rate", present .nat (·.sampleRate)),
    ("encoding", present .nat (·.encoding)),
    ("latency_us", present .nat (·.latencyUs)),
    ("rx_channels", present .nat (·.rxChannels)),
    ("tx_channels", present .nat (·.txChannels)),
    ("rx_labels", present (ofMap natKey .str) (·.rxLabels)),
    ("tx_labels", present (ofMap natKey .str) (·.txLabels)),
    ("advertise_devices", present .bool (·.advertiseDevices))]

def tesseraClockJson : TesseraClock → Value := record
  [("role", present (named ClockRole.text) (·.role)),
    ("priority", present .nat (·.priority))]

def tesseraFlowJson : TesseraFlow → Value := record
  [("id", present .str (·.id)),
    ("direction", present (named Direction.text) (·.direction)),
    ("peer", present (ofOption .str) (·.peer)),
    ("port", present .nat (·.port)),
    ("any_source", present .bool (·.anySource)),
    ("frames_per_packet", present (ofOption .nat) (·.framesPerPacket))]

def tesseraJson : Tessera → Value := record
  [("enabled", present .bool (·.enabled)),
    ("device", present tesseraDeviceJson (·.device)),
    ("clock", present tesseraClockJson (·.clock)),
    ("flows", present (ofItems tesseraFlowJson) (·.flows)),
    ("locks", present (ofMap id .str) (·.locks)),
    ("network_binding", present (ofOption .str) (·.networkBinding)),
    ("protocol_flow_lock", present .bool (·.protocolFlowLock))]

def assetRefJson : AssetRef → Value := record
  [("sha256", present .str (·.sha256)),
    ("media_type", present .str (·.mediaType))]

def splashJson : Splash → Value := record
  [("bg_idle", present .str (·.bgIdle)),
    ("bg_live", present .str (·.bgLive)),
    ("accent_idle", present .str (·.accentIdle)),
    ("accent_live", present .str (·.accentLive)),
    ("logo", present (ofOption assetRefJson) (·.logo)),
    ("logo_x_pct", present .float (·.logoXPct)),
    ("logo_y_pct", present .float (·.logoYPct)),
    ("logo_w_pct", present .float (·.logoWPct)),
    ("text_idle", present .str (·.textIdle)),
    ("text_live", present .str (·.textLive)),
    ("text_height_pct", present .float (·.textHeightPct)),
    ("backdrop", present (named Backdrop.text) (·.backdrop)),
    ("show_signal_text", present .bool (·.showSignalText)),
    ("show_device_name", present .bool (·.showDeviceName)),
    ("show_device_url", present .bool (·.showDeviceUrl)),
    ("show_sources_available", present .bool (·.showSourcesAvailable))]

def osdJson : Osd → Value := record
  [("enabled", present .bool (·.enabled)),
    ("text", present .str (·.text))]

def displayJson : Display → Value := record
  [("splash", present splashJson (·.splash)),
    ("osd", present osdJson (·.osd))]

/-- An absent position is left out. -/
def presetJson : Preset → Value := record
  [("source", present ndiSourceRefJson (·.source)),
    ("position", optional .nat (·.position))]

/-- Absent plugin data is left out; its values are written as they are. -/
def pluginStateJson : PluginState → Value := record
  [("installed", present .bool (·.installed)),
    ("enabled", present .bool (·.enabled)),
    ("version", present .str (·.version)),
    ("state", optional (ofMap id id) (·.state))]

def desiredStateFields : Fields DesiredState :=
  [("schema_version", present .nat (·.schemaVersion)),
    ("revision", present .nat (·.revision)),
    ("device", present deviceJson (·.device)),
    ("outputs", present (ofMap natKey outputJson) (·.outputs)),
    ("ndi", present ndiJson (·.ndi)),
    ("audio", present audioJson (·.audio)),
    ("network", present networkProfilesJson (·.network)),
    ("tessera", present (ofOption tesseraJson) (·.tessera)),
    ("display", present displayJson (·.display)),
    ("presets", present (ofMap id presetJson) (·.presets)),
    ("plugins", present (ofMap id pluginStateJson) (·.plugins))]

def desiredStateJson : DesiredState → Value := record desiredStateFields

end NdimonR.Types
