import NdimonR.Library.Json

/-! The portable document. Fixed-width unsigned fields are natural numbers and finite doubles
are rationals. -/

namespace NdimonR.Types

abbrev OutputId := Nat

def schemaVersion : Nat := 1

inductive OperationMode where
  | decode
  | encode
  deriving DecidableEq, Repr

inductive DecodeMode where
  | auto
  | hardware
  | software
  deriving DecidableEq, Repr

inductive WatchdogMode where
  | disabled
  | passive
  | active
  deriving DecidableEq, Repr

inductive Weekday where
  | sun
  | mon
  | tue
  | wed
  | thu
  | fri
  | sat
  deriving DecidableEq, Repr

inductive ScaleMode where
  | letterbox
  | stretch
  | crop
  deriving DecidableEq, Repr

inductive ScreenSaver where
  | splash
  | black
  | capture
  deriving DecidableEq, Repr

inductive TallyMode where
  | on
  | off
  | video
  deriving DecidableEq, Repr

inductive ColorSpace where
  | yuv
  | rgb
  deriving DecidableEq, Repr

inductive Transport where
  | rudp
  | multicast
  | multiTcp
  | udp
  | tcp
  deriving DecidableEq, Repr

inductive AudioEngine where
  | v1
  | v2
  deriving DecidableEq, Repr

inductive EndpointType where
  | ndi
  | alsa
  deriving DecidableEq, Repr

inductive Mapping where
  | default
  deriving DecidableEq, Repr

inductive NetworkBackend where
  | networkmanager
  | networkd
  | netplan
  | ifupdown
  deriving DecidableEq, Repr

inductive AddressMode where
  | dhcp
  | static
  deriving DecidableEq, Repr

inductive ConfirmPolicy where
  | requireManagementAddress
  | tokenOnly
  deriving DecidableEq, Repr

inductive Direction where
  | rx
  | tx
  deriving DecidableEq, Repr

inductive ClockRole where
  | auto
  | follower
  | leader
  deriving DecidableEq, Repr

inductive Backdrop where
  | gradient
  | flat
  deriving DecidableEq, Repr

structure RebootSchedule where
  enabled : Bool := false
  time : String := "04:00"
  days : List Weekday := [.sun, .mon, .tue, .wed, .thu, .fri, .sat]
  deriving DecidableEq

structure About where
  groupName : String := "public"
  macAddress : String := ""
  deviceName : String := ""
  hostName : String := ""
  deriving DecidableEq

structure Device where
  hostname : String := ""
  ndiAlias : String := ""
  mode : OperationMode := .decode
  decodeMode : DecodeMode := .auto
  watchdogMode : WatchdogMode := .active
  ntpServer : String := ""
  rebootSchedule : RebootSchedule := {}
  about : About := {}
  analogAudioInGain : Nat := 50
  analogAudioOutGain : Nat := 50
  pluginFeeds : List String := []
  allowInsecureFeeds : Bool := false
  webAllowedHosts : List String := []
  deriving DecidableEq

structure NdiSourceRef where
  name : String
  endpoint : String
  deriving DecidableEq

inductive Resolution where
  | auto
  | mode (width height : Nat) (refreshHz : ℚ)
  deriving DecidableEq

structure OutputVideo where
  resolution : Resolution := .auto
  scaleMode : ScaleMode := .letterbox
  rotation : Nat := 0
  deriving DecidableEq

structure Output where
  «alias» : String := ""
  source : Option NdiSourceRef := none
  video : OutputVideo := {}
  screensaver : ScreenSaver := .black
  sourceSelection : String := "NDI"
  deriving DecidableEq

structure Ndi where
  receive : Transport := .rudp
  discoveryServers : List String := []
  groups : List String := ["public"]
  offSubnetSources : List String := []
  tally : TallyMode := .off
  colorSpace : ColorSpace := .yuv
  receiverAdvertising : Bool := true
  remoteControl : Bool := false
  deriving DecidableEq

structure AudioEngineSettings where
  enabled : Bool := true
  rate : Nat := 48000
  periodFrames : Nat := 512
  master : String := "hdmi"
  memoryBudgetMib : Nat := 64
  deriving DecidableEq

structure AudioSource where
  kind : EndpointType
  enabled : Bool
  channels : Nat
  output : Option OutputId
  alsaPcm : Option String
  endpoint : String
  resource : String
  channelStart : Nat
  channelCount : Nat
  gainDb : ℚ
  delayMs : Nat
  deriving DecidableEq

structure AudioSink where
  enabled : Bool
  channels : Nat
  alsaPcm : String
  endpoint : String
  resource : String
  channelStart : Nat
  channelCount : Nat
  delayMs : Nat
  mix : SortedMap String ℚ
  deriving DecidableEq

structure AudioRoute where
  output : OutputId
  source : String
  sink : String
  enabled : Bool
  gainDb : ℚ
  delayMs : Nat
  mapping : Mapping
  deriving DecidableEq

structure AudioInput where
  endpoint : String
  gainDb : ℚ
  delayMs : Nat
  deriving DecidableEq

structure AudioDestination where
  endpoint : String
  delayMs : Nat
  deriving DecidableEq

structure AudioDefinitions where
  sources : SortedMap String AudioSource := .empty
  sinks : SortedMap String AudioSink := .empty
  deriving DecidableEq

structure OutputAudio where
  enabled : Bool := false
  primary : Bool := false
  inputs : List AudioInput := []
  destinations : List AudioDestination := []
  legacyMatrix : Bool := false
  definitions : AudioDefinitions := {}
  deriving DecidableEq

def AudioSource.ndi (output : OutputId) : AudioSource where
  kind := .ndi
  enabled := true
  channels := 2
  output := some output
  alsaPcm := none
  endpoint := s!"ndi-{output}"
  resource := ""
  channelStart := 1
  channelCount := 2
  gainDb := 0
  delayMs := 0

def AudioSink.new (pcm : String) (channels : Nat) : AudioSink where
  enabled := true
  channels := channels
  alsaPcm := pcm
  endpoint := ""
  resource := ""
  channelStart := 1
  channelCount := channels
  delayMs := 0
  mix := .empty

def AudioRoute.new (output : OutputId) (source sink : String) : AudioRoute where
  output := output
  source := source
  sink := sink
  enabled := true
  gainDb := 0
  delayMs := 0
  mapping := .default

def defaultSink : AudioSink :=
  { AudioSink.new "auto" 2 with
    endpoint := "hdmi-1"
    resource := "hdmi:1"
    mix := .singleton "ndi" 0 }

structure Audio where
  engine : AudioEngine := .v1
  settings : AudioEngineSettings := {}
  sources : SortedMap String AudioSource := .singleton "ndi" (AudioSource.ndi 1)
  sinks : SortedMap String AudioSink := .singleton "hdmi" defaultSink
  outputs : SortedMap OutputId OutputAudio := .singleton 1
    { enabled := true
      primary := true
      inputs := [⟨"ndi-1", 0, 0⟩]
      destinations := [⟨"hdmi-1", 0⟩] }
  routes : SortedMap String AudioRoute := .singleton "primary" (AudioRoute.new 1 "ndi" "hdmi")
  videoDelayMs : Nat := 0
  deriving DecidableEq

structure NetworkRoles where
  management : String := ""
  ndi : String := ""
  audio : String := ""
  deriving DecidableEq

structure NetworkProfile where
  id : String
  name : String
  vlanId : Option Nat := none
  mode : AddressMode := .dhcp
  address : String := ""
  prefixLen : Nat := 0
  gateway : String := ""
  dns : List String := []
  dnsSearch : List String := []
  deriving DecidableEq

/-- No backend with empty interface, networks and roles means not adopted. -/
structure NetworkProfiles where
  interface : String := ""
  backend : Option NetworkBackend := none
  networks : List NetworkProfile := []
  roles : NetworkRoles := {}
  confirmPolicy : ConfirmPolicy := .tokenOnly
  deriving DecidableEq

structure TesseraDevice where
  name : String
  sampleRate : Nat := 48000
  encoding : Nat := 24
  latencyUs : Nat
  rxChannels : Nat := 2
  txChannels : Nat := 2
  rxLabels : SortedMap Nat String := .empty
  txLabels : SortedMap Nat String := .empty
  advertiseDevices : Bool := true
  deriving DecidableEq

structure TesseraClock where
  role : ClockRole := .auto
  priority : Nat := 128
  deriving DecidableEq

structure TesseraFlow where
  id : String
  direction : Direction
  peer : Option String
  port : Nat
  anySource : Bool
  framesPerPacket : Option Nat
  deriving DecidableEq

structure Tessera where
  enabled : Bool
  device : TesseraDevice
  clock : TesseraClock
  flows : List TesseraFlow
  locks : SortedMap String String
  networkBinding : Option String := none
  protocolFlowLock : Bool := true
  deriving DecidableEq

structure AssetRef where
  sha256 : String
  mediaType : String
  deriving DecidableEq

structure Splash where
  bgIdle : String := "#0D1B2A"
  bgLive : String := "#0D2B1A"
  accentIdle : String := "#4488CC"
  accentLive : String := "#22FF88"
  logo : Option AssetRef := none
  logoXPct : ℚ := 50
  logoYPct : ℚ := 50
  logoWPct : ℚ := 50
  textIdle : String := "No Signal"
  textLive : String := "Signal Available"
  textHeightPct : ℚ := 4
  backdrop : Backdrop := .gradient
  showSignalText : Bool := true
  showDeviceName : Bool := true
  showDeviceUrl : Bool := true
  showSourcesAvailable : Bool := true
  deriving DecidableEq

structure Osd where
  enabled : Bool := false
  text : String := ""
  deriving DecidableEq

structure Display where
  splash : Splash := {}
  osd : Osd := {}
  deriving DecidableEq

structure Preset where
  source : NdiSourceRef
  position : Option Nat := none
  deriving DecidableEq

structure PluginState where
  installed : Bool := false
  enabled : Bool := false
  version : String := ""
  state : Option (SortedMap String Json.Value) := none
  deriving DecidableEq

structure DesiredState where
  schemaVersion : Nat := Types.schemaVersion
  revision : Nat := 0
  device : Device := {}
  outputs : SortedMap OutputId Output := .singleton 1 {}
  ndi : Ndi := {}
  audio : Audio := {}
  network : NetworkProfiles := {}
  tessera : Option Tessera := none
  display : Display := {}
  presets : SortedMap String Preset := .empty
  plugins : SortedMap String PluginState := .empty
  deriving DecidableEq

end NdimonR.Types
