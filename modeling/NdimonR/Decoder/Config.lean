import NdimonR.Decoder.FollowerConfig
import NdimonR.Library.Encoding
import NdimonR.Library.Effects
import Mathlib.Data.Finset.Insert

/-! The configuration of the decoder: settings from files until control hands a domain over, and
from control's requests after that. -/

namespace NdimonR.Decoder

open Json Text

variable (narrow : ℚ → ℚ)

structure DecoderConfig where
  chNum : Int := 1
  ndiAudio : String := "NDIAudioEn"
  screensaverMode : String := "BlackSS"
  tallyMode : String := "TallyOff"
  colorSpace : String := "YUV"
  sourceSelection : String := "NDI"
  deriving DecidableEq

/-- Revisions are global document revisions. -/
structure Revision where
  applied : Bool := false
  value : Nat := 0
  deriving DecidableEq

/-- `binding` is a global of the process, the rest the configuration's own. -/
structure Config where
  decoder : DecoderConfig := {}
  transport : TransportConfig := {}
  finder : FinderConfig := {}
  device : DeviceConfig := {}
  ndiGroup : NDIGroupConfig := {}
  splash : SplashConfig := {}
  osd : OsdConfig := {}
  connectedSourceName : String := ""
  connectedSourceIp : String := ""
  offSubnetIps : String := ""
  outputCache : SortedMap Nat OutputConfig := .empty
  followed : Finset String := ∅
  revision : Revision := {}
  audioSettings : AudioSettings := {}
  followedConfig : SortedMap String Json := .empty
  binding : Option NetworkBinding := none
  deriving DecidableEq

/-- The files by path. A file that cannot be read or parsed is null. -/
abbrev Disk := String → Json

/-- Applies the audio settings to the engine: an empty text, or why it refuses. -/
abbrev AudioApply := AudioSettings → Result String

/-! ### Files -/

def dec1Settings : String := "/etc/ndimon-dec1-settings.json"
def splashSettings : String := "/etc/ndimon-splash-settings.json"
def rxSettings : String := "/etc/ndimon-rx-settings.json"
def findSettings : String := "/etc/ndimon-find-settings.json"
def deviceSettings : String := "/etc/ndimon-device-settings.json"
def ndiConfig : String := "/etc/ndi-config.json"
def ndiGroup : String := "/etc/ndi-group.json"
def osdSettings : String := "/etc/ndimon-osd-settings.json"

def settingsPath (chNum : Nat) : String := "/etc/ndimon-dec" ++ toString chNum ++ "-settings.json"

/-- A conversion to a machine number takes a boolean too. -/
def arithmetic {α : Type} (ofInt : Int → α) (ofFloat : ℚ → α) : Json → Result α
  | .int n => .ok (ofInt n)
  | .float q => .ok (ofFloat q)
  | .bool b => .ok (ofInt (if b then 1 else 0))
  | j => .error (typeError "number" j)

/-- Truncation toward zero. -/
def truncate (q : ℚ) : Int := q.num.tdiv q.den

def getInt : Json → Result Int :=
  arithmetic (fun n => n.bmod (2 ^ 32)) fun q => (truncate q).bmod (2 ^ 32)

def getUint32 : Json → Result Nat :=
  arithmetic (fun n => (n % 2 ^ 32).toNat) fun q => (truncate q % 2 ^ 32).toNat

def getFloat : Json → Result ℚ := arithmetic (fun n => narrow n) narrow

/-- A file counts if it holds an object with members. -/
def readable (j : Json) : Bool := !isEmpty j && isObject j

/-- Sets a member of an object; null becomes one. -/
def setMember (k : String) (x : Json) : Json → Result Json
  | .null => .ok (.obj [(k, x)])
  | .obj entries => .ok (.obj (SortedMap.insertEntry k x entries))
  | j => .error
      ("[json.exception.type_error.305] cannot use operator[] with a string argument with " ++
        typeName j)

def setMembers (fields : List (String × Json)) (j : Json) : Result Json :=
  fields.foldlM (fun j e => setMember e.1 e.2 j) (if isEmpty j then .obj [] else j)

/-- One assignment from a file: a value of the wrong type throws and leaves what was set. -/
def assign {σ α : Type} (value : Result α) (set : α → σ → σ) : Proc σ String Unit := do
  let x ← Proc.ofExcept value
  Proc.modify (set x)

namespace Revision

def check (r : Revision) (request : Json) : Result Nat := do
  let value ← atKey request "revision"
  match value with
  | .int n =>
    require (Privd.isInteger value && decide (0 ≤ n)) "revision: expected non-negative integer"
    let reset ← valueOr (fun j => if isBoolean j then getBool j else
      .error "reset: expected boolean") request "reset" false
    require (!(r.applied && decide (n.toNat < r.value) && !reset))
      "revision: older than last applied revision"
    .ok n.toNat
  | _ => .error "revision: expected non-negative integer"

def commit (next : Nat) : Revision := ⟨true, next⟩

end Revision

namespace Config

def follows (c : Config) (domain : String) : Bool := decide (domain ∈ c.followed)

/-! ### Files of the domains that are not followed -/

def loadDecoder (followed : Finset String) (dec : Json) : Proc Config String Unit := do
  Proc.when ("audio" ∉ followed) do
    assign (valueOr getString dec "NDIAudio" "NDIAudioEn") fun x c =>
      { c with decoder.ndiAudio := x }
  Proc.when ("outputs" ∉ followed) do
    assign (valueOr getInt dec "ChNum" 1) fun x c => { c with decoder.chNum := x }
    assign (valueOr getString dec "ScreenSaverMode" "BlackSS") fun x c =>
      { c with decoder.screensaverMode := x }
    assign (valueOr getString dec "SourceSelection" "NDI") fun x c =>
      { c with decoder.sourceSelection := x }
    assign (valueOr getString dec "SourceName" "") fun x c => { c with connectedSourceName := x }
    assign (valueOr getString dec "SourceIP" "") fun x c => { c with connectedSourceIp := x }
  Proc.when ("ndi" ∉ followed) do
    assign (valueOr getString dec "TallyMode" "TallyOff") fun x c =>
      { c with decoder.tallyMode := x }
    assign (valueOr getString dec "ColorSpace" "YUV") fun x c => { c with decoder.colorSpace := x }

def loadTransport (rx : Json) : Proc TransportConfig String Unit :=
  assign (valueOr getString rx "Rxpm" "RUDP") fun x t => { t with rxpm := x }

def loadFinder (find : Json) : Proc FinderConfig String Unit := do
  assign (valueOr getString find "NDIDisServ" "NDIDisServDis") fun x f =>
    { f with discoveryServerMode := x }
  assign (valueOr getString find "NDIDisServIP" "") fun x f => { f with discoveryServerIp := x }

def loadDevice (followed : Finset String) (dev : Json) : Proc Config String Unit := do
  Proc.when ("device" ∉ followed) do
    assign (valueOr getString dev "mode" "decode") fun x c => { c with device.mode := x }
    assign (valueOr getString dev "videooutput" "hdmi") fun x c =>
      { c with device.videoOutput := x }
    assign (valueOr getString dev "ndi_recv_name" "") fun x c =>
      { c with device.ndiRecvName := x }
    assign (valueOr getString dev "decode_mode" "auto") fun x c =>
      { c with device.decodeMode := x }
  Proc.when ("audio" ∉ followed) do
    assign (valueOr getString dev "audio_engine" "v1") fun x c =>
      { c with device.audioEngine := if x ≠ "v2" then "v1" else x }

def loadGroups (grp : Json) : Proc NDIGroupConfig String Unit :=
  assign (valueOr getString grp "ndi_groups" "public") fun x g => { g with groups := x }

def loadSplash (sp : Json) : Proc SplashConfig String Unit := do
  assign (valueOr getString sp "bg_idle" "#0D1B2A") fun x s => { s with bgIdle := x }
  assign (valueOr getString sp "bg_live" "#0D2B1A") fun x s => { s with bgLive := x }
  assign (valueOr getString sp "accent_idle" "#4488CC") fun x s => { s with accentIdle := x }
  assign (valueOr getString sp "accent_live" "#22FF88") fun x s => { s with accentLive := x }
  assign (valueOr getString sp "logo_path" "") fun x s => { s with logoPath := x }
  assign (valueOr (getFloat narrow) sp "logo_x_pct" 50) fun x s => { s with logoXPct := x }
  assign (valueOr (getFloat narrow) sp "logo_y_pct" 50) fun x s => { s with logoYPct := x }
  assign (valueOr (getFloat narrow) sp "logo_w_pct" 50) fun x s => { s with logoWPct := x }
  assign (valueOr getString sp "text_idle" "No Signal") fun x s => { s with textIdle := x }
  assign (valueOr getString sp "text_live" "Signal Available") fun x s => { s with textLive := x }
  assign (valueOr (getFloat narrow) sp "text_height_pct" 4) fun x s => { s with textHeightPct := x }
  assign (valueOr getString sp "backdrop" "gradient") fun x s => { s with backdrop := x }
  assign (valueOr getBool sp "show_signal_text" true) fun x s => { s with showSignalText := x }
  assign (valueOr getBool sp "show_device_name" true) fun x s => { s with showDeviceName := x }
  assign (valueOr getBool sp "show_device_url" true) fun x s => { s with showDeviceUrl := x }
  assign (valueOr getBool sp "show_sources_available" true) fun x s =>
    { s with showSourcesAvailable := x }

def loadOsd (od : Json) : Proc OsdConfig String Unit := do
  assign (valueOr getBool od "enabled" false) fun x o => { o with enabled := x }
  assign (valueOr getString od "text" "") fun x o => { o with text := x }

/-- The sources outside the subnet: the file holds a text. -/
def loadSources (cfg : Json) (c : Config) : Config :=
  match cfg with
  | .str s => { c with offSubnetIps := s }
  | _ => c

/-- The file of domains that are all followed is not read. -/
def unlessFollowed (followed : Finset String) (domains : List String) (j : Json) : Json :=
  if ∀ d ∈ domains, d ∈ followed then .null else j

def load (disk : Disk) : Proc Config String Unit := do
  let followed ← Proc.read Config.followed
  Proc.when ("outputs" ∉ followed) <| Proc.modify fun c => { c with outputCache := .empty }
  let dec := unlessFollowed followed ["outputs", "ndi", "audio"] (disk dec1Settings)
  Proc.when (readable dec) <| loadDecoder followed dec
  let rx := unlessFollowed followed ["ndi"] (disk rxSettings)
  Proc.when (readable rx) <|
    Proc.onPart transport (fun t c => { c with transport := t }) (loadTransport rx)
  let find := unlessFollowed followed ["ndi"] (disk findSettings)
  Proc.when (readable find) <|
    Proc.onPart finder (fun f c => { c with finder := f }) (loadFinder find)
  let dev := unlessFollowed followed ["device", "audio"] (disk deviceSettings)
  Proc.when (readable dev) <| loadDevice followed dev
  let grp := unlessFollowed followed ["ndi"] (disk Decoder.ndiGroup)
  Proc.when (readable grp) <|
    Proc.onPart Config.ndiGroup (fun g c => { c with ndiGroup := g }) (loadGroups grp)
  Proc.modify <| loadSources (unlessFollowed followed ["ndi"] (disk ndiConfig))
  let sp := unlessFollowed followed ["display"] (disk splashSettings)
  Proc.when (readable sp) <|
    Proc.onPart splash (fun s c => { c with splash := s }) (loadSplash narrow sp)
  let od := unlessFollowed followed ["display"] (disk osdSettings)
  Proc.when (readable od) <|
    Proc.onPart osd (fun o c => { c with osd := o }) (loadOsd od)

/-! ### Settings the decoder itself changes -/

/-- The file `save_device` writes, if it writes one. -/
def saveDevice (disk : Disk) (c : Config) : Result (Option (String × Json)) := do
  if c.follows "device" then .ok none
  else do
    let j ← setMembers [("mode", .str c.device.mode), ("videooutput", .str c.device.videoOutput),
      ("ndi_recv_name", .str c.device.ndiRecvName)] (disk deviceSettings)
    .ok (some (deviceSettings, j))

def readOutput (disk : Disk) (c : Config) (chNum : Nat) : Result OutputConfig := do
  let j := disk (settingsPath chNum)
  if readable j then
    let preferredMode ← valueOr getString j "videooutput" ""
    let scaleMode ← valueOr getString j "ScaleMode" "letterbox"
    let sourceName ← valueOr getString j "SourceName" ""
    let sourceIp ← valueOr getString j "SourceIP" ""
    let outputAlias ← valueOr getString j "output_alias" ""
    let rotation ← valueOr getUint32 j "rotation" 0
    .ok { preferredMode, scaleMode, sourceName, sourceIp, outputAlias, rotation }
  else if chNum = 1 then
    .ok { preferredMode := c.device.videoOutput, sourceName := c.connectedSourceName
          sourceIp := c.connectedSourceIp, scaleMode := "letterbox" }
  else .ok {}

def getOutput (disk : Disk) (chNum : Nat) (c : Config) : Result (OutputConfig × Config) := do
  match c.outputCache.get? chNum with
  | some out => .ok (out, c)
  | none =>
    if c.follows "outputs" then .ok ({}, c)
    else do
      let out ← readOutput disk c chNum
      .ok (out, { c with outputCache := c.outputCache.insert chNum out })

def setRuntimeIp (ip : String) (c : Config) : Config := { c with device.deviceIp := ip }

/-- The configuration and the file written. Output 1 is also kept in the older fields. -/
def setOutput (disk : Disk) (chNum : Nat) (out : OutputConfig) (c : Config) :
    Result (Config × Option (String × Json)) := do
  if c.follows "outputs" then .ok (c, none)
  else do
    let path := settingsPath chNum
    let j ← setMembers [("videooutput", .str out.preferredMode), ("ScaleMode", .str out.scaleMode),
      ("SourceName", .str out.sourceName), ("SourceIP", .str out.sourceIp),
      ("output_alias", .str out.outputAlias), ("rotation", .int out.rotation)] (disk path)
    let c := { c with outputCache := c.outputCache.insert chNum out }
    .ok (if chNum = 1 then
        { c with connectedSourceName := out.sourceName, connectedSourceIp := out.sourceIp
                 device.videoOutput := out.preferredMode }
      else c, some (path, j))

/-- At the start of the process, where the device has no name yet. -/
def defaultAlias (name : String) (c : Config) : Config :=
  if c.device.ndiRecvName = "" ∧ c.follows "device" = false then
    { c with device.ndiRecvName := name }
  else c

/-! ### Requests of control -/

/-- The domains of a request. -/
structure Domains where
  device : Option DeviceConfig := none
  outputs : Option (SortedMap Nat OutputConfig) := none
  ndi : Option NdiConfig := none
  audio : Option AudioConfig := none
  display : Option DisplayConfig := none
  network : Option NetworkBinding := none

def Domains.read (next : Nat) (key : String) (j : Json) (d : Domains) : Result Domains :=
  if key = "device" then (parseDevice j).map fun x => { d with device := some x }
  else if key = "outputs" then (parseOutputs j).map fun x => { d with outputs := some x }
  else if key = "ndi" then (parseNdi j).map fun x => { d with ndi := some x }
  else if key = "audio" then (parseAudio narrow j next).map fun x => { d with audio := some x }
  else if key = "display" then (parseDisplay narrow j).map fun x => { d with display := some x }
  else if key = "network" then (parseNetwork j).map fun x => { d with network := some x }
  else .error "unknown follower domain"

/-- Reads every domain, and collects what is wrong with each. -/
def Domains.readAll (next : Nat) : List (String × Json) → Domains → Domains × List String
  | [], d => (d, [])
  | (key, j) :: rest, d =>
    match d.read narrow next key j with
    | .ok d => readAll next rest d
    | .error e => ((readAll next rest d).1, (key ++ ": " ++ e) :: (readAll next rest d).2)

/-- Audio and observed address have independent owners. -/
def takeDevice (dev : DeviceConfig) (c : Config) : Config :=
  { c with device := { dev with audioEngine := c.device.audioEngine, deviceIp := c.device.deviceIp } }

def takeOutputs (outputs : SortedMap Nat OutputConfig) (c : Config) : Config :=
  let first := outputs.get? 1
  { c with
    outputCache := outputs
    connectedSourceName := (first.map OutputConfig.sourceName).getD ""
    connectedSourceIp := (first.map OutputConfig.sourceIp).getD ""
    decoder.screensaverMode := (first.map OutputConfig.screensaverMode).getD "BlackSS"
    decoder.sourceSelection := (first.map OutputConfig.sourceSelection).getD "NDI" }

def takeNdi (ndi : NdiConfig) (c : Config) : Config :=
  { c with
    transport := ndi.transport
    finder := ndi.finder
    ndiGroup := ndi.group
    offSubnetIps := ndi.offSubnetIps
    decoder.tallyMode := ndi.tallyMode
    decoder.colorSpace := ndi.colorSpace }

def takeAudio (audio : AudioConfig) (c : Config) : Config :=
  { c with
    device.audioEngine := audio.engine
    audioSettings := audio.settings
    decoder.ndiAudio := if audio.primaryEnabled then "NDIAudioEn" else "NDIAudioDis" }

def takeDisplay (display : DisplayConfig) (c : Config) : Config :=
  { c with splash := display.splash, osd := display.osd }

def takeNetwork (network : NetworkBinding) (c : Config) : Config :=
  { c with binding := some network }

/-- Every domain of the request is followed from now on, and the snapshot keeps what it was given. -/
def follow (entries : List (String × Json)) (c : Config) : Config :=
  entries.foldl (fun c e => { c with
    followed := Insert.insert e.1 c.followed
    followedConfig := c.followedConfig.insert e.1 e.2 }) c

def snapshot (c : Config) : Json :=
  .obj [("action", .str "apply_config"), ("config", .obj c.followedConfig.entries),
    ("revision", .int c.revision.value)]

/-- The audio engine is asked before anything is changed. -/
def askAudio (apply : Option AudioApply) (audio : Option AudioConfig) : Result Unit :=
  match audio, apply with
  | some audio, some apply => do
    let error ← apply audio.settings
    require (error == "") ("audio: " ++ error)
  | _, _ => .ok ()

/-- A supplied domain is taken over. -/
def taking {α : Type} (take : α → Config → Config) (domain : Option α) :
    Proc Config (List String) Unit := Proc.modify fun c => domain.elim c fun x => take x c

/-- What a request asks for: its revision, its entries and their domains. -/
structure Demand where
  next : Nat
  entries : List (String × Json)
  domains : Domains

def thrown {α : Type} (r : Result α) : Except (List String) α := r.mapError fun e => [e]

/-- All that can be refused is refused here. -/
def examine (request : Json) (apply : Option AudioApply) (c : Config) :
    Except (List String) Demand := do
  let next ← thrown (c.revision.check request)
  let config ← thrown (atKey request "config")
  thrown (require (isObject config && !isEmpty config) "config: expected non-empty domain object")
  let parsed := Domains.readAll narrow next (members config) {}
  if parsed.2 ≠ [] then .error parsed.2
  else do
    thrown (askAudio apply parsed.1.audio)
    .ok ⟨next, members config, parsed.1⟩

/-- The revision of the request, or what is wrong with it. -/
def applyConfig (request : Json) (apply : Option AudioApply) : Proc Config (List String) Nat := do
  let c ← Proc.read id
  let d ← Proc.ofExcept (c.examine narrow request apply)
  taking takeDevice d.domains.device
  taking takeOutputs d.domains.outputs
  taking takeNdi d.domains.ndi
  taking takeAudio d.domains.audio
  taking takeDisplay d.domains.display
  taking takeNetwork d.domains.network
  Proc.modify (follow d.entries)
  Proc.modify fun c => { c with revision := .commit d.next }
  pure d.next

end Config

end NdimonR.Decoder
