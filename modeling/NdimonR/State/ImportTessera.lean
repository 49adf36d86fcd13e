import NdimonR.Library.Reading
import NdimonR.Render.Tessera
import NdimonR.State.CrossDomain

/-! Import of the files of the Tessera daemon. Its own state counts where no lock of the
configuration says otherwise. -/

namespace NdimonR.State.ImportTessera

open NdimonR.Types Text Json

/-- Files by path. -/
abbrev LegacyFiles := SortedMap String String

inductive ImportError where
  | text (reason : String)
  | toml (reason : String)
  /-- A value of another type than the record has. -/
  | type

abbrev Result := Except ImportError

/-! ### Records -/

/-- A channel as a key: a number as JSON writes it. -/
def channelKey (k : String) : Option Nat :=
  (parseUnsigned 65535 k).filter fun n => toString n = k

def labelOf (e : String × Json) : Option (Nat × String) := do
  let channel ← channelKey e.1
  let label ← asStr e.2
  some (channel, label)

def labelsOf (j : Json) : Option (SortedMap Nat String) :=
  ((asObject j).bind (List.mapM labelOf)).map .ofList

def boolOf : Json → Option Bool
  | .bool b => some b
  | _ => none

def deviceOf (j : Json) : Option TesseraDevice := do
  closed ["name", "sample_rate", "encoding", "latency_us", "rx_channels", "tx_channels", "rx_labels",
    "tx_labels", "advertise_devices"] j
  some
    { name := ← need asStr "name" j
      sampleRate := ← need (natBelow (2 ^ 32)) "sample_rate" j
      encoding := ← need (natBelow (2 ^ 8)) "encoding" j
      latencyUs := ← need (natBelow (2 ^ 32)) "latency_us" j
      rxChannels := ← need (natBelow (2 ^ 16)) "rx_channels" j
      txChannels := ← need (natBelow (2 ^ 16)) "tx_channels" j
      rxLabels := ← need labelsOf "rx_labels" j
      txLabels := ← need labelsOf "tx_labels" j
      advertiseDevices := ← need boolOf "advertise_devices" j }

def clockOf (j : Json) : Option TesseraClock := do
  closed ["role", "priority"] j
  some
    { role := ← need (oneOf ClockRole.text [.auto, .follower, .leader]) "role" j
      priority := ← need (natBelow (2 ^ 8)) "priority" j }

def flowOf (j : Json) : Option TesseraFlow := do
  closed ["id", "direction", "peer", "port", "any_source", "frames_per_packet"] j
  some
    { id := ← need asStr "id" j
      direction := ← need (oneOf Direction.text [.rx, .tx]) "direction" j
      peer := ← need (nullable asStr) "peer" j
      port := ← need (natBelow (2 ^ 16)) "port" j
      anySource := ← need boolOf "any_source" j
      framesPerPacket := ← need (nullable (natBelow (2 ^ 16))) "frames_per_packet" j }

def typed {α : Type} (x : Option α) : Result α :=
  match x with
  | some a => .ok a
  | none => .error .type

/-- Replaces a member, where there is a value for it. -/
def put (k : String) (v : Option Json) (m : SortedMap String Json) : SortedMap String Json :=
  match v with
  | some v => m.insert k v
  | none => m

def fields (v : Json.Value) : SortedMap String Json := .ofList ((asObject v.val).getD [])

/-! ### The import -/

/-- The text is one of the array's items. -/
def lists (s : String) (keys : Option (List Json)) : Bool :=
  keys.any fun keys => keys.any fun v => v = .str s

def pointer (a b : String) (j : Json) : Option Json := (get a j).bind (get b)

def mainDevice (config : Json) : Option Json :=
  (((get "device" config).bind asArray).bind fun l =>
    l.find? fun v => v.member "key" = .str "main" || v.member "id" = .str "main").or
  (pointer "devices" "main" config)

def deviceOrError (config : Json) : Result Json :=
  match mainDevice config with
  | some device => .ok device
  | none => .error (.text "Tessera main device missing; cannot guess runtime name or latency")

/-- At most 31 bytes of whole characters. -/
def cutName (room : Nat) : List Char → List Char
  | [] => []
  | c :: rest => if c.utf8Size ≤ room then c :: cutName (room - c.utf8Size) rest else []

def defaultDeviceName (files : LegacyFiles) : String :=
  let host := ((files.get? "/etc/hostname").map fun raw => trim ((lines raw).headD "")).getD ""
  let name := String.ofList (cutName 31 (host.toList.filter fun c => !isControl c))
  if name = "" then "NDIMON" else name

def lockKey (key : String) : String :=
  if key = "latency_us" then "latency"
  else if key = "rx_labels" then "rx_channel_labels"
  else if key = "tx_labels" then "tx_channel_labels"
  else key

/-- A setting of the device: what the daemon runs, unless the configuration locks it. -/
def setting (device effective : Json) (key : String) : Option Json :=
  if lists (lockKey key) ((get "locked" device).bind asArray) then get key device
  else (get key effective).or (get key device)

def deviceName (files : LegacyFiles) (setting : String → Option Json) : String :=
  (((setting "name").bind asStr).filter (· ≠ "")).getD (defaultDeviceName files)

def latency (setting : String → Option Json) : Result Nat :=
  match (((setting "latency_us").or (setting "latency")).bind asU64).filter (· < 2 ^ 32) with
  | some n => .ok n
  | none => .error (.text "Tessera effective latency must be imported")

/-- A device nothing else is known of. -/
def newTessera (name : String) (latencyUs : Nat) : Types.Tessera where
  enabled := true
  device := { name, latencyUs }
  clock := {}
  flows := []
  locks := .ofList Tessera.ownedLocks

def deviceFields (config : Json) (setting : String → Option Json) (device : TesseraDevice) :
    SortedMap String Json :=
  let d := ["sample_rate", "encoding", "rx_channels", "tx_channels", "rx_labels", "tx_labels"].foldl
    (fun d key => put key (setting key) d) (fields (tesseraDeviceJson device))
  let d := [("rx_channel_labels", "rx_labels"), ("tx_channel_labels", "tx_labels")].foldl
    (fun d e => put e.2 (setting e.1) d) d
  put "advertise_devices" (pointer "discovery" "advertise_devices" config) d

def importDevice (config : Json) (setting : String → Option Json) (device : TesseraDevice) :
    Result TesseraDevice :=
  typed (deviceOf (.obj (deviceFields config setting device).entries))

def clockSetting (config runtime : Json) (key : String) : Option Json :=
  let locked := lists key ((pointer "clock" "locked" config).bind asArray)
  (if locked then none else pointer "clock" key runtime).or (pointer "clock" key config)

def clockFields (config runtime : Json) (clock : TesseraClock) : SortedMap String Json :=
  ["role", "priority"].foldl (fun d key => put key (clockSetting config runtime key) d)
    (fields (tesseraClockJson clock))

def importClock (config runtime : Json) (clock : TesseraClock) : Result TesseraClock :=
  typed (clockOf (.obj (clockFields config runtime clock).entries))

def unrepresentable (flow : Json) : Bool :=
  ((get "device" flow).any fun v => v ≠ .str "main") ||
    ((get "channels" flow).bind asArray).any fun l => !l.isEmpty

def flowFields (flow : Json) : SortedMap String Json :=
  ["peer", "any_source", "frames_per_packet"].foldl (fun d key => put key (get key flow) d)
    (.ofList [("id", flow.member "id"), ("direction", flow.member "direction"), ("peer", .null),
      ("port", flow.member "port"), ("any_source", .bool false), ("frames_per_packet", .null)])

/-- The same flow under another id, or another flow under the same one. -/
def meets (x f : TesseraFlow) : Bool :=
  x.id == f.id || (x.direction == f.direction && x.peer == f.peer && x.port == f.port)

def addFlow (flows : List TesseraFlow) (flow : Json) : Result (List TesseraFlow) :=
  if unrepresentable flow then
    .error (.text "Tessera flow cannot be represented as main/all channels")
  else do
    let f ← typed (flowOf (.obj (flowFields flow).entries))
    match flows.find? (meets · f) with
    | some existing =>
      if existing ≠ f then .error (.text "conflicting controller/plugin flow during import")
      else .ok flows
    | none => .ok (flows ++ [f])

/-- What `toml` reads a text as, in JSON. -/
def tomlJson (toml : String → Except String Json) (raw : String) : Result Json :=
  (toml raw).mapError .toml

def importFlows (toml : String → Except String Json) (files : LegacyFiles)
    (flows : List TesseraFlow) (path : String) : Result (List TesseraFlow) :=
  match files.get? path with
  | none => .ok flows
  | some raw => do
    let v ← tomlJson toml raw
    match asArray (v.member "flow") with
    | none => .ok flows
    | some l => l.foldlM addFlow flows

def runtimeState (toml : String → Except String Json) (files : LegacyFiles) : Result Json :=
  match files.get? "/var/lib/tessera/state.toml" with
  | none => .ok (.obj [])
  | some raw => tomlJson toml raw

def effectiveDevice (runtime : Json) : Json :=
  ((pointer "device" "main" runtime).or (pointer "devices" "main" runtime)).getD .null

def importConfig (toml : String → Except String Json) (document : DesiredState)
    (files : LegacyFiles) (raw : String) : Result Types.Tessera := do
  let config ← tomlJson toml raw
  let device ← deviceOrError config
  let runtime ← runtimeState toml files
  let setting := setting device (effectiveDevice runtime)
  let latency ← latency setting
  let tessera := newTessera (deviceName files setting) latency
  let device ← importDevice config setting tessera.device
  let clock ← importClock config runtime tessera.clock
  let flows ← ["/etc/tessera/config.d/61-ndimon-flows.toml",
    "/etc/tessera/config.d/90-probe-flows.toml"].foldlM (importFlows toml files) []
  .ok { tessera with
    enabled := (document.plugins.get? "tessera").any (·.enabled)
    device, clock, flows
    protocolFlowLock := lists "flows" ((pointer "control" "locked" config).bind asArray) }

def importTessera (toml : String → Except String Json) (document : DesiredState)
    (files : LegacyFiles) : Result DesiredState :=
  match files.get? "/etc/tessera/config.d/60-ndimon.toml" with
  | none => .ok document
  | some raw => (importConfig toml document files raw).map fun t =>
    { document with tessera := some t }

end NdimonR.State.ImportTessera
