import NdimonR.State.Plan
import NdimonR.Types.Valid

/-! The commands and commits that decide what Tessera, audio and network say of each other. -/

namespace NdimonR.State

open Types

/-- The error, unless the condition holds. -/
def ensure (condition : Bool) (error : ApiError) : Except ApiError Unit :=
  if condition then .ok () else .error error

/-! ### Tessera -/

namespace Tessera

def invalid (reason : String) : ApiError := ApiError.ofErrors [⟨"tessera", reason⟩]

/-- Ownership locks are policy, not caller-removable settings. -/
def ownedLocks : List (String × String) :=
  ["device.name", "device.sample_rate", "device.encoding", "device.latency", "device.rx_channels",
    "device.tx_channels", "device.rx_channel_labels", "device.tx_channel_labels", "clock.role",
    "clock.priority", "flows"].map fun key => (key, "ndimon-control")

def locked (t : Types.Tessera) : Types.Tessera :=
  { t with locks := ownedLocks.foldl (fun m e => m.insert e.1 e.2) t.locks }

def preferredLeaderBelow : Nat := 64
def defaultPriority : Nat := 128

/-- Role `follower` with a Preferred Leader priority. -/
def conflicts (c : TesseraClock) : Bool := c.role == .follower && c.priority < preferredLeaderBelow

/-- A follower's preferred priority is dropped for the default. -/
def effective (c : TesseraClock) : TesseraClock :=
  { c with priority := if conflicts c then defaultPriority else c.priority }

/-- Adopting a runtime's settings keeps the clock it runs. -/
def clockOf (before : Option Types.Tessera) (t : Types.Tessera) : Except ApiError TesseraClock :=
  match before with
  | none => .ok (effective t.clock)
  | some b => do
    ensure (b.clock = t.clock || !conflicts t.clock) (ApiError.ofErrors [⟨"tessera.clock.priority",
      "a follower cannot be the Preferred Leader: use priority 64 or higher, or role auto"⟩])
    .ok t.clock

def installed (s : DesiredState) : Bool := (s.plugins.get? "tessera").any (·.installed)

/-- The projection of a changed device on the retained legacy endpoints. -/
abbrev Resize := Audio → TesseraDevice → Except ApiError Audio

def set (resize : Resize) (s : DesiredState) (t : Types.Tessera) : Except ApiError DesiredState := do
  let clock ← clockOf s.tessera t
  let audio ←
    if s.tessera.any fun before => before.device.rxChannels != t.device.rxChannels ||
        before.device.txChannels != t.device.txChannels then resize s.audio t.device
    else .ok s.audio
  .ok { s with audio, tessera := some { locked t with clock } }

def configured (s : DesiredState) : Except ApiError Types.Tessera :=
  match s.tessera with
  | some t => .ok t
  | none => .error (invalid "Tessera is not configured")

def setLabel (t : Types.Tessera) (direction : Direction) (channel : Nat) (label : Option String) :
    Except ApiError Types.Tessera := do
  let count := match direction with
    | .rx => t.device.rxChannels
    | .tx => t.device.txChannels
  ensure (channel ≠ 0 && channel ≤ count) (invalid "invalid channel label")
  let change (labels : SortedMap Nat String) : SortedMap Nat String :=
    match label with
    | some label => labels.insert channel label
    | none => labels.erase channel
  .ok (match direction with
    | .rx => { t with device := { t.device with rxLabels := change t.device.rxLabels } }
    | .tx => { t with device := { t.device with txLabels := change t.device.txLabels } })

def restore (s : DesiredState) (t : Types.Tessera) (audio : Audio) : Except ApiError DesiredState := do
  ensure (audio.engine = s.audio.engine && audio.settings = s.audio.settings &&
    audio.videoDelayMs == s.audio.videoDelayMs) (invalid ("Tessera restore cannot change decoder " ++
      "engine settings; use the audio command"))
  .ok { s with tessera := some (locked t), audio }

/-- What a command makes of the document, before the rules that join the domains. -/
def change (resize : Resize) (s : DesiredState) : Command → Except ApiError DesiredState
  | .setTessera t => set resize s t
  | .putTesseraFlows flows => do
    let t ← configured s
    .ok { s with tessera := some { t with flows } }
  | .setTesseraLabel direction channel label => do
    let t ← configured s
    let t ← setLabel t direction channel label
    .ok { s with tessera := some t }
  | .restoreTessera t audio => restore s t audio
  | .tesseraService _ => .ok s
  | _ => .error (invalid "command does not belong to Tessera")

/-- The last channel of a range, in the arithmetic of 32 bits. -/
def lastChannel (start channels : Nat) : Nat := (start + channels + (2 ^ 32 - 1)) % 2 ^ 32

def bindingError : ApiError :=
  invalid "Tessera binding must reference the adopted audio network role"
def rxError : ApiError := invalid "active RX endpoint exceeds Tessera channels"
def txError : ApiError := invalid "active TX endpoint exceeds Tessera channels"

/-- The binding names the network of the audio role. -/
def bound (t : Types.Tessera) (network : NetworkProfiles) : Bool :=
  t.networkBinding.all fun id => id == network.roles.audio && network.networks.any (·.id == id)

def sourceFits (t : Types.Tessera) (s : AudioSource) : Bool :=
  !(s.enabled && s.resource == "tessera:main:rx") ||
    lastChannel s.channelStart s.channels ≤ t.device.rxChannels

def sinkFits (t : Types.Tessera) (s : AudioSink) : Bool :=
  !(s.enabled && s.resource == "tessera:main:tx") ||
    lastChannel s.channelStart s.channels ≤ t.device.txChannels

/-- The rules that join the domains. -/
def agreement (s : DesiredState) : Except ApiError Unit :=
  match s.tessera with
  | none => .ok ()
  | some t => do
    ensure (bound t s.network) bindingError
    ensure (s.audio.sources.values.all (sourceFits t)) rxError
    ensure (s.audio.sinks.values.all (sinkFits t)) txError

def reduce (resize : Resize) (s : DesiredState) (c : Command) : Except ApiError DesiredState := do
  ensure (installed s) (.unsupported "Tessera plugin is not installed")
  let next ← change resize s c
  agreement next
  .ok next

end Tessera

/-! ### Audio -/

namespace Audio

/-- What the projections of the audio settings compute. -/
structure Projections where
  primary : Types.Audio → OutputId
  /-- The primary output and the routes that the factors of the first engine amount to. -/
  derive : Types.Audio → Except ApiError (OutputAudio × SortedMap String AudioRoute)
  compileOutput : DesiredState → OutputId → OutputAudio → Bool → Except ApiError Types.Audio

/-- Under the first engine the factorized matrix is authoritative. -/
def syncV1 (env : Projections) (audio : Types.Audio) : Except ApiError Types.Audio :=
  if audio.engine ≠ .v1 ∨ audio.sources.contains "ndi" = false then .ok audio
  else do
    let derived ← env.derive audio
    let p := env.primary audio
    .ok { audio with
      outputs := audio.outputs.insert p derived.1
      routes := derived.2.entries.foldl (fun m e => m.insert e.1 e.2)
        (audio.routes.filter fun _ r => r.output != p) }

/-- Endpoint replacements also update the retained draft. -/
def putSource (env : Projections) (audio : Types.Audio) (id : String) (source : AudioSource) :
    Except ApiError Types.Audio :=
  let old := audio.sources.get? id
  syncV1 env { audio with
    sources := audio.sources.insert id source
    outputs := audio.outputs.mapValues fun _ out =>
      { out with definitions := { out.definitions with
        sources := out.definitions.sources.mapValues fun «alias» definition =>
          if «alias» = id ∨ old.any (·.endpoint == definition.endpoint) then source
          else definition } } }

def putSink (env : Projections) (audio : Types.Audio) (id : String) (sink : AudioSink) :
    Except ApiError Types.Audio :=
  let old := audio.sinks.get? id
  syncV1 env { audio with
    sinks := audio.sinks.insert id sink
    outputs := audio.outputs.mapValues fun _ out =>
      { out with definitions := { out.definitions with
        sinks := out.definitions.sinks.mapValues fun «alias» definition =>
          if «alias» = id ∨ old.any (·.endpoint == definition.endpoint) then sink
          else definition } } }

def removeEndpoints (env : Projections) (audio : Types.Audio) (ids : List String) :
    Except ApiError Types.Audio := do
  ensure (!ids.any fun id => id == "ndi" || id == "hdmi")
    (ApiError.ofErrors [⟨"ids", "reserved audio ids cannot be removed"⟩])
  let sources := audio.sources.filter fun id node =>
    !ids.contains id && !(ids.contains "net-in" && node.resource == "tessera:main:rx")
  let kept := audio.sinks.filter fun id node =>
    !ids.contains id && !(ids.contains "net-out" && node.resource == "tessera:main:tx")
  let sinks := kept.mapValues fun _ sink =>
    { sink with mix := sink.mix.filter fun id _ => !ids.contains id }
  let routes := audio.routes.filter fun _ r => sources.contains r.source && sinks.contains r.sink
  let master := if sinks.contains audio.settings.master then audio.settings.master
    else sinks.keys.head?.getD ""
  syncV1 env { audio with sources, sinks, routes, settings := { audio.settings with master } }

def change (env : Projections) (s : DesiredState) : Command → Except ApiError Types.Audio
  | .putAudio audio => .ok audio
  | .setAudioEngine engine => .ok { s.audio with engine }
  | .putAudioSource id source => putSource env s.audio id source
  | .putAudioSink id sink => putSink env s.audio id sink
  | .removeAudioEndpoints ids => removeEndpoints env s.audio ids
  | .importBackup document .audio => .ok document.document.audio
  | .putOutputAudio output choice normalize => do
    let audio ← env.compileOutput s output choice normalize
    -- Native output commands own engine selection as part of the same change.
    .ok { audio with engine := .v2 }
  | _ => .error (.unsupported "domain is followed; use its legacy writer until ownership moves")

def reduce (env : Projections) (s : DesiredState) (c : Command) : Except ApiError DesiredState := do
  let audio ← change env s c
  .ok { s with audio }

end Audio

/-! ### Backups -/

/-- Network has its own confirmed transaction, never an ordinary restore. -/
def selected (scope : RestoreScope) (domain : Domain) : Bool :=
  match scope with
  | .all => domain ≠ .network
  | .settings => domain ≠ .network && domain ≠ .plugins
  | .sources => domain = .presets || domain = .outputs || domain = .ndi
  | _ => false

def copySection (domain : Domain) (next imported : DesiredState) : DesiredState :=
  match domain with
  | .network => { next with network := imported.network }
  | .tessera => { next with tessera := imported.tessera }
  | .audio => { next with audio := imported.audio }
  | .device => { next with device := imported.device }
  | .outputs => { next with outputs := imported.outputs }
  | .ndi => { next with ndi := imported.ndi }
  | .display => { next with display := imported.display }
  | .presets => { next with presets := imported.presets }
  | .plugins => { next with plugins := imported.plugins }

/-- Every domain is owned natively. -/
def restoreBackup (floatLen : ℚ → Nat) (s : DesiredState) (backup : BackupDocument)
    (scope : RestoreScope) : Except ApiError DesiredState :=
  match validate floatLen backup.document with
  | .error errors => .error (ApiError.ofErrors errors)
  | .ok () => .ok ((registry.filter (selected scope)).foldl
      (fun next domain => copySection domain next backup.document) s)

/-! ### Commits -/

/-- What the other reducers may change: their own sections, and whether an output plays. -/
structure Elsewhere (s next : DesiredState) : Prop where
  tessera : next.tessera = s.tessera
  network : next.network = s.network
  sources : next.audio.sources = s.audio.sources
  sinks : next.audio.sinks = s.audio.sinks

/-- The code outside these domains that the commits depend on. -/
structure Env where
  floatLen : ℚ → Nat
  resize : Tessera.Resize
  audio : Audio.Projections

/-- What one accepted change makes of the document. -/
inductive Change (env : Env) (s : DesiredState) : DesiredState → Prop where
  | tessera {c next} : Tessera.reduce env.resize s c = .ok next → Change env s next
  | audio {c next} : Audio.reduce env.audio s c = .ok next → Change env s next
  | restore {backup scope next} : restoreBackup env.floatLen s backup scope = .ok next →
      Change env s next
  | network (profiles : NetworkProfiles) : Change env s { s with network := profiles }
  | elsewhere {next} : Elsewhere s next → Change env s next

/-- Every change is validated as a whole, with the revision it is committed under. -/
structure Step (env : Env) (s next : DesiredState) : Prop where
  change : ∃ changed revision, Change env s changed ∧ next = { changed with revision }
  valid : validate env.floatLen next = .ok ()

/-- A fresh or imported document, and what any sequence of commits makes of it. -/
inductive Reachable (env : Env) : DesiredState → Prop where
  | start {s} : validate env.floatLen s = .ok () → Reachable env s
  | step {s next} : Reachable env s → Step env s next → Reachable env next

end NdimonR.State
